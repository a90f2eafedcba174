/-
# Admin.Keyring -- the clients' keys, in memory and in files

A keyring keeps the keys of each client.  `InMemory` is a map; `FileStore` keeps one file for each
client, named by the hex digits of the client id, and a cache of what it has read or written.  A
key file is written beside its place and moved there.

* `hexDecode_hexEncode`, `hexEncode_of_hexDecode`: a name has one client id, and the client id one name.
* `deserialize_serialize`: a key file gives back the keys it was written from.
* `fileStore_is_map`: on any sequence of calls and reopenings the file store answers as the map
  does, and creates files only in its directory.
-/
import OpaqueDb.Server.EvalCache
import OpaqueDb.Server.RepositoryManager

namespace OpaqueDb.Admin

open OpaqueDb.Core Theory List Option
open Server (slash components resolve Plain classify)
open Server.EvalCache (KeyMaterial)

set_option autoImplicit false

/-! ## Hex digits -/

def kDigits : Bytes := bytes "0123456789abcdef"

def hexEncode (id : Bytes) : Bytes :=
  id.flatMap fun c : UInt8 => [kDigits.getD (c >>> 4).toNat 0, kDigits.getD (c &&& 15).toNat 0]

def nibble (c : UInt8) : Option UInt8 :=
  if 48 ≤ c ∧ c ≤ 57 then some (c - 48)
  else if 97 ≤ c ∧ c ≤ 102 then some (c - 97 + 10)
  else none

def hexDecode : Bytes → Option Bytes
  | [] => some []
  | [_] => none
  | first :: second :: rest => do
    let hi ← nibble first
    let lo ← nibble second
    let later ← hexDecode rest
    return (hi <<< 4 ||| lo) :: later

theorem nibble_digits (c : UInt8) :
    nibble (kDigits.getD (c >>> 4).toNat 0) = some (c >>> 4) ∧
      nibble (kDigits.getD (c &&& 15).toNat 0) = some (c &&& 15) ∧
      (c >>> 4) <<< 4 ||| (c &&& 15) = c := by
  have all : ∀ n < 256, nibble (kDigits.getD (UInt8.ofNat n >>> 4).toNat 0) =
      some (UInt8.ofNat n >>> 4) ∧ nibble (kDigits.getD (UInt8.ofNat n &&& 15).toNat 0) =
        some (UInt8.ofNat n &&& 15) ∧
      (UInt8.ofNat n >>> 4) <<< 4 ||| (UInt8.ofNat n &&& 15) = UInt8.ofNat n := by
    decide +kernel
  simpa using all c.toNat c.toNat_lt

/-- A digit is the digit of its value. -/
theorem digit_nibble {c v : UInt8} (digit : nibble c = some v) :
    v.toNat < 16 ∧ kDigits.getD v.toNat 0 = c := by
  have all : ∀ n < 256, ∀ v ∈ nibble (UInt8.ofNat n), v.toNat < 16 ∧
      kDigits.getD v.toNat 0 = UInt8.ofNat n := by
    decide +kernel
  simpa using all c.toNat c.toNat_lt v (by simpa using digit)

theorem nibbles_of_byte {hi lo : UInt8} (small : hi.toNat < 16) (small' : lo.toNat < 16) :
    (hi <<< 4 ||| lo) >>> 4 = hi ∧ (hi <<< 4 ||| lo) &&& 15 = lo := by
  have all : ∀ a < 16, ∀ b < 16,
      (UInt8.ofNat a <<< 4 ||| UInt8.ofNat b) >>> 4 = UInt8.ofNat a ∧
        (UInt8.ofNat a <<< 4 ||| UInt8.ofNat b) &&& 15 = UInt8.ofNat b := by
    decide +kernel
  simpa using all hi.toNat small lo.toNat small'

theorem hexEncode_cons (c : UInt8) (id : Bytes) : hexEncode (c :: id) =
    kDigits.getD (c >>> 4).toNat 0 :: kDigits.getD (c &&& 15).toNat 0 :: hexEncode id :=
  rfl

theorem hexDecode_hexEncode (id : Bytes) : hexDecode (hexEncode id) = some id := by
  induction id with
  | nil => rfl
  | cons c id ih =>
    obtain ⟨first, second, joined⟩ := nibble_digits c
    rw [hexEncode_cons, hexDecode, first, second, ih]
    exact congrArg (fun b => some (b :: id)) joined

/-- A name has at most one client id, and is what that client id is written as. -/
theorem hexEncode_of_hexDecode : ∀ {text id : Bytes}, hexDecode text = some id → text = hexEncode id
  | [], id, decoded => by
    cases decoded
    rfl
  | [_], id, decoded => by cases decoded
  | first :: second :: rest, id, decoded => by
    obtain ⟨hi, high, decoded₁⟩ := bind_eq_some_iff.1 decoded
    obtain ⟨lo, low, decoded₂⟩ := bind_eq_some_iff.1 decoded₁
    obtain ⟨later, behind, decoded₃⟩ := bind_eq_some_iff.1 decoded₂
    cases decoded₃
    obtain ⟨small, spelled⟩ := digit_nibble high
    obtain ⟨small', spelled'⟩ := digit_nibble low
    obtain ⟨upper, lower⟩ := nibbles_of_byte small small'
    rw [hexEncode_cons, upper, lower, spelled, spelled', ← hexEncode_of_hexDecode behind]

theorem hexEncode_injective : Function.Injective hexEncode := by
  intro a b same
  have decoded := hexDecode_hexEncode a
  rw [same, hexDecode_hexEncode b] at decoded
  exact (some.inj decoded).symm

variable {id : Bytes}

/-- Every character of a hex form is a letter or a digit. -/
theorem digit_of_mem_hexEncode {c : UInt8} (member : c ∈ hexEncode id) : c ∈ kDigits := by
  have digits : ∀ n < 16, kDigits.getD n 0 ∈ kDigits := by decide
  obtain ⟨b, _, either⟩ := mem_flatMap.1 member
  have whole := b.toNat_lt
  rcases mem_cons.1 either with rfl | second
  · exact digits _ (by simp [UInt8.toNat_shiftRight]; omega)
  · rw [mem_singleton.1 second]
    exact digits _ (by rw [UInt8.toNat_and]; exact Nat.lt_succ_of_le Nat.and_le_right)

/-! ## Key files -/

def kMagic : Bytes := bytes "OQKEYR01"

def appendBlob (blob : Bytes) : Bytes :=
  leBytes 8 blob.length ++ blob

def serialize (keys : KeyMaterial) : Bytes :=
  kMagic ++ (appendBlob keys.publicKey ++ (appendBlob keys.relinKeys ++ appendBlob keys.galoisKeys))

/-- A blob and the bytes behind it. -/
def readBlob (rest : Bytes) : Option (Bytes × Bytes) :=
  if rest.length < 8 then none
  else
    let len := orBytes (rest.take 8)
    if len > (rest.drop 8).length then none
    else some ((rest.drop 8).take len, (rest.drop 8).drop len)

def readBlobs (rest : Bytes) : Option KeyMaterial := do
  let (publicKey, rest) ← readBlob rest
  let (relinKeys, rest) ← readBlob rest
  let (galoisKeys, _) ← readBlob rest
  return ⟨publicKey, relinKeys, galoisKeys⟩

def deserialize (buf : Bytes) : StatusOr KeyMaterial :=
  if buf.take kMagic.length ≠ kMagic then
    .error ⟨.dataLoss, bytes "key file has a bad or missing magic"⟩
  else
    match readBlobs (buf.drop kMagic.length) with
    | none => .error ⟨.dataLoss, bytes "key file is truncated or malformed"⟩
    | some keys => .ok keys

/-- The sizes of the keys are machine words. -/
def Sized (keys : KeyMaterial) : Prop :=
  keys.publicKey.length < 2 ^ 64 ∧ keys.relinKeys.length < 2 ^ 64 ∧ keys.galoisKeys.length < 2 ^ 64

/-! ## Paths -/

def dot : UInt8 := 46

/-- `fs::path` joined by its `/`. -/
def joinPath (dir name : Bytes) : Bytes :=
  if dir.isEmpty ∨ dir.getLast? = some slash then dir ++ name else dir ++ slash :: name

/-- The stem and the extension of a file name, `fs::path::stem` and `extension`. -/
def splitExtension (name : Bytes) : Bytes × Bytes :=
  let after := (name.reverse.takeWhile (· != dot)).length
  if name = [dot] ∨ name = [dot, dot] ∨ name.length ≤ after + 1 then (name, [])
  else (name.take (name.length - (after + 1)), name.drop (name.length - (after + 1)))

def keysExtension : Bytes := bytes ".keys"

/-- The client a file of the directory belongs to. -/
def clientOf (name : Bytes) : Option Bytes :=
  if (splitExtension name).2 ≠ keysExtension then none else hexDecode (splitExtension name).1

/-! ## The stores -/

def emptyClientId : Status :=
  invalidArgument ["client id is empty"]

def notRegistered (clientId : Bytes) : Status :=
  ⟨.notFound, strCat ["client '", clientId, "' has not registered keys"]⟩

abbrev Keys : Type := Finmap fun _ : Bytes => KeyMaterial

namespace InMemory

def put (clientId : Bytes) (keys : KeyMaterial) (store : Keys) : StatusOr Unit × Keys :=
  if clientId.isEmpty then (.error emptyClientId, store) else (.ok (), store.insert clientId keys)

def get (clientId : Bytes) (store : Keys) : StatusOr KeyMaterial :=
  match store.lookup clientId with
  | none => .error (notRegistered clientId)
  | some keys => .ok keys

def contains (clientId : Bytes) (store : Keys) : Bool :=
  (store.lookup clientId).isSome

def clientIds (store : Keys) : List Bytes :=
  store.keys.sort (· ≤ ·)

end InMemory

/-- The files of a machine, by where their path leads. -/
abbrev Files : Type := Finmap fun _ : Place Bytes => Bytes

inductive FileStep where
  | write (path content : Bytes)
  | rename (source target : Bytes)

namespace FileStep

/-- The path at which there is a file afterwards. -/
def creates : FileStep → Bytes
  | .write path _ => path
  | .rename _ target => target

def run (files : Files) : FileStep → Files
  | .write path content => files.insert (resolve path) content
  | .rename source target =>
    match files.lookup (resolve source) with
    | none => files
    | some content => (files.erase (resolve source)).insert (resolve target) content

theorem run_rename {files : Files} {source content : Bytes}
    (held : files.lookup (resolve source) = some content) (target : Bytes) :
    run files (.rename source target) =
      (files.erase (resolve source)).insert (resolve target) content := by
  rw [run, held]

end FileStep

structure FileStore where
  dir : Bytes
  files : Files
  cache : Keys := ∅

namespace FileStore

variable (store : FileStore)

def pathFor (clientId : Bytes) : Bytes :=
  joinPath store.dir (hexEncode clientId ++ keysExtension)

/-- What `Put` does to the files. -/
def putSteps (clientId : Bytes) (keys : KeyMaterial) : List FileStep :=
  let path := store.pathFor clientId
  let tmp := path ++ bytes ".tmp"
  [.write tmp (serialize keys), .rename tmp path]

def put (clientId : Bytes) (keys : KeyMaterial) : StatusOr Unit × FileStore :=
  if clientId.isEmpty then (.error emptyClientId, store)
  else (.ok (), { store with
    files := (store.putSteps clientId keys).foldl FileStep.run store.files
    cache := store.cache.insert clientId keys })

def get (clientId : Bytes) : StatusOr KeyMaterial × FileStore :=
  match store.cache.lookup clientId with
  | some keys => (.ok keys, store)
  | none =>
    match store.files.lookup (resolve (store.pathFor clientId)) with
    | none => (.error (notRegistered clientId), store)
    | some content =>
      match deserialize content with
      | .error status => (.error status, store)
      | .ok keys => (.ok keys, { store with cache := store.cache.insert clientId keys })

def contains (clientId : Bytes) : Bool :=
  (store.cache.lookup clientId).isSome ||
    (store.files.lookup (resolve (store.pathFor clientId))).isSome

/-- The listing is what the directory iterator goes through. -/
def clientIds (listing : List Bytes) : List Bytes :=
  listing.filterMap clientOf

def reopen : FileStore :=
  { store with cache := ∅ }

end FileStore

/-! ## Runs -/

inductive KeyringCall where
  | put (clientId : Bytes) (keys : KeyMaterial)
  | get (clientId : Bytes)
  | contains (clientId : Bytes)
  /-- With the names in the directory, in the order the system lists them. -/
  | clientIds (listing : List Bytes)
  | reopen

inductive Answer where
  | stored (status : StatusOr Unit)
  | found (keys : StatusOr KeyMaterial)
  | known (flag : Bool)
  | ids (clientIds : List Bytes)

/-- The answers, and the order of a list of client ids apart the same. -/
inductive Answer.Agree : Answer → Answer → Prop
  | stored (status : StatusOr Unit) : Agree (.stored status) (.stored status)
  | found (keys : StatusOr KeyMaterial) : Agree (.found keys) (.found keys)
  | known (flag : Bool) : Agree (.known flag) (.known flag)
  | ids {a b : List Bytes} (perm : a.Perm b) : Agree (.ids a) (.ids b)

namespace FileStore

def step (store : FileStore) : KeyringCall → List Answer × FileStore
  | .put clientId keys => ([.stored (store.put clientId keys).1], (store.put clientId keys).2)
  | .get clientId => ([.found (store.get clientId).1], (store.get clientId).2)
  | .contains clientId => ([.known (store.contains clientId)], store)
  | .clientIds listing => ([.ids (clientIds listing)], store)
  | .reopen => ([], store.reopen)

/-- The answers of a run. -/
def answers : FileStore → List KeyringCall → List Answer
  | _, [] => []
  | store, call :: calls => (store.step call).1 ++ answers (store.step call).2 calls

/-- The changes a call makes to the files. -/
def fileSteps (store : FileStore) : KeyringCall → List FileStep
  | .put clientId keys => if clientId.isEmpty then [] else store.putSteps clientId keys
  | _ => []

def runSteps : FileStore → List KeyringCall → List FileStep
  | _, [] => []
  | store, call :: calls => store.fileSteps call ++ runSteps (store.step call).2 calls

/-- The machine can hold the keys, and a listing has every name of the directory once. -/
def Allows (store : FileStore) : KeyringCall → Prop
  | .put _ keys => Sized keys
  | .clientIds listing => listing.Nodup ∧
      ∀ name, name ∈ listing ↔ (resolve store.dir).down [name] ∈ store.files
  | _ => True

def AllowsAll : FileStore → List KeyringCall → Prop
  | _, [] => True
  | store, call :: calls => store.Allows call ∧ AllowsAll (store.step call).2 calls

end FileStore

namespace InMemory

def step (store : Keys) : KeyringCall → List Answer × Keys
  | .put clientId keys => ([.stored (put clientId keys store).1], (put clientId keys store).2)
  | .get clientId => ([.found (get clientId store)], store)
  | .contains clientId => ([.known (contains clientId store)], store)
  | .clientIds _ => ([.ids (clientIds store)], store)
  | .reopen => ([], store)

def answers : Keys → List KeyringCall → List Answer
  | _, [] => []
  | store, call :: calls => (step store call).1 ++ answers (step store call).2 calls

end InMemory

/-! ## A key file -/

theorem readBlob_appendBlob {blob : Bytes} (word : blob.length < 2 ^ 64) (rest : Bytes) :
    readBlob (appendBlob blob ++ rest) = some (blob, rest) := by
  have front : appendBlob blob ++ rest = leBytes 8 blob.length ++ (blob ++ rest) :=
    append_assoc ..
  have size : (leBytes 8 blob.length).length = 8 := leBytes_length ..
  rw [readBlob, front, if_neg (by rw [length_append]; omega), take_left' size,
    drop_left' size]
  simp only [orBytes_leBytes (show blob.length < 256 ^ 8 from word)]
  rw [if_neg (by rw [length_append]; omega), take_left, drop_left]

/-- **A key file gives back its keys.** -/
theorem deserialize_serialize {keys : KeyMaterial} (sized : Sized keys) :
    deserialize (serialize keys) = .ok keys := by
  obtain ⟨publicKey, relinKeys, galoisKeys⟩ := sized
  have blobs : readBlobs (appendBlob keys.publicKey ++
      (appendBlob keys.relinKeys ++ appendBlob keys.galoisKeys)) = some keys := by
    have last := readBlob_appendBlob galoisKeys []
    rw [append_nil] at last
    rw [readBlobs, readBlob_appendBlob publicKey]
    simp only [bind_eq_bind, bind_some, readBlob_appendBlob relinKeys, last]
    rfl
  rw [deserialize, serialize, take_left, drop_left, if_neg (not_not.2 rfl), blobs]

/-! ## Names and places -/

theorem plain_of_digits {ending : Bytes} (long : 3 ≤ ending.length) (single : slash ∉ ending)
    (text : 0 ∉ ending) :
    Plain (hexEncode id ++ ending) := by
  have length : 3 ≤ (hexEncode id ++ ending).length := by
    rw [length_append]
    omega
  refine ⟨?_, ?_, ?_, ?_, ?_⟩
  · rintro empty
    rw [empty] at length
    cases length
  · intro here
    rw [here] at length
    exact absurd length (by decide)
  · intro up
    rw [up] at length
    exact absurd length (by decide)
  · intro member
    rcases mem_append.1 member with digit | here
    · exact absurd (digit_of_mem_hexEncode digit) (by decide)
    · exact single here
  · intro member
    rcases mem_append.1 member with digit | ends
    · exact absurd (digit_of_mem_hexEncode digit) (by decide)
    · exact text ends

variable {name : Bytes} (dir : Bytes)

theorem components_joinPath (plain : Plain name) :
    components (joinPath dir name) = components dir ++ [.name name] := by
  rw [← plain.components]
  unfold joinPath
  by_cases empty : dir = []
  · rw [empty]
    rfl
  by_cases ended : dir.getLast? = some slash
  · -- a separator at the end of the directory is not repeated
    rw [if_pos (.inr ended)]
    obtain ⟨front, rfl⟩ := getLast?_eq_some_iff.1 ended
    have closed := Server.components_append front []
    rw [append_assoc, closed]
    exact (Server.components_append front name).trans (by rw [append_assoc]; rfl)
  · rw [if_neg (by simp [empty, ended])]
    exact Server.components_append dir name

theorem resolve_joinPath (plain : Plain name) :
    resolve (joinPath dir name) = (resolve dir).down [name] := by
  have rooted : ((joinPath dir name).head? == some slash) = (dir.head? == some slash) := by
    obtain ⟨nonempty, _, _, single, _⟩ := plain
    cases dir with
    | cons c dir =>
      unfold joinPath
      split <;> rfl
    | nil =>
      cases name with
      | nil => exact absurd rfl nonempty
      | cons c name =>
        have : c ≠ slash := fun same => single (same ▸ mem_cons_self)
        simpa [joinPath] using this
  rw [resolve, rooted, components_joinPath dir plain, Place.walk_append]
  rfl

theorem joinPath_append (name more : Bytes) :
    joinPath dir name ++ more = joinPath dir (name ++ more) := by
  rw [joinPath, joinPath]
  split <;> simp

theorem splitExtension_keys (named : id ≠ []) :
    splitExtension (hexEncode id ++ keysExtension) = (hexEncode id, keysExtension) := by
  have tail : ((hexEncode id ++ keysExtension).reverse.takeWhile (· != dot)).length = 4 := by
    rw [reverse_append]
    rfl
  have length : (hexEncode id ++ keysExtension).length = (hexEncode id).length + 5 :=
    length_append
  have digits : 0 < (hexEncode id).length := by
    cases id with
    | nil => exact absurd rfl named
    | cons c id => exact Nat.succ_pos _
  have short : ¬ (hexEncode id ++ keysExtension = [dot] ∨ hexEncode id ++ keysExtension = [dot, dot] ∨
      (hexEncode id ++ keysExtension).length ≤ 4 + 1) := by
    rintro (one | two | few)
    · rw [one, length_singleton] at length
      omega
    · rw [two] at length
      simp at length
    · omega
  unfold splitExtension
  simp only [tail]
  rw [if_neg short, length, Nat.add_sub_cancel, take_left, drop_left]

/-- The files of the directory that belong to a client. -/
theorem clientOf_eq_some :
    clientOf name = some id ↔ id ≠ [] ∧ name = hexEncode id ++ keysExtension := by
  constructor
  · intro belongs
    unfold clientOf at belongs
    split_ifs at belongs with keyed
    rw [not_not] at keyed
    have stem := hexEncode_of_hexDecode belongs
    unfold splitExtension at keyed stem
    simp only at keyed stem
    split_ifs at keyed stem with unsplit
    · cases keyed
    · rw [← stem, ← keyed, take_append_drop]
      refine ⟨?_, rfl⟩
      rintro rfl
      have lengths := congrArg List.length stem
      rw [length_take] at lengths
      simp only [hexEncode, flatMap_nil, length_nil] at lengths
      omega
  · rintro ⟨named, rfl⟩
    rw [clientOf, splitExtension_keys named]
    exact hexDecode_hexEncode id

namespace FileStore

variable (store : FileStore)

/-- Where the file of a client is. -/
def keyPlace (clientId : Bytes) : Place Bytes :=
  (resolve store.dir).down [hexEncode clientId ++ keysExtension]

/-- Where the file is written before it is moved. -/
def tmpPlace (clientId : Bytes) : Place Bytes :=
  (resolve store.dir).down [hexEncode clientId ++ (keysExtension ++ bytes ".tmp")]

variable (clientId : Bytes)

theorem resolve_pathFor : resolve (store.pathFor clientId) = store.keyPlace clientId :=
  resolve_joinPath store.dir (plain_of_digits (by decide) (by decide) (by decide))

theorem resolve_tmp :
    resolve (store.pathFor clientId ++ bytes ".tmp") = store.tmpPlace clientId := by
  rw [pathFor, joinPath_append, append_assoc]
  exact resolve_joinPath store.dir (plain_of_digits (by decide) (by decide) (by decide))

theorem down_singleton_inj {p : Place Bytes} {a b : Bytes} : p.down [a] = p.down [b] ↔ a = b := by
  simp [Place.down]

theorem keyPlace_inj {a b : Bytes} : store.keyPlace a = store.keyPlace b ↔ a = b := by
  rw [keyPlace, keyPlace, down_singleton_inj, append_cancel_right_eq]
  exact hexEncode_injective.eq_iff

theorem keyPlace_ne_tmpPlace (a b : Bytes) : store.keyPlace a ≠ store.tmpPlace b := by
  intro same
  have names := down_singleton_inj.1 same
  -- the names end in different bytes
  have ends := congrArg List.getLast? names
  rw [getLast?_append_of_ne_nil _ (by decide), getLast?_append_of_ne_nil _ (by decide)]
    at ends
  exact absurd ends (by decide)

variable (files : Files)

theorem run_putSteps (clientId : Bytes) (keys : KeyMaterial) :
    (store.putSteps clientId keys).foldl FileStep.run files =
      ((files.insert (store.tmpPlace clientId) (serialize keys)).erase (store.tmpPlace clientId)).insert
        (store.keyPlace clientId) (serialize keys) := by
  rw [← resolve_tmp, ← resolve_pathFor]
  exact FileStep.run_rename (Finmap.lookup_insert _) _

/-- A file is stored at its place, and the other clients' files stay as they are. -/
theorem putSteps_lookup (clientId id : Bytes) (keys : KeyMaterial) :
    ((store.putSteps clientId keys).foldl FileStep.run files).lookup (store.keyPlace id) =
      if id = clientId then some (serialize keys) else files.lookup (store.keyPlace id) := by
  rw [run_putSteps]
  by_cases same : id = clientId
  · rw [if_pos same, same, Finmap.lookup_insert]
  · rw [if_neg same, Finmap.lookup_insert_of_ne _ (by rwa [ne_eq, keyPlace_inj]),
      Finmap.lookup_erase_ne (store.keyPlace_ne_tmpPlace id clientId),
      Finmap.lookup_insert_of_ne _ (store.keyPlace_ne_tmpPlace id clientId)]

end FileStore

/-! ## The files are the map -/

/-- The files hold the map, and the cache a part of it. -/
structure Represents (store : FileStore) (keys : Keys) : Prop where
  filed : ∀ id, store.files.lookup (store.keyPlace id) = (keys.lookup id).map serialize
  cached : ∀ id key, store.cache.lookup id = some key → keys.lookup id = some key
  sized : ∀ id key, keys.lookup id = some key → Sized key
  named : keys.lookup [] = none

variable {call : KeyringCall} {calls : List KeyringCall}

namespace Represents

variable {store : FileStore} {keys : Keys}

variable (represents : Represents store keys)
include represents

theorem put (clientId : Bytes) {key : KeyMaterial} (sized : Sized key) :
    (store.put clientId key).1 = (InMemory.put clientId key keys).1 ∧
      Represents (store.put clientId key).2 (InMemory.put clientId key keys).2 := by
  by_cases empty : clientId = []
  · subst empty
    exact ⟨rfl, represents⟩
  have visible : ¬ clientId.isEmpty = true := by simpa using empty
  rw [FileStore.put, InMemory.put, if_neg visible, if_neg visible]
  refine ⟨rfl, fun id => ?_, fun id key' known => ?_, fun id key' known => ?_, ?_⟩
  · refine (store.putSteps_lookup store.files clientId id key).trans ?_
    by_cases same : id = clientId
    · rw [if_pos same, same, Finmap.lookup_insert]
      rfl
    · rw [if_neg same, Finmap.lookup_insert_of_ne _ same]
      exact represents.filed id
  · by_cases same : id = clientId
    · subst same
      rw [Finmap.lookup_insert] at known ⊢
      exact known
    · rw [Finmap.lookup_insert_of_ne _ same] at known ⊢
      exact represents.cached id key' known
  · by_cases same : id = clientId
    · subst same
      rw [Finmap.lookup_insert] at known
      cases known
      exact sized
    · rw [Finmap.lookup_insert_of_ne _ same] at known
      exact represents.sized id key' known
  · rw [Finmap.lookup_insert_of_ne _ (Ne.symm empty)]
    exact represents.named

theorem get (clientId : Bytes) :
    (store.get clientId).1 = InMemory.get clientId keys ∧ Represents (store.get clientId).2 keys := by
  have filed := represents.filed clientId
  rw [FileStore.get, InMemory.get, FileStore.resolve_pathFor]
  cases cached : store.cache.lookup clientId with
  | some key =>
    rw [represents.cached clientId key cached]
    exact ⟨rfl, represents⟩
  | none =>
    cases known : keys.lookup clientId with
    | none =>
      rw [known] at filed
      rw [filed]
      exact ⟨rfl, represents⟩
    | some key =>
      rw [known, map_some] at filed
      simp only [filed, deserialize_serialize (represents.sized clientId key known)]
      refine ⟨trivial, represents.filed, fun id key' cached' => ?_, represents.sized,
        represents.named⟩
      by_cases same : id = clientId
      · subst same
        rw [Finmap.lookup_insert] at cached'
        exact cached' ▸ known
      · rw [Finmap.lookup_insert_of_ne _ same] at cached'
        exact represents.cached id key' cached'

theorem contains (clientId : Bytes) :
    store.contains clientId = InMemory.contains clientId keys := by
  rw [FileStore.contains, InMemory.contains, FileStore.resolve_pathFor, represents.filed,
    isSome_map]
  cases cached : store.cache.lookup clientId with
  | none => rfl
  | some key =>
    rw [represents.cached clientId key cached]
    rfl

theorem clientIds {listing : List Bytes} (allowed : store.Allows (.clientIds listing)) :
    (FileStore.clientIds listing).Perm (InMemory.clientIds keys) := by
  obtain ⟨once, listed⟩ := allowed
  have unique : (FileStore.clientIds listing).Nodup := by
    refine once.filterMap fun a b id first second => ?_
    rw [(clientOf_eq_some.1 first).2, (clientOf_eq_some.1 second).2]
  have unique' : (InMemory.clientIds keys).Nodup := Finset.sort_nodup _ _
  rw [perm_ext_iff_of_nodup unique unique']
  intro id
  have filed := represents.filed id
  rw [InMemory.clientIds, Finset.mem_sort, FileStore.clientIds, mem_filterMap]
  constructor
  · rintro ⟨name, here, belongs⟩
    obtain ⟨_, rfl⟩ := clientOf_eq_some.1 belongs
    obtain ⟨content, held⟩ := Finmap.mem_iff.1 ((listed _).1 here)
    rw [FileStore.keyPlace, held] at filed
    obtain ⟨key, known, _⟩ := map_eq_some_iff.1 filed.symm
    exact Finmap.mem_of_lookup_eq_some known
  · intro known
    obtain ⟨key, known⟩ := Finmap.mem_iff.1 known
    have named : id ≠ [] := by
      rintro rfl
      rw [represents.named] at known
      cases known
    rw [known] at filed
    exact ⟨hexEncode id ++ keysExtension, (listed _).2 (Finmap.mem_of_lookup_eq_some filed),
      clientOf_eq_some.2 ⟨named, rfl⟩⟩

/-- One call. -/
theorem step (allowed : store.Allows call) :
    Forall₂ Answer.Agree (store.step call).1 (InMemory.step keys call).1 ∧
      Represents (store.step call).2 (InMemory.step keys call).2 := by
  cases call with
  | put clientId key =>
    obtain ⟨same, after⟩ := represents.put clientId allowed
    exact ⟨.cons (same ▸ .stored _) .nil, after⟩
  | get clientId =>
    obtain ⟨same, after⟩ := represents.get clientId
    exact ⟨.cons (same ▸ .found _) .nil, after⟩
  | contains clientId => exact ⟨.cons (represents.contains clientId ▸ .known _) .nil, represents⟩
  | clientIds listing => exact ⟨.cons (.ids (represents.clientIds allowed)) .nil, represents⟩
  | reopen =>
    refine ⟨.nil, represents.filed, fun id key cached => ?_, represents.sized, represents.named⟩
    cases cached

theorem run (allowed : store.AllowsAll calls) :
    Forall₂ Answer.Agree (store.answers calls) (InMemory.answers keys calls) := by
  induction calls generalizing store keys with
  | nil => exact .nil
  | cons call calls ih =>
    obtain ⟨here, later⟩ := allowed
    obtain ⟨agree, after⟩ := represents.step here
    exact rel_append agree (ih after later)

end Represents

/-! ## Only in the directory -/

namespace FileStore

variable (store : FileStore)

theorem step_dir (call : KeyringCall) : (store.step call).2.dir = store.dir := by
  cases call with
  | put clientId keys =>
    show (store.put clientId keys).2.dir = _
    rw [put]
    split <;> rfl
  | get clientId =>
    show (store.get clientId).2.dir = _
    rw [get]
    split
    · rfl
    split
    · rfl
    split <;> rfl
  | _ => rfl

theorem below_dir (name : Bytes) : (resolve store.dir).Below ((resolve store.dir).down [name]) := by
  refine ⟨⟨rfl, rfl, prefix_append _ _⟩, fun same => ?_⟩
  have lengths := congrArg (fun p : Place Bytes => p.names.length) same
  simp [Place.down] at lengths

variable {s : FileStep}

theorem creates_below (made : s ∈ store.fileSteps call) :
    (resolve store.dir).Below (resolve s.creates) := by
  cases call with
  | put clientId keys =>
    rw [fileSteps] at made
    split at made
    · cases made
    · rcases mem_cons.1 made with rfl | second
      · exact store.resolve_tmp clientId ▸ store.below_dir _
      · rw [mem_singleton.1 second]
        exact store.resolve_pathFor clientId ▸ store.below_dir _
  | _ => cases made

theorem runSteps_below (made : s ∈ store.runSteps calls) :
    (resolve store.dir).Below (resolve s.creates) := by
  induction calls generalizing store with
  | nil => cases made
  | cons call calls ih =>
    rcases mem_append.1 made with here | later
    · exact store.creates_below here
    · exact store.step_dir call ▸ ih _ later

end FileStore

/-- **The file keyring is a map.**  A store opened on a directory without key files answers any
calls, with reopenings between them, as the map in memory does, and every file it makes is in its
directory. -/
theorem fileStore_is_map (store : FileStore) (fresh : ∀ id, store.keyPlace id ∉ store.files)
    (opened : store.cache = ∅) {calls : List KeyringCall} (allowed : store.AllowsAll calls) :
    Forall₂ Answer.Agree (store.answers calls) (InMemory.answers ∅ calls) ∧
      ∀ s ∈ store.runSteps calls, (resolve store.dir).Below (resolve s.creates) := by
  have represents : Represents store ∅ := by
    refine ⟨fun id => ?_, fun id key cached => ?_, fun id key known => ?_, Finmap.lookup_empty _⟩
    · rw [Finmap.lookup_empty]
      exact Finmap.lookup_eq_none.2 (fresh id)
    · rw [opened, Finmap.lookup_empty] at cached
      cases cached
    · rw [Finmap.lookup_empty] at known
      cases known
  exact ⟨represents.run allowed, fun s made => store.runSteps_below made⟩

/-- A store on an empty machine. -/
def emptyStore : FileStore where
  dir := bytes "/var/lib/opaquedb/keys"
  files := ∅

/-- A client whose id climbs is registered, listed, and found after a reopening. -/
def climbingCalls : List KeyringCall :=
  [.put (bytes "../x") ⟨[1], [2], [3]⟩, .clientIds [hexEncode (bytes "../x") ++ keysExtension],
    .reopen, .get (bytes "../x")]

theorem fileStore_is_map_climbing :
    Forall₂ Answer.Agree (emptyStore.answers climbingCalls) (InMemory.answers ∅ climbingCalls) ∧
      ∀ s ∈ emptyStore.runSteps climbingCalls,
        (resolve emptyStore.dir).Below (resolve s.creates) := by
  have sized : Sized ⟨[1], [2], [3]⟩ := ⟨by decide, by decide, by decide⟩
  have listed : ∀ name, name ∈ [hexEncode (bytes "../x") ++ keysExtension] ↔
      (resolve emptyStore.dir).down [name] ∈
        (emptyStore.putSteps (bytes "../x") ⟨[1], [2], [3]⟩).foldl FileStep.run ∅ := by
    intro name
    rw [FileStore.run_putSteps, Finmap.mem_insert, Finmap.mem_erase, Finmap.mem_insert,
      FileStore.keyPlace, FileStore.down_singleton_inj, mem_singleton]
    simp [Finmap.notMem_empty]
  exact fileStore_is_map emptyStore (fun id => Finmap.notMem_empty) rfl
    ⟨sized, ⟨nodup_singleton _, listed⟩, trivial, trivial, trivial⟩

end OpaqueDb.Admin
