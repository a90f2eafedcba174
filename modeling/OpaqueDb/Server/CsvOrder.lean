/-
# Server.CsvOrder -- the order of a CSV file's columns

A CSV file names its columns in its first line, and a row's cells are found by these names.  So
the columns may stand in any order: if the cells of the header and of every line are rearranged
alike, the file reads the same, down to its errors (`column_order_irrelevant`).

The header is stripped before it is split and the lines are not.  A comma is no whitespace, so
what the strip takes away belongs to the first and the last cell, and those are stripped themselves
(`csvHeader_eq`).
-/
import OpaqueDb.Server.Ingest
import OpaqueDb.Theory.Rearrange

namespace OpaqueDb.Server

open OpaqueDb.Core Theory List

set_option autoImplicit false

/-! ## Stripped cells -/

theorem strip_cons_space {c : UInt8} (space : isSpace c = true) (s : Bytes) :
    stripAsciiWhitespace (c :: s) = stripAsciiWhitespace s := by
  rw [stripAsciiWhitespace, stripLeadingWhitespace, dropWhile_cons, if_pos space]
  rfl

variable {w : Bytes}

theorem rdropWhile_append_space (spaces : ∀ c ∈ w, isSpace c = true) (s : Bytes) :
    (s ++ w).rdropWhile isSpace = s.rdropWhile isSpace := by
  rw [List.rdropWhile, reverse_append, dropWhile_append_of_pos]
  · rfl
  · intro c member
    exact spaces c (mem_reverse.1 member)

theorem strip_append_space (spaces : ∀ c ∈ w, isSpace c = true) (s : Bytes) :
    stripAsciiWhitespace (s ++ w) = stripAsciiWhitespace s := by
  rw [stripAsciiWhitespace, stripLeadingWhitespace, dropWhile_append]
  split
  · rename_i empty
    have all : w.dropWhile isSpace = [] := dropWhile_eq_nil_iff.2 spaces
    rw [all, stripAsciiWhitespace, stripLeadingWhitespace, isEmpty_iff.1 empty]
  · exact rdropWhile_append_space spaces _

/-- What a strip takes away. -/
theorem strip_split (s : Bytes) : ∃ lead trail, s = lead ++ (stripAsciiWhitespace s ++ trail) ∧
    (∀ c ∈ lead, isSpace c = true) ∧ ∀ c ∈ trail, isSpace c = true := by
  refine ⟨s.takeWhile isSpace, (s.dropWhile isSpace).rtakeWhile isSpace, ?_, ?_, ?_⟩
  · rw [stripAsciiWhitespace, stripTrailingWhitespace, stripLeadingWhitespace,
      rdropWhile_append_rtakeWhile, takeWhile_append_dropWhile]
  · intro c member
    exact mem_takeWhile_imp member
  · intro c member
    exact mem_rtakeWhile_imp member

section Cells

variable {sep : UInt8} (visible : isSpace sep = false)
include visible

section

variable (spaces : ∀ c ∈ w, isSpace c = true)
include spaces

theorem cells_space_append (s : Bytes) :
    (strSplit sep (w ++ s)).map stripAsciiWhitespace = (strSplit sep s).map stripAsciiWhitespace := by
  induction w with
  | nil => rfl
  | cons c w ih =>
    have space := spaces c mem_cons_self
    have other : c ≠ sep := by
      rintro rfl
      rw [visible] at space
      cases space
    rw [← ih fun d member => spaces d (mem_cons_of_mem c member), cons_append, strSplit,
      if_neg other]
    rcases parts : strSplit sep (w ++ s) with _ | ⟨part, parts⟩
    · exact absurd parts (strSplit_ne_nil sep _)
    · rw [map_cons, map_cons, strip_cons_space space]

/-- Behind the text, whitespace is part of the last cell. -/
theorem strSplit_append_space (s : Bytes) :
    ∃ init last, strSplit sep s = init ++ [last] ∧ strSplit sep (s ++ w) = init ++ [last ++ w] := by
  induction s with
  | nil =>
    have absent : sep ∉ w := by
      intro member
      have space := spaces sep member
      rw [visible] at space
      cases space
    exact ⟨[], [], rfl, strSplit_of_absent absent⟩
  | cons c s ih =>
    obtain ⟨init, last, parts, parts'⟩ := ih
    rw [cons_append, strSplit, strSplit, parts, parts']
    by_cases same : c = sep
    · rw [if_pos same, if_pos same]
      exact ⟨[] :: init, last, rfl, rfl⟩
    · rw [if_neg same, if_neg same]
      cases init with
      | nil => exact ⟨[], c :: last, rfl, rfl⟩
      | cons first init => exact ⟨(c :: first) :: init, last, rfl, rfl⟩

theorem cells_append_space (s : Bytes) :
    (strSplit sep (s ++ w)).map stripAsciiWhitespace = (strSplit sep s).map stripAsciiWhitespace := by
  obtain ⟨init, last, parts, parts'⟩ := strSplit_append_space visible spaces s
  rw [parts, parts', map_append, map_append, map_singleton, map_singleton,
    strip_append_space spaces]

end

/-- Stripped cells are the same before and after a strip of the whole line. -/
theorem cells_strip (s : Bytes) :
    (strSplit sep (stripAsciiWhitespace s)).map stripAsciiWhitespace =
      (strSplit sep s).map stripAsciiWhitespace := by
  obtain ⟨lead, trail, whole, leading, trailing⟩ := strip_split s
  calc (strSplit sep (stripAsciiWhitespace s)).map stripAsciiWhitespace
      = (strSplit sep (stripAsciiWhitespace s ++ trail)).map stripAsciiWhitespace :=
        (cells_append_space visible trailing _).symm
    _ = (strSplit sep (lead ++ (stripAsciiWhitespace s ++ trail))).map stripAsciiWhitespace :=
        (cells_space_append visible leading _).symm
    _ = (strSplit sep s).map stripAsciiWhitespace := by rw [← whole]

end Cells

theorem csvHeader_eq (line : Bytes) :
    csvHeader line = (strSplit 44 line).map stripAsciiWhitespace :=
  cells_strip (by decide) line

theorem intercalate_strSplit (sep : UInt8) (s : Bytes) :
    intercalate [sep] (strSplit sep s) = s := by
  induction s with
  | nil => rfl
  | cons c s ih =>
    rcases cells : strSplit sep s with _ | ⟨part, others⟩
    · exact absurd cells (strSplit_ne_nil sep s)
    rw [cells] at ih
    rw [strSplit, cells]
    by_cases same : c = sep
    · rw [same, ← ih]
      simp [intercalate]
    · rw [if_neg same, ← ih]
      cases others <;> simp [intercalate]

theorem mem_intercalate {sep b : UInt8} {parts : List Bytes}
    (member : b ∈ intercalate [sep] parts) : b = sep ∨ ∃ part ∈ parts, b ∈ part := by
  induction parts with
  | nil => exact absurd member not_mem_nil
  | cons part others ih =>
    cases others with
    | nil => exact Or.inr ⟨part, mem_cons_self, by simpa [intercalate] using member⟩
    | cons next others =>
      have joined : b ∈ part ++ sep :: intercalate [sep] (next :: others) := by
        simpa [intercalate] using member
      rcases mem_append.1 joined with here | behind
      · exact Or.inr ⟨part, mem_cons_self, here⟩
      rcases mem_cons.1 behind with same | later
      · exact Or.inl same
      rcases ih later with same | ⟨other, among, inside⟩
      · exact Or.inl same
      · exact Or.inr ⟨other, mem_cons_of_mem part among, inside⟩

theorem mem_of_mem_strSplit {sep b : UInt8} {s part : Bytes} (among : part ∈ strSplit sep s)
    (inside : b ∈ part) : b ∈ s := by
  induction s generalizing part with
  | nil => rwa [mem_singleton.1 among] at inside
  | cons c s ih =>
    rcases cells : strSplit sep s with _ | ⟨first, others⟩
    · exact absurd cells (strSplit_ne_nil sep s)
    rw [cells] at ih
    rw [strSplit, cells] at among
    by_cases same : c = sep
    · rw [if_pos same] at among
      rcases mem_cons.1 among with rfl | later
      · exact absurd inside not_mem_nil
      · exact mem_cons_of_mem c (ih later inside)
    · rw [if_neg same] at among
      rcases mem_cons.1 among with rfl | later
      · rcases mem_cons.1 inside with rfl | rest
        · exact mem_cons_self
        · exact mem_cons_of_mem c (ih mem_cons_self rest)
      · exact mem_cons_of_mem c (ih (mem_cons_of_mem first later) inside)

theorem mapM_congr {α β : Type} {f g : α → StatusOr β} {l : List α} (same : ∀ a ∈ l, f a = g a) :
    l.mapM f = l.mapM g := by
  induction l with
  | nil => rfl
  | cons a l ih =>
    rw [mapM_cons, mapM_cons, same a mem_cons_self,
      ih fun b member => same b (mem_cons_of_mem a member)]

/-! ## A line, rearranged -/

section Lines

variable {n : Nat} (σ : Equiv.Perm (Fin n))

/-- The line with its cells rearranged; a line with another number of cells stays. -/
def rearrangeLine (line : Bytes) : Bytes :=
  intercalate [44] (rearrange σ (strSplit 44 line))

theorem strSplit_rearrangeLine (line : Bytes) :
    strSplit 44 (rearrangeLine σ line) = rearrange σ (strSplit 44 line) := by
  refine strSplit_intercalate ?_ ?_
  · intro none_
    have length := length_rearrange σ (strSplit 44 line)
    rw [none_] at length
    exact strSplit_ne_nil 44 line (length_eq_zero_iff.1 length.symm)
  · intro cell member
    exact absent_of_mem_strSplit ((rearrange_perm σ _).mem_iff.1 member)

variable {line : Bytes}

/-- A line of one cell stays as it is. -/
theorem rearrangeLine_of_absent (absent : 44 ∉ line) : rearrangeLine σ line = line := by
  have cells := strSplit_of_absent absent
  rw [rearrangeLine, rearrange_single σ (by rw [cells]; rfl), intercalate_strSplit]

theorem comma_mem_rearrangeLine : 44 ∈ rearrangeLine σ line ↔ 44 ∈ line := by
  by_cases absent : 44 ∈ line
  · refine iff_of_true ?_ absent
    by_contra gone
    have cells := strSplit_rearrangeLine σ line
    rw [strSplit_of_absent gone] at cells
    have single := congrArg List.length cells
    rw [length_rearrange] at single
    obtain ⟨cell, alone⟩ := length_eq_one_iff.1 single.symm
    have whole := intercalate_strSplit 44 line
    rw [alone] at whole
    have here : cell = line := by simpa [intercalate] using whole
    have free : 44 ∉ cell := absent_of_mem_strSplit (by rw [alone]; exact mem_singleton_self cell)
    exact free (here ▸ absent)
  · rw [rearrangeLine_of_absent σ absent]

/-- Whitespace holds no comma. -/
theorem absent_of_blank (blank : stripAsciiWhitespace line = []) : 44 ∉ line := by
  intro member
  obtain ⟨lead, trail, whole, leading, trailing⟩ := strip_split line
  rw [blank] at whole
  rw [whole] at member
  rcases mem_append.1 member with before | behind
  · exact absurd (leading 44 before) (by decide)
  · exact absurd (trailing 44 behind) (by decide)

theorem rearrangeLine_of_blank (blank : stripAsciiWhitespace line = []) :
    rearrangeLine σ line = line :=
  rearrangeLine_of_absent σ (absent_of_blank blank)

theorem blank_rearrangeLine :
    stripAsciiWhitespace (rearrangeLine σ line) = [] ↔ stripAsciiWhitespace line = [] := by
  constructor
  · intro blank
    have absent : 44 ∉ line := fun member =>
      absent_of_blank blank ((comma_mem_rearrangeLine σ).2 member)
    rwa [rearrangeLine_of_absent σ absent] at blank
  · intro blank
    rwa [rearrangeLine_of_blank σ blank]

theorem rearrangeLine_eq_nil : rearrangeLine σ line = [] ↔ line = [] := by
  constructor
  · intro empty
    have absent : 44 ∉ line := fun member => by
      have kept := (comma_mem_rearrangeLine σ).2 member
      rw [empty] at kept
      exact not_mem_nil kept
    rwa [rearrangeLine_of_absent σ absent] at empty
  · rintro rfl
    exact rearrangeLine_of_absent σ not_mem_nil

theorem csvHeader_rearrangeLine (line : Bytes) :
    csvHeader (rearrangeLine σ line) = rearrange σ (csvHeader line) := by
  rw [csvHeader_eq, csvHeader_eq, strSplit_rearrangeLine, map_rearrange]

theorem newline_notMem_rearrangeLine (absent : 10 ∉ line) : 10 ∉ rearrangeLine σ line := by
  intro member
  rcases mem_intercalate member with comma | ⟨cell, among, inside⟩
  · exact absurd comma (by decide)
  · exact absent (mem_of_mem_strSplit ((rearrange_perm σ _).mem_iff.1 among) inside)

/-! ## The rows -/

theorem columnIndex_rearrange (header : List Bytes) (name : Bytes) :
    columnIndex (rearrange σ header) name = none ↔ columnIndex header name = none := by
  rw [columnIndex, columnIndex, findIdx?_eq_none_iff, findIdx?_eq_none_iff]
  exact ⟨fun absent other member => absent other ((rearrange_perm σ header).mem_iff.2 member),
    fun absent other member => absent other ((rearrange_perm σ header).mem_iff.1 member)⟩

variable {σ} {header : List Bytes} (once : header.Nodup) (whole : header.length = n)
include once whole

/-- A column's cell is found where its name is. -/
theorem cellAt_rearrange {name : Bytes} (listed : columnIndex header name ≠ none) {cells : List Bytes}
    (same : cells.length = n) :
    cellAt (rearrange σ header) (rearrange σ cells) name = cellAt header cells name := by
  have member : name ∈ header := by
    by_contra absent
    refine listed (findIdx?_eq_none_iff.2 fun other among => ?_)
    rw [beq_eq_false_iff_ne]
    rintro rfl
    exact absent among
  obtain ⟨i, j, here, there, value⟩ := lookup_rearrange σ once whole same member
  rw [cellAt, cellAt, columnIndex, columnIndex, here, there, Option.getD_some, Option.getD_some,
    getD_eq_getElem?_getD, getD_eq_getElem?_getD, value]

variable (lib : Library) {schema : Schema} {key : Column} (keyed : key ∈ schema.columns)
  (named : ∀ column ∈ schema.columns, columnIndex header column.name ≠ none)
include keyed named

variable (lineNo : Nat)

theorem parseCsvLine_rearrange (line : Bytes) :
    parseCsvLine lib schema key (rearrange σ header) lineNo (rearrangeLine σ line) =
      parseCsvLine lib schema key header lineNo line := by
  unfold parseCsvLine
  dsimp only
  rw [strSplit_rearrangeLine, length_rearrange, length_rearrange]
  by_cases other : (strSplit 44 line).length ≠ header.length
  · rw [if_pos other, if_pos other]
  · have same : (strSplit 44 line).length = n := (not_not.1 other).trans whole
    rw [if_neg other, if_neg other, cellAt_rearrange once whole (named key keyed) same]
    have payload : ∀ column ∈ schema.columns.filter fun column => column.encoding != .eq,
        cellAt (rearrange σ header) (rearrange σ (strSplit 44 line)) column.name =
          cellAt header (strSplit 44 line) column.name := fun column member =>
      cellAt_rearrange once whole (named column (mem_filter.1 member).1) same
    rw [mapM_congr fun column member => by rw [payload column member]]

theorem parseCsvLines_rearrange (lines : List Bytes) :
    parseCsvLines lib schema key (rearrange σ header) lineNo (lines.map (rearrangeLine σ)) =
      parseCsvLines lib schema key header lineNo lines := by
  induction lines generalizing lineNo with
  | nil => rfl
  | cons line lines ih =>
    rw [map_cons, parseCsvLines, parseCsvLines, ih,
      parseCsvLine_rearrange once whole lib keyed named]
    by_cases blank : stripAsciiWhitespace line = []
    · rw [if_pos blank, if_pos ((blank_rearrangeLine σ).2 blank)]
    · rw [if_neg blank, if_neg fun empty => blank ((blank_rearrangeLine σ).1 empty)]

end Lines

/-! ## The file -/

/-- The column names of a file. -/
def csvNames (content : Bytes) : List Bytes :=
  csvHeader ((strSplit 10 content).headD [])

/-- The file with its columns rearranged: the cells of the header, and of every line that is not
blank and has as many cells. -/
def rearrangeCsv (content : Bytes) (σ : Equiv.Perm (Fin (csvNames content).length)) : Bytes :=
  match strSplit 10 content with
  | [] => []
  | header :: lines =>
    intercalate [10] (rearrangeLine σ header :: lines.map fun line =>
      if stripAsciiWhitespace line = [] then line else rearrangeLine σ line)

section File

variable {content : Bytes} (σ : Equiv.Perm (Fin (csvNames content).length))

theorem rearrangeCsv_eq :
    rearrangeCsv content σ = intercalate [10] ((strSplit 10 content).map (rearrangeLine σ)) := by
  unfold rearrangeCsv
  rcases strSplit 10 content with _ | ⟨header, lines⟩
  · rfl
  · have each : ∀ line ∈ lines, (if stripAsciiWhitespace line = [] then line else rearrangeLine σ line) =
        rearrangeLine σ line := by
      intro line _
      by_cases blank : stripAsciiWhitespace line = []
      · rw [if_pos blank, rearrangeLine_of_blank σ blank]
      · rw [if_neg blank]
    dsimp only
    rw [map_congr_left each, map_cons]

theorem strSplit_rearrangeCsv :
    strSplit 10 (rearrangeCsv content σ) = (strSplit 10 content).map (rearrangeLine σ) := by
  rw [rearrangeCsv_eq]
  refine strSplit_intercalate ?_ ?_
  · rw [Ne, map_eq_nil_iff]
    exact strSplit_ne_nil 10 content
  · intro line member
    obtain ⟨original, among, rfl⟩ := mem_map.1 member
    exact newline_notMem_rearrangeLine σ (absent_of_mem_strSplit among)

theorem getLines_rearrangeCsv :
    getLines (rearrangeCsv content σ) = (getLines content).map (rearrangeLine σ) := by
  unfold getLines
  dsimp only
  rw [strSplit_rearrangeCsv, getLast?_map]
  have final : (strSplit 10 content).getLast?.map (rearrangeLine σ) = some [] ↔
      (strSplit 10 content).getLast? = some [] := by
    rw [Option.map_eq_some_iff]
    constructor
    · rintro ⟨line, last, empty⟩
      rw [last, (rearrangeLine_eq_nil σ).1 empty]
    · intro last
      exact ⟨[], last, (rearrangeLine_eq_nil σ).2 rfl⟩
  by_cases last : (strSplit 10 content).getLast? = some []
  · rw [if_pos last, if_pos (final.2 last), map_dropLast]
  · rw [if_neg last, if_neg fun empty => last (final.1 empty)]

theorem csvNames_of_read {headerLine : Bytes} {lines : List Bytes}
    (read : getLines content = headerLine :: lines) : csvNames content = csvHeader headerLine := by
  unfold getLines at read
  rw [csvNames]
  by_cases last : (strSplit 10 content).getLast? = some []
  · rw [if_pos last] at read
    rcases parts : strSplit 10 content with _ | ⟨first, others⟩
    · rw [parts] at read
      cases read
    · rw [parts] at read
      cases others with
      | nil => cases read
      | cons next others =>
        rw [headD_cons, (cons.inj read).1]
  · rw [if_neg last] at read
    rw [read, headD_cons]

end File

/-- **Column order is irrelevant**: with its columns rearranged, a file gives the same rows or the
same error. -/
theorem column_order_irrelevant (lib : Library) (schema : Schema) (csvPath content : Bytes)
    (once : (csvNames content).Nodup) (σ : Equiv.Perm (Fin (csvNames content).length)) :
    parseCsvRows lib schema csvPath (some (rearrangeCsv content σ)) =
      parseCsvRows lib schema csvPath (some content) := by
  unfold parseCsvRows
  refine bind_congr fun valid => ?_
  rcases primary : matchKey schema with _ | key
  · rfl
  dsimp only
  rw [getLines_rearrangeCsv]
  rcases read : getLines content with _ | ⟨headerLine, lines⟩
  · rfl
  have names := csvNames_of_read read
  have known := fun name => columnIndex_rearrange σ (csvHeader headerLine) name
  have missing : (fun c : Column => decide
        (columnIndex (rearrange σ (csvHeader headerLine)) c.name = none)) =
      fun c => decide (columnIndex (csvHeader headerLine) c.name = none) :=
    funext fun c => decide_eq_decide.2 (known c.name)
  rw [map_cons]
  dsimp only
  rw [csvHeader_rearrangeLine, missing]
  by_cases unkeyed : columnIndex (csvHeader headerLine) key.name = none
  · rw [if_pos unkeyed, if_pos ((known key.name).2 unkeyed)]
  rw [if_neg unkeyed, if_neg fun gone => unkeyed ((known key.name).1 gone)]
  rcases absent : schema.columns.find? fun c => columnIndex (csvHeader headerLine) c.name = none
    with _ | column
  · rw [absent]
    have named : ∀ column ∈ schema.columns, columnIndex (csvHeader headerLine) column.name ≠ none :=
      fun column member gone => find?_eq_none.1 absent column member (decide_eq_true gone)
    exact parseCsvLines_rearrange (names ▸ once) (congrArg List.length names.symm) lib
      (mem_of_find?_eq_some primary) named 2 lines
  · rw [absent]

/-- Two columns change places, blanks and all, and the row is the same. -/
theorem swapped_columns_read :
    let content := bytes "id ,v\n7,a\n\n"
    let schema : Schema := ⟨bytes "t", [⟨bytes "id", .eq, .int⟩, ⟨bytes "v", .raw, .text⟩]⟩
    (csvNames content).Nodup ∧ rearrangeCsv content Fin.revPerm = bytes "v,id \na,7\n\n" ∧
      parseCsvRows strictLibrary schema (bytes "t.csv") (some (rearrangeCsv content Fin.revPerm)) =
        .ok [⟨.int 7, [.text (bytes "a")]⟩] := by
  intro content schema
  have once : (csvNames content).Nodup := by decide +kernel
  refine ⟨once, by decide +kernel, ?_⟩
  rw [column_order_irrelevant strictLibrary schema (bytes "t.csv") content once Fin.revPerm]
  decide +kernel

end OpaqueDb.Server
