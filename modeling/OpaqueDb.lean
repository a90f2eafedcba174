import OpaqueDb.Admin.Keyring
import OpaqueDb.Backend.Covering
import OpaqueDb.Backend.Rotations
import OpaqueDb.Backend.SlotLayout
import OpaqueDb.Cli.Ordering
import OpaqueDb.Cli.Pages
import OpaqueDb.Client.Operands
import OpaqueDb.Client.Soundness
import OpaqueDb.Cluster.Placement
import OpaqueDb.Cluster.Epochs
import OpaqueDb.Config.Printing
import OpaqueDb.Crypto.Wire
import OpaqueDb.Server.AdminTables
import OpaqueDb.Server.Columns
import OpaqueDb.Server.Coordination
import OpaqueDb.Server.CsvOrder
import OpaqueDb.Server.Fairness
import OpaqueDb.Server.Listener
import OpaqueDb.Server.Loading
import OpaqueDb.Server.Readers
import OpaqueDb.Server.Registration
import OpaqueDb.Sql.Cursor
import OpaqueDb.Sql.Hiding
import OpaqueDb.Sql.Meaning
import OpaqueDb.Sql.Spans
import OpaqueDb.Storage.OpenEpoch
import OpaqueDb.Storage.RowBytes
