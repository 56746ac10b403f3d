import KvCrucible.Basis.Run
import KvCrucible.Basis.LogFold
import KvCrucible.Basis.TreeMap
import KvCrucible.CacheFold
import KvCrucible.StateSafety
import KvCrucible.Confluence
import KvCrucible.Folding
import KvCrucible.Horizon
import KvCrucible.Convergence
import KvCrucible.TraceAccept
import KvCrucible.Arena
import KvCrucible.Materialize
import KvCrucible.Assembly
import KvCrucible.Redelivery
import KvCrucible.Basis.Window
import KvCrucible.Window
import KvCrucible.CacheStages
import KvCrucible.Batching
import KvCrucible.Interference
import KvCrucible.Agreement
import KvCrucible.Pipeline
import KvCrucible.Sessions
import KvCrucible.Forgetting
import KvCrucible.PlainSet
import KvCrucible.Work
import KvCrucible.Basis.Saturating
import KvCrucible.Tally
import KvCrucible.Basis.Decimal
import KvCrucible.Basis.JsonText
import KvCrucible.Codec
import KvCrucible.Scalars
import KvCrucible.Basis.JsonTree
import KvCrucible.Scanner
import KvCrucible.Basis.JsonValue
import KvCrucible.Budgets
import KvCrucible.Basis.Safe
import KvCrucible.Line
import KvCrucible.TypedBudgets
import KvCrucible.Basis.Base64
import KvCrucible.Basis.JsonObject
import KvCrucible.Identity
import KvCrucible.SessionBudgets
import KvCrucible.Basis.Lines
import KvCrucible.Jsonl
import KvCrucible.LineByLine
import KvCrucible.Basis.JsonPrint
import KvCrucible.Encode
import KvCrucible.Provenance
import KvCrucible.RoundTrip
import KvCrucible.Snapshot
import KvCrucible.Basis.Budget
import KvCrucible.Ceilings
import KvCrucible.Lossless
import KvCrucible.Sealing
import KvCrucible.Certificate
import KvCrucible.PlainFold
import KvCrucible.PlainSides
import KvCrucible.Stepping
import KvCrucible.Grammar
