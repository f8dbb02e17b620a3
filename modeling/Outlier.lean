import Outlier.Anomaly
import Outlier.Anomaly.Json
import Outlier.Cache
import Outlier.Cache.Error
import Outlier.Cache.Recency
import Outlier.Cache.Session
import Outlier.Cache.Settings
import Outlier.Cache.Stats
import Outlier.Cache.Store
import Outlier.Calendar
import Outlier.Config
import Outlier.Config.Environment
import Outlier.Config.Json
import Outlier.Decimal.Scaled
import Outlier.Decimal.Shortest
import Outlier.Grouping
import Outlier.Grouping.Arena
import Outlier.Grouping.Merge
import Outlier.Json
import Outlier.Json.Decode
import Outlier.Json.Text
import Outlier.Predicate
import Outlier.Predicate.Json
import Outlier.Slice
import Outlier.Slice.Json
import Outlier.Table
import Outlier.Text.Blank
import Outlier.Text.Digits
import Outlier.Text.Printable
import Outlier.Text.Quoted
import Outlier.Text.Upper
import Outlier.Trigger.Expression
import Outlier.Trigger.Json
import Outlier.Trigger.Source
import Outlier.Trigger.Yaml
import Outlier.Yaml
import Outlier.Yaml.Cursor
import Outlier.Yaml.Decode
import Outlier.Yaml.Document
import Outlier.Yaml.Lexer
import Outlier.Yaml.Node
import Outlier.Yaml.Scalar
import Outlier.Yaml.Tag
import Outlier.Yaml.Token
import Outlier.Proofs.Cache.Frame
import Outlier.Proofs.Slice.Containment
import Outlier.Proofs.Cache.Snapshot
import Outlier.Proofs.Session.Steps
import Outlier.Proofs.Session.Snapshot
import Outlier.Proofs.Grouping.Layer
import Outlier.Proofs.Grouping.Sweep
import Outlier.Proofs.Grouping.Inside
import Outlier.Proofs.Grouping.Remains
import Outlier.Proofs.Grouping.Evaluation
import Outlier.Proofs.Grouping.Listing
import Outlier.Proofs.Grouping.Trees
import Outlier.Proofs.Grouping.Accounts
import Outlier.Proofs.Grouping.Hulls
import Outlier.Proofs.Grouping.Renaming
import Outlier.Proofs.Grouping.Order
import Outlier.Proofs.Grouping.Runs
import Outlier.Proofs.Grouping.Refinement
import Outlier.Proofs.Grouping.Components
import Outlier.Proofs.Grouping.Links
import Outlier.Proofs.Cache.Permits
import Outlier.Proofs.Cache.Landing
import Outlier.Proofs.Cache.Agreement
import Outlier.Proofs.Cache.Plain
import Outlier.Proofs.Cache.Settlement
import Outlier.Proofs.Session.Containers
import Outlier.Proofs.Session.Repetition
import Outlier.Proofs.Session.Settlement
import Outlier.Proofs.Cache.Residency
import Outlier.Proofs.Slice.Exactness
import Outlier.Proofs.Cache.Changes
import Outlier.Proofs.Cache.Order
import Outlier.Proofs.Cache.Coverage
import Outlier.Proofs.Session.Coverage
import Outlier.Proofs.Cache.Expiry
import Outlier.Proofs.Cache.Origin
import Outlier.Proofs.Cache.Ledger
import Outlier.Proofs.Session.Ledger
import Outlier.Proofs.Session.Order
import Outlier.Proofs.Cache.Cleanup
import Outlier.Proofs.Session.Cleanup
import Outlier.Proofs.Cache.Tally
import Outlier.Proofs.Session.Tally
import Outlier.Proofs.Json.RoundTrip
import Outlier.Proofs.Json.Conditions
import Outlier.Proofs.Session.Isolation
import Outlier.Proofs.Grouping.Weight
import Outlier.Proofs.Grouping.Toll
import Outlier.Proofs.Grouping.Growth
import Outlier.Proofs.Grouping.Nesting
import Outlier.Proofs.Trigger.Grammar
import Outlier.Proofs.Slice.PushDown
import Outlier.Proofs.Session.PushDown
import Outlier.Proofs.Grouping.Wrappers
import Outlier.Proofs.Grouping.Founded
import Outlier.Proofs.Grouping.Checked
import Outlier.Proofs.Grouping.Totality
import Outlier.Proofs.Session.Questions
