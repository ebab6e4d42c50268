import FeatureFlags.Config.Source
import FeatureFlags.Provider.Resolver
import FeatureFlags.Sync.Message
import FeatureFlags.Sync.StreamSource
import FeatureFlags.Proofs.Store.Run
import FeatureFlags.Proofs.Json.Written
import FeatureFlags.Proofs.Numeric.Rounding
import FeatureFlags.Proofs.Numeric.Shortest
import FeatureFlags.Proofs.Json.Numerals
import FeatureFlags.Proofs.Json.Lexing
import FeatureFlags.Proofs.Json.Spelling
import FeatureFlags.Proofs.Document.Replacing
import FeatureFlags.Proofs.Document.Splicing
import FeatureFlags.Proofs.Document.Applying
import FeatureFlags.Proofs.Document.Inlining
import FeatureFlags.Proofs.Document.Parsing
import FeatureFlags.Proofs.Document.Expansion
import FeatureFlags.Proofs.Document.Strays
import FeatureFlags.Proofs.Document.Renaming
import FeatureFlags.Proofs.Document.Precedence
import FeatureFlags.Proofs.Document.Decoding
import FeatureFlags.Proofs.Document.Names
import FeatureFlags.Sync.Relay
import FeatureFlags.Proofs.Sync.Episodes
import FeatureFlags.Proofs.Sync.Reports
import FeatureFlags.Proofs.Sync.Relay
import FeatureFlags.Proofs.Sync.Turns
import FeatureFlags.Proofs.Provider.Answer
import FeatureFlags.Proofs.Evaluation.Context
import FeatureFlags.Proofs.Sync.Channel
import FeatureFlags.Proofs.Store.Consumer
import FeatureFlags.Proofs.Provider.Metadata
import FeatureFlags.Proofs.Targeting.Calls
import FeatureFlags.Proofs.Numeric.Equality
import FeatureFlags.Proofs.Collections.Equality
import FeatureFlags.Proofs.Json.Equality
import FeatureFlags.Proofs.Store.Difference
import FeatureFlags.Proofs.Provider.Unchanged
import FeatureFlags.Proofs.Provider.Events
import FeatureFlags.Proofs.Provider.Herald
import FeatureFlags.Proofs.Sync.FileCourse
import FeatureFlags.Proofs.Sync.Schedule
import FeatureFlags.Sync.Span
import FeatureFlags.Proofs.Sync.Waits
import FeatureFlags.Proofs.Sync.Outage
import FeatureFlags.Proofs.Config.Layering
import FeatureFlags.Proofs.Document.Printing
import FeatureFlags.Proofs.Document.WellFormed
import FeatureFlags.Proofs.Document.Remembering
import FeatureFlags.Proofs.Document.Shape
import FeatureFlags.Proofs.Provider.Shape
import FeatureFlags.Provider.Lifecycle
import FeatureFlags.Proofs.Provider.Lifecycle
import FeatureFlags.Proofs.Provider.Calls
import FeatureFlags.Proofs.Numeric.Monotone
import FeatureFlags.Proofs.Numeric.Precision
import FeatureFlags.Proofs.Targeting.Shares
import FeatureFlags.Proofs.Targeting.Stretches
import FeatureFlags.Proofs.Targeting.Rollout
import FeatureFlags.Proofs.Sync.Wire
import FeatureFlags.Proofs.Sync.Struct
import FeatureFlags.Proofs.Sync.Message
import FeatureFlags.Proofs.Collections.Results
import FeatureFlags.Proofs.Text.Cuts
import FeatureFlags.Proofs.Document.Reading
import FeatureFlags.Proofs.Document.Records
import FeatureFlags.Proofs.Store.Changes
import FeatureFlags.Proofs.Targeting.Versions
import FeatureFlags.Proofs.Targeting.VersionOrder
import FeatureFlags.Proofs.Json.Pointer
import FeatureFlags.Proofs.Document.Faults
import FeatureFlags.Proofs.Config.Environment
import FeatureFlags.Proofs.Numeric.Value
import FeatureFlags.Proofs.Evaluation.Integers
import FeatureFlags.Proofs.Numeric.Plain
import FeatureFlags.Proofs.Targeting.Names
import FeatureFlags.Proofs.Document.Scalars
import FeatureFlags.Proofs.Sync.StructMetadata
