import JsonSchema.Loading.Fetch
import JsonSchema.Loading.OptionsFile
import JsonSchema.Schema.Outline
import JsonSchema.Validation.Validate
import JsonSchema.Proofs.Meaning
import JsonSchema.Proofs.Run
import JsonSchema.Proofs.Frozen
import JsonSchema.Proofs.Verdict
import JsonSchema.Proofs.Compiled
import JsonSchema.Proofs.Acceptance
import JsonSchema.Proofs.Evaluation
import JsonSchema.Proofs.Reference
import JsonSchema.Proofs.Fragment
import JsonSchema.Proofs.Ways
import JsonSchema.Proofs.World
import JsonSchema.Proofs.Operations
import JsonSchema.Proofs.Resolving
import JsonSchema.Proofs.Loading
import JsonSchema.Proofs.Sessions
import JsonSchema.Proofs.Escapes
import JsonSchema.Proofs.Keys
import JsonSchema.Proofs.Parts
import JsonSchema.Proofs.Naming
import JsonSchema.Proofs.Unnamed
import JsonSchema.Proofs.Steps
import JsonSchema.Proofs.Addresses
import JsonSchema.Proofs.Reading
import JsonSchema.Proofs.Settings
import JsonSchema.Proofs.Values
import JsonSchema.Proofs.Tracking
import JsonSchema.Proofs.Making
import JsonSchema.Proofs.Building
import JsonSchema.Proofs.Objects
import JsonSchema.Proofs.Tracked
import JsonSchema.Proofs.Lookup
import JsonSchema.Proofs.Standing
import JsonSchema.Proofs.Alike
import JsonSchema.Proofs.Coupling
import JsonSchema.Proofs.Matching
import JsonSchema.Proofs.Orderly
import JsonSchema.Proofs.Spots
import JsonSchema.Proofs.Finishing
import JsonSchema.Proofs.Congruence
import JsonSchema.Proofs.Documents
import JsonSchema.Proofs.Strict
import JsonSchema.Proofs.Depth
import JsonSchema.Proofs.Checking
import JsonSchema.Proofs.Layout
import JsonSchema.Proofs.Halting
import JsonSchema.Proofs.Within
import JsonSchema.Proofs.Inlining
import JsonSchema.Proofs.Transparency
import JsonSchema.Proofs.Watching
import JsonSchema.Proofs.Compilable
import JsonSchema.Proofs.Usable
import JsonSchema.Proofs.Identifiers
import JsonSchema.Proofs.Returning
import JsonSchema.Proofs.Filling
import JsonSchema.Proofs.Folding
import JsonSchema.Proofs.Invariance
import JsonSchema.Proofs.Relocation
import JsonSchema.Proofs.Fetching
import JsonSchema.Proofs.Preloading
import JsonSchema.Proofs.Pointing
import JsonSchema.Proofs.Locating
import JsonSchema.Proofs.Spelling
import JsonSchema.Proofs.Indexing
import JsonSchema.Proofs.Restating
import JsonSchema.Proofs.Reordering
import JsonSchema.Proofs.Concord
import JsonSchema.Proofs.Sharing
import JsonSchema.Proofs.Ordering
import JsonSchema.Proofs.Uniqueness
import JsonSchema.Proofs.Routes
import JsonSchema.Proofs.Routing
import JsonSchema.Proofs.Courses
import JsonSchema.Proofs.Moves
import JsonSchema.Proofs.Retaining
import JsonSchema.Proofs.Keywords
import JsonSchema.Proofs.Equivalence
import JsonSchema.Proofs.Bounds
import JsonSchema.Proofs.Limits
import JsonSchema.Proofs.Calls
import JsonSchema.Proofs.Complaints
import JsonSchema.Proofs.Following
import JsonSchema.Proofs.Repeats
import JsonSchema.Proofs.Requiring
import JsonSchema.Proofs.Joining
import JsonSchema.Proofs.Arrangement
import JsonSchema.Proofs.Readings
import JsonSchema.Proofs.MemberOrder
