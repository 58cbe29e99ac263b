import GrantCompiler.Main
import GrantCompiler.Proofs.OrderedMap
import GrantCompiler.Proofs.Policy.Holding
import GrantCompiler.Proofs.Aggregation.Grants
import GrantCompiler.Proofs.Naming.Substitution
import GrantCompiler.Proofs.Locator.Builder
import GrantCompiler.Proofs.Json.Readability
import GrantCompiler.Proofs.Policy.Text
import GrantCompiler.Proofs.Naming.Derivation
import GrantCompiler.Proofs.Naming.Outcome
import GrantCompiler.Proofs.Naming.Exactness
import GrantCompiler.Proofs.Naming.Separation
import GrantCompiler.Proofs.Naming.Referent
import GrantCompiler.Proofs.Compilation.Outcome
import GrantCompiler.Proofs.Compilation.Impersonation
import GrantCompiler.Proofs.Compilation.Ownership
import GrantCompiler.Proofs.Compilation.Isolation
import GrantCompiler.Proofs.Compilation.Families
import GrantCompiler.Proofs.Compilation.Acceptance
import GrantCompiler.Proofs.Policy.Canonical
import GrantCompiler.Proofs.Document.Alike
import GrantCompiler.Proofs.Naming.Rearrangement
import GrantCompiler.Proofs.Compilation.Failure
import GrantCompiler.Proofs.Aggregation.Run
import GrantCompiler.Proofs.Aggregation.Progress
import GrantCompiler.Proofs.Compilation.Rearrangement
import GrantCompiler.Proofs.Compilation.Interference
import GrantCompiler.Proofs.Naming.Conflicts
import GrantCompiler.Proofs.Naming.Newcomer
import GrantCompiler.Proofs.Policy.Printed
import GrantCompiler.Proofs.Compilation.Newcomer
import GrantCompiler.Proofs.Policy.Refusal
import GrantCompiler.Proofs.FileSystem
import GrantCompiler.Proofs.CommandLine.Traces
import GrantCompiler.Proofs.CommandLine.Arguments
import GrantCompiler.Proofs.CommandLine.Strictness
import GrantCompiler.Proofs.Json.Fillers
import GrantCompiler.Proofs.Policy.Lines
import GrantCompiler.Proofs.Aggregation.Accounting
import GrantCompiler.Proofs.Compilation.Relevance
import GrantCompiler.Proofs.Aggregation.Identity
import GrantCompiler.Proofs.Naming.Multiplicity
import GrantCompiler.Proofs.Naming.Username
import GrantCompiler.Proofs.Interleaving
import GrantCompiler.Proofs.Locator.Precedence
import GrantCompiler.Proofs.CommandLine.Options
import GrantCompiler.Proofs.CommandLine.Spelling
import GrantCompiler.Proofs.CommandLine.Uses
import GrantCompiler.Proofs.CommandLine.Precedence
import GrantCompiler.Proofs.Locator.File
import GrantCompiler.Proofs.CommandLine.Emptiness
import GrantCompiler.Proofs.Document.RoundTrip
import GrantCompiler.Proofs.Document.Sections
import GrantCompiler.Proofs.Naming.Insertions
import GrantCompiler.Proofs.Locator.Binding
