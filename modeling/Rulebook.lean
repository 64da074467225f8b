import Rulebook.Compiler
import Rulebook.Log.Logger
import Rulebook.Predicate
import Rulebook.Report
import Rulebook.Proofs.Record.RoundTrip
import Rulebook.Proofs.Pipeline.RoundTrip
import Rulebook.Proofs.Pipeline.Reload
import Rulebook.Proofs.Pipeline.Resave
import Rulebook.Proofs.Record.Acceptance
import Rulebook.Proofs.Record.Invariants
import Rulebook.Proofs.Record.CanonicalForm
import Rulebook.Proofs.Record.Strict
import Rulebook.Proofs.Record.Content
import Rulebook.Proofs.Pipeline.Exports
import Rulebook.Proofs.Pipeline.RawPairs
import Rulebook.Proofs.Pipeline.Codecs
import Rulebook.Proofs.Log.Setup
import Rulebook.Proofs.Record.Rebuilding
import Rulebook.Proofs.Record.Outcomes
import Rulebook.Proofs.Pipeline.Pairs
import Rulebook.Proofs.Record.PartlyLoaded
import Rulebook.Proofs.Yaml.RoundTrip
import Rulebook.Proofs.Dependency.Guard
import Rulebook.Proofs.Record.DeclaredKeys
import Rulebook.Proofs.Json.Documents
import Rulebook.Proofs.Pipeline.RepeatedNames
import Rulebook.Proofs.Pipeline.Unreported
import Rulebook.Proofs.Options
import Rulebook.Proofs.Tags
