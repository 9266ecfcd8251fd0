import ObjectSpec.CommandLine
import ObjectSpec.Json.Reader
import ObjectSpec.Main
import ObjectSpec.Proofs.Build.Blame
import ObjectSpec.Proofs.Build.Growth
import ObjectSpec.Proofs.Build.Mapping
import ObjectSpec.Proofs.Build.Order
import ObjectSpec.Proofs.Build.Renaming
import ObjectSpec.Proofs.Catalog.Report
import ObjectSpec.Proofs.Diagnostic.Position
import ObjectSpec.Proofs.Diagnostic.Topic
import ObjectSpec.Proofs.Grammar.Lookahead
import ObjectSpec.Proofs.Grammar.Places
import ObjectSpec.Proofs.Registry.Selection
import ObjectSpec.Proofs.Spec.AliasOrder
import ObjectSpec.Proofs.Spec.Canonical
import ObjectSpec.Proofs.Spec.Declarations
import ObjectSpec.Proofs.Spec.Preflight
import ObjectSpec.Proofs.Spec.RawText
import ObjectSpec.Proofs.Spec.StandardTypes
import ObjectSpec.Proofs.Token.Quoting
import ObjectSpec.Proofs.Token.Requests
import ObjectSpec.Proofs.Tree.Composition
import ObjectSpec.Proofs.Tree.Numeral
import ObjectSpec.Proofs.Urn.Notation
import ObjectSpec.Proofs.Value.Equality
import ObjectSpec.Proofs.Value.Widening
