import RdfStar.Factory
import RdfStar.Leaf.Operations
import RdfStar.Leaf.Table
import RdfStar.Match.Unify
import RdfStar.Match.Wildcard
import RdfStar.Oxigraph.Conversion
import RdfStar.Path
import RdfStar.Proofs.Leaf.Rewriting
import RdfStar.Proofs.Match.Outcome
import RdfStar.Quad.Assembly
import RdfStar.Quad.Positions
import RdfStar.TermList
import RdfStar.Proofs.Match.Instance
import RdfStar.Proofs.Match.Agreement
import RdfStar.Proofs.Leaf.Order
import RdfStar.Proofs.Leaf.Recovery
import RdfStar.Proofs.Leaf.Rounds
import RdfStar.Proofs.Oxigraph.Encoding
import RdfStar.Proofs.Term.Settled
import RdfStar.Proofs.Oxigraph.RoundTrip
import RdfStar.Proofs.Oxigraph.Return
import RdfStar.Proofs.Match.Report
import RdfStar.Proofs.Leaf.Apart
import RdfStar.Proofs.Match.Wildcard
import RdfStar.Proofs.Match.Strictness
import RdfStar.Proofs.Match.Renaming
import RdfStar.Proofs.Match.Variant
import RdfStar.Proofs.Match.Mirror
import RdfStar.Proofs.Oxigraph.Grammar
import RdfStar.Proofs.Leaf.Recursion
import RdfStar.Proofs.Leaf.Calls
import RdfStar.Proofs.Match.Names
import RdfStar.Proofs.Oxigraph.Failure
import RdfStar.Proofs.Leaf.Fusion
import RdfStar.Proofs.Leaf.Lookup
import RdfStar.Proofs.Leaf.Omission
import RdfStar.Proofs.Leaf.Postorder
import RdfStar.Proofs.Leaf.Building
import RdfStar.Proofs.Term.Rebuilding
import RdfStar.Proofs.Leaf.Levels
import RdfStar.Proofs.Leaf.Table
import RdfStar.Proofs.Quad.Assembly
import RdfStar.Proofs.Term.Lists
import RdfStar.Proofs.Match.Settings
import RdfStar.Proofs.Oxigraph.Reading
import RdfStar.Proofs.Term.Labels
