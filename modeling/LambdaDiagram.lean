import LambdaDiagram.Main
import LambdaDiagram.Proofs.BoundNames
import LambdaDiagram.Proofs.Diagram.Bounds
import LambdaDiagram.Proofs.Diagram.Connectors
import LambdaDiagram.Proofs.Grammar.Spacing
import LambdaDiagram.Proofs.Grammar.Spans
import LambdaDiagram.Proofs.Reduction.Log
import LambdaDiagram.Proofs.Reduction.NormalOrder
import LambdaDiagram.Proofs.Reduction.Sharing
import LambdaDiagram.Proofs.Session.Interruption
import LambdaDiagram.Proofs.Substitution.Capture
import LambdaDiagram.Proofs.Substitution.Renaming
