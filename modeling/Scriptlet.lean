import Scriptlet.Main
import Scriptlet.Tree.Build
import Scriptlet.Proofs.Grammar.Derivation
import Scriptlet.Proofs.Grammar.Walk
import Scriptlet.Proofs.Grammar.Soundness
import Scriptlet.Proofs.Grammar.StatementSoundness
import Scriptlet.Proofs.Grammar.Completeness
import Scriptlet.Proofs.Grammar.StatementCompleteness
import Scriptlet.Proofs.Grammar.Correctness
import Scriptlet.Proofs.Number.ReadBack
import Scriptlet.Proofs.Layout.Scanning
import Scriptlet.Proofs.Layout.Words
import Scriptlet.Proofs.Layout.Canonical
import Scriptlet.Proofs.Layout.RoundTrip
import Scriptlet.Proofs.Layout.Stability
import Scriptlet.Proofs.Scope.Links
import Scriptlet.Proofs.Scope.Lifetime
import Scriptlet.Proofs.Scope.Marking
import Scriptlet.Proofs.Eval.Validity
import Scriptlet.Proofs.Eval.Mirror
import Scriptlet.Proofs.Eval.Agreement
import Scriptlet.Proofs.Eval.Simulation
import Scriptlet.Proofs.Eval.Reclamation
import Scriptlet.Proofs.Scope.Representation
import Scriptlet.Proofs.Scope.Assignment
import Scriptlet.Proofs.Scope.Garbage
import Scriptlet.Proofs.Eval.Limits
import Scriptlet.Proofs.Eval.Points
import Scriptlet.Proofs.Eval.Provenance
import Scriptlet.Proofs.Grammar.Height
import Scriptlet.Proofs.Eval.Erasure
import Scriptlet.Proofs.Token.Gap
import Scriptlet.Proofs.Token.Lexeme
import Scriptlet.Proofs.Token.Account
import Scriptlet.Proofs.Eval.Watch
import Scriptlet.Proofs.Eval.Bookkeeping
import Scriptlet.Proofs.Eval.Course
import Scriptlet.Proofs.Eval.Upkeep
import Scriptlet.Proofs.Eval.Locals
import Scriptlet.Proofs.Eval.Stock
import Scriptlet.Proofs.Eval.Jumps
import Scriptlet.Proofs.Eval.Joining
import Scriptlet.Proofs.Session.History
import Scriptlet.Proofs.Tree.Legibility
import Scriptlet.Proofs.Tree.Faithful
import Scriptlet.Proofs.Grammar.Ranges
import Scriptlet.Proofs.Eval.Sites
import Scriptlet.Proofs.Session.Places
import Scriptlet.Proofs.Session.Printing
import Scriptlet.Proofs.Grammar.Nodes
import Scriptlet.Proofs.Layout.Parentheses
import Scriptlet.Proofs.Grammar.Lockstep
import Scriptlet.Proofs.Grammar.Continuation
import Scriptlet.Proofs.Eval.Arithmetic
import Scriptlet.Proofs.Eval.Termination
import Scriptlet.Proofs.Token.Failure
import Scriptlet.Proofs.Token.Spacing
import Scriptlet.Proofs.Token.Comment
import Scriptlet.Proofs.Grammar.Placement
import Scriptlet.Proofs.Grammar.Edges
import Scriptlet.Proofs.Grammar.Books
import Scriptlet.Proofs.Grammar.Counters
