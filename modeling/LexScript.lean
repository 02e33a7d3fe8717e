import LexScript.Program.Alike
import LexScript.CommandLine
import LexScript.Main
import LexScript.Proofs.Grammar.Acceptance
import LexScript.Proofs.Printing.RoundTrip
import LexScript.Proofs.Sessions.Pieces
import LexScript.Proofs.Sessions.Rejection
import LexScript.Proofs.Scope.Places
import LexScript.Proofs.Watching.Distances
import LexScript.Proofs.Watching.Receivers
import LexScript.Proofs.Watching.Calls
import LexScript.Proofs.Renaming.Sessions
import LexScript.Proofs.Loops.Sessions
import LexScript.Proofs.Watching.Heaps
import LexScript.Proofs.Grammar.Recovery
import LexScript.Proofs.Sessions.Formatting
import LexScript.Proofs.Grammar.Neighbours
import LexScript.Proofs.Scope.Legality
import LexScript.Proofs.Scope.Restoring
import LexScript.Proofs.Effects.Returns
import LexScript.Proofs.Effects.Globals
import LexScript.Proofs.Heap.Visibility
import LexScript.Proofs.Identity.Sessions
import LexScript.Proofs.Scanning.Stretches
import LexScript.Proofs.Scanning.LineBreaks
import LexScript.Proofs.Scanning.Lines
import LexScript.Proofs.Grammar.EntryPoints
import LexScript.Proofs.Numbers.Rounding
import LexScript.Proofs.Numbers.Values
import LexScript.Proofs.Numbers.Shortest
import LexScript.Proofs.Numbers.Texts
