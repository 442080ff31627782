import OpenScad.Command.Run
import OpenScad.Json.Decode
import OpenScad.Main
import OpenScad.Position.LineIndex
import OpenScad.Proofs.Grammar.Longest
import OpenScad.Proofs.Tree.Pieces
import OpenScad.Proofs.Tree.Spans
import OpenScad.Proofs.Grammar.Fronts
import OpenScad.Proofs.Grammar.Precedence
import OpenScad.Proofs.Grammar.Tracking
import OpenScad.Proofs.Grammar.Unambiguous
import OpenScad.Proofs.Grammar.Alike
import OpenScad.Proofs.Parse.Depth
import OpenScad.Proofs.Parse.Misfit
import OpenScad.Proofs.Lexer.Joint
import OpenScad.Proofs.Parse.Concatenation
import OpenScad.Proofs.Parse.Brackets
import OpenScad.Proofs.Lexer.Choice
import OpenScad.Proofs.Lexer.Tiling
import OpenScad.Proofs.Lexer.Layout
import OpenScad.Proofs.Lexer.Fault
import OpenScad.Proofs.Tree.Placement
import OpenScad.Proofs.Parse.Coordinates
import OpenScad.Proofs.Parse.Words
import OpenScad.Proofs.Node.Copy
import OpenScad.Proofs.Node.Acceptance
import OpenScad.Proofs.Node.Operations
import OpenScad.Proofs.Json.Encoding
import OpenScad.Proofs.Position.Reading
import OpenScad.Proofs.Json.Members
import OpenScad.Proofs.Number.Rounding
import OpenScad.Proofs.Lexer.Path
import OpenScad.Proofs.Position.Seam
import OpenScad.Proofs.Tree.Leaves
import OpenScad.Proofs.Tree.Composition
import OpenScad.Proofs.Tree.Wrapping
import OpenScad.Proofs.Number.Range
import OpenScad.Proofs.Number.Front
import OpenScad.Proofs.Parse.Numbers
import OpenScad.Proofs.Command.LastLine
import OpenScad.Proofs.Command.Run
import OpenScad.Proofs.Text.Lines
import OpenScad.Proofs.Parse.Comments
import OpenScad.Proofs.Node.History
