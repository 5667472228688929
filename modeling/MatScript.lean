import MatScript.Command
import MatScript.Command.Line
import MatScript.Diagnostic
import MatScript.Element
import MatScript.Main
import MatScript.Number.Binary
import MatScript.Number.Read
import MatScript.Number.Shortest
import MatScript.Number.Text
import MatScript.Operation
import MatScript.Run
import MatScript.RunError
import MatScript.Scopes
import MatScript.Scopes.Action
import MatScript.Script
import MatScript.Script.Outline
import MatScript.Script.Parse
import MatScript.Session
import MatScript.Table
import MatScript.Tensor
import MatScript.Tensor.Text
import MatScript.Text.Blank
import MatScript.Text.Codes
import MatScript.Text.Digit
import MatScript.Text.Lines
import MatScript.Text.Printable
import MatScript.Text.Quoted
import MatScript.Text.Similarity
import MatScript.Token
import MatScript.Token.Scan
import MatScript.Ty
import MatScript.Typing
import MatScript.Value
import MatScript.Value.Arith
import MatScript.Value.Array
import MatScript.Proofs.Checking
import MatScript.Proofs.Leaving
import MatScript.Proofs.LeftScopes
import MatScript.Proofs.Grammar
import MatScript.Proofs.ParseSound
import MatScript.Proofs.ParseComplete
import MatScript.Proofs.Evaluation
import MatScript.Proofs.ScalarOperators
import MatScript.Proofs.ScalarExpressions
import MatScript.Proofs.TypeSoundness
import MatScript.Proofs.Rendering
import MatScript.Proofs.FirstFault
import MatScript.Proofs.ViablePrefix
import MatScript.Proofs.DefiniteAssignment
import MatScript.Proofs.Layouts
import MatScript.Proofs.TypedValues
import MatScript.Proofs.ArrayOperators
import MatScript.Proofs.TypedExpressions
import MatScript.Proofs.ControlFlow
import MatScript.Proofs.Reporting
import MatScript.Proofs.StrayJumps
import MatScript.Proofs.OperatorAssignment
import MatScript.Proofs.SharedTable
import MatScript.Proofs.EarlierRuns
import MatScript.Proofs.RestoredTable
import MatScript.Proofs.LineNumbers
import MatScript.Proofs.JoinedTexts
import MatScript.Proofs.CommandStages
import MatScript.Proofs.Patterns
import MatScript.Proofs.TextLiterals
import MatScript.Proofs.Tiling
import MatScript.Proofs.Positions
import MatScript.Proofs.ValueErrors
import MatScript.Proofs.KnownOperators
import MatScript.Proofs.Vocabulary
import MatScript.Proofs.ParseSpans
import MatScript.Proofs.SingleConditions
import MatScript.Proofs.FloatQuotients
import MatScript.Proofs.NearestFloats
import MatScript.Proofs.ElementOperators
import MatScript.Proofs.StaticShapes
import MatScript.Proofs.ScopeTables
import MatScript.Proofs.ScopeStack
import MatScript.Proofs.OutlineText
import MatScript.Proofs.TypeNames
import MatScript.Proofs.JoinedShapes
import MatScript.Proofs.SizedTypes
