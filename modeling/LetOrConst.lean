import LetOrConst.Text.Blank
import LetOrConst.Text.Case
import LetOrConst.Text.Digit
import LetOrConst.Text.Lines
import LetOrConst.Text.Quoted
import LetOrConst.Text.Utf8
import LetOrConst.Grammar.Node
import LetOrConst.Tree.Names
import LetOrConst.Tree.OfGrammar
import LetOrConst.Tree.Visit
import LetOrConst.Scope.Build
import LetOrConst.Advice
import LetOrConst.Settings
import LetOrConst.Document.Load
import LetOrConst.Report.Presenter
import LetOrConst.Scan
import LetOrConst.Command
import LetOrConst.JavaScript.Program
import LetOrConst.Main
import LetOrConst.Proofs.Text.Lines
import LetOrConst.Proofs.Text.Utf8
import LetOrConst.Proofs.Grammar.Order
import LetOrConst.Proofs.Tree.Order
import LetOrConst.Proofs.Tree.Visit
import LetOrConst.Proofs.Tree.Place
import LetOrConst.Proofs.Tree.Names
import LetOrConst.Proofs.Tree.Shallow
import LetOrConst.Proofs.Tree.OfGrammar
import LetOrConst.Proofs.Tree.Keyed
import LetOrConst.Proofs.Tree.Convert
import LetOrConst.Proofs.Tree.Rearrange
import LetOrConst.Proofs.Tree.Insert
import LetOrConst.Proofs.Scope.Run
import LetOrConst.Proofs.Scope.Effect
import LetOrConst.Proofs.Scope.Build
import LetOrConst.Proofs.Scope.Resolve
import LetOrConst.Proofs.Scope.Binds
import LetOrConst.Proofs.Scope.Balance
import LetOrConst.Proofs.Scope.Nesting
import LetOrConst.Proofs.Scope.Conserve
import LetOrConst.Proofs.Scope.Confine
import LetOrConst.Proofs.Scope.Environment
import LetOrConst.Proofs.Advice.ByName
import LetOrConst.Proofs.Advice.ByScope
import LetOrConst.Proofs.Advice.Judge
import LetOrConst.Proofs.Advice.Level
import LetOrConst.Proofs.Advice.Positions
import LetOrConst.Proofs.Advice.Refine
import LetOrConst.Proofs.Advice.Rearrange
import LetOrConst.Proofs.Document.Reject
import LetOrConst.Proofs.Document.Quote
import LetOrConst.Proofs.Advice.Insert
import LetOrConst.Proofs.Report.Decode
import LetOrConst.Proofs.Report.RoundTrip
import LetOrConst.Proofs.Report.Told
import LetOrConst.Proofs.Command.Arguments
import LetOrConst.Proofs.Command.Answer
import LetOrConst.Proofs.Tree.Calls
import LetOrConst.Proofs.Tree.WellFormed
import LetOrConst.Proofs.Document.Prune
import LetOrConst.Proofs.Advice.Enclose
import LetOrConst.Proofs.Grammar.Text
import LetOrConst.Proofs.Document.Complaint
import LetOrConst.Proofs.Tree.Binding
import LetOrConst.Proofs.Tree.Parenthesize
import LetOrConst.Proofs.Scope.Rename
import LetOrConst.Proofs.Scope.Spread
import LetOrConst.Proofs.Advice.Parenthesize
