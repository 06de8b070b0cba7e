import ScriptCheck.Main
import ScriptCheck.Host.Launch
import ScriptCheck.Text.Cursor
import ScriptCheck.Proofs.Lexing.Place
import ScriptCheck.Proofs.Scanning.Queue
import ScriptCheck.Proofs.Text.Lines
import ScriptCheck.Proofs.Lexing.Offset
import ScriptCheck.Proofs.Diagnostic.Caret
import ScriptCheck.Proofs.Shell.History
import ScriptCheck.Proofs.Recognizer.Discipline
import ScriptCheck.Proofs.Recognizer.Path
import ScriptCheck.Proofs.Recognizer.Tokens
import ScriptCheck.Proofs.Recognizer.Listing
import ScriptCheck.Proofs.Grammar.Generates
import ScriptCheck.Proofs.Grammar.Stack
import ScriptCheck.Proofs.Grammar.Exact
import ScriptCheck.Proofs.Lexing.Lexemes
import ScriptCheck.Proofs.Lexing.Spaced
import ScriptCheck.Proofs.Recognizer.Relocate
import ScriptCheck.Proofs.Recognizer.Completion
import ScriptCheck.Proofs.Recognizer.ViablePrefix
import ScriptCheck.Proofs.Expression.Print
import ScriptCheck.Proofs.Expression.Read
import ScriptCheck.Proofs.Lexing.Spelling
import ScriptCheck.Proofs.Expression.Text
import ScriptCheck.Proofs.Grammar.Separator
import ScriptCheck.Proofs.Recognizer.Continue
import ScriptCheck.Proofs.Recognizer.Expected
import ScriptCheck.Proofs.Lexing.Extend
import ScriptCheck.Proofs.Lexing.Join
import ScriptCheck.Proofs.Recognizer.Compose
import ScriptCheck.Proofs.Tree.Derived
import ScriptCheck.Proofs.Tree.Builds
import ScriptCheck.Proofs.Tree.Reported
import ScriptCheck.Proofs.Diagnostic.Range
import ScriptCheck.Proofs.Scanning.Lookahead
import ScriptCheck.Proofs.Lexing.Cover
import ScriptCheck.Proofs.Lexing.Printed
import ScriptCheck.Proofs.Lexing.Writable
import ScriptCheck.Proofs.Lexing.Numeral
import ScriptCheck.Proofs.Lexing.LineEndings
import ScriptCheck.Proofs.Shell.Framing
import ScriptCheck.Proofs.Scanning.Settle
import ScriptCheck.Proofs.Recognizer.Calls
import ScriptCheck.Proofs.Events.Account
import ScriptCheck.Proofs.Shell.Room
import ScriptCheck.Proofs.Shell.CommandWord
import ScriptCheck.Proofs.Shell.Reply
import ScriptCheck.Proofs.Host.Files
import ScriptCheck.Proofs.Diagnostic.Shape
