import ScriptCheck.Grammar.ParseError
import ScriptCheck.Text.LineBreak

/-!
# Diagnostics

A diagnostic shows an error with the line of the source that it is in and a caret below the place.
The line number stands in a gutter of at least two columns.
-/

namespace ScriptCheck

/-- `text` at the right end of a field. -/
def padLeft (width : Nat) (text : String) : String :=
  String.ofList (List.replicate (width - text.length) ' ') ++ text

/-- `text` at the left end of a field. -/
def padRight (width : Nat) (text : String) : String :=
  text ++ String.ofList (List.replicate (width - text.length) ' ')

/-- The lines of a diagnostic for `source`, which messages call `name`. -/
def ParseError.report (e : ParseError) (name source : String) : List String :=
  let line := toString e.location.line
  let column := toString e.location.column
  let gutter := max 2 line.length
  let margin := padLeft gutter "" ++ " |"
  [ "error: " ++ e.message,
    padLeft (gutter + 3) "-->" ++ " " ++ name ++ ":" ++ line ++ ":" ++ column,
    margin,
    padLeft gutter line ++ " | " ++ String.ofList (lineAt source.toList e.location.line),
    margin ++ " " ++ padLeft (e.location.column - 1) "" ++ "^" ]

/-- The diagnostic as one text, without a break at its end. -/
def ParseError.render (e : ParseError) (name source : String) : String :=
  "\n".intercalate (e.report name source)

end ScriptCheck
