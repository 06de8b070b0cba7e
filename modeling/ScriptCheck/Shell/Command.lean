import ScriptCheck.Text.Blank

/-!
# Shell commands

A line of the shell is a command or a program. A command is known by its first word, and some
commands want something behind it while others want nothing. A line whose second part begins with
`=`, `[` or `(` is a program even if it begins with a command word.
-/

namespace ScriptCheck

inductive Command
  | quit
  | run (path : String)
  | list (path : String)
  | edit (path : String)
  | dir
  | tokens (code : String)
  | help
  | code (text : String)
  | empty
deriving DecidableEq, Repr

namespace Command

/-- The reading of a first word and a rest as a command. -/
def ofWord? (word rest : String) : Option Command :=
  match word, decide (rest = "") with
  | "quit", true => some quit
  | "dir", true => some dir
  | "help", true => some help
  | "run", false => some (run rest)
  | "list", false => some (list rest)
  | "edit", false => some (edit rest)
  | "tokens", _ => some (tokens rest)
  | _, _ => none

/-- Whether a second part makes a line a program. -/
def opensProgram (rest : List Char) : Bool :=
  match rest with
  | '=' :: _ | '[' :: _ | '(' :: _ => true
  | _ => false

/-- The command on a line. -/
def parse (line : String) : Command :=
  let text := trim line.toList
  let (word, rest) := splitWord text
  if text = [] then empty
  else if opensProgram rest then code (String.ofList text)
  else (ofWord? (String.ofList word) (String.ofList rest)).getD (code (String.ofList text))

/-- The commands with what they do. -/
def helpTable : List (String × String) :=
  [("run <file>", "check a script file"),
    ("list <file>", "print a script file"),
    ("edit <file>", "open a script file in the editor"),
    ("dir", "list the sample scripts directory"),
    ("tokens <code>", "show the tokens of a line of code"),
    ("help", "show this list"),
    ("quit", "leave the shell")]

end Command

end ScriptCheck
