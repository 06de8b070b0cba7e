import ScriptCheck.Diagnostic
import ScriptCheck.Host.Basic
import ScriptCheck.Shell.Command
import ScriptCheck.Shell.Settings
import ScriptCheck.Shell.Terminal
import ScriptCheck.Text.Utf8

/-!
# Replies

What the shell writes for a command: texts that are written in turn. Good news is green and bad
news red where colour is on. Only an editor changes the host, and it does so before the reply. All
programs are read by one scanner, which is put in front of each in turn.
-/

namespace ScriptCheck

/-- What the shell writes for a command, and the host and the scanner behind it. -/
structure Reply (σ : Type) where
  texts : List String
  host : σ
  scanner : Scanner

namespace Settings

variable [Terminal]

/-! ### Colours -/

/-- A line in a style, if colour is on; the break comes behind the marks. -/
def styledLine (cfg : Settings) (style : Style) (text : String) : String :=
  let marks := Terminal.marks style
  if cfg.color then marks.1 ++ text ++ marks.2 ++ "\n" else text ++ "\n"

def success (cfg : Settings) : List String :=
  [cfg.styledLine .green "Success!"]

def failure (cfg : Settings) (message : String) : List String :=
  [cfg.styledLine .red message]

/-! ### Commands that only write -/

/-- The name under which the shell reports on a line. -/
def inputName : String := "<input>"

/-- The verdict on a program, and the scanner behind it. -/
def checkReply (cfg : Settings) (scanner : Scanner) (name source : String) :
    List String × Scanner :=
  let run := (scanner.scan source).recognize
  match run.result with
  | .ok () => (cfg.success, run.scanner)
  | .error e => (cfg.failure (e.render name source), run.scanner)

def tokensReply (cfg : Settings) (source : String) : List String :=
  match tokenize source with
  | .ok tokens => tokens.map (·.display ++ "\n")
  | .error e => cfg.failure ((ParseError.lexical e).render inputName source)

def helpReply : List String :=
  ["Commands:\n"] ++
    Command.helpTable.map (fun (usage, what) => "  " ++ padRight 14 usage ++ " " ++ what ++ "\n") ++
    ["Any other line is checked as Rhodus code.\n"]

/-! ### Commands that ask the host -/

variable {σ : Type} [Host σ]

/-- The reply to a script that cannot be read, where `missing` introduces one that is not there. -/
def unreadable (cfg : Settings) (missing : String) (e : LoadError) : List String :=
  if e.cause = .notFound then cfg.failure (missing ++ ": " ++ e.path)
  else cfg.failure e.describe

def runReply (cfg : Settings) (host : σ) (scanner : Scanner) (path : String) :
    List String × Scanner :=
  match load host path with
  | .ok source => cfg.checkReply scanner path source
  | .error e => (cfg.unreadable "File not found" e, scanner)

def listReply (cfg : Settings) (host : σ) (path : String) : List String :=
  match load host path with
  | .ok text => if text = "" ∨ text.endsWith "\n" then [text] else [text, "\n"]
  | .error e => cfg.unreadable "No such file" e

/-- The names of the entries that could be read, in the order of their code points. -/
def listedNames (entries : List Entry) : List String :=
  ((entries.filterMap Except.toOption).map lossyText).mergeSort fun a b => decide (a ≤ b)

def dirReply (cfg : Settings) (host : σ) : List String :=
  match Host.list host cfg.scriptsDir with
  | .ok entries =>
    (cfg.scriptsDir ++ "\n") :: (listedNames entries).map ("  " ++ · ++ "\n")
  | .error e =>
    cfg.failure ("could not read directory '" ++ cfg.scriptsDir ++ "': " ++ e.message)

/-- The program and the first arguments that the editor setting names. -/
def editorWords (cfg : Settings) : List String :=
  (words cfg.editor.toList).map String.ofList

/-- Starts the editor on a file and waits for it. -/
def editReply (cfg : Settings) (host : σ) (path : String) : List String × σ :=
  match cfg.editorWords with
  | [] => (cfg.failure "no editor configured", host)
  | program :: args =>
    match Host.launch host program (args ++ [path]) with
    | (.ok status, host) =>
      if status.isSuccess then ([], host)
      else (cfg.failure ("editor exited with " ++ status.describe), host)
    | (.error e, host) =>
      (cfg.failure ("could not start editor '" ++ program ++ "': " ++ e.message), host)

/-- The reply to a command, with the host and the scanner behind it. -/
def reply (cfg : Settings) (host : σ) (scanner : Scanner) : Command → Reply σ
  | .quit => ⟨[], host, scanner⟩
  | .empty => ⟨[], host, scanner⟩
  | .help => ⟨helpReply, host, scanner⟩
  | .code text =>
    let (texts, scanner) := cfg.checkReply scanner inputName text
    ⟨texts, host, scanner⟩
  | .tokens code => ⟨cfg.tokensReply code, host, scanner⟩
  | .run path =>
    let (texts, scanner) := cfg.runReply host scanner path
    ⟨texts, host, scanner⟩
  | .list path => ⟨cfg.listReply host path, host, scanner⟩
  | .dir => ⟨cfg.dirReply host, host, scanner⟩
  | .edit path =>
    let (texts, host) := cfg.editReply host path
    ⟨texts, host, scanner⟩

end Settings

end ScriptCheck
