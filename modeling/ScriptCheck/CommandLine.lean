import ScriptCheck.Shell.Session

/-!
# The command line

Without arguments the program is the shell; with one it checks a script or lists its tokens.
-/

namespace ScriptCheck

/-- What the arguments ask for. -/
inductive Task
  | shell
  | usage
  /-- `--tokens` without a file. -/
  | missingFile
  | tokens (path : String)
  | check (path : String)
deriving DecidableEq, Repr

def Task.ofArguments : List String → Task
  | [] => shell
  | "-h" :: _ => usage
  | "--help" :: _ => usage
  | "--tokens" :: [] => missingFile
  | "--tokens" :: path :: _ => tokens path
  | path :: _ => check path

/-- What a run of the program writes, and the code that it ends with. -/
structure Outcome where
  output : List UInt8
  errors : String
  code : Nat

namespace Outcome

/-- Success, with lines on the standard output. -/
def success (lines : List String) : Outcome :=
  ⟨utf8Bytes (String.join (lines.map (· ++ "\n"))), "", 0⟩

/-- Failure, with lines on the standard error. -/
def failure (lines : List String) : Outcome :=
  ⟨[], String.join (lines.map (· ++ "\n")), 1⟩

end Outcome

def usageLines (program : String) : List String :=
  ["Usage:",
    "  " ++ program ++ "                  # start the interactive shell",
    "  " ++ program ++ " <file.rh>        # check a script",
    "  " ++ program ++ " --tokens <file>  # print the token stream"]

variable {σ : Type} [Host σ] [Terminal]

/-- Goes on with the text of a script, if it can be read. -/
def withScript (host : σ) (path : String) (use : String → Outcome) : Outcome :=
  match load host path with
  | .ok source => use source
  | .error e =>
    if e.cause = .notFound then .failure ["Error: File '" ++ path ++ "' not found"]
    else .failure ["Error: " ++ e.describe]

def checkScript (host : σ) (path : String) : Outcome :=
  withScript host path fun source =>
    match check source with
    | .ok () => .success ["Success!"]
    | .error e => .failure [e.render path source]

def listTokens (host : σ) (path : String) : Outcome :=
  withScript host path fun source =>
    match tokenize source with
    | .ok tokens => .success (tokens.map Token.display)
    | .error e => .failure [(ParseError.lexical e).render path source]

/-- The end of a session that broke off. -/
def sessionFailure (e : SessionError) : String :=
  let kind := match e with
    | .notText => "InvalidData"
    | .sinkFull => "Other"
  "Error: Error \x7b kind: " ++ kind ++ ", message: \"" ++ e.message ++ "\" \x7d\n"

/-- A whole session as a run of the program. -/
def runShell (settings : Settings) (host : σ) (clock : Clock) (input : List UInt8) : Outcome :=
  match (Session.start settings host none).run clock input with
  | (.ok (), s) => ⟨s.sink.written, "", 0⟩
  | (.error e, s) => ⟨s.sink.written, sessionFailure e, 1⟩

/-- A run of the program. -/
def runTask (program : String) (settings : Settings) (host : σ) (clock : Clock)
    (input : List UInt8) : Task → Outcome
  | .shell => runShell settings host clock input
  | .usage => ⟨[], (Outcome.failure (usageLines program)).errors, 0⟩
  | .missingFile => .failure ("Error: --tokens needs a file" :: usageLines program)
  | .tokens path => listTokens host path
  | .check path => checkScript host path

end ScriptCheck
