import ScriptCheck.Batch.Run
import ScriptCheck.Host.Basic
import ScriptCheck.Host.Terminal
import ScriptCheck.Text.Utf8

/-!
# Starting programs on a machine in memory

What a session does is shown for every host; a machine is one on which editors can be started. A
program named without a slash is looked for among the machine's programs, any other along its
path. What a program writes on the terminal is not kept.
-/

namespace ScriptCheck.Machine

/-- Where programs live. -/
def programDir : String := "/bin"

/-- The small programs of a machine. -/
def utilities : List (String × Utility) :=
  [("[", .bracket), ("basename", .basename), ("cat", .cat), ("chmod", .chmod), ("cp", .cp),
    ("cut", .cut), ("dirname", .dirname), ("echo", .echo), ("expr", .expr), ("false", .fail),
    ("grep", .grep), ("head", .head), ("kill", .kill), ("ln", .ln), ("ls", .ls),
    ("mkdir", .mkdir), ("mv", .mv), ("printf", .printf), ("pwd", .pwd), ("rm", .rm),
    ("rmdir", .rmdir), ("sed", .sed), ("seq", .seq), ("sleep", .sleep), ("sort", .sort),
    ("tail", .tail), ("tee", .tee), ("test", .test), ("touch", .touch), ("tr", .tr),
    ("true", .succeed), ("uniq", .uniq), ("wc", .wc)]

/-- The programs of a machine. -/
def programs : List (String × Program) :=
  [("sh", .interpreter), ("dash", .interpreter), ("bash", .interpreter), ("env", .environment)] ++
    utilities.map fun (name, u) => (name, .utility u)

/-- The variables that programs find on a machine in a given directory. -/
def defaultEnvironment (workingDir : List String) : List (String × String) :=
  [("HOME", "/root"), ("PATH", "/usr/local/sbin:/usr/local/bin:/usr/sbin:/usr/bin:/sbin:/bin"),
    ("PWD", "/" ++ "/".intercalate workingDir)]

/-- A machine with its programs, the file `/dev/null`, and an empty current directory. -/
def make (workingDir : List String) : Machine where
  root :=
    let programDir := Node.directory (programs.map fun (name, p) => (name, .program p))
    [(["bin"], programDir), (["usr", "bin"], programDir), (["dev", "null"], .void),
      (["root"], .empty), (workingDir, .empty)].foldl
        (fun n (place, new) => n.put new place) Node.empty
  workingDir
  environment := defaultEnvironment workingDir

/-- The path along which a program is looked for. -/
def programPath (program : String) : Except HostError String :=
  if program.toList.contains '/' then .ok program
  else if maxName < program.utf8ByteSize then .error .nameTooLong
  else .ok (programDir ++ "/" ++ program)

/-- The program of a given name. -/
def findProgram (m : Machine) (program : String) : Except HostError Program := do
  match (← m.resolve (← programPath program)).2 with
  | .program p => pure p
  | _ => throw .permissionDenied

def launch (m : Machine) (program : String) (args : List String) :
    Except HostError ExitStatus × Machine :=
  if (program :: args).any hasNul then (.error .nulInArgument, m)
  else
    match m.findProgram program with
    | .ok p =>
      let (status, m) := Batch.runProgram m p args
      (.ok status, m)
    | .error e => (.error e, m)

instance : Host Machine where
  read := read
  list m path := return (← m.names path).map fun name => .ok (utf8Bytes name)
  launch := launch

end ScriptCheck.Machine
