import ScriptCheck.CommandLine
import ScriptCheck.Host.Terminal
import Std.Time

/-!
# The program

Reads scripts, standard input, the environment and the clock, and leaves the rest to the library.
Directories are not listed and editors are not started from here.
-/

namespace ScriptCheck

/-- A host that knows the one file which the next command asks for. -/
structure Snapshot where
  file : Except HostError String

instance : Host Snapshot where
  read s _ := s.file
  list _ _ := .error .unsupported
  launch s _ _ := (.error .unsupported, s)

namespace Snapshot

/-- The cause behind a system error number, with what the system has to say of it. -/
def causeOfNumber (n : UInt32) (details : String) : HostError :=
  match n.toNat with
  | 2 => .notFound
  | 13 => .permissionDenied
  | 20 => .notDirectory
  | 21 => .isDirectory
  | 36 => .nameTooLong
  | n => .other (details ++ " (os error " ++ toString n ++ ")")

def causeOfError : IO.Error → HostError
  | .noFileOrDirectory _ n details => causeOfNumber n details
  | .permissionDenied _ n details => causeOfNumber n details
  | .inappropriateType _ n details => causeOfNumber n details
  | .invalidArgument _ n details => causeOfNumber n details
  | .resourceExhausted _ n details => causeOfNumber n details
  | .otherError n details => causeOfNumber n details
  | e => .other (toString e)

/-- Reads the file that a command is about to ask for. -/
def take (path : String) : IO Snapshot := do
  match ← (IO.FS.readBinFile path).toBaseIO with
  | .error e => return ⟨.error (causeOfError e)⟩
  | .ok bytes =>
    match String.fromUTF8? bytes with
    | some text => return ⟨.ok text⟩
    | none => return ⟨.error .notText⟩

/-- The host for the command on a line. -/
def ofLine (line : List UInt8) : IO Snapshot := do
  match (String.fromUTF8? ⟨line.toArray⟩).map Command.parse with
  | some (.run path) => take path
  | some (.list path) => take path
  | _ => return ⟨.error .notFound⟩

end Snapshot

/-- The next line of the input with its line feed, or what is left of the input. -/
partial def readLine (input : IO.FS.Stream) (line : List UInt8) : IO (List UInt8) := do
  match (← input.read 1).toList with
  | [] => return line.reverse
  | b :: _ => if b = 10 then return (b :: line).reverse else readLine input (b :: line)

/-- Writes what a session has written since the last time. -/
def flush (s : Session Snapshot) : IO (Session Snapshot) := do
  let output ← IO.getStdout
  output.write ⟨s.sink.written.toArray⟩
  output.flush
  return { s with sink := .ofRoom none }

/-- Prompts for a line and carries it out, until the session ends. -/
partial def converse (input : IO.FS.Stream) (s : Session Snapshot) : IO UInt32 := do
  if s.quit then return 0
  let s ← flush s.prompt.2
  let line ← readLine input []
  if line.isEmpty then
    let _ ← flush (s.write ["\n"]).2
    return 0
  let (result, s) := { s with host := ← Snapshot.ofLine line }.feed line
  let s ← flush s
  match result with
  | .ok () => converse input s
  | .error e =>
    IO.eprint (sessionFailure e)
    return 1

def readClock : IO Clock := do
  let now ← Std.Time.PlainDateTime.now
  return ⟨now.month.toNat, now.day.toNat, now.hour.toNat, now.minute.toNat, now.second.toNat⟩

/-- The settings from the environment of the process. -/
def readSettings : IO Settings := do
  let values ← ["RHODUS_SCRIPTS_DIR", "RHODUS_EDITOR", "EDITOR", "NO_COLOR"].mapM
    fun name => return (name, ← IO.getEnv name)
  return .ofEnvironment (fun name => (values.lookup name).join) (← IO.getEnv "PWD")

def runShellHere : IO UInt32 := do
  let s := Session.start (← readSettings) (⟨.error .notFound⟩ : Snapshot) none
  let s ← flush (s.write (Session.welcome s.settings (← readClock))).2
  converse (← IO.getStdin) s

def runHere (task : Task) : IO UInt32 := do
  let host ← match task with
    | .tokens path => Snapshot.take path
    | .check path => Snapshot.take path
    | _ => pure ⟨.error .notFound⟩
  let outcome := runTask "rhodus" (← readSettings) host ⟨1, 1, 0, 0, 0⟩ [] task
  (← IO.getStdout).write ⟨outcome.output.toArray⟩
  IO.eprint outcome.errors
  return outcome.code.toUInt32

end ScriptCheck

open ScriptCheck in
def main (args : List String) : IO UInt32 :=
  match Task.ofArguments args with
  | .shell => runShellHere
  | task => runHere task
