/-!
# What the surroundings refuse

Files, directories and programs belong to a host. An operation of a host fails for a cause, and a
program that a host has started ends with a status.
-/

namespace ScriptCheck

inductive HostError
  | notFound
  | permissionDenied
  /-- A file or directory is in the way. -/
  | inTheWay
  | notDirectory
  | isDirectory
  | nameTooLong
  | unsupported
  /-- A directory that is to go has entries. -/
  | notEmpty
  | invalid
  /-- Links lead to links without an end. -/
  | tooManyLinks
  /-- A path holds a NUL character. -/
  | nulInPath
  /-- An argument of a program holds a NUL character. -/
  | nulInArgument
  /-- The bytes of a file are not UTF-8. -/
  | notText
  /-- Any other cause, with all that the host has to say of it. -/
  | other (text : String)
deriving DecidableEq, Repr

namespace HostError

/-- The number that the operating system has for an error, if the error comes from there. -/
def number? : HostError → Option Nat
  | notFound => some 2
  | permissionDenied => some 13
  | inTheWay => some 17
  | notDirectory => some 20
  | isDirectory => some 21
  | invalid => some 22
  | nameTooLong => some 36
  | unsupported => some 38
  | notEmpty => some 39
  | tooManyLinks => some 40
  | nulInPath => none
  | nulInArgument => none
  | notText => none
  | other _ => none

/-- What an error says without its number. -/
def reason : HostError → String
  | notFound => "No such file or directory"
  | permissionDenied => "Permission denied"
  | inTheWay => "File exists"
  | notDirectory => "Not a directory"
  | isDirectory => "Is a directory"
  | invalid => "Invalid argument"
  | nameTooLong => "File name too long"
  | unsupported => "Function not implemented"
  | notEmpty => "Directory not empty"
  | tooManyLinks => "Too many levels of symbolic links"
  | nulInPath => "file name contained an unexpected NUL byte"
  | nulInArgument => "nul byte found in provided data"
  | notText => "stream did not contain valid UTF-8"
  | other text => text

def message (e : HostError) : String :=
  match e.number? with
  | some n => e.reason ++ " (os error " ++ toString n ++ ")"
  | none => e.reason

end HostError

/-- A script that could not be read. -/
structure LoadError where
  path : String
  cause : HostError
deriving DecidableEq, Repr

def LoadError.describe (e : LoadError) : String :=
  "could not read '" ++ e.path ++ "': " ++ e.cause.message

/-! ### The end of a program -/

inductive ExitStatus
  | code (n : Nat)
  | signal (n : Nat) (coreDumped : Bool)
  /-- Any other status, with all that the host has to say of it. -/
  | other (text : String)
deriving DecidableEq, Repr

/-- The signals that have a name. -/
def signalNames : List (Nat × String) :=
  [(1, "HUP"), (2, "INT"), (3, "QUIT"), (4, "ILL"), (5, "TRAP"), (6, "ABRT"), (7, "BUS"),
    (8, "FPE"), (9, "KILL"), (10, "USR1"), (11, "SEGV"), (12, "USR2"), (13, "PIPE"), (14, "ALRM"),
    (15, "TERM"), (16, "STKFLT"), (17, "CHLD"), (18, "CONT"), (19, "STOP"), (20, "TSTP"),
    (21, "TTIN"), (22, "TTOU"), (23, "URG"), (24, "XCPU"), (25, "XFSZ"), (26, "VTALRM"),
    (27, "PROF"), (28, "WINCH"), (29, "IO"), (30, "PWR"), (31, "SYS")]

namespace ExitStatus

def isSuccess (s : ExitStatus) : Bool :=
  s = code 0

def describe : ExitStatus → String
  | code n => "exit status: " ++ toString n
  | signal n coreDumped =>
    let name := match signalNames.lookup n with
      | some name => " (SIG" ++ name ++ ")"
      | none => ""
    "signal: " ++ toString n ++ name ++ if coreDumped then " (core dumped)" else ""
  | other text => text

end ExitStatus

end ScriptCheck
