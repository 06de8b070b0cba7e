import ScriptCheck.Grammar.Recognizer
import ScriptCheck.Host.Error

/-!
# Hosts

A host answers for the files, directories and programs around the shell. Reading changes nothing;
a program that is started may leave the host changed.
-/

namespace ScriptCheck

/-- The bytes of a name in a directory, or why there is none to be had. -/
abbrev Entry := Except HostError (List UInt8)

class Host (σ : Type) where
  /-- The text of a file. -/
  read : σ → String → Except HostError String
  /-- The entries of a directory, in whatever order. -/
  list : σ → String → Except HostError (List Entry)
  /-- Starts a program and waits for its end. -/
  launch : σ → String → List String → Except HostError ExitStatus × σ

variable {σ : Type} [Host σ]

/-- The text of a script. -/
def load (host : σ) (path : String) : Except LoadError String :=
  (Host.read host path).mapError (⟨path, ·⟩)

/-- Why a script file is rejected. -/
inductive FileError
  | load (e : LoadError)
  | parse (e : ParseError)
deriving DecidableEq, Repr

/-- Accepts a script file, or tells why not. -/
def checkFile (host : σ) (path : String) : Except FileError Unit :=
  match load host path with
  | .ok text => (check text).mapError .parse
  | .error e => .error (.load e)

/-- Puts a scanner in front of the text of a script; if that cannot be read, nothing changes. -/
def Scanner.openFile (s : Scanner) (host : σ) (path : String) : Except LoadError Unit × Scanner :=
  match load host path with
  | .ok text => (.ok (), s.scan text)
  | .error e => (.error e, s)

end ScriptCheck
