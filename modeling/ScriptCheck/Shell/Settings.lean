/-!
# Shell settings

The settings come from environment variables. An empty value counts as missing, except that an
empty `RHODUS_EDITOR` still hides `EDITOR`, and that `NO_COLOR` turns colour off whatever it holds.
-/

namespace ScriptCheck

structure Settings where
  scriptsDir : String
  editor : String
  prompt : String
  color : Bool
deriving DecidableEq, Repr

namespace Settings

def defaultPrompt : String := ">> "

def defaultEditor : String := "vi"

/-- The directory that holds a directory; the root holds itself. -/
def parentDir (path : String) : String :=
  let names := (path.splitOn "/").filter (· ≠ "")
  "/" ++ "/".intercalate names.dropLast

/-- A name in a directory. -/
def inDir (dir name : String) : String :=
  if dir = "" ∨ dir.endsWith "/" then dir ++ name else dir ++ "/" ++ name

/-- The sample scripts beside the current directory, or in it when it is gone. -/
def defaultScriptsDir : Option String → String
  | some workingDir => inDir (parentDir workingDir) "SampleScripts"
  | none => "SampleScripts"

def nonempty (value : Option String) : Option String :=
  value.filter (· ≠ "")

/-- The settings that an environment asks for in some current directory. -/
def ofEnvironment (lookup : String → Option String) (workingDir : Option String) : Settings where
  scriptsDir := (nonempty (lookup "RHODUS_SCRIPTS_DIR")).getD (defaultScriptsDir workingDir)
  editor := (nonempty ((lookup "RHODUS_EDITOR").or (lookup "EDITOR"))).getD defaultEditor
  prompt := defaultPrompt
  color := (lookup "NO_COLOR").isNone

end Settings

end ScriptCheck
