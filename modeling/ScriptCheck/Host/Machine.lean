import ScriptCheck.Host.Error
import ScriptCheck.Host.Node

/-!
# A machine in memory

A machine stands in for an operating system where sessions are to be tried out without one. It is a
file tree with a current directory. A path is walked name by name: every name but the last must lead
to a directory, a slash at the end asks for a directory too, and `..` needs the directory in front
of it to be there. A link on the way is followed.
-/

namespace ScriptCheck

/-- The bytes that are read from a node. -/
def Node.content : Node → Except HostError ByteArray
  | file content _ => .ok content
  | void => .ok .empty
  | program _ => .error .notText
  | link _ => .error .notFound
  | directory _ => .error .isDirectory

structure Machine where
  root : Node
  workingDir : List String
  /-- The variables that a program finds when it starts. -/
  environment : List (String × String)

/-- The greatest number of bytes in a path. -/
def maxPath : Nat := 4095

/-- The greatest number of bytes in one name of a path. -/
def maxName : Nat := 255

/-- The greatest number of links on the way of a path. -/
def maxLinks : Nat := 40

def hasNul (text : String) : Bool :=
  text.toList.contains '\x00'

/-- The names of a path in order, with a last dot for a slash at the end. -/
def pathNames (path : String) : List String :=
  let names := path.splitOn "/"
  names.dropLast.filter (· ≠ "") ++ [if names.getLast? = some "" then "." else names.getLastD "."]

namespace Machine

/-! ### Paths -/

/-- Where a path begins. -/
def origin (m : Machine) (path : String) : List String :=
  if path.startsWith "/" then [] else m.workingDir

/-- The place to which a list of names leads from a place in the tree, on a way with so many links
at most. -/
def walk (m : Machine) (links : Nat) (here : List String) (names : List String) :
    Except HostError (List String) :=
  match names with
  | [] => .ok here
  | name :: names =>
    match m.root.find? here with
    | some (.directory entries) =>
      if name = "." then walk m links here names
      else if name = ".." then walk m links here.dropLast names
      else if maxName < name.utf8ByteSize then .error .nameTooLong
      else
        match entries.lookup name, links with
        | some (.link _), 0 => .error .tooManyLinks
        | some (.link target), links + 1 =>
          walk m links (if target.startsWith "/" then [] else here) (pathNames target ++ names)
        | some _, links => walk m links (here ++ [name]) names
        | none, _ => .error .notFound
    | _ => .error .notDirectory
termination_by (links, names.length)

/-- Refuses what is no path at all. -/
def checkPath (path : String) : Except HostError Unit :=
  if hasNul path then .error .nulInPath
  else if maxPath < path.utf8ByteSize then .error .nameTooLong
  else if path = "" then .error .notFound
  else .ok ()

/-- The place to which a path leads, and what is there. -/
def resolve (m : Machine) (path : String) : Except HostError (List String × Node) := do
  checkPath path
  let place ← m.walk maxLinks (m.origin path) (pathNames path)
  match m.root.find? place with
  | some node => pure (place, node)
  | none => throw .notFound

/-- The place of a path of which the last name may be missing. -/
def target (m : Machine) (path : String) : Except HostError (List String) := do
  checkPath path
  let names := pathNames path
  let here ← m.walk maxLinks (m.origin path) names.dropLast
  let name := names.getLastD "."
  match m.walk maxLinks here [name] with
  | .ok place => pure place
  | .error .notFound => pure (here ++ [name])
  | .error e => throw e

/-- What is at a path, if anything is. -/
def node? (m : Machine) (path : String) : Option Node :=
  (m.resolve path).toOption.map (·.2)

/-! ### Files and directories -/

def readBytes (m : Machine) (path : String) : Except HostError ByteArray := do
  (← m.resolve path).2.content

def read (m : Machine) (path : String) : Except HostError String := do
  match String.fromUTF8? (← m.readBytes path) with
  | some text => pure text
  | none => throw .notText

/-- The names in a directory, as they came there. -/
def names (m : Machine) (path : String) : Except HostError (List String) := do
  match (← m.resolve path).2 with
  | .directory entries => pure (entries.map (·.1))
  | _ => throw .notDirectory

/-- The names in a directory, in the order of their code points. -/
def list (m : Machine) (path : String) : Except HostError (List String) :=
  return (← m.names path).mergeSort fun a b => decide (a ≤ b)

/-- Makes `content` the content of what is at a place. -/
def fill (m : Machine) (place : List String) (content : ByteArray) : Except HostError Machine :=
  match m.root.find? place with
  | some (.directory _) => .error .isDirectory
  | some .void => .ok m
  | some (.file _ executable) => .ok { m with root := m.root.put (.file content executable) place }
  | _ => .ok { m with root := m.root.put (.file content false) place }

/-- Makes `content` the content of a file, which is made if only its directory is there. -/
def write (m : Machine) (path : String) (content : ByteArray) : Except HostError Machine := do
  m.fill (← m.target path) content

/-- A path without the slashes at its end. -/
def stripSlashes (path : String) : String :=
  match (path.toList.reverse.dropWhile (· = '/')).reverse with
  | [] => if path = "" then "" else "/"
  | letters => String.ofList letters

def makeDirectory (m : Machine) (path : String) : Except HostError Machine := do
  let place ← m.target (stripSlashes path)
  if (m.root.find? place).isSome then throw .inTheWay
  pure { m with root := m.root.put .empty place }

/-- The place that a path names, even if a link is there. The last name is neither `.` nor `..`. -/
def entryPlace (m : Machine) (path : String) : Except HostError (List String) := do
  checkPath path
  let names := pathNames (stripSlashes path)
  let here ← m.walk maxLinks (m.origin path) names.dropLast
  let name := names.getLastD "."
  match (← (m.root.find? here).elim (.error .notFound) .ok) with
  | .directory entries =>
    if name = "." ∨ name = ".." then throw .invalid
    else if maxName < name.utf8ByteSize then throw .nameTooLong
    else if (entries.lookup name).isSome then pure (here ++ [name])
    else throw .notFound
  | _ => throw .notDirectory

/-- Puts something new at a path, where nothing is. -/
def add (m : Machine) (path : String) (node : Node) : Except HostError Machine := do
  match m.entryPlace path with
  | .ok _ => throw .inTheWay
  | .error .notFound => pure { m with root := m.root.put node (← m.target path) }
  | .error e => throw e

/-- Takes away a file. -/
def removeFile (m : Machine) (path : String) : Except HostError Machine := do
  let place ← m.entryPlace path
  if ((m.root.find? place).map Node.isDirectory).getD false then throw .isDirectory
  pure { m with root := m.root.erase place }

/-- Takes away a directory without entries. -/
def removeDirectory (m : Machine) (path : String) : Except HostError Machine := do
  let place ← m.entryPlace path
  match m.root.find? place with
  | some (.directory []) => pure { m with root := m.root.erase place }
  | some (.directory _) => throw .notEmpty
  | _ => throw .notDirectory

/-- Takes away what is at a path with all that it holds. -/
def removeTree (m : Machine) (path : String) : Except HostError Machine := do
  pure { m with root := m.root.erase (← m.entryPlace path) }

/-- Gives what is at one path the name of another. A directory takes the place of an empty one
only, and never goes into itself. -/
def rename (m : Machine) (source target : String) : Except HostError Machine := do
  let place ← m.entryPlace source
  let new ← m.target (stripSlashes target)
  let some node := m.root.find? place | throw .notFound
  if place = new then return m
  if place.isPrefixOf new then throw .invalid
  match m.root.find? new, node.isDirectory with
  | some (.directory []), true => pure ()
  | some (.directory _), true => throw .notEmpty
  | some (.directory _), false => throw .isDirectory
  | some _, true => throw .notDirectory
  | _, _ => pure ()
  pure { m with root := (m.root.erase place).put node new }

end Machine

end ScriptCheck
