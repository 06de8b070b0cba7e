/-!
# File trees

A tree of directories and files, in which a place is a list of names from the root. Some files are
programs: they can be started, and what they hold is no text. One is a sink without content. A
link stands for what a path leads to.
-/

namespace ScriptCheck

/-- Small programs that a machine comes with. -/
inductive Utility
  | basename | bracket | cat | chmod | cp | cut | dirname | echo | expr | fail | grep | head | kill
  | ln | ls | mkdir | mv | printf | pwd | rm | rmdir | sed | seq | sleep | sort | succeed | tail
  | tee | test | touch | tr | uniq | wc
deriving DecidableEq, Repr

inductive Program
  | interpreter
  /-- Starts another program with other variables. -/
  | environment
  | utility (u : Utility)
deriving DecidableEq, Repr

inductive Node
  | file (content : ByteArray) (executable : Bool)
  | program (p : Program)
  /-- Takes everything and holds nothing. -/
  | void
  | link (target : String)
  | directory (entries : List (String × Node))

namespace Node

def empty : Node := directory []

/-- The node of a given name in a directory. -/
def entry? (name : String) : Node → Option Node
  | directory entries => entries.lookup name
  | _ => none

/-- The node at a place. -/
def find? (n : Node) : List String → Option Node
  | [] => some n
  | name :: place => (n.entry? name).bind (find? · place)

/-- The entries of a directory with one replaced, or added at the end. -/
def setEntry (name : String) (n : Node) : List (String × Node) → List (String × Node)
  | [] => [(name, n)]
  | e :: entries => if e.1 = name then (name, n) :: entries else e :: setEntry name n entries

/-- The tree with `new` at a place, and directories made where they are missing on the way. A file
on the way stays. -/
def put (n new : Node) : List String → Node
  | [] => new
  | name :: place =>
    match n with
    | directory entries =>
      directory (setEntry name (put ((entries.lookup name).getD empty) new place) entries)
    | _ => n

/-- The tree without what is at a place. -/
def erase (n : Node) : List String → Node
  | [] => n
  | [name] =>
    match n with
    | directory entries => directory (entries.filter (·.1 ≠ name))
    | _ => n
  | name :: place =>
    match n with
    | directory entries =>
      match entries.lookup name with
      | some inner => directory (setEntry name (erase inner place) entries)
      | none => n
    | _ => n

def isDirectory : Node → Bool
  | directory _ => true
  | _ => false

@[simp] theorem lookup_setEntry (name : String) (n : Node) (entries : List (String × Node)) :
    (setEntry name n entries).lookup name = some n := by
  induction entries with
  | nil => simp [setEntry]
  | cons e entries ih =>
    obtain ⟨key, old⟩ := e
    by_cases h : key = name
    · simp [setEntry, h]
    · have h' : (name == key) = false := beq_eq_false_iff_ne.2 (Ne.symm h)
      simp [setEntry, h, List.lookup_cons, h', ih]

theorem lookup_setEntry_of_ne {name key : String} (h : key ≠ name) (n : Node)
    (entries : List (String × Node)) :
    (setEntry name n entries).lookup key = entries.lookup key := by
  have hkey : (key == name) = false := beq_eq_false_iff_ne.2 h
  induction entries with
  | nil => simp [setEntry, List.lookup_cons, hkey]
  | cons e entries ih =>
    obtain ⟨other, old⟩ := e
    by_cases ho : other = name
    · subst ho
      simp [setEntry, List.lookup_cons, hkey]
    · simp only [setEntry, if_neg ho, List.lookup_cons, ih]

/-- What a directory has under a name is one name further down. -/
theorem find?_concat {n : Node} {here : List String} {entries : List (String × Node)}
    (h : n.find? here = some (directory entries)) (name : String) :
    n.find? (here ++ [name]) = entries.lookup name := by
  induction here generalizing n with
  | nil =>
    obtain rfl : n = directory entries := by simpa [find?] using h
    simp [find?, entry?]
  | cons key here ih =>
    obtain ⟨inner, hinner, h⟩ := Option.bind_eq_some_iff.1 h
    simp only [List.cons_append, find?, hinner, Option.bind_some]
    exact ih h

end Node

end ScriptCheck
