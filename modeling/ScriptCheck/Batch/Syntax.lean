import ScriptCheck.Batch.Octets

/-!
# The syntax of batches

A batch is made of commands, a command of words, and a word of pieces. Pieces and commands depend
on each other, since a piece of a word may be the output of a command.
-/

namespace ScriptCheck.Batch

/-- What to do about a parameter without a value. -/
inductive Fallback
  | use
  | assign
  | refuse
  /-- The other way round: the word stands for a value that is there. -/
  | replace
deriving DecidableEq, Repr

/-- The way in which a file is opened. -/
inductive OpenMode
  | read
  | write
  /-- Like `write`, even where existing files are to be kept. -/
  | replace
  | append
  | update
deriving DecidableEq, Repr

mutual

/-- A piece of a word. -/
inductive Part
  | letter (c : Char) (quoted : Bool)
  /-- Quotation marks, which make a word even around nothing. -/
  | quotes
  | parameter (name : Octets) (use : Use) (quoted : Bool)
  | output (body : Command) (quoted : Bool)
  | number (expression : List Part) (quoted : Bool)

/-- What is made of a parameter. -/
inductive Use
  | value
  | length
  | fallback (rule : Fallback) (emptyToo : Bool) (word : List Part)
  | trim (atEnd longest : Bool) (pattern : List Part)
  | malformed

inductive Assignment
  | mk (name : Octets) (value : List Part)

inductive Redirect
  | openFile (file : Nat) (mode : OpenMode) (path : List Part)
  | duplicate (file : Nat) (source : List Part)
  | document (file : Nat) (content : List Part)

inductive Command
  | nothing
  | simple (line : Nat) (assignments : List Assignment) (words : List (List Part))
      (redirects : List Redirect)
  | sequence (first second : Command)
  | background (c : Command)
  | both (first second : Command)
  | either (first second : Command)
  | negation (c : Command)
  | pipeline (stages : List Command)
  | group (c : Command)
  | subshell (c : Command)
  | choice (condition yes no : Command)
  | loop (untilTrue : Bool) (condition body : Command)
  /-- Without words, the loop runs over the arguments. -/
  | forEach (name : Octets) (words : Option (List (List Part))) (body : Command)
  | select (word : List Part) (arms : List Arm)
  | define (name : Octets) (body : Command)
  | redirected (line : Nat) (c : Command) (redirects : List Redirect)

inductive Arm
  | mk (patterns : List (List Part)) (body : Command)

end

instance : Inhabited Command := ⟨.nothing⟩

abbrev Word := List Part

/-- The letters of a word in which nothing is quoted or replaced. -/
def plain? : Word → Option Octets
  | [] => some []
  | .letter c false :: w => (plain? w).map (c :: ·)
  | _ => none

/-- The letters of a word, and whether any of it is quoted. -/
def spelling : Word → Octets × Bool
  | [] => ([], false)
  | .letter c quoted :: w => (c :: (spelling w).1, quoted || (spelling w).2)
  | .quotes :: w => ((spelling w).1, true)
  | _ :: w => spelling w

/-- An unquoted name, an equals sign and a value. -/
def assignment? (w : Word) : Option Assignment :=
  let isNameLetter : Part → Bool := fun p =>
    match p with
    | .letter c false => Octets.isNamePart c
    | _ => false
  match plain? (w.takeWhile isNameLetter), w.dropWhile isNameLetter with
  | some name, .letter '=' false :: value => if Octets.isName name then some ⟨name, value⟩ else none
  | _, _ => none

end ScriptCheck.Batch
