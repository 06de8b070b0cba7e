import ScriptCheck.Batch.Regex
import ScriptCheck.Batch.Tool.Lines

/-!
# Editing lines

`sed` takes the lines of a text one after the other through a list of steps, each for the lines
that its addresses choose.
-/

namespace ScriptCheck.Batch.Tool

/-! ### Steps -/

inductive Address
  | line (n : Nat)
  | last
  | found (r : Regex)

/-- A piece of what replaces a match. -/
inductive Replacement
  | letter (c : Char)
  /-- What a group took; group 0 is the whole match. -/
  | group (k : Nat)

inductive Edit
  | substitute (r : Regex) (pieces : List Replacement) (all : Bool) (first : Nat) (prints : Bool)
  | delete
  | print
  | quit
  | before (text : Octets)
  | after (text : Octets)
  | change (text : Octets)
  | number
  | exchange (source target : Octets)

structure Step where
  first : Option Address
  second : Option Address
  negated : Bool
  edit : Edit

/-! ### Reading steps -/

/-- A text up to a delimiter, and what stands behind it. A backslash keeps a delimiter from
ending the text. -/
def delimited (delimiter : Char) : Octets → Option (Octets × Octets)
  | [] => none
  | '\\' :: c :: rest =>
    (delimited delimiter rest).map fun (text, rest) =>
      (if c = delimiter then c :: text else '\\' :: c :: text, rest)
  | c :: rest =>
    if c = delimiter then some ([], rest)
    else (delimited delimiter rest).map fun (text, rest) => (c :: text, rest)

def readReplacement : Octets → List Replacement
  | [] => []
  | '\\' :: c :: rest =>
    let piece := if '0' ≤ c && c ≤ '9' then Replacement.group (c.toNat - '0'.toNat)
      else if c = 'n' then .letter '\n'
      else if c = 't' then .letter '\t'
      else .letter c
    piece :: readReplacement rest
  | '&' :: rest => .group 0 :: readReplacement rest
  | c :: rest => .letter c :: readReplacement rest

def readAddress (extended : Bool) (s : Octets) : Option (Address × Octets) :=
  match s with
  | '$' :: rest => some (.last, rest)
  | '/' :: rest => do
    let (text, rest) ← delimited '/' rest
    return (.found (← Regex.read ⟨extended, false⟩ text), rest)
  | _ => (Octets.nat? (s.takeWhile Char.isDigit)).map fun n => (.line n, s.dropWhile Char.isDigit)

/-- The text that a step puts in, up to the end of the line. -/
def readText (s : Octets) : Octets × Octets :=
  let s := s.dropWhile Octets.isBlank
  let s := match s with
    | '\\' :: '\n' :: rest => rest
    | '\\' :: rest => rest
    | _ => s
  (s.takeWhile (· ≠ '\n') ++ ['\n'], s.dropWhile (· ≠ '\n'))

def readEdit (extended : Bool) (s : Octets) : Option (Edit × Octets) :=
  match s with
  | 's' :: delimiter :: rest => do
    let (text, rest) ← delimited delimiter rest
    let (replacement, rest) ← delimited delimiter rest
    let isFlag : Char → Bool := fun c => c.isDigit || "gpiI".toList.contains c
    let flags := rest.takeWhile isFlag
    let r ← Regex.read ⟨extended, flags.any fun c => c = 'i' || c = 'I'⟩ text
    let first := (Octets.nat? (flags.filter Char.isDigit)).getD 1
    return (.substitute r (readReplacement replacement) (flags.contains 'g') first
      (flags.contains 'p'), rest.dropWhile isFlag)
  | 'y' :: delimiter :: rest => do
    let (source, rest) ← delimited delimiter rest
    let (target, rest) ← delimited delimiter rest
    return (.exchange source target, rest)
  | 'd' :: rest => some (.delete, rest)
  | 'p' :: rest => some (.print, rest)
  | 'q' :: rest => some (.quit, rest)
  | '=' :: rest => some (.number, rest)
  | 'i' :: rest => some (.before (readText rest).1, (readText rest).2)
  | 'a' :: rest => some (.after (readText rest).1, (readText rest).2)
  | 'c' :: rest => some (.change (readText rest).1, (readText rest).2)
  | _ => none

def readStep (extended : Bool) (s : Octets) : Option (Step × Octets) := do
  let first := readAddress extended s
  let s := ((first.map (·.2)).getD s).dropWhile Octets.isBlank
  let second ← match s with
    | ',' :: rest => (readAddress extended (rest.dropWhile Octets.isBlank)).map some
    | _ => some none
  let s := ((second.map (·.2)).getD s).dropWhile Octets.isBlank
  let negated := s.head? = some '!'
  let (edit, rest) ← readEdit extended ((if negated then s.tail else s).dropWhile Octets.isBlank)
  return (⟨first.map (·.1), second.map (·.1), negated, edit⟩, rest)

/-- The steps of a text, which breaks and semicolons separate. -/
def readSteps (extended : Bool) : Nat → Octets → Option (List Step)
  | 0, _ => none
  | n + 1, s =>
    match s.dropWhile fun c => Octets.isSpace c || c = ';' with
    | [] => some []
    | s => do
      let (step, rest) ← readStep extended s
      match rest.dropWhile Octets.isBlank with
      | [] => return [step]
      | c :: rest =>
        if c = ';' || c = '\n' then return step :: (← readSteps extended n rest) else none

/-! ### Carrying out steps -/

/-- A line on its way through the steps. -/
structure Passage where
  number : Nat
  isLast : Bool
  line : Octets
  /-- What is written in front of the line, and behind it. -/
  before : Octets
  behind : Octets
  isDeleted : Bool
  isOver : Bool

namespace Passage

def isAt (p : Passage) : Address → Bool
  | .line n => p.number = n
  | .last => p.isLast
  | .found r => (r.find? p.line 0).isSome

/-- Whether a step is for the line, and whether it is still for the next one. -/
def chooses (p : Passage) (step : Step) (isOpen : Bool) : Bool × Bool :=
  match step.first, step.second with
  | none, _ => (true, false)
  | some a, none => (p.isAt a, false)
  | some a, some b =>
    if isOpen then
      match b with
      | .line n => (p.number ≤ n, p.number < n)
      | _ => (true, !p.isAt b)
    else if p.isAt a then
      match b with
      | .line n => (true, p.number < n)
      | _ => (true, !p.isLast)
    else (false, false)

def replacement (taken : Octets) (groups : List (Nat × Octets)) (pieces : List Replacement) :
    Octets :=
  pieces.flatMap fun piece =>
    match piece with
    | .letter c => [c]
    | .group 0 => taken
    | .group k => (groups.lookup k).getD []

/-- The line with matches replaced from a place on; `skipped` of them stay. -/
def substitute (r : Regex) (pieces : List Replacement) (all : Bool) (line : Octets) :
    Nat → Nat → Nat → Octets
  | 0, start, _ => line.drop start
  | n + 1, start, skipped =>
    match r.find? line start with
    | none => line.drop start
    | some (first, x) =>
      let taken := (line.drop first).take (x.place - first)
      let front := (line.drop start).take (first - start)
      let new := if skipped = 0 then replacement taken x.groups pieces else taken
      let (extra, next) := if taken = [] then ((line.drop x.place).take 1, x.place + 1)
        else ([], x.place)
      let rest := if skipped = 0 && !all then line.drop x.place
        else if line.length < next then extra
        else extra ++ substitute r pieces all line n next (skipped - 1)
      front ++ new ++ rest

def carryOut (p : Passage) : Edit → Passage
  | .substitute r pieces all first prints =>
    let line := substitute r pieces all p.line (p.line.length + 2) 0 (first - 1)
    let isFound := (r.find? p.line 0).isSome
    { p with line, before := if prints && isFound then p.before ++ line ++ ['\n'] else p.before }
  | .delete => { p with isDeleted := true, isOver := true }
  | .print => { p with before := p.before ++ p.line ++ ['\n'] }
  | .quit => { p with isOver := true }
  | .before text => { p with before := p.before ++ text }
  | .after text => { p with behind := p.behind ++ text }
  | .change text => { p with before := p.before ++ text, isDeleted := true, isOver := true }
  | .number => { p with before := p.before ++ Octets.ofNat p.number ++ ['\n'] }
  | .exchange source target =>
    { p with line := p.line.map fun c => ((source.zip target).lookup c).getD c }

/-- Takes a line through the steps, each with the note whether it is for a range that has begun;
tells whether a step wants no more lines. -/
def run : Passage → List (Step × Bool) → Passage × List (Step × Bool) × Bool
  | p, [] => (p, [], false)
  | p, (step, isOpen) :: steps =>
    let (isChosen, isOpen) := p.chooses step isOpen
    if isChosen == step.negated then
      let (p, steps, quits) := run p steps
      (p, (step, isOpen) :: steps, quits)
    else
      let p := p.carryOut step.edit
      let quits := match step.edit with
        | .quit => true
        | _ => false
      if p.isOver then (p, (step, isOpen) :: steps, quits)
      else
        let (p, steps, quits) := run p steps
        (p, (step, isOpen) :: steps, quits)

end Passage

/-- What the steps make of lines, from a number on. -/
def editLines (silent : Bool) (steps : List (Step × Bool)) (number : Nat) :
    List Octets → List Octets
  | [] => []
  | line :: rest =>
    let (p, steps, quits) := Passage.run ⟨number, rest.isEmpty, line, [], [], false, false⟩ steps
    let own := if silent || p.isDeleted then [] else p.line ++ ['\n']
    (p.before ++ own ++ p.behind) ::
      (if quits then [] else editLines silent steps (number + 1) rest)

/-- What the steps make of a text; a break that is missing at its end stays so. -/
def editText (silent : Bool) (steps : List Step) (text : Octets) : Octets :=
  let out := (editLines silent (steps.map (·, false)) 1 (Octets.lines text)).flatten
  if text.getLast? ≠ some '\n' && out.getLast? = some '\n' then out.dropLast else out

def sed (args : List Octets) : Act Nat :=
  withArguments "sed" "niErs" "e" args fun a => do
    let scripts := (a.options.filter fun o => o.1 = 'e').map fun o => o.2
    let (script, operands) := if scripts = [] then (a.operands.headD [], a.operands.tail)
      else (Octets.join ['\n'] scripts, a.operands)
    match readSteps (a.has 'E' || a.has 'r') (script.length + 1) script with
    | none =>
      report "sed: -e expression #1, char 1: unknown command".toList
      return 1
    | some steps =>
      let edit := editText (a.has 'n') steps
      if a.has 'i' then
        let code ← forOperands operands fun path => do
          match ← contentOf "sed" path with
          | some text =>
            changeMachine "sed" path (·.write path.text (Octets.toBytes (edit text)))
          | none => return false
        return if code = 0 then 0 else 2
      else
        let texts ← (if operands = [] then [['-']] else operands).mapM (contentOf "sed")
        emit (edit (texts.filterMap id).flatten)
        return if texts.all Option.isSome then 0 else 2

end ScriptCheck.Batch.Tool
