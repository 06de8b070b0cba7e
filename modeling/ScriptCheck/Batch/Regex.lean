import ScriptCheck.Batch.Pattern

/-!
# Regular expressions

A regular expression is matched at a place of a line. Of all ways to match it the one that takes
most counts, and of all places the first.
-/

namespace ScriptCheck.Batch

inductive Regex
  | empty
  | oneOf (s : CharSet)
  | lineStart
  | lineEnd
  | wordEdge
  /-- The same text again as a group took. -/
  | again (group : Nat)
  | group (number : Nat) (r : Regex)
  | seq (r s : Regex)
  | alt (r s : Regex)
  | many (least : Nat) (most : Option Nat) (r : Regex)

namespace Regex

/-! ### Matching -/

/-- A way to match: where it ends in the line, and what the groups took. -/
structure Run where
  place : Nat
  groups : List (Nat × Octets)

def isWordChar (c : Char) : Bool :=
  Octets.isNamePart c

/-- All ways to go on, preferring longer repetitions. -/
def runs (subject : Octets) : Regex → Run → List Run
  | empty, x => [x]
  | oneOf s, x =>
    match subject[x.place]? with
    | some c => if s.contains c then [{ x with place := x.place + 1 }] else []
    | none => []
  | lineStart, x => if x.place = 0 then [x] else []
  | lineEnd, x => if x.place = subject.length then [x] else []
  | wordEdge, x =>
    let isWord (c : Option Char) := (c.map isWordChar).getD false
    let before := if x.place = 0 then none else subject[x.place - 1]?
    if isWord before != isWord subject[x.place]? then [x] else []
  | again k, x =>
    let text := (x.groups.lookup k).getD []
    if text.isPrefixOf (subject.drop x.place) then [{ x with place := x.place + text.length }]
    else []
  | group k r, x => (runs subject r x).map fun y =>
      { y with groups := (k, (subject.drop x.place).take (y.place - x.place)) :: y.groups }
  | seq r s, x => (runs subject r x).flatMap (runs subject s)
  | alt r s, x => runs subject r x ++ runs subject s x
  | many least most r, x => repeatRuns (runs subject r) (subject.length + least + 1) least most x
where
  /-- Repeats a step; beyond the least number, a step must move on. -/
  repeatRuns (step : Run → List Run) : Nat → Nat → Option Nat → Run → List Run
    | 0, _, _, x => [x]
    | n + 1, least, most, x =>
      if most = some 0 then [x]
      else
        let next := (step x).filter fun y => 0 < least || x.place < y.place
        let longer := next.flatMap (repeatRuns step n (least - 1) (most.map (· - 1)))
        if 0 < least then longer else longer ++ [x]

/-- The longest match at a place. -/
def matchAt (r : Regex) (subject : Octets) (place : Nat) : Option Run :=
  (runs subject r ⟨place, []⟩).foldl (fun best x =>
    match best with
    | some y => if y.place < x.place then some x else some y
    | none => some x) none

/-- The first match at or behind a place: where it begins and where it ends. -/
def find? (r : Regex) (subject : Octets) (start : Nat) : Option (Nat × Run) :=
  (List.range (subject.length + 1)).findSome? fun place =>
    if place < start then none else (matchAt r subject place).map (place, ·)

/-! ### Reading -/

def exactly (c : Char) : Regex :=
  oneOf ⟨false, [.range c c]⟩

/-- A character in both cases. -/
def caseless (c : Char) : Regex :=
  oneOf ⟨false, [.range c.toLower c.toLower, .range c.toUpper c.toUpper]⟩

def anyChar : Regex :=
  oneOf ⟨true, []⟩

/-- How regular expressions are written. -/
structure Dialect where
  /-- Brackets, bars and signs of repetition need no backslash. -/
  extended : Bool
  ignoreCase : Bool

/-- What stands in front of a text, if it is a special sign in the dialect: the sign without its
backslash, and the text behind it. -/
def sign? (d : Dialect) (s : Octets) : Option (Char × Octets) :=
  match s with
  | '*' :: rest => some ('*', rest)
  | '\\' :: c :: rest =>
    if !d.extended && "()\x7b\x7d|+?".toList.contains c then some (c, rest) else none
  | c :: rest => if d.extended && "()\x7b\x7d|+?".toList.contains c then some (c, rest) else none
  | [] => none

def charSet (negated : Bool) (name : String) : Regex :=
  oneOf ⟨negated, [.named name.toList]⟩

/-- What a letter behind a backslash stands for. -/
def escaped (d : Dialect) (c : Char) : Regex :=
  if c = 'n' then exactly '\n'
  else if c = 't' then exactly '\t'
  else if c = 'w' then oneOf ⟨false, [.named "alnum".toList, .range '_' '_']⟩
  else if c = 'W' then oneOf ⟨true, [.named "alnum".toList, .range '_' '_']⟩
  else if c = 's' then charSet false "space"
  else if c = 'S' then charSet true "space"
  else if c = 'b' || c = '<' || c = '>' then wordEdge
  else if '1' ≤ c && c ≤ '9' then again (c.toNat - '0'.toNat)
  else if d.ignoreCase then caseless c
  else exactly c

/-- A repetition in front of a text. -/
def repetition? (d : Dialect) (s : Octets) : Option (Nat × Option Nat × Octets) :=
  match sign? d s with
  | some ('*', rest) => some (0, none, rest)
  | some ('+', rest) => some (1, none, rest)
  | some ('?', rest) => some (0, some 1, rest)
  | some ('\x7b', rest) =>
    let isPart : Char → Bool := fun c => c.isDigit || c = ','
    let bounds := (Octets.split (· = ',') (rest.takeWhile isPart)).map Octets.nat?
    let rest := (rest.dropWhile isPart).drop (if d.extended then 1 else 2)
    match bounds with
    | [some n] => some (n, some n, rest)
    | [some n, most] => some (n, most, rest)
    | _ => none
  | _ => none

/-- An expression, the number of groups that have begun, and the text behind it. -/
abbrev Read := Option (Regex × Nat × Octets)

mutual

/-- Alternatives, up to a closing bracket or the end. -/
def readAlternatives (d : Dialect) : Nat → Nat → Octets → Read
  | 0, _, _ => none
  | n + 1, groups, s => do
    let (r, groups, s) ← readItems d n true groups s
    match sign? d s with
    | some ('|', s) =>
      let (r', groups, s) ← readAlternatives d n groups s
      return (alt r r', groups, s)
    | _ => return (r, groups, s)

def readItems (d : Dialect) : Nat → Bool → Nat → Octets → Read
  | 0, _, _, _ => none
  | n + 1, isFirst, groups, s => do
    match s, sign? d s with
    | [], _ => return (empty, groups, [])
    | _, some ('|', _) => return (empty, groups, s)
    | _, some (')', _) => return (empty, groups, s)
    | _, _ =>
      let (r, groups, s) ← readItem d n isFirst groups s
      let (r, s) := readRepetitions d n r s
      let (r', groups, s) ← readItems d n false groups s
      return (seq r r', groups, s)

def readItem (d : Dialect) : Nat → Bool → Nat → Octets → Read
  | 0, _, _, _ => none
  | n + 1, isFirst, groups, s => do
    match sign? d s with
    | some ('(', rest) =>
      let (r, groups', rest) ← readAlternatives d n (groups + 1) rest
      match sign? d rest with
      | some (')', rest) => return (group (groups + 1) r, groups', rest)
      | _ => none
    | _ =>
      match s with
      | '\\' :: c :: rest => return (escaped d c, groups, rest)
      | '.' :: rest => return (anyChar, groups, rest)
      | '[' :: rest =>
        let quote (c : Char) : Mark := (c, c = '\\' || c = '!')
        let (set, rest) ← readSet (rest.map quote)
        return (oneOf set, groups, rest.map (·.1))
      | '^' :: rest =>
        return (if isFirst || d.extended then lineStart else exactly '^', groups, rest)
      | '$' :: rest =>
        let closes := ((sign? d rest).map (·.1)).any (")|".toList.contains ·)
        let isLast := rest = [] || d.extended || closes
        return (if isLast then lineEnd else exactly '$', groups, rest)
      | c :: rest => return (if d.ignoreCase then caseless c else exactly c, groups, rest)
      | [] => none

def readRepetitions (d : Dialect) : Nat → Regex → Octets → Regex × Octets
  | 0, r, s => (r, s)
  | n + 1, r, s =>
    match repetition? d s with
    | some (least, most, rest) => readRepetitions d n (many least most r) rest
    | none => (r, s)

end

/-- Reads a regular expression; `none` if the text is none. -/
def read (d : Dialect) (s : Octets) : Option Regex := do
  let (r, _, rest) ← readAlternatives d (8 * (s.length + 2)) 0 s
  if rest = [] then return r else none

end Regex

end ScriptCheck.Batch
