import ScriptCheck.Batch.Octets

/-!
# Patterns

A pattern stands for a set of texts: `*` for any text, `?` for any character, and brackets for
one character of a set. A quoted character stands for itself alone.
-/

namespace ScriptCheck.Batch

/-- A character, and whether it is quoted. -/
abbrev Mark := Char × Bool

/-! ### Sets of characters -/

/-- A part of a set in brackets. -/
inductive SetItem
  | range (first last : Char)
  | named (name : Octets)
deriving DecidableEq, Repr

def isPunctuation (c : Char) : Bool :=
  33 ≤ c.toNat && c.toNat ≤ 126 && !c.isAlphanum

/-- The sets with a name. -/
def namedSets : List (String × (Char → Bool)) :=
  [("alpha", Char.isAlpha), ("digit", Char.isDigit), ("alnum", Char.isAlphanum),
    ("upper", Char.isUpper), ("lower", Char.isLower), ("space", Octets.isSpace),
    ("blank", Octets.isBlank), ("punct", isPunctuation),
    ("print", fun c => 32 ≤ c.toNat && c.toNat ≤ 126),
    ("graph", fun c => 33 ≤ c.toNat && c.toNat ≤ 126),
    ("cntrl", fun c => c.toNat < 32 || c.toNat = 127),
    ("xdigit", fun c => c.isDigit || ('a' ≤ c.toLower && c.toLower ≤ 'f'))]

namespace SetItem

def contains (c : Char) : SetItem → Bool
  | range first last => first ≤ c && c ≤ last
  | named name => ((namedSets.lookup (String.ofList name)).map (· c)).getD false

end SetItem

/-- A set in brackets, or what is not in it. -/
structure CharSet where
  negated : Bool
  items : List SetItem
deriving DecidableEq, Repr

def CharSet.contains (s : CharSet) (c : Char) : Bool :=
  s.items.any (·.contains c) != s.negated

/-- The items of a set up to its closing bracket, and the text behind it. A bracket that comes
first belongs to the set. -/
def readItems : Nat → Bool → List Mark → Option (List SetItem × List Mark)
  | 0, _, _ => none
  | _ + 1, _, [] => none
  | n + 1, first, (c, quoted) :: rest =>
    if c = ']' && !quoted && !first then some ([], rest)
    else if c = '[' && !quoted && rest.head? = some (':', false) then
      let name := (rest.tail.map (·.1)).takeWhile fun d => d ≠ ':' && d ≠ ']'
      if ((rest.drop (name.length + 1)).map (·.1)).take 2 = [':', ']'] then
        (readItems n false (rest.drop (name.length + 3))).map fun (items, rest) =>
          (.named name :: items, rest)
      else (readItems n false rest).map fun (items, rest) => (.range c c :: items, rest)
    else
      match rest with
      | ('-', false) :: (last, q) :: after =>
        if last = ']' && !q then
          (readItems n false rest).map fun (items, rest) => (.range c c :: items, rest)
        else (readItems n false after).map fun (items, rest) => (.range c last :: items, rest)
      | _ => (readItems n false rest).map fun (items, rest) => (.range c c :: items, rest)

/-- The set behind an opening bracket. -/
def readSet (text : List Mark) : Option (CharSet × List Mark) :=
  match text with
  | (c, false) :: rest =>
    if c = '!' || c = '^' then
      (readItems (text.length + 1) true rest).map fun (items, rest) => (⟨true, items⟩, rest)
    else (readItems (text.length + 1) true text).map fun (items, rest) => (⟨false, items⟩, rest)
  | _ => (readItems (text.length + 1) true text).map fun (items, rest) => (⟨false, items⟩, rest)

/-! ### Patterns -/

inductive Glob
  | exactly (c : Char)
  | anyText
  | anyChar
  | oneOf (s : CharSet)
deriving DecidableEq, Repr

/-- Reads a pattern; a bracket that is not closed stands for itself. -/
def readPattern : Nat → List Mark → List Glob
  | 0, _ => []
  | _ + 1, [] => []
  | n + 1, (c, quoted) :: rest =>
    if quoted then .exactly c :: readPattern n rest
    else if c = '*' then .anyText :: readPattern n rest
    else if c = '?' then .anyChar :: readPattern n rest
    else if c = '[' then
      match readSet rest with
      | some (s, rest) => .oneOf s :: readPattern n rest
      | none => .exactly c :: readPattern n rest
    else .exactly c :: readPattern n rest

def Glob.ofMarks (marks : List Mark) : List Glob :=
  readPattern (marks.length + 1) marks

namespace Glob

/-- Something in a pattern stands for more than itself. -/
def isProper (pattern : List Glob) : Bool :=
  pattern.any fun g =>
    match g with
    | exactly _ => false
    | _ => true

/-- Whether a pattern stands for the whole of a text. -/
def accepts : List Glob → Octets → Bool
  | [], [] => true
  | [], _ :: _ => false
  | exactly c :: p, d :: s => c = d && accepts p s
  | anyChar :: p, _ :: s => accepts p s
  | oneOf set :: p, d :: s => set.contains d && accepts p s
  | anyText :: p, s => accepts p s || (match s with
    | [] => false
    | _ :: rest => accepts (anyText :: p) rest)
  | _ :: _, [] => false
termination_by p s => p.length + s.length

/-- Whether a pattern stands for a file name: a leading dot must be there in full. -/
def acceptsName (pattern : List Glob) (name : Octets) : Bool :=
  (name.head? ≠ some '.' || pattern.head? = some (exactly '.')) && accepts pattern name

/-! ### Cutting off what a pattern stands for -/

/-- A text without the shortest or longest beginning that a pattern stands for. -/
def trimStart (pattern : List Glob) (longest : Bool) (s : Octets) : Octets :=
  let lengths := List.range (s.length + 1)
  let lengths := if longest then lengths.reverse else lengths
  match lengths.find? fun n => accepts pattern (s.take n) with
  | some n => s.drop n
  | none => s

/-- A text without the shortest or longest end that a pattern stands for. -/
def trimEnd (pattern : List Glob) (longest : Bool) (s : Octets) : Octets :=
  let starts := List.range (s.length + 1)
  let starts := if longest then starts else starts.reverse
  match starts.find? fun n => accepts pattern (s.drop n) with
  | some n => s.take n
  | none => s

end Glob

end ScriptCheck.Batch
