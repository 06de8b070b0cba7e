import ScriptCheck.Batch.Octets

/-!
# Arithmetic

Expressions over whole numbers of 64 bits, which wrap around. A name stands for the value of a
variable, and some operators assign one.
-/

namespace ScriptCheck.Batch

/-! ### Numbers -/

/-- A number in the range of 64 bits with a sign. -/
def wrap (n : Int) : Int :=
  n.bmod (Nat.pow 2 64)

def greatest : Int := Nat.pow 2 63 - 1

/-- The digits of a number in front of a text: octal behind `0`, hexadecimal behind `0x`. -/
def leadingNumber (s : Octets) : Option (Nat × Octets) :=
  let take (base : Nat) (isDigit : Char → Bool) (s : Octets) :=
    (Octets.digitsValue base (s.takeWhile isDigit), s.dropWhile isDigit)
  let isHex : Char → Bool := fun c => c.isDigit || ('a' ≤ c.toLower && c.toLower ≤ 'f')
  match s with
  | '0' :: x :: c :: rest =>
    if x.toLower = 'x' && isHex c then some (take 16 isHex (c :: rest))
    else some (take 8 (fun d => '0' ≤ d && d ≤ '7') s)
  | '0' :: _ => some (take 8 (fun d => '0' ≤ d && d ≤ '7') s)
  | c :: _ => if c.isDigit then some (take 10 Char.isDigit s) else none
  | [] => none

/-- The number at the front of a text, behind space and a sign, cut to the range, and the text
behind it. -/
def leadingInt (s : Octets) : Option (Int × Octets) :=
  match s.dropWhile Octets.isSpace with
  | '-' :: rest =>
    (leadingNumber rest).map fun (n, rest) => (max (-greatest - 1) (-(n : Int)), rest)
  | '+' :: rest => (leadingNumber rest).map fun (n, rest) => (min greatest n, rest)
  | rest => (leadingNumber rest).map fun (n, rest) => (min greatest n, rest)

/-! ### Expressions -/

inductive Operation
  | mul | div | mod | add | sub | shiftLeft | shiftRight | less | lessEq | greater | greaterEq
  | equal | notEqual | bitAnd | bitXor | bitOr
deriving DecidableEq, Repr

inductive Expression
  | number (n : Int)
  | parameter (name : Octets)
  | negate (e : Expression)
  | complement (e : Expression)
  | not (e : Expression)
  | binary (op : Operation) (left right : Expression)
  | both (left right : Expression)
  | either (left right : Expression)
  | choice (condition yes no : Expression)
  | assign (name : Octets) (op : Option Operation) (value : Expression)

/-- What an expression lacks. -/
inductive Lack
  | primary
  | colon
  | parenthesis
  | textEnd
deriving DecidableEq, Repr

def Lack.message : Lack → String
  | .primary => "primary"
  | .colon => "':'"
  | .parenthesis => "')'"
  | .textEnd => "EOF"

namespace Operation

/-- The value of an operation; division by zero has none. -/
def apply (op : Operation) (a b : Int) : Option Int :=
  let truth (p : Bool) : Int := if p then 1 else 0
  let bits (f : Int64 → Int64 → Int64) : Int := (f (Int64.ofInt a) (Int64.ofInt b)).toInt
  match op with
  | mul => some (wrap (a * b))
  | div => if b = 0 then none else some (wrap (a.tdiv b))
  | mod => if b = 0 then none else some (a.tmod b)
  | add => some (wrap (a + b))
  | sub => some (wrap (a - b))
  | shiftLeft => some (bits (· <<< ·))
  | shiftRight => some (bits (· >>> ·))
  | less => some (truth (a < b))
  | lessEq => some (truth (a ≤ b))
  | greater => some (truth (b < a))
  | greaterEq => some (truth (b ≤ a))
  | equal => some (truth (a = b))
  | notEqual => some (truth (a ≠ b))
  | bitAnd => some (bits (· &&& ·))
  | bitXor => some (bits (· ^^^ ·))
  | bitOr => some (bits (· ||| ·))

/-- The operations with their text and how strongly they bind. A longer text comes first. -/
def table : List (String × Nat × Operation) :=
  [("<<", 8, shiftLeft), (">>", 8, shiftRight), ("<=", 7, lessEq), (">=", 7, greaterEq),
    ("==", 6, equal), ("!=", 6, notEqual), ("<", 7, less), (">", 7, greater), ("*", 10, mul),
    ("/", 10, div), ("%", 10, mod), ("+", 9, add), ("-", 9, sub), ("&", 5, bitAnd),
    ("^", 4, bitXor), ("|", 3, bitOr)]

end Operation

/-! ### Reading -/

def skipSpace (s : Octets) : Octets :=
  s.dropWhile Octets.isSpace

/-- The operator in front of a text, unless it is a part of another one. -/
def leadingOperation (s : Octets) : Option (Nat × Operation × Octets) :=
  match Operation.table.find? fun x => x.1.toList.isPrefixOf s with
  | some (text, strength, op) =>
    let rest := s.drop text.length
    if rest.head? = some '=' && op ≠ .lessEq && op ≠ .greaterEq && op ≠ .equal && op ≠ .notEqual
        && op ≠ .less && op ≠ .greater then none
    else if (text = "&" || text = "|") && rest.head? = text.toList.head? then none
    else some (strength, op, rest)
  | none => none

/-- The assignment in front of a text. -/
def leadingAssignment (s : Octets) : Option (Option Operation × Octets) :=
  match s with
  | '=' :: '=' :: _ => none
  | '=' :: rest => some (none, rest)
  | _ =>
    match Operation.table.find? fun x => x.1.toList.isPrefixOf s with
    | some (text, _, op) =>
      let isComparison := text = "<" || text = ">" || text.endsWith "="
      if (s.drop text.length).head? = some '=' && !isComparison then
        some (some op, s.drop (text.length + 1))
      else none
    | none => none

abbrev Read := Except Lack (Expression × Octets)

mutual

/-- An expression with an assignment or a choice at its top. -/
def readExpression : Nat → Octets → Read
  | 0, _ => .error .primary
  | n + 1, s => do
    let s := skipSpace s
    let name := if (s.head?.map Octets.isNameStart).getD false then s.takeWhile Octets.isNamePart
      else []
    match if name = [] then none else leadingAssignment (skipSpace (s.drop name.length)) with
    | some (op, rest) =>
      let (value, rest) ← readExpression n rest
      return (.assign name op value, rest)
    | none =>
      let (condition, rest) ← readEither n s
      match skipSpace rest with
      | '?' :: rest =>
        let (yes, rest) ← readExpression n rest
        match skipSpace rest with
        | ':' :: rest =>
          let (no, rest) ← readExpression n rest
          return (.choice condition yes no, rest)
        | _ => throw .colon
      | rest => return (condition, rest)

def readEither : Nat → Octets → Read
  | 0, _ => .error .primary
  | n + 1, s => do
    let (left, rest) ← readBoth n s
    match skipSpace rest with
    | '|' :: '|' :: rest =>
      let (right, rest) ← readEither n rest
      return (.either left right, rest)
    | rest => return (left, rest)

def readBoth : Nat → Octets → Read
  | 0, _ => .error .primary
  | n + 1, s => do
    let (left, rest) ← readUnary n s
    let (left, rest) ← readTail n 0 left rest
    match skipSpace rest with
    | '&' :: '&' :: rest =>
      let (right, rest) ← readBoth n rest
      return (.both left right, rest)
    | rest => return (left, rest)

/-- Goes on with operations that bind more strongly than a bound. -/
def readTail : Nat → Nat → Expression → Octets → Read
  | 0, _, _, _ => .error .primary
  | n + 1, bound, left, s => do
    match leadingOperation (skipSpace s) with
    | some (strength, op, rest) =>
      if strength ≤ bound then return (left, s)
      let (right, rest) ← readUnary n rest
      let (right, rest) ← readTail n strength right rest
      readTail n bound (.binary op left right) rest
    | none => return (left, s)

def readUnary : Nat → Octets → Read
  | 0, _ => .error .primary
  | n + 1, s => do
    match skipSpace s with
    | '-' :: rest => return Prod.map .negate id (← readUnary n rest)
    | '+' :: rest => readUnary n rest
    | '~' :: rest => return Prod.map .complement id (← readUnary n rest)
    | '!' :: rest => return Prod.map .not id (← readUnary n rest)
    | '(' :: rest =>
      let (e, rest) ← readExpression n rest
      match skipSpace rest with
      | ')' :: rest => return (e, rest)
      | _ => throw .parenthesis
    | s =>
      if (s.head?.map Octets.isNameStart).getD false then
        return (.parameter (s.takeWhile Octets.isNamePart), s.dropWhile Octets.isNamePart)
      match leadingNumber s with
      | some (k, rest) => return (.number (min greatest k), rest)
      | none => throw .primary

end

/-- Reads a whole text as an expression; nothing at all is zero. -/
def Expression.read (s : Octets) : Except Lack Expression := do
  if skipSpace s = [] then return .number 0
  let (e, rest) ← readExpression (8 * (s.length + 2)) s
  if skipSpace rest ≠ [] then throw .textEnd
  return e

end ScriptCheck.Batch
