import ScriptCheck.Batch.Arithmetic
import ScriptCheck.Decimal.Fixed

/-!
# Formats

The escapes of `echo` and `printf`, and the directives that put arguments into a format. A format
is used again for as long as arguments are left.
-/

namespace ScriptCheck.Batch

/-! ### Escapes -/

def isOctal (c : Char) : Bool :=
  '0' ≤ c && c ≤ '7'

/-- The character of an octal code, which is cut to a byte. -/
def octalChar (digits : Octets) : Char :=
  Char.ofNat (Octets.digitsValue 8 digits % 256)

/-- The characters behind a backslash that stand for another one. -/
def escapes : List (Char × Char) :=
  [('\\', '\\'), ('a', '\x07'), ('b', '\x08'), ('e', '\x1b'), ('f', '\x0c'), ('n', '\n'),
    ('r', '\r'), ('t', '\t'), ('v', '\x0b')]

/-- What the text behind a backslash stands for, and how much of it that takes. In a text, unlike
a format, a zero may come in front of three octal digits. -/
def escape (inText : Bool) (s : Octets) : Option (Char × Nat) :=
  let octal (skipped : Nat) :=
    let digits := ((s.drop skipped).take 3).takeWhile isOctal
    some (octalChar digits, skipped + digits.length)
  match s with
  | c :: _ =>
    if c = '0' && inText then octal 1
    else if isOctal c then octal 0
    else (escapes.lookup c).map (·, 1)
  | [] => none

/-- A text with its escapes replaced, and whether it ends the output, as `\c` does. -/
def unescape : Nat → Octets → Octets × Bool
  | 0, _ => ([], false)
  | _ + 1, [] => ([], false)
  | _ + 1, '\\' :: 'c' :: _ => ([], true)
  | n + 1, '\\' :: rest =>
    match escape true rest with
    | some (c, length) =>
      let (out, ends) := unescape n (rest.drop length)
      (c :: out, ends)
    | none =>
      let (out, ends) := unescape n rest
      ('\\' :: out, ends)
  | n + 1, c :: rest =>
    let (out, ends) := unescape n rest
    (c :: out, ends)

/-- What `echo` writes. -/
def echoText (args : List Octets) : Octets :=
  let (args, lineEnd) := match args with
    | ['-', 'n'] :: args => (args, [])
    | args => (args, ['\n'])
  let text := Octets.join [' '] args
  let (out, ends) := unescape (text.length + 1) text
  if ends then out else out ++ lineEnd

/-! ### Directives -/

/-- What stands between the percent sign and the letter of a directive. -/
structure Layout where
  left : Bool
  plus : Bool
  space : Bool
  alternate : Bool
  zero : Bool
  width : Nat
  precision : Option Nat

namespace Layout

/-- Puts a text, with a sign or base in front of it, into a field. -/
def place (l : Layout) (padsZero : Bool) (lead text : Octets) : Octets :=
  let missing := l.width - (lead.length + text.length)
  if l.left then lead ++ text ++ List.replicate missing ' '
  else if l.zero && padsZero then lead ++ List.replicate missing '0' ++ text
  else List.replicate missing ' ' ++ lead ++ text

def text (l : Layout) (s : Octets) : Octets :=
  l.place false [] (match l.precision with
    | some n => s.take n
    | none => s)

/-- A whole number with at least as many digits as the precision asks for. -/
def digits (l : Layout) (lead digits : Octets) : Octets :=
  match l.precision with
  | some 0 => l.place false lead (if digits = ['0'] then [] else digits)
  | some n => l.place false lead (List.replicate (n - digits.length) '0' ++ digits)
  | none => l.place true lead digits

def sign (l : Layout) (negative : Bool) : Octets :=
  if negative then ['-'] else if l.plus then ['+'] else if l.space then [' '] else []

def int (l : Layout) (n : Int) : Octets :=
  l.digits (l.sign (n < 0)) (Octets.ofNat n.natAbs)

/-- A number without a sign; a negative one stands for its rest modulo `2 ^ 64`. -/
def unsigned (l : Layout) (base : Nat) (upper : Bool) (n : Int) : Octets :=
  let n := (n % (2 * greatest + 2)).toNat
  let digits := Nat.toDigits base n
  let digits := if upper then digits.map Char.toUpper else digits
  let lead := if !l.alternate || n = 0 then []
    else if base = 16 then ['0', if upper then 'X' else 'x']
    else if base = 8 then ['0'] else []
  l.digits lead digits

/-- A number with a fixed number of places. -/
def fixed (l : Layout) (x : Binary64) : Octets :=
  let places := l.precision.getD 6
  let digits := (Binary64.fixed places ⟨x.bits &&& 0x7fffffffffffffff⟩).toList
  l.place true (l.sign x.isNegative) (if places = 0 then digits.filter (· ≠ '.') else digits)

end Layout

/-! ### Arguments -/

/-- Why an argument is no number. -/
inductive ArgumentFault
  | notNumeric
  | notAllNumeric
  | outOfRange
deriving DecidableEq, Repr

def ArgumentFault.message : ArgumentFault → String
  | notNumeric => "expected numeric value"
  | notAllNumeric => "not completely converted"
  | outOfRange => "Numerical result out of range"

/-- The number of an argument: the code of a quoted character, or what its front spells. -/
def argumentInt (isSigned : Bool) (arg : Octets) : Int × Option ArgumentFault :=
  match arg with
  | [] => (0, none)
  | '"' :: rest => ((rest.headD '\x00').toNat, none)
  | '\'' :: rest => ((rest.headD '\x00').toNat, none)
  | _ =>
    let text := arg.dropWhile Octets.isSpace
    let (negative, text) := match text with
      | '-' :: rest => (true, rest)
      | '+' :: rest => (false, rest)
      | _ => (false, text)
    match leadingNumber text with
    | none => (0, some .notNumeric)
    | some (n, rest) =>
      let value : Int := if negative then -n else n
      let bounded := if isSigned then max (-greatest - 1) (min greatest value)
        else min (2 * greatest + 1) value
      (bounded, if value ≠ bounded then some .outOfRange
        else if rest ≠ [] then some .notAllNumeric else none)

/-- The number that a decimal with a point spells at the front of an argument. -/
def argumentReal (arg : Octets) : Float × Option ArgumentFault :=
  let text := arg.dropWhile Octets.isSpace
  let (negative, text) := match text with
    | '-' :: rest => (true, rest)
    | '+' :: rest => (false, rest)
    | _ => (false, text)
  let whole := text.takeWhile Char.isDigit
  let (fraction, rest) := match text.dropWhile Char.isDigit with
    | '.' :: rest => (rest.takeWhile Char.isDigit, rest.dropWhile Char.isDigit)
    | rest => ([], rest)
  if arg = [] then (0, none)
  else if whole = [] ∧ fraction = [] then (0, some .notNumeric)
  else
    let x := Float.ofScientific (Octets.digitsValue 10 (whole ++ fraction)) true fraction.length
    (if negative then -x else x, if rest ≠ [] then some .notAllNumeric else none)

/-! ### Formats -/

/-- A format that is being used. -/
structure Printing where
  output : Octets
  args : List Octets
  complaints : List Octets
  code : Nat
  /-- Nothing more is written. -/
  ended : Bool
  /-- An argument has been used, or asked for. -/
  usedArgument : Bool

namespace Printing

def take (p : Printing) : Option Octets × Printing :=
  match p.args with
  | arg :: args => (some arg, { p with args, usedArgument := true })
  | [] => (none, { p with usedArgument := true })

def write (p : Printing) (text : Octets) : Printing :=
  { p with output := p.output ++ text }

def complain (p : Printing) (text : Octets) (code : Nat) : Printing :=
  { p with complaints := p.complaints ++ [text], code }

def note (p : Printing) (arg : Octets) : Option ArgumentFault → Printing
  | some fault => p.complain (arg ++ ": ".toList ++ fault.message.toList) 1
  | none => p

def takeInt (p : Printing) (isSigned : Bool) : Int × Printing :=
  let (arg, p) := p.take
  let arg := arg.getD []
  let (n, fault) := argumentInt isSigned arg
  (n, p.note arg fault)

/-- Writes one argument as a directive says; `none` for a letter that is no directive. -/
def direct (p : Printing) (l : Layout) (letter : Char) : Option Printing :=
  if letter = 's' then
    let (arg, p) := p.take
    some (p.write (l.text (arg.getD [])))
  else if letter = 'c' then
    let (arg, p) := p.take
    some (p.write ({ l with precision := none }.text [(arg.getD []).headD '\x00']))
  else if letter = 'b' then
    let (arg, p) := p.take
    let arg := arg.getD []
    let (text, ends) := unescape (arg.length + 1) arg
    some { p.write (l.text text) with ended := ends }
  else if letter = 'd' || letter = 'i' then
    let (n, p) := p.takeInt true
    some (p.write (l.int n))
  else if letter = 'u' then
    let (n, p) := p.takeInt false
    some (p.write (l.unsigned 10 false n))
  else if letter = 'o' then
    let (n, p) := p.takeInt false
    some (p.write (l.unsigned 8 false n))
  else if letter = 'x' || letter = 'X' then
    let (n, p) := p.takeInt false
    some (p.write (l.unsigned 16 (letter = 'X') n))
  else if letter = 'f' then
    let (arg, p) := p.take
    let arg := arg.getD []
    let (x, fault) := argumentReal arg
    some ((p.note arg fault).write (l.fixed (.ofFloat x)))
  else none

/-- A number in a layout, or the argument that a star asks for. -/
def takeSize (p : Printing) (s : Octets) : Int × Octets × Printing :=
  match s with
  | '*' :: rest =>
    let (n, p) := p.takeInt true
    (n, rest, p)
  | _ => (Octets.digitsValue 10 (s.takeWhile Char.isDigit), s.dropWhile Char.isDigit, p)

/-- Carries out the directive behind a percent sign. -/
def directive (p : Printing) (s : Octets) : Printing × Octets :=
  let isFlag : Char → Bool := fun c => "#-+ 0".toList.contains c
  let flags := s.takeWhile isFlag
  let (width, rest, p) := p.takeSize (s.dropWhile isFlag)
  let (precision, rest, p) := match rest with
    | '.' :: rest =>
      let (n, rest, p) := p.takeSize rest
      (if n < 0 then none else some n.toNat, rest, p)
    | _ => (none, rest, p)
  let layout : Layout := ⟨flags.contains '-' || width < 0, flags.contains '+',
    flags.contains ' ', flags.contains '#', flags.contains '0', width.natAbs, precision⟩
  match rest with
  | letter :: after =>
    match p.direct layout letter with
    | some p => (p, after)
    | none =>
      let text := '%' :: s.take (s.length - after.length)
      ({ p.complain (text ++ ": invalid directive".toList) 2 with ended := true }, [])
  | [] => ({ p.complain "missing format character".toList 2 with ended := true }, [])

/-- Uses a format once. -/
def once : Nat → Printing → Octets → Printing
  | 0, p, _ => p
  | _ + 1, p, [] => p
  | n + 1, p, '%' :: '%' :: rest => once n (p.write ['%']) rest
  | n + 1, p, '%' :: rest =>
    let (p, rest) := p.directive rest
    if p.ended then p else once n p rest
  | n + 1, p, '\\' :: rest =>
    match escape false rest with
    | some (c, length) => once n (p.write [c]) (rest.drop length)
    | none => once n (p.write ['\\']) rest
  | n + 1, p, c :: rest => once n (p.write [c]) rest

/-- Uses a format until no arguments are left, or it takes none. -/
def repeatedly : Nat → Printing → Octets → Printing
  | 0, p, _ => p
  | n + 1, p, s =>
    let p := once (s.length + 1) { p with usedArgument := false } s
    if p.ended || p.args.isEmpty || !p.usedArgument then p else repeatedly n p s

/-- What `printf` writes and complains about, and its code. -/
def run (format : Octets) (args : List Octets) : Printing :=
  repeatedly (args.length + 1) ⟨[], args, [], 0, false, false⟩ format

end Printing

end ScriptCheck.Batch
