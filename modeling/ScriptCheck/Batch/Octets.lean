/-!
# Octets

The command language works on bytes. A text of it is a list of characters, each of which stands
for the byte with its code.
-/

namespace ScriptCheck

abbrev Octets := List Char

namespace Octets

def ofBytes (bytes : ByteArray) : Octets :=
  bytes.toList.map fun b => Char.ofNat b.toNat

def toBytes (s : Octets) : ByteArray :=
  ⟨(s.map fun c => c.toNat.toUInt8).toArray⟩

/-- The bytes of a text. -/
def ofString (text : String) : Octets :=
  ofBytes text.toUTF8

/-- The text that bytes spell, or one character for each byte if they spell none. -/
def text (s : Octets) : String :=
  (String.fromUTF8? (toBytes s)).getD (String.ofList s)

/-! ### Lines and words -/

/-- The first line without its break, and what follows the break, if there is one. -/
def cutLine (s : Octets) : Octets × Option Octets :=
  match s.dropWhile (· ≠ '\n') with
  | _ :: rest => (s.takeWhile (· ≠ '\n'), some rest)
  | [] => (s, none)

/-- Cuts at each character of a kind, with the piece that is being read in reverse. -/
def splitOnto (isCut : Char → Bool) (piece : Octets) : Octets → List Octets
  | [] => [piece.reverse]
  | c :: rest =>
    if isCut c then piece.reverse :: splitOnto isCut [] rest
    else splitOnto isCut (c :: piece) rest

def split (isCut : Char → Bool) (s : Octets) : List Octets :=
  splitOnto isCut [] s

/-- The lines of a text without their breaks. -/
def lines (s : Octets) : List Octets :=
  let pieces := split (· = '\n') s
  if pieces.getLast? = some [] then pieces.dropLast else pieces

def unlines (lines : List Octets) : Octets :=
  lines.flatMap (· ++ ['\n'])

def isBlank (c : Char) : Bool :=
  c = ' ' || c = '\t'

def isSpace (c : Char) : Bool :=
  c = ' ' || (9 ≤ c.toNat && c.toNat ≤ 13)

/-- The words of a text, which space separates. -/
def words (s : Octets) : List Octets :=
  (split isSpace s).filter (· ≠ [])

/-- Texts with another in between. -/
def join (between : Octets) (pieces : List Octets) : Octets :=
  between.intercalate pieces

/-- The order of texts by their bytes, with a text in front of the longer ones that begin with
it. -/
def isUpTo : Octets → Octets → Bool
  | [], _ => true
  | _ :: _, [] => false
  | c :: x, d :: y => c.toNat < d.toNat || (c = d && isUpTo x y)

/-! ### Names -/

def isNameStart (c : Char) : Bool :=
  c.isAlpha || c = '_'

def isNamePart (c : Char) : Bool :=
  c.isAlphanum || c = '_'

def isName : Octets → Bool
  | [] => false
  | c :: rest => isNameStart c && rest.all isNamePart

/-! ### Numbers -/

/-- The number that digits write, whichever they are. -/
def digitsValue (base : Nat) (digits : Octets) : Nat :=
  digits.foldl (fun n c => base * n + (if c.isDigit then c.toNat - 48 else c.toLower.toNat - 87)) 0

/-- The number that a text of decimal digits writes. -/
def nat? (s : Octets) : Option Nat :=
  if s ≠ [] ∧ s.all Char.isDigit then some (digitsValue 10 s) else none

/-- The number that a text writes in decimal, with a sign and with space around it. -/
def int? (s : Octets) : Option Int :=
  let s := s.dropWhile isSpace
  let s := (s.reverse.dropWhile isSpace).reverse
  match s with
  | '-' :: digits => (nat? digits).map fun n => -(n : Int)
  | '+' :: digits => (nat? digits).map Int.ofNat
  | digits => (nat? digits).map Int.ofNat

/-- The number in decimal. -/
def ofInt (n : Int) : Octets :=
  (toString n).toList

def ofNat (n : Nat) : Octets :=
  Nat.toDigits 10 n

end Octets

end ScriptCheck
