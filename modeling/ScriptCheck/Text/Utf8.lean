/-!
# Texts as bytes

A text is written as the bytes of its UTF-8 encoding. Bytes from outside need not be UTF-8, and
are read as a text all the same: bytes that begin a character and are not followed by its other
bytes are one replacement character together, and so is each byte that begins no character.
-/

namespace ScriptCheck

/-- A text as bytes. -/
def utf8Bytes (text : String) : List UInt8 :=
  text.toUTF8.toList

/-! ### Any bytes as a text -/

/-- Stands for bytes that are no character. -/
def replacement : Char := '\uFFFD'

/-- A character of which only the first bytes have been read. -/
structure Begun where
  /-- What the bytes so far count. -/
  value : Nat
  /-- The bounds of the next byte. -/
  low : Nat
  high : Nat
  /-- The number of bytes behind the next one. -/
  more : Nat

namespace Begun

/-- The character that a byte is or begins. -/
def first (b : UInt8) : List Char × Option Begun :=
  let n := b.toNat
  if n < 0x80 then ([Char.ofNat n], none)
  else if 0xC2 ≤ n ∧ n < 0xE0 then ([], some ⟨n - 0xC0, 0x80, 0xBF, 0⟩)
  else if 0xE0 ≤ n ∧ n < 0xF0 then
    -- neither a code that needs fewer bytes nor a surrogate
    ([], some ⟨n - 0xE0, if n = 0xE0 then 0xA0 else 0x80, if n = 0xED then 0x9F else 0xBF, 1⟩)
  else if 0xF0 ≤ n ∧ n < 0xF5 then
    ([], some ⟨n - 0xF0, if n = 0xF0 then 0x90 else 0x80, if n = 0xF4 then 0x8F else 0xBF, 2⟩)
  else ([replacement], none)

/-- The characters that end with a byte or in front of it, and the one that has been begun then. -/
def next (begun : Option Begun) (b : UInt8) : List Char × Option Begun :=
  match begun with
  | none => first b
  | some p =>
    if p.low ≤ b.toNat ∧ b.toNat ≤ p.high then
      let value := 64 * p.value + (b.toNat - 0x80)
      match p.more with
      | 0 => ([Char.ofNat value], none)
      | more + 1 => ([], some ⟨value, 0x80, 0xBF, more⟩)
    else (replacement :: (first b).1, (first b).2)

/-- The characters of bytes, behind what has been begun. -/
def read (begun : Option Begun) : List UInt8 → List Char
  | [] => if begun.isSome then [replacement] else []
  | b :: bytes => (next begun b).1 ++ read (next begun b).2 bytes

end Begun

/-- The text that bytes spell, with replacement characters where they spell none. -/
def lossyText (bytes : List UInt8) : String :=
  String.ofList (Begun.read none bytes)

end ScriptCheck
