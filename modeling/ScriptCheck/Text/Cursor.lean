/-!
# Reading a text character by character

A cursor stands between two characters of a text. It reads the one behind it, or looks at it
without moving, and knows how many it has read.
-/

namespace ScriptCheck

structure Cursor where
  position : Nat
  rest : List Char

namespace Cursor

def ofText (text : String) : Cursor :=
  ⟨0, text.toList⟩

def peek (c : Cursor) : Option Char :=
  c.rest.head?

def atEnd (c : Cursor) : Bool :=
  c.rest.isEmpty

/-- The character behind the cursor, and the cursor moved over it. -/
def read (c : Cursor) : Option Char × Cursor :=
  match c.rest with
  | [] => (none, c)
  | x :: rest => (some x, ⟨c.position + 1, rest⟩)

@[simp] theorem read_fst (c : Cursor) : c.read.1 = c.peek := by
  unfold read peek; split <;> simp [*]

@[simp] theorem read_rest (c : Cursor) : c.read.2.rest = c.rest.tail := by
  unfold read; split <;> simp [*]

theorem read_atEnd {c : Cursor} (h : c.atEnd) : c.read = (none, c) := by
  unfold read atEnd at *; split <;> simp_all

end Cursor

end ScriptCheck
