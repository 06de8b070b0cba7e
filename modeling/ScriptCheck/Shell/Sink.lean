import ScriptCheck.Text.Utf8

/-!
# Sinks

A sink takes the bytes that the shell writes. It may have room for so many only: a text that does
not fit is cut, and the write fails.
-/

namespace ScriptCheck

structure Sink where
  /-- The bytes that still fit, if there is a bound. -/
  room : Option Nat
  written : List UInt8

namespace Sink

/-- An empty sink. -/
def ofRoom (room : Option Nat) : Sink :=
  ⟨room, []⟩

/-- Writes a text, and tells whether all of it fitted. -/
def write (s : Sink) (text : String) : Bool × Sink :=
  let bytes := utf8Bytes text
  match s.room with
  | none => (true, ⟨none, s.written ++ bytes⟩)
  | some n =>
    (bytes.length ≤ n, ⟨some (n - bytes.length), s.written ++ bytes.take n⟩)

/-- Writes texts in turn up to the first that does not fit. -/
def writeAll (s : Sink) : List String → Bool × Sink
  | [] => (true, s)
  | text :: texts =>
    match s.write text with
    | (true, s) => writeAll s texts
    | (false, s) => (false, s)

@[simp] theorem writeAll_nil (s : Sink) : s.writeAll [] = (true, s) := rfl

theorem writeAll_append (s : Sink) (xs ys : List String) :
    s.writeAll (xs ++ ys) =
      match s.writeAll xs with
      | (true, s) => s.writeAll ys
      | (false, s) => (false, s) := by
  induction xs generalizing s with
  | nil => rfl
  | cons x xs ih =>
    simp only [List.cons_append, writeAll]
    split
    · exact ih _
    · rfl

end Sink

end ScriptCheck
