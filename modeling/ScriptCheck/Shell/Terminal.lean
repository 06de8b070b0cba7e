/-!
# Terminals

How a text is set in a style and how a time is written is not for the shell to say. Of the marks
around a text it counts on control sequences only, and of a time on the columns of
`%b %e %H:%M:%S`: the month in three letters, the day of the month with a blank in front if it has
one digit, and the numbers of the time with two digits each.
-/

namespace ScriptCheck

inductive Style
  | bold
  | green
  | red
deriving DecidableEq, Repr

/-- When a session starts. -/
structure Clock where
  month : Nat
  day : Nat
  hour : Nat
  minute : Nat
  second : Nat
deriving DecidableEq, Repr

/-- A time that there is; some minutes have 61 seconds. -/
structure Clock.IsValid (c : Clock) : Prop where
  month : 1 ≤ c.month ∧ c.month ≤ 12
  day : 1 ≤ c.day ∧ c.day ≤ 31
  hour : c.hour < 24
  minute : c.minute < 60
  second : c.second ≤ 60

/-- A number below a hundred in two columns. -/
def twoColumns (fill : String) (n : Nat) : String :=
  if n < 10 then fill ++ toString n else toString n

/-- A control sequence for the looks of what follows. -/
def IsStyleMark (text : String) : Prop :=
  ∃ numbers : String,
    text = "\x1b[" ++ numbers ++ "m" ∧ ∀ c ∈ numbers.toList, c.isDigit ∨ c = ';'

class Terminal where
  /-- What is written before and behind a text in a style. -/
  marks : Style → String × String
  timeText : Clock → String
  isStyleMark_marks (style : Style) : IsStyleMark (marks style).1 ∧ IsStyleMark (marks style).2
  timeText_eq {c : Clock} (h : c.IsValid) : ∃ month : String,
    month.length = 3 ∧ (∀ x ∈ month.toList, x.isAlpha) ∧
      timeText c = month ++ " " ++ twoColumns " " c.day ++ " " ++ twoColumns "0" c.hour ++ ":" ++
        twoColumns "0" c.minute ++ ":" ++ twoColumns "0" c.second

def Clock.text [Terminal] (c : Clock) : String :=
  Terminal.timeText c

end ScriptCheck
