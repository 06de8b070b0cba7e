/-!
# Keywords

The reserved words. Spelling is exact, so `true` and `END` are ordinary identifiers.
-/

namespace ScriptCheck

inductive Keyword
  | kwBreak | kwIf | kwDownto | kwElse | kwThen | kwEnd | kwTrue | kwFalse | kwWhile | kwDo
  | kwRepeat | kwUntil | kwFor | kwTo | kwAnd | kwOr | kwNot | kwXor | kwDiv | kwMod
  | kwFunction | kwRef | kwReturn | kwPrint | kwPrintln
deriving DecidableEq, Repr

namespace Keyword

def all : List Keyword :=
  [kwBreak, kwIf, kwDownto, kwElse, kwThen, kwEnd, kwTrue, kwFalse, kwWhile, kwDo, kwRepeat,
    kwUntil, kwFor, kwTo, kwAnd, kwOr, kwNot, kwXor, kwDiv, kwMod, kwFunction, kwRef, kwReturn,
    kwPrint, kwPrintln]

@[simp] theorem mem_all (k : Keyword) : k ∈ all := by
  cases k <;> decide

def text : Keyword → String
  | kwBreak => "break"
  | kwIf => "if"
  | kwDownto => "downto"
  | kwElse => "else"
  | kwThen => "then"
  | kwEnd => "end"
  | kwTrue => "True"
  | kwFalse => "False"
  | kwWhile => "while"
  | kwDo => "do"
  | kwRepeat => "repeat"
  | kwUntil => "until"
  | kwFor => "for"
  | kwTo => "to"
  | kwAnd => "and"
  | kwOr => "or"
  | kwNot => "not"
  | kwXor => "xor"
  | kwDiv => "div"
  | kwMod => "mod"
  | kwFunction => "function"
  | kwRef => "ref"
  | kwReturn => "return"
  | kwPrint => "print"
  | kwPrintln => "println"

/-- The keyword with a given spelling. -/
def ofText? (word : String) : Option Keyword :=
  all.find? (·.text = word)

@[simp] theorem ofText?_text (k : Keyword) : ofText? k.text = some k := by
  cases k <;> rfl

theorem text_of_ofText? {word : String} {k : Keyword} (h : ofText? word = some k) :
    k.text = word := by
  simpa using List.find?_some h

theorem text_injective {j k : Keyword} (h : j.text = k.text) : j = k := by
  simpa using congrArg ofText? h

end Keyword

end ScriptCheck
