import ScriptCheck.Grammar.Goal
import ScriptCheck.Scanner

/-!
# The recognizer

The recognizer keeps a stack of goals and lets the topmost one move in front of the current token
of a feed. It asks for the next token only when the current one is used up, so it never reads past
the end of the text, and after a syntax error the refused token is still the current one.
-/

namespace ScriptCheck

open TokenFeed

/-- The end of a run: its result, the scanner or other feed as it is left, and what was reported. -/
structure Run (σ : Type) where
  result : Except ParseError Unit
  scanner : σ
  events : List Event

section

variable {σ : Type} [TokenFeed σ]

/-- Lets the goals move until none is left. The events reported so far come in reverse. -/
def run (s : σ) (events : List Event) : List Goal → Run σ
  | [] => ⟨.ok (), s, events.reverse⟩
  | g :: goals =>
    match _ : g.step (current s) with
    | .reduce new gs => run s (new.reverseAux events) (gs ++ goals)
    | .shift new gs =>
      match _ : next s with
      | (.ok (), s') => run s' (new.reverseAux events) (gs ++ goals)
      | (.error e, s') => ⟨.error (.lexical e), s', (new.reverseAux events).reverse⟩
    | .look k yes no =>
      match _ : peek s with
      | (.ok t, s') => run s' events ((if t.kind = k then yes else no) ++ goals)
      | (.error e, s') => ⟨.error (.lexical e), s', events.reverse⟩
    | .refuse e => ⟨.error (.grammatical (.atToken e (current s))), s, events.reverse⟩
termination_by goals => (size s, Goal.totalRank goals)
decreasing_by
  · have := Goal.totalRank_lt_of_reduce ‹_›
    apply Prod.Lex.right
    simp only [Goal.totalRank_append, Goal.totalRank_cons]
    omega
  · exact Prod.Lex.left _ _ (size_next_lt (Goal.kind_ne_eof_of_shift ‹_›) ‹_›)
  · have := Goal.totalRank_lt_of_look ‹_›
    have hs := size_peek_le ‹_›
    rcases Nat.lt_or_eq_of_le hs with hs | hs
    · exact Prod.Lex.left _ _ hs
    · rw [hs]
      apply Prod.Lex.right
      split <;> simp only [Goal.totalRank_append, Goal.totalRank_cons] <;> omega

variable {s s' : σ} {g : Goal} {goals gs yes no : List Goal} {events new : List Event}

@[simp] theorem run_nil : run s events [] = ⟨.ok (), s, events.reverse⟩ := by
  rw [run]

theorem run_of_reduce (h : g.step (current s) = .reduce new gs) :
    run s events (g :: goals) = run s (new.reverse ++ events) (gs ++ goals) := by
  rw [run]
  split <;> simp_all [List.reverseAux_eq]

theorem run_of_shift (h : g.step (current s) = .shift new gs) (hs : next s = (.ok (), s')) :
    run s events (g :: goals) = run s' (new.reverse ++ events) (gs ++ goals) := by
  rw [run]
  split <;> simp_all [List.reverseAux_eq]
  split <;> simp_all

theorem run_of_shift_error {e : LexError} (h : g.step (current s) = .shift new gs)
    (hs : next s = (.error e, s')) :
    run s events (g :: goals) = ⟨.error (.lexical e), s', events.reverse ++ new⟩ := by
  rw [run]
  split <;> simp_all [List.reverseAux_eq]
  split <;> simp_all

theorem run_of_look {k : TokenKind} {t : Token} (h : g.step (current s) = .look k yes no)
    (hs : peek s = (.ok t, s')) :
    run s events (g :: goals) = run s' events ((if t.kind = k then yes else no) ++ goals) := by
  rw [run]
  split <;> simp_all
  split <;> simp_all

theorem run_of_look_error {k : TokenKind} {e : LexError} (h : g.step (current s) = .look k yes no)
    (hs : peek s = (.error e, s')) :
    run s events (g :: goals) = ⟨.error (.lexical e), s', events.reverse⟩ := by
  rw [run]
  split <;> simp_all
  split <;> simp_all

theorem run_of_refuse {e : Expectation} (h : g.step (current s) = .refuse e) :
    run s events (g :: goals) =
      ⟨.error (.grammatical (.atToken e (current s))), s, events.reverse⟩ := by
  rw [run]
  split <;> simp_all

end

/-! ### A whole program -/

/-- The goals of a program. -/
def program : List Goal :=
  [.statements, .endOfProgram]

/-- Recognizes a program that begins with the current token. -/
def TokenFeed.program {σ : Type} [TokenFeed σ] (s : σ) : Run σ :=
  run s [] ScriptCheck.program

/-- Recognizes a program that begins with the next token. -/
def TokenFeed.recognize {σ : Type} [TokenFeed σ] (s : σ) : Run σ :=
  match next s with
  | (.ok (), s) => program s
  | (.error e, s) => ⟨.error (.lexical e), s, []⟩

def Scanner.program (s : Scanner) : Run Scanner :=
  TokenFeed.program s

def Scanner.recognize (s : Scanner) : Run Scanner :=
  TokenFeed.recognize s

/-- Recognizes a text as a program. -/
def recognize (text : String) : Run Scanner :=
  (Scanner.ofText text).recognize

/-- Accepts a text, or tells why it is no program. -/
def check (text : String) : Except ParseError Unit :=
  (recognize text).result

end ScriptCheck
