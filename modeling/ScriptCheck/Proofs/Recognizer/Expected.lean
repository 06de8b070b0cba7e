import ScriptCheck.Proofs.Recognizer.Continue

/-!
# What an error names as expected

A syntax error names one thing or two that were expected in place of a token. Each of them could
have stood there, in front of some rest of an accepted program, with one exception: a semicolon is
named wherever a program could end, also where no statement precedes it that it could follow.
-/

namespace ScriptCheck

variable {n : Token} {g : Goal} {goals : List Goal} {ts : List Token} {es : List Event}
  {e : Expectation} {a : Wanted}

/-! ### What an error names -/

/-- One of the things that an error names as expected. -/
inductive Wanted
  | kind (k : TokenKind)
  | statement
  | expression
  | endOfProgram
deriving DecidableEq, Repr

namespace Wanted

def text : Wanted → String
  | kind k => k.describe
  | statement => "a statement"
  | expression => "an expression"
  | endOfProgram => "end of program"

/-- What has to stand in a text for the alternative to stand there. -/
def Stands (w : List TokenKind) : Wanted → Prop
  | kind k => w = [k]
  | statement => Derives grammar (.part .statement) w
  | expression => Derives grammar (.part .expression) w
  | endOfProgram => w = [.eof]

/-- Behind these tokens the alternative stands in some accepted text. -/
def CanFollow (before : List Token) (a : Wanted) : Prop :=
  ∃ text ts w, check text = .ok () ∧ tokenize text = .ok ts ∧ a.Stands (w.map Prod.fst) ∧
    before.map Token.content ++ w <+: ts.map Token.content

/-- The shortest tokens that the alternative stands for, without the end of the text. -/
def word : Wanted → List TokenKind
  | kind k => [k]
  | statement => [.keyword .kwBreak]
  | expression => [.identifier]
  | endOfProgram => []

end Wanted

namespace Expectation

def alternatives : Expectation → List Wanted
  | kind k => [.kind k]
  | statement => [.statement]
  | expression => [.expression]
  | direction => [.kind (.keyword .kwTo), .kind (.keyword .kwDownto)]
  | endOfProgram => [.kind (.symbol .semicolon), .endOfProgram]

theorem text_eq (e : Expectation) :
    e.text = " or ".intercalate (e.alternatives.map Wanted.text) := by
  cases e <;> rfl

end Expectation

/-! ### Words -/

theorem generates_part {n : Nonterminal} {w : List TokenKind} (hp : g.phrases = [.part n]) :
    Generates [g] w ↔ Derives grammar (.part n) w := by
  simp [Generates, hp, derivesAll_cons]

namespace Wanted

theorem stands_word (he : a ≠ .endOfProgram) : a.Stands a.word := by
  cases a with
  | kind k => rfl
  | statement => exact (generates_part rfl).1 (generates_fillers [.statement])
  | expression => exact (generates_part rfl).1 (generates_fillers [.expression])
  | endOfProgram => exact absurd rfl he

end Wanted

/-- A goal that refuses a token names the first token of what satisfies it, or its own kind. -/
theorem cases_of_refuse (hg : g.step n = .refuse e) :
    (∃ k v, e = .kind k ∧ g.filler = k :: v) ∨ (g = .statement ∧ e = .statement) ∨
      (g = .factor ∧ e = .expression) ∨ (g = .direction ∧ e = .direction) ∨
      (g = .endOfProgram ∧ e = .endOfProgram) := by
  cases g <;> simp only [Goal.step, Goal.demand, Goal.operator, Goal.stepStatement,
    Goal.stepTarget, Goal.stepFactor, Goal.stepReference, Goal.stepSigns, Goal.stepItems,
    Goal.stepParameter, Goal.stepMoreParameters, Goal.enter] at hg
  all_goals (repeat' split at hg)
  all_goals simp only [Move.refuse.injEq, reduceCtorEq] at hg
  all_goals
    subst hg
    simp [Goal.filler]

/-! ### What can follow -/

section

variable (hr : Reaches n program ts es (g :: goals)) (hg : g.step n = .refuse e)
  (ht : ∀ t ∈ ts, Spellable t.content)

include hr hg ht

theorem canFollow_of_generates {v : List TokenKind} (hw : Generates (g :: goals) (a.word ++ v))
    (hp : ∀ k ∈ a.word ++ v, ∃ p, Spellable (k, p))
    (ho : ((a.word ++ v).headD .eof).operand? = none) (he : a ≠ .endOfProgram) :
    a.CanFollow ts := by
  obtain ⟨accepted, us, vs, l, hck, htok, hus, hvs, -⟩ := exists_accepted_with hr hg ht hw hp ho
  obtain ⟨vs, vs', rfl, hv, -⟩ := List.map_eq_append_iff.1 hvs
  refine ⟨accepted, us ++ [Token.eof l], vs, hck, htok, ?_, ?_⟩
  · rw [hv]
    exact Wanted.stands_word he
  · rw [List.map_append, hus, List.append_assoc, List.append_assoc, List.prefix_append_right_inj]
    exact List.prefix_append ..

/-- What is named as expected can follow, unless the program could end. -/
theorem canFollow_of_refuse (ha : a ∈ e.alternatives) (he : e ≠ .endOfProgram) :
    a.CanFollow ts := by
  have hw := generates_fillers (g :: goals)
  have hp : ∀ k ∈ (g :: goals).flatMap Goal.filler, ∃ p, Spellable (k, p) :=
    exists_spellable_of_mem_fillers
  have ho := operand?_of_refuse hg (hr.wellFormed wellFormed_program)
  rw [List.flatMap_cons] at hw hp ho
  rcases cases_of_refuse hg with ⟨k, v, rfl, hf⟩ | ⟨rfl, rfl⟩ | ⟨rfl, rfl⟩ | ⟨rfl, rfl⟩ |
    ⟨rfl, rfl⟩
  · obtain rfl : a = .kind k := by simpa [Expectation.alternatives] using ha
    rw [hf] at hw hp ho
    exact canFollow_of_generates (a := .kind k) hr hg ht hw hp ho (by simp)
  · obtain rfl : a = .statement := by simpa [Expectation.alternatives] using ha
    exact canFollow_of_generates (a := .statement) hr hg ht hw hp ho (by simp)
  · obtain rfl : a = .expression := by simpa [Expectation.alternatives] using ha
    exact canFollow_of_generates (a := .expression) hr hg ht hw hp ho (by simp)
  · obtain rfl | rfl : a = .kind (.keyword .kwTo) ∨ a = .kind (.keyword .kwDownto) := by
      simpa [Expectation.alternatives] using ha
    · exact canFollow_of_generates (a := .kind _) hr hg ht hw hp ho (by simp)
    · have hw : Generates (.direction :: goals)
          (.keyword .kwDownto :: goals.flatMap Goal.filler) :=
        generates_direction.2 ⟨_, _, rfl, .inr rfl, generates_fillers goals⟩
      refine canFollow_of_generates (a := .kind _) hr hg ht hw ?_ rfl (by simp)
      intro k hk
      rcases List.mem_cons.1 hk with rfl | hk
      · exact ⟨_, (Spells.keyword .kwDownto).spellable⟩
      · exact exists_spellable_of_mem_fillers k hk
  · exact absurd rfl he

end

/-- Where a program could end, its text can be at its end. -/
theorem reaches_end_of_refuse (hr : Reaches n program ts es (g :: goals))
    (hg : g.step n = .refuse .endOfProgram) :
    ∃ es', Reaches (.eof n.location) program ts es' [] := by
  obtain rfl : g = .endOfProgram := by
    simpa using cases_of_refuse hg
  obtain rfl : goals = [] := (hr.wellFormed wellFormed_program).1
  obtain ⟨us, es', hc, hu, -⟩ := exists_completion hr hg (generates_nil.2 rfl) (by simp) rfl
  obtain rfl : us = [] := by simpa using hu
  rw [List.append_nil] at hc
  exact ⟨_, hc⟩

theorem canFollow_endOfProgram {l : Location} (h : Reaches (.eof l) program ts es [])
    (ht : ∀ t ∈ ts, Spellable t.content) : Wanted.endOfProgram.CanFollow ts := by
  obtain ⟨accepted, us, l', hck, htok, hus, -⟩ := exists_accepted_of_reaches h ht
  refine ⟨accepted, us ++ [Token.eof l'], [(.eof, .none)], hck, htok, rfl, ?_⟩
  rw [List.map_append, hus]
  exact List.prefix_refl _

/-- Behind a complete statement a semicolon can follow. -/
theorem canFollow_semicolon {l : Location} (h : Reaches (.eof l) program ts es [])
    (ht : ∀ t ∈ ts, Spellable t.content) (ha : ¬ AwaitsStatement ts) :
    (Wanted.kind (.symbol .semicolon)).CanFollow ts := by
  have hg := (h.of_program.complete ha).generates_semicolon rfl
  have hk : ts.map Token.kind ++ [TokenKind.symbol .semicolon] =
      (ts ++ [(⟨.symbol .semicolon, .none, l⟩ : Token)]).map Token.kind := by
    rw [List.map_append]
    rfl
  rw [hk] at hg
  obtain ⟨es', hr⟩ := exists_reaches_of_generates (n := .eof l) rfl wellFormed_program hg
  have hspell : ∀ t ∈ ts ++ [(⟨.symbol .semicolon, .none, l⟩ : Token)], Spellable t.content := by
    intro t htu
    rcases List.mem_append.1 htu with htu | htu
    · exact ht t htu
    · obtain rfl := List.mem_singleton.1 htu
      exact (Spells.symbol .semicolon).spellable
  obtain ⟨accepted, us, l', hck, htok, hus, -⟩ := exists_accepted_of_reaches hr hspell
  refine ⟨accepted, us ++ [Token.eof l'], [(.symbol .semicolon, .none)], hck, htok, rfl, ?_⟩
  rw [List.map_append, hus, List.map_append]
  exact List.prefix_append ..

/-- Where a statement is awaited no semicolon can follow. -/
theorem not_canFollow_semicolon (ha : AwaitsStatement ts) :
    ¬ (Wanted.kind (.symbol .semicolon)).CanFollow ts := by
  rintro ⟨text, us, w, hck, htok, hw, hpre⟩
  obtain ⟨vs, n, hvs, hn, -, hg⟩ := exists_reaches_of_check hck
  obtain rfl : vs ++ [n] = us := by simpa [htok, eq_comm] using hvs
  have hkind (ts : List Token) : (ts.map Token.content).map Prod.fst = ts.map Token.kind := by
    simp [Token.content]
  have hpre := hpre.map Prod.fst
  rw [List.map_append, hkind, hkind, hw, List.map_append, List.map_singleton, hn,
    List.prefix_concat_iff] at hpre
  rcases hpre with he | ⟨v, hv⟩
  · have := (List.append_inj' he rfl).2
    simp at this
  · rw [← hv, List.append_assoc] at hg
    exact ha.not_generates hg

/-- Whatever a syntax error names as expected can follow the tokens before the refused one, except a
semicolon where a statement is awaited. -/
theorem expected_can_follow {text : String} {err : SyntaxError}
    (h : check text = .error (.grammatical err)) :
    ∃ ts t e, firstTokens (ts.length + 1) text = .ok (ts ++ [t]) ∧ err = .atToken e t ∧
      err.expected = " or ".intercalate (e.alternatives.map Wanted.text) ∧
      ∀ a ∈ e.alternatives, (a.CanFollow ts ↔
        ¬ (a = .kind (.symbol .semicolon) ∧ AwaitsStatement ts)) := by
  obtain ⟨ts, es, s, s', g, goals, e, hn, hf, hr, hg, rfl, -⟩ :=
    exists_path_of_check_grammatical h
  have hs := Scanner.readFrom_of_next rfl hn
  have ht := Scanner.spellable_of_feeds hf hs (not_mem_foldBreaks text.toList) hr.kind_ne_eof
  refine ⟨ts, s'.current, e, Scanner.first_of_feeds hf hs, rfl, e.text_eq, fun a ha => ?_⟩
  constructor
  · rintro hc ⟨rfl, hawaits⟩
    exact not_canFollow_semicolon hawaits hc
  · intro hna
    by_cases he : e = .endOfProgram
    · subst he
      obtain ⟨es', hc⟩ := reaches_end_of_refuse hr hg
      obtain rfl | rfl : a = .kind (.symbol .semicolon) ∨ a = .endOfProgram := by
        simpa [Expectation.alternatives] using ha
      · exact canFollow_semicolon hc ht fun hawaits => hna ⟨rfl, hawaits⟩
      · exact canFollow_endOfProgram hc ht
    · exact canFollow_of_refuse hr hg ht ha he

/-- Behind an assignment sign an expression is named, and can follow. -/
theorem expected_at_missing_operand :
    check "x = )" = .error (.grammatical ⟨"an expression", "')'", ⟨1, 5⟩⟩) ∧
      ∃ ts t e, firstTokens (ts.length + 1) "x = )" = .ok (ts ++ [t]) ∧
        (⟨"an expression", "')'", ⟨1, 5⟩⟩ : SyntaxError) = .atToken e t ∧
        "an expression" = " or ".intercalate (e.alternatives.map Wanted.text) ∧
        ∀ a ∈ e.alternatives, (a.CanFollow ts ↔
          ¬ (a = .kind (.symbol .semicolon) ∧ AwaitsStatement ts)) :=
  ⟨check_missing_operand, expected_can_follow check_missing_operand⟩

/-- In front of a text that begins with the end of a block a semicolon is named, and no program
begins with one. -/
theorem semicolon_expected_at_stray_end :
    check "end" = .error (.grammatical ⟨"';' or end of program", "'end'", ⟨1, 1⟩⟩) ∧
      ¬ (Wanted.kind (.symbol .semicolon)).CanFollow [] := by
  constructor
  · have hr : Reaches ⟨.keyword .kwEnd, .none, ⟨1, 1⟩⟩ program [] [] [.endOfProgram] :=
      .silent rfl (.refl _)
    exact (recognize_of_firstTokens hr rfl (by with_unfolding_all rfl)).1
  · exact not_canFollow_semicolon awaitsStatement_nil

end ScriptCheck
