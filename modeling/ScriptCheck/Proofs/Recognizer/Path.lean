import ScriptCheck.Grammar.Recognizer
import Mathlib.Data.List.Basic

/-!
# Runs as paths

A run over a feed is a path of moves. `Feeds s ts s'` follows the feed alone, from one current
token to the next. `Reaches n goals ts es goals'` follows the goals alone: they use up the tokens
`ts`, behind which `n` stands, and report `es` on the way.

Every run follows such a path until it cannot move any more, and every path is followed by the run.
What a program is accepted for, where it is refused and what is reported can so be read off paths,
which know nothing of scanners, queues and lexical errors.
-/

namespace ScriptCheck

open TokenFeed

variable {σ : Type} [TokenFeed σ] {s s' s'' : σ}
  {n t : Token} {ts us : List Token} {g : Goal} {goals goals' goals'' gs gs' yes no : List Goal}
  {es es' new events : List Event}

/-! ### Paths of a feed -/

/-- From `s` on the tokens `ts` are current one after the other, and behind them the feed is
`s'`. -/
inductive Feeds : σ → List Token → σ → Prop
  | refl (s : σ) : Feeds s [] s
  | next {s s' s'' : σ} {ts : List Token} (hn : next s = (.ok (), s')) (h : Feeds s' ts s'') :
      Feeds s (current s :: ts) s''

namespace Feeds

theorem headD (h : Feeds s ts s') : ts.headD (current s') = current s := by
  cases h <;> rfl

theorem trans (h : Feeds s ts s') (h' : Feeds s' us s'') : Feeds s (ts ++ us) s'' := by
  induction h with
  | refl => exact h'
  | next hn _ ih => exact .next hn (ih h')

theorem of_append (h : Feeds s (ts ++ us) s'') : ∃ s', Feeds s ts s' ∧ Feeds s' us s'' := by
  induction ts generalizing s with
  | nil => exact ⟨s, .refl s, h⟩
  | cons t ts ih =>
    cases h with
    | next hn h =>
      obtain ⟨s', h₁, h₂⟩ := ih h
      exact ⟨s', .next hn h₁, h₂⟩

/-- A feed goes one way only: a shorter path is the first part of a longer one. -/
theorem split (h : Feeds s ts s') (h' : Feeds s us s'') (hl : ts.length ≤ us.length) :
    ∃ vs, us = ts ++ vs ∧ Feeds s' vs s'' := by
  induction h generalizing us with
  | refl => exact ⟨us, rfl, h'⟩
  | next hn _ ih =>
    cases h' with
    | refl => simp at hl
    | next hn' h' =>
      obtain rfl : _ = _ := by simpa using hn.symm.trans hn'
      obtain ⟨vs, rfl, hv⟩ := ih h' (by simpa using hl)
      exact ⟨vs, rfl, hv⟩

/-- A look ahead is no step on the path. -/
theorem of_peek {s₁ : σ} (hp : peek s = (.ok t, s₁)) (h : Feeds s₁ ts s') (hne : ts ≠ []) :
    Feeds s ts s' := by
  obtain ⟨hc, hn, -⟩ := next_of_peek hp
  cases h with
  | refl => exact absurd rfl hne
  | next hn' h' =>
    rw [hc]
    exact .next (hn ▸ hn') h'

theorem to_peek {s₁ : σ} (hp : peek s = (.ok t, s₁)) (h : Feeds s ts s') (hne : ts ≠ []) :
    Feeds s₁ ts s' := by
  obtain ⟨hc, hn, -⟩ := next_of_peek hp
  cases h with
  | refl => exact absurd rfl hne
  | next hn' h' =>
    rw [← hc]
    exact .next (hn.trans hn') h'

/-- A look ahead shows the next token of the path. -/
theorem peek_eq (h : Feeds s (t :: ts) s') : ∃ s₁, peek s = (.ok (ts.headD (current s')), s₁) := by
  cases h with
  | next hn h =>
    match hp : peek s with
    | (.ok u, s₁) =>
      obtain ⟨-, -, s₂, hn', rfl⟩ := next_of_peek hp
      obtain rfl : _ = _ := by simpa using hn.symm.trans hn'
      exact ⟨s₁, by rw [h.headD]⟩
    | (.error e, s₁) =>
      have := next_of_peek_error hp
      simp [hn] at this

end Feeds

/-! ### Paths of goals -/

/-- The goals use up the tokens `ts` in front of `n`, report `es` and give way to `goals'`. -/
inductive Reaches (n : Token) : List Goal → List Token → List Event → List Goal → Prop
  | refl (goals : List Goal) : Reaches n goals [] [] goals
  | reduce {g : Goal} {goals gs goals' : List Goal} {ts : List Token} {new es : List Event}
      (hg : g.step (ts.headD n) = .reduce new gs) (h : Reaches n (gs ++ goals) ts es goals') :
      Reaches n (g :: goals) ts (new ++ es) goals'
  | shift {g : Goal} {goals gs goals' : List Goal} {t : Token} {ts : List Token}
      {new es : List Event} (hg : g.step t = .shift new gs)
      (h : Reaches n (gs ++ goals) ts es goals') :
      Reaches n (g :: goals) (t :: ts) (new ++ es) goals'
  | look {g : Goal} {goals yes no goals' : List Goal} {t : Token} {ts : List Token} {k : TokenKind}
      {es : List Event} (hg : g.step t = .look k yes no)
      (h : Reaches n ((if (ts.headD n).kind = k then yes else no) ++ goals) (t :: ts) es goals') :
      Reaches n (g :: goals) (t :: ts) es goals'

namespace Reaches

/-- A path goes on in front of the tokens that it was followed up to. -/
theorem trans {m : Token} (h : Reaches m goals ts es goals')
    (h' : Reaches n goals' us es' goals'') (hm : us.headD n = m) :
    Reaches n goals (ts ++ us) (es ++ es') goals'' := by
  have hd (vs : List Token) : (vs ++ us).headD n = vs.headD m := by
    cases vs with
    | nil => exact hm
    | cons => rfl
  induction h with
  | refl => exact h'
  | reduce hg _ ih =>
    rw [List.append_assoc]
    exact .reduce (by rwa [hd]) (ih h')
  | shift hg _ ih =>
    rw [List.append_assoc]
    exact .shift hg (ih h')
  | look hg _ ih => exact .look hg ((hd _).symm ▸ ih h')

/-- A path goes on without using up more tokens. -/
theorem followed (h : Reaches n goals ts es goals') (h' : Reaches n goals' [] es' goals'') :
    Reaches n goals ts (es ++ es') goals'' := by
  have hall := h.trans h' rfl
  rwa [List.append_nil] at hall

/-- A goal gives way without a report. -/
theorem silent (hg : g.step (ts.headD n) = .reduce [] gs)
    (h : Reaches n (gs ++ goals) ts es goals') : Reaches n (g :: goals) ts es goals' :=
  .reduce hg h

theorem reported {event : Event} (hg : g.step (ts.headD n) = .reduce [event] gs)
    (h : Reaches n (gs ++ goals) ts es goals') : Reaches n (g :: goals) ts (event :: es) goals' :=
  .reduce hg h

/-- A goal uses up a token without a report. -/
theorem taken (hg : g.step t = .shift [] gs) (h : Reaches n (gs ++ goals) ts es goals') :
    Reaches n (g :: goals) (t :: ts) es goals' :=
  .shift hg h

theorem announced {event : Event} (hg : g.step t = .shift [event] gs)
    (h : Reaches n (gs ++ goals) ts es goals') :
    Reaches n (g :: goals) (t :: ts) (event :: es) goals' :=
  .shift hg h

theorem report (event : Event) : Reaches n (.report event :: goals) [] [event] goals := by
  have hstep : (Goal.report event).step (([] : List Token).headD n) = .reduce [event] [] := rfl
  exact .reported hstep (.refl goals)

theorem kind_ne_eof (h : Reaches n goals ts es goals') : ∀ t ∈ ts, t.kind ≠ .eof := by
  induction h with
  | refl => simp
  | reduce _ _ ih => exact ih
  | shift hg _ ih =>
    intro t ht
    rcases List.mem_cons.1 ht with rfl | ht
    · exact Goal.kind_ne_eof_of_shift hg
    · exact ih t ht
  | look _ _ ih => exact ih

theorem of_nil (h : Reaches n [] ts es goals') : ts = [] ∧ es = [] ∧ goals' = [] := by
  cases h
  exact ⟨rfl, rfl, rfl⟩

/-- Goals that ask for the end of a program in the end are all met in front of it only. -/
theorem kind_eq_eof (h : Reaches n goals ts es []) (hg : goals.getLast? = some .endOfProgram) :
    n.kind = .eof := by
  generalize hf : ([] : List Goal) = goals' at h
  induction h with
  | refl => simp [← hf] at hg
  | @reduce g goals gs goals' ts new es hs h ih =>
    cases goals with
    | nil =>
      obtain rfl : g = .endOfProgram := by simpa using hg
      simp only [Goal.step] at hs
      split at hs
      · rename_i hk
        obtain ⟨-, rfl⟩ : _ ∧ [] = _ := by simpa using hs
        obtain ⟨rfl, -, -⟩ := of_nil h
        exact hk
      · simp at hs
    | cons g' goals => exact ih (by simpa using hg) hf
  | @shift g goals gs goals' t ts new es hs h ih =>
    cases goals with
    | nil =>
      obtain rfl : g = .endOfProgram := by simpa using hg
      simp only [Goal.step] at hs
      split at hs <;> simp at hs
    | cons g' goals => exact ih (by simpa using hg) hf
  | @look g goals yes no goals' t ts k es hs h ih =>
    cases goals with
    | nil => simp [(Goal.eq_of_look hs).1] at hg
    | cons g' goals => exact ih (by simpa using hg) hf

end Reaches

/-! ### Taking paths apart -/

theorem Goal.step_factor_of_identifier (h : t.kind = .identifier) :
    factor.step t = .shift [] [reference t.text t.location] := by
  simp [step, stepFactor, h]

theorem Goal.step_assignment_of_identifier (h : t.kind = .identifier) :
    assignment.step t =
      .shift [] [target t.text t.location, symbol .assign, expression] := by
  simp [step, demand, h]

namespace Reaches

/-- A path is one as well where other goals lie below. -/
theorem frame (h : Reaches n gs ts es gs') (goals : List Goal) :
    Reaches n (gs ++ goals) ts es (gs' ++ goals) := by
  induction h with
  | refl => exact .refl _
  | reduce hg _ ih => exact .reduce hg (List.append_assoc .. ▸ ih)
  | shift hg _ ih => exact .shift hg (List.append_assoc .. ▸ ih)
  | look hg _ ih => exact .look hg (List.append_assoc .. ▸ ih)

theorem of_reduce (h : Reaches n (g :: goals) ts es [])
    (hg : g.step (ts.headD n) = .reduce new gs) :
    ∃ es', es = new ++ es' ∧ Reaches n (gs ++ goals) ts es' [] := by
  cases h with
  | reduce hg' h =>
    obtain ⟨rfl, rfl⟩ := Move.reduce.inj (hg'.symm.trans hg)
    exact ⟨_, rfl, h⟩
  | shift hg' => cases hg'.symm.trans hg
  | look hg' => cases hg'.symm.trans hg

theorem of_shift (h : Reaches n (g :: goals) ts es [])
    (hg : g.step (ts.headD n) = .shift new gs) :
    ∃ us es', ts = ts.headD n :: us ∧ es = new ++ es' ∧ Reaches n (gs ++ goals) us es' [] := by
  cases h with
  | reduce hg' => cases hg'.symm.trans hg
  | shift hg' h =>
    obtain ⟨rfl, rfl⟩ := Move.shift.inj (hg'.symm.trans hg)
    exact ⟨_, _, rfl, rfl, h⟩
  | look hg' => cases hg'.symm.trans hg

/-- Goals that are looked at ahead are not done before they have used up a token. -/
theorem ne_nil_of_framed {k : StatementKind} {part : Goal} (hg : part.step n = .shift new gs)
    (h : Reaches n (Goal.framed k n part ++ goals) ts es []) : ts ≠ [] := by
  rintro rfl
  cases h with
  | reduce hr h =>
    obtain ⟨-, rfl⟩ : _ ∧ [] = _ := by simpa [Goal.step] using hr
    cases h with
    | reduce hr => simp [hg] at hr

/-- A path to the end uses up the upper goals first. -/
theorem split (h : Reaches n (gs ++ goals) ts es []) :
    ∃ us vs es₁ es₂, ts = us ++ vs ∧ es = es₁ ++ es₂ ∧ Reaches (vs.headD n) gs us es₁ [] ∧
      Reaches n goals vs es₂ [] := by
  generalize hx : gs ++ goals = stack at h
  generalize hf : ([] : List Goal) = final at h
  have hd (us vs : List Token) : us.headD (vs.headD n) = (us ++ vs).headD n := by
    cases us <;> rfl
  induction h generalizing gs with
  | refl stack =>
    subst hf
    obtain ⟨rfl, rfl⟩ := List.append_eq_nil_iff.1 hx
    exact ⟨[], [], [], [], rfl, rfl, .refl [], .refl []⟩
  | @reduce g stack new final ts ev es hg h ih =>
    subst hf
    cases gs with
    | nil =>
      subst hx
      exact ⟨[], ts, [], ev ++ es, rfl, rfl, .refl [], .reduce hg h⟩
    | cons g' gs =>
      obtain ⟨rfl, rfl⟩ := List.cons.inj hx
      obtain ⟨us, vs, es₁, es₂, rfl, rfl, h₁, h₂⟩ := ih (List.append_assoc ..) rfl
      exact ⟨us, vs, ev ++ es₁, es₂, rfl, (List.append_assoc ..).symm,
        .reduce (by rwa [hd]) h₁, h₂⟩
  | @shift g stack new final t ts ev es hg h ih =>
    subst hf
    cases gs with
    | nil =>
      subst hx
      exact ⟨[], t :: ts, [], ev ++ es, rfl, rfl, .refl [], .shift hg h⟩
    | cons g' gs =>
      obtain ⟨rfl, rfl⟩ := List.cons.inj hx
      obtain ⟨us, vs, es₁, es₂, rfl, rfl, h₁, h₂⟩ := ih (List.append_assoc ..) rfl
      exact ⟨t :: us, vs, ev ++ es₁, es₂, rfl, (List.append_assoc ..).symm, .shift hg h₁, h₂⟩
  | @look g stack yes no final t ts k es hg h ih =>
    subst hf
    cases gs with
    | nil =>
      subst hx
      exact ⟨[], t :: ts, [], es, rfl, rfl, .refl [], .look hg h⟩
    | cons g' gs =>
      obtain ⟨rfl, rfl⟩ := List.cons.inj hx
      obtain ⟨us, vs, es₁, es₂, hts, rfl, h₁, h₂⟩ := ih (List.append_assoc ..) rfl
      cases us with
      | nil =>
        -- the statement whose first token was looked at has not even begun
        obtain rfl : t :: ts = vs := hts
        obtain ⟨-, hk, -, rfl, rfl⟩ := Goal.eq_of_look hg
        split at h₁
        · exact absurd rfl (ne_nil_of_framed (Goal.step_factor_of_identifier hk) h₁)
        · exact absurd rfl (ne_nil_of_framed (Goal.step_assignment_of_identifier hk) h₁)
      | cons u us =>
        obtain ⟨rfl, rfl⟩ := List.cons.inj hts
        exact ⟨t :: us, vs, es₁, es₂, rfl, rfl, .look hg (by rwa [hd]), h₂⟩

end Reaches

/-! ### Runs follow paths -/

/-- A run follows any path of its goals over tokens that it is fed. -/
theorem run_of_reaches (h : Reaches n goals ts es goals') (hf : Feeds s ts s')
    (hn : current s' = n) : run s events goals = run s' (es.reverse ++ events) goals' := by
  induction h generalizing s events with
  | refl => cases hf; rfl
  | reduce hg _ ih =>
    rw [← hn, hf.headD] at hg
    rw [run_of_reduce hg, ih hf]
    simp
  | shift hg _ ih =>
    cases hf with
    | next hs hf =>
      rw [run_of_shift hg hs, ih hf]
      simp
  | look hg _ ih =>
    obtain ⟨s₁, hp⟩ := hf.peek_eq
    have hf₁ := hf.to_peek hp (by simp)
    cases hf with
    | next hs hf => rw [run_of_look hg hp, hn, ih hf₁]

/-- The goals have nothing left to do, or cannot move in front of the current token. -/
inductive Final (s : σ) : List Goal → Prop
  | done : Final s []
  | refused {g : Goal} {goals : List Goal} {e : Expectation} (hg : g.step (current s) = .refuse e) :
      Final s (g :: goals)
  /-- The token is used up and there is none behind it. -/
  | cut {g : Goal} {goals gs : List Goal} {new : List Event} {s' : σ} {e : LexError}
      (hg : g.step (current s) = .shift new gs) (hn : next s = (.error e, s')) :
      Final s (g :: goals)
  /-- There is no token behind the one that has to be looked at. -/
  | blind {g : Goal} {goals yes no : List Goal} {k : TokenKind} {s' : σ} {e : LexError}
      (hg : g.step (current s) = .look k yes no) (hp : peek s = (.error e, s')) :
      Final s (g :: goals)

/-- A statement whose first token is still there, and which has a token behind it, can move. -/
theorem not_final_of_framed {k : StatementKind} {part : Goal} (hg : part.step t = .shift new gs)
    (hc : current s = t) (hn : next s = (.ok (), s'))
    (h : Reaches (current s) (Goal.framed k t part ++ goals) [] es goals') : ¬ Final s goals' := by
  subst hc
  intro hf
  cases h with
  | refl => cases hf <;> simp [Goal.step] at *
  | reduce hg' h =>
    obtain ⟨-, rfl⟩ : _ ∧ [] = _ := by simpa [Goal.step] using hg'
    cases h with
    | refl => cases hf <;> simp_all
    | reduce hg' => simp [hg] at hg'

/-- Each run follows a path until it cannot move any more. -/
theorem exists_reaches (s : σ) (events : List Event) (goals : List Goal) :
    ∃ ts es s' goals', Feeds s ts s' ∧ Reaches (current s') goals ts es goals' ∧
      Final s' goals' ∧ run s events goals = run s' (es.reverse ++ events) goals' := by
  suffices h : ∃ ts es s' goals', Feeds s ts s' ∧ Reaches (current s') goals ts es goals' ∧
      Final s' goals' by
    obtain ⟨ts, es, s', goals', hf, hr, hs⟩ := h
    exact ⟨ts, es, s', goals', hf, hr, hs, run_of_reaches hr hf rfl⟩
  induction s, events, goals using run.induct with
  | case1 s events => exact ⟨[], [], s, [], .refl s, .refl [], .done⟩
  | case2 s events g goals new gs hg ih =>
    obtain ⟨ts, es, s', goals', hf, hr, hs⟩ := ih
    exact ⟨ts, new ++ es, s', goals', hf, .reduce (by rwa [hf.headD]) hr, hs⟩
  | case3 s events g goals new gs hg s₁ hn ih =>
    obtain ⟨ts, es, s', goals', hf, hr, hs⟩ := ih
    exact ⟨_, new ++ es, s', goals', .next hn hf, .shift hg hr, hs⟩
  | case4 s events g goals new gs hg e s₁ hn =>
    exact ⟨[], [], s, g :: goals, .refl s, .refl _, .cut hg hn⟩
  | case5 s events g goals k yes no hg t s₁ hp ih =>
    obtain ⟨ts, es, s', goals', hf, hr, hs⟩ := ih
    obtain ⟨hc, hn, s₂, hn₂, rfl⟩ := next_of_peek hp
    cases hf with
    | refl =>
      -- the statement has not begun yet, so the path does not end here
      obtain ⟨-, hk, -, rfl, rfl⟩ := Goal.eq_of_look hg
      rw [hn₂] at hn
      split at hr
      · exact absurd hs (not_final_of_framed (Goal.step_factor_of_identifier hk) hc hn hr)
      · exact absurd hs (not_final_of_framed (Goal.step_assignment_of_identifier hk) hc hn hr)
    | next hn' hf' =>
      have hf := (Feeds.next hn' hf').of_peek hp (by simp)
      obtain rfl : s₂ = _ := by simpa [hn, hn₂] using hn'
      rw [hc] at hf hr
      exact ⟨_, es, s', goals', hf, .look hg (by rwa [hf'.headD]), hs⟩
  | case6 s events g goals k yes no hg e s₁ hp =>
    exact ⟨[], [], s, g :: goals, .refl s, .refl _, .blind hg hp⟩
  | case7 s events g goals e hg =>
    exact ⟨[], [], s, g :: goals, .refl s, .refl _, .refused hg⟩

end ScriptCheck
