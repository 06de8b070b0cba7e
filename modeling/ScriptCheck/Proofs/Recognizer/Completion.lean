import ScriptCheck.Proofs.Recognizer.Relocate

/-!
# Completions

Whatever goals are left when a token is refused, they can be satisfied by other tokens: a name for
an expression, `break` for a statement, the closing bracket of a group. With the first of these in
place of the refused token the recognizer comes to the same point by the same moves.
-/

namespace ScriptCheck

variable {n n' t : Token} {ts : List Token} {g : Goal} {goals goals' gs : List Goal}
  {es new : List Event} {w : List TokenKind}

/-! ### Fillers -/

/-- Some tokens that satisfy a goal. -/
def Goal.filler : Goal → List TokenKind
  | symbol s => [.symbol s]
  | keyword k => [.keyword k]
  | statement => [.keyword .kwBreak]
  | assignment => [.identifier, .symbol .assign, .identifier]
  | elseBranch => [.keyword .kwEnd]
  | loopVariable | functionName _ => [.identifier]
  | direction => [.keyword .kwTo]
  | firstParameter _ | moreParameters _ => [.symbol .rightParen]
  | parameter _ | refParameter _ => [.identifier, .symbol .rightParen]
  | expression | sum | product | power | signs .. | factor => [.identifier]
  | firstItem g | moreItems _ g => [.symbol g.close]
  | _ => []

theorem generates_factor_identifier (h : Generates goals w) :
    Generates (.factor :: goals) (.identifier :: w) := by
  refine (generates_factor "" .start .start).2 (.inr (.inl ⟨w, rfl, ?_⟩))
  rw [generates_reference "" .start, generates_target 0 "" .start]
  exact .inl (.inl h)

theorem generates_power_identifier (h : Generates goals w) :
    Generates (.power :: goals) (.identifier :: w) := by
  rw [generates_power .start false, generates_signs .start false false]
  exact .inl (.inl (generates_factor_identifier (Tail.power.skip h)))

theorem generates_expression_identifier (h : Generates goals w) :
    Generates (.expression :: goals) (.identifier :: w) := by
  rw [generates_expression, generates_sum, generates_product]
  exact generates_power_identifier
    (Tail.product.skip (Tail.sum.skip (Tail.relation.skip h)))

theorem generates_filler_append (h : Generates goals w) :
    Generates (g :: goals) (g.filler ++ w) := by
  cases g with
  | report | endOfProgram => exact h
  | symbol s => exact generates_symbol.2 ⟨w, rfl, h⟩
  | keyword k => exact generates_keyword.2 ⟨w, rfl, h⟩
  | statements => exact generates_statements.2 (.inl h)
  | moreStatements => exact generates_moreStatements.2 (.inl h)
  | statement =>
    rw [generates_statement "" .start]
    simp [Goal.filler, h]
  | assignment =>
    refine (generates_assignment "" .start).2 ⟨_, rfl, (generates_target 0 "" .start).2 (.inl ?_)⟩
    exact generates_symbol.2 ⟨_, rfl, generates_expression_identifier h⟩
  | target => exact (generates_target 0 "" .start).2 (.inl h)
  | elseBranch => exact generates_elseBranch.2 (.inl (generates_keyword.2 ⟨w, rfl, h⟩))
  | loopVariable => exact generates_loopVariable.2 ⟨w, rfl, h⟩
  | direction => exact generates_direction.2 ⟨_, w, rfl, .inl rfl, h⟩
  | functionName l =>
    exact (generates_functionName ⟨"", l, []⟩).2 ⟨w, rfl, generates_functionHead.2 (.inl h)⟩
  | functionHead => exact generates_functionHead.2 (.inl h)
  | firstParameter =>
    exact generates_firstParameter.2 (.inl (generates_symbol.2 ⟨w, rfl, h⟩))
  | parameter hd =>
    exact (generates_parameter hd).2 (.inl
      ⟨_, rfl, generates_moreParameters.2 (.inl (generates_symbol.2 ⟨w, rfl, h⟩))⟩)
  | refParameter hd =>
    exact (generates_refParameter hd).2
      ⟨_, rfl, generates_moreParameters.2 (.inl (generates_symbol.2 ⟨w, rfl, h⟩))⟩
  | moreParameters =>
    exact generates_moreParameters.2 (.inl (generates_symbol.2 ⟨w, rfl, h⟩))
  | expression => exact generates_expression_identifier h
  | relationTail => exact Tail.relation.skip h
  | sum =>
    rw [generates_sum, generates_product]
    exact generates_power_identifier (Tail.product.skip (Tail.sum.skip h))
  | sumTail => exact Tail.sum.skip h
  | product =>
    rw [generates_product]
    exact generates_power_identifier (Tail.product.skip h)
  | productTail => exact Tail.product.skip h
  | power => exact generates_power_identifier h
  | signs l b =>
    rw [generates_signs .start false false]
    exact .inl (.inl (generates_factor_identifier (Tail.power.skip h)))
  | powerTail => exact Tail.power.skip h
  | factor => exact generates_factor_identifier h
  | reference =>
    rw [generates_reference "" .start, generates_target 0 "" .start]
    exact .inl (.inl h)
  | firstItem g => exact (generates_firstItem 0).2 (.inl (generates_symbol.2 ⟨w, rfl, h⟩))
  | moreItems n g => exact (generates_moreItems 0).2 (.inl (generates_symbol.2 ⟨w, rfl, h⟩))

/-- Every stack of goals can be satisfied. -/
theorem generates_fillers (goals : List Goal) : Generates goals (goals.flatMap Goal.filler) := by
  induction goals with
  | nil => exact generates_nil.2 rfl
  | cons g goals ih => exact generates_filler_append ih

/-- The tokens that fillers consist of can be written into a program. -/
theorem exists_spellable_of_mem_filler {k : TokenKind} (h : k ∈ g.filler) :
    ∃ p, Spellable (k, p) := by
  have hk : k = .identifier ∨ (∃ s, k = .symbol s) ∨ ∃ kw, k = .keyword kw := by
    cases g <;> simp only [Goal.filler, List.mem_cons, List.not_mem_nil, or_false] at h <;> grind
  rcases hk with rfl | ⟨s, rfl⟩ | ⟨kw, rfl⟩
  · exact ⟨_, (Spells.name isName_x).spellable⟩
  · exact ⟨_, (Spells.symbol s).spellable⟩
  · exact ⟨_, (Spells.keyword kw).spellable⟩

theorem exists_spellable_of_mem_fillers :
    ∀ k ∈ goals.flatMap Goal.filler, ∃ p, Spellable (k, p) := by
  intro k hk
  obtain ⟨g, -, hk⟩ := List.mem_flatMap.1 hk
  exact exists_spellable_of_mem_filler hk

/-- What is put in the place of a refused token is no operator. -/
theorem operand?_of_refuse {e : Expectation} (hg : g.step n = .refuse e)
    (hs : WellFormed (g :: goals)) :
    (((g :: goals).flatMap Goal.filler).headD .eof).operand? = none := by
  obtain ⟨hf, -⟩ := hs
  cases g with
  | symbol s => exact hf
  | keyword k => exact hf
  | endOfProgram =>
    obtain rfl : goals = [] := hf
    rfl
  | firstItem g | moreItems n g => cases g <;> rfl
  | statement | assignment | elseBranch | loopVariable | functionName | direction | firstParameter
  | moreParameters | parameter | refParameter | expression | sum | product | power | signs
  | factor => rfl
  | report | statements | moreStatements | target | functionHead | relationTail | sumTail
  | productTail | powerTail | reference =>
    simp only [Goal.step, Goal.stepTarget, Goal.stepReference, Goal.operator] at hg
    (repeat' split at hg) <;> cases hg

/-! ### Another token ahead -/

/-- A tail that gives way in front of a token gives way in front of any that is no operator. -/
theorem Tail.step_eq_of_reduce {o : Goal} {more : List Goal} (ht : Tail g o more)
    (hg : g.step n = .reduce new gs) (ho : n'.kind.operand? = none) :
    g.step n' = .reduce new gs := by
  rw [ht.step_eq] at hg ⊢
  rw [if_neg (by simp [ho])]
  split at hg
  · cases hg
  · exact hg

section

variable (hw : Generates (gs ++ goals) w)

include hw

theorem ite_eq_of_reduce {k : TokenKind} {es' : List Event} {gs' gs'' : List Goal}
    (hn : (if n.kind = k then Move.shift es gs' else .reduce es' gs'') = .reduce new gs)
    (hne : Generates (gs'' ++ goals) w → n'.kind ≠ k) :
    (if n'.kind = k then Move.shift es gs' else .reduce es' gs'') = .reduce new gs := by
  split at hn
  · cases hn
  · obtain ⟨rfl, rfl⟩ : es' = new ∧ gs'' = gs := by simpa using hn
    exact if_neg (hne hw)

variable (hk : w.headD .eof = n'.kind)

include hk

/-- A goal that gives way in front of a token gives way in front of any other that what it gives
way to may begin with. Only powers take note of the place of the token. -/
theorem step_eq_of_reduce (hg : g.step n = .reduce new gs) (hs : WellFormed (g :: goals))
    (hl : n'.kind.startsExpression → n'.location = n.location) (ho : n'.kind.operand? = none)
    (he : g ≠ .endOfProgram) :
    g.step n' = .reduce new gs := by
  obtain ⟨hf, hs⟩ := hs
  cases g with
  | report | expression | sum | product => exact hg
  | power =>
    obtain ⟨-, rfl⟩ : _ ∧ [.signs n.location false] = gs := by simpa [Goal.step] using hg
    rw [← hg, Goal.step, Goal.step, hl (hk ▸ startsExpression_of_signs hw)]
  | endOfProgram => exact absurd rfl he
  | statements =>
    simp only [Goal.step] at hg ⊢
    split at hg
    · obtain ⟨rfl, rfl⟩ : [] = new ∧ [] = gs := by simpa using hg
      rw [if_pos (hk ▸ AfterStatements.endsStatements hf hw)]
    · obtain ⟨rfl, rfl⟩ : [] = new ∧ [.statement, .moreStatements] = gs := by simpa using hg
      have hn := TokenKind.not_endsStatements_of_startsStatement (startsStatement_of_generates hw)
      rw [if_neg (hk ▸ hn)]
  | moreStatements => exact ite_eq_of_reduce hw hg fun hw => hk ▸ AfterStatements.ne_semicolon hf hw
  | elseBranch =>
    refine ite_eq_of_reduce hw hg fun hw => ?_
    rw [← hk, headD_of_generates_keyword hw]
    simp
  | functionHead h =>
    obtain ⟨gs', rfl⟩ := hf
    exact ite_eq_of_reduce hw hg fun hw => hk ▸ AfterStatements.ne_leftParen hs.1 hw
  | firstParameter h => exact ite_eq_of_reduce hw hg fun hw => hk ▸ ne_rightParen_of_parameter hw
  | firstItem g => exact ite_eq_of_reduce hw hg fun hw => hk ▸ ne_close_of_expression g hw
  | target name l =>
    obtain ⟨gs', rfl⟩ := hf
    rw [Goal.step_target] at hg ⊢
    refine ite_eq_of_reduce hw hg fun hw => ?_
    rw [← hk, headD_of_generates_symbol hw]
    simp
  | reference name l =>
    rw [Goal.step_reference] at hg ⊢
    split at hg
    · cases hg
    · rw [Goal.step_target] at hg
      have hgs : [] = gs := by
        split at hg <;> simp_all
      subst hgs
      have ho := AfterExpression.not_opens hf hw
      rw [if_neg (hk ▸ ho.2), Goal.step_target]
      exact ite_eq_of_reduce hw hg fun _ => hk ▸ ho.1
  | signs l b =>
    rw [Goal.step_signs] at hg ⊢
    split at hg
    · cases hg
    · split at hg
      · cases hg
      · obtain ⟨rfl, rfl⟩ := by simpa using hg
        have hn := ne_sign_of_factor hw
        rw [if_neg (hk ▸ hn.1), if_neg (hk ▸ hn.2)]
        rfl
  | relationTail => exact Tail.relation.step_eq_of_reduce hg ho
  | sumTail => exact Tail.sum.step_eq_of_reduce hg ho
  | productTail => exact Tail.product.step_eq_of_reduce hg ho
  | powerTail => exact Tail.power.step_eq_of_reduce hg ho
  | symbol | keyword | assignment | loopVariable | functionName | refParameter =>
    simp only [Goal.step, Goal.demand] at hg
    split at hg <;> cases hg
  | direction =>
    simp only [Goal.step] at hg
    split at hg <;> cases hg
  | statement | factor =>
    simp only [Goal.step, Goal.stepStatement, Goal.stepFactor, Goal.enter] at hg
    split at hg <;> cases hg
  | parameter | moreParameters | moreItems =>
    simp only [Goal.step_parameter, Goal.step_moreParameters, Goal.step_moreItems,
      Goal.demand] at hg
    (repeat' split at hg) <;> cases hg

end

/-- A parenthesis behind the name of a call is used up, so it is not refused. -/
theorem not_leftParen_of_refuse {e : Expectation} (ht : t.kind = .identifier)
    (h : Reaches n (Goal.framed .call t .factor ++ goals) [t] es (g :: goals'))
    (hg : g.step n = .refuse e) : n.kind ≠ .symbol .leftParen := by
  intro hn
  have href : (Goal.reference t.text t.location).step n =
      .shift [] [.firstItem (.call t.text t.location)] := by
    rw [Goal.step_reference, if_pos hn]
  have hfactor := Goal.step_factor_of_identifier ht
  cases h with
  | reduce hr h =>
    obtain ⟨-, rfl⟩ : _ ∧ [] = _ := by simpa [Goal.step] using hr
    cases h with
    | reduce hr _ => simp [hfactor] at hr
    | shift hr h =>
      obtain ⟨-, rfl⟩ := by simpa [hfactor] using hr
      cases h with
      | refl => simp [href] at hg
      | reduce hr _ => simp [href] at hr
    | look hr _ => simp [hfactor] at hr
  | shift hr _ => simp [Goal.step] at hr
  | look hr _ => simp [Goal.step] at hr

/-- No parenthesis stands behind a name that is assigned to. -/
theorem not_leftParen_of_assignment (h : Generates (Goal.framed .assignment t .assignment ++ goals)
    (t.kind :: w)) : w.headD .eof ≠ .symbol .leftParen := by
  obtain ⟨v, hv, h⟩ := (generates_assignment "" .start).1 (generates_report.1 h)
  obtain ⟨-, rfl⟩ := List.cons.inj hv
  refine not_leftParen_of_target (fun h => ?_) h
  rw [headD_of_generates_symbol h]
  simp

/-- A path is one in front of any other token too with which the goals that it leads to may begin,
unless it is an operator. Only a parenthesis could have made for a call that is none any more. -/
theorem Reaches.change_ahead (h : Reaches n goals ts es (g :: goals'))
    (hg : n.kind = .symbol .leftParen → ∃ e, g.step n = .refuse e) (hs : WellFormed goals)
    (hl : n'.kind.startsExpression → n'.location = n.location)
    (hw : Generates (g :: goals') w) (hk : w.headD .eof = n'.kind)
    (ho : n'.kind.operand? = none) : Reaches n' goals ts es (g :: goals') := by
  generalize hx : g :: goals' = stack at h
  induction h with
  | refl => exact .refl _
  | @reduce g₀ goals gs _ ts new es hm h ih =>
    have hf := fits_step (t := ts.headD n) hs
    rw [hm] at hf
    have ih := ih hf hx
    refine .reduce ?_ ih
    cases ts with
    | cons t ts => exact hm
    | nil =>
      have hwg : Generates (gs ++ goals) ([] ++ w) := ih.generates hf hk (hx ▸ hw)
      refine step_eq_of_reduce hwg hk hm hs hl ho ?_
      rintro rfl
      obtain rfl : goals = [] := hs.1
      simp only [Goal.step] at hm
      split at hm
      · obtain ⟨-, rfl⟩ := by simpa using hm
        have := h.of_nil.2.2
        simp [← hx] at this
      · cases hm
  | @shift g₀ goals gs _ t ts new es hm h ih =>
    have hf := fits_step (t := t) hs
    rw [hm] at hf
    exact .shift hm (ih hf hx)
  | @look g₀ goals yes no _ t ts k es hm h ih =>
    have hf := fits_step (t := t) hs
    rw [hm] at hf
    have ih := ih (by split; exacts [hf.1, hf.2]) hx
    refine .look hm ?_
    cases ts with
    | cons t ts => exact ih
    | nil =>
      obtain ⟨rfl, ht, rfl, rfl, rfl⟩ := Goal.eq_of_look hm
      have hn : (([] : List Token).headD n).kind ≠ .symbol .leftParen := by
        intro hn
        rw [if_pos hn, ← hx] at h
        obtain ⟨e, hg⟩ := hg hn
        exact not_leftParen_of_refuse ht h hg hn
      rw [if_neg hn] at ih
      have hn' : (([] : List Token).headD n').kind ≠ .symbol .leftParen := by
        have hwg := ih.generates hf.2 hk (hx ▸ hw)
        exact hk ▸ not_leftParen_of_assignment hwg
      rwa [if_neg hn']

/-! ### Programs -/

theorem exists_tokens (ks : List TokenKind) (l : Location) (h : ∀ k ∈ ks, ∃ p, Spellable (k, p)) :
    ∃ us : List Token, us.map Token.kind = ks ∧
      ∀ t ∈ us, t.location = l ∧ Spellable t.content := by
  induction ks with
  | nil => exact ⟨[], rfl, by simp⟩
  | cons k ks ih =>
    obtain ⟨us, hk, hu⟩ := ih fun k' hk => h k' (List.mem_cons_of_mem k hk)
    obtain ⟨p, hp⟩ := h k (List.mem_cons_self ..)
    refine ⟨⟨k, p, l⟩ :: us, by rw [List.map_cons, hk], fun t ht => ?_⟩
    rcases List.mem_cons.1 ht with rfl | ht
    · exact ⟨rfl, hp⟩
    · exact hu t ht

/-- Where a program is refused it could have gone on with any tokens that satisfy its goals and do
not begin with an operator. -/
theorem exists_completion {e : Expectation} (h : Reaches n program ts es (g :: goals'))
    (hg : g.step n = .refuse e) (hw : Generates (g :: goals') w)
    (hp : ∀ k ∈ w, ∃ p, Spellable (k, p)) (ho : (w.headD .eof).operand? = none) :
    ∃ us es', Reaches (.eof n.location) program (ts ++ us) (es ++ es') [] ∧
      us.map Token.kind = w ∧ ∀ t ∈ us, Spellable t.content := by
  obtain ⟨us, rfl, hu⟩ := exists_tokens w n.location hp
  obtain ⟨es', hr⟩ := exists_reaches_of_generates (n := .eof n.location) rfl
    (h.wellFormed wellFormed_program) hw
  have hl : (us.headD (.eof n.location)).location = n.location := by
    cases us with
    | nil => rfl
    | cons t us => exact (hu t (List.mem_cons_self ..)).1
  have hd : (us.map Token.kind).headD .eof = (us.headD (.eof n.location)).kind := by
    cases us <;> rfl
  have hc := h.change_ahead (fun _ => ⟨e, hg⟩) wellFormed_program (fun _ => hl) hw hd (hd ▸ ho)
  exact ⟨us, es', hc.trans hr rfl, rfl, fun t ht => (hu t ht).2⟩

/-- A path to the end makes for an accepted text. -/
theorem exists_accepted_of_reaches {l : Location} (h : Reaches (.eof l) program ts es [])
    (ht : ∀ t ∈ ts, Spellable t.content) :
    ∃ accepted us l', check accepted = .ok () ∧ tokenize accepted = .ok (us ++ [Token.eof l']) ∧
      us.map Token.content = ts.map Token.content ∧
      (recognize accepted).events.map Event.unplaced = es.map Event.unplaced := by
  have hspell : ∀ content ∈ ts.map Token.content, Spellable content := by
    intro content hm
    obtain ⟨t, htu, rfl⟩ := List.mem_map.1 hm
    exact ht t htu
  obtain ⟨accepted, us, l', htok, hus⟩ := exists_tokenize_of_spellable hspell
  obtain ⟨hck, he⟩ := check_of_reaches h htok rfl hus
  exact ⟨accepted, us, l', hck, htok, hus, he⟩

end ScriptCheck
