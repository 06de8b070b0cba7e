import ScriptCheck.Proofs.Grammar.Separator

/-!
# Lists of statements that go on

The last token of a program tells how it may go on. Where there is none, or a semicolon, the list of
statements waits for a statement, whatever comes. Otherwise its last statement is complete, and a
semicolon may follow. In front of the token that closes a block a program is read as it is in front
of the end of its text.
-/

namespace ScriptCheck

variable {m n t : Token} {g : Goal} {goals gs gs' : List Goal} {ts us vs : List Token}
  {es es₁ es₂ : List Event} {w : List TokenKind}

/-- A list of statements that ends with these tokens is empty or ends with a semicolon. -/
def AwaitsStatement (ts : List Token) : Prop :=
  ∀ t ∈ ts.getLast?, t.kind = .symbol .semicolon

theorem awaitsStatement_nil : AwaitsStatement [] := by
  simp [AwaitsStatement]

theorem AwaitsStatement.append_cons (ht : t.kind = .symbol .semicolon) (h : AwaitsStatement vs) :
    AwaitsStatement (us ++ t :: vs) := by
  cases vs with
  | nil => simpa [AwaitsStatement] using ht
  | cons v vs => simpa [AwaitsStatement] using h

/-- Where a statement is awaited no semicolon may follow. -/
theorem AwaitsStatement.not_generates (h : AwaitsStatement ts) :
    ¬ Generates program (ts.map Token.kind ++ .symbol .semicolon :: w) := by
  intro hg
  obtain ⟨ha, hh⟩ := apart_of_generates hg
  rcases List.eq_nil_or_concat ts with rfl | ⟨us, t, rfl⟩
  · exact hh rfl
  · have ht : t.kind = .symbol .semicolon := by simpa [AwaitsStatement] using h
    rw [List.concat_eq_append, List.map_append, List.append_assoc] at ha
    exact (List.isChain_cons_cons.1 ha.of_append.2).1 ⟨ht, rfl⟩

namespace Reaches

/-! ### Statement by statement -/

theorem of_program (h : Reaches n program ts es []) : Reaches n [.statements] ts es [] := by
  change Reaches n ([Goal.statements] ++ [Goal.endOfProgram]) ts es [] at h
  obtain ⟨us, vs, es₁, es₂, rfl, rfl, h₁, h₂⟩ := h.split
  cases h₂ with
  | reduce hg h₂ =>
    simp only [Goal.step] at hg
    split at hg
    · obtain ⟨rfl, rfl⟩ : [] = _ ∧ [] = _ := by simpa using hg
      obtain ⟨rfl, rfl, -⟩ := h₂.of_nil
      simpa using h₁
    · cases hg
  | shift hg =>
    simp only [Goal.step] at hg
    split at hg <;> cases hg
  | look hg => cases (Goal.eq_of_look hg).1

/-- A list of statements begins with one, unless it is empty. -/
theorem statements_cases (h : Reaches n [.statements] ts es []) :
    ts = [] ∧ es = [] ∨ ∃ us vs es₁ es₂, ts = us ++ vs ∧ es = es₁ ++ es₂ ∧
      ¬ (ts.headD n).kind.endsStatements ∧ Reaches (vs.headD n) [.statement] us es₁ [] ∧
      Reaches n [.moreStatements] vs es₂ [] := by
  cases h with
  | @reduce _ _ gs _ ts new es hg h =>
    simp only [Goal.step] at hg
    split at hg
    · obtain ⟨rfl, rfl⟩ : [] = new ∧ [] = gs := by simpa using hg
      obtain ⟨rfl, rfl, -⟩ := h.of_nil
      exact .inl ⟨rfl, rfl⟩
    · rename_i hk
      obtain ⟨rfl, rfl⟩ : [] = new ∧ [.statement, .moreStatements] = gs := by simpa using hg
      change Reaches n ([Goal.statement] ++ [Goal.moreStatements]) ts es [] at h
      obtain ⟨us, vs, es₁, es₂, rfl, rfl, h₁, h₂⟩ := h.split
      exact .inr ⟨us, vs, es₁, es₂, rfl, rfl, hk, h₁, h₂⟩
  | shift hg =>
    simp only [Goal.step] at hg
    split at hg <;> cases hg
  | look hg => cases (Goal.eq_of_look hg).1

theorem moreStatements_cases (h : Reaches n [.moreStatements] ts es []) :
    ts = [] ∧ es = [] ∨ ∃ t vs, ts = t :: vs ∧ t.kind = .symbol .semicolon ∧
      Reaches n [.statements] vs es [] := by
  cases h with
  | @reduce _ _ gs _ ts new es hg h =>
    simp only [Goal.step] at hg
    split at hg
    · cases hg
    · obtain ⟨rfl, rfl⟩ : [] = new ∧ [] = gs := by simpa using hg
      obtain ⟨rfl, rfl, -⟩ := h.of_nil
      exact .inl ⟨rfl, rfl⟩
  | @shift _ _ gs _ t ts new es hg h =>
    simp only [Goal.step] at hg
    split at hg
    · rename_i ht
      obtain ⟨rfl, rfl⟩ : [] = new ∧ [.statements] = gs := by simpa using hg
      exact .inr ⟨t, ts, rfl, ht, h⟩
    · cases hg
  | look hg => cases (Goal.eq_of_look hg).1

/-- A statement in front of a list of statements. -/
theorem cons_statement (hk : ¬ ((us ++ vs).headD n).kind.endsStatements)
    (h : Reaches (vs.headD n) [.statement] us es₁ []) (h' : Reaches n [.moreStatements] vs es₂ gs) :
    Reaches n [.statements] (us ++ vs) (es₁ ++ es₂) gs := by
  have hstep : Goal.statements.step ((us ++ vs).headD n) =
      .reduce [] [.statement, .moreStatements] := by
    rw [Goal.step, if_neg hk]
  exact .silent hstep ((h.frame [.moreStatements]).trans h' rfl)

theorem statements_of_semicolon (ht : t.kind = .symbol .semicolon)
    (h : Reaches n [.statements] ts es gs) : Reaches n [.moreStatements] (t :: ts) es gs := by
  have hstep : Goal.moreStatements.step t = .shift [] [.statements] := by
    rw [Goal.step, if_pos ht]
  exact .shift hstep h

/-! ### Where a list ends -/

/-- A list of statements goes on in one of two ways. -/
theorem awaits_or_complete (h : Reaches n [.statements] ts es []) :
    (AwaitsStatement ts ∧ ∀ m, Reaches m [.statements] ts es [.statements]) ∨
      Reaches n [.statements] ts es [.moreStatements] := by
  induction hl : ts.length using Nat.strongRecOn generalizing ts es with | ind k ih
  rcases h.statements_cases with ⟨rfl, rfl⟩ | ⟨us, vs, es₁, es₂, rfl, rfl, hk, h₁, h₂⟩
  · exact .inl ⟨awaitsStatement_nil, fun m => .refl _⟩
  -- what stands behind the first semicolon is a list that goes on in one of the two ways
  rcases h₂.moreStatements_cases with ⟨rfl, rfl⟩ | ⟨t, vs, rfl, ht, h₂⟩
  · exact .inr (cons_statement hk h₁ (.refl _))
  have hlt : vs.length < k := by
    simp [← hl]
    omega
  rcases ih _ hlt h₂ rfl with ⟨ha, hm⟩ | hc
  · refine .inl ⟨ha.append_cons ht, fun m => ?_⟩
    have hk : ¬ ((us ++ t :: vs).headD m).kind.endsStatements := by
      cases us <;> exact hk
    exact cons_statement hk h₁ (statements_of_semicolon ht (hm m))
  · exact .inr (cons_statement hk h₁ (statements_of_semicolon ht hc))

/-- What is read in front of the end of a text is read in the same way in front of any token that
ends an expression and that the goals below may begin with. -/
theorem within (h : Reaches n gs ts es gs') (hn : n.kind = .eof) (hs : WellFormed (gs ++ goals))
    (hne : gs' ++ goals ≠ []) (hw : Generates (gs' ++ goals) w) (hk : w.headD .eof = m.kind)
    (hm : m.kind.endsExpression) : Reaches m (gs ++ goals) ts es (gs' ++ goals) := by
  have h := h.frame goals
  obtain ⟨g, goals', hx⟩ := List.exists_cons_of_ne_nil hne
  rw [hx] at h hw ⊢
  have hp : n.kind = .symbol .leftParen → ∃ e, g.step n = .refuse e := by
    intro hp
    cases hn.symm.trans hp
  have hl : m.kind.startsExpression → m.location = n.location := by
    intro hl
    cases (TokenKind.startsExpression_of_endsExpression hm).symm.trans hl
  exact h.change_ahead hp hs hl hw hk (TokenKind.operand?_of_endsExpression hm)

/-- Behind a complete statement a semicolon may follow. -/
theorem complete (h : Reaches n [.statements] ts es []) (ha : ¬ AwaitsStatement ts) :
    Reaches n [.statements] ts es [.moreStatements] :=
  h.awaits_or_complete.resolve_left fun h => ha h.1

theorem generates_semicolon (h : Reaches n [.statements] ts es [.moreStatements])
    (hn : n.kind = .eof) :
    Generates program (ts.map Token.kind ++ [TokenKind.symbol .semicolon]) := by
  have hw : Generates [.moreStatements, .endOfProgram] [.symbol .semicolon] :=
    generates_moreStatements.2 (.inr ⟨[], rfl, generates_statements.2 (.inl (generates_nil.2 rfl))⟩)
  have h : Reaches ⟨.symbol .semicolon, .none, n.location⟩ program ts es
      [.moreStatements, .endOfProgram] := h.within hn wellFormed_program (by simp) hw rfl rfl
  exact h.generates wellFormed_program rfl hw

/-- Behind a list that waits for a statement another list may follow. -/
theorem awaiting (h : Reaches n [.statements] ts es []) (hn : n.kind = .eof)
    (ha : AwaitsStatement ts) (m : Token) : Reaches m [.statements] ts es [.statements] :=
  (h.awaits_or_complete.resolve_right fun hc => ha.not_generates (hc.generates_semicolon hn)).2 m

end Reaches

end ScriptCheck
