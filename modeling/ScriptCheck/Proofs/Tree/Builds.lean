import ScriptCheck.Proofs.Tree.Derived

/-!
# What goals build

What a goal reads and what it reports while it does so is a part of a tree and the events of that
part. For each goal this says which part: a whole expression or statement, or what an expression to
the left of it becomes. Each move of a goal keeps to it, and so does a path of the recognizer.
-/

namespace ScriptCheck

variable {g : Goal} {gs goals goals' : List Goal} {t : Token} {u v w ts : List Token}
  {es es' new : List Event} {l l' left right : Level} {e : Event} {group : Group}

/-! ### The parts that goals build -/

/-- Behind an expression of level `l` the tokens make one of level `l'`. -/
def Extends (l l' : Level) (w : List Token) (es : List Event) : Prop :=
  ∀ a u, Term.Derived l a u → ∃ e, Term.Derived l' e (u ++ w) ∧ a.events ++ es = e.events

/-- The tokens and events are those of a part that the goal reads. -/
def Goal.Builds : Goal → List Token → List Event → Prop
  | report e, w, es => w = [] ∧ es = [e.unplaced]
  | symbol s, w, es => es = [] ∧ ∃ t, w = [t] ∧ t.kind = .symbol s
  | keyword k, w, es => es = [] ∧ ∃ t, w = [t] ∧ t.kind = .keyword k
  | endOfProgram, w, es => w = [] ∧ es = []
  | statements, w, es => ∃ ss, Statement.DerivedList ss w ∧ es = Statement.eventsOf ss
  | moreStatements, w, es => ∃ ss, Statement.DerivedMore ss w ∧ es = Statement.eventsOf ss
  | statement, w, es => ∃ s, Statement.Derived s w ∧ es = s.events
  | assignment, w, es =>
    ∃ name items value, (Statement.assign name items value).Derived w ∧
      es = (Term.target name items).events ++ value.events
  | target name _, w, es => ∃ items, DerivedIndices items w ∧ es = (Term.target name items).events
  | elseBranch, w, es =>
    (∃ z, w = [z] ∧ z.kind = .keyword .kwEnd ∧ es = []) ∨
      ∃ o v z other, w = o :: (v ++ [z]) ∧ o.kind = .keyword .kwElse ∧ z.kind = .keyword .kwEnd ∧
        Statement.DerivedList other v ∧ es = Statement.eventsOf other
  | loopVariable, w, es => ∃ x, w = [x] ∧ x.kind = .identifier ∧ es = (Term.var x.text).events
  | direction, w, es =>
    es = [] ∧ ∃ d, w = [d] ∧ (d.kind = .keyword .kwTo ∨ d.kind = .keyword .kwDownto)
  | functionName _, w, es =>
    ∃ x ps u, w = x :: u ∧ x.kind = .identifier ∧ DerivedHead ps u ∧
      es = [.define x.text ps .start]
  | functionHead h, w, es =>
    ∃ ps, DerivedHead ps w ∧ es = [.define h.name (h.parameters ++ ps) .start]
  | firstParameter h, w, es =>
    ∃ ps v c, w = v ++ [c] ∧ c.kind = .symbol .rightParen ∧ DerivedParameters ps v ∧
      es = [.define h.name (h.parameters ++ ps) .start]
  | parameter h, w, es =>
    ∃ p ps u v c, w = u ++ (v ++ [c]) ∧ c.kind = .symbol .rightParen ∧ DerivedParameter p u ∧
      DerivedMoreParameters ps v ∧ es = [.define h.name (h.parameters ++ p :: ps) .start]
  | refParameter h, w, es =>
    ∃ x ps v c, w = x :: (v ++ [c]) ∧ c.kind = .symbol .rightParen ∧ x.kind = .identifier ∧
      DerivedMoreParameters ps v ∧
      es = [.define h.name (h.parameters ++ ⟨x.text, true⟩ :: ps) .start]
  | moreParameters h, w, es =>
    ∃ ps v c, w = v ++ [c] ∧ c.kind = .symbol .rightParen ∧ DerivedMoreParameters ps v ∧
      es = [.define h.name (h.parameters ++ ps) .start]
  | expression, w, es => ∃ e, Term.Derived .expression e w ∧ es = e.events
  | relationTail, w, es => Extends .simple .expression w es
  | sum, w, es => ∃ e, Term.Derived .simple e w ∧ es = e.events
  | sumTail, w, es => Extends .simple .simple w es
  | product, w, es => ∃ e, Term.Derived .term e w ∧ es = e.events
  | productTail, w, es => Extends .term .term w es
  | power, w, es => ∃ e, Term.Derived .power e w ∧ es = e.events
  | signs _ b, w, es =>
    ∃ signs e u, w = signs ++ u ∧ (∀ s ∈ signs, s.IsSign) ∧ Term.Derived .unsigned e u ∧
      es = (e.signed (minusSigns signs + b.toNat)).events
  | powerTail, w, es => Extends .factor .unsigned w es
  | factor, w, es => ∃ e, Term.Derived .factor e w ∧ es = e.events
  | reference name _, w, es =>
    ∀ t : Token, t.kind = .identifier → t.text = name →
      ∃ e, Term.Derived .factor e (t :: w) ∧ es = e.events
  | firstItem g, w, es =>
    ∃ items v c, w = v ++ [c] ∧ c.kind = .symbol g.close ∧ Term.DerivedItems items v ∧
      es = Term.eventsOf items ++ [(g.event items.length).unplaced]
  | moreItems n g, w, es =>
    ∃ items v c, w = v ++ [c] ∧ c.kind = .symbol g.close ∧ Term.DerivedMore items v ∧
      es = Term.eventsOf items ++ [(g.event (n + items.length)).unplaced]

/-- The tokens and events are those of the parts that the goals read one after the other. -/
def BuildsAll : List Goal → List Token → List Event → Prop
  | [], w, es => w = [] ∧ es = []
  | g :: gs, w, es =>
    ∃ u v es₁ es₂, w = u ++ v ∧ es = es₁ ++ es₂ ∧ g.Builds u es₁ ∧ BuildsAll gs v es₂

@[simp] theorem buildsAll_nil : BuildsAll [] w es ↔ w = [] ∧ es = [] := Iff.rfl

theorem buildsAll_cons :
    BuildsAll (g :: gs) w es ↔
      ∃ u v es₁ es₂, w = u ++ v ∧ es = es₁ ++ es₂ ∧ g.Builds u es₁ ∧ BuildsAll gs v es₂ := Iff.rfl

@[simp] theorem buildsAll_singleton : BuildsAll [g] w es ↔ g.Builds w es := by
  simp [buildsAll_cons]

theorem buildsAll_append :
    BuildsAll (gs ++ goals) w es ↔
      ∃ u v es₁ es₂, w = u ++ v ∧ es = es₁ ++ es₂ ∧ BuildsAll gs u es₁ ∧ BuildsAll goals v es₂ := by
  induction gs generalizing w es with
  | nil => simp
  | cons g gs ih =>
    simp only [List.cons_append, buildsAll_cons, ih]
    constructor
    · rintro ⟨u, -, es₁, -, rfl, rfl, hg, v, w, es₂, es₃, rfl, rfl, hgs, h⟩
      exact ⟨u ++ v, w, es₁ ++ es₂, es₃, by simp, by simp, ⟨u, v, es₁, es₂, rfl, rfl, hg, hgs⟩, h⟩
    · rintro ⟨-, w, -, es₃, rfl, rfl, ⟨u, v, es₁, es₂, rfl, rfl, hg, hgs⟩, h⟩
      exact ⟨u, v ++ w, es₁, es₂ ++ es₃, by simp, by simp, hg, v, w, es₂, es₃, rfl, rfl, hgs, h⟩

@[simp] theorem buildsAll_report :
    BuildsAll (.report e :: gs) w es ↔ ∃ es', es = e.unplaced :: es' ∧ BuildsAll gs w es' := by
  simp [buildsAll_cons, Goal.Builds]

@[simp] theorem buildsAll_symbol {s : Symbol} :
    BuildsAll (.symbol s :: gs) w es ↔
      ∃ t v, w = t :: v ∧ t.kind = .symbol s ∧ BuildsAll gs v es := by
  simp only [buildsAll_cons, Goal.Builds]
  constructor
  · rintro ⟨-, v, -, es, rfl, rfl, ⟨rfl, t, rfl, ht⟩, h⟩
    exact ⟨t, v, rfl, ht, h⟩
  · rintro ⟨t, v, rfl, ht, h⟩
    exact ⟨[t], v, [], es, rfl, rfl, ⟨rfl, t, rfl, ht⟩, h⟩

@[simp] theorem buildsAll_keyword {k : Keyword} :
    BuildsAll (.keyword k :: gs) w es ↔
      ∃ t v, w = t :: v ∧ t.kind = .keyword k ∧ BuildsAll gs v es := by
  simp only [buildsAll_cons, Goal.Builds]
  constructor
  · rintro ⟨-, v, -, es, rfl, rfl, ⟨rfl, t, rfl, ht⟩, h⟩
    exact ⟨t, v, rfl, ht, h⟩
  · rintro ⟨t, v, rfl, ht, h⟩
    exact ⟨[t], v, [], es, rfl, rfl, ⟨rfl, t, rfl, ht⟩, h⟩

/-! ### Expressions -/

theorem Term.signed_add_two (n : Nat) (e : Term) : e.signed (n + 2) = e.signed n := by
  simp [signed]

namespace Extends

theorem refl (l : Level) : Extends l l [] [] := by
  intro a u ha
  exact ⟨a, by simpa using ha, by simp⟩

theorem lift (hl : l.Lifts l') (h : Extends l left w es) : Extends l' left w es :=
  fun a u ha => h a u (.lift hl ha)

/-- An operator and its right operand stand behind the left one. -/
theorem operator {e : Term} (ho : Joins t.kind l left right) (he : Term.Derived right e v)
    (h : Extends l l' w es) :
    Extends left l' (t :: (v ++ w)) (e.events ++ Event.binary t.kind .start :: es) := by
  intro a u ha
  obtain ⟨e', he', hes⟩ := h _ _ (.binary ho ha he)
  refine ⟨e', ?_, ?_⟩
  · simpa using he'
  · rw [← hes]
    simp [Term.events]

end Extends

/-! ### Moves of goals that read expressions -/

theorem Move.eq_of_ite_reduce {c : Prop} [Decidable c]
    (hg : (if c then Move.shift es goals else .reduce es' goals') = .reduce new gs) :
    es' = new ∧ goals' = gs := by
  split at hg
  · cases hg
  · simpa using hg

theorem Move.eq_of_ite_shift {c : Prop} [Decidable c]
    (hg : (if c then Move.shift es goals else .reduce es' goals') = .shift new gs) :
    c ∧ es = new ∧ goals = gs := by
  split at hg
  · rename_i hc
    simpa [hc] using hg
  · cases hg

theorem builds_signs (hb : BuildsAll [.factor, .powerTail] w es) (l : Location) (b : Bool) :
    (Goal.signs l b).Builds w (es ++ if b then [Event.unary .negate .start] else []) := by
  obtain ⟨u, v, es₁, es₂, rfl, rfl, ⟨a, ha, rfl⟩, hv⟩ := hb
  obtain ⟨e, he, hes⟩ := buildsAll_singleton.1 hv a u ha
  refine ⟨[], e, u ++ v, rfl, by simp, he, ?_⟩
  cases b <;> simp [minusSigns, Term.signed, Term.events, hes]

theorem builds_sign (ht : t.IsSign) (l : Location) (b : Bool)
    (h : (Goal.signs l (if t.kind = .symbol .minus then !b else b)).Builds w es) :
    (Goal.signs l b).Builds (t :: w) es := by
  obtain ⟨signs, e, u, rfl, hs, he, rfl⟩ := h
  refine ⟨t :: signs, e, u, rfl, ?_, he, ?_⟩
  · intro s hm
    rcases List.mem_cons.1 hm with rfl | hm
    · exact ht
    · exact hs s hm
  · by_cases hm : t.kind = .symbol .minus
    · have hcount : minusSigns (t :: signs) = minusSigns signs + 1 := by
        simp [minusSigns, hm]
      rw [if_pos hm, hcount]
      cases b
      · rfl
      · exact congrArg Term.events (Term.signed_add_two (minusSigns signs) e).symm
    · have hcount : minusSigns (t :: signs) = minusSigns signs := by
        simp [minusSigns, hm]
      rw [if_neg hm, hcount]

/-- The items of a group that is not empty. -/
theorem exists_items (hb : BuildsAll [.expression, .moreItems 1 group] w es) :
    ∃ items v c, w = v ++ [c] ∧ c.kind = .symbol group.close ∧ items ≠ [] ∧
      Term.DerivedItems items v ∧
      es = Term.eventsOf items ++ [(group.event items.length).unplaced] := by
  obtain ⟨u, v, es₁, es₂, rfl, rfl, ⟨e, he, rfl⟩, hv⟩ := hb
  obtain ⟨items, v, c, rfl, hc, hi, rfl⟩ := buildsAll_singleton.1 hv
  refine ⟨e :: items, u ++ v, c, by simp, hc, by simp, .cons he hi, ?_⟩
  simp [Term.eventsOf, Nat.add_comm]

/-- Where a goal gives way to others it builds what they build. -/
theorem Goal.Builds.of_reduce (hg : g.step t = .reduce new gs) (hb : BuildsAll gs w es) :
    g.Builds w (new.map Event.unplaced ++ es) := by
  cases g with
  | report e =>
    obtain ⟨rfl, rfl⟩ : [e] = new ∧ [] = gs := by simpa [step] using hg
    obtain ⟨rfl, rfl⟩ := hb
    exact ⟨rfl, rfl⟩
  | endOfProgram =>
    simp only [step] at hg
    split at hg
    · obtain ⟨rfl, rfl⟩ : [] = new ∧ [] = gs := by simpa using hg
      exact hb
    · cases hg
  | statements =>
    simp only [step] at hg
    split at hg
    · obtain ⟨rfl, rfl⟩ : [] = new ∧ [] = gs := by simpa using hg
      obtain ⟨rfl, rfl⟩ := hb
      exact ⟨[], .nil, rfl⟩
    · obtain ⟨rfl, rfl⟩ : [] = new ∧ [.statement, .moreStatements] = gs := by simpa using hg
      obtain ⟨u, v, es₁, es₂, rfl, rfl, ⟨s, hs, rfl⟩, hv⟩ := hb
      obtain ⟨ss, hss, rfl⟩ := buildsAll_singleton.1 hv
      exact ⟨s :: ss, .cons hs hss, rfl⟩
  | moreStatements =>
    obtain ⟨rfl, rfl⟩ := Move.eq_of_ite_reduce hg
    obtain ⟨rfl, rfl⟩ := hb
    exact ⟨[], .nil, rfl⟩
  | target name l =>
    simp only [step, stepTarget] at hg
    split at hg
    · cases hg
    · obtain ⟨rfl, rfl⟩ : [.var name l] = new ∧ [] = gs := by simpa using hg
      obtain ⟨rfl, rfl⟩ := hb
      exact ⟨[], .none, rfl⟩
  | elseBranch =>
    obtain ⟨rfl, rfl⟩ := Move.eq_of_ite_reduce hg
    obtain ⟨z, v, rfl, hz, rfl, rfl⟩ := buildsAll_keyword.1 hb
    exact .inl ⟨z, rfl, hz, rfl⟩
  | functionHead h =>
    obtain ⟨rfl, rfl⟩ := Move.eq_of_ite_reduce hg
    obtain ⟨rfl, rfl⟩ := hb
    exact ⟨[], .none, by simp [Header.event, Event.unplaced, Event.relocate]⟩
  | firstParameter h =>
    obtain ⟨rfl, rfl⟩ := Move.eq_of_ite_reduce hg
    obtain ⟨p, ps, u, v, c, rfl, hc, hp, hps, rfl⟩ := buildsAll_singleton.1 hb
    exact ⟨p :: ps, u ++ v, c, by simp, hc, .cons hp hps, rfl⟩
  | expression =>
    obtain ⟨rfl, rfl⟩ : [] = new ∧ [.sum, .relationTail] = gs := by simpa [step] using hg
    obtain ⟨u, v, es₁, es₂, rfl, rfl, ⟨a, ha, rfl⟩, hv⟩ := hb
    exact buildsAll_singleton.1 hv a u ha
  | relationTail =>
    obtain ⟨rfl, rfl⟩ := Move.eq_of_ite_reduce hg
    obtain ⟨rfl, rfl⟩ := hb
    exact (Extends.refl .expression).lift .expression
  | sum =>
    obtain ⟨rfl, rfl⟩ : [] = new ∧ [.product, .sumTail] = gs := by simpa [step] using hg
    obtain ⟨u, v, es₁, es₂, rfl, rfl, ⟨a, ha, rfl⟩, hv⟩ := hb
    exact buildsAll_singleton.1 hv a u (.lift .simple ha)
  | product =>
    obtain ⟨rfl, rfl⟩ : [] = new ∧ [.power, .productTail] = gs := by simpa [step] using hg
    obtain ⟨u, v, es₁, es₂, rfl, rfl, ⟨a, ha, rfl⟩, hv⟩ := hb
    exact buildsAll_singleton.1 hv a u (.lift .term ha)
  | sumTail | productTail =>
    obtain ⟨rfl, rfl⟩ := Move.eq_of_ite_reduce hg
    obtain ⟨rfl, rfl⟩ := hb
    exact .refl _
  | power =>
    obtain ⟨rfl, rfl⟩ : [] = new ∧ [.signs t.location false] = gs := by simpa [step] using hg
    obtain ⟨signs, e, u, rfl, hs, he, rfl⟩ := buildsAll_singleton.1 hb
    exact ⟨_, .signs hs he, rfl⟩
  | signs l b =>
    simp only [step, stepSigns] at hg
    split at hg
    · cases hg
    · cases hg
    · obtain ⟨rfl, rfl⟩ : [] = new ∧ _ = gs := by simpa using hg
      change BuildsAll ([factor, powerTail] ++ if b then _ else []) w es at hb
      obtain ⟨u, v, es₁, es₂, rfl, rfl, hu, hv⟩ := buildsAll_append.1 hb
      have hs := builds_signs hu l b
      cases b with
      | false =>
        obtain ⟨rfl, rfl⟩ := hv
        simpa using hs
      | true =>
        obtain ⟨-, rfl, rfl, rfl⟩ := buildsAll_report.1 hv
        simpa [Event.unplaced, Event.relocate] using hs
  | powerTail =>
    obtain ⟨rfl, rfl⟩ := Move.eq_of_ite_reduce hg
    obtain ⟨rfl, rfl⟩ := hb
    exact (Extends.refl .unsigned).lift .unsigned
  | reference name l =>
    simp only [step, stepReference] at hg
    split at hg
    · cases hg
    · cases hg
    · obtain ⟨rfl, rfl⟩ : [.var name l] = new ∧ [] = gs := by simpa using hg
      obtain ⟨rfl, rfl⟩ := hb
      rintro t ht rfl
      exact ⟨.var t.text, .var ht, rfl⟩
  | firstItem group =>
    obtain ⟨rfl, rfl⟩ := Move.eq_of_ite_reduce hg
    obtain ⟨items, v, c, rfl, hc, -, hi, rfl⟩ := exists_items hb
    exact ⟨items, v, c, rfl, hc, hi, rfl⟩
  | statement =>
    simp only [step, stepStatement, enter] at hg
    split at hg <;> cases hg
  | factor =>
    simp only [step, stepFactor] at hg
    split at hg <;> cases hg
  | direction =>
    simp only [step] at hg
    split at hg <;> cases hg
  | parameter h =>
    simp only [step, stepParameter] at hg
    split at hg
    · cases hg
    · exact absurd hg demand_ne_reduce
  | moreParameters h =>
    simp only [step, stepMoreParameters] at hg
    split at hg
    · cases hg
    · exact absurd hg demand_ne_reduce
  | moreItems n group =>
    simp only [step, stepItems] at hg
    split at hg
    · cases hg
    · exact absurd hg demand_ne_reduce
  | symbol | keyword | assignment | loopVariable | functionName | refParameter =>
    exact absurd hg demand_ne_reduce

theorem Goal.builds_factor (hg : stepFactor t = .shift new gs) (hb : BuildsAll gs w es) :
    ∃ e, Term.Derived .factor e (t :: w) ∧ new.map Event.unplaced ++ es = e.events := by
  unfold stepFactor at hg
  split at hg
  · rename_i ht
    obtain ⟨rfl, rfl⟩ : [.integer t.integer t.location] = new ∧ [] = gs := by simpa using hg
    obtain ⟨rfl, rfl⟩ := hb
    exact ⟨_, .integer ht, rfl⟩
  · rename_i ht
    obtain ⟨rfl, rfl⟩ : [.real t.real t.location] = new ∧ [] = gs := by simpa using hg
    obtain ⟨rfl, rfl⟩ := hb
    exact ⟨_, .real ht, rfl⟩
  · rename_i ht
    obtain ⟨rfl, rfl⟩ : [.string t.text t.location] = new ∧ [] = gs := by simpa using hg
    obtain ⟨rfl, rfl⟩ := hb
    exact ⟨_, .string ht, rfl⟩
  · rename_i ht
    obtain ⟨rfl, rfl⟩ : [.boolean true t.location] = new ∧ [] = gs := by simpa using hg
    obtain ⟨rfl, rfl⟩ := hb
    exact ⟨_, .true ht, rfl⟩
  · rename_i ht
    obtain ⟨rfl, rfl⟩ : [.boolean false t.location] = new ∧ [] = gs := by simpa using hg
    obtain ⟨rfl, rfl⟩ := hb
    exact ⟨_, .false ht, rfl⟩
  · rename_i ht
    obtain ⟨rfl, rfl⟩ : [] = new ∧ [.reference t.text t.location] = gs := by simpa using hg
    exact buildsAll_singleton.1 hb t ht rfl
  · rename_i ht
    obtain ⟨rfl, rfl⟩ : [] = new ∧ [.expression, .symbol .rightParen] = gs := by simpa using hg
    obtain ⟨u, v, es₁, es₂, rfl, rfl, ⟨e, he, rfl⟩, hv⟩ := hb
    obtain ⟨c, -, rfl, hc, rfl, rfl⟩ := buildsAll_symbol.1 hv
    exact ⟨e, .parens ht he hc, by simp⟩
  · rename_i ht
    obtain ⟨rfl, rfl⟩ : [] = new ∧ [.expression, .report (.unary .not t.location)] = gs := by
      simpa using hg
    obtain ⟨u, v, es₁, es₂, rfl, rfl, ⟨e, he, rfl⟩, hv⟩ := hb
    obtain ⟨-, rfl, rfl, rfl⟩ := buildsAll_report.1 hv
    rw [List.append_nil]
    exact ⟨.unary .not e, .not ht he, rfl⟩
  · rename_i ht
    obtain ⟨rfl, rfl⟩ : [] = new ∧ [.firstItem (.list t.location)] = gs := by simpa using hg
    obtain ⟨items, v, c, rfl, hc, hi, rfl⟩ := buildsAll_singleton.1 hb
    exact ⟨.list items, .list ht hi hc, rfl⟩
  · cases hg

theorem exists_print (ht : t.kind = .keyword .kwPrint ∨ t.kind = .keyword .kwPrintln)
    (hb : BuildsAll
      [.symbol .leftParen, .expression, .symbol .rightParen, .report (.exit .print)] w es) :
    ∃ s, Statement.Derived s (t :: w) ∧ .enter .print .start :: es = s.events := by
  obtain ⟨o, w₁, rfl, ho, h₁⟩ := buildsAll_symbol.1 hb
  obtain ⟨u, w₂, es₁, es₂, rfl, rfl, ⟨e, he, rfl⟩, h₂⟩ := h₁
  obtain ⟨c, w₃, rfl, hc, h₃⟩ := buildsAll_symbol.1 h₂
  obtain ⟨-, rfl, rfl, rfl⟩ := buildsAll_report.1 h₃
  exact ⟨_, .print ht ho he hc, rfl⟩

theorem Goal.builds_statement (hg : stepStatement t = .shift new gs) (hb : BuildsAll gs w es) :
    ∃ s, Statement.Derived s (t :: w) ∧ new.map Event.unplaced ++ es = s.events := by
  unfold stepStatement enter at hg
  split at hg
  · cases hg
  · rename_i ht
    obtain ⟨rfl, rfl⟩ : [.enter .ifThen t.location] = new ∧ [.expression, .keyword .kwThen,
      .statements, .elseBranch, .report (.exit .ifThen)] = gs := by simpa using hg
    obtain ⟨u, v, es₁, es₂, rfl, rfl, ⟨c, hc, rfl⟩, hv⟩ := hb
    obtain ⟨m, v, rfl, hm, hv⟩ := buildsAll_keyword.1 hv
    obtain ⟨v, w, es₁, es₂, rfl, rfl, ⟨body, hb, rfl⟩, hw⟩ := hv
    obtain ⟨v', w, es₁, es₂, rfl, rfl, helse, hw⟩ := hw
    obtain ⟨-, rfl, rfl, rfl⟩ := buildsAll_report.1 hw
    rw [List.append_nil]
    rcases helse with ⟨z, rfl, hz, rfl⟩ | ⟨o, v', z, other, rfl, ho, hz, hother, rfl⟩
    · exact ⟨.ifThen c body, .ifThen ht hc hm hb hz, by
        simp [Statement.events, enclose, Event.unplaced, Event.relocate]⟩
    · exact ⟨.ifElse c body other, .ifElse ht hc hm hb ho hother hz, by
        simp [Statement.events, enclose, Event.unplaced, Event.relocate]⟩
  · rename_i ht
    obtain ⟨rfl, rfl⟩ : [.enter .forLoop t.location] = new ∧ [.loopVariable, .symbol .assign,
      .expression, .direction, .expression, .keyword .kwDo, .statements, .keyword .kwEnd,
      .report (.exit .forLoop)] = gs := by simpa using hg
    obtain ⟨-, w₁, -, es₂, rfl, rfl, ⟨x, rfl, hx, rfl⟩, h₁⟩ := hb
    obtain ⟨q, w₂, rfl, hq, h₂⟩ := buildsAll_symbol.1 h₁
    obtain ⟨u, w₃, es₁, es₂, rfl, rfl, ⟨first, hfirst, rfl⟩, h₃⟩ := h₂
    obtain ⟨-, w₄, -, es₂, rfl, rfl, ⟨rfl, d, rfl, hd⟩, h₄⟩ := h₃
    obtain ⟨v, w₅, es₁, es₂, rfl, rfl, ⟨last, hlast, rfl⟩, h₅⟩ := h₄
    obtain ⟨m, w₆, rfl, hm, h₆⟩ := buildsAll_keyword.1 h₅
    obtain ⟨w, w₇, es₁, es₂, rfl, rfl, ⟨body, hb, rfl⟩, h₇⟩ := h₆
    obtain ⟨z, w₈, rfl, hz, h₈⟩ := buildsAll_keyword.1 h₇
    obtain ⟨-, rfl, rfl, rfl⟩ := buildsAll_report.1 h₈
    exact ⟨_, .forLoop ht hx hq hfirst hd hlast hm hb hz, by
      simp [Statement.events, enclose, Event.unplaced, Event.relocate]⟩
  · rename_i ht
    obtain ⟨rfl, rfl⟩ : [.enter .whileLoop t.location] = new ∧ [.expression, .keyword .kwDo,
      .statements, .keyword .kwEnd, .report (.exit .whileLoop)] = gs := by simpa using hg
    obtain ⟨u, v, es₁, es₂, rfl, rfl, ⟨c, hc, rfl⟩, hv⟩ := hb
    obtain ⟨m, v, rfl, hm, hv⟩ := buildsAll_keyword.1 hv
    obtain ⟨v, w, es₁, es₂, rfl, rfl, ⟨body, hb, rfl⟩, hw⟩ := hv
    obtain ⟨z, w, rfl, hz, hw⟩ := buildsAll_keyword.1 hw
    obtain ⟨-, rfl, rfl, rfl⟩ := buildsAll_report.1 hw
    exact ⟨_, .whileLoop ht hc hm hb hz, by
      simp [Statement.events, enclose, Event.unplaced, Event.relocate]⟩
  · rename_i ht
    obtain ⟨rfl, rfl⟩ : [.enter .repeatLoop t.location] = new ∧ [.statements, .keyword .kwUntil,
      .expression, .report (.exit .repeatLoop)] = gs := by simpa using hg
    obtain ⟨u, v, es₁, es₂, rfl, rfl, ⟨body, hb, rfl⟩, hv⟩ := hb
    obtain ⟨m, v, rfl, hm, hv⟩ := buildsAll_keyword.1 hv
    obtain ⟨v, w, es₁, es₂, rfl, rfl, ⟨c, hc, rfl⟩, hw⟩ := hv
    obtain ⟨-, rfl, rfl, rfl⟩ := buildsAll_report.1 hw
    rw [List.append_nil]
    exact ⟨_, .repeatLoop ht hb hm hc, by
      simp [Statement.events, enclose, Event.unplaced, Event.relocate]⟩
  · rename_i ht
    obtain ⟨rfl, rfl⟩ : [.enter .returnValue t.location] = new ∧
      [.expression, .report (.exit .returnValue)] = gs := by simpa using hg
    obtain ⟨u, v, es₁, es₂, rfl, rfl, ⟨e, he, rfl⟩, hv⟩ := hb
    obtain ⟨-, rfl, rfl, rfl⟩ := buildsAll_report.1 hv
    rw [List.append_nil]
    exact ⟨_, .returnValue ht he, rfl⟩
  · rename_i ht
    obtain ⟨rfl, rfl⟩ : [.enter .breakLoop t.location] = new ∧
      [.report (.exit .breakLoop)] = gs := by simpa using hg
    obtain ⟨-, rfl, rfl, rfl⟩ := buildsAll_report.1 hb
    exact ⟨_, .breakLoop ht, rfl⟩
  · rename_i ht
    obtain ⟨rfl, rfl⟩ : [.enter .functionDef t.location] = new ∧ [.functionName t.location,
      .statements, .keyword .kwEnd, .report (.exit .functionDef)] = gs := by simpa using hg
    obtain ⟨-, v, -, es₂, rfl, rfl, ⟨x, ps, u, rfl, hx, hps, rfl⟩, hv⟩ := hb
    obtain ⟨v, w, es₁, es₂, rfl, rfl, ⟨body, hb, rfl⟩, hw⟩ := hv
    obtain ⟨z, w, rfl, hz, hw⟩ := buildsAll_keyword.1 hw
    obtain ⟨-, rfl, rfl, rfl⟩ := buildsAll_report.1 hw
    exact ⟨_, .functionDef ht hx hps hb hz, rfl⟩
  · rename_i ht
    obtain ⟨rfl, rfl⟩ : [.enter .print t.location] = new ∧ [.symbol .leftParen, .expression,
      .symbol .rightParen, .report (.exit .print)] = gs := by simpa using hg
    exact exists_print (.inl ht) hb
  · rename_i ht
    obtain ⟨rfl, rfl⟩ : [.enter .print t.location] = new ∧ [.symbol .leftParen, .expression,
      .symbol .rightParen, .report (.exit .print)] = gs := by simpa using hg
    exact exists_print (.inr ht) hb
  · cases hg

theorem Goal.Builds.of_shift (hg : g.step t = .shift new gs) (hb : BuildsAll gs w es) :
    g.Builds (t :: w) (new.map Event.unplaced ++ es) := by
  cases g with
  | symbol | keyword =>
    obtain ⟨ht, rfl, rfl⟩ := demand_eq_shift hg
    obtain ⟨rfl, rfl⟩ := hb
    exact ⟨rfl, t, rfl, ht⟩
  | moreStatements =>
    obtain ⟨ht, rfl, rfl⟩ := Move.eq_of_ite_shift hg
    obtain ⟨ss, hss, rfl⟩ := buildsAll_singleton.1 hb
    cases hss with
    | nil => exact ⟨[], .skip ht .nil, rfl⟩
    | cons hs hss => exact ⟨_, .cons ht hs hss, rfl⟩
  | statement => exact builds_statement hg hb
  | assignment =>
    obtain ⟨ht, rfl, rfl⟩ := demand_eq_shift hg
    obtain ⟨u, v, es₁, es₂, rfl, rfl, ⟨items, hi, rfl⟩, hv⟩ := hb
    obtain ⟨q, v, rfl, hq, hv⟩ := buildsAll_symbol.1 hv
    obtain ⟨value, hvalue, rfl⟩ := buildsAll_singleton.1 hv
    exact ⟨t.text, items, value, .assign ht hi hq hvalue, rfl⟩
  | target name l =>
    simp only [step, stepTarget] at hg
    split at hg
    · rename_i ht
      obtain ⟨rfl, rfl⟩ : [] = new ∧ [.expression, .moreItems 1 (.index name l)] = gs := by
        simpa using hg
      obtain ⟨items, v, c, rfl, hc, hne, hi, rfl⟩ := exists_items hb
      refine ⟨items, .some ht hi hne hc, ?_⟩
      cases items with
      | nil => exact absurd rfl hne
      | cons => rfl
    · cases hg
  | elseBranch =>
    obtain ⟨ht, rfl, rfl⟩ := Move.eq_of_ite_shift hg
    obtain ⟨u, v, es₁, es₂, rfl, rfl, ⟨other, ho, rfl⟩, hv⟩ := hb
    obtain ⟨z, -, rfl, hz, rfl, rfl⟩ := buildsAll_keyword.1 hv
    exact .inr ⟨t, u, z, other, rfl, ht, hz, ho, by simp⟩
  | loopVariable =>
    obtain ⟨ht, rfl, rfl⟩ := demand_eq_shift hg
    obtain ⟨-, rfl, rfl, rfl⟩ := buildsAll_report.1 hb
    exact ⟨t, rfl, ht, rfl⟩
  | direction =>
    simp only [step] at hg
    split at hg
    · rename_i ht
      obtain ⟨rfl, rfl⟩ : [] = new ∧ [] = gs := by simpa using hg
      obtain ⟨rfl, rfl⟩ := hb
      exact ⟨rfl, t, rfl, ht⟩
    · cases hg
  | functionName l =>
    obtain ⟨ht, rfl, rfl⟩ := demand_eq_shift hg
    obtain ⟨ps, hps, rfl⟩ := buildsAll_singleton.1 hb
    exact ⟨t, ps, w, rfl, ht, hps, rfl⟩
  | functionHead h =>
    obtain ⟨ht, rfl, rfl⟩ := Move.eq_of_ite_shift hg
    obtain ⟨ps, v, c, rfl, hc, hps, rfl⟩ := buildsAll_singleton.1 hb
    exact ⟨ps, .some ht hps hc, rfl⟩
  | firstParameter h =>
    obtain ⟨ht, rfl, rfl⟩ := Move.eq_of_ite_shift hg
    obtain ⟨-, rfl, rfl, rfl⟩ := buildsAll_report.1 hb
    exact ⟨[], [], t, rfl, ht, .nil, by simp [Header.event, Event.unplaced, Event.relocate]⟩
  | parameter h =>
    simp only [step, stepParameter] at hg
    split at hg
    · rename_i ht
      obtain ⟨rfl, rfl⟩ : [] = new ∧ [.refParameter h] = gs := by simpa using hg
      obtain ⟨x, ps, v, c, rfl, hc, hx, hps, rfl⟩ := buildsAll_singleton.1 hb
      exact ⟨⟨x.text, true⟩, ps, [t, x], v, c, rfl, hc, .byRef ht hx, hps, rfl⟩
    · obtain ⟨ht, rfl, rfl⟩ := demand_eq_shift hg
      obtain ⟨ps, v, c, rfl, hc, hps, rfl⟩ := buildsAll_singleton.1 hb
      exact ⟨⟨t.text, false⟩, ps, [t], v, c, rfl, hc, .byValue ht, hps, by simp [Header.add]⟩
  | refParameter h =>
    obtain ⟨ht, rfl, rfl⟩ := demand_eq_shift hg
    obtain ⟨ps, v, c, rfl, hc, hps, rfl⟩ := buildsAll_singleton.1 hb
    exact ⟨t, ps, v, c, rfl, hc, ht, hps, by simp [Header.add]⟩
  | moreParameters h =>
    simp only [step, stepMoreParameters] at hg
    split at hg
    · rename_i ht
      obtain ⟨rfl, rfl⟩ : [] = new ∧ [.parameter h] = gs := by simpa using hg
      obtain ⟨p, ps, u, v, c, rfl, hc, hp, hps, rfl⟩ := buildsAll_singleton.1 hb
      exact ⟨p :: ps, t :: (u ++ v), c, by simp, hc, .cons ht hp hps, rfl⟩
    · obtain ⟨ht, rfl, rfl⟩ := demand_eq_shift hg
      obtain ⟨-, rfl, rfl, rfl⟩ := buildsAll_report.1 hb
      exact ⟨[], [], t, rfl, ht, .nil, by simp [Header.event, Event.unplaced, Event.relocate]⟩
  | relationTail =>
    obtain ⟨ht, rfl, rfl⟩ := Move.eq_of_ite_shift hg
    obtain ⟨u, v, es₁, es₂, rfl, rfl, ⟨e, he, rfl⟩, hv⟩ := hb
    obtain ⟨-, rfl, rfl, rfl⟩ := buildsAll_report.1 hv
    exact .operator (.relation ht) he (.refl .expression)
  | sumTail =>
    obtain ⟨ht, rfl, rfl⟩ := Move.eq_of_ite_shift hg
    obtain ⟨u, v, es₁, es₂, rfl, rfl, ⟨e, he, rfl⟩, hv⟩ := hb
    obtain ⟨es, rfl, hmore⟩ := buildsAll_report.1 hv
    have hmore : Extends .simple .simple _ es := buildsAll_singleton.1 hmore
    exact .operator (.additive ht) he hmore
  | productTail =>
    obtain ⟨ht, rfl, rfl⟩ := Move.eq_of_ite_shift hg
    obtain ⟨u, v, es₁, es₂, rfl, rfl, ⟨e, he, rfl⟩, hv⟩ := hb
    obtain ⟨es, rfl, hmore⟩ := buildsAll_report.1 hv
    have hmore : Extends .term .term _ es := buildsAll_singleton.1 hmore
    exact .operator (.multiplicative ht) he hmore
  | powerTail =>
    obtain ⟨ht, rfl, rfl⟩ := Move.eq_of_ite_shift hg
    obtain ⟨u, v, es₁, es₂, rfl, rfl, ⟨e, he, rfl⟩, hv⟩ := hb
    obtain ⟨-, rfl, rfl, rfl⟩ := buildsAll_report.1 hv
    exact .operator (ht ▸ .power) he (.refl .unsigned)
  | signs l b =>
    simp only [step, stepSigns] at hg
    split at hg
    · rename_i ht
      obtain ⟨rfl, rfl⟩ : [] = new ∧ [.signs l b] = gs := by simpa using hg
      exact builds_sign (.inl ht) l b (by simpa [ht] using hb)
    · rename_i ht
      obtain ⟨rfl, rfl⟩ : [] = new ∧ [.signs l !b] = gs := by simpa using hg
      exact builds_sign (.inr ht) l b (by simpa [ht] using hb)
    · cases hg
  | factor => exact builds_factor hg hb
  | reference name l =>
    simp only [step, stepReference] at hg
    split at hg
    · rename_i ho
      obtain ⟨rfl, rfl⟩ : [] = new ∧ [.expression, .moreItems 1 (.index name l)] = gs := by
        simpa using hg
      obtain ⟨items, v, c, rfl, hc, hne, hi, rfl⟩ := exists_items hb
      rintro t' ht rfl
      exact ⟨_, .index ht ho hi hne hc, rfl⟩
    · rename_i ho
      obtain ⟨rfl, rfl⟩ : [] = new ∧ [.firstItem (.call name l)] = gs := by simpa using hg
      obtain ⟨items, v, c, rfl, hc, hi, rfl⟩ := buildsAll_singleton.1 hb
      rintro t' ht rfl
      exact ⟨_, .call ht ho hi hc, rfl⟩
    · cases hg
  | firstItem group =>
    obtain ⟨ht, rfl, rfl⟩ := Move.eq_of_ite_shift hg
    obtain ⟨-, rfl, rfl, rfl⟩ := buildsAll_report.1 hb
    exact ⟨[], [], t, rfl, ht, .nil, rfl⟩
  | moreItems n group =>
    simp only [step, stepItems] at hg
    split at hg
    · rename_i ht
      obtain ⟨rfl, rfl⟩ : [] = new ∧ [.expression, .moreItems (n + 1) group] = gs := by
        simpa using hg
      obtain ⟨u, v, es₁, es₂, rfl, rfl, ⟨e, he, rfl⟩, hv⟩ := hb
      obtain ⟨items, v, c, rfl, hc, hi, rfl⟩ := buildsAll_singleton.1 hv
      refine ⟨e :: items, t :: (u ++ v), c, by simp, hc, .cons ht he hi, ?_⟩
      simp [Term.eventsOf, Nat.add_comm, Nat.add_left_comm]
    · obtain ⟨ht, rfl, rfl⟩ := demand_eq_shift hg
      obtain ⟨-, rfl, rfl, rfl⟩ := buildsAll_report.1 hb
      exact ⟨[], [], t, rfl, ht, .nil, rfl⟩
  | report | expression | sum | product | power => cases hg
  | endOfProgram | statements =>
    simp only [step] at hg
    split at hg <;> cases hg

/-! ### Paths -/

section

variable {m : Token}

/-- Behind a name and a parenthesis the arguments of a call are read. -/
theorem Reaches.of_call (h : Reaches m (Goal.framed .call t .factor ++ goals) (t :: ts) es [])
    (ht : t.kind = .identifier) (hp : (ts.headD m).kind = .symbol .leftParen) :
    ∃ p us es', ts = p :: us ∧ p.kind = .symbol .leftParen ∧ es = .enter .call t.location :: es' ∧
      Reaches m (.firstItem (.call t.text t.location) :: .report (.exit .call) :: goals) us es'
        [] := by
  obtain ⟨es₁, rfl, h₁⟩ := h.of_reduce rfl
  obtain ⟨us, es₂, hus, rfl, h₂⟩ := h₁.of_shift (Goal.step_factor_of_identifier ht)
  obtain rfl : ts = us := List.tail_eq_of_cons_eq hus
  have hopen : (Goal.reference t.text t.location).step (ts.headD m) =
      .shift [] [.firstItem (.call t.text t.location)] := by
    simp only [Goal.step, Goal.stepReference, hp]
  obtain ⟨vs, es₃, hvs, rfl, h₃⟩ := h₂.of_shift hopen
  exact ⟨ts.headD m, vs, _, hvs, hp, rfl, h₃⟩

/-- The tokens and the events of a path to the end are those of what its goals build. -/
theorem Reaches.builds {goals : List Goal} {ts : List Token} {es : List Event}
    (h : Reaches m goals ts es []) : BuildsAll goals ts (es.map Event.unplaced) := by
  -- the name and the parenthesis of a call are used up by two moves that are looked at as one, so
  -- what is left is shorter by more than one token
  induction hl : ts.length using Nat.strongRecOn generalizing goals ts es with | ind k ihl
  induction hr : Goal.totalRank goals using Nat.strongRecOn generalizing goals ts es with
  | ind r ihr
  cases h with
  | refl => exact ⟨rfl, rfl⟩
  | @reduce g goals gs _ ts new es hg h =>
    have hlt : Goal.totalRank (gs ++ goals) < r := by
      have := Goal.totalRank_lt_of_reduce hg
      simp only [← hr, Goal.totalRank_append, Goal.totalRank_cons]
      omega
    obtain ⟨u, v, es₁, es₂, rfl, he, hu, hv⟩ := buildsAll_append.1 (ihr _ hlt h hl rfl)
    refine ⟨u, v, _, es₂, rfl, ?_, Goal.Builds.of_reduce hg hu, hv⟩
    rw [List.map_append, he, List.append_assoc]
  | @shift g goals gs _ t ts new es hg h =>
    have hlt : ts.length < k := by
      simp [← hl]
    obtain ⟨u, v, es₁, es₂, rfl, he, hu, hv⟩ := buildsAll_append.1 (ihl _ hlt h rfl)
    refine ⟨t :: u, v, _, es₂, rfl, ?_, Goal.Builds.of_shift hg hu, hv⟩
    rw [List.map_append, he, List.append_assoc]
  | @look g goals yes no _ t ts k' es hg h =>
    have hlt := Goal.totalRank_lt_of_look hg
    obtain ⟨rfl, ht, rfl, rfl, rfl⟩ := Goal.eq_of_look hg
    split at h
    · rename_i hp
      obtain ⟨p, us, es, rfl, hp, rfl, hcall⟩ := h.of_call ht hp
      have hlt : us.length < k := by
        simp only [← hl, List.length_cons]
        omega
      obtain ⟨u, v, es₁, es₂, rfl, he, ⟨items, w, c, rfl, hc, hi, rfl⟩, hv⟩ := ihl _ hlt hcall rfl
      obtain ⟨es₂, rfl, hgoals⟩ := buildsAll_report.1 hv
      refine ⟨_, v, _, es₂, ?_, ?_, ⟨_, .call ht hp hi hc, rfl⟩, hgoals⟩
      · simp
      · rw [List.map_cons, he]
        simp [Statement.events, Term.events, enclose, Event.unplaced, Event.relocate, Group.event]
    · have hlt : Goal.totalRank (Goal.framed .assignment t .assignment ++ goals) < r := by
        simp only [← hr, Goal.totalRank_append, Goal.totalRank_cons]
        omega
      obtain ⟨u, v, es₁, es₂, hts, he, hu, hv⟩ := buildsAll_append.1 (ihr _ hlt h hl rfl)
      obtain ⟨es', rfl, h₁⟩ := buildsAll_report.1 hu
      obtain ⟨w₁, w₂, es₃, es₄, rfl, rfl, ⟨name, items, value, hs, rfl⟩, h₂⟩ := h₁
      obtain ⟨-, rfl, rfl, rfl⟩ := buildsAll_report.1 h₂
      rw [hts]
      refine ⟨w₁, v, _, es₂, ?_, ?_, ⟨_, hs, rfl⟩, hv⟩
      · simp
      · rw [he]
        simp [Statement.events, enclose, Event.unplaced, Event.relocate]

end

end ScriptCheck
