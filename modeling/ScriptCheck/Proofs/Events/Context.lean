import ScriptCheck.Proofs.Events.Yield
import ScriptCheck.Proofs.Grammar.Stack

/-!
# The contexts of goals

Whenever a goal is on top of the stack, the context of the next token is one in which the goal may
be. So behind an operand there is a goal that takes an operator, a sign in any other place is one
that the goal of a chain of signs takes, and a name in a function header is none that an expression
takes.
-/

namespace ScriptCheck

variable {c : Context} {t : Token} {ts : List Token} {g o : Goal} {goals gs more : List Goal}
  {group : Group} {es : List Event}

/-! ### Goals in their contexts -/

namespace Goal

/-- Whether the goal may wait below others. -/
def rests : Goal → Bool
  | symbol s => s = .assign ∨ s = .rightParen
  | signs .. | target .. | reference .. | firstItem _ => false
  | functionName _ | functionHead _ => false
  | firstParameter _ | parameter _ | refParameter _ | moreParameters _ => false
  | _ => true

/-- The contexts in which the goal may be on top. A goal that asks for one token by name asks for
none of which something is reported. -/
def enters (c : Context) : Goal → Prop
  | report e => e.isConstant = false
  | endOfProgram => True
  | symbol s => (c = .operand ∨ c = .other) ∧ (s = .assign ∨ s = .leftParen ∨ s = .rightParen)
  | keyword k =>
    (c = .operand ∨ c = .other) ∧ (k = .kwThen ∨ k = .kwDo ∨ k = .kwEnd ∨ k = .kwUntil)
  | moreStatements | elseBranch => c = .operand ∨ c = .other
  | statements | statement | assignment | loopVariable => c = .other
  | expression | sum | product | power | firstItem _ => c = .other
  | signs .. | factor => c = .sign ∨ c = .other
  | target .. | direction | reference .. | moreItems .. => c = .operand
  | relationTail | sumTail | productTail | powerTail => c = .operand
  | functionName _ => c = .name
  | functionHead _ => c = .header ∨ c = .other
  | firstParameter _ | parameter _ | refParameter _ | moreParameters _ => c = .header

/-- The contexts in which the goal may leave the goals below. -/
def leaves (c c' : Context) : Goal → Prop
  | report _ | endOfProgram => c' = c
  | symbol s => c' = if s = .rightParen then .operand else .other
  | statements | moreStatements | statement => c' = .operand ∨ c' = .other
  | keyword _ | elseBranch | direction => c' = .other
  | functionName _ | functionHead _ => c' = .other
  | firstParameter _ | parameter _ | refParameter _ | moreParameters _ => c' = .other
  | _ => c' = .operand

/-- Whether the goal reads the name that a value is assigned to. -/
def isAssigned : Goal → Bool
  | target .. | loopVariable => true
  | _ => false

end Goal

/-- The goals may wait below others. -/
def Resting (goals : List Goal) : Prop :=
  ∀ g ∈ goals, g.rests

@[simp] theorem resting_nil : Resting [] := List.forall_mem_nil _

@[simp] theorem resting_cons : Resting (g :: goals) ↔ g.rests ∧ Resting goals :=
  List.forall_mem_cons

/-- Each of the goals will be on top in a context that suits it. -/
def Suits : Context → List Goal → Prop
  | _, [] => True
  | c, g :: goals =>
    g.enters c ∧ Resting goals ∧
      (g.isAssigned → ∃ gs, goals = .symbol .assign :: gs) ∧ ∀ c', g.leaves c c' → Suits c' goals

@[simp] theorem suits_nil : Suits c [] := trivial

@[simp] theorem suits_cons :
    Suits c (g :: goals) ↔
      g.enters c ∧ Resting goals ∧
        (g.isAssigned → ∃ gs, goals = .symbol .assign :: gs) ∧
        ∀ c', g.leaves c c' → Suits c' goals := Iff.rfl

/-- What is known besides of the goal on top in front of the tokens `ts`: where a chain of signs
begins, and what is in brackets behind the name of a function. -/
def Goal.Ready (c : Context) (ts : List Token) : Goal → Prop
  | signs l negative => c = .other → negative = false ∧ ∀ t ∈ ts.head?, l = t.location
  | functionHead _ =>
    c = if ts.head?.map Token.kind = some (.symbol .leftParen) then .header else .other
  | _ => True

theorem Goal.Ready.of_rests (h : g.rests) : g.Ready c ts := by
  cases g <;> trivial

/-! ### Operators -/

/-- What an operator does behind its left operand. -/
theorem of_operand? (h : t.kind.operand? = some o) (ts : List Token) :
    yield .operand t ts = [.binary t.kind t.location] ∧ Context.operand.behind t ts = .other ∧
      t.kind.turn = 0 ∧ t.kind ≠ .symbol .comma ∧ t.constant? = none := by
  obtain ⟨kind, payload, l⟩ := t
  cases kind with
  | symbol s => cases s <;> first | exact ⟨rfl, rfl, rfl, by simp, rfl⟩ | cases h
  | keyword k => cases k <;> first | exact ⟨rfl, rfl, rfl, by simp, rfl⟩ | cases h
  | _ => cases h

theorem behind_close (ht : t.kind = .symbol group.close) (hc : c = .operand ∨ c = .other) :
    c.behind t ts = .operand := by
  rcases hc with rfl | rfl <;> cases group <;>
    simp [Context.behind, ht, Group.close, TokenKind.endsOperand]

/-! ### Moves -/

section

attribute [local simp] Goal.enters Goal.leaves Goal.rests Goal.isAssigned Event.isConstant
  Context.behind TokenKind.endsOperand

/-- The goals that a move may leave on top of the others suit the context. -/
def Move.Suits (c : Context) (t : Token) (ts : List Token) (goals : List Goal) : Move → Prop
  | reduce _ gs => ScriptCheck.Suits c (gs ++ goals)
  | shift _ gs => ScriptCheck.Suits (c.behind t ts) (gs ++ goals)
  | look _ yes no => ScriptCheck.Suits c (yes ++ goals) ∧ ScriptCheck.Suits c (no ++ goals)
  | refuse _ => True

attribute [local simp] Move.Suits

theorem suits_demand {k : TokenKind} (h : t.kind = k → Suits (c.behind t ts) (gs ++ goals)) :
    (Goal.demand k t gs).Suits c t ts goals := by
  unfold Goal.demand
  split
  · exact h ‹_›
  · trivial

theorem suits_tail (hg : Tail g o more) (h : Suits c (g :: goals)) :
    (g.step t).Suits c t ts goals := by
  obtain ⟨hc, hr, -, hl⟩ := h
  obtain rfl : c = .operand := by cases hg <;> exact hc
  have hgoals : Suits .operand goals := by cases hg <;> exact hl _ rfl
  rw [hg.step_eq]
  split
  · obtain ⟨-, hbehind, -⟩ := of_operand? ‹_› ts
    cases hg <;> simp [Goal.operator, hbehind, hr, hgoals, -Context.behind]
  · exact hgoals

theorem suits_enter {k : StatementKind} {parts : List Goal}
    (h : Suits (c.behind t ts) (parts ++ .report (.exit k) :: goals)) :
    (Goal.enter k t parts).Suits c t ts goals := by
  simpa [Goal.enter, -Context.behind] using h

theorem suits_stepStatement (hr : Resting goals) (hoperand : Suits .operand goals)
    (hother : Suits .other goals) : (Goal.stepStatement t).Suits .other t ts goals := by
  unfold Goal.stepStatement
  split
  · constructor <;> simp [Goal.framed, hr, hoperand]
  all_goals try trivial
  all_goals
    apply suits_enter
    simp [*]

theorem suits_stepFactor (hc : c = .sign ∨ c = .other) (hr : Resting goals)
    (hgoals : Suits .operand goals) : (Goal.stepFactor t).Suits c t ts goals := by
  unfold Goal.stepFactor
  split
  all_goals try trivial
  all_goals rcases hc with rfl | rfl <;> simp [*]

theorem suits_stepSigns {l : Location} {negative : Bool} (hc : c = .sign ∨ c = .other)
    (hr : Resting goals) (hgoals : Suits .operand goals) :
    (Goal.stepSigns l negative t).Suits c t ts goals := by
  unfold Goal.stepSigns
  split
  · rcases hc with rfl | rfl <;> simp [*]
  · rcases hc with rfl | rfl <;> simp [*]
  · cases negative <;> simp [*]

theorem suits_parameters {h : Header} (hr : Resting goals) (hgoals : Suits .other goals)
    (hg : g = .firstParameter h ∨ g = .parameter h ∨ g = .refParameter h ∨ g = .moreParameters h) :
    (g.step t).Suits .header t ts goals := by
  rcases hg with rfl | rfl | rfl | rfl
  all_goals
    simp only [Goal.step, Goal.stepParameter, Goal.stepMoreParameters, Goal.demand]
    (repeat' split) <;> simp [Header.event, *]

/-- A move leaves goals that suit the context behind it. -/
theorem suits_step (h : Suits c (g :: goals)) (hready : g.Ready c (t :: ts)) :
    (g.step t).Suits c t ts goals := by
  have hgoals := h
  obtain ⟨hc, hr, -, hl⟩ := h
  cases g with
  | report => exact hl c rfl
  | endOfProgram =>
    simp only [Goal.step]
    split
    · exact hl c rfl
    · trivial
  | symbol s =>
    obtain ⟨hc, hs⟩ := hc
    refine suits_demand fun ht => hl _ ?_
    rcases hc with rfl | rfl <;> rcases hs with rfl | rfl | rfl <;> simp [ht]
  | keyword k =>
    obtain ⟨hc, hk⟩ := hc
    refine suits_demand fun ht => hl _ ?_
    rcases hc with rfl | rfl <;> rcases hk with rfl | rfl | rfl | rfl <;> simp [ht]
  | statements =>
    obtain rfl : c = .other := hc
    have hother := hl _ (.inr rfl)
    simp only [Goal.step]
    split
    · exact hother
    · simp [hr, hl _ (.inl rfl), hother]
  | moreStatements =>
    have hother := hl _ (.inr rfl)
    simp only [Goal.step]
    split
    · rcases hc with rfl | rfl <;> simp [hl _ (.inl rfl), *]
    · exact hl c hc
  | statement =>
    obtain rfl : c = .other := hc
    exact suits_stepStatement hr (hl _ (.inl rfl)) (hl _ (.inr rfl))
  | assignment =>
    obtain rfl : c = .other := hc
    refine suits_demand fun ht => ?_
    simp [ht, hr, hl _ rfl]
  | elseBranch =>
    simp only [Goal.step]
    split
    · rcases hc with rfl | rfl <;> simp [hl _ rfl, *]
    · rcases hc with rfl | rfl <;> simp [hr, hl _ rfl]
  | loopVariable =>
    obtain rfl : c = .other := hc
    refine suits_demand fun ht => ?_
    simp [ht, hr, hl _ rfl]
  | direction =>
    obtain rfl : c = .operand := hc
    simp only [Goal.step]
    split
    · rename_i ht
      rcases ht with ht | ht <;> simp [ht, hl _ rfl]
    · trivial
  | target name l | reference name l =>
    obtain rfl : c = .operand := hc
    simp only [Goal.step, Goal.stepTarget, Goal.stepReference]
    split <;> simp [hl _ rfl, *]
  | functionName l =>
    obtain rfl : c = .name := hc
    refine suits_demand fun ht => ?_
    dsimp only [Context.behind]
    split <;> simp [hr, hl _ rfl]
  | functionHead =>
    have hother := hl _ rfl
    simp only [Goal.step, Goal.Ready] at hready ⊢
    split <;> simp_all
  | firstParameter h | parameter h | refParameter h | moreParameters h =>
    obtain rfl : c = .header := hc
    exact suits_parameters (h := h) hr (hl _ rfl) (by simp)
  | relationTail => exact suits_tail .relation hgoals
  | sumTail => exact suits_tail .sum hgoals
  | productTail => exact suits_tail .product hgoals
  | powerTail => exact suits_tail .power hgoals
  | expression | sum | product | power =>
    obtain rfl : c = .other := hc
    simp [Goal.step, hr, hl _ rfl]
  | signs => exact suits_stepSigns hc hr (hl _ rfl)
  | factor => exact suits_stepFactor hc hr (hl _ rfl)
  | firstItem =>
    obtain rfl : c = .other := hc
    simp only [Goal.step]
    split
    · simp [behind_close ‹_›, hl _ rfl, hr, -Context.behind, -Event.isConstant]
    · simp [hr, hl _ rfl]
  | moreItems =>
    obtain rfl : c = .operand := hc
    simp only [Goal.step, Goal.stepItems]
    split
    · simp [hl _ rfl, *]
    · refine suits_demand fun ht => ?_
      simp [behind_close ht, hl _ rfl, hr, -Context.behind, -Event.isConstant]

end

/-- The goal that a move puts on top is ready. -/
def Move.Readies (c : Context) (t : Token) (ts : List Token) : Move → Prop
  | reduce _ gs => ∀ g ∈ gs.head?, g.Ready c (t :: ts)
  | shift _ gs => ∀ g ∈ gs.head?, g.Ready (c.behind t ts) ts
  | look _ yes no =>
    (∀ g ∈ yes.head?, g.Ready c (t :: ts)) ∧ ∀ g ∈ no.head?, g.Ready c (t :: ts)
  | refuse _ => True

theorem readies_step (hc : g.enters c) : (g.step t).Readies c t ts := by
  cases g with
  | power => simp [Goal.step, Move.Readies, Goal.Ready]
  | functionName =>
    obtain rfl : c = .name := hc
    simp only [Goal.step, Goal.demand]
    split <;> simp [Move.Readies, Goal.Ready, Context.behind]
  | signs =>
    simp only [Goal.step, Goal.stepSigns]
    split
    all_goals rcases hc with rfl | rfl <;> simp [Move.Readies, Goal.Ready, Context.behind, *]
  | _ =>
    -- nothing need be known of the goals that the others leave on top
    simp only [Goal.step, Goal.demand, Goal.operator, Goal.stepStatement, Goal.stepTarget,
      Goal.stepFactor, Goal.stepReference, Goal.stepItems, Goal.stepParameter,
      Goal.stepMoreParameters, Goal.enter, Goal.framed]
    (repeat' split) <;> simp [Move.Readies, Goal.Ready]

/-! ### Stacks -/

/-- The goals suit the context of the tokens in front of them, and the one on top is ready. -/
structure Stands (c : Context) (ts : List Token) (goals : List Goal) : Prop where
  suits : Suits c goals
  ready : ∀ g ∈ goals.head?, g.Ready c ts

namespace Stands

theorem enters (h : Stands c ts (g :: goals)) : g.enters c := h.suits.1

theorem resting (h : Stands c ts (g :: goals)) : Resting goals := h.suits.2.1

theorem top (h : Stands c ts (g :: goals)) : g.Ready c ts := h.ready g rfl

/-- The goal that reads a name which a value is assigned to lies on top of one that asks for the
sign. -/
theorem exists_assign (h : Stands c ts (g :: goals)) (hg : g.isAssigned) :
    ∃ gs, goals = .symbol .assign :: gs :=
  h.suits.2.2.1 hg

/-- A goal is ready that has waited. -/
theorem of_ready (hs : Suits c (gs ++ goals)) (hr : Resting goals)
    (hgs : ∀ g ∈ gs.head?, g.Ready c ts) : Stands c ts (gs ++ goals) := by
  refine ⟨hs, ?_⟩
  cases gs with
  | nil =>
    intro g hg
    exact .of_rests (hr g (List.mem_of_mem_head? hg))
  | cons g gs => exact hgs

theorem reduce (h : Stands c (t :: ts) (g :: goals)) (hg : g.step t = .reduce es gs) :
    Stands c (t :: ts) (gs ++ goals) := by
  have hsuits := suits_step h.suits h.top
  have hready : (g.step t).Readies c t ts := readies_step h.enters
  rw [hg] at hsuits hready
  exact of_ready hsuits h.resting hready

theorem shift (h : Stands c (t :: ts) (g :: goals)) (hg : g.step t = .shift es gs) :
    Stands (c.behind t ts) ts (gs ++ goals) := by
  have hsuits := suits_step h.suits h.top
  have hready : (g.step t).Readies c t ts := readies_step h.enters
  rw [hg] at hsuits hready
  exact of_ready hsuits h.resting hready

theorem look {k : TokenKind} {yes no : List Goal} (h : Stands c (t :: ts) (g :: goals))
    (hg : g.step t = .look k yes no) :
    Stands c (t :: ts) (yes ++ goals) ∧ Stands c (t :: ts) (no ++ goals) := by
  have hsuits := suits_step h.suits h.top
  have hready : (g.step t).Readies c t ts := readies_step h.enters
  rw [hg] at hsuits hready
  exact ⟨of_ready hsuits.1 h.resting hready.1, of_ready hsuits.2 h.resting hready.2⟩

end Stands

theorem stands_program (ts : List Token) : Stands .other ts program := by
  constructor
  · simp [program, Goal.enters, Goal.leaves, Goal.rests, Goal.isAssigned]
  · intro g hg
    obtain rfl : Goal.statements = g := by simpa [program] using hg
    trivial

end ScriptCheck
