import ScriptCheck.Proofs.Grammar.Generates

/-!
# Stacks of goals

The grammar is ambiguous: behind `not a` an operator may belong to `a` or stand outside. The
recognizer hands it to the innermost goal that takes it. Nothing is lost by that, because what lies
below an expression on the stack is no arbitrary list of goals: tails of outer operators, and then
something that begins with no operator. An operator that an outer tail would take can as well be
taken further in.
-/

namespace ScriptCheck

variable {g : Goal} {goals gs yes no : List Goal} {a k : TokenKind} {t : Token}
  {w : List TokenKind}

/-! ### Classes of tokens -/

namespace TokenKind

def startsFactor : TokenKind → Bool
  | integer | real | string | identifier => true
  | keyword .kwTrue | keyword .kwFalse | keyword .kwNot => true
  | symbol .leftParen | symbol .leftBrace => true
  | _ => false

theorem ne_sign_of_startsFactor {k : TokenKind} (h : k.startsFactor) :
    k ≠ symbol .plus ∧ k ≠ symbol .minus := by
  constructor
  · rintro rfl
    cases h
  · rintro rfl
    cases h

def startsExpression : TokenKind → Bool
  | symbol .plus | symbol .minus => true
  | k => k.startsFactor

def startsStatement : TokenKind → Bool
  | identifier => true
  | keyword .kwIf | keyword .kwFor | keyword .kwWhile | keyword .kwRepeat | keyword .kwReturn
  | keyword .kwBreak | keyword .kwFunction | keyword .kwPrint | keyword .kwPrintln => true
  | _ => false

/-- The tokens in front of which an expression ends. -/
def endsExpression : TokenKind → Bool
  | symbol .semicolon | symbol .comma | symbol .rightParen | symbol .rightBracket
  | symbol .rightBrace => true
  | keyword .kwThen | keyword .kwDo | keyword .kwTo | keyword .kwDownto => true
  | k => k.endsStatements

/-- The goal that reads the right operand of an operator. -/
def operand? : TokenKind → Option Goal
  | symbol .less | symbol .lessEq | symbol .greater | symbol .greaterEq | symbol .equal
  | symbol .notEqual => some .expression
  | symbol .plus | symbol .minus | keyword .kwOr | keyword .kwXor => some .product
  | symbol .times | symbol .divide | keyword .kwAnd | keyword .kwMod | keyword .kwDiv =>
    some .power
  | symbol .power => some .factor
  | _ => none

theorem isRelation_iff : a.isRelation ↔ a.operand? = some .expression := by
  cases a with
  | symbol s => cases s <;> decide
  | keyword k => cases k <;> decide
  | _ => decide

theorem isAdditive_iff : a.isAdditive ↔ a.operand? = some .product := by
  cases a with
  | symbol s => cases s <;> decide
  | keyword k => cases k <;> decide
  | _ => decide

theorem isMultiplicative_iff : a.isMultiplicative ↔ a.operand? = some .power := by
  cases a with
  | symbol s => cases s <;> decide
  | keyword k => cases k <;> decide
  | _ => decide

theorem eq_power_iff : a = .symbol .power ↔ a.operand? = some .factor := by
  cases a with
  | symbol s => cases s <;> decide
  | keyword k => cases k <;> decide
  | _ => decide

theorem endsExpression_of_endsStatements (h : a.endsStatements) : a.endsExpression := by
  unfold endsExpression
  split <;> first | rfl | exact h

theorem not_endsStatements_of_startsStatement (h : a.startsStatement) : ¬ a.endsStatements := by
  unfold startsStatement at h
  split at h <;> simp_all [endsStatements]

theorem operand?_of_endsExpression (h : a.endsExpression) : a.operand? = none := by
  cases a with
  | symbol s => cases s <;> first | rfl | cases h
  | keyword k => cases k <;> first | rfl | cases h
  | _ => rfl

theorem startsExpression_of_endsExpression (h : a.endsExpression) :
    a.startsExpression = false := by
  cases a with
  | symbol s => cases s <;> first | rfl | cases h
  | keyword k => cases k <;> first | rfl | cases h
  | _ => first | rfl | cases h

end TokenKind

/-! ### Tails -/

/-- A goal that reads operators, each with an operand `o` behind it and then `more`. -/
inductive Tail : Goal → Goal → List Goal → Prop
  | relation : Tail .relationTail .expression []
  | sum : Tail .sumTail .product [.sumTail]
  | product : Tail .productTail .power [.productTail]
  | power : Tail .powerTail .factor []

namespace Tail

variable {o : Goal} {more : List Goal}

theorem step_eq (h : Tail g o more) :
    g.step t = if t.kind.operand? = some o then Goal.operator t o more else .reduce [] [] := by
  cases h <;> simp only [Goal.step, ← TokenKind.isRelation_iff, ← TokenKind.isAdditive_iff,
    ← TokenKind.isMultiplicative_iff, ← TokenKind.eq_power_iff]

theorem generates_iff (h : Tail g o more) :
    Generates (g :: goals) w ↔
      Generates goals w ∨
        ∃ a v, w = a :: v ∧ a.operand? = some o ∧ Generates (o :: (more ++ goals)) v := by
  cases h <;> simp only [← TokenKind.isRelation_iff, ← TokenKind.isAdditive_iff,
    ← TokenKind.isMultiplicative_iff, ← TokenKind.eq_power_iff]
  · exact generates_relationTail
  · exact generates_sumTail
  · exact generates_productTail
  · simp [generates_powerTail]

theorem skip (h : Tail g o more) (hw : Generates goals w) : Generates (g :: goals) w :=
  h.generates_iff.2 (.inl hw)

theorem skip_more (h : Tail g o more) (hw : Generates goals w) : Generates (more ++ goals) w := by
  cases h with
  | relation | power => exact hw
  | sum => exact Tail.sum.skip hw
  | product => exact Tail.product.skip hw

/-- Behind an operand there may be as much as before it. -/
theorem again (h : Tail g o more) (hw : Generates (more ++ goals) w) :
    Generates (g :: goals) w := by
  cases h with
  | relation => exact Tail.relation.skip hw
  | sum | product => exact hw
  | power => exact Tail.power.skip hw

end Tail

/-! ### What lies below a goal -/

/-- Goals that may lie below a list of statements. -/
inductive AfterStatements : List Goal → Prop
  | endOfProgram : AfterStatements [.endOfProgram]
  | kwEnd (goals : List Goal) : AfterStatements (.keyword .kwEnd :: goals)
  | kwUntil (goals : List Goal) : AfterStatements (.keyword .kwUntil :: goals)
  | elseBranch (goals : List Goal) : AfterStatements (.elseBranch :: goals)

/-- Goals that may lie below a whole expression. -/
inductive AfterWhole : List Goal → Prop
  | moreStatements {goals : List Goal} (h : AfterStatements goals) :
      AfterWhole (.moreStatements :: goals)
  | kwThen (goals : List Goal) : AfterWhole (.keyword .kwThen :: goals)
  | kwDo (goals : List Goal) : AfterWhole (.keyword .kwDo :: goals)
  | rightParen (goals : List Goal) : AfterWhole (.symbol .rightParen :: goals)
  | direction (goals : List Goal) : AfterWhole (.direction :: goals)
  | moreItems (n : Nat) (g : Group) (goals : List Goal) : AfterWhole (.moreItems n g :: goals)

/-- Goals that may lie below a part of an expression. -/
inductive AfterExpression : List Goal → Prop
  | whole {goals : List Goal} (h : AfterWhole goals) : AfterExpression goals
  | report {goals : List Goal} (e : Event) (h : AfterExpression goals) :
      AfterExpression (.report e :: goals)
  | tail {g o : Goal} {more goals : List Goal} (hg : Tail g o more) (h : AfterExpression goals) :
      AfterExpression (g :: goals)

attribute [simp] AfterStatements.endOfProgram AfterStatements.kwEnd AfterStatements.kwUntil
  AfterStatements.elseBranch

attribute [simp] AfterWhole.moreStatements AfterWhole.kwThen AfterWhole.kwDo AfterWhole.rightParen
  AfterWhole.direction AfterWhole.moreItems

attribute [simp] AfterExpression.whole AfterExpression.report

@[simp] theorem AfterExpression.relationTail (h : AfterExpression goals) :
    AfterExpression (.relationTail :: goals) :=
  .tail .relation h

@[simp] theorem AfterExpression.sumTail (h : AfterExpression goals) :
    AfterExpression (.sumTail :: goals) :=
  .tail .sum h

@[simp] theorem AfterExpression.productTail (h : AfterExpression goals) :
    AfterExpression (.productTail :: goals) :=
  .tail .product h

@[simp] theorem AfterExpression.powerTail (h : AfterExpression goals) :
    AfterExpression (.powerTail :: goals) :=
  .tail .power h

/-- The goals may lie below the goal. No operator is ever asked for by name. -/
def Goal.Fits (goals : List Goal) : Goal → Prop
  | symbol s => (TokenKind.symbol s).operand? = none
  | keyword k => (TokenKind.keyword k).operand? = none
  | statements | moreStatements => AfterStatements goals
  | statement | assignment => AfterExpression goals
  | expression | relationTail | sum | sumTail | product | productTail => AfterExpression goals
  | power | signs .. | powerTail | factor | reference .. => AfterExpression goals
  | target .. => ∃ gs, goals = symbol .assign :: gs
  | functionName _ | functionHead _ => ∃ gs, goals = statements :: gs
  | endOfProgram => goals = []
  | _ => True

/-- Each goal of the stack fits on those below. -/
def WellFormed : List Goal → Prop
  | [] => True
  | g :: goals => g.Fits goals ∧ WellFormed goals

@[simp] theorem wellFormed_nil : WellFormed [] :=
  trivial

@[simp] theorem wellFormed_cons : WellFormed (g :: goals) ↔ g.Fits goals ∧ WellFormed goals :=
  Iff.rfl

/-! ### Moves keep stacks well formed -/

/-- The goals that a move may leave on top of the others fit on them. -/
def Move.Fits (goals : List Goal) : Move → Prop
  | .reduce _ gs | .shift _ gs => WellFormed (gs ++ goals)
  | .look _ yes no => WellFormed (yes ++ goals) ∧ WellFormed (no ++ goals)
  | .refuse _ => True

theorem fits_step (h : WellFormed (g :: goals)) : (g.step t).Fits goals := by
  obtain ⟨hg, hs⟩ := h
  cases g <;> simp only [Goal.step, Goal.demand, Goal.operator, Goal.stepStatement,
    Goal.stepTarget, Goal.stepFactor, Goal.stepReference, Goal.stepSigns, Goal.stepItems,
    Goal.stepParameter, Goal.stepMoreParameters, Goal.enter, Goal.framed]
  all_goals (repeat' split)
  all_goals
    simp only [Goal.Fits] at hg
    simp [Move.Fits, Goal.Fits, TokenKind.operand?, hs, hg]

/-! ### First tokens -/

theorem startsFactor_of_generates (h : Generates (.factor :: goals) w) :
    (w.headD .eof).startsFactor := by
  rcases (generates_factor "" .start .start).1 h with
    ⟨a, v, rfl, ha, -⟩ | ⟨v, rfl, -⟩ | ⟨v, rfl, -⟩ | ⟨v, rfl, -⟩ | ⟨v, rfl, -⟩
  · simp only [constants, List.mem_cons, List.not_mem_nil, or_false] at ha
    rcases ha with rfl | rfl | rfl | rfl | rfl <;> rfl
  all_goals rfl

theorem startsExpression_of_signs {l : Location} {b : Bool}
    (h : Generates (.signs l b :: goals) w) : (w.headD .eof).startsExpression := by
  rcases (generates_signs .start false false).1 h with (h | ⟨v, rfl, -⟩) | ⟨v, rfl, -⟩
  · have h := startsFactor_of_generates h
    unfold TokenKind.startsExpression
    split <;> first | rfl | exact h
  all_goals rfl

theorem startsExpression_of_generates (h : Generates (.expression :: goals) w) :
    (w.headD .eof).startsExpression := by
  rw [generates_expression, generates_sum, generates_product, generates_power .start false] at h
  exact startsExpression_of_signs h

theorem startsStatement_of_generates (h : Generates (.statement :: goals) w) :
    (w.headD .eof).startsStatement := by
  rcases (generates_statement "" .start).1 h with h | ⟨v, rfl, -⟩ | ⟨v, rfl, -⟩ | ⟨v, rfl, -⟩ |
    ⟨v, rfl, -⟩ | ⟨v, rfl, -⟩ | ⟨v, rfl, -⟩ | ⟨v, rfl, -⟩ | ⟨v, rfl, -⟩ | ⟨a, v, rfl, rfl | rfl, -⟩
  · obtain ⟨v, rfl, -⟩ := (generates_assignment "" .start).1 h
    rfl
  all_goals rfl

theorem headD_of_generates_symbol {s : Symbol} (h : Generates (.symbol s :: goals) w) :
    w.headD .eof = .symbol s := by
  obtain ⟨v, rfl, -⟩ := generates_symbol.1 h
  rfl

theorem headD_of_generates_keyword {k : Keyword} (h : Generates (.keyword k :: goals) w) :
    w.headD .eof = .keyword k := by
  obtain ⟨v, rfl, -⟩ := generates_keyword.1 h
  rfl

theorem AfterStatements.endsStatements (h : AfterStatements goals) (hw : Generates goals w) :
    (w.headD .eof).endsStatements := by
  cases h with
  | endOfProgram =>
    obtain rfl : w = [] := by simpa using hw
    rfl
  | kwEnd goals | kwUntil goals =>
    rw [headD_of_generates_keyword hw]
    rfl
  | elseBranch goals =>
    rcases generates_elseBranch.1 hw with hw | ⟨v, rfl, -⟩
    · rw [headD_of_generates_keyword hw]
      rfl
    · rfl

theorem AfterWhole.endsExpression (h : AfterWhole goals) (hw : Generates goals w) :
    (w.headD .eof).endsExpression := by
  cases h with
  | moreStatements h =>
    rcases generates_moreStatements.1 hw with hw | ⟨v, rfl, -⟩
    · exact TokenKind.endsExpression_of_endsStatements (h.endsStatements hw)
    · rfl
  | kwThen | kwDo =>
    rw [headD_of_generates_keyword hw]
    rfl
  | rightParen =>
    rw [headD_of_generates_symbol hw]
    rfl
  | direction =>
    obtain ⟨a, v, rfl, rfl | rfl, -⟩ := generates_direction.1 hw <;> rfl
  | moreItems n g goals =>
    rcases (generates_moreItems n).1 hw with hw | ⟨v, rfl, -⟩
    · rw [headD_of_generates_symbol hw]
      cases g <;> rfl
    · rfl

/-! Tokens that a goal does not begin with, so that a look at the token is enough -/

theorem AfterStatements.ne_semicolon (h : AfterStatements goals) (hw : Generates goals w) :
    w.headD .eof ≠ .symbol .semicolon := by
  intro ha
  cases ha ▸ h.endsStatements hw

theorem AfterStatements.ne_leftParen (h : AfterStatements goals)
    (hw : Generates (.statements :: goals) w) : w.headD .eof ≠ .symbol .leftParen := by
  intro ha
  rcases generates_statements.1 hw with hw | hw
  · cases ha ▸ h.endsStatements hw
  · cases ha ▸ startsStatement_of_generates hw

theorem ne_rightParen_of_parameter {h : Header} (hw : Generates (.parameter h :: goals) w) :
    w.headD .eof ≠ .symbol .rightParen := by
  rcases (generates_parameter h).1 hw with ⟨v, rfl, -⟩ | ⟨v, rfl, -⟩ <;> simp

theorem ne_close_of_expression (g : Group) (hw : Generates (.expression :: goals) w) :
    w.headD .eof ≠ .symbol g.close := by
  intro ha
  have := startsExpression_of_generates hw
  rw [ha] at this
  cases g <;> cases this

theorem ne_sign_of_factor (hw : Generates (.factor :: goals) w) :
    w.headD .eof ≠ .symbol .plus ∧ w.headD .eof ≠ .symbol .minus :=
  TokenKind.ne_sign_of_startsFactor (startsFactor_of_generates hw)

namespace AfterExpression

/-- Behind an expression stands an operator that an outer goal takes, or the expression ends. -/
theorem endsExpression_or_operand (h : AfterExpression goals) (hw : Generates goals w) :
    (w.headD .eof).endsExpression ∨ ∃ g, (w.headD .eof).operand? = some g := by
  induction h generalizing w with
  | whole h => exact .inl (h.endsExpression hw)
  | report e h ih => exact ih hw
  | tail hg h ih =>
    rcases hg.generates_iff.1 hw with hw | ⟨a, v, rfl, ha, -⟩
    · exact ih hw
    · exact .inr ⟨_, ha⟩

/-- No bracket stands behind an expression. -/
theorem not_opens (h : AfterExpression goals) (hw : Generates goals w) :
    w.headD .eof ≠ .symbol .leftBracket ∧ w.headD .eof ≠ .symbol .leftParen := by
  have := h.endsExpression_or_operand hw
  constructor <;>
  · intro ha
    rw [ha] at this
    obtain h | ⟨g, h⟩ := this <;> cases h

/-- An operator that a goal further down takes can be followed by its operand here. -/
theorem exchange (h : AfterExpression goals) (ha : a.operand? = some g)
    (hw : Generates goals (a :: w)) : Generates (g :: goals) w := by
  induction h generalizing w with
  | whole h =>
    have := TokenKind.operand?_of_endsExpression (h.endsExpression hw)
    simp [ha] at this
  | report e h ih => exact ih hw
  | @tail g' o more goals hg h ih =>
    rcases hg.generates_iff.1 hw with hw | ⟨b, v, he, hb, hw⟩
    · exact (ih hw).mono fun v hv => hg.skip hv
    · obtain ⟨rfl, rfl⟩ := List.cons.inj he
      obtain rfl : g = o := by simpa [ha] using hb
      exact hw.mono fun v hv => hg.again hv

end AfterExpression

end ScriptCheck
