import ScriptCheck.Proofs.Grammar.Phrase

/-!
# What goals stand for

A goal stands for phrases of the grammar, and a stack of goals for all of them one behind the other.
Whatever move a goal makes, what comes out of it derives no more than the goal did: words that are
read are words of the grammar.
-/

namespace ScriptCheck

open Phrase

/-- The grammar that the recognizer goes by. -/
def grammar : Nonterminal → Phrase :=
  production separatedList

namespace Goal

/-- The phrases that a goal has still to read. -/
def phrases : Goal → List Phrase
  | report _ | endOfProgram => []
  | symbol s => [.symbol s]
  | keyword k => [.keyword k]
  | statements => [part .statementList]
  | moreStatements =>
    [many (sequence [.symbol .semicolon, part .statement]), optional (.symbol .semicolon)]
  | statement => [part .statement]
  | assignment => [part .assignment]
  | target _ _ =>
    [optional (sequence [.symbol .leftBracket, part .exprList, .symbol .rightBracket])]
  | elseBranch =>
    [choice [.keyword .kwEnd, sequence [.keyword .kwElse, part .statementList, .keyword .kwEnd]]]
  | loopVariable => [token .identifier]
  | direction => [choice [.keyword .kwTo, .keyword .kwDownto]]
  | functionName _ =>
    [token .identifier,
      optional (sequence [.symbol .leftParen, optional (part .argList), .symbol .rightParen])]
  | functionHead _ =>
    [optional (sequence [.symbol .leftParen, optional (part .argList), .symbol .rightParen])]
  | firstParameter _ => [optional (part .argList), .symbol .rightParen]
  | parameter _ => [part .arg, many (sequence [.symbol .comma, part .arg]), .symbol .rightParen]
  | refParameter _ =>
    [token .identifier, many (sequence [.symbol .comma, part .arg]), .symbol .rightParen]
  | moreParameters _ => [many (sequence [.symbol .comma, part .arg]), .symbol .rightParen]
  | expression => [part .expression]
  | relationTail => [optional (sequence [relOp, part .expression])]
  | sum => [part .simpleExpr]
  | sumTail => [many (sequence [addOp, part .term])]
  | product => [part .term]
  | productTail => [many (sequence [mulOp, part .power])]
  | power => [part .power]
  | signs _ _ =>
    [many (choice [.symbol .plus, .symbol .minus]), part .factor,
      optional (sequence [.symbol .power, part .factor])]
  | powerTail => [optional (sequence [.symbol .power, part .factor])]
  | factor => [part .factor]
  | reference _ _ =>
    [optional (choice [sequence [.symbol .leftBracket, part .exprList, .symbol .rightBracket],
      sequence [.symbol .leftParen, optional (part .exprList), .symbol .rightParen]])]
  | firstItem g => [optional (part .exprList), .symbol g.close]
  | moreItems _ g => [many (sequence [.symbol .comma, part .expression]), .symbol g.close]

end Goal

/-- A stack of goals may read a word. -/
def Generates (goals : List Goal) (w : List TokenKind) : Prop :=
  DerivesAll grammar (goals.flatMap Goal.phrases) w

variable {g : Goal} {goals goals' : List Goal} {ps : List Phrase} {k a : TokenKind}
  {w : List TokenKind}

@[simp] theorem generates_nil : Generates [] w ↔ w = [] :=
  derivesAll_nil

theorem generates_cons :
    Generates (g :: goals) w ↔ DerivesAll grammar (g.phrases ++ goals.flatMap Goal.phrases) w :=
  Iff.rfl

/-- What lies below a goal may be exchanged for something that may read more. -/
theorem Generates.mono (h : Generates (g :: goals) w)
    (hg : ∀ v, Generates goals v → Generates goals' v) : Generates (g :: goals') w := by
  rw [generates_cons] at h ⊢
  exact DerivesAll.mono h hg

theorem derivesAll_production {n : Nonterminal} :
    DerivesAll grammar (.part n :: ps) w ↔
      DerivesAll grammar (production separatedList n :: ps) w :=
  derivesAll_part

/-! ### Operators and lists -/

theorem derivesAll_relOp :
    DerivesAll grammar (relOp :: ps) w ↔
      ∃ a v, w = a :: v ∧ a.isRelation ∧ DerivesAll grammar ps v := by
  cases w with
  | nil => simp [relOp]
  | cons a w =>
    rcases a with _ | _ | _ | _ | _ | s | k <;> simp [relOp, TokenKind.isRelation]
    cases s <;> simp

theorem derivesAll_addOp :
    DerivesAll grammar (addOp :: ps) w ↔
      ∃ a v, w = a :: v ∧ a.isAdditive ∧ DerivesAll grammar ps v := by
  cases w with
  | nil => simp [addOp]
  | cons a w =>
    rcases a with _ | _ | _ | _ | _ | s | k <;> simp [addOp, TokenKind.isAdditive]
    · cases s <;> simp
    · cases k <;> simp

theorem derivesAll_mulOp :
    DerivesAll grammar (mulOp :: ps) w ↔
      ∃ a v, w = a :: v ∧ a.isMultiplicative ∧ DerivesAll grammar ps v := by
  cases w with
  | nil => simp [mulOp]
  | cons a w =>
    rcases a with _ | _ | _ | _ | _ | s | k <;> simp [mulOp, TokenKind.isMultiplicative]
    · cases s <;> simp
    · cases k <;> simp

@[simp] theorem derivesAll_exprList :
    DerivesAll grammar (part .exprList :: ps) w ↔
      DerivesAll grammar
        (part .expression :: many (sequence [.symbol .comma, part .expression]) :: ps) w := by
  simp [derivesAll_production, production, commaList]

@[simp] theorem derivesAll_argList :
    DerivesAll grammar (part .argList :: ps) w ↔
      DerivesAll grammar (part .arg :: many (sequence [.symbol .comma, part .arg]) :: ps) w := by
  simp [derivesAll_production, production, commaList]

/-! ### Productions of goals -/

/-- The tokens that are factors by themselves. -/
def constants : List TokenKind :=
  [.integer, .real, .string, .keyword .kwTrue, .keyword .kwFalse]

section

variable {e : Event} {s : Symbol} {kw : Keyword} {name : String} {l : Location} {b : Bool}
  {h : Header} {g' : Group} {n : Nat}

@[simp] theorem generates_report : Generates (.report e :: goals) w ↔ Generates goals w :=
  Iff.rfl

@[simp] theorem generates_cons_report :
    Generates (g :: .report e :: goals) w ↔ Generates (g :: goals) w :=
  Iff.rfl

@[simp] theorem generates_endOfProgram :
    Generates (.endOfProgram :: goals) w ↔ Generates goals w :=
  Iff.rfl

theorem generates_symbol :
    Generates (.symbol s :: goals) w ↔ ∃ v, w = .symbol s :: v ∧ Generates goals v :=
  derivesAll_symbol

theorem generates_keyword :
    Generates (.keyword kw :: goals) w ↔ ∃ v, w = .keyword kw :: v ∧ Generates goals v :=
  derivesAll_keyword

theorem generates_statements :
    Generates (.statements :: goals) w ↔
      Generates goals w ∨ Generates (.statement :: .moreStatements :: goals) w := by
  simp [Generates, Goal.phrases, derivesAll_production (n := .statementList), production,
    separatedList]

theorem generates_moreStatements :
    Generates (.moreStatements :: goals) w ↔
      Generates goals w ∨
        ∃ v, w = .symbol .semicolon :: v ∧ Generates (.statements :: goals) v := by
  simp only [generates_statements, and_or_left, exists_or]
  simp [Generates, Goal.phrases, derivesAll_many (p := sequence _), or_assoc]

theorem generates_elseBranch :
    Generates (.elseBranch :: goals) w ↔
      Generates (.keyword .kwEnd :: goals) w ∨ ∃ v, w = .keyword .kwElse :: v ∧
        Generates (.statements :: .keyword .kwEnd :: goals) v := by
  simp [Generates, Goal.phrases]

theorem generates_loopVariable :
    Generates (.loopVariable :: goals) w ↔ ∃ v, w = .identifier :: v ∧ Generates goals v :=
  derivesAll_token

theorem generates_direction :
    Generates (.direction :: goals) w ↔
      ∃ a v, w = a :: v ∧ (a = .keyword .kwTo ∨ a = .keyword .kwDownto) ∧ Generates goals v := by
  cases w <;> simp [Generates, Goal.phrases, or_and_right]

theorem generates_assignment (name : String) (l : Location) :
    Generates (.assignment :: goals) w ↔ ∃ v, w = .identifier :: v ∧
      Generates (.target name l :: .symbol .assign :: .expression :: goals) v := by
  simp [Generates, Goal.phrases, derivesAll_production (n := .assignment), production]

theorem generates_target (n : Nat) (name' : String) (l' : Location) :
    Generates (.target name l :: goals) w ↔
      Generates goals w ∨ ∃ v, w = .symbol .leftBracket :: v ∧
        Generates (.expression :: .moreItems n (.index name' l') :: goals) v := by
  simp [Generates, Goal.phrases, Group.close]

theorem generates_functionName (h : Header) :
    Generates (.functionName l :: goals) w ↔
      ∃ v, w = .identifier :: v ∧ Generates (.functionHead h :: goals) v := by
  simp [Generates, Goal.phrases]

theorem generates_functionHead :
    Generates (.functionHead h :: goals) w ↔
      Generates goals w ∨
        ∃ v, w = .symbol .leftParen :: v ∧ Generates (.firstParameter h :: goals) v := by
  simp [Generates, Goal.phrases]

theorem generates_firstParameter :
    Generates (.firstParameter h :: goals) w ↔
      Generates (.symbol .rightParen :: goals) w ∨ Generates (.parameter h :: goals) w := by
  simp [Generates, Goal.phrases]

theorem generates_parameter (h' : Header) :
    Generates (.parameter h :: goals) w ↔
      (∃ v, w = .identifier :: v ∧ Generates (.moreParameters h' :: goals) v) ∨
        ∃ v, w = .keyword .kwRef :: v ∧ Generates (.refParameter h :: goals) v := by
  simp [Generates, Goal.phrases, derivesAll_production (n := .arg), production]

theorem generates_refParameter (h' : Header) :
    Generates (.refParameter h :: goals) w ↔
      ∃ v, w = .identifier :: v ∧ Generates (.moreParameters h' :: goals) v := by
  simp [Generates, Goal.phrases]

theorem generates_moreParameters :
    Generates (.moreParameters h :: goals) w ↔
      Generates (.symbol .rightParen :: goals) w ∨
        ∃ v, w = .symbol .comma :: v ∧ Generates (.parameter h :: goals) v := by
  simp [Generates, Goal.phrases, derivesAll_many (p := sequence _)]

theorem generates_expression :
    Generates (.expression :: goals) w ↔ Generates (.sum :: .relationTail :: goals) w := by
  simp [Generates, Goal.phrases, derivesAll_production (n := .expression), production]

theorem generates_relationTail :
    Generates (.relationTail :: goals) w ↔
      Generates goals w ∨
        ∃ a v, w = a :: v ∧ a.isRelation ∧ Generates (.expression :: goals) v := by
  simp [Generates, Goal.phrases, derivesAll_relOp]

theorem generates_sum :
    Generates (.sum :: goals) w ↔ Generates (.product :: .sumTail :: goals) w := by
  simp [Generates, Goal.phrases, derivesAll_production (n := .simpleExpr), production]

theorem generates_sumTail :
    Generates (.sumTail :: goals) w ↔
      Generates goals w ∨
        ∃ a v, w = a :: v ∧ a.isAdditive ∧ Generates (.product :: .sumTail :: goals) v := by
  simp [Generates, Goal.phrases, derivesAll_many (p := sequence _), derivesAll_addOp]

theorem generates_product :
    Generates (.product :: goals) w ↔ Generates (.power :: .productTail :: goals) w := by
  simp [Generates, Goal.phrases, derivesAll_production (n := .term), production]

theorem generates_productTail :
    Generates (.productTail :: goals) w ↔
      Generates goals w ∨
        ∃ a v, w = a :: v ∧ a.isMultiplicative ∧ Generates (.power :: .productTail :: goals) v := by
  simp [Generates, Goal.phrases, derivesAll_many (p := sequence _), derivesAll_mulOp]

theorem generates_power (l : Location) (b : Bool) :
    Generates (.power :: goals) w ↔ Generates (.signs l b :: goals) w := by
  simp [Generates, Goal.phrases, derivesAll_production (n := .power), production]

theorem generates_signs (l' : Location) (b₁ b₂ : Bool) :
    Generates (.signs l b :: goals) w ↔
      (Generates (.factor :: .powerTail :: goals) w ∨
        ∃ v, w = .symbol .minus :: v ∧ Generates (.signs l' b₁ :: goals) v) ∨
      ∃ v, w = .symbol .plus :: v ∧ Generates (.signs l' b₂ :: goals) v := by
  simp only [Generates, List.flatMap_cons, Goal.phrases, List.cons_append]
  rw [derivesAll_many, or_assoc, @or_comm (∃ v, w = .symbol .minus :: v ∧ _)]
  simp

theorem generates_powerTail :
    Generates (.powerTail :: goals) w ↔
      Generates goals w ∨
        ∃ v, w = .symbol .power :: v ∧ Generates (.factor :: goals) v := by
  simp [Generates, Goal.phrases]

theorem generates_factor (name : String) (l l' : Location) :
    Generates (.factor :: goals) w ↔
      (∃ a v, w = a :: v ∧ a ∈ constants ∧ Generates goals v) ∨
      (∃ v, w = .identifier :: v ∧ Generates (.reference name l :: goals) v) ∨
      (∃ v, w = .symbol .leftParen :: v ∧
        Generates (.expression :: .symbol .rightParen :: goals) v) ∨
      (∃ v, w = .keyword .kwNot :: v ∧ Generates (.expression :: goals) v) ∨
      ∃ v, w = .symbol .leftBrace :: v ∧ Generates (.firstItem (.list l') :: goals) v := by
  simp [Generates, Goal.phrases, derivesAll_production (n := .factor), production, constants,
    Group.close, or_and_right, and_or_left, exists_or, or_assoc]

theorem generates_reference (name' : String) (l' : Location) :
    Generates (.reference name l :: goals) w ↔
      Generates (.target name l :: goals) w ∨
        ∃ v, w = .symbol .leftParen :: v ∧ Generates (.firstItem (.call name' l') :: goals) v := by
  simp [Generates, Goal.phrases, Group.close, or_assoc]

theorem generates_firstItem (n : Nat) :
    Generates (.firstItem g' :: goals) w ↔
      Generates (.symbol g'.close :: goals) w ∨
        Generates (.expression :: .moreItems n g' :: goals) w := by
  simp [Generates, Goal.phrases]

theorem generates_moreItems (n' : Nat) :
    Generates (.moreItems n g' :: goals) w ↔
      Generates (.symbol g'.close :: goals) w ∨ ∃ v, w = .symbol .comma :: v ∧
        Generates (.expression :: .moreItems n' g' :: goals) v := by
  simp [Generates, Goal.phrases, derivesAll_many (p := sequence _)]

theorem generates_statement (name : String) (l : Location) :
    Generates (.statement :: goals) w ↔
      Generates (.assignment :: goals) w ∨
      (∃ v, w = .identifier :: .symbol .leftParen :: v ∧
        Generates (.firstItem (.call name l) :: goals) v) ∨
      (∃ v, w = .keyword .kwIf :: v ∧ Generates
        (.expression :: .keyword .kwThen :: .statements :: .elseBranch :: goals) v) ∨
      (∃ v, w = .keyword .kwFor :: v ∧ Generates
        (.loopVariable :: .symbol .assign :: .expression :: .direction :: .expression ::
          .keyword .kwDo :: .statements :: .keyword .kwEnd :: goals) v) ∨
      (∃ v, w = .keyword .kwWhile :: v ∧ Generates
        (.expression :: .keyword .kwDo :: .statements :: .keyword .kwEnd :: goals) v) ∨
      (∃ v, w = .keyword .kwRepeat :: v ∧ Generates
        (.statements :: .keyword .kwUntil :: .expression :: goals) v) ∨
      (∃ v, w = .keyword .kwReturn :: v ∧ Generates (.expression :: goals) v) ∨
      (∃ v, w = .keyword .kwBreak :: v ∧ Generates goals v) ∨
      (∃ v, w = .keyword .kwFunction :: v ∧ Generates
        (.functionName l :: .statements :: .keyword .kwEnd :: goals) v) ∨
      ∃ a v, w = a :: v ∧ (a = .keyword .kwPrint ∨ a = .keyword .kwPrintln) ∧ Generates
        (.symbol .leftParen :: .expression :: .symbol .rightParen :: goals) v := by
  simp [Generates, Goal.phrases, derivesAll_production, production, or_and_right, and_or_left,
    exists_or, or_assoc, Group.close]

end

end ScriptCheck
