import ScriptCheck.Proofs.Events.Context
import ScriptCheck.Proofs.Recognizer.Compose

/-!
# Events account for tokens

What the tokens of a program yield is what is reported of it, apart from where statements begin and
end. Only the order may be another one, and that of the constants is the same.

This is a law of conservation. A goal owes what its tokens have yielded and what it has not yet
reported: a name in front of which it is not known how it is used, an operator whose right operand
is still to come, a list that is still open. A move that uses a token up adds what the token yields
to the debts, and what is reported is taken off them. In the end nothing is owed.
-/

namespace ScriptCheck

variable {c c' : Context} {d : Int} {t n : Token} {ts : List Token} {g o : Goal}
  {goals gs more : List Goal} {e : Event} {es new : List Event}

/-! ### Debts -/

namespace Goal

/-- How many more brackets the goal closes than it opens. -/
def weight : Goal → Int
  | symbol s => -(TokenKind.symbol s).turn
  | firstItem _ | moreItems .. => 1
  | firstParameter _ | parameter _ | refParameter _ | moreParameters _ => 1
  | _ => 0

/-- What the goal will report of tokens that are used up already, if the text goes on with `ts`. The
goals above it close `d` brackets. -/
def owes (c : Context) (d : Int) (ts : List Token) : Goal → List Event
  | report e => partEvents [e]
  | signs l negative =>
    -- the chain has begun, and its first sign has yielded what is reported in the end
    if c = .sign ∧ (minusAhead ts + negative.toNat) % 2 = 1 then [.unary .negate l] else []
  | target name l | reference name l => [mention name l ts]
  | firstItem g => [g.event (items g.close ts)]
  | moreItems n g => [g.event (commas d ts + n)]
  | functionName l => definition l ts
  | functionHead h => [.define h.name (h.parameters ++ headParameters ts) h.location]
  | firstParameter h | parameter h | moreParameters h =>
    [.define h.name (h.parameters ++ parameters false ts) h.location]
  | refParameter h => [.define h.name (h.parameters ++ parameters true ts) h.location]
  | _ => []

theorem weight_nonneg_of_rests (h : g.rests) : 0 ≤ g.weight := by
  cases g with
  | symbol s =>
    obtain rfl | rfl : s = .assign ∨ s = .rightParen := by simpa [rests] using h
    · decide
    · decide
  | _ => simp [weight]

end Goal

def weights : List Goal → Int
  | [] => 0
  | g :: goals => g.weight + weights goals

/-- What the goals will report of tokens that are used up already. -/
def owed (c : Context) (d : Int) (ts : List Token) : List Goal → List Event
  | [] => []
  | g :: goals => g.owes c d ts ++ owed c (d + g.weight) ts goals

theorem owed_append :
    owed c d ts (gs ++ goals) = owed c d ts gs ++ owed c (d + weights gs) ts goals := by
  induction gs generalizing d with
  | nil => simp [owed, weights]
  | cons g gs ih => simp [owed, weights, ih, Int.add_assoc]

/-- Whether the number of expressions that stand in open brackets may depend on the token. -/
def Token.Separates (t : Token) : Prop :=
  t.kind.turn = -1 ∨ t.kind = .symbol .comma

theorem commas_cons (h : t.Separates → 0 < d) :
    commas d (t :: ts) = commas (d + t.kind.turn) ts := by
  rw [commas]
  split
  · rename_i hc
    have := h (.inl hc.2)
    omega
  · split
    · rename_i hc
      have := h (.inr hc.2)
      omega
    · exact Nat.zero_add _

/-- Goals that wait owe the same before and behind a token. -/
theorem owed_cons (hr : Resting goals) (h : t.Separates → 0 < d) :
    owed c d (t :: ts) goals = owed c' (d + t.kind.turn) ts goals := by
  induction goals generalizing d with
  | nil => rfl
  | cons g goals ih =>
    obtain ⟨hg, hr⟩ := resting_cons.1 hr
    have hw := Goal.weight_nonneg_of_rests hg
    have howes : g.owes c d (t :: ts) = g.owes c' (d + t.kind.turn) ts := by
      cases g with
      | moreItems n g => simp only [Goal.owes, commas_cons h]
      | _ => first | rfl | cases hg
    have hbelow := ih (d := d + g.weight) hr fun ht => by
      have := h ht
      omega
    rw [owed, owed, howes, hbelow]
    congr 2
    omega

/-! ### Tokens of which nothing is reported -/

def TokenKind.isSilent : TokenKind → Bool
  | eof => true
  | symbol s =>
    s ∈ [.assign, .colon, .semicolon, .comma, .leftParen, .rightParen, .leftBracket,
      .rightBracket, .rightBrace]
  | keyword k =>
    k ∉ [.kwTrue, .kwFalse, .kwNot, .kwAnd, .kwOr, .kwXor, .kwDiv, .kwMod, .kwFunction]
  | _ => false

theorem of_isSilent (h : t.kind.isSilent) (c : Context) (ts : List Token) :
    yield c t ts = [] ∧ t.constant? = none := by
  obtain ⟨kind, payload, l⟩ := t
  suffices hopen : yieldOpen c ⟨kind, payload, l⟩ ts = [] ∧
      Token.constant? ⟨kind, payload, l⟩ = none by
    refine ⟨?_, hopen.2⟩
    unfold yield
    split
    · rfl
    · exact hopen.1
  cases kind with
  | eof => exact ⟨rfl, rfl⟩
  | symbol s => cases s <;> first | exact ⟨rfl, rfl⟩ | cases h
  | keyword k => cases k <;> first | exact ⟨rfl, rfl⟩ | cases h
  | _ => cases h

/-! ### Moves -/

/-- How the text goes on where a value is assigned to a name, so that the name is no call. -/
def Goal.Sees (t : Token) (ts : List Token) : Goal → Prop
  | target .. => t.kind ≠ .symbol .leftParen
  | loopVariable => ∀ t' ∈ ts.head?, t'.kind = .symbol .assign
  | _ => True

/-- What a goal owes and its token yields is what the move reports and what it leaves owing. The
goals below are told of each bracket that is opened or closed. -/
def Move.Accounts (c : Context) (t : Token) (ts : List Token) (g : Goal) : Move → Prop
  | reduce new gs =>
    g.owes c 0 (t :: ts) = partEvents new ++ owed c 0 (t :: ts) gs ∧
      g.weight = weights gs ∧ constantEvents new = []
  | shift new gs =>
    yield c t ts ++ g.owes c 0 (t :: ts) = partEvents new ++ owed (c.behind t ts) 0 ts gs ∧
      g.weight + t.kind.turn = weights gs ∧ (t.Separates → 0 < g.weight) ∧
      constantEvents new = t.constant?.toList
  | look _ yes no =>
    (g.owes c 0 (t :: ts) = owed c 0 (t :: ts) yes ∧ g.weight = weights yes) ∧
      g.owes c 0 (t :: ts) = owed c 0 (t :: ts) no ∧ g.weight = weights no
  | refuse _ => True

theorem Group.turn_close (group : Group) : (TokenKind.symbol group.close).turn = -1 := by
  cases group <;> rfl

theorem mention_of_ne (name : String) (l : Location) (hb : t.kind ≠ .symbol .leftBracket)
    (hp : t.kind ≠ .symbol .leftParen) : mention name l (t :: ts) = .var name l := by
  unfold mention
  split <;> simp_all

section

attribute [local simp] Move.Accounts owed weights Goal.owes Goal.weight Token.Separates
  TokenKind.turn TokenKind.isSilent Event.isPart Event.isConstant Token.constant?

theorem accounts_demand {k : TokenKind} (h : t.kind = k → (Move.shift [] gs).Accounts c t ts g) :
    (Goal.demand k t gs).Accounts c t ts g := by
  unfold Goal.demand
  split
  · exact h ‹_›
  · trivial

/-- The debts of a goal that uses up a token of which nothing is reported go on to what is left. -/
theorem accounts_silent (ht : t.kind.isSilent)
    (howes : g.owes c 0 (t :: ts) = owed (c.behind t ts) 0 ts gs)
    (hw : g.weight + t.kind.turn = weights gs) (hpos : t.Separates → 0 < g.weight) :
    (Move.shift [] gs).Accounts c t ts g := by
  obtain ⟨hyield, hconstant⟩ := of_isSilent ht c ts
  refine ⟨?_, hw, hpos, ?_⟩
  · rw [hyield, howes]
    rfl
  · rw [hconstant]
    rfl

theorem accounts_tail (hg : Tail g o more) : (g.step t).Accounts .operand t ts g := by
  rw [hg.step_eq]
  split
  · obtain ⟨hyield, -, hturn, hcomma, hconstant⟩ := of_operand? ‹_› ts
    cases hg <;>
      simp [Goal.operator, hyield, hturn, hcomma, hconstant, -TokenKind.turn, -Token.constant?]
  · cases hg <;> simp

theorem accounts_stepStatement : (Goal.stepStatement t).Accounts .other t ts .statement := by
  unfold Goal.stepStatement
  split
  · constructor <;> simp [Goal.framed]
  all_goals try trivial
  all_goals
    rename_i ht
    simp [Goal.enter, yield, yieldOpen, TokenKind.isOperator, TokenKind.isRelation,
      TokenKind.isAdditive, TokenKind.isMultiplicative, ht]

theorem accounts_stepFactor (hc : c = .sign ∨ c = .other) :
    (Goal.stepFactor t).Accounts c t ts .factor := by
  unfold Goal.stepFactor
  split
  all_goals try trivial
  all_goals
    rename_i ht
    rcases hc with rfl | rfl <;>
      simp [yield, yieldOpen, TokenKind.isOperator, TokenKind.isRelation, TokenKind.isAdditive,
        TokenKind.isMultiplicative, ht, Group.event, Group.close]

/-- The bracket that closes a group settles its debt. -/
theorem accounts_close {group : Group} {k : Nat} (ht : t.kind = .symbol group.close)
    (howes : g.owes c 0 (t :: ts) = [group.event k]) (hw : g.weight = 1) :
    (Move.shift [] [.report (group.event k)]).Accounts c t ts g := by
  have hturn : t.kind.turn = -1 := by rw [ht, Group.turn_close]
  apply accounts_silent
  · cases group <;> simp [ht, Group.close]
  · rw [howes]
    simp [-Event.isPart]
  · rw [hw, hturn]
    rfl
  · intro
    rw [hw]
    decide

/-- The first sign of a chain yields what the chain amounts to, the others pass it on. -/
theorem accounts_stepSigns {l : Location} {negative : Bool} (hc : c = .sign ∨ c = .other)
    (hready : (Goal.signs l negative).Ready c (t :: ts)) :
    (Goal.stepSigns l negative t).Accounts c t ts (.signs l negative) := by
  unfold Goal.stepSigns
  rcases hc with rfl | rfl
  · split
    · rename_i ht
      simp [yield, yieldOpen, yieldSign, Context.behind, minusAhead_of_plus, ht]
    · rename_i ht
      have hparity : (minusAhead ts + 1 + negative.toNat) % 2 =
          (minusAhead ts + (!negative).toNat) % 2 := by
        cases negative <;> simp [Nat.add_assoc]
      simp [yield, yieldOpen, yieldSign, Context.behind, minusAhead_of_minus, hparity, ht]
    · rename_i hp hm
      have hs : ¬ t.IsSign := fun ht => ht.elim hp hm
      cases negative <;> simp [minusAhead_of_not_sign hs]
  · obtain ⟨rfl, hl⟩ := hready rfl
    obtain rfl : l = t.location := hl t rfl
    split
    · rename_i ht
      simp [yield, yieldOpen, yieldSign, Context.behind, minusAhead_of_plus, ht]
    · rename_i ht
      simp [yield, yieldOpen, yieldSign, Context.behind, minusAhead_of_minus, ht]
    · simp

theorem accounts_parameters {h : Header}
    (hg : g = .firstParameter h ∨ g = .parameter h ∨ g = .refParameter h ∨ g = .moreParameters h) :
    (g.step t).Accounts .header t ts g := by
  rcases hg with rfl | rfl | rfl | rfl
  all_goals
    simp only [Goal.step, Goal.stepParameter, Goal.stepMoreParameters, Goal.demand]
    (repeat' split) <;> simp [yield, parameters, Header.event, Header.add, *]

theorem accounts_step (hs : Stands c (t :: ts) (g :: goals)) (hsees : g.Sees t ts) :
    (g.step t).Accounts c t ts g := by
  have hc := hs.enters
  cases g with
  | report e =>
    have he : e.isConstant = false := hc
    simp [Goal.step, he, -Event.isConstant, -Event.isPart]
  | endOfProgram =>
    simp only [Goal.step]
    split <;> simp
  | symbol s =>
    obtain ⟨-, hsymbol⟩ := hc
    refine accounts_demand fun ht => ?_
    rcases hsymbol with rfl | rfl | rfl <;> apply accounts_silent <;> simp [ht]
  | keyword k =>
    obtain ⟨-, hkeyword⟩ := hc
    refine accounts_demand fun ht => ?_
    rcases hkeyword with rfl | rfl | rfl | rfl <;> apply accounts_silent <;> simp [ht]
  | statements =>
    simp only [Goal.step]
    split <;> simp
  | moreStatements | elseBranch =>
    simp only [Goal.step]
    split
    · apply accounts_silent <;> simp [*]
    · simp
  | statement =>
    obtain rfl : c = .other := hc
    exact accounts_stepStatement
  | assignment =>
    obtain rfl : c = .other := hc
    refine accounts_demand fun ht => ?_
    simp [yield, yieldOpen, ht]
  | loopVariable =>
    obtain rfl : c = .other := hc
    refine accounts_demand fun ht => ?_
    have hvar : mention t.text t.location ts = .var t.text t.location := by
      cases ts with
      | nil => rfl
      | cons t' ts =>
        have ht' : t'.kind = .symbol .assign := hsees t' rfl
        exact mention_of_ne _ _ (by simp [ht']) (by simp [ht'])
    simp [yield, yieldOpen, ht, hvar]
  | direction =>
    simp only [Goal.step]
    split
    · rename_i ht
      rcases ht with ht | ht <;> apply accounts_silent <;> simp [ht]
    · trivial
  | target name l =>
    simp only [Goal.step, Goal.stepTarget]
    split
    · apply accounts_silent <;> simp [mention, Group.event, *]
    · simp [mention_of_ne name l ‹_› hsees]
  | reference name l =>
    simp only [Goal.step, Goal.stepReference]
    split
    · apply accounts_silent <;> simp [mention, Group.event, *]
    · apply accounts_silent <;> simp [mention, Group.event, Group.close, *]
    · rename_i hb hp
      simp [mention_of_ne name l hb hp]
  | functionName l =>
    obtain rfl : c = .name := hc
    refine accounts_demand fun ht => ?_
    simp [yield, definition, ht]
  | functionHead h =>
    simp only [Goal.step]
    split
    · apply accounts_silent <;> simp [headParameters, *]
    · simp [headParameters, Header.event, *]
  | firstParameter h | parameter h | refParameter h | moreParameters h =>
    obtain rfl : c = .header := hc
    exact accounts_parameters (h := h) (by simp)
  | relationTail => exact (show c = _ from hc) ▸ accounts_tail .relation
  | sumTail => exact (show c = _ from hc) ▸ accounts_tail .sum
  | productTail => exact (show c = _ from hc) ▸ accounts_tail .product
  | powerTail => exact (show c = _ from hc) ▸ accounts_tail .power
  | expression | sum | product =>
    simp [Goal.step]
  | power =>
    obtain rfl : c = .other := hc
    simp [Goal.step]
  | signs => exact accounts_stepSigns hc hs.top
  | factor => exact accounts_stepFactor hc
  | firstItem group =>
    simp only [Goal.step]
    split
    · rename_i ht
      exact accounts_close ht (by simp [items, ht]) rfl
    · simp [items, *]
  | moreItems n group =>
    simp only [Goal.step, Goal.stepItems]
    split
    · rename_i ht
      have hcount : commas 0 (t :: ts) + n = commas 0 ts + (n + 1) := by
        simp [commas, ht]
        omega
      apply accounts_silent <;> simp [hcount, ht]
    · refine accounts_demand fun ht => ?_
      refine accounts_close ht ?_ rfl
      simp [commas, ht, Group.turn_close, -TokenKind.turn]

end

/-! ### Stacks -/

theorem owed_of_reduce (h : (Move.reduce new gs).Accounts c t ts g) (goals : List Goal) :
    owed c 0 (t :: ts) (g :: goals) = partEvents new ++ owed c 0 (t :: ts) (gs ++ goals) := by
  obtain ⟨howes, hweight, -⟩ := h
  rw [owed, owed_append, howes, hweight, List.append_assoc]

theorem owed_of_shift (h : (Move.shift new gs).Accounts c t ts g) (hr : Resting goals) :
    yield c t ts ++ owed c 0 (t :: ts) (g :: goals) =
      partEvents new ++ owed (c.behind t ts) 0 ts (gs ++ goals) := by
  obtain ⟨howes, hweight, hpos, -⟩ := h
  have hbelow : owed c (0 + g.weight) (t :: ts) goals =
      owed (c.behind t ts) (0 + g.weight + t.kind.turn) ts goals := by
    refine owed_cons hr fun ht => ?_
    have := hpos ht
    omega
  rw [owed, owed_append, hbelow, ← List.append_assoc, howes, List.append_assoc, ← hweight]
  congr 3
  omega

theorem owed_of_look {k : TokenKind} {yes no : List Goal}
    (h : (Move.look k yes no).Accounts c t ts g) (hgs : gs = yes ∨ gs = no) (goals : List Goal) :
    owed c 0 (t :: ts) (g :: goals) = owed c 0 (t :: ts) (gs ++ goals) := by
  have hgs : g.owes c 0 (t :: ts) = owed c 0 (t :: ts) gs ∧ g.weight = weights gs := by
    rcases hgs with rfl | rfl
    · exact h.1
    · exact h.2
  rw [owed, owed_append, hgs.1, hgs.2]

/-! ### Paths -/

theorem kind_of_reaches_symbol {s : Symbol} (h : Reaches n (.symbol s :: goals) ts es []) :
    (ts.headD n).kind = .symbol s := by
  by_contra hk
  have hrefuse : (Goal.symbol s).step (ts.headD n) = .refuse (.kind (.symbol s)) := by
    simp only [Goal.step, Goal.demand, if_neg hk]
  cases h with
  | reduce hg | shift hg | look hg => cases hg.symm.trans hrefuse

theorem sees_of_reduce {us vs : List Token} (hs : Stands c us (g :: goals))
    (hg : g.step (ts.headD n) = .reduce new gs) (h : Reaches n (gs ++ goals) ts es []) :
    g.Sees (ts.headD n) vs := by
  cases g with
  | target name l =>
    obtain ⟨below, rfl⟩ := hs.exists_assign rfl
    intro hp
    obtain ⟨-, rfl⟩ : _ ∧ [] = gs := by
      simpa only [Goal.step, Goal.stepTarget, hp, Move.reduce.injEq] using hg
    cases (kind_of_reaches_symbol h).symm.trans hp
  | loopVariable => exact absurd hg Goal.demand_ne_reduce
  | _ => trivial

theorem sees_of_shift {us : List Token} (hs : Stands c us (g :: goals))
    (hg : g.step t = .shift new gs) (h : Reaches n (gs ++ goals) ts es []) :
    g.Sees t (ts ++ [n]) := by
  cases g with
  | target name l =>
    intro hp
    simp [Goal.step, Goal.stepTarget, hp] at hg
  | loopVariable =>
    obtain ⟨below, rfl⟩ := hs.exists_assign rfl
    obtain ⟨-, -, rfl⟩ := Goal.demand_eq_shift hg
    obtain ⟨es', -, h⟩ := h.of_reduce rfl
    have hk := kind_of_reaches_symbol h
    intro t' ht'
    cases ts <;> simp_all
  | _ => trivial

/-- What is reported now stands with the debts as well as in front. -/
theorem perm_put_behind {es later debts : List Event} (h : es.Perm (later ++ debts)) :
    (new ++ es).Perm (later ++ (new ++ debts)) :=
  (h.append_left new).trans (List.perm_append_comm_assoc _ _ _)

/-- What is reported on a path is what its tokens yield and what was owed before. -/
theorem Reaches.accounts (h : Reaches n goals ts es []) (hn : n.kind = .eof)
    (hs : Stands c (ts ++ [n]) goals) :
    constantEvents es = ts.filterMap Token.constant? ∧
      (partEvents es).Perm (yields c (ts ++ [n]) ++ owed c 0 (ts ++ [n]) goals) := by
  generalize hf : ([] : List Goal) = goals' at h
  induction h generalizing c with
  | refl =>
    subst hf
    have hsilent : n.kind.isSilent := by
      rw [hn]
      rfl
    simp [yields, owed, (of_isSilent hsilent c []).1]
  | @reduce g goals gs goals' ts new es hg h ih =>
    subst hf
    obtain ⟨us, hus⟩ : ∃ us, ts ++ [n] = ts.headD n :: us := by
      cases ts <;> exact ⟨_, rfl⟩
    rw [hus] at hs ih ⊢
    have hmove := accounts_step hs (sees_of_reduce hs hg h)
    rw [hg] at hmove
    obtain ⟨hconstants, hperm⟩ := ih (hs.reduce hg) rfl
    refine ⟨?_, ?_⟩
    · rw [constantEvents_append, hmove.2.2, hconstants]
      rfl
    · rw [partEvents_append, owed_of_reduce hmove]
      exact perm_put_behind hperm
  | @shift g goals gs goals' t ts new es hg h ih =>
    subst hf
    rw [List.cons_append] at hs ⊢
    have hmove := accounts_step hs (sees_of_shift hs hg h)
    rw [hg] at hmove
    obtain ⟨hconstants, hperm⟩ := ih (hs.shift hg) rfl
    refine ⟨?_, ?_⟩
    · rw [constantEvents_append, hmove.2.2.2, hconstants]
      cases ht : t.constant? <;> simp [ht]
    · have hlater : (partEvents new ++ partEvents es).Perm
          (yields (c.behind t (ts ++ [n])) (ts ++ [n]) ++
            (partEvents new ++ owed (c.behind t (ts ++ [n])) 0 (ts ++ [n]) (gs ++ goals))) :=
        perm_put_behind hperm
      rw [← owed_of_shift hmove hs.resting] at hlater
      rw [partEvents_append, yields, List.append_assoc]
      exact hlater.trans (List.perm_append_comm_assoc _ _ _)
  | @look g goals yes no goals' t ts k es hg h ih =>
    subst hf
    rw [List.cons_append] at hs ih ⊢
    have hsees : g.Sees t (ts ++ [n]) := by
      obtain ⟨rfl, -⟩ := Goal.eq_of_look hg
      trivial
    have hmove := accounts_step hs hsees
    rw [hg] at hmove
    obtain ⟨hyes, hno⟩ := hs.look hg
    by_cases hk : (ts.headD n).kind = k
    · simp only [if_pos hk] at ih
      rw [owed_of_look hmove (.inl rfl)]
      exact ih hyes trivial
    · simp only [if_neg hk] at ih
      rw [owed_of_look hmove (.inr rfl)]
      exact ih hno trivial

/-! ### Whole texts -/

/-- In an accepted text the events account for the tokens. The constants come in the order of the
text. All that is reported of the parts of statements is what the tokens yield, each once. -/
theorem events_account_for_tokens {text : String} (h : check text = .ok ()) :
    ∃ ts, tokenize text = .ok ts ∧
      constantEvents (recognize text).events = ts.filterMap Token.constant? ∧
      (partEvents (recognize text).events).Perm (yields .other ts) := by
  obtain ⟨ts, n, ht, hn, hr, -⟩ := exists_reaches_of_check h
  obtain ⟨hconstants, hperm⟩ := hr.accounts hn (stands_program _)
  have hsilent : n.kind.isSilent := by
    rw [hn]
    rfl
  refine ⟨ts ++ [n], ht, ?_, ?_⟩
  · simp [hconstants, (of_isSilent hsilent .other []).2]
  · simpa [program, owed, Goal.owes] using hperm

/-- Of two minus signs the first is an operator and the other one a chain of its own. -/
theorem events_account_for_negated_call :
    check "return True - -f(x)" = .ok () ∧
      constantEvents (recognize "return True - -f(x)").events = [.boolean true ⟨1, 8⟩] ∧
      (partEvents (recognize "return True - -f(x)").events).Perm
        [.boolean true ⟨1, 8⟩, .binary (.symbol .minus) ⟨1, 13⟩, .unary .negate ⟨1, 15⟩,
          .call "f" 1 ⟨1, 16⟩, .var "x" ⟨1, 18⟩] := by
  let tokens : List Token :=
    [⟨.keyword .kwReturn, .none, ⟨1, 1⟩⟩, ⟨.keyword .kwTrue, .none, ⟨1, 8⟩⟩,
      ⟨.symbol .minus, .none, ⟨1, 13⟩⟩, ⟨.symbol .minus, .none, ⟨1, 15⟩⟩,
      ⟨.identifier, .text "f", ⟨1, 16⟩⟩, ⟨.symbol .leftParen, .none, ⟨1, 17⟩⟩,
      ⟨.identifier, .text "x", ⟨1, 18⟩⟩, ⟨.symbol .rightParen, .none, ⟨1, 19⟩⟩]
  have ht : tokenize "return True - -f(x)" = .ok (tokens ++ [.eof ⟨1, 20⟩]) :=
    tokenize_of_firstTokens (by with_unfolding_all rfl) (by simp [tokens, Endless]) rfl
  have hr : Reaches (.eof ⟨1, 20⟩) program tokens _ [] :=
    .silent rfl <| .announced rfl <|
      -- the left operand
      .silent rfl <| .silent rfl <| .silent rfl <| .silent rfl <| .silent rfl <|
      .announced rfl <| .silent rfl <| .silent rfl <|
      -- the right one with its sign
      .taken rfl <| .silent rfl <| .silent rfl <| .taken rfl <| .silent rfl <| .taken rfl <|
      .taken rfl <| .silent rfl <| .name rfl rfl <| .taken rfl <| .reported rfl <|
      .silent rfl <| .reported rfl <| .silent rfl <| .reported rfl <| .silent rfl <|
      .silent rfl <| reaches_closing .returnValue _
  have hc : check "return True - -f(x)" = .ok () := (ReadBy.accepts ⟨_, _, ht, rfl, hr⟩).1
  obtain ⟨ts, hts, hconstants, hperm⟩ := events_account_for_tokens hc
  obtain rfl : tokens ++ [Token.eof ⟨1, 20⟩] = ts := Except.ok.inj (ht.symm.trans hts)
  exact ⟨hc, hconstants, hperm⟩

end ScriptCheck
