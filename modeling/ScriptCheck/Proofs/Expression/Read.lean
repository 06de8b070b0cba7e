import ScriptCheck.Proofs.Expression.Print
import ScriptCheck.Proofs.Recognizer.Relocate

/-!
# Reading what was written

The recognizer reads an expression as it was written. For each level there is a goal that reads
it, and perhaps a tail that stays behind for more operators of the same level. The token that
follows must not go on with the expression: how much that excludes depends on the level.
-/

namespace ScriptCheck

variable {n : Token} {k op : TokenKind} {c : TokenKind × Payload} {g o : Goal}
  {gs goals goals' more : List Goal} {l l' left right : Level} {e a b : Expr} {es : List Expr}
  {events : List Event} {ts : List Token} {u v w : List (TokenKind × Payload)}

/-- The token with a given content, in a place that does not matter. -/
def Token.ofContent (c : TokenKind × Payload) : Token :=
  ⟨c.1, c.2, .start⟩

namespace Level

/-- The goals that read an expression of a level. -/
def reader : Level → List Goal
  | expression => [.expression]
  | simple => [.sum]
  | term => [.product]
  | power => [.power]
  | unsigned => [.factor, .powerTail]
  | factor => [.factor]

/-- The tail that is left behind an expression of a level. -/
def behind : Level → List Goal
  | simple => [.sumTail]
  | term => [.productTail]
  | _ => []

/-- The operands of the operators that would be read as a part of an expression of a level. -/
@[simp] def operands : Level → List Goal
  | factor => []
  | unsigned | power | term => [.factor]
  | simple => [.factor, .power]
  | expression => [.factor, .power, .product, .expression]

/-- An expression of the level ends in front of the token. -/
structure Ends (l : Level) (k : TokenKind) : Prop where
  leftBracket : k ≠ .symbol .leftBracket
  leftParen : k ≠ .symbol .leftParen
  operand : ∀ o ∈ l.operands, k.operand? ≠ some o

theorem Ends.mono (h : l.Ends k) (hl : l'.operands ⊆ l.operands) : l'.Ends k :=
  ⟨h.leftBracket, h.leftParen, fun o ho => h.operand o (hl ho)⟩

theorem Lifts.ends (hl : l.Lifts l') (h : l.Ends k) : l'.Ends k := by
  cases hl <;> exact h.mono (by simp)

theorem ends_of_operand?_eq_none (h : k.operand? = none) (hb : k ≠ .symbol .leftBracket)
    (hp : k ≠ .symbol .leftParen) : l.Ends k :=
  ⟨hb, hp, by simp [h]⟩

theorem ends_of_operand?_eq_some (h : k.operand? = some o) (ho : o ∉ l.operands) : l.Ends k := by
  refine ⟨?_, ?_, ?_⟩
  · rintro rfl
    cases h
  · rintro rfl
    cases h
  · intro o' ho' h'
    obtain rfl : o = o' := by simpa [h] using h'
    exact ho ho'

end Level

theorem Joins.ends_left (ho : Joins op l left right) : left.Ends op := by
  cases ho with
  | relation h => exact Level.ends_of_operand?_eq_some (TokenKind.isRelation_iff.1 h) (by simp)
  | additive h => exact Level.ends_of_operand?_eq_some (TokenKind.isAdditive_iff.1 h) (by simp)
  | multiplicative h =>
    exact Level.ends_of_operand?_eq_some (TokenKind.isMultiplicative_iff.1 h) (by simp)
  | power => exact Level.ends_of_operand?_eq_some (TokenKind.eq_power_iff.1 rfl) (by simp)

theorem Joins.ends_right (ho : Joins op l left right) (h : l.Ends k) : right.Ends k := by
  cases ho <;> exact h.mono (by simp)

/-! ### Paths -/

/-- The recognizer reads the tokens as the expression, in front of any token that ends it. -/
def Reads (l : Level) (e : Expr) (w : List (TokenKind × Payload)) : Prop :=
  ∀ n goals, l.Ends n.kind →
    Reaches n (l.reader ++ goals) (w.map Token.ofContent) e.events (l.behind ++ goals)

/-- The recognizer reads the tokens as the expressions of a group, behind the first `k` ones. -/
def ReadsItems (es : List Expr) (w : List (TokenKind × Payload)) : Prop :=
  ∀ n k g goals, Level.expression.Ends n.kind →
    Reaches n (.expression :: .moreItems (k + 1) g :: goals) (w.map Token.ofContent)
      (Expr.eventsOf es) (.moreItems (k + es.length) g :: goals)

/-- A goal uses up a token without a report. -/
theorem Reaches.used (hg : g.step (.ofContent c) = .shift [] gs)
    (h : Reaches n (gs ++ goals) ts events goals') :
    Reaches n (g :: goals) (.ofContent c :: ts) events goals' :=
  .shift hg h

/-- A tail gives way in front of a token that is none of its operators. -/
theorem Tail.reaches (ht : Tail g o more) (hn : n.kind.operand? ≠ some o) :
    Reaches n (g :: goals) [] [] goals := by
  have hstep : g.step (([] : List Token).headD n) = .reduce [] [] := by
    rw [ht.step_eq]
    exact if_neg hn
  exact .reduce hstep (.refl goals)

theorem Tail.reaches_of_ends (ht : Tail g o more) (hn : l.Ends n.kind) (ho : o ∈ l.operands) :
    Reaches n (g :: goals) [] [] goals :=
  ht.reaches (hn.operand o ho)

/-- A tail reads an operator and the operand behind it. -/
theorem Tail.reaches_operand (goals : List Goal) (ht : Tail g o more) (hop : op.operand? = some o)
    (hg : right.reader = [o]) (hb : Reads right b v) (hn : right.Ends n.kind)
    (hbehind : ∀ goals, Reaches n (right.behind ++ goals) [] [] goals) :
    Reaches n (g :: goals) ((bare op :: v).map Token.ofContent)
      (b.events ++ [.binary op .start]) (more ++ goals) := by
  have hstep : g.step (.ofContent (bare op)) =
      .shift [] (o :: .report (.binary op .start) :: more) := by
    rw [ht.step_eq]
    exact if_pos hop
  have hread := hb n (.report (.binary op .start) :: (more ++ goals)) hn
  rw [hg] at hread
  have hrest := (hread.followed (hbehind _)).followed (Reaches.report _)
  rw [List.append_nil] at hrest
  have h := Reaches.shift hstep hrest
  exact h

/-- Both operands of an operator are read one after the other. -/
theorem Reads.followed (ha : Reads left a u) (hl : left.Ends op)
    (h : Reaches n (left.behind ++ goals) ((bare op :: v).map Token.ofContent) events goals') :
    Reaches n (left.reader ++ goals) ((u ++ bare op :: v).map Token.ofContent)
      (a.events ++ events) goals' := by
  rw [List.map_append]
  exact (ha (.ofContent (bare op)) goals hl).trans h rfl

/-! ### Operators -/

theorem Reads.joins (ho : Joins op l left right) (ha : Reads left a u) (hb : Reads right b v) :
    Reads l (.binary op a b) (u ++ bare op :: v) := by
  intro n goals hn
  have hright := ho.ends_right hn
  have hleft := ho.ends_left
  cases ho with
  | relation h =>
    have hop := TokenKind.isRelation_iff.1 h
    have hsum : op.operand? ≠ some .product := by simp [hop]
    have hrest := Tail.relation.reaches_operand goals hop rfl hb hright fun goals => .refl goals
    exact .silent rfl (ha.followed hleft ((Tail.sum.reaches hsum).trans hrest rfl))
  | additive h =>
    have hop := TokenKind.isAdditive_iff.1 h
    have hrest := Tail.sum.reaches_operand goals hop rfl hb hright
      fun goals => Tail.product.reaches_of_ends hn (by simp)
    exact ha.followed hleft hrest
  | multiplicative h =>
    have hop := TokenKind.isMultiplicative_iff.1 h
    have hrest := Tail.product.reaches_operand goals hop rfl hb hright fun goals => .refl goals
    exact ha.followed hleft hrest
  | power =>
    have hop := TokenKind.eq_power_iff.1 rfl
    have hrest := Tail.power.reaches_operand goals hop rfl hb hright fun goals => .refl goals
    exact ha.followed hleft hrest

/-! ### Levels -/

theorem Prints.startsFactor_of_factor (h : Prints .factor e w) :
    ∃ c r, w = c :: r ∧ c.1.startsFactor := by
  cases h with
  | boolean b => cases b <;> exact ⟨_, _, rfl, rfl⟩
  | lift hl => cases hl
  | binary ho => cases ho
  | _ => exact ⟨_, _, rfl, rfl⟩

/-- What is written for a power without signs begins with none. -/
theorem Prints.startsFactor (h : Prints .unsigned e w) : ∃ c r, w = c :: r ∧ c.1.startsFactor := by
  cases h with
  | lift hl h =>
    cases hl with
    | unsigned => exact h.startsFactor_of_factor
  | binary ho ha =>
    cases ho with
    | power =>
      obtain ⟨c, r, rfl, hc⟩ := ha.startsFactor_of_factor
      exact ⟨c, _, rfl, hc⟩

theorem Reads.reaches_unsigned (goals : List Goal) (h : Reads .unsigned e w)
    (hw : ∃ c r, w = c :: r ∧ c.1.startsFactor) (b : Bool) (hn : Level.unsigned.Ends n.kind) :
    Reaches n (.signs .start b :: goals) (w.map Token.ofContent)
      (e.events ++ if b then [.unary .negate .start] else []) goals := by
  obtain ⟨c, r, rfl, hc⟩ := hw
  obtain ⟨hplus, hminus⟩ := TokenKind.ne_sign_of_startsFactor hc
  have hstep : (Goal.signs .start b).step (.ofContent c) = .reduce []
      ([.factor, .powerTail] ++ if b then [.report (.unary .negate .start)] else []) := by
    rw [Goal.step_signs]
    exact (if_neg hplus).trans (if_neg hminus)
  refine .silent hstep ?_
  cases b with
  | true => exact (h n _ hn).followed (Reaches.report _)
  | false =>
    have hread := h n goals hn
    rw [← List.append_nil e.events] at hread
    exact hread

/-- A chain of signs is folded into one negation, or none. -/
theorem Reads.reaches_signs (signs : List Symbol) (goals : List Goal)
    (hs : ∀ s ∈ signs, s = .plus ∨ s = .minus) (h : Reads .unsigned e w)
    (hw : ∃ c r, w = c :: r ∧ c.1.startsFactor) (b : Bool) (hn : Level.unsigned.Ends n.kind) :
    Reaches n (.signs .start b :: goals)
      ((signs.map (fun s => bare (.symbol s)) ++ w).map Token.ofContent)
      (e.events ++ if b ^^ (signs.count .minus % 2 == 1) then [.unary .negate .start] else [])
      goals := by
  induction signs generalizing b with
  | nil => simpa using h.reaches_unsigned goals hw b hn
  | cons s signs ih =>
    have hs' : ∀ s ∈ signs, s = .plus ∨ s = .minus := fun s' hm => hs s' (List.mem_cons_of_mem s hm)
    rcases hs s (List.mem_cons_self ..) with rfl | rfl
    · exact .used (c := bare (.symbol .plus)) rfl (ih hs' b)
    · have hread := ih hs' (!b)
      have hodd : (!b ^^ (signs.count .minus % 2 == 1)) =
          (b ^^ ((Symbol.minus :: signs).count .minus % 2 == 1)) := by
        rw [List.count_cons_self]
        rcases Nat.mod_two_eq_zero_or_one (signs.count .minus) with hc | hc <;>
          cases b <;> simp [hc, Nat.add_mod]
      rw [hodd] at hread
      exact .used (c := bare (.symbol .minus)) rfl hread

theorem Reads.reaches_power (signs : List Symbol) (goals : List Goal)
    (hs : ∀ s ∈ signs, s = .plus ∨ s = .minus) (h : Reads .unsigned e w)
    (hw : ∃ c r, w = c :: r ∧ c.1.startsFactor) (hn : Level.unsigned.Ends n.kind) :
    Reaches n (.power :: goals)
      ((signs.map (fun s => bare (.symbol s)) ++ w).map Token.ofContent)
      (e.events ++ if signs.count .minus % 2 = 1 then [.unary .negate .start] else []) goals := by
  have hread := h.reaches_signs signs goals hs hw false hn
  simp only [Bool.false_xor, beq_iff_eq] at hread
  have hstep : Goal.power.step
      (((signs.map (fun s => bare (.symbol s)) ++ w).map Token.ofContent).headD n) =
        .reduce [] [.signs .start false] := by
    obtain ⟨c, r, rfl, -⟩ := hw
    cases signs <;> rfl
  exact .silent hstep hread

theorem Reads.lift (hl : l.Lifts l') (hp : Prints l' e w) (h : Reads l' e w) : Reads l e w := by
  intro n goals hn
  have hn' := hl.ends hn
  cases hl with
  | expression =>
    have hread := h n (.relationTail :: goals) hn'
    have hall := (hread.followed (Tail.sum.reaches_of_ends hn (by simp))).followed
      (Tail.relation.reaches_of_ends hn (by simp))
    simp only [List.append_nil] at hall
    exact .silent rfl hall
  | simple =>
    have hread := h n (.sumTail :: goals) hn'
    have hall := hread.followed (Tail.product.reaches_of_ends hn (by simp))
    rw [List.append_nil] at hall
    exact .silent rfl hall
  | term =>
    have hread := h n (.productTail :: goals) hn'
    exact .silent rfl hread
  | power =>
    have hread := h.reaches_power [] goals (by simp) hp.startsFactor hn'
    simp only [List.map_nil, List.nil_append, List.count_nil, Nat.zero_mod, Nat.zero_ne_one,
      if_false, List.append_nil] at hread
    exact hread
  | unsigned =>
    have hread := h n (.powerTail :: goals) hn'
    have hall := hread.followed (Tail.power.reaches_of_ends hn (by simp))
    rw [List.append_nil] at hall
    exact hall

theorem Reads.neg {signs : List Symbol} (hs : ∀ s ∈ signs, s = .plus ∨ s = .minus)
    (hodd : signs.count .minus % 2 = 1) (hp : Prints .unsigned e w) (h : Reads .unsigned e w) :
    Reads .power (.neg e) (signs.map (fun s => bare (.symbol s)) ++ w) := by
  intro n goals hn
  have hread := h.reaches_power signs goals hs hp.startsFactor (hn.mono (by simp))
  rw [if_pos hodd] at hread
  exact hread

/-- An expression that begins with `not` goes on as long as an expression can. -/
theorem Reads.not (h : Reads .expression e w) :
    Reads .expression (.not e) (bare (.keyword .kwNot) :: w) := by
  intro n goals hn
  have hread := (h n (.report (.unary .not .start) :: .powerTail :: .productTail :: .sumTail ::
    .relationTail :: goals) hn).followed (Reaches.report _)
  have htails : Reaches n (.powerTail :: .productTail :: .sumTail :: .relationTail :: goals) [] []
      goals :=
    (((Tail.power.reaches_of_ends hn (by simp)).followed
      (Tail.product.reaches_of_ends hn (by simp))).followed
      (Tail.sum.reaches_of_ends hn (by simp))).followed
      (Tail.relation.reaches_of_ends hn (by simp))
  have hall := hread.followed htails
  rw [List.append_nil] at hall
  have hfactor := Reaches.used (c := bare (.keyword .kwNot)) (g := .factor) rfl hall
  exact .silent rfl <| .silent rfl <| .silent rfl <| .silent rfl <| .silent rfl hfactor

/-! ### Factors -/

/-- A token that is a factor by itself. -/
theorem Reads.of_shift {c : TokenKind × Payload}
    (hc : Goal.factor.step (.ofContent c) = .shift e.events []) : Reads .factor e [c] := by
  intro n goals _
  have h := Reaches.shift (n := n) hc (.refl goals)
  rwa [List.append_nil] at h

theorem ends_close (g : Group) : Level.expression.Ends (.symbol g.close) := by
  cases g <;>
    exact Level.ends_of_operand?_eq_none rfl (by simp [Group.close]) (by simp [Group.close])

theorem Reads.parens (h : Reads .expression e w) :
    Reads .factor e (bare (.symbol .leftParen) :: (w ++ [bare (.symbol .rightParen)])) := by
  intro n goals _
  have hclose : Reaches n (.symbol .rightParen :: goals)
      [.ofContent (bare (.symbol .rightParen))] [] goals :=
    .used rfl (.refl goals)
  have hread := h (.ofContent (bare (.symbol .rightParen))) (.symbol .rightParen :: goals)
    (ends_close (.call "" .start))
  have hall := hread.trans hclose rfl
  rw [List.append_nil] at hall
  rw [List.map_cons, List.map_append]
  exact .used rfl hall

/-- Behind the items of a group it is closed and reported. -/
theorem ReadsItems.reaches_group (h : ReadsItems es w) (g : Group) (goals : List Goal) :
    Reaches n (.expression :: .moreItems 1 g :: goals)
      ((w ++ [bare (.symbol g.close)]).map Token.ofContent)
      (Expr.eventsOf es ++ [g.event es.length]) goals := by
  have hstep : (Goal.moreItems (0 + es.length) g).step (.ofContent (bare (.symbol g.close))) =
      .shift [] [.report (g.event es.length)] := by
    rw [Goal.step_moreItems, Nat.zero_add]
    cases g <;> rfl
  have hclose : Reaches n (.moreItems (0 + es.length) g :: goals)
      [.ofContent (bare (.symbol g.close))] [g.event es.length] goals :=
    .used hstep (Reaches.report _)
  rw [List.map_append]
  exact (h (.ofContent (bare (.symbol g.close))) 0 g goals (ends_close g)).trans hclose rfl

/-- A group with items in it does not look like an empty one. -/
theorem ReadsItems.reaches_firstItem (h : ReadsItems es w) (g : Group) (goals : List Goal) :
    Reaches n (.firstItem g :: goals)
      ((w ++ [bare (.symbol g.close)]).map Token.ofContent)
      (Expr.eventsOf es ++ [g.event es.length]) goals := by
  have hgen : Generates [.expression, .moreItems 1 g]
      (((w ++ [bare (.symbol g.close)]).map Token.ofContent).map Token.kind ++ []) := by
    refine (h.reaches_group (n := .eof .start) g []).generates ?_ rfl (generates_nil.2 rfl)
    simp [Goal.Fits]
  have hne : (((w ++ [bare (.symbol g.close)]).map Token.ofContent).headD n).kind ≠
      .symbol g.close := by
    have hne := ne_close_of_expression g hgen
    cases w with
    | nil => exact hne
    | cons c w => exact hne
  have hstep : (Goal.firstItem g).step
      (((w ++ [bare (.symbol g.close)]).map Token.ofContent).headD n) =
        .reduce [] [.expression, .moreItems 1 g] :=
    if_neg hne
  exact .silent hstep (h.reaches_group g goals)

theorem Reads.var (name : String) : Reads .factor (.var name) [(.identifier, .text name)] := by
  intro n goals hn
  have hstep : (Goal.reference name .start).step (([] : List Token).headD n) =
      .reduce [.var name .start] [] := by
    rw [Goal.step_reference, Goal.step_target]
    exact (if_neg hn.leftParen).trans (if_neg hn.leftBracket)
  have hread := Reaches.reported hstep (.refl goals)
  exact .used rfl hread

theorem ReadsItems.index (name : String) (h : ReadsItems es w) :
    Reads .factor (.index name es) ((.identifier, .text name) :: bare (.symbol .leftBracket) ::
      (w ++ [bare (.symbol .rightBracket)])) := by
  intro n goals _
  have hbracket := Reaches.used (c := bare (.symbol .leftBracket)) (g := .reference name .start)
    rfl (h.reaches_group (n := n) (.index name .start) goals)
  exact .used rfl hbracket

/-- A call without arguments. -/
theorem Reads.callNone (name : String) : Reads .factor (.call name [])
    [(.identifier, .text name), bare (.symbol .leftParen), bare (.symbol .rightParen)] := by
  intro n goals _
  have hclose : Reaches n (.firstItem (.call name .start) :: goals)
      [.ofContent (bare (.symbol .rightParen))] [.call name 0 .start] goals :=
    .used rfl (Reaches.report _)
  have hopen := Reaches.used (c := bare (.symbol .leftParen)) (g := .reference name .start)
    rfl hclose
  exact .used rfl hopen

theorem ReadsItems.call (name : String) (h : ReadsItems es w) :
    Reads .factor (.call name es) ((.identifier, .text name) :: bare (.symbol .leftParen) ::
      (w ++ [bare (.symbol .rightParen)])) := by
  intro n goals _
  have hopen := Reaches.used (c := bare (.symbol .leftParen)) (g := .reference name .start)
    rfl (h.reaches_firstItem (n := n) (.call name .start) goals)
  exact .used rfl hopen

theorem Reads.listNone :
    Reads .factor (.list []) [bare (.symbol .leftBrace), bare (.symbol .rightBrace)] := by
  intro n goals _
  have hclose : Reaches n (.firstItem (.list .start) :: goals)
      [.ofContent (bare (.symbol .rightBrace))] [.list 0 .start] goals :=
    .used rfl (Reaches.report _)
  exact .used rfl hclose

theorem ReadsItems.list (h : ReadsItems es w) :
    Reads .factor (.list es)
      (bare (.symbol .leftBrace) :: (w ++ [bare (.symbol .rightBrace)])) := by
  intro n goals _
  exact .used rfl (h.reaches_firstItem (n := n) (.list .start) goals)

/-! ### Items -/

theorem Reads.one (h : Reads .expression e w) : ReadsItems [e] w := by
  intro n k g goals hn
  rw [Expr.eventsOf, Expr.eventsOf, List.append_nil]
  exact h n (.moreItems (k + 1) g :: goals) hn

theorem Reads.followedByItems (h : Reads .expression e u) (hs : ReadsItems es v) :
    ReadsItems (e :: es) (u ++ bare (.symbol .comma) :: v) := by
  intro n k g goals hn
  have hcomma : Level.expression.Ends (.symbol .comma) :=
    Level.ends_of_operand?_eq_none rfl (by simp) (by simp)
  have hrest := hs n (k + 1) g goals hn
  have hnext := Reaches.used (c := bare (.symbol .comma)) (g := .moreItems (k + 1) g) rfl hrest
  have hread := h (.ofContent (bare (.symbol .comma))) (.moreItems (k + 1) g :: goals) hcomma
  rw [List.map_append, Expr.eventsOf, List.length_cons, Nat.add_comm es.length, ← Nat.add_assoc]
  exact hread.trans hnext rfl

/-! ### Any expression -/

mutual

/-- What was written at a level is read there. -/
theorem Prints.reads {l : Level} {e : Expr} {w : List (TokenKind × Payload)} :
    Prints l e w → Reads l e w
  | .integer n => .of_shift rfl
  | .boolean b => by cases b <;> exact .of_shift rfl
  | .string s => .of_shift rfl
  | .var name => .var name
  | .index name h => h.readsItems.index name
  | .callNone name => .callNone name
  | .call name h => h.readsItems.call name
  | .listNone => .listNone
  | .list h => h.readsItems.list
  | .parens h => h.reads.parens
  | .lift hl h => h.reads.lift hl h
  | .neg hs hodd h => h.reads.neg hs hodd h
  | .binary ho ha hb => ha.reads.joins ho hb.reads
  | .not h => h.reads.not

theorem PrintsItems.readsItems {es : List Expr} {w : List (TokenKind × Payload)} :
    PrintsItems es w → ReadsItems es w
  | .one h => h.reads.one
  | .more h hs => h.reads.followedByItems hs.readsItems

end

end ScriptCheck
