import ScriptCheck.Proofs.Expression.Print
import ScriptCheck.Proofs.Tree.Events

/-!
# Trees of token lists

The productions of the grammar with the trees that they stand for. Brackets, commas, semicolons and
signs in pairs leave no trace in a tree. What follows `not` may end at several places as far as the
productions go, so a list of tokens may have more than one tree.
-/

namespace ScriptCheck

/-! ### Expressions -/

namespace Term

/-- The expression behind a chain of signs with `n` minus signs among them. -/
def signed (n : Nat) (e : Term) : Term :=
  if n % 2 = 1 then unary .negate e else e

end Term

/-- A token of a chain of signs. -/
def Token.IsSign (t : Token) : Prop :=
  t.kind = .symbol .plus ∨ t.kind = .symbol .minus

/-- How many minus signs there are. -/
def minusSigns (signs : List Token) : Nat :=
  signs.countP (·.kind = .symbol .minus)

mutual

/-- The tokens are this expression where one of level `l` is asked for. -/
inductive Term.Derived : Level → Term → List Token → Prop
  | integer {t : Token} (ht : t.kind = .integer) : Derived .factor (.integer t.integer) [t]
  | real {t : Token} (ht : t.kind = .real) : Derived .factor (.real t.real) [t]
  | string {t : Token} (ht : t.kind = .string) : Derived .factor (.string t.text) [t]
  | true {t : Token} (ht : t.kind = .keyword .kwTrue) : Derived .factor (.boolean true) [t]
  | false {t : Token} (ht : t.kind = .keyword .kwFalse) : Derived .factor (.boolean false) [t]
  | var {t : Token} (ht : t.kind = .identifier) : Derived .factor (.var t.text) [t]
  | index {t o c : Token} {items : List Term} {w : List Token} (ht : t.kind = .identifier)
      (ho : o.kind = .symbol .leftBracket) (hi : DerivedItems items w) (hne : items ≠ [])
      (hc : c.kind = .symbol .rightBracket) :
      Derived .factor (.index t.text items) (t :: o :: (w ++ [c]))
  | call {t o c : Token} {items : List Term} {w : List Token} (ht : t.kind = .identifier)
      (ho : o.kind = .symbol .leftParen) (hi : DerivedItems items w)
      (hc : c.kind = .symbol .rightParen) :
      Derived .factor (.call t.text items) (t :: o :: (w ++ [c]))
  | list {o c : Token} {items : List Term} {w : List Token} (ho : o.kind = .symbol .leftBrace)
      (hi : DerivedItems items w) (hc : c.kind = .symbol .rightBrace) :
      Derived .factor (.list items) (o :: (w ++ [c]))
  | parens {o c : Token} {e : Term} {w : List Token} (ho : o.kind = .symbol .leftParen)
      (he : Derived .expression e w) (hc : c.kind = .symbol .rightParen) :
      Derived .factor e (o :: (w ++ [c]))
  | not {t : Token} {e : Term} {w : List Token} (ht : t.kind = .keyword .kwNot)
      (he : Derived .expression e w) : Derived .factor (.unary .not e) (t :: w)
  | lift {l l' : Level} {e : Term} {w : List Token} (hl : l.Lifts l') (he : Derived l' e w) :
      Derived l e w
  | signs {signs : List Token} {e : Term} {w : List Token} (hs : ∀ s ∈ signs, s.IsSign)
      (he : Derived .unsigned e w) : Derived .power (e.signed (minusSigns signs)) (signs ++ w)
  | binary {t : Token} {l left right : Level} {a b : Term} {u v : List Token}
      (ho : Joins t.kind l left right) (ha : Derived left a u) (hb : Derived right b v) :
      Derived l (.binary t.kind a b) (u ++ t :: v)

/-- The tokens are these expressions with commas between them. -/
inductive Term.DerivedItems : List Term → List Token → Prop
  | nil : DerivedItems [] []
  | cons {e : Term} {es : List Term} {u v : List Token} (he : Derived .expression e u)
      (hes : DerivedMore es v) : DerivedItems (e :: es) (u ++ v)

/-- The tokens are these expressions with a comma in front of each. -/
inductive Term.DerivedMore : List Term → List Token → Prop
  | nil : DerivedMore [] []
  | cons {t : Token} {e : Term} {es : List Term} {u v : List Token}
      (ht : t.kind = .symbol .comma) (he : Derived .expression e u) (hes : DerivedMore es v) :
      DerivedMore (e :: es) (t :: (u ++ v))

end

/-! ### Statements -/

/-- The tokens are what stands in brackets behind the name that is assigned to. -/
inductive DerivedIndices : List Term → List Token → Prop
  | none : DerivedIndices [] []
  | some {o c : Token} {items : List Term} {w : List Token} (ho : o.kind = .symbol .leftBracket)
      (hi : Term.DerivedItems items w) (hne : items ≠ []) (hc : c.kind = .symbol .rightBracket) :
      DerivedIndices items (o :: (w ++ [c]))

inductive DerivedParameter : Parameter → List Token → Prop
  | byValue {t : Token} (ht : t.kind = .identifier) : DerivedParameter ⟨t.text, false⟩ [t]
  | byRef {r t : Token} (hr : r.kind = .keyword .kwRef) (ht : t.kind = .identifier) :
      DerivedParameter ⟨t.text, true⟩ [r, t]

/-- The tokens are these parameters with a comma in front of each. -/
inductive DerivedMoreParameters : List Parameter → List Token → Prop
  | nil : DerivedMoreParameters [] []
  | cons {t : Token} {p : Parameter} {ps : List Parameter} {u v : List Token}
      (ht : t.kind = .symbol .comma) (hp : DerivedParameter p u)
      (hps : DerivedMoreParameters ps v) :
      DerivedMoreParameters (p :: ps) (t :: (u ++ v))

/-- The tokens are these parameters with commas between them. -/
inductive DerivedParameters : List Parameter → List Token → Prop
  | nil : DerivedParameters [] []
  | cons {p : Parameter} {ps : List Parameter} {u v : List Token} (hp : DerivedParameter p u)
      (hps : DerivedMoreParameters ps v) : DerivedParameters (p :: ps) (u ++ v)

/-- The tokens are what stands behind the name of a function. -/
inductive DerivedHead : List Parameter → List Token → Prop
  | none : DerivedHead [] []
  | some {o c : Token} {ps : List Parameter} {w : List Token} (ho : o.kind = .symbol .leftParen)
      (hps : DerivedParameters ps w) (hc : c.kind = .symbol .rightParen) :
      DerivedHead ps (o :: (w ++ [c]))

mutual

/-- The tokens are this statement. -/
inductive Statement.Derived : Statement → List Token → Prop
  | assign {t q : Token} {indices : List Term} {value : Term} {u v : List Token}
      (ht : t.kind = .identifier) (hi : DerivedIndices indices u) (hq : q.kind = .symbol .assign)
      (hv : Term.Derived .expression value v) :
      Derived (.assign t.text indices value) (t :: (u ++ q :: v))
  | call {t o c : Token} {items : List Term} {w : List Token} (ht : t.kind = .identifier)
      (ho : o.kind = .symbol .leftParen) (hi : Term.DerivedItems items w)
      (hc : c.kind = .symbol .rightParen) :
      Derived (.call t.text items) (t :: o :: (w ++ [c]))
  | ifThen {t m z : Token} {c : Term} {body : List Statement} {u v : List Token}
      (ht : t.kind = .keyword .kwIf) (hc : Term.Derived .expression c u)
      (hm : m.kind = .keyword .kwThen) (hb : DerivedList body v) (hz : z.kind = .keyword .kwEnd) :
      Derived (.ifThen c body) (t :: (u ++ m :: (v ++ [z])))
  | ifElse {t m o z : Token} {c : Term} {body other : List Statement} {u v w : List Token}
      (ht : t.kind = .keyword .kwIf) (hc : Term.Derived .expression c u)
      (hm : m.kind = .keyword .kwThen) (hb : DerivedList body v) (ho : o.kind = .keyword .kwElse)
      (hother : DerivedList other w) (hz : z.kind = .keyword .kwEnd) :
      Derived (.ifElse c body other) (t :: (u ++ m :: (v ++ o :: (w ++ [z]))))
  | forLoop {t x q d m z : Token} {first last : Term} {body : List Statement}
      {u v w : List Token} (ht : t.kind = .keyword .kwFor) (hx : x.kind = .identifier)
      (hq : q.kind = .symbol .assign) (hfirst : Term.Derived .expression first u)
      (hd : d.kind = .keyword .kwTo ∨ d.kind = .keyword .kwDownto)
      (hlast : Term.Derived .expression last v) (hm : m.kind = .keyword .kwDo)
      (hb : DerivedList body w) (hz : z.kind = .keyword .kwEnd) :
      Derived (.forLoop x.text first (d.kind = .keyword .kwDownto) last body)
        (t :: x :: q :: (u ++ d :: (v ++ m :: (w ++ [z]))))
  | whileLoop {t m z : Token} {c : Term} {body : List Statement} {u v : List Token}
      (ht : t.kind = .keyword .kwWhile) (hc : Term.Derived .expression c u)
      (hm : m.kind = .keyword .kwDo) (hb : DerivedList body v) (hz : z.kind = .keyword .kwEnd) :
      Derived (.whileLoop c body) (t :: (u ++ m :: (v ++ [z])))
  | repeatLoop {t m : Token} {c : Term} {body : List Statement} {u v : List Token}
      (ht : t.kind = .keyword .kwRepeat) (hb : DerivedList body u)
      (hm : m.kind = .keyword .kwUntil) (hc : Term.Derived .expression c v) :
      Derived (.repeatLoop body c) (t :: (u ++ m :: v))
  | returnValue {t : Token} {e : Term} {w : List Token} (ht : t.kind = .keyword .kwReturn)
      (he : Term.Derived .expression e w) : Derived (.returnValue e) (t :: w)
  | breakLoop {t : Token} (ht : t.kind = .keyword .kwBreak) : Derived .breakLoop [t]
  | functionDef {t x z : Token} {ps : List Parameter} {body : List Statement} {u v : List Token}
      (ht : t.kind = .keyword .kwFunction) (hx : x.kind = .identifier) (hps : DerivedHead ps u)
      (hb : DerivedList body v) (hz : z.kind = .keyword .kwEnd) :
      Derived (.functionDef x.text ps body) (t :: x :: (u ++ (v ++ [z])))
  | print {t o c : Token} {e : Term} {w : List Token}
      (ht : t.kind = .keyword .kwPrint ∨ t.kind = .keyword .kwPrintln)
      (ho : o.kind = .symbol .leftParen) (he : Term.Derived .expression e w)
      (hc : c.kind = .symbol .rightParen) :
      Derived (.print (t.kind = .keyword .kwPrintln) e) (t :: o :: (w ++ [c]))

/-- The tokens are these statements with semicolons between them. -/
inductive Statement.DerivedList : List Statement → List Token → Prop
  | nil : DerivedList [] []
  | cons {s : Statement} {ss : List Statement} {u v : List Token} (hs : s.Derived u)
      (hss : DerivedMore ss v) : DerivedList (s :: ss) (u ++ v)

/-- The tokens are these statements with semicolons in front of them and in the end. -/
inductive Statement.DerivedMore : List Statement → List Token → Prop
  | nil : DerivedMore [] []
  | skip {t : Token} {ss : List Statement} {v : List Token} (ht : t.kind = .symbol .semicolon)
      (hss : DerivedMore ss v) : DerivedMore ss (t :: v)
  | cons {t : Token} {s : Statement} {ss : List Statement} {u v : List Token}
      (ht : t.kind = .symbol .semicolon) (hs : s.Derived u) (hss : DerivedMore ss v) :
      DerivedMore (s :: ss) (t :: (u ++ v))

end

end ScriptCheck
