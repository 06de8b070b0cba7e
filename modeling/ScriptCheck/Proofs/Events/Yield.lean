import ScriptCheck.Proofs.Tree.Derived

/-!
# What tokens yield

What is to be reported of a program can be told from its tokens alone, one by one from left to
right. A constant yields itself, an operator yields itself, a name yields a use of a variable, of a
place in it, or of a function, which the token behind tells. The signs in front of an operand yield
a negation together, and the tokens of a function header are told of by its first. Brackets, commas
and the other words of statements yield nothing.

What a token yields depends on what stands in front of it, its context, and for the number of
expressions in brackets on how the text goes on.
-/

namespace ScriptCheck

/-! ### Brackets -/

/-- How a token changes the number of open brackets. -/
def TokenKind.turn : TokenKind → Int
  | symbol .leftParen | symbol .leftBracket | symbol .leftBrace => 1
  | symbol .rightParen | symbol .rightBracket | symbol .rightBrace => -1
  | _ => 0

/-- The number of commas outside of inner brackets up to the bracket that closes `d` brackets and
the one that they stand in. -/
def commas : Int → List Token → Nat
  | _, [] => 0
  | d, t :: ts =>
    if d = 0 ∧ t.kind.turn = -1 then 0
    else (if d = 0 ∧ t.kind = .symbol .comma then 1 else 0) + commas (d + t.kind.turn) ts

/-- The number of expressions in front of the bracket that closes them. -/
def items (close : Symbol) (ts : List Token) : Nat :=
  if ts.head?.map Token.kind = some (.symbol close) then 0 else commas 0 ts + 1

/-! ### Names -/

/-- What a name yields in front of the tokens `ts`. There is an expression in each pair of square
brackets. -/
def mention (name : String) (l : Location) (ts : List Token) : Event :=
  match ts with
  | [] => .var name l
  | t :: ts =>
    match t.kind with
    | .symbol .leftBracket => .index name (commas 0 ts + 1) l
    | .symbol .leftParen => .call name (items .rightParen ts) l
    | _ => .var name l

/-- The parameters up to the next parenthesis, of which the first comes behind `ref` or not. -/
def parameters (byRef : Bool) : List Token → List Parameter
  | [] => []
  | t :: ts =>
    match t.kind with
    | .symbol .rightParen => []
    | .keyword .kwRef => parameters true ts
    | .identifier => ⟨t.text, byRef⟩ :: parameters false ts
    | _ => parameters byRef ts

/-- The parameters of a function behind whose name the tokens stand. -/
def headParameters : List Token → List Parameter
  | [] => []
  | t :: ts => if t.kind = .symbol .leftParen then parameters false ts else []

/-- What the word `function` yields in front of the name of a function and its parameters. -/
def definition (l : Location) : List Token → List Event
  | [] => []
  | t :: ts => [.define t.text (headParameters ts) l]

/-! ### Contexts -/

/-- What stands in front of a token. -/
inductive Context
  /-- The end of an operand. -/
  | operand
  /-- A sign in front of an operand that is still to come. -/
  | sign
  /-- The word `function`. -/
  | name
  /-- A part of a function header behind the name. -/
  | header
  | other
deriving DecidableEq

/-- The tokens that an operand may end with. -/
def TokenKind.endsOperand : TokenKind → Bool
  | integer | real | string | identifier => true
  | keyword .kwTrue | keyword .kwFalse => true
  | symbol .rightParen | symbol .rightBracket | symbol .rightBrace => true
  | _ => false

/-- The context behind a token in front of the tokens `ts`. -/
def Context.behind (c : Context) (t : Token) (ts : List Token) : Context :=
  match c with
  | name => if ts.head?.map Token.kind = some (.symbol .leftParen) then header else other
  | header => if t.kind = .symbol .rightParen then other else header
  | _ =>
    match t.kind with
    | .symbol .plus | .symbol .minus => if c = operand then other else sign
    | .keyword .kwFunction => name
    | k => if k.endsOperand then operand else other

/-! ### Single tokens -/

/-- Whether an event tells of a part of a statement, and not where one begins or ends. -/
def Event.isPart : Event → Bool
  | enter .. | exit _ => false
  | _ => true

def Event.isConstant : Event → Bool
  | integer .. | real .. | string .. | boolean .. => true
  | _ => false

/-- The events among some that tell of the parts of statements. -/
def partEvents (es : List Event) : List Event :=
  es.filter Event.isPart

/-- The constants among some events. -/
def constantEvents (es : List Event) : List Event :=
  es.filter Event.isConstant

section

variable {e : Event} {es es' : List Event}

@[simp] theorem partEvents_nil : partEvents [] = [] := rfl

@[simp] theorem partEvents_cons :
    partEvents (e :: es) = if e.isPart then e :: partEvents es else partEvents es :=
  List.filter_cons

@[simp] theorem partEvents_append : partEvents (es ++ es') = partEvents es ++ partEvents es' :=
  List.filter_append ..

@[simp] theorem constantEvents_nil : constantEvents [] = [] := rfl

@[simp] theorem constantEvents_cons :
    constantEvents (e :: es) =
      if e.isConstant then e :: constantEvents es else constantEvents es :=
  List.filter_cons

@[simp] theorem constantEvents_append :
    constantEvents (es ++ es') = constantEvents es ++ constantEvents es' :=
  List.filter_append ..

end

@[simp] theorem Group.isPart_event (g : Group) (n : Nat) : (g.event n).isPart = true := by
  cases g <;> rfl

@[simp] theorem Group.isConstant_event (g : Group) (n : Nat) :
    (g.event n).isConstant = false := by
  cases g <;> rfl

/-- The constant that a token stands for. -/
def Token.constant? (t : Token) : Option Event :=
  match t.kind with
  | .integer => some (.integer t.integer t.location)
  | .real => some (.real t.real t.location)
  | .string => some (.string t.text t.location)
  | .keyword .kwTrue => some (.boolean true t.location)
  | .keyword .kwFalse => some (.boolean false t.location)
  | _ => none

/-- The operators with two operands. The signs are two of them. -/
def TokenKind.isOperator (k : TokenKind) : Bool :=
  k.isRelation || k.isAdditive || k.isMultiplicative || k = .symbol .power

instance (t : Token) : Decidable t.IsSign :=
  inferInstanceAs (Decidable (_ ∨ _))

/-- The number of minus signs in the chain of signs that the tokens begin with. -/
def minusAhead (ts : List Token) : Nat :=
  minusSigns (ts.takeWhile (·.IsSign))

theorem minusAhead_of_plus {t : Token} (h : t.kind = .symbol .plus) (ts : List Token) :
    minusAhead (t :: ts) = minusAhead ts := by
  simp [minusAhead, minusSigns, Token.IsSign, h]

theorem minusAhead_of_minus {t : Token} (h : t.kind = .symbol .minus) (ts : List Token) :
    minusAhead (t :: ts) = minusAhead ts + 1 := by
  simp [minusAhead, minusSigns, Token.IsSign, h]

theorem minusAhead_of_not_sign {t : Token} (h : ¬ t.IsSign) (ts : List Token) :
    minusAhead (t :: ts) = 0 := by
  simp [minusAhead, minusSigns, h]

/-- What a sign yields: an operator behind an operand, or otherwise a negation if it is the first of
its chain. -/
def yieldSign (c : Context) (t : Token) (ts : List Token) : List Event :=
  match c with
  | .operand => [.binary t.kind t.location]
  | .sign => []
  | _ => if minusAhead (t :: ts) % 2 = 1 then [.unary .negate t.location] else []

/-- What a token yields outside of function headers, in front of the tokens `ts`. -/
def yieldOpen (c : Context) (t : Token) (ts : List Token) : List Event :=
  match t.kind with
  | .identifier => [mention t.text t.location ts]
  | .keyword .kwFunction => definition t.location ts
  | .keyword .kwNot => [.unary .not t.location]
  | .symbol .leftBrace => [.list (items .rightBrace ts) t.location]
  | .symbol .plus | .symbol .minus => yieldSign c t ts
  | k => if k.isOperator then [.binary k t.location] else t.constant?.toList

/-- What a token yields in its context and in front of the tokens `ts`. -/
def yield (c : Context) (t : Token) (ts : List Token) : List Event :=
  if c = .name ∨ c = .header then [] else yieldOpen c t ts

/-- What the tokens yield one after the other. -/
def yields : Context → List Token → List Event
  | _, [] => []
  | c, t :: ts => yield c t ts ++ yields (c.behind t ts) ts

end ScriptCheck
