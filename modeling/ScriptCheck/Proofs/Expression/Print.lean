import ScriptCheck.Proofs.Grammar.Stack

/-!
# Expressions and how they are written

An expression as a tree, the events that are reported of it, which are the tree in postfix order,
and the token lists that write it. Parentheses stand around a part that binds too loosely for its
place, and may stand around any other. The minus sign in front of a part may be a whole chain of
signs.
-/

namespace ScriptCheck

inductive Expr
  | integer (n : Nat)
  | boolean (b : Bool)
  | string (s : String)
  | var (name : String)
  | index (name : String) (args : List Expr)
  | call (name : String) (args : List Expr)
  | list (items : List Expr)
  | not (e : Expr)
  | neg (e : Expr)
  | binary (op : TokenKind) (a b : Expr)

namespace Expr

/-! ### Events -/

mutual

/-- What is reported of an expression, apart from places. -/
def events : Expr → List Event
  | integer n => [.integer n .start]
  | boolean b => [.boolean b .start]
  | string s => [.string s .start]
  | var name => [.var name .start]
  | index name args => eventsOf args ++ [.index name args.length .start]
  | call name args => eventsOf args ++ [.call name args.length .start]
  | list items => eventsOf items ++ [.list items.length .start]
  | not e => e.events ++ [.unary .not .start]
  | neg e => e.events ++ [.unary .negate .start]
  | binary op a b => a.events ++ (b.events ++ [.binary op .start])

def eventsOf : List Expr → List Event
  | [] => []
  | e :: es => e.events ++ eventsOf es

end

/-- Takes the parts of an expression off a stack and puts the expression there. -/
def push : List Expr → Event → Option (List Expr)
  | stack, .integer n _ => some (integer n.toNat :: stack)
  | stack, .boolean b _ => some (boolean b :: stack)
  | stack, .string s _ => some (string s :: stack)
  | stack, .var name _ => some (var name :: stack)
  | stack, .index name n _ => some (index name (stack.take n).reverse :: stack.drop n)
  | stack, .call name n _ => some (call name (stack.take n).reverse :: stack.drop n)
  | stack, .list n _ => some (list (stack.take n).reverse :: stack.drop n)
  | e :: stack, .unary .not _ => some (not e :: stack)
  | e :: stack, .unary .negate _ => some (neg e :: stack)
  | b :: a :: stack, .binary op _ => some (binary op a b :: stack)
  | _, _ => none

/-- The expression that events in postfix order make up. -/
def ofEvents (es : List Event) : Option Expr :=
  match es.foldlM push [] with
  | some [e] => some e
  | _ => none

mutual

theorem foldlM_events (e : Expr) (stack : List Expr) :
    e.events.foldlM push stack = some (e :: stack) := by
  cases e with
  | integer | boolean | string | var => rfl
  | index name args | call name args | list args =>
    rw [events, List.foldlM_append, foldlM_eventsOf args]
    simp [push]
  | not e | neg e =>
    rw [events, List.foldlM_append, foldlM_events e]
    rfl
  | binary op a b =>
    rw [events, List.foldlM_append, foldlM_events a]
    simp only [Option.bind_eq_bind, Option.bind_some]
    rw [List.foldlM_append, foldlM_events b]
    rfl

theorem foldlM_eventsOf (es : List Expr) (stack : List Expr) :
    (eventsOf es).foldlM push stack = some (es.reverse ++ stack) := by
  cases es with
  | nil => rfl
  | cons e es =>
    rw [eventsOf, List.foldlM_append, foldlM_events e]
    simp only [Option.bind_eq_bind, Option.bind_some]
    rw [foldlM_eventsOf es]
    simp

end

/-- No two expressions are reported in the same way. -/
theorem ofEvents_events (e : Expr) : ofEvents e.events = some e := by
  rw [ofEvents, foldlM_events]

end Expr

/-! ### Tokens -/

/-- The places of an expression in the grammar. The last but one is a power without signs. -/
inductive Level
  | expression | simple | term | power | unsigned | factor

/-- What binds tightly enough for `l'` does so for `l`. -/
inductive Level.Lifts : Level → Level → Prop
  | expression : Lifts .expression .simple
  | simple : Lifts .simple .term
  | term : Lifts .term .power
  | power : Lifts .power .unsigned
  | unsigned : Lifts .unsigned .factor

/-- The operator makes an expression of level `l` of one of level `left` and one of level
`right`. -/
inductive Joins : TokenKind → Level → Level → Level → Prop
  | relation {k : TokenKind} (h : k.isRelation) : Joins k .expression .simple .expression
  | additive {k : TokenKind} (h : k.isAdditive) : Joins k .simple .simple .term
  | multiplicative {k : TokenKind} (h : k.isMultiplicative) : Joins k .term .term .power
  | power : Joins (.symbol .power) .unsigned .factor .factor

/-- A token that carries nothing. -/
def bare (k : TokenKind) : TokenKind × Payload :=
  (k, .none)

mutual

/-- The expression may be written with these tokens where one of level `l` is asked for. -/
inductive Prints : Level → Expr → List (TokenKind × Payload) → Prop
  | integer (n : Nat) : Prints .factor (.integer n) [(.integer, .integer n)]
  | boolean (b : Bool) :
      Prints .factor (.boolean b) [bare (.keyword (if b then .kwTrue else .kwFalse))]
  | string (s : String) : Prints .factor (.string s) [(.string, .text s)]
  | var (name : String) : Prints .factor (.var name) [(.identifier, .text name)]
  | index {args : List Expr} {w : List (TokenKind × Payload)} (name : String)
      (h : PrintsItems args w) : Prints .factor (.index name args)
        ((.identifier, .text name) :: bare (.symbol .leftBracket) ::
          (w ++ [bare (.symbol .rightBracket)]))
  | callNone (name : String) : Prints .factor (.call name [])
      [(.identifier, .text name), bare (.symbol .leftParen), bare (.symbol .rightParen)]
  | call {args : List Expr} {w : List (TokenKind × Payload)} (name : String)
      (h : PrintsItems args w) : Prints .factor (.call name args)
        ((.identifier, .text name) :: bare (.symbol .leftParen) ::
          (w ++ [bare (.symbol .rightParen)]))
  | listNone : Prints .factor (.list []) [bare (.symbol .leftBrace), bare (.symbol .rightBrace)]
  | list {items : List Expr} {w : List (TokenKind × Payload)} (h : PrintsItems items w) :
      Prints .factor (.list items)
        (bare (.symbol .leftBrace) :: (w ++ [bare (.symbol .rightBrace)]))
  | parens {e : Expr} {w : List (TokenKind × Payload)} (h : Prints .expression e w) :
      Prints .factor e (bare (.symbol .leftParen) :: (w ++ [bare (.symbol .rightParen)]))
  | lift {e : Expr} {w : List (TokenKind × Payload)} {l l' : Level} (hl : l.Lifts l')
      (h : Prints l' e w) : Prints l e w
  | neg {e : Expr} {w : List (TokenKind × Payload)} {signs : List Symbol}
      (hs : ∀ s ∈ signs, s = .plus ∨ s = .minus) (hodd : signs.count .minus % 2 = 1)
      (h : Prints .unsigned e w) :
      Prints .power (.neg e) (signs.map (fun s => bare (.symbol s)) ++ w)
  | binary {op : TokenKind} {l left right : Level} {a b : Expr} {u v : List (TokenKind × Payload)}
      (ho : Joins op l left right) (ha : Prints left a u) (hb : Prints right b v) :
      Prints l (.binary op a b) (u ++ bare op :: v)
  /-- What follows `not` belongs to it up to the end of the expression. -/
  | not {e : Expr} {w : List (TokenKind × Payload)} (h : Prints .expression e w) :
      Prints .expression (.not e) (bare (.keyword .kwNot) :: w)

/-- The expressions may be written with these tokens, with commas between them. -/
inductive PrintsItems : List Expr → List (TokenKind × Payload) → Prop
  | one {e : Expr} {w : List (TokenKind × Payload)} (h : Prints .expression e w) :
      PrintsItems [e] w
  | more {e : Expr} {es : List Expr} {u v : List (TokenKind × Payload)}
      (h : Prints .expression e u) (hs : PrintsItems es v) :
      PrintsItems (e :: es) (u ++ bare (.symbol .comma) :: v)

end

end ScriptCheck
