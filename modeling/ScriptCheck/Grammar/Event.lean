import ScriptCheck.Token.Basic

/-!
# Parse events

What the recognizer reports while it reads a program. Operands come before their operator and
the parts of a statement between its `enter` and its `exit`, so the events are the program in
postfix order.
-/

namespace ScriptCheck

inductive StatementKind
  | assignment | call | ifThen | forLoop | whileLoop | repeatLoop | returnValue | breakLoop
  | functionDef | print
deriving DecidableEq, Repr

structure Parameter where
  name : String
  byRef : Bool
deriving DecidableEq, Repr

inductive UnaryOp
  | negate | not
deriving DecidableEq, Repr

inductive Event
  | enter (kind : StatementKind) (l : Location)
  | exit (kind : StatementKind)
  | integer (n : Int) (l : Location)
  | real (x : Binary64) (l : Location)
  | string (s : String) (l : Location)
  | boolean (b : Bool) (l : Location)
  | var (name : String) (l : Location)
  | index (name : String) (arity : Nat) (l : Location)
  | call (name : String) (arity : Nat) (l : Location)
  | list (length : Nat) (l : Location)
  | binary (op : TokenKind) (l : Location)
  | unary (op : UnaryOp) (l : Location)
  | define (name : String) (parameters : List Parameter) (l : Location)
deriving DecidableEq, Repr

end ScriptCheck
