import ScriptCheck.Grammar.Event
import ScriptCheck.Grammar.ParseError

/-!
# The grammar as goals

A goal is a part of a program that is still to be read. In front of a token a goal makes one move:
it uses the token up, or it gives way to smaller goals in front of the same token, or it refuses
the token. One goal, a statement that begins with a name, has to look at the token behind before it
gives way. The grammar is the table `Goal.step` of these moves:

```text
program    ::= statements end-of-text
statements ::= [ statement { ';' statement } [ ';' ] ]
statement  ::= name [ '[' list ']' ] '=' expression | name '(' [ list ] ')'
             | 'if' expression 'then' statements [ 'else' statements ] 'end'
             | 'for' name '=' expression ('to' | 'downto') expression 'do' statements 'end'
             | 'while' expression 'do' statements 'end'
             | 'repeat' statements 'until' expression
             | 'return' expression | 'break' | ('print' | 'println') '(' expression ')'
             | 'function' name [ '(' [ parameter { ',' parameter } ] ')' ] statements 'end'
parameter  ::= [ 'ref' ] name
expression ::= sum [ relation expression ]
sum        ::= product { ('+' | '-' | 'or' | 'xor') product }
product    ::= power { ('*' | '/' | 'and' | 'mod' | 'div') power }
power      ::= { '+' | '-' } factor [ '^' factor ]
factor     ::= constant | name [ '[' list ']' | '(' [ list ] ')' ]
             | '(' expression ')' | 'not' expression | '{' [ list ] '}'
list       ::= expression { ',' expression }
```
-/

namespace ScriptCheck

/-! ### Goals -/

/-- A list of expressions in brackets, and what it belongs to. -/
inductive Group
  | index (name : String) (l : Location)
  | call (name : String) (l : Location)
  | list (l : Location)
deriving DecidableEq, Repr

namespace Group

def close : Group → Symbol
  | index .. => .rightBracket
  | call .. => .rightParen
  | list _ => .rightBrace

/-- What is reported of a group of `n` expressions. -/
def event (n : Nat) : Group → Event
  | index name l => .index name n l
  | call name l => .call name n l
  | list l => .list n l

end Group

/-- A function header that is read up to some parameter. -/
structure Header where
  name : String
  location : Location
  parameters : List Parameter
deriving DecidableEq, Repr

namespace Header

def event (h : Header) : Event :=
  .define h.name h.parameters h.location

def add (h : Header) (t : Token) (byRef : Bool) : Header :=
  { h with parameters := h.parameters ++ [⟨t.text, byRef⟩] }

end Header

inductive Goal
  /-- Nothing to read: an event to report. -/
  | report (e : Event)
  | symbol (s : Symbol)
  | keyword (k : Keyword)
  | endOfProgram
  | statements
  /-- Behind a statement: a semicolon and more, or the end of the list. -/
  | moreStatements
  | statement
  | assignment
  /-- Behind the name that is assigned to. -/
  | target (name : String) (l : Location)
  | elseBranch
  | loopVariable
  | direction
  | functionName (l : Location)
  | functionHead (h : Header)
  | firstParameter (h : Header)
  | parameter (h : Header)
  /-- Behind `ref`. -/
  | refParameter (h : Header)
  | moreParameters (h : Header)
  | expression
  | relationTail
  | sum
  | sumTail
  | product
  | productTail
  | power
  /-- Among the signs of a power that begins at `l`. -/
  | signs (l : Location) (negative : Bool)
  | powerTail
  | factor
  /-- Behind a name in an expression. -/
  | reference (name : String) (l : Location)
  | firstItem (g : Group)
  /-- Behind the `n`th expression of a group. -/
  | moreItems (n : Nat) (g : Group)
deriving DecidableEq, Repr

/-- What a goal does in front of a token. Events are reported before the token is used up. -/
inductive Move
  | reduce (events : List Event) (goals : List Goal)
  | shift (events : List Event) (goals : List Goal)
  /-- Gives way to `yes` when the token behind is of kind `k`, and otherwise to `no`. -/
  | look (k : TokenKind) (yes no : List Goal)
  | refuse (e : Expectation)
deriving DecidableEq, Repr

/-! ### Classes of tokens -/

namespace TokenKind

def isRelation : TokenKind → Bool
  | symbol .less | symbol .lessEq | symbol .greater | symbol .greaterEq | symbol .equal
  | symbol .notEqual => true
  | _ => false

def isAdditive : TokenKind → Bool
  | symbol .plus | symbol .minus | keyword .kwOr | keyword .kwXor => true
  | _ => false

def isMultiplicative : TokenKind → Bool
  | symbol .times | symbol .divide | keyword .kwAnd | keyword .kwMod | keyword .kwDiv => true
  | _ => false

/-- The tokens in front of which a list of statements ends. -/
def endsStatements : TokenKind → Bool
  | eof | keyword .kwUntil | keyword .kwEnd | keyword .kwElse => true
  | _ => false

end TokenKind

/-! ### Moves -/

namespace Goal

/-- Uses up the operator `t` and reports it behind its right operand. -/
def operator (t : Token) (operand : Goal) (more : List Goal) : Move :=
  .shift [] (operand :: .report (.binary t.kind t.location) :: more)

/-- Uses up the first token of a statement. -/
def enter (k : StatementKind) (t : Token) (parts : List Goal) : Move :=
  .shift [.enter k t.location] (parts ++ [.report (.exit k)])

/-- A statement whose only part reads its first token too. -/
def framed (k : StatementKind) (t : Token) (part : Goal) : List Goal :=
  [.report (.enter k t.location), part, .report (.exit k)]

/-- The move of a goal that asks for a token of one kind. -/
def demand (k : TokenKind) (t : Token) (goals : List Goal) : Move :=
  if t.kind = k then .shift [] goals else .refuse (.kind k)

def stepStatement (t : Token) : Move :=
  match t.kind with
  | .identifier =>
    .look (.symbol .leftParen) (framed .call t factor) (framed .assignment t assignment)
  | .keyword .kwIf => enter .ifThen t [expression, keyword .kwThen, statements, elseBranch]
  | .keyword .kwFor =>
    enter .forLoop t [loopVariable, symbol .assign, expression, direction, expression,
      keyword .kwDo, statements, keyword .kwEnd]
  | .keyword .kwWhile =>
    enter .whileLoop t [expression, keyword .kwDo, statements, keyword .kwEnd]
  | .keyword .kwRepeat => enter .repeatLoop t [statements, keyword .kwUntil, expression]
  | .keyword .kwReturn => enter .returnValue t [expression]
  | .keyword .kwBreak => enter .breakLoop t []
  | .keyword .kwFunction =>
    enter .functionDef t [functionName t.location, statements, keyword .kwEnd]
  | .keyword .kwPrint | .keyword .kwPrintln =>
    enter .print t [symbol .leftParen, expression, symbol .rightParen]
  | _ => .refuse .statement

def stepTarget (name : String) (l : Location) (t : Token) : Move :=
  match t.kind with
  | .symbol .leftBracket => .shift [] [expression, moreItems 1 (.index name l)]
  | _ => .reduce [.var name l] []

def stepFactor (t : Token) : Move :=
  match t.kind with
  | .integer => .shift [.integer t.integer t.location] []
  | .real => .shift [.real t.real t.location] []
  | .string => .shift [.string t.text t.location] []
  | .keyword .kwTrue => .shift [.boolean true t.location] []
  | .keyword .kwFalse => .shift [.boolean false t.location] []
  | .identifier => .shift [] [reference t.text t.location]
  | .symbol .leftParen => .shift [] [expression, symbol .rightParen]
  | .keyword .kwNot => .shift [] [expression, report (.unary .not t.location)]
  | .symbol .leftBrace => .shift [] [firstItem (.list t.location)]
  | _ => .refuse .expression

def stepReference (name : String) (l : Location) (t : Token) : Move :=
  match t.kind with
  | .symbol .leftBracket => .shift [] [expression, moreItems 1 (.index name l)]
  | .symbol .leftParen => .shift [] [firstItem (.call name l)]
  | _ => .reduce [.var name l] []

def stepSigns (l : Location) (negative : Bool) (t : Token) : Move :=
  match t.kind with
  | .symbol .plus => .shift [] [signs l negative]
  | .symbol .minus => .shift [] [signs l !negative]
  | _ =>
    .reduce [] ([factor, powerTail] ++ if negative then [report (.unary .negate l)] else [])

def stepItems (n : Nat) (g : Group) (t : Token) : Move :=
  match t.kind with
  | .symbol .comma => .shift [] [expression, moreItems (n + 1) g]
  | _ => demand (.symbol g.close) t [report (g.event n)]

def stepParameter (h : Header) (t : Token) : Move :=
  match t.kind with
  | .keyword .kwRef => .shift [] [refParameter h]
  | _ => demand .identifier t [moreParameters (h.add t false)]

def stepMoreParameters (h : Header) (t : Token) : Move :=
  match t.kind with
  | .symbol .comma => .shift [] [parameter h]
  | _ => demand (.symbol .rightParen) t [report h.event]

/-- The move of a goal in front of a token. -/
def step (t : Token) : Goal → Move
  | report e => .reduce [e] []
  | symbol s => demand (.symbol s) t []
  | keyword k => demand (.keyword k) t []
  | endOfProgram => if t.kind = .eof then .reduce [] [] else .refuse .endOfProgram
  | statements =>
    if t.kind.endsStatements then .reduce [] [] else .reduce [] [statement, moreStatements]
  | moreStatements =>
    if t.kind = .symbol .semicolon then .shift [] [statements] else .reduce [] []
  | statement => stepStatement t
  | assignment =>
    demand .identifier t [target t.text t.location, symbol .assign, expression]
  | target name l => stepTarget name l t
  | elseBranch =>
    if t.kind = .keyword .kwElse then .shift [] [statements, keyword .kwEnd]
    else .reduce [] [keyword .kwEnd]
  | loopVariable => demand .identifier t [report (.var t.text t.location)]
  | direction =>
    if t.kind = .keyword .kwTo ∨ t.kind = .keyword .kwDownto then .shift [] []
    else .refuse .direction
  | functionName l => demand .identifier t [functionHead ⟨t.text, l, []⟩]
  | functionHead h =>
    if t.kind = .symbol .leftParen then .shift [] [firstParameter h] else .reduce [h.event] []
  | firstParameter h =>
    if t.kind = .symbol .rightParen then .shift [] [report h.event] else .reduce [] [parameter h]
  | parameter h => stepParameter h t
  | refParameter h => demand .identifier t [moreParameters (h.add t true)]
  | moreParameters h => stepMoreParameters h t
  | expression => .reduce [] [sum, relationTail]
  | relationTail => if t.kind.isRelation then operator t expression [] else .reduce [] []
  | sum => .reduce [] [product, sumTail]
  | sumTail => if t.kind.isAdditive then operator t product [sumTail] else .reduce [] []
  | product => .reduce [] [power, productTail]
  | productTail =>
    if t.kind.isMultiplicative then operator t power [productTail] else .reduce [] []
  | power => .reduce [] [signs t.location false]
  | signs l negative => stepSigns l negative t
  | powerTail =>
    if t.kind = .symbol .power then operator t factor [] else .reduce [] []
  | factor => stepFactor t
  | reference name l => stepReference name l t
  | firstItem g =>
    if t.kind = .symbol g.close then .shift [] [report (g.event 0)]
    else .reduce [] [expression, moreItems 1 g]
  | moreItems n g => stepItems n g t

/-! ### Ranks -/

/-- Bounds the number of moves that a goal and what it gives way to can make in front of one
token. -/
def rank : Goal → Nat
  | statements => 6
  | statement => 4
  | elseBranch | firstParameter _ => 2
  | firstItem _ => 14
  | signs .. => 4
  | power => 5
  | product => 7
  | sum => 9
  | expression => 11
  | _ => 1

/-- The ranks of a stack of goals together. -/
def totalRank : List Goal → Nat
  | [] => 0
  | g :: goals => g.rank + totalRank goals

@[simp] theorem totalRank_nil : totalRank [] = 0 := rfl

@[simp] theorem totalRank_cons (g : Goal) (goals : List Goal) :
    totalRank (g :: goals) = g.rank + totalRank goals := rfl

@[simp] theorem totalRank_append (gs goals : List Goal) :
    totalRank (gs ++ goals) = totalRank gs + totalRank goals := by
  induction gs with
  | nil => simp
  | cons g gs ih => simp [ih, Nat.add_assoc]

theorem totalRank_lt_of_reduce {g : Goal} {t : Token} {es : List Event} {gs : List Goal}
    (h : g.step t = .reduce es gs) : totalRank gs < g.rank := by
  cases g <;> simp only [step, demand, operator, stepStatement, stepTarget, stepFactor,
    stepReference, stepSigns, stepItems, stepParameter, stepMoreParameters, enter] at h <;>
  (repeat' split at h) <;> simp only [Move.reduce.injEq, reduceCtorEq] at h <;>
  obtain ⟨-, rfl⟩ := h <;> simp [rank]

/-- The end of the text is never used up. -/
theorem kind_ne_eof_of_shift {g : Goal} {t : Token} {es : List Event} {gs : List Goal}
    (h : g.step t = .shift es gs) : t.kind ≠ .eof := by
  intro ht
  cases g <;> simp [step, demand, stepStatement, stepTarget, stepFactor, stepReference, stepSigns,
    stepItems, stepParameter, stepMoreParameters, ht, TokenKind.isRelation, TokenKind.isAdditive,
    TokenKind.isMultiplicative] at h
  all_goals split at h <;> simp at h

theorem demand_eq_shift {k : TokenKind} {t : Token} {gs goals : List Goal} {es : List Event}
    (hg : demand k t gs = .shift es goals) : t.kind = k ∧ es = [] ∧ goals = gs := by
  unfold demand at hg
  split at hg
  · rename_i hk
    obtain ⟨rfl, rfl⟩ : [] = es ∧ gs = goals := by simpa using hg
    exact ⟨hk, rfl, rfl⟩
  · cases hg

theorem demand_ne_reduce {k : TokenKind} {t : Token} {gs goals : List Goal} {es : List Event} :
    demand k t gs ≠ .reduce es goals := by
  unfold demand
  split <;> simp

/-- A goal looks ahead only where a statement begins with a name. -/
theorem eq_of_look {g : Goal} {t : Token} {k : TokenKind} {yes no : List Goal}
    (h : g.step t = .look k yes no) :
    g = statement ∧ t.kind = .identifier ∧ k = .symbol .leftParen ∧
      yes = framed .call t factor ∧ no = framed .assignment t assignment := by
  cases g <;> simp only [step, demand, operator, stepStatement, stepTarget, stepFactor,
    stepReference, stepSigns, stepItems, stepParameter, stepMoreParameters, enter] at h <;>
  (repeat' split at h) <;> simp_all

theorem kind_ne_eof_of_look {g : Goal} {t : Token} {k : TokenKind} {yes no : List Goal}
    (h : g.step t = .look k yes no) : t.kind ≠ .eof := by
  simp [(eq_of_look h).2.1]

theorem totalRank_lt_of_look {g : Goal} {t : Token} {k : TokenKind} {yes no : List Goal}
    (h : g.step t = .look k yes no) : totalRank yes < g.rank ∧ totalRank no < g.rank := by
  obtain ⟨rfl, -, -, rfl, rfl⟩ := eq_of_look h
  simp [framed, rank]

end Goal

end ScriptCheck
