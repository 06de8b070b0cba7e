import ScriptCheck.Proofs.Recognizer.Relocate

/-!
# Syntax trees and their events

A program as a tree, and the events that are reported of it. A consumer of events can build a tree
again: it keeps what it has seen of each open statement, the expressions on a stack. Some of a
program cannot be seen in its events: where the statements of an `else` part begin, which way a loop
counts, and whether a line ends behind what is printed. A tree without these is a merged one. The
events of a program are enough for its merged tree, and for no more.
-/

namespace ScriptCheck

/-! ### Trees -/

inductive Term
  | integer (n : Int)
  | real (x : Binary64)
  | string (s : String)
  | boolean (b : Bool)
  | var (name : String)
  | index (name : String) (indices : List Term)
  | call (name : String) (arguments : List Term)
  | list (items : List Term)
  | unary (op : UnaryOp) (e : Term)
  | binary (op : TokenKind) (a b : Term)

/-- The variable that is assigned to, or the place in it. -/
def Term.target (name : String) : List Term → Term
  | [] => .var name
  | e :: es => .index name (e :: es)

inductive Statement
  | assign (name : String) (indices : List Term) (value : Term)
  | call (name : String) (arguments : List Term)
  | ifThen (condition : Term) (thenPart : List Statement)
  | ifElse (condition : Term) (thenPart elsePart : List Statement)
  | forLoop (name : String) (first : Term) (down : Bool) (last : Term) (body : List Statement)
  | whileLoop (condition : Term) (body : List Statement)
  | repeatLoop (body : List Statement) (condition : Term)
  | returnValue (value : Term)
  | breakLoop
  | functionDef (name : String) (parameters : List Parameter) (body : List Statement)
  | print (line : Bool) (value : Term)

/-! ### What is reported of a tree -/

mutual

/-- What is reported of an expression, apart from places. -/
def Term.events : Term → List Event
  | integer n => [.integer n .start]
  | real x => [.real x .start]
  | string s => [.string s .start]
  | boolean b => [.boolean b .start]
  | var name => [.var name .start]
  | index name indices => eventsOf indices ++ [.index name indices.length .start]
  | call name arguments => eventsOf arguments ++ [.call name arguments.length .start]
  | list items => eventsOf items ++ [.list items.length .start]
  | unary op e => e.events ++ [.unary op .start]
  | binary op a b => a.events ++ (b.events ++ [.binary op .start])

def Term.eventsOf : List Term → List Event
  | [] => []
  | e :: es => e.events ++ eventsOf es

end

/-- The events of the parts of a statement between those of its ends. -/
def enclose (k : StatementKind) (es : List Event) : List Event :=
  .enter k .start :: (es ++ [.exit k])

mutual

/-- What is reported of a statement, apart from places. -/
def Statement.events : Statement → List Event
  | assign name indices value =>
    enclose .assignment ((Term.target name indices).events ++ value.events)
  | call name arguments => enclose .call (Term.call name arguments).events
  | ifThen c body => enclose .ifThen (c.events ++ eventsOf body)
  | ifElse c body other => enclose .ifThen (c.events ++ (eventsOf body ++ eventsOf other))
  | forLoop name first _ last body =>
    enclose .forLoop ((Term.var name).events ++ (first.events ++ (last.events ++ eventsOf body)))
  | whileLoop c body => enclose .whileLoop (c.events ++ eventsOf body)
  | repeatLoop body c => enclose .repeatLoop (eventsOf body ++ c.events)
  | returnValue value => enclose .returnValue value.events
  | breakLoop => enclose .breakLoop []
  | functionDef name parameters body =>
    enclose .functionDef (.define name parameters .start :: eventsOf body)
  | print _ value => enclose .print value.events

def Statement.eventsOf : List Statement → List Event
  | [] => []
  | s :: ss => s.events ++ eventsOf ss

end

/-! ### What is left of a tree in its events -/

mutual

/-- The statement with the statements of its `else` parts behind those of the `then` parts, all its
loops counting up and no line ended. -/
def Statement.merged : Statement → Statement
  | ifThen c body => ifThen c (mergedAll body)
  | ifElse c body other => ifThen c (mergedAll body ++ mergedAll other)
  | forLoop name first _ last body => forLoop name first false last (mergedAll body)
  | whileLoop c body => whileLoop c (mergedAll body)
  | repeatLoop body c => repeatLoop (mergedAll body) c
  | functionDef name parameters body => functionDef name parameters (mergedAll body)
  | print _ value => print false value
  | s => s

def Statement.mergedAll : List Statement → List Statement
  | [] => []
  | s :: ss => s.merged :: mergedAll ss

end

/-! ### Building a tree -/

/-- Takes the parts of an expression off a stack and puts the expression there. -/
def Term.push : List Term → Event → Option (List Term)
  | stack, .integer n _ => some (integer n :: stack)
  | stack, .real x _ => some (real x :: stack)
  | stack, .string s _ => some (string s :: stack)
  | stack, .boolean b _ => some (boolean b :: stack)
  | stack, .var name _ => some (var name :: stack)
  | stack, .index name n _ => some (index name (stack.take n).reverse :: stack.drop n)
  | stack, .call name n _ => some (call name (stack.take n).reverse :: stack.drop n)
  | stack, .list n _ => some (list (stack.take n).reverse :: stack.drop n)
  | e :: stack, .unary op _ => some (unary op e :: stack)
  | b :: a :: stack, .binary op _ => some (binary op a b :: stack)
  | _, _ => none

/-- What has been seen of an open statement. The latest comes first. -/
structure Parts where
  terms : List Term
  header : Option (String × List Parameter)
  body : List Statement

namespace Parts

def nothing : Parts :=
  ⟨[], none, []⟩

/-- The statement that has these parts. -/
def statement : StatementKind → Parts → Option Statement
  | .assignment, ⟨[value, .var name], none, []⟩ => some (.assign name [] value)
  | .assignment, ⟨[value, .index name indices], none, []⟩ => some (.assign name indices value)
  | .call, ⟨[.call name arguments], none, []⟩ => some (.call name arguments)
  | .ifThen, ⟨[c], none, body⟩ => some (.ifThen c body.reverse)
  | .forLoop, ⟨[last, first, .var name], none, body⟩ =>
    some (.forLoop name first false last body.reverse)
  | .whileLoop, ⟨[c], none, body⟩ => some (.whileLoop c body.reverse)
  | .repeatLoop, ⟨[c], none, body⟩ => some (.repeatLoop body.reverse c)
  | .returnValue, ⟨[value], none, []⟩ => some (.returnValue value)
  | .breakLoop, ⟨[], none, []⟩ => some .breakLoop
  | .functionDef, ⟨[], some (name, parameters), body⟩ =>
    some (.functionDef name parameters body.reverse)
  | .print, ⟨[value], none, []⟩ => some (.print false value)
  | _, _ => none

/-- What is known of the open statements behind an event. The innermost comes first. -/
def see : List Parts → Event → Option (List Parts)
  | opened, .enter _ _ => some (nothing :: opened)
  | p :: q :: opened, .exit k =>
    (statement k p).map fun s => { q with body := s :: q.body } :: opened
  | p :: opened, .define name parameters _ =>
    some ({ p with header := some (name, parameters) } :: opened)
  | p :: opened, e => (Term.push p.terms e).map fun stack => { p with terms := stack } :: opened
  | [], _ => none

/-- What is known of the open statements behind some events. -/
def seeAll (es : List Event) (opened : List Parts) : Option (List Parts) :=
  es.foldlM see opened

end Parts

/-- The program that events make up. -/
def treeOfEvents (es : List Event) : Option (List Statement) :=
  match Parts.seeAll es [.nothing] with
  | some [⟨[], none, body⟩] => some body.reverse
  | _ => none

section

open Parts

variable {p q : Parts} {opened : List Parts} {es : List Event} {k : StatementKind} {s : Statement}

@[simp] theorem Parts.seeAll_nil : seeAll [] opened = some opened := rfl

@[simp] theorem Parts.seeAll_append (es es' : List Event) :
    seeAll (es ++ es') opened = (seeAll es opened).bind (seeAll es') :=
  List.foldlM_append

mutual

/-- The events of an expression put it on the stack. -/
@[simp] theorem Term.seeAll_events (e : Term) (p : Parts) (opened : List Parts) :
    seeAll e.events (p :: opened) = some ({ p with terms := e :: p.terms } :: opened) := by
  match e with
  | .integer _ | .real _ | .string _ | .boolean _ | .var _ => rfl
  | .index _ es | .call _ es | .list es =>
    rw [events, seeAll_append, seeAll_eventsOf es]
    simp [seeAll, see, push]
  | .unary _ e =>
    rw [events, seeAll_append, seeAll_events e]
    rfl
  | .binary _ a b =>
    rw [events, seeAll_append, seeAll_events a, Option.bind_some, seeAll_append, seeAll_events b]
    rfl

@[simp] theorem Term.seeAll_eventsOf (es : List Term) (p : Parts) (opened : List Parts) :
    seeAll (eventsOf es) (p :: opened) =
      some ({ p with terms := es.reverse ++ p.terms } :: opened) := by
  match es with
  | [] => rfl
  | e :: es =>
    rw [eventsOf, seeAll_append, seeAll_events e, Option.bind_some, seeAll_eventsOf es]
    simp

end

/-- When a statement ends it is put behind those that were seen before. -/
theorem Parts.seeAll_enclose (q : Parts)
    (h : seeAll es (nothing :: p :: opened) = some (q :: p :: opened))
    (hs : statement k q = some s) :
    seeAll (enclose k es) (p :: opened) = some ({ p with body := s :: p.body } :: opened) := by
  change (seeAll (es ++ [.exit k]) (nothing :: p :: opened)) = _
  rw [seeAll_append, h]
  simp [seeAll, see, hs]

mutual

theorem Statement.seeAll_events (s : Statement) (p : Parts) (opened : List Parts) :
    seeAll s.events (p :: opened) = some ({ p with body := s.merged :: p.body } :: opened) := by
  match s with
  | .assign name [] value =>
    exact seeAll_enclose ⟨[value, .var name], none, []⟩ (by simp [Term.target, nothing]) rfl
  | .assign name (i :: is) value =>
    exact seeAll_enclose ⟨[value, .index name (i :: is)], none, []⟩
      (by simp [Term.target, nothing]) rfl
  | .call name es => exact seeAll_enclose ⟨[.call name es], none, []⟩ (by simp [nothing]) rfl
  | .returnValue e => exact seeAll_enclose ⟨[e], none, []⟩ (by simp [nothing]) rfl
  | .print line e => exact seeAll_enclose ⟨[e], none, []⟩ (by simp [nothing]) rfl
  | .breakLoop => exact seeAll_enclose ⟨[], none, []⟩ rfl rfl
  | .ifThen c body =>
    have hbody := seeAll_eventsOf body
    exact seeAll_enclose ⟨[c], none, (mergedAll body).reverse⟩ (by simp [nothing, hbody])
      (by simp [statement, merged])
  | .ifElse c body other =>
    have hbody := seeAll_eventsOf body
    have hother := seeAll_eventsOf other
    exact seeAll_enclose ⟨[c], none, (mergedAll body ++ mergedAll other).reverse⟩
      (by simp [nothing, hbody, hother]) (by simp [statement, merged])
  | .forLoop name first down last body =>
    have hbody := seeAll_eventsOf body
    exact seeAll_enclose ⟨[last, first, .var name], none, (mergedAll body).reverse⟩
      (by simp [nothing, hbody]) (by simp [statement, merged])
  | .whileLoop c body =>
    have hbody := seeAll_eventsOf body
    exact seeAll_enclose ⟨[c], none, (mergedAll body).reverse⟩ (by simp [nothing, hbody])
      (by simp [statement, merged])
  | .repeatLoop body c =>
    have hbody := seeAll_eventsOf body
    exact seeAll_enclose ⟨[c], none, (mergedAll body).reverse⟩ (by simp [nothing, hbody])
      (by simp [statement, merged])
  | .functionDef name parameters body =>
    have hbody := seeAll_eventsOf body ⟨[], some (name, parameters), []⟩ (p :: opened)
    rw [List.append_nil] at hbody
    exact seeAll_enclose ⟨[], some (name, parameters), (mergedAll body).reverse⟩ hbody
      (by simp [statement, merged])

theorem Statement.seeAll_eventsOf (ss : List Statement) (p : Parts) (opened : List Parts) :
    seeAll (eventsOf ss) (p :: opened) =
      some ({ p with body := (mergedAll ss).reverse ++ p.body } :: opened) := by
  match ss with
  | [] => rfl
  | s :: ss =>
    rw [eventsOf, seeAll_append, seeAll_events s, Option.bind_some, seeAll_eventsOf ss]
    simp [mergedAll]

end

theorem Statement.eventsOf_append (ss ss' : List Statement) :
    eventsOf (ss ++ ss') = eventsOf ss ++ eventsOf ss' := by
  induction ss with
  | nil => rfl
  | cons s ss ih => rw [List.cons_append, eventsOf, eventsOf, ih, List.append_assoc]

mutual

/-- What a merged tree leaves out is not reported. -/
theorem Statement.events_merged (s : Statement) : s.merged.events = s.events := by
  match s with
  | .assign .. | .call .. | .returnValue _ | .breakLoop | .print .. => rfl
  | .ifThen _ body | .forLoop _ _ _ _ body | .whileLoop _ body | .repeatLoop body _
  | .functionDef _ _ body =>
    simp [merged, events, eventsOf_mergedAll body]
  | .ifElse _ body other =>
    simp [merged, events, eventsOf_append, eventsOf_mergedAll body, eventsOf_mergedAll other]

theorem Statement.eventsOf_mergedAll (ss : List Statement) :
    eventsOf (mergedAll ss) = eventsOf ss := by
  match ss with
  | [] => rfl
  | s :: ss => rw [mergedAll, eventsOf, eventsOf, events_merged s, eventsOf_mergedAll ss]

end

/-- The events of a program make up its merged tree. -/
theorem treeOfEvents_eventsOf (ss : List Statement) :
    treeOfEvents (Statement.eventsOf ss) = some (Statement.mergedAll ss) := by
  rw [treeOfEvents, Statement.seeAll_eventsOf]
  simp [nothing]

/-- Two programs are reported alike if they have the same merged tree, and only then. -/
theorem eventsOf_eq_iff {ss ss' : List Statement} :
    Statement.eventsOf ss = Statement.eventsOf ss' ↔
      Statement.mergedAll ss = Statement.mergedAll ss' := by
  constructor
  · intro h
    have ht := treeOfEvents_eventsOf ss
    rw [h, treeOfEvents_eventsOf] at ht
    exact (Option.some.inj ht).symm
  · intro h
    rw [← Statement.eventsOf_mergedAll ss, h, Statement.eventsOf_mergedAll]

end

end ScriptCheck
