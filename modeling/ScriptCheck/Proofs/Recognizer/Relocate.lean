import ScriptCheck.Proofs.Grammar.Exact
import ScriptCheck.Proofs.Lexing.Spaced
import ScriptCheck.Proofs.Recognizer.Listing

/-!
# Tokens in other places

A map of places moves tokens, events and goals. The recognizer never looks at a place, it only hands
places on, so all its moves commute with such a map, and paths are carried along by it. What a
program means apart from its places is what is left when all of them become one.
-/

namespace ScriptCheck

variable {f : Location → Location}

/-! ### Tokens and events -/

/-- The token at another place. -/
def Token.relocate (f : Location → Location) (t : Token) : Token :=
  { t with location := f t.location }

namespace Token

@[simp] theorem relocate_kind (t : Token) : (t.relocate f).kind = t.kind := rfl

@[simp] theorem relocate_location (t : Token) : (t.relocate f).location = f t.location := rfl

@[simp] theorem relocate_text (t : Token) : (t.relocate f).text = t.text := rfl

@[simp] theorem relocate_integer (t : Token) : (t.relocate f).integer = t.integer := rfl

@[simp] theorem relocate_real (t : Token) : (t.relocate f).real = t.real := rfl

end Token

/-- The event at another place. -/
def Event.relocate (f : Location → Location) : Event → Event
  | enter k l => enter k (f l)
  | exit k => exit k
  | integer n l => integer n (f l)
  | real x l => real x (f l)
  | string s l => string s (f l)
  | boolean b l => boolean b (f l)
  | var name l => var name (f l)
  | index name n l => index name n (f l)
  | call name n l => call name n (f l)
  | list n l => list n (f l)
  | binary op l => binary op (f l)
  | unary op l => unary op (f l)
  | define name parameters l => define name parameters (f l)

/-- The event without its place. -/
def Event.unplaced (e : Event) : Event :=
  e.relocate fun _ => .start

/-! ### Goals and moves -/

def Group.relocate (f : Location → Location) : Group → Group
  | index name l => index name (f l)
  | call name l => call name (f l)
  | list l => list (f l)

@[simp] theorem Group.relocate_close (g : Group) : (g.relocate f).close = g.close := by
  cases g <;> rfl

@[simp] theorem Group.relocate_event (g : Group) (n : Nat) :
    (g.relocate f).event n = (g.event n).relocate f := by
  cases g <;> rfl

def Header.relocate (f : Location → Location) (h : Header) : Header :=
  { h with location := f h.location }

@[simp] theorem Header.relocate_event (h : Header) :
    (h.relocate f).event = h.event.relocate f := rfl

@[simp] theorem Header.relocate_add (h : Header) (t : Token) (b : Bool) :
    (h.relocate f).add (t.relocate f) b = (h.add t b).relocate f := rfl

def Goal.relocate (f : Location → Location) : Goal → Goal
  | report e => report (e.relocate f)
  | target name l => target name (f l)
  | functionName l => functionName (f l)
  | functionHead h => functionHead (h.relocate f)
  | firstParameter h => firstParameter (h.relocate f)
  | parameter h => parameter (h.relocate f)
  | refParameter h => refParameter (h.relocate f)
  | moreParameters h => moreParameters (h.relocate f)
  | signs l negative => signs (f l) negative
  | reference name l => reference name (f l)
  | firstItem g => firstItem (g.relocate f)
  | moreItems n g => moreItems n (g.relocate f)
  | g => g

def Move.relocate (f : Location → Location) : Move → Move
  | reduce es gs => reduce (es.map (Event.relocate f)) (gs.map (Goal.relocate f))
  | shift es gs => shift (es.map (Event.relocate f)) (gs.map (Goal.relocate f))
  | look k yes no => look k (yes.map (Goal.relocate f)) (no.map (Goal.relocate f))
  | refuse e => refuse e

/-- Goals move in the same way wherever their tokens stand. -/
theorem Goal.step_relocate (f : Location → Location) (g : Goal) (t : Token) :
    (g.relocate f).step (t.relocate f) = (g.step t).relocate f := by
  cases g <;> simp only [Goal.relocate, step, demand, operator, stepStatement, stepTarget,
    stepFactor, stepReference, stepSigns, stepItems, stepParameter, stepMoreParameters, enter,
    framed, Token.relocate_kind, Token.relocate_text, Token.relocate_location,
    Token.relocate_integer, Token.relocate_real, Group.relocate_close, Group.relocate_event,
    Header.relocate_event, Header.relocate_add]
  all_goals (repeat' split)
  all_goals simp_all only [Move.relocate, Goal.relocate, List.map_cons, List.map_nil,
    List.cons_append, List.nil_append, Bool.false_eq_true]
  all_goals rfl

/-! ### Paths -/

section

variable {n n' : Token} {ts ts' : List Token} {goals goals' : List Goal} {es es' : List Event}

theorem Token.relocate_headD (ts : List Token) (n : Token) :
    (ts.map (Token.relocate f)).headD (n.relocate f) = (ts.headD n).relocate f := by
  cases ts <;> rfl

theorem Reaches.relocate (h : Reaches n goals ts es goals') (f : Location → Location) :
    Reaches (n.relocate f) (goals.map (Goal.relocate f)) (ts.map (Token.relocate f))
      (es.map (Event.relocate f)) (goals'.map (Goal.relocate f)) := by
  induction h with
  | refl => exact .refl _
  | reduce hg _ ih =>
    rw [List.map_append] at ih ⊢
    refine .reduce ?_ ih
    rw [Token.relocate_headD, Goal.step_relocate, hg]
    rfl
  | shift hg _ ih =>
    rw [List.map_append] at ih ⊢
    refine .shift ?_ ih
    rw [Goal.step_relocate, hg]
    rfl
  | @look g goals yes no goals' t ts k es hg _ ih =>
    rw [List.map_append] at ih
    have hg' : (g.relocate f).step (t.relocate f) =
        .look k (yes.map (Goal.relocate f)) (no.map (Goal.relocate f)) := by
      rw [Goal.step_relocate, hg]
      rfl
    refine .look hg' ?_
    rw [Token.relocate_headD, Token.relocate_kind]
    split at ih <;> rename_i hk
    · rwa [if_pos hk]
    · rwa [if_neg hk]

/-- Two paths to the end over the same tokens report the same. -/
theorem Reaches.events_unique (h : Reaches n goals ts es []) (h' : Reaches n goals ts es' []) :
    es = es' := by
  have hl := Listing.feeds (ts.headD n) ts [] n n.location rfl
  have hrun : run _ [] goals = _ := run_of_reaches h hl rfl
  rw [run_of_reaches h' hl rfl] at hrun
  simpa using hrun.symm

/-- Tokens in other places make for the same events in other places. -/
theorem Reaches.unplaced_eq (h : Reaches n program ts es []) (h' : Reaches n' program ts' es' [])
    (hn : n.content = n'.content) (ht : ts.map Token.content = ts'.map Token.content) :
    es.map Event.unplaced = es'.map Event.unplaced := by
  have hr := h.relocate fun _ => .start
  have hr' := h'.relocate fun _ => .start
  have hc (t : Token) : t.relocate (fun _ => .start) = ⟨t.content.1, t.content.2, .start⟩ := rfl
  have hts (us : List Token) : us.map (Token.relocate fun _ => .start) =
      (us.map Token.content).map fun c => ⟨c.1, c.2, .start⟩ := by
    rw [List.map_map]
    rfl
  rw [hc, hts, hn, ht] at hr
  rw [hc, hts] at hr'
  exact hr.events_unique hr'

/-- A text is accepted, and the same is reported for it, if a path reads what its tokens are. -/
theorem check_of_reaches {text : String} {us : List Token} {m : Token}
    (h : Reaches n program ts es []) (hu : tokenize text = .ok (us ++ [m]))
    (hm : m.content = n.content) (hc : us.map Token.content = ts.map Token.content) :
    check text = .ok () ∧ (recognize text).events.map Event.unplaced = es.map Event.unplaced := by
  have hn : n.kind = .eof := h.kind_eq_eof rfl
  have hk (us : List Token) : us.map Token.kind = (us.map Token.content).map Prod.fst := by
    simp [Token.content]
  have hg : Generates program (ts.map Token.kind ++ []) :=
    h.generates wellFormed_program hn.symm (generates_nil.2 rfl)
  rw [List.append_nil, hk ts, ← hc, ← hk us] at hg
  obtain ⟨es', hr, hck, he⟩ :=
    exists_reaches_of_tokenize hu ((congrArg Prod.fst hm).trans hn) hg
  rw [he]
  exact ⟨hck, hr.unplaced_eq h hm hc⟩

end

end ScriptCheck
