import ScriptCheck.Proofs.Grammar.Stack
import ScriptCheck.Grammar.Recognizer

/-!
# The discipline of events

A consumer of events can keep a stack of values for every statement that is open, take the operands
of an event off the innermost one and put its value there. The events of any text, accepted or not,
can be replayed in this way: the operands are always there, statements are closed in the order in
which they should be, and each has the values it needs when it is closed.

Each goal has an effect on these stacks, which is that of the events it will report. Giving way to
smaller goals does not change what is still to happen, so the effect of all goals that are left is
known throughout a run.
-/

namespace ScriptCheck

open TokenFeed

/-! ### The machine -/

/-- An open statement. Of its stack of values only the height matters. -/
structure Frame where
  kind : StatementKind
  height : Nat
deriving DecidableEq, Repr

/-- How many values a statement has when it is closed. -/
def StatementKind.values : StatementKind → Nat
  | assignment => 2
  | forLoop => 3
  | call | ifThen | whileLoop | repeatLoop | returnValue | print => 1
  | breakLoop | functionDef => 0

/-- Takes `n` values off the innermost stack and puts one there. -/
def combine (n : Nat) : List Frame → Option (List Frame)
  | [] => none
  | f :: frames => if n ≤ f.height then some (⟨f.kind, f.height - n + 1⟩ :: frames) else none

/-- What an event does to the open statements, unless it finds them in disorder. -/
def Event.replay : Event → List Frame → Option (List Frame)
  | enter k _, frames => some (⟨k, 0⟩ :: frames)
  | exit k, f :: frames => if f = ⟨k, k.values⟩ then some frames else none
  | exit _, [] => none
  | integer .., frames | real .., frames | string .., frames | boolean .., frames
  | var .., frames => combine 0 frames
  | index _ n _, frames | call _ n _, frames | list n _, frames => combine n frames
  | binary .., frames => combine 2 frames
  | unary .., frames => combine 1 frames
  | define .., frames => some frames

def replay (es : List Event) (frames : List Frame) : Option (List Frame) :=
  es.foldlM (fun frames e => e.replay frames) frames

section

variable {es es' : List Event} {e : Event} {frames frames' : List Frame} {n : Nat}
  {k : StatementKind}

@[simp] theorem replay_nil : replay [] = some := rfl

@[simp] theorem replay_cons : replay (e :: es) frames = (e.replay frames).bind (replay es) := rfl

@[simp] theorem replay_append :
    replay (es ++ es') frames = (replay es frames).bind (replay es') :=
  List.foldlM_append

@[simp] theorem Group.replay_event (g : Group) (n : Nat) :
    (g.event n).replay frames = combine n frames := by
  cases g <;> rfl

@[simp] theorem combine_eq (n : Nat) (kind : StatementKind) (height : Nat) :
    combine n (⟨kind, height + n⟩ :: frames) = some (⟨kind, height + 1⟩ :: frames) := by
  simp [combine]

/-- An operation that finds its operands leaves one value in their place. -/
theorem exists_of_combine (h : combine n frames = some frames') :
    ∃ kind height below, frames = ⟨kind, height + n⟩ :: below ∧
      frames' = ⟨kind, height + 1⟩ :: below := by
  cases frames with
  | nil => simp [combine] at h
  | cons f below =>
    obtain ⟨hn, rfl⟩ : n ≤ f.height ∧ ⟨f.kind, f.height - n + 1⟩ :: below = frames' := by
      simpa [combine] using h
    exact ⟨f.kind, f.height - n, below, by rw [Nat.sub_add_cancel hn], rfl⟩

/-- A statement is closed where it is the innermost one and has its values. -/
theorem replay_exit_eq_some :
    (Event.exit k).replay frames = some frames' ↔ frames = ⟨k, k.values⟩ :: frames' := by
  cases frames with
  | nil => simp [Event.replay]
  | cons f below => by_cases hf : f = ⟨k, k.values⟩ <;> simp [Event.replay, hf]

example (l : Location) :
    replay [.enter .print l, .integer 1 l, .unary .negate l, .exit .print] [] = some [] := rfl

-- a statement with nothing to print cannot be closed
example (l : Location) : replay [.enter .print l, .exit .print] [] = none := rfl

end

/-! ### The effect of a goal -/

/-- What the events do that a goal will report before it is done with. -/
def Goal.effect : Goal → List Frame → Option (List Frame)
  | report e, frames => e.replay frames
  | assignment, frames => (combine 0 frames).bind (combine 0)
  | target .., frames | loopVariable, frames | expression, frames | sum, frames | product, frames
  | power, frames | signs .., frames | factor, frames | reference .., frames
  | firstItem _, frames => combine 0 frames
  | relationTail, frames | sumTail, frames | productTail, frames | powerTail, frames =>
    combine 1 frames
  | moreItems n _, frames => combine n frames
  | _, frames => some frames

/-- The effect of goals one after the other. -/
def effects (goals : List Goal) (frames : List Frame) : Option (List Frame) :=
  goals.foldlM (fun frames g => g.effect frames) frames

section

variable {t : Token} {g : Goal} {goals goals' gs yes no : List Goal} {es : List Event}
  {frames frames' : List Frame} {k : TokenKind}

@[simp] theorem effects_nil : effects [] = some := rfl

@[simp] theorem effects_cons :
    effects (g :: goals) frames = (g.effect frames).bind (effects goals) := rfl

@[simp] theorem effects_append :
    effects (goals ++ goals') frames = (effects goals frames).bind (effects goals') :=
  List.foldlM_append

/-! ### Moves -/

/-- What a move reports, and what it leaves to do, takes the frames to `frames'`. -/
def Move.Keeps (frames frames' : List Frame) : Move → Prop
  | reduce es gs | shift es gs => (replay es frames).bind (effects gs) = some frames'
  | look _ yes no => effects yes frames = some frames' ∧ effects no frames = some frames'
  | refuse _ => True

theorem keeps_demand (h : effects gs frames = some frames') :
    (Goal.demand k t gs).Keeps frames frames' := by
  unfold Goal.demand
  split
  · exact h
  · trivial

/-- A statement that is opened is closed again by what is left of it. -/
theorem keeps_enter {kind : StatementKind} {parts : List Goal}
    (h : effects parts (⟨kind, 0⟩ :: frames) = some (⟨kind, kind.values⟩ :: frames)) :
    (Goal.enter kind t parts).Keeps frames frames := by
  simp [Goal.enter, Move.Keeps, Event.replay, Goal.effect, h]

theorem keeps_stepStatement : (Goal.stepStatement t).Keeps frames frames := by
  unfold Goal.stepStatement
  split
  · constructor <;> simp [Goal.framed, Goal.effect, Event.replay, combine, StatementKind.values]
  all_goals first | exact keeps_enter rfl | trivial

/-- An operator makes one value of the operand before it and the one behind it. -/
theorem keeps_tail {operand : Goal} {more : List Goal} (hg : Tail g operand more)
    (h : combine 1 frames = some frames') : (g.step t).Keeps frames frames' := by
  obtain ⟨kind, height, below, rfl, rfl⟩ := exists_of_combine h
  rw [hg.step_eq]
  split
  · cases hg <;> simp [Goal.operator, Move.Keeps, Goal.effect, Event.replay, combine]
  · rfl

theorem keeps_stepItems {n : Nat} (group : Group) (h : combine n frames = some frames') :
    (Goal.stepItems n group t).Keeps frames frames' := by
  obtain ⟨kind, height, below, rfl, rfl⟩ := exists_of_combine h
  unfold Goal.stepItems
  split
  · simp [Move.Keeps, Goal.effect, combine]
  · apply keeps_demand
    simp [Goal.effect]

theorem keeps_stepFactor (h : combine 0 frames = some frames') :
    (Goal.stepFactor t).Keeps frames frames' := by
  obtain ⟨kind, height, below, rfl, rfl⟩ := exists_of_combine h
  unfold Goal.stepFactor
  split
  all_goals simp [Move.Keeps, Goal.effect, Event.replay, combine]

theorem keeps_stepSigns {l : Location} {negative : Bool} (h : combine 0 frames = some frames') :
    (Goal.stepSigns l negative t).Keeps frames frames' := by
  obtain ⟨kind, height, below, rfl, rfl⟩ := exists_of_combine h
  unfold Goal.stepSigns
  split
  · exact h
  · exact h
  · cases negative <;> simp [Move.Keeps, Goal.effect, Event.replay, combine]

/-- A move changes nothing of what is still to happen. -/
theorem keeps_step (h : g.effect frames = some frames') : (g.step t).Keeps frames frames' := by
  cases g with
  | report e =>
    have hr : e.replay frames = some frames' := h
    simp [Goal.step, Move.Keeps, hr]
  | symbol | keyword | functionName | refParameter => exact keeps_demand h
  | endOfProgram | statements | moreStatements | elseBranch | direction | functionHead
  | firstParameter =>
    simp only [Goal.step]
    split <;> first | exact h | trivial
  | parameter | moreParameters =>
    simp only [Goal.step, Goal.stepParameter, Goal.stepMoreParameters]
    split
    · exact h
    · exact keeps_demand h
  | statement =>
    obtain rfl : frames = frames' := by simpa [Goal.effect] using h
    exact keeps_stepStatement
  | assignment =>
    cases frames with
    | nil => simp [Goal.effect, combine] at h
    | cons f below =>
      apply keeps_demand
      simpa [Goal.effect, combine] using h
  | relationTail => exact keeps_tail .relation h
  | sumTail => exact keeps_tail .sum h
  | productTail => exact keeps_tail .product h
  | powerTail => exact keeps_tail .power h
  | moreItems n group => exact keeps_stepItems group h
  | factor => exact keeps_stepFactor h
  | signs l negative => exact keeps_stepSigns h
  | loopVariable =>
    apply keeps_demand
    simpa [Goal.effect, Event.replay] using h
  | target | reference =>
    obtain ⟨kind, height, below, rfl, rfl⟩ := exists_of_combine h
    simp only [Goal.step, Goal.stepTarget, Goal.stepReference]
    split <;> simp [Move.Keeps, Goal.effect, Event.replay, combine]
  | firstItem group =>
    obtain ⟨kind, height, below, rfl, rfl⟩ := exists_of_combine h
    simp only [Goal.step]
    split <;> simp [Move.Keeps, Goal.effect, combine]
  | expression | sum | product | power =>
    obtain ⟨kind, height, below, rfl, rfl⟩ := exists_of_combine h
    simp [Goal.step, Move.Keeps, Goal.effect, combine]

/-- The events of a move can be replayed, and the goals it leaves end where the goals before it
would have ended. -/
theorem exists_replay_of_step (h : effects (g :: goals) frames = some frames')
    (hs : g.step t = .reduce es gs ∨ g.step t = .shift es gs) :
    ∃ frames₁, replay es frames = some frames₁ ∧ effects (gs ++ goals) frames₁ = some frames' := by
  obtain ⟨frames₂, hg, hgoals⟩ := Option.bind_eq_some_iff.1 (effects_cons.symm.trans h)
  have hk : (g.step t).Keeps frames frames₂ := keeps_step hg
  have hm : (replay es frames).bind (effects gs) = some frames₂ := by
    rcases hs with hs | hs <;> rwa [hs] at hk
  obtain ⟨frames₁, hes, hgs⟩ := Option.bind_eq_some_iff.1 hm
  refine ⟨frames₁, hes, ?_⟩
  rw [effects_append, hgs]
  exact hgoals

end

/-! ### Runs -/

section

variable {σ : Type} [TokenFeed σ]

/-- If the goals that are left would close all statements that are open, then the events of the
whole run can be replayed, and they close all statements if the run comes to its end. -/
theorem exists_replay_run (s : σ) (events : List Event) (goals : List Goal) {frames : List Frame}
    (hr : replay events.reverse [] = some frames) (hg : effects goals frames = some []) :
    ∃ frames', replay (run s events goals).events [] = some frames' ∧
      ((run s events goals).result = .ok () → frames' = []) := by
  induction s, events, goals using run.induct generalizing frames with
  | case1 s events =>
    obtain rfl : frames = [] := by simpa using hg
    exact ⟨[], by simpa using hr, fun _ => rfl⟩
  | case2 s events g goals new gs hs ih =>
    obtain ⟨frames₁, hnew, hgs⟩ := exists_replay_of_step hg (.inl hs)
    rw [run_of_reduce hs]
    rw [List.reverseAux_eq] at ih
    apply ih _ hgs
    simp [hr, hnew]
  | case3 s events g goals new gs hs s₁ hn ih =>
    obtain ⟨frames₁, hnew, hgs⟩ := exists_replay_of_step hg (.inr hs)
    rw [run_of_shift hs hn]
    rw [List.reverseAux_eq] at ih
    apply ih _ hgs
    simp [hr, hnew]
  | case4 s events g goals new gs hs e s₁ hn =>
    -- the events of a token are reported even if nothing can be read behind it
    obtain ⟨frames₁, hnew, -⟩ := exists_replay_of_step hg (.inr hs)
    rw [run_of_shift_error hs hn]
    exact ⟨frames₁, by simp [hr, hnew], by simp⟩
  | case5 s events g goals k yes no hs t s₁ hp ih =>
    obtain ⟨frames₁, hg₁, hgoals⟩ := Option.bind_eq_some_iff.1 (effects_cons.symm.trans hg)
    obtain ⟨hyes, hno⟩ : effects yes frames = some frames₁ ∧ effects no frames = some frames₁ := by
      have hk := keeps_step (t := current s) hg₁
      rwa [hs] at hk
    rw [run_of_look hs hp]
    apply ih hr
    split
    · simpa [hyes] using hgoals
    · simpa [hno] using hgoals
  | case6 s events g goals k yes no hs e s₁ hp =>
    rw [run_of_look_error hs hp]
    exact ⟨frames, hr, by simp⟩
  | case7 s events g goals e hs =>
    rw [run_of_refuse hs]
    exact ⟨frames, hr, by simp⟩

/-- The events of any text can be replayed. When a statement is closed it is the one that was opened
last of those that are open, and it has its values. Those of a program leave nothing open. -/
theorem exists_replay_recognize (text : String) :
    ∃ frames, replay (recognize text).events [] = some frames ∧
      (check text = .ok () → frames = []) ∧
      ∀ before k after, (recognize text).events = before ++ .exit k :: after →
        ∃ below, replay before [] = some (⟨k, k.values⟩ :: below) ∧
          replay after below = some frames := by
  obtain ⟨frames, hr, hc⟩ : ∃ frames, replay (recognize text).events [] = some frames ∧
      (check text = .ok () → frames = []) := by
    unfold check recognize Scanner.recognize TokenFeed.recognize
    split
    · exact exists_replay_run _ [] program rfl rfl
    · exact ⟨[], rfl, fun _ => rfl⟩
  refine ⟨frames, hr, hc, ?_⟩
  intro before k after he
  rw [he, replay_append] at hr
  obtain ⟨frames₁, hb, hafter⟩ := Option.bind_eq_some_iff.1 hr
  obtain ⟨below, hx, ha⟩ := Option.bind_eq_some_iff.1 (replay_cons.symm.trans hafter)
  obtain rfl := replay_exit_eq_some.1 hx
  exact ⟨below, hb, ha⟩

end

end ScriptCheck
