import ScriptCheck.Proofs.Grammar.Stack
import ScriptCheck.Proofs.Recognizer.Verdict

/-!
# The recognizer reads the documented grammar

In front of a token a stack of goals may read just the words that it may read after its move. A path
of moves therefore reads words of the grammar only, and for each word of the grammar there is a path
that reads it.
-/

namespace ScriptCheck

open TokenKind

variable {g : Goal} {goals goals' gs yes no : List Goal} {a k : TokenKind} {t n : Token}
  {ts : List Token} {es new : List Event} {v w : List TokenKind}

/-! ### Moves that look for one kind of token -/

namespace Goal

variable {name : String} {l : Location} {b : Bool} {h : Header} {g : Group} {n : Nat}

theorem step_target : (target name l).step t =
    if t.kind = .symbol .leftBracket then .shift [] [expression, moreItems 1 (.index name l)]
    else .reduce [.var name l] [] := by
  simp only [step, stepTarget]
  split <;> simp_all

theorem step_reference : (reference name l).step t =
    if t.kind = .symbol .leftParen then .shift [] [firstItem (.call name l)]
    else (target name l).step t := by
  simp only [step, stepReference, stepTarget]
  split <;> simp_all

theorem step_parameter : (parameter h).step t =
    if t.kind = .keyword .kwRef then .shift [] [refParameter h]
    else demand .identifier t [moreParameters (h.add t false)] := by
  simp only [step, stepParameter]
  split <;> simp_all

theorem step_moreParameters : (moreParameters h).step t =
    if t.kind = .symbol .comma then .shift [] [parameter h]
    else demand (.symbol .rightParen) t [report h.event] := by
  simp only [step, stepMoreParameters]
  split <;> simp_all

theorem step_signs : (signs l b).step t =
    if t.kind = .symbol .plus then .shift [] [signs l b]
    else if t.kind = .symbol .minus then .shift [] [signs l !b]
    else .reduce [] ([factor, powerTail] ++ if b then [report (.unary .negate l)] else []) := by
  simp only [step, stepSigns]
  split <;> simp_all

theorem step_moreItems : (moreItems n g).step t =
    if t.kind = .symbol .comma then .shift [] [expression, moreItems (n + 1) g]
    else demand (.symbol g.close) t [report (g.event n)] := by
  simp only [step, stepItems]
  split <;> simp_all

end Goal

/-! ### One move -/

/-- The words that are read by way of a move. -/
def Move.Reads (goals : List Goal) (w : List TokenKind) : Move → Prop
  | .reduce _ gs => Generates (gs ++ goals) w
  | .shift _ gs => ∃ a v, w = a :: v ∧ Generates (gs ++ goals) v
  | .look k yes no => Generates ((if w.tail.headD .eof = k then yes else no) ++ goals) w
  | .refuse _ => False

/-- A goal that asks for one token reads it and then `gs`. -/
theorem reads_demand (hk : k ≠ .eof) (hw : w.headD .eof = t.kind) :
    (Goal.demand k t gs).Reads goals w ↔ ∃ v, w = k :: v ∧ Generates (gs ++ goals) v := by
  unfold Goal.demand
  cases w with
  | nil =>
    have ht : t.kind ≠ k := by
      rintro rfl
      exact hk hw.symm
    simp [ht, Move.Reads]
  | cons a v =>
    obtain rfl : a = t.kind := hw
    split
    · rename_i h
      simp [Move.Reads, h]
    · rename_i h
      simp [Move.Reads, h]

/-- A goal that uses up a token of one kind, and makes another move in front of all others. -/
theorem reads_ite {m : Move} {p : Prop} (hk : k ≠ .eof) (hw : w.headD .eof = t.kind)
    (hp : p → t.kind ≠ k) (hm : m.Reads goals w ↔ p) :
    (if t.kind = k then .shift new gs else m).Reads goals w ↔
      p ∨ ∃ v, w = k :: v ∧ Generates (gs ++ goals) v := by
  split
  · rename_i ht
    have hn : ¬ p := fun h => hp h ht
    cases w with
    | nil =>
      subst ht
      exact absurd hw.symm hk
    | cons a v =>
      obtain rfl : a = k := hw.trans ht
      simp [Move.Reads, hn]
  · rename_i ht
    rw [hm]
    refine ⟨.inl, fun h => h.resolve_right ?_⟩
    rintro ⟨v, rfl, -⟩
    exact ht hw.symm

theorem not_leftParen_of_target {name : String} {l : Location}
    (hg : Generates goals w → w.headD .eof ≠ .symbol .leftParen)
    (h : Generates (.target name l :: goals) w) : w.headD .eof ≠ .symbol .leftParen := by
  rcases (generates_target 1 name l).1 h with h | ⟨v, rfl, -⟩
  · exact hg h
  · simp

/-- The token behind a name tells a call from an assignment. -/
theorem generates_identifier (ha : AfterExpression goals) :
    Generates (.statement :: goals) (.identifier :: v) ↔
      if v.headD .eof = .symbol .leftParen then Generates (.factor :: goals) (.identifier :: v)
      else Generates (.assignment :: goals) (.identifier :: v) := by
  have hs : Generates (.statement :: goals) (.identifier :: v) ↔
      Generates (.assignment :: goals) (.identifier :: v) ∨
        ∃ u, v = .symbol .leftParen :: u ∧
          Generates (.firstItem (.call "" .start) :: goals) u := by
    simp [generates_statement "" .start]
  have hf : Generates (.factor :: goals) (.identifier :: v) ↔
      Generates (.reference "" .start :: goals) v := by
    simp [generates_factor "" .start .start, constants]
  have has : Generates (.assignment :: goals) (.identifier :: v) ↔
      Generates (.target "" .start :: .symbol .assign :: .expression :: goals) v := by
    simp [generates_assignment "" .start]
  rw [hs, hf, has, generates_reference "" .start]
  split
  · rename_i hv
    refine or_congr_left (iff_of_false (fun h => ?_) fun h => ?_)
    · refine not_leftParen_of_target (fun h => ?_) h hv
      rw [headD_of_generates_symbol h]
      simp
    · exact not_leftParen_of_target (fun h => (ha.not_opens h).2) h hv
  · rename_i hv
    refine or_iff_left ?_
    rintro ⟨u, rfl, -⟩
    exact hv rfl

section

variable (hw : w.headD .eof = t.kind)

include hw

theorem reads_statements (hg : AfterStatements goals) :
    (Goal.statements.step t).Reads goals w ↔ Generates (.statements :: goals) w := by
  rw [generates_statements]
  simp only [Goal.step]
  split
  · rename_i ht
    refine ⟨.inl, fun h => h.resolve_right fun h => ?_⟩
    rw [← hw] at ht
    exact not_endsStatements_of_startsStatement (startsStatement_of_generates h) ht
  · rename_i ht
    refine ⟨.inr, fun h => h.resolve_left fun h => ht ?_⟩
    rw [← hw]
    exact hg.endsStatements h

theorem reads_moreStatements (hg : AfterStatements goals) :
    (Goal.moreStatements.step t).Reads goals w ↔ Generates (.moreStatements :: goals) w := by
  rw [generates_moreStatements]
  exact reads_ite (by simp) hw (fun h => hw ▸ hg.ne_semicolon h) Iff.rfl

theorem reads_elseBranch :
    (Goal.elseBranch.step t).Reads goals w ↔ Generates (.elseBranch :: goals) w := by
  rw [generates_elseBranch]
  refine reads_ite (by simp) hw (fun h => ?_) Iff.rfl
  rw [← hw, headD_of_generates_keyword h]
  simp

theorem reads_target {name : String} {l : Location}
    (hg : Generates goals w → t.kind ≠ .symbol .leftBracket) :
    ((Goal.target name l).step t).Reads goals w ↔ Generates (.target name l :: goals) w := by
  rw [generates_target 1 name l, Goal.step_target]
  exact reads_ite (by simp) hw hg Iff.rfl

theorem reads_functionHead {h : Header} (hg : (Goal.functionHead h).Fits goals)
    (hs : WellFormed goals) :
    ((Goal.functionHead h).step t).Reads goals w ↔ Generates (.functionHead h :: goals) w := by
  obtain ⟨gs, rfl⟩ := hg
  rw [generates_functionHead]
  exact reads_ite (by simp) hw (fun h => hw ▸ AfterStatements.ne_leftParen hs.1 h) Iff.rfl

theorem reads_firstParameter {h : Header} :
    ((Goal.firstParameter h).step t).Reads goals w ↔ Generates (.firstParameter h :: goals) w := by
  rw [generates_firstParameter, or_comm, generates_symbol]
  exact reads_ite (by simp) hw (fun hp => hw ▸ ne_rightParen_of_parameter hp) Iff.rfl

theorem reads_parameter {h : Header} :
    ((Goal.parameter h).step t).Reads goals w ↔ Generates (.parameter h :: goals) w := by
  rw [generates_parameter (h.add t false), Goal.step_parameter]
  refine reads_ite (by simp) hw ?_ (reads_demand (by simp) hw)
  rintro ⟨v, rfl, -⟩ ht
  cases hw.trans ht

theorem reads_moreParameters {h : Header} :
    ((Goal.moreParameters h).step t).Reads goals w ↔ Generates (.moreParameters h :: goals) w := by
  rw [generates_moreParameters, generates_symbol, Goal.step_moreParameters]
  refine reads_ite (by simp) hw ?_ (reads_demand (by simp) hw)
  rintro ⟨v, rfl, -⟩ ht
  cases hw.trans ht

theorem reads_direction :
    (Goal.direction.step t).Reads goals w ↔ Generates (.direction :: goals) w := by
  rw [generates_direction]
  simp only [Goal.step]
  cases w with
  | nil => simp [Move.Reads, ← hw]
  | cons a v =>
    obtain rfl : a = t.kind := hw
    split
    · rename_i ht
      simp [Move.Reads, ht]
    · rename_i ht
      simp [Move.Reads, ht]

/-- An operator is read by the innermost goal that takes it. -/
theorem reads_tail {o : Goal} {more : List Goal} (hg : Tail g o more) (ha : AfterExpression goals) :
    (g.step t).Reads goals w ↔ Generates (g :: goals) w := by
  rw [hg.step_eq, hg.generates_iff]
  cases w with
  | nil => simp [← hw, operand?, Move.Reads]
  | cons a v =>
    obtain rfl : a = t.kind := hw
    split
    · rename_i ht
      constructor
      · rintro ⟨b, u, he, h⟩
        obtain ⟨rfl, rfl⟩ := List.cons.inj he
        exact .inr ⟨_, _, rfl, ht, h⟩
      · rintro (h | ⟨b, u, he, -, h⟩)
        · exact ⟨_, _, rfl, (ha.exchange ht h).mono fun _ => hg.skip_more⟩
        · exact ⟨b, u, he, h⟩
    · rename_i ht
      simp [Move.Reads, ht]

theorem reads_signs {l : Location} {b : Bool} :
    ((Goal.signs l b).step t).Reads goals w ↔ Generates (.signs l b :: goals) w := by
  rw [generates_signs l (!b) b, Goal.step_signs]
  refine reads_ite (by simp) hw ?_ (reads_ite (by simp) hw ?_ ?_)
  · rintro (h | ⟨v, rfl, -⟩)
    · exact hw ▸ (ne_sign_of_factor h).1
    · exact hw ▸ by simp
  · exact fun h => hw ▸ (ne_sign_of_factor h).2
  · cases b <;> exact Iff.rfl

theorem reads_factor :
    (Goal.factor.step t).Reads goals w ↔ Generates (.factor :: goals) w := by
  rw [generates_factor t.text t.location t.location]
  simp only [Goal.step, Goal.stepFactor]
  cases w with
  | nil => simp [← hw, Move.Reads]
  | cons a v =>
    obtain rfl : a = t.kind := hw
    split <;> rename_i ht <;> simp [Move.Reads, ht, constants]
    simp_all

theorem reads_reference {name : String} {l : Location} (ha : AfterExpression goals) :
    ((Goal.reference name l).step t).Reads goals w ↔ Generates (.reference name l :: goals) w := by
  rw [generates_reference name l, Goal.step_reference]
  refine reads_ite (by simp) hw (fun h => ?_) (reads_target hw fun h => ?_)
  · rw [← hw]
    exact not_leftParen_of_target (fun h => (ha.not_opens h).2) h
  · rw [← hw]
    exact (ha.not_opens h).1

theorem reads_firstItem {g : Group} :
    ((Goal.firstItem g).step t).Reads goals w ↔ Generates (.firstItem g :: goals) w := by
  rw [generates_firstItem 1, or_comm, generates_symbol]
  exact reads_ite (by simp) hw (fun h => hw ▸ ne_close_of_expression g h) Iff.rfl

theorem reads_moreItems {n : Nat} {g : Group} :
    ((Goal.moreItems n g).step t).Reads goals w ↔ Generates (.moreItems n g :: goals) w := by
  rw [generates_moreItems (n + 1), generates_symbol, Goal.step_moreItems]
  refine reads_ite (by simp) hw ?_ (reads_demand (by simp) hw)
  rintro ⟨v, rfl, -⟩ ht
  cases g <;> cases hw.trans ht

theorem reads_statement (ha : AfterExpression goals) :
    (Goal.statement.step t).Reads goals w ↔ Generates (.statement :: goals) w := by
  cases w with
  | nil =>
    simp [Goal.step, Goal.stepStatement, ← hw, Move.Reads, generates_statement "" .start,
      generates_assignment "" .start]
  | cons a v =>
    obtain rfl : a = t.kind := hw
    simp only [Goal.step, Goal.stepStatement]
    split
    · rename_i ht
      rw [ht, generates_identifier ha]
      change Generates ((if v.headD .eof = .symbol .leftParen then Goal.framed .call t .factor
        else Goal.framed .assignment t .assignment) ++ goals) (.identifier :: v) ↔ _
      split <;> exact Iff.rfl
    all_goals
      rw [generates_statement "" t.location, generates_assignment "" .start]
      simp_all [Move.Reads, Goal.enter, Generates, Goal.phrases]

theorem reads_endOfProgram (hg : goals = []) :
    (Goal.endOfProgram.step t).Reads goals w ↔ Generates (.endOfProgram :: goals) w := by
  subst hg
  simp only [Goal.step, generates_endOfProgram, generates_nil]
  split
  · exact generates_nil
  · rename_i ht
    refine iff_of_false id ?_
    rintro rfl
    exact ht hw.symm

/-- In front of a token a stack may read just the words that are read by way of its move. -/
theorem reads_step (h : WellFormed (g :: goals)) :
    (g.step t).Reads goals w ↔ Generates (g :: goals) w := by
  obtain ⟨hg, hs⟩ := h
  cases g with
  | report e => exact Iff.rfl
  | symbol s =>
    rw [generates_symbol]
    exact reads_demand (by simp) hw
  | keyword k =>
    rw [generates_keyword]
    exact reads_demand (by simp) hw
  | endOfProgram => exact reads_endOfProgram hw hg
  | statements => exact reads_statements hw hg
  | moreStatements => exact reads_moreStatements hw hg
  | statement => exact reads_statement hw hg
  | assignment =>
    rw [generates_assignment t.text t.location]
    exact reads_demand (by simp) hw
  | target name l =>
    refine reads_target hw fun h => ?_
    obtain ⟨gs, rfl⟩ := hg
    rw [← hw, headD_of_generates_symbol h]
    simp
  | elseBranch => exact reads_elseBranch hw
  | loopVariable =>
    rw [generates_loopVariable]
    exact reads_demand (by simp) hw
  | direction => exact reads_direction hw
  | functionName l =>
    rw [generates_functionName ⟨t.text, l, []⟩]
    exact reads_demand (by simp) hw
  | functionHead h => exact reads_functionHead hw hg hs
  | firstParameter h => exact reads_firstParameter hw
  | parameter h => exact reads_parameter hw
  | refParameter h =>
    rw [generates_refParameter (h.add t true)]
    exact reads_demand (by simp) hw
  | moreParameters h => exact reads_moreParameters hw
  | expression =>
    rw [generates_expression]
    exact Iff.rfl
  | relationTail => exact reads_tail hw .relation hg
  | sum =>
    rw [generates_sum]
    exact Iff.rfl
  | sumTail => exact reads_tail hw .sum hg
  | product =>
    rw [generates_product]
    exact Iff.rfl
  | productTail => exact reads_tail hw .product hg
  | power =>
    rw [generates_power t.location false]
    exact Iff.rfl
  | signs l b => exact reads_signs hw
  | powerTail => exact reads_tail hw .power hg
  | factor => exact reads_factor hw
  | reference name l => exact reads_reference hw hg
  | firstItem g => exact reads_firstItem hw
  | moreItems n g => exact reads_moreItems hw

end

/-! ### Paths -/

theorem headD_map_kind (ts : List Token) (hw : w.headD .eof = n.kind) :
    (ts.map Token.kind ++ w).headD .eof = (ts.headD n).kind := by
  cases ts with
  | nil => exact hw
  | cons t ts => rfl

theorem Reaches.wellFormed (h : Reaches n goals ts es goals') (hs : WellFormed goals) :
    WellFormed goals' := by
  induction h with
  | refl => exact hs
  | @reduce _ _ _ _ ts _ _ hg _ ih =>
    have := fits_step (t := ts.headD n) hs
    rw [hg] at this
    exact ih this
  | @shift _ _ _ _ t _ _ _ hg _ ih =>
    have := fits_step (t := t) hs
    rw [hg] at this
    exact ih this
  | @look _ _ _ _ _ t ts k _ hg _ ih =>
    have := fits_step (t := t) hs
    rw [hg] at this
    refine ih ?_
    split
    · exact this.1
    · exact this.2

/-- What a path reads, and then what the goals may read that it leads to, its first goals may
read. -/
theorem Reaches.generates (h : Reaches n goals ts es goals') (hs : WellFormed goals)
    (hw : w.headD .eof = n.kind) (hg' : Generates goals' w) :
    Generates goals (ts.map Token.kind ++ w) := by
  induction h with
  | refl => exact hg'
  | @reduce _ _ _ _ ts _ _ hg _ ih =>
    have hf := fits_step (t := ts.headD n) hs
    rw [hg] at hf
    rw [← reads_step (headD_map_kind ts hw) hs, hg]
    exact ih hf hg'
  | @shift _ _ _ _ t ts _ _ hg _ ih =>
    have hf := fits_step (t := t) hs
    rw [hg] at hf
    rw [← reads_step (headD_map_kind (t :: ts) hw) hs, List.headD_cons, hg]
    exact ⟨_, _, rfl, ih hf hg'⟩
  | @look _ _ yes no _ t ts k _ hg _ ih =>
    have hf := fits_step (t := t) hs
    rw [hg] at hf
    rw [← reads_step (headD_map_kind (t :: ts) hw) hs, List.headD_cons, hg]
    change Generates ((if (ts.map Token.kind ++ w).headD .eof = k then yes else no) ++ _) _
    rw [headD_map_kind ts hw]
    refine ih ?_ hg'
    split
    · exact hf.1
    · exact hf.2

/-- Every word that a stack may read is read on some path. -/
theorem exists_reaches_of_generates (hn : n.kind = .eof) (hs : WellFormed goals)
    (hg : Generates goals (ts.map Token.kind)) : ∃ es, Reaches n goals ts es [] := by
  have hd (ts : List Token) : (ts.map Token.kind).headD .eof = (ts.headD n).kind := by
    simpa using headD_map_kind (w := []) ts hn.symm
  -- a move uses up a token, or leaves goals of a smaller rank in front of it
  induction hl : ts.length using Nat.strongRecOn generalizing goals ts with | ind _ ihl
  induction hr : Goal.totalRank goals using Nat.strongRecOn generalizing goals with | ind _ ihr
  cases goals with
  | nil =>
    obtain rfl : ts = [] := by simpa using hg
    exact ⟨[], .refl []⟩
  | cons g goals =>
    have hf := fits_step (t := ts.headD n) hs
    rw [← reads_step (hd ts) hs] at hg
    match hm : g.step (ts.headD n) with
    | .reduce new gs =>
      rw [hm] at hf hg
      have := Goal.totalRank_lt_of_reduce hm
      have hlt : Goal.totalRank (gs ++ goals) < Goal.totalRank (g :: goals) := by
        simp only [Goal.totalRank_append, Goal.totalRank_cons]
        omega
      obtain ⟨es, he⟩ := ihr _ (hr ▸ hlt) hf hg rfl
      exact ⟨_, .reduce hm he⟩
    | .shift new gs =>
      rw [hm] at hf hg
      obtain ⟨a, v, hv, hg⟩ := hg
      obtain ⟨t, ts, rfl, -, rfl⟩ := List.map_eq_cons_iff.1 hv
      obtain ⟨es, he⟩ := ihl _ (hl ▸ Nat.lt_succ_self ts.length) hf hg rfl
      exact ⟨_, .shift hm he⟩
    | .look k yes no =>
      rw [hm] at hf hg
      obtain ⟨t, ts, rfl⟩ : ∃ t us, ts = t :: us := by
        cases ts with
        | nil => exact absurd hn (Goal.kind_ne_eof_of_look hm)
        | cons t ts => exact ⟨t, ts, rfl⟩
      have := Goal.totalRank_lt_of_look hm
      change Generates ((if (ts.map Token.kind).headD .eof = k then yes else no) ++ _) _ at hg
      rw [hd] at hg
      have hf : WellFormed ((if (ts.headD n).kind = k then yes else no) ++ goals) := by
        split
        · exact hf.1
        · exact hf.2
      have hlt : Goal.totalRank ((if (ts.headD n).kind = k then yes else no) ++ goals) <
          Goal.totalRank (g :: goals) := by
        split <;> simp only [Goal.totalRank_append, Goal.totalRank_cons] <;> omega
      obtain ⟨es, he⟩ := ihr _ (hr ▸ hlt) hf hg rfl
      exact ⟨_, .look hm he⟩
    | .refuse e =>
      rw [hm] at hg
      exact hg.elim

/-! ### Programs -/

theorem wellFormed_program : WellFormed program :=
  ⟨.endOfProgram, rfl, trivial⟩

theorem generates_program :
    Generates program w ↔ Derives grammar (.part .statementList) w := by
  simp [program, Generates, Goal.phrases, derivesAll_cons]

/-- A text whose tokens are a word of the grammar is accepted. -/
theorem exists_reaches_of_tokenize {text : String} (ht : tokenize text = .ok (ts ++ [n]))
    (hn : n.kind = .eof) (hg : Generates program (ts.map Token.kind)) :
    ∃ es, Reaches n program ts es [] ∧ check text = .ok () ∧ (recognize text).events = es := by
  obtain ⟨s, us, s', hn', hf, hu, hc, he⟩ := exists_feeds_of_tokenize ht
  obtain ⟨rfl, he⟩ := List.append_inj' he rfl
  obtain rfl : n = s'.current := by simpa using he
  obtain ⟨es, hr⟩ := exists_reaches_of_generates hn wellFormed_program hg
  have hrun : run s [] program = _ := run_of_reaches hr hf rfl
  refine ⟨es, hr, ?_, ?_⟩
  · unfold check
    rw [recognize_of_next hn', hrun]
    simp
  · rw [recognize_of_next hn', hrun]
    simp

/-- The tokens of an accepted text are read to the end, and so are a word of the grammar. -/
theorem exists_reaches_of_check {text : String} (h : check text = .ok ()) :
    ∃ ts n, tokenize text = .ok (ts ++ [n]) ∧ n.kind = .eof ∧
      Reaches n program ts (recognize text).events [] ∧
      Generates program (ts.map Token.kind) := by
  obtain ⟨ts, es, s, s', hn, hf, hc, hr, rfl⟩ := exists_path_of_check h
  have hs := Scanner.readFrom_of_next rfl hn
  refine ⟨ts, s'.current, Scanner.tokens_of_feeds_eof hf hs hr.kind_ne_eof hc, hc, hr, ?_⟩
  simpa using hr.generates (w := []) wellFormed_program hc.symm (generates_nil.2 rfl)

/-- A text is accepted just when all its tokens can be read and their kinds are a word of the
grammar. -/
theorem check_eq_ok_iff (text : String) :
    check text = .ok () ↔ ∃ ts n, tokenize text = .ok (ts ++ [n]) ∧ n.kind = .eof ∧
      Derives grammar (.part .statementList) (ts.map Token.kind) := by
  simp only [← generates_program]
  constructor
  · intro h
    obtain ⟨ts, es, s, s', hn, hf, hc, hr, -⟩ := exists_path_of_check h
    have hs := Scanner.readFrom_of_next rfl hn
    refine ⟨ts, s'.current, Scanner.tokens_of_feeds_eof hf hs hr.kind_ne_eof hc, hc, ?_⟩
    simpa using hr.generates (w := []) wellFormed_program hc.symm (generates_nil.2 rfl)
  · rintro ⟨ts, n, ht, hn, hg⟩
    obtain ⟨es, -, hc, -⟩ := exists_reaches_of_tokenize ht hn hg
    exact hc

end ScriptCheck
