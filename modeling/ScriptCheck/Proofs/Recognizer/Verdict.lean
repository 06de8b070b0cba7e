import ScriptCheck.Proofs.Recognizer.Tokens

/-!
# Verdicts as paths

The verdict on a text tells where the path of the recognizer ends: behind the last goal in front of
the end of the text, at a token that a goal refuses, or where the next token cannot be read.
-/

namespace ScriptCheck

open TokenFeed

variable {text : String}

theorem recognize_of_next {s : Scanner} (h : (Scanner.ofText text).next = (.ok (), s)) :
    recognize text = run s [] program := by
  unfold recognize Scanner.recognize TokenFeed.recognize
  rw [show TokenFeed.next (Scanner.ofText text) = _ from h]
  rfl

theorem recognize_of_next_error {s : Scanner} {e : LexError}
    (h : (Scanner.ofText text).next = (.error e, s)) :
    recognize text = ⟨.error (.lexical e), s, []⟩ := by
  unfold recognize Scanner.recognize TokenFeed.recognize
  rw [show TokenFeed.next (Scanner.ofText text) = _ from h]

/-- The recognizer follows a path over the tokens of its text until it cannot move any more. -/
theorem exists_reaches_of_next {s : Scanner} (h : (Scanner.ofText text).next = (.ok (), s)) :
    ∃ ts es s' goals, Feeds s ts s' ∧ Reaches s'.current program ts es goals ∧ Final s' goals ∧
      recognize text = run s' es.reverse goals := by
  obtain ⟨ts, es, s', goals, hf, hr, hfin, hrun⟩ := exists_reaches s [] program
  exact ⟨ts, es, s', goals, hf, hr, hfin, by rw [recognize_of_next h, hrun, List.append_nil]⟩

/-- A program that is accepted is read to its end. -/
theorem exists_path_of_check (h : check text = .ok ()) :
    ∃ ts es s s', (Scanner.ofText text).next = (.ok (), s) ∧ Feeds s ts s' ∧
      s'.current.kind = .eof ∧ Reaches s'.current program ts es [] ∧
      (recognize text).events = es := by
  unfold check at h
  match hn : (Scanner.ofText text).next with
  | (.error e, s) => simp [recognize_of_next_error hn] at h
  | (.ok (), s) =>
    obtain ⟨ts, es, s', goals, hf, hr, hfin, hrun⟩ := exists_reaches_of_next hn
    cases hfin with
    | done => exact ⟨ts, es, s, s', rfl, hf, hr.kind_eq_eof rfl, hr, by simp [hrun]⟩
    | refused hg => simp [hrun, run_of_refuse hg] at h
    | cut hg hn' => simp [hrun, run_of_shift_error hg hn'] at h
    | blind hg hp => simp [hrun, run_of_look_error hg hp] at h

/-- A syntax error is one at the token where the path of the recognizer ends. -/
theorem exists_path_of_check_grammatical {err : SyntaxError}
    (h : check text = .error (.grammatical err)) :
    ∃ ts es s s' g goals e, (Scanner.ofText text).next = (.ok (), s) ∧ Feeds s ts s' ∧
      Reaches s'.current program ts es (g :: goals) ∧ g.step s'.current = .refuse e ∧
      err = .atToken e s'.current ∧ (recognize text).events = es := by
  unfold check at h
  match hn : (Scanner.ofText text).next with
  | (.error e, s) => simp [recognize_of_next_error hn] at h
  | (.ok (), s) =>
    obtain ⟨ts, es, s', goals, hf, hr, hfin, hrun⟩ := exists_reaches_of_next hn
    cases hfin with
    | done => simp [hrun] at h
    | @refused g goals e hg =>
      have hrun' : run s' es.reverse (g :: goals) = _ := run_of_refuse hg
      have he : SyntaxError.atToken e (current s') = err := by simpa [hrun, hrun'] using h
      exact ⟨ts, es, s, s', g, goals, e, rfl, hf, hr, hg, he.symm, by simp [hrun, hrun']⟩
    | cut hg hn' => simp [hrun, run_of_shift_error hg hn'] at h
    | blind hg hp => simp [hrun, run_of_look_error hg hp] at h

/-- A lexical error of the recognizer is met where its path ends. -/
theorem exists_path_of_check_lexical {e : LexError} (h : check text = .error (.lexical e)) :
    (∃ s, (Scanner.ofText text).next = (.error e, s)) ∨
      ∃ ts s s' s'', (Scanner.ofText text).next = (.ok (), s) ∧ Feeds s ts s' ∧ Endless ts ∧
        s'.current.kind ≠ .eof ∧ s'.next = (.error e, s'') := by
  unfold check at h
  match hn : (Scanner.ofText text).next with
  | (.error e', s) =>
    have := recognize_of_next_error hn
    exact .inl ⟨s, by simp_all⟩
  | (.ok (), s) =>
    obtain ⟨ts, es, s', goals, hf, hr, hfin, hrun⟩ := exists_reaches_of_next hn
    refine .inr ⟨ts, s, s', ?_⟩
    cases hfin with
    | done => simp [hrun] at h
    | refused hg => simp [hrun, run_of_refuse hg] at h
    | @cut g goals gs new s'' e' hg hn' =>
      rw [hrun, run_of_shift_error hg hn'] at h
      obtain rfl : e' = e := by simpa using h
      exact ⟨s'', rfl, hf, hr.kind_ne_eof, Goal.kind_ne_eof_of_shift hg, hn'⟩
    | @blind g goals yes no k s'' e' hg hp =>
      rw [hrun, run_of_look_error hg hp] at h
      obtain rfl : e' = e := by simpa using h
      exact ⟨s'', rfl, hf, hr.kind_ne_eof, Goal.kind_ne_eof_of_look hg, next_of_peek_error hp⟩

end ScriptCheck
