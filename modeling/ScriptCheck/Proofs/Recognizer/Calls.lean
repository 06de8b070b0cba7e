import ScriptCheck.Proofs.Recognizer.Tokens
import ScriptCheck.Proofs.Scanning.Queue

/-!
# What a recognizer asks of its scanner

A recognizer may be started in front of any tokens, also such as no text has: what was pushed back
may be anything, with an end of the text in the middle. It asks for no more tokens than lie ahead,
never for one behind the end, and reads the text no further than one token behind the current one.
When it is done the scanner is left as if the tokens in front of the current one had just been
taken away.
-/

namespace ScriptCheck

open TokenFeed

/-! ### What lies ahead -/

namespace Source

variable {s s' : Source} {t : Token} {e : LexError}

/-- The tokens of a source in front of its end or of its first lexical error. -/
def readable (s : Source) : List Token :=
  match _ : s.lex with
  | (.ok t, s') => if _ : t.kind = .eof then [] else t :: s'.readable
  | (.error _, _) => []
termination_by s.rest.length
decreasing_by exact length_lex_lt ‹_› ‹_›

theorem readable_of_lex (h : s.lex = (.ok t, s')) (ht : t.kind ≠ .eof) :
    s.readable = t :: s'.readable := by
  rw [readable]
  split <;> simp_all

theorem readable_of_eof (h : s.lex = (.ok t, s')) (ht : t.kind = .eof) : s.readable = [] := by
  rw [readable]
  split <;> simp_all

theorem readable_of_error (h : s.lex = (.error e, s')) : s.readable = [] := by
  rw [readable]
  split <;> simp_all

theorem takeWhile_readable (h : s.lex = (.ok t, s')) :
    s.readable.takeWhile (·.kind ≠ .eof) = (t :: s'.readable).takeWhile (·.kind ≠ .eof) := by
  by_cases ht : t.kind = .eof
  · simp [readable_of_eof h ht, ht]
  · rw [readable_of_lex h ht]

end Source

namespace Scanner

variable {s s' : Scanner} {t : Token} {e : LexError}

/-- The tokens in front of the first end of the text or the first lexical error: the current one,
what is queued, and what the text has. -/
def ahead (s : Scanner) : List Token :=
  (s.current :: (s.pending ++ s.source.readable)).takeWhile (·.kind ≠ .eof)

theorem ahead_of_eof (h : s.current.kind = .eof) : s.ahead = [] := by
  simp [ahead, h]

theorem ahead_of_next (hc : s.current.kind ≠ .eof) (h : s.next = (.ok (), s')) :
    s.ahead = s.current :: s'.ahead := by
  have hs : s.ahead = s.current :: (s.pending ++ s.source.readable).takeWhile (·.kind ≠ .eof) := by
    simp [ahead, hc]
  rw [hs]
  match hp : s.pending with
  | u :: pending =>
    obtain rfl : _ = s' := by simpa [next_of_pending hp] using h
    rfl
  | [] =>
    match hl : s.source.lex with
    | (.ok u, source) =>
      obtain rfl : _ = s' := by simpa [next_of_lex hp hl] using h
      rw [List.nil_append, Source.takeWhile_readable hl, ahead, hp, List.nil_append]
    | (.error e, source) => simp [next_of_error hp hl] at h

theorem ahead_of_next_error (hc : s.current.kind ≠ .eof) (h : s.next = (.error e, s')) :
    s.ahead = [s.current] := by
  obtain ⟨hl, -, hp, -⟩ := next_error_cases h
  simp [ahead, hc, hp, Source.readable_of_error hl]

/-- A look ahead changes nothing of what lies ahead. -/
theorem ahead_of_peek (h : s.peek 0 = (.ok t, s')) : s'.ahead = s.ahead := by
  obtain ⟨hc, hn, s'', hn', -⟩ := next_of_peek h
  by_cases he : s.current.kind = .eof
  · rw [ahead_of_eof he, ahead_of_eof (hc ▸ he)]
  · rw [ahead_of_next he hn', ahead_of_next (hc ▸ he) (hn.trans hn'), hc]

/-! ### What a path leaves -/

/-- From `s` on the tokens `ts` have been used up. For that `fresh` has been read off the text, and
nothing behind the token that is current now. -/
structure Passes (s : Scanner) (ts fresh : List Token) (s' : Scanner) : Prop where
  lexes : s.source.Lexes fresh s'.source
  /-- No token is lost and none comes twice. -/
  tokens : s.current :: (s.pending ++ fresh) = ts ++ s'.current :: s'.pending
  /-- What is queued was queued before. -/
  pending : s'.pending = s.pending.drop ts.length
  nothing_behind : fresh = [] ∨ s'.pending = []

theorem Passes.cons {ts fresh : List Token} {s'' : Scanner} (h : s.next = (.ok (), s'))
    (hp : s'.Passes ts fresh s'') : ∃ fresh', s.Passes (s.current :: ts) fresh' s'' := by
  match hq : s.pending with
  | u :: pending =>
    obtain rfl : _ = s' := by simpa [next_of_pending hq] using h
    refine ⟨fresh, hp.lexes, ?_, ?_, hp.nothing_behind⟩
    · rw [hq, List.cons_append, List.cons_append, ← hp.tokens]
    · rw [hq]
      exact hp.pending
  | [] =>
    match hl : s.source.lex with
    | (.ok u, source) =>
      obtain rfl : _ = s' := by simpa [next_of_lex hq hl] using h
      have hempty : s''.pending = [] := by rw [hp.pending, hq, List.drop_nil]
      refine ⟨u :: fresh, .cons hl hp.lexes, ?_, ?_, .inr hempty⟩
      · rw [List.cons_append, ← hp.tokens, hq]
        rfl
      · rw [hempty, hq, List.drop_nil]
    | (.error e, source) => simp [next_of_error hq hl] at h

theorem passes_of_feeds {ts : List Token} (h : Feeds s ts s') : ∃ fresh, s.Passes ts fresh s' := by
  induction h with
  | refl s => exact ⟨[], .nil _, by simp, rfl, .inl rfl⟩
  | next hn _ ih =>
    obtain ⟨fresh, hp⟩ := ih
    exact hp.cons hn

/-- What is used up on a path lies ahead where the path begins. -/
theorem ahead_of_feeds {ts : List Token} (h : Feeds s ts s') (ht : Endless ts) :
    s.ahead = ts ++ s'.ahead := by
  induction h with
  | refl => rfl
  | next hn _ ih =>
    obtain ⟨hc, ht⟩ := endless_cons.1 ht
    rw [ahead_of_next hc hn, ih ht]
    rfl

/-! ### What is asked for -/

/-- The calls that a run makes, in order. -/
def asked (s : Scanner) : List Goal → List Call
  | [] => []
  | g :: goals =>
    match _ : g.step s.current with
    | .reduce _ gs => s.asked (gs ++ goals)
    | .shift _ gs =>
      match _ : s.next with
      | (.ok (), s') => .next :: s'.asked (gs ++ goals)
      | (.error _, _) => [.next]
    | .look k yes no =>
      match _ : s.peek 0 with
      | (.ok t, s') => .peek 0 :: s'.asked ((if t.kind = k then yes else no) ++ goals)
      | (.error _, _) => [.peek 0]
    | .refuse _ => []
termination_by goals => (s.size, Goal.totalRank goals)
decreasing_by
  · have := Goal.totalRank_lt_of_reduce ‹_›
    apply Prod.Lex.right
    simp only [Goal.totalRank_append, Goal.totalRank_cons]
    omega
  · exact Prod.Lex.left _ _ (size_next_lt (Goal.kind_ne_eof_of_shift ‹_›) ‹_›)
  · have := Goal.totalRank_lt_of_look ‹_›
    have hs := size_peek_le ‹_›
    rcases Nat.lt_or_eq_of_le hs with hs | hs
    · exact Prod.Lex.left _ _ hs
    · rw [hs]
      apply Prod.Lex.right
      split <;> simp only [Goal.totalRank_append, Goal.totalRank_cons] <;> omega

variable {g : Goal} {goals gs yes no : List Goal} {new : List Event} {calls : List Call}
  {k : TokenKind}

@[simp] theorem asked_nil (s : Scanner) : s.asked [] = [] := by
  rw [asked]

theorem asked_of_reduce (h : g.step s.current = .reduce new gs) :
    s.asked (g :: goals) = s.asked (gs ++ goals) := by
  rw [asked]
  split <;> simp_all

theorem asked_of_shift (h : g.step s.current = .shift new gs) (hn : s.next = (.ok (), s')) :
    s.asked (g :: goals) = .next :: s'.asked (gs ++ goals) := by
  rw [asked]
  split <;> simp_all
  split <;> simp_all

theorem asked_of_shift_error (h : g.step s.current = .shift new gs)
    (hn : s.next = (.error e, s')) : s.asked (g :: goals) = [.next] := by
  rw [asked]
  split <;> simp_all
  split <;> simp_all

theorem asked_of_look (h : g.step s.current = .look k yes no) (hp : s.peek 0 = (.ok t, s')) :
    s.asked (g :: goals) = .peek 0 :: s'.asked ((if t.kind = k then yes else no) ++ goals) := by
  rw [asked]
  split <;> simp_all
  split <;> simp_all

theorem asked_of_look_error (h : g.step s.current = .look k yes no)
    (hp : s.peek 0 = (.error e, s')) : s.asked (g :: goals) = [.peek 0] := by
  rw [asked]
  split <;> simp_all
  split <;> simp_all

theorem asked_of_refuse {x : Expectation} (h : g.step s.current = .refuse x) :
    s.asked (g :: goals) = [] := by
  rw [asked]
  split <;> simp_all

/-- A run comes to where the calls lead that it makes, and fails to read where one of them fails. -/
theorem serve_asked (s : Scanner) (events : List Event) (goals : List Goal) :
    (s.serve (s.asked goals)).scanner = (run s events goals).scanner ∧
      ∀ e, (s.serve (s.asked goals)).result = .error e ↔
        (run s events goals).result = .error (.lexical e) := by
  induction s, events, goals using run.induct with
  | case1 s events => simp [serve]
  | case2 s events g goals new gs hg ih =>
    rw [run_of_reduce hg, asked_of_reduce hg, ← List.reverseAux_eq]
    exact ih
  | case3 s events g goals new gs hg s₁ hn ih =>
    rw [run_of_shift hg hn, asked_of_shift hg hn, ← List.reverseAux_eq, serve,
      show s.next = _ from hn]
    exact ih
  | case4 s events g goals new gs hg e s₁ hn =>
    rw [run_of_shift_error hg hn, asked_of_shift_error hg hn, serve, show s.next = _ from hn]
    simp
  | case5 s events g goals k yes no hg t s₁ hp ih =>
    rw [run_of_look hg hp, asked_of_look hg hp, serve, show s.peek 0 = _ from hp]
    exact ih
  | case6 s events g goals k yes no hg e s₁ hp =>
    rw [run_of_look_error hg hp, asked_of_look_error hg hp, serve, show s.peek 0 = _ from hp]
    simp
  | case7 s events g goals e hg =>
    rw [run_of_refuse hg, asked_of_refuse hg]
    simp [serve]

/-- Only the next token is asked for, and only the token behind the current one is looked at. -/
theorem asked_cases (s : Scanner) (goals : List Goal) :
    ∀ call ∈ s.asked goals, call = .next ∨ call = .peek 0 := by
  fun_induction asked s goals with
  | case1 => simp
  | case2 _ _ _ _ _ _ ih => exact ih
  | case3 _ _ _ _ _ _ _ _ ih => simpa using ih
  | case4 => simp
  | case5 _ _ _ _ _ _ _ _ _ _ ih => simpa using ih
  | case6 => simp
  | case7 => simp

/-- No more is asked for than lies ahead. -/
theorem count_asked_le (s : Scanner) (goals : List Goal) :
    (s.asked goals).count .next ≤ s.ahead.length := by
  fun_induction asked s goals with
  | case1 => simp
  | case2 _ _ _ _ _ _ ih => exact ih
  | case3 s g goals new gs hg s' hn ih =>
    rw [ahead_of_next (Goal.kind_ne_eof_of_shift hg) hn, List.count_cons_self, List.length_cons]
    exact Nat.succ_le_succ ih
  | case4 s g goals new gs hg e s' hn =>
    rw [ahead_of_next_error (Goal.kind_ne_eof_of_shift hg) hn]
    simp
  | case5 s g goals k yes no hg t s' hp ih =>
    rw [← ahead_of_peek hp]
    simpa using ih
  | case6 => simp
  | case7 => simp

/-- Nothing is asked for while the end of the text is current. -/
theorem kind_ne_eof_of_asked {before after : List Call}
    (h : s.asked goals = before ++ .next :: after) :
    (s.serve before).scanner.current.kind ≠ .eof := by
  fun_induction asked s goals generalizing before with
  | case1 => simp at h
  | case2 _ _ _ _ _ _ ih => exact ih h
  | case3 s g goals new gs hg s' hn ih =>
    cases before with
    | nil => exact Goal.kind_ne_eof_of_shift hg
    | cons call before =>
      obtain ⟨rfl, hcalls⟩ := List.cons.inj h
      rw [serve, hn]
      exact ih hcalls
  | case4 s g goals new gs hg e s' hn =>
    cases before with
    | nil => exact Goal.kind_ne_eof_of_shift hg
    | cons call before => simp at h
  | case5 s g goals k yes no hg t s' hp ih =>
    cases before with
    | nil => simp at h
    | cons call before =>
      obtain ⟨rfl, hcalls⟩ := List.cons.inj h
      rw [serve, hp]
      exact ih (by simpa using hcalls)
  | case6 s g goals k yes no hg e s' hp => cases before <;> simp at h
  | case7 => simp at h

/-! ### How far the text is read -/

/-- Between `s` and `s'` the text has been read for at most one token behind the current one. -/
def ReadsOneAhead (s s' : Scanner) : Prop :=
  ∃ fresh, s.source.Lexes fresh s'.source ∧
    (fresh = [] ∧ s'.pending.length ≤ s.pending.length ∨ s'.pending.length ≤ 1)

namespace ReadsOneAhead

variable {s'' : Scanner}

theorem refl (s : Scanner) : s.ReadsOneAhead s :=
  ⟨[], .nil _, .inl ⟨rfl, Nat.le_refl _⟩⟩

theorem trans (h : s.ReadsOneAhead s') (h' : s'.ReadsOneAhead s'') : s.ReadsOneAhead s'' := by
  obtain ⟨first, hf, hfirst⟩ := h
  obtain ⟨second, hs, ⟨rfl, hle⟩ | hle⟩ := h'
  · refine ⟨first, by simpa using hf.trans hs, ?_⟩
    rcases hfirst with ⟨rfl, hle'⟩ | hle'
    · exact .inl ⟨rfl, Nat.le_trans hle hle'⟩
    · exact .inr (Nat.le_trans hle hle')
  · exact ⟨first ++ second, hf.trans hs, .inr hle⟩

theorem of_next (h : s.next = (.ok (), s')) : s.ReadsOneAhead s' := by
  match hp : s.pending with
  | u :: pending =>
    obtain rfl : _ = s' := by simpa [next_of_pending hp] using h
    exact ⟨[], .nil _, .inl ⟨rfl, by simp [hp]⟩⟩
  | [] =>
    match hl : s.source.lex with
    | (.ok u, source) =>
      obtain rfl : _ = s' := by simpa [next_of_lex hp hl] using h
      exact ⟨[u], .one hl, .inr (by simp [hp])⟩
    | (.error e, source) => simp [next_of_error hp hl] at h

theorem of_peek (h : s.peek 0 = (.ok t, s')) : s.ReadsOneAhead s' := by
  match hp : s.pending with
  | u :: pending =>
    have hu : s.pending[0]? = some u := by rw [hp]; rfl
    obtain ⟨-, rfl⟩ : u = t ∧ s = s' := by simpa [peek_of_pending hu] using h
    exact .refl s
  | [] =>
    have hnone : s.pending[0]? = none := by rw [hp]; rfl
    match hl : s.source.lex with
    | (.ok u, source) =>
      have hu : ({ s with source }.pushBack u).pending[0]? = some u := by simp [pushBack, hp]
      obtain ⟨-, rfl⟩ : u = t ∧ _ = s' := by
        simpa [peek_of_lex hnone hl, peek_of_pending hu] using h
      exact ⟨[u], .one hl, .inr (by simp [pushBack, hp])⟩
    | (.error e, source) => simp [peek_of_error hnone hl] at h

theorem of_serve {ds : List Token} (hcalls : ∀ call ∈ calls, call = .next ∨ call = .peek 0)
    (h : s.serve calls = ⟨ds, .ok (), s'⟩) : s.ReadsOneAhead s' := by
  induction calls generalizing s ds with
  | nil =>
    obtain ⟨-, rfl⟩ : [] = ds ∧ s = s' := by simpa [serve] using h
    exact .refl s
  | cons call calls ih =>
    have hlater : ∀ call ∈ calls, call = .next ∨ call = .peek 0 :=
      fun c hc => hcalls c (List.mem_cons_of_mem _ hc)
    rcases hcalls call List.mem_cons_self with rfl | rfl
    · obtain ⟨e, he, -⟩ | ⟨s₁, us, hn, hs, -⟩ := serve_next_cases h
      · cases he
      · exact (of_next hn).trans (ih hlater hs)
    · obtain ⟨e, he, -⟩ | ⟨u, s₁, hp, hs⟩ := serve_peek_cases h
      · cases he
      · exact (of_peek hp).trans (ih hlater hs)

end ReadsOneAhead

/-! ### A whole program -/

/-- The calls that are made to recognize a program. -/
def programCalls (s : Scanner) : List Call :=
  s.asked ScriptCheck.program

/-- How a scanner is left behind a program: in front of the first end, at the token that is refused,
or where the token behind the current one cannot be read. -/
def LeftBy (s : Scanner) (result : Except ParseError Unit) (s' : Scanner) : Prop :=
  match result with
  | .ok () => s'.current.kind = .eof ∧ ∃ fresh, s.Passes s.ahead fresh s'
  | .error (.grammatical err) =>
    (∃ x, err = .atToken x s'.current) ∧ ∃ ts fresh, ts <+: s.ahead ∧ s.Passes ts fresh s'
  | .error (.lexical e) =>
    ∃ ts fresh source, s.ahead = ts ++ [s'.current] ∧ s.Passes ts fresh ⟨source, s'.current, []⟩ ∧
      source.lex = (.error e, s'.source) ∧ s'.pending = []

theorem leftBy_of_error {ts : List Token} {s'' : Scanner} (hf : Feeds s ts s') (ht : Endless ts)
    (hc : s'.current.kind ≠ .eof) (hn : s'.next = (.error e, s'')) :
    s.LeftBy (.error (.lexical e)) s'' := by
  obtain ⟨fresh, hp⟩ := passes_of_feeds hf
  obtain ⟨hl, hcur, hq, hq'⟩ := next_error_cases hn
  refine ⟨ts, fresh, s'.source, ?_, ?_, hl, hq'⟩
  · rw [ahead_of_feeds hf ht, ahead_of_next_error hc hn, hcur]
  · obtain ⟨source, current, pending⟩ := s'
    obtain rfl : pending = [] := hq
    rw [hcur]
    exact hp

theorem leftBy_program (s : Scanner) : s.LeftBy s.program.result s.program.scanner := by
  have hprogram : s.program = run s [] ScriptCheck.program := rfl
  obtain ⟨ts, es, s', goals, hf, hr, hfin, hrun⟩ := exists_reaches s [] ScriptCheck.program
  rw [hprogram, hrun]
  have ht : Endless ts := hr.kind_ne_eof
  cases hfin with
  | done =>
    have hc : s'.current.kind = .eof := hr.kind_eq_eof rfl
    have hahead : s.ahead = ts := by rw [ahead_of_feeds hf ht, ahead_of_eof hc, List.append_nil]
    rw [run_nil]
    exact ⟨hc, hahead ▸ passes_of_feeds hf⟩
  | @refused g goals x hg =>
    obtain ⟨fresh, hp⟩ := passes_of_feeds hf
    rw [run_of_refuse hg]
    exact ⟨⟨x, rfl⟩, ts, fresh, ⟨s'.ahead, (ahead_of_feeds hf ht).symm⟩, hp⟩
  | cut hg hn =>
    rw [run_of_shift_error hg hn]
    exact leftBy_of_error hf ht (Goal.kind_ne_eof_of_shift hg) hn
  | blind hg hp =>
    rw [run_of_look_error hg hp]
    exact leftBy_of_error hf ht (Goal.kind_ne_eof_of_look hg) (next_of_peek_error hp)

/-- In front of whatever tokens a program is recognized, the calls that this takes are at most one
`next` for each token that lies ahead, none of them at the end of the text, and looks at the token
behind the current one; the text is never read further than that. What is left is the scanner in
front of the end or of the token that is refused, with what was queued behind it. -/
theorem program_within_ahead (s : Scanner) :
    (s.serve s.programCalls).scanner = s.program.scanner ∧
    (∀ e, (s.serve s.programCalls).result = .error e ↔
      s.program.result = .error (.lexical e)) ∧
    (∀ call ∈ s.programCalls, call = .next ∨ call = .peek 0) ∧
    s.programCalls.count .next ≤ s.ahead.length ∧
    (∀ before after, s.programCalls = before ++ .next :: after →
      (s.serve before).scanner.current.kind ≠ .eof) ∧
    (∀ before, before <+: s.programCalls → ∀ ds s', s.serve before = ⟨ds, .ok (), s'⟩ →
      ∃ fresh, s.source.Lexes fresh s'.source ∧ (fresh = [] ∨ s'.pending.length ≤ 1)) ∧
    s.LeftBy s.program.result s.program.scanner := by
  have hcalls := s.asked_cases ScriptCheck.program
  obtain ⟨hscanner, hresult⟩ := s.serve_asked [] ScriptCheck.program
  refine ⟨hscanner, hresult, hcalls, s.count_asked_le _, ?_, ?_, s.leftBy_program⟩
  · intro before after
    exact kind_ne_eof_of_asked
  · intro before hbefore ds s' hserve
    obtain ⟨fresh, hl, ⟨rfl, -⟩ | hle⟩ :=
      ReadsOneAhead.of_serve (fun c hc => hcalls c (hbefore.subset hc)) hserve
    · exact ⟨[], hl, .inl rfl⟩
    · exact ⟨fresh, hl, .inr hle⟩

/-- An end of the text that was pushed back is the end of the program; what is queued behind it
stays. -/
example :
    let t : Token := ⟨.keyword .kwBreak, .none, ⟨1, 1⟩⟩
    let s : Scanner := ⟨.ofText "x", t, [.eof ⟨2, 1⟩, t]⟩
    s.programCalls = [.next] ∧ s.program.result = .ok () ∧ s.program.scanner.pending = [t] := by
  cbv

end Scanner

end ScriptCheck
