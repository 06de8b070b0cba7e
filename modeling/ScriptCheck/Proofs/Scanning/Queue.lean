import ScriptCheck.Host.Basic
import ScriptCheck.Proofs.Lexing.Sequence

/-!
# The scanner as a queue

A scanner is a queue in front of the tokens of its text. Whatever is asked of it, what it delivers
and then still holds is what has arrived in the queue, in the order of arrival: tokens that were
pushed back, and tokens that were read off the text because somebody looked ahead or because the
queue was empty. Looking ahead shows what is to come and changes nothing of it.
-/

namespace ScriptCheck

/-! ### Interleaved lists -/

/-- The elements of two lists in one, those of each in their order. -/
inductive Interleaves {α : Type} : List α → List α → List α → Prop
  | nil : Interleaves [] [] []
  | left {x : α} {xs ys zs : List α} (h : Interleaves xs ys zs) :
      Interleaves (x :: xs) ys (x :: zs)
  | right {y : α} {xs ys zs : List α} (h : Interleaves xs ys zs) :
      Interleaves xs (y :: ys) (y :: zs)

namespace Interleaves

variable {α : Type} {xs ys zs : List α}

theorem eq_of_nil (h : Interleaves [] ys zs) : zs = ys := by
  generalize hx : ([] : List α) = xs at h
  induction h with
  | nil => rfl
  | left => cases hx
  | right _ ih => rw [ih hx]

/-- Elements of the second list come first. -/
theorem append_right (h : Interleaves xs ys zs) (before : List α) :
    Interleaves xs (before ++ ys) (before ++ zs) := by
  induction before with
  | nil => exact h
  | cons y before ih => exact .right ih

end Interleaves

/-! ### Calls -/

/-- What a scanner may be asked for while it is in front of one text. -/
inductive Call
  | next
  | peek (n : Nat)
  | push (t : Token)
deriving DecidableEq

/-- The tokens that some calls push back, in order. -/
def pushed : List Call → List Token
  | [] => []
  | .push t :: calls => t :: pushed calls
  | _ :: calls => pushed calls

/-- How far a scanner has come with some calls: up to the first that fails. -/
structure Service where
  /-- The tokens that `next` has made current. -/
  delivered : List Token
  result : Except LexError Unit
  scanner : Scanner

namespace Scanner

/-- Makes calls in turn up to the first that fails. -/
def serve (s : Scanner) : List Call → Service
  | [] => ⟨[], .ok (), s⟩
  | .next :: calls =>
    match s.next with
    | (.ok (), s') =>
      let service := s'.serve calls
      { service with delivered := s'.current :: service.delivered }
    | (.error e, s') => ⟨[], .error e, s'⟩
  | .peek n :: calls =>
    match s.peek n with
    | (.ok _, s') => s'.serve calls
    | (.error e, s') => ⟨[], .error e, s'⟩
  | .push t :: calls => (s.pushBack t).serve calls

/-- The token that `n + 1` calls of `next` make current in the end. -/
def upcoming (s : Scanner) : Nat → Except LexError Token
  | 0 =>
    match s.next with
    | (.ok (), s') => .ok s'.current
    | (.error e, _) => .error e
  | n + 1 =>
    match s.next with
    | (.ok (), s') => s'.upcoming n
    | (.error e, _) => .error e

variable {s s' : Scanner} {source source' : Source} {c t : Token} {p ts fresh : List Token}
  {calls : List Call} {e : LexError} {n : Nat}

/-! ### What one call does -/

theorem exists_fresh_of_next (h : s.next = (.ok (), s')) :
    ∃ fresh, s.source.Lexes fresh s'.source ∧ s.pending ++ fresh = s'.current :: s'.pending := by
  match hp : s.pending with
  | u :: pending =>
    obtain rfl : _ = s' := by simpa [next_of_pending hp] using h
    exact ⟨[], .nil _, by simp⟩
  | [] =>
    match hl : s.source.lex with
    | (.ok u, source) =>
      obtain rfl : _ = s' := by simpa [next_of_lex hp hl] using h
      exact ⟨[u], .one hl, by simp [hp]⟩
    | (.error e, source) => simp [next_of_error hp hl] at h

theorem next_error_cases (h : s.next = (.error e, s')) :
    s.source.lex = (.error e, s'.source) ∧ s'.current = s.current ∧ s.pending = [] ∧
      s'.pending = [] := by
  match hp : s.pending with
  | u :: pending => simp [next_of_pending hp] at h
  | [] =>
    match hl : s.source.lex with
    | (.ok u, source) => simp [next_of_lex hp hl] at h
    | (.error e', source) =>
      obtain ⟨rfl, rfl⟩ : e' = e ∧ _ = s' := by simpa [next_of_error hp hl] using h
      exact ⟨rfl, rfl, rfl, hp⟩

theorem lex_of_next_eq_error (h : s.next = (.error e, s')) :
    s.source.lex = (.error e, s'.source) :=
  (next_error_cases h).1

/-- To look ahead, tokens are read off the text and queued behind those that are pending. -/
theorem exists_fresh_of_peek (h : s.peek n = (.ok t, s')) :
    ∃ fresh source, s.source.Lexes fresh source ∧
      s' = ⟨source, s.current, s.pending ++ fresh⟩ ∧ s'.pending[n]? = some t := by
  induction s using peek.induct n with
  | case1 s u hu =>
    obtain ⟨rfl, rfl⟩ : u = t ∧ s = s' := by simpa [peek_of_pending hu] using h
    exact ⟨[], s.source, .nil _, by simp, hu⟩
  | case2 s hn u source hl ih =>
    rw [peek_of_lex hn hl] at h
    obtain ⟨fresh, source', hs, rfl, ht⟩ := ih h
    exact ⟨u :: fresh, source', .cons hl hs, by simp [pushBack], ht⟩
  | case3 s hn e source hl => simp [peek_of_error hn hl] at h

/-- What was read off the text before a look ahead failed stays queued. -/
theorem exists_fresh_of_peek_error (h : s.peek n = (.error e, s')) :
    ∃ fresh source source', s.source.Lexes fresh source ∧ source.lex = (.error e, source') ∧
      s' = ⟨source', s.current, s.pending ++ fresh⟩ ∧ s'.pending.length ≤ n := by
  induction s using peek.induct n with
  | case1 s u hu => simp [peek_of_pending hu] at h
  | case2 s hn u source hl ih =>
    rw [peek_of_lex hn hl] at h
    obtain ⟨fresh, source₁, source', hs, he, rfl, hlen⟩ := ih h
    exact ⟨u :: fresh, source₁, source', .cons hl hs, he, by simp [pushBack], hlen⟩
  | case3 s hn e' source hl =>
    obtain ⟨rfl, rfl⟩ : e' = e ∧ _ = s' := by simpa [peek_of_error hn hl] using h
    exact ⟨[], s.source, source, .nil _, hl, by simp, by simpa using hn⟩

/-! ### What several calls do -/

theorem serve_next_cases {r : Except LexError Unit} (h : s.serve (.next :: calls) = ⟨ts, r, s'⟩) :
    (∃ e, r = .error e ∧ s.next = (.error e, s')) ∨
      ∃ s₁ us, s.next = (.ok (), s₁) ∧ s₁.serve calls = ⟨us, r, s'⟩ ∧ ts = s₁.current :: us := by
  match hn : s.next with
  | (.error e, s₁) =>
    obtain ⟨-, rfl, rfl⟩ : [] = ts ∧ .error e = r ∧ s₁ = s' := by simpa [serve, hn] using h
    exact .inl ⟨e, rfl, rfl⟩
  | (.ok (), s₁) =>
    match hs : s₁.serve calls with
    | ⟨us, r', s₂⟩ =>
      obtain ⟨rfl, rfl, rfl⟩ : s₁.current :: us = ts ∧ r' = r ∧ s₂ = s' := by
        simpa [serve, hn, hs] using h
      exact .inr ⟨s₁, us, rfl, hs, rfl⟩

theorem serve_peek_cases {r : Except LexError Unit}
    (h : s.serve (.peek n :: calls) = ⟨ts, r, s'⟩) :
    (∃ e, r = .error e ∧ s.peek n = (.error e, s')) ∨
      ∃ t s₁, s.peek n = (.ok t, s₁) ∧ s₁.serve calls = ⟨ts, r, s'⟩ := by
  match hp : s.peek n with
  | (.error e, s₁) =>
    obtain ⟨-, rfl, rfl⟩ : [] = ts ∧ .error e = r ∧ s₁ = s' := by simpa [serve, hp] using h
    exact .inl ⟨e, rfl, rfl⟩
  | (.ok t, s₁) => exact .inr ⟨t, s₁, rfl, by simpa [serve, hp] using h⟩

/-! ### What is upcoming -/

theorem upcoming_of_pending (h : s.pending[n]? = some t) : s.upcoming n = .ok t := by
  induction n generalizing s with
  | zero =>
    obtain ⟨pending, hp⟩ : ∃ pending, s.pending = t :: pending := by
      cases hp : s.pending <;> simp_all
    rw [upcoming, next_of_pending hp]
  | succ n ih =>
    obtain ⟨u, pending, hp⟩ : ∃ u pending, s.pending = u :: pending := by
      cases hp : s.pending <;> simp_all
    rw [upcoming, next_of_pending hp]
    exact ih (by simpa [hp] using h)

theorem upcoming_of_lex (h : source.lex = (.ok t, source')) (c : Token) (p : List Token) (n : Nat) :
    upcoming ⟨source', c, p ++ [t]⟩ n = upcoming ⟨source, c, p⟩ n := by
  induction n generalizing c p with
  | zero => cases p <;> simp [upcoming, next, h]
  | succ n ih =>
    cases p with
    | nil => simp [upcoming, next, h]
    | cons u p => simpa [upcoming, next] using ih u p

/-- Whether a token is queued or still to be read makes no difference to what is upcoming. -/
theorem upcoming_of_lexes (h : source.Lexes fresh source') (c : Token) (p : List Token) (n : Nat) :
    upcoming ⟨source', c, p ++ fresh⟩ n = upcoming ⟨source, c, p⟩ n := by
  induction h generalizing p with
  | nil => simp
  | @cons source source₁ source' t fresh hl _ ih =>
    rw [List.append_cons, ih, upcoming_of_lex hl]

theorem upcoming_of_error (h : source.lex = (.error e, source')) (hn : p.length ≤ n) (c : Token) :
    upcoming ⟨source, c, p⟩ n = .error e := by
  induction p generalizing c n with
  | nil => cases n <;> simp [upcoming, next, h]
  | cons u p ih =>
    cases n with
    | zero => simp at hn
    | succ n => simpa [upcoming, next] using ih (by simpa using hn) u

/-- Looking ahead tells what is upcoming. -/
theorem peek_eq_upcoming (s : Scanner) (n : Nat) : (s.peek n).1 = s.upcoming n := by
  match h : s.peek n with
  | (.ok t, s') =>
    obtain ⟨fresh, source, hs, rfl, ht⟩ := exists_fresh_of_peek h
    rw [← upcoming_of_pending ht, upcoming_of_lexes hs]
  | (.error e, s') =>
    obtain ⟨fresh, source, source', hs, he, rfl, hlen⟩ := exists_fresh_of_peek_error h
    rw [← upcoming_of_error he hlen s.current, upcoming_of_lexes hs]

theorem upcoming_of_peek (h : s.peek n = (.ok t, s')) (m : Nat) :
    s'.upcoming m = s.upcoming m := by
  obtain ⟨fresh, source, hs, rfl, -⟩ := exists_fresh_of_peek h
  exact upcoming_of_lexes hs _ _ _

theorem current_of_peek (h : s.peek n = (.ok t, s')) : s'.current = s.current := by
  obtain ⟨fresh, source, -, rfl, -⟩ := exists_fresh_of_peek h
  rfl

theorem upcoming_of_next (h : s.next = (.ok (), s')) (m : Nat) :
    s'.upcoming m = s.upcoming (m + 1) := by
  simp [upcoming, h]

/-- What calls without a push deliver depends on what is upcoming alone. -/
theorem serve_eq_of_upcoming (h : ∀ n, s.upcoming n = s'.upcoming n) (hc : pushed calls = []) :
    (s.serve calls).delivered = (s'.serve calls).delivered ∧
      (s.serve calls).result = (s'.serve calls).result := by
  induction calls generalizing s s' with
  | nil => exact ⟨rfl, rfl⟩
  | cons call calls ih =>
    cases call with
    | next =>
      have h₀ := h 0
      match hn : s.next, hn' : s'.next with
      | (.ok (), s₁), (.ok (), s₁') =>
        have hcur : s₁.current = s₁'.current := by simpa [upcoming, hn, hn'] using h₀
        have hrest (m : Nat) : s₁.upcoming m = s₁'.upcoming m := by
          rw [upcoming_of_next hn, upcoming_of_next hn', h]
        obtain ⟨hd, hr⟩ := ih hrest hc
        simp [serve, hn, hn', hcur, hd, hr]
      | (.error e, s₁), (.error e', s₁') => simpa [serve, upcoming, hn, hn'] using h₀
      | (.ok (), s₁), (.error e', s₁') => simp [upcoming, hn, hn'] at h₀
      | (.error e, s₁), (.ok (), s₁') => simp [upcoming, hn, hn'] at h₀
    | peek n =>
      have hpeek : (s.peek n).1 = (s'.peek n).1 := by
        rw [peek_eq_upcoming, peek_eq_upcoming, h]
      match hp : s.peek n, hp' : s'.peek n with
      | (.ok u, s₁), (.ok u', s₁') =>
        simp only [serve, hp, hp']
        exact ih (fun m => by rw [upcoming_of_peek hp, upcoming_of_peek hp', h]) hc
      | (.error e, s₁), (.error e', s₁') => simpa [serve, hp, hp'] using hpeek
      | (.ok u, s₁), (.error e', s₁') => simp [hp, hp'] at hpeek
      | (.error e, s₁), (.ok u', s₁') => simp [hp, hp'] at hpeek
    | push t => cases hc

/-! ### What is kept by all calls -/

/-- What was pending and what has arrived since is what was delivered and what is pending now. -/
theorem exists_arrived_of_serve (h : s.serve calls = ⟨ts, .ok (), s'⟩) :
    ∃ fresh arrived, s.source.Lexes fresh s'.source ∧ Interleaves (pushed calls) fresh arrived ∧
      s.pending ++ arrived = ts ++ s'.pending := by
  induction calls generalizing s ts with
  | nil =>
    obtain ⟨rfl, rfl⟩ : [] = ts ∧ s = s' := by simpa [serve] using h
    exact ⟨[], [], .nil _, .nil, by simp⟩
  | cons call calls ih =>
    cases call with
    | next =>
      obtain ⟨e, he, -⟩ | ⟨s₁, us, hn, hs, rfl⟩ := serve_next_cases h
      · cases he
      · obtain ⟨first, hf, hp⟩ := exists_fresh_of_next hn
        obtain ⟨fresh, arrived, hl, hi, ha⟩ := ih hs
        refine ⟨first ++ fresh, first ++ arrived, hf.trans hl, hi.append_right first, ?_⟩
        rw [← List.append_assoc, hp, List.cons_append, ha, List.cons_append]
    | peek n =>
      obtain ⟨e, he, -⟩ | ⟨t, s₁, hp, hs⟩ := serve_peek_cases h
      · cases he
      · obtain ⟨first, source, hf, rfl, -⟩ := exists_fresh_of_peek hp
        obtain ⟨fresh, arrived, hl, hi, ha⟩ := ih hs
        refine ⟨first ++ fresh, first ++ arrived, hf.trans hl, hi.append_right first, ?_⟩
        rw [← List.append_assoc, ha]
    | push t =>
      obtain ⟨fresh, arrived, hl, hi, ha⟩ := ih (s := s.pushBack t) h
      refine ⟨fresh, t :: arrived, hl, hi.left, ?_⟩
      rw [← ha]
      simp [pushBack]

/-- Calls fail for want of a token only. -/
theorem exists_fresh_of_serve_error (h : s.serve calls = ⟨ts, .error e, s'⟩) :
    ∃ fresh source, s.source.Lexes fresh source ∧ source.lex = (.error e, s'.source) := by
  induction calls generalizing s ts with
  | nil => simp [serve] at h
  | cons call calls ih =>
    cases call with
    | next =>
      obtain ⟨e', he, hn⟩ | ⟨s₁, us, hn, hs, -⟩ := serve_next_cases h
      · cases he
        exact ⟨[], s.source, .nil _, lex_of_next_eq_error hn⟩
      · obtain ⟨first, hf, -⟩ := exists_fresh_of_next hn
        obtain ⟨fresh, source, hl, he⟩ := ih hs
        exact ⟨first ++ fresh, source, hf.trans hl, he⟩
    | peek n =>
      obtain ⟨e', he, hp⟩ | ⟨t, s₁, hp, hs⟩ := serve_peek_cases h
      · cases he
        obtain ⟨fresh, source, source', hl, he, rfl, -⟩ := exists_fresh_of_peek_error hp
        exact ⟨fresh, source, hl, he⟩
      · obtain ⟨first, source₁, hf, rfl, -⟩ := exists_fresh_of_peek hp
        obtain ⟨fresh, source, hl, he⟩ := ih hs
        exact ⟨first ++ fresh, source, hf.trans hl, he⟩
    | push t => exact ih (s := s.pushBack t) h

theorem length_delivered (h : s.serve calls = ⟨ts, .ok (), s'⟩) :
    ts.length = calls.count .next := by
  induction calls generalizing s ts with
  | nil =>
    obtain ⟨rfl, -⟩ : [] = ts ∧ s = s' := by simpa [serve] using h
    rfl
  | cons call calls ih =>
    cases call with
    | next =>
      obtain ⟨e, he, -⟩ | ⟨s₁, us, -, hs, rfl⟩ := serve_next_cases h
      · cases he
      · simp [ih hs]
    | peek n =>
      obtain ⟨e, he, -⟩ | ⟨t, s₁, -, hs⟩ := serve_peek_cases h
      · cases he
      · simpa using ih hs
    | push t => simpa using ih (s := s.pushBack t) h

/-! ### A scanner and the tokens of its text -/

theorem openFile_error {σ : Type} [Host σ] {host : σ} {path : String} {e : LoadError}
    (h : s.openFile host path = (.error e, s')) : s' = s := by
  unfold openFile at h
  split at h
  · simp at h
  · obtain ⟨-, rfl⟩ : _ ∧ s = s' := by simpa using h
    rfl

/-- A scanner is a queue in front of the tokens of its text: what is pushed back and what is read
off the text leaves it in the order in which it came, and looking ahead changes nothing. -/
theorem serves_as_queue (text : String) (calls : List Call) :
    (∀ ds e s, (ofText text).serve calls = ⟨ds, .error e, s⟩ → tokenize text = .error e) ∧
    (∀ ds s, (ofText text).serve calls = ⟨ds, .ok (), s⟩ →
      ds.length = calls.count .next ∧
      -- without a push the tokens of the text are delivered, and then its end again and again
      (pushed calls = [] → firstTokens ds.length text = .ok ds ∧
        ∀ ts, tokenize text = .ok ts →
          ∃ t, ts.getLast? = some t ∧ t.kind = .eof ∧
            ds <+: ts ++ List.replicate ds.length t) ∧
      (∃ read, firstTokens read.length text = .ok read ∧
        Interleaves (pushed calls) read (ds ++ s.pending) ∧
        -- what is pending comes next, and then what arrives later
        (∀ later ds' s', s.serve later = ⟨ds', .ok (), s'⟩ →
          ∃ fresh arrived, firstTokens (read ++ fresh).length text = .ok (read ++ fresh) ∧
            Interleaves (pushed later) fresh arrived ∧
            ds' ++ s'.pending = s.pending ++ arrived) ∧
        ∀ t later ds' s', (s.pushBack t).serve later = ⟨ds', .ok (), s'⟩ →
          ∃ fresh arrived, firstTokens (read ++ fresh).length text = .ok (read ++ fresh) ∧
            Interleaves (pushed later) fresh arrived ∧
            ds' ++ s'.pending = s.pending ++ t :: arrived) ∧
      -- a look ahead shows what is upcoming; all it does is to queue tokens of the text
      ∀ n, (s.peek n).1 = s.upcoming n ∧
        ∀ t s', s.peek n = (.ok t, s') →
          s'.current = s.current ∧
            (∃ fresh, s.source.Lexes fresh s'.source ∧ s'.pending = s.pending ++ fresh) ∧
            (∀ m, s'.upcoming m = s.upcoming m) ∧
            ∀ later, pushed later = [] →
              (s'.serve later).delivered = (s.serve later).delivered ∧
                (s'.serve later).result = (s.serve later).result) ∧
    (∀ (s : Scanner) (text : String), s.scan text = ofText text) ∧
    ∀ (σ : Type) [Host σ] (host : σ) (path : String) (s s' : Scanner) (e : LoadError),
      s.openFile host path = (.error e, s') → s' = s := by
  refine ⟨?_, ?_, scan_eq, ?_⟩
  · intro ds e s h
    obtain ⟨fresh, source, hl, he⟩ := exists_fresh_of_serve_error h
    exact hl.tokens_eq_error he
  · intro ds s h
    obtain ⟨read, arrived, hl, hi, ha⟩ := exists_arrived_of_serve h
    obtain rfl : arrived = ds ++ s.pending := ha
    refine ⟨length_delivered h, ?_, ⟨read, hl.first_eq, hi, ?_, ?_⟩, ?_⟩
    · intro hp
      rw [hp] at hi
      obtain rfl := hi.eq_of_nil
      obtain ⟨source, hd, -⟩ := hl.exists_of_append
      exact ⟨hd.first_eq, fun ts => hd.isPrefix⟩
    · intro later ds' s' h'
      obtain ⟨fresh, arrived, hl', hi', ha'⟩ := exists_arrived_of_serve h'
      exact ⟨fresh, arrived, (hl.trans hl').first_eq, hi', ha'.symm⟩
    · intro t later ds' s' h'
      obtain ⟨fresh, arrived, hl', hi', ha'⟩ := exists_arrived_of_serve h'
      exact ⟨fresh, arrived, (hl.trans hl').first_eq, hi', by simp [← ha', pushBack]⟩
    · intro n
      refine ⟨peek_eq_upcoming s n, ?_⟩
      intro t s' h'
      have hup := upcoming_of_peek h'
      refine ⟨current_of_peek h', ?_, hup, fun later => serve_eq_of_upcoming hup⟩
      obtain ⟨fresh, source, hf, rfl, -⟩ := exists_fresh_of_peek h'
      exact ⟨fresh, hf, rfl⟩
  · intro σ _ host path s s' e
    exact openFile_error

end Scanner

end ScriptCheck
