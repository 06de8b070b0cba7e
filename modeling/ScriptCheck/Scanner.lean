import ScriptCheck.Source
import ScriptCheck.Token.Feed

/-!
# The scanner

A scanner holds the current token, a queue of tokens that come before anything new is read, and
the source behind them. A failing operation changes only the source: the current token and the
queue stay, and what was used up is lost.
-/

namespace ScriptCheck

structure Scanner where
  source : Source
  current : Token
  pending : List Token
deriving DecidableEq, Repr

namespace Scanner

/-- A scanner in front of a text; until the first token is asked for, the end is current. -/
def ofText (text : String) : Scanner :=
  ⟨.ofText text, .eof .start, []⟩

def empty : Scanner :=
  ofText ""

/-- Puts a scanner in front of a text. What it was doing before is given up. -/
def scan (s : Scanner) (text : String) : Scanner :=
  { s with source := .ofText text, current := .eof .start, pending := [] }

@[simp] theorem scan_eq (s : Scanner) (text : String) : s.scan text = ofText text := rfl

/-- Makes the next token current. -/
def next (s : Scanner) : Except LexError Unit × Scanner :=
  match s.pending with
  | t :: pending => (.ok (), { s with current := t, pending })
  | [] =>
    match s.source.lex with
    | (.ok t, source) => (.ok (), { s with source, current := t })
    | (.error e, source) => (.error e, { s with source })

/-- Queues a token behind those that are pending. -/
def pushBack (s : Scanner) (t : Token) : Scanner :=
  { s with pending := s.pending ++ [t] }

/-- The token that the `n + 1`st `next` will make current; what it has to read becomes pending. -/
def peek (n : Nat) (s : Scanner) : Except LexError Token × Scanner :=
  match _ : s.pending[n]? with
  | some t => (.ok t, s)
  | none =>
    match s.source.lex with
    | (.ok t, source) => peek n ({ s with source }.pushBack t)
    | (.error e, source) => (.error e, { s with source })
termination_by n + 1 - s.pending.length
decreasing_by
  have := List.getElem?_eq_none_iff.1 ‹s.pending[n]? = none›
  simp only [pushBack, List.length_append, List.length_singleton]
  omega

theorem next_of_pending {s : Scanner} {t : Token} {ts : List Token} (h : s.pending = t :: ts) :
    s.next = (.ok (), { s with current := t, pending := ts }) := by
  simp [next, h]

theorem next_of_lex {s : Scanner} {source : Source} {t : Token} (h : s.pending = [])
    (hl : s.source.lex = (.ok t, source)) :
    s.next = (.ok (), { s with source, current := t }) := by
  simp [next, h, hl]

theorem next_of_error {s : Scanner} {source : Source} {e : LexError} (h : s.pending = [])
    (hl : s.source.lex = (.error e, source)) : s.next = (.error e, { s with source }) := by
  simp [next, h, hl]

theorem peek_of_pending {n : Nat} {s : Scanner} {t : Token} (h : s.pending[n]? = some t) :
    s.peek n = (.ok t, s) := by
  rw [peek]
  split <;> simp_all

theorem peek_of_lex {n : Nat} {s : Scanner} {source : Source} {t : Token}
    (h : s.pending[n]? = none) (hl : s.source.lex = (.ok t, source)) :
    s.peek n = ({ s with source }.pushBack t).peek n := by
  rw [peek]
  split
  · simp_all
  · split <;> simp_all

theorem peek_of_error {n : Nat} {s : Scanner} {source : Source} {e : LexError}
    (h : s.pending[n]? = none) (hl : s.source.lex = (.error e, source)) :
    s.peek n = (.error e, { s with source }) := by
  rw [peek]
  split
  · simp_all
  · split <;> simp_all

/-! ### Progress -/

/-- What a scanner can deliver at most before it stays at the end of the text. -/
def size (s : Scanner) : Nat :=
  s.pending.countP (·.kind ≠ .eof) + s.source.rest.length + if s.current.kind = .eof then 0 else 1

/-- A token that is taken off a source makes the source shorter, unless it is the end. -/
theorem length_lex_add_le {source source' : Source} {t : Token}
    (h : source.lex = (.ok t, source')) :
    source'.rest.length + (if t.kind = .eof then 0 else 1) ≤ source.rest.length := by
  split
  · have := source.length_lex_le
    simpa [h] using this
  · exact Source.length_lex_lt h ‹_›

theorem size_next_lt {s s' : Scanner} (hs : s.current.kind ≠ .eof) (h : s.next = (.ok (), s')) :
    s'.size < s.size := by
  unfold next at h
  split at h
  · rename_i t pending hp
    simp only [Prod.mk.injEq, true_and] at h
    subst h
    simp only [size, hp, List.countP_cons, if_neg hs]
    split <;> simp_all
  · rename_i hp
    split at h
    · rename_i t source hl
      simp only [Prod.mk.injEq, true_and] at h
      subst h
      have := length_lex_add_le hl
      simp only [size, if_neg hs]
      omega
    · simp at h

theorem size_peek_le {s s' : Scanner} {t : Token} (h : s.peek 0 = (.ok t, s')) :
    s'.size ≤ s.size := by
  cases hp : s.pending with
  | cons u pending =>
    rw [peek_of_pending (by rw [hp]; rfl)] at h
    simp only [Prod.mk.injEq] at h
    exact h.2 ▸ Nat.le_refl _
  | nil =>
    match hl : s.source.lex with
    | (.ok u, source) =>
      rw [peek_of_lex (by rw [hp]; rfl) hl, peek_of_pending (t := u) (by simp [pushBack, hp])] at h
      simp only [Prod.mk.injEq] at h
      have := length_lex_add_le hl
      simp only [← h.2, size, pushBack, hp, List.nil_append, List.countP_singleton]
      split <;> simp_all
      omega
    | (.error e, source) =>
      rw [peek_of_error (by rw [hp]; rfl) hl] at h
      simp at h

/-! ### As a feed -/

theorem next_of_peek {s s' : Scanner} {t : Token} (h : s.peek 0 = (.ok t, s')) :
    s'.current = s.current ∧ s'.next = s.next ∧
      ∃ s'', s.next = (.ok (), s'') ∧ s''.current = t := by
  cases hp : s.pending with
  | cons u pending =>
    rw [peek_of_pending (by rw [hp]; rfl)] at h
    simp only [Prod.mk.injEq, Except.ok.injEq] at h
    obtain ⟨rfl, rfl⟩ := h
    exact ⟨rfl, rfl, _, next_of_pending hp, rfl⟩
  | nil =>
    match hl : s.source.lex with
    | (.ok u, source) =>
      rw [peek_of_lex (by rw [hp]; rfl) hl, peek_of_pending (t := u) (by simp [pushBack, hp])] at h
      simp only [Prod.mk.injEq, Except.ok.injEq] at h
      obtain ⟨rfl, rfl⟩ := h
      have hn := next_of_lex hp hl
      have hq : ({ s with source }.pushBack u).pending = [u] := by simp [pushBack, hp]
      refine ⟨rfl, ?_, _, hn, rfl⟩
      rw [hn, next_of_pending hq]
      simp [pushBack, hp]
    | (.error e, source) =>
      rw [peek_of_error (by rw [hp]; rfl) hl] at h
      simp at h

theorem next_of_peek_error {s s' : Scanner} {e : LexError} (h : s.peek 0 = (.error e, s')) :
    s.next = (.error e, s') := by
  cases hp : s.pending with
  | cons u pending =>
    rw [peek_of_pending (by rw [hp]; rfl)] at h
    simp at h
  | nil =>
    match hl : s.source.lex with
    | (.ok u, source) =>
      rw [peek_of_lex (by rw [hp]; rfl) hl, peek_of_pending (t := u) (by simp [pushBack, hp])] at h
      simp at h
    | (.error e', source) =>
      rw [peek_of_error (by rw [hp]; rfl) hl] at h
      simp only [Prod.mk.injEq, Except.error.injEq] at h
      rw [next_of_error hp hl, h.1, h.2]

instance : TokenFeed Scanner where
  current := current
  next := next
  peek := peek 0
  size := size
  size_next_lt := size_next_lt
  size_peek_le := size_peek_le
  next_of_peek := next_of_peek
  next_of_peek_error := next_of_peek_error

end Scanner

end ScriptCheck
