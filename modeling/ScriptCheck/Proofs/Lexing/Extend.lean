import ScriptCheck.Proofs.Lexing.Lexemes
import Mathlib.Data.List.Basic

/-!
# Lexemes in longer texts

When more text is added behind a text, what is read at its head stays the same, unless reading came
to the end of the text and goes on into what is added. Gaps may go on in any case: a gap that
reaches up to the end takes in the gap of what is added. Only a line comment would swallow more than
that, so a line break has to stand in between.
-/

namespace ScriptCheck

variable {c : Char} {text rest more : List Char} {content : TokenKind × Payload}

/-- Reading that leaves `rest` of a text does not go on into `more`, which is added to it. -/
def Stops (rest more : List Char) : Prop :=
  rest = [] → AtBlank more

/-- A run of characters ends where it did, unless it goes on into what is added. -/
theorem takeWhile_append_of_imp {p : Char → Bool}
    (h : text.dropWhile p = [] → ∀ c ∈ more.head?, p c = false) :
    (text ++ more).takeWhile p = text.takeWhile p ∧
      (text ++ more).dropWhile p = text.dropWhile p ++ more := by
  induction text with
  | nil =>
    cases more with
    | nil => simp
    | cons c more => simp [h rfl c rfl]
  | cons c text ih =>
    by_cases hc : p c
    · have ih := ih (by simpa [hc] using h)
      simp [hc, ih.1, ih.2]
    · simp [hc]

theorem Stops.takeWhile {p : Char → Bool} (h : Stops (text.dropWhile p) more)
    (hp : ∀ c, isBlank c → p c = false) :
    (text ++ more).takeWhile p = text.takeWhile p ∧
      (text ++ more).dropWhile p = text.dropWhile p ++ more :=
  takeWhile_append_of_imp fun hn c hc => hp c (h hn c hc)

theorem Stops.ne_cons (h : Stops rest more) (hc : ¬ isBlank c) (hr : ∀ r, rest ≠ c :: r)
    (r : List Char) : rest ++ more ≠ c :: r := by
  intro hx
  cases rest with
  | nil =>
    have hm := h rfl
    rw [show more = c :: r from hx] at hm
    exact hc (atBlank_cons.1 hm)
  | cons d rest =>
    obtain ⟨rfl, -⟩ := List.cons.inj hx
    exact hr rest rfl

theorem Stops.startsWithDigit (h : Stops rest more) :
    startsWithDigit (rest ++ more) = startsWithDigit rest := by
  cases rest with
  | nil => exact (h rfl).startsWithDigit
  | cons c rest => rfl

/-! ### Numbers -/

namespace Digits

/-- The digits at the head of a longer text. -/
def extend (d : Digits) (more : List Char) : Digits :=
  { d with rest := d.rest ++ more }

theorem readOnto_append_of_stops {limit value : Nat} {taken : List Char}
    (h : Stops (readOnto limit value taken text).rest more) :
    readOnto limit value taken (text ++ more) = (readOnto limit value taken text).extend more := by
  fun_induction readOnto limit value taken text with
  | case1 value taken => exact readOnto_of_not_startsWithDigit _ _ _ (h rfl).startsWithDigit
  | case2 value taken c text hc ih => rw [List.cons_append, readOnto, if_pos hc, ih h]
  | case3 value taken c text hc =>
    rw [List.cons_append, readOnto, if_neg hc]
    rfl

theorem read_append_of_stops {limit : Nat} (h : Stops (read limit text).rest more) :
    read limit (text ++ more) = (read limit text).extend more :=
  readOnto_append_of_stops h

end Digits

namespace Lexeme

/-- The lexeme at the head of a longer text. -/
def extend (x : Lexeme) (more : List Char) : Lexeme :=
  { x with rest := x.rest ++ more }

theorem splitSign_append_of_stops (h : Stops text more) :
    splitSign (text ++ more) = ((splitSign text).1, (splitSign text).2 ++ more) := by
  cases text with
  | nil => rcases (h rfl).cases with rfl | ⟨c, r, rfl, rfl | rfl | rfl⟩ <;> rfl
  | cons c text =>
    by_cases hp : c = '+'
    · subst hp
      rfl
    · by_cases hm : c = '-'
      · subst hm
        rfl
      · simp [splitSign, hp, hm]

theorem scientific_append_of_stops {mantissa : Float} {taken : List Char}
    (h : Stops (scientific mantissa taken text).rest more) :
    scientific mantissa taken (text ++ more) = (scientific mantissa taken text).extend more := by
  have hs : Stops text more := by
    rintro rfl
    exact h rfl
  have hd : Stops (Digits.read maxExponent (splitSign text).2).rest more := h
  simp only [scientific, splitSign_append_of_stops hs, Digits.read_append_of_stops hd]
  simp only [Digits.extend, extend, scientificContent, hd.startsWithDigit]
  rfl

theorem scaled_append_of_stops {plain : TokenKind × Payload} {mantissa : Float} {taken : List Char}
    (h : Stops (scaled plain mantissa taken text).rest more) :
    scaled plain mantissa taken (text ++ more) =
      (scaled plain mantissa taken text).extend more := by
  cases text with
  | nil => exact scaled_of_atBlank (h rfl)
  | cons c text =>
    by_cases he : c = 'e'
    · subst he
      exact scientific_append_of_stops h
    · by_cases hE : c = 'E'
      · subst hE
        exact scientific_append_of_stops h
      · simp [scaled, he, hE, extend]

theorem number_append_of_stops (h : (number text).content = .ok content)
    (hs : Stops (number text).rest more) : number (text ++ more) = (number text).extend more := by
  have hd := startsWithDigit_of_number h
  have hlone {r : List Char} := not_lone_of_number (r := r) h
  have hne := taken_ne_nil_of_number h
  generalize hw : Digits.read maxInteger text = whole at hd hlone hne
  by_cases hp : ∃ r, whole.rest = '.' :: r
  · obtain ⟨r, hp⟩ := hp
    have hn := hlone hp
    have hw' : Digits.read maxInteger (text ++ more) = whole.extend more := by
      rw [← hw]
      refine Digits.read_append_of_stops fun hn => ?_
      simp [hw, hp] at hn
    rw [number_of_point hw hp hn] at hs ⊢
    have hplaces : Stops (r.dropWhile Char.isDigit) more := by
      intro hr
      rw [hr] at hs
      exact hs rfl
    obtain ⟨htake, hdrop⟩ := hplaces.takeWhile fun c => isDigit_of_isBlank
    have hp' : (whole.extend more).rest = '.' :: (r ++ more) := by
      simp [Digits.extend, hp]
    rw [number_of_point hw' hp' (by rwa [htake]), htake, hdrop]
    exact scaled_append_of_stops hs
  · have hn := hne fun r hr => hp ⟨r, hr⟩
    rw [number_of_not_point hw hd (fun r hr => hp ⟨r, hr⟩) hn] at hs ⊢
    have hwhole : Stops whole.rest more := by
      intro hr
      rw [hr] at hs
      exact hs rfl
    have hw' : Digits.read maxInteger (text ++ more) = whole.extend more := by
      rw [← hw] at hwhole ⊢
      exact Digits.read_append_of_stops hwhole
    have hp' : ∀ r, (whole.extend more).rest ≠ '.' :: r :=
      hwhole.ne_cons (by decide) fun r hr => hp ⟨r, hr⟩
    have hd' : startsWithDigit (whole.extend more).rest = false :=
      hwhole.startsWithDigit.trans hd
    rw [number_of_not_point hw' hd' hp' hn]
    exact scaled_append_of_stops hs

/-! ### Words, strings and symbols -/

theorem word_append_of_stops (h : Stops (word text).rest more) :
    word (text ++ more) = (word text).extend more := by
  obtain ⟨htake, hdrop⟩ := h.takeWhile fun c => isWordChar_of_isBlank
  simp only [word, extend, htake, hdrop]

/-- A string ends with its closing mark, whatever follows. -/
theorem quoted_append_right {mark : Char} {input : List Char}
    (h : (quoted mark input).content = .ok content) (more : List Char) :
    quoted mark (input ++ more) = (quoted mark input).extend more := by
  obtain ⟨body, text, rest, hm, hd, rfl, rfl⟩ := exists_decodes_of_quoted h
  rw [List.append_assoc, List.cons_append, quoted_of_decodes hd hm, quoted_of_decodes hd hm]
  rfl

theorem read?_of_head? {a b : List Char} {x : Symbol × Nat}
    (he : a.head? = some '=' ↔ b.head? = some '=') (hg : a.head? = some '>' ↔ b.head? = some '>')
    (h : Symbol.read? (c :: a) = some x) : Symbol.read? (c :: b) = some x := by
  have hne {d : Char} (hd : a.head? = some d ↔ b.head? = some d) (ha : ∀ r, a = d :: r → False)
      (r : List Char) : b ≠ d :: r := by
    rintro rfl
    obtain ⟨r', hr⟩ := List.head?_eq_some_iff.1 (hd.2 rfl)
    exact ha r' hr
  generalize ht : c :: a = text at h
  revert h
  cases text using Symbol.read?.fun_cases_unfolding with
  | case1 | case4 | case6 | case8 =>
    cases ht
    obtain ⟨b, rfl⟩ := List.head?_eq_some_iff.1 (he.1 rfl)
    exact id
  | case2 =>
    cases ht
    obtain ⟨b, rfl⟩ := List.head?_eq_some_iff.1 (hg.1 rfl)
    exact id
  | case3 _ hae hag =>
    cases ht
    rw [Symbol.read?.eq_3 _ (hne he hae) (hne hg hag)]
    exact id
  | case5 _ hae =>
    cases ht
    rw [Symbol.read?.eq_5 _ (hne he hae)]
    exact id
  | case7 _ hae =>
    cases ht
    rw [Symbol.read?.eq_7 _ (hne he hae)]
    exact id
  | case23 => exact fun h => nomatch h
  | _ =>
    cases ht
    exact id

/-- Behind the first character of a symbol only `=` and `>` make a difference. -/
theorem read?_congr {a b : List Char} (he : a.head? = some '=' ↔ b.head? = some '=')
    (hg : a.head? = some '>' ↔ b.head? = some '>') :
    Symbol.read? (c :: a) = Symbol.read? (c :: b) :=
  Option.ext fun _ => ⟨read?_of_head? he hg, read?_of_head? he.symm hg.symm⟩

theorem read?_append_of_stops {s : Symbol} {n : Nat} (h : Symbol.read? text = some (s, n))
    (hs : Stops (text.drop n) more) : Symbol.read? (text ++ more) = some (s, n) := by
  have hn := (Symbol.read?_pos h).1
  cases text with
  | nil => cases h
  | cons c text =>
    have hhead {d : Char} (hd : ¬ isBlank d) :
        text.head? = some d ↔ (text ++ more).head? = some d := by
      cases text with
      | cons e text => exact Iff.rfl
      | nil =>
        constructor
        · intro hnone
          cases hnone
        · intro hm
          exact absurd (hs (List.drop_eq_nil_of_le hn) d hm) hd
    rw [List.cons_append, ← read?_congr (hhead (by decide)) (hhead (by decide))]
    exact h

theorem symbol_append_of_stops (h : (symbol c text).content = .ok content)
    (hs : Stops (symbol c text).rest more) :
    symbol c (text ++ more) = (symbol c text).extend more := by
  unfold symbol at h hs ⊢
  match hr : Symbol.read? text with
  | none => simp [hr] at h
  | some (s, n) =>
    have hn := (Symbol.read?_pos hr).2
    simp only [hr] at hs
    simp [read?_append_of_stops hr hs, extend, List.take_append_of_le_length hn,
      List.drop_append_of_le_length hn]

/-! ### Any lexeme -/

/-- A slash that begins no comment begins none in the longer text. -/
theorem slash_ne_of_stops (h : ∀ r, text = '/' :: r ∨ text = '*' :: r → c ≠ '/')
    (hs : c = '/' → Stops text more) :
    ∀ r, text ++ more = '/' :: r ∨ text ++ more = '*' :: r → c ≠ '/' := by
  rintro r hr rfl
  have hs := hs rfl
  have hslash := hs.ne_cons (by decide : ¬ isBlank '/') (fun r hr => h r (.inl hr) rfl) r
  have hstar := hs.ne_cons (by decide : ¬ isBlank '*') (fun r hr => h r (.inr hr) rfl) r
  exact hr.elim hslash hstar

theorem readFrom_append_of_stops (h : (readFrom c text).content = .ok content)
    (hs : Stops (readFrom c text).rest more) :
    readFrom c (text ++ more) = (readFrom c text).extend more := by
  unfold readFrom at h hs ⊢
  by_cases hw : isWordStart c
  · rw [if_pos hw] at hs ⊢
    rw [if_pos hw]
    exact word_append_of_stops hs
  · rw [if_neg hw] at h hs ⊢
    rw [if_neg hw]
    by_cases hd : c.isDigit ∨ c = '.'
    · rw [if_pos hd] at h hs ⊢
      rw [if_pos hd]
      exact number_append_of_stops h hs
    · rw [if_neg hd] at h hs ⊢
      rw [if_neg hd]
      by_cases hq : c = '"' ∨ c = '\''
      · rw [if_pos hq] at h ⊢
        rw [if_pos hq]
        exact quoted_append_right h more
      · rw [if_neg hq] at h hs ⊢
        rw [if_neg hq]
        exact symbol_append_of_stops h hs

end Lexeme

/-- A lexeme is read in a longer text as in a shorter one, and no gap comes up in front of it. -/
theorem read_append_of_stops (hg : gapPiece? text = none)
    (h : (Lexeme.read text).content = .ok content) (hk : content.1 ≠ .eof)
    (hs : Stops (Lexeme.read text).rest more) :
    gapPiece? (text ++ more) = none ∧
      Lexeme.read (text ++ more) = (Lexeme.read text).extend more := by
  cases text with
  | nil =>
    obtain rfl : _ = content := by simpa [Lexeme.read] using h
    exact absurd rfl hk
  | cons c text =>
    have hstar : ∀ r, text = '*' :: r → c ≠ '/' := by
      rintro r rfl rfl
      simp [Lexeme.read] at h
    have hslash : ∀ r, text = '/' :: r ∨ text = '*' :: r → c ≠ '/' := by
      rintro r (rfl | rfl) rfl
      · simp [gapPiece?] at hg
      · exact hstar r rfl rfl
    rw [Lexeme.read_cons hstar] at h hs ⊢
    have hslash' : ∀ r, text ++ more = '/' :: r ∨ text ++ more = '*' :: r → c ≠ '/' := by
      refine Lexeme.slash_ne_of_stops hslash ?_
      rintro rfl
      exact hs
    constructor
    · exact gapPiece?_cons hslash' (isBlank_false_of_gapPiece? hg)
    · rw [List.cons_append, Lexeme.read_cons fun r hr => hslash' r (.inr hr)]
      exact Lexeme.readFrom_append_of_stops h hs

/-! ### Last characters -/

namespace Lexeme

theorem not_mem_digits {limit : Nat} : '\n' ∉ (Digits.read limit text).taken := by
  intro hm
  cases (Digits.read_append_of_not_startsWithDigit limit text).1 _ hm

theorem not_mem_scientific {mantissa : Float} {taken : List Char} (h : '\n' ∉ taken) :
    '\n' ∉ (scientific mantissa taken text).taken := by
  have hsign : '\n' ∉ (splitSign text).1 := by
    unfold splitSign
    split <;> simp
  simp only [scientific, List.mem_append, not_or]
  exact ⟨⟨h, hsign⟩, not_mem_digits⟩

theorem not_mem_scaled {plain : TokenKind × Payload} {mantissa : Float} {taken : List Char}
    (h : '\n' ∉ taken) : '\n' ∉ (scaled plain mantissa taken text).taken := by
  unfold scaled
  split
  · exact not_mem_scientific (by simp [h])
  · exact not_mem_scientific (by simp [h])
  · exact h

theorem not_mem_number : '\n' ∉ (number text).taken := by
  unfold number
  dsimp only
  split
  · exact not_mem_digits
  · split
    · rename_i r _
      split
      · simp
      · refine not_mem_scaled ?_
        simp only [List.mem_append, List.mem_cons, not_or]
        refine ⟨not_mem_digits, by decide, fun hm => ?_⟩
        cases List.mem_takeWhile_imp hm
    · split
      · simp
      · exact not_mem_scaled not_mem_digits

theorem not_mem_symbol {s : Symbol} {n : Nat} (h : Symbol.read? text = some (s, n)) :
    '\n' ∉ text.take n := by
  unfold Symbol.read? at h
  split at h <;> simp only [Option.some.injEq, Prod.mk.injEq, reduceCtorEq] at h <;>
    obtain ⟨rfl, rfl⟩ := h <;> simp

/-- No lexeme ends with a line break. -/
theorem getLast?_readFrom_ne (h : (readFrom c text).content = .ok content) :
    (readFrom c text).taken.getLast? ≠ some '\n' := by
  unfold readFrom at h ⊢
  split at h
  · rename_i hw
    rw [if_pos hw]
    intro hl
    cases List.mem_takeWhile_imp (List.mem_of_getLast? hl)
  · rename_i hw
    rw [if_neg hw]
    split at h
    · rename_i hd
      rw [if_pos hd]
      intro hl
      exact not_mem_number (List.mem_of_getLast? hl)
    · rename_i hd
      rw [if_neg hd]
      split at h
      · rename_i hq
        rw [if_pos hq]
        unfold quoted at h ⊢
        split at h
        · rw [List.getLast?_cons, List.getLast?_concat]
          rcases hq with rfl | rfl <;> simp
        · cases h
      · rename_i hq
        rw [if_neg hq]
        unfold symbol at h ⊢
        split at h
        · rename_i s n hs
          intro hl
          exact not_mem_symbol hs (List.mem_of_getLast? hl)
        · cases h

theorem getLast?_read_ne (h : (read text).content = .ok content) :
    (read text).taken.getLast? ≠ some '\n' := by
  cases text with
  | nil => simp [read]
  | cons c text =>
    have hstar : ∀ r, text = '*' :: r → c ≠ '/' := by
      rintro r rfl rfl
      simp [read] at h
    rw [read_cons hstar] at h ⊢
    exact getLast?_readFrom_ne h

end Lexeme

/-! ### Gaps -/

/-- There is a line break between the two texts, unless the first one is empty. -/
def EndsLine (text more : List Char) : Prop :=
  text ≠ [] → text.getLast? = some '\n' ∨ more.head? = some '\n'

theorem EndsLine.of_append {piece : List Char} (h : EndsLine (piece ++ rest) more) :
    EndsLine rest more := by
  intro hr
  have h := h (by simp [hr])
  rwa [List.getLast?_append_of_ne_nil _ hr] at h

section

variable {piece gap : List Char}

theorem closeCommentOnto_append_right {before inner : List Char}
    (h : closeCommentOnto before text = some (inner, rest)) (more : List Char) :
    closeCommentOnto before (text ++ more) = some (inner, rest ++ more) := by
  fun_induction closeCommentOnto before text with
  | case1 => simp at h
  | case2 before text =>
    obtain ⟨rfl, rfl⟩ : before.reverse = inner ∧ text = rest := by simpa using h
    rfl
  | case3 before c text hc ih =>
    have hne : text ≠ [] := by
      rintro rfl
      cases h
    have hc' : ∀ r, c = '*' → text ++ more = '/' :: r → False := by
      intro r hs hx
      obtain ⟨d, t, rfl⟩ := List.exists_cons_of_ne_nil hne
      obtain ⟨rfl, -⟩ := List.cons.inj hx
      exact hc t hs rfl
    rw [List.cons_append, closeCommentOnto]
    · exact ih h
    · exact hc'

theorem gapPiece?_blank (hc : isBlank c) (text : List Char) :
    gapPiece? (c :: text) = some (c :: text.takeWhile isBlank, text.dropWhile isBlank) := by
  rcases isBlank_iff.1 hc with rfl | rfl | rfl <;> rfl

theorem gapPiece?_comment {inner : List Char} (h : closeComment? text = some (inner, rest)) :
    gapPiece? ('/' :: '*' :: text) = some ('/' :: '*' :: (inner ++ ['*', '/']), rest) := by
  simp [gapPiece?, h]

/-- A piece of a gap is a line comment, a block comment or a run of blanks. -/
theorem gapPiece?_cases (h : gapPiece? text = some (piece, rest)) :
    (∃ r, text = '/' :: '/' :: r ∧ piece = '/' :: '/' :: r.takeWhile (· ≠ '\n') ∧
        rest = r.dropWhile (· ≠ '\n')) ∨
      (∃ r inner, text = '/' :: '*' :: r ∧ closeComment? r = some (inner, rest) ∧
        piece = '/' :: '*' :: (inner ++ ['*', '/'])) ∨
      ∃ c r, text = c :: r ∧ isBlank c ∧ piece = c :: r.takeWhile isBlank ∧
        rest = r.dropWhile isBlank := by
  unfold gapPiece? at h
  split at h
  · rename_i r
    obtain ⟨rfl, rfl⟩ := Prod.mk.inj (Option.some.inj h)
    exact .inl ⟨r, rfl, rfl, rfl⟩
  · rename_i r
    split at h
    · rename_i inner r' hc
      obtain ⟨rfl, rfl⟩ := Prod.mk.inj (Option.some.inj h)
      exact .inr (.inl ⟨r, inner, rfl, hc, rfl⟩)
    · cases h
  · rename_i c r _ _
    split at h
    · rename_i hb
      obtain ⟨rfl, rfl⟩ := Prod.mk.inj (Option.some.inj h)
      exact .inr (.inr ⟨c, r, rfl, hb, rfl, rfl⟩)
    · cases h
  · cases h

/-- A piece of a gap that ends before its text does is one in the longer text. -/
theorem gapPiece?_append_right (h : gapPiece? text = some (piece, rest)) (hr : rest ≠ []) :
    gapPiece? (text ++ more) = some (piece, rest ++ more) := by
  rcases gapPiece?_cases h with ⟨r, rfl, rfl, rfl⟩ | ⟨r, inner, rfl, hc, rfl⟩ |
    ⟨c, r, rfl, hc, rfl, rfl⟩
  · obtain ⟨htake, hdrop⟩ := takeWhile_append_of_imp fun hn => absurd hn hr
    show some ('/' :: '/' :: (r ++ more).takeWhile _, (r ++ more).dropWhile _) = _
    rw [htake, hdrop]
  · exact gapPiece?_comment (closeCommentOnto_append_right hc more)
  · obtain ⟨htake, hdrop⟩ := takeWhile_append_of_imp fun hn => absurd hn hr
    rw [List.cons_append, gapPiece?_blank hc, htake, hdrop]

/-- Blanks in front of the rest of a gap belong to it. -/
theorem splitGapOnto_blanks (gap text : List Char) :
    splitGapOnto gap text =
      splitGapOnto ((text.takeWhile isBlank).reverse ++ gap) (text.dropWhile isBlank) := by
  cases text with
  | nil => rfl
  | cons c text =>
    by_cases hc : isBlank c
    · rw [splitGapOnto_of_some (gapPiece?_blank hc text)]
      simp [hc]
    · simp [hc]

/-- A piece of a gap up to the end of a text, with a line break behind it, is followed by the gap of
what is added. -/
theorem splitGapOnto_append_of_piece (h : gapPiece? text = some (piece, []))
    (hl : EndsLine text more) :
    splitGapOnto gap (text ++ more) = splitGapOnto (text.reverse ++ gap) more := by
  have ha := (gapPiece?_append h).1
  rw [List.append_nil] at ha
  rcases gapPiece?_cases h with ⟨r, rfl, hp, hr⟩ | ⟨r, inner, rfl, hc, hp⟩ | ⟨c, r, rfl, hc, hp, hr⟩
  · -- no line comment holds a line break, so one follows
    have hn : r.getLast? ≠ some '\n' := by
      intro hn
      have := List.dropWhile_eq_nil_iff.1 hr.symm '\n' (List.mem_of_getLast? hn)
      simp at this
    have hm : more.head? = some '\n' := by
      refine (hl (by simp)).resolve_left fun hl => ?_
      cases r with
      | nil => simp at hl
      | cons d r => simp [List.getLast?_cons] at hl hn; exact hn hl
    have hstop : r.dropWhile (· ≠ '\n') = [] → ∀ c ∈ more.head?, decide (c ≠ '\n') = false := by
      intro _ c hc
      obtain rfl : '\n' = c := by simpa [hm] using hc
      rfl
    obtain ⟨htake, hdrop⟩ := takeWhile_append_of_imp hstop
    have hp' : gapPiece? ('/' :: '/' :: r ++ more) = some ('/' :: '/' :: r, more) := by
      show some ('/' :: '/' :: (r ++ more).takeWhile _, (r ++ more).dropWhile _) = _
      rw [htake, hdrop, ← hr, ← hp, ha]
      rfl
    rw [splitGapOnto_of_some hp']
  · have hc' : closeComment? (r ++ more) = some (inner, more) :=
      closeCommentOnto_append_right hc more
    have hp' := gapPiece?_comment hc'
    rw [← hp, ha] at hp'
    exact splitGapOnto_of_some hp'
  · have hall : ∀ d ∈ r, isBlank d := List.dropWhile_eq_nil_iff.1 hr.symm
    rw [List.cons_append, splitGapOnto_of_some (gapPiece?_blank hc _),
      List.takeWhile_append_of_pos hall, List.dropWhile_append_of_pos hall,
      splitGapOnto_blanks _ more]
    simp

/-- What stands in front of the rest of a gap is passed on. -/
theorem splitGapOnto_append_before (gap before text : List Char) :
    splitGapOnto (gap ++ before) text =
      (before.reverse ++ (splitGapOnto gap text).1, (splitGapOnto gap text).2) := by
  fun_induction splitGapOnto gap text with
  | case1 gap text piece rest hp ih =>
    rw [splitGapOnto_of_some hp, ← ih]
    simp [List.reverseAux_eq]
  | case2 gap text hg =>
    rw [splitGapOnto_of_none hg]
    simp

theorem splitGapOnto_eq (before text : List Char) :
    splitGapOnto before text = (before.reverse ++ (splitGap text).1, (splitGap text).2) :=
  splitGapOnto_append_before [] before text

theorem splitGap_of_none (h : gapPiece? text = none) : splitGap text = ([], text) :=
  splitGapOnto_of_none h

theorem splitGap_of_some (h : gapPiece? text = some (piece, rest)) :
    splitGap text = (piece ++ (splitGap rest).1, (splitGap rest).2) := by
  rw [splitGap, splitGapOnto_of_some h, List.append_nil, splitGapOnto_eq, List.reverse_reverse]

theorem splitGap_blank (hc : isBlank c) (text : List Char) :
    splitGap (c :: text) = (c :: (splitGap text).1, (splitGap text).2) := by
  have hb : splitGap text = (text.takeWhile isBlank ++ (splitGap (text.dropWhile isBlank)).1,
      (splitGap (text.dropWhile isBlank)).2) := by
    rw [splitGap, splitGapOnto_blanks, List.append_nil, splitGapOnto_eq, List.reverse_reverse]
  rw [splitGap_of_some (gapPiece?_blank hc text), hb]
  rfl

theorem splitGapOnto_append_right_of_nil (h : (splitGapOnto gap text).2 = [])
    (hl : EndsLine text more) :
    splitGapOnto gap (text ++ more) = splitGapOnto (text.reverse ++ gap) more := by
  fun_induction splitGapOnto gap text with
  | case1 gap text piece rest hp ih =>
    by_cases hr : rest = []
    · subst hr
      exact splitGapOnto_append_of_piece hp hl
    · have ha := (gapPiece?_append hp).1
      rw [splitGapOnto_of_some (gapPiece?_append_right hp hr),
        ← List.reverseAux_eq, ih h (EndsLine.of_append (ha ▸ hl)), ← ha]
      simp [List.reverseAux_eq]
  | case2 gap text hg =>
    obtain rfl : text = [] := h
    rfl

theorem splitGapOnto_append_right_of_ne_nil (h : (splitGapOnto gap text).2 ≠ [])
    (hg : gapPiece? ((splitGapOnto gap text).2 ++ more) = none) :
    splitGapOnto gap (text ++ more) =
      ((splitGapOnto gap text).1, (splitGapOnto gap text).2 ++ more) := by
  fun_induction splitGapOnto gap text with
  | case1 gap text piece rest hp ih =>
    have hr : rest ≠ [] := by
      rintro rfl
      have hn : splitGapOnto (piece.reverseAux gap) [] = _ := splitGapOnto_of_none rfl
      exact h (congrArg Prod.snd hn)
    rw [splitGapOnto_of_some (gapPiece?_append_right hp hr), ← List.reverseAux_eq, ih h hg]
  | case2 gap text => exact splitGapOnto_of_none hg

end

/-- The gap of a text that is all gap goes on with the gap of what is added. -/
theorem splitGap_append_of_nil (h : (splitGap text).2 = []) (hl : EndsLine text more) :
    splitGap (text ++ more) = (text ++ (splitGap more).1, (splitGap more).2) := by
  rw [splitGap, splitGapOnto_append_right_of_nil h hl, List.append_nil, splitGapOnto_eq,
    List.reverse_reverse]

theorem splitGap_append_of_ne_nil (h : (splitGap text).2 ≠ [])
    (hg : gapPiece? ((splitGap text).2 ++ more) = none) :
    splitGap (text ++ more) = ((splitGap text).1, (splitGap text).2 ++ more) :=
  splitGapOnto_append_right_of_ne_nil h hg

end ScriptCheck
