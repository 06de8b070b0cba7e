import ScriptCheck.Proofs.Lexing.Quoted
import ScriptCheck.Source
import Mathlib.Data.List.TakeWhile

/-!
# Lexemes in front of a blank

What a lexeme is read as depends on the character behind it, because the longest lexeme is taken.
In front of a blank, or at the end of a text, it is read as what it is anywhere: a lexeme that was
read off one text can be written into another one, with a blank behind it.
-/

namespace ScriptCheck

/-- The end of a text, or a blank, follows. -/
def AtBlank (rest : List Char) : Prop :=
  ∀ c ∈ rest.head?, isBlank c

@[simp] theorem atBlank_nil : AtBlank [] := by
  simp [AtBlank]

@[simp] theorem atBlank_cons {c : Char} {rest : List Char} : AtBlank (c :: rest) ↔ isBlank c := by
  simp [AtBlank]

/-- Characters that are read as `content` when the end of a text, or a blank, follows. -/
structure IsLexeme (content : TokenKind × Payload) (taken : List Char) : Prop where
  kind : content.1 ≠ .eof
  gapPiece : ∀ rest, AtBlank rest → gapPiece? (taken ++ rest) = none
  read : ∀ rest, AtBlank rest → Lexeme.read (taken ++ rest) = ⟨.ok content, taken, rest⟩

section

variable {c : Char} {text rest taken : List Char} {content : TokenKind × Payload}

theorem isBlank_iff : isBlank c ↔ c = ' ' ∨ c = '\t' ∨ c = '\n' := by
  simp [isBlank, or_assoc]

theorem AtBlank.cases (h : AtBlank rest) :
    rest = [] ∨ ∃ c r, rest = c :: r ∧ (c = ' ' ∨ c = '\t' ∨ c = '\n') := by
  cases rest with
  | nil => exact .inl rfl
  | cons c r => exact .inr ⟨c, r, rfl, isBlank_iff.1 (atBlank_cons.1 h)⟩

/-- A run of characters that are no blanks ends in front of a blank. -/
theorem AtBlank.takeWhile (h : AtBlank rest) {p : Char → Bool} (hp : ∀ c, isBlank c → p c = false) :
    rest.takeWhile p = [] ∧ rest.dropWhile p = rest := by
  cases rest with
  | nil => simp
  | cons c r => simp [hp c (atBlank_cons.1 h)]

/-- A run of characters ends in front of one that does not belong to it. -/
theorem not_of_mem_head?_dropWhile {p : Char → Bool} (h : c ∈ (text.dropWhile p).head?) :
    ¬ p c := by
  have hstop := List.head?_dropWhile_not p text
  rw [Option.mem_def.1 h] at hstop
  simpa using hstop

theorem takeWhile_append_atBlank (text : List Char) (h : AtBlank rest) {p : Char → Bool}
    (hp : ∀ c, isBlank c → p c = false) :
    (text.takeWhile p ++ rest).takeWhile p = text.takeWhile p ∧
      (text.takeWhile p ++ rest).dropWhile p = rest := by
  have hall : ∀ c ∈ text.takeWhile p, p c := fun c hc => List.mem_takeWhile_imp hc
  obtain ⟨h₁, h₂⟩ := h.takeWhile hp
  rw [List.takeWhile_append_of_pos hall, List.dropWhile_append_of_pos hall, h₁, h₂]
  simp

/-! ### Words -/

theorem isAlpha_iff : c.isAlpha ↔
    65 ≤ c.toNat ∧ c.toNat ≤ 90 ∨ 97 ≤ c.toNat ∧ c.toNat ≤ 122 := by
  unfold Char.isAlpha Char.isUpper Char.isLower
  simp only [Bool.or_eq_true, Bool.and_eq_true, decide_eq_true_eq, UInt32.le_iff_toNat_le,
    ge_iff_le]
  rfl

theorem isDigit_iff : c.isDigit ↔ 48 ≤ c.toNat ∧ c.toNat ≤ 57 :=
  Char.isDigit_iff_toNat

namespace Lexeme

theorem isWordChar_of_isBlank (h : isBlank c) : isWordChar c = false := by
  rcases isBlank_iff.1 h with rfl | rfl | rfl <;> rfl

theorem word_append (text : List Char) (h : AtBlank rest) :
    word ((word text).taken ++ rest) = ⟨(word text).content, (word text).taken, rest⟩ := by
  obtain ⟨h₁, h₂⟩ := takeWhile_append_atBlank text h fun c => isWordChar_of_isBlank
  simp only [word, h₁, h₂]

end Lexeme

/-! ### Numbers -/

theorem isDigit_of_isBlank (h : isBlank c) : c.isDigit = false := by
  rcases isBlank_iff.1 h with rfl | rfl | rfl <;> rfl

theorem AtBlank.startsWithDigit (h : AtBlank rest) : startsWithDigit rest = false := by
  cases rest with
  | nil => rfl
  | cons c r => exact isDigit_of_isBlank (atBlank_cons.1 h)

namespace Digits

theorem readOnto_of_not_startsWithDigit (limit value : Nat) (taken : List Char)
    (h : startsWithDigit rest = false) :
    readOnto limit value taken rest = ⟨value, taken.reverse, rest⟩ := by
  cases rest with
  | nil => rfl
  | cons c r =>
    have hc : c.isDigit = false := h
    simp [readOnto, hc]

theorem readOnto_append_of_not_startsWithDigit (limit value : Nat) (taken text : List Char) :
    ∃ digits, (∀ c ∈ digits, c.isDigit) ∧
      text = digits ++ (readOnto limit value taken text).rest ∧
      ∀ rest, startsWithDigit rest = false → readOnto limit value taken (digits ++ rest) =
        ⟨(readOnto limit value taken text).value, taken.reverse ++ digits, rest⟩ := by
  fun_induction readOnto limit value taken text with
  | case1 value taken =>
    refine ⟨[], by simp, rfl, fun rest h => ?_⟩
    simp [readOnto_of_not_startsWithDigit _ _ _ h]
  | case2 value taken c text hc ih =>
    obtain ⟨digits, hd, ht, hr⟩ := ih
    refine ⟨c :: digits, by simpa using ⟨hc.1, hd⟩, by rw [List.cons_append, ← ht],
      fun rest h => ?_⟩
    rw [List.cons_append, readOnto, if_pos hc, hr rest h]
    simp
  | case3 value taken c text hc =>
    refine ⟨[], by simp, rfl, fun rest h => ?_⟩
    simp [readOnto_of_not_startsWithDigit _ _ _ h]

/-- A run of digits is read in the same way in front of anything that is no digit. -/
theorem read_append_of_not_startsWithDigit (limit : Nat) (text : List Char) :
    (∀ c ∈ (read limit text).taken, c.isDigit) ∧
      ∀ rest, startsWithDigit rest = false → read limit ((read limit text).taken ++ rest) =
        ⟨(read limit text).value, (read limit text).taken, rest⟩ := by
  obtain ⟨digits, hd, ht, hr⟩ := readOnto_append_of_not_startsWithDigit limit 0 [] text
  have ha : (read limit text).taken = digits :=
    List.append_cancel_right ((read_append limit text).trans ht)
  rw [ha]
  exact ⟨hd, hr⟩

theorem startsWithDigit_taken {limit : Nat} (h : (read limit text).taken ≠ [])
    (rest : List Char) : startsWithDigit ((read limit text).taken ++ rest) := by
  have hd := (read_append_of_not_startsWithDigit limit text).1
  obtain ⟨c, digits, hc⟩ := List.exists_cons_of_ne_nil h
  rw [hc] at hd ⊢
  exact hd c (List.mem_cons_self ..)

end Digits

namespace Lexeme

theorem splitSign_append_of_startsWithDigit (text : List Char) (h : startsWithDigit rest) :
    splitSign ((splitSign text).1 ++ rest) = ((splitSign text).1, rest) := by
  have hr : splitSign rest = ([], rest) := by
    unfold splitSign
    split
    · simp [startsWithDigit] at h
    · simp [startsWithDigit] at h
    · rfl
  have hs : (splitSign text).1 = ['+'] ∨ (splitSign text).1 = ['-'] ∨ (splitSign text).1 = [] := by
    unfold splitSign
    split <;> simp
  rcases hs with hs | hs | hs <;> rw [hs]
  · rfl
  · rfl
  · exact hr

theorem scientific_append_of_atBlank {mantissa : Float} (hr : AtBlank rest)
    (h : (scientific mantissa taken text).content = .ok content) :
    ∃ more, (scientific mantissa taken text).taken = taken ++ more ∧
      scientific mantissa taken (more ++ rest) = ⟨.ok content, taken ++ more, rest⟩ := by
  unfold scientific at h ⊢
  dsimp only at h ⊢
  have hne : (Digits.read maxExponent (splitSign text).2).taken ≠ [] := by
    intro hn
    simp [scientificContent, hn] at h
  have hd := (Digits.read_append_of_not_startsWithDigit maxExponent (splitSign text).2).2 rest
    hr.startsWithDigit
  have hs := splitSign_append_of_startsWithDigit text
    (Digits.startsWithDigit_taken hne rest)
  refine ⟨(splitSign text).1 ++ (Digits.read maxExponent (splitSign text).2).taken, by simp, ?_⟩
  rw [List.append_assoc, hs, hd]
  have hc : scientificContent mantissa (splitSign text).1
      ⟨(Digits.read maxExponent (splitSign text).2).value,
        (Digits.read maxExponent (splitSign text).2).taken, rest⟩ = .ok content := by
    unfold scientificContent at h ⊢
    simp only [hne, if_false, hr.startsWithDigit] at h ⊢
    split at h
    · simp at h
    · rename_i hf
      rw [if_neg fun hf' => hf (.inr (hf'.resolve_left Bool.false_ne_true))]
      exact h
  simp [hc]

theorem scaled_of_atBlank {plain : TokenKind × Payload} {mantissa : Float} (hr : AtBlank rest) :
    scaled plain mantissa taken rest = ⟨.ok plain, taken, rest⟩ := by
  rcases hr.cases with rfl | ⟨c, r, rfl, rfl | rfl | rfl⟩ <;> rfl

theorem scaled_append_of_atBlank {plain : TokenKind × Payload} {mantissa : Float}
    (hr : AtBlank rest) (h : (scaled plain mantissa taken text).content = .ok content) :
    ∃ more, (scaled plain mantissa taken text).taken = taken ++ more ∧
      scaled plain mantissa taken (more ++ rest) = ⟨.ok content, taken ++ more, rest⟩ ∧
      startsWithDigit (more ++ rest) = false ∧
      (more = [] ∨ ∃ c m, more = c :: m ∧ (c = 'e' ∨ c = 'E')) := by
  unfold scaled at h
  split at h
  · obtain ⟨more, ht, hm⟩ := scientific_append_of_atBlank hr h
    refine ⟨'e' :: more, ?_, ?_, rfl, .inr ⟨_, _, rfl, .inl rfl⟩⟩
    · simpa [scaled] using ht
    · simpa [scaled] using hm
  · obtain ⟨more, ht, hm⟩ := scientific_append_of_atBlank hr h
    refine ⟨'E' :: more, ?_, ?_, rfl, .inr ⟨_, _, rfl, .inr rfl⟩⟩
    · simpa [scaled] using ht
    · simpa [scaled] using hm
  · rename_i hE he
    obtain rfl : plain = content := by simpa using h
    refine ⟨[], ?_, ?_, hr.startsWithDigit, .inl rfl⟩
    · unfold scaled
      split <;> simp_all
    · simpa using scaled_of_atBlank hr

/-- A number with a point, up to where an exponent may begin. -/
theorem number_of_point {whole : Digits} {r : List Char} (hw : Digits.read maxInteger text = whole)
    (hr : whole.rest = '.' :: r) (hn : ¬ (whole.taken = [] ∧ r.takeWhile Char.isDigit = [])) :
    number text =
      scaled (.real, .real (.ofFloat (addPlaces whole.value (r.takeWhile Char.isDigit))))
        (addPlaces whole.value (r.takeWhile Char.isDigit))
        (whole.taken ++ '.' :: r.takeWhile Char.isDigit) (r.dropWhile Char.isDigit) := by
  obtain ⟨value, digits, _⟩ := whole
  obtain rfl : _ = '.' :: r := hr
  simp only at hn
  unfold number
  dsimp only
  rw [hw, if_neg (by simp [startsWithDigit])]
  exact if_neg hn

/-- A number without a point, up to where an exponent may begin. -/
theorem number_of_not_point {whole : Digits} (hw : Digits.read maxInteger text = whole)
    (hd : startsWithDigit whole.rest = false) (hp : ∀ r, whole.rest ≠ '.' :: r)
    (hn : whole.taken ≠ []) :
    number text = scaled (.integer, .integer whole.value) (Float.ofNat whole.value) whole.taken
      whole.rest := by
  unfold number
  dsimp only
  rw [hw, if_neg (by simp [hd])]
  split
  · rename_i r hr
    exact absurd hr (hp r)
  · exact if_neg hn

theorem takeWhile_of_not_startsWithDigit (h : startsWithDigit text = false) :
    text.takeWhile Char.isDigit = [] ∧ text.dropWhile Char.isDigit = text := by
  cases text with
  | nil => simp
  | cons c r =>
    have hc : c.isDigit = false := h
    simp [hc]

/-- A number that has more digits than it may have. -/
theorem number_of_overflow {whole : Digits} (hw : Digits.read maxInteger text = whole)
    (hd : startsWithDigit whole.rest) :
    number text = ⟨.error .integerOverflow, whole.taken, whole.rest⟩ := by
  unfold number
  dsimp only
  rw [hw, if_pos hd]

/-- A point without digits on either side. -/
theorem number_of_lone_point {whole : Digits} {r : List Char}
    (hw : Digits.read maxInteger text = whole) (hr : whole.rest = '.' :: r)
    (hn : whole.taken = [] ∧ r.takeWhile Char.isDigit = []) :
    number text = ⟨.error .malformedNumber, ['.'], r⟩ := by
  unfold number
  dsimp only
  rw [hw, hr, if_neg (by simp [startsWithDigit])]
  exact if_pos hn

/-- Neither digits nor a point. -/
theorem number_of_nothing {whole : Digits} (hw : Digits.read maxInteger text = whole)
    (hd : startsWithDigit whole.rest = false) (hp : ∀ r, whole.rest ≠ '.' :: r)
    (hn : whole.taken = []) : number text = ⟨.error .malformedNumber, [], whole.rest⟩ := by
  unfold number
  dsimp only
  rw [hw, if_neg (by simp [hd])]
  split
  · rename_i r hr
    exact absurd hr (hp r)
  · exact if_pos hn

theorem startsWithDigit_of_number (h : (number text).content = .ok content) :
    startsWithDigit (Digits.read maxInteger text).rest = false := by
  by_contra hd
  rw [number_of_overflow rfl (by simpa using hd)] at h
  cases h

theorem not_lone_of_number {r : List Char} (h : (number text).content = .ok content)
    (hp : (Digits.read maxInteger text).rest = '.' :: r) :
    ¬ ((Digits.read maxInteger text).taken = [] ∧ r.takeWhile Char.isDigit = []) := by
  intro hn
  rw [number_of_lone_point rfl hp hn] at h
  cases h

theorem taken_ne_nil_of_number (h : (number text).content = .ok content)
    (hp : ∀ r, (Digits.read maxInteger text).rest ≠ '.' :: r) :
    (Digits.read maxInteger text).taken ≠ [] := by
  intro hn
  rw [number_of_nothing rfl (startsWithDigit_of_number h) hp hn] at h
  cases h

theorem takeWhile_append_of_not_startsWithDigit (text : List Char)
    (h : startsWithDigit rest = false) :
    (text.takeWhile Char.isDigit ++ rest).takeWhile Char.isDigit = text.takeWhile Char.isDigit ∧
      (text.takeWhile Char.isDigit ++ rest).dropWhile Char.isDigit = rest := by
  have hdigits : ∀ c ∈ text.takeWhile Char.isDigit, c.isDigit := fun c => List.mem_takeWhile_imp
  have hstop := takeWhile_of_not_startsWithDigit h
  constructor
  · rw [List.takeWhile_append_of_pos hdigits, hstop.1, List.append_nil]
  · rw [List.dropWhile_append_of_pos hdigits, hstop.2]

theorem number_append_of_point {r : List Char} (hr : AtBlank rest)
    (hp : (Digits.read maxInteger text).rest = '.' :: r) (h : (number text).content = .ok content) :
    number ((number text).taken ++ rest) = ⟨.ok content, (number text).taken, rest⟩ := by
  have hread := (Digits.read_append_of_not_startsWithDigit maxInteger text).2
  have hn := not_lone_of_number h hp
  generalize hw : Digits.read maxInteger text = whole at hread hn hp
  rw [number_of_point hw hp hn] at h ⊢
  obtain ⟨more, ht, hm, hs, -⟩ := scaled_append_of_atBlank hr h
  obtain ⟨htake, hdrop⟩ := takeWhile_append_of_not_startsWithDigit r hs
  have hw' := hread ('.' :: (r.takeWhile Char.isDigit ++ (more ++ rest))) rfl
  rw [ht, List.append_assoc, List.append_assoc, List.cons_append,
    number_of_point hw' rfl (by rwa [htake]), htake, hdrop, hm]

theorem number_append_of_not_point (hr : AtBlank rest)
    (hp : ∀ r, (Digits.read maxInteger text).rest ≠ '.' :: r)
    (h : (number text).content = .ok content) :
    number ((number text).taken ++ rest) = ⟨.ok content, (number text).taken, rest⟩ := by
  have hread := (Digits.read_append_of_not_startsWithDigit maxInteger text).2
  have hd := startsWithDigit_of_number h
  have hn := taken_ne_nil_of_number h hp
  generalize hw : Digits.read maxInteger text = whole at hread hd hn hp
  rw [number_of_not_point hw hd hp hn] at h ⊢
  obtain ⟨more, ht, hm, hs, he⟩ := scaled_append_of_atBlank hr h
  rw [ht, List.append_assoc, number_of_not_point (hread _ hs) hs _ hn]
  · exact hm
  · intro r hr'
    rcases he with rfl | ⟨c, m, rfl, rfl | rfl⟩
    · rcases hr.cases with rfl | ⟨c, r', rfl, rfl | rfl | rfl⟩ <;> cases hr'
    · cases hr'
    · cases hr'

theorem number_append_of_atBlank (hr : AtBlank rest) (h : (number text).content = .ok content) :
    number ((number text).taken ++ rest) = ⟨.ok content, (number text).taken, rest⟩ := by
  by_cases hp : ∃ r, (Digits.read maxInteger text).rest = '.' :: r
  · obtain ⟨r, hp⟩ := hp
    exact number_append_of_point hr hp h
  · exact number_append_of_not_point hr (fun r h => hp ⟨r, h⟩) h

/-! ### Strings and symbols -/

theorem quoted_append {mark : Char} {input : List Char}
    (h : (quoted mark input).content = .ok content) (rest : List Char) :
    ∃ spelled, (quoted mark input).taken = mark :: spelled ∧
      quoted mark (spelled ++ rest) = ⟨.ok content, mark :: spelled, rest⟩ := by
  obtain ⟨body, text, behind, hm, hd, rfl, rfl⟩ := exists_decodes_of_quoted h
  refine ⟨body ++ [mark], ?_, ?_⟩
  · rw [quoted_of_decodes hd hm]
  · rw [List.append_assoc, List.singleton_append, quoted_of_decodes hd hm]

theorem read?_append_of_atBlank {s : Symbol} {n : Nat} (hr : AtBlank rest)
    (h : Symbol.read? text = some (s, n)) : Symbol.read? (text.take n ++ rest) = some (s, n) := by
  unfold Symbol.read? at h
  split at h <;> simp only [Option.some.injEq, Prod.mk.injEq, reduceCtorEq] at h <;>
    obtain ⟨rfl, rfl⟩ := h <;>
    rcases hr.cases with rfl | ⟨c, r, rfl, rfl | rfl | rfl⟩ <;> rfl

theorem symbol_append_of_atBlank (hr : AtBlank rest)
    (h : (symbol c text).content = .ok content) :
    symbol c ((symbol c text).taken ++ rest) = ⟨.ok content, (symbol c text).taken, rest⟩ := by
  unfold symbol at h ⊢
  match hs : Symbol.read? text with
  | none => simp [hs] at h
  | some (s, n) =>
    have hn := (Symbol.read?_pos hs).2
    simp only [hs, Except.ok.injEq] at h
    simp [read?_append_of_atBlank hr hs, h, hn]

/-! ### Any lexeme -/

/-- The reader that the first character of a lexeme calls for. -/
def readFrom (c : Char) (rest : List Char) : Lexeme :=
  if isWordStart c then word (c :: rest)
  else if c.isDigit ∨ c = '.' then number (c :: rest)
  else if c = '"' ∨ c = '\'' then quoted c rest
  else symbol c (c :: rest)

theorem read_cons (h : ∀ r, text = '*' :: r → c ≠ '/') : read (c :: text) = readFrom c text := by
  unfold read
  split
  · cases ‹c :: text = []›
  · rename_i r hr
    obtain ⟨rfl, rfl⟩ := List.cons.inj hr
    exact absurd rfl (h r rfl)
  · rename_i hr
    obtain ⟨rfl, rfl⟩ := List.cons.inj hr
    rfl

/-- A text is at its end, begins with a comment that is never closed, or calls for a reader. -/
theorem read_cases (text : List Char) :
    text = [] ∧ read text = ⟨.ok (.eof, .none), [], []⟩ ∨
      (∃ r, text = '/' :: '*' :: r) ∧ read text = ⟨.error .unterminatedComment, text, []⟩ ∨
      ∃ c r, text = c :: r ∧ (c = '/' → r.head? ≠ some '*') ∧
        (isWordStart c ∧ read text = word text ∨
          (c.isDigit ∨ c = '.') ∧ read text = number text ∨
          (c = '"' ∨ c = '\'') ∧ read text = quoted c r ∨
          read text = symbol c text) := by
  match text with
  | [] => exact .inl ⟨rfl, rfl⟩
  | c :: r =>
    right
    by_cases hs : c = '/' ∧ r.head? = some '*'
    · obtain ⟨rfl, hr⟩ := hs
      obtain ⟨r', rfl⟩ := List.head?_eq_some_iff.1 hr
      exact .inl ⟨⟨r', rfl⟩, rfl⟩
    · have hc : c = '/' → r.head? ≠ some '*' := fun hc hr => hs ⟨hc, hr⟩
      have hread : read (c :: r) = readFrom c r := by
        apply read_cons
        rintro r' rfl rfl
        exact hc rfl rfl
      refine .inr ⟨c, r, rfl, hc, ?_⟩
      rw [hread, readFrom]
      split
      · exact .inl ⟨‹_›, rfl⟩
      · split
        · exact .inr (.inl ⟨‹_›, rfl⟩)
        · split
          · exact .inr (.inr (.inl ⟨‹_›, rfl⟩))
          · exact .inr (.inr (.inr rfl))

/-- The token that a lexeme is read as begins with the first character of the text. -/
theorem Divides.exists_taken {x : Lexeme} (hd : x.Divides (c :: text))
    (h : x.content = .ok content) (hk : content.1 ≠ .eof) : ∃ more, x.taken = c :: more := by
  obtain ⟨d, more, ht⟩ := List.exists_cons_of_ne_nil (hd.ne_nil _ _ h hk)
  have ha := hd.append
  rw [ht, List.cons_append] at ha
  obtain ⟨rfl, -⟩ := List.cons.inj ha
  exact ⟨more, ht⟩

theorem readFrom_append_of_atBlank (hr : AtBlank rest)
    (h : (readFrom c text).content = .ok content) (hk : content.1 ≠ .eof) :
    ∃ more, (readFrom c text).taken = c :: more ∧
      readFrom c (more ++ rest) = ⟨.ok content, c :: more, rest⟩ := by
  unfold readFrom at h ⊢
  split at h
  · rename_i hc
    obtain ⟨more, ht⟩ := (word_divides hc text).exists_taken h hk
    have hw := word_append (c :: text) hr
    rw [ht, h] at hw
    exact ⟨more, by rw [if_pos hc, ht], by rw [if_pos hc, ← List.cons_append, hw]⟩
  · rename_i hw
    simp only [if_neg hw]
    split at h
    · rename_i hc
      obtain ⟨more, ht⟩ := (number_divides (c :: text)).exists_taken h hk
      have hn := number_append_of_atBlank hr h
      rw [ht] at hn
      exact ⟨more, by rw [if_pos hc, ht], by rw [if_pos hc, ← List.cons_append, hn]⟩
    · rename_i hn
      simp only [if_neg hn]
      split at h
      · rename_i hc
        obtain ⟨more, ht, hq⟩ := quoted_append h rest
        exact ⟨more, by rw [if_pos hc, ht], by rw [if_pos hc, hq]⟩
      · rename_i hc
        obtain ⟨more, ht⟩ := (symbol_divides c (c :: text)).exists_taken h hk
        have hs := symbol_append_of_atBlank hr h
        rw [ht] at hs
        exact ⟨more, by rw [if_neg hc, ht], by rw [if_neg hc, ← List.cons_append, hs]⟩

theorem taken_slash (text : List Char) : (readFrom '/' text).taken = ['/'] :=
  rfl

end Lexeme

/-! ### Gaps -/

theorem gapPiece?_cons (h : ∀ r, text = '/' :: r ∨ text = '*' :: r → c ≠ '/') (hc : ¬ isBlank c) :
    gapPiece? (c :: text) = none := by
  unfold gapPiece?
  split
  · rename_i r hr
    obtain ⟨rfl, rfl⟩ := List.cons.inj hr
    exact absurd rfl (h r (.inl rfl))
  · rename_i r hr
    obtain ⟨rfl, rfl⟩ := List.cons.inj hr
    exact absurd rfl (h r (.inr rfl))
  · rename_i hr
    obtain ⟨rfl, rfl⟩ := List.cons.inj hr
    exact if_neg hc
  · rfl

theorem isBlank_false_of_gapPiece? (h : gapPiece? (c :: text) = none) : ¬ isBlank c := by
  intro hc
  rcases isBlank_iff.1 hc with rfl | rfl | rfl <;> simp [gapPiece?, isBlank] at h

/-- A lexeme that is read off a text is one anywhere. -/
theorem isLexeme_of_read (hg : gapPiece? text = none) (h : (Lexeme.read text).content = .ok content)
    (hk : content.1 ≠ .eof) : IsLexeme content (Lexeme.read text).taken := by
  cases text with
  | nil =>
    obtain rfl : _ = content := by simpa [Lexeme.read] using h
    exact absurd rfl hk
  | cons c text =>
    have hc := isBlank_false_of_gapPiece? hg
    -- a slash neither begins a comment here nor in front of a blank
    have hs : ∀ r, text = '*' :: r → c ≠ '/' := by
      rintro r rfl rfl
      simp [Lexeme.read] at h
    have hread := Lexeme.read_cons hs
    rw [hread] at h ⊢
    have hmore (rest : List Char) (hr : AtBlank rest) :=
      Lexeme.readFrom_append_of_atBlank hr h hk
    obtain ⟨more, ht, -⟩ := hmore [] atBlank_nil
    have hslash (rest : List Char) (hr : AtBlank rest) (r : List Char)
        (hm : more ++ rest = '/' :: r ∨ more ++ rest = '*' :: r) : c ≠ '/' := by
      rintro rfl
      rw [Lexeme.taken_slash] at ht
      obtain rfl : [] = more := by simpa using ht
      rcases hr.cases with rfl | ⟨d, r', rfl, rfl | rfl | rfl⟩ <;> simp at hm
    rw [ht]
    refine ⟨hk, fun rest hr => ?_, fun rest hr => ?_⟩
    · exact gapPiece?_cons (hslash rest hr) hc
    · obtain ⟨more', ht', hm⟩ := hmore rest hr
      obtain rfl : more = more' := by simpa [ht] using ht'
      rw [List.cons_append, Lexeme.read_cons fun r hr' => hslash rest hr r (.inr hr'), hm]

/-! ### Particular lexemes -/

/-- Letters, digits and underscores that begin with no digit. -/
def IsWord (letters : List Char) : Prop :=
  ∃ c r, letters = c :: r ∧ Lexeme.isWordStart c ∧ ∀ d ∈ r, Lexeme.isWordChar d

theorem isLexeme_symbol (s : Symbol) : IsLexeme (.symbol s, .none) s.text.toList := by
  have h : gapPiece? s.text.toList = none ∧
      (Lexeme.read s.text.toList).content = .ok (.symbol s, .none) ∧
      (Lexeme.read s.text.toList).taken = s.text.toList := by
    cases s <;> exact ⟨rfl, rfl, rfl⟩
  have hl := isLexeme_of_read h.1 h.2.1 (by simp)
  rwa [h.2.2] at hl

theorem not_isBlank_of_isWordStart (h : Lexeme.isWordStart c) : ¬ isBlank c := by
  intro hc
  rcases isBlank_iff.1 hc with rfl | rfl | rfl <;> cases h

/-- Nothing that begins a word is a part of a gap. -/
theorem gapPiece?_of_isWordStart (h : Lexeme.isWordStart c) (rest : List Char) :
    gapPiece? (c :: rest) = none := by
  have hs : c ≠ '/' := by
    rintro rfl
    cases h
  exact gapPiece?_cons (fun _ _ => hs) (not_isBlank_of_isWordStart h)

theorem IsWord.isWordChar {letters : List Char} (h : IsWord letters) :
    ∀ d ∈ letters, Lexeme.isWordChar d := by
  obtain ⟨c, r, rfl, hc, hr⟩ := h
  exact List.forall_mem_cons.2 ⟨Lexeme.isWordChar_of_isWordStart hc, hr⟩

theorem IsWord.takeWhile {letters : List Char} (h : IsWord letters) :
    letters.takeWhile Lexeme.isWordChar = letters :=
  List.takeWhile_eq_self_iff.2 h.isWordChar

theorem read_of_isWord {letters : List Char} (h : IsWord letters) :
    gapPiece? letters = none ∧
      (Lexeme.read letters).content = (Lexeme.word letters).content ∧
      (Lexeme.read letters).taken = letters := by
  have htake := h.takeWhile
  obtain ⟨c, r, rfl, hc, hr⟩ := h
  have hs : c ≠ '/' := by
    rintro rfl
    cases hc
  have hread : Lexeme.read (c :: r) = Lexeme.word (c :: r) := by
    rw [Lexeme.read_cons fun _ _ => hs, Lexeme.readFrom, if_pos hc]
  refine ⟨gapPiece?_of_isWordStart hc r, ?_, ?_⟩
  · rw [hread]
  · rw [hread]
    exact htake

theorem isLexeme_word {letters : List Char} (h : IsWord letters)
    (hw : (Lexeme.word letters).content = .ok content) (hk : content.1 ≠ .eof) :
    IsLexeme content letters := by
  obtain ⟨hg, hr, ht⟩ := read_of_isWord h
  have hl := isLexeme_of_read hg (hr.trans hw) hk
  rwa [ht] at hl

theorem Keyword.isWord_text (k : Keyword) : IsWord k.text.toList := by
  cases k <;> exact ⟨_, _, rfl, rfl, List.all_eq_true.1 rfl⟩

theorem isLexeme_keyword (k : Keyword) : IsLexeme (.keyword k, .none) k.text.toList := by
  refine isLexeme_word k.isWord_text ?_ (by simp)
  cases k <;> rfl

end

end ScriptCheck
