import ScriptCheck.Proofs.Lexing.Sequence
import ScriptCheck.Proofs.Lexing.Spelling

/-!
# Maximal munch

`Denotes content lexeme` says which characters are a lexeme of a content, doubles and escapes
included. Whatever is read at the head of a text is such a lexeme, and the longest that the text
begins with. What would lengthen it cannot follow, even where the longer lexeme would be faulty.
-/

namespace ScriptCheck

/-- The characters are a lexeme of the content. -/
inductive Denotes : TokenKind × Payload → List Char → Prop
  | symbol (s : Symbol) : Denotes (.symbol s, .none) s.text.toList
  | notEqual : Denotes (.symbol .notEqual, .none) ['<', '>']
  | keyword (k : Keyword) : Denotes (.keyword k, .none) k.text.toList
  | identifier {letters : List Char} (h : IsWord letters)
      (hk : Keyword.ofText? (String.ofList letters) = none) :
      Denotes (.identifier, .text (String.ofList letters)) letters
  | plain {whole fraction : List Char} (h : IsMantissa whole fraction) :
      Denotes (Lexeme.plain whole fraction) (whole ++ fraction)
  | scientific {whole fraction sign digits : List Char} {mark : Char}
      (h : IsMantissa whole fraction) (he : mark = 'e' ∨ mark = 'E') (hs : IsSign sign)
      (hn : digits ≠ []) (hd : ∀ c ∈ digits, c.isDigit) (hv : decimalValue digits ≤ maxExponent)
      (hf : (Lexeme.mantissaValue whole fraction *
        powerOfTen (Lexeme.exponentValue sign digits)).isFinite) :
      Denotes (.real, .real (.ofFloat (Lexeme.mantissaValue whole fraction *
        powerOfTen (Lexeme.exponentValue sign digits))))
        (whole ++ fraction ++ [mark] ++ sign ++ digits)
  | string {mark : Char} {body text : List Char} (hm : mark = '"' ∨ mark = '\'')
      (h : Decodes mark body text) :
      Denotes (.string, .text (String.ofList text)) (mark :: (body ++ [mark]))

/-- The character would go on with a lexeme of the kind. -/
def TokenKind.goesOn : TokenKind → Char → Bool
  | identifier, c => Lexeme.isWordChar c
  | keyword _, c => Lexeme.isWordChar c
  | integer, c => c.isDigit || c = '.' || c = 'e' || c = 'E'
  | real, c => c.isDigit
  | symbol .less, c => c = '=' || c = '>'
  | symbol .greater, c => c = '='
  | symbol .assign, c => c = '='
  | symbol .divide, c => c = '/' || c = '*'
  | _, _ => false

/-- The lexeme stands for the content, and in front of `rest` it ends where it has to. -/
structure Munched (content : TokenKind × Payload) (lexeme rest : List Char) : Prop where
  denotes : Denotes content lexeme
  longest : ∀ other longer, Denotes other longer → longer <+: lexeme ++ rest →
    longer.length ≤ lexeme.length
  ends : ∀ c ∈ rest.head?, ¬ content.1.goesOn c

variable {mark c : Char} {text body rest lexeme : List Char} {content : TokenKind × Payload}

/-! ### Numbers -/

section

variable {a b u v whole fraction whole' fraction' sign sign' : List Char}

theorem startsWithDigit_append (hn : a ≠ []) (hd : ∀ c ∈ a, c.isDigit) (b : List Char) :
    startsWithDigit (a ++ b) := by
  cases a with
  | nil => exact absurd rfl hn
  | cons c a => exact hd c (List.mem_cons_self ..)

theorem startsWithDigit_eq_false :
    startsWithDigit a = false ↔ ∀ c ∈ a.head?, ¬ c.isDigit := by
  cases a with
  | nil => simp [startsWithDigit]
  | cons c a => simp [startsWithDigit]

/-- Digits that no digit follows are not fewer than any others that a text begins with. -/
theorem length_le_of_digits (h : a ++ b = u ++ v) (ha : ∀ c ∈ a, c.isDigit)
    (hv : startsWithDigit v = false) : a.length ≤ u.length := by
  rcases List.append_eq_append_iff.1 h with ⟨w, rfl, -⟩ | ⟨w, rfl, rfl⟩
  · simp
  · cases w with
    | nil => simp
    | cons c w =>
      have hc : c.isDigit = false := hv
      rw [ha c (by simp)] at hc
      cases hc

theorem eq_of_digits (h : a ++ b = u ++ v) (ha : ∀ c ∈ a, c.isDigit) (hu : ∀ c ∈ u, c.isDigit)
    (hb : startsWithDigit b = false) (hv : startsWithDigit v = false) : a = u ∧ b = v := by
  have h₁ := length_le_of_digits h ha hv
  have h₂ := length_le_of_digits h.symm hu hb
  exact List.append_inj h (Nat.le_antisymm h₁ h₂)

/-- A sign is what stands in front of the first digit. -/
theorem IsSign.takeWhile (hs : IsSign sign) (ha : startsWithDigit a) :
    (sign ++ a).takeWhile (!Char.isDigit ·) = sign := by
  obtain ⟨c, a, rfl⟩ : ∃ c r, a = c :: r := by
    cases a with
    | nil => cases ha
    | cons c a => exact ⟨c, a, rfl⟩
  have hc : c.isDigit := ha
  rcases hs with rfl | rfl | rfl <;> simp [hc]

theorem IsSign.unique (h : sign ++ a = sign' ++ b) (hs : IsSign sign) (hs' : IsSign sign')
    (ha : startsWithDigit a) (hb : startsWithDigit b) : sign = sign' ∧ a = b := by
  obtain rfl : sign = sign' := by rw [← hs.takeWhile ha, h, hs'.takeWhile hb]
  exact ⟨rfl, List.append_cancel_left h⟩

namespace IsMantissa

theorem digits (h : IsMantissa whole fraction) : ∀ c ∈ whole, c.isDigit := by
  cases h <;> assumption

theorem startsWithDigit_or_point (h : IsMantissa whole fraction) (rest : List Char) :
    ∃ c r, whole ++ fraction ++ rest = c :: r ∧ (c.isDigit ∨ c = '.') := by
  cases whole with
  | nil =>
    cases h with
    | whole hn => exact absurd rfl hn
    | point => exact ⟨'.', _, rfl, .inr rfl⟩
  | cons c whole => exact ⟨c, _, rfl, .inl (h.digits c (List.mem_cons_self ..))⟩

/-- In front of no digit the digits in front of the point have come to their end. -/
theorem startsWithDigit_fraction (h : IsMantissa whole fraction)
    (hb : startsWithDigit b = false) : startsWithDigit (fraction ++ b) = false := by
  cases h with
  | whole => exact hb
  | point => rfl

/-- A mantissa that cannot go on is not shorter than any other that a text begins with. -/
theorem length_le (h : whole' ++ fraction' ++ a = whole ++ fraction ++ b)
    (hm' : IsMantissa whole' fraction') (hm : IsMantissa whole fraction)
    (hb : startsWithDigit b = false) (hp : fraction = [] → b.head? ≠ some '.') :
    (whole' ++ fraction').length ≤ (whole ++ fraction).length := by
  have hfraction := hm.startsWithDigit_fraction hb
  cases hm' with
  | whole _ hd' =>
    rw [List.append_nil, List.append_assoc] at h
    have := length_le_of_digits h hd' hfraction
    simp only [List.length_append, List.length_nil]
    omega
  | point _ hd' _ hp' =>
    rw [List.append_assoc, List.append_assoc] at h
    obtain ⟨rfl, hplaces⟩ := eq_of_digits h hd' hm.digits rfl hfraction
    cases hm with
    | whole => exact absurd (congrArg List.head? hplaces.symm) (hp rfl)
    | point =>
      obtain ⟨-, hplaces⟩ := List.cons.inj hplaces
      have := length_le_of_digits hplaces hp' hb
      simp only [List.length_append, List.length_cons]
      omega

/-- There is one mantissa only in front of an `e`. -/
theorem unique (h : whole' ++ fraction' ++ c :: a = whole ++ fraction ++ b)
    (hm' : IsMantissa whole' fraction') (hm : IsMantissa whole fraction)
    (hb : startsWithDigit b = false) (hp : fraction = [] → b.head? ≠ some '.')
    (hc : c = 'e' ∨ c = 'E') : whole' = whole ∧ fraction' = fraction ∧ c :: a = b := by
  have hstop : startsWithDigit (c :: a) = false := by
    rcases hc with rfl | rfl <;> rfl
  have hne : c ≠ '.' := by
    rintro rfl
    simp at hc
  have hfraction := hm.startsWithDigit_fraction hb
  have hfraction' := hm'.startsWithDigit_fraction hstop
  rw [List.append_assoc, List.append_assoc] at h
  obtain ⟨rfl, hrest⟩ := eq_of_digits h hm'.digits hm.digits hfraction' hfraction
  cases hm' with
  | whole =>
    cases hm with
    | whole => exact ⟨rfl, rfl, hrest⟩
    | point => exact absurd (List.cons.inj hrest).1 hne
  | point _ _ _ hp' =>
    cases hm with
    | whole => exact absurd (congrArg List.head? hrest.symm) (hp rfl)
    | point _ _ _ hp'' =>
      obtain ⟨rfl, hb'⟩ := eq_of_digits (List.cons.inj hrest).2 hp' hp'' hstop hb
      exact ⟨rfl, rfl, hb'⟩

end IsMantissa

end

/-! ### What is read -/

namespace Lexeme

/-- The character begins a number. -/
theorem read_eq_number (h : c.isDigit ∨ c = '.') (r : List Char) :
    read (c :: r) = number (c :: r) := by
  have hs : c ≠ '/' := by
    rintro rfl
    simp at h
  have hw : ¬ isWordStart c := by
    rcases h with h | rfl
    · exact not_isWordStart_of_isDigit h
    · simp [isWordStart]
  rw [read_cons fun _ _ => hs, readFrom, if_neg hw, if_pos h]

theorem read_eq_word (h : isWordStart c) (r : List Char) : read (c :: r) = word (c :: r) := by
  have hs : c ≠ '/' := by
    rintro rfl
    cases h
  rw [read_cons fun _ _ => hs, readFrom, if_pos h]

theorem read_eq_quoted (h : mark = '"' ∨ mark = '\'') (r : List Char) :
    read (mark :: r) = quoted mark r := by
  rcases h with rfl | rfl <;> rfl

theorem word_denotes (hc : isWordStart c) (h : (word (c :: text)).content = .ok content) :
    Denotes content (word (c :: text)).taken ∧
      ∀ d ∈ (word (c :: text)).rest.head?, ¬ content.1.goesOn d := by
  have hword : IsWord ((c :: text).takeWhile isWordChar) := by
    refine ⟨c, text.takeWhile isWordChar, ?_, hc, fun d hd => List.mem_takeWhile_imp hd⟩
    rw [List.takeWhile_cons, if_pos (isWordChar_of_isWordStart hc)]
  have hstop : ∀ d ∈ ((c :: text).dropWhile isWordChar).head?, ¬ isWordChar d := fun d hd =>
    not_of_mem_head?_dropWhile hd
  unfold word at h ⊢
  dsimp only at h ⊢
  generalize (c :: text).takeWhile isWordChar = letters at hword h ⊢
  cases hk : Keyword.ofText? (String.ofList letters) with
  | none =>
    obtain rfl : (.identifier, .text (String.ofList letters)) = content := by
      simpa [TokenKind.ofWord, hk] using h
    exact ⟨.identifier hword hk, hstop⟩
  | some k =>
    obtain rfl : (.keyword k, .none) = content := by simpa [TokenKind.ofWord, hk] using h
    have hletters : k.text.toList = letters := by
      rw [Keyword.text_of_ofText? hk, String.toList_ofList]
    exact ⟨hletters ▸ .keyword k, hstop⟩

theorem quoted_denotes (hm : mark = '"' ∨ mark = '\'')
    (h : (quoted mark text).content = .ok content) :
    Denotes content (quoted mark text).taken ∧
      ∀ d ∈ (quoted mark text).rest.head?, ¬ content.1.goesOn d := by
  obtain ⟨body, decoded, rest, hb, hd, rfl, rfl⟩ := exists_decodes_of_quoted h
  rw [quoted_of_decodes hd hb]
  exact ⟨.string hm hd, by simp [TokenKind.goesOn]⟩

/-- A symbol is the longer of two, and no comment begins with it. -/
theorem read?_denotes {s : Symbol} {n : Nat} (h : Symbol.read? text = some (s, n))
    (hs : ∀ d r, text = '/' :: d :: r → d ≠ '/' ∧ d ≠ '*') :
    Denotes (.symbol s, .none) (text.take n) ∧
      ∀ d ∈ (text.drop n).head?, ¬ (TokenKind.symbol s).goesOn d := by
  unfold Symbol.read? at h
  split at h <;> simp only [Option.some.injEq, Prod.mk.injEq, reduceCtorEq] at h <;>
    obtain ⟨rfl, rfl⟩ := h
  all_goals
    refine ⟨by first | exact .symbol _ | exact .notEqual, ?_⟩
    intro d hd hg
    obtain ⟨r, hr⟩ := List.head?_eq_some_iff.1 hd
    simp_all [TokenKind.goesOn]

theorem symbol_denotes (hs : ∀ d r, text = '/' :: d :: r → d ≠ '/' ∧ d ≠ '*')
    (h : (symbol c text).content = .ok content) :
    Denotes content (symbol c text).taken ∧
      ∀ d ∈ (symbol c text).rest.head?, ¬ content.1.goesOn d := by
  unfold symbol at h ⊢
  match hr : Symbol.read? text with
  | none => simp [hr] at h
  | some (s, n) =>
    obtain rfl : (.symbol s, .none) = content := by simpa [hr] using h
    exact read?_denotes hr hs

/-- A number that is read is a mantissa, or a mantissa with an exponent. -/
theorem number_eq_ok (h : (number text).content = .ok content) :
    ∃ whole fraction rest, IsMantissa whole fraction ∧ text = whole ++ fraction ++ rest ∧
      startsWithDigit rest = false ∧ (fraction = [] → rest.head? ≠ some '.') ∧
      ((content = plain whole fraction ∧ (∀ c ∈ rest.head?, c ≠ 'e' ∧ c ≠ 'E') ∧
          (number text).taken = whole ++ fraction ∧ (number text).rest = rest) ∨
        ∃ mark sign digits rest', (mark = 'e' ∨ mark = 'E') ∧ IsSign sign ∧
          rest = mark :: (sign ++ (digits ++ rest')) ∧ digits ≠ [] ∧ (∀ c ∈ digits, c.isDigit) ∧
          startsWithDigit rest' = false ∧
          Denotes content (whole ++ fraction ++ [mark] ++ sign ++ digits) ∧ content.1 = .real ∧
          (number text).taken = whole ++ fraction ++ [mark] ++ sign ++ digits ∧
          (number text).rest = rest') := by
  rcases number_cases text with ⟨f, hf, -⟩ | ⟨whole, fraction, rest, hm, htext, hd, hp, ⟨he, hn⟩ |
    ⟨mark, sign, digits, rest', he, hsign, hrest', hdigits, hv, htaken, hrest, hc⟩⟩
  · cases hf.symm.trans h
  · rw [hn] at h ⊢
    obtain rfl : plain whole fraction = content := by simpa using h
    exact ⟨whole, fraction, rest, hm, htext, hd, hp, .inl ⟨rfl, he, rfl, rfl⟩⟩
  · refine ⟨whole, fraction, rest, hm, htext, hd, hp, .inr ?_⟩
    rcases hc with ⟨hc, -, -⟩ | ⟨hc, -⟩ | ⟨hc, hne, hstop, hfin⟩
    · cases hc.symm.trans h
    · cases hc.symm.trans h
    · obtain rfl := Except.ok.inj (hc.symm.trans h)
      exact ⟨mark, sign, digits, rest', he, hsign, hrest', hne, hdigits, hstop,
        .scientific hm he hsign hne hdigits hv hfin, rfl, htaken, hrest⟩

theorem number_denotes (h : (number text).content = .ok content) :
    Denotes content (number text).taken ∧
      ∀ d ∈ (number text).rest.head?, ¬ content.1.goesOn d := by
  obtain ⟨whole, fraction, rest, hm, -, hd, hp, ⟨rfl, he, htaken, hrest⟩ |
    ⟨mark, sign, digits, rest', -, -, -, -, -, hstop, hden, hreal, htaken, hrest⟩⟩ := number_eq_ok h
  · rw [htaken, hrest]
    refine ⟨.plain hm, ?_⟩
    intro d hrest
    have hdigit : ¬ d.isDigit := startsWithDigit_eq_false.1 hd d hrest
    obtain ⟨hne, hnE⟩ := he d hrest
    cases hm with
    | whole =>
      have hpoint : d ≠ '.' := by
        rintro rfl
        exact hp rfl hrest
      simp [plain, TokenKind.goesOn, hdigit, hne, hnE, hpoint]
    | point => simpa [plain, TokenKind.goesOn] using hdigit
  · rw [htaken, hrest, hreal]
    exact ⟨hden, startsWithDigit_eq_false.1 hstop⟩

/-- What is read is a lexeme that has come to its end. -/
theorem read_denotes (hg : gapPiece? text = none) (h : (read text).content = .ok content)
    (hk : content.1 ≠ .eof) :
    Denotes content (read text).taken ∧ ∀ d ∈ (read text).rest.head?, ¬ content.1.goesOn d := by
  rcases read_cases text with ⟨-, hr⟩ | ⟨-, hr⟩ |
    ⟨c, r, rfl, hc, ⟨hw, hr⟩ | ⟨-, hr⟩ | ⟨hq, hr⟩ | hr⟩ <;> rw [hr] at h ⊢
  · cases h
    exact absurd rfl hk
  · cases h
  · exact word_denotes hw h
  · exact number_denotes h
  · exact quoted_denotes hq h
  · refine symbol_denotes ?_ h
    rintro d r' hr'
    obtain ⟨rfl, rfl⟩ := List.cons.inj hr'
    refine ⟨?_, fun hd => hc rfl (by rw [hd]; rfl)⟩
    rintro rfl
    cases hg

/-! ### Nothing longer -/

theorem length_le_read_of_isWord (h : IsWord lexeme) (rest : List Char) :
    lexeme.length ≤ (read (lexeme ++ rest)).taken.length := by
  have hpos := h.isWordChar
  obtain ⟨c, letters, rfl, hc, -⟩ := h
  have htaken : (read (c :: letters ++ rest)).taken =
      (c :: letters ++ rest).takeWhile isWordChar := by
    rw [List.cons_append, read_eq_word hc]
    rfl
  rw [htaken, List.takeWhile_append_of_pos hpos, List.length_append]
  exact Nat.le_add_right ..

/-- A text that begins with a mantissa is read as a number. -/
theorem read_of_isMantissa {whole fraction : List Char} (h : IsMantissa whole fraction)
    (rest : List Char) : read (whole ++ fraction ++ rest) = number (whole ++ fraction ++ rest) := by
  obtain ⟨c, r, hr, hc⟩ := h.startsWithDigit_or_point rest
  rw [hr, read_eq_number hc]

theorem kind_ne_eof_of_read (hn : text ≠ []) (h : (read text).content = .ok content) :
    content.1 ≠ .eof := by
  intro hk
  obtain ⟨kind, payload⟩ := content
  obtain rfl : kind = .eof := hk
  exact hn (eq_nil_of_read_eof h)

/-- No lexeme that the text begins with is longer than the one that is read. -/
theorem length_le_read {other : TokenKind × Payload} (ho : Denotes other lexeme)
    (h : (read (lexeme ++ rest)).content = .ok content) :
    lexeme.length ≤ (read (lexeme ++ rest)).taken.length := by
  cases ho with
  | symbol s =>
    have hne : s.text.toList ++ rest ≠ [] := by
      cases s <;> exact List.cons_ne_nil _ _
    have hpos := List.length_pos_iff.2 ((read_divides _).ne_nil _ _ h (kind_ne_eof_of_read hne h))
    cases s with
    | lessEq | greaterEq | equal | notEqual => exact Nat.le_refl 2
    | _ => exact hpos
  | notEqual => exact Nat.le_refl 2
  | keyword k => exact length_le_read_of_isWord k.isWord_text rest
  | identifier hw => exact length_le_read_of_isWord hw rest
  | plain hm =>
    rw [read_of_isMantissa hm] at h ⊢
    obtain ⟨whole, fraction, rest', hm', htext, hd, hp, hcases⟩ := number_eq_ok h
    have hlen := IsMantissa.length_le htext hm hm' hd hp
    rcases hcases with ⟨-, -, htaken, -⟩ | ⟨_, _, _, _, -, -, -, -, -, -, -, -, htaken, -⟩
    · rwa [htaken]
    · rw [htaken]
      simp only [List.length_append] at hlen ⊢
      omega
  | @scientific whole' fraction' sign' digits' mark' hm he hs hn hd =>
    have hassoc : whole' ++ fraction' ++ [mark'] ++ sign' ++ digits' ++ rest =
        whole' ++ fraction' ++ mark' :: (sign' ++ (digits' ++ rest)) := by
      simp
    rw [hassoc, read_of_isMantissa hm] at h ⊢
    obtain ⟨whole, fraction, rest', hm', htext, hstop, hp, hcases⟩ := number_eq_ok h
    obtain ⟨rfl, rfl, rfl⟩ := IsMantissa.unique htext hm hm' hstop hp he
    rcases hcases with ⟨-, hne, -, -⟩ |
      ⟨mark, sign, digits, rest'', -, hsign, hrest, hn', hd', hstop', -, -, htaken, -⟩
    · obtain ⟨hne, hnE⟩ := hne mark' rfl
      exact absurd he (not_or.2 ⟨hne, hnE⟩)
    · obtain ⟨rfl, hexponent⟩ := List.cons.inj hrest
      have hfirst := startsWithDigit_append hn hd rest
      have hfirst' := startsWithDigit_append hn' hd' rest''
      obtain ⟨rfl, hdigits⟩ := IsSign.unique hexponent hs hsign hfirst hfirst'
      have hlen := length_le_of_digits hdigits hd hstop'
      rw [htaken]
      simp only [List.length_append] at hlen ⊢
      omega
  | @string mark body text hm hd =>
    have hassoc : mark :: (body ++ [mark]) ++ rest = mark :: (body ++ mark :: rest) := by simp
    have hne : mark ≠ '\\' := by
      rintro rfl
      simp at hm
    rw [hassoc, read_eq_quoted hm, quoted_of_decodes hd hne]

end Lexeme

end ScriptCheck
