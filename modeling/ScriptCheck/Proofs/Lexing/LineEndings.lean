import ScriptCheck.Proofs.Lexing.Head
import ScriptCheck.Proofs.Text.LineFeeds
import ScriptCheck.Diagnostic
import ScriptCheck.Grammar.Recognizer

/-!
# Line endings

Whichever line endings a text has, the same is read from it. A head that folds breaks as it comes to
them keeps to the source: where it stands, what it sees ahead and what it is told to report are the
same, since no character that is looked for ahead is a break.
-/

namespace ScriptCheck

variable {text rest taken : List Char} {c d mark : Char} {l : Location} {s : Source} {h : Head}

/-! ### The head of a source -/

/-- Where a head is that has come to what is left: on a break it is in front of the next line
already, and at the end it is still where the last character was. -/
def Source.headPlace (s : Source) : Location :=
  Fault.missingExponentDigits.place .start s.location s.rest

theorem Source.headPlace_cons (c : Char) (rest : List Char) (l : Location) :
    headPlace ⟨c :: rest, l⟩ = if c = '\n' then ⟨l.line + 1, 0⟩ else l := by
  by_cases hc : c = '\n'
  · rw [hc]
    rfl
  · rw [headPlace, Fault.place_of_ne hc, if_neg hc]

theorem Source.skipGap_blank (hc : isBlank c) (text : List Char) (l : Location) :
    skipGap ⟨c :: text, l⟩ = skipGap ⟨text, l.next c⟩ := by
  rw [skipGap, skipGap, splitGap_blank hc]
  rfl

theorem Source.skipGap_of_some {piece : List Char} (h : gapPiece? text = some (piece, rest))
    (l : Location) : skipGap ⟨text, l⟩ = skipGap ⟨rest, l.after piece⟩ := by
  rw [skipGap, skipGap, splitGap_of_some h]
  simp only [advance, Location.after_append]

namespace Head

/-- The head stands on the first character that is left of a source. -/
structure At (h : Head) (s : Source) : Prop where
  char : h.char = s.rest.head?
  behind : foldBreaks h.behind.rest = s.rest.tail
  place : h.place = s.headPlace
  column : 0 < s.location.column

namespace At

theorem eq_none (ha : h.At ⟨[], l⟩) : ∃ behind place, h = ⟨none, behind, place⟩ := by
  obtain ⟨char, behind, place⟩ := h
  obtain rfl : char = none := ha.char
  exact ⟨behind, place, rfl⟩

theorem eq_some (ha : h.At ⟨c :: rest, l⟩) : ∃ behind place, h = ⟨some c, behind, place⟩ := by
  obtain ⟨char, behind, place⟩ := h
  obtain rfl : char = some c := ha.char
  exact ⟨behind, place, rfl⟩

theorem place_eq (ha : h.At ⟨c :: rest, l⟩) (hc : c ≠ '\n') : h.place = l := by
  rw [ha.place, Source.headPlace_cons, if_neg hc]

/-- A head that moves on stands on the first character behind it. -/
theorem of_bump (hf : foldBreaks h.behind.rest = rest) :
    h.bump.At ⟨rest, h.place.line, h.place.column + 1⟩ := by
  cases hr : h.behind.rest with
  | nil =>
    obtain rfl : [] = rest := by rw [← hf, hr, foldBreaks_nil]
    rw [bump_of_nil hr]
    exact ⟨rfl, by rw [hr]; rfl, rfl, Nat.succ_pos _⟩
  | cons d more =>
    obtain ⟨behind, hb, hbump⟩ := bump_of_cons hr
    obtain rfl : (if isBreak d then '\n' else d) :: foldBreaks behind.rest = rest := by
      rw [← hf, hr, foldBreaks_cons_eq, hb]
    rw [hbump]
    refine ⟨rfl, rfl, ?_, Nat.succ_pos _⟩
    rw [Source.headPlace_cons]
    by_cases hd : isBreak d
    · simp only [if_pos hd, ↓reduceIte]
    · have hn : d ≠ '\n' := by rintro rfl; exact hd rfl
      simp only [if_neg hd, if_neg hn]

theorem bump (ha : h.At ⟨c :: rest, l⟩) : h.bump.At ⟨rest, l.next c⟩ := by
  have hnext : l.next c = ⟨h.place.line, h.place.column + 1⟩ := by
    rw [ha.place, Source.headPlace_cons, Location.next]
    split <;> rfl
  rw [hnext]
  exact of_bump ha.behind

theorem ofText (text : String) : (Head.ofText text).At (.ofText text) :=
  of_bump rfl

/-- A character ahead that is no break is seen in the text as in the folded text. -/
theorem peek_eq_some (ha : h.At ⟨c :: rest, l⟩) (hd : ¬ isBreak d) :
    h.behind.peek = some d ↔ rest.head? = some d := by
  have hfold : foldBreaks h.behind.rest = rest := ha.behind
  rw [← hfold, head?_foldBreaks, Cursor.peek]
  cases h.behind.rest.head? with
  | none => simp
  | some e =>
    rw [Option.map_some, Option.some_inj, Option.some_inj]
    by_cases he : isBreak e
    · rw [if_pos he]
      constructor
      · rintro rfl
        exact absurd he hd
      · rintro rfl
        exact absurd rfl hd
    · rw [if_neg he]

theorem takeWhile (p : Char → Bool) (ha : h.At ⟨text, l⟩) :
    (h.takeWhile p).1 = text.takeWhile p ∧
      (h.takeWhile p).2.At ⟨text.dropWhile p, l.after (text.takeWhile p)⟩ := by
  induction text generalizing h l with
  | nil =>
    obtain ⟨behind, place, rfl⟩ := ha.eq_none
    rw [Head.takeWhile]
    exact ⟨rfl, ha⟩
  | cons c text ih =>
    obtain ⟨htake, hleft⟩ := ih ha.bump
    obtain ⟨behind, place, rfl⟩ := ha.eq_some
    rw [Head.takeWhile, List.takeWhile_cons, List.dropWhile_cons]
    by_cases hc : p c
    · rw [if_pos hc, if_pos hc, if_pos hc]
      exact ⟨congrArg (c :: ·) htake, hleft⟩
    · rw [if_neg hc, if_neg hc, if_neg hc]
      exact ⟨rfl, ha⟩

/-! ### Gaps -/

theorem closeComment (before : List Char) (ha : h.At ⟨text, l⟩) :
    (∃ inner rest, closeCommentOnto before text = some (before.reverse ++ inner, rest) ∧
        h.closeComment.1 ∧ h.closeComment.2.At ⟨rest, l.after (inner ++ ['*', '/'])⟩) ∨
      closeCommentOnto before text = none ∧ ¬ h.closeComment.1 ∧
        h.closeComment.2.At ⟨[], l.after text⟩ := by
  induction text generalizing before h l with
  | nil =>
    obtain ⟨behind, place, rfl⟩ := ha.eq_none
    rw [Head.closeComment]
    exact .inr ⟨rfl, by simp, ha⟩
  | cons c text ih =>
    have hbump := ha.bump
    have hslash := ha.peek_eq_some (show ¬ isBreak '/' by decide)
    obtain ⟨behind, place, rfl⟩ := ha.eq_some
    rw [Head.closeComment]
    by_cases hc : c = '*' ∧ text.head? = some '/'
    · obtain ⟨rfl, ht⟩ := hc
      rw [if_pos ⟨rfl, hslash.2 ht⟩]
      obtain ⟨rest, rfl⟩ := List.head?_eq_some_iff.1 ht
      exact .inl ⟨[], rest, by simp [closeCommentOnto], rfl, hbump.bump⟩
    · have hnext : closeCommentOnto before (c :: text) = closeCommentOnto (c :: before) text := by
        rw [closeCommentOnto]
        rintro r rfl rfl
        exact hc ⟨rfl, rfl⟩
      rw [hnext, if_neg fun h => hc ⟨h.1, hslash.1 h.2⟩]
      rcases ih (c :: before) hbump with ⟨inner, rest, hi, hh, hl⟩ | ⟨hi, hh, hl⟩
      · exact .inl ⟨c :: inner, rest, by simp [hi], hh, hl⟩
      · exact .inr ⟨hi, hh, hl⟩

theorem skipGap_blank (ha : h.At ⟨c :: text, l⟩) (hb : isBlank c) : h.skipGap = h.bump.skipGap := by
  obtain ⟨behind, place, rfl⟩ := ha.eq_some
  rw [Head.skipGap, if_pos hb]

theorem skipGap_lineComment (ha : h.At ⟨'/' :: '/' :: text, l⟩) :
    h.skipGap = (h.bump.takeWhile (· ≠ '\n')).2.skipGap := by
  have hslash := (ha.peek_eq_some (show ¬ isBreak '/' by decide)).2 rfl
  obtain ⟨behind, place, rfl⟩ := ha.eq_some
  rw [Head.skipGap, if_neg (by decide), if_pos ⟨rfl, hslash⟩]

theorem skipGap_comment (ha : h.At ⟨'/' :: '*' :: text, l⟩) :
    h.skipGap = if h.bump.bump.closeComment.1 then h.bump.bump.closeComment.2.skipGap
      else (.error ⟨.unterminatedComment, l⟩, h.bump.bump.closeComment.2) := by
  have hslash := ha.peek_eq_some (show ¬ isBreak '/' by decide)
  have hstar := (ha.peek_eq_some (show ¬ isBreak '*' by decide)).2 rfl
  have hplace := ha.place_eq (by decide)
  obtain ⟨behind, place, rfl⟩ := ha.eq_some
  obtain rfl : place = l := hplace
  rw [Head.skipGap, if_neg (by decide), if_neg, if_pos ⟨rfl, hstar⟩]
  rintro ⟨-, hp⟩
  cases hslash.1 hp

theorem skipGap_stop (ha : h.At ⟨c :: text, l⟩) (hb : ¬ isBlank c)
    (hs : c = '/' → text.head? ≠ some '/' ∧ text.head? ≠ some '*') : h.skipGap = (.ok (), h) := by
  have hslash := ha.peek_eq_some (show ¬ isBreak '/' by decide)
  have hstar := ha.peek_eq_some (show ¬ isBreak '*' by decide)
  obtain ⟨behind, place, rfl⟩ := ha.eq_some
  rw [Head.skipGap, if_neg hb, if_neg fun hc => (hs hc.1).1 (hslash.1 hc.2),
    if_neg fun hc => (hs hc.1).2 (hstar.1 hc.2)]

/-- The head skips what the source skips, unless a comment stands behind it that has no end. -/
theorem skipGap (ha : h.At ⟨text, l⟩) :
    (h.skipGap.1 = .ok () ∧ h.skipGap.2.At (Source.skipGap ⟨text, l⟩) ∧
        ∀ r, (Source.skipGap ⟨text, l⟩).rest ≠ '/' :: '*' :: r) ∨
      ∃ r, (Source.skipGap ⟨text, l⟩).rest = '/' :: '*' :: r ∧
        h.skipGap.1 = .error ⟨.unterminatedComment, (Source.skipGap ⟨text, l⟩).location⟩ ∧
        h.skipGap.2.At ⟨[], (Source.skipGap ⟨text, l⟩).location.after ('/' :: '*' :: r)⟩ := by
  induction hn : text.length using Nat.strongRecOn generalizing text h l with
  | ind n ih =>
    cases text with
    | nil =>
      obtain ⟨behind, place, rfl⟩ := ha.eq_none
      rw [Source.skipGap_of_none rfl, Head.skipGap]
      exact .inl ⟨rfl, ha, by simp⟩
    | cons c text =>
      have hlen : text.length < n := by rw [← hn]; exact Nat.lt_succ_self _
      by_cases hb : isBlank c
      · rw [ha.skipGap_blank hb, Source.skipGap_blank hb]
        exact ih _ hlen ha.bump rfl
      by_cases hline : c = '/' ∧ text.head? = some '/'
      · obtain ⟨rfl, ht⟩ := hline
        obtain ⟨rest, rfl⟩ := List.head?_eq_some_iff.1 ht
        have hpiece : gapPiece? ('/' :: '/' :: rest) =
            some ('/' :: '/' :: rest.takeWhile (· ≠ '\n'), rest.dropWhile (· ≠ '\n')) := rfl
        have hless : (rest.dropWhile (· ≠ '\n')).length < n :=
          Nat.lt_of_le_of_lt (List.length_dropWhile_le ..) (Nat.lt_of_succ_lt hlen)
        rw [ha.skipGap_lineComment, Source.skipGap_of_some hpiece]
        exact ih _ hless (ha.bump.takeWhile (· ≠ '\n')).2 rfl
      by_cases hcomment : c = '/' ∧ text.head? = some '*'
      · obtain ⟨rfl, ht⟩ := hcomment
        obtain ⟨rest, rfl⟩ := List.head?_eq_some_iff.1 ht
        rw [ha.skipGap_comment]
        rcases ha.bump.bump.closeComment [] with ⟨inner, rest', hi, hh, hleft⟩ | ⟨hi, hh, hleft⟩
        · have hpiece := gapPiece?_comment hi
          have hless : rest'.length < n := hn ▸ length_lt_of_gapPiece? hpiece
          rw [if_pos hh, Source.skipGap_of_some hpiece]
          exact ih _ hless hleft rfl
        · have hnone : gapPiece? ('/' :: '*' :: rest) = none := by
            rw [gapPiece?, closeComment?, hi]
          rw [if_neg hh, Source.skipGap_of_none hnone]
          exact .inr ⟨rest, rfl, rfl, hleft⟩
      · have hstop : c = '/' → text.head? ≠ some '/' ∧ text.head? ≠ some '*' :=
          fun hc => ⟨fun ht => hline ⟨hc, ht⟩, fun ht => hcomment ⟨hc, ht⟩⟩
        have hnone : gapPiece? (c :: text) = none := by
          refine gapPiece?_cons ?_ hb
          rintro r (rfl | rfl) hc
          · exact (hstop hc).1 rfl
          · exact (hstop hc).2 rfl
        rw [ha.skipGap_stop hb hstop, Source.skipGap_of_none hnone]
        refine .inl ⟨rfl, ha, ?_⟩
        rintro r hr
        obtain ⟨rfl, rfl⟩ := List.cons.inj hr
        exact (hstop rfl).2 rfl

end At

/-! ### Lexemes -/

/-- What a head has found, and where it is then, is what the lexeme says that stands at `l`. -/
structure Finds (x : Except LexError (TokenKind × Payload) × Head) (l : Location) (y : Lexeme) :
    Prop where
  content : x.1 = y.content.mapError fun f => ⟨f, f.place l (l.after y.taken) y.rest⟩
  left : x.2.At ⟨y.rest, l.after y.taken⟩

theorem finds_ok {y : Lexeme} {content : TokenKind × Payload} (hc : y.content = .ok content)
    (hl : h.At ⟨y.rest, l.after y.taken⟩) : Finds (.ok content, h) l y :=
  ⟨by rw [hc]; rfl, hl⟩

theorem finds_error {y : Lexeme} {f : Fault} (hc : y.content = .error f)
    (hf : f ≠ .missingExponentDigits) (hl : h.At ⟨y.rest, l.after y.taken⟩) :
    Finds (.error ⟨f, l⟩, h) l y := by
  refine ⟨?_, hl⟩
  rw [hc]
  cases f with
  | missingExponentDigits => exact absurd rfl hf
  | _ => rfl

namespace At

theorem onDigit (ha : h.At ⟨text, l⟩) : h.onDigit = startsWithDigit text := by
  rw [Head.onDigit, ha.char]
  rfl

theorem char_eq_some (ha : h.At ⟨text, l⟩) : h.char = some c ↔ ∃ r, text = c :: r := by
  rw [ha.char, List.head?_eq_some_iff]

theorem digitsOnto (limit value : Nat) (taken : List Char)
    (ha : h.At ⟨text, l.after taken.reverse⟩) :
    ∃ h', h.digitsOnto limit value taken = ((Digits.readOnto limit value taken text).value,
        (Digits.readOnto limit value taken text).taken, h') ∧
      h'.At ⟨(Digits.readOnto limit value taken text).rest,
        l.after (Digits.readOnto limit value taken text).taken⟩ := by
  fun_induction Digits.readOnto limit value taken text generalizing h with
  | case1 =>
    obtain ⟨behind, place, rfl⟩ := ha.eq_none
    rw [Head.digitsOnto]
    exact ⟨_, rfl, ha⟩
  | case2 value taken c text hc ih =>
    have hbump : h.bump.At ⟨text, l.after (c :: taken).reverse⟩ := by
      rw [List.reverse_cons, Location.after_append]
      exact ha.bump
    obtain ⟨behind, place, rfl⟩ := ha.eq_some
    rw [Head.digitsOnto, if_pos hc]
    exact ih hbump
  | case3 value taken c text hc =>
    obtain ⟨behind, place, rfl⟩ := ha.eq_some
    rw [Head.digitsOnto, if_neg hc]
    exact ⟨_, rfl, ha⟩

theorem digits (limit : Nat) (ha : h.At ⟨text, l⟩) :
    ∃ h', h.digits limit = ((Digits.read limit text).value, (Digits.read limit text).taken, h') ∧
      h'.At ⟨(Digits.read limit text).rest, l.after (Digits.read limit text).taken⟩ :=
  ha.digitsOnto limit 0 []

theorem sign (ha : h.At ⟨text, l⟩) :
    ∃ h', h.sign = ((Lexeme.splitSign text).1, h') ∧
      h'.At ⟨(Lexeme.splitSign text).2, l.after (Lexeme.splitSign text).1⟩ := by
  unfold Lexeme.splitSign
  split
  · have hplus : h.char = some '+' := ha.char
    rw [Head.sign, if_pos hplus]
    exact ⟨_, rfl, ha.bump⟩
  · have hminus : h.char = some '-' := ha.char
    rw [Head.sign, hminus, if_neg (by decide), if_pos rfl]
    exact ⟨_, rfl, ha.bump⟩
  · rename_i hplus hminus
    rw [Head.sign, if_neg, if_neg]
    · exact ⟨_, rfl, ha⟩
    · rw [ha.char_eq_some]
      exact fun ⟨r, hr⟩ => hminus r hr
    · rw [ha.char_eq_some]
      exact fun ⟨r, hr⟩ => hplus r hr

theorem scientific (mantissa : Float) (ha : h.At ⟨text, l.after taken⟩) :
    Finds (h.scientific mantissa l) l (Lexeme.scientific mantissa taken text) := by
  obtain ⟨h₁, hsign, ha₁⟩ := ha.sign
  obtain ⟨h₂, hdigits, ha₂⟩ := ha₁.digits maxExponent
  have hleft : h₂.At ⟨(Lexeme.scientific mantissa taken text).rest,
      l.after (Lexeme.scientific mantissa taken text).taken⟩ := by
    simpa only [Lexeme.scientific, Location.after_append] using ha₂
  rw [Head.scientific, hsign]
  dsimp only
  rw [ha₁.onDigit]
  by_cases hd : startsWithDigit (Lexeme.splitSign text).2
  · have hn : (Digits.read maxExponent (Lexeme.splitSign text).2).taken ≠ [] :=
      Digits.taken_ne_nil (by decide) hd
    have hvalue : (mantissa * powerOfTen (if (Lexeme.splitSign text).1 = ['-'] then
        -(Digits.read maxExponent (Lexeme.splitSign text).2).value else
        (Digits.read maxExponent (Lexeme.splitSign text).2).value)) =
      Lexeme.scientificValue mantissa (Lexeme.splitSign text).1
        (Digits.read maxExponent (Lexeme.splitSign text).2) := rfl
    rw [if_pos hd, hdigits]
    dsimp only
    rw [ha₂.onDigit, hvalue]
    by_cases ho : startsWithDigit (Digits.read maxExponent (Lexeme.splitSign text).2).rest ∨
        !(Lexeme.scientificValue mantissa (Lexeme.splitSign text).1
          (Digits.read maxExponent (Lexeme.splitSign text).2)).isFinite
    · rw [if_pos ho]
      refine finds_error ?_ (by decide) hleft
      rw [Lexeme.scientific, Lexeme.scientificContent, if_neg hn, if_pos ho]
    · rw [if_neg ho]
      refine finds_ok ?_ hleft
      rw [Lexeme.scientific, Lexeme.scientificContent, if_neg hn, if_neg ho]
  · have hnone : Digits.read maxExponent (Lexeme.splitSign text).2 =
        ⟨0, [], (Lexeme.splitSign text).2⟩ :=
      Digits.readOnto_of_not_startsWithDigit maxExponent 0 [] (by simpa using hd)
    have hleft : h₁.At ⟨(Lexeme.scientific mantissa taken text).rest,
        l.after (Lexeme.scientific mantissa taken text).taken⟩ := by
      simpa only [Lexeme.scientific, hnone, Location.after_append, Location.after_nil] using ha₁
    rw [if_neg hd]
    refine ⟨?_, hleft⟩
    rw [hleft.place, Lexeme.scientific, hnone]
    rfl

theorem scaled (plain : TokenKind × Payload) (mantissa : Float)
    (ha : h.At ⟨text, l.after taken⟩) :
    Finds (h.scaled plain mantissa l) l (Lexeme.scaled plain mantissa taken text) := by
  rcases Lexeme.scaled_cases plain mantissa taken text with ⟨e, rest, he, rfl, hs⟩ | ⟨he, hs⟩
  · have hbump : h.bump.At ⟨rest, l.after (taken ++ [e])⟩ := by
      rw [Location.after_append]
      exact ha.bump
    have hchar : h.char = some 'e' ∨ h.char = some 'E' := by
      rw [ha.char]
      exact he.imp (congrArg some) (congrArg some)
    rw [Head.scaled, if_pos hchar, hs]
    exact hbump.scientific mantissa
  · have hchar : ¬ (h.char = some 'e' ∨ h.char = some 'E') := by
      rw [ha.char]
      rintro (hc | hc)
      · exact (he _ hc).1 rfl
      · exact (he _ hc).2 rfl
    rw [Head.scaled, if_neg hchar, hs]
    exact finds_ok rfl ha

theorem number (ha : h.At ⟨text, l⟩) (hp : h.place = l) :
    Finds h.number l (Lexeme.number text) := by
  obtain ⟨h₁, hdigits, ha₁⟩ := ha.digits maxInteger
  rw [Head.number, hdigits, hp]
  dsimp only
  rw [ha₁.onDigit]
  by_cases hd : startsWithDigit (Digits.read maxInteger text).rest
  · have hn := Lexeme.number_of_overflow rfl hd
    rw [if_pos hd, hn]
    exact finds_error rfl (by decide) ha₁
  have hstop : startsWithDigit (Digits.read maxInteger text).rest = false := by simpa using hd
  rw [if_neg hd]
  by_cases hpoint : ∃ r, (Digits.read maxInteger text).rest = '.' :: r
  · obtain ⟨r, hr⟩ := hpoint
    rw [if_pos (ha₁.char_eq_some.2 ⟨r, hr⟩)]
    rw [hr] at ha₁
    obtain ⟨hplaces, ha₂⟩ := ha₁.bump.takeWhile Char.isDigit
    rw [hplaces]
    by_cases hlone : (Digits.read maxInteger text).taken = [] ∧ r.takeWhile Char.isDigit = []
    · have hn := Lexeme.number_of_lone_point rfl hr hlone
      have hdrop : r.dropWhile Char.isDigit = r := by
        have happ := List.takeWhile_append_dropWhile (p := Char.isDigit) (l := r)
        rwa [hlone.2] at happ
      rw [hlone.1, hlone.2, hdrop] at ha₂
      rw [if_pos hlone, hn]
      exact finds_error rfl (by decide) ha₂
    · rw [if_neg hlone, Lexeme.number_of_point rfl hr hlone]
      apply scaled
      rw [Location.after_append]
      exact ha₂
  · have hpoint (r : List Char) : (Digits.read maxInteger text).rest ≠ '.' :: r :=
      fun hr => hpoint ⟨r, hr⟩
    rw [if_neg fun hc => (ha₁.char_eq_some.1 hc).elim hpoint]
    by_cases hlone : (Digits.read maxInteger text).taken = []
    · rw [hlone] at ha₁
      rw [if_pos hlone, Lexeme.number_of_nothing rfl hstop hpoint hlone]
      exact finds_error rfl (by decide) ha₁
    · rw [if_neg hlone, Lexeme.number_of_not_point rfl hstop hpoint hlone]
      exact ha₁.scaled _ _

theorem word (ha : h.At ⟨text, l⟩) : Finds h.word l (Lexeme.word text) := by
  obtain ⟨htake, hleft⟩ := ha.takeWhile Lexeme.isWordChar
  rw [Head.word]
  dsimp only
  rw [htake]
  split
  · rename_i hk
    refine finds_ok ?_ hleft
    simp only [Lexeme.word, hk]
  · rename_i k hk
    refine finds_ok ?_ hleft
    simp only [Lexeme.word]

theorem closeStringOnto (mark : Char) (decoded body : List Char) (ha : h.At ⟨text, l⟩) :
    (∃ string spelled rest, Lexeme.closeStringOnto mark decoded body text =
          some (string, body.reverse ++ spelled, rest) ∧
        (h.closeStringOnto mark decoded).1 = some string ∧
        (h.closeStringOnto mark decoded).2.At ⟨rest, l.after (spelled ++ [mark])⟩) ∨
      Lexeme.closeStringOnto mark decoded body text = none ∧
        (h.closeStringOnto mark decoded).1 = none ∧
        (h.closeStringOnto mark decoded).2.At ⟨[], l.after text⟩ := by
  fun_induction Lexeme.closeStringOnto mark decoded body text generalizing h l with
  | case1 =>
    obtain ⟨behind, place, rfl⟩ := ha.eq_none
    rw [Head.closeStringOnto]
    exact .inr ⟨rfl, rfl, ha⟩
  | case2 =>
    have hbump := ha.bump
    obtain ⟨behind, place, rfl⟩ := ha.eq_some
    rw [Head.closeStringOnto, if_pos rfl, hbump.char]
    exact .inr ⟨rfl, rfl, hbump⟩
  | case3 decoded body c rest ih =>
    have hbump := ha.bump
    have hnext := ih hbump.bump
    obtain ⟨behind, place, rfl⟩ := ha.eq_some
    rw [Head.closeStringOnto, if_pos rfl, hbump.char]
    rcases hnext with ⟨string, spelled, rest', hs, ho, hl⟩ | hnone
    · exact .inl ⟨string, '\\' :: c :: spelled, rest', by rw [hs]; simp, ho, hl⟩
    · exact .inr hnone
  | case4 decoded body rest hn hn' =>
    have hbump := ha.bump
    obtain ⟨behind, place, rfl⟩ := ha.eq_some
    rw [Head.closeStringOnto, if_neg (Lexeme.ne_backslash hn hn'), if_pos rfl]
    exact .inl ⟨decoded.reverse, [], rest, by simp, rfl, hbump⟩
  | case5 decoded body c rest hn hn' hc ih =>
    have hnext := ih ha.bump
    obtain ⟨behind, place, rfl⟩ := ha.eq_some
    rw [Head.closeStringOnto, if_neg (Lexeme.ne_backslash hn hn'), if_neg hc]
    rcases hnext with ⟨string, spelled, rest', hs, ho, hl⟩ | hnone
    · exact .inl ⟨string, c :: spelled, rest', by simp [hs], ho, hl⟩
    · exact .inr hnone

theorem quoted (ha : h.At ⟨mark :: text, l⟩) (hp : h.place = l) :
    Finds (h.quoted mark) l (Lexeme.quoted mark text) := by
  rw [Head.quoted, hp, Lexeme.quoted, Lexeme.closeString?]
  rcases ha.bump.closeStringOnto mark [] [] with
    ⟨string, spelled, rest, hs, ho, hl⟩ | ⟨hs, ho, hl⟩
  · rw [hs, ho]
    exact finds_ok rfl hl
  · rw [hs, ho]
    exact finds_error rfl (by decide) hl

theorem iterate_bump {n : Nat} (hn : n ≤ text.length) (ha : h.At ⟨text, l⟩) :
    (Nat.iterate Head.bump n h).At ⟨text.drop n, l.after (text.take n)⟩ := by
  induction n generalizing text h l with
  | zero => exact ha
  | succ n ih =>
    cases text with
    | nil => cases hn
    | cons c text => exact ih (Nat.le_of_succ_le_succ hn) ha.bump

theorem symbol (ha : h.At ⟨c :: text, l⟩) (hp : h.place = l) :
    Finds (h.symbol c) l (Lexeme.symbol c (c :: text)) := by
  have hahead (d : Char) (hd : ¬ isBreak d) :
      h.behind.peek.toList.head? = some d ↔ text.head? = some d := by
    rw [← ha.peek_eq_some hd]
    cases h.behind.peek <;> rfl
  have hread : Symbol.read? (c :: h.behind.peek.toList) = Symbol.read? (c :: text) :=
    Lexeme.read?_congr (hahead '=' (by decide)) (hahead '>' (by decide))
  rw [Head.symbol, Lexeme.symbol, hread, hp]
  cases hs : Symbol.read? (c :: text) with
  | none =>
    refine finds_error rfl ?_ ha
    split <;> simp
  | some x => exact finds_ok rfl (ha.iterate_bump (Symbol.read?_pos hs).2)

theorem readFrom (ha : h.At ⟨c :: text, l⟩) (hp : h.place = l) :
    Finds (h.readFrom c) l (Lexeme.readFrom c text) := by
  unfold Head.readFrom Lexeme.readFrom
  split
  · exact ha.word
  split
  · exact ha.number hp
  split
  · exact ha.quoted hp
  · exact ha.symbol hp

/-! ### Tokens -/

theorem readToken (ha : h.At s) (hg : gapPiece? s.rest = none)
    (hc : ∀ r, s.rest ≠ '/' :: '*' :: r) :
    h.readToken.1 = s.readToken.1 ∧ h.readToken.2.At s.readToken.2 := by
  obtain ⟨text, l⟩ := s
  cases text with
  | nil =>
    have hplace : h.place = ⟨l.line, l.column - 1⟩ := ha.place
    have hcolumn : l.column - 1 + 1 = l.column := Nat.sub_add_cancel ha.column
    rw [Head.readToken, ha.char, hplace]
    dsimp only [List.head?_nil]
    rw [hcolumn]
    exact ⟨rfl, ha⟩
  | cons c text =>
    have hread : Lexeme.read (c :: text) = Lexeme.readFrom c text := by
      apply Lexeme.read_cons
      rintro r rfl rfl
      exact hc r rfl
    have hp : h.place = l := by
      apply ha.place_eq
      rintro rfl
      exact isBlank_false_of_gapPiece? hg rfl
    obtain ⟨hcontent, hleft⟩ := ha.readFrom hp
    rw [Head.readToken, ha.char]
    dsimp only [List.head?_cons]
    rw [hcontent, hp, Source.readToken, hread]
    dsimp only
    split
    · rename_i k p hk
      rw [hk]
      exact ⟨rfl, hleft⟩
    · rename_i f hf
      rw [hf]
      exact ⟨rfl, hleft⟩

/-- The head reads the token that the source reads, or breaks off in the same place. -/
theorem lex (ha : h.At s) : h.lex.1 = s.lex.1 ∧ h.lex.2.At s.lex.2 := by
  obtain ⟨text, l⟩ := s
  rw [Head.lex, Source.lex]
  rcases ha.skipGap with ⟨hskip, hleft, hc⟩ | ⟨r, hrest, hskip, hleft⟩
  · rw [hskip]
    exact hleft.readToken (gapPiece?_splitGap text) hc
  · rw [hskip, Source.readToken, hrest]
    exact ⟨rfl, hleft⟩

theorem outcome (ha : h.At s) (k : Nat) : h.outcome k = s.outcome k := by
  induction k generalizing h s with
  | zero => exact ha.lex.1
  | succ k ih => exact ih ha.lex.2

end At

/-- A head reads a text to its end and beyond, over errors too, as the source does. -/
theorem outcome_ofText (text : String) (k : Nat) :
    (ofText text).outcome k = (Source.ofText text).outcome k :=
  (At.ofText text).outcome k

end Head

theorem ParseError.render_lineFeeds (e : ParseError) (name text : String) :
    e.render name (lineFeeds text) = e.render name text := by
  rw [render, render, report, report, lineAt_lineFeeds]

/-- Whichever line endings a text has, the same is read from it, reported about it and shown of it
as with a line feed at the end of each line. Nothing of this depends on folding the text in advance:
a head that folds each break as it comes to it reads the same, and so does a search for breaks in
the text as it is. -/
theorem line_endings_alike (text name : String) :
    tokenize (lineFeeds text) = tokenize text ∧
      recognize (lineFeeds text) = recognize text ∧
      (∀ e : ParseError, e.render name (lineFeeds text) = e.render name text) ∧
      (∀ k, (Head.ofText (lineFeeds text)).outcome k = (Head.ofText text).outcome k) ∧
      (∀ k, (Head.ofText text).outcome k = (Source.ofText text).outcome k) ∧
      ∀ number, searchLine text.toList number = lineAt text.toList number := by
  have hsource := ofText_lineFeeds text
  refine ⟨?_, ?_, fun e => e.render_lineFeeds name text, ?_, Head.outcome_ofText text,
    fun number => (lineAt_eq_searchLine text.toList number).symm⟩
  · rw [tokenize, tokenize, hsource]
  · rw [recognize, recognize, Scanner.ofText, Scanner.ofText, hsource]
  · intro k
    rw [Head.outcome_ofText, Head.outcome_ofText, hsource]

end ScriptCheck
