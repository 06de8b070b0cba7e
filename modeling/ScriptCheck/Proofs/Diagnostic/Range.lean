import ScriptCheck.Proofs.Diagnostic.Caret
import ScriptCheck.Proofs.Lexing.Extend
import ScriptCheck.Proofs.Scanning.Queue

/-!
# Places within the text

Whatever a scanner has been through, the places that it reports lie on a line of its text, at most
one column behind the last character. Columns are counted from one, with one exception: where a
line breaks off behind the `e` of a number, the missing digits are reported in column zero of the
next line.
-/

namespace ScriptCheck

open Location TokenFeed

/-! ### Numbers that break off -/

/-- A number up to the place where the digits of its exponent should begin. -/
inductive AwaitsExponent : List Char → Prop
  | mk {whole fraction sign : List Char} {mark : Char} (hm : IsMantissa whole fraction)
      (he : mark = 'e' ∨ mark = 'E') (hs : IsSign sign) :
      AwaitsExponent (whole ++ fraction ++ [mark] ++ sign)

theorem AwaitsExponent.two_le_length {number : List Char} (h : AwaitsExponent number) :
    2 ≤ number.length := by
  obtain ⟨hm, -, -⟩ := h
  have hlen : ∀ whole fraction, IsMantissa whole fraction → 0 < (whole ++ fraction).length := by
    rintro whole fraction (⟨hn, -, -⟩ | ⟨-, -, -, -⟩)
    · simpa [List.length_pos_iff] using hn
    · simp only [List.length_append, List.length_cons]
      omega
  have := hlen _ _ hm
  simp only [List.length_append, List.length_singleton] at this ⊢
  omega

namespace Lexeme

variable {text : List Char}

theorem number_missing (h : (number text).content = .error .missingExponentDigits) :
    AwaitsExponent (number text).taken ∧ startsWithDigit (number text).rest = false := by
  rcases number_cases text with ⟨f, hf, hn⟩ | ⟨whole, fraction, rest, hm, -, -, -, ⟨-, hn⟩ |
    ⟨mark, sign, digits, rest', he, hsign, -, -, -, htaken, hrest, ⟨-, rfl, hd⟩ | ⟨hc, -⟩ |
      ⟨hc, -⟩⟩⟩
  · obtain rfl := Except.error.inj (hf.symm.trans h)
    simp at hn
  · simp [hn] at h
  · rw [htaken, hrest, List.append_nil]
    exact ⟨.mk hm he hsign, hd⟩
  · cases hc.symm.trans h
  · cases hc.symm.trans h

/-- Digits of an exponent are missed behind a number that has none. -/
theorem read_missing (h : (read text).content = .error .missingExponentDigits) :
    AwaitsExponent (read text).taken ∧ '\n' ∉ (read text).taken ∧
      startsWithDigit (read text).rest = false := by
  rcases read_cases text with
    ⟨-, hr⟩ | ⟨⟨r, rfl⟩, hr⟩ | ⟨c, r, rfl, -, ⟨-, hr⟩ | ⟨-, hr⟩ | ⟨-, hr⟩ | hr⟩ <;> rw [hr] at h ⊢
  · cases h
  · cases h
  · simp [word] at h
  · obtain ⟨hn, hd⟩ := number_missing h
    exact ⟨hn, not_mem_number, hd⟩
  · unfold quoted at h
    split at h <;> cases h
  · unfold symbol at h
    split at h
    · cases h
    · split at h <;> cases h

end Lexeme

/-- Behind `front` stands a number that lacks the digits of its exponent, and `rest` follows. The
digits are missed at `l`: behind the number, unless the line ends there. -/
structure LacksDigits (front number rest : List Char) (l : Location) : Prop where
  awaits : AwaitsExponent number
  no_digit : startsWithDigit rest = false
  inside : ∀ c ∈ rest.head?, ¬ isBreak c → l = behind (front ++ number)
  at_break : ∀ c ∈ rest.head?, isBreak c → l = ⟨(behind (front ++ number)).line + 1, 0⟩
  at_end : rest = [] →
    l = ⟨(behind (front ++ number)).line, (behind (front ++ number)).column - 1⟩

section

variable {text front number rest : List Char} {l : Location}

/-- The digits are missed in the right place if and only if the line goes on. -/
theorem LacksDigits.eq_behind_iff (h : LacksDigits front number rest l) :
    l = behind (front ++ number) ↔ ∃ c ∈ rest.head?, ¬ isBreak c := by
  constructor
  · intro hl
    cases rest with
    | nil =>
      have hcol := congrArg Location.column (hl.symm.trans (h.at_end rfl))
      simp [behind] at hcol
    | cons c rest =>
      refine ⟨c, rfl, fun hc => ?_⟩
      have hcol := congrArg Location.column (hl.symm.trans (h.at_break c rfl hc))
      simp [behind] at hcol
  · rintro ⟨c, hr, hc⟩
    exact h.inside c hr hc

theorem startsWithDigit_foldBreaks (text : List Char) :
    startsWithDigit (foldBreaks text) = startsWithDigit text := by
  unfold startsWithDigit
  rw [head?_foldBreaks]
  cases text with
  | nil => rfl
  | cons c text =>
    by_cases hc : isBreak c
    · have hbreak : c = '\r' ∨ c = '\n' := by simpa [isBreak] using hc
      rcases hbreak with rfl | rfl <;> rfl
    · simp [hc]

/-- In the text a number that breaks off stands as it is read. -/
theorem exists_number_of_missing
    (h : (Lexeme.read (foldBreaks text)).content = .error .missingExponentDigits) :
    ∃ number rest, text = number ++ rest ∧ (∀ c ∈ number, ¬ isBreak c) ∧
      AwaitsExponent number ∧ startsWithDigit rest = false ∧
      (Lexeme.read (foldBreaks text)).taken = number ∧
      (Lexeme.read (foldBreaks text)).rest = foldBreaks rest := by
  obtain ⟨hn, hl, hd⟩ := Lexeme.read_missing h
  obtain ⟨number, rest, rfl, hnumber, hrest⟩ :=
    exists_split_of_foldBreaks (Lexeme.read_divides (foldBreaks text)).append.symm
  rw [← hnumber] at hn hl
  have hone := not_isBreak_of_foldBreaks hl
  rw [foldBreaks_of_not_isBreak hone] at hn hnumber
  rw [← hrest, startsWithDigit_foldBreaks] at hd
  exact ⟨number, rest, rfl, hone, hn, hd, hnumber.symm, hrest.symm⟩

/-- Where the reader says that digits are missing. -/
theorem lacksDigits (hn : AwaitsExponent number) (hd : startsWithDigit rest = false)
    (l : Location) : LacksDigits front number rest
      (Fault.missingExponentDigits.place l (behind (front ++ number)) (foldBreaks rest)) := by
  refine ⟨hn, hd, ?_, ?_, ?_⟩
  · rintro c hc hb
    obtain ⟨r, rfl⟩ := List.head?_eq_some_iff.1 hc
    obtain ⟨more, hm⟩ := foldBreaks_cons_cases c r
    have hne : c ≠ '\n' := by
      rintro rfl
      exact hb rfl
    rw [hm, if_neg hb, Fault.place_of_ne hne]
  · rintro c hc hb
    obtain ⟨r, rfl⟩ := List.head?_eq_some_iff.1 hc
    obtain ⟨more, hm⟩ := foldBreaks_cons_cases c r
    rw [hm, if_pos hb]
    rfl
  · rintro rfl
    rfl

end

/-! ### Places of a text -/

/-- The place is on a line of the text, at most one column behind its last character. -/
structure Location.OnLineOf (l : Location) (text : String) : Prop where
  one_le_line : 1 ≤ l.line
  line_le : l.line ≤ 1 + countBreaks text.toList
  column_le : l.column ≤ 1 + (lineAt text.toList l.line).length

theorem Location.OnLineOf.of_le {l : Location} {text : String} {column : Nat}
    (h : l.OnLineOf text) (hc : column ≤ l.column) : OnLineOf ⟨l.line, column⟩ text where
  one_le_line := h.one_le_line
  line_le := h.line_le
  column_le := Nat.le_trans hc h.column_le

/-- The error is on a line of the text, and in one of its columns unless a line breaks off there. -/
structure ParseError.Within (err : ParseError) (text : String) : Prop where
  onLine : err.location.OnLineOf text
  column : 1 ≤ err.location.column ∨ ∃ front number rest l,
    text.toList = front ++ (number ++ rest) ∧ LacksDigits front number rest l ∧
    (∃ c ∈ rest.head?, isBreak c) ∧ err = .lexical ⟨.missingExponentDigits, l⟩

section

variable {text : String} {a b front rest : List Char}

theorem onLineOf_after (h : foldBreaks text.toList = a ++ b) :
    (start.after a).OnLineOf text ∧ 1 ≤ (start.after a).column := by
  have hline :
      lineAt text.toList (start.after a).line = a.rtakeWhile (· ≠ '\n') ++ firstLine b := by
    have hl : ∀ c ∈ a.rtakeWhile (· ≠ '\n'), decide (c ≠ '\n') := fun c =>
      List.mem_rtakeWhile_imp
    rw [start_after, lineAt, h, Nat.add_sub_cancel_left, dropLines_count]
    exact List.takeWhile_append_of_pos hl
  refine ⟨⟨?_, ?_, ?_⟩, ?_⟩
  · rw [start_after]
    exact Nat.le_add_right ..
  · rw [start_after, ← count_foldBreaks, h, List.count_append]
    simp
  · rw [hline, start_after, List.length_append]
    simp only
    omega
  · rw [start_after]
    exact Nat.le_add_right ..

end

/-! ### Sources -/

namespace Source

variable {text : String} {front more : List Char} {s s' : Source} {t : Token} {ts : List Token}
  {l : Location} {e : LexError}

/-- The source is what is left of the text behind some part of it. -/
def IsLeftOf (s : Source) (text : String) : Prop :=
  ∃ a, (ofText text).Behind a s

theorem isLeftOf_ofText (text : String) : (ofText text).IsLeftOf text :=
  ⟨[], by simp, by simp⟩

theorem IsLeftOf.trans {a : List Char} (h : s.IsLeftOf text) (h' : s.Behind a s') :
    s'.IsLeftOf text := by
  obtain ⟨b, hb⟩ := h
  exact ⟨b ++ a, hb.trans h'⟩

theorem IsLeftOf.skipGap (h : s.IsLeftOf text) : s.skipGap.IsLeftOf text :=
  h.trans s.behind_skipGap

theorem IsLeftOf.of_lex {r : Except LexError Token} (h : s.IsLeftOf text) (hl : s.lex = (r, s')) :
    s'.IsLeftOf text := by
  have hs := h.trans s.behind_lex
  rwa [hl] at hs

theorem IsLeftOf.onLineOf (h : s.IsLeftOf text) :
    s.location.OnLineOf text ∧ 1 ≤ s.location.column := by
  obtain ⟨a, ha⟩ := h
  rw [ha.location]
  exact onLineOf_after ha.rest

/-- The text itself can be cut where the source begins. -/
theorem IsLeftOf.exists_split (h : s.IsLeftOf text) :
    ∃ front rest, text.toList = front ++ rest ∧ s = ⟨foldBreaks rest, behind front⟩ := by
  obtain ⟨a, ha⟩ := h
  obtain ⟨front, rest, htext, rfl, hrest⟩ := exists_split_of_foldBreaks ha.rest
  refine ⟨front, rest, htext, ?_⟩
  rw [hrest, ← start_after_foldBreaks, show start.after (foldBreaks front) = s.location from
    ha.location.symm]

/-- The error about the digits of an exponent is one about a number of the text. -/
theorem exists_number_of_lex (hs : s.skipGap = ⟨foldBreaks more, behind front⟩)
    (hl : s.lex = (.error ⟨.missingExponentDigits, l⟩, s')) :
    ∃ number rest, more = number ++ rest ∧ (∀ c ∈ number, ¬ isBreak c) ∧
      LacksDigits front number rest l ∧ s' = ⟨foldBreaks rest, behind (front ++ number)⟩ := by
  obtain ⟨hc, hs', hplace⟩ := lex_eq_fault hl
  rw [hs] at hc
  obtain ⟨number, rest, rfl, hone, hn, hd, htaken, hrest⟩ := exists_number_of_missing hc
  have hbehind : (behind front).after number = behind (front ++ number) := by
    rw [behind_append hone, after_of_not_mem fun hmem => hone _ hmem rfl]
  have hsource : s' = ⟨foldBreaks rest, behind (front ++ number)⟩ := by
    simp only [hs', hs, advance, htaken, hrest, hbehind]
  rw [hsource] at hplace
  obtain rfl : l = Fault.missingExponentDigits.place _ _ _ := hplace
  exact ⟨number, rest, rfl, hone, lacksDigits hn hd _, hsource⟩

/-- An error that is met in some part of a text is within the text. -/
theorem IsLeftOf.within (h : s.IsLeftOf text) (hl : s.lex = (.error e, s')) :
    (ParseError.lexical e).Within text := by
  by_cases he : e.fault = .missingExponentDigits
  · obtain ⟨fault, l⟩ := e
    obtain rfl : fault = _ := he
    obtain ⟨front, more, htext, hs⟩ := h.skipGap.exists_split
    obtain ⟨number, rest, rfl, hone, hlacks, rfl⟩ := exists_number_of_lex hs hl
    have hleft : IsLeftOf ⟨foldBreaks rest, behind (front ++ number)⟩ text := h.of_lex hl
    obtain ⟨hline, hcol⟩ := hleft.onLineOf
    cases rest with
    | nil =>
      have hplace := hlacks.at_end rfl
      have hwidth : 2 ≤ (behind (front ++ number)).column - 1 := by
        have := hlacks.awaits.two_le_length
        rw [behind_append hone]
        simp only [behind]
        omega
      have hl : l.OnLineOf text := hplace ▸ hline.of_le (Nat.sub_le ..)
      refine ⟨hl, .inl ?_⟩
      rw [hplace]
      exact Nat.le_of_succ_le hwidth
    | cons c rest =>
      by_cases hc : isBreak c
      · obtain ⟨more, hm⟩ := foldBreaks_cons_cases c rest
        rw [hm, if_pos hc] at hleft
        -- the next line exists, since there is a break in front of it
        have hnext : IsLeftOf ⟨more, ⟨(behind (front ++ number)).line + 1, 1⟩⟩ text :=
          hleft.trans (a := ['\n']) ⟨rfl, rfl⟩
        have hl : l.OnLineOf text :=
          hlacks.at_break c rfl hc ▸ hnext.onLineOf.1.of_le (Nat.zero_le _)
        exact ⟨hl, .inr ⟨front, number, c :: rest, l, htext, hlacks, ⟨c, rfl, hc⟩, rfl⟩⟩
      · rw [← hlacks.inside c rfl hc] at hline hcol
        exact ⟨hline, .inl hcol⟩
  · obtain ⟨hplace, -⟩ := lex_eq_error hl he
    obtain ⟨hline, hcol⟩ := h.skipGap.onLineOf
    rw [← hplace] at hline hcol
    exact ⟨hline, .inl hcol⟩

theorem IsLeftOf.token (h : s.IsLeftOf text) (hl : s.lex = (.ok t, s')) :
    t.location.OnLineOf text ∧ 1 ≤ t.location.column := by
  rw [(lex_eq_ok hl).1]
  exact h.skipGap.onLineOf

end Source

/-! ### Scanners -/

/-- The scanner is in front of some part of the text, and its tokens have places of the text. -/
structure Scanner.Within (s : Scanner) (text : String) : Prop where
  source : s.source.IsLeftOf text
  tokens : ∀ t ∈ s.current :: s.pending, t.location.OnLineOf text ∧ 1 ≤ t.location.column

/-- The scanner has been put in front of the text, and then has been used in any way. -/
inductive Scanner.Reached (text : String) : Scanner → Prop
  | ofText : Reached text (ofText text)
  | next {s : Scanner} (h : Reached text s) : Reached text s.next.2
  | peek {s : Scanner} (h : Reached text s) (n : Nat) : Reached text (s.peek n).2
  | pushBack {s : Scanner} (h : Reached text s) {t : Token} (hl : t.location.OnLineOf text)
      (hc : 1 ≤ t.location.column) : Reached text (s.pushBack t)
  | program {s : Scanner} (h : Reached text s) : Reached text s.program.scanner
  | recognize {s : Scanner} (h : Reached text s) : Reached text s.recognize.scanner

/-- The error is the answer to a call. -/
inductive Reports (text : String) : ParseError → Prop
  | tokenize {e : LexError} (h : tokenize text = .error e) : Reports text (.lexical e)
  | next {s : Scanner} {e : LexError} (hs : s.Reached text) (h : s.next.1 = .error e) :
      Reports text (.lexical e)
  | peek {s : Scanner} {n : Nat} {e : LexError} (hs : s.Reached text)
      (h : (s.peek n).1 = .error e) : Reports text (.lexical e)
  | program {s : Scanner} {err : ParseError} (hs : s.Reached text)
      (h : s.program.result = .error err) : Reports text err
  | recognize {s : Scanner} {err : ParseError} (hs : s.Reached text)
      (h : s.recognize.result = .error err) : Reports text err

namespace Scanner

variable {text : String} {s s' : Scanner} {t : Token} {ts : List Token} {e : LexError} {n : Nat}

theorem within_ofText (text : String) : (ofText text).Within text where
  source := Source.isLeftOf_ofText text
  tokens := by
    intro t ht
    obtain rfl : t = .eof .start := by simpa [ofText] using ht
    exact (Source.isLeftOf_ofText text).onLineOf

theorem Within.pushBack (h : s.Within text) (hl : t.location.OnLineOf text)
    (hc : 1 ≤ t.location.column) : (s.pushBack t).Within text where
  source := h.source
  tokens := by
    intro u hu
    have hu : u ∈ (s.current :: s.pending) ++ [t] := hu
    rcases List.mem_append.1 hu with hu | hu
    · exact h.tokens u hu
    · obtain rfl := List.mem_singleton.1 hu
      exact ⟨hl, hc⟩

theorem Within.next (h : s.Within text) : s.next.2.Within text := by
  match hp : s.pending with
  | t :: pending =>
    rw [next_of_pending hp]
    refine ⟨h.source, ?_⟩
    intro u hu
    exact h.tokens u (by simp_all)
  | [] =>
    match hl : s.source.lex with
    | (.ok t, source) =>
      rw [next_of_lex hp hl]
      refine ⟨h.source.of_lex hl, ?_⟩
      intro u hu
      obtain rfl : u = t := by simpa [hp] using hu
      exact h.source.token hl
    | (.error e, source) =>
      rw [next_of_error hp hl]
      exact ⟨h.source.of_lex hl, h.tokens⟩

theorem Within.peek (h : s.Within text) (n : Nat) : (s.peek n).2.Within text := by
  induction s using peek.induct n with
  | case1 s u hu =>
    rw [peek_of_pending hu]
    exact h
  | case2 s hn u source hl ih =>
    rw [peek_of_lex hn hl]
    obtain ⟨hline, hcol⟩ := h.source.token hl
    apply ih
    exact Within.pushBack ⟨h.source.of_lex hl, h.tokens⟩ hline hcol
  | case3 s hn e source hl =>
    rw [peek_of_error hn hl]
    exact ⟨h.source.of_lex hl, h.tokens⟩

theorem Within.next_error (h : s.Within text) (hn : s.next = (.error e, s')) :
    (ParseError.lexical e).Within text :=
  h.source.within (lex_of_next_eq_error hn)

theorem Within.peek_error (h : s.Within text) (hp : s.peek n = (.error e, s')) :
    (ParseError.lexical e).Within text := by
  obtain ⟨fresh, source, source', hl, he, -, -⟩ := exists_fresh_of_peek_error hp
  obtain ⟨a, ha⟩ := hl.exists_behind
  exact (h.source.trans ha).within he

theorem Within.feeds (h : s.Within text) (hf : Feeds s ts s') : s'.Within text := by
  induction hf with
  | refl => exact h
  | next hn _ ih =>
    apply ih
    have hs := h.next
    rwa [show Scanner.next _ = _ from hn] at hs

/-- A run keeps within the text, and so does the error in which it ends. -/
theorem Within.run (h : s.Within text) (events : List Event) (goals : List Goal) :
    (run s events goals).scanner.Within text ∧
      ∀ err, (run s events goals).result = .error err → err.Within text := by
  obtain ⟨ts, es, s', goals', hf, -, hfin, hrun⟩ := exists_reaches s events goals
  have hs := h.feeds hf
  rw [hrun]
  cases hfin with
  | done => simpa using hs
  | refused hg =>
    rw [run_of_refuse hg]
    refine ⟨hs, ?_⟩
    intro err herr
    cases herr
    obtain ⟨hline, hcol⟩ := hs.tokens s'.current (by simp)
    exact ⟨hline, .inl hcol⟩
  | @cut g goals gs new s'' e hg hn =>
    rw [run_of_shift_error hg hn]
    have hn' : s'.next = (.error e, s'') := hn
    refine ⟨?_, ?_⟩
    · have hs'' := hs.next
      rwa [hn'] at hs''
    · intro err herr
      cases herr
      exact hs.next_error hn'
  | @blind g goals yes no k s'' e hg hp =>
    rw [run_of_look_error hg hp]
    have hp' : s'.peek 0 = (.error e, s'') := hp
    refine ⟨?_, ?_⟩
    · have hs'' := hs.peek 0
      rwa [hp'] at hs''
    · intro err herr
      cases herr
      exact hs.peek_error hp'

theorem Within.recognize (h : s.Within text) :
    s.recognize.scanner.Within text ∧
      ∀ err, s.recognize.result = .error err → err.Within text := by
  have hs := h.next
  unfold Scanner.recognize TokenFeed.recognize
  match hn : s.next with
  | (.ok (), s') =>
    rw [show TokenFeed.next s = _ from hn]
    rw [hn] at hs
    exact hs.run [] ScriptCheck.program
  | (.error e, s') =>
    rw [show TokenFeed.next s = _ from hn]
    rw [hn] at hs
    refine ⟨hs, ?_⟩
    intro err herr
    cases herr
    exact h.next_error hn

theorem Reached.within (h : s.Reached text) : s.Within text := by
  induction h with
  | ofText => exact within_ofText text
  | next _ ih => exact ih.next
  | peek _ n ih => exact ih.peek n
  | pushBack _ hl hc ih => exact ih.pushBack hl hc
  | program _ ih => exact (ih.run [] ScriptCheck.program).1
  | recognize _ ih => exact ih.recognize.1

end Scanner

/-! ### All errors -/

section

variable {text : String}

theorem Reports.within {err : ParseError} (h : Reports text err) : err.Within text := by
  cases h with
  | tokenize h =>
    obtain ⟨before, s, s', hs, hl⟩ := Source.exists_lexes_of_tokens_error h
    exact Source.IsLeftOf.within hs.exists_behind hl
  | @next s e hs h => exact hs.within.next_error (Prod.ext h rfl)
  | @peek s n e hs h => exact hs.within.peek_error (Prod.ext h rfl)
  | program hs h => exact (hs.within.run [] ScriptCheck.program).2 _ h
  | recognize hs h => exact hs.within.recognize.2 _ h

/-- Digits that are missing behind an exponent are reported right behind it if and only if the line
goes on there; and errors of every kind lie on a line of the text, in a column of it unless a line
breaks off behind an exponent. -/
theorem errors_within_text (text : String) :
    (∀ l, (tokenize text = .error ⟨.missingExponentDigits, l⟩ ∨
        check text = .error (.lexical ⟨.missingExponentDigits, l⟩)) →
      ∃ before front number rest, Begins text before front (number ++ rest) ∧
        LacksDigits front number rest l ∧
        (l = behind (front ++ number) ↔ ∃ c ∈ rest.head?, ¬ isBreak c)) ∧
    ∀ err, Reports text err → err.Within text := by
  refine ⟨?_, fun err h => h.within⟩
  intro l h
  have ht : tokenize text = .error ⟨.missingExponentDigits, l⟩ :=
    h.elim id tokenize_of_check_lexical
  obtain ⟨before, s, s', hs, hl⟩ := Source.exists_lexes_of_tokens_error ht
  obtain ⟨front, more, hb, hskip⟩ := exists_begins hs
  obtain ⟨number, rest, rfl, -, hlacks, -⟩ := Source.exists_number_of_lex hskip hl
  exact ⟨before, front, number, rest, hb, hlacks, hlacks.eq_behind_iff⟩

/-- At the end of a text the digits are missed in the column of the `e`, and in front of a line
break in column zero of the next line. -/
theorem missing_digits_at_line_end :
    tokenize "1e" = .error ⟨.missingExponentDigits, ⟨1, 2⟩⟩ ∧
      tokenize "1e\n" = .error ⟨.missingExponentDigits, ⟨2, 0⟩⟩ ∧
      behind ['1', 'e'] = ⟨1, 3⟩ := by
  refine ⟨?_, ?_, rfl⟩
  · have hs : (Source.ofText "1e").skipGap = ⟨['1', 'e'], .start⟩ := by with_unfolding_all rfl
    have hlex : (Source.ofText "1e").lex =
        (.error ⟨.missingExponentDigits, ⟨1, 2⟩⟩, ⟨[], ⟨1, 3⟩⟩) := by
      rw [Source.lex, hs]
      rfl
    exact Source.tokens_of_lex_error hlex
  · have hs : (Source.ofText "1e\n").skipGap = ⟨['1', 'e', '\n'], .start⟩ := by
      with_unfolding_all rfl
    have hlex : (Source.ofText "1e\n").lex =
        (.error ⟨.missingExponentDigits, ⟨2, 0⟩⟩, ⟨['\n'], ⟨1, 3⟩⟩) := by
      rw [Source.lex, hs]
      rfl
    exact Source.tokens_of_lex_error hlex

end

end ScriptCheck
