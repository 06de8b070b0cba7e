import ScriptCheck.Diagnostic
import ScriptCheck.Proofs.Lexing.Offset
import ScriptCheck.Proofs.Recognizer.Listing

/-!
# Exact places

The place of a token or of an error tells where in the text, as it is written, the lexeme begins
that it is about. A diagnostic cuts the text into lines on its own, and still shows the line of
that lexeme, with the caret below its first character.
-/

namespace ScriptCheck

open Location

/-! ### What a diagnostic points at -/

/-- The last two lines of `shown` are a line of source text behind something else, and a caret below
what stands behind the first `column` characters of that line. -/
def PointsAt (shown : String) (line : List Char) (column : Nat) : Prop :=
  ∃ head number margin : String,
    shown = head ++ "\n" ++ (number ++ String.ofList line) ++ "\n" ++ (margin ++ "^") ∧
      '\n' ∉ number.toList ++ line ∧ '\n' ∉ margin.toList ∧
      margin.length = number.length + column

section

variable {width : Nat} {text : String} {c : Char}

theorem length_padLeft (width : Nat) (text : String) :
    (padLeft width text).length = max width text.length := by
  simp [padLeft]
  omega

theorem not_mem_padLeft (hc : c ≠ ' ') (h : c ∉ text.toList) : c ∉ (padLeft width text).toList := by
  simp [padLeft, hc, h]

theorem not_mem_toDigits (h : ¬ c.isDigit) (n : Nat) : c ∉ Nat.toDigits 10 n :=
  fun hc => h (Nat.isDigit_of_mem_toDigits (by decide) (by decide) hc)

@[simp] theorem lineFeed_not_mem_toDigits (n : Nat) : '\n' ∉ Nat.toDigits 10 n :=
  not_mem_toDigits (by decide) n

theorem not_mem_toString (n : Nat) : '\n' ∉ (toString n).toList := by
  simp

theorem not_mem_lineAt (text : List Char) (number : Nat) : '\n' ∉ lineAt text number := by
  unfold lineAt firstLine
  split
  · intro h
    simpa using List.mem_takeWhile_imp h
  · simp

end

/-- A diagnostic shows the line of its place, and its caret stands in the column of its place. -/
theorem pointsAt_render (err : ParseError) (name text : String) {column : Nat}
    (hc : err.location.column = 1 + column) :
    PointsAt (err.render name text) (lineAt text.toList err.location.line) column := by
  let line := toString err.location.line
  let gutter := max 2 line.length
  refine ⟨"\n".intercalate ((err.report name text).take 3), padLeft gutter line ++ " | ",
    padLeft gutter "" ++ " |" ++ " " ++ padLeft column "", ?_, ?_, ?_, ?_⟩
  · simp only [ParseError.render, ParseError.report, List.take, String.intercalate_cons_cons,
      String.intercalate_singleton, String.append_assoc, hc, Nat.add_sub_cancel_left]
    rfl
  · have hn : '\n' ∉ (padLeft gutter line).toList :=
      not_mem_padLeft (by decide) (not_mem_toString _)
    simp [hn, not_mem_lineAt]
  · simp [not_mem_padLeft]
  · have hw : line.length ≤ gutter := Nat.le_max_right ..
    have h₁ : " |".length + " ".length = " | ".length := rfl
    simp only [String.length_append, length_padLeft, String.length_empty]
    omega

/-! ### The lexeme of an error -/

/-- The error is about the lexeme at the head of `rest`: either that is none, or it is a token that
cannot stand there. -/
def ParseError.Concerns (err : ParseError) (rest : List Char) : Prop :=
  match err with
  | lexical e => (Lexeme.read (foldBreaks rest)).content = .error e.fault
  | grammatical e => ∃ expected t, e = .atToken expected t ∧ t.StandsAt rest

section

variable {text : String}

/-- A lexical error stands where its lexeme begins. -/
theorem exists_begins_of_tokenize_error {e : LexError} (h : tokenize text = .error e)
    (he : e.fault ≠ .missingExponentDigits) :
    ∃ before front rest, Begins text before front rest ∧ (ParseError.lexical e).Concerns rest ∧
      e.location = behind front := by
  obtain ⟨before, s, s', hs, hl⟩ := Source.exists_lexes_of_tokens_error h
  obtain ⟨front, rest, hb, hc, hplace⟩ := exists_begins_of_lex_error hs hl he
  exact ⟨before, front, rest, hb, hc, hplace⟩

/-- A syntax error stands where the refused token begins. -/
theorem exists_begins_of_check_grammatical {err : SyntaxError}
    (h : check text = .error (.grammatical err)) :
    ∃ before front rest, Begins text before front rest ∧
      (ParseError.grammatical err).Concerns rest ∧ err.location = behind front := by
  obtain ⟨ts, es, s, s', g, goals, e, hn, hf, -, -, rfl, -⟩ := exists_path_of_check_grammatical h
  obtain ⟨source, hl, hs⟩ := Scanner.lexes_of_feeds hf (Scanner.readFrom_of_next rfl hn)
  obtain ⟨front, rest, hb, ht, hplace⟩ := exists_begins_of_lex hl hs.lex
  exact ⟨ts, front, rest, hb, ⟨e, s'.current, rfl, ht⟩, hplace⟩

/-- The places of tokens and errors are exact, and the caret of a diagnostic points at them.

`Begins` says where a lexeme begins in the text as it is written; that place is unique. -/
theorem places_exact (text name : String) :
    (∀ before front rest front' rest', Begins text before front rest →
      Begins text before front' rest' → front = front' ∧ rest = rest') ∧
    (∀ ts, tokenize text = .ok ts →
      ts.Pairwise (·.location < ·.location) ∧
        ∀ before t after, ts = before ++ t :: after →
          ∃ front rest, Begins text before front rest ∧ t.StandsAt rest ∧
            t.location = behind front) ∧
    ∀ err, (check text = .error err ∨ ∃ e, tokenize text = .error e ∧ err = .lexical e) →
      (∀ l, err ≠ .lexical ⟨.missingExponentDigits, l⟩) →
      ∃ before front rest, Begins text before front rest ∧ err.Concerns rest ∧
        err.location = behind front ∧
        PointsAt (err.render name text) (lastLine front ++ headLine rest) (lastLine front).length ∧
        (lastLine front ++ headLine rest)[(lastLine front).length]? = rest.head? := by
  refine ⟨fun _ _ _ _ _ h h' => h.unique h', fun ts h => ⟨pairwise_lt_of_tokenize h, ?_⟩, ?_⟩
  · rintro before t after rfl
    obtain ⟨s, s', hs, hl⟩ := Source.exists_lex_of_tokens h
    exact exists_begins_of_lex hs hl
  · intro err h hm
    obtain ⟨before, front, rest, hb, hc, hplace⟩ : ∃ before front rest,
        Begins text before front rest ∧ err.Concerns rest ∧ err.location = behind front := by
      cases err with
      | lexical e =>
        have ht : tokenize text = .error e := by
          rcases h with h | ⟨e', ht, he⟩
          · exact tokenize_of_check_lexical h
          · obtain rfl : e = e' := by simpa using he
            exact ht
        apply exists_begins_of_tokenize_error ht
        rintro hf
        exact hm e.location (by rw [← hf])
      | grammatical e =>
        rcases h with h | ⟨e', -, he⟩
        · exact exists_begins_of_check_grammatical h
        · cases he
    refine ⟨before, front, rest, hb, hc, hplace, ?_, hb.getElem?_line⟩
    have hcol : err.location.column = 1 + (lastLine front).length := by
      rw [hplace]
      rfl
    have hp := pointsAt_render err name text hcol
    rwa [hplace, hb.lineAt_eq] at hp

end

end ScriptCheck
