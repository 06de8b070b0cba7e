import ScriptCheck.Proofs.Diagnostic.Caret
import ScriptCheck.Proofs.Lexing.Cover
import ScriptCheck.Proofs.Recognizer.ViablePrefix

/-!
# The shape of a diagnostic

A diagnostic is a header with the message, and below it an excerpt of four lines that show the
place. The header names the token that is refused, a string with its decoded text: it is broken
where that text has a line feed, and nowhere else.
-/

namespace ScriptCheck

variable {name source : String} {err : ParseError} {e : LexError} {t : Token} {x : Expectation}
  {l : Location} {excerpt : List String} {text : List Char}

/-! ### Lines of a diagnostic -/

/-- So many blanks. -/
def blanks (n : Nat) : String :=
  String.ofList (List.replicate n ' ')

/-- The lines that show a place of a text: the name and the place; and behind bars, which stand in
one column, nothing, then the numbered line of the text, then the caret. -/
inductive IsExcerpt (name source : String) (l : Location) : List String → Prop
  | mk {front width : Nat} (hw : front + (toString l.line).length = width) :
      IsExcerpt name source l
        [blanks width ++ "--> " ++ name ++ ":" ++ toString l.line ++ ":" ++ toString l.column,
          blanks width ++ " |",
          blanks front ++ toString l.line ++ " | " ++ String.ofList (lineAt source.toList l.line),
          blanks width ++ " | " ++ blanks (l.column - 1) ++ "^"]

/-- What is shown is a header of one line, with the message, and an excerpt. -/
def HasFiveLines (err : ParseError) (name source shown : String) : Prop :=
  ∃ excerpt, IsExcerpt name source err.location excerpt ∧
    shown.toList.splitOn '\n' = (("error: " ++ err.message) :: excerpt).map String.toList

theorem not_mem_blanks (n : Nat) : '\n' ∉ (blanks n).toList := by
  simp [blanks]

theorem IsExcerpt.not_mem (h : IsExcerpt name source l excerpt) (hn : '\n' ∉ name.toList) :
    ∀ line ∈ excerpt, '\n' ∉ line.toList := by
  cases h
  simp [not_mem_blanks, not_mem_lineAt, hn]

theorem IsExcerpt.length_eq (h : IsExcerpt name source l excerpt) : excerpt.length = 4 := by
  cases h
  rfl

theorem idxOf?_append_cons {front : List Char} {c : Char} (h : c ∉ front) (rest : List Char) :
    (front ++ c :: rest).idxOf? c = some front.length := by
  have hfront : front.findIdx? (· == c) = none := by
    rw [List.findIdx?_eq_none_iff]
    rintro d hd
    rw [beq_eq_false_iff_ne]
    rintro rfl
    exact h hd
  rw [List.idxOf?, List.findIdx?_append, hfront]
  simp [List.findIdx?_cons]

/-- The bars of an excerpt stand in one column. -/
theorem IsExcerpt.exists_column (h : IsExcerpt name source l excerpt) :
    ∃ column, ∀ line ∈ excerpt.drop 1, line.toList.idxOf? '|' = some column := by
  cases h with
  | @mk front width hw =>
    have hbar (rest : List Char) :
        (List.replicate width ' ' ++ ' ' :: '|' :: rest).idxOf? '|' = some (width + 1) := by
      rw [List.append_cons, idxOf?_append_cons (by simp)]
      simp
    have hnumber (rest : List Char) : (List.replicate front ' ' ++
        (Nat.toDigits 10 l.line ++ ' ' :: '|' :: rest)).idxOf? '|' = some (width + 1) := by
      have hdigits : '|' ∉ Nat.toDigits 10 l.line := not_mem_toDigits (by decide) _
      have hlength : (Nat.toDigits 10 l.line).length = (toString l.line).length := by
        simp [← String.length_toList]
      rw [← List.append_assoc, List.append_cons, idxOf?_append_cons (by simp [hdigits])]
      simp [← hw, hlength, Nat.add_assoc]
    refine ⟨width + 1, ?_⟩
    simp [blanks, hbar, hnumber]

/-- Behind its header a diagnostic is an excerpt. -/
theorem exists_excerpt (err : ParseError) (name source : String) :
    ∃ excerpt, IsExcerpt name source err.location excerpt ∧
      err.report name source = ("error: " ++ err.message) :: excerpt := by
  have hpad (width : Nat) (text : String) :
      padLeft width text = blanks (width - text.length) ++ text := rfl
  have hw : max 2 (toString err.location.line).length - (toString err.location.line).length +
      (toString err.location.line).length = max 2 (toString err.location.line).length := by
    omega
  refine ⟨_, .mk hw, ?_⟩
  have harrow (rest : String) : "-->" ++ (" " ++ rest) = "--> " ++ rest := by
    rw [← String.append_assoc]
    rfl
  have hbar (rest : String) : " |" ++ (" " ++ rest) = " | " ++ rest := by
    rw [← String.append_assoc]
    rfl
  have hlength : "-->".length = 3 := rfl
  simp only [ParseError.report, hpad, String.append_assoc, harrow, hbar, hlength,
    String.length_empty, Nat.sub_zero, Nat.add_sub_cancel, String.empty_append]

/-- The lines of a text are those of its first part and those that are added. -/
theorem splitOn_intercalate_cons (header : String) (lines : List String)
    (hl : ∀ line ∈ lines, '\n' ∉ line.toList) :
    ("\n".intercalate (header :: lines)).toList.splitOn '\n' =
      header.toList.splitOn '\n' ++ lines.map String.toList := by
  cases lines with
  | nil => simp
  | cons line lines =>
    have hlines : ∀ chars ∈ (line :: lines).map String.toList, '\n' ∉ chars := by
      simpa using hl
    have hrest := List.splitOn_intercalate '\n' hlines (by simp)
    rw [String.toList_intercalate, List.map_cons, List.map_cons, List.intercalate_cons_cons,
      ← List.map_cons, List.append_assoc]
    exact (List.splitOn_append_cons_self _ _).trans (congrArg _ hrest)

theorem splitOn_render (err : ParseError) (name source : String) (hn : '\n' ∉ name.toList) :
    ∃ excerpt, IsExcerpt name source err.location excerpt ∧
      (err.render name source).toList.splitOn '\n' =
        ("error: " ++ err.message).toList.splitOn '\n' ++ excerpt.map String.toList := by
  obtain ⟨excerpt, he, hreport⟩ := exists_excerpt err name source
  refine ⟨excerpt, he, ?_⟩
  rw [ParseError.render, hreport]
  exact splitOn_intercalate_cons _ _ (he.not_mem hn)

/-- A diagnostic has five lines if and only if its message is on one line. -/
theorem hasFiveLines_render_iff (hn : '\n' ∉ name.toList) :
    HasFiveLines err name source (err.render name source) ↔ '\n' ∉ err.message.toList := by
  have hheader : '\n' ∉ ("error: " ++ err.message).toList ↔ '\n' ∉ err.message.toList := by
    simp
  obtain ⟨excerpt, he, hlines⟩ := splitOn_render err name source hn
  rw [← hheader]
  constructor
  · rintro ⟨excerpt', he', hlines'⟩ hm
    obtain ⟨front, rest, hsplit⟩ := List.append_of_mem hm
    have hfront := List.length_pos_iff.2 (List.splitOn_ne_nil '\n' front)
    have hrest := List.length_pos_iff.2 (List.splitOn_ne_nil '\n' rest)
    have hlength := congrArg List.length (hlines.symm.trans hlines')
    rw [hsplit, List.splitOn_append_cons_self] at hlength
    simp only [List.length_append, List.length_map, List.length_cons, he.length_eq,
      he'.length_eq] at hlength
    omega
  · intro hm
    refine ⟨excerpt, he, ?_⟩
    rw [hlines, List.splitOn_eq_singleton hm]
    rfl

/-! ### Texts in messages -/

theorem not_mem_positional (n : Nat) (k : Int) : '\n' ∉ (positional n k).toList := by
  unfold positional
  dsimp only
  split
  · split
    · decide
    · simp
  · generalize hp : List.replicate _ '0' ++ (toString n).toList = padded
    have hpadded : '\n' ∉ padded := by
      rw [← hp]
      simp
    have htake (n : Nat) : '\n' ∉ padded.take n := fun h => hpadded (List.mem_of_mem_take h)
    have hdrop (n : Nat) : '\n' ∉ ((padded.drop n).reverse.dropWhile (· = '0')).reverse := by
      intro h
      have hrev := (List.dropWhile_sublist _).subset (List.mem_reverse.1 h)
      exact hpadded (List.mem_of_mem_drop (List.mem_reverse.1 hrev))
    rw [String.toList_ofList]
    split <;> simp [htake, hdrop]

theorem not_mem_shortest (x : Binary64) : '\n' ∉ x.shortest.toList := by
  have hsigned (negative : Bool) {digits : String} (h : '\n' ∉ digits.toList) :
      '\n' ∉ (signed negative digits).toList := by
    cases negative <;> simpa [signed] using h
  unfold Binary64.shortest
  split
  · decide
  · exact hsigned _ (by decide)
  · exact hsigned _ (by decide)
  · exact hsigned _ (not_mem_positional _ _)

theorem not_mem_repr (n : Int) : '\n' ∉ n.repr.toList := by
  rw [Int.repr_eq_if]
  split <;> simp

theorem TokenKind.not_mem_describe (k : TokenKind) : '\n' ∉ k.describe.toList := by
  cases k with
  | symbol s => cases s <;> decide
  | keyword k => cases k <;> decide
  | _ => decide

theorem Expectation.not_mem_text (x : Expectation) : '\n' ∉ x.text.toList := by
  cases x with
  | kind k => exact k.not_mem_describe
  | _ => decide

theorem Fault.mem_message_iff (f : Fault) : '\n' ∈ f.message.toList ↔ f = .unrecognized '\n' := by
  cases f with
  | unrecognized c =>
    have hmessage : (unrecognized c).message =
        "unrecognized character in source code: '" ++ c.toString ++ "'" := rfl
    rw [hmessage, String.toList_append, String.toList_append]
    simp [Char.toString, eq_comm]
  | _ => exact iff_of_false (by decide) nofun

/-- A token is described on one line, unless it is a string with a line feed. -/
theorem Token.mem_describe_iff (h : t.kind = .identifier → '\n' ∉ t.text.toList) :
    '\n' ∈ t.describe.toList ↔ t.kind = .string ∧ '\n' ∈ t.text.toList := by
  unfold describe
  split
  · rename_i hk
    simp [hk, h hk]
  · rename_i hk
    simp [hk, not_mem_repr]
  · rename_i hk
    simp [hk, not_mem_shortest]
  · rename_i hk
    simp [hk]
  · simp_all [TokenKind.not_mem_describe]

/-! ### What is read -/

theorem Denotes.not_mem {content : TokenKind × Payload} {lexeme : List Char}
    (h : Denotes content lexeme) (hk : content.1 = .identifier) :
    ∃ letters, content.2 = .text (String.ofList letters) ∧ '\n' ∉ letters := by
  cases h with
  | identifier hw =>
    exact ⟨lexeme, rfl, fun hm => absurd (hw.isWordChar _ hm) (by decide)⟩
  | @plain whole fraction => cases fraction <;> cases hk
  | _ => cases hk

/-- A character that is not recognized is the first one of the text. -/
theorem Lexeme.head?_of_unrecognized {c : Char}
    (h : (read text).content = .error (.unrecognized c)) : text.head? = some c := by
  rcases read_cases text with
    ⟨-, hr⟩ | ⟨⟨r, rfl⟩, hr⟩ | ⟨d, r, rfl, -, ⟨-, hr⟩ | ⟨-, hr⟩ | ⟨-, hr⟩ | hr⟩ <;> rw [hr] at h
  · cases h
  · cases h
  · simp [word] at h
  · have := number_error h
    cases this
  · unfold quoted at h
    split at h <;> cases h
  · unfold symbol at h
    split at h
    · cases h
    · split at h <;> simp_all

/-- The name that an identifier carries is on one line. -/
theorem Source.not_mem_of_lex {s s' : Source} (h : s.lex = (.ok t, s'))
    (hk : t.kind = .identifier) : '\n' ∉ t.text.toList := by
  have ht : t.kind ≠ .eof := by
    rw [hk]
    nofun
  obtain ⟨gap, lexeme, -, -, hm⟩ := munched_of_lex h ht
  obtain ⟨letters, hp, hletters⟩ := hm.denotes.not_mem hk
  have htext : t.text = String.ofList letters := by
    unfold Token.text
    rw [show t.payload = _ from hp]
  rwa [htext, String.toList_ofList]

/-! ### Refused programs -/

/-- The token that is refused is a string whose text has a line feed. -/
def RefusesLines (source : String) (err : ParseError) : Prop :=
  ∃ ts t x, firstTokens (ts.length + 1) source = .ok (ts ++ [t]) ∧
    err = .grammatical (.atToken x t) ∧ t.kind = .string ∧ '\n' ∈ t.text.toList

theorem mem_message_atToken (h : t.kind = .identifier → '\n' ∉ t.text.toList) :
    '\n' ∈ (SyntaxError.atToken x t).message.toList ↔ t.kind = .string ∧ '\n' ∈ t.text.toList := by
  rw [← Token.mem_describe_iff h]
  simp [SyntaxError.message, SyntaxError.atToken, x.not_mem_text]

/-- A line feed is a blank, so no lexical error names it. -/
theorem not_mem_message_of_tokenize (h : tokenize source = .error e) :
    '\n' ∉ e.message.toList := by
  obtain ⟨ts, s, s', -, hl⟩ := Source.exists_lexes_of_tokens_error h
  rw [LexError.message, Fault.mem_message_iff]
  intro hf
  have hc := (Source.lex_eq_fault hl).1
  rw [hf] at hc
  exact s.head?_skipGap_ne (Lexeme.head?_of_unrecognized hc)

/-- The message about a refused program is on one line, unless it names a string that is not. -/
theorem mem_message_of_check (h : check source = .error err) :
    '\n' ∈ err.message.toList ↔ RefusesLines source err := by
  constructor
  · intro hm
    cases err with
    | lexical e => exact absurd hm (not_mem_message_of_tokenize (tokenize_of_check_lexical h))
    | grammatical e =>
      obtain ⟨ts, es, s, s', g, goals, x, hn, hf, -, -, rfl, -⟩ :=
        exists_path_of_check_grammatical h
      have hs := Scanner.readFrom_of_next rfl hn
      obtain ⟨source', -, hs'⟩ := Scanner.lexes_of_feeds hf hs
      obtain ⟨hk, ht⟩ := (mem_message_atToken (Source.not_mem_of_lex hs'.lex)).1 hm
      exact ⟨ts, s'.current, x, Scanner.first_of_feeds hf hs, rfl, hk, ht⟩
  · rintro ⟨ts, t, x, -, rfl, hk, ht⟩
    refine (mem_message_atToken fun hi => ?_).2 ⟨hk, ht⟩
    rw [hk] at hi
    cases hi

/-- A diagnostic for a refused program is a header with the message and an excerpt of four lines,
whose last three have their bars in one column. The header is one line, unless the token that is
refused is a string with a line feed. -/
theorem diagnostic_lines (h : check source = .error err) (hn : '\n' ∉ name.toList) :
    (∃ excerpt column, IsExcerpt name source err.location excerpt ∧
      (∀ line ∈ excerpt.drop 1, line.toList.idxOf? '|' = some column) ∧
      (err.render name source).toList.splitOn '\n' =
        ("error: " ++ err.message).toList.splitOn '\n' ++ excerpt.map String.toList) ∧
    (HasFiveLines err name source (err.render name source) ↔ ¬ RefusesLines source err) := by
  obtain ⟨excerpt, he, hlines⟩ := splitOn_render err name source hn
  obtain ⟨column, hbars⟩ := he.exists_column
  refine ⟨⟨excerpt, column, he, hbars, hlines⟩, ?_⟩
  rw [hasFiveLines_render_iff hn, mem_message_of_check h]

theorem diagnostic_lines_of_missing_operand :
    check "x = )" = .error (.grammatical ⟨"an expression", "')'", ⟨1, 5⟩⟩) ∧
      '\n' ∉ "<input>".toList ∧
      HasFiveLines (.grammatical ⟨"an expression", "')'", ⟨1, 5⟩⟩) "<input>" "x = )"
        ("error: expected an expression, found ')'\n" ++
          "  --> <input>:1:5\n   |\n 1 | x = )\n   |     ^") := by
  have hn : '\n' ∉ "<input>".toList := by decide
  have hshown := (diagnostic_lines check_missing_operand hn).2.2 fun hr => by
    have hm := (mem_message_of_check check_missing_operand).2 hr
    revert hm
    decide
  exact ⟨check_missing_operand, hn, hshown⟩

/-- What is said about a string where a statement should begin. -/
def refusedString : ParseError :=
  .grammatical ⟨"a statement", "string \"\n\"", ⟨1, 1⟩⟩

/-- The line feed that a refused string spells breaks the header in two. -/
theorem refused_string_breaks_header :
    check "\"\\n\"" = .error refusedString ∧
      refusedString.render "<input>" "\"\\n\"" =
        "error: expected a statement, found string \"\n\"\n" ++
          "  --> <input>:1:1\n   |\n 1 | \"\\n\"\n   | ^" ∧
      ¬ HasFiveLines refusedString "<input>" "\"\\n\""
        (refusedString.render "<input>" "\"\\n\"") := by
  refine ⟨?_, by with_unfolding_all rfl, ?_⟩
  · have hr : ∃ es gs, Reaches ⟨.string, .text "\n", ⟨1, 1⟩⟩ program [] es (.statement :: gs) :=
      ⟨_, _, .reduce rfl <| .refl _⟩
    obtain ⟨es, gs, hr⟩ := hr
    exact (recognize_of_firstTokens hr rfl (by with_unfolding_all rfl)).1
  · rw [hasFiveLines_render_iff (by decide), not_not]
    decide

end ScriptCheck
