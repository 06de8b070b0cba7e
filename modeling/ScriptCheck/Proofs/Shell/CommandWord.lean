import ScriptCheck.Shell.Command
import ScriptCheck.Proofs.Lexing.Cover
import ScriptCheck.Proofs.Recognizer.Relocate

/-!
# Commands and programs

The shell takes a line for a command by its first word, before anything is read as a program. An
accepted program that begins with a command word has `(`, `[` or `=` behind it, and white space or
comments between. Only where a comment comes first is the program taken for a command.
-/

namespace ScriptCheck

open TokenFeed

variable {c : Char} {text rest front blanks tail word gap lexeme marks : List Char}
  {n t : Token} {ts : List Token} {es : List Event}

/-! ### Trimmed texts -/

/-- Neither end of the text is white space. -/
structure Trimmed (text : List Char) : Prop where
  head : ∀ c ∈ text.head?, ¬ isWhiteSpace c
  last : ∀ c ∈ text.getLast?, ¬ isWhiteSpace c

theorem dropWhile_isWhiteSpace (h : ∀ c ∈ text.head?, ¬ isWhiteSpace c) :
    text.dropWhile isWhiteSpace = text := by
  cases text with
  | nil => rfl
  | cons c text => exact List.dropWhile_cons_of_neg (h c rfl)

theorem trimmed_trim (text : List Char) : Trimmed (trim text) where
  head := by
    intro c hc
    obtain ⟨more, hsplit⟩ := List.dropWhile_suffix isWhiteSpace
      (l := (text.dropWhile isWhiteSpace).reverse)
    have hprefix : trim text ++ more.reverse = text.dropWhile isWhiteSpace := by
      rw [trim, ← List.reverse_append, hsplit, List.reverse_reverse]
    have hhead : c ∈ (text.dropWhile isWhiteSpace).head? := by
      rw [← hprefix, List.head?_append, Option.mem_def.1 hc]
      rfl
    exact not_of_mem_head?_dropWhile hhead
  last := by
    intro c hc
    rw [trim, List.getLast?_reverse] at hc
    exact not_of_mem_head?_dropWhile hc

theorem Trimmed.trim_append (h : Trimmed rest) (hb : ∀ c ∈ blanks, isWhiteSpace c) :
    trim (blanks ++ rest) = rest := by
  have hlast : ∀ c ∈ rest.reverse.head?, ¬ isWhiteSpace c := by
    rw [List.head?_reverse]
    exact h.last
  rw [trim, List.dropWhile_append_of_pos hb, dropWhile_isWhiteSpace h.head,
    dropWhile_isWhiteSpace hlast, List.reverse_reverse]

/-- What stands at the end of a trimmed text is trimmed if it begins so. -/
theorem Trimmed.of_append (h : Trimmed (front ++ rest)) (hr : ∀ c ∈ rest.head?, ¬ isWhiteSpace c) :
    Trimmed rest where
  head := hr
  last := by
    intro c hc
    apply h.last
    rw [List.getLast?_append, Option.mem_def.1 hc]
    rfl

theorem splitWord_append (hw : ∀ c ∈ word, ¬ isWhiteSpace c) (hb : ∀ c ∈ blanks, isWhiteSpace c)
    (hne : blanks ≠ []) (h : Trimmed rest) :
    splitWord (word ++ (blanks ++ rest)) = (word, rest) := by
  obtain ⟨b, blanks, rfl⟩ := List.exists_cons_of_ne_nil hne
  have hstop : (!isWhiteSpace b) = false := by
    simp [hb b (List.mem_cons_self ..)]
  have hword : ∀ c ∈ word, (!isWhiteSpace c) = true := by
    simpa using hw
  have htake : (b :: blanks ++ rest).takeWhile (!isWhiteSpace ·) = [] := by
    simp [hstop]
  have hdrop : (b :: blanks ++ rest).dropWhile (!isWhiteSpace ·) = b :: blanks ++ rest := by
    simp [hstop]
  rw [splitWord, List.takeWhile_append_of_pos hword, List.dropWhile_append_of_pos hword, htake,
    hdrop, h.trim_append hb, List.append_nil]

/-- The first word of a text ends in front of white space. -/
theorem exists_splitWord (text : List Char) :
    ∃ word tail, text = word ++ tail ∧ (∀ c ∈ tail.head?, isWhiteSpace c) ∧
      splitWord text = (word, trim tail) := by
  refine ⟨_, _, List.takeWhile_append_dropWhile.symm, fun c hc => ?_, rfl⟩
  simpa using not_of_mem_head?_dropWhile hc

/-! ### Folded texts -/

theorem isWhiteSpace_of_foldBreaks (h : ∀ c ∈ foldBreaks text, isBlank c) :
    ∀ c ∈ text, isWhiteSpace c := by
  induction text using countBreaks.induct with
  | case1 => simp
  | case2 rest ih =>
    rw [foldBreaks_crlf] at h
    have hrest := ih fun c hc => h c (List.mem_cons_of_mem _ hc)
    simp only [List.mem_cons]
    rintro c (rfl | rfl | hc)
    · rfl
    · rfl
    · exact hrest c hc
  | case3 c rest hr ih =>
    rw [foldBreaks_cons_of_not_crlf hr, List.forall_mem_cons] at h
    refine List.forall_mem_cons.2 ⟨?_, ih h.2⟩
    have hc := h.1
    split at hc
    · rename_i hb
      rcases (by simpa [isBreak] using hb : c = '\r' ∨ c = '\n') with rfl | rfl <;> rfl
    · rcases isBlank_iff.1 hc with rfl | rfl | rfl <;> rfl

/-- What a folded text begins with the text begins with too, up to the first line break. -/
theorem prefix_of_foldBreaks (hm : '\n' ∉ marks) (h : marks <+: foldBreaks text) :
    marks <+: text := by
  induction marks generalizing text with
  | nil => exact List.nil_prefix
  | cons m marks ih =>
    obtain ⟨hne, hmarks⟩ := List.ne_and_not_mem_of_not_mem_cons hm
    cases text with
    | nil => simp at h
    | cons c text =>
      by_cases hb : isBreak c
      · obtain ⟨more, hfold⟩ := foldBreaks_cons_cases c text
        rw [hfold, if_pos hb] at h
        exact absurd (List.cons_prefix_cons.1 h).1.symm hne
      · have hc : c ≠ '\r' := by
          rintro rfl
          exact hb rfl
        rw [foldBreaks_cons hc, List.cons_prefix_cons] at h
        exact List.cons_prefix_cons.2 ⟨h.1, ih hmarks h.2⟩

/-! ### What stands behind a name -/

/-- A program that begins with a name has an argument, an index or an assignment next. -/
theorem Reaches.kind_behind_name (h : Reaches n program (t :: ts) es [])
    (ht : t.kind = .identifier) :
    ∃ s ∈ [Symbol.leftParen, .leftBracket, .assign], (ts.headD n).kind = .symbol s := by
  have hstatements : Goal.statements.step t = .reduce [] [.statement, .moreStatements] := by
    simp [Goal.step, ht, TokenKind.endsStatements]
  have hstatement : Goal.statement.step t = .look (.symbol .leftParen)
      (Goal.framed .call t .factor) (Goal.framed .assignment t .assignment) := by
    simp [Goal.step, Goal.stepStatement, ht]
  obtain ⟨_, -, h⟩ := h.of_reduce hstatements
  cases h with
  | reduce hg => cases hg.symm.trans hstatement
  | shift hg => cases hg.symm.trans hstatement
  | look hg h =>
    obtain ⟨rfl, rfl, rfl⟩ := Move.look.inj (hg.symm.trans hstatement)
    split at h
    · exact ⟨.leftParen, by simp, ‹_›⟩
    · have hreport : (Goal.report (.enter .assignment t.location)).step t =
          .reduce [.enter .assignment t.location] [] := rfl
      obtain ⟨_, -, h⟩ := h.of_reduce hreport
      obtain ⟨us, _, hus, -, h⟩ := h.of_shift (Goal.step_assignment_of_identifier ht)
      obtain rfl := List.tail_eq_of_cons_eq hus
      by_cases hb : (ts.headD n).kind = .symbol .leftBracket
      · exact ⟨.leftBracket, by simp, hb⟩
      · have htarget : (Goal.target t.text t.location).step (ts.headD n) =
            .reduce [.var t.text t.location] [] := by
          simp only [Goal.step, Goal.stepTarget]
        obtain ⟨_, -, h⟩ := h.of_reduce htarget
        cases h with
        | reduce hg => exact absurd hg Goal.demand_ne_reduce
        | shift hg => exact ⟨.assign, by simp, (Goal.demand_eq_shift hg).1⟩
        | look hg => exact absurd (Goal.eq_of_look hg).1 (by simp)

theorem exists_lex_behind_name {text : String} {source : Source} (h : check text = .ok ())
    (hl : (Source.ofText text).lex = (.ok t, source)) (ht : t.kind = .identifier) :
    ∃ s ∈ [Symbol.leftParen, .leftBracket, .assign], ∃ u source',
      source.lex = (.ok u, source') ∧ u.kind = .symbol s := by
  obtain ⟨ts, es, s, s', hn, hf, hc, hr, -⟩ := exists_path_of_check h
  have hs := Scanner.readFrom_of_next rfl hn
  obtain ⟨rfl, rfl⟩ : s.current = t ∧ s.source = source := by
    have hlex := hs.lex.symm.trans hl
    simpa using hlex
  cases hf with
  | refl =>
    rw [hc] at ht
    cases ht
  | @next _ s₁ _ us hn' hf =>
    obtain ⟨k, hk, hkind⟩ := hr.kind_behind_name ht
    have hs' := Scanner.readFrom_of_next hs.pending hn'
    have hhead : us.headD s'.current = s₁.current := hf.headD
    rw [hhead] at hkind
    exact ⟨k, hk, _, _, hs'.lex, hkind⟩

/-! ### What is read behind a name -/

/-- Two slashes, or a slash and a star. -/
def BeginsComment (text : List Char) : Prop :=
  ['/', '/'] <+: text ∨ ['/', '*'] <+: text

theorem IsGap.exists_blanks (h : IsGap rest gap) :
    ∃ blanks more, gap = blanks ++ more ∧ (∀ c ∈ blanks, isBlank c) ∧
      (more = [] ∨ BeginsComment more) := by
  induction h with
  | nil => exact ⟨[], [], rfl, by simp, .inl rfl⟩
  | @blank c gap hc h ih =>
    obtain ⟨blanks, more, rfl, hb, hm⟩ := ih
    exact ⟨c :: blanks, more, rfl, List.forall_mem_cons.2 ⟨hc, hb⟩, hm⟩
  | lineComment => exact ⟨[], _, rfl, by simp, .inr (.inl ⟨_, rfl⟩)⟩
  | blockComment => exact ⟨[], _, rfl, by simp, .inr (.inr ⟨_, rfl⟩)⟩

theorem Denotes.eq_text {content : TokenKind × Payload} {s : Symbol} (h : Denotes content lexeme)
    (hk : content.1 = .symbol s) (hs : s ≠ .notEqual) : lexeme = s.text.toList := by
  cases h with
  | symbol =>
    obtain rfl := TokenKind.symbol.inj hk
    rfl
  | notEqual => exact absurd (TokenKind.symbol.inj hk).symm hs
  | @plain whole fraction => cases fraction <;> cases hk
  | _ => cases hk

theorem opensProgram_iff :
    Command.opensProgram text ↔ ∃ s ∈ [Symbol.leftParen, .leftBracket, .assign],
      s.text.toList <+: text := by
  constructor
  · intro h
    unfold Command.opensProgram at h
    split at h
    · exact ⟨.assign, by simp, _, rfl⟩
    · exact ⟨.leftBracket, by simp, _, rfl⟩
    · exact ⟨.leftParen, by simp, _, rfl⟩
    · cases h
  · simp only [List.mem_cons, List.not_mem_nil, or_false]
    rintro ⟨s, rfl | rfl | rfl, more, rfl⟩ <;> rfl

theorem BeginsComment.append (h : BeginsComment text) (rest : List Char) :
    BeginsComment (text ++ rest) :=
  h.imp (·.trans (List.prefix_append ..)) (·.trans (List.prefix_append ..))

theorem BeginsComment.of_foldBreaks (h : BeginsComment (foldBreaks text)) : BeginsComment text :=
  h.imp (prefix_of_foldBreaks (by decide)) (prefix_of_foldBreaks (by decide))

/-- A symbol is read behind white space and comments only. -/
theorem Source.exists_opening {s s' : Source} {k : Symbol} (h : s.lex = (.ok t, s'))
    (ht : t.kind = .symbol k) (hk : k ≠ .notEqual) (hs : s.rest = foldBreaks text) :
    ∃ blanks rest, text = blanks ++ rest ∧ (∀ c ∈ blanks, isWhiteSpace c) ∧
      (k.text.toList <+: rest ∨ BeginsComment rest) := by
  have hne : t.kind ≠ .eof := by
    rw [ht]
    nofun
  obtain ⟨gap, lexeme, hrest, hg, hm⟩ := munched_of_lex h hne
  obtain rfl := hm.denotes.eq_text ht hk
  obtain ⟨blanks, more, rfl, hb, hmore⟩ := hg.exists_blanks
  rw [hs, List.append_assoc] at hrest
  obtain ⟨u, v, rfl, rfl, hv⟩ := exists_split_of_foldBreaks hrest
  refine ⟨u, v, rfl, isWhiteSpace_of_foldBreaks hb, ?_⟩
  have hline : '\n' ∉ k.text.toList := by
    cases k <;> decide
  rcases hmore with rfl | hmore
  · left
    apply prefix_of_foldBreaks hline
    rw [hv]
    exact List.prefix_append ..
  · right
    apply BeginsComment.of_foldBreaks
    rw [hv]
    exact hmore.append _

/-- A name that ends in front of `rest` is read there. -/
theorem Lexeme.read_name_append (hw : IsWord word)
    (hk : Keyword.ofText? (String.ofList word) = none) (hr : ∀ c ∈ rest.head?, ¬ isWordChar c) :
    read (word ++ rest) = ⟨.ok (.identifier, .text (String.ofList word)), word, rest⟩ := by
  have hread : read (word ++ rest) = Lexeme.word (word ++ rest) := by
    obtain ⟨c, letters, rfl, hc, -⟩ := hw
    exact read_eq_word hc _
  have hstop : word.dropWhile isWordChar = [] → ∀ c ∈ rest.head?, isWordChar c = false :=
    fun _ c hc => Bool.eq_false_iff.2 (hr c hc)
  obtain ⟨htake, hdrop⟩ := takeWhile_append_of_imp hstop
  rw [hread, Lexeme.word, htake, hdrop, hw.takeWhile, List.dropWhile_eq_nil_iff.2 hw.isWordChar,
    List.nil_append]
  simp only [TokenKind.ofWord, hk]

/-- A name at the beginning of a text is its first token. -/
theorem exists_lex_name {text : String} (htext : text.toList = word ++ tail) (hw : IsWord word)
    (hk : Keyword.ofText? (String.ofList word) = none)
    (ht : ∀ c ∈ tail.head?, ¬ Lexeme.isWordChar c) :
    ∃ t source, (Source.ofText text).lex = (.ok t, source) ∧ t.kind = .identifier ∧
      source.rest = foldBreaks tail := by
  have hcr : '\r' ∉ word := fun hm => absurd (hw.isWordChar _ hm) (by decide)
  have hrest : (Source.ofText text).rest = word ++ foldBreaks tail := by
    rw [Source.ofText, htext, foldBreaks_append_of_not_mem hcr]
  have hstop : ∀ c ∈ (foldBreaks tail).head?, ¬ Lexeme.isWordChar c := by
    rw [head?_foldBreaks]
    rintro c hc
    obtain ⟨d, hd, rfl⟩ := Option.map_eq_some_iff.1 hc
    split
    · decide
    · exact ht d hd
  have hgap : gapPiece? (Source.ofText text).rest = none := by
    rw [hrest]
    obtain ⟨c, letters, rfl, hc, -⟩ := hw
    exact gapPiece?_of_isWordStart hc _
  have hread := Lexeme.read_name_append hw hk hstop
  refine ⟨⟨.identifier, .text (String.ofList word), (Source.ofText text).location⟩,
    (Source.ofText text).advance word (foldBreaks tail), ?_, rfl, rfl⟩
  unfold Source.lex Source.readToken
  rw [Source.skipGap_of_none hgap]
  simp only [hrest, hread]

/-- In an accepted program that begins with a name, and white space or nothing behind it, something
that makes a line a program comes next, or a comment. -/
theorem exists_opening_of_check {text : String} (h : check text = .ok ())
    (htext : text.toList = word ++ tail) (hw : IsWord word)
    (hk : Keyword.ofText? (String.ofList word) = none)
    (ht : ∀ c ∈ tail.head?, ¬ Lexeme.isWordChar c) :
    ∃ blanks rest, tail = blanks ++ rest ∧ (∀ c ∈ blanks, isWhiteSpace c) ∧
      (Command.opensProgram rest ∨ BeginsComment rest) := by
  obtain ⟨t, source, hl, hkind, hrest⟩ := exists_lex_name htext hw hk ht
  obtain ⟨s, hs, u, source', hl', hkind'⟩ := exists_lex_behind_name h hl hkind
  have hne : s ≠ .notEqual := by
    rintro rfl
    simp at hs
  obtain ⟨blanks, rest, hsplit, hb, hopen⟩ := Source.exists_opening hl' hkind' hne hrest
  refine ⟨blanks, rest, hsplit, hb, hopen.imp_left fun hprefix => ?_⟩
  exact opensProgram_iff.2 ⟨s, hs, hprefix⟩

/-! ### Command words -/

namespace Command

/-- The words that want something behind them, or at least may have it. -/
def askingWords : List String :=
  ["run", "list", "edit", "tokens"]

/-- The words that want nothing behind them. -/
def loneWords : List String :=
  ["quit", "dir", "help"]

theorem ofWord?_cases {word rest : String} {command : Command}
    (h : ofWord? word rest = some command) :
    rest = "" ∧ word ∈ loneWords ∨ word ∈ askingWords := by
  unfold ofWord? at h
  split at h <;> simp_all [loneWords, askingWords]

theorem ofWord?_ne_code {word rest text : String} : ofWord? word rest ≠ some (.code text) := by
  unfold ofWord?
  split <;> simp

theorem exists_ofWord? {word rest : String} (hw : word ∈ askingWords) (hr : rest ≠ "") :
    ∃ command, ofWord? word rest = some command := by
  simp only [askingWords, List.mem_cons, List.not_mem_nil, or_false] at hw
  rcases hw with rfl | rfl | rfl | rfl <;> simp [ofWord?, hr]

/-- A program may use any command word as a name. -/
theorem isWord_of_mem {word : String} (h : word ∈ loneWords ++ askingWords) :
    IsWord word.toList ∧ Keyword.ofText? word = none := by
  simp only [loneWords, askingWords, List.cons_append, List.nil_append, List.mem_cons,
    List.not_mem_nil, or_false] at h
  rcases h with rfl | rfl | rfl | rfl | rfl | rfl | rfl <;>
    exact ⟨⟨_, _, rfl, rfl, List.all_eq_true.1 rfl⟩, rfl⟩

theorem parse_eq {line code : String} {word rest : List Char} (hc : code.toList = trim line.toList)
    (hne : code ≠ "") (hs : splitWord code.toList = (word, rest)) :
    parse line = if opensProgram rest then .code code
      else (ofWord? (String.ofList word) (String.ofList rest)).getD (.code code) := by
  have hcode : String.ofList (trim line.toList) = code := by
    rw [← hc, String.ofList_toList]
  have htext : trim line.toList ≠ [] := by
    rw [← hc]
    simpa using hne
  rw [hc] at hs
  unfold parse
  simp only [hs, hcode, if_neg htext]

end Command

/-! ### Lines of the shell -/

/-- The text begins with a command word that wants something, and white space and a comment stand
behind it. -/
structure CommentBehind (text : List Char) (word : String) (rest : List Char) : Prop where
  asking : word ∈ Command.askingWords
  split : ∃ blanks, blanks ≠ [] ∧ (∀ c ∈ blanks, isWhiteSpace c) ∧
    text = word.toList ++ (blanks ++ rest)
  comment : BeginsComment rest

theorem not_isWordChar_of_isWhiteSpace (h : isWhiteSpace c) : ¬ Lexeme.isWordChar c := by
  intro hw
  rw [Lexeme.isWordChar, Bool.or_eq_true, decide_eq_true_eq] at hw
  rcases hw with hw | rfl
  · rw [Char.isAlphanum, Bool.or_eq_true, isAlpha_iff, isDigit_iff] at hw
    simp only [isWhiteSpace, Bool.or_eq_true, Bool.and_eq_true, decide_eq_true_eq] at h
    omega
  · exact absurd h (by decide)

theorem exists_cons_of_opening (h : Command.opensProgram text ∨ BeginsComment text) :
    ∃ c more, text = c :: more ∧ ¬ isWhiteSpace c := by
  rcases h with h | ⟨more, rfl⟩ | ⟨more, rfl⟩
  · obtain ⟨s, hs, more, rfl⟩ := opensProgram_iff.1 h
    simp only [List.mem_cons, List.not_mem_nil, or_false] at hs
    rcases hs with rfl | rfl | rfl <;> exact ⟨_, _, rfl, by decide⟩
  · exact ⟨_, _, rfl, by decide⟩
  · exact ⟨_, _, rfl, by decide⟩

theorem CommentBehind.splitWord_eq {word : String} (h : CommentBehind text word rest)
    (ht : Trimmed text) : splitWord text = (word.toList, rest) := by
  obtain ⟨hw, ⟨blanks, hne, hb, rfl⟩, hcomment⟩ := h
  have hword := (Command.isWord_of_mem (List.mem_append_right _ hw)).1.isWordChar
  have hsolid : ∀ c ∈ word.toList, ¬ isWhiteSpace c := fun c hc hs =>
    not_isWordChar_of_isWhiteSpace hs (hword c hc)
  obtain ⟨c, more, rfl, hc⟩ := exists_cons_of_opening (.inr hcomment)
  rw [← List.append_assoc] at ht
  exact splitWord_append hsolid hb hne (ht.of_append (by simpa using hc))

/-- A line with a comment behind a command word is a command, whatever the comment says. -/
theorem CommentBehind.parse_eq {line code word : String} (h : CommentBehind code.toList word rest)
    (hc : code.toList = trim line.toList) :
    some (Command.parse line) = Command.ofWord? word (String.ofList rest) := by
  have hsplit := h.splitWord_eq (hc ▸ trimmed_trim line.toList)
  have hrest : Command.opensProgram rest = false ∧ String.ofList rest ≠ "" := by
    rcases h.comment with ⟨more, rfl⟩ | ⟨more, rfl⟩ <;> simp [Command.opensProgram]
  have hne : code ≠ "" := by
    rintro rfl
    obtain ⟨blanks, hblanks, -, hnil⟩ := h.split
    simp [hblanks] at hnil
  obtain ⟨command, hcommand⟩ := Command.exists_ofWord? h.asking hrest.2
  rw [Command.parse_eq hc hne hsplit, hrest.1, String.ofList_toList, hcommand]
  rfl

/-- A program that begins with a command word and that the shell takes for a command has a comment
behind that word. -/
theorem exists_commentBehind {line code : String} (hc : code.toList = trim line.toList)
    (hne : code ≠ "") (h : check code = .ok ()) (hp : Command.parse line ≠ .code code) :
    ∃ word rest, CommentBehind code.toList word rest := by
  obtain ⟨word, tail, htext, htail, hsplit⟩ := exists_splitWord code.toList
  rw [Command.parse_eq hc hne hsplit] at hp
  split at hp
  · exact absurd rfl hp
  rename_i hopens
  cases hword : Command.ofWord? (String.ofList word) (String.ofList (trim tail)) with
  | none => simp [hword] at hp
  | some command =>
    have hmem : String.ofList word ∈ Command.loneWords ++ Command.askingWords := by
      rw [List.mem_append]
      exact (Command.ofWord?_cases hword).imp_left And.right
    obtain ⟨hw, hk⟩ := Command.isWord_of_mem hmem
    rw [String.toList_ofList] at hw
    have hstop : ∀ c ∈ tail.head?, ¬ Lexeme.isWordChar c := fun c hc =>
      not_isWordChar_of_isWhiteSpace (htail c hc)
    obtain ⟨blanks, rest, rfl, hb, hopening⟩ := exists_opening_of_check h htext hw hk hstop
    obtain ⟨c, more, rfl, hsolid⟩ := exists_cons_of_opening hopening
    have htrimmed : Trimmed (word ++ blanks ++ c :: more) := by
      rw [List.append_assoc, ← htext, hc]
      exact trimmed_trim _
    have hrest : trim (blanks ++ c :: more) = c :: more :=
      (htrimmed.of_append (by simpa using hsolid)).trim_append hb
    rw [hrest] at hopens hword
    have hblanks : blanks ≠ [] := by
      rintro rfl
      exact hsolid (htail c rfl)
    refine ⟨String.ofList word, c :: more, ?_, ⟨blanks, hblanks, hb, ?_⟩,
      hopening.resolve_left hopens⟩
    · exact (Command.ofWord?_cases hword).resolve_left fun hlone => by simp at hlone
    · rw [String.toList_ofList, htext]

/-- A text is accepted if its tokens assign one name to another. -/
theorem check_of_tokens_assign {text name value : String} {l₁ l₂ l₃ l₄ : Location}
    (h : tokenize text = .ok ([⟨.identifier, .text name, l₁⟩, ⟨.symbol .assign, .none, l₂⟩,
      ⟨.identifier, .text value, l₃⟩] ++ [.eof l₄])) : check text = .ok () := by
  have hr : ∃ es, Reaches (.eof l₄) program [⟨.identifier, .text name, l₁⟩,
      ⟨.symbol .assign, .none, l₂⟩, ⟨.identifier, .text value, l₃⟩] es [] :=
    ⟨_, .silent rfl <| .look rfl <| .reported rfl <| .taken rfl <| .reported rfl <| .taken rfl <|
      .silent rfl <| .silent rfl <| .silent rfl <| .silent rfl <| .silent rfl <| .taken rfl <|
      .reported rfl <| .silent rfl <| .silent rfl <| .silent rfl <| .silent rfl <| .reported rfl <|
      .silent rfl <| .silent rfl <| .refl _⟩
  obtain ⟨es, hr⟩ := hr
  exact (check_of_reaches hr h rfl rfl).1

/-- An accepted program on a line is a program for the shell as well, unless it has a comment behind
a command word that wants something; there that command gets the comment and all that follows. -/
theorem program_on_line_iff {line code : String} (hc : code.toList = trim line.toList)
    (hne : code ≠ "") (h : check code = .ok ()) :
    (Command.parse line = .code code ↔ ∀ word rest, ¬ CommentBehind code.toList word rest) ∧
      ∀ word rest, CommentBehind code.toList word rest →
        some (Command.parse line) = Command.ofWord? word (String.ofList rest) := by
  refine ⟨⟨?_, ?_⟩, fun word rest hb => hb.parse_eq hc⟩
  · intro hp word rest hb
    have hw := hb.parse_eq hc
    rw [hp] at hw
    exact Command.ofWord?_ne_code hw.symm
  · intro hb
    by_contra hp
    obtain ⟨word, rest, hcomment⟩ := exists_commentBehind hc hne h hp
    exact hb word rest hcomment

theorem program_on_line_iff_tokens :
    "tokens = x".toList = trim " tokens = x ".toList ∧ "tokens = x" ≠ "" ∧
      check "tokens = x" = .ok () ∧ Command.parse " tokens = x " = .code "tokens = x" ∧
      ∀ word rest, ¬ CommentBehind "tokens = x".toList word rest := by
  have hc : "tokens = x".toList = trim " tokens = x ".toList := by decide
  have hne : "tokens = x" ≠ "" := by decide
  have htokens : tokenize "tokens = x" = .ok ([⟨.identifier, .text "tokens", ⟨1, 1⟩⟩,
      ⟨.symbol .assign, .none, ⟨1, 8⟩⟩, ⟨.identifier, .text "x", ⟨1, 10⟩⟩] ++ [.eof ⟨1, 11⟩]) :=
    tokenize_of_firstTokens (by with_unfolding_all rfl) (by simp [Endless]) rfl
  have hcheck := check_of_tokens_assign htokens
  have hparse : Command.parse " tokens = x " = .code "tokens = x" := rfl
  exact ⟨hc, hne, hcheck, hparse, (program_on_line_iff hc hne hcheck).1.1 hparse⟩

/-- Without its comment the same program is no command. -/
theorem comment_behind_run :
    check "run /* c */ = x" = .ok () ∧
      trim "run /* c */ = x".toList = "run /* c */ = x".toList ∧
      Command.parse "run /* c */ = x" = .run "/* c */ = x" ∧
      Command.parse "run = x" = .code "run = x" := by
  have htokens : tokenize "run /* c */ = x" = .ok ([⟨.identifier, .text "run", ⟨1, 1⟩⟩,
      ⟨.symbol .assign, .none, ⟨1, 13⟩⟩, ⟨.identifier, .text "x", ⟨1, 15⟩⟩] ++ [.eof ⟨1, 16⟩]) :=
    tokenize_of_firstTokens (by with_unfolding_all rfl) (by simp [Endless]) rfl
  exact ⟨check_of_tokens_assign htokens, by decide, rfl, rfl⟩

end ScriptCheck
