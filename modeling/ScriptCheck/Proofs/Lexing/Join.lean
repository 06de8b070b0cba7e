import ScriptCheck.Proofs.Lexing.Extend
import ScriptCheck.Proofs.Lexing.Offset
import ScriptCheck.Proofs.Recognizer.Relocate

/-!
# The tokens of two texts with a line break between them

A text whose tokens can all be read keeps them when a line break and another text are put behind it.
The tokens of the other text follow, moved down by as many lines as there are in front of it, and so
is its error if it cannot be read. Where the first text ends with a lone CR, that and the line feed
are one break.
-/

namespace ScriptCheck

open Location

/-! ### Places further down -/

/-- The place `k` lines further down. -/
def Location.down (k : Nat) (l : Location) : Location :=
  ⟨l.line + k, l.column⟩

namespace Location

variable {k : Nat}

theorem down_next (l : Location) (c : Char) : (l.next c).down k = (l.down k).next c := by
  unfold next
  split
  · simp [down, Nat.add_right_comm]
  · rfl

theorem down_after (l : Location) (text : List Char) :
    (l.after text).down k = (l.down k).after text := by
  induction text generalizing l with
  | nil => rfl
  | cons c text ih => rw [after_cons, after_cons, ih, down_next]

end Location

theorem Fault.down_place {k : Nat} (f : Fault) (l l' : Location) (rest : List Char) :
    (f.place l l' rest).down k = f.place (l.down k) (l'.down k) rest := by
  unfold place
  split
  · split
    · rfl
    · simp [down, Nat.add_right_comm]
    · rfl
  · rfl

/-- The error at another place. -/
def LexError.relocate (f : Location → Location) (e : LexError) : LexError :=
  { e with location := f e.location }

namespace Source

variable {s s' : Source} {t n : Token} {ts : List Token} {e : LexError} {more : List Char} {k : Nat}

/-- The source `k` lines further down. -/
def down (k : Nat) (s : Source) : Source :=
  { s with location := s.location.down k }

theorem skipGap_down (k : Nat) (s : Source) : (s.down k).skipGap = s.skipGap.down k := by
  simp only [skipGap, advance, down, down_after]

theorem readToken_down (k : Nat) (s : Source) :
    (s.down k).readToken =
      ((s.readToken.1.map (Token.relocate (Location.down k))).mapError
        (LexError.relocate (Location.down k)), s.readToken.2.down k) := by
  unfold readToken
  dsimp only [down]
  split
  · rename_i kind payload hc
    simp [advance, down_after, Except.map, Except.mapError, Token.relocate]
  · rename_i fault hc
    simp [advance, down_after, Except.map, Except.mapError, LexError.relocate, Fault.down_place]

theorem lex_down (k : Nat) (s : Source) :
    (s.down k).lex =
      ((s.lex.1.map (Token.relocate (Location.down k))).mapError
        (LexError.relocate (Location.down k)), s.lex.2.down k) := by
  rw [lex, skipGap_down, readToken_down]
  rfl

theorem Lexes.down (h : s.Lexes ts s') (k : Nat) :
    (s.down k).Lexes (ts.map (Token.relocate (Location.down k))) (s'.down k) := by
  induction h with
  | nil => exact .nil _
  | cons hl _ ih =>
    refine .cons ?_ ih
    rw [lex_down, hl]
    rfl

/-- Further down the same tokens are read, and the same error is met. -/
theorem tokens_down (k : Nat) (s : Source) :
    (s.down k).tokens =
      (s.tokens.map (List.map (Token.relocate (Location.down k)))).mapError
        (LexError.relocate (Location.down k)) := by
  obtain ⟨ts, s', s'', hs, hts, ⟨t, ht, hk, htok⟩ | ⟨e, he, htok⟩⟩ := s.exists_lexes
  · have ht' : (s'.down k).lex = (.ok (t.relocate (Location.down k)), s''.down k) := by
      rw [lex_down, ht]
      rfl
    have hend : Endless (ts.map (Token.relocate (Location.down k))) := by
      intro u hu
      obtain ⟨v, hv, rfl⟩ := List.mem_map.1 hu
      exact hts v hv
    rw [(hs.down k).tokens_eq hend, tokens_of_lex_eof ht' hk, htok]
    simp [Except.map, Except.mapError]
  · have he' : (s'.down k).lex = (.error (e.relocate (Location.down k)), s''.down k) := by
      rw [lex_down, he]
      rfl
    rw [(hs.down k).tokens_eq_error he', htok]
    rfl

/-! ### More text behind -/

/-- The source with more text behind it. -/
def extend (s : Source) (more : List Char) : Source :=
  { s with rest := s.rest ++ more }

theorem readToken_extend (h : s.readToken = (.ok t, s'))
    (hr : Lexeme.read (s.rest ++ more) = (Lexeme.read s.rest).extend more) :
    (s.extend more).readToken = (.ok t, s'.extend more) := by
  unfold readToken at h ⊢
  dsimp only [extend] at h ⊢
  rw [hr]
  dsimp only [Lexeme.extend]
  split at h
  · rename_i kind payload hc
    obtain ⟨rfl, rfl⟩ := by simpa using h
    rfl
  · cases h

/-- A token does not go on behind a line break. -/
theorem stops_of_lex (h : s.lex = (.ok t, s')) (ht : t.kind ≠ .eof) (hl : EndsLine s.rest more) :
    Stops s'.rest more := by
  have hc := (lex_eq_ok h).2.2
  have hd := Lexeme.read_divides s.skipGap.rest
  have hrest : s'.rest = (Lexeme.read s.skipGap.rest).rest := by
    rw [← readToken_rest]
    exact (congrArg (·.2.rest) h).symm
  intro hn
  rw [hrest] at hn
  have ha := hd.append
  rw [hn, List.append_nil] at ha
  have hne := hd.ne_nil _ _ hc ht
  have hs : s.rest = (splitGap s.rest).1 ++ (Lexeme.read s.skipGap.rest).taken := by
    rw [ha]
    exact (splitGap_append s.rest).symm
  have hm : more.head? = some '\n' := by
    rw [hs] at hl
    exact (hl.of_append hne).resolve_left (Lexeme.getLast?_read_ne hc)
  intro c hm'
  obtain rfl : '\n' = c := by simpa [hm] using hm'
  rfl

/-- A token is taken off a longer text as off a shorter one. -/
theorem lex_extend (h : s.lex = (.ok t, s')) (ht : t.kind ≠ .eof) (hl : EndsLine s.rest more) :
    (s.extend more).lex = (.ok t, s'.extend more) ∧ EndsLine s'.rest more := by
  have hc := (lex_eq_ok h).2.2
  have hrest : s'.rest = (Lexeme.read s.skipGap.rest).rest := by
    rw [← readToken_rest]
    exact (congrArg (·.2.rest) h).symm
  have hne : (splitGap s.rest).2 ≠ [] := by
    intro hn
    have hn : s.skipGap.rest = [] := hn
    rw [hn] at hc
    obtain ⟨hk, -⟩ : .eof = t.kind ∧ _ := by simpa [Lexeme.read] using hc
    exact ht hk.symm
  have hs := stops_of_lex h ht hl
  rw [hrest] at hs
  obtain ⟨hg, hr⟩ := read_append_of_stops (gapPiece?_splitGap s.rest) hc ht hs
  have hskip : (s.extend more).skipGap = s.skipGap.extend more := by
    simp only [skipGap, advance, extend, splitGap_append_of_ne_nil hne hg]
  constructor
  · rw [lex, hskip]
    exact readToken_extend h hr
  · have hd := (Lexeme.read_divides s.skipGap.rest).append
    rw [← splitGap_append s.rest] at hl
    have hl : EndsLine s.skipGap.rest more := hl.of_append
    rw [← hd] at hl
    rw [hrest]
    exact hl.of_append

theorem Lexes.extend (h : s.Lexes ts s') (ht : Endless ts) (hl : EndsLine s.rest more) :
    (s.extend more).Lexes ts (s'.extend more) ∧ EndsLine s'.rest more := by
  induction h with
  | nil => exact ⟨.nil _, hl⟩
  | cons hlex _ ih =>
    obtain ⟨hk, ht⟩ := endless_cons.1 ht
    obtain ⟨hlex', hl⟩ := lex_extend hlex hk hl
    obtain ⟨h, hl⟩ := ih ht hl
    exact ⟨.cons hlex' h, hl⟩

/-- Where the shorter text ends the longer one goes on with what was added. -/
theorem lex_extend_eof (h : s.lex = (.ok t, s')) (ht : t.kind = .eof) (hl : EndsLine s.rest more) :
    (s.extend more).lex = lex ⟨more, s.location.after s.rest⟩ := by
  have hc := (lex_eq_ok h).2.2
  have hn : (splitGap s.rest).2 = [] := Lexeme.eq_nil_of_read_eof (ht ▸ hc)
  have hskip : (s.extend more).skipGap = skipGap ⟨more, s.location.after s.rest⟩ := by
    simp only [skipGap, advance, extend, splitGap_append_of_nil hn hl, after_append]
  rw [lex, lex, hskip]

theorem tokens_congr (h : s.lex = s'.lex) : s.tokens = s'.tokens := by
  match hs : s'.lex with
  | (.error e, s₁) => rw [tokens_of_lex_error (h.trans hs), tokens_of_lex_error hs]
  | (.ok t, s₁) =>
    by_cases ht : t.kind = .eof
    · rw [tokens_of_lex_eof (h.trans hs) ht, tokens_of_lex_eof hs ht]
    · rw [tokens_of_lex (h.trans hs) ht, tokens_of_lex hs ht]

theorem tokens_extend (h : s.tokens = .ok (ts ++ [n])) (hl : EndsLine s.rest more) :
    (s.extend more).tokens = (tokens ⟨more, s.location.after s.rest⟩).map (ts ++ ·) := by
  obtain ⟨us, t, s₁, s₂, hts, hs, hu, ht, hk⟩ := exists_lexes_of_tokens h
  obtain ⟨rfl, -⟩ := List.append_inj' hts rfl
  obtain ⟨hs', hl'⟩ := hs.extend hu hl
  obtain ⟨a, ha⟩ := hs.exists_behind
  have hloc : s₁.location.after s₁.rest = s.location.after s.rest := by
    rw [ha.rest, ha.location, after_append]
  rw [hs'.tokens_eq hu, tokens_congr (lex_extend_eof ht hk hl'), hloc]

end Source

/-! ### Texts -/

section

variable {a b : String} {ts : List Token} {n : Token}

theorem Location.behind_concat (front : List Char) :
    behind (front ++ ['\n']) = start.down (countBreaks (front ++ ['\n'])) := by
  have hlast : lastLine (front ++ ['\n']) = [] := by
    rw [lastLine, List.rtakeWhile_concat_neg _ _ _ (by simp [isBreak])]
  simp [behind, hlast, down, start]

/-- A line break behind a text does not change its tokens, except for the place of its end. -/
theorem exists_tokens_concat (h : tokenize a = .ok (ts ++ [n])) :
    ∃ n', Source.tokens ⟨foldBreaks (a.toList ++ ['\n']), .start⟩ = .ok (ts ++ [n']) := by
  rcases foldBreaks_concat a.toList with hf | hf
  · have hl : EndsLine (Source.ofText a).rest ['\n'] := fun _ => .inr rfl
    have hblank : ∀ l, ∃ n', Source.tokens ⟨['\n'], l⟩ = .ok [n'] := by
      intro l
      have hlex := Source.lex_of_only_blanks (s := ⟨['\n'], l⟩) (by simp [isBlank])
      exact ⟨_, Source.tokens_of_lex_eof hlex rfl⟩
    obtain ⟨n', hn⟩ := hblank ((Source.ofText a).location.after (Source.ofText a).rest)
    have ht := Source.tokens_extend h hl
    rw [hn] at ht
    rw [hf]
    exact ⟨n', ht⟩
  · rw [hf]
    exact ⟨n, h⟩

/-- The tokens of a text, and behind a line break those of another one. -/
theorem tokenize_join (h : tokenize a = .ok (ts ++ [n])) (b : String) :
    tokenize (a ++ "\n" ++ b) =
      ((tokenize b).map fun us =>
        ts ++ us.map (Token.relocate (down (countBreaks (a ++ "\n").toList)))).mapError
          (LexError.relocate (down (countBreaks (a ++ "\n").toList))) := by
  have hlist : (a ++ "\n").toList = a.toList ++ ['\n'] := by simp
  have hfold : foldBreaks (a ++ "\n" ++ b).toList =
      foldBreaks (a.toList ++ ['\n']) ++ foldBreaks b.toList := by
    rw [String.toList_append, hlist]
    exact foldBreaks_append_of_imp fun hl => by simp at hl
  obtain ⟨n', hn⟩ := exists_tokens_concat h
  have hl : EndsLine (foldBreaks (a.toList ++ ['\n'])) (foldBreaks b.toList) :=
    fun _ => .inl (getLast?_foldBreaks_concat _)
  have ht := Source.tokens_extend hn hl
  have hloc : start.after (foldBreaks (a.toList ++ ['\n'])) =
      start.down (countBreaks (a ++ "\n").toList) := by
    rw [start_after_foldBreaks, behind_concat, hlist]
  rw [hloc] at ht
  have hdown : Source.tokens ⟨foldBreaks b.toList, start.down (countBreaks (a ++ "\n").toList)⟩ =
      _ := Source.tokens_down _ (Source.ofText b)
  rw [hdown] at ht
  rw [tokenize, Source.ofText, hfold]
  refine ht.trans ?_
  change _ = ((Source.ofText b).tokens.map _).mapError _
  cases (Source.ofText b).tokens <;> rfl

/-- Below a text that can be read another text is read as it would be alone, with every place moved
down by the line breaks in front of it. The tokens of both stand one behind the other, or the error
in the lower text is the error of the whole. -/
theorem tokenize_below (h : tokenize a = .ok ts) (b : String) :
    ∃ us n, ts = us ++ [n] ∧ n.kind = .eof ∧ Endless us ∧
      (∀ vs, tokenize b = .ok vs →
        tokenize (a ++ "\n" ++ b) = .ok (us ++ vs.map fun t =>
          ⟨t.kind, t.payload,
            ⟨t.location.line + countBreaks (a ++ "\n").toList, t.location.column⟩⟩)) ∧
      ∀ e, tokenize b = .error e →
        tokenize (a ++ "\n" ++ b) = .error
          ⟨e.fault, ⟨e.location.line + countBreaks (a ++ "\n").toList, e.location.column⟩⟩ := by
  obtain ⟨us, n, s, s', rfl, -, hu, -, hn⟩ := Source.exists_lexes_of_tokens h
  have hjoin := tokenize_join h b
  refine ⟨us, n, rfl, hn, hu, fun vs hv => ?_, fun e he => ?_⟩
  · rw [hjoin, hv]
    rfl
  · rw [hjoin, he]
    rfl

/-- The CR at the end of the upper text and the line feed below it are one break. -/
theorem tokenize_below_return :
    tokenize "x // y\r" = .ok ([⟨.identifier, .text "x", ⟨1, 1⟩⟩] ++ [.eof ⟨2, 1⟩]) ∧
      tokenize ("x // y\r" ++ "\n" ++ "\r: z") =
        .ok [⟨.identifier, .text "x", ⟨1, 1⟩⟩, ⟨.symbol .colon, .none, ⟨3, 1⟩⟩,
          ⟨.identifier, .text "z", ⟨3, 3⟩⟩, .eof ⟨3, 4⟩] ∧
      tokenize ("x // y\r" ++ "\n" ++ "z '") = .error ⟨.unterminatedString, ⟨2, 3⟩⟩ := by
  have hupper : tokenize "x // y\r" =
      .ok ([⟨.identifier, .text "x", ⟨1, 1⟩⟩] ++ [.eof ⟨2, 1⟩]) :=
    tokenize_of_firstTokens (by with_unfolding_all rfl) (by simp [Endless]) rfl
  have hlower : tokenize "\r: z" =
      .ok ([⟨.symbol .colon, .none, ⟨2, 1⟩⟩, ⟨.identifier, .text "z", ⟨2, 3⟩⟩] ++ [.eof ⟨2, 4⟩]) :=
    tokenize_of_firstTokens (by with_unfolding_all rfl) (by simp [Endless]) rfl
  have hfault : tokenize "z '" = .error ⟨.unterminatedString, ⟨1, 3⟩⟩ := by
    have hz : (Source.ofText "z '").lex =
        (.ok ⟨.identifier, .text "z", ⟨1, 1⟩⟩, ⟨[' ', '\''], ⟨1, 2⟩⟩) := by
      with_unfolding_all rfl
    have he : Source.lex ⟨[' ', '\''], ⟨1, 2⟩⟩ =
        (.error ⟨.unterminatedString, ⟨1, 3⟩⟩, ⟨[], ⟨1, 4⟩⟩) := by
      with_unfolding_all rfl
    exact (Source.Lexes.one hz).tokens_eq_error he
  have hbreaks : countBreaks ("x // y\r" ++ "\n").toList = 1 := by with_unfolding_all rfl
  obtain ⟨us, n, hus, -, -, hok, -⟩ := tokenize_below hupper "\r: z"
  obtain ⟨rfl, -⟩ := List.append_inj' hus rfl
  obtain ⟨-, -, -, -, -, -, herror⟩ := tokenize_below hupper "z '"
  have hok := hok _ hlower
  have herror := herror _ hfault
  rw [hbreaks] at hok herror
  exact ⟨hupper, hok, herror⟩

end

end ScriptCheck
