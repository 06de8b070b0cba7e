import ScriptCheck.Proofs.Expression.Read
import ScriptCheck.Proofs.Lexing.Join
import ScriptCheck.Proofs.Recognizer.Continue
import ScriptCheck.Proofs.Recognizer.ViablePrefix

/-!
# Programs made of programs

A program may be the body of any block, and it may go on with another program behind a semicolon.
The tokens of its text stay as they are when the text becomes a part of a longer one with line
breaks around it, and it is read there in front of a token that ends an expression as it is read in
front of its end. So the same is reported for it as when it stands alone, as many lines further down
as there are in front of it.
-/

namespace ScriptCheck

open Location

variable {a b header footer : String} {m n t : Token} {ts hs : List Token}
  {es es' front back : List Event} {goals goals' : List Goal} {w : List TokenKind}

/-! ### Lines -/

/-- How many line breaks a text has. -/
def breaks (text : String) : Nat :=
  countBreaks text.toList

theorem breaks_join (a b : String) : breaks (a ++ "\n" ++ b) = breaks (a ++ "\n") + breaks b := by
  have hcr : (a ++ "\n").toList.getLast? = some '\r' → b.toList.head? ≠ some '\n' := by
    intro h
    simp at h
  rw [breaks, String.toList_append, countBreaks_append hcr]
  rfl

/-- The events as many lines further down. -/
def moved (k : Nat) (es : List Event) : List Event :=
  es.map (Event.relocate (down k))

@[simp] theorem moved_nil (k : Nat) : moved k [] = [] := rfl

@[simp] theorem moved_append (k : Nat) (es es' : List Event) :
    moved k (es ++ es') = moved k es ++ moved k es' :=
  List.map_append

theorem moved_moved (j k : Nat) (es : List Event) : moved k (moved j es) = moved (j + k) es := by
  have hd (l : Location) : (l.down j).down k = l.down (j + k) := by
    simp [down, Nat.add_assoc]
  have he (e : Event) : (e.relocate (down j)).relocate (down k) = e.relocate (down (j + k)) := by
    cases e <;> simp [Event.relocate, hd]
  simp [moved, he]

/-! ### Texts that goals read -/

/-- The text is accepted, and this is reported for it. -/
def Accepts (text : String) (es : List Event) : Prop :=
  check text = .ok () ∧ (recognize text).events = es

/-- The goals read all tokens of the text and report this. -/
def ReadBy (goals : List Goal) (text : String) (es : List Event) : Prop :=
  ∃ ts n, tokenize text = .ok (ts ++ [n]) ∧ n.kind = .eof ∧ Reaches n goals ts es []

theorem readBy_of_check (h : check a = .ok ()) : ReadBy program a (recognize a).events := by
  obtain ⟨ts, n, ht, hn, hr, -⟩ := exists_reaches_of_check h
  exact ⟨ts, n, ht, hn, hr⟩

theorem ReadBy.accepts (h : ReadBy program a es) : Accepts a es := by
  obtain ⟨ts, n, ht, hn, hr⟩ := h
  have hg := hr.generates (w := []) wellFormed_program hn.symm (generates_nil.2 rfl)
  rw [List.append_nil] at hg
  obtain ⟨es', hr', hc, he⟩ := exists_reaches_of_tokenize ht hn hg
  exact ⟨hc, he.trans (hr'.events_unique hr)⟩

/-- A text and, on the next line, another one are read one after the other, if the goals that are
left in front of the other one do not know of a place. -/
theorem ReadBy.join (hb : ReadBy goals' b es') (hs : WellFormed goals')
    (hp : ∀ f, goals'.map (Goal.relocate f) = goals') (ha : tokenize a = .ok (ts ++ [n]))
    (hr : ∀ m w, Generates goals' w → w.headD .eof = m.kind → Reaches m goals ts es goals') :
    ReadBy goals (a ++ "\n" ++ b) (es ++ moved (breaks (a ++ "\n")) es') := by
  obtain ⟨us, l, hu, hl, hr'⟩ := hb
  have hg := hr'.generates (w := []) hs hl.symm (generates_nil.2 rfl)
  have hm : (us.map Token.kind ++ []).headD .eof = (us.headD l).kind := by
    cases us <;> simp [hl]
  have hr' := hr'.relocate (down (breaks (a ++ "\n")))
  rw [hp] at hr'
  refine ⟨ts ++ us.map (Token.relocate (down (breaks (a ++ "\n")))),
    l.relocate (down (breaks (a ++ "\n"))), ?_, hl, ?_⟩
  · rw [tokenize_join ha, hu]
    simp [Except.map, Except.mapError, breaks]
  · have hr := hr ((us.headD l).relocate (down (breaks (a ++ "\n")))) _ hg hm
    exact hr.trans hr' (Token.relocate_headD us l)

/-! ### Blocks -/

/-- The goals read the tokens of the line, whatever comes behind it, and give way to others. -/
def Opens (goals : List Goal) (line : String) (es : List Event) (goals' : List Goal) : Prop :=
  ∃ ts n, tokenize line = .ok (ts ++ [n]) ∧ ∀ m, Reaches m goals ts es goals'

theorem Opens.join (ho : Opens goals a es goals') (hg : WellFormed goals)
    (hp : ∀ f, goals'.map (Goal.relocate f) = goals') (hb : ReadBy goals' b es') :
    ReadBy goals (a ++ "\n" ++ b) (es ++ moved (breaks (a ++ "\n")) es') := by
  obtain ⟨ts, n, ht, hr⟩ := ho
  have hs : WellFormed goals' := (hr n).wellFormed hg
  exact hb.join hs hp ht fun m _ _ _ => hr m

/-- A program is the body of a block whose footer may follow on a list of statements. -/
theorem ReadBy.body (hf : ReadBy goals footer back) (hs : WellFormed (.statements :: goals))
    (hp : ∀ f, goals.map (Goal.relocate f) = goals) (ha : check a = .ok ()) :
    ReadBy (.statements :: goals) (a ++ "\n" ++ footer)
      ((recognize a).events ++ moved (breaks (a ++ "\n")) back) := by
  obtain ⟨ts, n, ht, hn, hr, -⟩ := exists_reaches_of_check ha
  have hg : AfterStatements goals := hs.1
  refine hf.join hs.2 hp ht fun m w hw hm => ?_
  have hne : goals ≠ [] := by
    rintro rfl
    cases hg
  have hend : m.kind.endsExpression := by
    rw [← hm]
    exact TokenKind.endsExpression_of_endsStatements (hg.endsStatements hw)
  exact hr.of_program.within hn hs hne hw hm hend

/-- A block is its header, its body and its footer, each on lines of its own. -/
theorem ReadBy.block (hf : ReadBy goals' footer back)
    (ho : Opens goals header front (.statements :: goals')) (hg : WellFormed goals)
    (hp : ∀ f, goals'.map (Goal.relocate f) = goals') (ha : check a = .ok ()) :
    ReadBy goals (header ++ "\n" ++ a ++ ("\n" ++ footer))
      (front ++ moved (breaks (header ++ "\n")) (recognize a).events ++
        moved (breaks (header ++ "\n" ++ a ++ "\n")) back) := by
  have hs : WellFormed (.statements :: goals') := by
    obtain ⟨ts, n, -, hr⟩ := ho
    exact (hr n).wellFormed hg
  have hps (f : Location → Location) : (Goal.statements :: goals').map (Goal.relocate f) =
      .statements :: goals' := by
    rw [List.map_cons, hp]
    rfl
  have h := ho.join hg hps (hf.body hs hp ha)
  rw [moved_append, moved_moved, Nat.add_comm, ← breaks_join, ← List.append_assoc] at h
  have htext : header ++ "\n" ++ a ++ ("\n" ++ footer) =
      header ++ "\n" ++ (a ++ "\n" ++ footer) := by
    simp only [String.append_assoc]
  have hlines : header ++ "\n" ++ a ++ "\n" = header ++ "\n" ++ (a ++ "\n") :=
    String.append_assoc
  rw [htext, hlines]
  exact h

/-! ### Names as expressions -/

/-- A name is read as an expression in front of a token that ends one. -/
theorem reaches_name (ht : t.kind = .identifier) (hm : m.kind.endsExpression) :
    Reaches m [.expression] [t] [.var t.text t.location] [] := by
  have htail {g o : Goal} {more goals : List Goal} (hg : Tail g o more) :
      Reaches m (g :: goals) [] [] goals := by
    have ho := TokenKind.operand?_of_endsExpression hm
    exact hg.reaches (by simp [ho])
  have hsigns : (Goal.signs t.location false).step t = .reduce [] [.factor, .powerTail] := by
    simp [Goal.step, Goal.stepSigns, ht]
  have href : (Goal.reference t.text t.location).step m = .reduce [.var t.text t.location] [] := by
    simp only [Goal.step, Goal.stepReference]
    split <;> simp_all [TokenKind.endsExpression, TokenKind.endsStatements]
  have hfactor : Reaches m [.factor] [t] [.var t.text t.location] [] :=
    .shift (Goal.step_factor_of_identifier ht) (.reported href (.refl []))
  have hpower : Reaches m [.power] [t] [.var t.text t.location] [] :=
    .silent rfl <| .silent hsigns <| (hfactor.frame _).followed (htail .power)
  have hproduct : Reaches m [.product] [t] [.var t.text t.location] [] :=
    .silent rfl <| (hpower.frame _).followed (htail .product)
  have hsum : Reaches m [.sum] [t] [.var t.text t.location] [] :=
    .silent rfl <| (hproduct.frame _).followed (htail .sum)
  exact .silent rfl <| (hsum.frame _).followed (htail .relation)

theorem Reaches.name (ht : t.kind = .identifier) (hm : (ts.headD n).kind.endsExpression)
    (h : Reaches n goals ts es goals') :
    Reaches n (.expression :: goals) (t :: ts) (.var t.text t.location :: es) goals' :=
  ((reaches_name ht hm).frame goals).trans h rfl

/-! ### Headers and footers -/

/-- What is left to do behind the last token of the only statement of a program. -/
def closing (k : StatementKind) : List Goal :=
  [.report (.exit k), .moreStatements, .endOfProgram]

theorem reaches_closing (k : StatementKind) (l : Location) :
    Reaches (.eof l) (closing k) [] [.exit k] [] :=
  .reported rfl <| .silent rfl <| .silent rfl <| .refl []

theorem readBy_end (k : StatementKind) : ReadBy (.keyword .kwEnd :: closing k) "end" [.exit k] := by
  refine ⟨[⟨.keyword .kwEnd, .none, ⟨1, 1⟩⟩], .eof ⟨1, 4⟩, ?_, rfl, ?_⟩
  · exact tokenize_of_firstTokens (by with_unfolding_all rfl) (by simp [Endless]) rfl
  · exact .taken rfl <| reaches_closing k ⟨1, 4⟩

theorem readBy_until : ReadBy (.keyword .kwUntil :: .expression :: closing .repeatLoop) "until c"
    [.var "c" ⟨1, 7⟩, .exit .repeatLoop] := by
  refine ⟨[⟨.keyword .kwUntil, .none, ⟨1, 1⟩⟩, ⟨.identifier, .text "c", ⟨1, 7⟩⟩], .eof ⟨1, 8⟩,
    ?_, rfl, ?_⟩
  · exact tokenize_of_firstTokens (by with_unfolding_all rfl) (by simp [Endless]) rfl
  · exact .taken rfl <| .name rfl rfl <| reaches_closing .repeatLoop ⟨1, 8⟩

theorem opens_while : Opens program "while c do" [.enter .whileLoop ⟨1, 1⟩, .var "c" ⟨1, 7⟩]
    (.statements :: .keyword .kwEnd :: closing .whileLoop) := by
  refine ⟨[⟨.keyword .kwWhile, .none, ⟨1, 1⟩⟩, ⟨.identifier, .text "c", ⟨1, 7⟩⟩,
    ⟨.keyword .kwDo, .none, ⟨1, 9⟩⟩], .eof ⟨1, 11⟩, ?_, fun m => ?_⟩
  · exact tokenize_of_firstTokens (by with_unfolding_all rfl) (by simp [Endless]) rfl
  · exact .silent rfl <| .announced rfl <| .name rfl rfl <| .taken rfl <| .refl _

theorem opens_repeat : Opens program "repeat" [.enter .repeatLoop ⟨1, 1⟩]
    (.statements :: .keyword .kwUntil :: .expression :: closing .repeatLoop) := by
  refine ⟨[⟨.keyword .kwRepeat, .none, ⟨1, 1⟩⟩], .eof ⟨1, 7⟩, ?_, fun m => ?_⟩
  · exact tokenize_of_firstTokens (by with_unfolding_all rfl) (by simp [Endless]) rfl
  · exact .silent rfl <| .announced rfl <| .refl _

theorem opens_function :
    Opens program "function f()" [.enter .functionDef ⟨1, 1⟩, .define "f" [] ⟨1, 1⟩]
      (.statements :: .keyword .kwEnd :: closing .functionDef) := by
  refine ⟨[⟨.keyword .kwFunction, .none, ⟨1, 1⟩⟩, ⟨.identifier, .text "f", ⟨1, 10⟩⟩,
    ⟨.symbol .leftParen, .none, ⟨1, 11⟩⟩, ⟨.symbol .rightParen, .none, ⟨1, 12⟩⟩], .eof ⟨1, 13⟩,
    ?_, fun m => ?_⟩
  · exact tokenize_of_firstTokens (by with_unfolding_all rfl) (by simp [Endless]) rfl
  · exact .silent rfl <| .announced rfl <| .taken rfl <| .taken rfl <| .taken rfl <|
      .reported rfl <| .refl _

theorem opens_for :
    Opens program "for i = c to c do"
      [.enter .forLoop ⟨1, 1⟩, .var "i" ⟨1, 5⟩, .var "c" ⟨1, 9⟩, .var "c" ⟨1, 14⟩]
      (.statements :: .keyword .kwEnd :: closing .forLoop) := by
  refine ⟨[⟨.keyword .kwFor, .none, ⟨1, 1⟩⟩, ⟨.identifier, .text "i", ⟨1, 5⟩⟩,
    ⟨.symbol .assign, .none, ⟨1, 7⟩⟩, ⟨.identifier, .text "c", ⟨1, 9⟩⟩,
    ⟨.keyword .kwTo, .none, ⟨1, 11⟩⟩, ⟨.identifier, .text "c", ⟨1, 14⟩⟩,
    ⟨.keyword .kwDo, .none, ⟨1, 16⟩⟩], .eof ⟨1, 18⟩, ?_, fun m => ?_⟩
  · exact tokenize_of_firstTokens (by with_unfolding_all rfl) (by simp [Endless]) rfl
  · exact .silent rfl <| .announced rfl <| .taken rfl <| .reported rfl <| .taken rfl <|
      .name rfl rfl <| .taken rfl <| .name rfl rfl <| .taken rfl <| .refl _

theorem opens_if : Opens program "if c then" [.enter .ifThen ⟨1, 1⟩, .var "c" ⟨1, 4⟩]
    (.statements :: .elseBranch :: closing .ifThen) := by
  refine ⟨[⟨.keyword .kwIf, .none, ⟨1, 1⟩⟩, ⟨.identifier, .text "c", ⟨1, 4⟩⟩,
    ⟨.keyword .kwThen, .none, ⟨1, 6⟩⟩], .eof ⟨1, 10⟩, ?_, fun m => ?_⟩
  · exact tokenize_of_firstTokens (by with_unfolding_all rfl) (by simp [Endless]) rfl
  · exact .silent rfl <| .announced rfl <| .name rfl rfl <| .taken rfl <| .refl _

theorem opens_else : Opens (.elseBranch :: closing .ifThen) "else" []
    (.statements :: .keyword .kwEnd :: closing .ifThen) := by
  refine ⟨[⟨.keyword .kwElse, .none, ⟨1, 1⟩⟩], .eof ⟨1, 5⟩, ?_, fun m => ?_⟩
  · exact tokenize_of_firstTokens (by with_unfolding_all rfl) (by simp [Endless]) rfl
  · exact .taken rfl <| .refl _

theorem opens_semicolon : Opens [.moreStatements, .endOfProgram] ";" [] program := by
  refine ⟨[⟨.symbol .semicolon, .none, ⟨1, 1⟩⟩], .eof ⟨1, 2⟩, ?_, fun m => ?_⟩
  · exact tokenize_of_firstTokens (by with_unfolding_all rfl) (by simp [Endless]) rfl
  · exact .taken rfl <| .refl _

section

open Event

/-! ### Programs in blocks -/

theorem accepts_while (ha : check a = .ok ()) :
    Accepts ("while c do\n" ++ a ++ "\nend")
      ([enter .whileLoop ⟨1, 1⟩, var "c" ⟨1, 7⟩] ++ moved 1 (recognize a).events ++
        [exit .whileLoop]) := by
  have h := (readBy_end .whileLoop).block opens_while wellFormed_program (fun _ => rfl) ha
  exact h.accepts

theorem accepts_repeat (ha : check a = .ok ()) :
    Accepts ("repeat\n" ++ a ++ "\nuntil c")
      ([enter .repeatLoop ⟨1, 1⟩] ++ moved 1 (recognize a).events ++
        [var "c" ⟨1 + breaks ("repeat\n" ++ a ++ "\n"), 7⟩, exit .repeatLoop]) := by
  have h := readBy_until.block opens_repeat wellFormed_program (fun _ => rfl) ha
  exact h.accepts

theorem accepts_function (ha : check a = .ok ()) :
    Accepts ("function f()\n" ++ a ++ "\nend")
      ([enter .functionDef ⟨1, 1⟩, define "f" [] ⟨1, 1⟩] ++ moved 1 (recognize a).events ++
        [exit .functionDef]) := by
  have h := (readBy_end .functionDef).block opens_function wellFormed_program (fun _ => rfl) ha
  exact h.accepts

theorem accepts_for (ha : check a = .ok ()) :
    Accepts ("for i = c to c do\n" ++ a ++ "\nend")
      ([enter .forLoop ⟨1, 1⟩, var "i" ⟨1, 5⟩, var "c" ⟨1, 9⟩, var "c" ⟨1, 14⟩] ++
        moved 1 (recognize a).events ++ [exit .forLoop]) := by
  have h := (readBy_end .forLoop).block opens_for wellFormed_program (fun _ => rfl) ha
  exact h.accepts

theorem accepts_if (ha : check a = .ok ()) (hb : check b = .ok ()) :
    Accepts ("if c then\n" ++ a ++ "\nelse\n" ++ b ++ "\nend")
      ([enter .ifThen ⟨1, 1⟩, var "c" ⟨1, 4⟩] ++ moved 1 (recognize a).events ++
        moved (breaks ("if c then\n" ++ a ++ "\nelse\n")) (recognize b).events ++
        [exit .ifThen]) := by
  have hs : WellFormed (.elseBranch :: closing .ifThen) := by
    simp [closing, Goal.Fits]
  have helse := (readBy_end .ifThen).block opens_else hs (fun _ => rfl) hb
  have h := helse.block opens_if wellFormed_program (fun _ => rfl) ha
  have htext : "if c then\n" ++ a ++ ("\n" ++ ("else\n" ++ b ++ "\nend")) =
      "if c then\n" ++ a ++ "\nelse\n" ++ b ++ "\nend" := by
    have helse (rest : String) : "\n" ++ ("else\n" ++ rest) = "\nelse\n" ++ rest :=
      String.append_assoc.symm
    simp only [String.append_assoc, helse]
  have hlines : "if c then\n" ++ a ++ "\n" ++ "else\n" = "if c then\n" ++ a ++ "\nelse\n" :=
    String.append_assoc
  rw [← htext, ← hlines, breaks_join, Nat.add_comm]
  rw [List.nil_append, moved_append, moved_moved, ← List.append_assoc] at h
  exact h.accepts

/-! ### Programs behind programs -/

theorem accepts_behind_semicolon (ht : tokenize a = .ok (ts ++ [n]))
    (hr : Reaches n program ts es []) (hend : ¬ AwaitsStatement ts) (hb : check b = .ok ()) :
    Accepts (a ++ "\n;\n" ++ b)
      (es ++ moved (breaks (a ++ "\n;\n")) (recognize b).events) := by
  have hg : WellFormed [.moreStatements, .endOfProgram] := by
    simp [Goal.Fits]
  have hsemi := opens_semicolon.join hg (fun _ => rfl) (readBy_of_check hb)
  have hn : n.kind = .eof := hr.kind_eq_eof rfl
  have h := hsemi.join hg (fun _ => rfl) ht fun m w hw hm => by
    have hm' : m.kind.endsExpression := by
      rw [← hm]
      exact (AfterWhole.moreStatements .endOfProgram).endsExpression hw
    exact (hr.of_program.complete hend).within hn wellFormed_program (by simp) hw hm hm'
  have hlines : a ++ "\n" ++ (";" ++ "\n") = a ++ "\n;\n" := String.append_assoc
  have htext : a ++ "\n" ++ (";" ++ "\n" ++ b) = a ++ "\n;\n" ++ b := by
    rw [← String.append_assoc, hlines]
  rw [List.nil_append, moved_moved, Nat.add_comm, ← breaks_join, htext, hlines] at h
  exact h.accepts

theorem accepts_behind (ht : tokenize a = .ok (ts ++ [n])) (hr : Reaches n program ts es [])
    (hend : AwaitsStatement ts) (hb : check b = .ok ()) :
    Accepts (a ++ "\n" ++ b) (es ++ moved (breaks (a ++ "\n")) (recognize b).events) := by
  have hn : n.kind = .eof := hr.kind_eq_eof rfl
  have h := (readBy_of_check hb).join wellFormed_program (fun _ => rfl) ht fun m w _ _ =>
    (hr.of_program.awaiting hn hend m).frame [.endOfProgram]
  exact h.accepts

/-- An accepted program may be the body of any block, and it may go on with another one: on a line
behind a semicolon if its last statement is complete, and on the next line otherwise. What is
reported for it is what is reported for it alone, moved down by the line breaks in front. -/
theorem programs_compose (ha : check a = .ok ()) (hb : check b = .ok ()) :
    Accepts ("while c do\n" ++ a ++ "\nend")
      ([enter .whileLoop ⟨1, 1⟩, var "c" ⟨1, 7⟩] ++ moved 1 (recognize a).events ++
        [exit .whileLoop]) ∧
    Accepts ("repeat\n" ++ a ++ "\nuntil c")
      ([enter .repeatLoop ⟨1, 1⟩] ++ moved 1 (recognize a).events ++
        [var "c" ⟨1 + breaks ("repeat\n" ++ a ++ "\n"), 7⟩, exit .repeatLoop]) ∧
    Accepts ("function f()\n" ++ a ++ "\nend")
      ([enter .functionDef ⟨1, 1⟩, define "f" [] ⟨1, 1⟩] ++ moved 1 (recognize a).events ++
        [exit .functionDef]) ∧
    Accepts ("for i = c to c do\n" ++ a ++ "\nend")
      ([enter .forLoop ⟨1, 1⟩, var "i" ⟨1, 5⟩, var "c" ⟨1, 9⟩, var "c" ⟨1, 14⟩] ++
        moved 1 (recognize a).events ++ [exit .forLoop]) ∧
    Accepts ("if c then\n" ++ a ++ "\nelse\n" ++ b ++ "\nend")
      ([enter .ifThen ⟨1, 1⟩, var "c" ⟨1, 4⟩] ++ moved 1 (recognize a).events ++
        moved (breaks ("if c then\n" ++ a ++ "\nelse\n")) (recognize b).events ++
        [exit .ifThen]) ∧
    ∃ ts n, tokenize a = .ok (ts ++ [n]) ∧ n.kind = .eof ∧
      (¬ AwaitsStatement ts → Accepts (a ++ "\n;\n" ++ b)
        ((recognize a).events ++ moved (breaks (a ++ "\n;\n")) (recognize b).events)) ∧
      (AwaitsStatement ts → Accepts (a ++ "\n" ++ b)
        ((recognize a).events ++ moved (breaks (a ++ "\n")) (recognize b).events)) := by
  obtain ⟨ts, n, ht, hn, hr, -⟩ := exists_reaches_of_check ha
  refine ⟨accepts_while ha, accepts_repeat ha, accepts_function ha, accepts_for ha,
    accepts_if ha hb, ts, n, ht, hn, ?_, ?_⟩
  · intro hend
    exact accepts_behind_semicolon ht hr hend hb
  · intro hend
    exact accepts_behind ht hr hend hb

theorem programs_compose_break :
    check "break" = .ok () ∧
      Accepts ("while c do\n" ++ "break" ++ "\nend")
        [enter .whileLoop ⟨1, 1⟩, var "c" ⟨1, 7⟩, enter .breakLoop ⟨2, 1⟩, exit .breakLoop,
          exit .whileLoop] := by
  have hbreak : Accepts "break" [enter .breakLoop ⟨1, 1⟩, exit .breakLoop] := by
    have hread : ReadBy program "break" [enter .breakLoop ⟨1, 1⟩, exit .breakLoop] := by
      refine ⟨[⟨.keyword .kwBreak, .none, ⟨1, 1⟩⟩], .eof ⟨1, 6⟩, ?_, rfl, ?_⟩
      · exact tokenize_of_firstTokens (by with_unfolding_all rfl) (by simp [Endless]) rfl
      · exact .silent rfl <| .announced rfl <| reaches_closing .breakLoop ⟨1, 6⟩
    exact hread.accepts
  obtain ⟨hc, he⟩ := hbreak
  have hmoved : moved 1 [enter .breakLoop ⟨1, 1⟩, exit .breakLoop] =
      [enter .breakLoop ⟨2, 1⟩, exit .breakLoop] := rfl
  have h := (programs_compose hc hc).1
  rw [he, hmoved] at h
  exact ⟨hc, h⟩

end

end ScriptCheck
