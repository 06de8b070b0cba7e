import ScriptCheck.Proofs.Expression.Read

/-!
# Texts of expressions

A text writes an expression if it spells tokens that do, with blanks between them. When it stands
behind a name and an assignment sign the program is accepted, and what is reported between them and
the end of the statement makes up the expression again.
-/

namespace ScriptCheck

variable {op : TokenKind} {l : Level} {e : Expr} {text : String}
  {u v w : List (TokenKind × Payload)}

/-- The text is one of those that write the expression. -/
def Expr.IsWritten (e : Expr) (text : String) : Prop :=
  ∃ w, Prints .expression e w ∧ Spaced Spells w (foldBreaks text.toList)

/-! ### Which expressions can be written -/

def IsOperator (op : TokenKind) : Prop :=
  op.isRelation ∨ op.isAdditive ∨ op.isMultiplicative ∨ op = .symbol .power

mutual

/-- The constants can be spelled, and what should be a name or an operator is one. -/
def Expr.WellFormed : Expr → Prop
  | integer n => n ≤ maxInteger
  | boolean _ => True
  | string s => '"' ∉ s.toList
  | var name => IsName name
  | index name args => IsName name ∧ args ≠ [] ∧ AllWellFormed args
  | call name args => IsName name ∧ AllWellFormed args
  | list items => AllWellFormed items
  | not e => e.WellFormed
  | neg e => e.WellFormed
  | binary op a b => IsOperator op ∧ a.WellFormed ∧ b.WellFormed

def Expr.AllWellFormed : List Expr → Prop
  | [] => True
  | e :: es => e.WellFormed ∧ AllWellFormed es

end

/-- Every token can be spelled. -/
def CanSpell (w : List (TokenKind × Payload)) : Prop :=
  ∀ content ∈ w, ∃ lexeme, Spells content lexeme

@[simp] theorem canSpell_nil : CanSpell [] := by
  simp [CanSpell]

@[simp] theorem canSpell_cons {content : TokenKind × Payload} :
    CanSpell (content :: w) ↔ (∃ lexeme, Spells content lexeme) ∧ CanSpell w := by
  simp [CanSpell]

@[simp] theorem canSpell_append : CanSpell (u ++ v) ↔ CanSpell u ∧ CanSpell v := by
  simp [CanSpell, or_imp, forall_and]

@[simp] theorem exists_spells_symbol (s : Symbol) :
    ∃ lexeme, Spells (bare (.symbol s)) lexeme :=
  ⟨_, .symbol s⟩

@[simp] theorem exists_spells_keyword (k : Keyword) :
    ∃ lexeme, Spells (bare (.keyword k)) lexeme :=
  ⟨_, .keyword k⟩

theorem exists_spells_operator (h : IsOperator op) : ∃ lexeme, Spells (bare op) lexeme := by
  cases op with
  | symbol s => exact exists_spells_symbol s
  | keyword k => exact exists_spells_keyword k
  | _ => rcases h with h | h | h | h <;> cases h

theorem exists_joins (h : IsOperator op) : ∃ l left right, Joins op l left right := by
  rcases h with h | h | h | rfl
  · exact ⟨_, _, _, .relation h⟩
  · exact ⟨_, _, _, .additive h⟩
  · exact ⟨_, _, _, .multiplicative h⟩
  · exact ⟨_, _, _, .power⟩

/-- A factor can stand anywhere. -/
theorem Prints.of_factor (h : Prints .factor e w) (l : Level) : Prints l e w := by
  have hunsigned := Prints.lift .unsigned h
  have hpower := Prints.lift .power hunsigned
  have hterm := Prints.lift .term hpower
  have hsimple := Prints.lift .simple hterm
  cases l with
  | expression => exact .lift .expression hsimple
  | simple => exact hsimple
  | term => exact hterm
  | power => exact hpower
  | unsigned => exact hunsigned
  | factor => exact h

/-- Anything can stand where a whole expression is asked for. -/
theorem Prints.expression (h : Prints l e w) : Prints .expression e w := by
  cases l with
  | expression => exact h
  | simple => exact .lift .expression h
  | term => exact .lift .expression (.lift .simple h)
  | power => exact .lift .expression (.lift .simple (.lift .term h))
  | unsigned => exact .lift .expression (.lift .simple (.lift .term (.lift .power h)))
  | factor => exact h.of_factor .expression

mutual

theorem Expr.WellFormed.exists_prints {e : Expr} (h : e.WellFormed) :
    ∃ w, Prints .factor e w ∧ CanSpell w := by
  match e with
  | .integer n => exact ⟨_, .integer n, by simpa using ⟨_, .decimal h⟩⟩
  | .boolean b => exact ⟨_, .boolean b, by simp⟩
  | .string s =>
    have hs : Spells (.string, .text s) ('"' :: (escape s.toList ++ ['"'])) := by
      have hs := Spells.string (.inl rfl) h
      rwa [String.ofList_toList] at hs
    exact ⟨_, .string s, by simpa using ⟨_, hs⟩⟩
  | .var name => exact ⟨_, .var name, by simpa using ⟨_, .name h⟩⟩
  | .index name args =>
    obtain ⟨hn, hne, ha⟩ := h
    obtain ⟨w, hp, hw⟩ := ha.exists_printsItems hne
    exact ⟨_, .index name hp, by simpa [hw] using ⟨_, .name hn⟩⟩
  | .call name [] => exact ⟨_, .callNone name, by simpa using ⟨_, .name h.1⟩⟩
  | .call name (e :: es) =>
    obtain ⟨w, hp, hw⟩ := h.2.exists_printsItems (List.cons_ne_nil e es)
    exact ⟨_, .call name hp, by simpa [hw] using ⟨_, .name h.1⟩⟩
  | .list [] => exact ⟨_, .listNone, by simp⟩
  | .list (e :: es) =>
    obtain ⟨w, hp, hw⟩ := Expr.AllWellFormed.exists_printsItems h (List.cons_ne_nil e es)
    exact ⟨_, .list hp, by simp [hw]⟩
  | .not e =>
    obtain ⟨w, hp, hw⟩ := Expr.WellFormed.exists_prints (e := e) h
    exact ⟨_, .parens (.not (hp.of_factor .expression)), by simp [hw]⟩
  | .neg e =>
    obtain ⟨w, hp, hw⟩ := Expr.WellFormed.exists_prints (e := e) h
    have hneg : Prints .power (.neg e) (bare (.symbol .minus) :: w) :=
      @Prints.neg e w [.minus] (by simp) rfl (hp.of_factor .unsigned)
    exact ⟨_, .parens hneg.expression, by simp [hw]⟩
  | .binary op a b =>
    obtain ⟨hop, ha, hb⟩ := h
    obtain ⟨l, left, right, hj⟩ := exists_joins hop
    obtain ⟨u, hu, hcu⟩ := ha.exists_prints
    obtain ⟨v, hv, hcv⟩ := hb.exists_prints
    have hbin := Prints.binary hj (hu.of_factor left) (hv.of_factor right)
    exact ⟨_, .parens hbin.expression, by simp [hcu, hcv, exists_spells_operator hop]⟩

theorem Expr.AllWellFormed.exists_printsItems {es : List Expr} (h : AllWellFormed es)
    (hn : es ≠ []) : ∃ w, PrintsItems es w ∧ CanSpell w := by
  match es with
  | [e] =>
    obtain ⟨w, hp, hw⟩ := h.1.exists_prints
    exact ⟨w, .one (hp.of_factor .expression), hw⟩
  | e :: e' :: es =>
    obtain ⟨u, hu, hcu⟩ := h.1.exists_prints
    obtain ⟨v, hv, hcv⟩ := h.2.exists_printsItems (List.cons_ne_nil e' es)
    exact ⟨_, .more (hu.of_factor .expression) hv, by simp [hcu, hcv]⟩

end

/-- There is a text for every expression that is well formed. -/
theorem Expr.WellFormed.exists_isWritten (h : e.WellFormed) : ∃ text, e.IsWritten text := by
  obtain ⟨w, hp, hw⟩ := h.exists_prints
  obtain ⟨text, hs⟩ := exists_spaced fun content hc => by
    obtain ⟨lexeme, hl⟩ := hw content hc
    exact ⟨lexeme, hl, hl.not_mem⟩
  exact ⟨text, w, hp.of_factor .expression, hs⟩

/-! ### Reading a text -/

/-- An expression is built from its events wherever they were reported. -/
theorem Expr.ofEvents_map_unplaced (events : List Event) :
    ofEvents (events.map Event.unplaced) = ofEvents events := by
  have hpush : (fun stack event => push stack (Event.unplaced event)) = push := by
    funext stack event
    cases event with
    | unary op l => cases op <;> cases stack <;> rfl
    | binary op l => rcases stack with - | ⟨b, - | ⟨a, stack⟩⟩ <;> rfl
    | _ => rfl
  rw [ofEvents, ofEvents, List.foldlM_map, hpush]

mutual

theorem Expr.map_unplaced_events (e : Expr) : e.events.map Event.unplaced = e.events := by
  match e with
  | .integer _ | .boolean _ | .string _ | .var _ => rfl
  | .index _ args | .call _ args | .list args =>
    rw [events, List.map_append, map_unplaced_eventsOf args]
    rfl
  | .not e | .neg e =>
    rw [events, List.map_append, map_unplaced_events e]
    rfl
  | .binary _ a b =>
    rw [events, List.map_append, List.map_append, map_unplaced_events a, map_unplaced_events b]
    rfl

theorem Expr.map_unplaced_eventsOf (es : List Expr) :
    (eventsOf es).map Event.unplaced = eventsOf es := by
  match es with
  | [] => rfl
  | e :: es => rw [eventsOf, List.map_append, map_unplaced_events e, map_unplaced_eventsOf es]

end

section

variable {event : Event}

theorem Event.eq_enter_of_unplaced {k : StatementKind}
    (h : event.unplaced = unplaced (.enter k .start)) : ∃ l, event = .enter k l := by
  cases event <;> cases h
  exact ⟨_, rfl⟩

theorem Event.eq_var_of_unplaced {name : String}
    (h : event.unplaced = unplaced (.var name .start)) : ∃ l, event = .var name l := by
  cases event <;> cases h
  exact ⟨_, rfl⟩

theorem Event.eq_exit_of_unplaced {k : StatementKind}
    (h : event.unplaced = unplaced (.exit k)) : event = .exit k := by
  cases event <;> cases h
  rfl

end

/-- A program that assigns an expression to a name. -/
theorem Reads.reaches_program (name : String) (h : Reads .expression e w) :
    Reaches (.eof .start) program
      (((.identifier, .text name) :: bare (.symbol .assign) :: w).map Token.ofContent)
      (.enter .assignment .start :: .var name .start :: (e.events ++ [.exit .assignment])) [] := by
  have hend : Reaches (.eof .start) [.moreStatements, .endOfProgram] [] [] [] :=
    .silent rfl (.silent rfl (.refl []))
  have hn : Level.expression.Ends (Token.eof .start).kind :=
    Level.ends_of_operand?_eq_none rfl (by simp [Token.eof]) (by simp [Token.eof])
  have hvalue := ((h (.eof .start) [.report (.exit .assignment), .moreStatements, .endOfProgram]
    hn).followed (Reaches.report _)).followed hend
  rw [List.append_nil] at hvalue
  have hassign := Reaches.used (c := bare (.symbol .assign)) (g := .symbol .assign) rfl hvalue
  refine .silent rfl (.look rfl (.reported rfl (.used rfl ?_)))
  exact .reported rfl hassign

theorem Expr.IsWritten.exists_spaced (h : e.IsWritten text) :
    ∃ w, Prints .expression e w ∧
      Spaced IsLexeme ((.identifier, .text "x") :: bare (.symbol .assign) :: w)
        (foldBreaks ("x = " ++ text).toList) := by
  obtain ⟨w, hp, hs⟩ := h
  have htext : foldBreaks ("x = " ++ text).toList =
      [] ++ (['x'] ++ ([' '] ++ (['='] ++ ([' '] ++ foldBreaks text.toList)))) := by
    rw [String.toList_append, foldBreaks_append_of_not_mem (by decide)]
    rfl
  have hspace : ∀ c ∈ [' '], isBlank c := by simp [isBlank]
  have hall : Spaced Spells ((.identifier, .text "x") :: bare (.symbol .assign) :: w)
      (foldBreaks ("x = " ++ text).toList) := by
    rw [htext]
    exact .cons (by simp) (.name isName_x) (by simp [isBlank])
      (.cons hspace (.symbol .assign) (by simp [isBlank]) (hs.blank hspace))
  exact ⟨w, hp, hall.mono fun _ _ hl => hl.isLexeme⟩

/-- What was written for an expression is read as this expression. -/
theorem expression_read_back (h : e.IsWritten text) :
    check ("x = " ++ text) = .ok () ∧
      ∃ l m events, (recognize ("x = " ++ text)).events =
          .enter .assignment l :: .var "x" m :: (events ++ [.exit .assignment]) ∧
        events.map Event.unplaced = e.events ∧ Expr.ofEvents events = some e := by
  obtain ⟨w, hp, hs⟩ := h.exists_spaced
  obtain ⟨us, l, hu, hc⟩ := tokenize_of_spaced hs
  have hc' : us.map Token.content =
      (((.identifier, .text "x") :: bare (.symbol .assign) :: w).map Token.ofContent).map
        Token.content := by
    rw [hc, List.map_map]
    exact (List.map_id _).symm
  obtain ⟨hcheck, he⟩ := check_of_reaches (hp.reads.reaches_program "x") hu rfl hc'
  rw [List.map_cons, List.map_cons, List.map_append, e.map_unplaced_events] at he
  obtain ⟨enter, rest, hr, henter, he⟩ := List.map_eq_cons_iff.1 he
  obtain ⟨var, rest, rfl, hvar, he⟩ := List.map_eq_cons_iff.1 he
  obtain ⟨events, rest, rfl, hevents, he⟩ := List.map_eq_append_iff.1 he
  obtain ⟨exit, rfl, hexit⟩ := List.map_eq_singleton_iff.1 he
  obtain ⟨l, rfl⟩ := Event.eq_enter_of_unplaced henter
  obtain ⟨m, rfl⟩ := Event.eq_var_of_unplaced hvar
  obtain rfl := Event.eq_exit_of_unplaced hexit
  refine ⟨hcheck, l, m, events, hr, hevents, ?_⟩
  rw [← Expr.ofEvents_map_unplaced, hevents, e.ofEvents_events]

/-- The minus sign applies to the whole power. -/
theorem expression_read_back_negated_power :
    (Expr.neg (.binary (.symbol .power) (.integer 2) (.integer 3))).IsWritten "- 2 ^ 3" ∧
      check "x = - 2 ^ 3" = .ok () ∧
      ∃ l m events, (recognize "x = - 2 ^ 3").events =
          .enter .assignment l :: .var "x" m :: (events ++ [.exit .assignment]) ∧
        events.map Event.unplaced = [.integer 2 .start, .integer 3 .start,
          .binary (.symbol .power) .start, .unary .negate .start] ∧
        Expr.ofEvents events =
          some (.neg (.binary (.symbol .power) (.integer 2) (.integer 3))) := by
  have hpower : Prints .unsigned (.binary (.symbol .power) (.integer 2) (.integer 3))
      [(.integer, .integer 2), bare (.symbol .power), (.integer, .integer 3)] :=
    .binary .power (.integer 2) (.integer 3)
  have hneg : Prints .power (.neg (.binary (.symbol .power) (.integer 2) (.integer 3)))
      [bare (.symbol .minus), (.integer, .integer 2), bare (.symbol .power),
        (.integer, .integer 3)] :=
    @Prints.neg _ _ [.minus] (by simp) rfl hpower
  have hspaced : Spaced Spells
      [bare (.symbol .minus), (.integer, .integer 2), bare (.symbol .power), (.integer, .integer 3)]
      ([] ++ (['-'] ++ ([' '] ++ (['2'] ++ ([' '] ++ (['^'] ++ ([' '] ++ (['3'] ++ [])))))))) := by
    have hspace : ∀ c ∈ [' '], isBlank c := by simp [isBlank]
    have hrest (rest : List Char) : AtBlank ([' '] ++ rest) := by simp [isBlank]
    refine .cons (by simp) (.symbol .minus) (hrest _) ?_
    refine .cons hspace (.decimal (by decide)) (hrest _) ?_
    refine .cons hspace (.symbol .power) (hrest _) ?_
    exact .cons hspace (.decimal (by decide)) (by simp) (.nil (by simp))
  have hw : (Expr.neg (.binary (.symbol .power) (.integer 2) (.integer 3))).IsWritten "- 2 ^ 3" :=
    ⟨_, hneg.expression, hspaced⟩
  have htext : "x = - 2 ^ 3" = "x = " ++ "- 2 ^ 3" := rfl
  rw [htext]
  exact ⟨hw, expression_read_back hw⟩

end ScriptCheck
