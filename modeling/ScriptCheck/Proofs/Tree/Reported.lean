import ScriptCheck.Proofs.Recognizer.Compose
import ScriptCheck.Proofs.Tree.Builds

/-!
# What the events of a text tell of its tree

Each accepted text has a tree, and its events are those of the tree. So the events of a text tell
its merged tree. They do not tell where the statements of an `else` part begin: of two conditional
statements, one of which has an `else` where the other has a semicolon, the same is reported.
-/

namespace ScriptCheck

variable {a b : String} {ss ss' : List Statement} {s : Statement} {l : Level} {e : Term}
  {es : List Term} {p : Parameter} {ps : List Parameter} {u v w : List Token} {t : Token}

/-- The tokens of the text are derived as this program. -/
def IsTreeOf (ss : List Statement) (text : String) : Prop :=
  ∃ ts n, tokenize text = .ok (ts ++ [n]) ∧ n.kind = .eof ∧ Statement.DerivedList ss ts

/-- The program is a tree of the text, and it is the one that is reported. -/
structure IsReportedFor (ss : List Statement) (text : String) : Prop where
  isTreeOf : IsTreeOf ss text
  events : (recognize text).events.map Event.unplaced = Statement.eventsOf ss

/-- Each accepted text is reported as one of its trees. -/
theorem exists_isReportedFor (h : check a = .ok ()) : ∃ ss, IsReportedFor ss a := by
  obtain ⟨ts, n, ht, hn, hr, -⟩ := exists_reaches_of_check h
  obtain ⟨u, v, es₁, es₂, rfl, he, ⟨ss, hss, rfl⟩, hv⟩ := hr.builds
  obtain ⟨rfl, rfl⟩ : v = [] ∧ es₂ = [] := buildsAll_singleton.1 hv
  rw [List.append_nil] at ht he
  exact ⟨ss, ⟨u, n, ht, hn, hss⟩, he⟩

/-! ### Texts with merged trees -/

/-- Whether a merged tree keeps what tokens of this kind say. -/
def TokenKind.isPlain : TokenKind → Bool
  | .keyword .kwElse | .keyword .kwDownto | .keyword .kwPrintln => false
  | _ => true

/-- There is no `else`, no `downto` and no `println` among the tokens. -/
def Plain (w : List Token) : Prop :=
  ∀ t ∈ w, t.kind.isPlain = true

@[simp] theorem plain_nil : Plain [] := List.forall_mem_nil _

@[simp] theorem plain_cons : Plain (t :: w) ↔ t.kind.isPlain = true ∧ Plain w :=
  List.forall_mem_cons

@[simp] theorem plain_append : Plain (u ++ v) ↔ Plain u ∧ Plain v :=
  List.forall_mem_append

theorem Joins.isPlain {op : TokenKind} {left right : Level} (h : Joins op l left right) :
    op.isPlain = true := by
  cases h with
  | relation h | additive h | multiplicative h => cases op with
    | symbol s => rfl
    | keyword k => cases k <;> first | rfl | cases h
    | _ => rfl
  | power => rfl

theorem Token.IsSign.isPlain (h : t.IsSign) : t.kind.isPlain = true := by
  rcases h with h | h <;> simp [h, TokenKind.isPlain]

mutual

theorem Term.Derived.plain {l : Level} {e : Term} {w : List Token} :
    Term.Derived l e w → Plain w
  | .integer ht | .real ht | .string ht | .true ht | .false ht | .var ht => by
    simp [ht, TokenKind.isPlain]
  | .index ht ho hi _ hc | .call ht ho hi hc => by
    simp [ht, ho, hi.plain, hc, TokenKind.isPlain]
  | .list ho hi hc => by simp [ho, hi.plain, hc, TokenKind.isPlain]
  | .parens ho he hc => by simp [ho, he.plain, hc, TokenKind.isPlain]
  | .not ht he => by simp [ht, he.plain, TokenKind.isPlain]
  | .lift _ he => he.plain
  | .signs hs he => plain_append.2 ⟨fun s hm => (hs s hm).isPlain, he.plain⟩
  | .binary ho ha hb => by simp [ho.isPlain, ha.plain, hb.plain]

theorem Term.DerivedItems.plain {es : List Term} {w : List Token} :
    Term.DerivedItems es w → Plain w
  | .nil => plain_nil
  | .cons he hes => plain_append.2 ⟨he.plain, hes.plain⟩

theorem Term.DerivedMore.plain {es : List Term} {w : List Token} :
    Term.DerivedMore es w → Plain w
  | .nil => plain_nil
  | .cons ht he hes => by simp [ht, he.plain, hes.plain, TokenKind.isPlain]

end

theorem DerivedIndices.plain (h : DerivedIndices es w) : Plain w := by
  cases h with
  | none => exact plain_nil
  | some ho hi _ hc => simp [ho, hi.plain, hc, TokenKind.isPlain]

theorem DerivedParameter.plain (h : DerivedParameter p w) : Plain w := by
  cases h with
  | byValue ht => simp [ht, TokenKind.isPlain]
  | byRef hr ht => simp [hr, ht, TokenKind.isPlain]

theorem DerivedMoreParameters.plain (h : DerivedMoreParameters ps w) : Plain w := by
  induction h with
  | nil => exact plain_nil
  | cons ht hp _ ih => simp [ht, hp.plain, ih, TokenKind.isPlain]

theorem DerivedHead.plain (h : DerivedHead ps w) : Plain w := by
  cases h with
  | none => exact plain_nil
  | some ho hps hc =>
    cases hps with
    | nil => simp [ho, hc, TokenKind.isPlain]
    | cons hp hps => simp [ho, hp.plain, hps.plain, hc, TokenKind.isPlain]

mutual

/-- A statement is a merged one if its tokens are plain, and only then. -/
theorem Statement.Derived.plain_iff {s : Statement} {w : List Token} :
    Statement.Derived s w → (Plain w ↔ s.merged = s)
  | .assign ht hi hq hv => by
    simp [ht, hi.plain, hq, hv.plain, TokenKind.isPlain, Statement.merged]
  | .call ht ho hi hc => by simp [ht, ho, hi.plain, hc, TokenKind.isPlain, Statement.merged]
  | .ifThen ht hc hm hb hz => by
    simp [ht, hc.plain, hm, hb.plain_iff, hz, TokenKind.isPlain, Statement.merged]
  | .ifElse ht hc hm hb ho hother hz => by
    -- the `else` is no plain token, and the merged statement is one without an `else` part
    simp [ho, TokenKind.isPlain, Statement.merged]
  | .forLoop ht hx hq hfirst hd hlast hm hb hz => by
    rcases hd with hd | hd <;>
      simp [ht, hx, hq, hfirst.plain, hd, hlast.plain, hm, hb.plain_iff, hz, TokenKind.isPlain,
        Statement.merged]
  | .whileLoop ht hc hm hb hz => by
    simp [ht, hc.plain, hm, hb.plain_iff, hz, TokenKind.isPlain, Statement.merged]
  | .repeatLoop ht hb hm hc => by
    simp [ht, hb.plain_iff, hm, hc.plain, TokenKind.isPlain, Statement.merged]
  | .returnValue ht he => by simp [ht, he.plain, TokenKind.isPlain, Statement.merged]
  | .breakLoop ht => by simp [ht, TokenKind.isPlain, Statement.merged]
  | .functionDef ht hx hps hb hz => by
    simp [ht, hx, hps.plain, hb.plain_iff, hz, TokenKind.isPlain, Statement.merged]
  | .print ht ho he hc => by
    rcases ht with ht | ht <;> simp [ht, ho, he.plain, hc, TokenKind.isPlain, Statement.merged]

theorem Statement.DerivedList.plain_iff {ss : List Statement} {w : List Token} :
    Statement.DerivedList ss w → (Plain w ↔ Statement.mergedAll ss = ss)
  | .nil => by simp [Statement.mergedAll]
  | .cons hs hss => by simp [hs.plain_iff, hss.plain_iff, Statement.mergedAll]

theorem Statement.DerivedMore.plain_iff {ss : List Statement} {w : List Token} :
    Statement.DerivedMore ss w → (Plain w ↔ Statement.mergedAll ss = ss)
  | .nil => by simp [Statement.mergedAll]
  | .skip ht hss => by simp [ht, hss.plain_iff, TokenKind.isPlain]
  | .cons ht hs hss => by
    simp [ht, hs.plain_iff, hss.plain_iff, TokenKind.isPlain, Statement.mergedAll]

end

/-- The tokens of the text are plain. -/
def IsPlainText (text : String) : Prop :=
  ∃ ts, tokenize text = .ok ts ∧ Plain ts

/-- The tree of a text is a merged one if the text is plain, and only then. -/
theorem IsTreeOf.plain_iff (h : IsTreeOf ss a) :
    IsPlainText a ↔ Statement.mergedAll ss = ss := by
  obtain ⟨ts, n, ht, hn, hd⟩ := h
  rw [← hd.plain_iff]
  constructor
  · rintro ⟨us, hu, hp⟩
    obtain rfl : ts ++ [n] = us := Except.ok.inj (ht.symm.trans hu)
    exact (plain_append.1 hp).1
  · intro hp
    exact ⟨_, ht, by simp [hp, hn, TokenKind.isPlain]⟩

/-! ### What is told and what is not -/

/-- The tokens of a conditional statement with two parts that a token of kind `k` separates. -/
def twoBreaks (k : TokenKind) : List Token :=
  [⟨.keyword .kwIf, .none, ⟨1, 1⟩⟩, ⟨.identifier, .text "c", ⟨1, 4⟩⟩,
    ⟨.keyword .kwThen, .none, ⟨1, 6⟩⟩, ⟨.keyword .kwBreak, .none, ⟨1, 11⟩⟩, ⟨k, .none, ⟨1, 17⟩⟩,
    ⟨.keyword .kwBreak, .none, ⟨1, 22⟩⟩, ⟨.keyword .kwEnd, .none, ⟨1, 28⟩⟩]

/-- Two conditional statements for which the same is reported. One has an `else` where the other
one has a semicolon. -/
theorem exists_reported_alike :
    ∃ es, Accepts "if c then break else break end" es ∧
      Accepts "if c then break ;    break end" es ∧
      ¬ IsPlainText "if c then break else break end" ∧
      IsPlainText "if c then break ;    break end" := by
  have ht : tokenize "if c then break else break end" =
      .ok (twoBreaks (.keyword .kwElse) ++ [Token.eof ⟨1, 31⟩]) :=
    tokenize_of_firstTokens (by with_unfolding_all rfl) (by simp [twoBreaks, Endless]) rfl
  have hu : tokenize "if c then break ;    break end" =
      .ok (twoBreaks (.symbol .semicolon) ++ [Token.eof ⟨1, 31⟩]) :=
    tokenize_of_firstTokens (by with_unfolding_all rfl) (by simp [twoBreaks, Endless]) rfl
  have hr : Reaches (.eof ⟨1, 31⟩) program (twoBreaks (.keyword .kwElse)) _ [] :=
    .silent rfl <| .announced rfl <| .name rfl rfl <| .taken rfl <| .silent rfl <|
      .announced rfl <| .reported rfl <| .silent rfl <| .taken rfl <| .silent rfl <|
      .announced rfl <| .reported rfl <| .silent rfl <| .taken rfl <| reaches_closing .ifThen _
  have hs : Reaches (.eof ⟨1, 31⟩) program (twoBreaks (.symbol .semicolon)) _ [] :=
    .silent rfl <| .announced rfl <| .name rfl rfl <| .taken rfl <| .silent rfl <|
      .announced rfl <| .reported rfl <| .taken rfl <| .silent rfl <| .announced rfl <|
      .reported rfl <| .silent rfl <| .silent rfl <| .taken rfl <| reaches_closing .ifThen _
  refine ⟨_, ReadBy.accepts ⟨_, _, ht, rfl, hr⟩, ReadBy.accepts ⟨_, _, hu, rfl, hs⟩, ?_,
    ⟨_, hu, by simp [twoBreaks, TokenKind.isPlain, Token.eof]⟩⟩
  rintro ⟨ts, hts, hp⟩
  obtain rfl := Except.ok.inj (ht.symm.trans hts)
  simp [twoBreaks, TokenKind.isPlain] at hp

/-- Texts for which the same is reported have the same tree apart from what a merged tree leaves
out, so the same tree if nothing is left out of either. -/
theorem merged_tree_of_events_eq (ha : check a = .ok ()) (hb : check b = .ok ())
    (he : (recognize a).events = (recognize b).events) :
    (∃ ss, IsReportedFor ss a) ∧ (∃ ss', IsReportedFor ss' b) ∧
      ∀ ss ss', IsReportedFor ss a → IsReportedFor ss' b →
        Statement.mergedAll ss = Statement.mergedAll ss' ∧
          (IsPlainText a → IsPlainText b → ss = ss') := by
  refine ⟨exists_isReportedFor ha, exists_isReportedFor hb, fun ss ss' hs hs' => ?_⟩
  have hm : Statement.mergedAll ss = Statement.mergedAll ss' := by
    apply eventsOf_eq_iff.1
    rw [← hs.events, ← hs'.events, he]
  refine ⟨hm, fun hp hp' => ?_⟩
  rwa [hs.isTreeOf.plain_iff.1 hp, hs'.isTreeOf.plain_iff.1 hp'] at hm

/-- The merged tree does without the `else`. -/
theorem merged_tree_of_else :
    check "if c then break else break end" = .ok () ∧
      check "if c then break ;    break end" = .ok () ∧
      (recognize "if c then break else break end").events =
        (recognize "if c then break ;    break end").events ∧
      ∀ ss ss', IsReportedFor ss "if c then break else break end" →
        IsReportedFor ss' "if c then break ;    break end" →
        Statement.mergedAll ss = Statement.mergedAll ss' := by
  obtain ⟨es, ⟨ha, hea⟩, ⟨hb, heb⟩, -, -⟩ := exists_reported_alike
  have he := hea.trans heb.symm
  refine ⟨ha, hb, he, fun ss ss' hs hs' => ?_⟩
  exact ((merged_tree_of_events_eq ha hb he).2.2 ss ss' hs hs').1

/-- The same is reported for two texts that have no tree in common. -/
theorem else_part_not_reported :
    check "if c then break else break end" = .ok () ∧
      check "if c then break ;    break end" = .ok () ∧
      (recognize "if c then break else break end").events =
        (recognize "if c then break ;    break end").events ∧
      ¬ ∃ ss, IsTreeOf ss "if c then break else break end" ∧
        IsTreeOf ss "if c then break ;    break end" := by
  obtain ⟨es, ⟨ha, hea⟩, ⟨hb, heb⟩, hne, hplain⟩ := exists_reported_alike
  refine ⟨ha, hb, hea.trans heb.symm, ?_⟩
  rintro ⟨ss, hss, hss'⟩
  exact hne (hss.plain_iff.2 (hss'.plain_iff.1 hplain))

end ScriptCheck
