import ScriptCheck.Proofs.Recognizer.ViablePrefix
import Mathlib.Data.List.Chain

/-!
# Semicolons

A semicolon is used up in one place only, behind a statement, and what comes up for it is a list of
statements, which begins with none. So the recognizer never reads two semicolons in a row, and the
last token tells whether a list of statements is complete or waits for one more.
-/

namespace ScriptCheck

open Phrase

variable {n t : Token} {g : Goal} {goals goals' gs : List Goal} {ts : List Token}
  {es new : List Event} {v w : List TokenKind}

/-! ### Words -/

/-- No semicolon stands right behind another. -/
def Apart (w : List TokenKind) : Prop :=
  w.IsChain fun a b => ¬ (a = .symbol .semicolon ∧ b = .symbol .semicolon)

theorem Apart.of_append (h : Apart (v ++ w)) : Apart v ∧ Apart w :=
  ⟨h.left_of_append, h.right_of_append⟩

/-! ### Moves -/

/-- The goals that a move may leave. -/
def Move.left : Move → List Goal
  | reduce _ gs | shift _ gs => gs
  | look _ yes no => yes ++ no
  | refuse _ => []

/-- A semicolon is no goal: no move asks for one by name. -/
theorem semicolon_not_mem_left (g : Goal) (t : Token) :
    Goal.symbol .semicolon ∉ (g.step t).left := by
  cases g <;> simp only [Goal.step, Goal.demand, Goal.operator, Goal.stepStatement,
    Goal.stepTarget, Goal.stepFactor, Goal.stepReference, Goal.stepSigns, Goal.stepItems,
    Goal.stepParameter, Goal.stepMoreParameters, Goal.enter, Goal.framed]
  all_goals (repeat' split)
  all_goals simp [Move.left]

theorem semicolon_not_mem_append (t : Token) (hgs : gs ⊆ (g.step t).left)
    (hg : Goal.symbol .semicolon ∉ g :: goals) : Goal.symbol .semicolon ∉ gs ++ goals := by
  rw [List.mem_append]
  rintro (hm | hm)
  · exact semicolon_not_mem_left g t (hgs hm)
  · exact hg (List.mem_cons_of_mem _ hm)

/-- A semicolon is used up behind a statement, and a list of statements comes up. -/
theorem eq_moreStatements_of_shift (hg : g.step t = .shift new gs)
    (ht : t.kind = .symbol .semicolon) (hs : g ≠ .symbol .semicolon) :
    g = .moreStatements ∧ new = [] ∧ gs = [.statements] := by
  cases g with
  | moreStatements => simpa [Goal.step, ht, eq_comm] using hg
  | symbol s =>
    have hne : (.symbol .semicolon : TokenKind) ≠ .symbol s := by
      rintro ⟨⟩
      exact hs rfl
    simp [Goal.step, Goal.demand, ht, hne] at hg
  | firstItem g | moreItems n g =>
    cases g <;> simp [Goal.step, Goal.stepItems, Goal.demand, ht, Group.close] at hg
  | _ =>
    simp [Goal.step, Goal.demand, Goal.stepStatement, Goal.stepTarget, Goal.stepFactor,
      Goal.stepReference, Goal.stepSigns, Goal.stepParameter, Goal.stepMoreParameters, ht,
      TokenKind.isRelation, TokenKind.isAdditive, TokenKind.isMultiplicative,
      TokenKind.endsStatements] at hg

/-! ### Paths -/

/-- On a path no two semicolons are used up in a row, and none where a statement is to begin. -/
theorem Reaches.apart (h : Reaches n goals ts es goals') (hg : .symbol .semicolon ∉ goals) :
    Apart (ts.map Token.kind) ∧ (goals.head? = some .statement ∨ goals.head? = some .statements →
      (ts.map Token.kind).head? ≠ some (.symbol .semicolon)) := by
  induction h with
  | refl => exact ⟨List.IsChain.nil, by simp⟩
  | @reduce g goals gs goals' ts new es hm h ih =>
    obtain ⟨ha, hh⟩ := ih (semicolon_not_mem_append (ts.headD n) (hm ▸ List.Subset.refl gs) hg)
    refine ⟨ha, ?_⟩
    rintro (hs | hs)
    · obtain rfl : g = .statement := by simpa using hs
      simp only [Goal.step, Goal.stepStatement, Goal.enter] at hm
      split at hm <;> cases hm
    · obtain rfl : g = .statements := by simpa using hs
      simp only [Goal.step] at hm
      split at hm
      · rename_i he
        cases ts with
        | nil => simp
        | cons t ts =>
          intro ht
          obtain ht : t.kind = .symbol .semicolon := by simpa using ht
          simp [ht, TokenKind.endsStatements] at he
      · obtain ⟨-, rfl⟩ := by simpa using hm
        exact hh (.inl rfl)
  | @shift g goals gs goals' t ts new es hm h ih =>
    obtain ⟨ha, hh⟩ := ih (semicolon_not_mem_append t (hm ▸ List.Subset.refl gs) hg)
    have hne : g ≠ .symbol .semicolon := fun hs => hg (hs ▸ List.mem_cons_self ..)
    constructor
    · refine List.isChain_cons.2 ⟨?_, ha⟩
      rintro a hk ⟨ht, rfl⟩
      obtain ⟨-, -, rfl⟩ := eq_moreStatements_of_shift hm ht hne
      exact hh (.inr rfl) hk
    · intro hs ht
      obtain ht : t.kind = .symbol .semicolon := by simpa using ht
      obtain ⟨rfl, -, -⟩ := eq_moreStatements_of_shift hm ht hne
      simp at hs
  | @look g goals yes no goals' t ts k es hm h ih =>
    have hgs : (if (ts.headD n).kind = k then yes else no) ⊆ (g.step t).left := by
      rw [hm]
      split
      · exact List.subset_append_left yes no
      · exact List.subset_append_right yes no
    obtain ⟨ha, -⟩ := ih (semicolon_not_mem_append t hgs hg)
    refine ⟨ha, fun _ ht => ?_⟩
    obtain ht : t.kind = .symbol .semicolon := by simpa using ht
    simp [(Goal.eq_of_look hm).2.1] at ht

/-- A program has no two semicolons in a row, and none in front. -/
theorem apart_of_generates (h : Generates program w) :
    Apart w ∧ w.head? ≠ some (.symbol .semicolon) := by
  have hw : (w.map fun k => (⟨k, .none, .start⟩ : Token)).map Token.kind = w := by
    rw [List.map_map]
    exact List.map_id' w
  obtain ⟨es, hr⟩ := exists_reaches_of_generates (n := .eof .start) rfl wellFormed_program
    (hw.symm ▸ h)
  have ha := hr.apart (by simp [program])
  rw [hw] at ha
  exact ⟨ha.1, ha.2 (.inr rfl)⟩

/-! ### Lists with empty statements -/

/-- `[ statement { ';' [ statement ] } ]`: behind a semicolon there may be another one. -/
def Phrase.documentedList : Phrase :=
  optional (sequence [part .statement,
    many (sequence [symbol .semicolon, optional (part .statement)])])

/-- The grammar as the language reference has it. -/
def documented : Nonterminal → Phrase :=
  production documentedList

/-- Where no further semicolon may follow, the rest of a list ends behind one. -/
theorem derivesAll_emptyTail {rules : Nonterminal → Phrase}
    (ha : Apart (.symbol .semicolon :: w)) :
    DerivesAll rules [many (sequence [.symbol .semicolon, optional (part .statement)])] w ↔
      w = [] := by
  rw [derivesAll_many]
  constructor
  · rintro (h | h)
    · simpa using h
    · obtain ⟨v, rfl, -⟩ := derivesAll_symbol.1 (derivesAll_sequence.1 h)
      exact absurd ⟨rfl, rfl⟩ ((List.isChain_cons.1 ha).1 _ rfl)
  · rintro rfl
    exact .inl (derivesAll_nil.2 rfl)

/-- Behind a statement both kinds of lists go on alike, as long as semicolons stand apart. -/
theorem derivesAll_documentedTail {rules : Nonterminal → Phrase} (ha : Apart w) :
    DerivesAll rules [many (sequence [.symbol .semicolon, optional (part .statement)])] w ↔
      DerivesAll rules [many (sequence [.symbol .semicolon, part .statement]),
        optional (.symbol .semicolon)] w := by
  -- a semicolon and the statement behind it are taken off both lists
  induction hl : w.length using Nat.strongRecOn generalizing w with | ind k ih
  have hst {v : List TokenKind} (hw : w = .symbol .semicolon :: v) :
      DerivesAll rules [part .statement,
          many (sequence [.symbol .semicolon, optional (part .statement)])] v ↔
        DerivesAll rules [part .statement, many (sequence [.symbol .semicolon, part .statement]),
          optional (.symbol .semicolon)] v := by
    rw [derivesAll_cons, derivesAll_cons]
    refine exists_congr fun u => exists_congr fun v' => and_congr_right ?_
    rintro rfl
    refine and_congr_right fun _ => ih v'.length ?_ ?_ rfl
    · simp only [← hl, hw, List.length_cons, List.length_append]
      omega
    · rw [hw] at ha
      exact (Apart.of_append (v := .symbol .semicolon :: u) ha).2
  rw [derivesAll_many, derivesAll_many (p := sequence [.symbol .semicolon, part .statement])]
  simp only [derivesAll_sequence, List.cons_append, List.nil_append, derivesAll_symbol,
    derivesAll_optional, derivesAll_nil]
  rw [or_assoc]
  refine or_congr_right ?_
  rw [← exists_or]
  refine exists_congr fun v => ?_
  rw [← and_or_left]
  refine and_congr_right fun hw => or_congr ?_ (hst hw)
  exact derivesAll_emptyTail (hw ▸ ha)

theorem derives_documentedList {rules : Nonterminal → Phrase} (ha : Apart w) :
    Derives rules documentedList w ↔ Derives rules separatedList w := by
  have hall (p : Phrase) : Derives rules p w ↔ DerivesAll rules [p] w := by
    simp [derivesAll_cons]
  rw [hall, hall, documentedList, separatedList, derivesAll_optional, derivesAll_optional,
    derivesAll_sequence, derivesAll_sequence]
  refine or_congr_right ?_
  simp only [List.append_nil]
  rw [derivesAll_cons, derivesAll_cons]
  refine exists_congr fun u => exists_congr fun v => and_congr_right ?_
  rintro rfl
  exact and_congr_right fun _ => derivesAll_documentedTail ha.of_append.2

/-- Words may be derived with another production for lists, if that derives the same lists. -/
theorem Derives.change_list {list list' p : Phrase}
    (hl : ∀ w, Apart w → Derives (production list') list w → Derives (production list') list' w)
    (h : Derives (production list) p w) (ha : Apart w) : Derives (production list') p w := by
  induction h with
  | token k => exact .token k
  | @part n w h ih =>
    cases n with
    | statementList => exact .part (hl w ha (ih ha))
    | _ => exact .part (ih ha)
  | nil => exact .nil
  | cons _ _ ih ih' => exact .cons (ih ha.of_append.1) (ih' ha.of_append.2)
  | choice hp _ ih => exact .choice hp (ih ha)
  | skip p => exact .skip p
  | take _ ih => exact .take (ih ha)
  | stop p => exact .stop p
  | again _ _ ih ih' => exact .again (ih ha.of_append.1) (ih' ha.of_append.2)

theorem derives_documented_iff {p : Phrase} (ha : Apart w) :
    Derives documented p w ↔ Derives grammar p w := by
  constructor
  · intro h
    exact h.change_list (fun w ha hw => (derives_documentedList ha).1 hw) ha
  · intro h
    exact h.change_list (fun w ha hw => (derives_documentedList ha).2 hw) ha

/-! ### Accepted texts -/

/-- A text is accepted just when its tokens are a program of the language reference and none of its
semicolons stands right behind another. -/
theorem check_eq_ok_iff_documented (text : String) :
    check text = .ok () ↔ ∃ ts n, tokenize text = .ok (ts ++ [n]) ∧ n.kind = .eof ∧
      Derives documented (.part .statementList) (ts.map Token.kind) ∧
      Apart (ts.map Token.kind) := by
  constructor
  · intro h
    obtain ⟨ts, n, ht, hn, -, hg⟩ := exists_reaches_of_check h
    have ha := (apart_of_generates hg).1
    exact ⟨ts, n, ht, hn, (derives_documented_iff ha).2 (generates_program.1 hg), ha⟩
  · rintro ⟨ts, n, ht, hn, hd, ha⟩
    have hg := generates_program.2 ((derives_documented_iff ha).1 hd)
    obtain ⟨es, -, hc, -⟩ := exists_reaches_of_tokenize ht hn hg
    exact hc

/-- An empty statement in front of a semicolon belongs to the language reference, and is
refused. -/
theorem check_empty_statement :
    (∃ ts n, tokenize "break;;" = .ok (ts ++ [n]) ∧ n.kind = .eof ∧
      Derives documented (.part .statementList) (ts.map Token.kind)) ∧
    check "break;;" = .error (.grammatical ⟨"a statement", "';'", ⟨1, 7⟩⟩) := by
  let t₁ : Token := ⟨.keyword .kwBreak, .none, ⟨1, 1⟩⟩
  let t₂ : Token := ⟨.symbol .semicolon, .none, ⟨1, 6⟩⟩
  let t₃ : Token := ⟨.symbol .semicolon, .none, ⟨1, 7⟩⟩
  constructor
  · have hbreak : Derives documented (.part .statement) [.keyword .kwBreak] :=
      .part (.choice (p := .part .breakStmt) (by simp) (.part (.token _)))
    have hempty : Derives documented (.sequence [.symbol .semicolon, .optional (.part .statement)])
        ([TokenKind.symbol .semicolon] ++ ([] ++ [])) := .cons (.token _) (.cons (.skip _) .nil)
    have hread : tokenize "break;;" = .ok ([t₁, t₂, t₃] ++ [.eof ⟨1, 8⟩]) :=
      tokenize_of_firstTokens (by with_unfolding_all rfl) (by simp [Endless]) rfl
    refine ⟨[t₁, t₂, t₃], .eof ⟨1, 8⟩, hread, rfl, .part (.take ?_)⟩
    exact .cons hbreak (.cons (.again hempty (.again hempty (.stop _))) .nil)
  · have hr : ∃ es, Reaches t₃ program [t₁, t₂] es
        [.statement, .moreStatements, .endOfProgram] :=
      ⟨_, .reduce rfl <| .shift rfl <| .reduce rfl <| .shift rfl <| .reduce rfl <| .refl _⟩
    obtain ⟨es, hr⟩ := hr
    exact (recognize_of_firstTokens hr rfl (by with_unfolding_all rfl)).1

end ScriptCheck
