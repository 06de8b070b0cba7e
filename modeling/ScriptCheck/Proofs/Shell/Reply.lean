import Mathlib.Data.List.Forall2
import ScriptCheck.Proofs.Shell.History

/-!
# Replies

What a reply does not depend on. The names in a directory are listed in an order of their own,
whatever order the host has. Colour puts marks around the text of some lines and changes nothing
else, so there are as many lines with it as without. And the host of a session is changed by editors
only.
-/

namespace ScriptCheck

/-! ### Names in a directory -/

namespace Settings

variable {entries : List Entry} {names : List String}

theorem pairwise_listedNames (entries : List Entry) :
    (listedNames entries).Pairwise (· ≤ ·) := by
  have h : (listedNames entries).Pairwise fun a b => decide (a ≤ b) = true := by
    apply List.pairwise_mergeSort
    · intro a b c hab hbc
      simp only [decide_eq_true_eq] at hab hbc ⊢
      exact String.le_trans hab hbc
    · intro a b
      simp only [Bool.or_eq_true, decide_eq_true_eq]
      exact String.le_total a b
  exact h.imp decide_eq_true_eq.mp

theorem perm_listedNames (entries : List Entry) :
    (listedNames entries).Perm ((entries.filterMap Except.toOption).map lossyText) :=
  List.mergeSort_perm _ _

/-- The entries that could be read are listed by name, in the one order that is sorted. -/
theorem listedNames_eq (hs : names.Pairwise (· ≤ ·))
    (hp : names.Perm ((entries.filterMap Except.toOption).map lossyText)) :
    listedNames entries = names := by
  refine List.Perm.eq_of_pairwise (fun a b _ _ hab hba => String.le_antisymm hab hba)
    (pairwise_listedNames entries) hs ?_
  exact (perm_listedNames entries).trans hp.symm

/-- `dir` writes the directory and a line for each entry that could be read, in the order of the
names. In which order the host tells the entries does not matter. -/
theorem dirReply_eq {σ : Type} [Host σ] [Terminal] {cfg : Settings} {host : σ}
    (h : Host.list host cfg.scriptsDir = .ok entries) (hs : names.Pairwise (· ≤ ·))
    (hp : names.Perm ((entries.filterMap Except.toOption).map lossyText)) :
    cfg.dirReply host = (cfg.scriptsDir ++ "\n") :: names.map ("  " ++ · ++ "\n") := by
  rw [dirReply, h]
  dsimp only
  rw [listedNames_eq hs hp]

end Settings

/-! ### Colour -/

theorem IsStyleMark.not_mem {text : String} (h : IsStyleMark text) : '\n' ∉ text.toList := by
  obtain ⟨numbers, rfl, hn⟩ := h
  have hnumbers : '\n' ∉ numbers.toList := fun hm => absurd (hn _ hm) (by decide)
  simp [hnumbers]

theorem twoColumns_cases {fill : String} (hf : fill = " " ∨ fill = "0") {n : Nat} (hn : n < 100) :
    (twoColumns fill n).length = 2 ∧ '\n' ∉ (twoColumns fill n).toList := by
  have h : ∀ n < 100, (twoColumns " " n).length = 2 ∧ '\n' ∉ (twoColumns " " n).toList ∧
      (twoColumns "0" n).length = 2 ∧ '\n' ∉ (twoColumns "0" n).toList := by
    decide +kernel
  obtain ⟨h₁, h₂, h₃, h₄⟩ := h n hn
  obtain rfl | rfl := hf
  · exact ⟨h₁, h₂⟩
  · exact ⟨h₃, h₄⟩

section

variable [Terminal]

/-- The first text is the second, or it has marks around all but the break at its end. -/
inductive Painted : String → String → Prop
  | same (text : String) : Painted text text
  | styled (style : Style) (text : String) :
      Painted ((Terminal.marks style).1 ++ text ++ (Terminal.marks style).2 ++ "\n") (text ++ "\n")

theorem Painted.count_eq {text plain : String} (h : Painted text plain) :
    text.toList.count '\n' = plain.toList.count '\n' := by
  cases h with
  | same => rfl
  | styled style text =>
    obtain ⟨hbefore, hbehind⟩ := Terminal.isStyleMark_marks style
    simp [List.count_eq_zero_of_not_mem hbefore.not_mem,
      List.count_eq_zero_of_not_mem hbehind.not_mem]

theorem count_join_of_painted {texts plain : List String} (h : List.Forall₂ Painted texts plain) :
    (String.join texts).toList.count '\n' = (String.join plain).toList.count '\n' := by
  induction h with
  | nil => rfl
  | cons h _ ih => simpa [h.count_eq] using ih

theorem forall₂_painted_same (texts : List String) : List.Forall₂ Painted texts texts :=
  List.forall₂_same.2 fun text _ => .same text

namespace Settings

/-- The settings without colour. -/
def plain (cfg : Settings) : Settings :=
  { cfg with color := false }

theorem painted_styledLine (cfg : Settings) (style : Style) (text : String) :
    Painted (cfg.styledLine style text) (cfg.plain.styledLine style text) := by
  cases hc : cfg.color with
  | false =>
    simp only [styledLine, hc, plain]
    exact .same _
  | true =>
    simp only [styledLine, hc, plain]
    exact .styled style text

/-- A line in a style has the lines of its text. -/
theorem count_styledLine (cfg : Settings) (style : Style) (text : String) :
    (cfg.styledLine style text).toList.count '\n' = text.toList.count '\n' + 1 := by
  rw [(cfg.painted_styledLine style text).count_eq, styledLine, plain]
  simp

theorem painted_failure (cfg : Settings) (message : String) :
    List.Forall₂ Painted (cfg.failure message) (cfg.plain.failure message) :=
  .cons (cfg.painted_styledLine .red message) .nil

theorem painted_checkReply (cfg : Settings) (scanner : Scanner) (name source : String) :
    List.Forall₂ Painted (cfg.checkReply scanner name source).1
        (cfg.plain.checkReply scanner name source).1 ∧
      (cfg.checkReply scanner name source).2 = (cfg.plain.checkReply scanner name source).2 := by
  unfold checkReply
  dsimp only
  split
  · exact ⟨.cons (cfg.painted_styledLine .green _) .nil, rfl⟩
  · exact ⟨cfg.painted_failure _, rfl⟩

theorem painted_unreadable (cfg : Settings) (missing : String) (e : LoadError) :
    List.Forall₂ Painted (cfg.unreadable missing e) (cfg.plain.unreadable missing e) := by
  unfold unreadable
  split <;> exact cfg.painted_failure _

/-- Colour changes nothing but the looks of what is replied. -/
theorem painted_reply {σ : Type} [Host σ] (cfg : Settings) (host : σ) (scanner : Scanner)
    (command : Command) :
    List.Forall₂ Painted (cfg.reply host scanner command).texts
        (cfg.plain.reply host scanner command).texts ∧
      (cfg.reply host scanner command).host = (cfg.plain.reply host scanner command).host ∧
      (cfg.reply host scanner command).scanner =
        (cfg.plain.reply host scanner command).scanner := by
  cases command with
  | quit | empty => exact ⟨.nil, rfl, rfl⟩
  | help => exact ⟨forall₂_painted_same _, rfl, rfl⟩
  | code text =>
    obtain ⟨htexts, hscanner⟩ := cfg.painted_checkReply scanner inputName text
    exact ⟨htexts, rfl, hscanner⟩
  | tokens code =>
    refine ⟨?_, rfl, rfl⟩
    simp only [reply, tokensReply]
    split
    · exact forall₂_painted_same _
    · exact cfg.painted_failure _
  | run path =>
    simp only [reply, runReply, true_and]
    split
    · exact cfg.painted_checkReply scanner path _
    · exact ⟨cfg.painted_unreadable _ _, rfl⟩
  | list path =>
    refine ⟨?_, rfl, rfl⟩
    simp only [reply, listReply]
    split
    · exact forall₂_painted_same _
    · exact cfg.painted_unreadable _ _
  | dir =>
    refine ⟨?_, rfl, rfl⟩
    simp only [reply, dirReply]
    have hdir : cfg.plain.scriptsDir = cfg.scriptsDir := rfl
    rw [hdir]
    split
    · exact forall₂_painted_same _
    · exact cfg.painted_failure _
  | edit path =>
    have hwords : cfg.plain.editorWords = cfg.editorWords := rfl
    simp only [reply, editReply, hwords, and_true]
    split
    · exact ⟨cfg.painted_failure _, rfl⟩
    · split
      · split
        · exact ⟨.nil, rfl⟩
        · exact ⟨cfg.painted_failure _, rfl⟩
      · exact ⟨cfg.painted_failure _, rfl⟩

/-- A reply in colour has as many lines as the same reply without. -/
theorem count_reply {σ : Type} [Host σ] (cfg : Settings) (host : σ) (scanner : Scanner)
    (command : Command) :
    (String.join (cfg.reply host scanner command).texts).toList.count '\n' =
      (String.join (cfg.plain.reply host scanner command).texts).toList.count '\n' :=
  count_join_of_painted (cfg.painted_reply host scanner command).1

end Settings

/-! ### The banner -/

/-- A time takes fifteen columns of one line. -/
theorem Clock.text_columns {c : Clock} (h : c.IsValid) :
    c.text.length = 15 ∧ '\n' ∉ c.text.toList := by
  obtain ⟨month, hlength, hmonth, htext⟩ := Terminal.timeText_eq h
  have hline : '\n' ∉ month.toList := fun hm => absurd (hmonth _ hm) (by decide)
  have hday := twoColumns_cases (.inl rfl) (Nat.lt_of_le_of_lt h.day.2 (by decide))
  have hhour := twoColumns_cases (.inr rfl) (Nat.lt_trans h.hour (by decide : 24 < 100))
  have hminute := twoColumns_cases (.inr rfl) (Nat.lt_trans h.minute (by decide : 60 < 100))
  have hsecond := twoColumns_cases (.inr rfl) (Nat.lt_of_le_of_lt h.second (by decide : 60 < 100))
  rw [Clock.text, htext]
  constructor
  · simp only [String.length_append, hlength, hday, hhour, hminute, hsecond]
    rfl
  · simp [hline, hday, hhour, hminute, hsecond]

/-- The banner has three lines, in colour or not. -/
theorem Session.count_welcome (cfg : Settings) {clock : Clock} (h : clock.IsValid) :
    (String.join (welcome cfg clock)).toList.count '\n' = 3 := by
  have hbanner := cfg.count_styledLine .bold "Welcome to Rhodus, Version 1.0"
  have htime := List.count_eq_zero_of_not_mem (Clock.text_columns h).2
  simp only [welcome, String.toList_join, List.flatMap_cons, List.flatMap_nil, List.count_append,
    String.toList_append, hbanner, htime]
  rfl

/-! ### Hosts -/

section

variable {σ : Type} [Host σ]

/-- Only a program that is started changes the host. -/
theorem Settings.reply_host_cases (cfg : Settings) (host : σ) (scanner : Scanner)
    (command : Command) :
    (cfg.reply host scanner command).host = host ∨
      ∃ program args, (cfg.reply host scanner command).host =
        (Host.launch host program args).2 := by
  cases command with
  | edit path =>
    simp only [reply, editReply]
    split
    · exact .inl rfl
    · rename_i program args _
      refine .inr ⟨program, args ++ [path], ?_⟩
      split
      · rename_i status host' h
        rw [h]
        split <;> rfl
      · rename_i e host' h
        rw [h]
  | _ => exact .inl rfl

/-- What programs keep of a host is kept by all lines of a session. -/
theorem Session.host_executeAll {p : σ → Prop}
    (hp : ∀ host program args, p host → p (Host.launch host program args).2) {s : Session σ}
    (h : p s.host) (lines : List String) : p (s.executeAll lines).host := by
  apply executeAll_invariant (p := fun s => p s.host) _ h
  intro s line h
  rw [execute_host, reply]
  obtain hsame | ⟨program, args, hlaunch⟩ :=
    s.settings.reply_host_cases s.host .empty (Command.parse line)
  · rw [hsame]
    exact h
  · rw [hlaunch]
    exact hp _ _ _ h

end

end

end ScriptCheck
