import ScriptCheck.Proofs.Lexing.Lexemes
import Mathlib.Data.List.Basic

/-!
# Spelling tokens

How tokens that carry no double are written: words as they are, numbers with any number of leading
zeros, strings between marks of either kind with an escape for what a backslash can stand for. What
is written in this way is read back in front of any blank.
-/

namespace ScriptCheck

/-! ### Escapes -/

/-- What stands for a character in a string. -/
def escapeChar : Char → List Char
  | '\\' => ['\\', '\\']
  | '\n' => ['\\', 'n']
  | '\r' => ['\\', 'r']
  | '\t' => ['\\', 't']
  | c => [c]

def escape (text : List Char) : List Char :=
  text.flatMap escapeChar

@[simp] theorem escape_nil : escape [] = [] := rfl

@[simp] theorem escape_cons (c : Char) (text : List Char) :
    escape (c :: text) = escapeChar c ++ escape text := rfl

/-- Characters that are read as `content`, for contents without a double. -/
inductive Spells : TokenKind × Payload → List Char → Prop
  | symbol (s : Symbol) : Spells (.symbol s, .none) s.text.toList
  | notEqual : Spells (.symbol .notEqual, .none) ['<', '>']
  | keyword (k : Keyword) : Spells (.keyword k, .none) k.text.toList
  | identifier {letters : List Char} (h : IsWord letters)
      (hk : Keyword.ofText? (String.ofList letters) = none) :
      Spells (.identifier, .text (String.ofList letters)) letters
  | integer {digits : List Char} (hn : digits ≠ []) (hd : ∀ c ∈ digits, c.isDigit)
      (hv : decimalValue digits ≤ maxInteger) :
      Spells (.integer, .integer (decimalValue digits)) digits
  | string {mark : Char} {text : List Char} (hm : mark = '"' ∨ mark = '\'') (ht : mark ∉ text) :
      Spells (.string, .text (String.ofList text)) (mark :: (escape text ++ [mark]))

variable {mark c : Char} {text digits letters lexeme : List Char} {content : TokenKind × Payload}

/-! ### Words -/

theorem word_of_isWord (h : IsWord letters) (hk : Keyword.ofText? (String.ofList letters) = none) :
    (Lexeme.word letters).content = .ok (.identifier, .text (String.ofList letters)) := by
  simp only [Lexeme.word, h.takeWhile, TokenKind.ofWord, hk]

/-! ### Integers -/

theorem le_foldl_digits (digits : List Char) (value : Nat) :
    value ≤ digits.foldl (fun n c => 10 * n + digitValue c) value := by
  induction digits generalizing value with
  | nil => exact Nat.le_refl value
  | cons c digits ih =>
    have h := ih (10 * value + digitValue c)
    rw [List.foldl_cons]
    omega

namespace Digits

variable {limit value : Nat}

/-- A run of digits is read as a whole if its value stays within the limit. -/
theorem readOnto_of_le (taken : List Char)
    (h : (text.takeWhile Char.isDigit).foldl (fun n c => 10 * n + digitValue c) value ≤ limit) :
    readOnto limit value taken text =
      ⟨(text.takeWhile Char.isDigit).foldl (fun n c => 10 * n + digitValue c) value,
        taken.reverse ++ text.takeWhile Char.isDigit, text.dropWhile Char.isDigit⟩ := by
  induction text generalizing value taken with
  | nil => simp [readOnto]
  | cons c text ih =>
    by_cases hc : c.isDigit
    · simp only [List.takeWhile_cons, List.dropWhile_cons, if_pos hc, List.foldl_cons] at h ⊢
      have hl : 10 * value + digitValue c ≤ limit := (le_foldl_digits _ _).trans h
      rw [readOnto, if_pos ⟨hc, hl⟩, ih (c :: taken) h]
      simp
    · simp [readOnto, hc]

theorem read_of_le (h : decimalValue (text.takeWhile Char.isDigit) ≤ limit) :
    read limit text = ⟨decimalValue (text.takeWhile Char.isDigit), text.takeWhile Char.isDigit,
      text.dropWhile Char.isDigit⟩ :=
  readOnto_of_le [] h

end Digits

theorem number_of_isDigit (hn : digits ≠ []) (hd : ∀ c ∈ digits, c.isDigit)
    (hv : decimalValue digits ≤ maxInteger) :
    Lexeme.number digits = ⟨.ok (.integer, .integer (decimalValue digits)), digits, []⟩ := by
  have hall : digits.takeWhile Char.isDigit = digits := List.takeWhile_eq_self_iff.2 hd
  have hread : Digits.read maxInteger digits = ⟨decimalValue digits, digits, []⟩ := by
    rw [Digits.read_of_le (hall.symm ▸ hv), hall, List.dropWhile_eq_nil_iff.2 hd]
  rw [Lexeme.number_of_not_point hread rfl (by simp) hn]
  rfl

/-! ### Strings -/

theorem escapeChar_of_ne (h : c ≠ '\\') (hn : c ≠ '\n') (hr : c ≠ '\r') (ht : c ≠ '\t') :
    escapeChar c = [c] := by
  unfold escapeChar
  split <;> first | rfl | contradiction

theorem not_mem_escapeChar (c : Char) : '\r' ∉ escapeChar c := by
  intro h
  unfold escapeChar at h
  split at h
  · simp at h
  · simp at h
  · simp at h
  · simp at h
  · rename_i hr _
    exact hr (List.mem_singleton.1 h).symm

/-- What stands for a character decodes to it, if it is not the closing mark. -/
theorem Decodes.escapeChar {body : List Char} (h : Decodes mark body text) (hc : c ≠ mark) :
    Decodes mark (escapeChar c ++ body) (c :: text) := by
  by_cases hb : c = '\\'
  · subst hb
    exact h.escape '\\'
  by_cases hn : c = '\n'
  · subst hn
    exact h.escape 'n'
  by_cases hr : c = '\r'
  · subst hr
    exact h.escape 'r'
  by_cases ht : c = '\t'
  · subst ht
    exact h.escape 't'
  rw [escapeChar_of_ne hb hn hr ht]
  exact h.plain hb hc

theorem decodes_escape (ht : mark ∉ text) : Decodes mark (escape text) text := by
  induction text with
  | nil => exact .nil
  | cons c text ih =>
    obtain ⟨hc, ht⟩ := not_or.1 (mt List.mem_cons.2 ht)
    exact (ih ht).escapeChar (Ne.symm hc)

/-! ### Any token -/

theorem isLexeme_notEqual : IsLexeme (.symbol .notEqual, .none) ['<', '>'] := by
  have hg : gapPiece? ['<', '>'] = none := rfl
  exact isLexeme_of_read hg rfl (by simp)

theorem not_isWordStart_of_isDigit (h : c.isDigit) : ¬ Lexeme.isWordStart c := by
  intro hw
  rw [Lexeme.isWordStart, Bool.or_eq_true, isAlpha_iff, decide_eq_true_eq] at hw
  rw [isDigit_iff] at h
  rcases hw with hw | rfl
  · omega
  · exact absurd h (by decide)

theorem isLexeme_integer (hn : digits ≠ []) (hd : ∀ c ∈ digits, c.isDigit)
    (hv : decimalValue digits ≤ maxInteger) :
    IsLexeme (.integer, .integer (decimalValue digits)) digits := by
  have hnumber := number_of_isDigit hn hd hv
  obtain ⟨c, r, rfl⟩ := List.exists_cons_of_ne_nil hn
  have hc : c.isDigit := hd c (List.mem_cons_self ..)
  have hs : c ≠ '/' := by
    rintro rfl
    cases hc
  have hb : ¬ isBlank c := by
    intro h
    rw [isDigit_of_isBlank h] at hc
    cases hc
  have hread : Lexeme.read (c :: r) = Lexeme.number (c :: r) := by
    rw [Lexeme.read_cons fun _ _ => hs, Lexeme.readFrom, if_neg (not_isWordStart_of_isDigit hc),
      if_pos (.inl hc)]
  have hl := isLexeme_of_read (gapPiece?_cons (fun _ _ => hs) hb)
    (hread.symm ▸ congrArg Lexeme.content hnumber) (by simp)
  rwa [hread, hnumber] at hl

theorem isLexeme_string (hm : mark = '"' ∨ mark = '\'') (ht : mark ∉ text) :
    IsLexeme (.string, .text (String.ofList text)) (mark :: (escape text ++ [mark])) := by
  have hb : mark ≠ '\\' := by
    rcases hm with rfl | rfl <;> decide
  have hread : Lexeme.read (mark :: (escape text ++ [mark])) =
      Lexeme.quoted mark (escape text ++ [mark]) := by
    rcases hm with rfl | rfl <;> rfl
  have hg : gapPiece? (mark :: (escape text ++ [mark])) = none := by
    rcases hm with rfl | rfl <;> rfl
  have hquoted := Lexeme.quoted_of_decodes (decodes_escape ht) hb []
  have hl := isLexeme_of_read hg (by rw [hread, hquoted]) (by simp)
  rwa [hread, hquoted] at hl

theorem Spells.isLexeme (h : Spells content lexeme) : IsLexeme content lexeme := by
  cases h with
  | symbol s => exact isLexeme_symbol s
  | notEqual => exact isLexeme_notEqual
  | keyword k => exact isLexeme_keyword k
  | identifier h hk => exact isLexeme_word h (word_of_isWord h hk) (by simp)
  | integer hn hd hv => exact isLexeme_integer hn hd hv
  | string hm ht => exact isLexeme_string hm ht

/-- A carriage return is always escaped. -/
theorem Spells.not_mem (h : Spells content lexeme) : '\r' ∉ lexeme := by
  cases h with
  | symbol s => cases s <;> decide
  | notEqual => decide
  | keyword k => cases k <;> decide
  | identifier h _ =>
    obtain ⟨c, r, rfl, hc, hr⟩ := h
    intro hm
    rcases List.mem_cons.1 hm with rfl | hm
    · cases hc
    · cases hr _ hm
  | integer _ hd _ =>
    intro hm
    cases hd _ hm
  | @string mark text hm _ =>
    have hmark : '\r' ≠ mark := by
      rcases hm with rfl | rfl <;> decide
    have hescape : '\r' ∉ escape text := by
      intro h
      obtain ⟨c, -, hc⟩ := List.mem_flatMap.1 h
      exact not_mem_escapeChar c hc
    simp [hmark, hescape]

/-! ### Numbers and names -/

theorem Spells.decimal {n : Nat} (h : n ≤ maxInteger) :
    Spells (.integer, .integer n) (Nat.toDigits 10 n) := by
  have hv : decimalValue (Nat.toDigits 10 n) = n :=
    Nat.ofDigitChars_eq_foldl.symm.trans Nat.ofDigitChars_ten_toDigits
  have hs := Spells.integer Nat.toDigits_ne_nil
    (fun c hc => Nat.isDigit_of_mem_toDigits (by decide) (by decide) hc) (hv.le.trans h)
  rwa [hv] at hs

/-- A word that is no keyword. -/
def IsName (name : String) : Prop :=
  IsWord name.toList ∧ Keyword.ofText? name = none

theorem isName_x : IsName "x" :=
  ⟨⟨_, _, rfl, rfl, by simp⟩, rfl⟩

theorem Spells.name {name : String} (h : IsName name) :
    Spells (.identifier, .text name) name.toList := by
  have hk : Keyword.ofText? (String.ofList name.toList) = none := by
    rw [String.ofList_toList]
    exact h.2
  have hs := Spells.identifier h.1 hk
  rwa [String.ofList_toList] at hs

end ScriptCheck
