/-!
# Places in a source text

Lines and columns are counted from one. A column is a number of characters, and only a line feed
begins a line: places are counted in texts whose breaks are folded.
-/

namespace ScriptCheck

structure Location where
  line : Nat
  column : Nat
deriving DecidableEq, Repr, Inhabited

namespace Location

/-- The place of the first character of a text. -/
def start : Location := ⟨1, 1⟩

/-- The place behind the character `c` at `l`. -/
def next (l : Location) (c : Char) : Location :=
  if c = '\n' then ⟨l.line + 1, 1⟩ else ⟨l.line, l.column + 1⟩

/-- The place behind a text that begins at `l`. -/
def after (l : Location) (text : List Char) : Location :=
  text.foldl next l

@[simp] theorem after_nil (l : Location) : l.after [] = l := rfl

@[simp] theorem after_cons (l : Location) (c : Char) (text : List Char) :
    l.after (c :: text) = (l.next c).after text := rfl

@[simp] theorem after_append (l : Location) (s t : List Char) :
    l.after (s ++ t) = (l.after s).after t := by
  simp [after]

def describe (l : Location) : String :=
  s!"line {l.line}, column {l.column}"

/-! ### Order -/

/-- A place comes before another on an earlier line, or further left on the same line. -/
instance : LT Location :=
  ⟨fun l l' => l.line < l'.line ∨ l.line = l'.line ∧ l.column < l'.column⟩

instance : LE Location :=
  ⟨fun l l' => l.line < l'.line ∨ l.line = l'.line ∧ l.column ≤ l'.column⟩

theorem lt_iff {l l' : Location} :
    l < l' ↔ l.line < l'.line ∨ l.line = l'.line ∧ l.column < l'.column :=
  Iff.rfl

theorem le_iff {l l' : Location} :
    l ≤ l' ↔ l.line < l'.line ∨ l.line = l'.line ∧ l.column ≤ l'.column :=
  Iff.rfl

theorem lt_irrefl (l : Location) : ¬ l < l := by
  simp [lt_iff]

theorem le_refl (l : Location) : l ≤ l :=
  Or.inr ⟨rfl, Nat.le_refl _⟩

theorem le_of_lt {l l' : Location} (h : l < l') : l ≤ l' := by
  rw [lt_iff] at h
  rw [le_iff]
  omega

theorem lt_of_lt_of_le {l l' l'' : Location} (h : l < l') (h' : l' ≤ l'') : l < l'' := by
  rw [lt_iff] at h ⊢
  rw [le_iff] at h'
  omega

theorem lt_of_le_of_lt {l l' l'' : Location} (h : l ≤ l') (h' : l' < l'') : l < l'' := by
  rw [lt_iff] at h' ⊢
  rw [le_iff] at h
  omega

theorem le_trans {l l' l'' : Location} (h : l ≤ l') (h' : l' ≤ l'') : l ≤ l'' := by
  rw [le_iff] at *
  omega

/-- Behind a text the line is a later one, or the column has grown by the length of the text. -/
theorem after_cases (l : Location) (text : List Char) :
    l.line < (l.after text).line ∨
      (l.after text).line = l.line ∧ (l.after text).column = l.column + text.length := by
  induction text generalizing l with
  | nil => simp
  | cons c text ih =>
    have := ih (l.next c)
    simp only [after_cons, List.length_cons]
    unfold next at *
    split at this <;> simp_all <;> omega

/-- On one line only the column grows. -/
theorem after_of_not_mem {text : List Char} (h : '\n' ∉ text) (l : Location) :
    l.after text = ⟨l.line, l.column + text.length⟩ := by
  induction text generalizing l with
  | nil => rfl
  | cons c text ih =>
    obtain ⟨hc, ht⟩ := List.ne_and_not_mem_of_not_mem_cons h
    rw [after_cons, ih ht, next, if_neg (Ne.symm hc), List.length_cons]
    simp only [Nat.add_comm, Nat.add_left_comm]

theorem le_after (l : Location) (text : List Char) : l ≤ l.after text := by
  have := l.after_cases text
  rw [le_iff]
  omega

theorem lt_after (l : Location) {text : List Char} (h : text ≠ []) : l < l.after text := by
  have := l.after_cases text
  have := List.length_pos_iff.2 h
  rw [lt_iff]
  omega

end Location

end ScriptCheck
