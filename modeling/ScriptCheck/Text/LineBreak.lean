/-!
# Line breaks

A text may end its lines with CR LF, with a lone CR or with a lone LF. `foldBreaks` writes each of
these as one LF, and everything that counts lines works on the folded text.
-/

namespace ScriptCheck

/-! ### Folding -/

/-- Folds the breaks of a text behind what is folded already, kept in reverse. -/
def foldBreaksOnto (folded : List Char) : List Char → List Char
  | [] => folded.reverse
  | '\r' :: '\n' :: rest => foldBreaksOnto ('\n' :: folded) rest
  | '\r' :: rest => foldBreaksOnto ('\n' :: folded) rest
  | c :: rest => foldBreaksOnto (c :: folded) rest

/-- The text with one LF for each of its line breaks. -/
def foldBreaks (text : List Char) : List Char :=
  foldBreaksOnto [] text

theorem foldBreaksOnto_append (folded before text : List Char) :
    foldBreaksOnto (folded ++ before) text = before.reverse ++ foldBreaksOnto folded text := by
  fun_induction foldBreaksOnto folded text with
  | case1 => simp [foldBreaksOnto]
  | case2 folded rest ih => simpa [foldBreaksOnto] using ih
  | case3 folded rest h ih =>
    rw [foldBreaksOnto]
    · exact ih
    · exact h
  | case4 folded c rest h h' ih =>
    rw [foldBreaksOnto]
    · exact ih
    · exact h
    · exact h'

theorem foldBreaksOnto_eq (folded text : List Char) :
    foldBreaksOnto folded text = folded.reverse ++ foldBreaks text :=
  foldBreaksOnto_append [] folded text

@[simp] theorem foldBreaks_nil : foldBreaks [] = [] := rfl

@[simp] theorem foldBreaks_crlf (rest : List Char) :
    foldBreaks ('\r' :: '\n' :: rest) = '\n' :: foldBreaks rest := by
  rw [foldBreaks, foldBreaksOnto, foldBreaksOnto_eq]; rfl

theorem foldBreaks_cr {rest : List Char} (h : ∀ r, rest ≠ '\n' :: r) :
    foldBreaks ('\r' :: rest) = '\n' :: foldBreaks rest := by
  rw [foldBreaks, foldBreaksOnto, foldBreaksOnto_eq]
  · rfl
  · exact fun r hr => h r hr

theorem foldBreaks_cons {c : Char} (h : c ≠ '\r') (rest : List Char) :
    foldBreaks (c :: rest) = c :: foldBreaks rest := by
  rw [foldBreaks, foldBreaksOnto, foldBreaksOnto_eq]
  · rfl
  all_goals simp_all

/-! ### Lines -/

/-- The first line of a folded text, without its break. -/
def firstLine (text : List Char) : List Char :=
  text.takeWhile (· ≠ '\n')

/-- What stands behind the first `n` breaks of a folded text, when it has so many. -/
def dropLines : Nat → List Char → Option (List Char)
  | 0, text => some text
  | n + 1, text =>
    match text.dropWhile (· ≠ '\n') with
    | [] => none
    | _ :: rest => dropLines n rest

/-- Line `number` of a text, counted from one, and empty past the last line. -/
def lineAt (text : List Char) (number : Nat) : List Char :=
  match dropLines (number - 1) (foldBreaks text) with
  | some rest => firstLine rest
  | none => []

end ScriptCheck
