/-!
# Gaps between lexemes

Between two lexemes stand blanks, line comments and block comments. A line comment ends in front of
the line break; a block comment ends with the first `*/` behind its opening two characters, so
comments do not nest. A block comment that is never closed is no part of a gap.
-/

namespace ScriptCheck

def isBlank (c : Char) : Bool :=
  c = ' ' || c = '\t' || c = '\n'

/-! ### One piece of a gap -/

/-- Looks for the end of a block comment, with the text of the comment so far in reverse. -/
def closeCommentOnto (inner : List Char) : List Char → Option (List Char × List Char)
  | [] => none
  | '*' :: '/' :: rest => some (inner.reverse, rest)
  | c :: rest => closeCommentOnto (c :: inner) rest

/-- The text of a block comment up to its first `*/`, and what follows that. -/
def closeComment? (text : List Char) : Option (List Char × List Char) :=
  closeCommentOnto [] text

theorem closeCommentOnto_append {before text inner rest : List Char}
    (h : closeCommentOnto before text = some (inner, rest)) :
    inner ++ '*' :: '/' :: rest = before.reverse ++ text := by
  fun_induction closeCommentOnto before text with
  | case1 => simp at h
  | case2 =>
    simp only [Option.some.injEq, Prod.mk.injEq] at h
    simp [← h.1, ← h.2]
  | case3 before c rest' _ ih => simpa using ih h

theorem closeComment?_append {text inner rest : List Char}
    (h : closeComment? text = some (inner, rest)) : inner ++ '*' :: '/' :: rest = text := by
  simpa using closeCommentOnto_append h

/-- A run of blanks or one comment, and what follows it. -/
def gapPiece? : List Char → Option (List Char × List Char)
  | '/' :: '/' :: rest => some ('/' :: '/' :: rest.takeWhile (· ≠ '\n'), rest.dropWhile (· ≠ '\n'))
  | '/' :: '*' :: rest =>
    match closeComment? rest with
    | some (inner, rest) => some ('/' :: '*' :: (inner ++ ['*', '/']), rest)
    | none => none
  | c :: rest =>
    if isBlank c then some (c :: rest.takeWhile isBlank, rest.dropWhile isBlank) else none
  | [] => none

theorem gapPiece?_append {text piece rest : List Char} (h : gapPiece? text = some (piece, rest)) :
    piece ++ rest = text ∧ piece ≠ [] := by
  unfold gapPiece? at h
  split at h
  · simp only [Option.some.injEq, Prod.mk.injEq] at h
    simp [← h.1, ← h.2]
  · split at h
    · rename_i hc
      simp only [Option.some.injEq, Prod.mk.injEq] at h
      simp [← h.1, ← h.2, ← closeComment?_append hc]
    · simp at h
  · split at h
    · simp only [Option.some.injEq, Prod.mk.injEq] at h
      simp [← h.1, ← h.2]
    · simp at h
  · simp at h

theorem length_lt_of_gapPiece? {text piece rest : List Char}
    (h : gapPiece? text = some (piece, rest)) : rest.length < text.length := by
  obtain ⟨h₁, h₂⟩ := gapPiece?_append h
  have := List.length_pos_iff.2 h₂
  simp [← h₁]
  omega

/-! ### The whole gap -/

/-- Takes pieces of a gap off a text for as long as it begins with one. -/
def splitGapOnto (gap : List Char) (text : List Char) : List Char × List Char :=
  match _ : gapPiece? text with
  | some (piece, rest) => splitGapOnto (piece.reverseAux gap) rest
  | none => (gap.reverse, text)
termination_by text.length
decreasing_by exact length_lt_of_gapPiece? ‹_›

theorem splitGapOnto_of_none {gap text : List Char} (h : gapPiece? text = none) :
    splitGapOnto gap text = (gap.reverse, text) := by
  rw [splitGapOnto]
  split <;> simp_all

theorem splitGapOnto_of_some {gap text piece rest : List Char}
    (h : gapPiece? text = some (piece, rest)) :
    splitGapOnto gap text = splitGapOnto (piece.reverse ++ gap) rest := by
  rw [splitGapOnto]
  split <;> simp_all [List.reverseAux_eq]

/-- The gap at the head of a text, and what follows it. -/
def splitGap (text : List Char) : List Char × List Char :=
  splitGapOnto [] text

theorem splitGapOnto_append (gap text : List Char) :
    (splitGapOnto gap text).1 ++ (splitGapOnto gap text).2 = gap.reverse ++ text := by
  fun_induction splitGapOnto gap text with
  | case1 gap text piece rest h ih =>
    rw [ih, ← (gapPiece?_append h).1]
    simp [List.reverseAux_eq]
  | case2 => rfl

theorem splitGap_append (text : List Char) : (splitGap text).1 ++ (splitGap text).2 = text := by
  simpa [splitGap] using splitGapOnto_append [] text

theorem length_splitGap_le (text : List Char) : (splitGap text).2.length ≤ text.length := by
  have := congrArg List.length (splitGap_append text)
  simp at this
  omega

end ScriptCheck
