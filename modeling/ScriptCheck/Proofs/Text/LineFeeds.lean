import ScriptCheck.Source
import ScriptCheck.Proofs.Text.Lines

/-!
# Line feeds for line breaks

Line feeds take the place of line breaks in two passes over a text: one replaces each CR LF, the
other each CR that is left. What results is the folded text, which folding does not change any more.
The lines of a text can also be had without folding, by a search for breaks in the text as it is.
-/

namespace ScriptCheck

/-- The text with LF for each CR LF. -/
def replaceCrLf : List Char → List Char
  | [] => []
  | '\r' :: '\n' :: rest => '\n' :: replaceCrLf rest
  | c :: rest => c :: replaceCrLf rest

/-- The text with LF for each CR LF, and then for each CR. -/
def lineFeeds (text : String) : String :=
  String.ofList ((replaceCrLf text.toList).map fun c => if c = '\r' then '\n' else c)

theorem map_replaceCrLf (text : List Char) :
    (replaceCrLf text).map (fun c => if c = '\r' then '\n' else c) = foldBreaks text := by
  induction text using countBreaks.induct with
  | case1 => rfl
  | case2 rest ih => rw [replaceCrLf, List.map_cons, ih, foldBreaks_crlf, if_neg (by decide)]
  | case3 c rest hr ih =>
    rw [replaceCrLf.eq_3 _ _ hr, List.map_cons, ih, foldBreaks_cons_of_not_crlf hr]
    by_cases hc : c = '\r'
    · rw [hc]
      rfl
    · by_cases hn : c = '\n' <;> simp [isBreak, hc, hn]

theorem toList_lineFeeds (text : String) : (lineFeeds text).toList = foldBreaks text.toList := by
  rw [lineFeeds, String.toList_ofList, map_replaceCrLf]

theorem foldBreaks_foldBreaks (text : List Char) : foldBreaks (foldBreaks text) = foldBreaks text :=
  foldBreaks_of_not_mem (not_mem_foldBreaks text)

theorem ofText_lineFeeds (text : String) : Source.ofText (lineFeeds text) = Source.ofText text := by
  rw [Source.ofText, Source.ofText, toList_lineFeeds, foldBreaks_foldBreaks]

/-! ### Lines of the text as it is -/

/-- What stands behind the first break of a text, which may be a CR LF. -/
def behindBreak? (text : List Char) : Option (List Char) :=
  match text.dropWhile (!isBreak ·) with
  | [] => none
  | c :: rest => some (if c = '\r' ∧ rest.head? = some '\n' then rest.tail else rest)

/-- What stands behind the first `n` breaks of a text, when it has so many. -/
def dropBreaks : Nat → List Char → Option (List Char)
  | 0, text => some text
  | n + 1, text => (behindBreak? text).bind (dropBreaks n)

/-- Line `number` of a text as it is, counted from one. -/
def searchLine (text : List Char) (number : Nat) : List Char :=
  ((dropBreaks (number - 1) text).map headLine).getD []

theorem dropWhile_foldBreaks (text : List Char) :
    (foldBreaks text).dropWhile (· ≠ '\n') = foldBreaks (text.dropWhile (!isBreak ·)) := by
  induction text using countBreaks.induct with
  | case1 => rfl
  | case2 rest ih => simp [isBreak]
  | case3 c rest hr ih =>
    rw [foldBreaks_cons_of_not_crlf hr]
    by_cases hc : isBreak c
    · simp [hc, foldBreaks_cons_of_not_crlf hr]
    · have hn : c ≠ '\n' := by rintro rfl; exact hc rfl
      simpa [hc, hn] using ih

theorem dropLines_foldBreaks (n : Nat) (text : List Char) :
    dropLines n (foldBreaks text) = (dropBreaks n text).map foldBreaks := by
  induction n generalizing text with
  | zero => rfl
  | succ n ih =>
    rw [dropLines, dropBreaks, behindBreak?, dropWhile_foldBreaks]
    cases text.dropWhile (!isBreak ·) with
    | nil => rfl
    | cons c rest =>
      rw [foldBreaks_cons_eq]
      exact ih _

/-- A search for breaks finds the same lines. -/
theorem lineAt_eq_searchLine (text : List Char) (number : Nat) :
    lineAt text number = searchLine text number := by
  rw [lineAt, searchLine, dropLines_foldBreaks]
  cases dropBreaks (number - 1) text with
  | none => rfl
  | some rest => exact firstLine_foldBreaks rest

theorem lineAt_lineFeeds (text : String) (number : Nat) :
    lineAt (lineFeeds text).toList number = lineAt text.toList number := by
  rw [lineAt, lineAt, toList_lineFeeds, foldBreaks_foldBreaks]

end ScriptCheck
