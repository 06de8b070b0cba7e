import ScriptCheck.Location
import ScriptCheck.Text.LineBreak
import Mathlib.Data.List.DropRight

/-!
# The lines of a text

Whoever counts lines by hand looks at the text as it is, in which a line ends with CR LF, with a
lone CR or with a lone LF. The reader and the diagnostics count in the folded text. Where no CR LF
is torn apart the folded text can be cut in the same place as the text itself, and there both ways
of counting agree: about the number of the line, about what of it lies in front, and about what of
it is still to come.
-/

namespace ScriptCheck

/-! ### Counting in the text itself -/

def isBreak (c : Char) : Bool :=
  c = '\r' || c = '\n'

/-- How many line breaks there are in a text: CR LF is one. -/
def countBreaks : List Char → Nat
  | [] => 0
  | '\r' :: '\n' :: rest => countBreaks rest + 1
  | c :: rest => countBreaks rest + if isBreak c then 1 else 0

/-- What stands in front of the first break of a text. -/
def headLine (text : List Char) : List Char :=
  text.takeWhile (!isBreak ·)

/-- What stands behind the last break of a text. -/
def lastLine (text : List Char) : List Char :=
  text.rtakeWhile (!isBreak ·)

/-- The place of what comes behind the text `front`. -/
def Location.behind (front : List Char) : Location :=
  ⟨1 + countBreaks front, 1 + (lastLine front).length⟩

/-! ### Folding character by character -/

variable {text front rest a b u v : List Char} {c : Char}

theorem foldBreaks_cons_of_not_crlf (h : ∀ r, c = '\r' → rest ≠ '\n' :: r) :
    foldBreaks (c :: rest) = (if isBreak c then '\n' else c) :: foldBreaks rest := by
  by_cases hc : c = '\r'
  · rw [hc, foldBreaks_cr fun r => h r hc]
    rfl
  · rw [foldBreaks_cons hc]
    by_cases hn : c = '\n' <;> simp [isBreak, hc, hn]

theorem foldBreaks_cons_eq (c : Char) (rest : List Char) :
    foldBreaks (c :: rest) = (if isBreak c then '\n' else c) ::
      foldBreaks (if c = '\r' ∧ rest.head? = some '\n' then rest.tail else rest) := by
  by_cases hn : c = '\r' ∧ rest.head? = some '\n'
  · obtain ⟨rfl, hr⟩ := hn
    obtain ⟨rest, rfl⟩ := List.head?_eq_some_iff.1 hr
    rw [foldBreaks_crlf]
    rfl
  · have hr : ∀ r, c = '\r' → rest ≠ '\n' :: r := by
      rintro r hc rfl
      exact hn ⟨hc, rfl⟩
    rw [foldBreaks_cons_of_not_crlf hr, if_neg hn]

theorem head?_foldBreaks (text : List Char) :
    (foldBreaks text).head? = text.head?.map fun c => if isBreak c then '\n' else c := by
  cases text with
  | nil => rfl
  | cons c rest =>
    rw [foldBreaks_cons_eq]
    rfl

@[simp] theorem foldBreaks_eq_nil : foldBreaks text = [] ↔ text = [] := by
  rw [← List.head?_eq_none_iff, head?_foldBreaks]
  simp

theorem foldBreaks_cons_cases (c : Char) (rest : List Char) :
    ∃ more, foldBreaks (c :: rest) = (if isBreak c then '\n' else c) :: more :=
  ⟨_, foldBreaks_cons_eq c rest⟩

/-- A text whose folded form is one line is one line itself. -/
theorem not_isBreak_of_foldBreaks (h : '\n' ∉ foldBreaks text) : ∀ c ∈ text, ¬ isBreak c := by
  induction text using countBreaks.induct with
  | case1 => simp
  | case2 rest => simp at h
  | case3 c rest hr ih =>
    rw [foldBreaks_cons_of_not_crlf hr] at h
    obtain ⟨hc, hrest⟩ := List.ne_and_not_mem_of_not_mem_cons h
    refine List.forall_mem_cons.2 ⟨?_, ih hrest⟩
    intro hb
    exact hc (if_pos hb).symm

theorem not_mem_foldBreaks (text : List Char) : '\r' ∉ foldBreaks text := by
  have h (folded text : List Char) (hf : '\r' ∉ folded) : '\r' ∉ foldBreaksOnto folded text := by
    fun_induction foldBreaksOnto folded text with
    | case1 folded => simpa using hf
    | case2 folded rest ih => exact ih (by simp [hf])
    | case3 folded rest _ ih => exact ih (by simp [hf])
    | case4 folded c rest _ hc ih => exact ih (by simp [hf, Ne.symm hc])
  exact h [] text (by simp)

theorem foldBreaks_append_of_not_mem (h : '\r' ∉ text) (rest : List Char) :
    foldBreaks (text ++ rest) = text ++ foldBreaks rest := by
  induction text with
  | nil => rfl
  | cons c text ih =>
    have hc : c ≠ '\r' := fun hc => h (hc ▸ List.mem_cons_self ..)
    have ht : '\r' ∉ text := fun ht => h (List.mem_cons_of_mem c ht)
    rw [List.cons_append, foldBreaks_cons hc, ih ht, List.cons_append]

theorem foldBreaks_of_not_mem (h : '\r' ∉ text) : foldBreaks text = text := by
  have happ := foldBreaks_append_of_not_mem h []
  rwa [foldBreaks_nil, List.append_nil] at happ

theorem foldBreaks_of_not_isBreak (h : ∀ c ∈ text, ¬ isBreak c) : foldBreaks text = text :=
  foldBreaks_of_not_mem fun hm => h _ hm rfl

/-- Folding keeps apart what is cut anywhere but within CR LF. -/
theorem foldBreaks_append_of_imp (h : u.getLast? = some '\r' → v.head? ≠ some '\n') :
    foldBreaks (u ++ v) = foldBreaks u ++ foldBreaks v := by
  induction u using countBreaks.induct with
  | case1 => rfl
  | case2 rest ih =>
    have ih := ih fun hl => h (by simp [List.getLast?_cons, hl])
    simp [ih]
  | case3 c rest hr ih =>
    have hr' : ∀ r, c = '\r' → rest ++ v ≠ '\n' :: r := by
      intro r hc hx
      cases rest with
      | nil =>
        obtain rfl : v = '\n' :: r := hx
        exact h (congrArg some hc) rfl
      | cons d rest =>
        obtain ⟨rfl, -⟩ := List.cons.inj hx
        exact hr rest hc rfl
    have ih := ih fun hl => h (by simp [List.getLast?_cons, hl])
    rw [List.cons_append, foldBreaks_cons_of_not_crlf hr', foldBreaks_cons_of_not_crlf hr, ih,
      List.cons_append]

theorem foldBreaks_append (hv : v.head? ≠ some '\n') :
    foldBreaks (u ++ v) = foldBreaks u ++ foldBreaks v :=
  foldBreaks_append_of_imp fun _ => hv

/-- A line feed behind a text is one more break, unless the text ends with a lone CR. -/
theorem foldBreaks_concat (text : List Char) :
    foldBreaks (text ++ ['\n']) = foldBreaks text ++ ['\n'] ∨
      foldBreaks (text ++ ['\n']) = foldBreaks text := by
  by_cases h : text.getLast? = some '\r'
  · obtain ⟨front, rfl⟩ := List.getLast?_eq_some_iff.1 h
    have hcr : foldBreaks (front ++ ['\r']) = foldBreaks front ++ ['\n'] :=
      foldBreaks_append (by simp)
    have hcrlf : foldBreaks (front ++ ['\r', '\n']) = foldBreaks front ++ ['\n'] :=
      foldBreaks_append (by simp)
    rw [List.append_assoc]
    exact .inr (hcrlf.trans hcr.symm)
  · exact .inl (foldBreaks_append_of_imp fun hl => absurd hl h)

/-- Wherever the folded text is cut, the text can be cut too. -/
theorem exists_split_of_foldBreaks (h : foldBreaks text = a ++ b) :
    ∃ u v, text = u ++ v ∧ foldBreaks u = a ∧ foldBreaks v = b := by
  induction text using countBreaks.induct generalizing a with
  | case1 =>
    obtain ⟨rfl, rfl⟩ : a = [] ∧ b = [] := by simpa using h.symm
    exact ⟨[], [], rfl, rfl, rfl⟩
  | case2 rest ih =>
    cases a with
    | nil => exact ⟨[], _, rfl, rfl, h⟩
    | cons d a =>
      obtain ⟨rfl, ha⟩ := List.cons.inj ((foldBreaks_crlf rest).symm.trans h)
      obtain ⟨u, v, rfl, rfl, rfl⟩ := ih ha
      exact ⟨'\r' :: '\n' :: u, v, rfl, foldBreaks_crlf u, rfl⟩
  | case3 c rest hr ih =>
    cases a with
    | nil => exact ⟨[], _, rfl, rfl, h⟩
    | cons d a =>
      obtain ⟨rfl, ha⟩ := List.cons.inj ((foldBreaks_cons_of_not_crlf hr).symm.trans h)
      obtain ⟨u, v, rfl, rfl, rfl⟩ := ih ha
      refine ⟨c :: u, v, rfl, foldBreaks_cons_of_not_crlf ?_, rfl⟩
      rintro r hc rfl
      exact hr (r ++ v) hc rfl

/-- In front of a character that is no line feed there is only one place to cut. -/
theorem eq_of_foldBreaks_eq (h : u ++ v = a ++ b) (hf : foldBreaks v = foldBreaks b)
    (hv : v.head? ≠ some '\n') (hb : b.head? ≠ some '\n') : u = a ∧ v = b := by
  rcases List.append_eq_append_iff.1 h with ⟨w, rfl, rfl⟩ | ⟨w, rfl, rfl⟩
  · obtain rfl : w = [] := by simpa [foldBreaks_append hb] using hf
    simp
  · obtain rfl : w = [] := by simpa [foldBreaks_append hv] using hf
    simp

/-! ### Both ways of counting -/

theorem count_foldBreaks (text : List Char) : (foldBreaks text).count '\n' = countBreaks text := by
  induction text using countBreaks.induct with
  | case1 => rfl
  | case2 rest ih => simp [countBreaks, ih]
  | case3 c rest hr ih =>
    rw [foldBreaks_cons_of_not_crlf hr, List.count_cons, ih, countBreaks.eq_3 _ _ hr]
    by_cases hc : isBreak c
    · simp [hc]
    · have hn : c ≠ '\n' := by rintro rfl; exact hc rfl
      simp [hc, hn]

/-- The breaks of a text are counted part by part, where no CR LF is torn apart. -/
theorem countBreaks_append (h : u.getLast? = some '\r' → v.head? ≠ some '\n') :
    countBreaks (u ++ v) = countBreaks u + countBreaks v := by
  rw [← count_foldBreaks, foldBreaks_append_of_imp h, List.count_append, count_foldBreaks,
    count_foldBreaks]

theorem firstLine_foldBreaks (text : List Char) : firstLine (foldBreaks text) = headLine text := by
  unfold firstLine headLine
  induction text using countBreaks.induct with
  | case1 => rfl
  | case2 rest ih => simp [isBreak]
  | case3 c rest hr ih =>
    rw [foldBreaks_cons_of_not_crlf hr]
    by_cases hc : isBreak c
    · simp [hc]
    · have hn : c ≠ '\n' := by rintro rfl; exact hc rfl
      simp [hc, hn, ← ih]

/-- A line feed at the end of a text is folded into one at the end. -/
theorem getLast?_foldBreaks_concat (text : List Char) :
    (foldBreaks (text ++ ['\n'])).getLast? = some '\n' := by
  induction text using countBreaks.induct with
  | case1 => rfl
  | case2 rest ih => simp [List.getLast?_cons, ih]
  | case3 c rest hr ih =>
    by_cases h : c = '\r' ∧ rest = []
    · obtain ⟨rfl, rfl⟩ := h
      rfl
    · have hr' : ∀ r, c = '\r' → rest ++ ['\n'] ≠ '\n' :: r := by
        rintro r rfl hx
        cases rest with
        | nil => exact h ⟨rfl, rfl⟩
        | cons d rest =>
          obtain ⟨rfl, -⟩ := List.cons.inj hx
          exact hr rest rfl rfl
      rw [List.cons_append, foldBreaks_cons_of_not_crlf hr', List.getLast?_cons, ih]
      rfl

theorem rtakeWhile_foldBreaks (text : List Char) :
    (foldBreaks text).rtakeWhile (· ≠ '\n') = lastLine text := by
  unfold lastLine
  induction text using List.reverseRecOn with
  | nil => rfl
  | append_singleton text c ih =>
    by_cases hn : c = '\n'
    · obtain ⟨a, ha⟩ := List.getLast?_eq_some_iff.1 (getLast?_foldBreaks_concat text)
      rw [hn, ha, List.rtakeWhile_concat_neg, List.rtakeWhile_concat_neg] <;> simp [isBreak]
    · rw [foldBreaks_append (by simpa using hn)]
      by_cases hc : isBreak c
      · obtain rfl : c = '\r' := by simpa [isBreak, hn] using hc
        rw [show foldBreaks ['\r'] = ['\n'] from rfl, List.rtakeWhile_concat_neg,
          List.rtakeWhile_concat_neg] <;> simp [isBreak]
      · have hf : foldBreaks [c] = [c] := by
          rw [foldBreaks_cons_of_not_crlf (by simp), foldBreaks_nil, if_neg hc]
        rw [hf, List.rtakeWhile_concat_pos _ _ _ (by simpa using hn),
          List.rtakeWhile_concat_pos _ _ _ (by simpa using hc), ih]

/-! ### Places -/

theorem Location.start_after (text : List Char) :
    start.after text = ⟨1 + text.count '\n', 1 + (text.rtakeWhile (· ≠ '\n')).length⟩ := by
  induction text using List.reverseRecOn with
  | nil => rfl
  | append_singleton text c ih =>
    rw [after_append, ih, after_cons, after_nil, next, List.count_append]
    by_cases hc : c = '\n'
    · rw [if_pos hc, List.rtakeWhile_concat_neg _ _ _ (by simpa using hc)]
      simp [hc, Nat.add_assoc]
    · rw [if_neg hc, List.rtakeWhile_concat_pos _ _ _ (by simpa using hc)]
      simp [hc, Nat.add_assoc]

/-- The reader's place behind the folded text is the place behind the text. -/
theorem Location.start_after_foldBreaks (front : List Char) :
    start.after (foldBreaks front) = behind front := by
  rw [start_after, count_foldBreaks, rtakeWhile_foldBreaks, behind]

/-- On one line only the column grows. -/
theorem Location.behind_append (h : ∀ c ∈ v, ¬ isBreak c) :
    behind (u ++ v) = ⟨(behind u).line, (behind u).column + v.length⟩ := by
  have hn : '\n' ∉ v := fun hn => h _ hn rfl
  have hhead : v.head? ≠ some '\n' := fun hh => hn (List.mem_of_mem_head? hh)
  rw [← start_after_foldBreaks, foldBreaks_append hhead, foldBreaks_of_not_isBreak h, after_append,
    after_of_not_mem hn, start_after_foldBreaks]

example : Location.behind ['a', '\r', '\n', 'b', '\r', '\r', '\n', '\n', 'c'] = ⟨5, 2⟩ := rfl

/-! ### Lines by number -/

theorem dropLines_succ (n : Nat) (text : List Char) :
    dropLines (n + 1) text = (dropLines n text).bind (dropLines 1) := by
  induction n generalizing text with
  | zero => rfl
  | succ n ih =>
    rw [dropLines, dropLines]
    split
    · rfl
    · exact ih _

/-- Behind all breaks of its first part a text still has the last line of that part. -/
theorem dropLines_count (a b : List Char) :
    dropLines (a.count '\n') (a ++ b) = some (a.rtakeWhile (· ≠ '\n') ++ b) := by
  induction a using List.reverseRecOn generalizing b with
  | nil => rfl
  | append_singleton a c ih =>
    rw [List.append_assoc, List.singleton_append, List.count_append]
    by_cases hc : c = '\n'
    · have hl : ∀ d ∈ a.rtakeWhile (· ≠ '\n'), decide (d ≠ '\n') := fun d =>
        List.mem_rtakeWhile_imp
      have hone : dropLines 1 (a.rtakeWhile (· ≠ '\n') ++ '\n' :: b) = some b := by
        rw [dropLines, List.dropWhile_append_of_pos hl]
        rfl
      rw [hc, List.rtakeWhile_concat_neg _ _ _ (by simp), List.count_singleton_self, dropLines_succ,
        ih, Option.bind_some, hone]
      rfl
    · rw [List.rtakeWhile_concat_pos _ _ _ (by simpa using hc), List.count_singleton,
        if_neg (by simpa using hc), Nat.add_zero, ih, List.append_assoc]
      rfl

/-- The line on which a place lies is what stands on it in front of the place and behind it. -/
theorem lineAt_behind (hrest : rest.head? ≠ some '\n') :
    lineAt (front ++ rest) (Location.behind front).line = lastLine front ++ headLine rest := by
  have hl : ∀ d ∈ lastLine front, decide (d ≠ '\n') := by
    intro d hd
    have hb := List.mem_rtakeWhile_imp hd
    simp_all [isBreak]
  have hd : dropLines ((Location.behind front).line - 1) (foldBreaks (front ++ rest)) =
      some (lastLine front ++ foldBreaks rest) := by
    rw [foldBreaks_append hrest, Location.behind, Nat.add_sub_cancel_left, ← count_foldBreaks,
      dropLines_count, rtakeWhile_foldBreaks]
  rw [lineAt, hd]
  show firstLine (lastLine front ++ foldBreaks rest) = _
  rw [← firstLine_foldBreaks, firstLine, List.takeWhile_append_of_pos hl]
  rfl

end ScriptCheck
