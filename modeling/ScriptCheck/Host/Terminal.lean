import ScriptCheck.Shell.Terminal

/-!
# The terminal

Styles are ANSI control sequences, and months have English names.
-/

namespace ScriptCheck.Terminal

def ansiMarks : Style → String × String
  | .bold => ("\x1b[1m", "\x1b[0m")
  | .green => ("\x1b[38;5;10m", "\x1b[39m")
  | .red => ("\x1b[38;5;9m", "\x1b[39m")

def monthNames : List String :=
  ["Jan", "Feb", "Mar", "Apr", "May", "Jun", "Jul", "Aug", "Sep", "Oct", "Nov", "Dec"]

def calendarText (c : Clock) : String :=
  monthNames.getD (c.month - 1) "" ++ " " ++ twoColumns " " c.day ++ " " ++
    twoColumns "0" c.hour ++ ":" ++ twoColumns "0" c.minute ++ ":" ++ twoColumns "0" c.second

theorem isStyleMark_ansiMarks (style : Style) :
    IsStyleMark (ansiMarks style).1 ∧ IsStyleMark (ansiMarks style).2 := by
  cases style with
  | bold => exact ⟨⟨"1", rfl, by simp⟩, ⟨"0", rfl, by simp⟩⟩
  | green => exact ⟨⟨"38;5;10", rfl, by simp⟩, ⟨"39", rfl, by simp⟩⟩
  | red => exact ⟨⟨"38;5;9", rfl, by simp⟩, ⟨"39", rfl, by simp⟩⟩

theorem length_of_mem_monthNames {month : String} (h : month ∈ monthNames) :
    month.length = 3 ∧ ∀ c ∈ month.toList, c.isAlpha := by
  have hall : monthNames.all fun month => month.length = 3 && month.toList.all Char.isAlpha := by
    decide +kernel
  simpa using List.all_eq_true.1 hall month h

instance ansi : Terminal where
  marks := ansiMarks
  timeText := calendarText
  isStyleMark_marks := isStyleMark_ansiMarks
  timeText_eq {c} h := by
    have hm : c.month - 1 < monthNames.length := by
      have := h.month.2
      simp only [monthNames, List.length_cons, List.length_nil]
      omega
    obtain ⟨hlength, halpha⟩ := length_of_mem_monthNames (List.getElem_mem hm)
    refine ⟨monthNames[c.month - 1], hlength, halpha, ?_⟩
    rw [calendarText, List.getD_eq_getElem?_getD, List.getElem?_eq_getElem hm, Option.getD_some]

end ScriptCheck.Terminal
