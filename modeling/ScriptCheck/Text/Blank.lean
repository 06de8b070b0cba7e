/-!
# White space

The characters with the Unicode property White_Space, and the two ways to cut a line at them:
`trim` takes them off both ends, `words` keeps the runs of other characters.
-/

namespace ScriptCheck

/-- The Unicode property White_Space. -/
def isWhiteSpace (c : Char) : Bool :=
  let n := c.toNat
  (0x09 ≤ n && n ≤ 0x0D) || n = 0x20 || n = 0x85 || n = 0xA0 || n = 0x1680 ||
    (0x2000 ≤ n && n ≤ 0x200A) || n = 0x2028 || n = 0x2029 || n = 0x202F || n = 0x205F ||
    n = 0x3000

theorem isWhiteSpace_of_isWhitespace {c : Char} (h : c.isWhitespace) : isWhiteSpace c := by
  simp only [Char.isWhitespace, Bool.or_eq_true, decide_eq_true_eq] at h
  rcases h with ((rfl | rfl) | rfl) | rfl <;> rfl

/-- The text without the white space at its ends. -/
def trim (text : List Char) : List Char :=
  ((text.dropWhile isWhiteSpace).reverse.dropWhile isWhiteSpace).reverse

/-- The first word of a trimmed text and what follows it, trimmed too. -/
def splitWord (text : List Char) : List Char × List Char :=
  (text.takeWhile (!isWhiteSpace ·), trim (text.dropWhile (!isWhiteSpace ·)))

theorem length_dropWhile_le (p : Char → Bool) (text : List Char) :
    (text.dropWhile p).length ≤ text.length :=
  (List.dropWhile_suffix p).length_le

theorem length_lt_of_dropWhile {p q : Char → Bool} {text rest : List Char} {c : Char}
    (h : text.dropWhile p = c :: rest) : (rest.dropWhile q).length < text.length := by
  have h₁ := length_dropWhile_le p text
  have h₂ := length_dropWhile_le q rest
  simp [h] at h₁
  omega

/-- The words of a text in order. -/
def words (text : List Char) : List (List Char) :=
  match _ : text.dropWhile isWhiteSpace with
  | [] => []
  | c :: rest =>
    (c :: rest.takeWhile (!isWhiteSpace ·)) :: words (rest.dropWhile (!isWhiteSpace ·))
termination_by text.length
decreasing_by exact length_lt_of_dropWhile ‹_›

end ScriptCheck
