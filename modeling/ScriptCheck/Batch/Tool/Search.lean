import ScriptCheck.Batch.Regex
import ScriptCheck.Batch.Tool.Lines

/-!
# Searching lines

`grep` writes the lines in which a regular expression is found, or only counts or names them.
-/

namespace ScriptCheck.Batch.Tool

/-- Signs that are special in a regular expression stand for themselves. -/
def protect (text : Octets) : Octets :=
  text.flatMap fun c => if "\\.*[]^$".toList.contains c then ['\\', c] else [c]

/-- The regular expressions of the arguments, one for each line of the pattern. -/
def searched (a : Arguments) (pattern : Octets) : Option (List Regex) :=
  let dialect : Regex.Dialect := ⟨a.has 'E' && !a.has 'F', a.has 'i'⟩
  (Octets.split (· = '\n') pattern).mapM fun line => do
    let r ← Regex.read dialect (if a.has 'F' then protect line else line)
    let r := if a.has 'w' then .seq .wordEdge (.seq r .wordEdge) else r
    return if a.has 'x' then .seq .lineStart (.seq r .lineEnd) else r

/-- The parts of a line that are found from a place on. -/
def foundParts (r : Regex) (line : Octets) : Nat → Nat → List Octets
  | 0, _ => []
  | n + 1, start =>
    match r.find? line start with
    | none => []
    | some (first, x) =>
      if x.place ≤ first then foundParts r line n (first + 1)
      else (line.drop first).take (x.place - first) :: foundParts r line n x.place

/-- Writes what is found in one file, and tells whether anything is. -/
def searchFile (a : Arguments) (regexes : List Regex) (title text : Octets) : Act Bool := do
  let isFound (line : Octets) : Bool := regexes.any fun r => (r.find? line 0).isSome
  let found := (Octets.lines text).zipIdx.filter fun (line, _) => isFound line != a.has 'v'
  if a.has 'q' then return !found.isEmpty
  if a.has 'l' then
    if !found.isEmpty then emit (title ++ ['\n'])
  else
    let front := if title = [] || a.has 'h' then [] else title ++ [':']
    if a.has 'c' then emit (front ++ Octets.ofNat found.length ++ ['\n'])
    else
      let shown (line : Octets) : List Octets :=
        if a.has 'o' then regexes.flatMap fun r => foundParts r line (line.length + 1) 0 else [line]
      emit (Octets.unlines (found.flatMap fun (line, k) => (shown line).map fun part =>
        front ++ (if a.has 'n' then Octets.ofNat (k + 1) ++ [':'] else []) ++ part))
  return !found.isEmpty

/-- The code is zero if something is found, one if nothing is, and two after a fault. -/
def grep (args : List Octets) : Act Nat :=
  withArguments "grep" "qvcinEFGxwlhso" "e" args fun a => do
    let patterns := (a.options.filter fun o => o.1 = 'e').map fun o => o.2
    let (pattern?, operands) :=
      if patterns ≠ [] then (some (Octets.join ['\n'] patterns), a.operands)
      else (a.operands.head?, a.operands.tail)
    match pattern?.bind (searched a) with
    | none =>
      report "grep: invalid pattern".toList
      return 2
    | some regexes =>
      let mut code := 1
      for path in if operands = [] then [['-']] else operands do
        match ← contentOf "grep" path with
        | some text =>
          let title := if 1 < operands.length || a.has 'l' then path else []
          if ← searchFile a regexes title text then
            if code = 1 then code := 0
        | none => code := 2
      return code

end ScriptCheck.Batch.Tool
