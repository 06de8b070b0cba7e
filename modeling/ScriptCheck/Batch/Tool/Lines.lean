import ScriptCheck.Batch.Arithmetic
import ScriptCheck.Batch.Pattern
import ScriptCheck.Batch.Tool.Files

/-!
# Tools for lines

Tools that read lines, from files or from the standard input, and write some of them, or count,
order or change them; and tools that take names apart.
-/

namespace ScriptCheck.Batch.Tool

/-! ### Names -/

/-- A name without an ending, unless it is the whole name. -/
def withoutEnding (ending name : Octets) : Octets :=
  let cut := name.take (name.length - ending.length)
  if ending.isSuffixOf name && cut ≠ [] then cut else name

def basename (args : List Octets) : Act Nat :=
  withArguments "basename" "a" "s" args fun a => do
    let isEach := a.has 'a' || a.has 's'
    match isEach, a.operands with
    | _, [] => missingOperand "basename"
    | false, [path, ending] =>
      emit (withoutEnding ending (lastName path) ++ ['\n'])
      return 0
    | false, _ :: _ :: extra :: _ =>
      refuseArguments "basename" ("extra operand ".toList ++ cite extra)
    | _, paths =>
      let ending := (a.value? 's').getD []
      emit (Octets.unlines (paths.map fun path => withoutEnding ending (lastName path)))
      return 0

def dirname (args : List Octets) : Act Nat :=
  withArguments "dirname" "" "" args fun a => do
    if a.operands = [] then return ← missingOperand "dirname"
    emit (Octets.unlines (a.operands.map directoryName))
    return 0

/-! ### Parts of files -/

/-- Goes through the contents of operands, or of the standard input if there are none. Where there
are several, each has its name in front. -/
def forContents (tool : String) (withTitles : Bool) (operands : List Octets)
    (go : Octets → Octets) : Act Nat := do
  let paths := if operands = [] then [['-']] else operands
  let mut isFirst := true
  let mut code := 0
  for path in paths do
    match ← contentOf tool path with
    | none => code := 1
    | some text =>
      if withTitles && 1 < paths.length then
        let title := if path = ['-'] then "standard input".toList else path
        emit ((if isFirst then [] else ['\n']) ++ "==> ".toList ++ title ++ " <==\n".toList)
      emit (go text)
      isFirst := false
  return code

/-- The lines of a text with their breaks. -/
def fullLines (text : Octets) : List Octets :=
  let pieces := Octets.split (· = '\n') text
  let full := pieces.dropLast.map (· ++ ['\n'])
  if pieces.getLastD [] = [] then full else full ++ [pieces.getLastD []]

/-- Reads a count in the old form, a number behind the dash, as the option for it. -/
def modernCount (args : List Octets) : List Octets :=
  match args with
  | ('-' :: digits) :: rest =>
    if digits ≠ [] && digits.all Char.isDigit then "-n".toList :: digits :: rest else args
  | _ => args

def head (args : List Octets) : Act Nat :=
  withArguments "head" "qv" "nc" (modernCount args) fun a =>
    forContents "head" (!a.has 'q') a.operands fun text =>
      match (a.value? 'c').bind Octets.int?, ((a.value? 'n').bind Octets.int?).getD 10 with
      | some count, _ => if count < 0 then text.take (text.length - count.natAbs)
        else text.take count.toNat
      | none, count =>
        let lines := fullLines text
        (lines.take (if count < 0 then lines.length - count.natAbs else count.toNat)).flatten

def tail (args : List Octets) : Act Nat :=
  withArguments "tail" "qvf" "nc" (modernCount args) fun a =>
    forContents "tail" (!a.has 'q') a.operands fun text =>
      let start (value : Octets) (length : Nat) : Nat :=
        let count := ((Octets.int? value).getD 0).natAbs
        if value.head? = some '+' then count - 1 else length - count
      match a.value? 'c' with
      | some value => text.drop (start value text.length)
      | none =>
        let lines := fullLines text
        (lines.drop (start ((a.value? 'n').getD "10".toList) lines.length)).flatten

/-- Counts lines, words and bytes, in columns as wide as the sum of the sizes, where it can be
known beforehand. -/
def wc (args : List Octets) : Act Nat :=
  withArguments "wc" "lwcm" "" args fun a => do
    let counts (text : Octets) : List Nat :=
      [text.count '\n', (Octets.words text).length, text.length]
    let wanted (xs : List Nat) : List Nat :=
      let all := a.options = []
      ((xs.zip [a.has 'l', a.has 'w', a.has 'c' || a.has 'm']).filter (all || ·.2)).map (·.1)
    let m := (← get).machine
    let isDirectory (path : Octets) : Bool := ((m.node? path.text).map Node.isDirectory).getD false
    let mut rows : List (List Nat × Octets) := []
    let mut code := 0
    for path in if a.operands = [] then [['-']] else a.operands do
      match ← contentOf "wc" path with
      | some text => rows := rows ++ [(counts text, path)]
      | none =>
        code := 1
        if isDirectory path then rows := rows ++ [([0, 0, 0], path)]
    let total := rows.foldl (fun t row => List.zipWith (· + ·) t row.1) [0, 0, 0]
    if 1 < a.operands.length then rows := rows ++ [(total, "total".toList)]
    let isAlone := rows.length = 1 && (wanted total).length = 1
    let isPiped := a.operands = [] && !(← hasFile 0)
    let width := if isAlone then 1 else if isPiped || a.operands.any isDirectory then 7
      else (Octets.ofNat (total.getD 2 0)).length
    for (xs, path) in rows do
      let columns := (wanted xs).map fun n =>
        let digits := Octets.ofNat n
        List.replicate (width - digits.length) ' ' ++ digits
      emit (Octets.join [' '] columns
        ++ (if a.operands = [] then [] else ' ' :: path) ++ ['\n'])
    return code

/-! ### Orders -/

/-- The contents of all operands one after the other, if each can be read. -/
def allContents (tool : String) (operands : List Octets) : Act (Option Octets) := do
  let texts ← (if operands = [] then [['-']] else operands).mapM (contentOf tool)
  let close (text : Octets) : Octets :=
    if text = [] || text.getLast? = some '\n' then text else text ++ ['\n']
  return (texts.mapM id).map fun texts => texts.flatMap close

/-- The lines of a list of which none is equal to the one before it, with their counts. -/
def runs (lines : List Octets) : List (Octets × Nat) :=
  lines.foldr (fun line rest =>
    match rest with
    | (x, n) :: rest' => if x = line then (x, n + 1) :: rest' else (line, 1) :: rest
    | [] => [(line, 1)]) []

def sort (args : List Octets) : Act Nat :=
  withArguments "sort" "rnufsb" "kto" args fun a => do
    let m := (← get).machine
    let isMissing (path : Octets) : Bool := path ≠ ['-'] && (m.node? path.text).isNone
    if let some path := a.operands.find? isMissing then
      reportFault "sort" ("cannot read: ".toList ++ citeIfOdd path) .notFound
      return 2
    let some text ← allContents "sort" a.operands | return 2
    let lines := Octets.lines text
    let number (line : Octets) : Int := ((leadingInt line).map (·.1)).getD 0
    let key (line : Octets) : Octets := if a.has 'f' then line.map Char.toUpper else line
    let precedes (x y : Octets) : Bool :=
      if a.has 'n' && number x ≠ number y then number x < number y
      else if key x = key y then Octets.isUpTo x y else Octets.isUpTo (key x) (key y)
    let sorted := lines.mergeSort fun x y => if a.has 'r' then precedes y x else precedes x y
    let sorted := if a.has 'u' then (runs sorted).map (·.1) else sorted
    match a.value? 'o' with
    | some path =>
      let _ ← changeMachine "sort" path (·.write path.text (Octets.toBytes (Octets.unlines sorted)))
    | none => emit (Octets.unlines sorted)
    return 0

def uniq (args : List Octets) : Act Nat :=
  withArguments "uniq" "cdu" "" args fun a => do
    let some text ← allContents "uniq" (a.operands.take 1) | return 1
    let counted := runs (Octets.lines text)
    let chosen := counted.filter fun (_, n) => (!a.has 'd' || 1 < n) && (!a.has 'u' || n = 1)
    emit (Octets.unlines (chosen.map fun (line, n) =>
      let digits := Octets.ofNat n
      if a.has 'c' then List.replicate (7 - digits.length) ' ' ++ digits ++ ' ' :: line else line))
    return 0

/-! ### Columns and characters -/

/-- The places that a list such as `1,3-5` names, counted from one. -/
def inPlaces (list : Octets) (place : Nat) : Bool :=
  (Octets.split (· = ',') list).any fun range =>
    match (Octets.split (· = '-') range).map Octets.nat?, range.contains '-' with
    | [some n], false => place = n
    | [first, last], true => first.getD 1 ≤ place && place ≤ last.getD place
    | _, _ => false

def cut (args : List Octets) : Act Nat :=
  withArguments "cut" "s" "dfcb" args fun a => do
    let choose (list : Octets) (pieces : List Octets) : List Octets :=
      (pieces.zipIdx.filter fun (_, n) => inPlaces list (n + 1)).map (·.1)
    let between := ((a.value? 'd').bind List.head?).getD '\t'
    let change (line : Octets) : Option Octets :=
      match a.value? 'f', (a.value? 'c').or (a.value? 'b') with
      | some list, _ =>
        if line.contains between then
          some (Octets.join [between] (choose list (Octets.split (· = between) line)))
        else if a.has 's' then none else some line
      | none, some list => some (choose list (line.map fun c => [c])).flatten
      | none, none => some line
    let some text ← allContents "cut" a.operands | return 1
    emit (Octets.unlines ((Octets.lines text).filterMap change))
    return 0

/-- The characters of a set of `tr` in order. -/
def setMembers : Nat → Octets → Octets
  | 0, _ => []
  | _ + 1, [] => []
  | n + 1, '[' :: ':' :: rest =>
    let name := rest.takeWhile (· ≠ ':')
    let isMember := (namedSets.lookup (String.ofList name)).getD fun _ => false
    ((List.range 256).map Char.ofNat).filter isMember ++ setMembers n (rest.drop (name.length + 2))
  | n + 1, '\\' :: rest =>
    match escape rest with
    | (c, length) => c :: setMembers n (rest.drop length)
  | n + 1, first :: '-' :: last :: rest =>
    (List.range (last.toNat + 1 - first.toNat)).map (fun k => Char.ofNat (first.toNat + k))
      ++ setMembers n rest
  | n + 1, c :: rest => c :: setMembers n rest
where
  escape (s : Octets) : Char × Nat :=
    let digits := (s.take 3).takeWhile fun c => '0' ≤ c && c ≤ '7'
    match s with
    | [] => ('\\', 0)
    | c :: _ =>
      if digits ≠ [] then (Char.ofNat (Octets.digitsValue 8 digits % 256), digits.length)
      else if c = 'n' then ('\n', 1)
      else if c = 't' then ('\t', 1)
      else if c = 'r' then ('\r', 1)
      else (c, 1)

/-- A text in which no run of a character of a set is longer than one. -/
def squeeze (isMember : Char → Bool) : Octets → Octets
  | c :: d :: rest =>
    if c = d && isMember c then squeeze isMember (d :: rest) else c :: squeeze isMember (d :: rest)
  | s => s

def tr (args : List Octets) : Act Nat :=
  withArguments "tr" "cCdst" "" args fun a => do
    let sets := a.operands.map fun s => setMembers (s.length + 1) s
    let named := sets.getD 0 []
    let first := if a.has 'c' || a.has 'C' then
      ((List.range 256).map Char.ofNat).filter fun c => !named.contains c else named
    let second := sets.getD 1 []
    let last := second.getLastD ' '
    let change (c : Char) : Char :=
      match first.idxOf? c with
      | some k => second.getD k last
      | none => c
    let text ← readAll 0
    let text := if a.has 'd' then text.filter fun c => !first.contains c
      else if sets.length < 2 then text else text.map change
    let squeezed := if a.has 's' then sets.getLastD [] else []
    if sets = [] then return ← missingOperand "tr"
    emit (squeeze squeezed.contains text)
    return 0

end ScriptCheck.Batch.Tool
