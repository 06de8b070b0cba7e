import ScriptCheck.Batch.Arithmetic
import ScriptCheck.Batch.Pattern
import ScriptCheck.Batch.Process

/-!
# Expanding words

A word becomes a text, a pattern, or any number of fields: its parameters, outputs and expressions
are replaced, what they give is cut at separators unless it is quoted, and a pattern gives way to
the names of the files that it stands for.
-/

namespace ScriptCheck.Batch

/-! ### Expressions -/

namespace Expression

/-- The value of a variable as a number. -/
def variableValue (name : Octets) : Act Int := do
  match ← lookUp name with
  | none => return 0
  | some text =>
    if text.all Octets.isSpace then return 0
    match leadingInt text with
    | some (n, rest) =>
      if rest.all Octets.isSpace then return n
      abandon ("Illegal number: ".toList ++ text)
    | none => abandon ("Illegal number: ".toList ++ text)

/-- The value of an expression, which is cited where it has none. -/
def evaluate (cited : Octets) : Expression → Act Int
  | number n => return n
  | parameter name => variableValue name
  | negate e => return wrap (-(← evaluate cited e))
  | complement e => return -(← evaluate cited e) - 1
  | not e => return if (← evaluate cited e) = 0 then 1 else 0
  | binary op left right => do
    let a ← evaluate cited left
    apply op a (← evaluate cited right)
  | both left right => do
    if (← evaluate cited left) = 0 then return 0
    return if (← evaluate cited right) = 0 then 0 else 1
  | either left right => do
    if (← evaluate cited left) ≠ 0 then return 1
    return if (← evaluate cited right) = 0 then 0 else 1
  | choice condition yes no => do
    if (← evaluate cited condition) ≠ 0 then evaluate cited yes else evaluate cited no
  | assign name op value => do
    let b ← evaluate cited value
    let n ← match op with
      | some op => apply op (← variableValue name) b
      | none => pure b
    Batch.assign name (Octets.ofInt n)
    return n
where
  apply (op : Operation) (a b : Int) : Act Int :=
    match op.apply a b with
    | some n => return n
    | none => abandon ("arithmetic expression: division by zero: \"".toList ++ cited ++ ['"'])

/-- The value of a text as an expression. -/
def ofText (text : Octets) : Act Int :=
  match Expression.read text with
  | .ok e => e.evaluate text
  | .error lack =>
    abandon ("arithmetic expression: expecting ".toList ++ lack.message.toList ++ ": \"".toList
      ++ text ++ ['"'])

end Expression

/-! ### Parameters -/

/-- The letters of the options that are on. -/
def Options.letters (o : Options) : Octets :=
  ([(o.stopOnFailure, 'e'), (o.keepPatterns, 'f'), (o.readOnly, 'n'), (o.refuseUnset, 'u'),
    (o.exportAll, 'a'), (o.keepFiles, 'C')].filter (·.1)).map (·.2)

/-- The value of a parameter other than the list of all arguments. -/
def parameter? (name : Octets) : Act (Option Octets) := do
  let s ← get
  match name with
  | ['#'] => return some (Octets.ofNat s.args.length)
  | ['?'] => return some (Octets.ofNat s.code)
  | ['-'] => return some s.options.letters
  | ['$'] => return some (Octets.ofNat s.batch)
  | ['!'] => return s.jobs.head?.map fun job => Octets.ofNat job.1
  | _ =>
    match Octets.nat? name with
    | some 0 => return some s.name
    | some (n + 1) => return s.args[n]?
    | none => if name = "LINENO".toList then return some (Octets.ofNat s.line) else lookUp name

/-- The characters that separate fields. -/
def separators : Act Octets := do
  return (← lookUp "IFS".toList).getD [' ', '\t', '\n']

def isAllArguments (name : Octets) : Bool :=
  name = ['@'] || name = ['*']

/-- A parameter as one text, if it has a value. -/
def text? (name : Octets) : Act (Option Octets) := do
  if !isAllArguments name then return ← parameter? name
  let args := (← get).args
  if args.isEmpty then return none
  let separators ← separators
  return some (Octets.join (if name = ['*'] then separators.take 1 else [' ']) args)

/-! ### Pieces -/

/-- A piece of an expanded word. -/
inductive Bit
  | letter (c : Char) (quoted splits : Bool)
  /-- Makes a field even of nothing. -/
  | mark
  /-- Stands between two arguments. -/
  | gap

def Bit.ofText (quoted : Bool) (text : Octets) : List Bit :=
  text.map (Bit.letter · quoted !quoted)

/-- The characters of an expanded word. -/
def Bit.marks (bits : List Bit) : List Mark :=
  bits.filterMap fun b =>
    match b with
    | letter c quoted _ => some (c, quoted)
    | _ => none

def Bit.text (bits : List Bit) : Octets :=
  (marks bits).map (·.1)

/-- A parameter as it is. -/
def parameterBits (intoFields quoted : Bool) (name : Octets) : Act (List Bit) := do
  if isAllArguments name && intoFields && !(quoted && name = ['*']) then
    let args := (← get).args.map fun arg =>
      (if quoted then [Bit.mark] else []) ++ Bit.ofText quoted arg
    return ([Bit.gap] : List Bit).intercalate args
  match ← text? name with
  | some text => return Bit.ofText quoted text
  | none =>
    if (← get).options.refuseUnset && !isAllArguments name then
      abandon (name ++ ": parameter not set".toList)
    return []

/-- Letters of a word in braces separate fields as a value would. -/
def Bit.asValue : Bit → Bit
  | letter c false _ => letter c false true
  | b => b

mutual

def expandParts (run : Command → Act Octets) (intoFields : Bool) : List Part → Act (List Bit)
  | [] => return []
  | p :: w => do
    let bits ← expandPart run intoFields p
    return bits ++ (← expandParts run intoFields w)

def expandPart (run : Command → Act Octets) (intoFields : Bool) : Part → Act (List Bit)
  | .letter c quoted => return [.letter c quoted false]
  | .quotes => return [.mark]
  | .output body quoted => do
    let text := (← run body).filter (· ≠ '\x00')
    return Bit.ofText quoted (text.reverse.dropWhile (· = '\n')).reverse
  | .number w quoted => do
    let n ← Expression.ofText (Bit.text (← expandParts run false w))
    return Bit.ofText quoted (Octets.ofInt n)
  | .parameter name use quoted => expandUse run intoFields name quoted use

def expandUse (run : Command → Act Octets) (intoFields : Bool) (name : Octets) (quoted : Bool) :
    Use → Act (List Bit)
  | .value => parameterBits intoFields quoted name
  | .length => do
    let text := Bit.text (← parameterBits false quoted name)
    return Bit.ofText quoted (Octets.ofNat text.length)
  | .fallback rule emptyToo word => do
    let value ← text? name
    let isMissing := value.isNone || (emptyToo && value == some [])
    match rule with
    | .replace =>
      if isMissing then return []
      return (← expandParts run intoFields word).map Bit.asValue
    | .use =>
      if !isMissing then return ← parameterBits intoFields quoted name
      return (← expandParts run intoFields word).map Bit.asValue
    | .assign =>
      if !isMissing then return ← parameterBits intoFields quoted name
      let text := Bit.text (← expandParts run false word)
      if !Octets.isName name then abandon (name ++ ": bad variable name".toList)
      assign name text
      return Bit.ofText quoted text
    | .refuse =>
      if !isMissing then return ← parameterBits intoFields quoted name
      let text := Bit.text (← expandParts run false word)
      let text := if text = [] then
        (if emptyToo then "parameter not set or null" else "parameter not set").toList else text
      abandon (name ++ ": ".toList ++ text)
  | .trim atEnd longest pattern => do
    let text := Bit.text (← parameterBits false quoted name)
    let pattern := Glob.ofMarks (Bit.marks (← expandParts run false pattern))
    return Bit.ofText quoted
      (if atEnd then Glob.trimEnd pattern longest text else Glob.trimStart pattern longest text)
  | .malformed => abandon "Bad substitution".toList

end

/-! ### Fields -/

/-- Fields that are being cut, in reverse. -/
structure Cutting where
  fields : List (List Mark)
  field : Option (List Mark)
  /-- Space has ended a field, and another separator may be a part of the same gap. -/
  inSpace : Bool

namespace Cutting

def close (c : Cutting) (inSpace : Bool) : Cutting :=
  match c.field with
  | some field => ⟨field.reverse :: c.fields, none, inSpace⟩
  | none => { c with inSpace := c.inSpace && inSpace }

def step (separators : Octets) (c : Cutting) : Bit → Cutting
  | .mark => { c with field := some (c.field.getD []), inSpace := false }
  | .gap => c.close false
  | .letter d quoted splits =>
    if !splits || !separators.contains d then
      ⟨c.fields, some ((d, quoted) :: c.field.getD []), false⟩
    else if d = ' ' || d = '\t' || d = '\n' then c.close true
    else if c.field.isSome || c.inSpace then c.close false
    else ⟨[] :: c.fields, none, false⟩

end Cutting

/-- The fields of an expanded word. -/
def cutFields (separators : Octets) (bits : List Bit) : List (List Mark) :=
  ((bits.foldl (Cutting.step separators) ⟨[], none, false⟩).close false).fields.reverse

/-! ### File names -/

/-- Goes on from the beginnings of paths with a name or a pattern for one. -/
def extendPaths (m : Machine) (isLast : Bool) (starts : List Octets) (name : List Mark) :
    List Octets :=
  let pattern := Glob.ofMarks name
  let close (path : Octets) := if isLast then path else path ++ ['/']
  if !Glob.isProper pattern then starts.map fun start => close (start ++ name.map (·.1))
  else starts.flatMap fun start : Octets =>
    let names := ((m.list (if start = [] then "." else start.text)).toOption.getD []).map
      Octets.ofString
    (names.filter (Glob.acceptsName pattern)).map fun name => close (start ++ name)

/-- Cuts a pattern at its slashes. -/
def cutPath (pattern : List Mark) : List (List Mark) :=
  (pattern.foldr (fun (c, quoted) names =>
    match names with
    | name :: rest => if c = '/' then [] :: names else ((c, quoted) :: name) :: rest
    | [] => []) [[]])

/-- The paths that a pattern stands for, if there are any. -/
def findPaths (m : Machine) (pattern : List Mark) : List Octets :=
  let names := cutPath pattern
  let paths := names.dropLast.foldl (extendPaths m false) [[]]
  let paths := extendPaths m true paths (names.getLastD [])
  paths.filter fun path => (m.node? path.text).isSome

/-! ### Words -/

/-- A word with the home directory in place of a tilde at its front. -/
def expandTilde (home : Octets) (w : Word) : Word :=
  let letters := home.map (Part.letter · true)
  match w with
  | [.letter '~' false] => letters
  | .letter '~' false :: .letter '/' false :: rest => letters ++ .letter '/' false :: rest
  | _ => w

def tilded (w : Word) : Act Word := do
  match ← lookUp "HOME".toList with
  | some home => return expandTilde home w
  | none => return w

/-- A word as one text. -/
def expandText (run : Command → Act Octets) (w : Word) : Act Octets := do
  return Bit.text (← expandParts run false (← tilded w))

def expandPattern (run : Command → Act Octets) (w : Word) : Act (List Glob) := do
  return Glob.ofMarks (Bit.marks (← expandParts run false w))

/-- A word as fields. -/
def expandFields (run : Command → Act Octets) (w : Word) : Act (List Octets) := do
  let bits ← expandParts run true (← tilded w)
  let s ← get
  return (cutFields (← separators) bits).flatMap fun field =>
    let paths := if s.options.keepPatterns || !Glob.isProper (Glob.ofMarks field) then []
      else findPaths s.machine field
    if paths.isEmpty then [field.map (·.1)] else paths

def expandAll (run : Command → Act Octets) (words : List Word) : Act (List Octets) := do
  return (← words.mapM (expandFields run)).flatten

/-- The commands whose arguments may be assignments, which are not cut into fields. -/
def declarations : List String :=
  ["export", "readonly", "local"]

/-- The words of a command as fields. -/
def expandCommand (run : Command → Act Octets) (words : List Word) : Act (List Octets) := do
  let isDeclaration := ((words.head?.bind plain?).map fun name =>
    declarations.contains (String.ofList name)).getD false
  if !isDeclaration then return ← expandAll run words
  let fields ← words.mapM fun w => do
    match assignment? w with
    | some (.mk name value) => return [name ++ '=' :: (← expandText run value)]
    | none => expandFields run w
  return fields.flatten

end ScriptCheck.Batch
