import ScriptCheck.Batch.Tool.Arguments

/-!
# Tools for numbers

`seq` writes the numbers of a range, and `expr` the value of an expression of which each operand
and each operator is an argument.
-/

namespace ScriptCheck.Batch.Tool

/-! ### Ranges -/

/-- The numbers from the first to the last in steps. -/
def range (first step last : Int) : List Octets :=
  let count := if step = 0 then 0 else ((last - first).fdiv step + 1).toNat
  (List.range count).map fun (k : Nat) => Octets.ofInt (first + k * step)

def seq (args : List Octets) : Act Nat := do
  let (between, args) := match args with
    | ['-', 's'] :: between :: args => (between, args)
    | ('-' :: 's' :: between) :: args => (between, args)
    | args => (['\n'], args)
  let numbers? := match args.map Octets.int? with
    | [some last] => some (range 1 1 last)
    | [some first, some last] => some (range first 1 last)
    | [some first, some step, some last] => some (range first step last)
    | _ => none
  match numbers? with
  | some numbers =>
    if !numbers.isEmpty then emit (Octets.join between numbers ++ ['\n'])
    return 0
  | none =>
    report "seq: invalid argument".toList
    return 1

/-! ### Expressions -/

/-- The operators and how strongly they bind. -/
def strengths : List (String × Nat) :=
  [("|", 1), ("&", 2), ("=", 3), ("!=", 3), ("<", 3), ("<=", 3), (">", 3), (">=", 3), ("+", 4),
    ("-", 4), ("*", 5), ("/", 5), ("%", 5)]

/-- Nothing, or zero. -/
def isNull (x : Octets) : Bool :=
  x = [] || Octets.int? x = some 0

/-- The value of an operator; numbers are compared as such, and other texts letter by letter. -/
def applyOperator (op : String) (x y : Octets) : Option Octets :=
  let truth (p : Bool) : Option Octets := some (if p then ['1'] else ['0'])
  let order : Ordering := match Octets.int? x, Octets.int? y with
    | some a, some b => compare a b
    | _, _ => compare (String.ofList x) (String.ofList y)
  let number (f : Int → Int → Option Int) : Option Octets := do
    let n ← f (← Octets.int? x) (← Octets.int? y)
    return Octets.ofInt n
  match op with
  | "|" => some (if !isNull x then x else if isNull y then ['0'] else y)
  | "&" => some (if isNull x || isNull y then ['0'] else x)
  | "=" => truth (order = .eq)
  | "!=" => truth (order ≠ .eq)
  | "<" => truth (order = .lt)
  | "<=" => truth (order ≠ .gt)
  | ">" => truth (order = .gt)
  | ">=" => truth (order ≠ .lt)
  | "+" => number fun a b => some (a + b)
  | "-" => number fun a b => some (a - b)
  | "*" => number fun a b => some (a * b)
  | "/" => number fun a b => if b = 0 then none else some (a.tdiv b)
  | _ => number fun a b => if b = 0 then none else some (a.tmod b)

mutual

def exprOperand : Nat → List Octets → Option (Octets × List Octets)
  | 0, _ => none
  | n + 1, args =>
    match args with
    | ['('] :: rest => do
      let (value, rest) ← exprOperand n rest
      let (value, rest) ← exprTail n 0 value rest
      if rest.head? = some [')'] then return (value, rest.tail) else none
    | value :: rest => some (value, rest)
    | [] => none

/-- Goes on with operators that bind more strongly than a bound. -/
def exprTail : Nat → Nat → Octets → List Octets → Option (Octets × List Octets)
  | 0, _, _, _ => none
  | n + 1, bound, left, args =>
    match args with
    | op :: rest =>
      match strengths.lookup (String.ofList op) with
      | some strength =>
        if strength ≤ bound then some (left, args)
        else do
          let (right, rest) ← exprOperand n rest
          let (right, rest) ← exprTail n strength right rest
          exprTail n bound (← applyOperator (String.ofList op) left right) rest
      | none => some (left, args)
    | [] => some (left, [])

end

/-- The code tells whether the value is something other than nothing and zero. -/
def expr (args : List Octets) : Act Nat := do
  let fuel := 4 * (args.length + 1)
  let value? := (exprOperand fuel args).bind fun (value, rest) => exprTail fuel 0 value rest
  match value? with
  | some (value, []) =>
    emit (value ++ ['\n'])
    return if isNull value then 1 else 0
  | _ =>
    report "expr: syntax error".toList
    return 2

end ScriptCheck.Batch.Tool
