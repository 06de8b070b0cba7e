import ScriptCheck.Batch.Arithmetic
import ScriptCheck.Host.Machine

/-!
# Conditions

What `test` finds out about texts, numbers and files. An argument that could be an operator is one
only where it has what it needs beside it.
-/

namespace ScriptCheck.Batch

inductive ConditionFault
  | notNumber (arg : Octets)
  | needsArgument (op : Octets)
  | openBracket
  | unexpected (arg : Octets)
deriving DecidableEq, Repr

def ConditionFault.message : ConditionFault → Octets
  | notNumber arg => "Illegal number: ".toList ++ arg
  | needsArgument op => op ++ ": argument expected".toList
  | openBracket => "closing paren expected".toList
  | unexpected arg => arg ++ ": unexpected operator".toList

abbrev Condition := Except ConditionFault (Bool × List Octets)

/-! ### Operators -/

def isUnary (arg : Octets) : Bool :=
  match arg with
  | ['-', c] => "rwxefdcbpugksSznthLGO".toList.contains c
  | _ => false

def binaryOperators : List String :=
  ["=", "!=", "<", ">", "-eq", "-ne", "-ge", "-gt", "-le", "-lt", "-nt", "-ot", "-ef"]

def isBinary (arg : Octets) : Bool :=
  binaryOperators.any (·.toList = arg)

def conditionInt (arg : Octets) : Except ConditionFault Int :=
  match Octets.int? arg with
  | some n => if -greatest - 1 ≤ n ∧ n ≤ greatest then .ok n else .error (.notNumber arg)
  | none => .error (.notNumber arg)

/-- A question about what a path leads to. -/
def fileCondition (m : Machine) (letter : Char) (path : Octets) : Bool :=
  match m.node? path.text with
  | none => false
  | some node =>
    match letter, node with
    | 'f', .file _ _ => true
    | 'f', .program _ => true
    | 'd', .directory _ => true
    | 'c', .void => true
    | 's', .file content _ => content.size ≠ 0
    | 's', .void => false
    | 's', _ => true
    | 'x', .file _ executable => executable
    | 'x', .void => false
    | _, _ => "erwxGO".toList.contains letter

/-- The verdict on two operands. All files are equally old. -/
def binaryCondition (m : Machine) (left op right : Octets) : Except ConditionFault Bool := do
  match String.ofList op with
  | "=" => return left = right
  | "!=" => return left ≠ right
  | "<" => return left < right
  | ">" => return right < left
  | "-nt" => return false
  | "-ot" => return false
  | "-ef" =>
    match m.resolve left.text, m.resolve right.text with
    | .ok (a, _), .ok (b, _) => return a = b
    | _, _ => return false
  | op =>
    let a ← conditionInt left
    let b ← conditionInt right
    match op with
    | "-eq" => return a = b
    | "-ne" => return a ≠ b
    | "-lt" => return a < b
    | "-le" => return a ≤ b
    | "-gt" => return b < a
    | _ => return b ≤ a

/-- The first argument is an operator, and not the operand of one. -/
def isOperatorHere (args : List Octets) : Bool :=
  match args with
  | [] => false
  | op :: rest =>
    if isUnary op then
      match rest with
      | [] => false
      | [_] => true
      | next :: _ => !isBinary next
    else if op = ['('] then !rest.isEmpty
    else isBinary op || op = ['!'] || op = [')'] || op = "-a".toList || op = "-o".toList

/-! ### Reading -/

mutual

/-- Alternatives; what comes back begins with the last argument that was used. -/
def either (m : Machine) : Nat → List Octets → Condition
  | 0, args => .ok (false, args)
  | n + 1, args => do
    let (p, args) ← both m n args
    match args.tail with
    | ['-', 'o'] :: rest =>
      let (q, args) ← either m n rest
      return (p || q, args)
    | _ => return (p, args)

def both (m : Machine) : Nat → List Octets → Condition
  | 0, args => .ok (false, args)
  | n + 1, args => do
    let (p, args) ← negated m n args
    match args.tail with
    | ['-', 'a'] :: rest =>
      let (q, args) ← both m n rest
      return (p && q, args)
    | _ => return (p, args)

def negated (m : Machine) : Nat → List Octets → Condition
  | 0, args => .ok (false, args)
  | n + 1, args => do
    match args with
    | ['!'] :: rest =>
      if rest.isEmpty then return (true, args)
      let (p, args) ← negated m n rest
      return (!p, args)
    | _ => primary m n args

def primary (m : Machine) : Nat → List Octets → Condition
  | 0, args => .ok (false, args)
  | n + 1, args => do
    match args with
    | [] => return (false, [])
    | arg :: rest =>
      if isOperatorHere args && arg = ['('] then
        if rest.head? = some [')'] then return (false, rest)
        let (p, args) ← either m n rest
        if args.tail.head? ≠ some [')'] then throw .openBracket
        return (p, args.tail)
      else if isOperatorHere args && isUnary arg then
        match rest with
        | [] => throw (.needsArgument arg)
        | operand :: _ =>
          let letter := arg.getD 1 ' '
          if letter = 'z' then return (operand = [], rest)
          if letter = 'n' then return (operand ≠ [], rest)
          if letter = 't' then
            let _ ← conditionInt operand
            return (false, rest)
          return (fileCondition m letter operand, rest)
      else
        match rest with
        | op :: after =>
          if !isBinary op then return (arg ≠ [], args)
          match after with
          | [] => throw (.needsArgument op)
          | operand :: _ => return (← binaryCondition m arg op operand, after)
        | [] => return (arg ≠ [], args)

end

/-- The verdict on arguments, all of which must have been used. -/
def wholeCondition (m : Machine) (args : List Octets) : Except ConditionFault Bool := do
  let (p, rest) ← either m (8 * (args.length + 2)) args
  match rest with
  | arg :: _ :: _ => throw (.unexpected arg)
  | _ => return p

/-- The verdict on the arguments of `test`. Of three, the one in the middle is an operator if it
can be; otherwise brackets around three or four arguments go first, and then a negation. -/
def condition (m : Machine) (args : List Octets) : Except ConditionFault Bool := do
  match args with
  | [] => return false
  | [left, op, right] =>
    if isBinary op then binaryCondition m left op right
    else if left = ['('] && right = [')'] then wholeCondition m [op]
    else if left = ['!'] then return !(← wholeCondition m [op, right])
    else wholeCondition m args
  | [first, second, third, last] =>
    if first = ['('] && last = [')'] then wholeCondition m [second, third]
    else if first = ['!'] then return !(← wholeCondition m [second, third, last])
    else wholeCondition m args
  | _ => wholeCondition m args

end ScriptCheck.Batch
