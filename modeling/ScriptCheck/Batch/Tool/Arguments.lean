import ScriptCheck.Batch.Process

/-!
# Arguments of tools

Options are letters behind a dash, alone or in clusters; some take a value, which is the rest of
their cluster or the next argument. Everything else is an operand.
-/

namespace ScriptCheck.Batch

structure Arguments where
  options : List (Char × Octets)
  operands : List Octets

namespace Arguments

def has (a : Arguments) (letter : Char) : Bool :=
  a.options.any (·.1 = letter)

/-- The value of the last option with a letter. -/
def value? (a : Arguments) (letter : Char) : Option Octets :=
  a.options.reverse.lookup letter

/-- The options of a cluster, and a letter at its end that still needs a value. -/
def readCluster (plain valued : Octets) : Octets → Except Char (List (Char × Octets) × Option Char)
  | [] => .ok ([], none)
  | c :: rest =>
    if plain.contains c then
      (readCluster plain valued rest).map fun (options, open?) => ((c, []) :: options, open?)
    else if valued.contains c then
      .ok (if rest = [] then ([], some c) else ([(c, rest)], none))
    else .error c

/-- Reads arguments with the letters that stand alone and those that take a value. An error is
the letter of an option that is neither, or that lacks its value. -/
def read (plain valued : String) : List Octets → Except Char Arguments
  | [] => .ok ⟨[], []⟩
  | ['-', '-'] :: rest => .ok ⟨[], rest⟩
  | ('-' :: c :: letters) :: rest =>
    match readCluster plain.toList valued.toList (c :: letters), rest with
    | .ok (options, none), rest =>
      (read plain valued rest).map fun a => { a with options := options ++ a.options }
    | .ok (options, some c), value :: rest =>
      (read plain valued rest).map fun a => { a with options := options ++ (c, value) :: a.options }
    | .ok (_, some c), [] => .error c
    | .error c, _ => .error c
  | arg :: rest => (read plain valued rest).map fun a => { a with operands := arg :: a.operands }

end Arguments

/-! ### Tools -/

/-- A text between single quotation marks, as it is shown in a complaint. -/
def cite (text : Octets) : Octets :=
  '\'' :: text ++ ['\'']

/-- A text as it is, if it could stand for itself in a batch. -/
def citeIfOdd (text : Octets) : Octets :=
  let isOdd := text = [] || text.any " !\"$&()*;<=>[^\x60|'\\?\t\n".toList.contains
    || ['#', '~'].contains (text.headD ' ') || [['\x7b'], ['\x7d']].contains text
  if isOdd then cite text else text

/-- A complaint of a tool about an operand. -/
def reportFault (tool : String) (what : Octets) (e : HostError) : Act Unit :=
  report (tool.toList ++ ": ".toList ++ what ++ ": ".toList ++ e.reason.toList)

/-- The code of a tool that can do nothing; for some, one already tells of what they found. -/
def refusalCode (tool : String) : Nat :=
  if ["grep", "ls", "sort"].contains tool then 2 else 1

/-- A tool breaks off at its arguments. -/
def refuseArguments (tool : String) (why : Octets) : Act Nat := do
  report (tool.toList ++ ": ".toList ++ why)
  report ("Try '".toList ++ tool.toList ++ " --help' for more information.".toList)
  return refusalCode tool

/-- Goes on with the arguments of a tool, if they are well formed. -/
def withArguments (tool plain valued : String) (args : List Octets) (go : Arguments → Act Nat) :
    Act Nat :=
  match Arguments.read plain valued args with
  | .ok a => go a
  | .error c => refuseArguments tool ("invalid option -- ".toList ++ cite [c])

/-- A tool without the operand that it needs. -/
def missingOperand (tool : String) : Act Nat :=
  refuseArguments tool "missing operand".toList

/-- Does something for each operand; the code is one if any of it failed. -/
def forOperands (operands : List Octets) (go : Octets → Act Bool) : Act Nat := do
  let results ← operands.mapM go
  return if results.all id then 0 else 1

/-- Changes the machine, or complains. -/
def changeMachine (tool : String) (what : Octets) (change : Machine → Except HostError Machine) :
    Act Bool := do
  match change (← get).machine with
  | .ok machine =>
    modify fun s => { s with machine }
    return true
  | .error e =>
    reportFault tool what e
    return false

/-- The content of an operand, where a dash stands for the standard input. -/
def contentOf (tool : String) (operand : Octets) : Act (Option Octets) := do
  if operand = ['-'] then return some (← readAll 0)
  match (← get).machine.readBytes operand.text with
  | .ok bytes => return some (Octets.ofBytes bytes)
  | .error e =>
    reportFault tool (unreadable tool e operand) e
    return none
where
  /-- How a tool names an operand that it cannot read. -/
  unreadable (tool : String) (e : HostError) (operand : Octets) : Octets :=
    if tool = "head" || tool = "tail" then
      if e = .isDirectory then "error reading ".toList ++ cite operand
      else "cannot open ".toList ++ cite operand ++ " for reading".toList
    else if tool = "sort" then "read failed: ".toList ++ citeIfOdd operand
    else if tool = "sed" then "can't read ".toList ++ operand
    else if tool = "grep" then operand
    else citeIfOdd operand

/-- Writes to the standard output; nothing can be done if it is closed. -/
def emit (text : Octets) : Act Unit := do
  let _ ← write 1 text

end ScriptCheck.Batch
