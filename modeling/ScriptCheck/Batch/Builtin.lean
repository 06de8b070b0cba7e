import ScriptCheck.Batch.Condition
import ScriptCheck.Batch.Expand
import ScriptCheck.Batch.Format

/-!
# Built-in commands

Commands that a process carries out itself, without a program: they see and change its state.
-/

namespace ScriptCheck.Batch.Builtin

/-- A number that is not negative and fits into 31 bits. -/
def number? (s : Octets) : Option Nat :=
  match Octets.int? s with
  | some n => if 0 ≤ n ∧ n < Nat.pow 2 31 then some n.toNat else none
  | none => none

/-- The number that an argument of a command must be. -/
def number (s : Octets) : Act Nat :=
  match number? s with
  | some n => return n
  | none => misuse ("Illegal number: ".toList ++ s)

/-- The number that a command may have as its first argument. -/
def numberOr (args : List Octets) (default : Nat) : Act Nat :=
  match args with
  | [] => return default
  | arg :: _ => number arg

/-! ### Output -/

def echo (args : List Octets) : Act Nat := do
  return if ← write 1 (echoText args) then 0 else 1

def printf (args : List Octets) : Act Nat := do
  let args := if args.head? = some "--".toList then args.tail else args
  match args with
  | [] => misuse "usage: printf format [arg ...]".toList
  | format :: args =>
    let p := Printing.run format args
    let isOpen ← write 1 p.output
    for text in p.complaints do
      complain text
    return if isOpen then p.code else 1

def workingPath (m : Machine) : Octets :=
  '/' :: Octets.join ['/'] (m.workingDir.map Octets.ofString)

def pwd : Act Nat := do
  let _ ← write 1 (workingPath (← get).machine ++ ['\n'])
  return 0

/-! ### Leaving -/

def exit (args : List Octets) : Act Nat := do
  throw (.exit (.code (← numberOr args (← get).code)))

def returnCode (args : List Octets) : Act Nat := do
  throw (.returned (← numberOr args (← get).code))

/-- Breaks off loops, or only their rounds. Outside of loops nothing happens. -/
def leave (stop : Nat → Break) (args : List Octets) : Act Nat := do
  let count ← numberOr args 1
  if count = 0 then misuse "Illegal number: 0".toList
  let loops := (← get).loops
  if loops ≠ 0 then throw (stop (min count loops))
  return 0

/-! ### Conditions -/

def test (args : List Octets) : Act Nat := do
  match condition (← get).machine args with
  | .ok p => return if p then 0 else 1
  | .error e => misuse e.message

def bracket (args : List Octets) : Act Nat :=
  if args.getLast? = some [']'] then test args.dropLast else misuse "missing ]".toList

/-! ### Places -/

def cd (args : List Octets) : Act Nat := do
  let args := args.filter fun a => a ≠ "-L".toList && a ≠ "-P".toList && a ≠ "--".toList
  let path ← match args with
    | [] => pure ((← lookUp "HOME".toList).getD [])
    | ['-'] :: _ => pure ((← lookUp "OLDPWD".toList).getD [])
    | path :: _ => pure (if path = [] then ['.'] else path)
  let m := (← get).machine
  match m.resolve path.text with
  | .ok (place, .directory _) =>
    modify fun s => { s with machine := { m with workingDir := place } }
    assign "OLDPWD".toList (workingPath m)
    let new := workingPath (← get).machine
    assign "PWD".toList new
    if args = [['-']] then
      let _ ← write 1 (new ++ ['\n'])
    return 0
  | _ => misuse ("can't cd to ".toList ++ path)

/-! ### Variables -/

/-- A name, and the value behind an equals sign. -/
def readAssignment (arg : Octets) : Octets × Option Octets :=
  (arg.takeWhile (· ≠ '='), match arg.dropWhile (· ≠ '=') with
    | _ :: value => some value
    | [] => none)

/-- A text between single quotation marks, each of which in it is written apart. -/
def quote (text : Octets) : Octets :=
  '\'' :: text.flatMap (fun c => if c = '\'' then "'\"'\"'".toList else [c]) ++ ['\'']

/-- Writes the variables with a mark, in the order of their names. -/
def listVariables (command : String) (isMarked : Variable → Bool) : Act Nat := do
  let marked := (← get).bindings.filter (isMarked ·.2)
  let bindings := marked.mergeSort fun x y => Octets.isUpTo x.1 y.1
  for (name, v) in bindings do
    let value := match v.value with
      | some value => '=' :: quote value
      | none => []
    let _ ← write 1 (command.toList ++ ' ' :: name ++ value ++ ['\n'])
  return 0

/-- Marks variables, and gives them values. -/
def declare (mark : Variable → Variable) (args : List Octets) : Act Nat := do
  for arg in args.filter (· ≠ "-p".toList) do
    let (name, value) := readAssignment arg
    if !Octets.isName name then misuse (name ++ ": bad variable name".toList)
    if let some value := value then assign name value
    let v := ((← get).bindings.lookup name).getD ⟨none, false, false⟩
    putVariable name (some (mark v))
  return 0

/-- Makes variables of a function call, which get their old values back at its end. -/
def declareLocal (args : List Octets) : Act Nat := do
  match (← get).locals with
  | [] => abandon "not in a function".toList
  | _ =>
    for arg in args do
      let (name, value) := readAssignment arg
      if !Octets.isName name then misuse (name ++ ": bad variable name".toList)
      modify fun s =>
        let saved := (name, s.bindings.lookup name)
        { s with locals := (saved :: s.locals.headD []) :: s.locals.tail }
      if let some value := value then assign name value
    return 0

def unset (args : List Octets) : Act Nat := do
  let isFunction := args.head? = some "-f".toList
  for name in args.filter (fun a => a ≠ "-f".toList && a ≠ "-v".toList) do
    if isFunction then
      modify fun s => { s with functions := s.functions.filter (·.1 ≠ name) }
    else
      if !Octets.isName name then misuse (name ++ ": bad variable name".toList)
      if (((← get).bindings.lookup name).map (·.isReadOnly)).getD false then
        misuse (name ++ ": is read only".toList)
      putVariable name none
  return 0

/-! ### Options and arguments -/

/-- Switches an option; `none` for a letter that is none. -/
def switch (o : Options) (on : Bool) (letter : Char) : Option Options :=
  if letter = 'e' then some { o with stopOnFailure := on }
  else if letter = 'u' then some { o with refuseUnset := on }
  else if letter = 'f' then some { o with keepPatterns := on }
  else if letter = 'n' then some { o with readOnly := on }
  else if letter = 'a' then some { o with exportAll := on }
  else if letter = 'C' then some { o with keepFiles := on }
  else if "xvmbIiVEs".toList.contains letter then some o
  else none

/-- The letters of options with a name. -/
def optionNames : List (String × Char) :=
  [("errexit", 'e'), ("nounset", 'u'), ("noglob", 'f'), ("noexec", 'n'), ("allexport", 'a'),
    ("noclobber", 'C'), ("xtrace", 'x'), ("verbose", 'v'), ("monitor", 'm'), ("notify", 'b'),
    ("ignoreeof", 'I'), ("interactive", 'i'), ("vi", 'V'), ("emacs", 'E'), ("stdin", 's')]

def switchAll (o : Options) (on : Bool) : Octets → Except Char Options
  | [] => .ok o
  | letter :: rest =>
    match switch o on letter with
    | some o => switchAll o on rest
    | none => .error letter

/-- Switches the options in front of arguments. The arguments behind them are `none` where there
is nothing that could replace the old ones. -/
def readOptions (o : Options) : List Octets → Except Octets (Options × Option (List Octets))
  | [] => .ok (o, none)
  | ['-', '-'] :: rest => .ok (o, some rest)
  | ['-'] :: rest => .ok (o, if rest = [] then none else some rest)
  | ['-', 'o'] :: name :: rest => readNamed o true name rest
  | ['+', 'o'] :: name :: rest => readNamed o false name rest
  | (sign :: letters) :: rest =>
    if (sign = '-' || sign = '+') && letters ≠ [] then
      if letters = ['o'] then .ok (o, none)
      else
        match switchAll o (sign = '-') letters with
        | .ok o => readOptions o rest
        | .error letter => .error ("Illegal option -".toList ++ [letter])
    else .ok (o, some ((sign :: letters) :: rest))
  | [] :: rest => .ok (o, some ([] :: rest))
where
  readNamed (o : Options) (on : Bool) (name : Octets) (rest : List Octets) :
      Except Octets (Options × Option (List Octets)) :=
    match optionNames.lookup (String.ofList name) with
    | some letter =>
      match switch o on letter with
      | some o => readOptions o rest
      | none => readOptions o rest
    | none => .error ("Illegal option -o ".toList ++ name)

def setOptions (args : List Octets) : Act Nat := do
  match readOptions (← get).options args with
  | .error text => misuse text
  | .ok (options, new?) =>
    modify fun s => { s with options, args := new?.getD s.args }
    return 0

def shift (args : List Octets) : Act Nat := do
  let count ← numberOr args 1
  if (← get).args.length < count then misuse "can't shift that many".toList
  modify fun s => { s with args := s.args.drop count }
  return 0

/-- Reads the next option of the arguments into a variable. -/
def getopts (args : List Octets) : Act Nat := do
  let letters :: name :: args := args | misuse "Usage: getopts optstring var [arg...]".toList
  let s ← get
  let args := if args = [] then s.args else args
  let index := (((← lookUp "OPTIND".toList).bind Octets.nat?).getD 1) - 1
  let inner := (((← lookUp "OPTOFF".toList).bind Octets.nat?).getD 1)
  let finish (letter : Char) (value : Option Octets) (index inner code : Nat) : Act Nat := do
    assign name [letter]
    match value with
    | some value => assign "OPTARG".toList value
    | none => putVariable "OPTARG".toList none
    assign "OPTIND".toList (Octets.ofNat (index + 1))
    assign "OPTOFF".toList (Octets.ofNat inner)
    return code
  let word := args.getD index []
  match word with
  | '-' :: cluster@(_ :: _) =>
    if cluster = ['-'] then return ← finish '?' none (index + 1) 1 1
    let letter := word.getD inner '?'
    let isLast := word.length ≤ inner + 1
    let next := if isLast then (index + 1, 1) else (index, inner + 1)
    match letters.dropWhile (· ≠ letter) with
    | _ :: ':' :: _ =>
      if !isLast then finish letter (some (word.drop (inner + 1))) (index + 1) 1 0
      else
        match args[index + 1]? with
        | some value => finish letter (some value) (index + 2) 1 0
        | none =>
          if letters.head? = some ':' then return ← finish ':' (some [letter]) (index + 1) 1 0
          report ("No arg for -".toList ++ letter :: " option".toList)
          finish '?' none (index + 1) 1 0
    | _ :: _ => finish letter none next.1 next.2 0
    | [] =>
      if letters.head? = some ':' then return ← finish '?' (some [letter]) next.1 next.2 0
      report ("Illegal option -".toList ++ [letter])
      finish '?' none next.1 next.2 0
  | _ => finish '?' none index 1 1

/-! ### Input -/

/-- The fields for some names: the last name gets all that is left. -/
def fieldsFor (separators : Octets) : Nat → Octets → List Octets
  | 0, _ => []
  | n + 1, text =>
    let isWhite := fun c => Octets.isSpace c && separators.contains c
    let text := text.dropWhile isWhite
    let field := text.takeWhile fun c => !separators.contains c
    let rest := (text.drop field.length).dropWhile isWhite
    if n = 0 then
      let whole := (text.reverse.dropWhile isWhite).reverse
      let isLast := rest = [] || (rest.length = 1 && separators.contains (rest.headD ' '))
      [if isLast then field else whole]
    else
      let rest := match rest with
        | c :: after => if separators.contains c && !isWhite c then after else rest
        | [] => []
      field :: fieldsFor separators n rest

/-- A line without the backslashes that keep the next character, and with the next line behind a
backslash at its end; tells whether the line is complete, and what follows it. -/
def takeLine (raw : Bool) : Octets → Octets × Bool × Octets
  | [] => ([], false, [])
  | '\n' :: rest => ([], true, rest)
  | '\\' :: c :: rest =>
    if raw then
      let (line, r) := takeLine raw (c :: rest)
      ('\\' :: line, r)
    else
      let (line, r) := takeLine raw rest
      (if c = '\n' then line else c :: line, r)
  | c :: rest =>
    let (line, r) := takeLine raw rest
    (c :: line, r)

def read (args : List Octets) : Act Nat := do
  let raw := args.head? = some "-r".toList
  let names := if raw then args.tail else args
  if names = [] then misuse "arg count".toList
  if let some name := names.find? fun name => !Octets.isName name then
    misuse (name ++ ": bad variable name".toList)
  let (line, isComplete, rest) := takeLine raw (← readAll 0)
  unread 0 rest
  let values := fieldsFor (← separators) names.length line
  for (name, k) in names.zipIdx do
    assign name (values.getD k [])
  return if isComplete then 0 else 1

/-! ### Signals -/

/-- The signals of which a number has no name here are known by the number itself. -/
def lastSignal : Nat := 64

def signalName (n : Nat) : Octets :=
  let name? := if n = 16 then none else signalNames.lookup n
  match name? with
  | some name => name.toList
  | none =>
    if n = 34 then "RTMIN".toList
    else if n = lastSignal then "RTMAX".toList
    else if 34 < n && n < 50 then "RTMIN+".toList ++ Octets.ofNat (n - 34)
    else if 50 ≤ n && n < lastSignal then "RTMAX-".toList ++ Octets.ofNat (lastSignal - n)
    else Octets.ofNat n

/-- The signal with a number or a name, in capital or small letters. -/
def signal? (text : Octets) : Option Nat :=
  match Octets.nat? text with
  | some n => if n ≤ lastSignal then some n else none
  | none => (List.range (lastSignal + 1)).find? fun n => signalName n = text.map Char.toUpper

def killUsage {α : Type} : Act α :=
  misuse ("Usage: kill [-s sigspec | -signum | -sigspec] [pid | job]... or\n".toList
    ++ "kill -l [exitstatus]".toList)

/-- Sends a signal to each process; the code is one if any of them is not there. -/
def sendAll (signal : Nat) (targets : List Octets) : Act Nat := do
  let mut code := 0
  for target in targets do
    let isSent ← match target with
      | '%' :: _ => misuse ("No such job: ".toList ++ target)
      | '-' :: group =>
        let _ ← number group
        pure false
      | _ =>
        let n ← number target
        let own := (← get).process
        send signal (if n = 0 then own else n)
    if !isSent then
      complain "No such process\n".toList
      code := 1
  return code

/-- Names the signal of a number or of the code of a command that it ended. -/
def nameSignal (args : List Octets) : Act Nat := do
  match args with
  | [] =>
    let _ ← write 1 (Octets.unlines ((List.range (lastSignal + 1)).map signalName))
    return 0
  | arg :: _ =>
    let n ← number arg
    let n := if 128 < n then n - 128 else n
    if n = 0 || lastSignal < n then
      misuse ("invalid signal number or exit status: ".toList ++ arg)
    let _ ← write 1 (signalName n ++ ['\n'])
    return 0

def kill (args : List Octets) : Act Nat := do
  let sendOr (signal : Nat) (targets : List Octets) : Act Nat :=
    if targets = [] then killUsage else sendAll signal targets
  let named (text : Octets) (targets : List Octets) : Act Nat :=
    match signal? text with
    | some n => sendOr n targets
    | none => misuse ("invalid signal number or name: ".toList ++ text)
  match args with
  | ['-', '-'] :: rest => sendOr 15 rest
  | ['-'] :: _ => sendOr 15 args
  | ('-' :: option) :: rest =>
    match signal? option with
    | some n => sendOr n rest
    | none =>
      match option with
      | ['s'] =>
        match rest with
        | [] => misuse "No arg for -s option".toList
        | name :: targets => named name targets
      | 's' :: name => named name rest
      | 'l' :: _ => nameSignal rest
      | letter :: _ => misuse ("Illegal option -".toList ++ [letter])
      | [] => killUsage
  | _ => sendOr 15 args

/-- The signal of a handler, where the end of the process counts as one. -/
def trapSignal? (text : Octets) : Option Nat :=
  if text.map Char.toUpper = "EXIT".toList then some 0 else signal? text

def listTraps : Act Nat := do
  for (n, action) in (← ownActions) do
    let name := if n = 0 then "EXIT".toList else signalName n
    let _ ← write 1 ("trap -- '".toList ++ action ++ "' ".toList ++ name ++ ['\n'])
  return 0

def trap (args : List Octets) : Act Nat := do
  let args := if args.head? = some "--".toList then args.tail else args
  let (action, names) := match args with
    | [] => (none, [])
    | [name] => (none, [name])
    | action :: names =>
      if action = ['-'] then (none, names)
      else if (Octets.nat? action).isSome then (none, args)
      else (some action, names)
  if args = [] then return ← listTraps
  let mut code := 0
  for name in names do
    match trapSignal? name with
    | some n =>
      let others := (← ownActions).filter (·.1 ≠ n)
      setOwnActions (match action with
        | some action => others ++ [(n, action)]
        | none => others)
    | none =>
      report ("trap: ".toList ++ name ++ ": bad trap".toList)
      code := 1
  return code

/-- Waits for processes in the background, all of which have ended. -/
def wait (args : List Octets) : Act Nat := do
  match args with
  | [] =>
    modify fun s => { s with jobs := s.jobs.take 1 }
    return 0
  | target :: _ =>
    let n ← number target
    return ((← get).jobs.lookup n).getD 127

/-! ### Names -/

/-- The commands of which a misuse ends the process, and which keep the assignments in front. -/
def specialNames : List String :=
  [".", ":", "break", "continue", "eval", "exec", "exit", "export", "readonly", "return", "set",
    "shift", "times", "trap", "unset"]

/-- The built-in commands that do not run others. -/
def table : List (String × (List Octets → Act Nat)) :=
  let nothing := fun _ => return 0
  [(":", nothing), ("true", nothing), ("false", fun _ => return 1), ("echo", echo),
    ("printf", printf), ("pwd", fun _ => pwd), ("exit", exit), ("return", returnCode),
    ("break", leave .leave), ("continue", leave .again), ("test", test),
    ("[", bracket), ("cd", cd), ("chdir", cd),
    ("export", fun args =>
      if args.all (· = "-p".toList) then listVariables "export" (·.isExported)
      else declare (fun v => { v with isExported := true }) args),
    ("readonly", fun args =>
      if args.all (· = "-p".toList) then listVariables "readonly" (·.isReadOnly)
      else declare (fun v => { v with isReadOnly := true }) args),
    ("local", declareLocal), ("unset", unset), ("set", setOptions), ("shift", shift),
    ("getopts", getopts), ("read", read), ("kill", kill), ("trap", trap), ("wait", wait),
    ("umask", fun args => do
      if args = [] then
        let _ ← write 1 "0022\n".toList
      return 0),
    ("times", nothing), ("hash", nothing), ("jobs", nothing), ("ulimit", nothing),
    ("alias", nothing), ("unalias", nothing)]

end ScriptCheck.Batch.Builtin
