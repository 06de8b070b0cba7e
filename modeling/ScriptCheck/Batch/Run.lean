import ScriptCheck.Batch.Builtin
import ScriptCheck.Batch.Parse
import ScriptCheck.Batch.Tool.Edit
import ScriptCheck.Batch.Tool.Numbers
import ScriptCheck.Batch.Tool.Search

/-!
# Running batches

Carries out commands. Loops and calls need not end, so that everything here takes fuel; without
any left, the batch breaks off. A command is tested if what it is a part of asks for its success,
and then its failure does not end the process.
-/

namespace ScriptCheck.Batch

/-! ### Utilities -/

/-- Runs an action as a part of a built-in command, or of a file. -/
def calling {α : Type} (caller : Octets) (act : Act α) : Act α := do
  let before := (← get).caller
  let restore : Act Unit := modify fun s => { s with caller := before }
  modify fun s => { s with caller }
  let x ← tryCatch act fun e => do
    restore
    throw e
  restore
  return x

def runUtility (u : Utility) (args : List Octets) : Act Nat :=
  match u with
  | .basename => Tool.basename args
  | .bracket => calling ['['] (Builtin.bracket args)
  | .cat => Tool.cat args
  | .chmod => Tool.chmod args
  | .cp => Tool.cp args
  | .cut => Tool.cut args
  | .dirname => Tool.dirname args
  | .echo => Builtin.echo args
  | .expr => Tool.expr args
  | .fail => return 1
  | .grep => Tool.grep args
  | .head => Tool.head args
  | .kill => calling "kill".toList (Builtin.kill args)
  | .ln => Tool.ln args
  | .ls => Tool.ls args
  | .mkdir => Tool.mkdir args
  | .mv => Tool.mv args
  | .printf => calling "printf".toList (Builtin.printf args)
  | .pwd => Builtin.pwd
  | .rm => Tool.rm args
  | .rmdir => Tool.rmdir args
  | .sed => Tool.sed args
  | .seq => Tool.seq args
  | .sleep => if args = [] then missingOperand "sleep" else return 0
  | .sort => Tool.sort args
  | .succeed => return 0
  | .tail => Tool.tail args
  | .tee => Tool.tee args
  | .test => calling "test".toList (Builtin.test args)
  | .touch => Tool.touch args
  | .tr => Tool.tr args
  | .uniq => Tool.uniq args
  | .wc => Tool.wc args

/-! ### Processes -/

/-- The code under which a process knows how another one ended. -/
def statusCode : Ending → Nat
  | .code n => n % 256
  | .signal n => 128 + n

/-- How a process ends when its body breaks off. -/
def endOfBreak (process : Nat) : Break → Act Ending
  | .exit ending => return ending
  | .returned code => return .code code
  | .leave _ => return .code 0
  | .again _ => return .code 0
  | .misuse code => return .code code
  | .killed target signal =>
    if target = process then return .signal signal else throw (.killed target signal)
  | .outOfFuel => throw .outOfFuel

/-- Runs a body as a process of its own, with its last action behind it, and comes back. -/
def asProcess (enter : State → State) (runAction : Octets → Act Nat) (body : Act Nat) :
    Act Ending := do
  let before ← get
  modify fun s => enter s.fork
  let process := (← get).process
  let run (body : Act Nat) : Act Ending :=
    tryCatch (do return .code (← body)) (endOfBreak process)
  let ending ← run body
  let ending ← match ending, (← ownActions).lookup 0 with
    | .code code, some action => do
      setOwnActions ((← ownActions).filter (·.1 ≠ 0))
      modify fun s => { s with code }
      run (do
        let _ ← runAction action
        return code)
    | _, _ => pure ending
  modify before.resume
  return ending

/-- Runs an action, and puts the open files back as they were. -/
def keepingFiles {α : Type} (act : Act α) : Act α := do
  let files := (← get).files
  let restore : Act Unit := modify fun s => { s with files }
  let x ← tryCatch act fun e => do
    restore
    throw e
  restore
  return x

/-- Gives variables values for the time of an action. -/
def withVariables {α : Type} (values : List (Octets × Octets)) (act : Act α) : Act α := do
  let bindings := (← get).bindings
  let old := values.map fun (name, _) => (name, bindings.lookup name)
  for (name, value) in values do
    assign name value
    putVariable name (some ⟨some value, true, false⟩)
  let restore : Act Unit := do
    for (name, v) in old do
      putVariable name v
  let x ← tryCatch act fun e => do
    restore
    throw e
  restore
  return x

/-- Turns the misuse of a command into its code. -/
def catchMisuse (act : Act Nat) : Act Nat :=
  tryCatch act fun e =>
    match e with
    | .misuse code => return code
    | e => throw e

def setCode (code : Nat) : Act Nat := do
  modify fun s => { s with code }
  return code

/-- A command that fails ends the process, if that is wanted and it is not tested. -/
def checked (tested : Bool) (code : Nat) : Act Nat := do
  let code ← setCode code
  if code ≠ 0 && !tested && (← get).options.stopOnFailure then throw (.exit (.code code))
  return code

/-! ### Finding commands -/

inductive Found
  | program (p : Program)
  /-- A file with commands. -/
  | text (path content : Octets)
  | denied
  | missing

def Found.canRun : Found → Bool
  | .program _ => true
  | .text _ _ => true
  | .denied => false
  | .missing => false

/-- What a path leads to. -/
def findAt (m : Machine) (path : Octets) : Found :=
  match m.resolve path.text with
  | .ok (_, .program p) => .program p
  | .ok (_, .file content true) => .text path (Octets.ofBytes content)
  | .ok _ => .denied
  | .error .permissionDenied => .denied
  | .error _ => .missing

/-- What the name of a command leads to: it is searched for unless it is a path. -/
def findCommand (name : Octets) : Act Found := do
  let m := (← get).machine
  if name.contains '/' then return findAt m name
  let places := Octets.split (· = ':') ((← lookUp "PATH".toList).getD [])
  let candidates := places.map fun place =>
    findAt m (if place = [] then name else place ++ '/' :: name)
  let isDirectory := places.any fun place =>
    ((m.node? (Octets.text (place ++ '/' :: name))).map Node.isDirectory).getD false
  match candidates.find? Found.canRun with
  | some f => return f
  | none =>
    let isDenied := candidates.any fun f =>
      match f with
      | .denied => true
      | _ => false
    return if isDenied && !isDirectory then .denied else .missing

/-- Tells what the name of a command stands for. -/
def describe (inWords : Bool) (name : Octets) : Act Nat := do
  let command := String.ofList name
  let say (text : Octets) (words : String) : Act Nat := do
    let _ ← write 1 ((if inWords then name ++ words.toList else text) ++ ['\n'])
    return 0
  if inWords && (closers ++ openers).contains command then say name " is a shell keyword"
  else if ((← get).functions.lookup name).isSome then say name " is a shell function"
  else if Builtin.specialNames.contains command then say name " is a special shell builtin"
  else if command == "command" || command == "type" || (Builtin.table.lookup command).isSome then
    say name " is a shell builtin"
  else
    let isPath := name.contains '/'
    let isFound ← if isPath then pure ((← get).machine.node? name.text).isSome else
      pure (← findCommand name).canRun
    let path := if isPath then name else "/usr/bin/".toList ++ name
    if isFound then say path (" is " ++ path.text)
    else
      if inWords then
        let _ ← write 1 (name ++ ": not found\n".toList)
      return 127

/-- Tells what names stand for; the code shows whether there is one that stands for nothing. -/
def describeAll (names : List Octets) : Act Nat :=
  names.foldlM (fun code name => do return max code (← describe true name)) 0

/-! ### Redirections -/

/-- Why a file cannot be opened, or made. -/
def openFault (makes : Bool) (e : HostError) : Octets :=
  if e = .notFound || e = .notDirectory then
    (if makes then "Directory nonexistent" else "No such file").toList
  else e.reason.toList

/-- Opens a file under a number, and tells whether that went well. -/
def openFile (file : Nat) (mode : OpenMode) (path : Octets) : Act Bool := do
  let m := (← get).machine
  let name := path.text
  let channel (m : Machine) (append : Bool) : Except HostError (Machine × Channel) := do
    let (place, node) ← m.resolve name
    match node with
    | .void => return (m, .terminal)
    | .directory _ => return (m, .directory)
    | _ => return (m, .file place 0 append)
  let isFile := match m.node? name with
    | some (.file _ _) => true
    | _ => false
  let made : Except HostError Machine :=
    match m.node? name with
    | some (.directory _) => .error .isDirectory
    | some _ => .ok m
    | none => m.write name .empty
  let result ← match mode with
    | .read => pure (channel m false)
    | .append => pure (made >>= (channel · true))
    | .update => pure (made >>= (channel · false))
    | .write => do
      if isFile && (← get).options.keepFiles then pure (.error .inTheWay)
      else pure (m.write name .empty >>= (channel · false))
    | .replace => pure (m.write name .empty >>= (channel · false))
  match result with
  | .ok (machine, c) =>
    modify fun s => { s with machine }
    openChannel file c
    return true
  | .error e =>
    let verb := if mode = .read then "cannot open " else "cannot create "
    complain (verb.toList ++ path ++ ": ".toList ++ openFault (mode ≠ .read) e)
    return false

/-- Carries out a redirection, and tells whether that went well. -/
def applyRedirect (run : Command → Act Octets) : Redirect → Act Bool
  | .openFile file mode path => do openFile file mode (← expandText run path)
  | .document file content => do
    openChannel file (.pipe (← expandText run content))
    return true
  | .duplicate file source => do
    let text ← expandText run source
    if text = ['-'] then
      modify fun s => { s with files := s.files.filter (·.1 ≠ file) }
      return true
    match Octets.nat? text with
    | none => abandon "Syntax error: Bad fd number".toList
    | some k =>
      match (← get).files.lookup k with
      | some c =>
        modify fun s => { s with files := setPair file c s.files }
        return true
      | none =>
        complain (text ++ ": Bad file descriptor".toList)
        return false

/-- Carries out redirections up to the first that fails. -/
def applyRedirects (run : Command → Act Octets) : List Redirect → Act Bool
  | [] => return true
  | r :: rest => do
    if ← applyRedirect run r then applyRedirects run rest else return false

/-! ### Carrying out commands -/

/-- The variables with which a process starts. -/
def startVariables (m : Machine) (parent : Nat) : List (Octets × Variable) :=
  let plain (name : String) (value : Octets) : Octets × Variable :=
    (name.toList, ⟨some value, false, false⟩)
  (m.environment.map fun (name, value) =>
      (Octets.ofString name, ⟨some (Octets.ofString value), true, false⟩)) ++
    [plain "IFS" [' ', '\t', '\n'], plain "OPTIND" ['1'], plain "PPID" (Octets.ofNat parent)]

/-- The words behind `#!` at the front of a text. -/
def interpreterLine (text : Octets) : List Octets :=
  match text with
  | '#' :: '!' :: rest => Octets.words (rest.takeWhile (· ≠ '\n'))
  | _ => []

/-- What a process that starts with arguments is to do. -/
structure Start where
  options : Options
  /-- `-c`: the first argument is the text. -/
  hasText : Bool
  /-- `-s`: the text comes from the standard input. -/
  readsInput : Bool
  args : List Octets

def Start.switch (on : Bool) (s : Start) (letter : Char) : Except Octets Start :=
  if letter = 'c' && on then .ok { s with hasText := true }
  else if letter = 's' && on then .ok { s with readsInput := true }
  else
    match Builtin.switch s.options on letter with
    | some options => .ok { s with options }
    | none => .error ("Illegal option -".toList ++ [letter])

/-- Reads the arguments of the interpreter. -/
def readStart (s : Start) : List Octets → Except Octets Start
  | [] => .ok s
  | ['-'] :: rest => .ok { s with args := rest }
  | ['-', '-'] :: rest => .ok { s with args := rest }
  | arg :: rest => do
    let on := arg.head? = some '-'
    let letters := arg.tail
    if letters = [] || !(on || arg.head? = some '+') then return { s with args := arg :: rest }
    let s ← (letters.filter (· ≠ 'o')).foldlM (Start.switch on) s
    if !letters.contains 'o' then return ← readStart s rest
    match rest with
    | [] => return s
    | name :: rest =>
      match Builtin.optionNames.lookup (String.ofList name) with
      | some letter => readStart (← s.switch on letter) rest
      | none => throw ("Illegal option -o ".toList ++ name)

mutual

/-- Carries out a command; the code is that of the last part that was carried out. -/
def runCommand : Nat → Bool → Command → Act Nat
  | 0, _, _ => throw .outOfFuel
  | n + 1, tested, c => do
    if (← get).options.readOnly then return (← get).code
    match c with
    | .nothing => return (← get).code
    | .simple line assignments words redirects => do
      modify fun s => { s with line }
      let code ← runSimple n tested assignments words redirects
      let code ← setCode code
      runPending n
      checked tested code
    | .sequence first second => do
      let _ ← runCommand n tested first
      runCommand n tested second
    | .background c => do
      let process := (← get).nextProcess
      let ending ← asProcess id (runAction n) (do
        openChannel 0 .terminal
        runCommand n tested c)
      modify fun s => { s with jobs := (process, statusCode ending) :: s.jobs }
      setCode 0
    | .both first second => do
      if (← runCommand n true first) = 0 then runCommand n tested second
      else return (← get).code
    | .either first second => do
      if (← runCommand n true first) = 0 then return 0
      runCommand n tested second
    | .negation c => do
      let code ← runCommand n true c
      setCode (if code = 0 then 1 else 0)
    | .pipeline stages => do
      let code ← keepingFiles (runStages n tested stages)
      let code ← setCode code
      runPending n
      checked tested code
    | .group c => runCommand n tested c
    | .subshell c => do
      let ending ← asProcess id (runAction n) (runCommand n tested c)
      let code ← setCode (statusCode ending)
      runPending n
      checked tested code
    | .choice condition yes no => do
      if (← runCommand n true condition) = 0 then runCommand n tested yes
      else
        match no with
        | .nothing => setCode 0
        | no => runCommand n tested no
    | .loop untilTrue condition body => runLoop n tested untilTrue condition body 0
    | .forEach name words body => do
      let fields ← match words with
        | some words => expandAll (outputOf n) words
        | none => pure (← get).args
      runForEach n tested name body fields 0
    | .select word arms => do
      let text ← expandText (outputOf n) word
      runArms n tested text arms
    | .define name body => do
      modify fun s => { s with functions := setPair name body s.functions }
      setCode 0
    | .redirected line c redirects => do
      modify fun s => { s with line }
      let code? ← keepingFiles (do
        if ← applyRedirects (outputOf n) redirects then
          return some (← runCommand n tested c)
        return none)
      match code? with
      | some code => return code
      | none => checked tested 2

/-- What a command writes to the standard output, as a process of its own. -/
def outputOf : Nat → Command → Act Octets
  | 0, _ => throw .outOfFuel
  | n + 1, c => captured (do
      let ending ← asProcess id (runAction n) (runCommand n false c)
      modify fun s => { s with outputCode := statusCode ending })

/-- Carries out what belongs to a signal; the code of the last command stays. -/
def runAction : Nat → Octets → Act Nat
  | 0, _ => throw .outOfFuel
  | n + 1, action => do
    let code := (← get).code
    let _ ← runText n false 0 (.ofText action)
    setCode code

/-- Acts on the signals that have come for the process. -/
def runPending : Nat → Act Unit
  | 0 => throw .outOfFuel
  | n + 1 => do
    let s ← get
    match s.signals.find? (·.1 = s.process) with
    | none => return
    | some (process, signal) =>
      set { s with signals := s.signals.erase (process, signal) }
      match (← ownActions).lookup signal with
      | some action =>
        let _ ← runAction n action
        runPending n
      | none => runPending n

/-- Goes through a loop, with the code of its last round. -/
def runLoop : Nat → Bool → Bool → Command → Command → Nat → Act Nat
  | 0, _, _, _, _, _ => throw .outOfFuel
  | n + 1, tested, untilTrue, condition, body, last => do
    let next ← runRound n (do
      let code ← runCommand n true condition
      if (code = 0) = !untilTrue then return some (← runCommand n tested body)
      return none)
    match next with
    | .ok (some code) => runLoop n tested untilTrue condition body code
    | .ok none => setCode last
    | .error true => runLoop n tested untilTrue condition body 0
    | .error false => setCode 0

def runForEach : Nat → Bool → Octets → Command → List Octets → Nat → Act Nat
  | 0, _, _, _, _, _ => throw .outOfFuel
  | _ + 1, _, _, _, [], last => setCode last
  | n + 1, tested, name, body, field :: fields, _ => do
    assign name field
    match ← runRound n (some <$> runCommand n tested body) with
    | .ok (some code) => runForEach n tested name body fields code
    | .ok none => setCode 0
    | .error true => runForEach n tested name body fields 0
    | .error false => setCode 0

/-- A round of a loop; an error tells that it broke off, and whether the loop goes on. -/
def runRound : Nat → Act (Option Nat) → Act (Except Bool (Option Nat))
  | 0, _ => throw .outOfFuel
  | _ + 1, round => do
    modify fun s => { s with loops := s.loops + 1 }
    let leave : Act Unit := modify fun s => { s with loops := s.loops - 1 }
    tryCatch (do
      let code ← round
      leave
      return .ok code) fun e => do
        leave
        match e with
        | .leave 1 => return .error false
        | .leave (k + 1) => throw (.leave k)
        | .again 1 => return .error true
        | .again (k + 1) => throw (.again k)
        | e => throw e

def runArms : Nat → Bool → Octets → List Arm → Act Nat
  | 0, _, _, _ => throw .outOfFuel
  | _ + 1, _, _, [] => setCode 0
  | n + 1, tested, text, .mk patterns body :: arms => do
    let isChosen ← anyPattern n text patterns
    if !isChosen then return ← runArms n tested text arms
    match body with
    | .nothing => setCode 0
    | body => runCommand n tested body

def anyPattern : Nat → Octets → List Word → Act Bool
  | 0, _, _ => throw .outOfFuel
  | _ + 1, _, [] => return false
  | n + 1, text, w :: rest => do
    if Glob.accepts (← expandPattern (outputOf n) w) text then return true
    anyPattern n text rest

/-- Carries out the stages of a pipeline one after the other, each on the output of the one in
front of it. -/
def runStages : Nat → Bool → List Command → Act Nat
  | 0, _, _ => throw .outOfFuel
  | _ + 1, _, [] => return 0
  | n + 1, tested, [c] => do
    return statusCode (← asProcess id (runAction n) (runCommand n tested c))
  | n + 1, tested, c :: stages => do
    let text ← captured (do
      let _ ← asProcess id (runAction n) (runCommand n tested c))
    openChannel 0 (.pipe text)
    runStages n tested stages

/-- Carries out a simple command. -/
def runSimple : Nat → Bool → List Assignment → List Word → List Redirect → Act Nat
  | 0, _, _, _, _ => throw .outOfFuel
  | n + 1, tested, assignments, words, redirects => do
    modify fun s => { s with outputCode := 0 }
    let fields ← expandCommand (outputOf n) words
    match fields with
    | [] =>
      if !(← keepingFiles (applyRedirects (outputOf n) redirects)) then return 2
      let _ ← assignAll n assignments
      return (← get).outputCode
    | name :: args =>
      let command := String.ofList name
      if Builtin.specialNames.contains command then
        if command == "exec" && args.isEmpty then
          if !(← applyRedirects (outputOf n) redirects) then throw (.exit (.code 2))
          let _ ← assignAll n assignments
          return 0
        keepingFiles (do
          if !(← applyRedirects (outputOf n) redirects) then throw (.exit (.code 2))
          let _ ← assignAll n assignments
          tryCatch (runBuiltin n tested command args) fun e =>
            match e with
            | .misuse code => throw (.exit (.code code))
            | e => throw e)
      else
        keepingFiles (do
          if !(← applyRedirects (outputOf n) redirects) then return 2
          let values ← evaluateAll n assignments
          withVariables values (do
            match (← get).functions.lookup name with
            | some body => callFunction n tested body args
            | none => catchMisuse (runNamed n tested name args)))

/-- The values of assignments. -/
def evaluateAll : Nat → List Assignment → Act (List (Octets × Octets))
  | 0, _ => throw .outOfFuel
  | _ + 1, [] => return []
  | n + 1, .mk name value :: rest => do
    let value ← expandText (outputOf n) value
    return (name, value) :: (← evaluateAll n rest)

def assignAll : Nat → List Assignment → Act Unit
  | 0, _ => throw .outOfFuel
  | _ + 1, [] => return
  | n + 1, .mk name value :: rest => do
    assign name (← expandText (outputOf n) value)
    assignAll n rest

/-- Calls a function: it has arguments and local variables of its own. -/
def callFunction : Nat → Bool → Command → List Octets → Act Nat
  | 0, _, _, _ => throw .outOfFuel
  | n + 1, tested, body, args => do
    let before ← get
    set { before with args, loops := 0, locals := [] :: before.locals }
    let restore : Act Unit := do
      for (name, v) in (← get).locals.headD [] do
        putVariable name v
      modify fun s => { s with args := before.args, loops := before.loops, locals := before.locals }
    let code ← tryCatch (runCommand n tested body) fun e =>
      match e with
      | .returned code => return code
      | e => do
        restore
        throw e
    restore
    return code

/-- Carries out a command that is no function. -/
def runNamed : Nat → Bool → Octets → List Octets → Act Nat
  | 0, _, _, _ => throw .outOfFuel
  | n + 1, tested, name, args => do
    let command := String.ofList name
    if command == "command" || command == "type" || (Builtin.table.lookup command).isSome ||
        Builtin.specialNames.contains command then
      runBuiltin n tested command args
    else
      let ending ← runProgramOf n name args
      return statusCode ending

/-- Starts what the name of a command leads to. -/
def runProgramOf : Nat → Octets → List Octets → Act Ending
  | 0, _, _ => throw .outOfFuel
  | n + 1, name, args => do
    match ← findCommand name with
    | .program p => startProgram n p args
    | .text path content =>
      match interpreterLine content with
      | [] => startProgram n .interpreter (path :: args)
      | program :: option =>
        let m := (← get).machine
        match findAt m program with
        | .program p => startProgram n p (option ++ path :: args)
        | _ =>
          complain (name ++ ": not found".toList)
          return .code 127
    | .denied =>
      complain (name ++ ": Permission denied".toList)
      return .code (if name.contains '/' || (← get).isReplaced then 126 else 127)
    | .missing =>
      complain (name ++ ": not found".toList)
      return .code 127

/-- Carries out a built-in command. -/
def runBuiltin : Nat → Bool → String → List Octets → Act Nat
  | 0, _, _, _ => throw .outOfFuel
  | n + 1, tested, command, args => do
    match command with
    | "eval" => calling "eval".toList (runText n tested 0 (.ofText (Octets.join [' '] args)))
    | "." =>
      match args with
      | [] => return 0
      | path :: _ => calling ['.'] (runFile n path)
    | "exec" =>
      match args with
      | [] => return 0
      | name :: args =>
        setOwnActions ((← ownActions).filter (·.2 = []))
        modify fun s => { s with isReplaced := true }
        throw (.exit (← calling "exec".toList (runProgramOf n name args)))
    | "command" =>
      match args.filter (· ≠ "-p".toList) with
      | ['-', 'v'] :: name :: _ => describe false name
      | ['-', 'V'] :: name :: _ => describe true name
      | ['-', 'v'] :: [] => return 0
      | ['-', 'V'] :: [] => return 0
      | name :: args => catchMisuse (runNamed n tested name args)
      | [] => return 0
    | "type" => describeAll args
    | _ =>
      match Builtin.table.lookup command with
      | some go => calling command.toList (go args)
      | none => return 127

/-- Carries out the commands of a file as a part of the process. -/
def runFile : Nat → Octets → Act Nat
  | 0, _ => throw .outOfFuel
  | n + 1, path => do
    if !path.contains '/' then misuse (path ++ ": not found".toList)
    match (← get).machine.readBytes path.text with
    | .ok content =>
      let act := runText n false 0 (.ofText (Octets.ofBytes content))
      tryCatch (calling path act) fun e =>
        match e with
        | .returned code => return code
        | e => throw e
    | .error .isDirectory => return 0
    | .error e => misuse ("cannot open ".toList ++ path ++ ": ".toList ++ openFault false e)

/-- Starts a program as a process of its own. -/
def startProgram : Nat → Program → List Octets → Act Ending
  | 0, _, _ => throw .outOfFuel
  | n + 1, p, args => do
    match p with
    | .utility u => return .code (← catchMisuse (runUtility u args))
    | .interpreter => startInterpreter n args
    | .environment =>
      let values := (args.takeWhile (·.contains '=')).map Builtin.readAssignment
      match args.dropWhile (·.contains '=') with
      | [] =>
        for (name, v) in (← get).bindings do
          if v.isExported then
            let _ ← write 1 (name ++ '=' :: v.value.getD [] ++ ['\n'])
        return .code 0
      | name :: args =>
        match ← findCommand name with
        | .missing =>
          report ("env: ".toList ++ cite name ++ ": No such file or directory".toList)
          return .code 127
        | .denied =>
          report ("env: ".toList ++ cite name ++ ": Permission denied".toList)
          return .code 126
        | _ =>
          withVariables (values.map fun (name, value) => (name, value.getD []))
            (runProgramOf n name args)

/-- Starts the interpreter: `-c` gives it a text, any other first argument a file. -/
def startInterpreter : Nat → List Octets → Act Ending
  | 0, _ => throw .outOfFuel
  | n + 1, args => do
    let s ← get
    let refuse (text : Octets) : Act Ending := do
      report ("sh: 0: ".toList ++ text)
      return .code 2
    let run (start : Start) (name : Octets) (args : List Octets) (text : Octets) :
        Act Ending :=
      let enter (forked : State) : State :=
        let process := if s.isReplaced then s.process else forked.process
        let exported := s.bindings.filter (·.2.isExported)
        let own := startVariables { s.machine with environment := [] } s.process
        { forked with
          process := process
          batch := process
          bindings := exported ++ own.filter fun x => (exported.lookup x.1).isNone
          functions := []
          name, args
          caller := []
          options := start.options
          isReplaced := false
          code := 0, jobs := [], line := 1, locals := [] }
      asProcess enter (runAction n) (runText n false 0 (.ofText text))
    match readStart ⟨.default, false, false, []⟩ args with
    | .error text => refuse text
    | .ok start =>
      if start.hasText then
        match start.args with
        | [] => refuse "-c requires an argument".toList
        | text :: rest => run start (rest.headD "sh".toList) rest.tail text
      else
        match start.readsInput, start.args with
        | true, args => run start "sh".toList args (← readAll 0)
        | false, [] => run start "sh".toList [] (← readAll 0)
        | false, path :: rest =>
          match s.machine.readBytes path.text with
          | .ok content => run start path rest (Octets.ofBytes content)
          | .error .isDirectory => return .code 0
          | .error .notText => return .code 2
          | .error e => refuse ("cannot open ".toList ++ path ++ ": ".toList ++ openFault false e)

/-- Carries out a text one complete command after the other. The code is that of the last one,
or the one given if there is none. -/
def runText : Nat → Bool → Nat → Reader → Act Nat
  | 0, _, _, _ => throw .outOfFuel
  | n + 1, tested, last, r => do
    match r.next with
    | .error e =>
      modify fun s => { s with line := e.line }
      abandon ("Syntax error: ".toList ++ e.fault.message.toList)
    | .ok (none, _) => return last
    | .ok (some c, r) => runText n tested (← runCommand n tested c) r

end

/-! ### From the outside -/

/-- Bounds the number of commands that run one inside or after another. -/
def fuel : Nat := 1000000

/-- The number of the first process. -/
def firstProcess : Nat := 4000

/-- The state in which a program is started from the outside. -/
def State.start (m : Machine) : State where
  machine := m
  channels := #[.terminal]
  nextProcess := firstProcess
  handlers := []
  signals := []
  process := firstProcess - 1
  batch := firstProcess - 1
  files := [(0, 0), (1, 0), (2, 0)]
  bindings := startVariables m (firstProcess - 1)
  functions := []
  name := "sh".toList
  caller := []
  args := []
  options := .default
  code := 0
  jobs := []
  line := 0
  locals := []
  loops := 0
  outputCode := 0
  isReplaced := false

/-- Runs a program to its end; what it writes to its terminal is not kept. -/
def runProgram (m : Machine) (p : Program) (args : List String) : ExitStatus × Machine :=
  let (result, s) := (startProgram fuel p (args.map Octets.ofString)).run (.start m)
  let ending := match result with
    | .ok ending => ending
    | .error (.killed _ signal) => .signal signal
    | .error _ => .code 2
  (ending.status, { s.machine with workingDir := m.workingDir })

end ScriptCheck.Batch
