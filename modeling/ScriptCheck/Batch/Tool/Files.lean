import ScriptCheck.Batch.Tool.Arguments

/-!
# Tools for files

Each tool takes its arguments, changes the files of the machine or writes about them, and ends
with a code. A file that it cannot deal with is complained about, and the others are dealt with.
-/

namespace ScriptCheck.Batch.Tool

/-! ### Paths -/

/-- The last name of a path. -/
def lastName (path : Octets) : Octets :=
  let path := Octets.ofString (Machine.stripSlashes path.text)
  if path = ['/'] then path else (Octets.split (· = '/') path).getLastD []

/-- A path without its last name. -/
def directoryName (path : Octets) : Octets :=
  let stripped := (path.reverse.dropWhile (· = '/')).reverse
  let front := (stripped.reverse.dropWhile (· ≠ '/')).dropWhile (· = '/')
  if front ≠ [] then front.reverse
  else if path.head? = some '/' then ['/']
  else ['.']

def isDirectory (path : Octets) : Act Bool := do
  return (((← get).machine.node? path.text).map Node.isDirectory).getD false

/-! ### Reading and writing -/

def cat (args : List Octets) : Act Nat :=
  withArguments "cat" "u" "" args fun a =>
    forOperands (if a.operands = [] then [['-']] else a.operands) fun path => do
      match ← contentOf "cat" path with
      | some text =>
        emit text
        return true
      | none => return false

def tee (args : List Octets) : Act Nat :=
  withArguments "tee" "a" "" args fun a => do
    let text ← readAll 0
    emit text
    forOperands a.operands fun path =>
      changeMachine "tee" path fun m => do
        let old := if a.has 'a' then (m.readBytes path.text).toOption.getD .empty else .empty
        m.write path.text (old ++ Octets.toBytes text)

def touch (args : List Octets) : Act Nat :=
  withArguments "touch" "acm" "dtr" args fun a => do
    if a.operands = [] then return ← refuseArguments "touch" "missing file operand".toList
    forOperands a.operands fun path =>
      changeMachine "touch" ("cannot touch ".toList ++ cite path) fun m =>
        if (m.node? path.text).isSome || a.has 'c' then .ok m else m.write path.text .empty

/-! ### Directories -/

/-- A path and all paths that lead to it. -/
def beginnings (path : Octets) : List Octets :=
  let names := Octets.split (· = '/') path
  ((List.range names.length).map fun n => Octets.join ['/'] (names.take (n + 1))).filter (· ≠ [])

def mkdir (args : List Octets) : Act Nat :=
  withArguments "mkdir" "pv" "m" args fun a => do
    if a.operands = [] then return ← missingOperand "mkdir"
    forOperands a.operands fun path =>
      changeMachine "mkdir" ("cannot create directory ".toList ++ cite path) fun m =>
        if a.has 'p' then
          (beginnings path).foldlM (fun m path =>
            if ((m.node? path.text).map Node.isDirectory).getD false then pure m
            else m.makeDirectory path.text) m
        else m.makeDirectory path.text

def rmdir (args : List Octets) : Act Nat :=
  withArguments "rmdir" "pv" "" args fun a => do
    if a.operands = [] then return ← missingOperand "rmdir"
    forOperands a.operands fun path =>
      changeMachine "rmdir" ("failed to remove ".toList ++ cite path)
        (·.removeDirectory path.text)

/-- The entries of a directory that are listed. -/
def entries (a : Arguments) (m : Machine) (path : Octets) : List Octets :=
  let names := ((m.list path.text).toOption.getD []).map Octets.ofString
  let names := if a.has 'a' then ['.'] :: ['.', '.'] :: names else names
  names.filter fun name => a.has 'a' || a.has 'A' || name.head? ≠ some '.'

def ls (args : List Octets) : Act Nat :=
  withArguments "ls" "1aAdCFpr" "" args fun a => do
    let operands := if a.operands = [] then [['.']] else a.operands
    let m := (← get).machine
    let (found, missing) := operands.partition fun path : Octets => (m.node? path.text).isSome
    for path in missing do
      reportFault "ls" ("cannot access ".toList ++ cite path) .notFound
    let isListed := fun path : Octets =>
      !a.has 'd' && ((m.node? path.text).map Node.isDirectory).getD false
    let (directories, files) := (found.mergeSort Octets.isUpTo).partition isListed
    let block (path : Octets) : Octets :=
      let title := if operands.length = 1 then [] else path ++ [':', '\n']
      title ++ Octets.unlines (entries a m path)
    let blocks := (if files = [] then [] else [Octets.unlines files]) ++ directories.map block
    emit (Octets.join ['\n'] blocks)
    return if missing = [] then 0 else 2

/-! ### Moving files -/

/-- Where a file goes: into a directory of that name, or under the name itself. -/
def destination (source target : Octets) : Act Octets := do
  if ← isDirectory target then
    return target ++ (if target.getLast? = some '/' then [] else ['/']) ++ lastName source
  return target

/-- The sources and the target among operands; several sources need a directory. -/
def withTarget (tool : String) (operands : List Octets) (go : Octets → Octets → Act Bool) :
    Act Nat := do
  match operands.reverse with
  | [] => refuseArguments tool "missing file operand".toList
  | [path] => refuseArguments tool ("missing destination file operand after ".toList ++ cite path)
  | target :: sources =>
    if sources.length ≠ 1 && !(← isDirectory target) then
      let isThere := ((← get).machine.node? target.text).isSome
      let fault := if isThere then HostError.notDirectory else .notFound
      reportFault tool ("target ".toList ++ cite target) fault
      return 1
    forOperands sources.reverse fun source => do go source (← destination source target)

/-- A complaint about a file that stays where it is. -/
def refuse (tool : String) (text : Octets) : Act Bool := do
  report (tool.toList ++ ": ".toList ++ text)
  return false

def cp (args : List Octets) : Act Nat :=
  withArguments "cp" "rRapfLPdniv" "" args fun a =>
    withTarget "cp" a.operands fun source target => do
      let m := (← get).machine
      match m.resolve source.text with
      | .error e =>
        reportFault "cp" ("cannot stat ".toList ++ cite source) e
        return false
      | .ok (place, node) =>
        let whole := a.has 'r' || a.has 'R' || a.has 'a'
        if node.isDirectory && !whole then
          return ← refuse "cp" ("-r not specified; omitting directory ".toList ++ cite source)
        if (m.resolve target.text).toOption.map (·.1) = some place then
          return ← refuse "cp" (cite source ++ " and ".toList ++ cite target
            ++ " are the same file".toList)
        if a.has 'n' && (m.node? target.text).isSome then return true
        let what := "cannot create regular file ".toList ++ cite target
        changeMachine "cp" what fun m => do
          match node with
          | .file content executable =>
            let place ← m.target target.text
            let isNew := (m.root.find? place).isNone
            let m ← m.fill place content
            if isNew then pure { m with root := m.root.put (.file content executable) place }
            else pure m
          | .void => m.write target.text .empty
          | node =>
            let place ← m.target (Machine.stripSlashes target.text)
            pure { m with root := m.root.put node place }

def mv (args : List Octets) : Act Nat :=
  withArguments "mv" "finv" "" args fun a =>
    withTarget "mv" a.operands fun source target => do
      let m := (← get).machine
      match m.entryPlace source.text with
      | .error e =>
        reportFault "mv" ("cannot stat ".toList ++ cite source) e
        return false
      | .ok place =>
        if (m.entryPlace target.text).toOption = some place then
          return ← refuse "mv" (cite source ++ " and ".toList ++ cite target
            ++ " are the same file".toList)
        if a.has 'n' && (m.node? target.text).isSome then return true
        let what := "cannot move ".toList ++ cite source ++ " to ".toList ++ cite target
        changeMachine "mv" what (·.rename source.text target.text)

def rm (args : List Octets) : Act Nat :=
  withArguments "rm" "rRfidv" "" args fun a => do
    if a.operands = [] then return ← if a.has 'f' then pure 0 else missingOperand "rm"
    forOperands a.operands fun path => do
      if a.has 'f' && ((← get).machine.entryPlace path.text).toOption.isNone then return true
      changeMachine "rm" ("cannot remove ".toList ++ cite path) fun m =>
        if a.has 'r' || a.has 'R' then m.removeTree path.text
        else if a.has 'd' && ((m.node? path.text).map Node.isDirectory).getD false then
          m.removeDirectory path.text
        else m.removeFile path.text

def ln (args : List Octets) : Act Nat :=
  withArguments "ln" "sfnvr" "" args fun a => do
    let operands := match a.operands with
      | [source] => [source, lastName source]
      | operands => operands
    withTarget "ln" operands fun source target => do
      let kind := if a.has 's' then "symbolic link " else "hard link "
      if a.has 'f' then
        modify fun s =>
          { s with machine := (s.machine.removeFile target.text).toOption.getD s.machine }
      changeMachine "ln" ("failed to create ".toList ++ kind.toList ++ cite target) fun m => do
        if a.has 's' then m.add target.text (.link source.text)
        else
          let (_, node) ← m.resolve source.text
          if node.isDirectory then throw .permissionDenied else m.add target.text node

/-! ### Modes -/

/-- Whether a file can be started under a mode, if the mode says so. -/
def executableIn (mode : Octets) : Option Bool :=
  if mode ≠ [] && mode.all isOctal then
    some (mode.reverse.take 3 |>.any fun c => c.toNat % 2 = 1)
  else
    let change := mode.dropWhile fun c => "ugoa".toList.contains c
    match change with
    | '+' :: letters => if letters.contains 'x' then some true else none
    | '-' :: letters => if letters.contains 'x' then some false else none
    | '=' :: letters => some (letters.contains 'x')
    | _ => none
where
  isOctal (c : Char) : Bool := '0' ≤ c && c ≤ '7'

def chmod (args : List Octets) : Act Nat := do
  match args with
  | mode :: paths =>
    if paths = [] then return ← missingOperand "chmod"
    forOperands paths fun path =>
      changeMachine "chmod" ("cannot access ".toList ++ cite path) fun m => do
        let (place, node) ← m.resolve path.text
        match node, executableIn mode with
        | .file content _, some executable =>
          pure { m with root := m.root.put (.file content executable) place }
        | _, _ => pure m
  | [] => missingOperand "chmod"

end ScriptCheck.Batch.Tool
