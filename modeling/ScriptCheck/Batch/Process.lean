import ScriptCheck.Batch.Syntax
import ScriptCheck.Host.Machine

/-!
# Processes

A batch is run by processes, one of which runs at a time. They share a machine, the channels that
are open on it, and the signals that are on their way; everything else belongs to one of them. An
action of a process may break off, and what it has changed until then stays.
-/

namespace ScriptCheck.Batch

/-! ### State -/

/-- An open end of something that takes or gives bytes. -/
inductive Channel
  /-- Takes everything and gives nothing. -/
  | terminal
  | pipe (content : Octets)
  | file (place : List String) (offset : Nat) (append : Bool)
  | directory

structure Variable where
  value : Option Octets
  isExported : Bool
  isReadOnly : Bool

structure Options where
  /-- `-e`: a command that fails ends the process. -/
  stopOnFailure : Bool
  /-- `-u`: a variable must have a value. -/
  refuseUnset : Bool
  /-- `-f`: patterns are not replaced by file names. -/
  keepPatterns : Bool
  /-- `-n`: commands are read only. -/
  readOnly : Bool
  /-- `-a`: every variable that gets a value is exported. -/
  exportAll : Bool
  /-- `-C`: an existing file is not written over. -/
  keepFiles : Bool

def Options.default : Options :=
  ⟨false, false, false, false, false, false⟩

/-- What a process does about signals; the empty action ignores one, and signal 0 is its end. -/
structure Handlers where
  process : Nat
  actions : List (Nat × Octets)

structure State where
  machine : Machine
  channels : Array Channel
  nextProcess : Nat
  /-- The running process and those that wait for it. -/
  handlers : List Handlers
  /-- Processes with the signals that they have not yet acted on. -/
  signals : List (Nat × Nat)
  process : Nat
  /-- The process that runs the batch, of which this one may be a part. -/
  batch : Nat
  /-- The channels behind the numbers of the open files. -/
  files : List (Nat × Nat)
  bindings : List (Octets × Variable)
  functions : List (Octets × Command)
  name : Octets
  /-- The built-in command that is being carried out, or the file that it has commands from. -/
  caller : Octets
  args : List Octets
  options : Options
  /-- The code of the last command. -/
  code : Nat
  /-- Processes that ran in the background, the last one in front, and how they ended. -/
  jobs : List (Nat × Nat)
  line : Nat
  /-- Variables to put back at the end of each function that is being called. -/
  locals : List (List (Octets × Option Variable))
  /-- The number of loops around the command. -/
  loops : Nat
  /-- The code of the last output that was made part of a word. -/
  outputCode : Nat
  /-- The program of the process is about to give way to another one. -/
  isReplaced : Bool

/-- How a process ends. -/
inductive Ending
  | code (n : Nat)
  | signal (n : Nat)

/-- What is known from the outside of how a process ends; nothing of its memory is kept. -/
def Ending.status : Ending → ExitStatus
  | code n => .code (n % 256)
  | signal n => .signal n false

/-- Why an action breaks off. -/
inductive Break
  | exit (ending : Ending)
  | returned (code : Nat)
  | leave (loops : Nat)
  | again (loops : Nat)
  | killed (process signal : Nat)
  /-- A built-in command was misused. -/
  | misuse (code : Nat)
  | outOfFuel

abbrev Act := ExceptT Break (StateM State)

/-! ### Variables -/

def lookUp (name : Octets) : Act (Option Octets) := do
  return ((← get).bindings.lookup name).bind (·.value)

/-- A list of pairs with one replaced, or added at the end. -/
def setPair {α β : Type} [DecidableEq α] (key : α) (value : β) : List (α × β) → List (α × β)
  | [] => [(key, value)]
  | x :: rest => if x.1 = key then (key, value) :: rest else x :: setPair key value rest

def putVariable (name : Octets) (v : Option Variable) : Act Unit :=
  modify fun s =>
    let bindings := match v with
      | some v => setPair name v s.bindings
      | none => s.bindings.filter (·.1 ≠ name)
    { s with bindings }

/-! ### Open files -/

/-- Opens a channel under the number of a file. -/
def openChannel (file : Nat) (c : Channel) : Act Unit :=
  modify fun s =>
    { s with
      channels := s.channels.push c
      files := setPair file s.channels.size s.files }

/-- Content with other content at an offset. -/
def overwrite (old new : ByteArray) (offset : Nat) : ByteArray :=
  let gap : ByteArray := ⟨Array.replicate (offset - old.size) 0⟩
  old.extract 0 offset ++ gap ++ new ++ old.extract (offset + new.size) old.size

/-- Writes to an open file, and tells whether it is one. -/
def write (file : Nat) (text : Octets) : Act Bool := do
  let s ← get
  let some k := s.files.lookup file | return false
  match s.channels[k]? with
  | some (.pipe content) =>
    set { s with channels := s.channels.setIfInBounds k (.pipe (content ++ text)) }
    return true
  | some (.file place offset append) =>
    match s.machine.root.find? place with
    | some (.file old _) =>
      let new := Octets.toBytes text
      let offset := if append then old.size else offset
      let machine := (s.machine.fill place (overwrite old new offset)).toOption.getD s.machine
      let c := Channel.file place (offset + new.size) append
      set { s with machine, channels := s.channels.setIfInBounds k c }
      return true
    | _ => return true
  | some .terminal => return true
  | _ => return false

/-- Whether an open file is one of the machine's. -/
def hasFile (file : Nat) : Act Bool := do
  let s ← get
  match (s.files.lookup file).bind (s.channels[·]?) with
  | some (.file _ _ _) => return true
  | _ => return false

/-- The rest of what an open file gives. -/
def readAll (file : Nat) : Act Octets := do
  let s ← get
  let some k := s.files.lookup file | return []
  match s.channels[k]? with
  | some (.pipe content) =>
    set { s with channels := s.channels.setIfInBounds k (.pipe []) }
    return content
  | some (.file place offset append) =>
    match s.machine.root.find? place with
    | some (.file content _) =>
      let c := Channel.file place (max offset content.size) append
      set { s with channels := s.channels.setIfInBounds k c }
      return Octets.ofBytes (content.extract offset content.size)
    | _ => return []
  | _ => return []

/-- Puts back what was read too much. -/
def unread (file : Nat) (text : Octets) : Act Unit :=
  modify fun s =>
    match s.files.lookup file with
    | none => s
    | some k =>
      match s.channels[k]? with
      | some (.pipe content) =>
        { s with channels := s.channels.setIfInBounds k (.pipe (text ++ content)) }
      | some (.file place offset append) =>
        let channel := .file place (offset - text.length) append
        { s with channels := s.channels.setIfInBounds k channel }
      | _ => s

/-- What an action writes to the standard output. -/
def captured (act : Act Unit) : Act Octets := do
  let files := (← get).files
  openChannel 1 (.pipe [])
  let k := ((← get).files.lookup 1).getD 0
  act
  modify fun s => { s with files }
  match (← get).channels[k]? with
  | some (.pipe content) => return content
  | _ => return []

/-! ### Complaints -/

/-- A complaint of a program, in a line of its own. -/
def report (text : Octets) : Act Unit := do
  let _ ← write 2 (text ++ ['\n'])

/-- A complaint of the process about the line that it has come to. -/
def complain (text : Octets) : Act Unit := do
  let s ← get
  let caller := if s.caller = [] then [] else s.caller ++ ": ".toList
  report (s.name ++ ": ".toList ++ Octets.ofNat s.line ++ ": ".toList ++ caller ++ text)

/-- A built-in command breaks off with a complaint. -/
def misuse {α : Type} (text : Octets) : Act α := do
  complain text
  throw (.misuse 2)

/-- The process ends with a complaint. -/
def abandon {α : Type} (text : Octets) : Act α := do
  complain text
  throw (.exit (.code 2))

/-- Gives a variable a value. -/
def assign (name value : Octets) : Act Unit := do
  let s ← get
  match s.bindings.lookup name with
  | some v =>
    if v.isReadOnly then abandon (name ++ ": is read only".toList)
    putVariable name (some ⟨some value, v.isExported || s.options.exportAll, false⟩)
  | none => putVariable name (some ⟨some value, s.options.exportAll, false⟩)

/-! ### Signals -/

/-- Signals that change nothing, unless a process asks for them. -/
def isHarmless (signal : Nat) : Bool :=
  [0, 17, 18, 19, 20, 21, 22, 23, 28].contains signal

/-- Sends a signal to a process, and tells whether there is such a process. -/
def send (signal process : Nat) : Act Bool := do
  let s ← get
  match s.handlers.find? (·.process = process) with
  | none => return (s.jobs.lookup process).isSome
  | some h =>
    let action := if signal = 9 then none else h.actions.lookup signal
    match action with
    | some [] => return true
    | some _ =>
      if signal ≠ 0 then set { s with signals := s.signals ++ [(process, signal)] }
      return true
    | none =>
      if !isHarmless signal then throw (.killed process signal)
      return true

/-- What the running process does about signals. -/
def ownActions : Act (List (Nat × Octets)) := do
  let s ← get
  return ((s.handlers.find? (·.process = s.process)).map (·.actions)).getD []

def setOwnActions (actions : List (Nat × Octets)) : Act Unit :=
  modify fun s =>
    { s with handlers := s.handlers.map fun h =>
        if h.process = s.process then { h with actions } else h }

/-! ### Parts of a process -/

/-- The state of a new process that goes on where another stands: of its actions, only the empty
ones stay. -/
def State.fork (s : State) : State :=
  let actions := ((s.handlers.find? (·.process = s.process)).map (·.actions)).getD []
  { s with
    process := s.nextProcess
    nextProcess := s.nextProcess + 1
    handlers := ⟨s.nextProcess, actions.filter (·.2 = [])⟩ :: s.handlers
    loops := 0 }

/-- The state to which a process comes back when another has ended. -/
def State.resume (s ended : State) : State :=
  { s with
    machine := { ended.machine with workingDir := s.machine.workingDir }
    channels := ended.channels
    nextProcess := ended.nextProcess
    signals := ended.signals.filter (·.1 ≠ ended.process) }

end ScriptCheck.Batch
