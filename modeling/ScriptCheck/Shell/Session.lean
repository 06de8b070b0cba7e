import ScriptCheck.Shell.Reply
import ScriptCheck.Shell.Sink

/-!
# Sessions

A session takes lines one after the other, each with a prompt in front, until one of them quits or
the input ends. It breaks off when the sink is full or when a line is not UTF-8; a line that is no
program, or a command that fails, is only reported.
-/

namespace ScriptCheck

inductive SessionError
  | sinkFull
  | notText
deriving DecidableEq, Repr

def SessionError.message : SessionError → String
  | sinkFull => "sink full"
  | notText => HostError.message .notText

structure Session (σ : Type) where
  settings : Settings
  host : σ
  /-- Reads every program of the session, and stays where it stopped in the last one. -/
  scanner : Scanner
  sink : Sink
  quit : Bool

namespace Session

variable {σ : Type} [Host σ] [Terminal]

def start (settings : Settings) (host : σ) (room : Option Nat) : Session σ :=
  ⟨settings, host, .empty, .ofRoom room, false⟩

/-- Writes texts in turn. -/
def write (s : Session σ) (texts : List String) : Except SessionError Unit × Session σ :=
  match s.sink.writeAll texts with
  | (true, sink) => (.ok (), { s with sink })
  | (false, sink) => (.error .sinkFull, { s with sink })

/-! ### One line -/

/-- Carries out a line. The command takes effect even if the sink has no room for its reply. -/
def execute (s : Session σ) (line : String) : Except SessionError Unit × Session σ :=
  let command := Command.parse line
  let reply := s.settings.reply s.host s.scanner command
  let quit := s.quit || command = Command.quit
  { s with host := reply.host, scanner := reply.scanner, quit }.write reply.texts

def prompt (s : Session σ) : Except SessionError Unit × Session σ :=
  s.write [s.settings.prompt]

/-- A line without the breaks at its end. -/
def stripBreaks (line : String) : String :=
  String.ofList (line.toList.reverse.dropWhile fun c => c = '\r' || c = '\n').reverse

/-- Carries out a line of input as it was read. -/
def feed (s : Session σ) (line : List UInt8) : Except SessionError Unit × Session σ :=
  match String.fromUTF8? ⟨line.toArray⟩ with
  | some text => s.execute (stripBreaks text)
  | none => (.error .notText, s)

/-! ### All of the input -/

/-- Cuts input behind each line feed, with the line that is being read in reverse. -/
def splitLinesOnto (line : List UInt8) : List UInt8 → List (List UInt8) → List (List UInt8)
  | [], lines => (if line = [] then lines else line.reverse :: lines).reverse
  | b :: rest, lines =>
    if b = 10 then splitLinesOnto [] rest ((b :: line).reverse :: lines)
    else splitLinesOnto (b :: line) rest lines

/-- The lines of the input, each with its line feed. -/
def splitLines (input : List UInt8) : List (List UInt8) :=
  splitLinesOnto [] input []

/-- What a session says first. -/
def welcome (cfg : Settings) (clock : Clock) : List String :=
  [cfg.styledLine .bold "Welcome to Rhodus, Version 1.0", "Date and Time: " ++ clock.text ++ "\n",
    "Type quit to exit\n"]

/-- Takes lines until one quits, and the end of the input behind the last. -/
def takeLines (s : Session σ) : List (List UInt8) → Except SessionError Unit × Session σ
  | [] =>
    if s.quit then (.ok (), s)
    else
      match s.prompt with
      | (.ok (), s) => s.write ["\n"]
      | (.error e, s) => (.error e, s)
  | line :: lines =>
    if s.quit then (.ok (), s)
    else
      match s.prompt with
      | (.error e, s) => (.error e, s)
      | (.ok (), s) =>
        match s.feed line with
        | (.error e, s) => (.error e, s)
        | (.ok (), s) => takeLines s lines

/-- A whole session over some input. -/
def run (s : Session σ) (clock : Clock) (input : List UInt8) :
    Except SessionError Unit × Session σ :=
  match s.write (welcome s.settings clock) with
  | (.error e, s) => (.error e, s)
  | (.ok (), s) => s.takeLines (splitLines input)

end Session

end ScriptCheck
