import ScriptCheck.CommandLine
import ScriptCheck.Proofs.Text.Utf8

/-!
# What a session remembers

A session keeps its settings, the host, the scanner that it reads programs with, and what it has
written. The scanner stays where the last program stopped, but every program puts it in front of a
new text, so nothing of the lines before shows in the answer to a line, except for what they have
done to the host. The answers are those of the recognizer, and those that the command line gives.
-/

namespace ScriptCheck

/-! ### Writing -/

namespace Sink

/-- What is in a sink already does not matter for what is written to it. -/
theorem writeAll_append_written (room : Option Nat) (before written : List UInt8)
    (texts : List String) :
    writeAll ⟨room, before ++ written⟩ texts =
      let (ok, sink) := writeAll ⟨room, written⟩ texts
      (ok, ⟨sink.room, before ++ sink.written⟩) := by
  induction texts generalizing room written with
  | nil => rfl
  | cons text texts ih =>
    cases room with
    | none =>
      simp only [writeAll, write, List.append_assoc]
      exact ih _ _
    | some n =>
      simp only [writeAll, write, List.append_assoc]
      by_cases h : (utf8Bytes text).length ≤ n
      · simp only [h, decide_true]
        exact ih _ _
      · simp [h]

theorem writeAll_eq (s : Sink) (texts : List String) :
    s.writeAll texts =
      let (ok, sink) := (ofRoom s.room).writeAll texts
      (ok, ⟨sink.room, s.written ++ sink.written⟩) := by
  have h := writeAll_append_written s.room s.written [] texts
  rwa [List.append_nil] at h

/-- A sink without a bound takes everything. -/
theorem writeAll_of_room_eq_none {s : Sink} (h : s.room = none) (texts : List String) :
    s.writeAll texts = (true, ⟨none, s.written ++ texts.flatMap utf8Bytes⟩) := by
  induction texts generalizing s with
  | nil =>
    obtain ⟨room, written⟩ := s
    obtain rfl : room = none := h
    simp
  | cons text texts ih =>
    have hw : s.write text = (true, ⟨none, s.written ++ utf8Bytes text⟩) := by simp [write, h]
    rw [writeAll, hw]
    simp [ih]

end Sink

/-! ### Script files -/

section

variable {σ : Type} [Host σ] {host : σ} {path source : String} {e : ParseError}

theorem checkFile_of_load (h : load host path = .ok source) :
    checkFile host path = (check source).mapError .parse := by
  rw [checkFile, h]

theorem checkFile_eq_ok (h : load host path = .ok source) :
    checkFile host path = .ok () ↔ check source = .ok () := by
  rw [checkFile_of_load h]
  cases check source with
  | ok => exact ⟨fun _ => rfl, fun _ => rfl⟩
  | error e => exact ⟨nofun, nofun⟩

theorem checkFile_eq_parse_error (h : load host path = .ok source) :
    checkFile host path = .error (.parse e) ↔ check source = .error e := by
  rw [checkFile_of_load h]
  cases check source with
  | ok => exact ⟨nofun, nofun⟩
  | error e' =>
    constructor
    · intro he
      cases he
      rfl
    · intro he
      cases he
      rfl

end

/-! ### Replies -/

namespace Settings

theorem head?_render (e : ParseError) (name source : String) :
    (e.render name source).toList.head? = some 'e' := by
  simp [ParseError.render, ParseError.report, String.intercalate_cons_cons]

variable {σ : Type} [Host σ] [Terminal] {cfg : Settings} {host : σ}
  {name source path message : String}

/-- What is replied to a program, whatever was read before. -/
def verdict (cfg : Settings) (name source : String) : List String :=
  match check source with
  | .ok () => cfg.success
  | .error e => cfg.failure (e.render name source)

theorem checkReply_eq (cfg : Settings) (scanner : Scanner) (name source : String) :
    (cfg.checkReply scanner name source).1 = cfg.verdict name source := by
  unfold checkReply verdict check recognize
  simp only [Scanner.scan_eq]
  split <;> simp_all

theorem runReply_eq (cfg : Settings) (host : σ) (scanner : Scanner) (path : String) :
    (cfg.runReply host scanner path).1 =
      match load host path with
      | .ok source => cfg.verdict path source
      | .error e => cfg.unreadable "File not found" e := by
  unfold runReply
  match load host path with
  | .ok source => exact checkReply_eq cfg scanner path source
  | .error e => rfl

/-- A message that does not begin like the good news is not taken for it. -/
theorem failure_ne_success (hc : cfg.color = false) (h : message.toList.head? ≠ some 'S') :
    (cfg.failure message).flatMap utf8Bytes ≠ utf8Bytes "Success!\n" := by
  intro he
  have hm : message ++ "\n" = "Success!\n" := by
    apply utf8Bytes_inj.1
    simpa [failure, styledLine, hc] using he
  apply h
  have hl := congrArg (fun text : String => text.toList.head?) hm
  cases hh : message.toList with
  | nil => simp [hh] at hl
  | cons c rest => simpa [hh] using hl

theorem unreadable_ne_success (hc : cfg.color = false) (e : LoadError) :
    (cfg.unreadable "File not found" e).flatMap utf8Bytes ≠ utf8Bytes "Success!\n" := by
  unfold unreadable
  split
  · apply failure_ne_success hc
    rw [String.append_assoc, String.toList_append]
    simp
  · apply failure_ne_success hc
    unfold LoadError.describe
    generalize e.cause.message = reason
    simp only [String.append_assoc, String.toList_append]
    simp

/-- A program is answered with the good news, or with the diagnostic of its error. -/
theorem verdict_eq (hc : cfg.color = false) (name source : String) :
    ((cfg.verdict name source).flatMap utf8Bytes = utf8Bytes "Success!\n" ↔
      check source = .ok ()) ∧
    ∀ e, check source = .error e →
      (cfg.verdict name source).flatMap utf8Bytes = utf8Bytes (e.render name source ++ "\n") := by
  match h : check source with
  | .ok () => simp [verdict, h, success, styledLine, hc]
  | .error e =>
    have hv : cfg.verdict name source = cfg.failure (e.render name source) := by
      rw [verdict, h]
    rw [hv]
    constructor
    · have hh : (e.render name source).toList.head? ≠ some 'S' := by
        rw [head?_render]
        decide
      simp [failure_ne_success hc hh]
    · rintro e' he
      obtain rfl : e = e' := by simpa using he
      simp [failure, styledLine, hc]

/-- The scanner has no part in what is replied and in what becomes of the host. -/
theorem reply_congr (cfg : Settings) (host : σ) (scanner scanner' : Scanner) (command : Command) :
    (cfg.reply host scanner command).texts = (cfg.reply host scanner' command).texts ∧
      (cfg.reply host scanner command).host = (cfg.reply host scanner' command).host := by
  cases command with
  | code text => exact ⟨by simp only [reply, checkReply_eq], rfl⟩
  | run path => exact ⟨by simp only [reply, runReply_eq], rfl⟩
  | _ => exact ⟨rfl, rfl⟩

end Settings

/-! ### Sessions -/

namespace Session

theorem write_eq {σ : Type} (s : Session σ) (texts : List String) :
    s.write texts =
      (if (s.sink.writeAll texts).1 then .ok () else .error .sinkFull,
        { s with sink := (s.sink.writeAll texts).2 }) := by
  unfold write
  split <;> simp_all

variable {σ : Type} [Host σ] [Terminal]

/-- Carries out lines in turn, whatever becomes of each. -/
def executeAll (s : Session σ) (lines : List String) : Session σ :=
  lines.foldl (fun s line => (s.execute line).2) s

/-- What is written for a line. -/
def answer (s : Session σ) (line : String) : List UInt8 :=
  (s.execute line).2.sink.written.drop s.sink.written.length

/-- What is replied to a line, whatever was read before. -/
def reply (s : Session σ) (line : String) : Reply σ :=
  s.settings.reply s.host .empty (Command.parse line)

variable {s : Session σ}

section

variable (s) (line : String)

theorem reply_eq :
    (s.settings.reply s.host s.scanner (Command.parse line)).texts = (s.reply line).texts ∧
      (s.settings.reply s.host s.scanner (Command.parse line)).host = (s.reply line).host :=
  s.settings.reply_congr s.host s.scanner .empty (Command.parse line)

theorem execute_result :
    (s.execute line).1 =
      if (s.sink.writeAll (s.reply line).texts).1 then .ok () else .error .sinkFull := by
  rw [execute, write_eq, ← (s.reply_eq line).1]

theorem execute_sink :
    (s.execute line).2.sink = (s.sink.writeAll (s.reply line).texts).2 := by
  rw [execute, write_eq, ← (s.reply_eq line).1]

theorem execute_host : (s.execute line).2.host = (s.reply line).host := by
  rw [execute, write_eq, ← (s.reply_eq line).2]

theorem execute_settings : (s.execute line).2.settings = s.settings := by
  rw [execute, write_eq]

theorem execute_quit : (s.execute line).2.quit = (s.quit || Command.parse line = .quit) := by
  rw [execute, write_eq]

/-- A session that begins with the same host and room does the same with a line. -/
theorem execute_start :
    (s.execute line).1 = ((start s.settings s.host s.sink.room).execute line).1 ∧
      (s.execute line).2.host = ((start s.settings s.host s.sink.room).execute line).2.host ∧
      (s.execute line).2.sink.written =
        s.sink.written ++ (start s.settings s.host s.sink.room).answer line ∧
      s.answer line = (start s.settings s.host s.sink.room).answer line := by
  have hw := s.sink.writeAll_eq (s.reply line).texts
  have hreply : (start s.settings s.host s.sink.room).reply line = s.reply line := rfl
  have hs : (s.execute line).2.sink.written =
      s.sink.written ++ (start s.settings s.host s.sink.room).answer line := by
    rw [answer, execute_sink, execute_sink, hreply, hw]
    rfl
  refine ⟨?_, ?_, hs, ?_⟩
  · rw [execute_result, execute_result, hreply, hw]
    rfl
  · rw [execute_host, execute_host, hreply]
  · rw [answer, hs, List.drop_left]

end

/-- A session with room for everything writes all that is replied to a line. -/
theorem answer_eq (h : s.sink.room = none) (line : String) :
    (s.execute line).1 = .ok () ∧ s.answer line = (s.reply line).texts.flatMap utf8Bytes := by
  rw [execute_result, answer, execute_sink, Sink.writeAll_of_room_eq_none h, if_pos rfl,
    List.drop_left]
  exact ⟨rfl, rfl⟩

/-! ### All lines -/

/-- What one line keeps is kept by all lines together. -/
theorem executeAll_invariant {p : Session σ → Prop}
    (hp : ∀ s line, p s → p (s.execute line).2) (h : p s) (lines : List String) :
    p (s.executeAll lines) := by
  induction lines generalizing s with
  | nil => exact h
  | cons line lines ih => exact ih (hp s line h)

theorem settings_executeAll (s : Session σ) (lines : List String) :
    (s.executeAll lines).settings = s.settings := by
  apply executeAll_invariant (p := fun s' => s'.settings = s.settings) _ rfl
  intro s' line h
  rw [execute_settings, h]

theorem room_executeAll (h : s.sink.room = none) (lines : List String) :
    (s.executeAll lines).sink.room = none := by
  apply executeAll_invariant (p := fun s => s.sink.room = none) _ h
  intro s line h
  rw [execute_sink, Sink.writeAll_of_room_eq_none h]

theorem quit_executeAll (h : s.quit = true) (lines : List String) :
    (s.executeAll lines).quit = true := by
  apply executeAll_invariant (p := fun s => s.quit = true) _ h
  intro s line h
  rw [execute_quit, h]
  rfl

/-! ### Answers -/

/-- A program on a line is answered with the verdict of the recognizer. -/
theorem answer_code (hr : s.sink.room = none) (hc : s.settings.color = false) {line code : String}
    (hl : Command.parse line = .code code) :
    (s.answer line = utf8Bytes "Success!\n" ↔ check code = .ok ()) ∧
    ∀ e, check code = .error e →
      s.answer line = utf8Bytes (e.render "<input>" code ++ "\n") := by
  have ha : s.answer line = (s.settings.verdict "<input>" code).flatMap utf8Bytes := by
    rw [(answer_eq hr line).2, reply, hl, ← Settings.checkReply_eq _ .empty]
    rfl
  rw [ha]
  exact Settings.verdict_eq hc "<input>" code

/-- A script is answered with the verdict of the recognizer on its text. -/
theorem answer_run (hr : s.sink.room = none) (hc : s.settings.color = false) {line path : String}
    (hl : Command.parse line = .run path) :
    (s.answer line = utf8Bytes "Success!\n" ↔ checkFile s.host path = .ok ()) ∧
    ∀ e, checkFile s.host path = .error (.parse e) →
      ∃ source, load s.host path = .ok source ∧ check source = .error e ∧
        s.answer line = utf8Bytes (e.render path source ++ "\n") := by
  have ha : s.answer line = (s.settings.runReply s.host .empty path).1.flatMap utf8Bytes := by
    rw [(answer_eq hr line).2, reply, hl]
    rfl
  rw [ha, Settings.runReply_eq]
  match h : load s.host path with
  | .error e => simp [checkFile, h, Settings.unreadable_ne_success hc e]
  | .ok source =>
    obtain ⟨hok, herr⟩ := Settings.verdict_eq hc path source
    refine ⟨hok.trans (checkFile_eq_ok h).symm, ?_⟩
    intro e he
    have hs : check source = .error e := (checkFile_eq_parse_error h).1 he
    exact ⟨source, rfl, hs, herr e hs⟩

end Session

/-- The command line writes the same diagnostic on the standard error. -/
theorem runTask_check {σ : Type} [Host σ] [Terminal] {host : σ} {path source : String}
    {e : ParseError}
    (hload : load host path = .ok source) (hcheck : check source = .error e)
    (hp : path ∉ ["-h", "--help", "--tokens"]) (program : String) (settings : Settings)
    (clock : Clock) (input : List UInt8) :
    runTask program settings host clock input (.ofArguments [path]) =
      ⟨[], e.render path source ++ "\n", 1⟩ := by
  have ht : Task.ofArguments [path] = .check path := by
    unfold Task.ofArguments
    split <;> simp_all
  rw [ht]
  simp [runTask, checkScript, withScript, hload, hcheck, Outcome.failure]

/-- What a session answers does not depend on what was answered before, only on what was done to
the host. It is what the recognizer says of the program on the line or in the file, in the words of
the command line. Once a session has quit it stays so. -/
theorem answers_without_history {σ : Type} [Host σ] [Terminal] (cfg : Settings) (host : σ)
    (lines : List String) (line : String) :
    (∀ room s fresh, s = (Session.start cfg host room).executeAll lines →
      fresh = Session.start cfg s.host s.sink.room →
      (s.execute line).1 = (fresh.execute line).1 ∧
        (s.execute line).2.host = (fresh.execute line).2.host ∧
        (s.execute line).2.sink.written = s.sink.written ++ fresh.answer line ∧
        s.answer line = fresh.answer line) ∧
    (∀ s, s = (Session.start cfg host none).executeAll lines → cfg.color = false →
      (s.execute line).1 = .ok () ∧
        (∀ code, Command.parse line = .code code →
          (s.answer line = utf8Bytes "Success!\n" ↔ check code = .ok ()) ∧
            ∀ e, check code = .error e →
              s.answer line = utf8Bytes (e.render "<input>" code ++ "\n")) ∧
        ∀ path, Command.parse line = .run path →
          (s.answer line = utf8Bytes "Success!\n" ↔ checkFile s.host path = .ok ()) ∧
            ∀ e, checkFile s.host path = .error (.parse e) →
              ∃ source, load s.host path = .ok source ∧ check source = .error e ∧
                s.answer line = utf8Bytes (e.render path source ++ "\n") ∧
                ∀ program settings clock input, path ∉ ["-h", "--help", "--tokens"] →
                  runTask program settings s.host clock input (.ofArguments [path]) =
                    ⟨[], e.render path source ++ "\n", 1⟩) ∧
    ∀ s : Session σ, s.quit = true → (s.executeAll lines).quit = true := by
  refine ⟨?_, ?_, fun s h => Session.quit_executeAll h lines⟩
  · intro room s fresh hs hf
    have hcfg : s.settings = cfg := by
      rw [hs, Session.settings_executeAll]
      rfl
    rw [hf, ← hcfg]
    exact s.execute_start line
  · intro s hs hc
    have hr : s.sink.room = none := by
      rw [hs]
      exact Session.room_executeAll rfl lines
    have hcfg : s.settings.color = false := by
      rw [hs, Session.settings_executeAll]
      exact hc
    refine ⟨(Session.answer_eq hr line).1, fun code => Session.answer_code hr hcfg, ?_⟩
    intro path hl
    obtain ⟨hok, herr⟩ := Session.answer_run hr hcfg hl
    refine ⟨hok, ?_⟩
    intro e he
    obtain ⟨source, hload, hcheck, ha⟩ := herr e he
    refine ⟨source, hload, hcheck, ha, ?_⟩
    intro program settings clock input hp
    exact runTask_check hload hcheck hp program settings clock input

end ScriptCheck
