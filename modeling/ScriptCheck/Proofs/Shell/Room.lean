import ScriptCheck.Proofs.Shell.History

/-!
# Sessions whose sink fills up

A sink may have room for so many bytes only. A session that writes to it goes on as one that has
room for everything, through the same hosts and scanners, however its replies are cut off. Only the
output ends early, and a line fails if and only if some of its reply is lost.
-/

namespace ScriptCheck

/-! ### Sinks -/

namespace Sink

variable {s : Sink} {n : Nat}

/-- The sink as it would be if it had had room for `room` bytes from the start. -/
def limit (room : Nat) (s : Sink) : Sink :=
  ⟨some (room - s.written.length), s.written.take room⟩

/-- A sink with room for `n` bytes takes the first `n` of them, in however many texts they come. -/
theorem writeAll_of_room_eq_some (h : s.room = some n) (texts : List String) :
    s.writeAll texts =
      (decide ((texts.flatMap utf8Bytes).length ≤ n),
        ⟨some (n - (texts.flatMap utf8Bytes).length),
          s.written ++ (texts.flatMap utf8Bytes).take n⟩) := by
  induction texts generalizing s n with
  | nil =>
    obtain ⟨room, written⟩ := s
    obtain rfl : room = some n := h
    simp
  | cons text texts ih =>
    have hw : s.write text = (decide ((utf8Bytes text).length ≤ n),
        ⟨some (n - (utf8Bytes text).length), s.written ++ (utf8Bytes text).take n⟩) := by
      simp [write, h]
    rw [writeAll, hw, List.flatMap_cons, List.length_append, List.take_append]
    by_cases hn : (utf8Bytes text).length ≤ n
    · have hrest := ih (s := ⟨some (n - (utf8Bytes text).length), s.written ++ utf8Bytes text⟩) rfl
      rw [decide_eq_true hn, List.take_of_length_le hn]
      refine hrest.trans ?_
      simp only [Nat.sub_sub, List.append_assoc, Nat.le_sub_iff_add_le' hn]
    · rw [decide_eq_false hn]
      have hover : ¬ (utf8Bytes text).length + (texts.flatMap utf8Bytes).length ≤ n := by omega
      have hfull : n - (utf8Bytes text).length = 0 := by omega
      have hleft : n - ((utf8Bytes text).length + (texts.flatMap utf8Bytes).length) = 0 := by omega
      rw [decide_eq_false hover, hfull, hleft, List.take_zero, List.append_nil]

/-- To cut the output off and to write to a sink that cuts it off is the same. -/
theorem writeAll_limit (h : s.room = none) (room : Nat) (texts : List String) :
    (s.limit room).writeAll texts =
      (decide ((texts.flatMap utf8Bytes).length ≤ room - s.written.length),
        (s.writeAll texts).2.limit room) := by
  rw [writeAll_of_room_eq_some rfl, writeAll_of_room_eq_none h]
  simp only [limit, List.length_append, List.take_append, Nat.sub_sub]

end Sink

/-! ### Sessions -/

namespace Session

variable {σ : Type} {s : Session σ}

/-- The session as it would be if its sink had had room for `room` bytes from the start. -/
def limit (room : Nat) (s : Session σ) : Session σ :=
  { s with sink := s.sink.limit room }

theorem start_eq_limit (cfg : Settings) (host : σ) (room : Nat) :
    start cfg host (some room) = (start cfg host none).limit room := by
  simp [start, limit, Sink.ofRoom, Sink.limit]

variable [Host σ] [Terminal]

/-- What is written for each of the lines. -/
def answers (s : Session σ) : List String → List (List UInt8)
  | [] => []
  | line :: lines => s.answer line :: answers (s.execute line).2 lines

theorem answers_append (s : Session σ) (lines more : List String) :
    s.answers (lines ++ more) = s.answers lines ++ (s.executeAll lines).answers more := by
  induction lines generalizing s with
  | nil => rfl
  | cons line lines ih => exact congrArg (s.answer line :: ·) (ih (s.execute line).2)

theorem written_executeAll (s : Session σ) (lines : List String) :
    (s.executeAll lines).sink.written = s.sink.written ++ (s.answers lines).flatten := by
  induction lines generalizing s with
  | nil => simp [answers, executeAll]
  | cons line lines ih =>
    obtain ⟨-, -, hwritten, hanswer⟩ := s.execute_start line
    have hall := ih (s.execute line).2
    rw [hwritten, ← hanswer, List.append_assoc] at hall
    exact hall

/-- One line leaves a session that has run out of room as it leaves one that has not, but for the
output. -/
theorem execute_limit (h : s.sink.room = none) (room : Nat) (line : String) :
    (s.limit room).execute line =
      (if (s.answer line).length ≤ room - s.sink.written.length then .ok ()
        else .error .sinkFull, (s.execute line).2.limit room) := by
  have hanswer : s.answer line =
      (s.settings.reply s.host s.scanner (Command.parse line)).texts.flatMap utf8Bytes := by
    rw [(answer_eq h line).2, (s.reply_eq line).1]
  rw [hanswer]
  simp only [execute, write_eq, limit, Sink.writeAll_limit h, decide_eq_true_eq]

/-- So do all lines. -/
theorem executeAll_limit (h : s.sink.room = none) (room : Nat) (lines : List String) :
    (s.limit room).executeAll lines = (s.executeAll lines).limit room := by
  induction lines generalizing s with
  | nil => rfl
  | cons line lines ih =>
    have hstep : ((s.limit room).execute line).2 = (s.execute line).2.limit room := by
      rw [execute_limit h]
    have hnext : (s.execute line).2.sink.room = none := room_executeAll h [line]
    have hall := ih hnext
    rw [← hstep] at hall
    exact hall

end Session

/-- A sink with room for so many bytes gets just the first so many bytes of all answers. A line
fails if and only if it is answered at all and the answers up to its own do not fit. Everything but
the output is as it is with room for everything. -/
theorem limited_sink_truncates {σ : Type} [Host σ] [Terminal] (cfg : Settings) (host : σ)
    (lines : List String) (room : Nat) :
    let full := Session.start cfg host none
    let cut := Session.start cfg host (some room)
    (cut.executeAll lines).sink.written = (full.answers lines).flatten.take room ∧
      ∀ before line after, lines = before ++ line :: after →
        let s := full.executeAll before
        let t := cut.executeAll before
        ((∃ e, (t.execute line).1 = .error e) ↔
            s.answer line ≠ [] ∧ room < (full.answers (before ++ [line])).flatten.length) ∧
          (t.execute line).2.quit = (s.execute line).2.quit ∧
          ∃ sink, (t.execute line).2 = { (s.execute line).2 with sink } := by
  intro full cut
  have hcut (lines : List String) : cut.executeAll lines = (full.executeAll lines).limit room := by
    rw [show cut = full.limit room from Session.start_eq_limit cfg host room]
    exact Session.executeAll_limit rfl room lines
  have hwritten (lines : List String) :
      (full.executeAll lines).sink.written = (full.answers lines).flatten :=
    full.written_executeAll lines
  constructor
  · rw [hcut, ← hwritten]
    rfl
  · intro before line after _ s t
    have hstep : t.execute line =
        (if (s.answer line).length ≤ room - s.sink.written.length then .ok ()
          else .error .sinkFull, (s.execute line).2.limit room) := by
      rw [show t = s.limit room from hcut before]
      exact Session.execute_limit (Session.room_executeAll rfl before) room line
    have htotal : (full.answers (before ++ [line])).flatten.length =
        s.sink.written.length + (s.answer line).length := by
      rw [show s.sink.written = _ from hwritten before, Session.answers_append]
      simp [Session.answers, s]
    rw [hstep, htotal, ← List.length_pos_iff]
    refine ⟨?_, rfl, _, rfl⟩
    split <;> simp <;> omega

end ScriptCheck
