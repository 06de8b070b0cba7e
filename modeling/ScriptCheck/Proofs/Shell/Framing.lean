import Mathlib.Data.List.Forall2
import ScriptCheck.Proofs.Shell.History
import ScriptCheck.Proofs.Text.Lines

/-!
# The frame of a session

A session is a banner, then a prompt and an answer for each line of the input, and then an end:
behind the last line, at the first line that quits, or at a line that is no text. Each line is
answered once and on its own, as a new session would answer it on the host of that moment.
-/

namespace ScriptCheck

/-! ### Lines of bytes -/

/-- The bytes are cut behind each line feed; the last line may be without one. -/
inductive IsCut : List UInt8 → List (List UInt8) → Prop
  | nil : IsCut [] []
  | last {line : List UInt8} (hn : line ≠ []) (hf : 10 ∉ line) : IsCut line [line]
  | cons {line rest : List UInt8} {lines : List (List UInt8)} (hf : 10 ∉ line)
      (h : IsCut rest lines) : IsCut (line ++ 10 :: rest) ((line ++ [10]) :: lines)

/-- The bytes spell the text with line breaks behind, and the text itself ends with none. -/
structure IsLine (line : List UInt8) (text : String) : Prop where
  bytes : ∃ breaks : List Char, (∀ c ∈ breaks, isBreak c) ∧
    line = utf8Bytes (text ++ String.ofList breaks)
  bare : ∀ c ∈ text.toList.getLast?, ¬ isBreak c

section

variable {input line : List UInt8} {lines lines' : List (List UInt8)} {text text' : String}

theorem isCut_splitLinesOnto (input line : List UInt8) (hf : 10 ∉ line)
    (lines : List (List UInt8)) :
    ∃ more, Session.splitLinesOnto line input lines = lines.reverse ++ more ∧
      IsCut (line.reverse ++ input) more := by
  induction input generalizing line lines with
  | nil =>
    unfold Session.splitLinesOnto
    split
    · rename_i hl
      exact ⟨[], by simp, by simpa [hl] using .nil⟩
    · rename_i hl
      have hcut : IsCut line.reverse [line.reverse] :=
        .last (by simpa using hl) (by simpa using hf)
      exact ⟨[line.reverse], by simp, by simpa using hcut⟩
  | cons b rest ih =>
    unfold Session.splitLinesOnto
    split
    · rename_i hb
      obtain ⟨more, hsplit, hcut⟩ := ih [] (by simp) ((b :: line).reverse :: lines)
      refine ⟨(b :: line).reverse :: more, by rw [hsplit]; simp, ?_⟩
      rw [hb, List.reverse_cons]
      exact .cons (by simpa using hf) hcut
    · rename_i hb
      obtain ⟨more, hsplit, hcut⟩ := ih (b :: line) (by simp [Ne.symm hb, hf]) lines
      exact ⟨more, hsplit, by simpa using hcut⟩

theorem isCut_splitLines (input : List UInt8) : IsCut input (Session.splitLines input) := by
  obtain ⟨more, hsplit, hcut⟩ := isCut_splitLinesOnto input [] (by simp) []
  rw [Session.splitLines, hsplit]
  exact hcut

/-- There is one way only to cut the input. -/
theorem IsCut.unique (h : IsCut input lines) (h' : IsCut input lines') : lines = lines' := by
  induction h generalizing lines' with
  | nil =>
    generalize hi : ([] : List UInt8) = input at h'
    cases h' with
    | nil => rfl
    | last hn => exact absurd hi.symm hn
    | cons => simp at hi
  | @last line hn hf =>
    generalize hi : line = input at h'
    cases h' with
    | nil => exact absurd hi hn
    | last => rfl
    | cons => simp [hi] at hf
  | @cons line rest lines hf _ ih =>
    generalize hi : line ++ 10 :: rest = input at h'
    cases h' with
    | nil => simp at hi
    | last _ hf' => simp [← hi] at hf'
    | @cons line' rest' _ hf' h' =>
      have hline {l r : List UInt8} (hl : 10 ∉ l) : (l ++ 10 :: r).takeWhile (· ≠ 10) = l := by
        rw [List.takeWhile_append_of_pos fun b hb => by
          simpa using fun h10 : b = 10 => hl (h10 ▸ hb)]
        simp
      obtain rfl : line = line' := by rw [← hline hf, hi, hline hf']
      obtain rfl : rest = rest' := by simpa using hi
      rw [ih h']

theorem isLine_stripBreaks (text : String) :
    IsLine (utf8Bytes text) (Session.stripBreaks text) where
  bytes := by
    refine ⟨text.toList.rtakeWhile isBreak, fun c hc => List.mem_rtakeWhile_imp hc, ?_⟩
    have happ : text.toList.rdropWhile isBreak ++ text.toList.rtakeWhile isBreak = text.toList :=
      List.rdropWhile_append_rtakeWhile
    show _ = utf8Bytes (String.ofList (text.toList.rdropWhile isBreak) ++ _)
    rw [← String.ofList_append, happ, String.ofList_toList]
  bare := by
    intro c hc
    have hstrip : (Session.stripBreaks text).toList = text.toList.rdropWhile isBreak :=
      String.toList_ofList
    rw [hstrip] at hc
    obtain ⟨hn, rfl⟩ := List.mem_getLast?_eq_getLast hc
    exact List.rdropWhile_last_not isBreak _ hn

/-- There is one text only on a line. -/
theorem IsLine.unique (h : IsLine line text) (h' : IsLine line text') : text = text' := by
  have hdrop {text : String} {breaks : List Char} (hb : ∀ c ∈ breaks, isBreak c)
      (hl : ∀ c ∈ text.toList.getLast?, ¬ isBreak c) :
      (text ++ String.ofList breaks).toList.rdropWhile isBreak = text.toList := by
    have hb' : ∀ c ∈ breaks.reverse, isBreak c := by simpa using hb
    rw [String.toList_append, String.toList_ofList, List.rdropWhile, List.reverse_append,
      List.dropWhile_append_of_pos hb']
    exact List.rdropWhile_eq_self_iff.2 fun hn => hl _ (List.getLast?_eq_some_getLast hn)
  obtain ⟨breaks, hb, rfl⟩ := h.bytes
  obtain ⟨breaks', hb', he⟩ := h'.bytes
  apply String.toList_inj.1
  rw [← hdrop hb h.bare, utf8Bytes_inj.1 he, hdrop hb' h'.bare]

end

/-! ### Prompts and answers -/

namespace Session

variable {σ : Type} {s : Session σ}

theorem write_of_room (h : s.sink.room = none) (texts : List String) :
    s.write texts =
      (.ok (), { s with sink := ⟨none, s.sink.written ++ texts.flatMap utf8Bytes⟩ }) := by
  rw [write_eq, Sink.writeAll_of_room_eq_none h]
  rfl

/-- The session behind its next prompt. -/
def prompted (s : Session σ) : Session σ :=
  { s with sink := ⟨none, s.sink.written ++ utf8Bytes s.settings.prompt⟩ }

/-- The session behind its banner. -/
def welcomed [Terminal] (cfg : Settings) (host : σ) (clock : Clock) : Session σ :=
  { start cfg host none with sink := ⟨none, (welcome cfg clock).flatMap utf8Bytes⟩ }

theorem prompt_of_room (h : s.sink.room = none) : s.prompt = (.ok (), s.prompted) := by
  rw [prompt, write_of_room h]
  simp [prompted]

/-- How a session ends in front of the lines that are left: with which result, and what is written
last. -/
inductive Ends (prompt : String) :
    List (List UInt8) → Except SessionError Unit → List UInt8 → Prop
  | input : Ends prompt [] (.ok ()) (utf8Bytes prompt ++ utf8Bytes "\n")
  | quit {line : List UInt8} {lines : List (List UInt8)} {text : String} (hl : IsLine line text)
      (hq : Command.parse text = .quit) : Ends prompt (line :: lines) (.ok ()) (utf8Bytes prompt)
  | notText {line : List UInt8} {lines : List (List UInt8)} (hl : ∀ text, line ≠ utf8Bytes text) :
      Ends prompt (line :: lines) (.error .notText) (utf8Bytes prompt)

variable [Host σ] [Terminal]

/-- What becomes of the host when each line is carried out in a new session. -/
def hostAfter (cfg : Settings) (host : σ) (texts : List String) : σ :=
  texts.foldl (fun host text => ((start cfg host none).execute text).2.host) host

/-- A prompt and an answer for each line, which is the answer of a new session on the host as the
lines before have left it. -/
def dialogue (cfg : Settings) (host : σ) : List String → List UInt8
  | [] => []
  | text :: texts =>
    utf8Bytes cfg.prompt ++ (start cfg host none).answer text ++
      dialogue cfg ((start cfg host none).execute text).2.host texts

theorem takeLines_of_quit (h : s.quit = true) (lines : List (List UInt8)) :
    s.takeLines lines = (.ok (), s) := by
  cases lines <;> simp [takeLines, h]

theorem takeLines_nil (hroom : s.sink.room = none) (hquit : s.quit = false) :
    s.takeLines [] = s.prompted.write ["\n"] := by
  simp [takeLines, hquit, prompt_of_room hroom]

theorem takeLines_cons (hroom : s.sink.room = none) (hquit : s.quit = false) (line : List UInt8)
    (lines : List (List UInt8)) :
    s.takeLines (line :: lines) =
      match s.prompted.feed line with
      | (.error e, s) => (.error e, s)
      | (.ok (), s) => s.takeLines lines := by
  simp only [takeLines, hquit, prompt_of_room hroom]
  rfl

/-- A line of input is carried out, or it is no text. -/
theorem feed_cases (s : Session σ) (line : List UInt8) :
    (∃ text, IsLine line text ∧ s.feed line = s.execute text) ∨
      (∀ text, line ≠ utf8Bytes text) ∧ s.feed line = (.error .notText, s) := by
  unfold feed
  match h : String.fromUTF8? ⟨line.toArray⟩ with
  | some text =>
    obtain rfl := eq_toUTF8_iff.1 (fromUTF8?_eq_some_iff.1 h)
    exact .inl ⟨_, isLine_stripBreaks text, rfl⟩
  | none =>
    refine .inr ⟨?_, rfl⟩
    intro text hl
    rw [fromUTF8?_eq_some_iff.2 (eq_toUTF8_iff.2 hl)] at h
    cases h

/-- A session with room for everything does with a line what a new one does. -/
theorem exists_execute_of_room (h : s.sink.room = none) (text : String) :
    ∃ s', s.execute text = (.ok (), s') ∧ s'.settings = s.settings ∧ s'.sink.room = none ∧
      s'.quit = (s.quit || Command.parse text = .quit) ∧
      s'.host = ((start s.settings s.host none).execute text).2.host ∧
      s'.sink.written = s.sink.written ++ (start s.settings s.host none).answer text := by
  obtain ⟨-, hhost, hwritten, -⟩ := s.execute_start text
  rw [h] at hhost hwritten
  have hroom : (s.execute text).2.sink.room = none := by
    rw [execute_sink, Sink.writeAll_of_room_eq_none h]
  exact ⟨_, Prod.ext (answer_eq h text).1 rfl, s.execute_settings text, hroom, s.execute_quit text,
    hhost, hwritten⟩

/-- To quit is answered with nothing and changes nothing. -/
theorem execute_of_quit {text : String} (hq : Command.parse text = .quit) (cfg : Settings)
    (host : σ) : (start cfg host none).answer text = [] ∧
      ((start cfg host none).execute text).2.host = host := by
  have hreply : (start cfg host none).reply text = ⟨[], host, .empty⟩ := by
    rw [reply, hq]
    rfl
  rw [(answer_eq rfl text).2, execute_host, hreply]
  exact ⟨rfl, rfl⟩

/-- The lines that a session takes are answered one by one up to its end. -/
theorem exists_dialogue (hroom : s.sink.room = none) (hquit : s.quit = false)
    (lines : List (List UInt8)) :
    ∃ done texts rest last, lines = done ++ rest ∧ List.Forall₂ IsLine done texts ∧
      (∀ text ∈ texts, Command.parse text ≠ .quit) ∧
      Ends s.settings.prompt rest (s.takeLines lines).1 last ∧
      (s.takeLines lines).2.host = hostAfter s.settings s.host texts ∧
      (s.takeLines lines).2.sink.written =
        s.sink.written ++ dialogue s.settings s.host texts ++ last := by
  induction lines generalizing s with
  | nil =>
    rw [takeLines_nil hroom hquit, write_of_room rfl]
    exact ⟨[], [], [], _, rfl, .nil, by simp, .input, rfl, by simp [prompted, dialogue]⟩
  | cons line lines ih =>
    rw [takeLines_cons hroom hquit]
    obtain ⟨text, hl, hfeed⟩ | ⟨hl, hfeed⟩ := s.prompted.feed_cases line
    · obtain ⟨s', hexec, hcfg, hroom', hquit', hhost, hwritten⟩ :=
        s.prompted.exists_execute_of_room rfl text
      rw [hfeed, hexec]
      have hquit' : s'.quit = (s.quit || Command.parse text = .quit) := hquit'
      have hwritten : s'.sink.written = s.sink.written ++ utf8Bytes s.settings.prompt ++
          (start s.settings s.host none).answer text := hwritten
      by_cases hq : Command.parse text = .quit
      · obtain ⟨hanswer, hsame⟩ := execute_of_quit hq s.settings s.host
        have hdone : s'.quit = true := by simp [hquit', hq]
        simp only [takeLines_of_quit hdone]
        refine ⟨[], [], line :: lines, _, rfl, .nil, by simp, .quit hl hq, hhost.trans hsame, ?_⟩
        rw [hwritten, hanswer]
        simp [dialogue]
      · have hgoes : s'.quit = false := by simp [hquit', hq, hquit]
        obtain ⟨done, texts, rest, last, rfl, hlines, hquits, hends, hhost', hwritten'⟩ :=
          ih hroom' hgoes
        have hcfg : s'.settings = s.settings := hcfg
        have hhost : s'.host = ((start s.settings s.host none).execute text).2.host := hhost
        rw [hcfg] at hends hhost' hwritten'
        rw [hhost] at hhost' hwritten'
        refine
          ⟨line :: done, text :: texts, rest, last, rfl, .cons hl hlines, ?_, hends, hhost', ?_⟩
        · exact List.forall_mem_cons.2 ⟨hq, hquits⟩
        · simp only [hwritten', hwritten, dialogue, List.append_assoc]
    · rw [hfeed]
      exact ⟨[], [], line :: lines, _, rfl, .nil, by simp, .notText hl, rfl,
        by simp [prompted, dialogue]⟩

end Session

/-- A session says its banner, answers the lines of its input one by one, each as a new session
would on the host of that moment, and ends at the first line that quits or is no text, or behind
the input. -/
theorem session_framing {σ : Type} [Host σ] [Terminal] (cfg : Settings) (host : σ)
    (clock : Clock) (input : List UInt8) :
    (cfg.color = false → (Session.welcome cfg clock).flatMap utf8Bytes =
      utf8Bytes ("Welcome to Rhodus, Version 1.0\n" ++ "Date and Time: " ++ clock.text ++ "\n" ++
        "Type quit to exit\n")) ∧
    ∃ lines, IsCut input lines ∧ (∀ lines', IsCut input lines' → lines' = lines) ∧
      ∃ done texts rest last result session,
        (Session.start cfg host none).run clock input = (result, session) ∧
        lines = done ++ rest ∧ List.Forall₂ IsLine done texts ∧
        (∀ texts', List.Forall₂ IsLine done texts' → texts' = texts) ∧
        (∀ text ∈ texts, Command.parse text ≠ .quit) ∧
        Session.Ends cfg.prompt rest result last ∧
        session.host = Session.hostAfter cfg host texts ∧
        session.sink.written = (Session.welcome cfg clock).flatMap utf8Bytes ++
          Session.dialogue cfg host texts ++ last := by
  constructor
  · intro hc
    have hbanner : cfg.styledLine .bold "Welcome to Rhodus, Version 1.0" =
        "Welcome to Rhodus, Version 1.0\n" := by
      rw [Settings.styledLine, hc]
      rfl
    simp only [Session.welcome, hbanner, List.flatMap_cons, List.flatMap_nil, utf8Bytes_append,
      List.append_assoc, List.append_nil]
  · have hcut := isCut_splitLines input
    refine ⟨_, hcut, fun lines' h' => h'.unique hcut, ?_⟩
    have hrun : (Session.start cfg host none).run clock input =
        (Session.welcomed cfg host clock).takeLines (Session.splitLines input) := by
      rw [Session.run, Session.write_of_room rfl]
      rfl
    obtain ⟨done, texts, rest, last, hlines, hforall, hquits, hends, hhost, hwritten⟩ :=
      (Session.welcomed cfg host clock).exists_dialogue rfl rfl (Session.splitLines input)
    have hunique : Relator.RightUnique IsLine := fun _ _ _ => IsLine.unique
    exact ⟨done, texts, rest, last, _, _, hrun, hlines, hforall,
      fun texts' h' => List.right_unique_forall₂' hunique h' hforall,
      hquits, hends, hhost, hwritten⟩

end ScriptCheck
