import ScriptCheck.Host.Launch
import ScriptCheck.Proofs.Shell.Reply

/-!
# Files of a machine

What is written to a file of a machine is read from it again, along every path that leads there.
Along any other path nothing has changed. So a script that an editor has written is checked as it
was written, and the other scripts are checked as before.
-/

namespace ScriptCheck

/-! ### Trees -/

namespace Node

variable {n : Node} {place here : List String} {entries : List (String × Node)}

/-- What a place is for a walk: a directory, a link to go on along, or the end of every path. -/
inductive Kind
  | directory
  | link (target : String)
  | leaf
deriving DecidableEq

def kind : Node → Kind
  | directory _ => .directory
  | link target => .link target
  | _ => .leaf

/-- Every place is the same for a walk in both trees. -/
def SameWays (n n' : Node) : Prop :=
  ∀ place, (n'.find? place).map kind = (n.find? place).map kind

theorem SameWays.symm {n n' : Node} (h : SameWays n n') : SameWays n' n :=
  fun place => (h place).symm

theorem kind_eq_directory {n : Node} (h : n.kind = .directory) :
    ∃ entries, n = directory entries := by
  cases n with
  | directory entries => exact ⟨entries, rfl⟩
  | _ => cases h

theorem kind_eq_link {n : Node} {target : String} (h : n.kind = .link target) :
    n = link target := by
  cases n with
  | link => rw [Kind.link.inj h]
  | _ => cases h

theorem SameWays.exists_directory {n n' : Node} (hs : SameWays n n')
    (h : n.find? here = some (directory entries)) :
    ∃ entries', n'.find? here = some (directory entries') ∧
      ∀ name, (entries'.lookup name).map kind = (entries.lookup name).map kind := by
  have hhere := hs here
  rw [h] at hhere
  obtain ⟨d, hd, hk⟩ := Option.map_eq_some_iff.1 hhere
  obtain ⟨entries', rfl⟩ := kind_eq_directory hk
  refine ⟨entries', hd, fun name => ?_⟩
  rw [← find?_concat h, ← find?_concat hd]
  exact hs _

theorem lookup_of_kind_link {entries' : List (String × Node)} {name target : String}
    (hkind : (entries'.lookup name).map kind = (entries.lookup name).map kind)
    (hl : entries.lookup name = some (link target)) :
    entries'.lookup name = some (link target) := by
  rw [hl] at hkind
  obtain ⟨n, hl', hk⟩ := Option.map_eq_some_iff.1 hkind
  rw [hl', kind_eq_link hk]

theorem exists_entries_of_find?_cons {x : Node} {name : String}
    (h : n.find? (name :: place) = some x) :
    ∃ entries inner, n = directory entries ∧ entries.lookup name = some inner ∧
      inner.find? place = some x := by
  obtain ⟨inner, hinner, hi⟩ := Option.bind_eq_some_iff.1 h
  cases n with
  | directory entries => exact ⟨entries, inner, rfl, hinner, hi⟩
  | _ => cases hinner

/-- What is put in the place of something is found there. -/
theorem find?_put {old : Node} (h : n.find? place = some old) (new : Node) :
    (n.put new place).find? place = some new := by
  induction place generalizing n with
  | nil => rfl
  | cons name place ih =>
    obtain ⟨entries, inner, rfl, hl, hi⟩ := exists_entries_of_find?_cons h
    simpa [put, find?, entry?, hl] using ih hi

/-- A file in the place of another one changes nothing elsewhere, but for what the directories on
the way to it hold. -/
theorem find?_put_file_of_ne {content content' : ByteArray} {x x' : Bool} {other : List String}
    (h : n.find? place = some (file content x)) (hne : other ≠ place) :
    (n.put (file content' x') place).find? other = n.find? other ∨
      ∃ entries entries', n.find? other = some (directory entries) ∧
        (n.put (file content' x') place).find? other = some (directory entries') := by
  induction place generalizing n other with
  | nil =>
    obtain ⟨name, other, rfl⟩ := List.exists_cons_of_ne_nil hne
    obtain rfl : n = file content x := Option.some.inj h
    exact .inl rfl
  | cons name place ih =>
    obtain ⟨entries, inner, rfl, hl, hi⟩ := exists_entries_of_find?_cons h
    cases other with
    | nil => exact .inr ⟨entries, _, rfl, rfl⟩
    | cons key other =>
      by_cases hk : key = name
      · subst hk
        have hother : other ≠ place := fun ho => hne (by rw [ho])
        simpa [put, find?, entry?, hl] using ih hi hother
      · simp [put, find?, entry?, lookup_setEntry_of_ne hk]

theorem sameWays_put_file {content content' : ByteArray} {x x' : Bool}
    (h : n.find? place = some (file content x)) :
    SameWays n (n.put (file content' x') place) := by
  intro other
  by_cases hne : other = place
  · rw [hne, find?_put h, h]
    rfl
  · obtain hsame | ⟨entries, entries', hd, hd'⟩ := find?_put_file_of_ne h hne
    · rw [hsame]
    · rw [hd, hd']
      rfl

end Node

/-! ### Paths -/

namespace Machine

variable {m m' : Machine} {links links' : Nat} {here place names rest : List String}
  {name : String} {entries : List (String × Node)} {n : Node}

/-! One step of a walk, where it goes on. -/

theorem walk_dot (hd : m.root.find? here = some (.directory entries)) :
    m.walk links here ("." :: names) = m.walk links here names := by
  rw [walk, hd]
  simp

theorem walk_dots (hd : m.root.find? here = some (.directory entries)) :
    m.walk links here (".." :: names) = m.walk links here.dropLast names := by
  rw [walk, hd]
  simp

theorem walk_entry (hd : m.root.find? here = some (.directory entries)) (h₁ : name ≠ ".")
    (h₂ : name ≠ "..") (h₃ : ¬ maxName < name.utf8ByteSize) (hl : entries.lookup name = some n)
    (hn : ∀ target, n ≠ .link target) :
    m.walk links here (name :: names) = m.walk links (here ++ [name]) names := by
  rw [walk, hd]
  simp only [if_neg h₁, if_neg h₂, if_neg h₃, hl]
  cases n with
  | link target => exact absurd rfl (hn target)
  | _ => rfl

theorem walk_link {target : String} (hd : m.root.find? here = some (.directory entries))
    (h₁ : name ≠ ".") (h₂ : name ≠ "..") (h₃ : ¬ maxName < name.utf8ByteSize)
    (hl : entries.lookup name = some (.link target)) :
    m.walk (links + 1) here (name :: names) =
      m.walk links (if target.startsWith "/" then [] else here) (pathNames target ++ names) := by
  rw [walk, hd]
  simp only [if_neg h₁, if_neg h₂, if_neg h₃, hl]

theorem ne_link (hz : ∀ target, links = 0 → n = .link target → False)
    (hs : ∀ target k, links = k + 1 → n = .link target → False) (target : String) :
    n ≠ .link target := by
  cases links with
  | zero => exact hz target rfl
  | succ k => exact hs target k rfl

/-- More links on the way do no harm. -/
theorem walk_mono (h : m.walk links here names = .ok place) (hl : links ≤ links') :
    m.walk links' here names = .ok place := by
  fun_induction walk m links here names generalizing links' with
  | case1 => rw [walk]; exact h
  | case2 links here names entries hd ih =>
    rw [walk_dot hd]
    exact ih h hl
  | case3 links here names entries hd hn ih =>
    rw [walk_dots hd]
    exact ih h hl
  | case6 here name names entries hd h₁ h₂ h₃ target links hl' ih =>
    obtain ⟨k, rfl⟩ : ∃ k, links' = k + 1 := ⟨links' - 1, by omega⟩
    rw [walk_link hd h₁ h₂ h₃ hl']
    exact ih h (by omega)
  | case7 here name names entries hd h₁ h₂ h₃ n links hz hs hl' ih =>
    rw [walk_entry hd h₁ h₂ h₃ hl' (ne_link hz hs)]
    exact ih h hl
  | case4 | case5 | case8 | case9 => cases h

/-- A walk along names and more names stops in between. -/
theorem walk_append (h : m.walk links here (names ++ rest) = .ok place) :
    ∃ mid links', m.walk links here names = .ok mid ∧ links' ≤ links ∧
      m.walk links' mid rest = .ok place := by
  fun_induction walk m links here names with
  | case1 links here => exact ⟨here, links, rfl, Nat.le_refl _, h⟩
  | case2 links here names entries hd ih =>
    rw [List.cons_append, walk_dot hd] at h
    exact ih h
  | case3 links here names entries hd hn ih =>
    rw [List.cons_append, walk_dots hd] at h
    exact ih h
  | case6 here name names entries hd h₁ h₂ h₃ target links hl ih =>
    rw [List.cons_append, walk_link hd h₁ h₂ h₃ hl, ← List.append_assoc] at h
    obtain ⟨mid, links', hw, hlinks, hrest⟩ := ih h
    exact ⟨mid, links', hw, by omega, hrest⟩
  | case7 here name names entries hd h₁ h₂ h₃ n links hz hs hl ih =>
    rw [List.cons_append, walk_entry hd h₁ h₂ h₃ hl (ne_link hz hs)] at h
    exact ih h
  | case4 links here name names entries hd h₁ h₂ h₃ =>
    rw [List.cons_append, walk, hd] at h
    simp [h₁, h₂, h₃] at h
  | case5 here name names entries hd h₁ h₂ h₃ target hl =>
    rw [List.cons_append, walk, hd] at h
    simp [h₁, h₂, h₃, hl] at h
  | case8 links here name names entries hd h₁ h₂ h₃ hl =>
    rw [List.cons_append, walk, hd] at h
    simp [h₁, h₂, h₃, hl] at h
  | case9 links here name names hd =>
    rw [List.cons_append, walk] at h
    split at h
    · exact absurd ‹_› (hd _)
    · cases h

/-- A walk leads to the same place in a tree that is the same for it. -/
theorem walk_congr (hr : m.root.SameWays m'.root) :
    m'.walk links here names = m.walk links here names := by
  fun_induction walk m links here names with
  | case1 links here => rw [walk]
  | case2 links here names entries hd ih =>
    obtain ⟨entries', hd', -⟩ := hr.exists_directory hd
    rw [walk_dot hd']
    exact ih
  | case3 links here names entries hd hn ih =>
    obtain ⟨entries', hd', -⟩ := hr.exists_directory hd
    rw [walk_dots hd']
    exact ih
  | case4 links here name names entries hd h₁ h₂ h₃ =>
    obtain ⟨entries', hd', -⟩ := hr.exists_directory hd
    rw [walk, hd']
    simp [h₁, h₂, h₃]
  | case5 here name names entries hd h₁ h₂ h₃ target hl =>
    obtain ⟨entries', hd', hkind⟩ := hr.exists_directory hd
    have hl' := Node.lookup_of_kind_link (hkind name) hl
    rw [walk, hd']
    simp [h₁, h₂, h₃, hl']
  | case6 here name names entries hd h₁ h₂ h₃ target links hl ih =>
    obtain ⟨entries', hd', hkind⟩ := hr.exists_directory hd
    rw [walk_link hd' h₁ h₂ h₃ (Node.lookup_of_kind_link (hkind name) hl)]
    exact ih
  | case7 here name names entries hd h₁ h₂ h₃ n links hz hs hl ih =>
    obtain ⟨entries', hd', hkind⟩ := hr.exists_directory hd
    obtain ⟨n', hl', hk⟩ := Option.map_eq_some_iff.1 ((hkind name).trans (by rw [hl]; rfl))
    have hn : ∀ target, n' ≠ .link target := by
      rintro target rfl
      exact ne_link hz hs target (Node.kind_eq_link hk.symm)
    rw [walk_entry hd' h₁ h₂ h₃ hl' hn]
    exact ih
  | case8 links here name names entries hd h₁ h₂ h₃ hl =>
    obtain ⟨entries', hd', hkind⟩ := hr.exists_directory hd
    have hl' : entries'.lookup name = none :=
      Option.map_eq_none_iff.1 ((hkind name).trans (by rw [hl]; rfl))
    rw [walk, hd']
    simp [h₁, h₂, h₃, hl']
  | case9 links here name names hd =>
    rw [walk]
    split
    · obtain ⟨entries, hd', -⟩ := hr.symm.exists_directory ‹_›
      exact absurd hd' (hd entries)
    · rfl

theorem resolve_eq_ok_iff {path : String} : m.resolve path = .ok (place, n) ↔
    checkPath path = .ok () ∧ m.walk maxLinks (m.origin path) (pathNames path) = .ok place ∧
      m.root.find? place = some n := by
  unfold resolve
  cases checkPath path with
  | error e => simp [bind, Except.bind]
  | ok =>
    cases m.walk maxLinks (m.origin path) (pathNames path) with
    | error e => simp [bind, Except.bind]
    | ok place' =>
      simp only [bind, Except.bind, true_and, Except.ok.injEq]
      constructor
      · intro h
        split at h
        · obtain ⟨rfl, rfl⟩ := Prod.mk.inj (Except.ok.inj h)
          exact ⟨rfl, ‹_›⟩
        · cases h
      · rintro ⟨rfl, hn⟩
        rw [hn]
        rfl

theorem pathNames_eq (path : String) :
    (pathNames path).dropLast ++ [(pathNames path).getLastD "."] = pathNames path := by
  simp [pathNames]

/-- A path along which something is leads there for writing too. -/
theorem target_of_resolve {path : String} (h : m.resolve path = .ok (place, n)) :
    m.target path = .ok place := by
  obtain ⟨hpath, hwalk, -⟩ := resolve_eq_ok_iff.1 h
  rw [← pathNames_eq] at hwalk
  obtain ⟨mid, links, hmid, hlinks, hlast⟩ := walk_append hwalk
  simp only [target, hpath, hmid, walk_mono hlast hlinks, bind, Except.bind]
  rfl

theorem exists_resolve_of_sameWays {path : String} (hr : m.root.SameWays m'.root)
    (hw : m'.workingDir = m.workingDir) (h : m.resolve path = .ok (place, n)) :
    ∃ n', m'.resolve path = .ok (place, n') := by
  obtain ⟨hpath, hwalk, hn⟩ := resolve_eq_ok_iff.1 h
  have hplace := hr place
  rw [hn] at hplace
  obtain ⟨n', hn', -⟩ := Option.map_eq_some_iff.1 hplace
  have horigin : m'.origin path = m.origin path := by rw [origin, hw, origin]
  refine ⟨n', resolve_eq_ok_iff.2 ⟨hpath, ?_, hn'⟩⟩
  rw [walk_congr hr, horigin]
  exact hwalk

theorem resolve_of_sameWays_error {path : String} {e : HostError} (hr : m.root.SameWays m'.root)
    (hw : m'.workingDir = m.workingDir) (h : m.resolve path = .error e) :
    m'.resolve path = .error e := by
  have horigin : m'.origin path = m.origin path := by rw [origin, hw, origin]
  unfold resolve at h ⊢
  rw [walk_congr hr, horigin]
  cases hp : checkPath path with
  | error e' => simpa [hp, bind, Except.bind] using h
  | ok =>
    cases hwalk : m.walk maxLinks (m.origin path) (pathNames path) with
    | error e' => simpa [hp, hwalk, bind, Except.bind] using h
    | ok place =>
      simp only [hp, hwalk, bind, Except.bind] at h ⊢
      have hplace := hr place
      split at h
      · cases h
      · rw [‹m.root.find? place = none›] at hplace
        rw [Option.map_eq_none_iff.1 hplace]
        exact h

/-! ### Reading and writing -/

theorem readBytes_of_resolve {path : String} (h : m.resolve path = .ok (place, n)) :
    m.readBytes path = n.content := by
  rw [readBytes, h]
  rfl

/-- What is written to a file is read along every path that leads there. Along any other path the
same is read as before. -/
theorem readBytes_write {path : String} {old : ByteArray} {executable : Bool}
    (h : m.resolve path = .ok (place, .file old executable)) (content : ByteArray) :
    ∃ m', m.write path content = .ok m' ∧
      (∀ other n, m.resolve other = .ok (place, n) → m'.readBytes other = .ok content) ∧
      ∀ other, (∀ n, m.resolve other ≠ .ok (place, n)) →
        m'.readBytes other = m.readBytes other := by
  obtain ⟨-, -, hfile⟩ := resolve_eq_ok_iff.1 h
  obtain ⟨m', hm'⟩ : ∃ m', m' = { m with root := m.root.put (.file content executable) place } :=
    ⟨_, rfl⟩
  have hroot : m'.root = m.root.put (.file content executable) place := by rw [hm']
  have hways : m.root.SameWays m'.root := hroot ▸ Node.sameWays_put_file hfile
  have hdir : m'.workingDir = m.workingDir := by rw [hm']
  refine ⟨m', ?_, ?_, ?_⟩
  · rw [write, target_of_resolve h, hm']
    simp only [bind, Except.bind, fill, hfile]
  · intro other n ho
    obtain ⟨n', hn'⟩ := exists_resolve_of_sameWays hways hdir ho
    have hnew : n' = .file content executable := by
      have hfound := (resolve_eq_ok_iff.1 hn').2.2
      rw [hroot, Node.find?_put hfile] at hfound
      exact (Option.some.inj hfound).symm
    rw [readBytes_of_resolve hn', hnew]
    rfl
  · intro other hother
    cases ho : m.resolve other with
    | error e => rw [readBytes, resolve_of_sameWays_error hways hdir ho, readBytes, ho]
    | ok found =>
      obtain ⟨place', n⟩ := found
      have hne : place' ≠ place := by
        rintro rfl
        exact hother n ho
      obtain ⟨n', hn'⟩ := exists_resolve_of_sameWays hways hdir ho
      have hfound := (resolve_eq_ok_iff.1 ho).2.2
      have hfound' := (resolve_eq_ok_iff.1 hn').2.2
      rw [readBytes_of_resolve hn', readBytes_of_resolve ho]
      rw [hroot] at hfound'
      obtain hsame | ⟨entries, entries', hd, hd'⟩ := Node.find?_put_file_of_ne hfile hne
      · rw [hsame, hfound] at hfound'
        rw [Option.some.inj hfound']
      · rw [hd] at hfound
        rw [hd'] at hfound'
        obtain rfl := Option.some.inj hfound
        obtain rfl := Option.some.inj hfound'
        rfl

theorem load_eq (m : Machine) (path : String) :
    load m path = (m.read path).mapError (⟨path, ·⟩) := rfl

theorem read_congr {path : String} (h : m'.readBytes path = m.readBytes path) :
    m'.read path = m.read path := by
  rw [read, h, read]

theorem read_of_readBytes {path text : String} (h : m.readBytes path = .ok text.toUTF8) :
    m.read path = .ok text := by
  rw [read, h]
  simp only [bind, Except.bind, fromUTF8?_eq_some_iff.2 rfl]
  rfl

/-- A script that has been written is checked as it was written, and every other script as it was
before. -/
theorem checkFile_write {path : String} {old : ByteArray} {executable : Bool}
    (h : m.resolve path = .ok (place, .file old executable)) (text : String) :
    ∃ m', m.write path text.toUTF8 = .ok m' ∧
      (∀ other n, m.resolve other = .ok (place, n) →
        checkFile m' other = (check text).mapError .parse) ∧
      ∀ other, (∀ n, m.resolve other ≠ .ok (place, n)) →
        checkFile m' other = checkFile m other := by
  obtain ⟨m', hm', hwritten, hkept⟩ := readBytes_write h text.toUTF8
  refine ⟨m', hm', ?_, ?_⟩
  · intro other n ho
    have hload : load m' other = .ok text := by
      rw [load_eq, read_of_readBytes (hwritten other n ho)]
      rfl
    rw [checkFile, hload]
  · intro other hother
    have hload : load m' other = load m other := by
      rw [load_eq, load_eq, read_congr (hkept other hother)]
    rw [checkFile, hload, checkFile]

/-! ### Sessions -/

theorem launch_workingDir (m : Machine) (program : String) (args : List String) :
    (m.launch program args).2.workingDir = m.workingDir := by
  unfold launch
  split
  · rfl
  · split <;> rfl

/-- Relative paths begin at the same place in all of a session, whatever editors do. -/
theorem origin_executeAll [Terminal] (s : Session Machine) (lines : List String) (path : String) :
    (s.executeAll lines).host.origin path = s.host.origin path := by
  have hdir : (s.executeAll lines).host.workingDir = s.host.workingDir := by
    apply Session.host_executeAll (p := fun m : Machine => m.workingDir = s.host.workingDir) _ rfl
    intro m program args h
    exact (launch_workingDir m program args).trans h
  rw [origin, hdir, origin]

end Machine

end ScriptCheck
