import K1de.Lib.FdTable
import K1de.Main.Spec
import K1de.Render.Font

/-! # The process

The open files and the children of the program, over the whole life of it. Files are opened and
closed all the time: every rescan opens every device of `/dev/input` again and drops what it does
not need, a shell that cannot be started gives its pty back, and a shell that has exited takes its
pty with it.

`descriptors_exact` says that the account is right at every point of every run, whatever fails: the
open files are those the program was started with, the card, one for every keyboard of the list and
the pty of the attached shell, each under its own descriptor, and the only child that was not waited
for is that shell.

The standard library opens files so that `exec` closes them; `posix_openpt` does not. The pipe
through which `Command` reports a failed `exec` is left out: it is gone when `spawn` returns.
-/

namespace K1de

open Fallible FdTable

/-- What a descriptor can stand for. -/
inductive OpenFile where
  | inherited (id : Nat)
  | card
  | console (path : String)
  | inputDir
  | device (id : Nat)
  | master
  | slave
deriving DecidableEq, Repr

/-- An attached shell: the descriptor of its pty, and its process. -/
structure Shell where
  fd : Nat
  pid : Nat
deriving DecidableEq, Repr

/-- The files and children of the program. -/
structure Files where
  table : Table OpenFile
  card : Nat
  keyboards : List (Keyboard × Nat)
  shell : Option Shell
  /-- the children that have not been waited for -/
  children : List Nat
  /-- the number of children so far -/
  forks : Nat

/-! ## Opening and closing -/

namespace Files

/-- A file of the standard library. -/
def stdFile (file : OpenFile) : Entry OpenFile := ⟨file, true⟩

/-- `Font::load`: every console that is asked is closed again. -/
def loadFont (kernel : String → FontAnswers) : List String → Table OpenFile → Table OpenFile
  | [], t => t
  | path :: rest, t =>
      let t := match (kernel path).file with
        | .error _ => t
        | .ok _ => close (put t (lowest t) (stdFile (.console path))) (lowest t)
      match Font.loadFrom (kernel path) with
      | .ok _ => t
      | .error _ => loadFont kernel rest t

/-- One iteration of the scan. A file that is not kept is closed at its end. -/
def scanEntry (acc : Table OpenFile × List (Keyboard × Nat)) (node : Node) :
    Table OpenFile × List (Keyboard × Nat) :=
  let (t, out) := acc
  if "event".toList.isPrefixOf node.name.toList then
    match node.file with
    | none => (t, out)
    | some file =>
        let fd := lowest t
        let t := put t fd (stdFile (.device file))
        match node.keyBits with
        | none => (close t fd, out)
        | some bits =>
            if hasKeyA bits then (t, out ++ [({ path := node.path, file }, fd)])
            else (close t fd, out)
  else (t, out)

/-- The scan, with the directory open until the end. -/
def scan (t : Table OpenFile) (dir : Option (List (Option Node))) :
    Table OpenFile × List (Keyboard × Nat) :=
  match dir with
  | none => (t, [])
  | some entries =>
      let fd := lowest t
      let acc := (entries.filterMap id).foldl scanEntry (put t fd (stdFile .inputDir), [])
      (close acc.1 fd, acc.2)

/-- A keyboard of a rescan: it is appended, or dropped. -/
def mergeKeyboard (acc : Table OpenFile × List (Keyboard × Nat)) (kb : Keyboard × Nat) :
    Table OpenFile × List (Keyboard × Nat) :=
  if acc.2.any fun k => k.1.path = kb.1.path then (close acc.1 kb.2, acc.2)
  else (acc.1, acc.2 ++ [kb])

def rescan (f : Files) (dir : Option (List (Option Node))) : Files :=
  let (t, fresh) := scan f.table dir
  let (table, keyboards) := fresh.foldl mergeKeyboard (t, f.keyboards)
  { f with table, keyboards }

/-- `Pty::spawn`: the table after it, and the descriptor of the master if it succeeds. -/
def openPty (t : Table OpenFile) (a : SpawnAnswers) : Table OpenFile × Option Nat :=
  match a.openpt with
  | .error _ => (t, none)
  | .ok _ =>
      let fd := lowest t
      let t := put t fd ⟨.master, false⟩
      match a.grantpt, a.unlockpt with
      | .ok _, .ok _ =>
          match a.ptsname with
          | .error _ => (close t fd, none)
          | .ok _ =>
              match a.child with
              -- here the master is a `File`, which is dropped
              | .error _ => (close t fd, none)
              | .ok _ => (t, some fd)
      | _, _ => (close t fd, none)

def spawn (f : Files) (a : SpawnAnswers) : Files :=
  match openPty f.table a with
  | (table, none) => { f with table }
  | (table, some fd) =>
      { f with
        table
        shell := some { fd, pid := f.forks }
        children := f.forks :: f.children
        forks := f.forks + 1 }

/-- `try_wait_exited`: a shell that has exited is waited for and dropped. -/
def reap (f : Files) (tryWait : Except IoError (Option Int)) : Files :=
  match f.shell, tryWait with
  | some h, .ok (some _) =>
      { f with
        table := close f.table h.fd
        shell := none
        children := f.children.erase h.pid }
  | _, _ => f

/-- The files before the first iteration: the card, the fonts and the keyboards, in the order in
which `main` opens them. -/
def start (base : Table OpenFile) (kernel : String → FontAnswers)
    (dir : Option (List (Option Node))) : Files :=
  let card := lowest base
  let t := loadFont kernel Font.consoles (put base card (stdFile .card))
  let (table, keyboards) := scan t dir
  { table, card, keyboards, shell := none, children := [], forks := 0 }

end Files

/-- Whether the refresh of this iteration calls `Pty::spawn`. -/
def State.spawns (s : State) (i : Input) : Bool :=
  decide (s.RefreshDue i) &&
    match s.refreshResult i with
    | .ok (some m) => decide (s.mode ≠ some m) && s.pty.isNone
    | _ => false

/-- What a phase that starts in `s` does to the files. -/
def Files.step (s : State) (f : Files) (e : Phase × Input) : Files :=
  match e.1 with
  | .refresh => if s.spawns e.2 then f.spawn e.2.spawn else f
  | .rescan => if e.2.now - s.lastKbScan ≥ keyboardRescanInterval then f.rescan e.2.dir else f
  | .reap => f.reap e.2.tryWait
  | _ => f

structure Process where
  state : State
  files : Files

namespace Process

def step (font : Font) (p : Process) (e : Phase × Input) : Except Fault Process := do
  let s ← K1de.step font p.state e
  return { state := s, files := p.files.step p.state e }

def start (base : Table OpenFile) (consoles : String → FontAnswers) (connectorId : UInt32)
    (kernel : Kernel) (dir : Option (List (Option Node))) (drmTime kbTime idleTime : Int) :
    Process :=
  { state := State.start connectorId kernel dir drmTime kbTime idleTime
    files := Files.start base consoles dir }

end Process

/-! ## What is open -/

/-- The descriptors of keyboards. -/
def deviceFiles (ks : List (Keyboard × Nat)) : List (Nat × Entry OpenFile) :=
  ks.map fun k => (k.2, Files.stdFile (.device k.1.file))

/-- The descriptor of an attached shell. -/
def shellFile (shell : Option Shell) : List (Nat × Entry OpenFile) :=
  shell.toList.map fun h => (h.fd, ⟨.master, false⟩)

/-- What the program has opened. -/
def Files.owned (f : Files) : List (Nat × Entry OpenFile) :=
  (f.card, stdFile .card) :: (deviceFiles f.keyboards ++ shellFile f.shell)

/-- The files and children are those of the state, and there are no others. -/
structure Process.Accounted (base : Table OpenFile) (p : Process) : Prop where
  holds : Holds p.files.table base p.files.owned
  keyboards_eq : p.files.keyboards.map Prod.fst = p.state.keyboards
  shell_eq : p.files.shell.isSome = p.state.pty.isSome
  children_eq : p.files.children = p.files.shell.toList.map Shell.pid

section

variable {t base : Table OpenFile} {own : List (Nat × Entry OpenFile)}

/-- Loading the font opens consoles and leaves none of them open. -/
theorem loadFont_holds (kernel : String → FontAnswers) (paths : List String)
    (h : Holds t base own) : Holds (Files.loadFont kernel paths t) base own := by
  induction paths generalizing t with
  | nil => exact h
  | cons path rest ih =>
      unfold Files.loadFont
      dsimp only
      -- whatever the console answers, its file is closed at the end of the attempt
      have ht : Holds (match (kernel path).file with
          | .error _ => t
          | .ok _ => close (put t (lowest t) (Files.stdFile (.console path))) (lowest t))
          base own := by
        split
        · exact h
        · exact h.transient _
      split
      · exact ht
      · exact ih ht

/-- One entry of the scan. -/
theorem scanEntry_holds {acc : Table OpenFile × List (Keyboard × Nat)}
    (h : Holds acc.1 base (deviceFiles acc.2 ++ own)) (node : Node) :
    Holds (Files.scanEntry acc node).1 base (deviceFiles (Files.scanEntry acc node).2 ++ own) ∧
      (Files.scanEntry acc node).2.map Prod.fst =
        acc.2.map Prod.fst ++ (scanEntry node).toList := by
  obtain ⟨t, out⟩ := acc
  unfold Files.scanEntry scanEntry
  dsimp only at h ⊢
  split
  · cases node.file with
    | none => exact ⟨h, (List.append_nil _).symm⟩
    | some file =>
        cases node.keyBits with
        | none => exact ⟨h.transient _, (List.append_nil _).symm⟩
        | some bits =>
            dsimp only
            split
            · refine ⟨?_, by rw [List.map_append]; rfl⟩
              -- the new file stands behind the others
              have hopen := h.opened (Files.stdFile (.device file))
              rw [deviceFiles, List.map_append, List.append_assoc]
              exact hopen.perm List.perm_middle.symm
            · exact ⟨h.transient _, (List.append_nil _).symm⟩
  · exact ⟨h, (List.append_nil _).symm⟩

/-- So the open files of a scan are those of the keyboards found, whatever the other entries are.
-/
theorem scanEntries_holds (nodes : List Node) (acc : Table OpenFile × List (Keyboard × Nat))
    (h : Holds acc.1 base (deviceFiles acc.2 ++ own)) :
    Holds (nodes.foldl Files.scanEntry acc).1 base
        (deviceFiles (nodes.foldl Files.scanEntry acc).2 ++ own) ∧
      (nodes.foldl Files.scanEntry acc).2.map Prod.fst =
        acc.2.map Prod.fst ++ nodes.filterMap scanEntry := by
  induction nodes generalizing acc with
  | nil => exact ⟨h, (List.append_nil _).symm⟩
  | cons node nodes ih =>
      obtain ⟨hnode, hfound⟩ := scanEntry_holds h node
      obtain ⟨hrest, hall⟩ := ih _ hnode
      refine ⟨hrest, ?_⟩
      rw [List.foldl_cons, hall, hfound, List.append_assoc, List.filterMap_cons]
      cases scanEntry node <;> rfl

/-- A scan finds what the model of the loop finds, and has only the keyboards open. -/
theorem scan_holds (h : Holds t base own) (dir : Option (List (Option Node))) :
    Holds (Files.scan t dir).1 base (deviceFiles (Files.scan t dir).2 ++ own) ∧
      (Files.scan t dir).2.map Prod.fst = scanKeyboards dir := by
  cases dir with
  | none => exact ⟨h, rfl⟩
  | some entries =>
      obtain ⟨hscan, hfound⟩ := scanEntries_holds (entries.filterMap id) (_, [])
        (h.opened (Files.stdFile .inputDir))
      exact ⟨(hscan.perm List.perm_middle).closed, hfound⟩

/-- A keyboard of a rescan that is known already is closed, and the others stay open. -/
theorem mergeKeyboards_holds (fresh : List (Keyboard × Nat))
    (acc : Table OpenFile × List (Keyboard × Nat))
    (h : Holds acc.1 base (deviceFiles acc.2 ++ (deviceFiles fresh ++ own))) :
    Holds (fresh.foldl Files.mergeKeyboard acc).1 base
        (deviceFiles (fresh.foldl Files.mergeKeyboard acc).2 ++ own) ∧
      (fresh.foldl Files.mergeKeyboard acc).2.map Prod.fst =
        mergeKeyboards (acc.2.map Prod.fst) (fresh.map Prod.fst) := by
  induction fresh generalizing acc with
  | nil => exact ⟨h, rfl⟩
  | cons kb fresh ih =>
      have hany : (acc.2.map Prod.fst).any (fun k => k.path = kb.1.path) =
          acc.2.any fun k => k.1.path = kb.1.path := by
        rw [List.any_map]
        rfl
      rw [List.foldl_cons, List.map_cons, mergeKeyboards, List.foldl_cons, hany]
      by_cases hknown : (acc.2.any fun k => k.1.path = kb.1.path) = true
      · rw [if_pos hknown, Files.mergeKeyboard, if_pos hknown]
        -- a known path: the fresh file is dropped, which closes it
        exact ih (_, acc.2) (h.perm List.perm_middle).closed
      · rw [if_neg hknown, Files.mergeKeyboard, if_neg hknown]
        have happend : Holds acc.1 base
            (deviceFiles (acc.2 ++ [kb]) ++ (deviceFiles fresh ++ own)) := by
          rw [deviceFiles, List.map_append, List.append_assoc]
          exact h
        obtain ⟨hholds, hmap⟩ := ih (acc.1, acc.2 ++ [kb]) happend
        refine ⟨hholds, hmap.trans ?_⟩
        rw [List.map_append]
        rfl

/-- A shell that could be started has the master open, and one that could not has left nothing. -/
theorem openPty_holds (h : Holds t base own) (a : SpawnAnswers) :
    (∃ t', Files.openPty t a = (t', none) ∧ Holds t' base own ∧
      ∀ shell cols rows, ∃ e, Pty.spawn shell cols rows a = .error e) ∨
    Files.openPty t a = (put t (lowest t) ⟨.master, false⟩, some (lowest t)) ∧
      ∀ shell cols rows, ∃ p, Pty.spawn shell cols rows a = .ok p := by
  obtain ⟨openpt, grantpt, unlockpt, ptsname, shellExists, child⟩ := a
  cases openpt with
  | error e => exact .inl ⟨t, rfl, h, fun _ _ _ => ⟨e, rfl⟩⟩
  | ok =>
      -- once the master is open, every error exit closes it
      have hclosed := h.transient ⟨.master, false⟩
      cases grantpt with
      | error e => exact .inl ⟨_, rfl, hclosed, fun _ _ _ => ⟨e, rfl⟩⟩
      | ok =>
          cases unlockpt with
          | error e => exact .inl ⟨_, rfl, hclosed, fun _ _ _ => ⟨e, rfl⟩⟩
          | ok =>
              cases ptsname with
              | error e => exact .inl ⟨_, rfl, hclosed, fun _ _ _ => ⟨e, rfl⟩⟩
              | ok =>
                  cases child with
                  | error e => exact .inl ⟨_, rfl, hclosed, fun _ _ _ => ⟨e, rfl⟩⟩
                  | ok => exact .inr ⟨rfl, fun _ _ _ => ⟨_, rfl⟩⟩

end

/-! ## The attached shell -/

/-- The refresh is the only phase that attaches a shell, by starting it, and the wait the only one
that drops it. -/
def State.attached (s : State) (e : Phase × Input) : Bool :=
  match e.1 with
  | .refresh =>
      if s.spawns e.2 then (Pty.spawn "/usr/bin/fish" 0 0 e.2.spawn).toOption.isSome
      else s.pty.isSome
  | .reap =>
      match e.2.tryWait with
      | .ok (some _) => false
      | _ => s.pty.isSome
  | _ => s.pty.isSome

/-- Whether a shell can be started depends on the kernel alone. -/
theorem spawn_isSome (shell shell' : String) (cols rows cols' rows' : UInt16) (a : SpawnAnswers) :
    (Pty.spawn shell cols rows a).toOption.isSome =
      (Pty.spawn shell' cols' rows' a).toOption.isSome := by
  rcases openPty_holds (holds_nothing ⟨[], 0⟩) a with ⟨-, -, -, hfail⟩ | ⟨-, hok⟩
  · obtain ⟨e, he⟩ := hfail shell cols rows
    obtain ⟨e', he'⟩ := hfail shell' cols' rows'
    rw [he, he']
    rfl
  · obtain ⟨p, hp⟩ := hok shell cols rows
    obtain ⟨p', hp'⟩ := hok shell' cols' rows'
    rw [hp, hp']
    rfl

/-- After a refresh a shell is attached where the model of the files says so. -/
theorem refreshPhase_pty {font : Font} {s s' : State} {i : Input}
    (h : s.refreshPhase font i = .ok s') : s'.pty.isSome = s.attached (.refresh, i) := by
  have hkept (hno : s.spawns i = false) : s.attached (.refresh, i) = s.pty.isSome := by
    show (if s.spawns i = true then _ else _) = _
    rw [hno]
    rfl
  have hstep := State.refreshPhase_step font s i
  rw [h] at hstep
  generalize hr' : (Except.ok s' : Except Fault State) = r at hstep
  cases hstep with
  | notDue hdue =>
      cases hr'
      exact (hkept (by simp [State.spawns, hdue])).symm
  | failed hdue hr =>
      cases hr'
      exact (hkept (by simp [State.spawns, hr])).symm
  | gone hdue hr =>
      cases hr'
      exact (hkept (by simp [State.spawns, hr])).symm
  | sameMode hdue hr hmode =>
      cases hr'
      exact (hkept (by simp [State.spawns, hr, hmode])).symm
  | newMode hdue hr hmode =>
      obtain ⟨t, pty, cols, rows, -, rfl, rfl⟩ := State.changeMode_eq hr'.symm
      show (State.sizedPty s.pty cols rows i.spawn).isSome = _
      cases hpty : s.pty with
      | some p =>
          rw [hkept (by simp [State.spawns, hr, hpty]), hpty]
          rfl
      | none =>
          have hyes : s.spawns i = true := by simp [State.spawns, hdue, hr, hmode, hpty]
          show _ = if s.spawns i = true then _ else _
          rw [if_pos hyes]
          exact spawn_isSome _ _ _ _ _ _ _

/-- After every phase a shell is attached where the model of the files says so. -/
theorem step_pty {font : Font} {s s' : State} {e : Phase × Input}
    (h : step font s e = .ok s') : s'.pty.isSome = s.attached e := by
  obtain ⟨phase, i⟩ := e
  cases phase with
  | refresh => exact refreshPhase_pty h
  | rescan =>
      cases h
      show (s.rescanPhase i).pty.isSome = s.pty.isSome
      unfold State.rescanPhase
      split <;> rfl
  | reap =>
      cases h
      show (s.reapPhase i).pty.isSome = _
      unfold State.reapPhase State.attached
      dsimp only
      cases i.tryWait with
      | error e => rfl
      | ok status => cases status <;> rfl
  | output =>
      show _ = s.pty.isSome
      cases State.outputPhase_step h <;> rfl
  | keys =>
      cases h
      refine State.keysPhase_inv (P := fun s' => s'.pty.isSome = s.pty.isSome) ?_ ?_ rfl i
      · intro s₁ d hs₁
        exact hs₁
      · intro s₁ time bytes hs₁
        unfold State.typeBytes
        split
        · exact hs₁
        · exact Option.isSome_map.trans hs₁
  | idle =>
      cases h
      show (s.idlePhase i).pty.isSome = s.pty.isSome
      unfold State.idlePhase
      split <;> rfl
  | draw => cases State.drawPhase_step h <;> rfl

/-! ## Every run -/

section

variable {base : Table OpenFile} {p : Process} {i : Input}

/-- Before the loop the card and the keyboards are open. -/
theorem start_accounted (base : Table OpenFile) (consoles : String → FontAnswers)
    (connectorId : UInt32) (kernel : Kernel) (dir : Option (List (Option Node)))
    (drmTime kbTime idleTime : Int) :
    (Process.start base consoles connectorId kernel dir drmTime kbTime idleTime).Accounted
      base := by
  have hcard := (holds_nothing base).opened (Files.stdFile .card)
  obtain ⟨hscan, hfound⟩ := scan_holds (loadFont_holds consoles Font.consoles hcard) dir
  refine ⟨?_, hfound, rfl, rfl⟩
  refine hscan.perm (List.perm_middle.trans ?_)
  rfl

/-- A phase that leaves the files alone. -/
theorem Process.Accounted.same {s' : State} (h : p.Accounted base)
    (hkeyboards : s'.keyboards = p.state.keyboards)
    (hpty : s'.pty.isSome = p.state.pty.isSome) :
    Process.Accounted base { state := s', files := p.files } where
  holds := h.holds
  keyboards_eq := h.keyboards_eq.trans hkeyboards.symm
  shell_eq := h.shell_eq.trans hpty.symm
  children_eq := h.children_eq

/-- A shell is started only where none is attached. -/
theorem State.pty_of_spawns {s : State} (h : s.spawns i = true) : s.pty = none := by
  unfold State.spawns at h
  split at h
  · simp only [Bool.and_eq_true, Option.isNone_iff_eq_none] at h
    exact h.2.2
  · simp at h

/-- A shell that is started is the only child, and one that fails leaves no file. -/
theorem Process.Accounted.spawn (h : p.Accounted base) (s' : State)
    (hspawns : p.state.spawns i = true) (hkeyboards : s'.keyboards = p.state.keyboards)
    (hpty : s'.pty.isSome = (Pty.spawn "/usr/bin/fish" 0 0 i.spawn).toOption.isSome) :
    Process.Accounted base { state := s', files := p.files.spawn i.spawn } := by
  -- no shell is attached, so there is no child left from an earlier one
  have hshell : p.files.shell = none := by
    rw [← Option.not_isSome_iff_eq_none, h.shell_eq, State.pty_of_spawns hspawns]
    exact Bool.false_ne_true
  have hchildren : p.files.children = [] := by rw [h.children_eq, hshell]; rfl
  unfold Files.spawn
  rcases openPty_holds h.holds i.spawn with ⟨t', heq, ht', hfail⟩ | ⟨heq, hok⟩
  · obtain ⟨e, he⟩ := hfail "/usr/bin/fish" 0 0
    rw [he] at hpty
    rw [heq]
    refine ⟨ht', h.keyboards_eq.trans hkeyboards.symm, ?_, h.children_eq⟩
    rw [hpty, hshell]
    rfl
  · obtain ⟨q, hq⟩ := hok "/usr/bin/fish" 0 0
    rw [hq] at hpty
    rw [heq]
    refine ⟨?_, h.keyboards_eq.trans hkeyboards.symm, hpty.symm, ?_⟩
    · refine (h.holds.opened ⟨.master, false⟩).perm ?_
      rw [Files.owned, hshell]
      exact (List.Perm.swap _ _ _).trans (List.perm_middle.symm.cons _)
    · show p.files.forks :: p.files.children = _
      rw [hchildren]
      rfl

/-- A rescan leaves the keyboards of the new list open, and no others. -/
theorem Process.Accounted.rescan {s' : State} (h : p.Accounted base)
    (hkeyboards : s'.keyboards = mergeKeyboards p.state.keyboards (scanKeyboards i.dir))
    (hpty : s'.pty.isSome = p.state.pty.isSome) :
    Process.Accounted base { state := s', files := p.files.rescan i.dir } := by
  obtain ⟨hscan, hfound⟩ := scan_holds h.holds i.dir
  -- the old keyboards in front, as `main` appends to them
  have hfresh : Holds (Files.scan p.files.table i.dir).1 base
      (deviceFiles p.files.keyboards ++ (deviceFiles (Files.scan p.files.table i.dir).2 ++
        ((p.files.card, Files.stdFile .card) :: shellFile p.files.shell))) := by
    refine hscan.perm (List.Perm.trans ?_ (List.perm_append_comm_assoc _ _ _))
    exact List.perm_middle.symm.append_left _
  obtain ⟨hmerge, hall⟩ := mergeKeyboards_holds _ (_, p.files.keyboards) hfresh
  refine ⟨hmerge.perm List.perm_middle, ?_, h.shell_eq.trans hpty.symm, h.children_eq⟩
  rw [hkeyboards, ← h.keyboards_eq, ← hfound]
  exact hall

theorem Files.reap_running (f : Files) {tryWait : Except IoError (Option Int)}
    (h : ∀ status, tryWait = .ok (some status) → False) : f.reap tryWait = f := by
  unfold Files.reap
  split
  · exact absurd rfl (h _)
  · rfl

/-- An exited shell is waited for, and its pty is closed. -/
theorem Process.Accounted.reap {s' : State} (h : p.Accounted base) {status : Int}
    (hkeyboards : s'.keyboards = p.state.keyboards) (hpty : s'.pty.isSome = false) :
    Process.Accounted base { state := s', files := p.files.reap (.ok (some status)) } := by
  unfold Files.reap
  cases hshell : p.files.shell with
  | none =>
      refine h.same hkeyboards ?_
      rw [hpty, ← h.shell_eq, hshell]
      rfl
  | some shell =>
      have hchildren := h.children_eq
      rw [hshell] at hchildren
      refine ⟨?_, h.keyboards_eq.trans hkeyboards.symm, hpty.symm, ?_⟩
      · -- the pty is the last of the owned files
        have hholds := h.holds
        rw [Files.owned, hshell] at hholds
        exact (hholds.perm ((List.perm_middle.cons _).trans (List.Perm.swap _ _ _))).closed
      · show p.files.children.erase shell.pid = []
        rw [hchildren]
        exact List.erase_cons_head _ _

/-- Every phase keeps account. -/
theorem Process.Accounted.step {font : Font} {p' : Process} {e : Phase × Input}
    (h : p.Accounted base) (hstep : Process.step font p e = .ok p') : p'.Accounted base := by
  obtain ⟨s', hs', hp'⟩ := of_bind_ok hstep
  cases hp'
  have hkeyboards := step_keyboards hs'
  have hpty := step_pty hs'
  obtain ⟨phase, i⟩ := e
  cases phase with
  | refresh =>
      change s'.pty.isSome = if p.state.spawns i = true then _ else _ at hpty
      show Process.Accounted base ⟨s', if p.state.spawns i = true then _ else _⟩
      by_cases hspawns : p.state.spawns i = true
      · rw [if_pos hspawns] at hpty ⊢
        exact h.spawn s' hspawns hkeyboards hpty
      · rw [if_neg hspawns] at hpty ⊢
        exact h.same hkeyboards hpty
  | rescan =>
      change s'.keyboards = (p.state.rescanPhase i).keyboards at hkeyboards
      unfold State.rescanPhase at hkeyboards
      show Process.Accounted base ⟨s', if _ then _ else _⟩
      split at hkeyboards
      · next hdue =>
          rw [if_pos hdue]
          exact h.rescan hkeyboards hpty
      · next hdue =>
          rw [if_neg hdue]
          exact h.same hkeyboards hpty
  | reap =>
      unfold State.attached at hpty
      show Process.Accounted base ⟨s', p.files.reap i.tryWait⟩
      dsimp only at hpty
      split at hpty
      · next status hwait =>
          rw [hwait]
          exact h.reap hkeyboards hpty
      · next hwait =>
          rw [Files.reap_running _ hwait]
          exact h.same hkeyboards hpty
  | _ => exact h.same hkeyboards hpty

end

/-- The process runs as the loop does: its files do not influence it. -/
theorem Process.run_state (font : Font) (p : Process) (es : List (Phase × Input)) :
    Process.state <$> run (Process.step font) p es = run (K1de.step font) p.state es := by
  refine run_refines Process.state (fun _ => True) (fun p e _ => ?_) (fun p e _ => ?_) p es trivial
  · unfold Process.step
    cases K1de.step font p.state e <;> rfl
  · cases Process.step font p e <;> trivial

/-- At every point of every run the files are accounted for. -/
theorem visits_accounted (font : Font) (base : Table OpenFile) (consoles : String → FontAnswers)
    (connectorId : UInt32) (kernel : Kernel) (dir : Option (List (Option Node)))
    (drmTime kbTime idleTime : Int) (es : List (Phase × Input)) :
    ∀ p ∈ visits (Process.step font)
        (Process.start base consoles connectorId kernel dir drmTime kbTime idleTime) es,
      p.1.Accounted base := by
  have hkeep : ∀ (p : Process) (e : Phase × Input) (p' : Process), p.Accounted base → True →
      Process.step font p e = .ok p' → p'.Accounted base :=
    fun p e p' hp _ hstep => hp.step hstep
  exact visits_inv hkeep _ es (start_accounted base consoles connectorId kernel dir _ _ _)
    fun _ _ => trivial

/-- No file is leaked and none is closed twice, whatever fails: at every point of every run of the
loop, the open files are the first ones, the card, the keyboards of the list and the pty of the
attached shell, no descriptor was closed that was not open, and that shell is the only child that
has not been waited for. -/
theorem descriptors_exact (font : Font) (base : Table OpenFile) (consoles : String → FontAnswers)
    (connectorId : UInt32) (kernel : Kernel) (dir : Option (List (Option Node)))
    (drmTime kbTime idleTime : Int) (es : List (Phase × Input)) :
    let start := Process.start base consoles connectorId kernel dir drmTime kbTime idleTime
    Process.state <$> run (Process.step font) start es =
        run (step font) (State.start connectorId kernel dir drmTime kbTime idleTime) es ∧
      ∀ p ∈ visits (Process.step font) start es, p.1.Accounted base :=
  ⟨Process.run_state font _ es, visits_accounted font base consoles connectorId kernel dir _ _ _ es⟩

end K1de
