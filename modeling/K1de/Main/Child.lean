import K1de.Main.Process

/-! # Between fork and exec

In the child of `Pty::spawn`, `open_and_become_controlling_tty` opens the slave and copies it onto
the three standard descriptors. `becomeTty_lookup` says that this works for every table: also where
the program was started without standard descriptors, so that the slave is opened as one of them
and is copied onto itself.

`shell_inherits` is what a new shell finds open in any run. The master of its own pty is among it.

In the child there is also the pipe through which `Command` reports a failed `exec`. It does not
survive `exec`, so the table of the child is taken up to what `exec` closes (`Forked`).
-/

namespace K1de

open Fallible FdTable

/-- The calls between `fork` and `exec`. -/
structure ChildAnswers where
  setsid : Except IoError Unit
  openSlave : Except IoError Unit
  dup : Nat → Except IoError Unit

/-- `EBADF`. -/
def ebadf : IoError := .os 9

def dup2OrDie (a : ChildAnswers) (old new : Nat) (t : Table OpenFile) :
    Except IoError (Table OpenFile) := do
  a.dup new
  match dup2 t old new with
  | some t => return t
  | none => throw ebadf

def openAndBecomeControllingTty (a : ChildAnswers) (t : Table OpenFile) :
    Except IoError (Table OpenFile) := do
  a.setsid
  a.openSlave
  -- what `TIOCSCTTY` returns is not looked at
  let slaveFd := lowest t
  let t := put t slaveFd ⟨.slave, false⟩
  let t ← dup2OrDie a slaveFd 0 t
  let t ← dup2OrDie a slaveFd 1 t
  let t ← dup2OrDie a slaveFd 2 t
  return if slaveFd > 2 then close t slaveFd else t

/-- A `dup2` that does not end the child puts the file at the new descriptor. -/
theorem dup2OrDie_lookup {a : ChildAnswers} {old new : Nat} {t t' : Table OpenFile}
    {x : OpenFile} (hold : lookup t old = some ⟨x, false⟩)
    (h : dup2OrDie a old new t = .ok t') (n : Nat) :
    lookup t' n = if n = new then some ⟨x, false⟩ else lookup t n := by
  obtain ⟨-, -, h⟩ := of_bind_ok h
  obtain ⟨t₁, hdup, hlookup⟩ := lookup_dup2 hold new
  rw [hdup] at h
  cases h
  exact hlookup n

/-- The slave is at the three standard descriptors and nowhere else, and the others are as they
were, wherever the slave was opened. -/
theorem becomeTty_lookup {a : ChildAnswers} {t t' : Table OpenFile}
    (h : openAndBecomeControllingTty a t = .ok t') (fd : Nat) :
    lookup t' fd = if fd ≤ 2 then some ⟨.slave, false⟩ else lookup t fd := by
  obtain ⟨-, -, h⟩ := of_bind_ok h
  obtain ⟨-, -, h⟩ := of_bind_ok h
  obtain ⟨t₀, hdup₀, h⟩ := of_bind_ok h
  obtain ⟨t₁, hdup₁, h⟩ := of_bind_ok h
  obtain ⟨t₂, hdup₂, h⟩ := of_bind_ok h
  cases h
  have hput := lookup_put t (lowest t) (⟨.slave, false⟩ : Entry OpenFile)
  have hold := (hput (lowest t)).trans (if_pos rfl)
  -- a copy does not touch the original, also where it is copied onto itself
  have h₀ := dup2OrDie_lookup hold hdup₀
  have hold₀ : lookup t₀ (lowest t) = some ⟨.slave, false⟩ := by rw [h₀, hold, ite_self]
  have h₁ := dup2OrDie_lookup hold₀ hdup₁
  have hold₁ : lookup t₁ (lowest t) = some ⟨.slave, false⟩ := by rw [h₁, hold₀, ite_self]
  have h₂ := dup2OrDie_lookup hold₁ hdup₂
  have hall : ∀ n, lookup t₂ n =
      if n ≤ 2 ∨ n = lowest t then some ⟨.slave, false⟩ else lookup t n := by
    intro n
    rw [h₂, h₁, h₀, hput]
    split_ifs <;> first | rfl | omega
  split
  · -- opened above the standard descriptors, the slave is closed there again
    next hhigh =>
      rw [lookup_close, hall]
      split_ifs with heq hstd hstd <;> first | rfl | omega | exact (heq ▸ lookup_lowest t).symm
  · next hlow =>
      rw [hall]
      split_ifs <;> first | rfl | omega

/-- The table of the child of a `fork`, up to what `exec` closes. -/
def Forked (parent child : Table OpenFile) : Prop :=
  ∀ fd e, e.cloexec = false → (lookup child fd = some e ↔ lookup parent fd = some e)

/-- Of what the program has opened, only the master survives `exec`. -/
theorem mem_owned_surviving {f : Files} {shell : Shell} (hshell : f.shell = some shell) {fd : Nat}
    {e : Entry OpenFile} (he : e.cloexec = false) :
    (fd, e) ∈ f.owned ↔ fd = shell.fd ∧ e = ⟨.master, false⟩ := by
  have hcard : e ≠ Files.stdFile .card := by
    rintro rfl
    cases he
  have hdevice : (fd, e) ∉ deviceFiles f.keyboards := by
    intro hmem
    obtain ⟨k, -, hk⟩ := List.mem_map.mp hmem
    cases hk
    cases he
  rw [Files.owned, hshell, List.mem_cons, List.mem_append, Prod.mk.injEq]
  simp [hcard, hdevice, shellFile]

/-- What a shell finds open: the slave at the three standard descriptors, the master of its own pty,
and what the program itself was given above them and keeps over `exec`. No keyboard, no card, and
no other shell's pty. -/
theorem shell_inherits (font : Font) (base : Table OpenFile) (consoles : String → FontAnswers)
    (connectorId : UInt32) (kernel : Kernel) (dir : Option (List (Option Node)))
    (drmTime kbTime idleTime : Int) (es : List (Phase × Input)) (p : Process) (i : Input)
    (hvisit : (p, (Phase.refresh, i)) ∈ visits (Process.step font)
      (Process.start base consoles connectorId kernel dir drmTime kbTime idleTime) es)
    (hspawns : p.state.spawns i = true) (shell : Shell)
    (hshell : (p.files.spawn i.spawn).shell = some shell) (child t : Table OpenFile)
    (hfork : Forked (p.files.spawn i.spawn).table child) (a : ChildAnswers)
    (htty : openAndBecomeControllingTty a child = .ok t) (fd : Nat) (e : Entry OpenFile) :
    lookup (exec t) fd = some e ↔
      fd ≤ 2 ∧ e = ⟨.slave, false⟩ ∨
      2 < fd ∧ (fd = shell.fd ∧ e = ⟨.master, false⟩ ∨
        lookup base fd = some e ∧ e.cloexec = false) := by
  have hp := visits_accounted font base consoles connectorId kernel dir _ _ _ es _ hvisit
  -- the state after the spawn does not matter here
  have hholds := (hp.spawn { p.state with
    pty := (Pty.spawn "/usr/bin/fish" 0 0 i.spawn).toOption } hspawns rfl rfl).holds
  rw [lookup_exec, becomeTty_lookup htty]
  by_cases hstd : fd ≤ 2
  · rw [if_pos hstd]
    constructor
    · rintro ⟨he, -⟩
      exact .inl ⟨hstd, (Option.some.inj he).symm⟩
    · rintro (⟨-, rfl⟩ | ⟨hhigh, -⟩)
      · exact ⟨rfl, rfl⟩
      · omega
  · have hhigh : 2 < fd := by omega
    rw [if_neg hstd]
    -- `exec` closes the rest
    by_cases he : e.cloexec = false
    · rw [hfork fd e he, hholds.lookup_iff, mem_owned_surviving hshell he]
      simp [hstd, hhigh, he]
    · constructor
      · exact fun h => absurd h.2 he
      · rintro (⟨hlow, -⟩ | ⟨-, ⟨-, rfl⟩ | ⟨-, he'⟩⟩)
        · exact absurd hlow hstd
        · exact absurd rfl he
        · exact absurd he' he

/-- The program with its standard descriptors and without consoles. -/
def stdio : Table OpenFile where
  slots := [0, 1, 2].map fun id => some ⟨.inherited id, false⟩
  strayCloses := 0

def noConsoles : String → FontAnswers := fun _ =>
  { file := .error (.os 2), ret := 0, errno := 0, width := 0, height := 0, glyphs := [] }

def dotProcess : Process :=
  Process.start stdio noConsoles 1 { ledger := Ledger.empty, log := [] } none 0 0 0

/-- A child in which nothing fails. -/
def obliging : ChildAnswers where
  setsid := .ok ()
  openSlave := .ok ()
  dup := fun _ => .ok ()

/-- The card is at 3 and the master at 4. -/
theorem shell_inherits_stdio :
    ∃ t, openAndBecomeControllingTty obliging
        (dotProcess.files.spawn (quiet 0 (display 1 dotBuffer) (.ok none)).spawn).table = .ok t ∧
      ∀ fd e, lookup (exec t) fd = some e ↔
        fd ≤ 2 ∧ e = ⟨.slave, false⟩ ∨
        2 < fd ∧ (fd = 4 ∧ e = ⟨.master, false⟩ ∨
          lookup stdio fd = some e ∧ e.cloexec = false) := by
  obtain ⟨t, ht⟩ : ∃ t, openAndBecomeControllingTty obliging
      (dotProcess.files.spawn (quiet 0 (display 1 dotBuffer) (.ok none)).spawn).table = .ok t :=
    ⟨_, rfl⟩
  refine ⟨t, ht, ?_⟩
  exact shell_inherits dotFont stdio noConsoles 1 _ none 0 0 0
    (schedule [quiet 0 (display 1 dotBuffer) (.ok none)]) dotProcess _ (mem_visits_head _ _ _)
    (by decide +kernel) ⟨4, 0⟩ rfl _ t (fun _ _ _ => Iff.rfl) obliging ht

end K1de
