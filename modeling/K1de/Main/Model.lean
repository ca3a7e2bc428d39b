import K1de.Input.Model
import K1de.Render.Model

/-! # The main loop

`main` and `pty.rs`. One iteration of the loop goes through seven phases, in the
order of the source: refresh the display, rescan the keyboards, drop a shell that
has exited, read the shell's output, read the keyboards, look at the idle timer,
draw.

What the outside world does during an iteration is the `Input`: the kernel's
answers, clock readings, what the shell and the keyboards have to say. Times are
in nanoseconds. A step is one phase of one iteration, so a run of the loop passes
through the state after every phase (`schedule`).
-/

namespace K1de

open Fallible

/-- `DRM_REFRESH_INTERVAL`, 500 ms. -/
def drmRefreshInterval : Int := 500000000

/-- `KEYBOARD_RESCAN_INTERVAL`, 2 s. -/
def keyboardRescanInterval : Int := 2000000000

/-- `IDLE_TIMEOUT`, 600 s. -/
def idleTimeout : Int := 600000000000

/-! ## The shell -/

/-- A shell behind a pty. -/
structure Pty where
  program : String
  /-- columns and rows, as last set with `TIOCSWINSZ` -/
  winsize : UInt16 × UInt16
  /-- what has been handed to `write_all` on the master -/
  written : List UInt8
deriving DecidableEq, Repr

/-- The calls of `Pty::spawn`. -/
structure SpawnAnswers where
  openpt : Except IoError Unit
  grantpt : Except IoError Unit
  unlockpt : Except IoError Unit
  ptsname : Except IoError Unit
  shellExists : Bool
  child : Except IoError Unit

namespace Pty

def resize (p : Pty) (cols rows : UInt16) : Pty := { p with winsize := (cols, rows) }

def spawn (shell : String) (cols rows : UInt16) (a : SpawnAnswers) : Except IoError Pty := do
  a.openpt
  a.grantpt
  a.unlockpt
  a.ptsname
  let program := if a.shellExists then shell else "/bin/sh"
  a.child
  return resize { program, winsize := (0, 0), written := [] } cols rows

/-- The bytes are handed to `write_all`. The code drops its error, so they need not all have
arrived. -/
def write (p : Pty) (bytes : List UInt8) : Pty := { p with written := p.written ++ bytes }

end Pty

/-! ## State and input -/

structure State where
  world : World
  mode : Option Mode
  term : Option Terminal
  pty : Option Pty
  decoder : Decoder
  keyboards : List Keyboard
  lastDrmRefresh : Int
  lastKbScan : Int
  idleSince : Int
  screensaving : Bool

/-- One iteration of the outside world. -/
structure Input where
  /-- the clock at the start of the iteration -/
  now : Int
  answers : Answers
  spawn : SpawnAnswers
  /-- what reading `/dev/input` gives -/
  dir : Option (List (Option Node))
  /-- what waiting for the shell without blocking gives: its exit status, if any -/
  tryWait : Except IoError (Option Int)
  /-- whether `poll` reports anything -/
  ready : Bool
  /-- what reading the pty gives, if there is something to read -/
  ptyRead : Option (Except IoError (List UInt8))
  /-- the same for each keyboard -/
  keyRead : Nat → Option (Option InputEvent)
  /-- the clock when that keyboard is handled -/
  keyTime : Nat → Int
  /-- the clock at the idle check -/
  idleNow : Int

namespace State

/-- The state before the first iteration, with the clock readings of the three
timers. -/
def start (connectorId : UInt32) (kernel : Kernel) (dir : Option (List (Option Node)))
    (drmTime kbTime idleTime : Int) : State :=
  { world := { drm := { connectorId, crtcId := 0, scanout := none }, kernel }
    mode := none
    term := none
    pty := none
    decoder := .new
    keyboards := scanKeyboards dir
    lastDrmRefresh := drmTime - drmRefreshInterval
    lastKbScan := kbTime
    idleSince := idleTime
    screensaving := false }

/-! ## Refreshing the display -/

/-- The terminal in the new size. -/
def sizedTerm (term : Option Terminal) (cols rows : Nat) : Except Fault Terminal :=
  match term with
  | some t => t.resize cols rows
  | none => Terminal.new cols rows

/-- The shell in the new size, or a new one. -/
def sizedPty (pty : Option Pty) (cols rows : Nat) (a : SpawnAnswers) : Option Pty :=
  match pty with
  | some p => some (p.resize (UInt16.ofNat cols) (UInt16.ofNat rows))
  | none => (Pty.spawn "/usr/bin/fish" (UInt16.ofNat cols) (UInt16.ofNat rows) a).toOption

/-- What follows a refresh that found another mode than the one in use. -/
def changeMode (font : Font) (s : State) (newMode : Mode) (a : SpawnAnswers) :
    Except Fault State := do
  let cols := max (newMode.width.toNat / font.width) 1
  let rows := max (newMode.height.toNat / font.height) 1
  let t ← sizedTerm s.term cols rows
  return { s with
    mode := some newMode
    term := some { t with dirty := true }
    pty := sizedPty s.pty cols rows a }

/-- Whether the display is refreshed in this iteration. -/
def RefreshDue (s : State) (i : Input) : Prop := i.now - s.lastDrmRefresh ≥ drmRefreshInterval

instance (s : State) (i : Input) : Decidable (s.RefreshDue i) :=
  inferInstanceAs (Decidable (_ ≥ _))

/-- What `drm.refresh()` returns in this iteration. -/
def refreshResult (s : State) (i : Input) : Except IoError (Option Mode) :=
  (Effect.exec (Drm.refresh i.answers) s.world).1

/-- The state right after `drm.refresh()` has returned. -/
def refreshed (s : State) (i : Input) : State :=
  { s with
    lastDrmRefresh := i.now
    world := (Effect.exec (Drm.refresh i.answers) s.world).2 }

def refreshPhase (font : Font) (s : State) (i : Input) : Except Fault State :=
  if s.RefreshDue i then
    match s.refreshResult i with
    | .ok (some newMode) =>
        -- terminal and shell are looked at only if the mode is another one
        if s.mode ≠ some newMode then changeMode font (s.refreshed i) newMode i.spawn
        else .ok (s.refreshed i)
    | .ok none => .ok { s.refreshed i with mode := none }
    | .error _ =>
        -- the mode stays, also where the refresh has taken the buffer down
        .ok (s.refreshed i)
  else .ok s

/-! ## Keyboards and shell -/

def rescanPhase (s : State) (i : Input) : State :=
  if i.now - s.lastKbScan ≥ keyboardRescanInterval then
    { s with
      lastKbScan := i.now
      keyboards := mergeKeyboards s.keyboards (scanKeyboards i.dir) }
  else s

/-- `try_wait_exited`: the shell is dropped; the next one is not started here. -/
def reapPhase (s : State) (i : Input) : State :=
  match i.tryWait with
  | .ok (some _) => { s with pty := none }
  | _ => s

/-- The output of the shell goes to the terminal. -/
def outputPhase (s : State) (i : Input) : Except Fault State :=
  if i.ready then
    match s.pty, i.ptyRead, s.term with
    | some _, some (.ok bytes), some t => do
        let t ← t.feed bytes
        return { s with term := some t }
    | _, _, _ => .ok s
  else .ok s

/-- The bytes of a key: they wake the display, or go to the shell. -/
def typeBytes (s : State) (time : Int) (bytes : List UInt8) : State :=
  if s.screensaving then
    { s with
      idleSince := time
      screensaving := false
      term := s.term.map fun t => { t with dirty := true } }
  else
    { s with
      idleSince := time
      pty := s.pty.map (Pty.write · bytes) }

/-- What follows the reading of a keyboard. An event that types nothing is skipped. -/
def handleEvent (s : State) (read : Option InputEvent) (time : Int) : State :=
  let s' := { s with decoder := (s.decoder.readEvent read).1 }
  match (s.decoder.readEvent read).2 with
  | none | some [] => s'
  | some bytes => s'.typeBytes time bytes

/-- The keyboard in slot `k`. -/
def readKeyboard (i : Input) (s : State) (k : Nat) : State :=
  match i.keyRead k with
  | none => s
  | some read => s.handleEvent read (i.keyTime k)

def keysPhase (s : State) (i : Input) : State :=
  if i.ready then (List.range s.keyboards.length).foldl (readKeyboard i) s else s

/-! ## Idling and drawing -/

def idlePhase (s : State) (i : Input) : State :=
  if s.screensaving = false ∧ i.idleNow - s.idleSince ≥ idleTimeout then
    { s with screensaving := true }
  else s

def drawPhase (font : Font) (s : State) : Except Fault State :=
  if s.screensaving then do
    let world ← renderScreensaver s.world font
    return { s with world }
  else
    match s.term with
    | none => .ok s
    | some t =>
        if t.dirty then do
          -- without a buffer this draws nothing, and the terminal stays dirty
          let (t, world) ← t.render s.world font
          return { s with term := some t, world }
        else .ok s

end State

/-! ## The loop -/

inductive Phase where
  | refresh
  | rescan
  | reap
  | output
  | keys
  | idle
  | draw
deriving DecidableEq, Repr

/-- The phases of an iteration, in order. -/
def Phase.all : List Phase := [.refresh, .rescan, .reap, .output, .keys, .idle, .draw]

/-- One phase of one iteration. -/
def step (font : Font) (s : State) (e : Phase × Input) : Except Fault State :=
  match e.1 with
  | .refresh => s.refreshPhase font e.2
  | .rescan => .ok (s.rescanPhase e.2)
  | .reap => .ok (s.reapPhase e.2)
  | .output => s.outputPhase e.2
  | .keys => .ok (s.keysPhase e.2)
  | .idle => .ok (s.idlePhase e.2)
  | .draw => s.drawPhase font

/-- The steps of a run: for every iteration all phases in order. -/
def schedule (inputs : List Input) : List (Phase × Input) :=
  inputs.flatMap fun i => Phase.all.map fun phase => (phase, i)

end K1de
