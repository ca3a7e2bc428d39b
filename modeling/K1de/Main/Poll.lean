import K1de.Main.Spec

/-! # Polling

The model of the loop says of each file whether there was something to read. The code asks `poll`,
with one entry for the shell, if there is one, and one for each keyboard, and finds the answers
again by their place: entry 0 for the shell, `kb_start + i` for keyboard `i`.

`turns_eq` connects the two. Whatever files are polled and whatever the kernel answers, no index is
out of range, the shell and every keyboard are read if and only if the kernel says so of that very
file, and so every run of the loop with `poll` in it is a run of the loop.

The kernel answers for a descriptor. Nothing is assumed about the number that `poll` returns, which
need not be the number of files with events.
-/

namespace K1de

open Fallible

structure PollFd where
  fd : Int32
  events : Int16
  revents : Int16
deriving DecidableEq, Repr

def pollIn : Int16 := 1

/-- The descriptors of the open files. -/
structure Descriptors where
  master : Pty → Int32
  keyboard : Keyboard → Int32

/-- What `poll` returns, and the events it reports of each descriptor. -/
structure PollAnswer where
  n : Int32
  revents : Int32 → Int16

/-- What reading the files gives, where they are read, and the clock at each keyboard. -/
structure Readings where
  pty : Except IoError (List UInt8)
  key : Nat → Option InputEvent
  keyTime : Nat → Int

/-- One iteration of the outside world, as the code sees it. -/
structure Turn where
  now : Int
  answers : Answers
  spawn : SpawnAnswers
  dir : Option (List (Option Node))
  tryWait : Except IoError (Option Int)
  descriptors : Descriptors
  poll : PollAnswer
  readings : Readings
  idleNow : Int

/-! ## The code -/

/-- An entry before the call. -/
def pollEntry (fd : Int32) : PollFd := { fd, events := pollIn, revents := 0 }

/-- The entries in front of the keyboards. -/
def ptyEntries (d : Descriptors) (pty : Option Pty) : List PollFd :=
  match pty with
  | some p => [pollEntry (d.master p)]
  | none => []

def pollFds (d : Descriptors) (s : State) : List PollFd :=
  ptyEntries d s.pty ++ s.keyboards.map fun kb => pollEntry (d.keyboard kb)

/-- The kernel fills in the events. -/
def poll (a : PollAnswer) (fds : List PollFd) : List PollFd :=
  fds.map fun p => { p with revents := a.revents p.fd }

namespace State

/-- The shell's part: the output that is read goes to the terminal. -/
def dispatchPty (fds : List PollFd) (x : Readings) (s : State) : Except Fault State :=
  match s.pty with
  | none => .ok s
  | some _ =>
      if fds = [] then .ok s
      else do
        let p ← Vec.index fds 0
        if p.revents &&& pollIn ≠ 0 then
          match x.pty with
          | .error _ => return s
          | .ok bytes =>
              if bytes.length > 0 then
                match s.term with
                | none => return s
                | some t => do
                    let t ← t.feed bytes
                    return { s with term := some t }
              else return s
        else return s

/-- One iteration of the loop over the keyboards. -/
def dispatchKeyboard (fds : List PollFd) (kbStart : Nat) (x : Readings) (s : State) (i : Nat) :
    Except Fault State := do
  let p ← Vec.index fds (kbStart + i)
  if p.revents &&& pollIn = 0 then return s
  else return s.handleEvent (x.key i) (x.keyTime i)

/-- From `poll` to the last keyboard. -/
def dispatch (s : State) (d : Descriptors) (a : PollAnswer) (x : Readings) : Except Fault State :=
  let kbStart := (ptyEntries d s.pty).length
  let fds := poll a (pollFds d s)
  if a.n > 0 then do
    let s ← s.dispatchPty fds x
    run (dispatchKeyboard fds kbStart x) s (List.range s.keyboards.length)
  else .ok s

end State

/-- What the phases before and after `poll` see of an iteration. -/
def Turn.around (t : Turn) : Input :=
  { now := t.now
    answers := t.answers
    spawn := t.spawn
    dir := t.dir
    tryWait := t.tryWait
    ready := false
    ptyRead := none
    keyRead := fun _ => none
    keyTime := t.readings.keyTime
    idleNow := t.idleNow }

namespace State

/-- An iteration up to `poll`. -/
def untilPoll (font : Font) (s : State) (t : Turn) : Except Fault State := do
  let s ← s.refreshPhase font t.around
  return (s.rescanPhase t.around).reapPhase t.around

/-- An iteration of the loop. -/
def turn (font : Font) (s : State) (t : Turn) : Except Fault State := do
  let s ← s.untilPoll font t
  let s ← s.dispatch t.descriptors t.poll t.readings
  (s.idlePhase t.around).drawPhase font

end State

/-! ## The same as an input of the loop -/

/-- Whether the kernel reports something to read. -/
def PollAnswer.readable (a : PollAnswer) (fd : Int32) : Bool := a.revents fd &&& pollIn ≠ 0

/-- What the iteration is to the loop, where `s` is the state at `poll`: each file is read if its
own descriptor is readable. -/
def Turn.input (t : Turn) (s : State) : Input :=
  { t.around with
    ready := t.poll.n > 0
    ptyRead := s.pty.bind fun p =>
      if t.poll.readable (t.descriptors.master p) then some t.readings.pty else none
    keyRead := fun k => s.keyboards[k]?.bind fun kb =>
      if t.poll.readable (t.descriptors.keyboard kb) then some (t.readings.key k) else none }

/-- The input of an iteration that starts in `s`. -/
def polled (font : Font) (s : State) (t : Turn) : Input :=
  match s.untilPoll font t with
  | .ok s => t.input s
  | .error _ => t.around

section

variable (s : State) (t : Turn)

/-- The entry of the shell is the first one. -/
theorem poll_pty {p : Pty} (hp : s.pty = some p) :
    Vec.index (poll t.poll (pollFds t.descriptors s)) 0 =
      .ok { pollEntry (t.descriptors.master p) with
        revents := t.poll.revents (t.descriptors.master p) } := by
  apply Vec.index_ok
  rw [poll, pollFds, hp]
  rfl

/-- The entry of a keyboard is where the code looks for it. -/
theorem poll_keyboard {k : Nat} {kb : Keyboard} (hk : s.keyboards[k]? = some kb) :
    Vec.index (poll t.poll (pollFds t.descriptors s))
        ((ptyEntries t.descriptors s.pty).length + k) =
      .ok { pollEntry (t.descriptors.keyboard kb) with
        revents := t.poll.revents (t.descriptors.keyboard kb) } := by
  apply Vec.index_ok
  rw [poll, pollFds, List.getElem?_map, List.getElem?_append_right (Nat.le_add_right _ _),
    Nat.add_sub_cancel_left, List.getElem?_map, hk]
  rfl

/-- The shell is read when its own entry says so, which is the output phase. -/
theorem dispatchPty_eq (hn : t.poll.n > 0) :
    s.dispatchPty (poll t.poll (pollFds t.descriptors s)) t.readings =
      s.outputPhase (t.input s) := by
  unfold State.dispatchPty State.outputPhase
  rw [if_pos (show (t.input s).ready = true from decide_eq_true hn)]
  cases hp : s.pty with
  | none => rfl
  | some p =>
      -- with a shell there is an entry for it, so the test for an empty list does not matter
      have hne : poll t.poll (pollFds t.descriptors s) ≠ [] := by
        rw [poll, pollFds, hp]
        exact List.cons_ne_nil _ _
      have hread : (t.input s).ptyRead =
          if t.poll.readable (t.descriptors.master p) then some t.readings.pty else none := by
        show s.pty.bind _ = _
        rw [hp]
        rfl
      dsimp only
      rw [if_neg hne, poll_pty s t hp, ok_bind, hread]
      by_cases hr : t.poll.revents (t.descriptors.master p) &&& pollIn ≠ 0
      · rw [if_pos hr, if_pos (show t.poll.readable _ = true from decide_eq_true hr)]
        cases t.readings.pty with
        | error e => rfl
        | ok bytes =>
            cases hterm : s.term with
            | none => exact ite_self _
            | some t =>
                dsimp only
                cases bytes with
                | nil =>
                    -- nothing is fed, and the terminal stays as it is
                    show Except.ok s = Except.ok { s with term := some t, pty := some p }
                    rw [← hterm, ← hp]
                | cons b bytes => rfl
      · rw [if_neg hr, if_neg (by simpa [PollAnswer.readable] using hr)]
        rfl

/-- One keyboard. The list of keyboards is the one that was polled, the rest of the state is that
after the keyboards before it. -/
theorem dispatchKeyboard_eq {k : Nat} (hk : k < s.keyboards.length) (s₁ : State) :
    s₁.dispatchKeyboard (poll t.poll (pollFds t.descriptors s))
        (ptyEntries t.descriptors s.pty).length t.readings k =
      .ok (State.readKeyboard (t.input s) s₁ k) := by
  have hget : s.keyboards[k]? = some s.keyboards[k] := List.getElem?_eq_getElem hk
  have hread : (t.input s).keyRead k =
      if t.poll.readable (t.descriptors.keyboard s.keyboards[k]) then some (t.readings.key k)
      else none := by
    show s.keyboards[k]?.bind _ = _
    rw [hget]
    rfl
  unfold State.dispatchKeyboard State.readKeyboard
  rw [poll_keyboard s t hget, ok_bind, hread]
  by_cases hr : t.poll.revents (t.descriptors.keyboard s.keyboards[k]) &&& pollIn = 0
  · rw [if_pos hr, if_neg (by simpa [PollAnswer.readable] using hr)]
    rfl
  · rw [if_neg hr, if_pos (show t.poll.readable _ = true from decide_eq_true hr)]
    rfl

/-- So the loop over the keyboards is that of the keys phase, and never fails. -/
theorem dispatchKeyboards_eq (ks : List Nat) (hks : ∀ k ∈ ks, k < s.keyboards.length)
    (s₁ : State) :
    run (State.dispatchKeyboard (poll t.poll (pollFds t.descriptors s))
        (ptyEntries t.descriptors s.pty).length t.readings) s₁ ks =
      .ok (ks.foldl (State.readKeyboard (t.input s)) s₁) := by
  induction ks generalizing s₁ with
  | nil => rfl
  | cons k ks ih =>
      rw [run_cons, dispatchKeyboard_eq s t (hks k List.mem_cons_self), ok_bind, List.foldl_cons]
      exact ih (fun k' hk' => hks k' (List.mem_cons_of_mem _ hk')) _

/-- The two phases that read the files. -/
theorem dispatch_eq :
    s.dispatch t.descriptors t.poll t.readings =
      s.outputPhase (t.input s) >>= fun s' => .ok (s'.keysPhase (t.input s)) := by
  unfold State.dispatch
  by_cases hn : t.poll.n > 0
  · dsimp only
    rw [if_pos hn, dispatchPty_eq s t hn]
    cases hs : s.outputPhase (t.input s) with
    | error f => rfl
    | ok s₁ =>
        -- the entries were made before the output was read, which leaves the keyboards alone
        rw [ok_bind, ok_bind, outputPhase_keyboards hs, dispatchKeyboards_eq s t _ fun k hk =>
          List.mem_range.mp hk, State.keysPhase,
          if_pos (show (t.input s).ready = true from decide_eq_true hn), outputPhase_keyboards hs]
  · have hready : ¬(t.input s).ready = true := by
      show ¬decide (t.poll.n > 0) = true
      simpa using hn
    rw [if_neg hn, State.outputPhase, if_neg hready, ok_bind, State.keysPhase, if_neg hready]

/-- An iteration with `poll` in it runs all the phases, on the input that `poll` makes of it. -/
theorem turn_eq (font : Font) :
    s.turn font t = run (step font) s (Phase.all.map fun phase => (phase, polled font s t)) := by
  -- the phases before `poll` do not look at what there is to read
  have hphases : ∀ i : Input, (∃ s₁, i = t.input s₁) ∨ i = t.around →
      run (step font) s ([Phase.refresh, .rescan, .reap].map fun phase => (phase, i)) =
        s.untilPoll font t := by
    rintro i (⟨s₁, rfl⟩ | rfl) <;> rfl
  have hsplit : ∀ i : Input, (Phase.all.map fun phase => (phase, i)) =
      ([Phase.refresh, .rescan, .reap].map fun phase => (phase, i)) ++
        [(.output, i), (.keys, i), (.idle, i), (.draw, i)] := fun i => rfl
  unfold State.turn polled
  cases hs : s.untilPoll font t with
  | error f =>
      rw [hsplit, run_append, hphases _ (.inr rfl), hs]
      rfl
  | ok s₁ =>
      rw [hsplit, run_append, hphases _ (.inl ⟨s₁, rfl⟩), hs, ok_bind, ok_bind, dispatch_eq]
      show _ = s₁.outputPhase (t.input s₁) >>= _
      cases s₁.outputPhase (t.input s₁) with
      | error f => rfl
      | ok s₂ =>
          rw [ok_bind, ok_bind, ok_bind]
          show _ = ((s₂.keysPhase (t.input s₁)).idlePhase t.around).drawPhase font >>= _
          cases ((s₂.keysPhase (t.input s₁)).idlePhase t.around).drawPhase font <;> rfl

end

/-- Every run of the loop with `poll` in it is the run of the loop on the inputs that `poll` makes
of its iterations, faults included: finding the answers by their place never reads another file's
answer and never leaves the list. -/
theorem turns_eq (font : Font) (s : State) (turns : List Turn) :
    run (State.turn font) s turns =
      run (step font) s (schedule
        ((visits (State.turn font) s turns).map fun p => polled font p.1 p.2)) := by
  rw [run_expand _ (fun s t => turn_eq s t font), schedule, List.flatMap_map]

end K1de
