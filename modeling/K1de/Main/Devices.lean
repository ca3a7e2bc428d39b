import K1de.Lib.Queue
import K1de.Main.Console

/-! # The loop on a kernel

To the model of the loop an input says what every read gives. In the code a read is a call that
changes what the next one gives. So here the files have a kernel behind them, with a state of any
kind (`Devices`): `poll` looks at it once, and then every read that the loop makes changes it, the
shell's output first and the keyboards in order. Between two iterations anything may happen to
it. `poll` does not fail.

A run of the loop on such a kernel is a run of the loop, on the inputs that the reads make
(`Station.run_loop`). What the console is given in it are the key events and the output of each
iteration, in order (`iteration_keys`, `iteration_outputs`).
-/

namespace K1de

open Fallible

/-! ## The loop and the kernel -/

/-- The kernel behind the files. A keyboard is given by its slot. -/
structure Devices (δ : Type) where
  /-- whether `poll` reports output of the shell -/
  ptyReady : δ → Bool
  /-- whether it reports an event of this keyboard -/
  keyReady : δ → Nat → Bool
  readPty : δ → Except IoError (List UInt8) × δ
  readKey : δ → Nat → Option InputEvent × δ

structure Station (δ : Type) where
  loop : State
  dev : δ

/-- An iteration of the outside world: what happens in the kernel before `poll`, and all that is not
a read. Of `around`, what there is to read is not used. -/
structure Traffic (δ : Type) where
  around : Input
  move : δ → δ

variable {δ : Type}

/-- Whether `poll` reports anything. -/
def Devices.reports (D : Devices δ) (s : State) (d : δ) : Bool :=
  (s.pty.isSome && D.ptyReady d) || (List.range s.keyboards.length).any (D.keyReady d)

/-- The iteration up to `poll`. -/
def Traffic.untilPoll (font : Font) (t : Traffic δ) (s : State) : Except Fault State :=
  run (step font) s ([Phase.refresh, .rescan, .reap].map fun phase => (phase, t.around))

namespace Station

/-- The shell is read if it is there and was reported. -/
def readShell (D : Devices δ) (ready : Bool) (p : Station δ) : Except Fault (Station δ) :=
  match p.loop.pty with
  | none => .ok p
  | some _ =>
      if ready then
        match D.readPty p.dev, p.loop.term with
        | (.ok bytes, dev), some t => do
            let t ← t.feed bytes
            return { loop := { p.loop with term := some t }, dev }
        | (_, dev), _ => .ok { p with dev }
      else .ok p

/-- So is a keyboard. -/
def readKeyboard (D : Devices δ) (ready : Nat → Bool) (time : Nat → Int) (p : Station δ) (k : Nat) :
    Station δ :=
  if ready k then
    { loop := p.loop.handleEvent (D.readKey p.dev k).1 (time k), dev := (D.readKey p.dev k).2 }
  else p

/-- From `poll` to the last keyboard. What `poll` has reported is not looked at again. -/
def readFiles (D : Devices δ) (time : Nat → Int) (p : Station δ) : Except Fault (Station δ) :=
  if D.reports p.loop p.dev then do
    let p' ← p.readShell D (D.ptyReady p.dev)
    return (List.range p'.loop.keyboards.length).foldl (readKeyboard D (D.keyReady p.dev) time) p'
  else .ok p

/-- An iteration of the loop. -/
def step (D : Devices δ) (font : Font) (p : Station δ) (t : Traffic δ) :
    Except Fault (Station δ) := do
  let s ← t.untilPoll font p.loop
  let p' ← readFiles D t.around.keyTime { loop := s, dev := t.move p.dev }
  let s' ← run (K1de.step font) p'.loop ([Phase.idle, .draw].map fun phase => (phase, t.around))
  return { p' with loop := s' }

end Station

/-! ## The same as an input of the loop -/

namespace Devices

variable (D : Devices δ) (s : State) (d : δ)

/-- The kernel when the shell has been read; `s` and `d` are loop and kernel at `poll`. -/
def afterShell : δ := if s.pty.isSome && D.ptyReady d then (D.readPty d).2 else d

/-- The kernel when the keyboards in front of slot `k` have been read. -/
def before (k : Nat) : δ :=
  (List.range k).foldl (fun d' j => if D.keyReady d j then (D.readKey d' j).2 else d')
    (D.afterShell s d)

/-- The kernel when all is read. -/
def after : δ := if D.reports s d then D.before s d s.keyboards.length else d

/-- What the reads of an iteration give. -/
def input (around : Input) : Input :=
  { around with
    ready := D.reports s d
    ptyRead := if s.pty.isSome && D.ptyReady d then some (D.readPty d).1 else none
    keyRead := fun k => if D.keyReady d k then some (D.readKey (D.before s d k) k).1 else none }

/-- The next keyboard is read if it was reported, and finds the kernel as the reads before it have
left it. -/
theorem before_succ (k : Nat) :
    D.before s d (k + 1) =
      if D.keyReady d k then (D.readKey (D.before s d k) k).2 else D.before s d k := by
  unfold before
  rw [List.range_succ, List.foldl_append]
  rfl

/-- Reading the shell is the output phase. -/
theorem readShell_eq (around : Input) (hreports : D.reports s d = true) :
    Station.readShell D (D.ptyReady d) { loop := s, dev := d } =
      s.outputPhase (D.input s d around) >>= fun s' =>
        .ok { loop := s', dev := D.afterShell s d } := by
  have hready : (D.input s d around).ready = true := hreports
  have hread : (D.input s d around).ptyRead =
      if s.pty.isSome && D.ptyReady d then some (D.readPty d).1 else none := rfl
  unfold Station.readShell State.outputPhase afterShell
  rw [if_pos hready, hread]
  dsimp only
  cases hpty : s.pty with
  | none => rfl
  | some p =>
      rw [Option.isSome_some, Bool.true_and]
      -- an error of the read is dropped, and so are bytes without a terminal
      cases D.ptyReady d with
      | false => rfl
      | true =>
          rw [if_pos rfl, if_pos rfl, if_pos rfl]
          obtain ⟨read, d'⟩ := D.readPty d
          cases read with
          | error e => rfl
          | ok bytes =>
              cases hterm : s.term with
              | none => rfl
              | some t =>
                  dsimp only
                  cases t.feed bytes <;> rfl

/-- Reading the first `n` keyboards is what the loop does with their part of the input. -/
theorem readKeyboards_eq (around : Input) (s₁ : State) (n : Nat) :
    (List.range n).foldl (Station.readKeyboard D (D.keyReady d) around.keyTime)
        { loop := s₁, dev := D.afterShell s d } =
      { loop := (List.range n).foldl (State.readKeyboard (D.input s d around)) s₁
        dev := D.before s d n } := by
  induction n with
  | zero => rfl
  | succ n ih =>
      have hread : (D.input s d around).keyRead n =
          if D.keyReady d n then some (D.readKey (D.before s d n) n).1 else none := rfl
      rw [List.range_succ, List.foldl_append, List.foldl_append, ih, List.foldl_cons,
        List.foldl_nil, List.foldl_cons, List.foldl_nil, before_succ, Station.readKeyboard,
        State.readKeyboard, hread]
      cases D.keyReady d n <;> rfl

/-- Reading the files is the output phase and the keys phase. -/
theorem readFiles_eq (around : Input) :
    Station.readFiles D around.keyTime { loop := s, dev := d } =
      s.outputPhase (D.input s d around) >>= fun s' =>
        .ok { loop := s'.keysPhase (D.input s d around), dev := D.after s d } := by
  unfold Station.readFiles after
  dsimp only
  cases hreports : D.reports s d with
  | false =>
      have hready : ¬ (D.input s d around).ready = true := by
        show ¬ D.reports s d = true
        rw [hreports]
        exact Bool.false_ne_true
      rw [State.outputPhase, if_neg hready, ok_bind, State.keysPhase, if_neg hready]
      rfl
  | true =>
      have hready : (D.input s d around).ready = true := hreports
      rw [if_pos rfl, if_pos rfl, D.readShell_eq s d around hreports]
      cases hs' : s.outputPhase (D.input s d around) with
      | error f => rfl
      | ok s' =>
          rw [ok_bind, ok_bind, ok_bind, State.keysPhase, if_pos hready]
          dsimp only
          -- the shell's output changes no keyboard, so the slots are those that were polled
          rw [outputPhase_keyboards hs', D.readKeyboards_eq]
          rfl

end Devices

namespace Station

variable {D : Devices δ} {font : Font} {p p' : Station δ} {t : Traffic δ}

/-- The iteration as an input of the loop. -/
def input (D : Devices δ) (font : Font) (p : Station δ) (t : Traffic δ) : Input :=
  match t.untilPoll font p.loop with
  | .ok s => D.input s (t.move p.dev) t.around
  | .error _ => { t.around with ready := false }

/-- The inputs of a run. -/
def inputs (D : Devices δ) (font : Font) (p : Station δ) (ts : List (Traffic δ)) : List Input :=
  (visits (step D font) p ts).map fun v => v.1.input D font v.2

/-- An iteration that returns goes through a state at `poll`. -/
theorem step_cases (h : p.step D font t = .ok p') :
    ∃ s, t.untilPoll font p.loop = .ok s ∧ p'.dev = D.after s (t.move p.dev) ∧
      p.input D font t = D.input s (t.move p.dev) t.around ∧
      run (K1de.step font) s ([Phase.output, .keys, .idle, .draw].map fun phase =>
        (phase, D.input s (t.move p.dev) t.around)) = .ok p'.loop := by
  obtain ⟨s, hs, h⟩ := of_bind_ok h
  obtain ⟨p₁, hp₁, h⟩ := of_bind_ok h
  obtain ⟨s', hs', h⟩ := of_bind_ok h
  cases h
  rw [D.readFiles_eq] at hp₁
  obtain ⟨s₁, hs₁, hp₁⟩ := of_bind_ok hp₁
  cases hp₁
  refine ⟨s, hs, rfl, ?_, ?_⟩
  · unfold input
    rw [hs]
  · show s.outputPhase _ >>= _ = _
    rw [hs₁, ok_bind]
    exact hs'

/-- An iteration is all the phases of the loop, on the input that the reads make. -/
theorem step_loop (h : p.step D font t = .ok p') :
    run (K1de.step font) p.loop (Phase.all.map fun phase => (phase, p.input D font t)) =
      .ok p'.loop := by
  obtain ⟨s, hs, -, hinput, hrest⟩ := step_cases h
  -- the phases before `poll` do not look at what there is to read
  have hbefore : run (K1de.step font) p.loop
      ([Phase.refresh, .rescan, .reap].map fun phase => (phase, p.input D font t)) = .ok s := by
    rw [hinput]
    exact hs
  rw [show (Phase.all.map fun phase => (phase, p.input D font t)) =
    ([Phase.refresh, .rescan, .reap].map fun phase => (phase, p.input D font t)) ++
      ([Phase.output, .keys, .idle, .draw].map fun phase => (phase, p.input D font t)) from rfl,
    run_append, hbefore, ok_bind, hinput]
  exact hrest

/-- Every run on a kernel is a run of the loop. -/
theorem run_loop {ts : List (Traffic δ)} (h : run (step D font) p ts = .ok p') :
    run (K1de.step font) p.loop (schedule (p.inputs D font ts)) = .ok p'.loop := by
  rw [schedule, inputs, List.flatMap_map]
  exact run_emits Station.loop (fun p t => Phase.all.map fun phase => (phase, p.input D font t))
    (fun _ _ _ => step_loop) h

/-- The steps of that run are the phases of the iterations. -/
theorem visits_loop {ts : List (Traffic δ)} (h : run (step D font) p ts = .ok p') :
    visits (K1de.step font) p.loop (schedule (p.inputs D font ts)) =
      (visits (step D font) p ts).flatMap fun v => visits (K1de.step font) v.1.loop
        (Phase.all.map fun phase => (phase, v.1.input D font v.2)) := by
  rw [schedule, inputs, List.flatMap_map]
  exact visits_emits Station.loop (fun p t => Phase.all.map fun phase => (phase, p.input D font t))
    (fun _ _ _ => step_loop) h

end Station

/-! ## What the console is given -/

namespace Console.Event

def key? : Console.Event → Option InputEvent
  | .key ev => some ev
  | _ => none

def output? : Console.Event → Option (List UInt8)
  | .output bytes => some bytes
  | _ => none

end Console.Event

/-- The output in these events, put together. -/
def Console.outputs (es : List Console.Event) : List UInt8 :=
  es.flatMap fun e => e.output?.getD []

/-- The key events that are read in a phase, each with the slot of its keyboard. -/
def keysRead (s : State) (e : Phase × Input) : List (Nat × InputEvent) :=
  match e.1 with
  | .keys => (List.range s.keyboards.length).filterMap fun k => (e.2.event k).map (k, ·)
  | _ => []

/-- The key events of a run. -/
def keyLog (font : Font) (s : State) (es : List (Phase × Input)) : List (Nat × InputEvent) :=
  (visits (step font) s es).flatMap fun v => keysRead v.1 v.2

/-- Those of one keyboard. -/
def fromSlot (k : Nat) (log : List (Nat × InputEvent)) : List InputEvent :=
  log.filterMap fun x => if x.1 = k then some x.2 else none

/-- Where an event comes from: its phase, and what the phase has found. -/
def EmittedBy (s : State) (e : Phase × Input) : Console.Event → Prop
  | .display m a => e.1 = .refresh ∧ s.refreshResult e.2 = .ok (some m) ∧ a = e.2.spawn
  | .gone => e.1 = .refresh ∧ s.refreshResult e.2 = .ok none
  | .exited => e.1 = .reap ∧ ∃ status, e.2.tryWait = .ok (some status)
  | .output bytes => e.1 = .output ∧ e.2.output = some bytes
  | .key ev => e.1 = .keys ∧ ∃ k < s.keyboards.length, e.2.event k = some ev
  | .idle => e.1 = .idle

/-- Every event of the console comes from where its kind comes from. -/
theorem emittedBy_of_mem {s : State} {e : Phase × Input} {ev : Console.Event}
    (hev : ev ∈ emitted s e) : EmittedBy s e ev := by
  obtain ⟨phase, i⟩ := e
  unfold emitted at hev
  cases phase with
  | refresh =>
      dsimp only at hev
      split at hev
      · split at hev
        · next m hr =>
            rw [List.mem_singleton.mp hev]
            exact ⟨rfl, hr, rfl⟩
        · next hr =>
            rw [List.mem_singleton.mp hev]
            exact ⟨rfl, hr⟩
        · cases hev
      · cases hev
  | reap =>
      dsimp only at hev
      split at hev
      · next status hstatus =>
          rw [List.mem_singleton.mp hev]
          exact ⟨rfl, status, hstatus⟩
      · cases hev
  | output =>
      obtain ⟨bytes, hbytes, rfl⟩ := Option.map_eq_some_iff.mp (Option.mem_toList.mp hev)
      exact ⟨rfl, hbytes⟩
  | keys =>
      obtain ⟨key, hkey, rfl⟩ := List.mem_map.mp hev
      obtain ⟨k, hk, hread⟩ := List.mem_filterMap.mp hkey
      exact ⟨rfl, k, List.mem_range.mp hk, hread⟩
  | idle =>
      dsimp only at hev
      split at hev
      · rw [List.mem_singleton.mp hev]
        exact rfl
      · cases hev
  | rescan | draw => cases hev

/-- The key events of a phase are those that the console is given in it. -/
theorem emitted_keys (s : State) (e : Phase × Input) :
    (emitted s e).filterMap Console.Event.key? = (keysRead s e).map Prod.snd := by
  by_cases hphase : e.1 = .keys
  · obtain ⟨phase, i⟩ := e
    cases hphase
    show List.filterMap _ (List.map _ _) = List.map _ (List.filterMap _ _)
    have hkey : Console.Event.key? ∘ Console.Event.key = some := rfl
    rw [List.filterMap_map, hkey, List.filterMap_some, List.map_filterMap]
    congr 1
    funext k
    cases i.event k <;> rfl
  · have hnone : keysRead s e = [] := by
      unfold keysRead
      split
      · next h => exact absurd h hphase
      · rfl
    rw [hnone, List.map_nil, List.filterMap_eq_nil_iff]
    intro ev hev
    cases ev with
    | key key => exact absurd (emittedBy_of_mem hev).1 hphase
    | _ => rfl

/-- The key events of a run are those that the console is given in it. -/
theorem history_keys (font : Font) (s : State) (es : List (Phase × Input)) :
    (history font s es).filterMap Console.Event.key? = (keyLog font s es).map Prod.snd := by
  unfold history keyLog
  rw [List.filterMap_flatMap, List.map_flatMap]
  exact List.flatMap_congr fun v _ => emitted_keys v.1 v.2

/-- Only the output phase has output. -/
theorem emitted_outputs (s : State) (e : Phase × Input) :
    Console.outputs (emitted s e) = if e.1 = .output then e.2.output.getD [] else [] := by
  split
  · next hphase =>
      obtain ⟨phase, i⟩ := e
      cases hphase
      show Console.outputs (i.output.map Console.Event.output).toList = _
      cases i.output with
      | none => rfl
      | some bytes => exact List.append_nil bytes
  · next hphase =>
      refine List.flatMap_eq_nil_iff.mpr ?_
      intro ev hev
      cases ev with
      | output bytes => exact absurd (emittedBy_of_mem hev).1 hphase
      | _ => rfl

/-! ## One iteration -/

section

variable {font : Font} {s s₁ s' : State} {i : Input}
  (h₁ : run (step font) s ([Phase.refresh, .rescan, .reap].map fun phase => (phase, i)) = .ok s₁)
  (h₂ : run (step font) s₁ ([Phase.output, .keys, .idle, .draw].map fun phase => (phase, i)) =
    .ok s')

include h₁ h₂

/-- The steps of an iteration from `poll` on, in front of them those up to `poll`. When the
keyboards are read, they are the ones that were polled. -/
theorem visits_iteration :
    ∃ s₂ s₃ s₄, s₂.keyboards = s₁.keyboards ∧
      visits (step font) s (Phase.all.map fun phase => (phase, i)) =
        visits (step font) s ([Phase.refresh, .rescan, .reap].map fun phase => (phase, i)) ++
          [(s₁, .output, i), (s₂, .keys, i), (s₃, .idle, i), (s₄, .draw, i)] := by
  -- one state per phase
  obtain ⟨s₂, hs₂, h₂⟩ := of_bind_ok h₂
  obtain ⟨s₃, hs₃, h₃⟩ := of_bind_ok h₂
  obtain ⟨s₄, hs₄, h₄⟩ := of_bind_ok h₃
  obtain ⟨s₅, hs₅, -⟩ := of_bind_ok h₄
  refine ⟨s₂, s₃, s₄, outputPhase_keyboards hs₂, ?_⟩
  have hrest : visits (step font) s₁
      ([Phase.output, .keys, .idle, .draw].map fun phase => (phase, i)) =
      [(s₁, .output, i), (s₂, .keys, i), (s₃, .idle, i), (s₄, .draw, i)] := by
    rw [List.map_cons, visits_cons_ok hs₂, List.map_cons, visits_cons_ok hs₃, List.map_cons,
      visits_cons_ok hs₄, List.map_cons, visits_cons_ok hs₅]
    rfl
  rw [← hrest, ← visits_append h₁]
  rfl

/-- One slot after the other is read. -/
theorem iteration_keys :
    keyLog font s (Phase.all.map fun phase => (phase, i)) =
      (List.range s₁.keyboards.length).filterMap fun k => (i.event k).map (k, ·) := by
  obtain ⟨s₂, s₃, s₄, hkeyboards, hvisits⟩ := visits_iteration h₁ h₂
  have hbefore : ∀ v ∈ visits (step font) s
      ([Phase.refresh, .rescan, .reap].map fun phase => (phase, i)), keysRead v.1 v.2 = [] := by
    intro v hv
    obtain ⟨phase, hphase, heq⟩ := List.mem_map.mp (mem_of_mem_visits hv)
    rw [← heq]
    cases phase with
    | keys => exact absurd hphase (by decide)
    | _ => rfl
  rw [keyLog, hvisits, List.flatMap_append, List.flatMap_eq_nil_iff.mpr hbefore, List.nil_append]
  show [] ++ (keysRead s₂ (.keys, i) ++ ([] ++ ([] ++ []))) = _
  rw [List.append_nil, List.append_nil, List.append_nil, List.nil_append, ← hkeyboards]
  rfl

/-- The output is read once. -/
theorem iteration_outputs :
    Console.outputs (history font s (Phase.all.map fun phase => (phase, i))) =
      i.output.getD [] := by
  obtain ⟨s₂, s₃, s₄, -, hvisits⟩ := visits_iteration h₁ h₂
  have hbefore : ∀ v ∈ visits (step font) s
      ([Phase.refresh, .rescan, .reap].map fun phase => (phase, i)),
      Console.outputs (emitted v.1 v.2) = [] := by
    intro v hv
    obtain ⟨phase, hphase, heq⟩ := List.mem_map.mp (mem_of_mem_visits hv)
    rw [emitted_outputs, ← heq]
    cases phase with
    | output => exact absurd hphase (by decide)
    | _ => rfl
  rw [Console.outputs, history, List.flatMap_assoc, hvisits, List.flatMap_append]
  rw [show (visits (step font) s
    ([Phase.refresh, .rescan, .reap].map fun phase => (phase, i))).flatMap
      (fun v => (emitted v.1 v.2).flatMap fun e => e.output?.getD []) = [] from
    List.flatMap_eq_nil_iff.mpr hbefore, List.nil_append]
  show Console.outputs (emitted s₁ (.output, i)) ++ (Console.outputs (emitted s₂ (.keys, i)) ++
    (Console.outputs (emitted s₃ (.idle, i)) ++
      (Console.outputs (emitted s₄ (.draw, i)) ++ []))) = _
  simp only [emitted_outputs, reduceCtorEq, if_true, if_false, List.append_nil]

end

end K1de
