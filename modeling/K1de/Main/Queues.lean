import K1de.Main.Devices
import K1de.Main.Geometry
import K1de.Main.Keyboards
import K1de.Terminal.Tokens

/-! # The queues behind the files

What becomes of the things to read, if the kernel behind the files (`Devices`) keeps them in order
until they are read:

* `key_events_delivered`: if it keeps the events of each keyboard in a queue, the key events that
  the console has been given are those of the queues, in order, with none left out and none
  twice, and an event waits at most as many iterations as its place in the queue.
* `shell_output_shown`: if it keeps the output of the shell in order, the terminal shows what the
  shell has printed up to some byte, and that is at least one byte further in every iteration, as
  long as the shell runs and the display keeps its size.

What the kernel drops before it is read, as it does with the events of a keyboard that nobody reads
for long, is not in its queue.
-/

namespace K1de

open Fallible

variable {δ : Type}

/-! ## The keyboards -/

/-- The kernel keeps the events of each keyboard in a queue. It reports the keyboards whose queue is
not empty, and a read takes the first event of its keyboard and touches no other. -/
structure Devices.Fifo (D : Devices δ) (queue : δ → Nat → List InputEvent) : Prop where
  ready_iff : ∀ d k, D.keyReady d k = true ↔ queue d k ≠ []
  takes : ∀ d k ev rest, queue d k = ev :: rest →
    (D.readKey d k).1 = some ev ∧ queue (D.readKey d k).2 k = rest
  others : ∀ d j k, j ≠ k → queue (D.readKey d j).2 k = queue d k
  pty : ∀ d k, queue (D.readPty d).2 k = queue d k

namespace Devices.Fifo

variable {D : Devices δ} {queue : δ → Nat → List InputEvent} (h : D.Fifo queue) (s : State) (d : δ)

include h

/-- The keyboards that have been read lack their first event, if there was any. -/
theorem queue_before (n k : Nat) :
    queue (D.before s d n) k = if k < n then (queue d k).tail else queue d k := by
  induction n with
  | zero =>
      show queue (D.afterShell s d) k = queue d k
      unfold Devices.afterShell
      split
      · exact h.pty d k
      · rfl
  | succ n ih =>
      rw [Devices.before_succ]
      by_cases hk : k = n
      · -- the keyboard that is read now has the queue it had at `poll`
        subst hk
        rw [if_neg (Nat.lt_irrefl k)] at ih
        rw [if_pos (Nat.lt_succ_self k)]
        cases hq : queue d k with
        | nil =>
            have hready : ¬ D.keyReady d k = true := fun hr => (h.ready_iff d k).mp hr hq
            rw [if_neg hready, ih, hq]
            rfl
        | cons ev rest =>
            have hready : D.keyReady d k = true :=
              (h.ready_iff d k).mpr (hq ▸ List.cons_ne_nil ev rest)
            rw [if_pos hready, (h.takes _ k ev rest (ih.trans hq)).2]
            rfl
      · have hother : queue (if D.keyReady d n then (D.readKey (D.before s d n) n).2
            else D.before s d n) k = queue (D.before s d n) k := by
          split
          · exact h.others _ n k (Ne.symm hk)
          · rfl
        have hiff : k < n + 1 ↔ k < n := by omega
        rw [hother, ih]
        simp only [hiff]

/-- After an iteration every open keyboard lacks its first event. -/
theorem queue_after (k : Nat) :
    queue (D.after s d) k =
      if k < s.keyboards.length then (queue d k).tail else queue d k := by
  unfold Devices.after
  cases hreports : D.reports s d with
  | true => exact h.queue_before s d _ k
  | false =>
      rw [if_neg Bool.false_ne_true]
      split
      · next hk =>
          -- nothing was reported, so nothing was there
          have hnot : ¬ D.keyReady d k = true :=
            List.any_eq_false.mp (Bool.or_eq_false_iff.mp hreports).2 k (List.mem_range.mpr hk)
          have hnil : queue d k = [] := by
            by_contra hne
            exact hnot ((h.ready_iff d k).mpr hne)
          rw [hnil]
          rfl
      · rfl

/-- What the loop reads from an open keyboard is the first event of its queue. -/
theorem event_eq (around : Input) {k : Nat} (hk : k < s.keyboards.length) :
    (D.input s d around).event k = (queue d k).head? := by
  have hread : (D.input s d around).keyRead k =
      if D.keyReady d k then some (D.readKey (D.before s d k) k).1 else none := rfl
  unfold Input.event
  cases hq : queue d k with
  | nil =>
      have hready : ¬ D.keyReady d k = true := fun hr => (h.ready_iff d k).mp hr hq
      rw [hread, if_neg hready]
      exact ite_self none
  | cons ev rest =>
      have hready : D.keyReady d k = true :=
        (h.ready_iff d k).mpr (hq ▸ List.cons_ne_nil ev rest)
      have hreports : (D.input s d around).ready = true :=
        Bool.or_eq_true_iff.mpr (.inr (List.any_eq_true.mpr ⟨k, List.mem_range.mpr hk, hready⟩))
      have hqueue : queue (D.before s d k) k = ev :: rest := by
        rw [h.queue_before, if_neg (Nat.lt_irrefl k), hq]
      rw [if_pos hreports, hread, if_pos hready, (h.takes _ k ev rest hqueue).1]
      rfl

end Devices.Fifo

/-- Of a list with one entry for each slot, the entry of slot `k`. -/
theorem fromSlot_range (f : Nat → Option InputEvent) (n k : Nat) :
    fromSlot k ((List.range n).filterMap fun j => (f j).map (j, ·)) =
      if k < n then (f k).toList else [] := by
  unfold fromSlot
  induction n with
  | zero => rfl
  | succ n ih =>
      rw [List.range_succ, List.filterMap_append, List.filterMap_append, ih]
      by_cases hk : n = k
      · subst hk
        rw [if_neg (Nat.lt_irrefl n), if_pos (Nat.lt_succ_self n), List.nil_append]
        cases hf : f n <;> simp [hf]
      · have hiff : k < n + 1 ↔ k < n := by omega
        cases hf : f n <;> simp [hf, hk, hiff]

namespace Station

variable {D : Devices δ} {queue : δ → Nat → List InputEvent} (hqueue : D.Fifo queue) {font : Font}
  {p p' : Station δ} {t : Traffic δ} (k : Nat)

/-- The events of one keyboard in an iteration. -/
def served (D : Devices δ) (font : Font) (k : Nat) (p : Station δ) (t : Traffic δ) :
    List InputEvent :=
  fromSlot k (keyLog font p.loop (Phase.all.map fun phase => (phase, p.input D font t)))

/-- The events of one keyboard in a run are those of its iterations. -/
theorem fromSlot_run {ts : List (Traffic δ)} (h : run (step D font) p ts = .ok p') :
    fromSlot k (keyLog font p.loop (schedule (p.inputs D font ts))) =
      (visits (step D font) p ts).flatMap fun v => v.1.served D font k v.2 := by
  rw [keyLog, visits_loop h, List.flatMap_assoc, fromSlot, List.filterMap_flatMap]
  rfl

/-- What is read from a keyboard in an iteration is the event of its slot, if it is open at
`poll`. -/
theorem served_eq {s : State} (hs : t.untilPoll font p.loop = .ok s) {s' : State}
    (hinput : p.input D font t = D.input s (t.move p.dev) t.around)
    (hrest : run (K1de.step font) s ([Phase.output, .keys, .idle, .draw].map fun phase =>
      (phase, D.input s (t.move p.dev) t.around)) = .ok s') :
    p.served D font k t =
      if k < s.keyboards.length then
        ((D.input s (t.move p.dev) t.around).event k).toList else [] := by
  have hs' : run (K1de.step font) p.loop ([Phase.refresh, .rescan, .reap].map fun phase =>
      (phase, D.input s (t.move p.dev) t.around)) = .ok s := hs
  rw [served, hinput, iteration_keys hs' hrest, fromSlot_range]

include hqueue

/-- What is read comes off the front of the queue, what enters goes behind its end. -/
theorem keys_conserve {entered : List InputEvent} (h : p.step D font t = .ok p')
    (hentered : ∀ d, queue (t.move d) k = queue d k ++ entered) :
    queue p.dev k ++ entered = p.served D font k t ++ queue p'.dev k := by
  obtain ⟨s, hs, hdev, hinput, hrest⟩ := step_cases h
  rw [served_eq k hs hinput hrest, hdev, hqueue.queue_after, ← hentered]
  split
  · next hk =>
      rw [hqueue.event_eq s _ _ hk]
      cases queue (t.move p.dev) k <;> rfl
  · rfl

/-- Every open keyboard on which something waits is read, in every iteration. -/
theorem keys_served {entered : List InputEvent} (h : p.step D font t = .ok p')
    (hentered : ∀ d, queue (t.move d) k = queue d k ++ entered)
    (hk : k < p.loop.keyboards.length) (hwaits : queue p.dev k ≠ []) :
    p.served D font k t ≠ [] := by
  obtain ⟨s, hs, -, hinput, hrest⟩ := step_cases h
  -- a rescan before `poll` may have added keyboards, and has removed none
  have hopen : k < s.keyboards.length := hk.trans_le (keyboards_grow hs).length_le
  rw [served_eq k hs hinput hrest, if_pos hopen, hqueue.event_eq s _ _ hopen, hentered]
  cases hq : queue p.dev k with
  | nil => exact absurd hq hwaits
  | cons ev rest => exact List.cons_ne_nil ev []

omit hqueue in
/-- An open keyboard stays open. -/
theorem keyboards_kept (h : p.step D font t = .ok p') (hk : k < p.loop.keyboards.length) :
    k < p'.loop.keyboards.length :=
  hk.trans_le (keyboards_grow (step_loop h)).length_le

end Station

/-- On a kernel that keeps the events of each keyboard in a queue: in every run, the console is what
it has made of its history, the key events in the history are those that were read, and of each
keyboard these and what waits at the end are what waited at the start and what has come, in this
order. The first `n` events that wait on an open keyboard are read within `n` iterations, whatever
the other keyboards and the shell do. -/
theorem key_events_delivered (font : Font) (D : Devices δ) (queue : δ → Nat → List InputEvent)
    (hqueue : D.Fifo queue) (p p' : Station δ) (ts : List (Traffic δ))
    (entered : Traffic δ → Nat → List InputEvent)
    (hentered : ∀ t ∈ ts, ∀ d k, queue (t.move d) k = queue d k ++ entered t k)
    (hrun : run (Station.step D font) p ts = .ok p') :
    let es := schedule (p.inputs D font ts)
    run (Console.step font) p.loop.console (history font p.loop es) = .ok p'.loop.console ∧
      (history font p.loop es).filterMap Console.Event.key? =
        (keyLog font p.loop es).map Prod.snd ∧
      ∀ k, queue p.dev k ++ ts.flatMap (entered · k) =
          fromSlot k (keyLog font p.loop es) ++ queue p'.dev k ∧
        (k < p.loop.keyboards.length → ∀ waiting, waiting <+: queue p.dev k →
          waiting.length ≤ ts.length → waiting <+: fromSlot k (keyLog font p.loop es)) := by
  intro es
  have hconsole := run_console (Station.run_loop hrun)
  refine ⟨hconsole, history_keys font p.loop es, fun k => ?_⟩
  rw [Station.fromSlot_run k hrun]
  -- what an iteration needs: the kernel appends, and the keyboard is open
  have hgood : ∀ v ∈ visits (Station.step D font) p ts,
      ∀ d, queue (v.2.move d) k = queue d k ++ entered v.2 k :=
    fun v hv d => hentered v.2 (mem_of_mem_visits hv) d k
  refine ⟨?_, fun hk waiting hwaiting hlen => ?_⟩
  · have hstep : ∀ (p : Station δ) (t : Traffic δ) (p' : Station δ),
        (∀ d, queue (t.move d) k = queue d k ++ entered t k) → p.step D font t = .ok p' →
        queue p.dev k ++ entered t k = p.served D font k t ++ queue p'.dev k :=
      fun _ _ _ hentered h => Station.keys_conserve hqueue k h hentered
    rw [← flatMap_visits hrun (entered · k)]
    exact Queue.run_conserves hstep hgood hrun
  · have hkeep : ∀ (p : Station δ) (t : Traffic δ) (p' : Station δ), k < p.loop.keyboards.length →
        True → p.step D font t = .ok p' → k < p'.loop.keyboards.length :=
      fun _ _ _ hk _ h => Station.keyboards_kept k h hk
    have hopen := visits_inv hkeep p ts hk fun _ _ => trivial
    have hstep : ∀ (p : Station δ) (t : Traffic δ) (p' : Station δ),
        k < p.loop.keyboards.length ∧ (∀ d, queue (t.move d) k = queue d k ++ entered t k) →
        p.step D font t = .ok p' →
        queue p.dev k ++ entered t k = p.served D font k t ++ queue p'.dev k :=
      fun _ _ _ hgood h => Station.keys_conserve hqueue k h hgood.2
    have hserve : ∀ (p : Station δ) (t : Traffic δ) (p' : Station δ),
        k < p.loop.keyboards.length ∧ (∀ d, queue (t.move d) k = queue d k ++ entered t k) →
        p.step D font t = .ok p' → queue p.dev k ≠ [] → p.served D font k t ≠ [] :=
      fun _ _ _ hgood h => Station.keys_served hqueue k h hgood.2 hgood.1
    exact Queue.run_serves hstep hserve (fun v hv => ⟨hopen v hv, hgood v hv⟩) hrun hwaiting hlen

/-- A kernel that keeps all that it is given. -/
structure Backlog where
  shell : List UInt8
  keys : Nat → List InputEvent

/-- A read of the shell's output has room for 4096 bytes. -/
def backlogDevices : Devices Backlog where
  ptyReady q := !q.shell.isEmpty
  keyReady q k := !(q.keys k).isEmpty
  readPty q := (.ok (q.shell.take 4096), { q with shell := q.shell.drop 4096 })
  readKey q k := ((q.keys k).head?, { q with keys := Function.update q.keys k (q.keys k).tail })

theorem backlog_fifo : backlogDevices.Fifo Backlog.keys where
  ready_iff d k := by
    show (!(d.keys k).isEmpty) = true ↔ _
    rw [Bool.not_eq_true', List.isEmpty_eq_false_iff]
  takes d k ev rest hq := by
    show (d.keys k).head? = some ev ∧ Function.update d.keys k (d.keys k).tail k = rest
    rw [Function.update_self, hq]
    exact ⟨rfl, rfl⟩
  others d j k hjk := Function.update_of_ne (Ne.symm hjk) _ _
  pty _ _ := rfl

/-- The key `a` goes down. -/
def pressA : InputEvent := ⟨evKey, 30, 1⟩

/-- And up again. -/
def releaseA : InputEvent := ⟨evKey, 30, 0⟩

/-- A loop with one keyboard, on which a key was pressed and released. -/
def tapped : Station Backlog :=
  { loop := keyboardStart
    dev := { shell := [], keys := fun k => if k = 0 then [pressA, releaseA] else [] } }

/-- An iteration in which the shell prints two characters and every keyboard has a key pressed. -/
def chatter : Traffic Backlog :=
  { around := quiet 0 (display 1 dotBuffer) (.ok none)
    move := fun q => { shell := q.shell ++ [0x61, 0x62], keys := fun k => q.keys k ++ [pressA] } }

theorem run_chatter :
    ∃ p, run (Station.step backlogDevices dotFont) tapped [chatter, chatter] = .ok p := by
  have hrun : (do
      let p ← run (Station.step backlogDevices dotFont) tapped [chatter, chatter]
      return p.dev.shell) = .ok [] := by
    decide +kernel
  obtain ⟨p, hp, -⟩ := of_bind_ok hrun
  exact ⟨p, hp⟩

/-- In two iterations the first two events have been read. -/
theorem key_events_delivered_tapped :
    [pressA, releaseA] <+: fromSlot 0 (keyLog dotFont keyboardStart
      (schedule (tapped.inputs backlogDevices dotFont [chatter, chatter]))) := by
  obtain ⟨p, hp⟩ := run_chatter
  have hentered : ∀ t ∈ [chatter, chatter], ∀ d k,
      Backlog.keys (t.move d) k = Backlog.keys d k ++ [pressA] := by
    intro t ht d k
    rcases List.mem_pair.mp ht with rfl | rfl <;> rfl
  obtain ⟨-, -, hkeys⟩ := key_events_delivered dotFont backlogDevices Backlog.keys backlog_fifo
    tapped p [chatter, chatter] (fun _ _ => [pressA]) hentered hp
  exact (hkeys 0).2 (by decide) [pressA, releaseA] List.prefix_rfl le_rfl

/-! ## The shell -/

namespace Console

variable {font : Font} {c c' : Console}

/-- A shell that does not exit stays. -/
theorem step_attached {e : Event} (hshell : c.shell.isSome = true) (hstays : e ≠ .exited)
    (h : step font c e = .ok c') : c'.shell.isSome = true := by
  cases e with
  | display m a =>
      rw [step] at h
      split at h
      · cases h
        exact hshell
      · obtain ⟨t, -, hc'⟩ := of_bind_ok h
        cases hc'
        obtain ⟨p, hp⟩ := Option.isSome_iff_exists.mp hshell
        rw [hp]
        rfl
  | output bytes =>
      rw [step, print] at h
      split at h
      · obtain ⟨t, -, hc'⟩ := of_bind_ok h
        cases hc'
        exact hshell
      · cases h
        exact hshell
  | key ev =>
      cases h
      unfold press
      split_ifs
      · exact hshell
      · exact Option.isSome_map.trans hshell
      · exact hshell
  | exited => exact absurd rfl hstays
  | gone | idle =>
      cases h
      exact hshell

theorem run_attached {es : List Event} (hshell : c.shell.isSome = true)
    (hstays : ∀ e ∈ es, e ≠ .exited) (h : run (step font) c es = .ok c') :
    c'.shell.isSome = true := by
  have hkeep : ∀ (c : Console) (e : Event) (c' : Console), c.shell.isSome = true →
      e ≠ .exited → step font c e = .ok c' → c'.shell.isSome = true :=
    fun _ _ _ hshell hstays h => step_attached hshell hstays h
  exact run_keeps (fun e : Event => e ≠ .exited) hkeep hshell hstays h

/-- What an event does to the terminal behind an attached shell, on a display that keeps its size:
it is fed the output. -/
theorem step_prints {e : Event} {t : Terminal} (ht : t.Inv) (hshell : c.shell.isSome = true)
    (hterm : c.term = some t.clean) (hsize : ∀ m a, e = .display m a → FitsMode font t m)
    (h : step font c e = .ok c') :
    ∃ t', t.feed (e.output?.getD []) = .ok t' ∧ c'.term = some t'.clean ∧
      Terminal.Keeps t t' := by
  have hrefl : Terminal.Keeps t t := ⟨ht, rfl, rfl⟩
  cases e with
  | display m a =>
      rw [step] at h
      split at h
      · cases h
        exact ⟨t, rfl, hterm, hrefl⟩
      · -- a resize to the size that the terminal has
        obtain ⟨hcols, hrows⟩ := hsize m a rfl
        obtain ⟨t₁, ht₁, hc'⟩ := of_bind_ok h
        cases hc'
        have hsame : State.sizedTerm c.term (max (m.width.toNat / font.width) 1)
            (max (m.height.toNat / font.height) 1) = .ok t.clean := by
          rw [hterm]
          refine if_pos ⟨?_, ?_⟩
          · exact (Nat.max_comm _ _).trans hcols.symm
          · exact (Nat.max_comm _ _).trans hrows.symm
        cases hsame.symm.trans ht₁
        exact ⟨t, rfl, rfl, hrefl⟩
  | output bytes =>
      obtain ⟨p, hp⟩ := Option.isSome_iff_exists.mp hshell
      rw [step, print, hp, hterm] at h
      obtain ⟨t₁, ht₁, hc'⟩ := of_bind_ok h
      cases hc'
      obtain ⟨t', ht', hclean⟩ := exists_ok_of_clean_eq (Terminal.feed_clean t bytes).symm ht₁
      have hkeeps := Terminal.feed_keeps ht bytes
      rw [ht'] at hkeeps
      exact ⟨t', ht', by rw [hclean], hkeeps⟩
  | key ev =>
      cases h
      refine ⟨t, rfl, ?_, hrefl⟩
      unfold press
      split_ifs <;> exact hterm
  | gone | exited | idle =>
      cases h
      exact ⟨t, rfl, hterm, hrefl⟩

/-- In a run the terminal is fed the output of all its events. -/
theorem run_prints {es : List Event} {t : Terminal} (ht : t.Inv) (hshell : c.shell.isSome = true)
    (hterm : c.term = some t.clean) (hstays : ∀ e ∈ es, e ≠ .exited)
    (hsize : ∀ m a, .display m a ∈ es → FitsMode font t m) (h : run (step font) c es = .ok c') :
    ∃ t', t.feed (outputs es) = .ok t' ∧ c'.term = some t'.clean := by
  induction es generalizing c t with
  | nil =>
      cases h
      exact ⟨t, rfl, hterm⟩
  | cons e es ih =>
      obtain ⟨c₁, hc₁, hrest⟩ := of_bind_ok h
      have hshell₁ := step_attached hshell (hstays e List.mem_cons_self) hc₁
      obtain ⟨t₁, ht₁, hterm₁, hkeeps⟩ :=
        step_prints ht hshell hterm (fun m a he => hsize m a (he ▸ List.mem_cons_self)) hc₁
      -- feeding does not resize, so the later displays fit the new terminal as well
      have hsize₁ : ∀ m a, .display m a ∈ es → FitsMode font t₁ m := by
        intro m a hmem
        obtain ⟨hcols, hrows⟩ := hsize m a (List.mem_cons_of_mem e hmem)
        exact ⟨hkeeps.cols_eq.trans hcols, hkeeps.rows_eq.trans hrows⟩
      obtain ⟨t', ht', hterm'⟩ := ih hkeeps.inv hshell₁ hterm₁
        (fun e' he' => hstays e' (List.mem_cons_of_mem e he')) hsize₁ hrest
      refine ⟨t', ?_, hterm'⟩
      rw [outputs, List.flatMap_cons, Terminal.feed_append, ht₁, ok_bind]
      exact ht'

end Console

/-- While waiting for the shell gives no exit status, the console is not told that it has exited. -/
theorem history_stays {font : Font} {s : State} {es : List (Phase × Input)}
    (hstays : ∀ e ∈ es, ∀ status, e.2.tryWait ≠ .ok (some status)) :
    ∀ ev ∈ history font s es, ev ≠ .exited := by
  rintro ev hev rfl
  obtain ⟨v, hv, hev⟩ := List.mem_flatMap.mp hev
  obtain ⟨-, status, hstatus⟩ := emittedBy_of_mem hev
  exact hstays _ (mem_of_mem_visits hv) status hstatus

/-- So an attached shell stays attached. -/
theorem pty_stays {font : Font} {s s' : State} {es : List (Phase × Input)}
    (hpty : s.pty.isSome = true) (hstays : ∀ e ∈ es, ∀ status, e.2.tryWait ≠ .ok (some status))
    (h : run (step font) s es = .ok s') : s'.pty.isSome = true := by
  have hconsole := run_console h
  exact Console.run_attached hpty (history_stays hstays) hconsole

/-- The kernel keeps the output of the shell in order. It reports output if there is some, and a
read takes some bytes from its beginning. -/
structure Devices.Stream (D : Devices δ) (unread : δ → List UInt8) : Prop where
  ready_iff : ∀ d, D.ptyReady d = true ↔ unread d ≠ []
  takes : ∀ d, unread d ≠ [] → ∃ bytes, bytes ≠ [] ∧ (D.readPty d).1 = .ok bytes ∧
    unread d = bytes ++ unread (D.readPty d).2
  keys : ∀ d k, unread (D.readKey d k).2 = unread d

namespace Devices.Stream

variable {D : Devices δ} {unread : δ → List UInt8} (h : D.Stream unread) (s : State) (d : δ)

include h

/-- Reading keyboards takes nothing from the shell. -/
theorem unread_before (n : Nat) : unread (D.before s d n) = unread (D.afterShell s d) := by
  induction n with
  | zero => rfl
  | succ n ih =>
      rw [Devices.before_succ]
      split
      · rw [h.keys, ih]
      · exact ih

/-- What an attached shell has to say comes off the front, and is not nothing if there is any. -/
theorem output_eq (hpty : s.pty.isSome = true) (around : Input) :
    unread d = ((D.input s d around).output).getD [] ++ unread (D.after s d) ∧
      (unread d ≠ [] → ((D.input s d around).output).getD [] ≠ []) := by
  have hread : (D.input s d around).ptyRead =
      if s.pty.isSome && D.ptyReady d then some (D.readPty d).1 else none := rfl
  by_cases hempty : unread d = []
  · -- nothing waits: the shell is not reported, and not read
    have hnot : D.ptyReady d = false :=
      Bool.eq_false_iff.mpr fun hready => (h.ready_iff d).mp hready hempty
    rw [hpty, hnot] at hread
    have hnone : (D.input s d around).output = none := by
      unfold Input.output
      rw [hread]
      exact ite_self none
    have hafter : unread (D.after s d) = unread d := by
      unfold Devices.after
      split
      · rw [h.unread_before, Devices.afterShell, hpty, hnot]
        rfl
      · rfl
    rw [hnone, hafter]
    exact ⟨rfl, fun hne => absurd hempty hne⟩
  · -- something waits: `poll` reports it, and the read takes it from the front
    have hready : D.ptyReady d = true := (h.ready_iff d).mpr hempty
    have hreports : D.reports s d = true :=
      Bool.or_eq_true_iff.mpr (.inl (by rw [hpty, hready]; rfl))
    obtain ⟨bytes, hbytes, htake, hunread⟩ := h.takes d hempty
    rw [hpty, hready, htake] at hread
    have hsome : (D.input s d around).output = some bytes := by
      unfold Input.output
      rw [if_pos (show (D.input s d around).ready = true from hreports), hread]
      rfl
    have hafter : unread (D.after s d) = unread (D.readPty d).2 := by
      rw [Devices.after, if_pos hreports, h.unread_before, Devices.afterShell, hpty, hready]
      rfl
    rw [hsome, hafter]
    exact ⟨hunread, fun _ => hbytes⟩

end Devices.Stream

namespace Station

variable {D : Devices δ} {unread : δ → List UInt8} (hunread : D.Stream unread) {font : Font}
  {p p' : Station δ} {t : Traffic δ}

theorem input_tryWait (D : Devices δ) (font : Font) (p : Station δ) (t : Traffic δ) :
    (p.input D font t).tryWait = t.around.tryWait := by
  unfold input
  split <;> rfl

/-- The output in an iteration. -/
def printed (D : Devices δ) (font : Font) (p : Station δ) (t : Traffic δ) : List UInt8 :=
  Console.outputs (history font p.loop (Phase.all.map fun phase => (phase, p.input D font t)))

/-- The output of a run is that of its iterations. -/
theorem outputs_run {ts : List (Traffic δ)} (h : run (step D font) p ts = .ok p') :
    Console.outputs (history font p.loop (schedule (p.inputs D font ts))) =
      (visits (step D font) p ts).flatMap fun v => v.1.printed D font v.2 := by
  rw [history, visits_loop h, List.flatMap_assoc, Console.outputs, List.flatMap_assoc]
  rfl

/-- The shell does not exit in this iteration. -/
def Stays (t : Traffic δ) : Prop := ∀ status, t.around.tryWait ≠ .ok (some status)

/-- A shell that does not exit in the iteration is attached after it. -/
theorem pty_kept (h : p.step D font t = .ok p') (hpty : p.loop.pty.isSome = true)
    (hstays : Stays t) : p'.loop.pty.isSome = true := by
  refine pty_stays hpty ?_ (step_loop h)
  intro e he
  obtain ⟨phase, -, rfl⟩ := List.mem_map.mp he
  exact input_tryWait D font p t ▸ hstays

include hunread

/-- What is read comes off the front of what waits, and is not nothing if anything waits. -/
theorem output_conserve {more : List UInt8} (h : p.step D font t = .ok p')
    (hpty : p.loop.pty.isSome = true) (hstays : Stays t)
    (hmore : ∀ d, unread (t.move d) = unread d ++ more) :
    unread p.dev ++ more = p.printed D font t ++ unread p'.dev ∧
      (unread p.dev ≠ [] → p.printed D font t ≠ []) := by
  obtain ⟨s, hs, hdev, hinput, hrest⟩ := step_cases h
  have hs' : run (K1de.step font) p.loop ([Phase.refresh, .rescan, .reap].map fun phase =>
      (phase, D.input s (t.move p.dev) t.around)) = .ok s := hs
  -- at `poll` the shell is still there
  have hattached : s.pty.isSome = true := by
    refine pty_stays hpty ?_ hs
    intro e he
    obtain ⟨phase, -, rfl⟩ := List.mem_map.mp he
    exact hstays
  obtain ⟨hconserve, hserve⟩ := hunread.output_eq s (t.move p.dev) hattached t.around
  rw [printed, hinput, iteration_outputs hs' hrest, hdev, ← hmore]
  refine ⟨hconserve, fun hne => hserve ?_⟩
  rw [hmore]
  exact List.append_ne_nil_of_left_ne_nil hne more

end Station

/-- On a kernel that keeps the output of the shell in order: in every run in which the shell does
not exit and every display that is found has the size of the terminal, the terminal at the end is
the terminal at the start, fed some bytes. These and what waits at the end are what waited at the
start and what the shell has printed, in this order, and the first `n` bytes that waited are among
them after `n` iterations. -/
theorem shell_output_shown (font : Font) (D : Devices δ) (unread : δ → List UInt8)
    (hunread : D.Stream unread) (p p' : Station δ) (ts : List (Traffic δ))
    (more : Traffic δ → List UInt8)
    (hmore : ∀ t ∈ ts, ∀ d, unread (t.move d) = unread d ++ more t)
    (hrun : run (Station.step D font) p ts = .ok p') (t₀ : Terminal) (ht₀ : t₀.Inv)
    (hterm : p.loop.term = some t₀) (hpty : p.loop.pty.isSome = true)
    (hstays : ∀ t ∈ ts, Station.Stays t)
    (hsize : ∀ m a, .display m a ∈ history font p.loop (schedule (p.inputs D font ts)) →
      FitsMode font t₀ m) :
    ∃ bytes t', t₀.feed bytes = .ok t' ∧ p'.loop.term.map Terminal.clean = some t'.clean ∧
      unread p.dev ++ ts.flatMap more = bytes ++ unread p'.dev ∧
      ∀ waiting, waiting <+: unread p.dev → waiting.length ≤ ts.length → waiting <+: bytes := by
  have hloop := Station.run_loop hrun
  have hconsole := run_console hloop
  have hexits : ∀ ev ∈ history font p.loop (schedule (p.inputs D font ts)), ev ≠ .exited := by
    apply history_stays
    intro e he
    obtain ⟨i, hi, he⟩ := List.mem_flatMap.mp he
    obtain ⟨phase, -, rfl⟩ := List.mem_map.mp he
    obtain ⟨v, hv, rfl⟩ := List.mem_map.mp hi
    exact Station.input_tryWait D font v.1 v.2 ▸ hstays v.2 (mem_of_mem_visits hv)
  have hclean : p.loop.console.term = some t₀.clean := by
    show p.loop.term.map Terminal.clean = _
    rw [hterm]
    rfl
  obtain ⟨t', hfeed, hterm'⟩ := Console.run_prints ht₀ hpty hclean hexits hsize hconsole
  refine ⟨_, t', hfeed, hterm', ?_⟩
  rw [Station.outputs_run hrun]
  have hkeep : ∀ (p : Station δ) (t : Traffic δ) (p' : Station δ), p.loop.pty.isSome = true →
      Station.Stays t → p.step D font t = .ok p' → p'.loop.pty.isSome = true :=
    fun _ _ _ hpty hstays h => Station.pty_kept h hpty hstays
  have hattached := visits_inv hkeep p ts hpty fun v hv => hstays v.2 (mem_of_mem_visits hv)
  have hgood : ∀ v ∈ visits (Station.step D font) p ts, v.1.loop.pty.isSome = true ∧
      Station.Stays v.2 ∧ ∀ d, unread (v.2.move d) = unread d ++ more v.2 :=
    fun v hv => ⟨hattached v hv, hstays v.2 (mem_of_mem_visits hv),
      hmore v.2 (mem_of_mem_visits hv)⟩
  have hstep : ∀ (p : Station δ) (t : Traffic δ) (p' : Station δ),
      (p.loop.pty.isSome = true ∧ Station.Stays t ∧
        ∀ d, unread (t.move d) = unread d ++ more t) → p.step D font t = .ok p' →
      unread p.dev ++ more t = p.printed D font t ++ unread p'.dev :=
    fun _ _ _ hgood h => (Station.output_conserve hunread h hgood.1 hgood.2.1 hgood.2.2).1
  have hserve : ∀ (p : Station δ) (t : Traffic δ) (p' : Station δ),
      (p.loop.pty.isSome = true ∧ Station.Stays t ∧
        ∀ d, unread (t.move d) = unread d ++ more t) → p.step D font t = .ok p' →
      unread p.dev ≠ [] → p.printed D font t ≠ [] :=
    fun _ _ _ hgood h => (Station.output_conserve hunread h hgood.1 hgood.2.1 hgood.2.2).2
  rw [← flatMap_visits hrun more]
  exact ⟨Queue.run_conserves hstep hgood hrun,
    fun _ hwaiting hlen => Queue.run_serves hstep hserve hgood hrun hwaiting hlen⟩

theorem backlog_stream : backlogDevices.Stream Backlog.shell where
  ready_iff d := by
    show (!d.shell.isEmpty) = true ↔ _
    rw [Bool.not_eq_true', List.isEmpty_eq_false_iff]
  takes d hne := by
    refine ⟨d.shell.take 4096, ?_, rfl, (List.take_append_drop 4096 d.shell).symm⟩
    rw [Ne, List.take_eq_nil_iff, not_or]
    exact ⟨by decide, hne⟩
  keys _ _ := rfl

/-- A terminal of one cell. -/
def dotTerminal : Terminal :=
  { cols := 1, rows := 1, cells := [blank], cursorRow := 0, cursorCol := 0, esc := .none
    dirty := true, csiParams := [], csiCur := none, curFg := none, curBg := none, bold := false }

theorem dotTerminal_inv : dotTerminal.Inv where
  cols_pos := le_rfl
  rows_pos := le_rfl
  cells_length := rfl
  cells_fit := by decide
  row_lt := Nat.zero_lt_one
  col_le := Nat.zero_le 1
  curFg_ok := colourOk_none
  curBg_ok := colourOk_none
  cells_ok := by
    intro c hc
    rw [List.mem_singleton.mp hc]
    exact blank_ok

/-- A shell behind it, which has printed a character that nobody has read. -/
def talking : Station Backlog :=
  { loop := { shellStart with term := some dotTerminal }
    dev := { shell := [0x63], keys := fun _ => [] } }

theorem run_talking :
    ∃ p, run (Station.step backlogDevices dotFont) talking [chatter] = .ok p ∧
      p.dev.shell = [] := by
  have hrun : (do
      let p ← run (Station.step backlogDevices dotFont) talking [chatter]
      return p.dev.shell) = .ok [] := by
    decide +kernel
  obtain ⟨p, hp, hshell⟩ := of_bind_ok hrun
  exact ⟨p, hp, Except.ok.inj hshell⟩

/-- The display is found in this iteration, and its mode is that of the terminal. -/
theorem talking_sizes (m : Mode) (a : SpawnAnswers)
    (h : .display m a ∈ history dotFont talking.loop
      (schedule (talking.inputs backlogDevices dotFont [chatter]))) :
    FitsMode dotFont dotTerminal m := by
  have hall : ((history dotFont talking.loop
      (schedule (talking.inputs backlogDevices dotFont [chatter]))).all fun e =>
        match e with
        | .display m _ => decide (m = ⟨1, 1⟩)
        | _ => true) = true := by
    decide +kernel
  have hm : m = ⟨1, 1⟩ := of_decide_eq_true (List.all_eq_true.mp hall _ h)
  rw [hm]
  exact ⟨rfl, rfl⟩

/-- The terminal has been fed all three characters. -/
theorem shell_output_shown_talking :
    ∃ p t', run (Station.step backlogDevices dotFont) talking [chatter] = .ok p ∧
      dotTerminal.feed [0x63, 0x61, 0x62] = .ok t' ∧
      p.loop.term.map Terminal.clean = some t'.clean := by
  obtain ⟨p, hp, hshell⟩ := run_talking
  have hmore : ∀ t ∈ [chatter], ∀ d,
      Backlog.shell (t.move d) = Backlog.shell d ++ [0x61, 0x62] := by
    intro t ht d
    rw [List.mem_singleton.mp ht]
    rfl
  have hstays : ∀ t ∈ [chatter], Station.Stays t := by
    intro t ht status
    rw [List.mem_singleton.mp ht]
    exact nofun
  obtain ⟨bytes, t', hfeed, hterm, hall, -⟩ := shell_output_shown dotFont backlogDevices
    Backlog.shell backlog_stream talking p [chatter] (fun _ => [0x61, 0x62]) hmore hp dotTerminal
    dotTerminal_inv rfl rfl hstays talking_sizes
  have hbytes : bytes = [0x63, 0x61, 0x62] := by
    rw [hshell, List.append_nil] at hall
    exact hall.symm
  rw [hbytes] at hfeed
  exact ⟨p, t', hp, hfeed, hterm⟩

end K1de
