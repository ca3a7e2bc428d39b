import K1de.Main.Geometry
import K1de.Main.Timers

/-! # The loop follows the display

Whatever has happened before, a failed refresh, a display that was unplugged or replaced: once the
display answers with one mode and the kernel refuses nothing, it takes one refresh interval until
the buffer on the screen, the mode, the terminal and the shell's window all have the size of that
mode (`display_followed`), and they keep it.

The shell is another matter: one that has exited is not replaced by this, as the mode stays.
-/

namespace K1de

open Fallible Ticker

/-- The display is connected, the mode to pick has this size, and no call fails. -/
structure Settled (m : Mode) (a : Answers) : Prop where
  probe : ∃ modes mode, a.probe.result = .ok (true, modes) ∧ Drm.pickMode modes = some mode ∧
    mode.size = m
  resolve : ∃ crtcId, a.resolve.result = .ok crtcId
  createDumb : ∃ cd, a.scanout.createDumb = .ok cd
  addFb : ∃ fb, a.scanout.addFb = .ok fb
  mapDumb : ∃ offset, a.scanout.mapDumb = .ok offset
  mmap : ∃ map, a.scanout.mmap = .ok map
  setCrtc : a.scanout.setCrtc = .ok ()

/-- A buffer of this size is on the screen. -/
def Showing (m : Mode) (w : World) : Prop := ∃ so, w.drm.scanout = some so ∧ so.size = m

/-! ## One step -/

/-- When no call fails, the buffer that is set up is on the screen. -/
theorem Settled.scanned {m : Mode} {a : Answers} (h : Settled m a) {mode : ModeInfo} {w w' : World}
    {r : Except IoError Unit} (hscan : Drm.Scanned mode a.scanout w r w') :
    Showing mode.size w' := by
  cases hscan with
  | createDumbFailed hcd =>
      obtain ⟨cd, hok⟩ := h.createDumb
      cases hcd.symm.trans hok
  | addFbFailed _ hfb =>
      obtain ⟨fb, hok⟩ := h.addFb
      cases hfb.symm.trans hok
  | mapDumbFailed _ _ hmd =>
      obtain ⟨offset, hok⟩ := h.mapDumb
      cases hmd.symm.trans hok
  | mmapFailed _ _ hmap =>
      obtain ⟨map, hok⟩ := h.mmap
      cases hmap.symm.trans hok
  | setCrtcFailed _ _ hset => cases hset.symm.trans h.setCrtc
  | installed _ _ _ _ _ hdrm =>
      refine ⟨_, by rw [hdrm], ?_⟩
      rfl

/-- After a refresh the mode is on the screen, whatever was there before. -/
theorem Settled.refreshed {m : Mode} {a : Answers} (h : Settled m a) {w w' : World}
    {r : Except IoError (Option Mode)} (hr : Drm.Refreshed a w r w') : Showing m w' := by
  obtain ⟨modes, mode, hprobe, hpick, hsize⟩ := h.probe
  obtain ⟨crtcId, hcrtc⟩ := h.resolve
  cases hr with
  | probeFailed hprobe' => cases hprobe'.symm.trans hprobe
  | disconnected hprobe' hnone =>
      -- a settled display is connected and has a mode to pick
      cases hprobe'.symm.trans hprobe
      rcases hnone with hnone | hnone
      · cases hnone
      · rw [hnone] at hpick
        cases hpick
  | unchanged hprobe' hpick' hshows hw =>
      cases hprobe'.symm.trans hprobe
      cases hpick'.symm.trans hpick
      -- the buffer is kept, as it shows the picked mode already
      obtain ⟨so, hso, hso'⟩ := Drm.size_of_shows hshows
      exact ⟨so, by rw [hw.drm_eq, hso], hso'.trans hsize⟩
  | noCrtc _ _ _ hcrtc' => cases hcrtc'.symm.trans hcrtc
  | scanned hprobe' hpick' _ _ _ hscan =>
      cases hprobe'.symm.trans hprobe
      cases hpick'.symm.trans hpick
      rw [← hsize]
      exact h.scanned hscan

/-- Drawing changes the pixels of the buffer and not its size. -/
theorem Showing.present {m : Mode} {w : World} (h : Showing m w) (mem : List UInt8) :
    Showing m (K1de.present w mem) := by
  obtain ⟨so, hso, hsize⟩ := h
  exact ⟨{ so with mem }, by rw [present_drm, Drm.setMem, hso]; rfl, hsize⟩

/-- No phase of the loop takes it away. -/
theorem Showing.of_step {font : Font} {m : Mode} {s s' : State} {e : Phase × Input}
    (h : Showing m s.world) (he : Settled m e.2.answers) (hstep : step font s e = .ok s') :
    Showing m s'.world := by
  have hworld := step_world hstep
  generalize s'.world = w at hworld ⊢
  cases hworld with
  | same => exact h
  | refreshed => exact he.refreshed (Drm.refresh_refreshed e.2.answers s.world)
  | drawn _ mem => exact h.present mem

/-- No run takes it away, as long as the display answers with that mode. -/
theorem Showing.of_run {font : Font} {m : Mode} {s s' : State} {es : List (Phase × Input)}
    (h : Showing m s.world) (hes : ∀ e ∈ es, Settled m e.2.answers)
    (hrun : run (step font) s es = .ok s') : Showing m s'.world := by
  have hkeep : ∀ (s : State) (e : Phase × Input) (s' : State), Showing m s.world →
      Settled m e.2.answers → step font s e = .ok s' → Showing m s'.world :=
    fun _ _ _ hs he hstep => hs.of_step he hstep
  exact run_keeps (fun e : Phase × Input => Settled m e.2.answers) hkeep h hes hrun

theorem Showing.of_phases {font : Font} {m : Mode} {s s' : State} {phases : List Phase} {i : Input}
    (h : Showing m s.world) (hi : Settled m i.answers)
    (hrun : run (step font) s (phases.map fun phase => (phase, i)) = .ok s') :
    Showing m s'.world := by
  apply h.of_run ?_ hrun
  intro e he
  obtain ⟨phase, -, rfl⟩ := List.mem_map.mp he
  exact hi

/-! ## Runs -/

/-- An iteration refreshes the display, or leaves the refresh to the next ones. -/
theorem iteration_follows {font : Font} {m : Mode} {s s' : State} {i : Input}
    (hi : Settled m i.answers)
    (hrun : run (step font) s (Phase.all.map fun phase => (phase, i)) = .ok s') :
    Showing m s'.world ∨ ¬ s.RefreshDue i ∧ s'.lastDrmRefresh = s.lastDrmRefresh := by
  obtain ⟨s₁, hs₁, hrest⟩ := of_run_iteration hrun
  -- the refresh comes first, and the other phases touch neither the screen nor its clock
  rcases refreshPhase_world hs₁ with ⟨hdue, -⟩ | ⟨-, hworld⟩
  · right
    have hclocks : s₁.clocks = s.clocks := by
      rw [refreshPhase_clocks hs₁, if_neg hdue]
    have hlast : s₁.lastDrmRefresh = s.lastDrmRefresh := congrArg Clocks.refresh hclocks
    exact ⟨hdue, (lastDrmRefresh_run (by decide) hrest).trans hlast⟩
  · left
    have hshowing : Showing m s₁.world := by
      rw [hworld]
      exact hi.refreshed (Drm.refresh_refreshed i.answers s.world)
    exact hshowing.of_phases hi hrest

/-- With an iteration that is a refresh interval after the last refresh, the mode gets on the
screen. -/
theorem follow_inputs {font : Font} {m : Mode} {s s' : State} {inputs : List Input}
    (hinputs : ∀ i ∈ inputs, Settled m i.answers)
    (hclock : ∃ i ∈ inputs, i.now - s.lastDrmRefresh ≥ drmRefreshInterval)
    (hrun : run (step font) s (schedule inputs) = .ok s') : Showing m s'.world := by
  have hkeep : ∀ (s : State) (i : Input) (s' : State), True → Settled m i.answers →
      run (step font) s (Phase.all.map fun phase => (phase, i)) = .ok s' →
      True ∧ (Showing m s.world → Showing m s'.world) :=
    fun _ _ _ _ hi hrun => ⟨trivial, fun hshowing => hshowing.of_phases hi hrun⟩
  rw [schedule, run_flatMap] at hrun
  -- no invariant is needed to wait: the clock of the refresh stands still until it is due
  refine reaches_of_due (fun i : Input => Settled m i.answers) hkeep ?_ trivial hinputs
    (.inr hclock) hrun
  intro s i s' _ hi hrun
  rcases iteration_follows hi hrun with hshowing | ⟨hnot, hlast⟩
  · exact Or.inl hshowing
  · exact Or.inr ⟨by unfold State.RefreshDue at hnot; omega, hlast⟩

/-- Buffer, mode, terminal and shell's window have the size of this mode. -/
structure Followed (font : Font) (m : Mode) (s : State) : Prop where
  screen : Showing m s.world
  mode_eq : s.mode = some m
  term : ∃ t, s.term = some t ∧ FitsMode font t m ∧ ∀ p, s.pty = some p → FitsTerm p t

/-- By the invariant of the sizes, the buffer on the screen determines the others. -/
theorem Geometry.followed {font : Font} {m : Mode} {s : State} (h : Geometry font s)
    (hscreen : Showing m s.world) : Followed font m s := by
  obtain ⟨so, hso, hsize⟩ := hscreen
  obtain ⟨hmode, t, ht, hfits⟩ := h.screenSized so hso
  rw [hsize] at hmode hfits
  refine ⟨⟨so, hso, hsize⟩, hmode, t, ht, hfits, ?_⟩
  intro p hp
  obtain ⟨t', ht', hfits'⟩ := h.pty_eq p hp
  cases ht.symm.trans ht'
  exact hfits'

/-- In every run that returns: if from some iteration on the display answers with one mode and no
call fails, then after an iteration that is a refresh interval later, and ever after, buffer,
mode, terminal and shell's window have the size of that mode. -/
theorem display_followed (font : Font) (connectorId : UInt32) (kernel : Kernel)
    (dir : Option (List (Option Node))) (drmTime kbTime idleTime : Int)
    (before after : List Input) (s s' : State)
    (hbefore : run (step font) (State.start connectorId kernel dir drmTime kbTime idleTime)
      (schedule before) = .ok s)
    (m : Mode) (hafter : ∀ i ∈ after, Settled m i.answers)
    (hclock : ∃ i ∈ after, i.now - s.lastDrmRefresh ≥ drmRefreshInterval)
    (hrun : run (step font) s (schedule after) = .ok s') : Followed font m s' := by
  have hgeometry : Geometry font s :=
    (geometry_start font connectorId kernel dir drmTime kbTime idleTime).run hbefore
  exact (hgeometry.run hrun).followed (follow_inputs hafter hclock hrun)

/-- A dumb buffer of two pixels in a line. -/
def pairBuffer : Except IoError CreateDumb := .ok { handle := 2, pitch := 8, size := 8 }

theorem pair_settled : Settled ⟨2, 1⟩ (display 2 pairBuffer) where
  probe := ⟨_, _, rfl, rfl, rfl⟩
  resolve := ⟨_, rfl⟩
  createDumb := ⟨_, rfl⟩
  addFb := ⟨_, rfl⟩
  mapDumb := ⟨_, rfl⟩
  mmap := ⟨_, rfl⟩
  setCrtc := rfl

/-- A display is replaced by a wider one. -/
theorem display_followed_wider :
    ∃ s s', run (step dotFont) dotStart (schedule [quiet 0 (display 1 dotBuffer) (.ok none)]) =
        .ok s ∧ s.mode = some ⟨1, 1⟩ ∧
      run (step dotFont) s (schedule [quiet drmRefreshInterval (display 2 pairBuffer) (.ok none)]) =
        .ok s' ∧ Followed dotFont ⟨2, 1⟩ s' := by
  have hruns : (do
      let s ← run (step dotFont) dotStart (schedule [quiet 0 (display 1 dotBuffer) (.ok none)])
      let s' ← run (step dotFont) s
        (schedule [quiet drmRefreshInterval (display 2 pairBuffer) (.ok none)])
      return (s.mode, s.lastDrmRefresh, s'.mode)) = .ok (some ⟨1, 1⟩, 0, some ⟨2, 1⟩) := by
    decide +kernel
  obtain ⟨s, hs, hrest⟩ := of_bind_ok hruns
  obtain ⟨s', hs', heq⟩ := of_bind_ok hrest
  have heq := Except.ok.inj heq
  have hmode : s.mode = some ⟨1, 1⟩ := congrArg Prod.fst heq
  have hlast : s.lastDrmRefresh = 0 := congrArg (fun x => x.2.1) heq
  refine ⟨s, s', hs, hmode, hs', display_followed dotFont 1 _ none 0 0 0 _ _ s s' hs ⟨2, 1⟩ ?_
    ⟨_, List.mem_singleton_self _, ?_⟩ hs'⟩
  · intro i hi
    rw [List.mem_singleton.mp hi]
    exact pair_settled
  · rw [hlast]
    decide

end K1de
