import K1de.Drm.Model

/-! # What the driver's methods do

The queries (`probe_connector`, `resolve_crtc`) change nothing but the log, and
what they find out is a function of the kernel's answers (`ProbeAnswers.result`,
`ResolveAnswers.result`). `Scanned` and `Refreshed` list every way
`scanout_mode` and `refresh` can go; the invariants of the driver are derived
from these lists and never from the programs themselves.
-/

namespace K1de

open Effect

/-! ## Worlds up to the log -/

/-- The same driver state and the same live objects. -/
structure World.Same (w w' : World) : Prop where
  drm_eq : w'.drm = w.drm
  ledger_eq : w'.kernel.ledger = w.kernel.ledger

theorem World.Same.refl (w : World) : World.Same w w := ⟨rfl, rfl⟩

theorem World.Same.trans {w w' w'' : World} (h : World.Same w w') (h' : World.Same w' w'') :
    World.Same w w'' :=
  ⟨h'.drm_eq.trans h.drm_eq, h'.ledger_eq.trans h.ledger_eq⟩

namespace Drm

variable {α β : Type}

/-! ## Queries -/

/-- The program only asks, and finds out `r`. -/
def Asks (p : DrmM α) (r : Except IoError α) : Prop :=
  ∀ w, (exec p w).1 = r ∧ World.Same w (exec p w).2

theorem asks_pure (a : α) : Asks (pure a) (.ok a) := fun w => ⟨rfl, World.Same.refl w⟩

theorem asks_throw (e : IoError) : Asks (throw e : DrmM α) (.error e) :=
  fun w => ⟨rfl, World.Same.refl w⟩

/-- A question finds out what the kernel answers. -/
theorem asks_query (r : Request) (answer : Except IoError α) : Asks (query r answer) answer := by
  intro w
  cases answer with
  | ok x => exact ⟨rfl, rfl, rfl⟩
  | error e => exact ⟨rfl, rfl, rfl⟩

/-- What a sequence of questions finds out is the sequence of what they find out. The second may
depend on what the first has found. -/
theorem asks_bind {p : DrmM α} {r : Except IoError α} {f : α → DrmM β}
    {g : α → Except IoError β} (hp : Asks p r) (hf : ∀ a, r = .ok a → Asks (f a) (g a)) :
    Asks (p >>= f) (r >>= g) := by
  intro w
  obtain ⟨hr, hw⟩ := hp w
  rcases hexec : exec p w with ⟨res, w'⟩
  rw [hexec] at hr hw
  subst hr
  cases res with
  | error e =>
      rw [exec_bind_error hexec]
      exact ⟨rfl, hw⟩
  | ok a =>
      rw [exec_bind_ok hexec]
      obtain ⟨hr', hw'⟩ := hf a rfl w'
      exact ⟨hr', hw.trans hw'⟩

/-- A query inside a program: the rest runs with its result in the same world. -/
theorem Asks.post {p : DrmM α} {r : Except IoError α} (hp : Asks p r) {w : World}
    {P : α → World → Prop} {Q : IoError → World → Prop}
    (hP : ∀ a w', r = .ok a → World.Same w w' → P a w')
    (hQ : ∀ e w', r = .error e → World.Same w w' → Q e w') : Post p w P Q := by
  obtain ⟨hr, hw⟩ := hp w
  rcases hexec : exec p w with ⟨res, w'⟩
  rw [hexec] at hr hw
  cases res with
  | ok a => exact (post_of_ok hexec).mpr (hP a w' hr.symm hw)
  | error e => exact (post_of_error hexec).mpr (hQ e w' hr.symm hw)

end Drm

/-- What `probe_connector` finds out. -/
def ProbeAnswers.result (a : ProbeAnswers) : Except IoError (Bool × List ModeInfo) := do
  let gc ← a.first
  if gc.countModes = 0 then
    return (gc.connection = modeConnected, [])
  else
    let gc2 ← a.second
    return (gc2.connection = modeConnected,
      Drm.writeArray (List.replicate gc.countModes.toNat ModeInfo.zero) gc2.modes)

/-- What the loop over the encoders finds out. -/
def Drm.encoderResult (encoder : Nat → UInt32 → Except IoError GetEncoder)
    (crtcIds : List UInt32) : Nat → List UInt32 → Except IoError UInt32
  | _, [] => .error (.notFound "no usable crtc")
  | i, encId :: rest =>
      if encId = 0 then encoderResult encoder crtcIds (i + 1) rest
      else
        match encoder i encId with
        | .error _ => encoderResult encoder crtcIds (i + 1) rest
        | .ok ge =>
            if ge.crtcId ≠ 0 then .ok ge.crtcId
            else
              match possibleCrtc crtcIds ge.possibleCrtcs with
              | some crtcId => .ok crtcId
              | none => encoderResult encoder crtcIds (i + 1) rest

/-- What `resolve_crtc` finds out. -/
def ResolveAnswers.result (a : ResolveAnswers) : Except IoError UInt32 := do
  let gc ← a.connector
  let gc2 ← a.encoders
  let res ← a.resources
  let res2 ← a.crtcs
  Drm.encoderResult a.encoder
    (Drm.writeArray (List.replicate res.countCrtcs.toNat 0) res2.crtcIds) 0
    (Drm.writeArray (List.replicate gc.countEncoders.toNat 0) gc2.encoders ++ [gc2.encoderId])

namespace Drm

/-- `probe_connector` is a function of the two answers. -/
theorem probeConnector_asks (connectorId : UInt32) (a : ProbeAnswers) :
    Asks (probeConnector connectorId a) a.result := by
  apply asks_bind (asks_query _ _)
  intro gc _
  dsimp only
  split
  · exact asks_pure _
  · apply asks_bind (asks_query _ _)
    intro gc2 _
    exact asks_pure _

/-- The loop over the encoders is the recursion over their answers. -/
theorem encoderLoop_asks (encoder : Nat → UInt32 → Except IoError GetEncoder)
    (crtcIds : List UInt32) (i : Nat) (encoders : List UInt32) :
    Asks (encoderLoop encoder crtcIds i encoders) (encoderResult encoder crtcIds i encoders) := by
  induction encoders generalizing i with
  | nil => exact asks_throw _
  | cons encId rest ih =>
      unfold encoderLoop encoderResult
      split
      · exact ih (i + 1)
      · generalize encoder i encId = answer
        -- the answer, failure or not, is the value of a call that cannot fail
        refine asks_bind (r := .ok answer) (g := fun _ => ?_) (asks_query _ _) ?_
        intro answer' hanswer
        cases hanswer
        cases answer with
        | error e => exact ih (i + 1)
        | ok ge =>
            dsimp only
            by_cases hbound : ge.crtcId ≠ 0
            · rw [if_pos hbound, if_pos hbound]
              exact asks_pure _
            · rw [if_neg hbound, if_neg hbound]
              cases possibleCrtc crtcIds ge.possibleCrtcs with
              | some crtcId => exact asks_pure _
              | none => exact ih (i + 1)

/-- `resolve_crtc` is a function of the four answers and those of the encoders. -/
theorem resolveCrtc_asks (connectorId : UInt32) (a : ResolveAnswers) :
    Asks (resolveCrtc connectorId a) a.result := by
  apply asks_bind (asks_query _ _)
  intro gc _
  apply asks_bind (asks_query _ _)
  intro gc2 _
  apply asks_bind (asks_query _ _)
  intro res _
  apply asks_bind (asks_query _ _)
  intro res2 _
  exact encoderLoop_asks _ _ _ _

/-- Flushing is a message to the kernel and nothing more. -/
theorem flush_asks : Asks flush (.ok ()) := by
  intro w
  refine (post_iff_rel (R := fun r w' => r = .ok () ∧ World.Same w w')).mp ?_
  unfold flush
  apply post_bind
  apply post_get
  cases w.drm.scanout with
  | none => exact ⟨rfl, World.Same.refl w⟩
  | some so => exact ⟨rfl, rfl, rfl⟩

/-! ## Giving objects back -/

/-- The world after `teardown_scanout`. -/
def tornDown (w : World) : World :=
  match w.drm.scanout with
  | none => w
  | some so =>
      { drm := { w.drm with scanout := none }
        kernel := { w.kernel with
          ledger := Ledger.dropHandle so.dumbHandle
            (Ledger.dropFb so.fbId (Ledger.dropMap (so.map, so.mapLen) w.kernel.ledger)) } }

/-- After `teardown_scanout` nothing is recorded. -/
theorem tornDown_scanout (w : World) : (tornDown w).drm.scanout = none := by
  unfold tornDown
  cases h : w.drm.scanout with
  | none => exact h
  | some so => rfl

/-- It depends on the record and the objects only. -/
theorem tornDown_same {w w' : World} (h : World.Same w w') :
    World.Same (tornDown w) (tornDown w') := by
  unfold tornDown
  rw [h.drm_eq, h.ledger_eq]
  cases w.drm.scanout with
  | none => exact h
  | some so => exact ⟨rfl, rfl⟩

theorem withCrtc_same {w w' : World} (h : World.Same w w') (crtcId : UInt32) :
    World.Same { w with drm := { w.drm with crtcId := crtcId } }
      { w' with drm := { w'.drm with crtcId := crtcId } } := by
  constructor
  · show { w'.drm with crtcId := crtcId } = { w.drm with crtcId := crtcId }
    rw [h.drm_eq]
  · exact h.ledger_eq

/-- To run `teardown_scanout` is to go on in the world after it: it does not fail. -/
theorem post_teardownScanout {w : World} {P : Unit → World → Prop}
    {Q : IoError → World → Prop} (h : ∀ w', World.Same (tornDown w) w' → P () w') :
    Post teardownScanout w P Q := by
  unfold teardownScanout
  apply post_bind
  show Post _ w P Q
  unfold tornDown at h
  cases hso : w.drm.scanout with
  | none =>
      rw [hso] at h
      exact h w (World.Same.refl w)
  | some so =>
      rw [hso] at h
      exact h _ ⟨rfl, rfl⟩

/-! ## Putting a buffer on the screen -/

/-- The ways of `scanout_mode`. Where `MAP_DUMB`, `mmap` or `SETCRTC` fails, objects
made before stay behind. -/
inductive Scanned (mode : ModeInfo) (a : ScanoutAnswers) (w : World) :
    Except IoError Unit → World → Prop where
  | createDumbFailed {e : IoError} {w' : World} (hcd : a.createDumb = .error e)
      (hw : World.Same w w') : Scanned mode a w (.error e) w'
  | addFbFailed {cd : CreateDumb} {e : IoError} {w' : World} (hcd : a.createDumb = .ok cd)
      (hfb : a.addFb = .error e) (hw : World.Same w w') : Scanned mode a w (.error e) w'
  | mapDumbFailed {cd : CreateDumb} {fb : UInt32} {e : IoError} {w' : World}
      (hcd : a.createDumb = .ok cd) (hfb : a.addFb = .ok fb) (hmd : a.mapDumb = .error e)
      (hdrm : w'.drm = w.drm)
      (hledger : w'.kernel.ledger = Ledger.addFb fb (Ledger.addHandle cd.handle w.kernel.ledger)) :
      Scanned mode a w (.error e) w'
  | mmapFailed {cd : CreateDumb} {fb : UInt32} {e : IoError} {w' : World}
      (hcd : a.createDumb = .ok cd) (hfb : a.addFb = .ok fb) (hmap : a.mmap = .error e)
      (hdrm : w'.drm = w.drm) (hledger : w'.kernel.ledger = Ledger.addFb fb w.kernel.ledger) :
      Scanned mode a w (.error e) w'
  | setCrtcFailed {cd : CreateDumb} {fb : UInt32} {map : Nat} {e : IoError} {w' : World}
      (hcd : a.createDumb = .ok cd) (hfb : a.addFb = .ok fb) (hset : a.setCrtc = .error e)
      (hdrm : w'.drm = w.drm)
      (hledger : w'.kernel.ledger = Ledger.addMap (map, cd.size.toNat)
        (Ledger.addFb fb (Ledger.addHandle cd.handle w.kernel.ledger))) :
      Scanned mode a w (.error e) w'
  | installed {cd : CreateDumb} {fb : UInt32} {offset : UInt64} {map : Nat} {w' : World}
      (hcd : a.createDumb = .ok cd) (hfb : a.addFb = .ok fb) (hmd : a.mapDumb = .ok offset)
      (hmap : a.mmap = .ok map) (hset : a.setCrtc = .ok ())
      (hdrm : w'.drm = { w.drm with
        scanout := some {
          fbId := fb, dumbHandle := cd.handle, map, mapLen := cd.size.toNat, pitch := cd.pitch
          width := mode.size.width, height := mode.size.height
          mem := List.replicate cd.size.toNat 0 } })
      (hledger : w'.kernel.ledger = Ledger.addMap (map, cd.size.toNat)
        (Ledger.addFb fb (Ledger.addHandle cd.handle w.kernel.ledger))) :
      Scanned mode a w (.ok ()) w'

/-- `scanout_mode` goes one of these ways. -/
theorem scanoutMode_scanned (mode : ModeInfo) (a : ScanoutAnswers) (w : World) :
    Scanned mode a w (exec (scanoutMode mode a) w).1 (exec (scanoutMode mode a) w).2 := by
  obtain ⟨createDumb, addFb, mapDumb, mmap, setCrtc⟩ := a
  cases createDumb with
  | error e => exact .createDumbFailed rfl ⟨rfl, rfl⟩
  | ok cd =>
  cases addFb with
  -- here and after a failed `mmap` the dumb buffer is given back, so its handle is gone again
  | error e =>
      refine .addFbFailed rfl rfl ⟨rfl, ?_⟩
      show Ledger.dropHandle cd.handle (Ledger.addHandle cd.handle w.kernel.ledger) = _
      simp [Ledger.dropHandle, Ledger.addHandle]
  | ok fb =>
  cases mapDumb with
  | error e => exact .mapDumbFailed rfl rfl rfl rfl rfl
  | ok offset =>
  cases mmap with
  | error e =>
      refine .mmapFailed rfl rfl rfl rfl ?_
      show Ledger.dropHandle cd.handle
        (Ledger.addFb fb (Ledger.addHandle cd.handle w.kernel.ledger)) = _
      simp [Ledger.dropHandle, Ledger.addHandle, Ledger.addFb]
  | ok map =>
  cases setCrtc with
  | error e => exact .setCrtcFailed rfl rfl rfl rfl rfl
  | ok u => exact .installed rfl rfl rfl rfl rfl rfl rfl

/-! ## Refreshing -/

/-- The ways of `refresh`. -/
inductive Refreshed (a : Answers) (w : World) : Except IoError (Option Mode) → World → Prop where
  | probeFailed {e : IoError} {w' : World} (hprobe : a.probe.result = .error e)
      (hw : World.Same w w') : Refreshed a w (.error e) w'
  | disconnected {connected : Bool} {modes : List ModeInfo} {w' : World}
      (hprobe : a.probe.result = .ok (connected, modes)) (hnone : connected = false ∨ modes = [])
      (hw : World.Same (tornDown w) w') : Refreshed a w (.ok none) w'
  | unchanged {modes : List ModeInfo} {mode : ModeInfo} {w' : World}
      (hprobe : a.probe.result = .ok (true, modes)) (hpick : pickMode modes = some mode)
      (hshows : w.drm.shows mode.size = true) (hw : World.Same w w') :
      Refreshed a w (.ok (some mode.size)) w'
  | noCrtc {modes : List ModeInfo} {mode : ModeInfo} {e : IoError} {w' : World}
      (hprobe : a.probe.result = .ok (true, modes)) (hpick : pickMode modes = some mode)
      (hshows : w.drm.shows mode.size = false) (hcrtc : a.resolve.result = .error e)
      (hw : World.Same w w') : Refreshed a w (.error e) w'
  | scanned {modes : List ModeInfo} {mode : ModeInfo} {crtcId : UInt32} {w₁ w' : World}
      {r : Except IoError Unit} (hprobe : a.probe.result = .ok (true, modes))
      (hpick : pickMode modes = some mode) (hshows : w.drm.shows mode.size = false)
      (hcrtc : a.resolve.result = .ok crtcId)
      (hw : World.Same (tornDown { w with drm := { w.drm with crtcId } }) w₁)
      (hscan : Scanned mode a.scanout w₁ r w') :
      Refreshed a w ((fun _ => some mode.size) <$> r) w'

/-- The part of `refresh` after the mode has been picked. -/
theorem showMode_refreshed {a : Answers} {w w₀ : World} {modes : List ModeInfo} {mode : ModeInfo}
    (hprobe : a.probe.result = .ok (true, modes)) (hpick : pickMode modes = some mode)
    (hw₀ : World.Same w w₀) :
    Post (showMode mode a) w₀ (fun m w' => Refreshed a w (.ok m) w')
      (fun e w' => Refreshed a w (.error e) w') := by
  unfold showMode
  apply post_bind
  apply post_get
  dsimp only
  rw [hw₀.drm_eq]
  split
  · next hshows => exact post_pure (.unchanged hprobe hpick hshows hw₀)
  · next hshows =>
      have hshows' : w.drm.shows mode.size = false := by simpa using hshows
      apply post_bind
      apply (resolveCrtc_asks w.drm.connectorId a.resolve).post
      · intro crtcId w₁ hcrtc hw₁
        apply post_bind
        apply post_modify
        apply post_bind
        apply post_teardownScanout
        intro w₂ hw₂
        -- the CRTC is recorded before the old buffer is taken down
        have hdown := (tornDown_same (withCrtc_same (hw₀.trans hw₁) crtcId)).trans hw₂
        apply post_bind
        refine post_mono (post_iff_rel.mpr (scanoutMode_scanned mode a.scanout w₂)) ?_ ?_
        · intro u w' hscan
          exact post_pure (.scanned hprobe hpick hshows' hcrtc hdown hscan)
        · intro e w' hscan
          exact .scanned hprobe hpick hshows' hcrtc hdown hscan
      · intro e w' hcrtc hw'
        exact .noCrtc hprobe hpick hshows' hcrtc (hw₀.trans hw')

/-- `refresh` goes one of these ways. -/
theorem refresh_refreshed (a : Answers) (w : World) :
    Refreshed a w (exec (refresh a) w).1 (exec (refresh a) w).2 := by
  refine post_iff_rel.mp ?_
  unfold refresh
  apply post_bind
  apply post_get
  apply post_bind
  apply (probeConnector_asks w.drm.connectorId a.probe).post
  · rintro ⟨connected, modes⟩ w₀ hprobe hw₀
    dsimp only
    split
    · next hnone =>
        apply post_bind
        apply post_teardownScanout
        intro w' hw'
        exact post_pure (.disconnected hprobe hnone ((tornDown_same hw₀).trans hw'))
    · next hsome =>
        obtain ⟨hconnected, hmodes⟩ := not_or.mp hsome
        rw [Bool.not_eq_false] at hconnected
        subst hconnected
        exact showMode_refreshed hprobe (Option.some_get _).symm hw₀
  · intro e w' hprobe hw'
    exact .probeFailed hprobe hw'

/-! ### What is on the screen afterwards -/

/-- With these answers `refresh` puts a new buffer of this size on the screen. -/
structure Installs (d : Drm) (a : Answers) (size : Mode) : Prop where
  picked : ∃ modes mode, a.probe.result = .ok (true, modes) ∧ pickMode modes = some mode ∧
    mode.size = size
  not_shown : d.shows size = false
  resolved : ∃ crtcId, a.resolve.result = .ok crtcId
  createDumb_ok : ∃ cd, a.scanout.createDumb = .ok cd
  addFb_ok : ∃ fb, a.scanout.addFb = .ok fb
  mapDumb_ok : ∃ offset, a.scanout.mapDumb = .ok offset
  mmap_ok : ∃ map, a.scanout.mmap = .ok map
  setCrtc_ok : a.scanout.setCrtc = .ok ()

/-- `shows` compares the sizes of the two. -/
theorem size_of_shows {d : Drm} {size : Mode} (h : d.shows size = true) :
    ∃ so, d.scanout = some so ∧ so.size = size := by
  unfold shows at h
  cases hso : d.scanout with
  | none =>
      rw [hso] at h
      cases h
  | some so =>
      rw [hso] at h
      simp only [Bool.and_eq_true, decide_eq_true_eq] at h
      obtain ⟨hw, hh⟩ := h
      refine ⟨so, rfl, ?_⟩
      rw [ScanOut.size, hw, hh]

section

variable {a : Answers} {w w' : World}

/-- A mode comes from two `u16`, and a buffer of its size is on the screen: the one
that was there, or a new one. -/
theorem Refreshed.of_mode {m : Mode} (h : Refreshed a w (.ok (some m)) w') :
    (∃ mode : ModeInfo, m = mode.size) ∧ (∃ so, w'.drm.scanout = some so ∧ so.size = m) ∧
      (w'.drm.scanout = w.drm.scanout ∨ Installs w.drm a m) := by
  generalize hr : (Except.ok (some m) : Except IoError (Option Mode)) = r at h
  cases h with
  | probeFailed => cases hr
  | disconnected => cases hr
  | @unchanged modes mode _ hprobe hpick hshows hw =>
      cases hr
      refine ⟨⟨mode, rfl⟩, ?_, Or.inl ?_⟩
      · rw [hw.drm_eq]
        exact size_of_shows hshows
      · rw [hw.drm_eq]
  | noCrtc => cases hr
  | @scanned modes mode crtcId w₁ _ r hprobe hpick hshows hcrtc hw hscan =>
      cases hscan with
      | createDumbFailed => cases hr
      | addFbFailed => cases hr
      | mapDumbFailed => cases hr
      | mmapFailed => cases hr
      | setCrtcFailed => cases hr
      | installed hcd hfb hmd hmap hset hdrm hledger =>
          cases hr
          refine ⟨⟨mode, rfl⟩, ?_, Or.inr ?_⟩
          · rw [hdrm]
            exact ⟨_, rfl, rfl⟩
          · exact ⟨⟨modes, mode, hprobe, hpick, rfl⟩, hshows, ⟨_, hcrtc⟩, ⟨_, hcd⟩, ⟨_, hfb⟩,
              ⟨_, hmd⟩, ⟨_, hmap⟩, hset⟩

/-- Without a display nothing is on the screen. -/
theorem Refreshed.of_none (h : Refreshed a w (.ok none) w') : w'.drm.scanout = none := by
  generalize hr : (Except.ok none : Except IoError (Option Mode)) = r at h
  cases h with
  | probeFailed => cases hr
  | disconnected _ _ hw =>
      rw [hw.drm_eq]
      exact tornDown_scanout w
  | unchanged => cases hr
  | noCrtc => cases hr
  | scanned _ _ _ _ _ hscan => cases hscan <;> cases hr

/-- After an error the old buffer is on the screen, or none. -/
theorem Refreshed.of_error {e : IoError} (h : Refreshed a w (.error e) w') :
    w'.drm.scanout = w.drm.scanout ∨ w'.drm.scanout = none := by
  generalize hr : (Except.error e : Except IoError (Option Mode)) = r at h
  cases h with
  | probeFailed _ hw => exact Or.inl (by rw [hw.drm_eq])
  | disconnected => cases hr
  | unchanged => cases hr
  | noCrtc _ _ _ _ hw => exact Or.inl (by rw [hw.drm_eq])
  | @scanned _ _ _ w₁ _ _ _ _ _ _ hw hscan =>
      have hnone : w₁.drm.scanout = none := by
        rw [hw.drm_eq]
        exact tornDown_scanout _
      right
      cases hscan with
      -- no failed way records a buffer
      | createDumbFailed _ hw' => rw [hw'.drm_eq, hnone]
      | addFbFailed _ _ hw' => rw [hw'.drm_eq, hnone]
      | mapDumbFailed _ _ _ hdrm => rw [hdrm, hnone]
      | mmapFailed _ _ _ hdrm => rw [hdrm, hnone]
      | setCrtcFailed _ _ _ hdrm => rw [hdrm, hnone]
      | installed => cases hr

end

/-! ## The smallest cases -/

/-- A driver that has shown nothing yet. -/
def opened : World :=
  { drm := { connectorId := 1, crtcId := 0, scanout := none }
    kernel := { ledger := Ledger.empty, log := [] } }

/-- The answers for a display with one mode, one encoder and one CRTC. -/
def connected (mode : ModeInfo) (scanout : ScanoutAnswers) : Answers :=
  let connector : GetConnector :=
    { connection := 1, countModes := 1, countEncoders := 1, encoderId := 5
      modes := [mode], encoders := [5] }
  let resources : CardRes := { countCrtcs := 1, crtcIds := [7] }
  { probe := { first := .ok connector, second := .ok connector }
    resolve :=
      { connector := .ok connector, encoders := .ok connector, resources := .ok resources
        crtcs := .ok resources, encoder := fun _ _ => .ok { crtcId := 7, possibleCrtcs := 1 } }
    scanout }

end Drm

end K1de
