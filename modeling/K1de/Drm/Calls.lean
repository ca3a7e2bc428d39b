import K1de.Drm.Spec

/-! # Which calls the driver makes

`Calls P p` says of a program that every system call it logs satisfies `P`. There is a rule for each
way of putting programs together, and `refresh_calls` reduces a whole refresh to the three kinds
of calls in it: questions, calls that give something back, and the calls of `scanout_mode`, which
are known as a list (`scanoutCalls`).

Two things are read off from it: a refresh begins with a question to the connector
(`refresh_probes`), and what it maps is the buffer that it has just made, at the offset that the
kernel has given for it (`refresh_maps`).
-/

namespace K1de

open Effect

namespace Request

/-- The calls that give an object back. -/
def releases : Request → Bool
  | .munmap .. | .rmFb _ | .destroyDumb _ => true
  | _ => false

/-- The calls that only ask. -/
def asks : Request → Bool
  | .getConnector .. | .getResources _ | .getConnectors _ | .getEncoder _ => true
  | _ => false

end Request

namespace Drm

variable {α β : Type} {P : Request → Prop}

/-- Every call that the program makes satisfies `P`. -/
def Calls (P : Request → Prop) (p : DrmM α) : Prop :=
  ∀ w, ∃ rs, (exec p w).2.kernel.log = w.kernel.log ++ rs ∧ ∀ r ∈ rs, P r

/-! ## Rules -/

theorem calls_pure (a : α) : Calls P (pure a) :=
  fun _ => ⟨[], (List.append_nil _).symm, nofun⟩

theorem calls_throw (e : IoError) : Calls P (throw e : DrmM α) :=
  fun _ => ⟨[], (List.append_nil _).symm, nofun⟩

/-- A change of the driver's own state is no call. -/
theorem calls_modify {f : World → World} (hf : ∀ w, (f w).kernel = w.kernel) :
    Calls P (modify f : DrmM PUnit) := by
  intro w
  refine ⟨[], ?_, nofun⟩
  show (f w).kernel.log = _
  rw [hf, List.append_nil]

/-- A system call that may hand something out is one call, whether it is refused or not. -/
theorem calls_acquire {r : Request} (hr : P r) (effect : α → Ledger → Ledger)
    (answer : Except IoError α) : Calls P (acquire r effect answer) := by
  intro w
  refine ⟨[r], ?_, fun r' hr' => List.mem_singleton.mp hr' ▸ hr⟩
  cases answer <;> rfl

theorem calls_query {r : Request} (hr : P r) (answer : Except IoError α) :
    Calls P (query r answer) :=
  calls_acquire hr _ answer

/-- A call that gives something back cannot fail, and is one call. -/
theorem calls_release {r : Request} (hr : P r) (effect : Ledger → Ledger) :
    Calls P (release r effect) :=
  fun _ => ⟨[r], rfl, fun _ hr' => List.mem_singleton.mp hr' ▸ hr⟩

/-- The calls of a sequence are those of the first program and, if it has not failed, those of the
second. -/
theorem Calls.bind {p : DrmM α} {f : α → DrmM β} (hp : Calls P p) (hf : ∀ a, Calls P (f a)) :
    Calls P (p >>= f) := by
  intro w
  obtain ⟨rs, hrs, hall⟩ := hp w
  rcases hexec : exec p w with ⟨res, w'⟩
  rw [hexec] at hrs
  cases res with
  | error e =>
      rw [exec_bind_error hexec]
      exact ⟨rs, hrs, hall⟩
  | ok a =>
      rw [exec_bind_ok hexec]
      obtain ⟨rs', hrs', hall'⟩ := hf a w'
      refine ⟨rs ++ rs', ?_, List.forall_mem_append.mpr ⟨hall, hall'⟩⟩
      rw [hrs', hrs, List.append_assoc]

theorem calls_get_bind {f : World → DrmM β} (hf : ∀ w, Calls P (f w)) : Calls P (get >>= f) :=
  fun w => hf w w

/-- A program whose failure is looked at makes the calls it makes. -/
theorem Calls.attempt {p : DrmM α} (hp : Calls P p) : Calls P (attempt p) := hp

/-! ## Questions -/

/-- A probe asks the connector, and nobody else. -/
theorem probeConnector_calls (hP : ∀ id modes encoders, P (.getConnector id modes encoders))
    (connectorId : UInt32) (a : ProbeAnswers) : Calls P (probeConnector connectorId a) := by
  apply (calls_query (hP _ _ _) _).bind
  intro gc
  dsimp only
  split
  · exact calls_pure _
  · apply (calls_query (hP _ _ _) _).bind
    intro gc2
    exact calls_pure _

section

variable (hask : ∀ r : Request, r.asks = true → P r)

include hask

/-- The loop over the connectors probes each of them, also after a probe has failed. -/
theorem connectorLoop_calls (probe : Nat → UInt32 → ProbeAnswers) (i : Nat) (fallback : UInt32)
    (ids : List UInt32) : Calls P (connectorLoop probe i fallback ids) := by
  induction ids generalizing i fallback with
  | nil => exact calls_pure _
  | cons id rest ih =>
      apply (probeConnector_calls (fun _ _ _ => hask _ rfl) id (probe i id)).attempt.bind
      intro answer
      split
      · exact calls_pure _
      · exact ih (i + 1) id

theorem findConnector_calls (a : FindAnswers) : Calls P (findConnector a) := by
  apply (calls_query (hask (.getResources _) rfl) _).bind
  intro res
  split
  · exact calls_throw _
  · apply (calls_query (hask (.getConnectors _) rfl) _).bind
    intro res2
    exact connectorLoop_calls hask _ _ _ _

/-- The loop over the encoders asks each of them, up to the first that leads to a CRTC. -/
theorem encoderLoop_calls (encoder : Nat → UInt32 → Except IoError GetEncoder)
    (crtcIds : List UInt32) (i : Nat) (encoders : List UInt32) :
    Calls P (encoderLoop encoder crtcIds i encoders) := by
  induction encoders generalizing i with
  | nil => exact calls_throw _
  | cons encId rest ih =>
      unfold encoderLoop
      split
      · exact ih (i + 1)
      · apply (calls_query (hask (.getEncoder _) rfl) _).bind
        intro answer
        cases answer with
        | error e => exact ih (i + 1)
        | ok ge =>
            dsimp only
            split
            · exact calls_pure _
            · split
              · exact calls_pure _
              · exact ih (i + 1)

/-- `resolve_crtc` changes nothing, it asks for encoders and CRTCs and then each encoder. -/
theorem resolveCrtc_calls (connectorId : UInt32) (a : ResolveAnswers) :
    Calls P (resolveCrtc connectorId a) := by
  apply (calls_query (hask (.getConnector _ _ _) rfl) _).bind
  intro gc
  apply (calls_query (hask (.getConnector _ _ _) rfl) _).bind
  intro gc2
  apply (calls_query (hask (.getResources _) rfl) _).bind
  intro res
  apply (calls_query (hask (.getResources _) rfl) _).bind
  intro res2
  exact encoderLoop_calls hask _ _ _ _

end

/-! ## Buffers -/

/-- Taking a buffer down gives its three objects back and does nothing else. -/
theorem teardownScanout_calls (hrelease : ∀ r : Request, r.releases = true → P r) :
    Calls P teardownScanout := by
  apply calls_get_bind
  intro w
  split
  · exact calls_pure _
  · refine (calls_modify ?_).bind fun _ => ?_
    · exact fun _ => rfl
    apply (calls_release (hrelease (.munmap _ _) rfl) _).bind
    intro _
    apply (calls_release (hrelease (.rmFb _) rfl) _).bind
    intro _
    exact calls_release (hrelease (.destroyDumb _) rfl) _

/-- The calls of `scanout_mode` in order, each with what the calls before have answered. -/
def scanoutCalls (d : Drm) (mode : ModeInfo) (a : ScanoutAnswers) : List Request :=
  let w := mode.hdisplay.toUInt32
  let h := mode.vdisplay.toUInt32
  .createDumb w h 32 ::
    match a.createDumb with
    | .error _ => []
    | .ok cd =>
        .addFb w h cd.pitch 32 24 cd.handle ::
          match a.addFb with
          | .error _ => [.destroyDumb cd.handle]
          | .ok fbId =>
              .mapDumb cd.handle ::
                match a.mapDumb with
                | .error _ => []
                | .ok offset =>
                    .mmap cd.size.toNat offset ::
                      match a.mmap with
                      | .error _ => [.destroyDumb cd.handle]
                      | .ok _ => [.setCrtc d.crtcId fbId d.connectorId mode]

/-- The log of `scanout_mode` is the list, whichever of its calls fails. -/
theorem scanoutMode_log (mode : ModeInfo) (a : ScanoutAnswers) (w : World) :
    (exec (scanoutMode mode a) w).2.kernel.log = w.kernel.log ++ scanoutCalls w.drm mode a := by
  obtain ⟨createDumb, addFb, mapDumb, mmap, setCrtc⟩ := a
  unfold scanoutCalls
  dsimp only
  -- one exit after the other: the list stops where the first call is refused
  cases createDumb with
  | error e => rfl
  | ok cd =>
  cases addFb with
  | error e =>
      show w.kernel.log ++ [_] ++ [_] ++ [_] = w.kernel.log ++ [_, _, _]
      simp only [List.append_assoc]
      rfl
  | ok fb =>
  cases mapDumb with
  | error e =>
      show w.kernel.log ++ [_] ++ [_] ++ [_] = w.kernel.log ++ [_, _, _]
      simp only [List.append_assoc]
      rfl
  | ok offset =>
  cases mmap with
  | error e =>
      show w.kernel.log ++ [_] ++ [_] ++ [_] ++ [_] ++ [_] = w.kernel.log ++ [_, _, _, _, _]
      simp only [List.append_assoc]
      rfl
  | ok map =>
  -- whether the CRTC takes the buffer or not
  cases setCrtc <;>
  · show w.kernel.log ++ [_] ++ [_] ++ [_] ++ [_] ++ [_] = w.kernel.log ++ [_, _, _, _, _]
    simp only [List.append_assoc]
    rfl

theorem scanoutMode_calls (mode : ModeInfo) (a : ScanoutAnswers)
    (h : ∀ d, ∀ r ∈ scanoutCalls d mode a, P r) : Calls P (scanoutMode mode a) :=
  fun w => ⟨_, scanoutMode_log mode a w, h w.drm⟩

/-! ## A refresh -/

/-- A refresh once the connector has been probed. -/
def afterProbe (a : Answers) (found : Bool × List ModeInfo) : DrmM (Option Mode) :=
  if h : found.1 = false ∨ found.2 = [] then do
    teardownScanout
    return none
  else showMode ((pickMode found.2).get (pickMode_isSome (not_or.mp h).2)) a

/-- `refresh` in two parts: the probe, and what is done with what it has found. -/
theorem refresh_eq (a : Answers) :
    refresh a = get >>= fun w => probeConnector w.drm.connectorId a.probe >>= afterProbe a := rfl

section

variable (a : Answers) (hask : ∀ r : Request, r.asks = true → P r)
  (hrelease : ∀ r : Request, r.releases = true → P r)
  (hscan : ∀ d mode, ∀ r ∈ scanoutCalls d mode a.scanout, P r)

include hask hrelease hscan

/-- After the probe the old buffer is taken down, or the CRTC is asked for and a new buffer takes
the place of the old one, or nothing happens at all. -/
theorem afterProbe_calls (found : Bool × List ModeInfo) : Calls P (afterProbe a found) := by
  unfold afterProbe
  split
  · apply (teardownScanout_calls hrelease).bind
    intro _
    exact calls_pure _
  · apply calls_get_bind
    intro w
    dsimp only
    split
    · -- the buffer of this mode is on the screen already
      exact calls_pure _
    · apply (resolveCrtc_calls hask _ _).bind
      intro crtcId
      refine (calls_modify ?_).bind fun _ => ?_
      · exact fun _ => rfl
      apply (teardownScanout_calls hrelease).bind
      intro _
      apply (scanoutMode_calls _ _ fun d r hr => hscan d _ r hr).bind
      intro _
      exact calls_pure _

/-- The calls of a refresh are questions, calls that give something back, and those of
`scanout_mode`. -/
theorem refresh_calls : Calls P (refresh a) := by
  rw [refresh_eq]
  apply calls_get_bind
  intro w
  exact (probeConnector_calls (fun _ _ _ => hask _ rfl) _ _).bind
    (afterProbe_calls a hask hrelease hscan)

end

/-- The call is `GETCONNECTOR`. -/
def IsGetConnector (r : Request) : Prop := ∃ id modes encoders, r = .getConnector id modes encoders

/-- A call that a program makes first, whatever comes of it, is in the log of all that begins
with it. -/
theorem query_bind_log (r : Request) (answer : Except IoError α) {f : α → DrmM β}
    (hf : ∀ x, Calls (fun _ => True) (f x)) (w : World) :
    ∃ rs, (exec (query r answer >>= f) w).2.kernel.log = w.kernel.log ++ r :: rs := by
  cases answer with
  | error e => exact ⟨[], rfl⟩
  | ok x =>
      have hexec : exec (query r (.ok x)) w = (.ok x, { w with
          kernel := { ledger := w.kernel.ledger, log := w.kernel.log ++ [r] } }) := rfl
      rw [exec_bind_ok hexec]
      obtain ⟨rs, hrs, -⟩ := hf x { w with
        kernel := { ledger := w.kernel.ledger, log := w.kernel.log ++ [r] } }
      refine ⟨rs, hrs.trans ?_⟩
      rw [List.append_assoc]
      rfl

/-- Every refresh begins with a question to the connector. -/
theorem refresh_probes (a : Answers) (w : World) :
    ∃ rs, (exec (refresh a) w).2.kernel.log =
      w.kernel.log ++ .getConnector w.drm.connectorId 0 0 :: rs := by
  have hafter : ∀ found, Calls (fun _ => True) (afterProbe a found) :=
    afterProbe_calls a (fun _ _ => trivial) (fun _ _ => trivial) fun _ _ _ _ => trivial
  rw [refresh_eq, exec_get_bind, probeConnector, bind_assoc]
  apply query_bind_log
  intro gc
  dsimp only
  split
  · rw [pure_bind]
    exact hafter _
  · rw [bind_assoc]
    apply (calls_query trivial _).bind
    intro gc2
    rw [pure_bind]
    exact hafter _

/-- What a refresh maps is the dumb buffer that it has made, as a whole and at the offset that
`MAP_DUMB` has answered. -/
theorem refresh_maps (a : Answers) :
    Calls (fun r => ∀ len offset, r = .mmap len offset → a.scanout.mapDumb = .ok offset ∧
      ∃ cd, a.scanout.createDumb = .ok cd ∧ len = cd.size.toNat) (refresh a) := by
  refine refresh_calls a ?_ ?_ ?_
  · rintro r hask len offset rfl
    cases hask
  · rintro r hrelease len offset rfl
    cases hrelease
  · rintro d mode r hr len offset rfl
    unfold scanoutCalls at hr
    -- the only mapping in the list is behind the two answers
    cases hcd : a.scanout.createDumb with
    | error e =>
        rw [hcd] at hr
        simp at hr
    | ok cd =>
        rw [hcd] at hr
        cases hfb : a.scanout.addFb with
        | error e =>
            rw [hfb] at hr
            simp at hr
        | ok fb =>
            rw [hfb] at hr
            cases hmd : a.scanout.mapDumb with
            | error e =>
                rw [hmd] at hr
                simp at hr
            | ok offset' =>
                rw [hmd] at hr
                have heq : len = cd.size.toNat ∧ offset = offset' := by
                  cases hmap : a.scanout.mmap with
                  | error e =>
                      rw [hmap] at hr
                      simpa using hr
                  | ok map =>
                      rw [hmap] at hr
                      simpa using hr
                exact ⟨by rw [heq.2], cd, rfl, heq.1⟩

end Drm

end K1de
