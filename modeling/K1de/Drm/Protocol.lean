import K1de.Lib.Protocol
import K1de.Drm.Calls
import K1de.Drm.Ledger
import K1de.Drm.Probe

/-! # The driver's calls are lawful

The kernel hands out dumb buffers, framebuffers and mappings, and a call may name only what is
live: a framebuffer is made of a live dumb buffer, only a live framebuffer is put on the screen
or flushed, and only a live object is given back (`Lawful`). The driver never breaks this rule,
whatever the kernel refuses (`refresh_obeys`, `flush_obeys`, `teardownScanout_obeys`): nothing is
used after it was given back, and nothing is given back twice.

What makes it so is that the objects of the buffer that the driver has recorded are live
(`Owns`). The leaks of `scanout_mode` do not change that: what leaks is not recorded.
-/

namespace K1de

open Effect Protocol

/-! ## The kernel's rule -/

namespace Request

/-- The objects that the call names are live. `mmap` names no object but the offset that `MAP_DUMB`
has answered: see `refresh_maps`. -/
def Names (l : Ledger) : Request → Prop
  | .addFb _ _ _ _ _ handle | .mapDumb handle | .destroyDumb handle => handle ∈ l.handles
  | .setCrtc _ fbId _ _ | .rmFb fbId | .dirtyFb fbId => fbId ∈ l.fbs
  | .munmap map len => (map, len) ∈ l.maps
  | _ => True

/-- What a call can do to the live objects. -/
inductive Yields : Request → Ledger → Ledger → Prop where
  /-- a question, or a request that is refused -/
  | same {r : Request} (hr : r.releases = false) (l : Ledger) : Yields r l l
  | handle (width height bpp handle : UInt32) (l : Ledger) :
      Yields (.createDumb width height bpp) l (l.addHandle handle)
  | fb (width height pitch bpp depth handle fbId : UInt32) (l : Ledger) :
      Yields (.addFb width height pitch bpp depth handle) l (l.addFb fbId)
  | map (len : Nat) (offset : UInt64) (addr : Nat) (l : Ledger) :
      Yields (.mmap len offset) l (l.addMap (addr, len))
  | unmapped (addr len : Nat) (l : Ledger) : Yields (.munmap addr len) l (l.dropMap (addr, len))
  | fbGone (fbId : UInt32) (l : Ledger) : Yields (.rmFb fbId) l (l.dropFb fbId)
  | handleGone (handle : UInt32) (l : Ledger) : Yields (.destroyDumb handle) l (l.dropHandle handle)

end Request

/-- A lawful call, from live objects to live objects. -/
def Lawful (l : Ledger) (r : Request) (l' : Ledger) : Prop := r.Names l ∧ r.Yields l l'

/-- The system calls of the driver. -/
def systemCalls : Interface World Ledger Request where
  objects w := w.kernel.ledger
  log w := w.kernel.log
  allowed := Lawful

/-! ## What the driver has recorded is live -/

/-- The objects of the buffer are live. -/
structure ScanOut.Live (so : ScanOut) (l : Ledger) : Prop where
  handle : so.dumbHandle ∈ l.handles
  fb : so.fbId ∈ l.fbs
  map : (so.map, so.mapLen) ∈ l.maps

def Owns (w : World) : Prop := ∀ so, w.drm.scanout = some so → so.Live w.kernel.ledger

/-- With no buffer recorded there is nothing to be live. -/
theorem owns_of_none {w : World} (h : w.drm.scanout = none) : Owns w := by
  intro so hso
  cases h.symm.trans hso

/-- Questions do not touch the objects. -/
theorem Owns.of_same {w w' : World} (h : Owns w) (hw : World.Same w w') : Owns w' := by
  intro so hso
  rw [hw.drm_eq] at hso
  rw [hw.ledger_eq]
  exact h so hso

namespace Drm

variable {α : Type}

/-- The driver keeps the rule and its records. -/
abbrev Obedient (p : DrmM α) : Prop := Obeys systemCalls Owns p

/-! ## Questions -/

/-- A program that only asks keeps the rule, and touches nothing that the rule is about. -/
theorem asking_obeys {p : DrmM α} (hcalls : Calls (fun r => r.asks = true) p)
    (hsame : ∀ w, World.Same w (exec p w).2) : Obedient p := by
  intro w hw
  obtain ⟨rs, hlog, hasks⟩ := hcalls w
  refine ⟨⟨rs, hlog, ?_⟩, hw.of_same (hsame w)⟩
  show Trace Lawful w.kernel.ledger rs (exec p w).2.kernel.ledger
  rw [(hsame w).ledger_eq]
  refine .idle fun r hr => ?_
  have hask := hasks r hr
  -- a question names no object
  cases r with
  | getConnector | getResources | getConnectors | getEncoder => exact ⟨trivial, .same rfl _⟩
  | _ => cases hask

theorem probeConnector_obeys (connectorId : UInt32) (a : ProbeAnswers) :
    Obedient (probeConnector connectorId a) :=
  asking_obeys (probeConnector_calls (fun _ _ _ => rfl) connectorId a) fun w =>
    (probeConnector_asks connectorId a w).2

theorem resolveCrtc_obeys (connectorId : UInt32) (a : ResolveAnswers) :
    Obedient (resolveCrtc connectorId a) :=
  asking_obeys (resolveCrtc_calls (fun _ hr => hr) connectorId a) fun w =>
    (resolveCrtc_asks connectorId a w).2

/-- The search for a connector only asks. -/
theorem findConnector_obeys (a : FindAnswers) : Obedient (findConnector a) :=
  asking_obeys (findConnector_calls (fun _ hr => hr) a) (findConnector_same a)

/-! ## Buffers -/

/-- Taking the buffer down gives back what is live, and each object once. -/
theorem teardownScanout_obeys : Obedient teardownScanout := by
  intro w hw
  cases hso : w.drm.scanout with
  | none =>
      have hexec : exec teardownScanout w = (.ok (), w) := by
        rw [teardownScanout, exec_get_bind, hso]
        rfl
      rw [hexec]
      exact ⟨Follows.refl w, hw⟩
  | some so =>
      obtain ⟨hhandle, hfb, hmap⟩ := hw so hso
      have hexec : exec teardownScanout w = (.ok (),
          { drm := { w.drm with scanout := none }
            kernel :=
              { ledger := ((w.kernel.ledger.dropMap (so.map, so.mapLen)).dropFb so.fbId).dropHandle
                  so.dumbHandle
                log := w.kernel.log ++ [.munmap so.map so.mapLen] ++ [.rmFb so.fbId] ++
                  [.destroyDumb so.dumbHandle] } }) := by
        rw [teardownScanout, exec_get_bind, hso]
        rfl
      rw [hexec]
      refine ⟨⟨[.munmap so.map so.mapLen, .rmFb so.fbId, .destroyDumb so.dumbHandle], ?_, ?_⟩, ?_⟩
      · simp [systemCalls]
      · -- mapping, framebuffer and dumb buffer, each still live when its turn comes
        exact .cons ⟨hmap, .unmapped _ _ _⟩ (.cons ⟨hfb, .fbGone _ _⟩ (.single
          ⟨hhandle, .handleGone _ _⟩))
      · exact owns_of_none rfl

/-- What is live stays live as long as objects are only added. -/
theorem live_mono {so : ScanOut} {l l' : Ledger} (h : so.Live l) (hhandles : l.handles ⊆ l'.handles)
    (hfbs : l.fbs ⊆ l'.fbs) (hmaps : l.maps ⊆ l'.maps) : so.Live l' :=
  ⟨hhandles h.handle, hfbs h.fb, hmaps h.map⟩

/-- The records after `scanout_mode`: what leaks is not recorded, what is recorded was made. -/
theorem Scanned.owns {mode : ModeInfo} {a : ScanoutAnswers} {w w' : World}
    {r : Except IoError Unit} (h : Scanned mode a w r w') (hw : Owns w) : Owns w' := by
  intro so hso
  cases h with
  | createDumbFailed _ hsame => exact hw.of_same hsame so hso
  | addFbFailed _ _ hsame => exact hw.of_same hsame so hso
  -- the three leaks: the record is the old one, and the objects are more than before
  | mapDumbFailed _ _ _ hdrm hl =>
      rw [hdrm] at hso
      rw [hl]
      exact live_mono (hw so hso) (List.subset_cons_self _ _) (List.subset_cons_self _ _)
        (List.Subset.refl _)
  | mmapFailed _ _ _ hdrm hl =>
      rw [hdrm] at hso
      rw [hl]
      exact live_mono (hw so hso) (List.Subset.refl _) (List.subset_cons_self _ _)
        (List.Subset.refl _)
  | setCrtcFailed _ _ _ hdrm hl =>
      rw [hdrm] at hso
      rw [hl]
      exact live_mono (hw so hso) (List.subset_cons_self _ _) (List.subset_cons_self _ _)
        (List.subset_cons_self _ _)
  | installed _ _ _ _ _ hdrm hl =>
      rw [hdrm] at hso
      cases hso
      rw [hl]
      exact ⟨List.mem_cons_self, List.mem_cons_self, List.mem_cons_self⟩

/-- In `scanout_mode` every call names what the calls before have made. -/
theorem scanoutMode_obeys (mode : ModeInfo) (a : ScanoutAnswers) :
    Obedient (scanoutMode mode a) := by
  intro w hw
  refine ⟨⟨_, scanoutMode_log mode a w, ?_⟩, (scanoutMode_scanned mode a w).owns hw⟩
  obtain ⟨createDumb, addFb, mapDumb, mmap, setCrtc⟩ := a
  show Trace Lawful w.kernel.ledger _ _
  let l := w.kernel.ledger
  unfold scanoutCalls
  dsimp only
  cases createDumb with
  | error e => exact .single ⟨trivial, .same rfl _⟩
  | ok cd =>
  -- the dumb buffer is live from here on
  have hlive : cd.handle ∈ (l.addHandle cd.handle).handles := List.mem_cons_self
  refine .cons ⟨trivial, .handle _ _ _ cd.handle l⟩ ?_
  cases addFb with
  | error e => exact .cons ⟨hlive, .same rfl _⟩ (.single ⟨hlive, .handleGone _ _⟩)
  | ok fb =>
  -- and the framebuffer
  refine .cons ⟨hlive, .fb _ _ _ _ _ _ fb _⟩ ?_
  cases mapDumb with
  | error e => exact .single ⟨hlive, .same rfl _⟩
  | ok offset =>
  refine .cons ⟨hlive, .same rfl _⟩ ?_
  cases mmap with
  | error e => exact .cons ⟨trivial, .same rfl _⟩ (.single ⟨hlive, .handleGone _ _⟩)
  | ok map =>
  -- whether the CRTC takes it or not
  refine .cons ⟨trivial, .map _ _ map _⟩ ?_
  cases setCrtc <;> exact .single ⟨List.mem_cons_self, .same rfl _⟩

/-- A new buffer: the old one is taken down before the calls that make the new one. -/
theorem showMode_obeys (mode : ModeInfo) (a : Answers) : Obedient (showMode mode a) := by
  apply obeys_get_bind
  intro w
  dsimp only
  split
  · exact obeys_pure _
  · apply (resolveCrtc_obeys _ _).bind
    intro crtcId
    -- the new CRTC is the driver's own record
    refine Obeys.bind (obeys_modify ?_ ?_ ?_) fun _ => ?_
    · exact fun _ => rfl
    · exact fun _ => rfl
    · exact fun _ hw => hw
    apply teardownScanout_obeys.bind
    intro _
    apply (scanoutMode_obeys mode a.scanout).bind
    intro _
    exact obeys_pure _

/-- A refresh keeps the rule, whatever it finds and whatever is refused. -/
theorem refresh_obeys (a : Answers) : Obedient (refresh a) := by
  apply obeys_get_bind
  intro w
  apply (probeConnector_obeys _ _).bind
  rintro ⟨connected, modes⟩
  dsimp only
  split
  · apply teardownScanout_obeys.bind
    intro _
    exact obeys_pure _
  · exact showMode_obeys _ a

/-- Only the buffer on the screen is flushed. -/
theorem flush_obeys : Obedient flush := by
  intro w hw
  have hsame := (flush_asks w).2
  refine ⟨?_, hw.of_same hsame⟩
  cases hso : w.drm.scanout with
  | none =>
      have hexec : exec flush w = (.ok (), w) := by
        rw [flush, exec_get_bind, hso]
        rfl
      rw [hexec]
      exact Follows.refl w
  | some so =>
      refine Follows.call (k := .dirtyFb so.fbId) ?_ ?_
      · show (exec flush w).2.kernel.log = w.kernel.log ++ [.dirtyFb so.fbId]
        rw [flush, exec_get_bind, hso]
        rfl
      · show Lawful w.kernel.ledger _ (exec flush w).2.kernel.ledger
        rw [hsame.ledger_eq]
        exact ⟨(hw so hso).fb, .same rfl _⟩

end Drm

end K1de
