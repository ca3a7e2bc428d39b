import K1de.Drm.Spec

/-! # Probing connectors

`probe_connector` asks for the number of modes and then for the modes. The kernel writes
its list only if it fits the array of the caller, and reports the true number again. The
second number is not looked at: when the list has changed in between, entries of the
array that were never written are returned as modes (`probe_reports_iff`).

`find_connector` returns the first connector that is connected. Where there is none it
returns the last one of the list and not the first (`findConnector_iff`).
-/

namespace K1de

open Effect

/-! ## The mode list -/

/-- A connector as the kernel knows it at the time of a call. -/
structure Connector where
  connection : UInt32
  modes : List ModeInfo
  encoders : List UInt32
  encoderId : UInt32
deriving DecidableEq, Repr

/-- A list is written only as a whole. -/
def whole {α : Type} (xs : List α) (room : UInt32) : List α :=
  if xs.length ≤ room.toNat then xs else []

/-- The kernel's answer to a `GETCONNECTOR` call with this room. -/
def Connector.answer (k : Connector) (countModes countEncoders : UInt32) : GetConnector :=
  { connection := k.connection
    countModes := UInt32.ofNat k.modes.length
    countEncoders := UInt32.ofNat k.encoders.length
    encoderId := k.encoderId
    modes := whole k.modes countModes
    encoders := whole k.encoders countEncoders }

namespace Drm

/-- The array keeps its length, whatever is written into it. -/
@[simp] theorem length_writeArray {α : Type} (array written : List α) :
    (writeArray array written).length = array.length := by
  simp only [writeArray, List.length_append, List.length_take, List.length_drop]
  omega

/-- A list as long as the array replaces all of it. -/
theorem writeArray_of_length {α : Type} {array written : List α}
    (h : written.length = array.length) : writeArray array written = written := by
  rw [writeArray, List.take_of_length_le (by omega), List.drop_of_length_le (by omega),
    List.append_nil]

/-- What is returned after the second call. -/
theorem exec_probeConnector (connectorId : UInt32) {gc : GetConnector} (hcount : gc.countModes ≠ 0)
    (gc2 : GetConnector) (w : World) :
    (exec (probeConnector connectorId ⟨.ok gc, .ok gc2⟩) w).1 =
      .ok (gc2.connection = modeConnected,
        writeArray (List.replicate gc.countModes.toNat ModeInfo.zero) gc2.modes) := by
  rw [(probeConnector_asks connectorId _ w).1]
  show (if gc.countModes = 0 then _ else _) = _
  rw [if_neg hcount]
  rfl

/-- A probe that makes both calls returns the kernel's mode list exactly if the list has
as many modes as the first call has reported. -/
theorem probe_reports_iff (connectorId : UInt32) (gc : GetConnector) (hcount : gc.countModes ≠ 0)
    (k : Connector) (w : World) :
    (∃ connected, (exec (probeConnector connectorId
        ⟨.ok gc, .ok (k.answer gc.countModes gc.countEncoders)⟩) w).1 = .ok (connected, k.modes)) ↔
      k.modes.length = gc.countModes.toNat := by
  rw [exec_probeConnector connectorId hcount]
  constructor
  · rintro ⟨connected, heq⟩
    -- the array keeps the length that the first call gave it
    have hmodes : _ = k.modes := congrArg Prod.snd (Except.ok.inj heq)
    rw [← hmodes, length_writeArray, List.length_replicate]
  · intro hlength
    refine ⟨_, congrArg Except.ok (Prod.ext rfl ?_)⟩
    have hwhole : whole k.modes gc.countModes = k.modes := if_pos hlength.le
    show writeArray _ (whole k.modes gc.countModes) = k.modes
    rw [hwhole, writeArray_of_length]
    rw [hlength, List.length_replicate]

/-- A mode of 640 by 480, and one of 800 by 600. -/
def vga : ModeInfo := { hdisplay := 640, vdisplay := 480, modeType := 8 }

def svga : ModeInfo := { hdisplay := 800, vdisplay := 600, modeType := 0 }

/-- A connected display with these modes. -/
def monitor (modes : List ModeInfo) : Connector :=
  { connection := 1, modes, encoders := [], encoderId := 0 }

/-- A probe during which the modes change from `before` to `after`. -/
def changing (before after : List ModeInfo) : ProbeAnswers :=
  let first := (monitor before).answer 0 0
  { first := .ok first, second := .ok ((monitor after).answer first.countModes 0) }

theorem probe_reports_iff_vga :
    ∃ connected, (exec (probeConnector 1 ⟨.ok ((monitor [vga]).answer 0 0),
      .ok ((monitor [vga]).answer 1 0)⟩) opened).1 = .ok (connected, [vga]) :=
  (probe_reports_iff 1 ((monitor [vga]).answer 0 0) (by decide) (monitor [vga]) opened).mpr rfl

/-- When the list shrinks, a mode of 0 by 0 is returned after the true ones. When it
grows or becomes empty, nothing else is returned. -/
theorem changed_list_leaves_zero_modes :
    (exec (probeConnector 1 (changing [vga, svga] [vga])) opened).1 =
      .ok (true, [vga, ModeInfo.zero]) ∧
    (exec (probeConnector 1 (changing [vga] [vga, svga])) opened).1 =
      .ok (true, [ModeInfo.zero]) ∧
    (exec (probeConnector 1 (changing [vga] [])) opened).1 = .ok (true, [ModeInfo.zero]) := by
  refine ⟨rfl, rfl, rfl⟩

end Drm

/-! ## The choice of a connector -/

/-- The probe succeeds and reports a display. -/
def ProbeAnswers.connects (a : ProbeAnswers) : Bool :=
  match a.result with
  | .ok (true, _) => true
  | _ => false

namespace Drm

variable (probe : Nat → UInt32 → ProbeAnswers)

/-- The first connected connector from place `i` on. -/
def firstConnected (i : Nat) (ids : List UInt32) : Option UInt32 :=
  ((ids.zipIdx i).find? fun c => (probe c.2 c.1).connects).map Prod.fst

theorem firstConnected_cons (i : Nat) (id : UInt32) (ids : List UInt32) :
    firstConnected probe i (id :: ids) =
      if (probe i id).connects then some id else firstConnected probe (i + 1) ids := by
  rw [firstConnected, List.zipIdx_cons, List.find?_cons]
  cases (probe i id).connects <;> rfl

/-- A failure that is looked at is what the program has found out. -/
theorem asks_attempt {α : Type} {p : DrmM α} {r : Except IoError α} (h : Asks p r) :
    Asks (attempt p) (.ok r) := by
  intro w
  obtain ⟨hr, hw⟩ := h w
  exact ⟨congrArg Except.ok hr, hw⟩

/-- The loop returns the first connected connector, otherwise the last one it has seen. -/
theorem connectorLoop_asks (i : Nat) (fallback : UInt32) (ids : List UInt32) :
    Asks (connectorLoop probe i fallback ids)
      (.ok ((firstConnected probe i ids).getD (ids.getLast?.getD fallback))) := by
  induction ids generalizing i fallback with
  | nil => exact asks_pure fallback
  | cons id ids ih =>
      have hlast : (id :: ids).getLast?.getD fallback = ids.getLast?.getD id := by
        rw [List.getLast?_cons, Option.getD_some]
      rw [firstConnected_cons, hlast, ProbeAnswers.connects]
      refine asks_bind (r := .ok (probe i id).result) (g := fun _ => ?_)
        (asks_attempt (probeConnector_asks id (probe i id))) ?_
      intro answer hanswer
      cases hanswer
      -- a failed probe and a connector without a display are passed over alike
      cases (probe i id).result with
      | error e => exact ih (i + 1) id
      | ok found =>
          obtain ⟨connected, modes⟩ := found
          cases connected with
          | true => exact asks_pure id
          | false => exact ih (i + 1) id

/-- Looking for a connector changes nothing but the log. -/
theorem findConnector_same (a : FindAnswers) (w : World) :
    World.Same w (exec (findConnector a) w).2 := by
  have hpost : Post (findConnector a) w (fun _ w' => World.Same w w')
      (fun _ w' => World.Same w w') := by
    unfold findConnector
    apply post_bind
    apply (asks_query _ _).post
    · intro res w₁ _ hw₁
      split
      · exact hw₁
      · apply post_bind
        apply (asks_query _ _).post
        · intro res2 w₂ _ hw₂
          apply (connectorLoop_asks _ _ _ _).post
          · intro id w₃ _ hw₃
            exact (hw₁.trans hw₂).trans hw₃
          · intro e w₃ _ hw₃
            exact (hw₁.trans hw₂).trans hw₃
        · intro e w₂ _ hw₂
          exact hw₁.trans hw₂
    · intro e w₁ _ hw₁
      exact hw₁
  exact (post_iff_rel (R := fun _ (w' : World) => World.Same w w')).mp hpost

/-- The kernel lists these connectors in both calls. -/
structure Lists (a : FindAnswers) (ids : List UInt32) : Prop where
  counted : ∃ res, a.resources = .ok res ∧ res.countConnectors.toNat = ids.length
  fetched : ∃ res, a.connectors = .ok res ∧ res.connectorIds = ids

/-- `find_connector` on a list that is not empty: the first connected connector, otherwise the
last. -/
theorem findConnector_asks {a : FindAnswers} {ids : List UInt32} (h : Lists a ids)
    (hne : ids ≠ []) :
    Asks (findConnector a)
      (.ok ((firstConnected a.probe 0 ids).getD (ids.getLast?.getD 0))) := by
  obtain ⟨res, hres, hcount⟩ := h.counted
  obtain ⟨res2, hres2, hids⟩ := h.fetched
  have hlength : 0 < ids.length := List.length_pos_of_ne_nil hne
  have hcount' : res.countConnectors ≠ 0 := by
    intro hzero
    rw [hzero] at hcount
    exact absurd hcount.symm hlength.ne'
  -- the list has not changed between the two calls, so it fills the array
  have hwrite :
      writeArray (List.replicate res.countConnectors.toNat 0) res2.connectorIds = ids := by
    rw [hids, writeArray_of_length]
    rw [List.length_replicate, hcount]
  obtain ⟨last, hlast⟩ := List.getLast?_isSome.mpr hne |> Option.isSome_iff_exists.mp
  have hloop := connectorLoop_asks a.probe 0 (ids.headD 0) ids
  rw [hlast, Option.getD_some] at hloop ⊢
  unfold findConnector
  rw [hres, hres2]
  refine asks_bind (r := .ok res) (g := fun _ => ?_) (asks_query _ _) ?_
  intro res' hres'
  cases hres'
  rw [if_neg hcount']
  refine asks_bind (r := .ok res2) (g := fun _ => ?_) (asks_query _ _) ?_
  intro res' hres'
  cases hres'
  dsimp only
  rw [hwrite]
  exact hloop

/-- There is a first connected connector if any is connected. -/
theorem firstConnected_isSome (ids : List UInt32) :
    (firstConnected probe 0 ids).isSome ↔
      ∃ i id, ids[i]? = some id ∧ (probe i id).connects := by
  rw [firstConnected, Option.isSome_map, List.find?_isSome]
  constructor
  · rintro ⟨⟨id, i⟩, hmem, hconnects⟩
    exact ⟨i, id, List.mem_zipIdx_iff_getElem?.mp hmem, hconnects⟩
  · rintro ⟨i, id, hid, hconnects⟩
    exact ⟨(id, i), List.mem_zipIdx_iff_getElem?.mpr hid, hconnects⟩

/-- The connector to choose: the first one that is connected, otherwise the first one. -/
def wanted (ids : List UInt32) : UInt32 := (firstConnected probe 0 ids).getD (ids.headD 0)

/-- `find_connector` chooses the right connector exactly if one is connected or the list
ends with the connector it begins with. -/
theorem findConnector_iff (a : FindAnswers) (ids : List UInt32) (hne : ids ≠ [])
    (h : Lists a ids) (w : World) :
    (exec (findConnector a) w).1 = .ok (wanted a.probe ids) ↔
      (∃ i id, ids[i]? = some id ∧ (a.probe i id).connects) ∨ ids.head? = ids.getLast? := by
  rw [(findConnector_asks h hne w).1, wanted, ← firstConnected_isSome]
  cases hfound : firstConnected a.probe 0 ids with
  | some id => exact iff_of_true rfl (Or.inl rfl)
  | none =>
      -- without a connected one the last is returned and the first is wanted
      obtain ⟨last, hlast⟩ := Option.isSome_iff_exists.mp (List.getLast?_isSome.mpr hne)
      obtain ⟨first, hfirst⟩ := Option.isSome_iff_exists.mp (List.isSome_head?.mpr hne)
      rw [hlast, hfirst, List.headD_eq_head?_getD, hfirst]
      constructor
      · intro heq
        exact Or.inr (congrArg some (Except.ok.inj heq).symm)
      · rintro (hsome | heq)
        · cases hsome
        · exact congrArg Except.ok (Option.some.inj heq).symm

/-- Two connectors: the first is not connected, and the second has this state. -/
def twoConnectors (connection : UInt32) : FindAnswers :=
  { resources := .ok { countConnectors := 2, connectorIds := [] }
    connectors := .ok { countConnectors := 2, connectorIds := [31, 32] }
    probe := fun _ id =>
      let k : Connector := { monitor [] with connection := if id = 32 then connection else 2 }
      { first := .ok (k.answer 0 0), second := .ok (k.answer 0 0) } }

theorem lists_twoConnectors (connection : UInt32) : Lists (twoConnectors connection) [31, 32] :=
  ⟨⟨_, rfl, rfl⟩, ⟨_, rfl, rfl⟩⟩

theorem findConnector_iff_twoConnectors :
    (exec (findConnector (twoConnectors 1)) opened).1 =
      .ok (wanted (twoConnectors 1).probe [31, 32]) :=
  (findConnector_iff (twoConnectors 1) [31, 32] (by decide) (lists_twoConnectors 1) opened).mpr
    (Or.inl ⟨1, 32, rfl, rfl⟩)

/-- If the second is not connected either, the first one should be chosen, and the
second one is. -/
theorem last_connector_chosen :
    wanted (twoConnectors 2).probe [31, 32] = 31 ∧
    (exec (findConnector (twoConnectors 2)) opened).1 = .ok 32 := by
  exact ⟨rfl, rfl⟩

end Drm

end K1de
