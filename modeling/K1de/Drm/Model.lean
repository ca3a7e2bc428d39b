import K1de.Lib.Effect

/-! # The display driver

`drm.rs`: probing a connector, choosing a mode and a CRTC, and putting a dumb
buffer on the screen. A method of `Drm` is a program over the `World`: the
`Drm` value and the kernel. It may fail with an `IoError`, and then keeps what
it did so far.

Every system call may succeed or fail as it likes. The kernel's answers are
arguments, collected in records with one field for each call that a method
makes (`Answers`). What the kernel keeps is a ledger of the live objects and a
log of the calls.
-/

namespace K1de

open Effect

/-! ## Data -/

/-- `io::Error`: a failed system call, or an error the program makes itself. -/
inductive IoError where
  | os (errno : Int)
  | notFound (text : String)
deriving DecidableEq, Repr

/-- The fields of `drm_mode_modeinfo` that the program reads. -/
structure ModeInfo where
  hdisplay : UInt16
  vdisplay : UInt16
  modeType : UInt32
deriving DecidableEq, Repr

/-- `ModeInfo::default()`. -/
def ModeInfo.zero : ModeInfo := { hdisplay := 0, vdisplay := 0, modeType := 0 }

/-- `DRM_MODE_TYPE_PREFERRED`. -/
def modeTypePreferred : UInt32 := (1 : UInt32) <<< 3

/-- `DRM_MODE_CONNECTED`. -/
def modeConnected : UInt32 := 1

structure Mode where
  width : UInt32
  height : UInt32
deriving DecidableEq, Repr

/-- The size of a mode, as the program passes it on. -/
def ModeInfo.size (m : ModeInfo) : Mode :=
  { width := m.hdisplay.toUInt32, height := m.vdisplay.toUInt32 }

/-- A dumb buffer on the screen. `mem` is the memory behind `map`. -/
structure ScanOut where
  fbId : UInt32
  dumbHandle : UInt32
  map : Nat
  mapLen : Nat
  pitch : UInt32
  width : UInt32
  height : UInt32
  mem : List UInt8
deriving DecidableEq, Repr

def ScanOut.size (so : ScanOut) : Mode := { width := so.width, height := so.height }

structure Drm where
  connectorId : UInt32
  crtcId : UInt32
  scanout : Option ScanOut
deriving DecidableEq, Repr

/-! ## The kernel -/

/-- A system call with what the caller passes. -/
inductive Request where
  | getConnector (connectorId countModes countEncoders : UInt32)
  | getResources (countCrtcs : UInt32)
  /-- `GETRESOURCES` with room for connector ids -/
  | getConnectors (countConnectors : UInt32)
  | getEncoder (encoderId : UInt32)
  | createDumb (width height bpp : UInt32)
  | addFb (width height pitch bpp depth handle : UInt32)
  | mapDumb (handle : UInt32)
  | mmap (len : Nat) (offset : UInt64)
  | setCrtc (crtcId fbId connectorId : UInt32) (mode : ModeInfo)
  | munmap (map len : Nat)
  | rmFb (fbId : UInt32)
  | destroyDumb (handle : UInt32)
  | dirtyFb (fbId : UInt32)
deriving DecidableEq, Repr

/-- The live objects: dumb buffer handles, framebuffer ids, and mappings by
address and length. -/
structure Ledger where
  handles : List UInt32
  fbs : List UInt32
  maps : List (Nat × Nat)
deriving DecidableEq, Repr

namespace Ledger

def empty : Ledger := { handles := [], fbs := [], maps := [] }

def addHandle (h : UInt32) (l : Ledger) : Ledger := { l with handles := h :: l.handles }

def addFb (fb : UInt32) (l : Ledger) : Ledger := { l with fbs := fb :: l.fbs }

def addMap (m : Nat × Nat) (l : Ledger) : Ledger := { l with maps := m :: l.maps }

def dropHandle (h : UInt32) (l : Ledger) : Ledger := { l with handles := l.handles.erase h }

def dropFb (fb : UInt32) (l : Ledger) : Ledger := { l with fbs := l.fbs.erase fb }

def dropMap (m : Nat × Nat) (l : Ledger) : Ledger := { l with maps := l.maps.erase m }

end Ledger

structure Kernel where
  ledger : Ledger
  log : List Request
deriving DecidableEq, Repr

structure World where
  drm : Drm
  kernel : Kernel
deriving DecidableEq, Repr

abbrev DrmM := Prog World IoError

/-- What a `GETCONNECTOR` call leaves in the caller's struct and arrays. -/
structure GetConnector where
  connection : UInt32
  countModes : UInt32
  countEncoders : UInt32
  encoderId : UInt32
  modes : List ModeInfo
  encoders : List UInt32
deriving DecidableEq, Repr

/-- What a `GETRESOURCES` call leaves there. -/
structure CardRes where
  countCrtcs : UInt32
  crtcIds : List UInt32
deriving DecidableEq, Repr

/-- The same for the connectors. -/
structure ConnectorRes where
  countConnectors : UInt32
  connectorIds : List UInt32
deriving DecidableEq, Repr

structure GetEncoder where
  crtcId : UInt32
  possibleCrtcs : UInt32
deriving DecidableEq, Repr

structure CreateDumb where
  handle : UInt32
  pitch : UInt32
  size : UInt64
deriving DecidableEq, Repr

/-- The two `GETCONNECTOR` calls of `probe_connector`. -/
structure ProbeAnswers where
  first : Except IoError GetConnector
  second : Except IoError GetConnector

/-- The calls of `find_connector`. The answers about a connector may depend on its place
in the list. -/
structure FindAnswers where
  resources : Except IoError ConnectorRes
  connectors : Except IoError ConnectorRes
  probe : Nat → UInt32 → ProbeAnswers

/-- The calls of `resolve_crtc`. The answer about an encoder may depend on its
place in the list, so that asking twice may give two answers. -/
structure ResolveAnswers where
  connector : Except IoError GetConnector
  encoders : Except IoError GetConnector
  resources : Except IoError CardRes
  crtcs : Except IoError CardRes
  encoder : Nat → UInt32 → Except IoError GetEncoder

/-- The calls of `scanout_mode`. -/
structure ScanoutAnswers where
  createDumb : Except IoError CreateDumb
  /-- the framebuffer id -/
  addFb : Except IoError UInt32
  /-- the offset to map -/
  mapDumb : Except IoError UInt64
  /-- the address of the mapping -/
  mmap : Except IoError Nat
  setCrtc : Except IoError Unit

/-- The calls of one `refresh`. -/
structure Answers where
  probe : ProbeAnswers
  resolve : ResolveAnswers
  scanout : ScanoutAnswers

namespace Drm

variable {α : Type}

/-! ## System calls -/

/-- A call that the kernel answers, with its effect on the ledger if it succeeds. -/
def acquire (r : Request) (effect : α → Ledger → Ledger) (answer : Except IoError α) : DrmM α :=
  fun w =>
    match answer with
    | .ok x => (.ok x, { w with
        kernel := { ledger := effect x w.kernel.ledger, log := w.kernel.log ++ [r] } })
    | .error e => (.error e, { w with
        kernel := { ledger := w.kernel.ledger, log := w.kernel.log ++ [r] } })

/-- A call that only asks. -/
def query (r : Request) (answer : Except IoError α) : DrmM α :=
  acquire r (fun _ l => l) answer

/-- A call that gives an object back. Its result is not looked at. -/
def release (r : Request) (effect : Ledger → Ledger) : DrmM Unit :=
  fun w => (.ok (), { w with
    kernel := { ledger := effect w.kernel.ledger, log := w.kernel.log ++ [r] } })

/-- The caller's array after the kernel wrote `written` into it: the kernel stays
within its length, what it does not write stays. -/
def writeArray (array written : List α) : List α :=
  written.take array.length ++ array.drop written.length

/-! ## Probing -/

def probeConnector (connectorId : UInt32) (a : ProbeAnswers) : DrmM (Bool × List ModeInfo) := do
  let gc ← query (.getConnector connectorId 0 0) a.first
  let connected : Bool := gc.connection = modeConnected
  if gc.countModes = 0 then
    return (connected, [])
  else
    let modes := List.replicate gc.countModes.toNat ModeInfo.zero
    let gc2 ← query (.getConnector connectorId gc.countModes gc.countEncoders) a.second
    return (gc2.connection = modeConnected, writeArray modes gc2.modes)

/-- The loop over the connectors, with `i` the place of the next one. A connector whose
probe fails is skipped like one that is not connected. -/
def connectorLoop (probe : Nat → UInt32 → ProbeAnswers) :
    Nat → (fallback : UInt32) → List UInt32 → DrmM UInt32
  | _, fallback, [] => return fallback
  | i, _, id :: rest => do
      let answer ← attempt (probeConnector id (probe i id))
      match answer with
      | .ok (true, _) => return id
      | _ => connectorLoop probe (i + 1) id rest

def findConnector (a : FindAnswers) : DrmM UInt32 := do
  let res ← query (.getResources 0) a.resources
  if res.countConnectors = 0 then
    throw (.notFound "no connectors")
  else
    let ids := List.replicate res.countConnectors.toNat 0
    let res2 ← query (.getConnectors res.countConnectors) a.connectors
    let ids := writeArray ids res2.connectorIds
    -- there is a first id: the array has the length of the count
    connectorLoop a.probe 0 (ids.headD 0) ids

/-- The first CRTC whose bit is set in `possible`. The shift is by `i` modulo 32,
as the release profile shifts. -/
def possibleCrtc (crtcIds : List UInt32) (possible : UInt32) : Option UInt32 :=
  (crtcIds.zipIdx.find? fun c => possible &&& ((1 : UInt32) <<< UInt32.ofNat c.2) ≠ 0).map Prod.fst

/-- The loop over the encoders, with `i` the place of the next one. -/
def encoderLoop (encoder : Nat → UInt32 → Except IoError GetEncoder) (crtcIds : List UInt32) :
    Nat → List UInt32 → DrmM UInt32
  | _, [] => throw (.notFound "no usable crtc")
  | i, encId :: rest =>
      if encId = 0 then encoderLoop encoder crtcIds (i + 1) rest
      else do
        let answer ← query (.getEncoder encId) (.ok (encoder i encId))
        match answer with
        | .error _ => encoderLoop encoder crtcIds (i + 1) rest
        | .ok ge =>
            if ge.crtcId ≠ 0 then return ge.crtcId
            else
              match possibleCrtc crtcIds ge.possibleCrtcs with
              | some crtcId => return crtcId
              | none => encoderLoop encoder crtcIds (i + 1) rest

def resolveCrtc (connectorId : UInt32) (a : ResolveAnswers) : DrmM UInt32 := do
  let gc ← query (.getConnector connectorId 0 0) a.connector
  let encoders := List.replicate gc.countEncoders.toNat 0
  let gc2 ← query (.getConnector connectorId 0 gc.countEncoders) a.encoders
  let encoders := writeArray encoders gc2.encoders
  let res ← query (.getResources 0) a.resources
  let crtcIds := List.replicate res.countCrtcs.toNat 0
  let res2 ← query (.getResources res.countCrtcs) a.crtcs
  let crtcIds := writeArray crtcIds res2.crtcIds
  encoderLoop a.encoder crtcIds 0 (encoders ++ [gc2.encoderId])

/-! ## Choosing a mode -/

/-- `Iterator::max_by_key`: the last of the elements with the largest key. -/
def maxByKey (key : α → UInt32) : List α → Option α
  | [] => none
  | x :: xs => some (xs.foldl (fun best y => if key best > key y then best else y) x)

/-- The product of two `u16` fits a `u32`. -/
def ModeInfo.area (m : ModeInfo) : UInt32 := m.hdisplay.toUInt32 * m.vdisplay.toUInt32

def pickMode (modes : List ModeInfo) : Option ModeInfo :=
  (modes.find? fun m => m.modeType &&& modeTypePreferred ≠ 0).or (maxByKey ModeInfo.area modes)

/-- The `expect` of `refresh` never panics. -/
theorem pickMode_isSome {modes : List ModeInfo} (h : modes ≠ []) : (pickMode modes).isSome := by
  cases modes with
  | nil => exact absurd rfl h
  | cons m ms => simp [pickMode, maxByKey]

/-! ## Putting a buffer on the screen -/

def teardownScanout : DrmM Unit := do
  match (← get).drm.scanout with
  | none => return ()
  | some so => do
      modify fun w => { w with drm := { w.drm with scanout := none } }
      release (.munmap so.map so.mapLen) (Ledger.dropMap (so.map, so.mapLen))
      release (.rmFb so.fbId) (Ledger.dropFb so.fbId)
      release (.destroyDumb so.dumbHandle) (Ledger.dropHandle so.dumbHandle)

/-- An error exit that destroys the dumb buffer first. -/
def orDestroy (handle : UInt32) (call : DrmM α) : DrmM α :=
  tryCatch call fun e => do
    release (.destroyDumb handle) (Ledger.dropHandle handle)
    throw e

def scanoutMode (mode : ModeInfo) (a : ScanoutAnswers) : DrmM Unit := do
  let w := mode.hdisplay.toUInt32
  let h := mode.vdisplay.toUInt32
  let cd ← acquire (.createDumb w h 32) (fun cd => Ledger.addHandle cd.handle) a.createDumb
  let fbId ← orDestroy cd.handle
    (acquire (.addFb w h cd.pitch 32 24 cd.handle) Ledger.addFb a.addFb)
  let offset ← query (.mapDumb cd.handle) a.mapDumb
  let mapLen := cd.size.toNat
  let map ← orDestroy cd.handle
    (acquire (.mmap mapLen offset) (fun map => Ledger.addMap (map, mapLen)) a.mmap)
  let drm := (← get).drm
  query (.setCrtc drm.crtcId fbId drm.connectorId mode) a.setCrtc
  modify fun world => { world with
    drm := { world.drm with
      scanout := some {
        fbId, dumbHandle := cd.handle, map, mapLen, pitch := cd.pitch, width := w, height := h
        -- the new buffer is cleared before it is shown
        mem := List.replicate mapLen 0 } } }

/-- Whether a buffer of this size is on the screen. -/
def shows (d : Drm) (size : Mode) : Bool :=
  match d.scanout with
  | some so => so.width = size.width && so.height = size.height
  | none => false

/-- The part of `refresh` after a mode was chosen. -/
def showMode (mode : ModeInfo) (a : Answers) : DrmM (Option Mode) := do
  let drm := (← get).drm
  if drm.shows mode.size then
    return some mode.size
  else do
    let crtcId ← resolveCrtc drm.connectorId a.resolve
    modify fun w => { w with drm := { w.drm with crtcId } }
    teardownScanout
    scanoutMode mode a.scanout
    return some mode.size

def refresh (a : Answers) : DrmM (Option Mode) := do
  let drm := (← get).drm
  let (connected, modes) ← probeConnector drm.connectorId a.probe
  if h : connected = false ∨ modes = [] then do
    teardownScanout
    return none
  else
    let mode := (pickMode modes).get (pickMode_isSome (not_or.mp h).2)
    showMode mode a

/-! ## The framebuffer -/

/-- The framebuffer after the program wrote into it. -/
def setMem (d : Drm) (mem : List UInt8) : Drm :=
  { d with scanout := d.scanout.map fun so => { so with mem } }

def flush : DrmM Unit := do
  match (← get).drm.scanout with
  | none => return ()
  | some so => release (.dirtyFb so.fbId) id

end Drm

end K1de
