import K1de.Terminal.Colour

/-! # The terminal

The text grid and its byte parser, function by function as `main.rs` has them.
A `Vec` is a list and every access to it is checked (`Vec.index`, `Vec.fill`,
...), so a panic of the program is a `Fault` of the model. `u8` and `u32` are
the machine integers, which wrap as the release profile does. `usize` is `Nat`:
the one product that can exceed it, the cell count of a new grid, is reduced
modulo `2 ^ 64`; every other sum or product is bounded by the cell count plus a
`u32` (see `Terminal.Inv`).
-/

namespace K1de

open Fallible

/-! ## Data -/

structure Cell where
  ch : UInt8
  fg : Option UInt8
  bg : Option UInt8
deriving DecidableEq, Repr

/-- `size_of::<Cell>()`: one byte and two `Option<u8>` of two bytes. -/
def cellSize : Nat := 5

def blank : Cell := { ch := 0x20, fg := none, bg := none }

/-- Where the parser is inside an escape sequence. -/
inductive EscState where
  | none
  | esc
  | csi
  /-- `ESC ]`, swallowed until BEL or ST (`ESC \`) -/
  | osc
  | oscEsc
  /-- `ESC P`, swallowed until ST (`ESC \`) -/
  | dcs
  | dcsEsc
  /-- `ESC (` and the like: swallow exactly one more byte -/
  | charset
deriving DecidableEq, Repr

structure Terminal where
  cols : Nat
  rows : Nat
  cells : List Cell
  cursorRow : Nat
  cursorCol : Nat
  esc : EscState
  dirty : Bool
  csiParams : List UInt32
  csiCur : Option UInt32
  curFg : Option UInt8
  curBg : Option UInt8
  bold : Bool
deriving DecidableEq, Repr

namespace Terminal

/-! ## Construction and resizing -/

/-- `vec![BLANK; cols * rows]`. The product wraps like any `usize` product. -/
def blankCells (cols rows : Nat) : Except Fault (List Cell) :=
  Vec.fromElem cellSize blank (cols * rows % Vec.usizeSize)

def new (cols rows : Nat) : Except Fault Terminal := do
  let cells ← blankCells cols rows
  return {
    cols, rows, cells
    cursorRow := 0
    cursorCol := 0
    esc := .none
    dirty := true
    csiParams := []
    csiCur := none
    curFg := none
    curBg := none
    bold := false }

def resize (t : Terminal) (cols rows : Nat) : Except Fault Terminal :=
  if cols = t.cols ∧ rows = t.rows then .ok t
  else do
    let cells ← blankCells (max cols 1) (max rows 1)
    return { t with
      cols := max cols 1
      rows := max rows 1
      cells
      cursorRow := 0
      cursorCol := 0
      dirty := true }

/-! ## Output -/

/-- The grid scrolled up one line. -/
def scrollUp (t : Terminal) : Except Fault (List Cell) := do
  let cells ← Vec.copyToFront t.cells t.cols
  let last ← Vec.usub cells.length t.cols
  Vec.fill cells last cells.length blank

def newline (t : Terminal) : Except Fault Terminal :=
  if t.cursorRow + 1 ≥ t.rows then do
    let cells ← t.scrollUp
    return { t with cursorCol := 0, cells }
  else
    .ok { t with cursorCol := 0, cursorRow := t.cursorRow + 1 }

/-- The cell that `put` writes for `ch` in the current SGR state. -/
def penCell (t : Terminal) (ch : UInt8) : Cell :=
  { ch, fg := t.curFg.map fun c => if t.bold then c ||| 0x8 else c, bg := t.curBg }

/-- The wrap that was put off when the last column was written. -/
def wrap (t : Terminal) : Except Fault Terminal :=
  if t.cursorCol ≥ t.cols then t.newline else .ok t

def put (t : Terminal) (ch : UInt8) : Except Fault Terminal := do
  let t ← t.wrap
  let cells ← Vec.setIndex t.cells (t.cursorRow * t.cols + t.cursorCol) (t.penCell ch)
  return { t with cells, cursorCol := t.cursorCol + 1 }

/-! ## Control sequences -/

/-- A CSI parameter by index, or `default` if it is absent or `0`. -/
def csiParam (t : Terminal) (i : Nat) (default : UInt32) : UInt32 :=
  match t.csiParams[i]? with
  | some v => if v = 0 then default else v
  | none => default

/-- `CSI K`: erase in line. -/
def eraseLine (t : Terminal) : Except Fault Terminal :=
  let rowStart := t.cursorRow * t.cols
  if t.csiParam 0 0 = 0 then do
    let cells ← Vec.fill t.cells (rowStart + t.cursorCol) (rowStart + t.cols) blank
    return { t with cells }
  else if t.csiParam 0 0 = 1 then do
    let lastCol ← Vec.usub t.cols 1
    let cells ← Vec.fill t.cells rowStart (rowStart + min t.cursorCol lastCol + 1) blank
    return { t with cells }
  else if t.csiParam 0 0 = 2 then do
    let cells ← Vec.fill t.cells rowStart (rowStart + t.cols) blank
    return { t with cells }
  else .ok t

/-- `CSI J`: erase in display. -/
def eraseDisplay (t : Terminal) : Except Fault Terminal :=
  let rowStart := t.cursorRow * t.cols
  if t.csiParam 0 0 = 0 then do
    let cells ← Vec.fill t.cells (rowStart + t.cursorCol) t.cells.length blank
    return { t with cells }
  else if t.csiParam 0 0 = 1 then do
    let lastCell ← Vec.usub t.cells.length 1
    let cells ← Vec.fill t.cells 0 (min (rowStart + t.cursorCol) lastCell + 1) blank
    return { t with cells }
  else if t.csiParam 0 0 = 2 ∨ t.csiParam 0 0 = 3 then do
    let cells ← Vec.fill t.cells 0 t.cells.length blank
    return { t with cells, cursorRow := 0, cursorCol := 0 }
  else .ok t

/-- Sets the foreground (`38`) or the background (`48`) colour. -/
def setColour (t : Terminal) (targetFg : Bool) (c : UInt8) : Terminal :=
  if targetFg then { t with curFg := some c } else { t with curBg := some c }

/-- The extended colours `38;5;N` and `38;2;R;G;B`, and their `48` forms, with
`i` the index of the `38` or `48`. The second component is how far `i` moves on
top of the loop's own step. -/
def extendedColour (t : Terminal) (i : Nat) (targetFg : Bool) : Terminal × Nat :=
  if t.csiParams[i + 1]? = some 5 then
    match t.csiParams[i + 2]? with
    | some idx => (t.setColour targetFg (nearest16 (ansi256ToRgb idx.toUInt8)), 2)
    | none => (t, 2)
  else if t.csiParams[i + 1]? = some 2 then
    let r := (t.csiParams[i + 2]?.getD 0).toUInt8
    let g := (t.csiParams[i + 3]?.getD 0).toUInt8
    let b := (t.csiParams[i + 4]?.getD 0).toUInt8
    (t.setColour targetFg (nearest16 (rgb r g b)), 4)
  else (t, 0)

/-- One iteration of the SGR loop on the parameter `p` at index `i`. -/
def sgrParam (t : Terminal) (i : Nat) (p : UInt32) : Terminal × Nat :=
  if p = 0 then ({ t with curFg := none, curBg := none, bold := false }, 0)
  else if p = 1 then ({ t with bold := true }, 0)
  else if p = 22 then ({ t with bold := false }, 0)
  else if 30 ≤ p ∧ p ≤ 37 then ({ t with curFg := some (p - 30).toUInt8 }, 0)
  else if p = 39 then ({ t with curFg := none }, 0)
  else if 40 ≤ p ∧ p ≤ 47 then ({ t with curBg := some (p - 40).toUInt8 }, 0)
  else if p = 49 then ({ t with curBg := none }, 0)
  else if 90 ≤ p ∧ p ≤ 97 then ({ t with curFg := some ((p - 90).toUInt8 + 8) }, 0)
  else if 100 ≤ p ∧ p ≤ 107 then ({ t with curBg := some ((p - 100).toUInt8 + 8) }, 0)
  else if p = 38 ∨ p = 48 then t.extendedColour i (p = 38)
  else (t, 0)

/-- The SGR loop from index `i`. Every iteration moves `i` forward, so as much
fuel as there are parameters is enough (`sgrLoop_fuel`). -/
def sgrLoop : Nat → Nat → Terminal → Except Fault Terminal
  | 0, _, t => .ok t
  | fuel + 1, i, t =>
      if i < t.csiParams.length then do
        let p ← Vec.index t.csiParams i
        let (t, skip) := t.sgrParam i p
        sgrLoop fuel (i + skip + 1) t
      else .ok t

/-- `CSI ... m`: colours and bold. -/
def applySgr (t : Terminal) : Except Fault Terminal :=
  if t.csiParams = [] then .ok { t with curFg := none, curBg := none, bold := false }
  else sgrLoop t.csiParams.length 0 t

/-- Acts on a complete CSI sequence with this final byte. -/
def applyCsi (t : Terminal) (finalByte : UInt8) : Except Fault Terminal :=
  if finalByte = 0x4b then t.eraseLine -- K
  else if finalByte = 0x4a then t.eraseDisplay -- J
  else if finalByte = 0x43 then -- C
    let n := (t.csiParam 0 1).toNat
    .ok { t with cursorCol := min (t.cursorCol + n) (t.cols - 1) }
  else if finalByte = 0x44 then -- D
    let n := (t.csiParam 0 1).toNat
    .ok { t with cursorCol := t.cursorCol - n }
  else if finalByte = 0x47 then -- G
    let n := (t.csiParam 0 1).toNat
    .ok { t with cursorCol := min (n - 1) (t.cols - 1) }
  else if finalByte = 0x48 ∨ finalByte = 0x66 then -- H, f
    let row := (t.csiParam 0 1).toNat
    let col := (t.csiParam 1 1).toNat
    .ok { t with
      cursorRow := min (row - 1) (t.rows - 1)
      cursorCol := min (col - 1) (t.cols - 1) }
  else if finalByte = 0x6d then t.applySgr -- m
  else .ok t

/-! ## The byte parser -/

/-- The tab loop: blanks up to column `next` or the right margin. Every
iteration moves the cursor, so `next - cursorCol` iterations are enough
(`tabLoop_fuel`). -/
def tabLoop (next : Nat) : Nat → Terminal → Except Fault Terminal
  | 0, t => .ok t
  | fuel + 1, t =>
      if t.cursorCol < next ∧ t.cursorCol < t.cols then do
        let t ← t.put 0x20
        tabLoop next fuel t
      else .ok t

def tab (t : Terminal) : Except Fault Terminal :=
  let next := (t.cursorCol / 8 + 1) * 8
  tabLoop next (next - t.cursorCol) t

/-- A byte in the ground state. -/
def groundByte (t : Terminal) (b : UInt8) : Except Fault Terminal :=
  if b = 0x0a then t.newline
  else if b = 0x0d then .ok { t with cursorCol := 0 }
  else if b = 0x09 then t.tab
  else if b = 0x08 ∨ b = 0x7f then
    if t.cursorCol > 0 then .ok { t with cursorCol := t.cursorCol - 1 } else .ok t
  else if b = 0x1b then .ok { t with esc := .esc }
  else if 0x20 ≤ b ∧ b ≤ 0x7e then t.put b
  else .ok t

/-- The byte after `ESC`. -/
def escByte (t : Terminal) (b : UInt8) : Terminal :=
  if b = 0x5b then { t with csiParams := [], csiCur := none, esc := .csi } -- [
  else if b = 0x5d then { t with esc := .osc } -- ]
  else if b = 0x50 then { t with esc := .dcs } -- P
  else if b = 0x28 ∨ b = 0x29 ∨ b = 0x2a ∨ b = 0x2b then { t with esc := .charset } -- ( ) * +
  else { t with esc := .none }

/-- A byte inside a CSI sequence. -/
def csiByte (t : Terminal) (b : UInt8) : Except Fault Terminal :=
  if 0x30 ≤ b ∧ b ≤ 0x39 then
    .ok { t with csiCur := some (t.csiCur.getD 0 * 10 + (b - 0x30).toUInt32) }
  else if b = 0x3b then
    .ok { t with csiParams := t.csiParams ++ [t.csiCur.getD 0], csiCur := none }
  else if 0x40 ≤ b ∧ b ≤ 0x7e then do
    let t := { t with csiParams := t.csiParams ++ t.csiCur.toList, csiCur := none }
    let t ← t.applyCsi b
    return { t with esc := .none }
  else
    -- intermediate and private-marker bytes: keep collecting the sequence
    .ok t

def processByte (t : Terminal) (b : UInt8) : Except Fault Terminal :=
  let t := { t with dirty := true }
  match t.esc with
  | .none => t.groundByte b
  | .esc => .ok (t.escByte b)
  | .csi => t.csiByte b
  | .osc =>
      if b = 0x07 then .ok { t with esc := .none }
      else if b = 0x1b then .ok { t with esc := .oscEsc }
      else .ok t
  | .oscEsc => .ok { t with esc := if b = 0x5c then .none else .osc }
  | .dcs => if b = 0x1b then .ok { t with esc := .dcsEsc } else .ok t
  | .dcsEsc => .ok { t with esc := if b = 0x5c then .none else .dcs }
  | .charset => .ok { t with esc := .none }

/-- Feeds bytes one by one, as `main` does with a chunk read from the pty. -/
def feed (t : Terminal) (bytes : List UInt8) : Except Fault Terminal :=
  run processByte t bytes

end Terminal

end K1de
