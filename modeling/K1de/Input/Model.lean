import Mathlib

/-! # Keyboard input

`input.rs`: finding the keyboards under `/dev/input`, and decoding their events
into bytes for the pty; and the rescan of `main`, which merges the keyboards
found into the ones it already reads.

An open file is modelled by the device it refers to. A path names different
devices at different times; an open file refers to one device for ever.
-/

namespace K1de

/-! ## Finding keyboards -/

/-- `KEY_A`. -/
def keyA : Nat := 30

/-- An entry of `/dev/input`: its name and path, the device that opening it gives,
and the key bits that `EVIOCGBIT` reports for that device. -/
structure Node where
  name : String
  path : String
  file : Option Nat
  keyBits : Option (Vector UInt8 96)
deriving Repr

structure Keyboard where
  path : String
  /-- the device behind the open file -/
  file : Nat
deriving DecidableEq, Repr

def hasKeyA (bits : Vector UInt8 96) : Bool :=
  (bits[keyA / 8] >>> UInt8.ofNat (keyA % 8)) &&& 1 ≠ 0

/-- One iteration of the scan. -/
def scanEntry (node : Node) : Option Keyboard :=
  if "event".toList.isPrefixOf node.name.toList then
    match node.file, node.keyBits with
    | some file, some bits => if hasKeyA bits then some { path := node.path, file } else none
    | _, _ => none
  else none

/-- The scan over the entries of the directory, if it can be read. An entry that
cannot be read is skipped. -/
def scanKeyboards (dir : Option (List (Option Node))) : List Keyboard :=
  match dir with
  | none => []
  | some entries => (entries.filterMap id).filterMap scanEntry

/-- `main`'s rescan: the keyboards found are appended, unless their path is in the
list already. -/
def mergeKeyboards (keyboards fresh : List Keyboard) : List Keyboard :=
  fresh.foldl
    (fun ks kb => if ks.any fun k => k.path = kb.path then ks else ks ++ [kb]) keyboards

/-! ## Decoding -/

/-- `EV_KEY`. -/
def evKey : UInt16 := 1

structure InputEvent where
  evType : UInt16
  code : UInt16
  value : Int32
deriving DecidableEq, Repr

structure Decoder where
  shift : Bool
  ctrl : Bool
deriving DecidableEq, Repr

/-- The characters of a key, unshifted and shifted. -/
def charTable : List (UInt16 × UInt8 × UInt8) :=
  [(2, 0x31, 0x21), (3, 0x32, 0x40), (4, 0x33, 0x23), (5, 0x34, 0x24), (6, 0x35, 0x25),
   (7, 0x36, 0x5e), (8, 0x37, 0x26), (9, 0x38, 0x2a), (10, 0x39, 0x28), (11, 0x30, 0x29),
   (12, 0x2d, 0x5f), (13, 0x3d, 0x2b), (15, 0x09, 0x09),
   (16, 0x71, 0x51), (17, 0x77, 0x57), (18, 0x65, 0x45), (19, 0x72, 0x52), (20, 0x74, 0x54),
   (21, 0x79, 0x59), (22, 0x75, 0x55), (23, 0x69, 0x49), (24, 0x6f, 0x4f), (25, 0x70, 0x50),
   (26, 0x5b, 0x7b), (27, 0x5d, 0x7d), (28, 0x0a, 0x0a),
   (30, 0x61, 0x41), (31, 0x73, 0x53), (32, 0x64, 0x44), (33, 0x66, 0x46), (34, 0x67, 0x47),
   (35, 0x68, 0x48), (36, 0x6a, 0x4a), (37, 0x6b, 0x4b), (38, 0x6c, 0x4c),
   (39, 0x3b, 0x3a), (40, 0x27, 0x22), (41, 0x60, 0x7e), (43, 0x5c, 0x7c),
   (44, 0x7a, 0x5a), (45, 0x78, 0x58), (46, 0x63, 0x43), (47, 0x76, 0x56), (48, 0x62, 0x42),
   (49, 0x6e, 0x4e), (50, 0x6d, 0x4d), (51, 0x2c, 0x3c), (52, 0x2e, 0x3e), (53, 0x2f, 0x3f),
   (57, 0x20, 0x20),
   (96, 0x0a, 0x0a), -- KPENTER
   (14, 0x7f, 0x7f)] -- BACKSPACE

def baseChar (code : UInt16) : Option (UInt8 × UInt8) := charTable.lookup code

/-- The escape sequences of the arrow and navigation keys. -/
def sequenceTable : List (UInt16 × List UInt8) :=
  [(103, [0x1b, 0x5b, 0x41]), -- UP
   (108, [0x1b, 0x5b, 0x42]), -- DOWN
   (106, [0x1b, 0x5b, 0x43]), -- RIGHT
   (105, [0x1b, 0x5b, 0x44]), -- LEFT
   (102, [0x1b, 0x5b, 0x48]), -- HOME
   (107, [0x1b, 0x5b, 0x46]), -- END
   (111, [0x1b, 0x5b, 0x33, 0x7e])] -- DELETE

def isAsciiAlphabetic (ch : UInt8) : Bool :=
  (0x41 ≤ ch && ch ≤ 0x5a) || (0x61 ≤ ch && ch ≤ 0x7a)

def toAsciiUppercase (ch : UInt8) : UInt8 :=
  if 0x61 ≤ ch ∧ ch ≤ 0x7a then ch - 0x20 else ch

namespace Decoder

def new : Decoder := { shift := false, ctrl := false }

/-- The bytes of a key that is pressed or repeats, in the current modifiers. -/
def keyBytes (d : Decoder) (code : UInt16) : List UInt8 :=
  match sequenceTable.lookup code with
  | some seq => seq
  | none =>
      match baseChar code with
      | some (lo, hi) =>
          let ch := if d.shift then hi else lo
          if d.ctrl && isAsciiAlphabetic ch then [toAsciiUppercase ch - 0x41 + 1] else [ch]
      | none => []

/-- The event's effect on the modifiers and the bytes it types. -/
def decode (d : Decoder) (ev : InputEvent) : Decoder × List UInt8 :=
  if ev.evType ≠ evKey then (d, [])
  else
    let down : Bool := ev.value ≠ 0 -- 1 = press, 2 = repeat, 0 = release
    if ev.code = 42 ∨ ev.code = 54 then ({ d with shift := down }, [])
    else if ev.code = 29 ∨ ev.code = 97 then ({ d with ctrl := down }, [])
    else if !down then (d, [])
    else (d, d.keyBytes ev.code)

/-- `read_event`, where `read` is what reading the device gave, if it succeeded. -/
def readEvent (d : Decoder) (read : Option InputEvent) : Decoder × Option (List UInt8) :=
  match read with
  | none => (d, none)
  | some ev => ((d.decode ev).1, some (d.decode ev).2)

end Decoder

end K1de
