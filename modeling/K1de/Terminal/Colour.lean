import K1de.Lib.Vec

/-! # The 16-colour palette

`PALETTE` and the functions that reduce a 256-colour index or a 24-bit colour
to one of its entries.
-/

namespace K1de

/-- Default text colour, XRGB8888. -/
def FG : UInt32 := 0x00C0C0C0

/-- Default background colour. -/
def BG : UInt32 := 0x00101014

/-- The classic 16-colour Linux console palette. -/
def palette : List UInt32 :=
  [ 0x00000000, 0x00AA0000, 0x0000AA00, 0x00AA5500,
    0x000000AA, 0x00AA00AA, 0x0000AAAA, 0x00AAAAAA,
    0x00555555, 0x00FF5555, 0x0055FF55, 0x00FFFF55,
    0x005555FF, 0x00FF55FF, 0x0055FFFF, 0x00FFFFFF ]

def rgb (r g b : UInt8) : UInt32 :=
  r.toUInt32 <<< 16 ||| g.toUInt32 <<< 8 ||| b.toUInt32

/-- The six intensities of the 6x6x6 colour cube. -/
def levels : List UInt8 := [0, 95, 135, 175, 215, 255]

/-- The xterm-256 palette. Every index below is in range, so the defaults of
`getD` are never used. -/
def ansi256ToRgb (idx : UInt8) : UInt32 :=
  if idx ≤ 15 then palette.getD idx.toNat 0
  else if idx ≤ 231 then
    let i := idx - 16
    let r := levels.getD ((i / 36).toNat % 6) 0
    let g := levels.getD ((i / 6).toNat % 6) 0
    let b := levels.getD (i.toNat % 6) 0
    rgb r g b
  else
    let v := 8 + (idx - 232) * 10
    rgb v v v

/-- The red, green and blue channels of a colour, as the `i32`s that
`nearest_16` computes with. -/
def channels (color : UInt32) : Int × Int × Int :=
  (((color >>> 16) &&& 0xff).toNat, ((color >>> 8) &&& 0xff).toNat, (color &&& 0xff).toNat)

/-- Squared distance of two colours. It is at most `3 * 255 ^ 2`, far below
`i32::MAX`, so integers stand for the source's `i32`. -/
def distance (c p : UInt32) : Int :=
  let (r, g, b) := channels c
  let (pr, pg, pb) := channels p
  (r - pr) ^ 2 + (g - pg) ^ 2 + (b - pb) ^ 2

/-- `i32::MAX`. -/
def i32Max : Int := 2147483647

/-- The search loop: an entry becomes the best one if it is strictly nearer. -/
def nearestLoop (color : UInt32) : List (UInt32 × Nat) → UInt8 → Int → UInt8
  | [], best, _ => best
  | (p, i) :: entries, best, bestDist =>
      if distance color p < bestDist then
        nearestLoop color entries i.toUInt8 (distance color p)
      else
        nearestLoop color entries best bestDist

/-- Nearest of the 16 palette colours, by squared distance. -/
def nearest16 (color : UInt32) : UInt8 :=
  nearestLoop color palette.zipIdx 0 i32Max

/-- A search over entries numbered below 16 ends below 16. -/
theorem nearestLoop_lt (color : UInt32) (entries : List (UInt32 × Nat)) (best : UInt8)
    (bestDist : Int) (hbest : best < 16) (hentries : ∀ e ∈ entries, e.2 < 16) :
    nearestLoop color entries best bestDist < 16 := by
  induction entries generalizing best bestDist with
  | nil => exact hbest
  | cons e es ih =>
      have he : e.2 < 16 := hentries e List.mem_cons_self
      have hes : ∀ e' ∈ es, e'.2 < 16 := fun e' he' => hentries e' (List.mem_cons_of_mem e he')
      unfold nearestLoop
      split
      · apply ih _ _ _ hes
        rw [UInt8.lt_iff_toNat_lt, Nat.toUInt8_eq,
          UInt8.toNat_ofNat_of_lt' (Nat.lt_trans he (by decide))]
        exact he
      · exact ih _ _ hbest hes

theorem nearest16_lt (color : UInt32) : nearest16 color < 16 :=
  nearestLoop_lt color palette.zipIdx 0 i32Max (by decide) (by decide)

end K1de
