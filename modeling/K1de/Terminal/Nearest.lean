import K1de.Terminal.Sgr

/-! # The nearest palette colour

`nearest_16` runs over the palette and keeps the best entry so far; an entry replaces it
only if it is strictly nearer. So it is the `argmin` of the distance, which decides ties
for the lower index, and it fixes every colour of the palette. The extended SGR forms
therefore select what the basic codes select (`nearest16_projects`).
-/

namespace K1de

open Fallible

/-! ## The search -/

/-- Once an entry has been seen, the loop is the fold behind `argmin`. -/
theorem nearestLoop_eq (color : UInt32) (entries : List (UInt32 × Nat)) (e : UInt32 × Nat) :
    some (nearestLoop color entries e.2.toUInt8 (distance color e.1)) =
      (entries.foldl (List.argAux fun b c => distance color b.1 < distance color c.1)
        (some e)).map fun m => m.2.toUInt8 := by
  induction entries generalizing e with
  | nil => rfl
  | cons e' es ih =>
      obtain ⟨p, i⟩ := e'
      rw [nearestLoop, List.foldl_cons, List.argAux]
      dsimp only
      by_cases hnearer : distance color p < distance color e.1
      · rw [if_pos hnearer, if_pos hnearer]
        exact ih (p, i)
      · rw [if_neg hnearer, if_neg hnearer]
        exact ih e

/-- A channel is a byte. -/
theorem channel_nonneg_le (c : UInt32) : (0 : Int) ≤ (c &&& 0xff).toNat ∧
    ((c &&& 0xff).toNat : Int) ≤ 255 := by
  have hle : (c &&& 0xff).toNat ≤ 255 := by
    rw [UInt32.toNat_and]
    exact Nat.and_le_right
  omega

/-- The values that `nearest_16` computes for one palette entry. -/
def distanceSteps (c p : UInt32) : List Int :=
  let (r, g, b) := channels c
  let (pr, pg, pb) := channels p
  [r - pr, (r - pr) ^ 2, g - pg, (g - pg) ^ 2, b - pb, (b - pb) ^ 2,
    (r - pr) ^ 2 + (g - pg) ^ 2, (r - pr) ^ 2 + (g - pg) ^ 2 + (b - pb) ^ 2]

/-- The range of an `i32`. -/
def FitsI32 (x : Int) : Prop := -i32Max - 1 ≤ x ∧ x ≤ i32Max

/-- The square of a difference of channels fits 16 bits. -/
theorem sq_le_of_channels {x y : Int} (hx : 0 ≤ x ∧ x ≤ 255) (hy : 0 ≤ y ∧ y ≤ 255) :
    0 ≤ (x - y) ^ 2 ∧ (x - y) ^ 2 ≤ 65025 := by
  refine ⟨sq_nonneg _, ?_⟩
  have habs : |x - y| ≤ 255 := by
    rw [abs_le]
    omega
  calc (x - y) ^ 2 = |x - y| ^ 2 := (sq_abs _).symm
    _ ≤ 255 ^ 2 := pow_le_pow_left₀ (abs_nonneg _) habs 2
    _ = 65025 := by norm_num

/-- No step of the distance overflows. -/
theorem fitsI32_distanceSteps (c p : UInt32) : ∀ x ∈ distanceSteps c p, FitsI32 x := by
  have hr := channel_nonneg_le (c >>> 16)
  have hg := channel_nonneg_le (c >>> 8)
  have hb := channel_nonneg_le c
  have hpr := channel_nonneg_le (p >>> 16)
  have hpg := channel_nonneg_le (p >>> 8)
  have hpb := channel_nonneg_le p
  have hr2 := sq_le_of_channels hr hpr
  have hg2 := sq_le_of_channels hg hpg
  have hb2 := sq_le_of_channels hb hpb
  simp only [distanceSteps, channels, FitsI32, i32Max, List.forall_mem_cons, List.not_mem_nil,
    false_imp_iff, implies_true, and_true]
  omega

theorem distance_lt_i32Max (c p : UInt32) : distance c p < i32Max := by
  have hr2 := sq_le_of_channels (channel_nonneg_le (c >>> 16)) (channel_nonneg_le (p >>> 16))
  have hg2 := sq_le_of_channels (channel_nonneg_le (c >>> 8)) (channel_nonneg_le (p >>> 8))
  have hb2 := sq_le_of_channels (channel_nonneg_le c) (channel_nonneg_le p)
  simp only [distance, channels, i32Max]
  omega

/-- The search ends at a place where the distance is least. -/
theorem nearest16_mem_argmin (color : UInt32) :
    ∃ e ∈ palette.zipIdx.argmin fun e => distance color e.1, nearest16 color = e.2.toUInt8 := by
  have hcons : palette.zipIdx = (0, 0) :: palette.zipIdx.tail := rfl
  have hloop := nearestLoop_eq color palette.zipIdx.tail (0, 0)
  rw [eq_comm, Option.map_eq_some_iff] at hloop
  obtain ⟨e, he, hidx⟩ := hloop
  refine ⟨e, ?_, ?_⟩
  · rw [hcons, List.argmin, List.foldl_cons]
    exact he
  · -- the first entry is nearer than the start value of the search
    rw [nearest16, hcons, nearestLoop, if_pos (distance_lt_i32Max color 0)]
    exact hidx.symm

/-- The entry `i` is at least as near to the colour as any entry, and nearer than every
entry before it. -/
def IsNearest (color : UInt32) (i : Nat) : Prop :=
  ∃ p, palette[i]? = some p ∧ ∀ j q, palette[j]? = some q →
    distance color p ≤ distance color q ∧ (j < i → distance color p < distance color q)

/-- Entries are numbered by their place. -/
theorem idxOf_zipIdx :
    ∀ e ∈ palette.zipIdx, @List.idxOf _ instBEqOfDecidableEq e palette.zipIdx = e.2 := by
  decide

/-- The search finds the nearest entry, and of several the first. -/
theorem isNearest_nearest16 (color : UInt32) : IsNearest color (nearest16 color).toNat := by
  obtain ⟨e, he, hnearest⟩ := nearest16_mem_argmin color
  obtain ⟨hmem, hmin, hfirst⟩ := List.mem_argmin_iff.mp he
  have hget := List.mem_zipIdx_iff_getElem?.mp hmem
  have hlt : e.2 < 16 := (List.getElem?_eq_some_iff.mp hget).1
  have htoNat : (nearest16 color).toNat = e.2 := by
    rw [hnearest, Nat.toUInt8_eq, UInt8.toNat_ofNat_of_lt' (Nat.lt_trans hlt (by decide))]
  refine ⟨e.1, by rw [htoNat]; exact hget, ?_⟩
  intro j q hq
  have hmem' : (q, j) ∈ palette.zipIdx := List.mem_zipIdx_iff_getElem?.mpr hq
  refine ⟨hmin (q, j) hmem', ?_⟩
  intro hj
  by_contra hnot
  -- an entry that is as near would have been kept
  have hidx := hfirst (q, j) hmem' (not_lt.mp hnot)
  rw [idxOf_zipIdx e hmem, idxOf_zipIdx (q, j) hmem'] at hidx
  rw [htoNat] at hj
  exact absurd hj (not_lt.mpr hidx)

/-- The palette is fixed, and it is what the first 16 of the 256 colours are. -/
theorem nearest16_palette : ∀ i < 16, nearest16 (palette.getD i 0) = i.toUInt8 ∧
    ansi256ToRgb (UInt32.ofNat i).toUInt8 = palette.getD i 0 := by
  decide +kernel

/-! ## One colour, several codes -/

/-- `38` for the foreground, `48` for the background. -/
def extendedCode (targetFg : Bool) : UInt32 := if targetFg then 38 else 48

/-- The code of one parameter for a colour of the palette: `30` to `37` and `90` to `97`,
or `40` to `47` and `100` to `107`. -/
def basicCode (targetFg : Bool) (i : Nat) : UInt32 :=
  UInt32.ofNat ((if i < 8 then 30 else 82) + (if targetFg then 0 else 10) + i)

namespace Terminal

theorem sgr_nil : sgr [] = .keep := rfl

/-- The basic codes set the colours of the palette. -/
theorem sgrWrites_basicCode : ∀ targetFg, ∀ i < 16,
    sgrWrites [basicCode targetFg i] = .colour targetFg i.toUInt8 := by
  decide +kernel

theorem extendedCode_eq (targetFg : Bool) :
    (extendedCode targetFg = 38 ∨ extendedCode targetFg = 48) ∧
      decide (extendedCode targetFg = 38) = targetFg := by
  cases targetFg <;> decide

/-- `38;5;n` sets the colour that is found by its index. -/
theorem sgrWrites_indexed (targetFg : Bool) (idx : UInt32) :
    sgrWrites [extendedCode targetFg, 5, idx] = indexed targetFg idx := by
  obtain ⟨hcode, htarget⟩ := extendedCode_eq targetFg
  rw [sgrWrites, if_neg (by simp), sgr_cons_indexed hcode, htarget, sgr_nil,
    Writes.andThen_keep]

/-- `38;2;r;g;b` sets the colour that is found by its components. -/
theorem sgrWrites_direct (targetFg : Bool) (r g b : UInt32) :
    sgrWrites [extendedCode targetFg, 2, r, g, b] = direct targetFg r g b := by
  obtain ⟨hcode, htarget⟩ := extendedCode_eq targetFg
  rw [sgrWrites, if_neg (by simp), sgr_cons_direct hcode, htarget,
    List.drop_of_length_le (by simp), sgr_nil, Writes.andThen_keep]
  rfl

/-- The two lists of parameters do the same. -/
def SameSgr (t : Terminal) (ps qs : List UInt32) : Prop :=
  screen <$> applySgr { t with csiParams := ps } = screen <$> applySgr { t with csiParams := qs }

/-- Lists that write the same do the same to every terminal. -/
theorem sameSgr_of_writes (t : Terminal) {ps qs : List UInt32}
    (h : sgrWrites ps = sgrWrites qs) : SameSgr t ps qs := by
  unfold SameSgr
  rw [applySgr_eq, applySgr_eq]
  dsimp only
  rw [h]
  rfl

/-- For every colour `nearest_16` finds the nearest entry of the palette, the first one if
there are several, and no step of it overflows. So it fixes the palette, and `38;5;n` and
`38;2;r;g;b` select the same colour as the basic code. -/
theorem nearest16_projects :
    (∀ color, nearest16 color < 16 ∧ IsNearest color (nearest16 color).toNat ∧
      ∀ p ∈ palette, ∀ x ∈ distanceSteps color p, FitsI32 x) ∧
    ∀ i p, palette[i]? = some p → nearest16 p = i.toUInt8 ∧
      ∀ (t : Terminal) (targetFg : Bool),
        SameSgr t [extendedCode targetFg, 5, UInt32.ofNat i] [basicCode targetFg i] ∧
        ∀ r g b : UInt32, rgb r.toUInt8 g.toUInt8 b.toUInt8 = p →
          SameSgr t [extendedCode targetFg, 2, r, g, b] [basicCode targetFg i] := by
  constructor
  · intro color
    exact ⟨nearest16_lt color, isNearest_nearest16 color, fun p _ => fitsI32_distanceSteps color p⟩
  · intro i p hp
    have hi : i < 16 := (List.getElem?_eq_some_iff.mp hp).1
    have hgetD : palette.getD i 0 = p := by rw [List.getD_eq_getElem?_getD, hp, Option.getD_some]
    obtain ⟨hfix, hrgb⟩ := nearest16_palette i hi
    rw [hgetD] at hfix hrgb
    refine ⟨hfix, ?_⟩
    intro t targetFg
    have hbasic := sgrWrites_basicCode targetFg i hi
    constructor
    · apply sameSgr_of_writes
      rw [hbasic, sgrWrites_indexed, indexed, hrgb, hfix]
    · intro r g b hcolor
      apply sameSgr_of_writes
      rw [hbasic, sgrWrites_direct, direct, hcolor, hfix]

end Terminal

end K1de
