import K1de.Lib.Paint

/-! # Pictures in a buffer

A buffer holds a picture row by row, a fixed number of elements for each place. A
painting program that writes whole places only can be described by the picture that it
draws (`Format.Draws`), and such descriptions compose: a loop draws the pictures of its
iterations one over the other (`layers`).
-/

namespace Raster

open Fallible Paint

variable {α γ ι φ : Type}

/-! ## Pictures -/

/-- What is drawn at `x`, `y`, if anything. -/
abbrev Picture (γ : Type) := Nat → Nat → Option γ

namespace Picture

def empty : Picture γ := fun _ _ => none

/-- A single place. -/
def place (x y : Nat) (c : Option γ) : Picture γ := fun x' y' => if x' = x ∧ y' = y then c else none

/-- The upper left corner of `p`, `w` wide and `h` high, moved to `ox`, `oy`. -/
def patch (ox oy w h : Nat) (p : Picture γ) : Picture γ := fun x y =>
  if (ox ≤ x ∧ x < ox + w) ∧ oy ≤ y ∧ y < oy + h then p (x - ox) (y - oy) else none

/-- `p` on top of `q`. -/
def onTop (p q : Picture γ) : Picture γ := fun x y => (p x y).or (q x y)

theorem place_none (x y : Nat) : place x y none = (empty : Picture γ) := by
  funext x' y'
  exact ite_self none

theorem patch_empty (ox oy w h : Nat) : patch ox oy w h empty = (empty : Picture γ) := by
  funext x y
  exact ite_self none

theorem onTop_patch (ox oy w h : Nat) (p q : Picture γ) :
    (patch ox oy w h p).onTop (patch ox oy w h q) = patch ox oy w h (p.onTop q) := by
  funext x y
  simp only [onTop, patch]
  split <;> rfl

end Picture

/-- The pictures of a loop, the later ones on top. -/
def layers (pic : ι → Picture γ) : List ι → Picture γ
  | [] => .empty
  | i :: is => Picture.onTop (layers pic is) (pic i)

theorem layers_cons (pic : ι → Picture γ) (i : ι) (is : List ι) (x y : Nat) :
    layers pic (i :: is) x y = (layers pic is x y).or (pic i x y) := rfl

/-- Where no iteration draws nothing is drawn. -/
theorem layers_none {pic : ι → Picture γ} {is : List ι} {x y : Nat}
    (h : ∀ i ∈ is, pic i x y = none) : layers pic is x y = none := by
  induction is with
  | nil => rfl
  | cons i is ih =>
      have hrest := ih fun i' hi' => h i' (List.mem_cons_of_mem i hi')
      rw [layers_cons, hrest, h i List.mem_cons_self, Option.or_none]

/-- A place where one iteration draws, and no other one draws anything else. -/
theorem layers_some {pic : ι → Picture γ} {is : List ι} {x y : Nat} {c : γ}
    (h : ∀ i ∈ is, pic i x y = none ∨ pic i x y = some c)
    (hsome : ∃ i ∈ is, pic i x y = some c) : layers pic is x y = some c := by
  induction is with
  | nil =>
      obtain ⟨i, hi, -⟩ := hsome
      cases hi
  | cons i is ih =>
      have hrest := fun i' hi' => h i' (List.mem_cons_of_mem i hi')
      rw [layers_cons]
      by_cases hlater : ∃ i' ∈ is, pic i' x y = some c
      · rw [ih hrest hlater]
        rfl
      · -- only this iteration draws here
        have hnone : ∀ i' ∈ is, pic i' x y = none := by
          intro i' hi'
          exact (hrest i' hi').resolve_right fun hc => hlater ⟨i', hi', hc⟩
        obtain ⟨i', hi', hc⟩ := hsome
        rcases List.mem_cons.mp hi' with rfl | hi'
        · rw [layers_none hnone, hc]
          rfl
        · exact absurd ⟨i', hi', hc⟩ hlater

/-- A counting loop of which only iteration `k` draws at `x`, `y`. -/
theorem layers_range {pic : Nat → Picture γ} {x y k : Nat} (h : ∀ i, i ≠ k → pic i x y = none)
    (n : Nat) : layers pic (List.range n) x y = if k < n then pic k x y else none := by
  have hother : ∀ i, pic i x y = none ∨ pic i x y = pic k x y := by
    intro i
    by_cases hi : i = k
    · rw [hi]
      exact Or.inr rfl
    · exact Or.inl (h i hi)
  split
  · next hk =>
      cases hc : pic k x y with
      | none =>
          apply layers_none
          intro i _
          rcases hother i with hi | hi
          · exact hi
          · exact hi.trans hc
      | some c =>
          rw [hc] at hother
          exact layers_some (fun i _ => hother i) ⟨k, List.mem_range.mpr hk, hc⟩
  · next hk =>
      apply layers_none
      intro i hi
      apply h
      have := List.mem_range.mp hi
      omega

/-- Two nested loops that draw a rectangle place by place. -/
theorem layers_place (ox oy w h : Nat) (p : Picture γ) :
    layers (fun y => layers (fun x => .place (ox + x) (oy + y) (p x y)) (List.range w))
      (List.range h) = .patch ox oy w h p := by
  funext x y
  have hrow : ∀ i, i ≠ y - oy ∨ y < oy →
      layers (fun x => Picture.place (ox + x) (oy + i) (p x i)) (List.range w) x y = none := by
    intro i hi
    apply layers_none
    intro j _
    exact if_neg (by omega)
  -- outside of the rectangle no iteration draws; inside, the one whose counters are the place
  by_cases hoy : oy ≤ y
  · rw [layers_range (fun i hi => hrow i (Or.inl hi))]
    have hcol : ∀ i, i ≠ x - ox ∨ x < ox →
        Picture.place (ox + i) (oy + (y - oy)) (p i (y - oy)) x y = none :=
      fun i hi => if_neg (by omega)
    by_cases hox : ox ≤ x
    · rw [layers_range (fun i hi => hcol i (Or.inl hi))]
      unfold Picture.place Picture.patch
      rw [if_pos (show x = ox + (x - ox) ∧ y = oy + (y - oy) by omega)]
      by_cases hin : x - ox < w ∧ y - oy < h
      · rw [if_pos hin.2, if_pos hin.1, if_pos (by omega)]
      · rw [if_neg (show ¬ ((ox ≤ x ∧ x < ox + w) ∧ oy ≤ y ∧ y < oy + h) by omega)]
        split
        · rw [if_neg (by omega)]
        · rfl
    · rw [layers_none (fun i _ => hcol i (Or.inr (by omega))), ite_self]
      exact (if_neg (by omega)).symm
  · rw [layers_none (fun i _ => hrow i (Or.inr (by omega)))]
    exact (if_neg (by omega)).symm

/-- Two nested loops that draw tiles of equal size side by side: each place shows its own
tile. -/
theorem layers_tiles {w h : Nat} (hw : 0 < w) (hh : 0 < h) (p : Nat → Nat → Picture γ)
    (cols rows x y : Nat) :
    layers (fun r => layers (fun c => .patch (c * w) (r * h) w h (p c r)) (List.range cols))
      (List.range rows) x y =
      if x < cols * w ∧ y < rows * h then p (x / w) (y / h) (x % w) (y % h) else none := by
  have hout : ∀ c r, c ≠ x / w ∨ r ≠ y / h →
      Picture.patch (c * w) (r * h) w h (p c r) x y = none := by
    intro c r hne
    apply if_neg
    rintro ⟨hx, hy⟩
    have hc : x / w = c := (Nat.div_eq_iff hw).mpr (by omega)
    have hr : y / h = r := (Nat.div_eq_iff hh).mpr (by omega)
    omega
  -- the tile of a place is found by division
  rw [layers_range (k := y / h) fun r hr => layers_none fun c _ => hout c r (Or.inr hr),
    layers_range (k := x / w) fun c hc => hout c _ (Or.inl hc)]
  simp only [Nat.div_lt_iff_lt_mul hh, Nat.div_lt_iff_lt_mul hw]
  have hx := Nat.div_add_mod' x w
  have hy := Nat.div_add_mod' y h
  have hxmod := Nat.mod_lt x hw
  have hymod := Nat.mod_lt y hh
  have hpatch : Picture.patch (x / w * w) (y / h * h) w h (p (x / w) (y / h)) x y =
      p (x / w) (y / h) (x % w) (y % h) := by
    unfold Picture.patch
    rw [if_pos (by omega)]
    congr 1 <;> omega
  rw [hpatch]
  by_cases hx : x < cols * w <;> by_cases hy : y < rows * h <;> simp [hx, hy]

/-! ## Formats -/

/-- How a buffer holds a picture: `size` elements for each place, `stride` places in a
row. -/
structure Format (α γ : Type) where
  encode : γ → List α
  size : Nat
  stride : Nat
  length_encode : ∀ c, (encode c).length = size
  size_pos : 0 < size

namespace Format

variable (F : Format α γ)

/-- Where a place begins. -/
def offset (x y : Nat) : Nat := (y * F.stride + x) * F.size

/-- The picture as elements of the buffer. -/
def elements (pic : Picture γ) (i : Nat) : Option α :=
  (pic (i / F.size % F.stride) (i / F.size / F.stride)).bind fun c => (F.encode c)[i % F.size]?

/-- On a buffer of length `n`, `f` draws the picture. -/
def Draws (n : Nat) (f : List α → Except φ (List α)) (pic : Picture γ) : Prop :=
  ∀ buf, buf.length = n → f buf = .ok (overlay (F.elements pic) buf)

variable {F} {n : Nat}

/-- The elements of the place at `x`, `y`. -/
theorem div_eq_iff {x y i : Nat} (hx : x < F.stride) :
    (i / F.size % F.stride = x ∧ i / F.size / F.stride = y) ↔
      F.offset x y ≤ i ∧ i < F.offset x y + F.size := by
  have hstride : 0 < F.stride := by omega
  have hplace : (i / F.size % F.stride = x ∧ i / F.size / F.stride = y) ↔
      i / F.size = y * F.stride + x := by
    constructor
    · rintro ⟨rfl, rfl⟩
      exact (Nat.div_add_mod' _ _).symm
    · intro h
      rw [h, Nat.mul_add_mod_of_lt hx, Nat.mul_comm, Nat.mul_add_div hstride,
        Nat.div_eq_of_lt hx]
      exact ⟨rfl, rfl⟩
  have hsize := F.size_pos
  rw [hplace, offset, Nat.div_eq_iff hsize]
  omega

/-- What is on top is on top in the buffer too, as every place is written as a whole. -/
theorem elements_onTop (p q : Picture γ) (i : Nat) :
    F.elements (Picture.onTop p q) i = (F.elements p i).or (F.elements q i) := by
  unfold elements Picture.onTop
  cases p (i / F.size % F.stride) (i / F.size / F.stride) with
  | none => rfl
  | some c =>
      have hi : i % F.size < (F.encode c).length := by
        rw [F.length_encode]
        exact Nat.mod_lt i F.size_pos
      simp [hi]

theorem draws_id : F.Draws n (fun buf => (.ok buf : Except φ (List α))) .empty := by
  intro buf _
  have helements : F.elements .empty = fun _ => none := rfl
  rw [helements, overlay_none]

/-- The later picture is on top. -/
theorem Draws.bind {f g : List α → Except φ (List α)} {p q : Picture γ} (hf : F.Draws n f p)
    (hg : F.Draws n g q) : F.Draws n (fun buf => f buf >>= g) (Picture.onTop q p) := by
  intro buf hbuf
  dsimp only
  rw [hf buf hbuf, ok_bind, hg _ (by rw [length_overlay, hbuf]), overlay_overlay]
  congr 2
  funext i
  rw [elements_onTop]

/-- A loop. -/
theorem draws_foldlM {body : List α → ι → Except φ (List α)} {pic : ι → Picture γ} {is : List ι}
    (h : ∀ i ∈ is, F.Draws n (body · i) (pic i)) :
    F.Draws n (fun buf => is.foldlM body buf) (layers pic is) := by
  induction is with
  | nil => exact draws_id
  | cons i is ih =>
      exact (h i List.mem_cons_self).bind (ih fun i' hi' => h i' (List.mem_cons_of_mem i hi'))

/-- A loop that could break but does not. -/
theorem draws_untilM {stop : Nat → ι → Bool} {body : List α → ι → Except φ (List α)}
    {pic : ι → Picture γ} {is : List ι} (hstop : ∀ i ∈ is, stop n i = false)
    (h : ∀ i ∈ is, F.Draws n (body · i) (pic i)) :
    F.Draws n (untilM stop body is) (layers pic is) := by
  induction is with
  | nil => exact draws_id
  | cons i is ih =>
      have hrest := ih (fun i' hi' => hstop i' (List.mem_cons_of_mem i hi'))
        (fun i' hi' => h i' (List.mem_cons_of_mem i hi'))
      intro buf hbuf
      rw [untilM, hbuf, hstop i List.mem_cons_self]
      exact (h i List.mem_cons_self).bind hrest buf hbuf

/-- One place. -/
theorem draws_place {x y : Nat} (hx : x < F.stride) (hn : F.offset x y + F.size ≤ n) (c : γ) :
    F.Draws n (fun buf => Vec.copySlice buf (F.offset x y) (F.encode c)) (.place x y (some c)) := by
  rintro buf rfl
  have hlen := F.length_encode c
  show Vec.copySlice buf (F.offset x y) (F.encode c) = _
  rw [Vec.copySlice, if_pos (by omega), splice_eq_overlay (by omega), hlen]
  congr 2
  funext i
  unfold elements Picture.place
  by_cases hi : F.offset x y ≤ i ∧ i < F.offset x y + F.size
  · -- inside the place the remainder counts from its beginning
    have hmod : i % F.size = i - F.offset x y := by
      obtain ⟨k, rfl⟩ := Nat.exists_eq_add_of_le hi.1
      have hk : k < F.size := by omega
      rw [Nat.add_sub_cancel_left]
      exact Nat.mul_add_mod_of_lt hk
    rw [if_pos hi, if_pos ((div_eq_iff hx).mpr hi), hmod]
    rfl
  · rw [if_neg hi, if_neg (fun h => hi ((div_eq_iff hx).mp h))]
    rfl

/-- A place of the picture, read back from the buffer. -/
theorem take_drop_overlay {pic : Picture γ} {x y : Nat} {c : γ} (hx : x < F.stride)
    (hc : pic x y = some c) {buf : List α} (hbuf : F.offset x y + F.size ≤ buf.length) :
    ((overlay (F.elements pic) buf).drop (F.offset x y)).take F.size = F.encode c := by
  have hlen := F.length_encode c
  apply List.ext_getElem?
  intro k
  rw [List.getElem?_take]
  split
  · next hk =>
      have hplace := (div_eq_iff (F := F) (y := y) (i := F.offset x y + k) hx).mpr (by omega)
      have hmod : (F.offset x y + k) % F.size = k := Nat.mul_add_mod_of_lt hk
      have hin : F.offset x y + k < buf.length := by omega
      rw [List.getElem?_drop, getElem?_overlay, List.getElem?_eq_getElem hin, elements, hplace.1,
        hplace.2, hc, hmod, Option.bind_some, List.getElem?_eq_getElem (by omega)]
      rfl
  · rw [List.getElem?_eq_none (by omega)]

end Format

end Raster
