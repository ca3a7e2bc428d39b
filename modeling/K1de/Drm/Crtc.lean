import K1de.Drm.Probe

/-! # The choice of a CRTC

`resolve_crtc` asks the encoders of the connector in turn, its current encoder last, and
takes the first CRTC that one of them offers: the one it is bound to, or else the first
one it can drive. What it returns is therefore usable, and it fails only if nothing is
(`resolveCrtc_usable`).

A CRTC that is in use should be preferred. But an encoder that is not bound offers
whatever it can drive, and if it comes first in the list its offer is taken.
`resolveCrtc_bound_iff` says for which answers of the encoders this does no harm.
-/

namespace K1de

open Effect

/-- A search over a numbered list finds the first place with a hit. -/
theorem findSome?_zipIdx_iff {α β : Type} {f : α × Nat → Option β} {l : List α} {b : β} :
    l.zipIdx.findSome? f = some b ↔
      ∃ i a, l[i]? = some a ∧ f (a, i) = some b ∧
        ∀ j < i, ∀ a', l[j]? = some a' → f (a', j) = none := by
  have hfirst : ∀ {b}, l.zipIdx.findSome? f = some b → ∃ i a, l[i]? = some a ∧
      f (a, i) = some b ∧ ∀ j < i, ∀ a', l[j]? = some a' → f (a', j) = none := by
    intro b h
    obtain ⟨l₁, x, l₂, hsplit, hhit, hbefore⟩ := List.findSome?_eq_some_iff.mp h
    have hat : l.zipIdx[l₁.length]? = some x := by
      rw [hsplit, List.getElem?_append_right le_rfl, Nat.sub_self]
      rfl
    rw [List.getElem?_zipIdx, Nat.zero_add, Option.map_eq_some_iff] at hat
    obtain ⟨a, ha, rfl⟩ := hat
    refine ⟨l₁.length, a, ha, hhit, ?_⟩
    intro j hj a' ha'
    have hat' : l.zipIdx[j]? = some (a', j) := by
      rw [List.getElem?_zipIdx, ha', Option.map_some, Nat.zero_add]
    rw [hsplit, List.getElem?_append_left hj] at hat'
    exact hbefore _ (List.mem_of_getElem? hat')
  refine ⟨hfirst, ?_⟩
  rintro ⟨i, a, ha, hhit, hbefore⟩
  cases hfound : l.zipIdx.findSome? f with
  | none =>
      have hmem : (a, i) ∈ l.zipIdx := List.mem_zipIdx_iff_getElem?.mpr ha
      cases (List.findSome?_eq_none_iff.mp hfound _ hmem).symm.trans hhit
  | some b' =>
      -- two first places are the same place
      obtain ⟨i', a', ha', hhit', hbefore'⟩ := hfirst hfound
      rcases Nat.lt_trichotomy i i' with hlt | rfl | hgt
      · cases (hbefore' i hlt a ha).symm.trans hhit
      · cases ha.symm.trans ha'
        exact hhit'.symm.trans hhit
      · cases (hbefore i' hgt a' ha').symm.trans hhit'

/-- The four queries before the encoders are asked succeed, and count and list agree. -/
structure ResolveAnswers.Consistent (a : ResolveAnswers) (encoders : List UInt32)
    (current : UInt32) (crtcIds : List UInt32) : Prop where
  encoders_counted : ∃ gc, a.connector = .ok gc ∧ gc.countEncoders.toNat = encoders.length
  encoders_fetched : ∃ gc, a.encoders = .ok gc ∧ gc.encoders = encoders ∧ gc.encoderId = current
  crtcs_counted : ∃ res, a.resources = .ok res ∧ res.countCrtcs.toNat = crtcIds.length
  crtcs_fetched : ∃ res, a.crtcs = .ok res ∧ res.crtcIds = crtcIds

namespace Drm

/-! ## Offers -/

variable (encoder : Nat → UInt32 → Except IoError GetEncoder) (crtcIds : List UInt32)

/-- The CRTC that an encoder offers. An encoder is given by its id and its place. -/
def offer (enc : UInt32 × Nat) : Option UInt32 :=
  if enc.1 = 0 then none
  else
    match encoder enc.2 enc.1 with
    | .error _ => none
    | .ok ge => if ge.crtcId ≠ 0 then some ge.crtcId else possibleCrtc crtcIds ge.possibleCrtcs

/-- The loop takes the first offer. -/
theorem encoderResult_eq (i : Nat) (encs : List UInt32) :
    encoderResult encoder crtcIds i encs =
      ((encs.zipIdx i).findSome? (offer encoder crtcIds)).elim
        (.error (.notFound "no usable crtc")) .ok := by
  induction encs generalizing i with
  | nil => rfl
  | cons encId rest ih =>
      -- the loop passes over id 0, an encoder that does not answer, and one without an offer
      rw [encoderResult, List.zipIdx_cons, List.findSome?_cons, offer]
      dsimp only
      by_cases hzero : encId = 0
      · rw [if_pos hzero, if_pos hzero]
        exact ih (i + 1)
      rw [if_neg hzero, if_neg hzero]
      cases encoder i encId with
      | error e => exact ih (i + 1)
      | ok ge =>
          dsimp only
          by_cases hbound : ge.crtcId ≠ 0
          · rw [if_pos hbound, if_pos hbound]
            rfl
          · rw [if_neg hbound, if_neg hbound]
            cases possibleCrtc crtcIds ge.possibleCrtcs with
            | some crtcId => rfl
            | none => exact ih (i + 1)

/-- After the four queries, `resolve_crtc` is a search for the first offer among the connector's
encoders and, last, its current one. -/
theorem resolveCrtc_eq {a : ResolveAnswers} {encoders : List UInt32} {current : UInt32}
    {crtcIds : List UInt32} (h : a.Consistent encoders current crtcIds) (connectorId : UInt32)
    (w : World) :
    (exec (resolveCrtc connectorId a) w).1 =
      ((encoders ++ [current]).zipIdx.findSome? (offer a.encoder crtcIds)).elim
        (.error (.notFound "no usable crtc")) .ok := by
  obtain ⟨gc, hgc, hcountE⟩ := h.encoders_counted
  obtain ⟨gc2, hgc2, hencoders, hcurrent⟩ := h.encoders_fetched
  obtain ⟨res, hres, hcountC⟩ := h.crtcs_counted
  obtain ⟨res2, hres2, hcrtcs⟩ := h.crtcs_fetched
  -- both buffers have the length that the first call has counted, and the second fills them
  have hresult : a.result = encoderResult a.encoder
      (writeArray (List.replicate res.countCrtcs.toNat 0) res2.crtcIds) 0
      (writeArray (List.replicate gc.countEncoders.toNat 0) gc2.encoders ++ [gc2.encoderId]) := by
    unfold ResolveAnswers.result
    rw [hgc, hgc2, hres, hres2]
    rfl
  rw [(resolveCrtc_asks connectorId a w).1, hresult, hcurrent, hencoders, hcrtcs,
    writeArray_of_length (by rw [List.length_replicate, hcountC]),
    writeArray_of_length (by rw [List.length_replicate, hcountE]), encoderResult_eq]

/-! ## Bits -/

/-- The shift and mask of `resolve_crtc` read one bit. The mask has 32 places, and past the last
one the shift begins again with the first. -/
theorem mask_ne_zero_iff (possible : UInt32) (j : Nat) :
    possible &&& ((1 : UInt32) <<< UInt32.ofNat j) ≠ 0 ↔ possible.toNat.testBit (j % 32) := by
  have hshift : ((1 : UInt32) <<< UInt32.ofNat j).toNat = 2 ^ (j % 32) := by
    have hmod : j % 2 ^ 32 % 32 = j % 32 := by omega
    have hlt : 2 ^ (j % 32) < 2 ^ 32 :=
      Nat.pow_lt_pow_right (by decide) (Nat.mod_lt _ (by decide))
    rw [UInt32.toNat_shiftLeft, UInt32.toNat_ofNat', hmod, UInt32.toNat_one, Nat.one_shiftLeft,
      Nat.mod_eq_of_lt hlt]
  rw [ne_eq, ← UInt32.toNat_inj, UInt32.toNat_and, hshift, Nat.and_two_pow]
  cases possible.toNat.testBit (j % 32) <;> simp

/-- The mask has the bit of a place in the list, `c` is there, and no bit of an earlier place is
set. For up to 32 CRTCs the bit of place `j` is bit `j`. -/
def FirstPossible (possible c : UInt32) : Prop :=
  ∃ j, crtcIds[j]? = some c ∧ possible.toNat.testBit (j % 32) ∧
    ∀ j' < j, ¬ possible.toNat.testBit (j' % 32)

variable {crtcIds}

/-- The inner loop of `resolve_crtc` stops at the lowest bit. -/
theorem possibleCrtc_eq_iff {possible c : UInt32} :
    possibleCrtc crtcIds possible = some c ↔ FirstPossible crtcIds possible c := by
  have hsearch : possibleCrtc crtcIds possible = crtcIds.zipIdx.findSome? fun c =>
      (Option.guard (fun c : UInt32 × Nat =>
        decide (possible &&& ((1 : UInt32) <<< UInt32.ofNat c.2) ≠ 0)) c).map Prod.fst := by
    rw [possibleCrtc, List.find?_eq_findSome?_guard, List.map_findSome?]
    rfl
  rw [hsearch, findSome?_zipIdx_iff]
  constructor
  · rintro ⟨j, c', hget, hhit, hbefore⟩
    obtain ⟨x, hx, hc⟩ := Option.map_eq_some_iff.mp hhit
    obtain ⟨rfl, hbit⟩ := Option.guard_eq_some_iff.mp hx
    cases hc
    refine ⟨j, hget, (mask_ne_zero_iff possible j).mp (of_decide_eq_true hbit), ?_⟩
    intro j' hj' hbit'
    have hj'' : j' < crtcIds.length := hj'.trans (List.getElem?_eq_some_iff.mp hget).1
    have hnone := hbefore j' hj' _ (List.getElem?_eq_getElem hj'')
    rw [Option.map_eq_none_iff, Option.guard_eq_none_iff] at hnone
    exact of_decide_eq_false hnone ((mask_ne_zero_iff possible j').mpr hbit')
  · rintro ⟨j, hget, hbit, hbefore⟩
    refine ⟨j, c, hget, ?_, ?_⟩
    · refine Option.map_eq_some_iff.mpr ⟨(c, j), Option.guard_eq_some_iff.mpr ⟨rfl, ?_⟩, rfl⟩
      exact decide_eq_true ((mask_ne_zero_iff possible j).mpr hbit)
    · intro j' hj' c' _
      rw [Option.map_eq_none_iff, Option.guard_eq_none_iff]
      exact decide_eq_false fun hne => hbefore j' hj' ((mask_ne_zero_iff possible j').mp hne)

/-- It finds a CRTC if any place of the list has its bit set. -/
theorem exists_firstPossible {possible : UInt32} {j : Nat} (hj : j < crtcIds.length)
    (hbit : possible.toNat.testBit (j % 32)) : ∃ c, FirstPossible crtcIds possible c := by
  have hexists : ∃ j, possible.toNat.testBit (j % 32) := ⟨j, hbit⟩
  have hle : Nat.find hexists ≤ j := Nat.find_min' hexists hbit
  exact ⟨_, Nat.find hexists, List.getElem?_eq_getElem (hle.trans_lt hj), Nat.find_spec hexists,
    fun _ => Nat.find_min hexists⟩

/-! ## Soundness and completeness -/

/-- The encoder at place `i` answers, and this is its answer. -/
def Replies (encs : List UInt32) (i : Nat) (ge : GetEncoder) : Prop :=
  ∃ encId, encs[i]? = some encId ∧ encId ≠ 0 ∧ encoder i encId = .ok ge

/-- An encoder is bound to the CRTC. -/
def Bound (encs : List UInt32) (c : UInt32) : Prop :=
  ∃ i ge, Replies encoder encs i ge ∧ ge.crtcId = c ∧ c ≠ 0

/-- An encoder is bound to the CRTC, or is not bound and can drive it. -/
def Usable (encs crtcIds : List UInt32) (c : UInt32) : Prop :=
  ∃ i ge, Replies encoder encs i ge ∧ (ge.crtcId = c ∧ c ≠ 0 ∨
    ge.crtcId = 0 ∧ ∃ j, crtcIds[j]? = some c ∧ ge.possibleCrtcs.toNat.testBit j)

/-- The encoder at place `i` offers the CRTC. -/
def Offers (encs crtcIds : List UInt32) (i : Nat) (c : UInt32) : Prop :=
  ∃ encId, encs[i]? = some encId ∧ offer encoder crtcIds (encId, i) = some c

variable {encoder} {encs : List UInt32}

/-- What an encoder offers, read off from its answer: the CRTC it is bound to, or else the one at
the lowest bit of its mask. An encoder with id 0, or that does not answer, offers nothing. -/
theorem offers_iff {i : Nat} {c : UInt32} :
    Offers encoder encs crtcIds i c ↔ ∃ ge, Replies encoder encs i ge ∧
      (ge.crtcId = c ∧ c ≠ 0 ∨
        ge.crtcId = 0 ∧ FirstPossible crtcIds ge.possibleCrtcs c) := by
  constructor
  · rintro ⟨encId, hget, hoffer⟩
    unfold offer at hoffer
    dsimp only at hoffer
    split at hoffer
    · cases hoffer
    next hne =>
      split at hoffer
      · cases hoffer
      next ge hge =>
        refine ⟨ge, ⟨encId, hget, hne, hge⟩, ?_⟩
        by_cases hbound : ge.crtcId ≠ 0
        · rw [if_pos hbound] at hoffer
          cases hoffer
          exact Or.inl ⟨rfl, hbound⟩
        · rw [if_neg hbound] at hoffer
          exact Or.inr ⟨not_not.mp hbound, possibleCrtc_eq_iff.mp hoffer⟩
  · rintro ⟨ge, ⟨encId, hget, hne, hge⟩, hcase⟩
    refine ⟨encId, hget, ?_⟩
    unfold offer
    dsimp only
    rw [if_neg hne, hge]
    dsimp only
    rcases hcase with ⟨rfl, hbound⟩ | ⟨hzero, hpossible⟩
    · rw [if_pos hbound]
    · rw [if_neg (not_not.mpr hzero), possibleCrtc_eq_iff.mpr hpossible]

/-- An offer is usable. -/
theorem Offers.usable (hcrtcs : crtcIds.length ≤ 32) {i : Nat} {c : UInt32}
    (h : Offers encoder encs crtcIds i c) : Usable encoder encs crtcIds c := by
  obtain ⟨ge, hge, hbound | ⟨hzero, j, hget, hbit, -⟩⟩ := offers_iff.mp h
  · exact ⟨i, ge, hge, Or.inl hbound⟩
  · have hj : j < crtcIds.length := (List.getElem?_eq_some_iff.mp hget).1
    rw [Nat.mod_eq_of_lt (by omega)] at hbit
    exact ⟨i, ge, hge, Or.inr ⟨hzero, j, hget, hbit⟩⟩

/-- Where a CRTC is usable there is an offer, perhaps of another one. -/
theorem Usable.offers (hcrtcs : crtcIds.length ≤ 32) {c : UInt32}
    (h : Usable encoder encs crtcIds c) : ∃ i c', Offers encoder encs crtcIds i c' := by
  obtain ⟨i, ge, hge, hbound | ⟨hzero, j, hget, hbit⟩⟩ := h
  · exact ⟨i, c, offers_iff.mpr ⟨ge, hge, Or.inl hbound⟩⟩
  · have hj : j < crtcIds.length := (List.getElem?_eq_some_iff.mp hget).1
    have hbit' : ge.possibleCrtcs.toNat.testBit (j % 32) := by
      rwa [Nat.mod_eq_of_lt (by omega)]
    obtain ⟨c', hc'⟩ := exists_firstPossible hj hbit'
    exact ⟨i, c', offers_iff.mpr ⟨ge, hge, Or.inr ⟨hzero, hc'⟩⟩⟩

/-- If the search finds nothing, no encoder had anything to offer. -/
theorem not_offers_of_findSome? (h : encs.zipIdx.findSome? (offer encoder crtcIds) = none)
    (i : Nat) (c : UInt32) : ¬ Offers encoder encs crtcIds i c := by
  rintro ⟨encId, hget, hoffer⟩
  have hmem : (encId, i) ∈ encs.zipIdx := List.mem_zipIdx_iff_getElem?.mpr hget
  have hnone := List.findSome?_eq_none_iff.mp h _ hmem
  cases hnone.symm.trans hoffer

/-- `resolve_crtc` returns only a CRTC that an encoder is bound to or can drive, and it
fails exactly if there is none. -/
theorem resolveCrtc_usable (connectorId : UInt32) (a : ResolveAnswers) (encoders : List UInt32)
    (current : UInt32) (crtcIds : List UInt32) (h : a.Consistent encoders current crtcIds)
    (hcrtcs : crtcIds.length ≤ 32) (w : World) :
    (∀ c, (exec (resolveCrtc connectorId a) w).1 = .ok c →
      Usable a.encoder (encoders ++ [current]) crtcIds c) ∧
    ((∃ e, (exec (resolveCrtc connectorId a) w).1 = .error e) ↔
      ¬ ∃ c, Usable a.encoder (encoders ++ [current]) crtcIds c) := by
  rw [resolveCrtc_eq h]
  cases hfound : (encoders ++ [current]).zipIdx.findSome? (offer a.encoder crtcIds) with
  | none =>
      refine ⟨nofun, iff_of_true ⟨_, rfl⟩ ?_⟩
      rintro ⟨c, hc⟩
      obtain ⟨i, c', hoffers⟩ := hc.offers hcrtcs
      exact not_offers_of_findSome? hfound i c' hoffers
  | some c =>
      obtain ⟨i, encId, hget, hoffer, -⟩ := findSome?_zipIdx_iff.mp hfound
      have husable := Offers.usable hcrtcs ⟨encId, hget, hoffer⟩
      constructor
      · intro c' hc'
        cases hc'
        exact husable
      · exact iff_of_false nofun (not_not.mpr ⟨c, husable⟩)

/-- Two encoders and two CRTCs. Encoder 3 is not bound and can drive the CRTCs in the mask;
encoder 5, the current one, is bound to CRTC 8. -/
def twoEncoders (mask : UInt32) : ResolveAnswers :=
  let connector : GetConnector :=
    { connection := 1, countModes := 0, countEncoders := 2, encoderId := 5, modes := []
      encoders := [3, 5] }
  { connector := .ok connector
    encoders := .ok connector
    resources := .ok { countCrtcs := 2, crtcIds := [] }
    crtcs := .ok { countCrtcs := 2, crtcIds := [7, 8] }
    encoder := fun _ encId =>
      if encId = 3 then .ok { crtcId := 0, possibleCrtcs := mask }
      else .ok { crtcId := 8, possibleCrtcs := 3 } }

/-- Both calls of each kind give the same lists. -/
theorem consistent_twoEncoders (mask : UInt32) :
    (twoEncoders mask).Consistent [3, 5] 5 [7, 8] :=
  ⟨⟨_, rfl, rfl⟩, ⟨_, rfl, rfl, rfl⟩, ⟨_, rfl, rfl⟩, ⟨_, rfl, rfl⟩⟩

/-- Encoder 3 comes first, and its lowest bit is that of CRTC 7. -/
theorem resolveCrtc_usable_masked :
    (exec (resolveCrtc 1 (twoEncoders 3)) opened).1 = .ok 7 ∧
      Usable (twoEncoders 3).encoder ([3, 5] ++ [5]) [7, 8] 7 :=
  ⟨rfl, (resolveCrtc_usable 1 (twoEncoders 3) [3, 5] 5 [7, 8] (consistent_twoEncoders 3)
    (by decide) opened).1 7 rfl⟩

/-! ## Preference -/

/-- The answer leads to a CRTC: the encoder is bound, or its mask has the bit of a CRTC in the
list. -/
def Leads (crtcIds : List UInt32) (ge : GetEncoder) : Prop :=
  ge.crtcId ≠ 0 ∨ ∃ j < crtcIds.length, ge.possibleCrtcs.toNat.testBit (j % 32)

/-- Of an encoder that is not bound, the CRTC at the lowest bit of its mask is bound to another one,
unless an encoder before it leads to a CRTC. -/
def BoundFirst (encoder : Nat → UInt32 → Except IoError GetEncoder)
    (encs crtcIds : List UInt32) : Prop :=
  ∀ i ge c, Replies encoder encs i ge → ge.crtcId = 0 → FirstPossible crtcIds ge.possibleCrtcs c →
    (∃ i' < i, ∃ ge', Replies encoder encs i' ge' ∧ Leads crtcIds ge') ∨ Bound encoder encs c

/-- An encoder has something to offer if its answer leads to a CRTC. -/
theorem exists_offers_iff {i : Nat} :
    (∃ c, Offers encoder encs crtcIds i c) ↔
      ∃ ge, Replies encoder encs i ge ∧ Leads crtcIds ge := by
  constructor
  · rintro ⟨c, hoffers⟩
    obtain ⟨ge, hge, ⟨rfl, hbound⟩ | ⟨-, j, hget, hbit, -⟩⟩ := offers_iff.mp hoffers
    · exact ⟨ge, hge, Or.inl hbound⟩
    · exact ⟨ge, hge, Or.inr ⟨j, (List.getElem?_eq_some_iff.mp hget).1, hbit⟩⟩
  · rintro ⟨ge, hge, hleads⟩
    by_cases hzero : ge.crtcId = 0
    · obtain ⟨j, hj, hbit⟩ := hleads.resolve_left (not_not.mpr hzero)
      obtain ⟨c, hc⟩ := exists_firstPossible hj hbit
      exact ⟨c, offers_iff.mpr ⟨ge, hge, Or.inr ⟨hzero, hc⟩⟩⟩
    · exact ⟨ge.crtcId, offers_iff.mpr ⟨ge, hge, Or.inl ⟨rfl, hzero⟩⟩⟩

/-- If an encoder is bound, `resolve_crtc` returns a CRTC that is bound exactly if the first
encoder that leads to one is bound, or its lowest bit is that of a CRTC bound to another. -/
theorem resolveCrtc_bound_iff (connectorId : UInt32) (a : ResolveAnswers)
    (encoders : List UInt32) (current : UInt32) (crtcIds : List UInt32)
    (h : a.Consistent encoders current crtcIds)
    (hbound : ∃ c, Bound a.encoder (encoders ++ [current]) c) (w : World) :
    (∃ c, (exec (resolveCrtc connectorId a) w).1 = .ok c ∧
      Bound a.encoder (encoders ++ [current]) c) ↔
      BoundFirst a.encoder (encoders ++ [current]) crtcIds := by
  rw [resolveCrtc_eq h]
  generalize encoders ++ [current] = encs at hbound ⊢
  obtain ⟨b, i₀, ge₀, hge₀, hb⟩ := hbound
  cases hfound : encs.zipIdx.findSome? (offer a.encoder crtcIds) with
  | none =>
      exact absurd (offers_iff.mpr ⟨ge₀, hge₀, Or.inl hb⟩) (not_offers_of_findSome? hfound i₀ b)
  | some c =>
      obtain ⟨i, encId, hget, hoffer, hbefore⟩ := findSome?_zipIdx_iff.mp hfound
      have hoffers : Offers a.encoder encs crtcIds i c := ⟨encId, hget, hoffer⟩
      -- place `i` is the first that leads anywhere
      have hfirst : ∀ j < i, ∀ c', ¬ Offers a.encoder encs crtcIds j c' := by
        rintro j hj c' ⟨encId', hget', hoffer'⟩
        cases (hbefore j hj encId' hget').symm.trans hoffer'
      constructor
      · rintro ⟨c', hc', hcbound⟩ i' ge' c'' hge' hzero hpossible
        cases hc'
        have hoffers' : Offers a.encoder encs crtcIds i' c'' :=
          offers_iff.mpr ⟨ge', hge', Or.inr ⟨hzero, hpossible⟩⟩
        -- before place `i` nothing is offered, at `i` it is `c`, and a later offer is not taken
        rcases Nat.lt_trichotomy i' i with hlt | rfl | hgt
        · exact absurd hoffers' (hfirst i' hlt c'')
        · right
          obtain ⟨encId', hget', hoffer'⟩ := hoffers'
          cases hget.symm.trans hget'
          cases hoffer.symm.trans hoffer'
          exact hcbound
        · exact Or.inl ⟨i, hgt, exists_offers_iff.mp ⟨c, hoffers⟩⟩
      · intro hall
        refine ⟨c, rfl, ?_⟩
        obtain ⟨ge, hge, hown | ⟨hzero, hpossible⟩⟩ := offers_iff.mp hoffers
        · exact ⟨i, ge, hge, hown⟩
        · -- place `i` is not bound: by the condition its CRTC is bound to another encoder
          rcases hall i ge c hge hzero hpossible with ⟨j, hj, hleads⟩ | hcbound
          · obtain ⟨c', hoffers'⟩ := exists_offers_iff.mpr hleads
            exact absurd hoffers' (hfirst j hj c')
          · exact hcbound

theorem bound_twoEncoders (mask : UInt32) : Bound (twoEncoders mask).encoder ([3, 5] ++ [5]) 8 :=
  ⟨1, _, ⟨5, rfl, by decide, rfl⟩, rfl, by decide⟩

/-- With bit 1 alone the first encoder can drive nothing but CRTC 8. -/
theorem boundFirst_twoEncoders : BoundFirst (twoEncoders 2).encoder ([3, 5] ++ [5]) [7, 8] := by
  rintro i ge c ⟨encId, -, -, hge⟩ hzero ⟨j, hget, hbit, -⟩
  right
  unfold twoEncoders at hge
  dsimp only at hge
  split at hge
  · cases hge
    match j, hget, hbit with
    | 0, _, hbit => exact absurd hbit (by decide)
    | 1, hget, _ =>
        cases hget
        exact bound_twoEncoders 2
  · cases hge
    exact absurd hzero (by decide)

/-- Encoder 3 comes first and is not bound, but what it can drive is bound to encoder 5. -/
theorem resolveCrtc_bound_iff_shared :
    ∃ c, (exec (resolveCrtc 1 (twoEncoders 2)) opened).1 = .ok c ∧
      Bound (twoEncoders 2).encoder ([3, 5] ++ [5]) c :=
  (resolveCrtc_bound_iff 1 (twoEncoders 2) [3, 5] 5 [7, 8] (consistent_twoEncoders 2)
    ⟨8, bound_twoEncoders 2⟩ opened).mpr boundFirst_twoEncoders

/-- CRTC 8 is bound, and CRTC 7, which no encoder is bound to, is returned. -/
theorem unbound_crtc_chosen :
    Bound (twoEncoders 1).encoder ([3, 5] ++ [5]) 8 ∧
    (exec (resolveCrtc 1 (twoEncoders 1)) opened).1 = .ok 7 ∧
    ¬ Bound (twoEncoders 1).encoder ([3, 5] ++ [5]) 7 := by
  refine ⟨bound_twoEncoders 1, rfl, ?_⟩
  rintro ⟨i, ge, ⟨encId, -, -, hge⟩, hcrtc, -⟩
  unfold twoEncoders at hge
  dsimp only at hge
  split at hge
  · cases hge
    exact absurd hcrtc (by decide)
  · cases hge
    exact absurd hcrtc (by decide)

end Drm

end K1de
