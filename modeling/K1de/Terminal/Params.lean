import K1de.Terminal.Numbers
import K1de.Terminal.Sgr

/-! # Omitted parameters and marked sequences

The parser pushes a number when a `;` follows it, and at the final byte only if digits
have been read. So an omitted last parameter is not a zero but no parameter at all. No
motion and no erasure can tell the difference; SGR can (`omitted_iff`).

The private markers `< = > ?` and the intermediate bytes are skipped, and the final byte
acts as if they were not there. A marked sequence is therefore a no-op only where the
unmarked one is (`marked_noop_iff`).

Both results are about what a sequence does on all terminals that can come about. Two of
them, `uncoloured` and `coloured`, are enough to tell any two commands apart.
-/

namespace K1de

open Fallible Decimal

/-! ## Reading back omitted parameters -/

/-- A parameter as it is written. -/
def field (p : Option UInt32) : List UInt8 := (p.map fun n => numeral n.toNat).getD []

/-- Parameters joined by `;`, the omitted ones empty. -/
def encodeOptional (ps : List (Option UInt32)) : List UInt8 := [0x3b].intercalate (ps.map field)

theorem encodeOptional_singleton (p : Option UInt32) : encodeOptional [p] = field p := by
  simp [encodeOptional, List.intercalate]

theorem encodeOptional_cons_cons (p q : Option UInt32) (ps : List (Option UInt32)) :
    encodeOptional (p :: q :: ps) = field p ++ 0x3b :: encodeOptional (q :: ps) := by
  simp [encodeOptional, List.intercalate]

theorem isDigit_of_mem_field {p : Option UInt32} {b : UInt8} (h : b ∈ field p) : IsDigit b := by
  cases p with
  | none => cases h
  | some n => exact isDigit_of_mem_numeral h

/-- A parameter that is written is read back, and an omitted one leaves no number. -/
theorem foldl_collect_field (params : List UInt32) (p : Option UInt32) :
    (field p).foldl collect ⟨params, none⟩ = ⟨params, p⟩ := by
  cases p with
  | none => rfl
  | some n =>
      have hdigits : ∀ b ∈ numeral n.toNat, IsDigit b := fun _ hb => isDigit_of_mem_numeral hb
      show (numeral n.toNat).foldl collect ⟨params, none⟩ = _
      rw [foldl_collect_digits params hdigits, if_neg (numeral_ne_nil _), value32_numeral]

/-- The parser reads back all parameters but an omitted last one. -/
theorem foldl_collect_encodeOptional (params : List UInt32) (ps : List (Option UInt32))
    (p : Option UInt32) :
    ((encodeOptional (ps ++ [p])).foldl collect ⟨params, none⟩).all =
      params ++ ps.map (·.getD 0) ++ p.toList := by
  induction ps generalizing params with
  | nil =>
      rw [List.nil_append, encodeOptional_singleton, foldl_collect_field]
      simp [Collected.all]
  | cons q ps ih =>
      -- there is another parameter behind this one, so a semicolon finishes it
      obtain ⟨r, rs, hrs⟩ : ∃ r rs, ps ++ [p] = r :: rs := List.exists_cons_of_ne_nil (by simp)
      rw [hrs] at ih
      rw [List.cons_append, hrs, encodeOptional_cons_cons, List.foldl_append, foldl_collect_field,
        List.foldl_cons, collect_semicolon, ih]
      simp

/-- Parameters consist of digits and semicolons. -/
theorem not_final_of_mem_encodeOptional (ps : List (Option UInt32)) :
    ∀ b ∈ encodeOptional ps, ¬ Final b := by
  induction ps with
  | nil => simp [encodeOptional, List.intercalate]
  | cons p ps ih =>
      intro b hb
      cases ps with
      | nil =>
          rw [encodeOptional_singleton] at hb
          exact not_final_of_isDigit (isDigit_of_mem_field hb)
      | cons q ps =>
          rw [encodeOptional_cons_cons] at hb
          rcases List.mem_append.mp hb with hb | hb
          · exact not_final_of_isDigit (isDigit_of_mem_field hb)
          · rcases List.mem_cons.mp hb with rfl | hb
            · decide
            · exact ih b hb

/-! ## Telling commands apart -/

namespace Terminal

/-- An `x`, with the cursor back on it. -/
def uncoloured : Terminal :=
  { cols := 2, rows := 1, cells := [{ blank with ch := 0x78 }, blank], cursorRow := 0
    cursorCol := 0, esc := .none, dirty := true, csiParams := [], csiCur := none, curFg := none
    curBg := none, bold := false }

/-- An `x` in bold red on red, with the cursor after it. -/
def coloured : Terminal :=
  { cols := 2, rows := 1, cells := [⟨0x78, some 9, some 1⟩, blank], cursorRow := 0
    cursorCol := 1, esc := .none, dirty := true, csiParams := [1, 31, 41], csiCur := none
    curFg := some 1, curBg := some 1, bold := true }

theorem reached_uncoloured : Reached uncoloured :=
  ⟨2, 1, [0x78, 0x0d].map .byte, by decide, by decide, rfl⟩

theorem reached_coloured : Reached coloured :=
  ⟨2, 1, [0x1b, 0x5b, 0x31, 0x3b, 0x33, 0x31, 0x3b, 0x34, 0x31, 0x6d, 0x78].map .byte, by decide,
    by decide, rfl⟩

end Terminal

/-- A value that is the same under two defaults. -/
theorem getD_inj {α : Type} {a b : α} (hab : a ≠ b) {x y : Option α} (ha : x.getD a = y.getD a)
    (hb : x.getD b = y.getD b) : x = y := by
  cases x with
  | none =>
      cases y with
      | none => rfl
      | some v => exact absurd (ha.trans hb.symm) hab
  | some u =>
      cases y with
      | none => exact absurd (ha.symm.trans hb) hab
      | some v => exact congrArg some ha

/-- Two commands that do the same on two pens without a common attribute are the same. -/
theorem Writes.eq_of_apply {w v : Writes} {p q : Pen} (hfg : p.fg ≠ q.fg) (hbg : p.bg ≠ q.bg)
    (hbold : p.bold ≠ q.bold) (hp : w.apply p = v.apply p) (hq : w.apply q = v.apply q) :
    w = v := by
  obtain ⟨wfg, wbg, wbold⟩ := w
  obtain ⟨vfg, vbg, vbold⟩ := v
  simp only [Writes.apply, Pen.mk.injEq] at hp hq
  obtain ⟨hp1, hp2, hp3⟩ := hp
  obtain ⟨hq1, hq2, hq3⟩ := hq
  rw [getD_inj hfg hp1 hq1, getD_inj hbg hp2 hq2, getD_inj hbold hp3 hq3]

namespace Terminal

/-! ## What a final byte sees of the parameters -/

/-- The same computation, and then the same screen. -/
theorem screen_bind_congr {α : Type} (r : Except Fault α) {f g : α → Except Fault Terminal}
    (h : ∀ a, screen <$> f a = screen <$> g a) : screen <$> (r >>= f) = screen <$> (r >>= g) := by
  cases r with
  | error e => rfl
  | ok a => exact h a

section

variable {t : Terminal} {ps qs : List UInt32}
  (hparam : ∀ i d,
    csiParam { t with csiParams := ps } i d = csiParam { t with csiParams := qs } i d)

include hparam

/-- `CSI K` sees the parameters through `csi_param` only. -/
theorem screen_eraseLine_congr :
    screen <$> eraseLine { t with csiParams := ps } =
      screen <$> eraseLine { t with csiParams := qs } := by
  unfold eraseLine
  rw [hparam 0 0]
  split_ifs
  · exact screen_bind_congr _ fun cells => rfl
  · exact screen_bind_congr _ fun lastCol => screen_bind_congr _ fun cells => rfl
  · exact screen_bind_congr _ fun cells => rfl
  · rfl

/-- So does `CSI J`. -/
theorem screen_eraseDisplay_congr :
    screen <$> eraseDisplay { t with csiParams := ps } =
      screen <$> eraseDisplay { t with csiParams := qs } := by
  unfold eraseDisplay
  rw [hparam 0 0]
  split_ifs
  · exact screen_bind_congr _ fun cells => rfl
  · exact screen_bind_congr _ fun lastCell => screen_bind_congr _ fun cells => rfl
  · exact screen_bind_congr _ fun cells => rfl
  · rfl

/-- No final byte but `m` sees more of the parameters than `csi_param` gives. -/
theorem screen_applyCsi_congr {final : UInt8} (hfinal : final ≠ 0x6d) :
    screen <$> applyCsi { t with csiParams := ps } final =
      screen <$> applyCsi { t with csiParams := qs } final := by
  unfold applyCsi
  rw [hparam 0 1, hparam 1 1]
  simp only [apply_ite (fun r : Except Fault Terminal => screen <$> r)]
  refine ite_congr rfl (fun _ => screen_eraseLine_congr hparam) fun _ => ?_
  refine ite_congr rfl (fun _ => screen_eraseDisplay_congr hparam) fun _ => ?_
  -- the motions; only `m` reads the parameters by itself
  refine ite_congr rfl (fun _ => rfl) fun _ => ?_
  refine ite_congr rfl (fun _ => rfl) fun _ => ?_
  refine ite_congr rfl (fun _ => rfl) fun _ => ?_
  refine ite_congr rfl (fun _ => rfl) fun _ => ?_
  exact ite_congr rfl (fun hm => absurd hm hfinal) fun _ => rfl

end

/-- `csi_param` does not see a zero at the end. -/
theorem csiParam_snoc_zero (t : Terminal) (ps : List UInt32) (i : Nat) (d : UInt32) :
    csiParam { t with csiParams := ps ++ [0] } i d = csiParam { t with csiParams := ps } i d := by
  unfold csiParam
  dsimp only
  rcases Nat.lt_trichotomy i ps.length with hi | hi | hi
  · rw [List.getElem?_append_left hi]
  · subst hi
    simp
  · rw [List.getElem?_eq_none (by simp; omega), List.getElem?_eq_none (by omega)]

/-- So a zero at the end makes no difference to any final byte but `m`. -/
theorem meaning_snoc_zero (s : Screen) (ps : List UInt32) {final : UInt8} (hfinal : Final final)
    (hm : final ≠ 0x6d) :
    (Token.csi (ps ++ [0]) final hfinal).meaning s = (Token.csi ps final hfinal).meaning s :=
  screen_applyCsi_congr (csiParam_snoc_zero s.terminal ps) hm

/-- What SGR does is to apply its writes. -/
theorem meaning_sgr (s : Screen) (ps : List UInt32) (h : Final 0x6d) :
    (Token.csi ps 0x6d h).meaning s =
      .ok (screen (s.terminal.withPen ((sgrWrites ps).apply s.terminal.pen))) := by
  show screen <$> applySgr { s.terminal with csiParams := ps } = _
  rw [applySgr_eq]
  rfl

/-- Two SGR commands that agree on `uncoloured` and `coloured`. -/
theorem sgrWrites_eq_of_meaning {ps qs : List UInt32} (h : Final 0x6d)
    (hplain : (Token.csi ps 0x6d h).meaning uncoloured.screen =
      (Token.csi qs 0x6d h).meaning uncoloured.screen)
    (hcoloured : (Token.csi ps 0x6d h).meaning coloured.screen =
      (Token.csi qs 0x6d h).meaning coloured.screen) : sgrWrites ps = sgrWrites qs := by
  have hpen : ∀ {s : Screen}, (Token.csi ps 0x6d h).meaning s = (Token.csi qs 0x6d h).meaning s →
      (sgrWrites ps).apply s.terminal.pen = (sgrWrites qs).apply s.terminal.pen := by
    intro s hs
    rw [meaning_sgr, meaning_sgr] at hs
    exact congrArg (fun s : Screen => Pen.mk s.curFg s.curBg s.bold) (Except.ok.inj hs)
  exact Writes.eq_of_apply (by decide) (by decide) (by decide) (hpen hplain) (hpen hcoloured)

/-! ## Omitted parameters -/

/-- What a final byte does with these parameters. -/
theorem feed_optional {t : Terminal} (h : t.esc = .none) (ps : List (Option UInt32))
    (p : Option UInt32) {final : UInt8} (hfinal : Final final) :
    screen <$> t.feed ([0x1b, 0x5b] ++ encodeOptional (ps ++ [p]) ++ [final]) =
      (Token.csi (ps.map (·.getD 0) ++ p.toList) final hfinal).meaning t.screen := by
  have hseq := feed_sequence h (not_final_of_mem_encodeOptional (ps ++ [p])) hfinal
  rw [collected, foldl_collect_encodeOptional [] ps p, List.nil_append] at hseq
  have hsnd := congrArg (Prod.snd <$> ·) hseq
  simp only [Functor.map_map] at hsnd
  simpa [observe, Function.comp_def] using hsnd

end Terminal

/-- After these parameters one more `0` changes nothing: it is a component that counts as
zero anyway, or the index of a colour that has been set already, or it resets what has
been reset. -/
def Reader.Idle (r : Reader) : Prop :=
  match r.expect with
  | .code | .form _ => r.writes = .reset
  | .index targetFg => (if targetFg then r.writes.fg else r.writes.bg) = some (some 0)
  | .red _ | .green .. | .blue .. => True

/-- A zero at the end changes nothing exactly if the reader is idle. -/
theorem Reader.finish_read_zero (r : Reader) : (r.read 0).finish = r.finish ↔ r.Idle := by
  obtain ⟨expect, w⟩ := r
  cases expect with
  -- a code, or a form that is read as one: the zero is a reset
  | code => exact eq_comm
  | form targetFg => exact eq_comm
  | index targetFg =>
      have hindexed : indexed targetFg 0 = .colour targetFg 0 := by
        cases targetFg <;> decide +kernel
      show w.andThen (indexed targetFg 0) = w ↔ _
      rw [hindexed]
      obtain ⟨fg, bg, bold⟩ := w
      cases targetFg <;>
        simp [Writes.andThen, Writes.colour, Writes.keep, Reader.Idle, eq_comm]
  | red targetFg => exact iff_of_true rfl trivial
  | green targetFg red => exact iff_of_true rfl trivial
  | blue targetFg red green => exact iff_of_true (by simp [read, finish]) trivial

theorem sgr_snoc_zero (ps : List UInt32) :
    sgr (ps ++ [0]) = sgr ps ↔ (Reader.start.readAll ps).Idle := by
  rw [← Reader.finish_read_zero, sgr, Reader.readAll_append]
  rfl

namespace Terminal

/-- Without parameters SGR reads one zero, so a single omitted parameter is a zero. -/
theorem sgrWrites_snoc_zero (ps : List UInt32) :
    sgrWrites ps = sgrWrites (ps ++ [0]) ↔ (ps ≠ [] → (Reader.start.readAll ps).Idle) := by
  by_cases hps : ps = []
  · subst hps
    exact iff_of_true rfl (absurd rfl)
  · rw [sgrWrites, sgrWrites, if_neg hps, if_neg (by simp), eq_comm, sgr_snoc_zero]
    exact ⟨fun h _ => h, fun h => h hps⟩

/-- An omitted parameter means zero exactly if it is not the last one, or the sequence is
not SGR, or it is the only one, or a zero would change nothing there. -/
theorem omitted_iff (ps : List (Option UInt32)) (hne : ps ≠ []) (final : UInt8)
    (hfinal : Final final) :
    (∀ t, Reached t → t.esc = .none →
      screen <$> t.feed ([0x1b, 0x5b] ++ encodeOptional ps ++ [final]) =
        screen <$> t.feed ([0x1b, 0x5b] ++ encodeOptional (ps.map fun p => some (p.getD 0)) ++
          [final])) ↔
      (final = 0x6d → ps.getLast? = some none → ps.dropLast ≠ [] →
        (Reader.start.readAll (ps.dropLast.map (·.getD 0))).Idle) := by
  obtain ⟨ps, p, rfl⟩ := (List.eq_nil_or_concat' ps).resolve_left hne
  rw [List.getLast?_concat, List.dropLast_concat]
  -- both sequences as the parser reads them
  have hfeed : ∀ t : Terminal, t.esc = .none →
      (screen <$> t.feed ([0x1b, 0x5b] ++ encodeOptional (ps ++ [p]) ++ [final]) =
        screen <$> t.feed ([0x1b, 0x5b] ++
          encodeOptional ((ps ++ [p]).map fun p => some (p.getD 0)) ++ [final]) ↔
      (Token.csi (ps.map (·.getD 0) ++ p.toList) final hfinal).meaning t.screen =
        (Token.csi (ps.map (·.getD 0) ++ [p.getD 0]) final hfinal).meaning t.screen) := by
    intro t ht
    rw [List.map_append, List.map_singleton, feed_optional ht, feed_optional ht, List.map_map]
    rfl
  cases p with
  | some n =>
      refine iff_of_true ?_ (by simp)
      intro t _ ht
      exact (hfeed t ht).mpr rfl
  | none =>
      by_cases hm : final = 0x6d
      · subst hm
        have hwrites := sgrWrites_snoc_zero (ps.map (·.getD 0))
        rw [ne_eq, List.map_eq_nil_iff] at hwrites
        constructor
        · intro hsame _ _ hps
          -- two terminals without a common attribute tell all writes apart
          have hplain := (hfeed uncoloured rfl).mp (hsame uncoloured reached_uncoloured rfl)
          have hcoloured := (hfeed coloured rfl).mp (hsame coloured reached_coloured rfl)
          rw [Option.toList_none, List.append_nil] at hplain hcoloured
          exact hwrites.mp (sgrWrites_eq_of_meaning hfinal hplain hcoloured) hps
        · intro hidle t _ ht
          rw [hfeed t ht, meaning_sgr, meaning_sgr, Option.toList_none, List.append_nil,
            hwrites.mpr (hidle rfl rfl)]
          rfl
      · refine iff_of_true ?_ (fun h => absurd h hm)
        intro t _ ht
        rw [hfeed t ht, Option.toList_none, List.append_nil]
        exact (meaning_snoc_zero _ _ hfinal hm).symm

/-- `CSI 1;0;m`: nothing is left to reset. -/
theorem omitted_iff_reset :
    encodeOptional [some 1, some 0, none] = [0x31, 0x3b, 0x30, 0x3b] ∧
    ∀ t, Reached t → t.esc = .none →
      screen <$> t.feed ([0x1b, 0x5b] ++ encodeOptional [some 1, some 0, none] ++ [0x6d]) =
        screen <$> t.feed ([0x1b, 0x5b] ++ encodeOptional [some 1, some 0, some 0] ++ [0x6d]) :=
  ⟨rfl, (omitted_iff [some 1, some 0, none] (by decide) 0x6d (by decide)).mpr fun _ _ _ => rfl⟩

/-- `CSI 1;m` is bold, and `CSI 1;0m` is not. -/
theorem omitted_last_dropped :
    bold <$> runNew 3 1 ([0x1b, 0x5b, 0x31, 0x3b, 0x6d].map .byte) = .ok true ∧
    bold <$> runNew 3 1 ([0x1b, 0x5b, 0x31, 0x3b, 0x30, 0x6d].map .byte) = .ok false := by
  exact ⟨rfl, rfl⟩

end Terminal

/-! ## Marked sequences -/

/-- A control sequence with a private marker or an intermediate byte. -/
structure MarkedSequence extends CsiSequence where
  no_colon : 0x3a ∉ params
  marked : (∃ b ∈ params.head?, 0x3c ≤ b) ∨ intermediates ≠ []

/-- The final bytes and parameters that do nothing without a marker either. -/
def Harmless (ps : List UInt32) (final : UInt8) : Prop :=
  if final = 0x4b then 2 < ps.headD 0 -- K
  else if final = 0x4a then 3 < ps.headD 0 -- J
  else if final = 0x6d then Terminal.sgrWrites ps = .keep -- m
  else final ∉ [0x43, 0x44, 0x47, 0x48, 0x66] -- C, D, G, H, f

namespace Terminal

/-- With default zero `csi_param` is the parameter, or zero. -/
theorem csiParam_zero (t : Terminal) : t.csiParam 0 0 = t.csiParams.headD 0 := by
  unfold csiParam
  cases t.csiParams with
  | nil => rfl
  | cons p ps =>
      show (if p = 0 then 0 else p) = p
      split
      · next hzero => exact hzero.symm
      · rfl

/-- With default one it is never zero. -/
theorem one_le_csiParam (t : Terminal) (i : Nat) : 1 ≤ (t.csiParam i 1).toNat := by
  unfold csiParam
  split
  · split
    · decide
    · next v _ hv =>
        have hne : v.toNat ≠ 0 := fun h => hv (UInt32.toNat.inj h)
        omega
  · decide

/-- What is harmless leaves every screen as it is, whatever its grid. -/
theorem meaning_of_harmless {ps : List UInt32} {final : UInt8} (hfinal : Final final)
    (h : Harmless ps final) (s : Screen) : (Token.csi ps final hfinal).meaning s = .ok s := by
  have hparam : csiParam { s.terminal with csiParams := ps } 0 0 = ps.headD 0 := csiParam_zero _
  unfold Harmless at h
  split_ifs at h with hK hJ hm
  · subst hK
    show screen <$> eraseLine { s.terminal with csiParams := ps } = _
    unfold eraseLine
    rw [hparam, if_neg (by grind), if_neg (by grind), if_neg (by grind)]
    rfl
  · subst hJ
    show screen <$> eraseDisplay { s.terminal with csiParams := ps } = _
    unfold eraseDisplay
    rw [hparam, if_neg (by grind), if_neg (by grind), if_neg (by grind)]
    rfl
  · subst hm
    rw [meaning_sgr, h]
    rfl
  · simp only [List.mem_cons, List.not_mem_nil, or_false, not_or] at h
    obtain ⟨hC, hD, hG, hH, hf⟩ := h
    show screen <$> applyCsi { s.terminal with csiParams := ps } final = _
    unfold applyCsi
    rw [if_neg hK, if_neg hJ, if_neg hC, if_neg hD, if_neg hG, if_neg (not_or.mpr ⟨hH, hf⟩),
      if_neg hm]
    rfl

/-- Every erasure erases the `x` of `uncoloured`. -/
theorem ne_uncoloured_of_erased {t : Terminal} (h : t.cells = [blank, blank]) :
    t.screen ≠ uncoloured.screen := by
  intro heq
  have hcells : [blank, blank] = uncoloured.cells := h.symm.trans (congrArg Screen.cells heq)
  exact absurd hcells (by decide)

/-- `CSI K` erases the `x`, in each of its three modes. -/
theorem eraseLine_uncoloured {ps : List UInt32} (h : ¬ 2 < ps.headD 0) :
    ∃ t, eraseLine { uncoloured.screen.terminal with csiParams := ps } = .ok t ∧
      t.cells = [blank, blank] := by
  have hvalue : ps.headD 0 = 0 ∨ ps.headD 0 = 1 ∨ ps.headD 0 = 2 := by grind
  unfold eraseLine
  rw [csiParam_zero]
  dsimp only
  rcases hvalue with h | h | h
  all_goals
    rw [h]
    exact ⟨_, rfl, rfl⟩

/-- `CSI J` erases the `x`, in each of its four modes. -/
theorem eraseDisplay_uncoloured {ps : List UInt32} (h : ¬ 3 < ps.headD 0) :
    ∃ t, eraseDisplay { uncoloured.screen.terminal with csiParams := ps } = .ok t ∧
      t.cells = [blank, blank] := by
  have hvalue : ps.headD 0 = 0 ∨ ps.headD 0 = 1 ∨ ps.headD 0 = 2 ∨ ps.headD 0 = 3 := by grind
  unfold eraseDisplay
  rw [csiParam_zero]
  dsimp only
  rcases hvalue with h | h | h | h
  all_goals
    rw [h]
    exact ⟨_, rfl, rfl⟩

/-- Every motion moves one of the two cursors: in `uncoloured` it is in column 0, in
`coloured` in column 1. -/
theorem motion_moves {ps : List UInt32} {final : UInt8} (hfinal : Final final)
    (h : final ∈ [0x43, 0x44, 0x47, 0x48, 0x66])
    (hplain : (Token.csi ps final hfinal).meaning uncoloured.screen = .ok uncoloured.screen)
    (hcoloured : (Token.csi ps final hfinal).meaning coloured.screen = .ok coloured.screen) :
    False := by
  -- the two numbers that a motion reads are the same on both screens
  obtain ⟨first, hfirst⟩ :
      ∃ n, (csiParam { uncoloured.screen.terminal with csiParams := ps } 0 1).toNat = n := ⟨_, rfl⟩
  obtain ⟨second, hsecond⟩ :
      ∃ n, (csiParam { uncoloured.screen.terminal with csiParams := ps } 1 1).toNat = n := ⟨_, rfl⟩
  have hpos : 1 ≤ first := by
    rw [← hfirst]
    exact one_le_csiParam _ 0
  have hcol := fun s hs =>
    congrArg Screen.cursorCol (Except.ok.inj (hplain.symm.trans hs) : _ = s)
  have hcol' := fun s hs =>
    congrArg Screen.cursorCol (Except.ok.inj (hcoloured.symm.trans hs) : _ = s)
  simp only [List.mem_cons, List.not_mem_nil, or_false] at h
  rcases h with rfl | rfl | rfl | rfl | rfl
  · -- to the right
    have hright : 0 = min (0 + first) 1 := by
      rw [← hfirst]
      exact hcol _ rfl
    omega
  · -- to the left
    have hleft : 1 = 1 - first := by
      rw [← hfirst]
      exact hcol' _ rfl
    omega
  · -- to a column
    have hplain : 0 = min (first - 1) 1 := by
      rw [← hfirst]
      exact hcol _ rfl
    have hcoloured : 1 = min (first - 1) 1 := by
      rw [← hfirst]
      exact hcol' _ rfl
    omega
  all_goals
    -- to a row and a column
    have hplain : 0 = min (second - 1) 1 := by
      rw [← hsecond]
      exact hcol _ rfl
    have hcoloured : 1 = min (second - 1) 1 := by
      rw [← hsecond]
      exact hcol' _ rfl
    omega

/-- What leaves `uncoloured` and `coloured` as they are is harmless. -/
theorem harmless_of_meaning {ps : List UInt32} {final : UInt8} (hfinal : Final final)
    (hplain : (Token.csi ps final hfinal).meaning uncoloured.screen = .ok uncoloured.screen)
    (hcoloured : (Token.csi ps final hfinal).meaning coloured.screen = .ok coloured.screen) :
    Harmless ps final := by
  unfold Harmless
  split_ifs with hK hJ hm
  · subst hK
    by_contra hle
    obtain ⟨t, ht, hcells⟩ := eraseLine_uncoloured hle
    have hmeaning : (Token.csi ps 0x4b hfinal).meaning uncoloured.screen = .ok t.screen :=
      congrArg (screen <$> ·) ht
    exact ne_uncoloured_of_erased hcells (Except.ok.inj (hmeaning.symm.trans hplain))
  · subst hJ
    by_contra hle
    obtain ⟨t, ht, hcells⟩ := eraseDisplay_uncoloured hle
    have hmeaning : (Token.csi ps 0x4a hfinal).meaning uncoloured.screen = .ok t.screen :=
      congrArg (screen <$> ·) ht
    exact ne_uncoloured_of_erased hcells (Except.ok.inj (hmeaning.symm.trans hplain))
  · subst hm
    -- an unknown code writes nothing, so the command is that code
    have hkeep : sgrWrites [4] = .keep := by decide
    rw [← hkeep]
    apply sgrWrites_eq_of_meaning hfinal
    · rw [hplain, meaning_sgr, hkeep]
      rfl
    · rw [hcoloured, meaning_sgr, hkeep]
      rfl
  · intro hmotion
    exact motion_moves hfinal hmotion hplain hcoloured

/-- A marked sequence is a no-op exactly if the sequence without the markers is. -/
theorem marked_noop_iff (w : MarkedSequence) :
    (∀ t, Reached t → t.esc = .none → observe <$> t.feed w.bytes = .ok (.none, t.screen)) ↔
      Harmless (collected w.body).all w.final := by
  have hfeed : ∀ t : Terminal, t.esc = .none →
      (observe <$> t.feed w.bytes = .ok (.none, t.screen) ↔
        (Token.csi (collected w.body).all w.final w.final_ok).meaning t.screen =
          .ok t.screen) := by
    intro t ht
    rw [CsiSequence.bytes, feed_sequence ht w.not_final_of_mem_body w.final_ok]
    cases (Token.csi (collected w.body).all w.final w.final_ok).meaning t.screen with
    | error f => simp
    | ok s => simp
  constructor
  · intro hnoop
    have hplain := (hfeed uncoloured rfl).mp (hnoop uncoloured reached_uncoloured rfl)
    have hcoloured := (hfeed coloured rfl).mp (hnoop coloured reached_coloured rfl)
    exact harmless_of_meaning w.final_ok hplain hcoloured
  · intro hharmless t _ ht
    exact (hfeed t ht).mpr (meaning_of_harmless w.final_ok hharmless t.screen)

/-- `CSI > 4;1 m`, a keyboard setting, turns on bold; `CSI ? 2 J` and `CSI 2 SP J` erase
the screen. -/
theorem marked_sequences_act :
    bold <$> runNew 3 1 ([0x1b, 0x5b, 0x3e, 0x34, 0x3b, 0x31, 0x6d].map .byte) = .ok true ∧
    shown <$> runNew 3 1 ([0x78, 0x1b, 0x5b, 0x3f, 0x32, 0x4a].map .byte) =
      .ok ([0x20, 0x20, 0x20], 0) ∧
    shown <$> runNew 3 1 ([0x78, 0x1b, 0x5b, 0x32, 0x20, 0x4a].map .byte) =
      .ok ([0x20, 0x20, 0x20], 0) := by
  refine ⟨rfl, rfl, rfl⟩

end Terminal

end K1de
