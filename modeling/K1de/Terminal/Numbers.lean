import K1de.Terminal.Csi

/-! # Numbers in control sequences

The parser reads a number digit by digit into `csi_cur`. Two things go wrong with it.

A byte that the parser skips does not finish the number: the digits after it are
appended to those before it. `numbersApart_iff` says that the numbers of a body are
kept apart exactly when all that stands between two digits of one number is digits.

And the accumulator is a `u32` that wraps: `clamps_iff` says that a number moves the
cursor as far as it says, up to the edge of the screen, exactly when it is below
`2 ^ 32`.
-/

namespace K1de

open Fallible Decimal

/-! ## Splicing -/

/-- Two digits without a `;` between them have only digits between them. -/
def DigitsAdjacent (body : List UInt8) : Prop :=
  ∀ pre d mid e post, body = pre ++ d :: mid ++ e :: post → IsDigit d → IsDigit e → 0x3b ∉ mid →
    ∀ b ∈ mid, IsDigit b

namespace Terminal

/-- The numbers that a final byte would act on are zero or single runs of digits of the
body, and no run of digits is read on top of an earlier one. -/
def NumbersApart (t : Terminal) (body : List UInt8) : Prop :=
  (∃ t', t.feed ([0x1b, 0x5b] ++ body) = .ok t' ∧ t'.esc = .csi ∧
    ∀ v ∈ t'.csiParams ++ t'.csiCur.toList,
      v = 0 ∨ ∃ ds, IsRun body ds ∧ v.toNat = value 0 ds) ∧
  ∀ pre d post, body = pre ++ d :: post → IsDigit d → LeftEnd pre →
    ∃ t', t.feed ([0x1b, 0x5b] ++ pre) = .ok t' ∧ t'.csiCur = none

end Terminal

/-- A number that has been read from `bs`: a run of digits that `rest` follows. -/
structure ReadFrom (bs rest : List UInt8) (v : UInt32) (pre ds : List UInt8) : Prop where
  split : bs = pre ++ ds ++ rest
  ne_nil : ds ≠ []
  digits : ∀ b ∈ ds, IsDigit b
  leftEnd : LeftEnd pre
  value_eq : v = value32 0 ds

/-- What is collected from `bs` while numbers are kept apart. -/
structure Apart (bs : List UInt8) (c : Collected) : Prop where
  /-- a finished parameter is zero, or a run of digits that a non-digit follows -/
  params : ∀ v ∈ c.params, v = 0 ∨ ∃ pre ds b rest, ¬ IsDigit b ∧ ReadFrom bs (b :: rest) v pre ds
  /-- without an open number the next digit begins a run -/
  closed : c.cur = none → LeftEnd bs
  /-- an open number is a run of digits, and after it only skipped bytes -/
  opened : ∀ v, c.cur = some v → ∃ pre ds rest, ReadFrom bs rest v pre ds ∧
    ∀ b ∈ rest, ¬ IsDigit b ∧ b ≠ 0x3b

/-- A number that has been read is not touched by what follows. -/
theorem ReadFrom.snoc {bs rest pre ds : List UInt8} {v : UInt32} (h : ReadFrom bs rest v pre ds)
    (b : UInt8) : ReadFrom (bs ++ [b]) (rest ++ [b]) v pre ds where
  split := by rw [h.split, List.append_assoc (pre ++ ds)]
  ne_nil := h.ne_nil
  digits := h.digits
  leftEnd := h.leftEnd
  value_eq := h.value_eq

/-- Where digits are adjacent, an open number has nothing after it when a digit comes. -/
theorem ReadFrom.rest_eq_nil {bs rest pre ds : List UInt8} {v : UInt32}
    (h : ReadFrom bs rest v pre ds) (hrest : ∀ b ∈ rest, ¬ IsDigit b ∧ b ≠ 0x3b) {body : List UInt8}
    (hadj : DigitsAdjacent body) {d : UInt8} {post : List UInt8} (hbody : body = bs ++ d :: post)
    (hd : IsDigit d) : rest = [] := by
  -- the last digit of the run, and the new one
  obtain ⟨ds', last, rfl⟩ := List.eq_nil_or_concat ds |>.resolve_left h.ne_nil
  have hlast : IsDigit last := h.digits last (by simp)
  have hsemicolon : 0x3b ∉ rest := by
    intro hmem
    exact (hrest _ hmem).2 rfl
  have hsplit : body = (pre ++ ds') ++ last :: rest ++ d :: post := by
    rw [hbody, h.split]
    simp
  cases rest with
  | nil => rfl
  | cons b rest =>
      have hdigit := hadj _ _ _ _ _ hsplit hlast hd hsemicolon b List.mem_cons_self
      exact absurd hdigit (hrest b List.mem_cons_self).1

/-- At the start nothing has been read. -/
theorem apart_nil : Apart [] { params := [], cur := none } where
  params := by
    intro v hv
    cases hv
  closed := by
    intro _ b hb
    cases hb
  opened := by
    intro v hv
    cases hv

theorem Apart.params_snoc {bs : List UInt8} {c : Collected} (h : Apart bs c) (b : UInt8) :
    ∀ v ∈ c.params, v = 0 ∨
      ∃ pre ds b' rest, ¬ IsDigit b' ∧ ReadFrom (bs ++ [b]) (b' :: rest) v pre ds := by
  intro v hv
  rcases h.params v hv with hzero | ⟨pre, ds, b', rest, hb', hread⟩
  · exact Or.inl hzero
  · exact Or.inr ⟨pre, ds, b', rest ++ [b], hb', hread.snoc b⟩

/-- A run that goes on. -/
theorem ReadFrom.digit {bs pre ds : List UInt8} {v : UInt32} (h : ReadFrom bs [] v pre ds)
    {b : UInt8} (hb : IsDigit b) :
    ReadFrom (bs ++ [b]) [] (v * 10 + (b - 0x30).toUInt32) pre (ds ++ [b]) where
  split := by
    rw [h.split]
    simp
  ne_nil := by simp
  digits := List.forall_mem_append.mpr ⟨h.digits, List.forall_mem_singleton.mpr hb⟩
  leftEnd := h.leftEnd
  value_eq := by rw [value32_snoc, ← h.value_eq]

/-- A digit begins a run, or goes on with one. -/
theorem Apart.digit {bs : List UInt8} {c : Collected} (h : Apart bs c) {body : List UInt8}
    (hadj : DigitsAdjacent body) {b : UInt8} {post : List UInt8} (hbody : body = bs ++ b :: post)
    (hb : IsDigit b) : Apart (bs ++ [b]) (collect c b) := by
  rw [collect_digit hb]
  refine ⟨h.params_snoc b, nofun, ?_⟩
  intro v hv
  cases hv
  cases hcur : c.cur with
  | none =>
      -- a new run
      exact ⟨bs, [b], [], ⟨by simp, by simp, List.forall_mem_singleton.mpr hb, h.closed hcur, rfl⟩,
        by simp⟩
  | some v =>
      -- the run goes on: nothing can have been skipped after it
      obtain ⟨pre, ds, rest, hread, hrest⟩ := h.opened v hcur
      obtain rfl := hread.rest_eq_nil hrest hadj hbody hb
      exact ⟨pre, ds ++ [b], [], hread.digit hb, by simp⟩

/-- A semicolon finishes a number, or pushes a zero. -/
theorem Apart.semicolon {bs : List UInt8} {c : Collected} (h : Apart bs c) :
    Apart (bs ++ [0x3b]) (collect c 0x3b) := by
  have hdigit : ¬ IsDigit 0x3b := by decide
  rw [collect_semicolon]
  refine ⟨List.forall_mem_append.mpr ⟨h.params_snoc 0x3b, List.forall_mem_singleton.mpr ?_⟩,
    fun _ => leftEnd_snoc hdigit, nofun⟩
  -- the number that is finished here
  cases hcur : c.cur with
  | none => exact Or.inl rfl
  | some n =>
      obtain ⟨pre, ds, rest, hread, hrest⟩ := h.opened n hcur
      right
      have hread' := hread.snoc 0x3b
      cases rest with
      | nil => exact ⟨pre, ds, 0x3b, [], hdigit, hread'⟩
      | cons b' rest =>
          rw [List.cons_append] at hread'
          exact ⟨pre, ds, b', rest ++ [0x3b], (hrest b' List.mem_cons_self).1, hread'⟩

/-- A skipped byte leaves a number open. -/
theorem Apart.skip {bs : List UInt8} {c : Collected} (h : Apart bs c) {b : UInt8}
    (hb : ¬ IsDigit b) (hsemicolon : b ≠ 0x3b) : Apart (bs ++ [b]) (collect c b) := by
  rw [collect_skip hb hsemicolon]
  refine ⟨h.params_snoc b, fun _ => leftEnd_snoc hb, ?_⟩
  intro v hv
  obtain ⟨pre, ds, rest, hread, hrest⟩ := h.opened v hv
  exact ⟨pre, ds, rest ++ [b], hread.snoc b,
    List.forall_mem_append.mpr ⟨hrest, List.forall_mem_singleton.mpr ⟨hb, hsemicolon⟩⟩⟩

/-- One byte more. -/
theorem Apart.step {bs : List UInt8} {c : Collected} (h : Apart bs c) {body : List UInt8}
    (hadj : DigitsAdjacent body) {b : UInt8} {post : List UInt8} (hbody : body = bs ++ b :: post) :
    Apart (bs ++ [b]) (collect c b) := by
  by_cases hdigit : IsDigit b
  · exact h.digit hadj hbody hdigit
  by_cases hsemicolon : b = 0x3b
  · rw [hsemicolon]
    exact h.semicolon
  · exact h.skip hdigit hsemicolon

/-- Every prefix of a body with adjacent digits. -/
theorem apart_collected {body : List UInt8} (hadj : DigitsAdjacent body) (pre post : List UInt8)
    (hbody : body = pre ++ post) : Apart pre (collected pre) := by
  induction pre using List.reverseRecOn generalizing post with
  | nil => exact apart_nil
  | append_singleton pre b ih =>
      have hbody' : body = pre ++ b :: post := by
        rw [hbody, List.append_assoc]
        rfl
      rw [collected_snoc]
      exact (ih (b :: post) hbody').step hadj hbody'

/-- A number once read is zero or the value of one run. -/
theorem ReadFrom.isRun {body rest pre ds : List UInt8} {v : UInt32}
    (h : ReadFrom body rest v pre ds) (hrest : RightEnd rest)
    (hruns : ∀ ds, IsRun body ds → value 0 ds < 2 ^ 32) :
    ∃ ds, IsRun body ds ∧ v.toNat = value 0 ds := by
  have hrun : IsRun body ds := ⟨h.ne_nil, h.digits, pre, rest, h.split, h.leftEnd, hrest⟩
  refine ⟨ds, hrun, ?_⟩
  rw [h.value_eq, toNat_value32 h.digits (hruns ds hrun)]

/-- So every parameter that is acted on is zero or the value of a run. -/
theorem Apart.isRun {body : List UInt8} {c : Collected} (h : Apart body c)
    (hruns : ∀ ds, IsRun body ds → value 0 ds < 2 ^ 32) :
    ∀ v ∈ c.all, v = 0 ∨ ∃ ds, IsRun body ds ∧ v.toNat = value 0 ds := by
  intro v hv
  rcases List.mem_append.mp hv with hv | hv
  · rcases h.params v hv with hzero | ⟨pre, ds, b, rest, hb, hread⟩
    · exact Or.inl hzero
    · right
      apply hread.isRun _ hruns
      intro b' hb'
      cases hb'
      exact hb
  · obtain ⟨pre, ds, rest, hread, hrest⟩ := h.opened v (Option.mem_toList.mp hv)
    right
    apply hread.isRun _ hruns
    intro b hb
    exact (hrest b (List.mem_of_mem_head? hb)).1

/-- Where digits are adjacent, a digit that begins a run finds no number open. -/
theorem Apart.cur_eq_none {bs : List UInt8} {c : Collected} (h : Apart bs c) {body : List UInt8}
    (hadj : DigitsAdjacent body) {d : UInt8} {post : List UInt8} (hbody : body = bs ++ d :: post)
    (hd : IsDigit d) (hleft : LeftEnd bs) : c.cur = none := by
  rw [← Option.not_isSome_iff_eq_none, Option.isSome_iff_exists]
  rintro ⟨v, hcur⟩
  -- an open number would have the new digit right after its last one
  obtain ⟨pre, ds, rest, hread, hrest⟩ := h.opened v hcur
  obtain rfl := hread.rest_eq_nil hrest hadj hbody hd
  obtain ⟨ds', last, rfl⟩ := List.eq_nil_or_concat ds |>.resolve_left hread.ne_nil
  have hlast : IsDigit last := hread.digits last (by simp)
  have hsplit : bs = pre ++ ds' ++ [last] := by
    rw [hread.split]
    simp
  rw [hsplit] at hleft
  exact not_leftEnd_snoc hlast hleft

/-- A number that is open stays open until a `;`. -/
theorem isSome_cur_foldl {c : Collected} (hc : c.cur.isSome) {bs : List UInt8}
    (hbs : 0x3b ∉ bs) : (bs.foldl collect c).cur.isSome := by
  induction bs generalizing c with
  | nil => exact hc
  | cons b bs ih =>
      obtain ⟨hb, hbs⟩ := not_or.mp (fun h => hbs (List.mem_cons.mpr h))
      apply ih _ hbs
      by_cases hdigit : IsDigit b
      · rw [collect_digit hdigit]
        rfl
      · rw [collect_skip hdigit (Ne.symm hb)]
        exact hc

/-- After a digit and no `;` a number is open. -/
theorem isSome_cur_of_digit (pre : List UInt8) {d : UInt8} (hd : IsDigit d) (bs : List UInt8)
    (hbs : 0x3b ∉ bs) : (collected (pre ++ d :: bs)).cur.isSome := by
  rw [collected, List.foldl_append, List.foldl_cons]
  apply isSome_cur_foldl _ hbs
  rw [collect_digit hd]
  rfl

/-- If every run of digits finds no number open, digits are adjacent. -/
theorem digitsAdjacent_of_cur_eq_none {body : List UInt8}
    (h : ∀ pre d post, body = pre ++ d :: post → IsDigit d → LeftEnd pre →
      (collected pre).cur = none) : DigitsAdjacent body := by
  intro pre d mid e post heq hd he hmid
  by_contra hnot
  -- the last skipped byte in between, and the digit right after it
  obtain ⟨front, x, back, rfl, hx, hback⟩ := exists_last_nondigit hnot
  obtain ⟨e', rest, hrest, he'⟩ : ∃ e' rest, back ++ e :: post = e' :: rest ∧ IsDigit e' := by
    cases back with
    | nil => exact ⟨e, post, rfl, he⟩
    | cons e' back => exact ⟨e', back ++ e :: post, rfl, hback e' List.mem_cons_self⟩
  have hsplit : body = (pre ++ d :: (front ++ [x])) ++ e' :: rest := by
    rw [heq, ← hrest]
    simp
  have hleft : LeftEnd (pre ++ d :: (front ++ [x])) := by
    rw [← List.cons_append, ← List.append_assoc]
    exact leftEnd_snoc hx
  have hopen := isSome_cur_of_digit pre hd (front ++ [x]) (by grind)
  rw [h _ _ _ hsplit he' hleft] at hopen
  cases hopen

namespace Terminal

/-- The numbers of a body are kept apart exactly if all bytes between two digits of one
parameter are digits: any other byte there is skipped, and the digits around it are
read as one number. -/
theorem numbersApart_iff (t : Terminal) (h : t.esc = .none) (body : List UInt8)
    (hbody : ∀ b ∈ body, ¬ Final b ∧ b ≠ 0x1b)
    (hruns : ∀ ds, IsRun body ds → value 0 ds < 2 ^ 32) :
    NumbersApart t body ↔ DigitsAdjacent body := by
  have hfeed : ∀ pre post, body = pre ++ post → ∃ t', t.feed ([0x1b, 0x5b] ++ pre) = .ok t' ∧
      t'.esc = .csi ∧ t'.csiParams = (collected pre).params ∧
      t'.csiCur = (collected pre).cur := by
    intro pre post heq
    refine ⟨_, feed_open h ?_, rfl, rfl, rfl⟩
    intro b hb
    exact (hbody b (by rw [heq]; exact List.mem_append_left post hb)).1
  constructor
  · rintro ⟨-, hfresh⟩
    apply digitsAdjacent_of_cur_eq_none
    intro pre d post heq hd hleft
    obtain ⟨t', ht', hcur⟩ := hfresh pre d post heq hd hleft
    obtain ⟨t'', ht'', -, -, hcur'⟩ := hfeed pre _ heq
    cases ht'.symm.trans ht''
    rw [← hcur', hcur]
  · intro hadj
    constructor
    · obtain ⟨t', ht', hesc, hparams, hcur⟩ := hfeed body [] (List.append_nil body).symm
      refine ⟨t', ht', hesc, ?_⟩
      rw [hparams, hcur]
      exact (apart_collected hadj body [] (List.append_nil body).symm).isRun hruns
    · intro pre d post heq hd hleft
      obtain ⟨t', ht', -, -, hcur⟩ := hfeed pre _ heq
      refine ⟨t', ht', ?_⟩
      rw [hcur]
      exact (apart_collected hadj pre _ heq).cur_eq_none hadj heq hd hleft

/-- The sub-parameters `4:3` are not kept apart. -/
theorem numbersApart_iff_colon :
    ¬ DigitsAdjacent [0x34, 0x3a, 0x33] ∧ ¬ NumbersApart threeByOne [0x34, 0x3a, 0x33] := by
  have hnot : ¬ DigitsAdjacent [0x34, 0x3a, 0x33] := by
    intro hadj
    have hcolon :=
      hadj [] 0x34 [0x3a] 0x33 [] rfl (by decide) (by decide) (by decide) 0x3a (by simp)
    exact absurd hcolon (by decide)
  refine ⟨hnot, ?_⟩
  rw [numbersApart_iff threeByOne rfl [0x34, 0x3a, 0x33] (by decide +kernel)
    (fun ds hds => hds.value_lt (by decide))]
  exact hnot

/-- The numbers that a final byte would act on. -/
def numbers (t : Terminal) : List UInt32 := t.csiParams ++ t.csiCur.toList

/-- `CSI 4:3 m` is read as `CSI 43 m`, a yellow background, and `CSI 38:5:196 m` as the
one number 385196. -/
theorem subparameters_spliced :
    numbers <$> runNew 3 1 ([0x1b, 0x5b, 0x34, 0x3a, 0x33].map .byte) = .ok [43] ∧
    numbers <$> runNew 3 1
      ([0x1b, 0x5b, 0x33, 0x38, 0x3a, 0x35, 0x3a, 0x31, 0x39, 0x36].map .byte) = .ok [385196] ∧
    curBg <$> runNew 3 1 ([0x1b, 0x5b, 0x34, 0x3a, 0x33, 0x6d].map .byte) = .ok (some 3) := by
  refine ⟨rfl, rfl, rfl⟩

/-! ## Large numbers -/

/-- What the digits `ds` of a cursor motion should do: no digit overflows the
accumulator, and a motion beyond the edge of the screen stops at the edge. -/
structure Clamps (t : Terminal) (ds : List UInt8) : Prop where
  fits : ∀ pre d post, ds = pre ++ d :: post → ∃ t', t.feed ([0x1b, 0x5b] ++ pre) = .ok t' ∧
    (t'.csiCur.getD 0).toNat * 10 + (d - 0x30).toNat < 2 ^ 32
  right : t.cols ≤ value 0 ds →
    ∃ t', t.feed ([0x1b, 0x5b] ++ ds ++ [0x43]) = .ok t' ∧ t'.cursorCol = t.cols - 1
  column : t.cols ≤ value 0 ds →
    ∃ t', t.feed ([0x1b, 0x5b] ++ ds ++ [0x47]) = .ok t' ∧ t'.cursorCol = t.cols - 1
  left : t.cursorCol ≤ value 0 ds →
    ∃ t', t.feed ([0x1b, 0x5b] ++ ds ++ [0x44]) = .ok t' ∧ t'.cursorCol = 0
  row : t.rows ≤ value 0 ds →
    ∃ t', t.feed ([0x1b, 0x5b] ++ ds ++ [0x48]) = .ok t' ∧ t'.cursorRow = t.rows - 1

end Terminal

theorem digits_of_split {ds pre post : List UInt8} {d : UInt8} (h : ∀ b ∈ ds, IsDigit b)
    (hds : ds = pre ++ d :: post) : (∀ b ∈ pre, IsDigit b) ∧ IsDigit d := by
  rw [hds, List.forall_mem_append] at h
  exact ⟨h.1, h.2 d List.mem_cons_self⟩

/-- Digits alone are one parameter. -/
theorem collected_digits_all {ds : List UInt8} (h : ∀ b ∈ ds, IsDigit b) (hne : ds ≠ []) :
    (collected ds).all = [value32 0 ds] := by
  rw [collected, foldl_collect_digits [] h, if_neg hne]
  rfl

theorem collected_digits_getD {ds : List UInt8} (h : ∀ b ∈ ds, IsDigit b) :
    (collected ds).cur.getD 0 = value32 0 ds := by
  rw [collected, foldl_collect_digits [] h]
  dsimp only
  split
  · next hnil =>
      subst hnil
      rfl
  · rfl

namespace Terminal

/-- A terminal with this observation. -/
theorem of_observe {r : Except Fault Terminal} {e : EscState} {s : Screen}
    (h : observe <$> r = .ok (e, s)) : ∃ t, r = .ok t ∧ t.esc = e ∧ t.screen = s := by
  cases r with
  | error f => cases h
  | ok t =>
      have hpair : observe t = (e, s) := Except.ok.inj h
      exact ⟨t, rfl, congrArg Prod.fst hpair, congrArg Prod.snd hpair⟩

/-- A motion reads zero as one. -/
theorem csiParam_singleton (t : Terminal) (v : UInt32) :
    (csiParam { t with csiParams := [v] } 0 1).toNat = max v.toNat 1 := by
  show (if v = 0 then 1 else v).toNat = max v.toNat 1
  split
  · next hzero =>
      subst hzero
      rfl
  · next hzero =>
      have hpos : v.toNat ≠ 0 := fun h => hzero (UInt32.toNat.inj h)
      omega

/-- A motion with one numeral: the screen is the one that the final byte gives for the
number modulo `2 ^ 32`. -/
theorem feed_motion {t : Terminal} (h : t.esc = .none) {ds : List UInt8}
    (hds : ∀ b ∈ ds, IsDigit b) (hne : ds ≠ []) (final : UInt8) (hfinal : Final final) {s : Screen}
    (hmeaning : (Token.csi [value32 0 ds] final hfinal).meaning t.screen = .ok s) :
    ∃ t', t.feed ([0x1b, 0x5b] ++ ds ++ [final]) = .ok t' ∧ t'.screen = s := by
  have hseq := feed_sequence h (fun b hb => not_final_of_isDigit (hds b hb)) hfinal
  rw [collected_digits_all hds hne, hmeaning] at hseq
  obtain ⟨t', ht', -, hs⟩ := of_observe hseq
  exact ⟨t', ht', hs⟩

/-- The accumulator before the last digit decides: a number of `2 ^ 32` or more
overflows at some digit. -/
theorem value_lt_of_fits {t : Terminal} (h : t.esc = .none) {ds : List UInt8}
    (hds : ∀ b ∈ ds, IsDigit b)
    (hfits : ∀ pre d post, ds = pre ++ d :: post → ∃ t', t.feed ([0x1b, 0x5b] ++ pre) = .ok t' ∧
      (t'.csiCur.getD 0).toNat * 10 + (d - 0x30).toNat < 2 ^ 32) :
    value 0 ds < 2 ^ 32 := by
  suffices hinit : ∀ pre post, ds = pre ++ post → value 0 pre < 2 ^ 32 from
    hinit ds [] (List.append_nil ds).symm
  intro pre
  induction pre using List.reverseRecOn with
  | nil => exact fun _ _ => by decide
  | append_singleton pre d ih =>
      intro post heq
      rw [List.append_assoc, List.singleton_append] at heq
      obtain ⟨hpre, hd⟩ := digits_of_split hds heq
      obtain ⟨t', ht', hlt⟩ := hfits pre d post heq
      rw [feed_open h (fun b hb => not_final_of_isDigit (hpre b hb))] at ht'
      cases ht'
      -- so far nothing has overflowed, so the accumulator is exact
      rw [collected_digits_getD hpre, toNat_value32 hpre (ih _ heq),
        UInt8.toNat_sub_of_le _ _ hd.1] at hlt
      rw [value_snoc]
      exact hlt

/-- And a number below that overflows at none. -/
theorem fits_of_value_lt {t : Terminal} (h : t.esc = .none) {ds : List UInt8}
    (hds : ∀ b ∈ ds, IsDigit b) (hlt : value 0 ds < 2 ^ 32) :
    ∀ pre d post, ds = pre ++ d :: post → ∃ t', t.feed ([0x1b, 0x5b] ++ pre) = .ok t' ∧
      (t'.csiCur.getD 0).toNat * 10 + (d - 0x30).toNat < 2 ^ 32 := by
  intro pre d post heq
  obtain ⟨hpre, hd⟩ := digits_of_split hds heq
  refine ⟨_, feed_open h (fun b hb => not_final_of_isDigit (hpre b hb)), ?_⟩
  -- the digits up to here make up a number that is no larger than the whole
  have hle : value 0 pre * 10 + (d.toNat - 0x30) ≤ value 0 ds := by
    rw [heq, value_append, value_cons]
    exact le_value _ post
  rw [collected_digits_getD hpre, toNat_value32 hpre (by omega), UInt8.toNat_sub_of_le _ _ hd.1]
  exact Nat.lt_of_le_of_lt hle hlt

theorem clamps_of_lt {t : Terminal} (h : t.esc = .none) (hcols : 1 ≤ t.cols) (hrows : 1 ≤ t.rows)
    {ds : List UInt8} (hds : ∀ b ∈ ds, IsDigit b) (hne : ds ≠ []) (hlt : value 0 ds < 2 ^ 32) :
    Clamps t ds := by
  -- the parameter as the motions read it
  have hparam : (csiParam { t.screen.terminal with csiParams := [value32 0 ds] } 0 1).toNat =
      max (value 0 ds) 1 := by
    rw [csiParam_singleton, toNat_value32 hds hlt]
  refine ⟨?_, ?_, ?_, ?_, ?_⟩
  · exact fits_of_value_lt h hds hlt
  · intro hN
    obtain ⟨t', ht', hs⟩ := feed_motion h hds hne 0x43 (by decide) rfl
    refine ⟨t', ht', (congrArg Screen.cursorCol hs).trans ?_⟩
    show min (t.cursorCol + (csiParam _ 0 1).toNat) (t.cols - 1) = t.cols - 1
    rw [hparam]
    omega
  · intro hN
    obtain ⟨t', ht', hs⟩ := feed_motion h hds hne 0x47 (by decide) rfl
    refine ⟨t', ht', (congrArg Screen.cursorCol hs).trans ?_⟩
    show min ((csiParam _ 0 1).toNat - 1) (t.cols - 1) = t.cols - 1
    rw [hparam]
    omega
  · intro hN
    obtain ⟨t', ht', hs⟩ := feed_motion h hds hne 0x44 (by decide) rfl
    refine ⟨t', ht', (congrArg Screen.cursorCol hs).trans ?_⟩
    show t.cursorCol - (csiParam _ 0 1).toNat = 0
    rw [hparam]
    omega
  · intro hN
    obtain ⟨t', ht', hs⟩ := feed_motion h hds hne 0x48 (by decide) rfl
    refine ⟨t', ht', (congrArg Screen.cursorRow hs).trans ?_⟩
    show min ((csiParam _ 0 1).toNat - 1) (t.rows - 1) = t.rows - 1
    rw [hparam]
    omega

/-- A number moves the cursor as far as it says, up to the edge, exactly if it is below
`2 ^ 32`. -/
theorem clamps_iff (t : Terminal) (hreached : Reached t) (h : t.esc = .none) (ds : List UInt8)
    (hds : ∀ b ∈ ds, IsDigit b) (hne : ds ≠ []) : Clamps t ds ↔ value 0 ds < 2 ^ 32 := by
  constructor
  · intro hclamps
    exact value_lt_of_fits h hds hclamps.fits
  · exact clamps_of_lt h hreached.sound.cols_pos hreached.sound.rows_pos hds hne

theorem reached_threeByOne : Reached threeByOne := ⟨3, 1, [], by decide, by decide, rfl⟩

/-- `4294967295`, the largest number that is safe. -/
theorem clamps_iff_threeByOne :
    Clamps threeByOne [0x34, 0x32, 0x39, 0x34, 0x39, 0x36, 0x37, 0x32, 0x39, 0x35] :=
  (clamps_iff threeByOne reached_threeByOne rfl
    [0x34, 0x32, 0x39, 0x34, 0x39, 0x36, 0x37, 0x32, 0x39, 0x35] (by decide +kernel)
    (by decide)).mpr (by decide)

/-- With `4294967296`, which is `0` to the accumulator, `CSI C` moves one column from
the left margin instead of to the right one, and `CSI G` moves to the left margin. With
`4294967297` `CSI D` moves from the third column to the second. -/
theorem large_number_wraps :
    (shown <$> runNew 3 1 ([0x1b, 0x5b, 0x34, 0x32, 0x39, 0x34, 0x39, 0x36, 0x37, 0x32, 0x39, 0x36,
      0x43].map .byte) = .ok ([0x20, 0x20, 0x20], 1)) ∧
    (shown <$> runNew 3 1 ([0x1b, 0x5b, 0x34, 0x32, 0x39, 0x34, 0x39, 0x36, 0x37, 0x32, 0x39, 0x36,
      0x47].map .byte) = .ok ([0x20, 0x20, 0x20], 0)) ∧
    (shown <$> runNew 3 1 ([0x61, 0x62, 0x1b, 0x5b, 0x34, 0x32, 0x39, 0x34, 0x39, 0x36, 0x37, 0x32,
      0x39, 0x37, 0x44].map .byte) = .ok ([0x61, 0x62, 0x20], 1)) := by
  refine ⟨rfl, rfl, rfl⟩

end Terminal

end K1de
