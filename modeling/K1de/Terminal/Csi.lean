import K1de.Terminal.Reach
import K1de.Terminal.Tokens

/-! # Control sequences of any shape

`Tokens` feeds control sequences whose parameters are well-formed numerals. Here the
body between `ESC [` and the final byte is any bytes that do not end it: the parser
collects numbers from it (`collect`), and the final byte acts on what has been
collected (`feed_sequence`).

`ESC` begins a new sequence only where no sequence is open. After a lone `ESC` it is
swallowed, and inside a control sequence it is skipped; in both cases the sequence
that it was to begin ends up as text on the screen (`restarts_iff`).
-/

namespace K1de

open Fallible Decimal

/-- The bytes that end a control sequence. -/
def Final (b : UInt8) : Prop := 0x40 ≤ b ∧ b ≤ 0x7e

instance : DecidablePred Final := fun _ => inferInstanceAs (Decidable (_ ∧ _))

/-- What the parser has collected of a body: the finished parameters, and the number
that is being read. -/
structure Collected where
  params : List UInt32
  cur : Option UInt32
deriving DecidableEq, Repr

/-- One byte of a body. Digits continue the number, `;` finishes it, and any other byte
is skipped without finishing it. -/
def collect (c : Collected) (b : UInt8) : Collected :=
  if IsDigit b then { c with cur := some (c.cur.getD 0 * 10 + (b - 0x30).toUInt32) }
  else if b = 0x3b then { params := c.params ++ [c.cur.getD 0], cur := none }
  else c

def collected (body : List UInt8) : Collected := body.foldl collect { params := [], cur := none }

/-- The parameters that a final byte acts on. -/
def Collected.all (c : Collected) : List UInt32 := c.params ++ c.cur.toList

theorem collected_snoc (body : List UInt8) (b : UInt8) :
    collected (body ++ [b]) = collect (collected body) b := by
  rw [collected, List.foldl_append]
  rfl

section

variable {c : Collected} {b : UInt8}

theorem collect_digit (hb : IsDigit b) :
    collect c b = { c with cur := some (c.cur.getD 0 * 10 + (b - 0x30).toUInt32) } :=
  if_pos hb

theorem collect_semicolon :
    collect c 0x3b = { params := c.params ++ [c.cur.getD 0], cur := none } := rfl

theorem collect_skip (hb : ¬ IsDigit b) (hb' : b ≠ 0x3b) : collect c b = c := by
  rw [collect, if_neg hb, if_neg hb']

end

/-- A run of digits is one number. -/
theorem foldl_collect_digits (params : List UInt32) {ds : List UInt8} (h : ∀ b ∈ ds, IsDigit b) :
    ds.foldl collect ⟨params, none⟩ =
      ⟨params, if ds = [] then none else some (value32 0 ds)⟩ := by
  induction ds using List.reverseRecOn with
  | nil => rfl
  | append_singleton ds d ih =>
      have hds := ih (fun b hb => h b (List.mem_append_left _ hb))
      rw [List.foldl_append, hds, List.foldl_cons, List.foldl_nil, collect_digit (h d (by simp)),
        if_neg (show ds ++ [d] ≠ [] by simp), value32_snoc]
      split
      · next hnil =>
          subst hnil
          rfl
      · rfl

/-- A digit ends no sequence. -/
theorem not_final_of_isDigit {b : UInt8} (h : IsDigit b) : ¬ Final b := by
  intro hfinal
  have hlow : 0x40 ≤ b := hfinal.1
  have hhigh : b ≤ 0x39 := h.2
  grind

namespace Terminal

/-! ## Feeding a body -/

/-- A byte that is not final is collected, and does nothing else. -/
theorem csiByte_body (t : Terminal) {b : UInt8} (hb : ¬ Final b) :
    t.csiByte b = .ok { t with
      csiParams := (collect ⟨t.csiParams, t.csiCur⟩ b).params
      csiCur := (collect ⟨t.csiParams, t.csiCur⟩ b).cur } := by
  have hfinal : ¬ (0x40 ≤ b ∧ b ≤ 0x7e) := hb
  unfold csiByte collect
  by_cases hdigit : IsDigit b
  · have hrange : 0x30 ≤ b ∧ b ≤ 0x39 := hdigit
    rw [if_pos hrange, if_pos hdigit]
  · have hrange : ¬ (0x30 ≤ b ∧ b ≤ 0x39) := hdigit
    rw [if_neg hrange, if_neg hdigit]
    by_cases hsemicolon : b = 0x3b
    · rw [if_pos hsemicolon, if_pos hsemicolon]
    · rw [if_neg hsemicolon, if_neg hsemicolon, if_neg hfinal]

/-- A body without a final byte is collected from left to right. -/
theorem feed_body {t : Terminal} (h : t.esc = .csi) (hdirty : t.dirty = true) {body : List UInt8}
    (hbody : ∀ b ∈ body, ¬ Final b) :
    t.feed body = .ok { t with
      csiParams := (body.foldl collect ⟨t.csiParams, t.csiCur⟩).params
      csiCur := (body.foldl collect ⟨t.csiParams, t.csiCur⟩).cur } := by
  induction body generalizing t with
  | nil => rfl
  | cons b body ih =>
      have hrest := fun b' hb' => hbody b' (List.mem_cons_of_mem b hb')
      rw [feed_cons, processByte_csi h, csiByte_body _ (hbody b List.mem_cons_self), ok_bind,
        ih (by exact h) rfl hrest, List.foldl_cons]
      cases t
      cases hdirty
      rfl

/-- `ESC [` and a body, from the ground state: whatever an earlier sequence has left is
discarded. -/
theorem feed_open {t : Terminal} (h : t.esc = .none) {body : List UInt8}
    (hbody : ∀ b ∈ body, ¬ Final b) :
    t.feed ([0x1b, 0x5b] ++ body) = .ok { t with
      dirty := true
      esc := .csi
      csiParams := (collected body).params
      csiCur := (collected body).cur } := by
  have hopen : t.feed ([0x1b, 0x5b] ++ body) = Terminal.feed { t with
      dirty := true, esc := .csi, csiParams := [], csiCur := none } body :=
    feed_esc_cons h 0x5b body
  rw [hopen, feed_body rfl rfl hbody]
  rfl

/-- A whole sequence: the final byte acts on what has been collected. -/
theorem feed_sequence {t : Terminal} (h : t.esc = .none) {body : List UInt8}
    (hbody : ∀ b ∈ body, ¬ Final b) {final : UInt8} (hfinal : Final final) :
    observe <$> t.feed ([0x1b, 0x5b] ++ body ++ [final]) =
      (fun s => (.none, s)) <$>
        (Token.csi (collected body).all final hfinal).meaning t.screen := by
  rw [feed_append, feed_open h hbody, ok_bind, feed_singleton, processByte_final rfl hfinal]
  exact observe_applyCsi t (collected body).all final

/-! ## Sequences that are cut short -/

end Terminal

/-- A complete control sequence. -/
structure CsiSequence where
  params : List UInt8
  intermediates : List UInt8
  final : UInt8
  params_ok : ∀ b ∈ params, 0x30 ≤ b ∧ b ≤ 0x3f
  intermediates_ok : ∀ b ∈ intermediates, 0x20 ≤ b ∧ b ≤ 0x2f
  final_ok : Final final

namespace CsiSequence

def body (w : CsiSequence) : List UInt8 := w.params ++ w.intermediates

def bytes (w : CsiSequence) : List UInt8 := [0x1b, 0x5b] ++ w.body ++ [w.final]

/-- The body of a sequence has no final byte in it. -/
theorem not_final_of_mem_body (w : CsiSequence) : ∀ b ∈ w.body, ¬ Final b := by
  intro b hb hfinal
  have hlow : (0x40 : UInt8) ≤ b := hfinal.1
  rcases List.mem_append.mp hb with hb | hb
  · have := (w.params_ok b hb).2
    grind
  · have := (w.intermediates_ok b hb).2
    grind

/-- The byte after `ESC [` would be text in the ground state. -/
theorem exists_bytes (w : CsiSequence) :
    ∃ b rest, w.bytes = 0x1b :: 0x5b :: b :: rest ∧ 0x20 ≤ b ∧ b ≤ 0x7e := by
  cases hbody : w.body with
  | nil =>
      have hfinal : (0x40 : UInt8) ≤ w.final ∧ w.final ≤ 0x7e := w.final_ok
      exact ⟨w.final, [], by simp [bytes, hbody], by grind⟩
  | cons b rest =>
      refine ⟨b, rest ++ [w.final], by simp [bytes, hbody], ?_⟩
      have hb : b ∈ w.body := by
        rw [hbody]
        exact List.mem_cons_self
      rcases List.mem_append.mp hb with hb | hb
      · have := w.params_ok b hb
        grind
      · have := w.intermediates_ok b hb
        grind

/-- `CSI H`, the cursor to the upper left corner. -/
def home : CsiSequence where
  params := []
  intermediates := []
  final := 0x48
  params_ok := by simp
  intermediates_ok := by simp
  final_ok := by decide

end CsiSequence

namespace Terminal

/-- The byte goes to the screen as text. -/
def Prints (t : Terminal) (b : UInt8) : Prop := t.esc = .none ∧ 0x20 ≤ b ∧ b ≤ 0x7e

/-- The terminal with an unfinished sequence discarded. -/
def discarded (t : Terminal) : Terminal := { t with esc := .none, csiParams := [], csiCur := none }

/-- The control sequence is read from its `ESC` on: it does what it does when the
unfinished one is discarded first, and no byte of it is printed. -/
structure Restarts (t : Terminal) (w : CsiSequence) : Prop where
  observe_eq : observe <$> t.feed w.bytes = observe <$> t.discarded.feed w.bytes
  ground : ∀ t', t.feed w.bytes = .ok t' → t'.esc = .none
  silent : ∀ p ∈ visits processByte t w.bytes, ¬ Prints p.1 p.2

/-- No byte of a sequence is printed when no other one is open. -/
theorem not_prints_of_ground {t : Terminal} (h : t.esc = .none) (w : CsiSequence) :
    ∀ p ∈ visits processByte t w.bytes, ¬ Prints p.1 p.2 := by
  rintro ⟨t', b⟩ hp ⟨hesc, hprint⟩
  obtain ⟨pre, post, heq, hrun⟩ := mem_visits_iff.mp hp
  have hrun : t.feed pre = .ok t' := hrun
  match pre with
  | [] =>
      -- the `ESC` itself
      cases heq
      exact absurd hprint.1 (show ¬ (0x20 : UInt8) ≤ 0x1b by decide)
  | [e] =>
      cases heq
      rw [feed_singleton, processByte_esc h] at hrun
      cases hrun
      cases hesc
  | e :: e' :: pre =>
      -- inside the body, or at the final byte
      obtain ⟨rfl, rfl, hrest⟩ : 0x1b = e ∧ 0x5b = e' ∧ w.body ++ [w.final] = pre ++ b :: post := by
        simpa [CsiSequence.bytes] using heq
      -- what has been read is a part of the body, so the sequence is still open
      have hpre : ∀ b' ∈ pre, ¬ Final b' := by
        intro b' hb'
        have hlen := congrArg List.length hrest
        simp only [List.length_append, List.length_cons, List.length_nil] at hlen
        have hinit : pre <+: w.body := List.prefix_of_prefix_length_le
          ⟨b :: post, hrest.symm⟩ ⟨[w.final], rfl⟩ (by omega)
        exact w.not_final_of_mem_body b' (hinit.subset hb')
      rw [show (0x1b :: 0x5b :: pre : List UInt8) = [0x1b, 0x5b] ++ pre from rfl,
        feed_open h hpre] at hrun
      cases hrun
      cases hesc

/-- After a lone `ESC` the bracket of the next sequence is printed. -/
theorem not_restarts_of_esc {t : Terminal} (h : t.esc = .esc) (w : CsiSequence) :
    ¬ Restarts t w := by
  intro hrestarts
  have hswallow : t.feed [0x1b] = .ok { t with dirty := true, esc := .none } := by
    rw [feed_singleton]
    unfold processByte
    dsimp only
    rw [h]
    rfl
  have hvisit : ({ t with dirty := true, esc := .none }, 0x5b) ∈ visits processByte t w.bytes :=
    mem_visits_iff.mpr ⟨[0x1b], w.body ++ [w.final], by simp [CsiSequence.bytes], hswallow⟩
  have hbracket : (0x20 : UInt8) ≤ 0x5b ∧ (0x5b : UInt8) ≤ 0x7e := by decide
  exact hrestarts.silent _ hvisit ⟨rfl, hbracket⟩

/-- Inside a control sequence `ESC` is skipped, the bracket ends the sequence, and the
byte after it is printed. -/
theorem not_restarts_of_csi {t : Terminal} (h : t.esc = .csi) (w : CsiSequence) :
    ¬ Restarts t w := by
  intro hrestarts
  have hends : ∃ t', t.feed [0x1b, 0x5b] = .ok t' ∧ t'.esc = .none := by
    rw [feed_cons, processByte_csi h, csiByte_body _ (by decide), ok_bind, feed_singleton,
      processByte_final (by exact h) (by decide)]
    exact ⟨_, rfl, rfl⟩
  obtain ⟨t', ht', hesc⟩ := hends
  obtain ⟨b, rest, hbytes, hprintable⟩ := w.exists_bytes
  have hvisit : (t', b) ∈ visits processByte t w.bytes :=
    mem_visits_iff.mpr ⟨[0x1b, 0x5b], rest, hbytes, ht'⟩
  exact hrestarts.silent _ hvisit ⟨hesc, hprintable⟩

/-- In the ground state every sequence is read from its `ESC` on. -/
theorem restarts_of_ground {t : Terminal} (h : t.esc = .none) (w : CsiSequence) :
    Restarts t w := by
  have hseq := feed_sequence h w.not_final_of_mem_body w.final_ok
  refine ⟨?_, ?_, not_prints_of_ground h w⟩
  · -- `ESC [` discards what was left of an earlier sequence
    have hseq' := feed_sequence (t := t.discarded) rfl w.not_final_of_mem_body w.final_ok
    exact hseq.trans hseq'.symm
  · intro t' ht'
    rw [show [0x1b, 0x5b] ++ w.body ++ [w.final] = w.bytes from rfl, ht'] at hseq
    -- a sequence that faults returns no terminal
    cases hmeaning : (Token.csi (collected w.body).all w.final w.final_ok).meaning t.screen with
    | error f =>
        rw [hmeaning] at hseq
        cases hseq
    | ok s =>
        rw [hmeaning] at hseq
        exact congrArg Prod.fst (Except.ok.inj hseq)

/-- Among the terminals that are not inside a string, exactly those in the ground state
let the `ESC` of a sequence begin it, whichever sequence it is. -/
theorem restarts_iff (t : Terminal) (h : t.esc = .none ∨ t.esc = .esc ∨ t.esc = .csi)
    (w : CsiSequence) : Restarts t w ↔ t.esc = .none := by
  constructor
  · intro hrestarts
    rcases h with h | h | h
    · exact h
    · exact absurd hrestarts (not_restarts_of_esc h w)
    · exact absurd hrestarts (not_restarts_of_csi h w)
  · intro hground
    exact restarts_of_ground hground w

/-- Three columns and one row, with nothing printed yet. -/
def threeByOne : Terminal :=
  { cols := 3, rows := 1, cells := [blank, blank, blank], cursorRow := 0, cursorCol := 0
    esc := .none, dirty := true, csiParams := [], csiCur := none, curFg := none, curBg := none
    bold := false }

theorem inv_threeByOne : Inv threeByOne :=
  Reached.inv ⟨3, 1, [], by decide, by decide, rfl⟩ (by decide)

theorem restarts_iff_threeByOne :
    Restarts threeByOne .home ∧ ¬ Restarts { threeByOne with esc := .csi } .home :=
  ⟨(restarts_iff threeByOne (Or.inl rfl) .home).mpr rfl,
    fun h => nomatch (restarts_iff _ (Or.inr (Or.inr rfl)) .home).mp h⟩

/-- The characters of the grid and the cursor's column. -/
def shown (t : Terminal) : List UInt8 × Nat := (t.cells.map Cell.ch, t.cursorCol)

/-- `CSI H` after a lone `ESC`, and after the unfinished `CSI 3`: on the screen stand
`[H` and `H`. Without them it prints nothing. -/
theorem cut_short_sequence_prints :
    (shown <$> runNew 3 1 ([0x1b, 0x1b, 0x5b, 0x48].map .byte) = .ok ([0x5b, 0x48, 0x20], 2)) ∧
    (shown <$> runNew 3 1 ([0x1b, 0x5b, 0x33, 0x1b, 0x5b, 0x48].map .byte) =
      .ok ([0x48, 0x20, 0x20], 1)) ∧
    (shown <$> runNew 3 1 ([0x1b, 0x5b, 0x48].map .byte) = .ok ([0x20, 0x20, 0x20], 0)) := by
  refine ⟨rfl, rfl, rfl⟩

end Terminal

end K1de
