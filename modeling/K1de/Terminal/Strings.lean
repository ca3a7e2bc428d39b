import K1de.Lib.Delimiter
import K1de.Terminal.Csi

/-! # Swallowed strings

`ESC ]` (OSC) and `ESC P` (DCS) open a string that is swallowed up to its terminator.
The parser finds it with a matcher of two states (`Delims.step`), and misses it after an
`ESC` that another `ESC` precedes (`endsRight_iff`).

All other sequences are meant to be swallowed too. The parser knows one family of them,
the character sets; of the rest it swallows two bytes, and what follows goes to the
screen (`swallowed_iff`).
-/

namespace K1de

open Fallible

/-! ## Control strings -/

inductive ControlString where
  | osc
  | dcs
deriving DecidableEq, Repr

namespace ControlString

/-- The byte after `ESC` that opens the string. -/
def introducer : ControlString → UInt8
  | .osc => 0x5d
  | .dcs => 0x50

/-- `ESC \` ends both, and BEL ends an OSC string. -/
def delims : ControlString → Delims UInt8
  | .osc =>
      { esc := 0x1b, close := 0x5c, single := fun b => b == 0x07, esc_ne_close := by decide
        single_esc := by decide, single_close := by decide }
  | .dcs =>
      { esc := 0x1b, close := 0x5c, single := fun _ => false, esc_ne_close := by decide
        single_esc := rfl, single_close := rfl }

/-- The parser states that swallow it. -/
def state : ControlString → Delims.Mode → EscState
  | .osc, .inside => .osc
  | .osc, .escaped => .oscEsc
  | .dcs, .inside => .dcs
  | .dcs, .escaped => .dcsEsc
  | _, .closed => .none

theorem state_eq_none_iff {k : ControlString} {m : Delims.Mode} :
    k.state m = .none ↔ m = .closed := by
  cases k <;> cases m <;> decide

theorem state_ne_none_iff {k : ControlString} {m : Delims.Mode} :
    k.state m ≠ .none ↔ k.state m = k.state .inside ∨ k.state m = k.state .escaped := by
  cases k <;> cases m <;> decide

end ControlString

namespace Terminal

/-- Inside a string the parser is the matcher. -/
theorem processByte_string {t : Terminal} {k : ControlString} {m : Delims.Mode}
    (hm : m ≠ .closed) (h : t.esc = k.state m) (b : UInt8) :
    t.processByte b = .ok { t with dirty := true, esc := k.state (k.delims.step m b) } := by
  unfold processByte
  dsimp only
  rw [h]
  cases m with
  | closed => exact absurd rfl hm
  | inside =>
      cases k with
      | osc =>
          by_cases hbel : b = 0x07
          · subst hbel
            rfl
          · by_cases hesc : b = 0x1b
            · subst hesc
              rfl
            · simp [ControlString.state, ControlString.delims, Delims.step, hbel, hesc]
      | dcs =>
          by_cases hesc : b = 0x1b
          · subst hesc
            rfl
          · simp [ControlString.state, ControlString.delims, Delims.step, hesc]
  | escaped =>
      by_cases hclose : b = 0x5c
      · subst hclose
        cases k <;> rfl
      · cases k <;> simp [ControlString.state, ControlString.delims, Delims.step, hclose]

/-- A string from its introducer on, up to where the matcher closes. -/
theorem feed_string {t : Terminal} (h : t.esc = .none) (k : ControlString) {bs : List UInt8}
    (hopen : ∀ front, front <+: bs → front ≠ bs → k.delims.mode front ≠ .closed) :
    t.feed ([0x1b, k.introducer] ++ bs) =
      .ok { t with dirty := true, esc := k.state (k.delims.mode bs) } := by
  induction bs using List.reverseRecOn with
  | nil =>
      rw [List.append_nil, feed_esc_cons h]
      cases k <;> rfl
  | append_singleton bs b ih =>
      have hbs := ih (by
        intro front hfront _
        apply hopen front (hfront.trans (List.prefix_append bs [b]))
        intro heq
        have hlen := hfront.length_le
        rw [heq, List.length_append, List.length_singleton] at hlen
        omega)
      have hmode : k.delims.mode bs ≠ .closed := hopen bs (List.prefix_append bs [b]) (by simp)
      rw [← List.append_assoc, feed_append, hbs, ok_bind, feed_singleton,
        processByte_string hmode rfl, Delims.mode_snoc]

/-- A string up to its first terminator, whether or not the matcher has seen it. -/
theorem feed_unended {t : Terminal} (h : t.esc = .none) (k : ControlString) {bs : List UInt8}
    (hproper : ∀ u, u <+: bs → u ≠ bs → ¬ k.delims.Ends u) :
    t.feed ([0x1b, k.introducer] ++ bs) =
      .ok { t with dirty := true, esc := k.state (k.delims.mode bs) } := by
  apply feed_string h
  intro u hu hne
  apply Delims.mode_ne_closed
  intro v hv
  apply hproper v (hv.trans hu)
  -- a prefix of a proper prefix is proper
  rintro rfl
  exact hne (hu.eq_of_length_le hv.length_le)

/-- The string `bs` ends where it should: up to the first terminator all of it is
swallowed, and there the parser is back in the ground state. -/
def EndsRight (t : Terminal) (k : ControlString) (bs : List UInt8) : Prop :=
  ∀ front, front <+: bs → (∀ u, u <+: front → u ≠ front → ¬ k.delims.Ends u) →
    ∃ t', t.feed ([0x1b, k.introducer] ++ front) = .ok t' ∧ t'.screen = t.screen ∧
      (k.delims.Ends front → t'.esc = .none) ∧
      (¬ k.delims.Ends front → t'.esc = k.state .inside ∨ t'.esc = k.state .escaped)

/-- A string ends where it should exactly if the number of `ESC` bytes right before its
first terminator is odd for a backslash and even for BEL. -/
theorem endsRight_iff (t : Terminal) (h : t.esc = .none) (k : ControlString) (bs : List UInt8) :
    EndsRight t k bs ↔ k.delims.Clean bs := by
  rw [← Delims.finds_iff]
  constructor
  · intro hright front hinit hproper
    obtain ⟨t', ht', -, hends, hopen⟩ := hright front hinit hproper
    rw [feed_unended h k hproper] at ht'
    cases ht'
    constructor
    · intro hclosed
      by_contra hnot
      exact ControlString.state_ne_none_iff.mpr (hopen hnot)
        (ControlString.state_eq_none_iff.mpr hclosed)
    · intro hend
      exact ControlString.state_eq_none_iff.mp (hends hend)
  · intro hfinds front hinit hproper
    have hiff := hfinds front hinit hproper
    refine ⟨_, feed_unended h k hproper, rfl, ?_, ?_⟩
    · intro hend
      exact ControlString.state_eq_none_iff.mpr (hiff.mpr hend)
    · intro hnot
      apply ControlString.state_ne_none_iff.mp
      rw [ne_eq, ControlString.state_eq_none_iff]
      exact fun hclosed => hnot (hiff.mp hclosed)

/-- A window title that ends with `ESC \`, and one with another `ESC` before it. -/
theorem endsRight_iff_title :
    EndsRight threeByOne .osc [0x30, 0x3b, 0x1b, 0x5c] ∧
      ¬ EndsRight threeByOne .osc [0x30, 0x3b, 0x1b, 0x1b, 0x5c] :=
  ⟨(endsRight_iff threeByOne rfl .osc _).mpr (by decide),
    fun h => absurd ((endsRight_iff threeByOne rfl .osc _).mp h) (by decide)⟩

/-- `ESC BEL` does not end an OSC string, and `ESC ESC \` ends neither kind of string. -/
theorem escaped_terminator_missed :
    esc <$> runNew 3 1 ([0x1b, 0x5d, 0x1b, 0x07].map .byte) = .ok .osc ∧
    esc <$> runNew 3 1 ([0x1b, 0x5d, 0x1b, 0x1b, 0x5c].map .byte) = .ok .osc ∧
    esc <$> runNew 3 1 ([0x1b, 0x50, 0x1b, 0x1b, 0x5c].map .byte) = .ok .dcs := by
  refine ⟨rfl, rfl, rfl⟩

end Terminal

/-! ## Other sequences -/

/-- A sequence that the terminal has no use for. -/
inductive Ignored where
  /-- `ESC`, one or more intermediate bytes, a final byte -/
  | nF (intermediates : List UInt8) (final : UInt8) (hne : intermediates ≠ [])
      (hintermediates : ∀ b ∈ intermediates, 0x20 ≤ b ∧ b ≤ 0x2f)
      (hfinal : 0x30 ≤ final ∧ final ≤ 0x7e)
  /-- `ESC _` (APC), `ESC ^` (PM) or `ESC X` (SOS), a payload, `ESC \` -/
  | string (introducer : UInt8) (payload : List UInt8)
      (hintroducer : introducer = 0x5f ∨ introducer = 0x5e ∨ introducer = 0x58)
      (hpayload : ∀ b ∈ payload, b ≠ 0x1b)

namespace Ignored

def encode : Ignored → List UInt8
  | .nF intermediates final .. => 0x1b :: intermediates ++ [final]
  | .string introducer payload .. => [0x1b, introducer] ++ payload ++ [0x1b, 0x5c]

/-- The sequences of which nothing goes to the screen: a character set with a single
intermediate byte `( ) * +`, and a string whose payload has no effect as text. -/
def Known : Ignored → Prop
  | .nF intermediates .. => ∃ d, Designator d ∧ intermediates = [d]
  | .string _ payload .. => ∀ b ∈ payload, Inert b

/-- On every terminal that can come about, the sequence changes nothing. -/
def Swallowed (q : Ignored) : Prop :=
  ∀ t, Terminal.Reached t → t.esc = .none →
    Terminal.observe <$> t.feed q.encode = .ok (.none, t.screen)

end Ignored

namespace Terminal

/-- Bytes without effect as text. -/
theorem feed_inert {t : Terminal} (h : t.esc = .none) (hdirty : t.dirty = true) {bs : List UInt8}
    (hbs : ∀ b ∈ bs, Inert b) : t.feed bs = .ok t := by
  refine feed_swallowed (fun b (hb : Inert b) => ?_) hbs
  rw [processByte_ground h, groundByte_inert hb]
  cases t
  cases hdirty
  rfl

/-- The parser does not know `ESC _`, `ESC ^` and `ESC X`. -/
theorem escByte_ignored {t : Terminal} {b : UInt8} (h : b = 0x5f ∨ b = 0x5e ∨ b = 0x58) :
    t.escByte b = { t with esc := .none } := by
  rcases h with rfl | rfl | rfl <;> rfl

/-- `ESC \` outside of a string. -/
theorem feed_st {t : Terminal} (h : t.esc = .none) :
    t.feed [0x1b, 0x5c] = .ok { t with dirty := true, esc := .none } := by
  rw [feed_esc_cons h]
  rfl

/-- A charset selection is swallowed, and a string whose payload does nothing as text. -/
theorem swallowed_of_known {q : Ignored} (h : q.Known) : q.Swallowed := by
  intro t _ ht
  cases q with
  | nF intermediates final hne hintermediates hfinal =>
      obtain ⟨d, hd, rfl⟩ := h
      exact feed_token ht (.charset d hd final)
  | string introducer payload hintroducer hpayload =>
      rw [Ignored.encode, feed_esc_append ht, escByte_ignored hintroducer, feed_append,
        feed_inert rfl rfl h, ok_bind, feed_st rfl]
      rfl

/-! ### A terminal on which everything shows -/

/-- Two blank cells, a red pen, and the cursor on the second cell. -/
def redPen : Terminal :=
  { cols := 2, rows := 1, cells := [blank, blank], cursorRow := 0, cursorCol := 1, esc := .none
    dirty := true, csiParams := [], csiCur := none, curFg := none, curBg := some 1, bold := false }

theorem reached_redPen : Reached redPen :=
  ⟨2, 1, [0x1b, 0x5b, 0x34, 0x31, 0x6d, 0x1b, 0x5b, 0x43].map .byte, by decide, by decide, rfl⟩

/-- What `redPen` and all terminals that plain text makes of it have in common. -/
structure OnRed (t : Terminal) : Prop where
  inv : Inv t
  rows_eq : t.rows = 1
  curBg_eq : t.curBg = some 1
  esc_eq : t.esc = .none

/-- Something has been printed, or the cursor has come to the left margin. -/
def Changed (t : Terminal) : Prop := (∃ c ∈ t.cells, c.bg ≠ none) ∨ t.cursorCol = 0

/-- A terminal that has changed can be told from `redPen`. -/
theorem Changed.ne_redPen {t : Terminal} (h : Changed t) : t.screen ≠ redPen.screen := by
  intro heq
  rcases h with ⟨c, hc, hbg⟩ | hcol
  · rw [show t.cells = redPen.cells from congrArg Screen.cells heq] at hc
    rcases List.mem_pair.mp hc with rfl | rfl <;> exact hbg rfl
  · have hcol' : t.cursorCol = 1 := congrArg Screen.cursorCol heq
    omega

section

variable {t : Terminal} (h : OnRed t)

include h

/-- A new line brings the cursor to the margin. -/
theorem OnRed.newline : ∃ t', t.newline = .ok t' ∧ OnRed t' ∧ Changed t' := by
  refine ⟨_, newline_ok h.inv.cols_le, ⟨h.inv.newlined, ?_, ?_, ?_⟩, Or.inr (newlined_cursorCol t)⟩
  · unfold newlined
    split <;> exact h.rows_eq
  · unfold newlined
    split <;> exact h.curBg_eq
  · unfold newlined
    split <;> exact h.esc_eq

theorem OnRed.wrapped : OnRed t.wrapped := by
  unfold Terminal.wrapped
  split
  · obtain ⟨t', ht', hred, -⟩ := h.newline
    rw [newline_ok h.inv.cols_le] at ht'
    cases ht'
    exact hred
  · exact h

/-- A character is printed on red. -/
theorem OnRed.put {ch : UInt8} (hch : 0x20 ≤ ch ∧ ch ≤ 0x7e) :
    ∃ t', t.put ch = .ok t' ∧ OnRed t' ∧ Changed t' := by
  have hw := h.wrapped
  refine ⟨_, put_ok h.inv ch, ⟨h.inv.putted hch.1 hch.2, hw.rows_eq, hw.curBg_eq, hw.esc_eq⟩, ?_⟩
  -- the new cell is red
  have hidx : t.wrapped.cursorRow * t.wrapped.cols + t.wrapped.cursorCol <
      t.wrapped.cells.length := by
    have hrow := hw.inv.row_end_le
    have hcol := h.inv.wrapped_col_lt
    omega
  left
  refine ⟨t.wrapped.penCell ch, List.mem_set hidx _, ?_⟩
  show t.wrapped.curBg ≠ none
  rw [hw.curBg_eq]
  decide

/-- A tab prints at least one space, if there is room for it. -/
theorem OnRed.tabLoop (next fuel : Nat)
    (hchanged : Changed t ∨ 0 < fuel ∧ t.cursorCol < next ∧ t.cursorCol < t.cols) :
    ∃ t', tabLoop next fuel t = .ok t' ∧ OnRed t' ∧ Changed t' := by
  induction fuel generalizing t with
  | zero =>
      rcases hchanged with hchanged | ⟨hpos, -⟩
      · exact ⟨t, rfl, h, hchanged⟩
      · omega
  | succ fuel ih =>
      unfold Terminal.tabLoop
      split
      · obtain ⟨t', ht', hred, hchanged'⟩ := h.put (show (0x20 : UInt8) ≤ 0x20 ∧ _ by decide)
        rw [ht', ok_bind]
        exact ih hred (Or.inl hchanged')
      · next hstop =>
          rcases hchanged with hchanged | ⟨-, hgo⟩
          · exact ⟨t, rfl, h, hchanged⟩
          · exact absurd hgo hstop

/-- The cursor moved to the left. -/
theorem OnRed.left {col : Nat} (hcol : col ≤ t.cursorCol) : OnRed { t with cursorCol := col } where
  inv := h.inv.update rfl h.inv.cells_ok h.inv.row_lt (hcol.trans h.inv.col_le)
  rows_eq := h.rows_eq
  curBg_eq := h.curBg_eq
  esc_eq := h.esc_eq

/-- One byte of text: what has changed stays changed, and from the second of two cells
every byte with an effect changes something. -/
theorem OnRed.groundByte {b : UInt8} (hb : b ≠ 0x1b)
    (hchanged : Changed t ∨ ¬ Inert b ∧ t.cursorCol = 1 ∧ t.cols = 2) :
    ∃ t', t.groundByte b = .ok t' ∧ OnRed t' ∧ Changed t' := by
  unfold Terminal.groundByte
  split_ifs with hlf hcr hht hbs hpos hprint
  · -- line feed and carriage return come to the margin
    exact h.newline
  · exact ⟨_, rfl, h.left (Nat.zero_le _), Or.inr rfl⟩
  · apply h.tabLoop
    rcases hchanged with hchanged | ⟨-, hcol, hcols⟩
    · exact Or.inl hchanged
    · right
      rw [hcol, hcols]
      decide
  · -- a step to the left, which from the second cell ends at the margin
    refine ⟨_, rfl, h.left (Nat.sub_le _ _), ?_⟩
    rcases hchanged with (hcell | hcol) | ⟨-, hcol, -⟩
    · exact Or.inl hcell
    · omega
    · right
      show t.cursorCol - 1 = 0
      omega
  · -- at the margin it changes nothing
    exact ⟨t, rfl, h, Or.inr (by omega)⟩
  · exact h.put hprint
  · refine ⟨t, rfl, h, hchanged.resolve_right ?_⟩
    rintro ⟨hinert, -⟩
    exact hinert ⟨hlf, hcr, hht, fun h => hbs (Or.inl h), fun h => hbs (Or.inr h), hb, hprint⟩

end

theorem OnRed.processByte {t : Terminal} (h : OnRed t) {b : UInt8} (hb : b ≠ 0x1b)
    (hchanged : Changed t ∨ ¬ Inert b ∧ t.cursorCol = 1 ∧ t.cols = 2) :
    ∃ t', t.processByte b = .ok t' ∧ OnRed t' ∧ Changed t' := by
  have hdirty : OnRed { t with dirty := true } :=
    ⟨h.inv.of_screen rfl, h.rows_eq, h.curBg_eq, h.esc_eq⟩
  rw [processByte_ground h.esc_eq]
  exact hdirty.groundByte hb hchanged

/-- Text after a change. -/
theorem OnRed.feed {t : Terminal} (h : OnRed t) (hchanged : Changed t) {bs : List UInt8}
    (hbs : ∀ b ∈ bs, b ≠ 0x1b) : ∃ t', t.feed bs = .ok t' ∧ OnRed t' ∧ Changed t' := by
  induction bs generalizing t with
  | nil => exact ⟨t, rfl, h, hchanged⟩
  | cons b bs ih =>
      obtain ⟨t₁, ht₁, hred, hchanged₁⟩ :=
        h.processByte (hbs b List.mem_cons_self) (Or.inl hchanged)
      rw [feed_cons, ht₁, ok_bind]
      exact ih hred hchanged₁ fun b' hb' => hbs b' (List.mem_cons_of_mem b hb')

theorem onRed_redPen : OnRed redPen where
  inv := reached_redPen.inv (by decide)
  rows_eq := rfl
  curBg_eq := rfl
  esc_eq := rfl

/-- Text that has an effect changes `redPen`. -/
theorem redPen_feed {bs : List UInt8} (hbs : ∀ b ∈ bs, b ≠ 0x1b) (h : ¬ ∀ b ∈ bs, Inert b) :
    ∃ t', redPen.feed bs = .ok t' ∧ OnRed t' ∧ Changed t' := by
  induction bs with
  | nil => exact absurd (by simp) h
  | cons b bs ih =>
      have hrest := fun b' hb' => hbs b' (List.mem_cons_of_mem b hb')
      by_cases hb : Inert b
      · have hbyte : redPen.feed [b] = .ok redPen := feed_inert rfl rfl (by simpa using hb)
        have hbs' : ¬ ∀ b ∈ bs, Inert b := fun hall => h (by simpa [hb] using hall)
        rw [← List.singleton_append, feed_append, hbyte, ok_bind]
        exact ih hrest hbs'
      · obtain ⟨t', ht', hred, hchanged⟩ :=
          onRed_redPen.processByte (hbs b List.mem_cons_self) (Or.inr ⟨hb, rfl, rfl⟩)
        rw [feed_cons, ht', ok_bind]
        exact hred.feed hchanged hrest

/-- Printable bytes, at least one. -/
theorem redPen_print {bs : List UInt8} {b : UInt8} (hbs : ∀ b ∈ bs, 0x20 ≤ b ∧ b ≤ 0x2f)
    (hb : 0x30 ≤ b ∧ b ≤ 0x7e) :
    ∃ t', redPen.feed (bs ++ [b]) = .ok t' ∧ OnRed t' ∧ Changed t' := by
  apply redPen_feed
  · intro b' hb'
    rcases List.mem_append.mp hb' with hb' | hb'
    · have hlow := (hbs b' hb').1
      grind
    · rw [List.mem_singleton.mp hb']
      have hlow := hb.1
      grind
  · intro hinert
    have hprint : 0x20 ≤ b ∧ b ≤ 0x7e := ⟨by grind, hb.2⟩
    exact (hinert b (by simp)).2.2.2.2.2.2 hprint

/-- Of every other sequence something goes to the screen. -/
theorem redPen_leaks {q : Ignored} (h : ¬ q.Known) :
    ∃ t', redPen.feed q.encode = .ok t' ∧ Changed t' := by
  cases q with
  | nF intermediates final hne hintermediates hfinal =>
      obtain ⟨i, more, rfl⟩ := List.exists_cons_of_ne_nil hne
      obtain ⟨hrange, hmore⟩ := List.forall_mem_cons.mp hintermediates
      rw [Ignored.encode, List.cons_append, List.cons_append, feed_esc_cons rfl]
      by_cases hi : Designator i
      · rw [escByte_designator hi]
        cases more with
        | nil => exact absurd ⟨i, hi, rfl⟩ h
        | cons j more =>
            -- the second intermediate byte is swallowed, and the rest is printed
            obtain ⟨t', ht', -, hchanged⟩ :=
              redPen_print (fun b hb => hmore b (List.mem_cons_of_mem j hb)) hfinal
            exact ⟨t', ht', hchanged⟩
      · have hother : i ≠ 0x5b ∧ i ≠ 0x5d ∧ i ≠ 0x50 ∧ ¬ Designator i := by
          refine ⟨?_, ?_, ?_, hi⟩ <;> grind
        obtain ⟨t', ht', -, hchanged⟩ := redPen_print hmore hfinal
        rw [escByte_other hother]
        exact ⟨t', ht', hchanged⟩
  | string introducer payload hintroducer hpayload =>
      obtain ⟨t', ht', hred, hchanged⟩ := redPen_feed hpayload h
      have hfeed : Terminal.feed { redPen with dirty := true, esc := .none } payload = .ok t' := ht'
      rw [Ignored.encode, feed_esc_append rfl, escByte_ignored hintroducer]
      show ∃ t', Terminal.feed { redPen with dirty := true, esc := .none }
        (payload ++ [0x1b, 0x5c]) = .ok t' ∧ Changed t'
      rw [feed_append, hfeed, ok_bind, feed_st hred.esc_eq]
      exact ⟨_, rfl, hchanged⟩

/-- What is not known leaves a trace on `redPen`. -/
theorem known_of_swallowed {q : Ignored} (h : q.Swallowed) : q.Known := by
  by_contra hnot
  obtain ⟨t', ht', hchanged⟩ := redPen_leaks hnot
  have hred := h redPen reached_redPen rfl
  rw [ht'] at hred
  exact hchanged.ne_redPen (congrArg Prod.snd (Except.ok.inj hred))

/-- Exactly the known sequences are swallowed. -/
theorem swallowed_iff (q : Ignored) : q.Swallowed ↔ q.Known :=
  ⟨known_of_swallowed, swallowed_of_known⟩

/-- `ESC # 8` prints `8`, `ESC % G` prints `G`, and `ESC _ a ESC \` prints `a`. -/
theorem ignored_sequences_print :
    shown <$> runNew 3 1 ([0x1b, 0x23, 0x38].map .byte) = .ok ([0x38, 0x20, 0x20], 1) ∧
    shown <$> runNew 3 1 ([0x1b, 0x25, 0x47].map .byte) = .ok ([0x47, 0x20, 0x20], 1) ∧
    shown <$> runNew 3 1 ([0x1b, 0x5f, 0x61, 0x1b, 0x5c].map .byte) =
      .ok ([0x61, 0x20, 0x20], 1) := by
  refine ⟨rfl, rfl, rfl⟩

end Terminal

end K1de
