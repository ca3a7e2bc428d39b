import K1de.Drm.Probe
import K1de.Render.Pixels

/-! # Loading the console font

`font.rs`: the font is asked of three console devices in turn, with room for glyphs of 8 by 32
pixels, and a font of solid blocks is the last resort. The program takes the size that the kernel
reports as it is. A glyph higher than the room would be looked up past the end of the data
(`Font.pixel_total_iff`), so what `load` returns is as good as the kernel's word (`Honours`).
-/

namespace K1de

open Fallible

/-- What one console device gives: whether it opens, what `KDFONTOP` returns, the size it leaves
in the struct, and the glyphs it writes. `errno` is what a failure is reported as. -/
structure FontAnswers where
  file : Except IoError Unit
  ret : Int32
  errno : Int
  width : UInt32
  height : UInt32
  glyphs : List UInt8

namespace Font

theorem toNat_pos {v : UInt32} (h : ¬ v = 0) : 1 ≤ v.toNat := by
  rw [← UInt32.toNat_inj] at h
  exact Nat.one_le_iff_ne_zero.mpr h

/-- The buffer of 256 glyphs after the kernel wrote into it. -/
def buffer (glyphs : List UInt8) : List UInt8 :=
  Drm.writeArray (List.replicate (256 * 32) 0) glyphs

theorem length_buffer (glyphs : List UInt8) : (buffer glyphs).length = 256 * 32 := by
  rw [buffer, Drm.length_writeArray, List.length_replicate]

def loadFrom (a : FontAnswers) : Except IoError Font := do
  a.file
  if h : a.ret < 0 ∨ a.height = 0 ∨ a.width = 0 then
    .error (.os a.errno)
  else
    .ok {
      width := a.width.toNat
      height := a.height.toNat
      data := buffer a.glyphs
      width_pos := toNat_pos (not_or.mp (not_or.mp h).2).2
      height_pos := toNat_pos (not_or.mp (not_or.mp h).2).1
      data_length := length_buffer a.glyphs }

def fallback : Font := solidFont

/-- The loop of `load` over the devices. -/
def loadLoop (kernel : String → FontAnswers) : List String → Font
  | [] => fallback
  | path :: rest =>
      match loadFrom (kernel path) with
      | .ok font => font
      | .error _ => loadLoop kernel rest

def consoles : List String := ["/dev/tty1", "/dev/tty0", "/dev/console"]

def load (kernel : String → FontAnswers) : Font := loadLoop kernel consoles

/-! ## Which font is loaded -/

/-- The font is that of the first device that has one, or the last resort. -/
theorem loadLoop_cases (kernel : String → FontAnswers) (paths : List String) :
    (∃ pre path post, paths = pre ++ path :: post ∧
      (∀ p ∈ pre, ∃ e, loadFrom (kernel p) = .error e) ∧
      loadFrom (kernel path) = .ok (loadLoop kernel paths)) ∨
    (∀ p ∈ paths, ∃ e, loadFrom (kernel p) = .error e) ∧ loadLoop kernel paths = fallback := by
  induction paths with
  | nil => exact Or.inr ⟨fun p hp => absurd hp List.not_mem_nil, rfl⟩
  | cons path rest ih =>
      unfold loadLoop
      cases hload : loadFrom (kernel path) with
      | ok font => exact Or.inl ⟨[], path, rest, rfl, fun p hp => absurd hp List.not_mem_nil, hload⟩
      | error e =>
          rcases ih with ⟨pre, path', post, rfl, hpre, hfont⟩ | ⟨hall, hfont⟩
          · refine Or.inl ⟨path :: pre, path', post, rfl, ?_, hfont⟩
            exact List.forall_mem_cons.mpr ⟨⟨e, hload⟩, hpre⟩
          · exact Or.inr ⟨List.forall_mem_cons.mpr ⟨⟨e, hload⟩, hall⟩, hfont⟩

/-! ## Looking up a glyph -/

/-- All pixels of all glyphs can be looked up if and only if a glyph is not higher than the data
of one: the last row of the last glyph is the last byte. -/
theorem pixel_total_iff (font : Font) :
    (∀ ch x y, ∃ b, font.pixel ch x y = .ok b) ↔ font.height ≤ 32 := by
  constructor
  · intro htotal
    by_contra hhigh
    have hwidth := font.width_pos
    -- row 32 of glyph 255
    obtain ⟨b, hb⟩ := htotal 255 0 32
    have hidx : font.data[(255 : UInt8).toNat * 32 + 32]? = none := by
      rw [List.getElem?_eq_none_iff, font.data_length]
      decide
    rw [Font.pixel, if_neg (by omega), Vec.index, hidx] at hb
    cases hb
  · intro hheight ch x y
    unfold Font.pixel
    split
    · exact ⟨false, rfl⟩
    · have hch := ch.toNat_lt
      have hidx : ch.toNat * 32 + y < font.data.length := by
        rw [font.data_length]
        omega
      rw [Vec.index_ok (List.getElem?_eq_getElem hidx)]
      exact ⟨_, rfl⟩

end Font

/-- The kernel does not hand out a font that is larger than the room it was given. -/
def FontAnswers.Honours (a : FontAnswers) : Prop :=
  ¬ a.ret < 0 → a.width.toNat ≤ 8 ∧ a.height.toNat ≤ 32

namespace Font

/-- A font that was loaded has the size that the kernel has said. -/
theorem loadFrom_size {a : FontAnswers} (ha : a.Honours) {font : Font}
    (h : loadFrom a = .ok font) : font.width ≤ 8 ∧ font.height ≤ 32 := by
  obtain ⟨-, -, h⟩ := of_bind_ok h
  split at h
  · cases h
  · next hret =>
      cases h
      exact ha (not_or.mp hret).1

/-- What `load` returns where the kernel keeps its word. -/
theorem load_size {kernel : String → FontAnswers} (h : ∀ path ∈ consoles, (kernel path).Honours) :
    (load kernel).width ≤ 8 ∧ (load kernel).height ≤ 32 := by
  rcases loadLoop_cases kernel consoles with ⟨pre, path, post, hsplit, -, hfont⟩ | ⟨-, hfont⟩
  · refine loadFrom_size (h path ?_) hfont
    rw [hsplit]
    exact List.mem_append_right pre List.mem_cons_self
  · rw [load, hfont]
    decide

/-- Whatever the consoles answer, `load` returns the font of the first one that has a font, or the
last resort; and if they keep their word, every pixel of every glyph of it can be looked up. -/
theorem load_lookups (kernel : String → FontAnswers)
    (h : ∀ path ∈ consoles, (kernel path).Honours) :
    ((∃ pre path post, consoles = pre ++ path :: post ∧
        (∀ p ∈ pre, ∃ e, loadFrom (kernel p) = .error e) ∧
        loadFrom (kernel path) = .ok (load kernel)) ∨
      (∀ p ∈ consoles, ∃ e, loadFrom (kernel p) = .error e) ∧ load kernel = fallback) ∧
    ∀ ch x y, ∃ b, (load kernel).pixel ch x y = .ok b :=
  ⟨loadLoop_cases kernel consoles, (pixel_total_iff _).mpr (load_size h).2⟩

/-- The first console cannot be opened, the others have glyphs of 8 by 16 pixels. -/
def vgaConsoles (path : String) : FontAnswers :=
  { file := if path = "/dev/tty1" then .error (.os 2) else .ok ()
    ret := 0, errno := 0, width := 8, height := 16, glyphs := solidGlyphs }

theorem vgaConsoles_honour (path : String) : (vgaConsoles path).Honours :=
  fun _ => ⟨by exact le_rfl, by exact Nat.le_of_ble_eq_true rfl⟩

theorem load_lookups_vga :
    ((∃ pre path post, consoles = pre ++ path :: post ∧
        (∀ p ∈ pre, ∃ e, loadFrom (vgaConsoles p) = .error e) ∧
        loadFrom (vgaConsoles path) = .ok (load vgaConsoles)) ∨
      (∀ p ∈ consoles, ∃ e, loadFrom (vgaConsoles p) = .error e) ∧ load vgaConsoles = fallback) ∧
    ∀ ch x y, ∃ b, (load vgaConsoles).pixel ch x y = .ok b :=
  load_lookups vgaConsoles fun path _ => vgaConsoles_honour path

end Font

end K1de
