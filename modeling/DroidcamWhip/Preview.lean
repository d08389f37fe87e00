import Mathlib.Tactic.Ring
import DroidcamWhip.Lib.Bytes

/-!
The preview of the Windows GUI: `gui_set_frame` copies a frame into a buffer,
`paint_preview` copies that into a second buffer and has GDI draw it as a bitmap.
-/

namespace DroidcamWhip

/-! ## The code -/

/-- The bytes of a frame of 24-bit pixels. -/
def frameBytes (width height : Int32) : Nat := width.toInt.toNat * height.toInt.toNat * 3

/-- The product fits `size_t`. -/
theorem frameBytes_lt (width height : Int32) : frameBytes width height < 2 ^ 64 := by
  have hw : width.toInt.toNat < 2 ^ 31 := by
    have := width.toInt_lt
    omega
  have hh : height.toInt.toNat < 2 ^ 31 := by
    have := height.toInt_lt
    omega
  have hmul := Nat.mul_lt_mul'' hw hh
  unfold frameBytes
  omega

/-- The buffers of `WinGui`; a null pointer is the empty buffer. -/
structure WinGui where
  frame : List UInt8
  frameWidth : Int32
  frameHeight : Int32
  paintBuf : List UInt8
  paintWidth : Int32
  paintHeight : Int32

/-- `gui_create` zeroes the structure. -/
def WinGui.new : WinGui := ⟨[], 0, 0, [], 0, 0⟩

/-- A successful `realloc` to a larger size; what is new is overwritten before it is read. -/
def grow (buf : List UInt8) (needed : Nat) : List UInt8 :=
  buf ++ List.replicate (needed - buf.length) 0

/-- The end of both functions' growth: `buf` with room for `needed` bytes, or nothing. -/
def ensure (buf : List UInt8) (needed : Nat) (alloc : Bool) : Option (List UInt8) :=
  if buf.length < needed then
    if alloc then some (grow buf needed) else none
  else some buf

/-- `gui_set_frame`, and whether it stores the frame; `data` is the memory at `bgr_data`. -/
def guiSetFrame (g : WinGui) (data : Nat → UInt8) (width height : Int32) (alloc : Bool) :
    WinGui × Bool :=
  if width ≤ 0 ∨ height ≤ 0 then (g, false)
  else
    let needed := frameBytes width height
    match ensure g.frame needed alloc with
    | none => (g, false)
    | some frame =>
        ({ g with
            frame := Bytes.overwrite frame 0 ((List.range needed).map data)
            frameWidth := width
            frameHeight := height }, true)

/-- The bitmap given to `StretchDIBits`: `paint_buf`, `biWidth` and `-biHeight`. -/
structure Bitmap where
  bits : List UInt8
  width : Int32
  height : Int32

/-- `paint_preview`, and what it draws; without a picture it draws a text. -/
def paintPreview (g : WinGui) (alloc : Bool) : WinGui × Option Bitmap :=
  if g.frame = [] ∨ g.frameWidth ≤ 0 ∨ g.frameHeight ≤ 0 then (g, none)
  else
    let needed := frameBytes g.frameWidth g.frameHeight
    match ensure g.paintBuf needed alloc with
    | none => (g, none)
    | some paintBuf =>
        let g := { g with
          paintBuf := Bytes.overwrite paintBuf 0 (g.frame.take needed)
          paintWidth := g.frameWidth
          paintHeight := g.frameHeight }
        (g, some ⟨g.paintBuf, g.paintWidth, g.paintHeight⟩)

/-! ## Sequences of calls -/

/-- A call, with the answer of `realloc` if it is asked. -/
inductive PreviewCall where
  | setFrame (width height : Int32) (alloc : Bool)
  | paint (alloc : Bool)

/-- A frame that `gui_set_frame` has stored. -/
structure StoredFrame where
  width : Int32
  height : Int32
  data : Nat → UInt8

/-- The GUI, the number of calls of `gui_set_frame` so far, and the last frame stored. -/
structure Preview where
  gui : WinGui
  calls : Nat
  last : Option StoredFrame

def Preview.new : Preview := ⟨.new, 0, none⟩

/-- A call; `data n` is what the call `n` of `gui_set_frame` is given. -/
def Preview.step (data : Nat → Nat → UInt8) (p : Preview) : PreviewCall → Preview × Option Bitmap
  | .setFrame width height alloc =>
      let r := guiSetFrame p.gui (data p.calls) width height alloc
      (⟨r.1, p.calls + 1, if r.2 then some ⟨width, height, data p.calls⟩ else p.last⟩, none)
  | .paint alloc =>
      let r := paintPreview p.gui alloc
      ({ p with gui := r.1 }, r.2)

/-- The pictures that are drawn, each with the last frame stored by then. -/
def pictures (data : Nat → Nat → UInt8) : Preview → List PreviewCall →
    List (Bitmap × Option StoredFrame)
  | _, [] => []
  | p, c :: cs =>
      let r := p.step data c
      (r.2.map fun picture => (picture, r.1.last)).toList ++ pictures data r.1 cs

/-! ## What GDI shows -/

/-- The bytes from one row of a 24-bit bitmap to the next. -/
def dibStride (width : Nat) : Nat := 4 * ((3 * width + 3) / 4)

/-- The bitmap has the size of the frame, and each of its bytes is in the buffer and is the
byte of the frame. -/
structure Bitmap.Shows (p : Bitmap) (f : StoredFrame) : Prop where
  width : p.width = f.width
  height : p.height = f.height
  pixel : ∀ x y c, x < p.width.toInt.toNat → y < p.height.toInt.toNat → c < 3 →
    p.bits[y * dibStride p.width.toInt.toNat + 3 * x + c]? =
      some (f.data (3 * (y * f.width.toInt.toNat + x) + c))

/-- Every picture shows the last frame. -/
def ShowsLast (data : Nat → Nat → UInt8) (cs : List PreviewCall) : Prop :=
  ∀ s ∈ pictures data .new cs, ∃ f, s.2 = some f ∧ s.1.Shows f

/-! ## Sizes alone -/

/-- The sizes of the buffers and of the frame in the first one. -/
structure PreviewSizes where
  frame : Nat
  width : Int32
  height : Int32
  paint : Nat

def WinGui.sizes (g : WinGui) : PreviewSizes :=
  ⟨g.frame.length, g.frameWidth, g.frameHeight, g.paintBuf.length⟩

namespace PreviewSizes

/-- Whether a buffer of `size` bytes can take `needed` bytes. -/
def Room (size needed : Nat) (alloc : Bool) : Prop := needed ≤ size ∨ alloc

instance (size needed : Nat) (alloc : Bool) : Decidable (Room size needed alloc) :=
  inferInstanceAs (Decidable (_ ∨ _))

def setFrame (s : PreviewSizes) (width height : Int32) (alloc : Bool) : PreviewSizes :=
  if 0 < width ∧ 0 < height ∧ Room s.frame (frameBytes width height) alloc then
    ⟨max s.frame (frameBytes width height), width, height, s.paint⟩
  else s

/-- Whether a call of `paint_preview` draws a picture. -/
def Draws (s : PreviewSizes) (alloc : Bool) : Prop :=
  0 < s.frame ∧ 0 < s.width ∧ 0 < s.height ∧ Room s.paint (frameBytes s.width s.height) alloc

instance (s : PreviewSizes) (alloc : Bool) : Decidable (s.Draws alloc) :=
  inferInstanceAs (Decidable (_ ∧ _))

def painted (s : PreviewSizes) (alloc : Bool) : PreviewSizes :=
  if s.Draws alloc then { s with paint := max s.paint (frameBytes s.width s.height) } else s

end PreviewSizes

/-- Rows of packed pixels begin where GDI looks for them. -/
def RowsAligned (width height : Int32) : Prop := width.toInt % 4 = 0 ∨ height = 1

/-- The sizes of the frames that are painted. -/
def paintedSizes : PreviewSizes → List PreviewCall → List (Int32 × Int32)
  | _, [] => []
  | s, .setFrame width height alloc :: cs => paintedSizes (s.setFrame width height alloc) cs
  | s, .paint alloc :: cs =>
      (if s.Draws alloc then [(s.width, s.height)] else []) ++ paintedSizes (s.painted alloc) cs

/-- Every frame that is painted has aligned rows. -/
def Aligned (cs : List PreviewCall) : Prop :=
  ∀ d ∈ paintedSizes WinGui.new.sizes cs, RowsAligned d.1 d.2

/-! ## One call -/

theorem ensure_none {buf : List UInt8} {needed : Nat} {alloc : Bool} :
    ensure buf needed alloc = none ↔ ¬ PreviewSizes.Room buf.length needed alloc := by
  unfold ensure PreviewSizes.Room
  split
  · cases alloc <;> simp [Nat.not_le.mpr ‹_›]
  · simp [Nat.not_lt.mp ‹_›]

theorem ensure_length {buf buf' : List UInt8} {needed : Nat} {alloc : Bool}
    (h : ensure buf needed alloc = some buf') : buf'.length = max buf.length needed := by
  unfold ensure at h
  split at h
  · split at h
    · cases h
      unfold grow
      rw [List.length_append, List.length_replicate]
      omega
    · cases h
  · cases h
    omega

section SetFrame

variable (g : WinGui) (data : Nat → UInt8) {width height : Int32} {alloc : Bool}

theorem guiSetFrame_refused
    (h : ¬ (0 < width ∧ 0 < height ∧
      PreviewSizes.Room g.frame.length (frameBytes width height) alloc)) :
    guiSetFrame g data width height alloc = (g, false) := by
  unfold guiSetFrame
  split
  · rfl
  · rename_i hpos
    rw [not_or, Int32.not_le, Int32.not_le] at hpos
    have hroom := ensure_none.mpr fun hroom => h ⟨hpos.1, hpos.2, hroom⟩
    simp only [hroom]

/-- The state after a frame is stored. -/
structure Stores (g g' : WinGui) (f : StoredFrame) : Prop where
  width : g'.frameWidth = f.width
  height : g'.frameHeight = f.height
  length : g'.frame.length = max g.frame.length (frameBytes f.width f.height)
  bytes : ∀ k < frameBytes f.width f.height, g'.frame[k]? = some (f.data k)
  paint : g'.paintBuf = g.paintBuf

theorem guiSetFrame_stored (hw : 0 < width) (hh : 0 < height)
    (hroom : PreviewSizes.Room g.frame.length (frameBytes width height) alloc) :
    (guiSetFrame g data width height alloc).2 = true ∧
      Stores g (guiSetFrame g data width height alloc).1 ⟨width, height, data⟩ := by
  have hpos : ¬ (width ≤ 0 ∨ height ≤ 0) := by
    rw [not_or, Int32.not_le, Int32.not_le]
    exact ⟨hw, hh⟩
  unfold guiSetFrame
  rw [if_neg hpos]
  cases hframe : ensure g.frame (frameBytes width height) alloc with
  | none => exact absurd hroom (ensure_none.mp hframe)
  | some frame =>
    have hlen := ensure_length hframe
    have hdata : ((List.range (frameBytes width height)).map data).length ≤ frame.length := by
      rw [List.length_map, List.length_range, hlen]
      exact Nat.le_max_right ..
    simp only [hframe]
    refine ⟨trivial, rfl, rfl, ?_, fun k hk => ?_, rfl⟩
    · show (Bytes.overwrite frame 0 _).length = _
      rw [Bytes.overwrite_length, hlen]
    · show (Bytes.overwrite frame 0 _)[k]? = _
      rw [Bytes.overwrite_getElem hdata (by simpa using hk)]
      simp [hk]

end SetFrame

section Paint

variable {g : WinGui} {alloc : Bool}

/-- `frame` has room for the frame that it is said to hold. -/
def WinGui.Sound (g : WinGui) : Prop := frameBytes g.frameWidth g.frameHeight ≤ g.frame.length

theorem paintPreview_refused (h : ¬ g.sizes.Draws alloc) : paintPreview g alloc = (g, none) := by
  unfold paintPreview
  split
  · rfl
  · rename_i hpos
    rw [not_or, not_or, Int32.not_le, Int32.not_le] at hpos
    have hroom := ensure_none.mpr fun hroom =>
      h ⟨List.length_pos_iff.mpr hpos.1, hpos.2.1, hpos.2.2, hroom⟩
    simp only [WinGui.sizes] at hroom
    simp only [hroom]

/-- The state after a picture is drawn, and the bitmap. -/
structure Paints (g g' : WinGui) (p : Bitmap) : Prop where
  width : p.width = g.frameWidth
  height : p.height = g.frameHeight
  bytes : ∀ k < frameBytes g.frameWidth g.frameHeight, p.bits[k]? = g.frame[k]?
  length : g'.paintBuf.length =
    max g.paintBuf.length (frameBytes g.frameWidth g.frameHeight)
  frame : g'.frame = g.frame ∧ g'.frameWidth = g.frameWidth ∧ g'.frameHeight = g.frameHeight

theorem paintPreview_drawn (hs : g.Sound) (h : g.sizes.Draws alloc) :
    ∃ p, (paintPreview g alloc).2 = some p ∧ Paints g (paintPreview g alloc).1 p := by
  obtain ⟨hframe, hw, hh, hroom⟩ := h
  have hpos : ¬ (g.frame = [] ∨ g.frameWidth ≤ 0 ∨ g.frameHeight ≤ 0) := by
    rw [not_or, not_or, Int32.not_le, Int32.not_le]
    exact ⟨List.length_pos_iff.mp hframe, hw, hh⟩
  unfold paintPreview
  rw [if_neg hpos]
  cases hbuf : ensure g.paintBuf (frameBytes g.frameWidth g.frameHeight) alloc with
  | none => exact absurd hroom (ensure_none.mp hbuf)
  | some buf =>
    have hlen := ensure_length hbuf
    have htake : (g.frame.take (frameBytes g.frameWidth g.frameHeight)).length =
        frameBytes g.frameWidth g.frameHeight := List.length_take_of_le hs
    simp only [hbuf]
    refine ⟨_, rfl, rfl, rfl, fun k hk => ?_, ?_, rfl, rfl, rfl⟩
    · show (Bytes.overwrite buf 0 _)[k]? = _
      rw [Bytes.overwrite_getElem (by omega) (by omega), List.getElem?_take_of_lt hk]
    · show (Bytes.overwrite buf 0 _).length = _
      rw [Bytes.overwrite_length, hlen]

end Paint

/-! ## Whole sequences -/

/-- The GUI holds the last frame that was stored, and nothing before the first. -/
structure Holding (data : Nat → Nat → UInt8) (g : WinGui) (f : StoredFrame) : Prop where
  positive : 0 < f.width ∧ 0 < f.height
  size : g.frameWidth = f.width ∧ g.frameHeight = f.height
  sound : g.Sound
  bytes : ∀ k < frameBytes f.width f.height, g.frame[k]? = some (f.data k)
  source : ∃ n, f.data = data n

def Preview.Kept (data : Nat → Nat → UInt8) (p : Preview) : Prop :=
  match p.last with
  | none => p.gui.frame = []
  | some f => Holding data p.gui f

/-- The bitmap has the frame at its start. -/
structure Bitmap.Copies (p : Bitmap) (f : StoredFrame) : Prop where
  width : p.width = f.width
  height : p.height = f.height
  bytes : ∀ k < frameBytes f.width f.height, p.bits[k]? = some (f.data k)

theorem Stores.sizes {g g' : WinGui} {f : StoredFrame} (h : Stores g g' f) :
    g'.sizes = ⟨max g.frame.length (frameBytes f.width f.height), f.width, f.height,
      g.paintBuf.length⟩ := by
  unfold WinGui.sizes
  rw [h.length, h.width, h.height, h.paint]

theorem Stores.holding {data : Nat → Nat → UInt8} {g g' : WinGui} {f : StoredFrame}
    (h : Stores g g' f) (hpos : 0 < f.width ∧ 0 < f.height) (hsource : ∃ n, f.data = data n) :
    Holding data g' f where
  positive := hpos
  size := ⟨h.width, h.height⟩
  sound := by
    unfold WinGui.Sound
    rw [h.width, h.height, h.length]
    exact Nat.le_max_right ..
  bytes := h.bytes
  source := hsource

theorem Paints.sizes {g g' : WinGui} {p : Bitmap} (h : Paints g g' p) :
    g'.sizes = { g.sizes with
      paint := max g.sizes.paint (frameBytes g.sizes.width g.sizes.height) } := by
  obtain ⟨hframe, hwidth, hheight⟩ := h.frame
  unfold WinGui.sizes
  rw [h.length, hframe, hwidth, hheight]

theorem Paints.holding {data : Nat → Nat → UInt8} {g g' : WinGui} {p : Bitmap} {f : StoredFrame}
    (h : Paints g g' p) (hg : Holding data g f) : Holding data g' f := by
  obtain ⟨hframe, hwidth, hheight⟩ := h.frame
  constructor
  · exact hg.positive
  · rw [hwidth, hheight]
    exact hg.size
  · unfold WinGui.Sound
    rw [hframe, hwidth, hheight]
    exact hg.sound
  · rw [hframe]
    exact hg.bytes
  · exact hg.source

theorem Paints.copies {data : Nat → Nat → UInt8} {g g' : WinGui} {p : Bitmap} {f : StoredFrame}
    (h : Paints g g' p) (hg : Holding data g f) : p.Copies f where
  width := h.width.trans hg.size.1
  height := h.height.trans hg.size.2
  bytes k hk := by
    have hk' : k < frameBytes g.frameWidth g.frameHeight := by
      rw [hg.size.1, hg.size.2]
      exact hk
    rw [h.bytes k hk', hg.bytes k hk]

section Steps

variable {data : Nat → Nat → UInt8} {p : Preview}

/-- A call of `gui_set_frame`. -/
theorem Preview.Kept.setFrame (hp : p.Kept data) (width height : Int32) (alloc : Bool) :
    (p.step data (.setFrame width height alloc)).1.Kept data ∧
      (p.step data (.setFrame width height alloc)).1.gui.sizes =
        p.gui.sizes.setFrame width height alloc := by
  by_cases h : 0 < width ∧ 0 < height ∧
      PreviewSizes.Room p.gui.sizes.frame (frameBytes width height) alloc
  · obtain ⟨hstored, hstores⟩ := guiSetFrame_stored p.gui (data p.calls) h.1 h.2.1 h.2.2
    constructor
    · simp only [Preview.Kept, Preview.step, hstored, if_true]
      exact hstores.holding ⟨h.1, h.2.1⟩ ⟨p.calls, rfl⟩
    · unfold PreviewSizes.setFrame
      rw [if_pos h]
      exact hstores.sizes
  · have hrefused := guiSetFrame_refused p.gui (data p.calls) h
    constructor
    · simp only [Preview.Kept, Preview.step, hrefused, Bool.false_eq_true, if_false]
      exact hp
    · simp only [Preview.step, hrefused]
      exact (if_neg h).symm

/-- A call of `paint_preview` that draws a picture. -/
theorem Preview.Kept.drawn (hp : p.Kept data) {alloc : Bool} (h : p.gui.sizes.Draws alloc) :
    ∃ b f, (p.step data (.paint alloc)).2 = some b ∧ p.last = some f ∧ b.Copies f ∧
      Holding data p.gui f ∧ (p.step data (.paint alloc)).1.last = some f ∧
      (p.step data (.paint alloc)).1.Kept data ∧
      (p.step data (.paint alloc)).1.gui.sizes = p.gui.sizes.painted alloc := by
  have hlast : ∃ f, p.last = some f ∧ Holding data p.gui f := by
    unfold Preview.Kept at hp
    cases hl : p.last with
    | none =>
      rw [hl] at hp
      have hframe : 0 < p.gui.frame.length := h.1
      rw [hp] at hframe
      exact absurd hframe (Nat.lt_irrefl 0)
    | some f =>
      rw [hl] at hp
      exact ⟨f, rfl, hp⟩
  obtain ⟨f, hf, hg⟩ := hlast
  obtain ⟨b, hb, hpaints⟩ := paintPreview_drawn hg.sound h
  refine ⟨b, f, hb, hf, hpaints.copies hg, hg, hf, ?_, ?_⟩
  · simp only [Preview.Kept, Preview.step, hf]
    exact hpaints.holding hg
  · unfold PreviewSizes.painted
    rw [if_pos h]
    exact hpaints.sizes

/-- One that draws none. -/
theorem Preview.step_notDrawn (data : Nat → Nat → UInt8) {alloc : Bool} (h : ¬ p.gui.sizes.Draws alloc) :
    p.step data (.paint alloc) = (p, none) ∧ p.gui.sizes.painted alloc = p.gui.sizes := by
  constructor
  · simp only [Preview.step, paintPreview_refused h]
  · exact if_neg h

end Steps

/-! ## Rows -/

/-- The place of a row of packed pixels is the place where GDI looks for it. -/
theorem dibStride_eq_iff (w : Nat) : dibStride w = 3 * w ↔ w % 4 = 0 := by
  unfold dibStride
  omega

/-- The second row of two is looked for inside the frame. -/
theorem dibStride_lt {w : Nat} (hw : 0 < w) : dibStride w < 6 * w := by
  unfold dibStride
  by_cases h1 : w = 1
  · rw [h1]
    decide
  · omega

/-- The bytes of a pixel are bytes of the frame. -/
theorem pixel_lt {w h x y c : Nat} (hx : x < w) (hy : y < h) (hc : c < 3) :
    3 * (y * w + x) + c < w * h * 3 := by
  have hrow : (y + 1) * w ≤ h * w := Nat.mul_le_mul_right w hy
  rw [Nat.succ_mul, Nat.mul_comm h w] at hrow
  omega

/-- With aligned rows, a copy of the frame is what GDI shows. -/
theorem Bitmap.Copies.shows {b : Bitmap} {f : StoredFrame} (h : b.Copies f)
    (hpos : 0 < f.width ∧ 0 < f.height) (ha : RowsAligned f.width f.height) : b.Shows f where
  width := h.width
  height := h.height
  pixel x y c hx hy hc := by
    rw [h.width] at hx ⊢
    rw [h.height] at hy
    have hplace : y * dibStride f.width.toInt.toNat + 3 * x + c =
        3 * (y * f.width.toInt.toNat + x) + c := by
      rcases ha with hw | hh
      · have hw0 : 0 < f.width.toInt := Int32.lt_iff_toInt_lt.mp hpos.1
        rw [(dibStride_eq_iff _).mpr (by omega)]
        ring
      · rw [hh] at hy
        have hy0 : y = 0 := Nat.lt_one_iff.mp hy
        rw [hy0]
        omega
    rw [hplace]
    exact h.bytes _ (pixel_lt hx hy hc)

/-- A frame with one byte that differs from the others, at the start of its second row. -/
def marked (width : Nat) (k : Nat) : UInt8 := if k = 3 * width then 1 else 0

/-- Without, GDI looks for the second row behind the place where it begins. -/
theorem Bitmap.Copies.not_shows {b : Bitmap} {f : StoredFrame} (h : b.Copies f)
    (hpos : 0 < f.width ∧ 0 < f.height) (ha : ¬ RowsAligned f.width f.height)
    (hdata : f.data = marked f.width.toInt.toNat) : ¬ b.Shows f := by
  intro hshows
  have hw0 : 0 < f.width.toInt := Int32.lt_iff_toInt_lt.mp hpos.1
  have hh0 : 0 < f.height.toInt := Int32.lt_iff_toInt_lt.mp hpos.2
  have hwidth : f.width.toInt % 4 ≠ 0 := fun hw => ha (.inl hw)
  have hheight : f.height.toInt ≠ 1 := fun hh => ha (.inr (Int32.toInt_inj.mp hh))
  have hstride : dibStride f.width.toInt.toNat ≠ 3 * f.width.toInt.toNat := by
    rw [Ne, dibStride_eq_iff]
    omega
  have hrows : f.width.toInt.toNat * 2 ≤ f.width.toInt.toNat * f.height.toInt.toNat :=
    Nat.mul_le_mul_left _ (by omega)
  have hinside : dibStride f.width.toInt.toNat < frameBytes f.width f.height := by
    have hlt : dibStride f.width.toInt.toNat < 6 * f.width.toInt.toNat := dibStride_lt (by omega)
    unfold frameBytes
    omega
  have hread := h.bytes _ hinside
  have hshown := hshows.pixel 0 1 0 (by rw [h.width]; omega) (by rw [h.height]; omega) (by omega)
  rw [h.width, Nat.one_mul, Nat.one_mul, Nat.mul_zero, Nat.add_zero, Nat.add_zero, hread,
    hdata] at hshown
  have hzero : marked f.width.toInt.toNat (dibStride f.width.toInt.toNat) = 0 := if_neg hstride
  have hone : marked f.width.toInt.toNat (3 * f.width.toInt.toNat) = 1 := if_pos rfl
  rw [hzero, Nat.add_zero, hone] at hshown
  exact absurd hshown (by decide)

/-! ## The preview -/

/-- What is drawn is a copy of the last frame stored, whatever the sizes were before. -/
theorem pictures_copies {data : Nat → Nat → UInt8} {p : Preview} (hp : p.Kept data)
    (cs : List PreviewCall) : ∀ s ∈ pictures data p cs, ∃ f, s.2 = some f ∧ s.1.Copies f ∧
      (0 < f.width ∧ 0 < f.height) ∧ ∃ n, f.data = data n := by
  induction cs generalizing p with
  | nil =>
    intro s hs
    cases hs
  | cons c cs ih =>
    intro s hs
    rw [pictures, List.mem_append] at hs
    cases c with
    | setFrame width height alloc =>
      obtain ⟨hkept, -⟩ := hp.setFrame width height alloc
      exact ih hkept s (hs.resolve_left (by simp [Preview.step]))
    | paint alloc =>
      by_cases hd : p.gui.sizes.Draws alloc
      · obtain ⟨b, f, hb, -, hcopies, hg, hlast, hkept, -⟩ := hp.drawn hd
        rcases hs with hs | hs
        · rw [hb, hlast] at hs
          have hs' : s = (b, some f) := by simpa using hs
          rw [hs']
          exact ⟨f, rfl, hcopies, hg.positive, hg.source⟩
        · exact ih hkept s hs
      · rw [(Preview.step_notDrawn data hd).1] at hs
        exact ih hp s (hs.resolve_left (by simp))

/-- The sizes of the pictures do not depend on the pixels. -/
theorem pictures_sizes {data : Nat → Nat → UInt8} {p : Preview} (hp : p.Kept data)
    (cs : List PreviewCall) :
    (pictures data p cs).map (fun s => (s.1.width, s.1.height)) =
      paintedSizes p.gui.sizes cs := by
  induction cs generalizing p with
  | nil => rfl
  | cons c cs ih =>
    cases c with
    | setFrame width height alloc =>
      obtain ⟨hkept, hsizes⟩ := hp.setFrame width height alloc
      rw [paintedSizes, ← hsizes, ← ih hkept]
      rfl
    | paint alloc =>
      rw [paintedSizes, pictures]
      by_cases hd : p.gui.sizes.Draws alloc
      · obtain ⟨b, f, hb, -, hcopies, hg, -, hkept, hsizes⟩ := hp.drawn hd
        have hwidth : b.width = p.gui.sizes.width := hcopies.width.trans hg.size.1.symm
        have hheight : b.height = p.gui.sizes.height := hcopies.height.trans hg.size.2.symm
        rw [if_pos hd, ← hsizes, ← ih hkept, hb, ← hwidth, ← hheight]
        rfl
      · obtain ⟨hstep, hsizes⟩ := Preview.step_notDrawn data hd
        rw [if_neg hd, hsizes, ← ih hp, hstep]
        rfl

theorem kept_new (data : Nat → Nat → UInt8) : Preview.new.Kept data := rfl

/-- **The preview.** It shows the last frame, whatever the pixels are, exactly for the
sequences of calls in which every frame that is painted has aligned rows. -/
theorem preview_iff (cs : List PreviewCall) : (∀ data, ShowsLast data cs) ↔ Aligned cs := by
  constructor
  · intro h d hd
    by_contra hrows
    have hmarked := pictures_sizes (kept_new fun _ => marked d.1.toInt.toNat) cs
    have hd' : d ∈ paintedSizes Preview.new.gui.sizes cs := hd
    rw [← hmarked, List.mem_map] at hd'
    obtain ⟨s, hs, rfl⟩ := hd'
    obtain ⟨f, hf, hcopies, hpos, n, hdata⟩ := pictures_copies (kept_new _) cs s hs
    obtain ⟨f', hf', hshows⟩ := h _ s hs
    have hff : f' = f := Option.some.inj (hf'.symm.trans hf)
    rw [hcopies.width, hcopies.height] at hrows
    rw [hcopies.width] at hdata
    exact hcopies.not_shows hpos hrows hdata (hff ▸ hshows)
  · intro h data s hs
    obtain ⟨f, hf, hcopies, hpos, -⟩ := pictures_copies (kept_new data) cs s hs
    have hmem : (s.1.width, s.1.height) ∈ paintedSizes Preview.new.gui.sizes cs := by
      rw [← pictures_sizes (kept_new data) cs]
      exact List.mem_map_of_mem hs
    have hrows : RowsAligned s.1.width s.1.height := h _ hmem
    rw [hcopies.width, hcopies.height] at hrows
    exact ⟨f, hf, hcopies.shows hpos hrows⟩

/-- A frame of two pixels by two, painted once. -/
def twoByTwo : List PreviewCall := [.setFrame 2 2 true, .paint true]

/-- GDI takes the second row from the byte 8, where it begins at the byte 6. -/
theorem not_shown_twoByTwo : ¬ ShowsLast (fun _ => marked 2) twoByTwo := by
  intro h
  have hpictures : pictures (fun _ => marked 2) .new twoByTwo =
      [(⟨(List.range 12).map (marked 2), 2, 2⟩, some ⟨2, 2, marked 2⟩)] := rfl
  obtain ⟨f, hf, hshows⟩ := h _ (by rw [hpictures]; exact List.mem_singleton_self _)
  cases hf
  have hpixel := hshows.pixel 0 1 0 (by decide) (by decide) (by decide)
  exact absurd hpixel (by decide)

end DroidcamWhip
