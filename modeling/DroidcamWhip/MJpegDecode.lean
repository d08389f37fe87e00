import DroidcamWhip.DecodeVideo
import DroidcamWhip.Lib.Latch
import Mathlib.Data.List.Basic

/-!
`MJpegDecoder::decode_video` over TurboJPEG, which takes the planes, the size and
the format of the frame from the first header and keeps them.
-/

namespace DroidcamWhip

/-! ## TurboJPEG -/

/-- Size and chroma subsampling of a JPEG, as TurboJPEG gives them. -/
@[ext] structure TjImage where
  width : Int32
  height : Int32
  subsamp : Int32
  deriving DecidableEq

/-- `TJSAMP_420`. -/
def tjSamp420 : Int32 := 2

/-- The planes that TurboJPEG writes for a subsampling; only 4:2:2 and 4:2:0
have a name in the source. -/
def tjPixelFormat (subsamp : Int32) : AvPixelFormat :=
  if subsamp = 1 then .yuvj422p
  else if subsamp = tjSamp420 then .yuvj420p
  else .other subsamp.toUInt32.toNat

def TjImage.shape (w : TjImage) : ObsFormat × UInt32 × UInt32 :=
  (convertPixelFormat (tjPixelFormat w.subsamp), w.width.toUInt32, w.height.toUInt32)

/-- Only 4:2:0 becomes `I420`, so the shape tells pictures from a header apart. -/
theorem TjImage.shape_iff {h : TjImage} (h420 : h.subsamp = tjSamp420) (w : TjImage) :
    w.shape = (.i420, h.width.toUInt32, h.height.toUInt32) ↔ w = h := by
  constructor
  · intro heq
    have hfmt : convertPixelFormat (tjPixelFormat w.subsamp) = .i420 := congrArg Prod.fst heq
    have hw : w.width = h.width := congrArg (fun t => t.2.1.toInt32) heq
    have hh : w.height = h.height := congrArg (fun t => t.2.2.toInt32) heq
    have hsub : w.subsamp = h.subsamp := by
      unfold tjPixelFormat at hfmt
      split at hfmt
      · cases hfmt
      · split at hfmt
        · exact h420 ▸ ‹_›
        · cases hfmt
    exact TjImage.ext hw hh hsub
  · rintro rfl
    rw [shape, h420]
    rfl

/-- Answers of TurboJPEG to one `decode_video`: of `tjDecompressHeader3`, unless
it fails, the block that `brealloc` gives, and what `tjDecompressToYUVPlanes` has
written, unless it fails: a JPEG is scaled to fit the size that is asked for, so
the picture may be smaller. -/
structure TjAnswer where
  header : Option TjImage
  block : UInt64
  written : Option TjImage

/-! ## `decode_video` -/

namespace ObsFrame

def setPlane (f : ObsFrame) (i : Fin 8) (addr : UInt64) (stride : Int32) : ObsFrame :=
  { f with
    data := Function.update f.data i addr
    linesize := Function.update f.linesize i stride.toUInt32 }

/-- The planes, the size and the format that `decode_video` takes from a header. -/
def setHeader (f : ObsFrame) (h : TjImage) (block : UInt64) : ObsFrame :=
  let ySize := h.width * h.height
  let uvSize := ySize / 4
  let u := block + ySize.toInt64.toUInt64
  let v := u + uvSize.toInt64.toUInt64
  let f := f.setPlane 0 block h.width
  let f := f.setPlane 1 u (h.width >>> 1)
  let f := f.setPlane 2 v (h.width >>> 1)
  let f := f.setPlane 3 0 0
  { f with width := h.width.toUInt32, height := h.height.toUInt32, format := .i420 }

def setFullRange (f : ObsFrame) : ObsFrame :=
  if f.range ≠ .full then
    { f with color := videoFormatGetParameters .default .full, range := .full }
  else f

/-- What is set for every picture. -/
def finish (f : ObsFrame) : ObsFrame := { f.setFullRange with flip := false }

theorem finish_shape (f : ObsFrame) : f.finish.shape = f.shape := by
  unfold finish setFullRange
  split <;> rfl

theorem setHeader_shape (f : ObsFrame) (h : TjImage) (block : UInt64) :
    (f.setHeader h block).shape = (.i420, h.width.toUInt32, h.height.toUInt32) := rfl

end ObsFrame

structure MJpegDecoder where
  frameBuf : UInt64
  mSubsamp : Int32

namespace MJpegDecoder

/-- `new MJpegDecoder()`. -/
def new : MJpegDecoder := ⟨0, 0⟩

/-- The picture that TurboJPEG has written into the planes it was given. -/
def picture (f : ObsFrame) (packet : Nat) (w : TjImage) : Picture where
  packet
  format := tjPixelFormat w.subsamp
  width := w.width.toUInt32
  height := w.height.toUInt32
  data := f.data
  linesize := f.linesize

/-- `decode_video` from the test of the range on. -/
def decompress (f : ObsFrame) (packet : Nat) (a : TjAnswer) : DecodeResult :=
  match a.written with
  | none => ⟨false, f.setFullRange, none⟩
  | some w => ⟨true, f.finish, some (picture f.finish packet w)⟩

def decodeVideo (d : MJpegDecoder) (f : ObsFrame) (packet : Nat) (a : TjAnswer) :
    MJpegDecoder × DecodeResult :=
  if d.mSubsamp = 0 then
    match a.header with
    | none => (d, ⟨false, f, none⟩)
    | some h =>
        if h.subsamp ≠ tjSamp420 then (d, ⟨false, f, none⟩)
        else (⟨a.block, h.subsamp⟩, decompress (f.setHeader h a.block) packet a)
  else (d, decompress f packet a)

instance : VideoDecoder MJpegDecoder TjAnswer where
  allows _ _ _ := true
  decodeVideo := decodeVideo

/-! ## The frame over a sequence of calls -/

open VideoDecoder (outputs)

/-- The pictures that TurboJPEG writes before it fails. -/
def delivered : List (Call TjAnswer) → List TjImage
  | [] => []
  | c :: cs =>
      match c.answer.written with
      | none => []
      | some w => w :: delivered cs

theorem outputs_decompress {d e : MJpegDecoder} {f g : ObsFrame} {k : Nat} {c : Call TjAnswer}
    (cs : List (Call TjAnswer)) (h : d.decodeVideo f k c.answer = (e, decompress g k c.answer)) :
    outputs d f k (c :: cs) =
      match c.answer.written with
      | none => []
      | some w =>
          let g := g.finish.stamp c.pts
          ⟨g, c.pts, picture g k w⟩ :: outputs e g (k + 1) cs := by
  have hv : VideoDecoder.decodeVideo d f k c.answer = (e, decompress g k c.answer) := h
  simp only [outputs, hv, decompress]
  cases c.answer.written <;> rfl

/-- Once a header has been read, no other is looked at. -/
theorem outputs_ready {d : MJpegDecoder} (hm : d.mSubsamp ≠ 0) (f : ObsFrame) (k : Nat)
    (c : Call TjAnswer) (cs : List (Call TjAnswer)) :
    outputs d f k (c :: cs) =
      match c.answer.written with
      | none => []
      | some w =>
          let g := f.finish.stamp c.pts
          ⟨g, c.pts, picture g k w⟩ :: outputs d g (k + 1) cs :=
  outputs_decompress cs (if_neg hm)

theorem outputs_header {f : ObsFrame} {k : Nat} {c : Call TjAnswer} {h : TjImage}
    (cs : List (Call TjAnswer)) (hh : c.answer.header = some h) (h420 : h.subsamp = tjSamp420) :
    outputs new f k (c :: cs) =
      outputs (MJpegDecoder.mk c.answer.block tjSamp420) (f.setHeader h c.answer.block) k
        (c :: cs) := by
  have hd : new.decodeVideo f k c.answer =
      (⟨c.answer.block, tjSamp420⟩,
        decompress (f.setHeader h c.answer.block) k c.answer) := by
    simp [decodeVideo, new, hh, h420]
  rw [outputs_decompress cs hd, outputs_ready (by decide : tjSamp420 ≠ 0)]

theorem outputs_noHeader {f : ObsFrame} {k : Nat} {c : Call TjAnswer} (cs : List (Call TjAnswer))
    (hh : ∀ h, c.answer.header = some h → h.subsamp ≠ tjSamp420) :
    outputs new f k (c :: cs) = [] := by
  have hd : VideoDecoder.decodeVideo new f k c.answer = (new, ⟨false, f, none⟩) := by
    cases h : c.answer.header with
    | none => simp [VideoDecoder.decodeVideo, decodeVideo, new, h]
    | some h' => simp [VideoDecoder.decodeVideo, decodeVideo, new, h, hh h' h]
  simp only [outputs, hd]
  rfl

theorem picture_shape (f : ObsFrame) (k : Nat) (w : TjImage) :
    (picture f k w).shape = w.shape := rfl

theorem describes_iff {f : ObsFrame} (hf : f.format ≠ .none) (k : Nat) (w : TjImage) :
    Describes f (picture f k w) ↔ f.shape = w.shape := by
  constructor
  · intro h
    exact Prod.ext h.format (Prod.ext h.width h.height)
  · intro h
    have hfmt : f.format = (picture f k w).obsFormat := congrArg Prod.fst h
    have hsize := congrArg Prod.snd h
    exact ⟨hfmt, framePixFmt_obsFormat hf hfmt, congrArg Prod.fst hsize,
      congrArg Prod.snd hsize, rfl, rfl⟩

/-- From a frame with planes, `decode_video` shows its format and size with every
picture. -/
theorem outputs_latched {d : MJpegDecoder} (hm : d.mSubsamp ≠ 0) (f : ObsFrame) (k : Nat)
    (cs : List (Call TjAnswer)) :
    (outputs d f k cs).map (fun x => (x.frame.shape, x.picture.shape)) =
      Latch.run id (some f.shape) ((delivered cs).map TjImage.shape) := by
  induction cs generalizing f k with
  | nil => rfl
  | cons c cs ih =>
    rw [outputs_ready hm, delivered]
    cases c.answer.written with
    | none => rfl
    | some w =>
      have hkeep : (f.finish.stamp c.pts).shape = f.shape := f.finish_shape
      simp only [List.map_cons, Latch.run, picture_shape, ih, hkeep]

theorem outputs_describe {d : MJpegDecoder} (hm : d.mSubsamp ≠ 0) {f : ObsFrame}
    (hf : f.format ≠ .none) (k : Nat) (cs : List (Call TjAnswer)) :
    ∀ x ∈ outputs d f k cs, Describes x.frame x.picture ↔ x.frame.shape = x.picture.shape := by
  induction cs generalizing f k with
  | nil => simp [outputs]
  | cons c cs ih =>
    rw [outputs_ready hm]
    cases c.answer.written with
    | none => simp
    | some w =>
      have hkeep : (f.finish.stamp c.pts).format ≠ .none := by
        rw [show (f.finish.stamp c.pts).format = f.format from congrArg Prod.fst f.finish_shape]
        exact hf
      exact List.forall_mem_cons.mpr ⟨describes_iff hkeep k w, ih hkeep (k + 1)⟩

/-- The pictures that follow a header are described if they have its size and
subsampling. -/
theorem outputs_described {d : MJpegDecoder} (hm : d.mSubsamp ≠ 0) {f : ObsFrame}
    (hf : f.format ≠ .none) (k : Nat) (cs : List (Call TjAnswer)) :
    (∀ x ∈ outputs d f k cs, Describes x.frame x.picture) ↔
      ∀ w ∈ delivered cs, w.shape = f.shape := by
  have hmap : (∀ x ∈ outputs d f k cs, Describes x.frame x.picture) ↔
      ∀ y ∈ (outputs d f k cs).map (fun x => (x.frame.shape, x.picture.shape)), y.1 = y.2 := by
    rw [List.forall_mem_map]
    exact forall₂_congr (outputs_describe hm hf k cs)
  rw [hmap, outputs_latched hm]
  exact (Latch.run_some_iff id _ _).trans List.forall_mem_map

/-- The first JPEG has no readable header or is not 4:2:0, or every picture has
the size and the subsampling of that header. -/
def SteadyImage : List (Call TjAnswer) → Prop
  | [] => True
  | c :: cs =>
      ∀ h, c.answer.header = some h → h.subsamp = tjSamp420 → ∀ w ∈ delivered (c :: cs), w = h

/-- A new decoder describes every picture just when all are like the first header. -/
theorem described_iff (f : ObsFrame) (k : Nat) (cs : List (Call TjAnswer)) :
    (∀ x ∈ outputs new f k cs, Describes x.frame x.picture) ↔ SteadyImage cs := by
  cases cs with
  | nil => simp [outputs, SteadyImage]
  | cons c cs =>
    by_cases hh : ∃ h, c.answer.header = some h ∧ h.subsamp = tjSamp420
    · obtain ⟨h, hh, h420⟩ := hh
      have hformat : (f.setHeader h c.answer.block).format ≠ .none := by
        intro hnone
        cases hnone
      rw [outputs_header cs hh h420,
        outputs_described (by decide : tjSamp420 ≠ 0) hformat,
        ObsFrame.setHeader_shape]
      simp only [TjImage.shape_iff h420, SteadyImage, hh, Option.some.injEq]
      exact ⟨fun hall _ heq _ w hw => heq ▸ hall w hw, fun hall => hall h rfl h420⟩
    · have hno : ∀ h, c.answer.header = some h → h.subsamp ≠ tjSamp420 :=
        fun h hs h420 => hh ⟨h, hs, h420⟩
      rw [outputs_noHeader cs hno]
      exact ⟨fun _ h hs h420 => absurd h420 (hno h hs), fun _ => by simp⟩

end MJpegDecoder

end DroidcamWhip
