import Mathlib.Algebra.GroupWithZero.Nat
import Mathlib.Logic.Function.Basic

/-!
`obs_source_frame2`, the pictures that decoders put into it, and the pixel
formats on both sides.
-/

namespace DroidcamWhip

/-- `AVPixelFormat`, as far as the source names its members. -/
inductive AvPixelFormat where
  | none
  | yuv420p
  | yuvj420p
  | nv12
  | yuyv422
  | uyvy422
  | yuv422p
  | yuvj422p
  | yuv420p10le
  | p010le
  | yuv422p10le
  | other (id : Nat)
  deriving DecidableEq, Repr

/-- `enum video_format`. -/
inductive ObsFormat where
  | none
  | i420
  | nv12
  | yuy2
  | uyvy
  | i422
  | i010
  | p010
  | i210
  deriving DecidableEq, Repr

def convertPixelFormat : AvPixelFormat → ObsFormat
  | .yuv420p | .yuvj420p => .i420
  | .nv12 => .nv12
  | .yuyv422 => .yuy2
  | .uyvy422 => .uyvy
  | .yuv422p | .yuvj422p => .i422
  | .yuv420p10le => .i010
  | .p010le => .p010
  | .yuv422p10le => .i210
  | _ => .none

/-- The format in which `frame_to_bgr` reads the planes. -/
def framePixFmt : ObsFormat → AvPixelFormat
  | .i420 => .yuv420p
  | .nv12 => .nv12
  | .yuy2 => .yuyv422
  | .uyvy => .uyvy422
  | .i422 => .yuv422p
  | .i010 => .yuv420p10le
  | .p010 => .p010le
  | .i210 => .yuv422p10le
  | .none => .none

/-- The plane layout of a format; the `J` formats differ in range only. -/
def AvPixelFormat.layout : AvPixelFormat → AvPixelFormat
  | .yuvj420p => .yuv420p
  | .yuvj422p => .yuv422p
  | f => f

/-- A converted format is read back as the layout it came from. -/
theorem framePixFmt_convert {f : AvPixelFormat} (h : convertPixelFormat f ≠ .none) :
    framePixFmt (convertPixelFormat f) = f.layout := by
  cases f <;> first | rfl | exact absurd rfl h

inductive RangeType where
  | default
  | partialRange
  | full
  deriving DecidableEq

inductive Colorspace where
  | default
  | cs601
  | cs709
  | srgb
  | cs2100Pq
  | cs2100Hlg
  deriving DecidableEq

inductive Trc where
  | default
  | srgb
  | pq
  | hlg
  deriving DecidableEq

inductive AvColorSpace where
  | bt709
  | fcc
  | bt470bg
  | smpte170m
  | smpte240m
  | bt2020Ncl
  | other (id : Nat)
  deriving DecidableEq

inductive AvColorTrc where
  | bt709
  | gamma22
  | gamma28
  | smpte170m
  | smpte240m
  | iec61966
  | smpte2084
  | aribStdB67
  | other (id : Nat)
  deriving DecidableEq

def convertColorSpace (s : AvColorSpace) (trc : AvColorTrc) (bt2020 : Bool) : Colorspace :=
  match s with
  | .bt709 => if trc = .iec61966 then .srgb else .cs709
  | .fcc | .bt470bg | .smpte170m | .smpte240m => .cs601
  | .bt2020Ncl => if trc = .aribStdB67 then .cs2100Hlg else .cs2100Pq
  | .other _ =>
      if bt2020 then (if trc = .aribStdB67 then .cs2100Hlg else .cs2100Pq) else .default

def convertTrc : AvColorTrc → Trc
  | .bt709 | .gamma22 | .gamma28 | .smpte170m | .smpte240m | .iec61966 => .srgb
  | .smpte2084 => .pq
  | .aribStdB67 => .hlg
  | .other _ => .default

/-- `color_matrix`, `color_range_min` and `color_range_max`. -/
structure ColorParams where
  matrix : Fin 16 → Rat
  rangeMin : Fin 3 → Rat
  rangeMax : Fin 3 → Rat

/-- `video_format_get_parameters`, which `plugin.h` defines without regard to the
colour space. -/
def videoFormatGetParameters (_cs : Colorspace) (range : RangeType) : ColorParams where
  matrix i := if i = 0 ∨ i = 5 ∨ i = 10 ∨ i = 15 then 1 else 0
  rangeMin _ := 0
  rangeMax _ := if range = .full then 1 else 92 / 100

/-- A frame has planes. -/
instance neZeroPlanes : NeZero 8 := ⟨by decide⟩

/-- `obs_source_frame2`; planes are addresses. -/
structure ObsFrame where
  data : Fin 8 → UInt64
  linesize : Fin 8 → UInt32
  width : UInt32
  height : UInt32
  timestamp : UInt64
  format : ObsFormat
  range : RangeType
  trc : Trc
  flip : Bool
  color : ColorParams

/-- A frame before its first use. -/
def ObsFrame.blank : ObsFrame where
  data _ := 0
  linesize _ := 0
  width := 0
  height := 0
  timestamp := 0
  format := .none
  range := .default
  trc := .default
  flip := false
  color := videoFormatGetParameters .default .default

/-- What `recv_video_frame` resets when it initialises a decoder. -/
def ObsFrame.reset (f : ObsFrame) : ObsFrame := { f with format := .none, range := .default }

/-- What `video_decode_thread` sets before it pushes the frame. -/
def ObsFrame.stamp (f : ObsFrame) (pts : UInt64) : ObsFrame := { f with timestamp := pts * 1000 }

/-- A decoded picture: the number of the packet it comes from, the format and
size it has, and where its planes are. -/
structure Picture where
  packet : Nat
  format : AvPixelFormat
  width : UInt32
  height : UInt32
  data : Fin 8 → UInt64
  linesize : Fin 8 → UInt32

def Picture.obsFormat (p : Picture) : ObsFormat := convertPixelFormat p.format

/-! Format and size, which a decoder may leave as they are. -/

def ObsFrame.shape (f : ObsFrame) : ObsFormat × UInt32 × UInt32 := (f.format, f.width, f.height)

def Picture.shape (p : Picture) : ObsFormat × UInt32 × UInt32 := (p.obsFormat, p.width, p.height)

def ObsFrame.extent (f : ObsFrame) : UInt32 × UInt32 := (f.width, f.height)

def Picture.extent (p : Picture) : UInt32 × UInt32 := (p.width, p.height)

/-- A frame descriptor that is right for a picture, so that `frame_to_bgr` reads
the planes in the layout they have. -/
structure Describes (f : ObsFrame) (p : Picture) : Prop where
  format : f.format = p.obsFormat
  planes : framePixFmt f.format = p.format.layout
  width : f.width = p.width
  height : f.height = p.height
  data : f.data = p.data
  linesize : f.linesize = p.linesize

/-- A frame with the right format makes `frame_to_bgr` read the right layout. -/
theorem framePixFmt_obsFormat {f : ObsFrame} {p : Picture} (hf : f.format ≠ .none)
    (h : f.format = p.obsFormat) : framePixFmt f.format = p.format.layout := by
  rw [h] at hf ⊢
  exact framePixFmt_convert hf

theorem describes_stamp {f : ObsFrame} {p : Picture} (pts : UInt64) :
    Describes (f.stamp pts) p ↔ Describes f p :=
  ⟨fun h => ⟨h.format, h.planes, h.width, h.height, h.data, h.linesize⟩,
    fun h => ⟨h.format, h.planes, h.width, h.height, h.data, h.linesize⟩⟩

end DroidcamWhip
