import DroidcamWhip.DecodeVideo
import DroidcamWhip.Lib.Latch
import Mathlib.Tactic.Common

/-!
`FFMpegDecoder::decode_video` over libavcodec: a codec that buffers, the members
of the frame that are set for every picture or only once, and the frame that
hardware pictures are copied into, which keeps its size.
-/

namespace DroidcamWhip

/-! ## libavcodec -/

/-- Return value of `avcodec_send_packet`: 0, `AVERROR(EAGAIN)` or another error. -/
inductive Ret where
  | ok
  | again
  | error
  deriving DecidableEq

/-- An `AVFrame`; `packet` is the number of the packet it was decoded from. -/
structure AvFrame where
  packet : Nat
  format : AvPixelFormat
  width : Int32
  height : Int32
  data : Fin 8 → UInt64
  linesize : Fin 8 → Int32
  fullRange : Bool
  colorspace : AvColorSpace
  trc : AvColorTrc
  bt2020 : Bool

def AvFrame.range (p : AvFrame) : RangeType := if p.fullRange then .full else .partialRange

def AvFrame.picture (p : AvFrame) : Picture where
  packet := p.packet
  format := p.format
  width := p.width.toUInt32
  height := p.height.toUInt32
  data := p.data
  linesize i := (p.linesize i).toUInt32

/-- A frame, `AVERROR(EAGAIN)` or another error. -/
inductive Received where
  | frame (p : AvFrame)
  | again
  | error

/-- An open `AVCodecContext`: the packets it has taken and the frames that wait to
be received. -/
structure AvCodec where
  accepted : List Nat
  ready : List AvFrame

/-- The planes that `av_hwframe_transfer_data` gives a clean frame, in a format that
the surface can be copied to. -/
structure AvPlanes where
  format : AvPixelFormat
  data : Fin 8 → UInt64
  linesize : Fin 8 → Int32

/-- What libavcodec does in one `decode_video`: the answer to the packet, the
frames that become ready when it is taken, whether receiving fails, the planes
for a clean frame, unless `av_hwframe_transfer_data` fails, and whether
`av_frame_copy_props` succeeds. -/
structure CodecAnswer where
  send : Ret
  yields : List AvFrame
  receiveFails : Bool
  transfer : Option AvPlanes
  copied : Bool

namespace AvCodec

/-- `avcodec_open2`. -/
def opened : AvCodec := ⟨[], []⟩

/-- The contract: a packet is refused only while frames wait, and frames come from
packets that have been taken. -/
def allows (c : AvCodec) (packet : Nat) (a : CodecAnswer) : Bool :=
  (a.send ≠ .again || !c.ready.isEmpty) &&
    a.yields.all fun p => p.packet = packet || p.packet ∈ c.accepted

def sendPacket (c : AvCodec) (packet : Nat) (a : CodecAnswer) : Ret × AvCodec :=
  match a.send with
  | .ok => (.ok, ⟨c.accepted ++ [packet], c.ready ++ a.yields⟩)
  | r => (r, c)

def receiveFrame (c : AvCodec) (a : CodecAnswer) : Received × AvCodec :=
  if a.receiveFails then (.error, c)
  else
    match c.ready with
    | [] => (.again, c)
    | p :: ps => (.frame p, { c with ready := ps })

/-- The frame that is received in a call, if any. -/
def handsOut (c : AvCodec) (a : CodecAnswer) : Option AvFrame :=
  if a.send = .ok ∧ a.receiveFails = false then (c.ready ++ a.yields).head? else none

end AvCodec

/-! ## `decode_video` -/

/-! The members of the frame that `decode_video` sets, in its order. -/

namespace ObsFrame

def setPlanes (f : ObsFrame) (p : AvFrame) : ObsFrame :=
  { f with data := p.data, linesize := fun i => (p.linesize i).toUInt32 }

/-- Only a frame that has no format yet gets one. -/
def setFormat (f : ObsFrame) (p : AvFrame) : ObsFrame :=
  if f.format = .none then
    { f with format := convertPixelFormat p.format, trc := convertTrc p.trc }
  else f

def setRange (f : ObsFrame) (p : AvFrame) : ObsFrame :=
  if p.range ≠ f.range then
    { f with
      color := videoFormatGetParameters (convertColorSpace p.colorspace p.trc p.bt2020) p.range
      range := p.range }
  else f

def setSize (f : ObsFrame) (p : AvFrame) : ObsFrame :=
  { f with width := p.width.toUInt32, height := p.height.toUInt32, flip := false }

theorem setFormat_frame (f : ObsFrame) (p : AvFrame) :
    (f.setFormat p).data = f.data ∧ (f.setFormat p).linesize = f.linesize := by
  unfold setFormat
  split <;> exact ⟨rfl, rfl⟩

theorem setRange_frame (f : ObsFrame) (p : AvFrame) :
    (f.setRange p).format = f.format ∧ (f.setRange p).data = f.data ∧
      (f.setRange p).linesize = f.linesize := by
  unfold setRange
  split <;> exact ⟨rfl, rfl, rfl⟩

end ObsFrame

/-- A picture that libavcodec has delivered. `hardware` ones come out of `frame_hw`
in `hw_pix_fmt`. -/
structure Decoded where
  picture : Picture
  hardware : Bool

/-- What `decode_video` has behind `GOT_FRAME`, `out_frame` and the picture; or
`AVERROR(EAGAIN)`; or another error. -/
inductive Delivered where
  | frame (out : AvFrame) (x : Decoded)
  | again
  | error

/-- `frame` is the member of that name as hardware pictures use it: clean, or with
the planes, the format and the size of the first of them. Without `hw` it is
`avcodec_receive_frame`'s, which cleans it each time. -/
structure FFMpegDecoder where
  hw : Bool
  hwPixFmt : AvPixelFormat
  codec : AvCodec
  frame : Option AvFrame

/-- `av_hwframe_transfer_data`: a clean frame gets planes and the size of the
hardware frame; one that has planes keeps them, with its format and size. -/
def AvFrame.transferData (p : AvFrame) (frame : Option AvFrame) (planes : AvPlanes) : AvFrame :=
  match frame with
  | none => { p with format := planes.format, data := planes.data, linesize := planes.linesize }
  | some g => g

/-- `av_frame_copy_props`, which copies neither format nor size. -/
def AvFrame.copyProps (g p : AvFrame) : AvFrame :=
  { g with
    packet := p.packet
    fullRange := p.fullRange
    colorspace := p.colorspace
    trc := p.trc
    bt2020 := p.bt2020 }

namespace FFMpegDecoder

/-- A decoder after `init`. -/
def opened (hw : Bool) (hwPixFmt : AvPixelFormat) : FFMpegDecoder := ⟨hw, hwPixFmt, .opened, none⟩

/-- `decode_video` from `GOT_FRAME` to the plane copies. A hardware picture has the
size of `frame_hw` and the planes that it has been copied into. -/
def outFrame (d : FFMpegDecoder) (a : CodecAnswer) (p : AvFrame) : FFMpegDecoder × Delivered :=
  if d.hw ∧ p.format = d.hwPixFmt then
    match a.transfer with
    | none => (d, .error)
    | some planes =>
        let g := p.transferData d.frame planes
        if a.copied then
          let out := g.copyProps p
          ({ d with frame := some out },
            .frame out
              ⟨{ out.picture with width := p.width.toUInt32, height := p.height.toUInt32 }, true⟩)
        else ({ d with frame := some g }, .error)
  else (d, .frame p ⟨p.picture, false⟩)

/-- `decode_video` up to the plane copies: one send and, if the packet is taken,
one receive. -/
def deliver (d : FFMpegDecoder) (packet : Nat) (a : CodecAnswer) : FFMpegDecoder × Delivered :=
  match d.codec.sendPacket packet a with
  | (.ok, c) =>
      match c.receiveFrame a with
      | (.frame p, c) => outFrame { d with codec := c } a p
      | (.again, c) => ({ d with codec := c }, .again)
      | (.error, c) => ({ d with codec := c }, .error)
  | (.again, c) => ({ d with codec := c }, .again)
  | (.error, c) => ({ d with codec := c }, .error)

/-- `decode_video` from the plane copies on. -/
def describe (f : ObsFrame) (p : AvFrame) (x : Picture) : DecodeResult :=
  let f := f.setPlanes p
  if f.format = .none ∧ convertPixelFormat p.format = .none then ⟨false, f, none⟩
  else ⟨true, ((f.setFormat p).setRange p).setSize p, some x⟩

/-- Of the two answers `AVERROR(EAGAIN)` none is a failure. -/
def decodeVideo (d : FFMpegDecoder) (f : ObsFrame) (packet : Nat) (a : CodecAnswer) :
    FFMpegDecoder × DecodeResult :=
  let r := d.deliver packet a
  (r.1,
    match r.2 with
    | .frame out x => describe f out x.picture
    | .again => ⟨true, f, none⟩
    | .error => ⟨false, f, none⟩)

instance : VideoDecoder FFMpegDecoder CodecAnswer where
  allows d packet a := d.codec.allows packet a
  decodeVideo := decodeVideo

/-! ## Packets in and out of the codec -/

theorem outFrame_codec (d : FFMpegDecoder) (a : CodecAnswer) (p : AvFrame) :
    (d.outFrame a p).1.codec = d.codec := by
  unfold outFrame
  split
  · split
    · rfl
    · dsimp only
      split <;> rfl
  · rfl

/-- What comes out of `frame` is not the codec's affair any more. -/
theorem outFrame_setCodec (d : FFMpegDecoder) (c : AvCodec) (a : CodecAnswer) (p : AvFrame) :
    outFrame { d with codec := c } a p =
      ({ (d.outFrame a p).1 with codec := c }, (d.outFrame a p).2) := by
  unfold outFrame
  dsimp only
  split
  · split
    · rfl
    · split <;> rfl
  · rfl

theorem deliver_accepted (d : FFMpegDecoder) (k : Nat) (a : CodecAnswer) :
    (d.deliver k a).1.codec.accepted =
      if a.send = .ok then d.codec.accepted ++ [k] else d.codec.accepted := by
  unfold deliver AvCodec.sendPacket AvCodec.receiveFrame
  cases a.send with
  | again | error => rfl
  | ok =>
    cases a.receiveFails with
    | true => rfl
    | false => cases d.codec.ready ++ a.yields <;> simp [outFrame_codec]

theorem deliver_handsOut (d : FFMpegDecoder) (k : Nat) (a : CodecAnswer) :
    (d.deliver k a).2 =
      match d.codec.handsOut a with
      | some p => (d.outFrame a p).2
      | none => if a.send = .error ∨ a.send = .ok ∧ a.receiveFails then .error else .again := by
  unfold deliver AvCodec.sendPacket AvCodec.receiveFrame AvCodec.handsOut
  cases a.send with
  | again | error => rfl
  | ok =>
    cases a.receiveFails with
    | true => rfl
    | false => cases d.codec.ready ++ a.yields <;> simp [outFrame_setCodec]

theorem deliver_ready {d : FFMpegDecoder} {a : CodecAnswer} (k : Nat)
    (hr : (d.deliver k a).2 ≠ .error) :
    (d.deliver k a).1.codec.ready =
      if a.send = .ok then (d.codec.ready ++ a.yields).tail else d.codec.ready := by
  unfold deliver AvCodec.sendPacket AvCodec.receiveFrame at hr ⊢
  cases hs : a.send with
  | again | error => rfl
  | ok =>
    cases hf : a.receiveFails with
    | true => simp [hs, hf] at hr
    | false => cases d.codec.ready ++ a.yields <;> simp [outFrame_codec]

/-- The planes and the format of a frame are those of a picture. -/
structure Carries (out : AvFrame) (x : Picture) : Prop where
  packet : x.packet = out.packet
  format : x.format = out.format
  data : x.data = out.data
  linesize : x.linesize = fun i => (out.linesize i).toUInt32

/-- A picture is where `out_frame` says, and belongs to the packet of the frame that
has been received. -/
theorem outFrame_carries {d e : FFMpegDecoder} {a : CodecAnswer} {p out : AvFrame} {x : Decoded}
    (h : d.outFrame a p = (e, .frame out x)) :
    Carries out x.picture ∧ x.picture.packet = p.packet := by
  unfold outFrame at h
  split at h
  · split at h
    · cases h
    · dsimp only at h
      split at h <;> cases h
      exact ⟨⟨rfl, rfl, rfl, rfl⟩, rfl⟩
  · cases h
    exact ⟨⟨rfl, rfl, rfl, rfl⟩, rfl⟩

theorem describe_unknown {f : ObsFrame} {p : AvFrame} (x : Picture)
    (h : f.format = .none ∧ convertPixelFormat p.format = .none) :
    describe f p x = ⟨false, f.setPlanes p, none⟩ := if_pos h

theorem describe_known {f : ObsFrame} {p : AvFrame} (x : Picture)
    (h : ¬ (f.format = .none ∧ convertPixelFormat p.format = .none)) :
    describe f p x = ⟨true, (((f.setPlanes p).setFormat p).setRange p).setSize p, some x⟩ :=
  if_neg h

theorem describe_pushed {f : ObsFrame} {p : AvFrame} {x : Picture} (pts : UInt64)
    (hok : (describe f p x).ok = true) :
    (describe f p x).pushed pts = [⟨(describe f p x).frame.stamp pts, pts, x⟩] := by
  by_cases h : f.format = .none ∧ convertPixelFormat p.format = .none
  · simp [describe_unknown x h] at hok
  · rw [describe_known x h]
    rfl

theorem decodeVideo_parts {d e : FFMpegDecoder} {f : ObsFrame} {k : Nat} {a : CodecAnswer}
    {r : DecodeResult} (h : VideoDecoder.decodeVideo d f k a = (e, r)) :
    e = (d.deliver k a).1 ∧ r = (d.decodeVideo f k a).2 :=
  ⟨(congrArg Prod.fst h).symm, (congrArg Prod.snd h).symm⟩

/-- A call that does not fail has passed its packet to the codec, which took it or
answered `AVERROR(EAGAIN)`. -/
theorem send_of_ok {d : FFMpegDecoder} {f : ObsFrame} {k : Nat} {a : CodecAnswer}
    (hok : (d.decodeVideo f k a).2.ok = true) : a.send ≠ .error := by
  intro he
  have hr : (d.deliver k a).2 = .error := by
    simp [deliver_handsOut, AvCodec.handsOut, he]
  simp [decodeVideo, hr] at hok

theorem accepted_subset (d : FFMpegDecoder) (k : Nat) (a : CodecAnswer) :
    d.codec.accepted ⊆ (d.deliver k a).1.codec.accepted := by
  rw [deliver_accepted]
  split
  · exact List.subset_append_left _ _
  · exact List.Subset.refl _

theorem accepted_of_ok {d : FFMpegDecoder} {f : ObsFrame} {k : Nat} {a : CodecAnswer}
    (hok : (d.decodeVideo f k a).2.ok = true) (hagain : a.send ≠ .again) :
    k ∈ (d.deliver k a).1.codec.accepted := by
  have hsend : a.send = .ok := by
    cases h : a.send with
    | ok => rfl
    | again => exact absurd h hagain
    | error => exact absurd h (send_of_ok hok)
  simp [deliver_accepted, hsend]

/-- What is pushed after a call belongs to the frame that the codec hands out. -/
theorem pushed_packet {d : FFMpegDecoder} {f : ObsFrame} {k : Nat} {a : CodecAnswer}
    {pts : UInt64} {x : Pushed} (hx : x ∈ (d.decodeVideo f k a).2.pushed pts) :
    x.pts = pts ∧ ∃ p, d.codec.handsOut a = some p ∧ x.picture.packet = p.packet := by
  have hr := deliver_handsOut d k a
  simp only [decodeVideo] at hx
  cases hd : (d.deliver k a).2 with
  | again => simp [hd, DecodeResult.pushed] at hx
  | error => simp [hd, DecodeResult.pushed] at hx
  | frame out y =>
    rw [hd] at hx hr
    have hok : (describe f out y.picture).ok = true := DecodeResult.ok_of_pushed hx
    obtain rfl := List.mem_singleton.mp (describe_pushed pts hok ▸ hx)
    refine ⟨rfl, ?_⟩
    split at hr
    · rename_i p hp
      exact ⟨p, hp, (outFrame_carries (Prod.ext rfl hr.symm)).2⟩
    · split at hr <;> cases hr

/-- The frame that the codec hands out is pushed, unless the call fails. -/
theorem pushed_of_handsOut {d : FFMpegDecoder} {f : ObsFrame} {k : Nat} {a : CodecAnswer}
    {p : AvFrame} (pts : UInt64) (hp : d.codec.handsOut a = some p)
    (hok : (d.decodeVideo f k a).2.ok = true) :
    ∃ x ∈ (d.decodeVideo f k a).2.pushed pts, x.pts = pts ∧ x.picture.packet = p.packet := by
  have hr := deliver_handsOut d k a
  simp only [hp] at hr
  simp only [decodeVideo] at hok ⊢
  cases hd : (d.deliver k a).2 with
  | again =>
    rw [hd] at hr
    unfold outFrame at hr
    split at hr
    · split at hr
      · cases hr
      · dsimp only at hr
        split at hr <;> cases hr
    · cases hr
  | error => simp [hd] at hok
  | frame out y =>
    rw [hd] at hr
    simp only [hd] at hok
    simp only [describe_pushed pts hok, List.mem_singleton, exists_eq_left, true_and]
    exact (outFrame_carries (Prod.ext rfl hr.symm)).2

/-! ## The frame after a picture -/

theorem describe_format {f : ObsFrame} {p : AvFrame} (x : Picture)
    (h : ¬ (f.format = .none ∧ convertPixelFormat p.format = .none)) :
    (describe f p x).frame.format =
      if f.format = .none then convertPixelFormat p.format else f.format := by
  simp only [describe_known x h, ObsFrame.setSize, ObsFrame.setRange_frame]
  unfold ObsFrame.setFormat
  split
  · rename_i hf
    exact (if_pos (c := f.format = .none) hf).symm
  · rename_i hf
    exact (if_neg (c := f.format = .none) hf).symm

/-- The size is always that of `out_frame`. -/
theorem describe_extent {f : ObsFrame} {p : AvFrame} (x : Picture)
    (h : ¬ (f.format = .none ∧ convertPixelFormat p.format = .none)) :
    (describe f p x).frame.extent = p.picture.extent := by
  rw [describe_known x h]
  rfl

/-- A frame that has got a picture is right in all members if it is in its format
and has its size. -/
theorem describe_iff {f : ObsFrame} {p : AvFrame} {x : Picture} (hx : Carries p x)
    (h : ¬ (f.format = .none ∧ convertPixelFormat p.format = .none)) :
    Describes (describe f p x).frame x ↔ (describe f p x).frame.format = x.obsFormat ∧
      (describe f p x).frame.extent = x.extent := by
  refine ⟨fun hd => ⟨hd.format, Prod.ext hd.width hd.height⟩, fun ⟨heq, hsize⟩ => ?_⟩
  have hne : (describe f p x).frame.format ≠ .none := by
    rw [describe_format x h]
    split
    · exact fun hp => h ⟨‹_›, hp⟩
    · assumption
  refine ⟨heq, framePixFmt_obsFormat hne heq, congrArg Prod.fst hsize, congrArg Prod.snd hsize,
    ?_, ?_⟩
  · simp only [describe_known x h, ObsFrame.setSize, ObsFrame.setRange_frame,
      ObsFrame.setFormat_frame, hx.data]
    rfl
  · simp only [describe_known x h, ObsFrame.setSize, ObsFrame.setRange_frame,
      ObsFrame.setFormat_frame, hx.linesize]
    rfl

/-! ## Format and size over a sequence of calls -/

open VideoDecoder (outputs)

/-- The pictures that libavcodec delivers before it fails. -/
def delivered : FFMpegDecoder → Nat → List (Call CodecAnswer) → List Decoded
  | _, _, [] => []
  | d, k, c :: cs =>
      match d.deliver k c.answer with
      | (e, .frame _ x) => x :: delivered e (k + 1) cs
      | (e, .again) => delivered e (k + 1) cs
      | (_, .error) => []

/-- The size that `frame` has kept from the first hardware picture. -/
def kept (d : FFMpegDecoder) : Option (UInt32 × UInt32) := d.frame.map fun g => g.picture.extent

/-- A software picture has the size of `out_frame`; a hardware picture gives `frame`
its size where it is clean, and is shown with the size of `frame` otherwise. -/
theorem outFrame_extent {d e : FFMpegDecoder} {a : CodecAnswer} {p out : AvFrame} {x : Decoded}
    (h : d.outFrame a p = (e, .frame out x)) :
    if x.hardware then out.picture.extent = d.kept.getD x.picture.extent ∧
      e.kept = some out.picture.extent
    else out.picture.extent = x.picture.extent ∧ e.kept = d.kept := by
  unfold outFrame at h
  split at h
  · split at h
    · cases h
    · dsimp only at h
      split at h <;> cases h
      refine ⟨?_, rfl⟩
      unfold kept AvFrame.transferData
      cases d.frame <;> rfl
  · cases h
    exact ⟨rfl, rfl⟩

/-- A frame that is delivered has come from the codec. -/
theorem outFrame_of_deliver {d e : FFMpegDecoder} {k : Nat} {a : CodecAnswer} {out : AvFrame}
    {x : Decoded} (h : d.deliver k a = (e, .frame out x)) :
    ∃ c p, outFrame { d with codec := c } a p = (e, .frame out x) := by
  unfold deliver at h
  split at h
  · split at h
    · exact ⟨_, _, h⟩
    · cases h
    · cases h
  · cases h
  · cases h

theorem deliver_carries {d e : FFMpegDecoder} {k : Nat} {a : CodecAnswer} {out : AvFrame}
    {x : Decoded} (h : d.deliver k a = (e, .frame out x)) : Carries out x.picture := by
  obtain ⟨c, p, hout⟩ := outFrame_of_deliver h
  exact (outFrame_carries hout).1

theorem deliver_extent {d e : FFMpegDecoder} {k : Nat} {a : CodecAnswer} {out : AvFrame}
    {x : Decoded} (h : d.deliver k a = (e, .frame out x)) :
    if x.hardware then out.picture.extent = d.kept.getD x.picture.extent ∧
      e.kept = some out.picture.extent
    else out.picture.extent = x.picture.extent ∧ e.kept = d.kept := by
  obtain ⟨c, p, hout⟩ := outFrame_of_deliver h
  exact (outFrame_extent hout :)

/-- Without a picture `frame` may have got planes, if the call fails. -/
theorem deliver_again {d e : FFMpegDecoder} {k : Nat} {a : CodecAnswer}
    (h : d.deliver k a = (e, .again)) : e.kept = d.kept := by
  unfold deliver at h
  split at h
  · split at h
    · unfold outFrame at h
      split at h
      · split at h
        · cases h
        · dsimp only at h
          split at h <;> cases h
      · cases h
    · cases h
      rfl
    · cases h
  · cases h
    rfl
  · cases h

theorem outputs_frame {d e : FFMpegDecoder} {f : ObsFrame} {k : Nat} {c : Call CodecAnswer}
    {out : AvFrame} {x : Decoded} (cs : List (Call CodecAnswer))
    (h : d.deliver k c.answer = (e, .frame out x)) :
    outputs d f k (c :: cs) =
      if f.format = .none ∧ x.picture.obsFormat = .none then []
      else
        let g := (describe f out x.picture).frame.stamp c.pts
        ⟨g, c.pts, x.picture⟩ :: outputs e g (k + 1) cs := by
  have hv : VideoDecoder.decodeVideo d f k c.answer = (e, describe f out x.picture) := by
    simp [VideoDecoder.decodeVideo, decodeVideo, h]
  have hformat : x.picture.obsFormat = convertPixelFormat out.format :=
    congrArg convertPixelFormat (deliver_carries h).format
  simp only [outputs, hv, hformat]
  by_cases hn : f.format = .none ∧ convertPixelFormat out.format = .none
  · rw [if_pos hn, describe_unknown _ hn]
    rfl
  · rw [if_neg hn, describe_known _ hn]
    rfl

theorem outputs_again {d e : FFMpegDecoder} {f : ObsFrame} {k : Nat} {c : Call CodecAnswer}
    (cs : List (Call CodecAnswer)) (h : d.deliver k c.answer = (e, .again)) :
    outputs d f k (c :: cs) = outputs e f (k + 1) cs := by
  have hv : VideoDecoder.decodeVideo d f k c.answer = (e, ⟨true, f, none⟩) := by
    simp [VideoDecoder.decodeVideo, decodeVideo, h]
  simp only [outputs, hv]
  rfl

theorem outputs_error {d e : FFMpegDecoder} {f : ObsFrame} {k : Nat} {c : Call CodecAnswer}
    (cs : List (Call CodecAnswer)) (h : d.deliver k c.answer = (e, .error)) :
    outputs d f k (c :: cs) = [] := by
  have hv : VideoDecoder.decodeVideo d f k c.answer = (e, ⟨false, f, none⟩) := by
    simp [VideoDecoder.decodeVideo, decodeVideo, h]
  simp only [outputs, hv]
  rfl

/-- A picture that sets no format, or has one: how it leaves the frame. -/
theorem describe_delivered {d e : FFMpegDecoder} {f : ObsFrame} {k : Nat} {c : Call CodecAnswer}
    {out : AvFrame} {x : Decoded} (h : d.deliver k c.answer = (e, .frame out x))
    (hn : ¬ (f.format = .none ∧ x.picture.obsFormat = .none)) :
    let g := (describe f out x.picture).frame.stamp c.pts
    g.format = (if f.format = .none then x.picture.obsFormat else f.format) ∧
      g.extent = out.picture.extent ∧
      (Describes g x.picture ↔ g.format = x.picture.obsFormat ∧ g.extent = x.picture.extent) := by
  have hcarries := deliver_carries h
  have hformat : x.picture.obsFormat = convertPixelFormat out.format :=
    congrArg convertPixelFormat hcarries.format
  have hn' : ¬ (f.format = .none ∧ convertPixelFormat out.format = .none) := hformat ▸ hn
  refine ⟨?_, describe_extent x.picture hn', ?_⟩
  · rw [hformat]
    exact describe_format x.picture hn'
  · exact (describes_stamp c.pts).trans (describe_iff hcarries hn')

theorem outputs_describe (d : FFMpegDecoder) (f : ObsFrame) (k : Nat)
    (cs : List (Call CodecAnswer)) :
    ∀ x ∈ outputs d f k cs, Describes x.frame x.picture ↔
      x.frame.format = x.picture.obsFormat ∧ x.frame.extent = x.picture.extent := by
  induction cs generalizing d f k with
  | nil => simp [outputs]
  | cons c cs ih =>
    rcases h : d.deliver k c.answer with ⟨e, r⟩
    cases r with
    | again =>
      rw [outputs_again cs h]
      exact ih e f (k + 1)
    | error => simp [outputs_error cs h]
    | frame out x =>
      rw [outputs_frame cs h]
      split
      · simp
      · rename_i hn
        exact List.forall_mem_cons.mpr ⟨(describe_delivered h hn).2.2, ih e _ (k + 1)⟩

/-- The sizes of the pictures that have gone through `frame`. -/
def hardwareExtents (xs : List Decoded) : List (UInt32 × UInt32) :=
  (xs.filter Decoded.hardware).map fun x => x.picture.extent

/-- From a frame that has a format, `decode_video` shows that format with every
picture, and `frame`'s size with every hardware picture. -/
theorem outputs_latched (d : FFMpegDecoder) {f : ObsFrame} (hf : f.format ≠ .none) (k : Nat)
    (cs : List (Call CodecAnswer)) :
    (∀ x ∈ outputs d f k cs, Describes x.frame x.picture) ↔
      (∀ x ∈ d.delivered k cs, x.picture.obsFormat = f.format) ∧
        ∀ y ∈ Latch.run id d.kept (hardwareExtents (d.delivered k cs)), y.1 = y.2 := by
  induction cs generalizing d f k with
  | nil => simp [outputs, delivered, hardwareExtents, Latch.run]
  | cons c cs ih =>
    rcases h : d.deliver k c.answer with ⟨e, r⟩
    cases r with
    | again =>
      rw [outputs_again cs h, delivered, h, ih e hf, deliver_again h]
    | error => simp [outputs_error cs h, delivered, h, hardwareExtents, Latch.run]
    | frame out x =>
      have hn : ¬ (f.format = .none ∧ x.picture.obsFormat = .none) := fun h => hf h.1
      obtain ⟨hformat, hextent, hdescribes⟩ := describe_delivered h hn
      rw [if_neg hf] at hformat
      have hsize := deliver_extent h
      rw [outputs_frame cs h, if_neg hn, delivered, h]
      dsimp only
      rw [List.forall_mem_cons, ih e (hformat ▸ hf), hdescribes, hformat, hextent,
        List.forall_mem_cons, eq_comm (a := f.format)]
      cases hx : x.hardware with
      | false =>
        rw [hx] at hsize
        obtain ⟨hout, hkept⟩ := hsize
        simp only [hardwareExtents, List.filter_cons, hx, hout, hkept, Bool.false_eq_true, if_false,
          and_true, and_assoc]
      | true =>
        rw [hx] at hsize
        obtain ⟨hout, hkept⟩ := hsize
        have hlist : hardwareExtents (x :: delivered e (k + 1) cs) =
            x.picture.extent :: hardwareExtents (delivered e (k + 1) cs) := by
          simp [hardwareExtents, hx]
        rw [hlist, hkept]
        cases hd : d.kept with
        | none =>
          rw [hd] at hout
          simp only [Latch.run, List.forall_mem_cons, hout, Option.getD_none, id, true_and,
            and_true, and_assoc]
        | some g =>
          rw [hd] at hout
          simp only [Latch.run, List.forall_mem_cons, hout, Option.getD_some]
          tauto

/-- The first picture is in a format without counterpart, or all pictures are in
formats with the counterpart of the first, and the hardware pictures of one size. -/
def Steady : List Decoded → Prop
  | [] => True
  | x :: xs => x.picture.obsFormat = .none ∨
      (∀ y ∈ xs, y.picture.obsFormat = x.picture.obsFormat) ∧
        ∀ s ∈ hardwareExtents (x :: xs), ∀ t ∈ hardwareExtents (x :: xs), s = t

instance oneExtentDecidable (l : List (UInt32 × UInt32)) : Decidable (∀ s ∈ l, ∀ t ∈ l, s = t) :=
  @List.decidableBAll _ _ (fun s => List.decidableBAll (fun t => s = t) l) l

instance : DecidablePred Steady
  | [] => .isTrue trivial
  | x :: xs => inferInstanceAs (Decidable (x.picture.obsFormat = .none ∨
      (∀ y ∈ xs, y.picture.obsFormat = x.picture.obsFormat) ∧
        ∀ s ∈ hardwareExtents (x :: xs), ∀ t ∈ hardwareExtents (x :: xs), s = t))

/-- From a frame without format and a clean `frame`, the first picture sets the
format, or ends decoding. -/
theorem outputs_unlatched (d : FFMpegDecoder) (hd : d.kept = none) {f : ObsFrame}
    (hf : f.format = .none) (k : Nat) (cs : List (Call CodecAnswer)) :
    (∀ x ∈ outputs d f k cs, Describes x.frame x.picture) ↔ Steady (d.delivered k cs) := by
  induction cs generalizing d k with
  | nil => simp [outputs, delivered, Steady]
  | cons c cs ih =>
    rcases h : d.deliver k c.answer with ⟨e, r⟩
    cases r with
    | again =>
      rw [outputs_again cs h, delivered, h]
      exact ih e ((deliver_again h).trans hd) (k + 1)
    | error => simp [outputs_error cs h, delivered, h, Steady]
    | frame out x =>
      rw [outputs_frame cs h, delivered, h]
      by_cases hx : x.picture.obsFormat = .none
      · simp [hf, hx, Steady]
      · have hn : ¬ (f.format = .none ∧ x.picture.obsFormat = .none) := fun h => hx h.2
        obtain ⟨hformat, hextent, hdescribes⟩ := describe_delivered h hn
        rw [if_pos hf] at hformat
        -- what the second latch shows, whether this picture has filled it or not
        have hsize := deliver_extent h
        have hlatch : out.picture.extent = x.picture.extent ∧
            ((∀ y ∈ Latch.run id e.kept (hardwareExtents (delivered e (k + 1) cs)), y.1 = y.2) ↔
              ∀ y ∈ Latch.run id none (hardwareExtents (x :: delivered e (k + 1) cs)),
                y.1 = y.2) := by
          cases hw : x.hardware with
          | false =>
            rw [hw] at hsize
            obtain ⟨hout, hkept⟩ := hsize
            simp [hardwareExtents, hw, hout, hkept, hd]
          | true =>
            rw [hw] at hsize
            obtain ⟨hout, hkept⟩ := hsize
            rw [hd] at hout
            rw [Option.getD_none] at hout
            simp [hardwareExtents, hw, hout, hkept, Latch.run]
        obtain ⟨hout, hlatch⟩ := hlatch
        rw [if_neg hn]
        dsimp only
        rw [List.forall_mem_cons, hdescribes, hformat, hextent, hout,
          outputs_latched e (hformat ▸ hx), hformat, hlatch]
        have hall := Latch.run_none_iff_all id (hardwareExtents (x :: delivered e (k + 1) cs))
        simp only [id] at hall
        rw [hall]
        simp only [Steady, hx, true_and, false_or, and_self]

/-- From the reset at the start of a connection on, the frame describes every
picture just when neither their formats nor the size of those in hardware change. -/
theorem described_iff (hw : Bool) (hwPixFmt : AvPixelFormat) (f : ObsFrame) (k : Nat)
    (cs : List (Call CodecAnswer)) :
    (∀ x ∈ outputs (opened hw hwPixFmt) f.reset k cs, Describes x.frame x.picture) ↔
      Steady ((opened hw hwPixFmt).delivered k cs) :=
  outputs_unlatched (opened hw hwPixFmt) rfl rfl k cs

end FFMpegDecoder

end DroidcamWhip
