import DroidcamWhip.Lib.Custody
import DroidcamWhip.Lib.Runs

/-!
`encoder_rtsp.c`: the H.264 encoder and the RTSP output behind it, which is opened
again when a write fails. Everything the libraries and the allocator hand out is
numbered, so that the run shows what has been released.
-/

namespace DroidcamWhip

/-! ## FFmpeg -/

structure AvRational where
  num : Int
  den : Int
  deriving DecidableEq

/-- The quotient rounded to the nearest integer, halves away from zero. -/
def divRound (n d : Int) : Int :=
  if 0 ≤ n then (2 * n + d) / (2 * d) else -((2 * -n + d) / (2 * d))

/-- `av_rescale_q`; a result that does not fit is `INT64_MIN`. -/
def avRescaleQ (a : Int64) (b c : AvRational) : Int64 :=
  let r := divRound (a.toInt * (b.num * c.den)) (b.den * c.num)
  if -2 ^ 63 ≤ r ∧ r < 2 ^ 63 then Int64.ofInt r else Int64.minValue

/-- `AVPacket`; a `none` timestamp is `AV_NOPTS_VALUE`. -/
structure AvPacket where
  data : Option (List UInt8)
  pts : Option Int64
  dts : Option Int64
  streamIndex : Int
  deriving DecidableEq

/-- What is left of a packet whose reference has been taken over. -/
def AvPacket.blank : AvPacket := ⟨none, none, none, 0⟩

def AvPacket.rescaleTs (src dst : AvRational) (p : AvPacket) : AvPacket :=
  { p with
    pts := p.pts.map (avRescaleQ · src dst)
    dts := p.dts.map (avRescaleQ · src dst) }

/-- A packet as `avcodec_receive_packet` fills it. -/
structure Encoded where
  bytes : List UInt8
  pts : Option Int64
  dts : Option Int64

def Encoded.packet (e : Encoded) : AvPacket := ⟨some e.bytes, e.pts, e.dts, 0⟩

/-- An `AVFormatContext`: whether its format has `AVFMT_NOFILE`, its `pb`, and
whether its header has been written. -/
structure FormatContext where
  id : Nat
  noFile : Bool
  pb : Option Nat
  header : Bool
  deriving DecidableEq

structure AvStream where
  index : Int
  timeBase : AvRational
  deriving DecidableEq

structure CodecContext where
  id : Nat
  timeBase : AvRational

/-- `ctx->frame`. -/
structure EncoderFrame where
  id : Nat
  pts : Int64

/-- A call of `av_interleaved_write_frame` or `av_write_trailer`: the context and
whether it had been freed; for a write also the stream's time base, the packet
and what is returned. -/
inductive MuxerCall where
  | write (target : Option FormatContext) (freed : Bool) (timeBase : AvRational)
      (packet : AvPacket) (ret : Int)
  | trailer (target : FormatContext) (freed : Bool)
  deriving DecidableEq

/-- What has been handed out, numbered, and the calls of the muxer. -/
structure Av where
  issued : Nat
  released : List Nat
  calls : List MuxerCall

/-! ## The context -/

structure EncoderRtspCtx where
  self : Option Nat
  url : Option Nat
  width : Int32
  height : Int32
  fps : Int32
  nextPts : Int64
  codecCtx : Option CodecContext
  frame : Option EncoderFrame
  packet : Option Nat
  sws : Option Nat
  fmtCtx : Option FormatContext
  stream : Option AvStream
  outputOpen : Bool

namespace EncoderRtspCtx

/-- After `calloc`, or when there is no context. -/
def zero : EncoderRtspCtx where
  self := none
  url := none
  width := 0
  height := 0
  fps := 0
  nextPts := 0
  codecCtx := none
  frame := none
  packet := none
  sws := none
  fmtCtx := none
  stream := none
  outputOpen := false

/-- `codec_ctx->time_base`, where there is a `codec_ctx`. -/
def timeBase (c : EncoderRtspCtx) : AvRational := (c.codecCtx.map CodecContext.timeBase).getD ⟨0, 1⟩

/-- What the output holds: the format context and its `pb`. -/
def output (c : EncoderRtspCtx) : List Nat :=
  (c.fmtCtx.map FormatContext.id).toList ++ (c.fmtCtx.bind FormatContext.pb).toList

/-- What the context holds. -/
def holds (c : EncoderRtspCtx) : List Nat :=
  c.self.toList ++ c.url.toList ++ (c.codecCtx.map CodecContext.id).toList ++
    (c.frame.map EncoderFrame.id).toList ++ c.packet.toList ++ c.sws.toList ++ c.output

end EncoderRtspCtx

/-- No context; between two calls; in the loop of `encoder_rtsp_encode_frame`;
in `encoder_rtsp_close`. -/
inductive RtspPc where
  | none
  | idle
  | receiving
  | closing
  deriving DecidableEq

/-- The `fps` that `encoder_rtsp_init` was called with for the context, and for each
call of `avcodec_send_frame` the `pts` that the frame came with and the one that it
had. -/
structure Stamps where
  fps : Int32
  frames : List (Int64 × Option Int64)
  deriving DecidableEq

/-- A use of the encoder: `opts` is the local variable of that name, and `stamps` the
record of the frames of the last context. -/
structure Rtsp where
  pc : RtspPc
  av : Av
  opts : Option Nat
  ctx : EncoderRtspCtx
  stamps : Stamps

namespace Rtsp

/-- Nothing has been called yet. -/
def fresh : Rtsp := ⟨.none, ⟨0, [], []⟩, none, .zero, ⟨0, []⟩⟩

/-- Something new is handed out. -/
def make (s : Rtsp) (put : Nat → EncoderRtspCtx) : Rtsp :=
  { s with av := { s.av with issued := s.av.issued + 1 }, ctx := put s.av.issued }

/-- The numbers `ids` are released and the members that had them are cleared. -/
def drop (s : Rtsp) (ids : List Nat) (ctx : EncoderRtspCtx) : Rtsp :=
  { s with av := { s.av with released := s.av.released ++ ids }, ctx }

def call (s : Rtsp) (c : MuxerCall) : Rtsp :=
  { s with av := { s.av with calls := s.av.calls ++ [c] } }

/-- `av_dict_set` on an empty dictionary. -/
def setDict (s : Rtsp) : Rtsp :=
  { s with av := { s.av with issued := s.av.issued + 1 }, opts := some s.av.issued }

def freeDict (s : Rtsp) : Rtsp :=
  { s with av := { s.av with released := s.av.released ++ s.opts.toList }, opts := none }

/-! ## Output -/

def closeOutput (s : Rtsp) : Rtsp :=
  match s.ctx.fmtCtx with
  | none => s
  | some f =>
      let s := if s.ctx.outputOpen then s.call (.trailer f (f.id ∈ s.av.released)) else s
      s.drop ((if f.noFile then [] else f.pb.toList) ++ [f.id])
        { s.ctx with fmtCtx := none, stream := none, outputOpen := false }

/-- Answers to one `open_output`: the value and the context of
`avformat_alloc_output_context2`, whether its format has no file, whether there is
a stream, the values of `avcodec_parameters_from_context`, `avio_open2` and
`avformat_write_header`, and the time base that the latter chose. -/
structure OpenAnswer where
  context : Int
  made : Bool
  noFile : Bool
  stream : Bool
  parameters : Int
  avio : Int
  header : Int
  timeBase : AvRational

def averrorUnknown : Int := -1313558101
def enomem : Int := -12
def encoderNotFound : Int := -1129203192

/-- `avio_open2` into `fmt_ctx->pb`. -/
def openPb (s : Rtsp) : Rtsp :=
  s.make fun id =>
    { s.ctx with fmtCtx := s.ctx.fmtCtx.map fun f => { f with pb := some id } }

/-- The header is written. -/
def publish (timeBase : AvRational) (s : Rtsp) : Rtsp :=
  { s with ctx := { s.ctx with
    fmtCtx := s.ctx.fmtCtx.map fun f => { f with header := true }
    stream := s.ctx.stream.map fun st => { st with timeBase }
    outputOpen := true } }

/-- `open_output` from `avformat_write_header` on. -/
def writeHeader (a : OpenAnswer) (s : Rtsp) : Int × Rtsp :=
  if a.header < 0 then (a.header, s.freeDict.closeOutput)
  else (0, s.freeDict.publish a.timeBase)

/-- `open_output` from the options on. -/
def startOutput (a : OpenAnswer) (s : Rtsp) : Int × Rtsp :=
  let s := s.setDict
  if a.noFile then s.writeHeader a
  else if a.avio < 0 then (a.avio, s.freeDict.closeOutput)
  else s.openPb.writeHeader a

def openOutput (a : OpenAnswer) (s : Rtsp) : Int × Rtsp :=
  let s := s.closeOutput
  if a.context < 0 then (a.context, s)
  else if a.made = false then (averrorUnknown, s)
  else
    let s := s.make fun id => { s.ctx with fmtCtx := some ⟨id, a.noFile, none, false⟩ }
    if a.stream = false then (enomem, s)
    else
      let s := { s with ctx := { s.ctx with stream := some ⟨0, s.ctx.timeBase⟩ } }
      if a.parameters < 0 then (a.parameters, s) else s.startOutput a

/-- Answers to one `write_packet`, of which the reopening may not be needed. -/
structure WriteAnswer where
  first : OpenAnswer
  write : Int
  second : OpenAnswer
  again : Int

/-- `av_interleaved_write_frame`, which takes over the packet. -/
def interleavedWrite (p : AvPacket) (ret : Int) (s : Rtsp) : Rtsp :=
  s.call (.write s.ctx.fmtCtx (s.ctx.fmtCtx.any fun f => f.id ∈ s.av.released)
    ((s.ctx.stream.map AvStream.timeBase).getD ⟨0, 1⟩) p ret)

/-- The packet for `ctx->stream`. -/
def prepare (s : Rtsp) (p : AvPacket) : AvPacket :=
  let st := s.ctx.stream.getD ⟨0, ⟨0, 1⟩⟩
  { p.rescaleTs s.ctx.timeBase st.timeBase with streamIndex := st.index }

/-- `write_packet` when the output is open. -/
def sendPacket (p : AvPacket) (a : WriteAnswer) (s : Rtsp) : Int × Rtsp :=
  let s := s.interleavedWrite (s.prepare p) a.write
  if a.write < 0 then
    let r := s.closeOutput.openOutput a.second
    -- the packet has been taken over
    if r.1 = 0 then (a.again, r.2.interleavedWrite .blank a.again) else (a.write, r.2)
  else (a.write, s)

def writePacket (p : AvPacket) (a : WriteAnswer) (s : Rtsp) : Int × Rtsp :=
  if s.ctx.outputOpen then s.sendPacket p a
  else
    let r := s.openOutput a.first
    if r.1 < 0 then (-1, r.2) else r.2.sendPacket p a

/-! ## Encoder -/

/-- Answers to one `init_encoder`. -/
structure CodecAnswer where
  found : Bool
  context : Bool
  opened : Int

def initEncoder (a : CodecAnswer) (s : Rtsp) : Int × Rtsp :=
  if a.found = false then (encoderNotFound, s)
  else if a.context = false then (enomem, { s with ctx := { s.ctx with codecCtx := none } })
  else
    let s := s.make fun id => { s.ctx with codecCtx := some ⟨id, ⟨1, s.ctx.fps.toInt⟩⟩ }
    let s := s.setDict.freeDict
    if a.opened < 0 then
      (a.opened, s.drop (s.ctx.codecCtx.map CodecContext.id).toList { s.ctx with codecCtx := none })
    else (0, s)

/-- Answers to one `encoder_rtsp_init`; the first is that of `calloc`. -/
structure InitAnswer where
  self : Bool
  url : Bool
  nvenc : CodecAnswer
  x264 : CodecAnswer
  frame : Bool
  packet : Bool
  buffer : Int
  sws : Bool
  output : OpenAnswer

/-- `encoder_rtsp_init` when there is a codec context; where it gives up, it
calls `encoder_rtsp_close`. -/
def initBuffers (a : InitAnswer) (s : Rtsp) : Rtsp :=
  let s := if a.frame then s.make fun id => { s.ctx with frame := some ⟨id, 0⟩ } else s
  let s := if a.packet then s.make fun id => { s.ctx with packet := some id } else s
  if a.frame = false ∨ a.packet = false then { s with pc := .closing }
  else if a.buffer < 0 then { s with pc := .closing }
  else if a.sws = false then { s with pc := .closing }
  else
    let s := s.make fun id => { s.ctx with sws := some id }
    { (s.openOutput a.output).2 with pc := .idle }

/-- `encoder_rtsp_init` when there is a context. -/
def initCodec (a : InitAnswer) (s : Rtsp) : Rtsp :=
  let r := s.initEncoder a.nvenc
  if r.1 < 0 then
    let r := r.2.initEncoder a.x264
    if r.1 < 0 then { r.2 with pc := .closing } else r.2.initBuffers a
  else r.2.initBuffers a

/-- `calloc`, `strdup` and the arguments of `encoder_rtsp_init`. -/
def allocCtx (width height fps : Int32) (a : InitAnswer) (s : Rtsp) : Rtsp :=
  let s := s.make fun id =>
    { EncoderRtspCtx.zero with
      self := some id, width, height, fps := if 0 < fps then fps else 25 }
  let s := if a.url then s.make fun id => { s.ctx with url := some id } else s
  { s with stamps := ⟨fps, []⟩ }

def encoderRtspInit (width height fps : Int32) (a : InitAnswer) (s : Rtsp) : Rtsp :=
  if a.self = false then s else (s.allocCtx width height fps a).initCodec a

/-! ## Frames -/

/-- The timestamp step of `encoder_rtsp_encode_frame`. -/
def stamp (pts : Int64) (s : Rtsp) : Rtsp :=
  let framePts := if 0 ≤ pts then avRescaleQ pts ⟨1, 1000000⟩ s.ctx.timeBase else s.ctx.nextPts
  let framePts := if framePts < s.ctx.nextPts then s.ctx.nextPts else framePts
  { s with
    ctx := { s.ctx with
      frame := s.ctx.frame.map fun f => { f with pts := framePts }
      nextPts := framePts + 1 } }

/-- `avcodec_send_frame` is given `ctx->frame` as it is. -/
def sendFrame (pts : Int64) (s : Rtsp) : Rtsp :=
  { s with
    stamps := { s.stamps with
      frames := s.stamps.frames ++ [(pts, s.ctx.frame.map EncoderFrame.pts)] } }

/-- `encoder_rtsp_encode_frame` up to its loop; `writable` and `send` are the
values of `av_frame_make_writable` and `avcodec_send_frame`. -/
def beginFrame (hasData : Bool) (pts : Int64) (writable send : Int) (s : Rtsp) : Rtsp :=
  if hasData = false then s
  else if writable < 0 then s
  else
    let s := (s.stamp pts).sendFrame pts
    if send < 0 then s else { s with pc := .receiving }

/-- A turn of the loop of `encoder_rtsp_encode_frame`. -/
def receivePacket (e : Encoded) (a : WriteAnswer) (s : Rtsp) : Rtsp :=
  let r := s.writePacket e.packet a
  if r.1 < 0 then { r.2 with pc := .idle } else r.2

/-- A turn of the loop of `encoder_rtsp_close`. -/
def flushPacket (e : Encoded) (a : WriteAnswer) (s : Rtsp) : Rtsp :=
  if s.ctx.outputOpen then (s.writePacket e.packet a).2 else s

/-- The end of `encoder_rtsp_close`. -/
def freeAll (s : Rtsp) : Rtsp :=
  let s := s.closeOutput
  { s.drop (s.ctx.sws.toList ++ (s.ctx.frame.map EncoderFrame.id).toList ++ s.ctx.packet.toList ++
      (s.ctx.codecCtx.map CodecContext.id).toList ++ s.ctx.url.toList ++ s.ctx.self.toList) .zero with
    pc := .none }

end Rtsp

/-- A call of `encoder_rtsp_init`; of `encoder_rtsp_encode_frame`, a turn of its loop, its
end; of `encoder_rtsp_close`, a turn of its loop, its end. -/
inductive RtspAct where
  | init (width height fps : Int32) (a : Rtsp.InitAnswer)
  | encode (hasData : Bool) (pts : Int64) (writable send : Int)
  | receive (e : Encoded) (a : Rtsp.WriteAnswer)
  | drained
  | close
  | flush (e : Encoded) (a : Rtsp.WriteAnswer)
  | closed

def Rtsp.step (s : Rtsp) (act : RtspAct) : Option Rtsp :=
  match s.pc, act with
  | .none, .init width height fps a => some (s.encoderRtspInit width height fps a)
  | .idle, .encode hasData pts writable send => some (s.beginFrame hasData pts writable send)
  | .receiving, .receive e a => some (s.receivePacket e a)
  | .receiving, .drained => some { s with pc := .idle }
  | .idle, .close => some { s with pc := .closing }
  | .closing, .flush e a =>
      if s.ctx.codecCtx.isSome && s.ctx.packet.isSome then some (s.flushPacket e a) else none
  | .closing, .closed => some s.freeAll
  | _, _ => none

/-- Encoders used one after the other. -/
def rtsp : Runs.Machine Rtsp RtspAct where
  start s := s = .fresh
  step s act := s.step act

/-- Every step, with where it is made. -/
inductive RtspMove (s : Rtsp) : Rtsp → Prop
  | init {width height fps a} (hpc : s.pc = .none) :
      RtspMove s (s.encoderRtspInit width height fps a)
  | encode {hasData pts writable send} (hpc : s.pc = .idle) :
      RtspMove s (s.beginFrame hasData pts writable send)
  | receive {e a} (hpc : s.pc = .receiving) : RtspMove s (s.receivePacket e a)
  | drained (hpc : s.pc = .receiving) : RtspMove s { s with pc := .idle }
  | close (hpc : s.pc = .idle) : RtspMove s { s with pc := .closing }
  | flush {e a} (hpc : s.pc = .closing) : RtspMove s (s.flushPacket e a)
  | closed (hpc : s.pc = .closing) : RtspMove s s.freeAll

theorem rtsp_move {s t : Rtsp} {act : RtspAct} (h : rtsp.step s act = some t) : RtspMove s t := by
  change s.step act = some t at h
  unfold Rtsp.step at h
  split at h
  · cases h
    exact .init ‹_›
  · cases h
    exact .encode ‹_›
  · cases h
    exact .receive ‹_›
  · cases h
    exact .drained ‹_›
  · cases h
    exact .close ‹_›
  · split at h <;> cases h
    exact .flush ‹_›
  · cases h
    exact .closed ‹_›
  · cases h

end DroidcamWhip
