import DroidcamWhip.FFMpegDecode
import DroidcamWhip.MJpegDecode
import DroidcamWhip.Ownership

/-!
The life of a decoder, as `Pipeline` has it, with what `decode_video` does in it:
the decoder's library answers each call, and `video_decode_thread` pushes the
frames that come out.
-/

namespace DroidcamWhip

variable {δ α : Type}

/-- A decoder in use and the `video_frame` of the source. The last four fields
record the run: the number of the packet that the decoding thread has passed to
`decode_video` and not yet recycled, the calls of `decode_video`, those of
`push_video_frame`, and the packets recycled while the decoder had not failed
(`none` for one that was never passed to `decode_video`). -/
structure Playback (δ α : Type) where
  pipe : Pipeline
  decoder : δ
  videoFrame : ObsFrame
  inHand : Option Nat
  calls : List (Call α)
  pushed : List Pushed
  recycled : List (Option Nat)

/-- As `Act`, with the library's answers in place of what `decode_video` returns. -/
inductive PlayAct (α : Type) where
  | recv (e : Env)
  | leave
  | decode (answer : α)

/-- `recv_video_frame` is about to initialise the decoder. -/
def Pipeline.initialises (s : Pipeline) : Bool :=
  match s.recvPc with
  | .readyTest _ _ => !s.dec.ready
  | _ => false

namespace Playback

def init (kind : Kind) (sock : Sock) (d : δ) (f : ObsFrame) : Playback δ α where
  pipe := .init kind sock
  decoder := d
  videoFrame := f
  inHand := none
  calls := []
  pushed := []
  recycled := []

variable [VideoDecoder δ α]

/-- One call of `decode_video` for the packet at `a`, and of `push_video_frame`
if there is a picture. -/
def callStep (s : Playback δ α) (a : Nat) (answer : α) : Option (Playback δ α) :=
  let k := s.calls.length
  if VideoDecoder.allows s.decoder k answer then
    let pts := (s.pipe.dec.heap a).pts
    let r := VideoDecoder.decodeVideo s.decoder s.videoFrame k answer
    (s.pipe.step (.decode r.2.ok)).map fun pipe =>
      { s with
        pipe
        decoder := r.1
        videoFrame := r.2.left pts
        inHand := some k
        calls := s.calls ++ [⟨pts, answer⟩]
        pushed := s.pushed ++ r.2.pushed pts }
  else none

def step (s : Playback δ α) : PlayAct α → Option (Playback δ α)
  | .recv e =>
      (s.pipe.step (.recv e)).map fun pipe =>
        { s with
          pipe
          videoFrame := if s.pipe.initialises then s.videoFrame.reset else s.videoFrame }
  | .leave => (s.pipe.step .leave).map fun pipe => { s with pipe }
  | .decode answer =>
      match s.pipe.decodePc with
      | .decoding a => s.callStep a answer
      | .pushing _ =>
          (s.pipe.step (.decode true)).map fun pipe =>
            { s with
              pipe
              inHand := none
              recycled :=
                if s.pipe.dec.failed then s.recycled else s.recycled ++ [s.inHand] }
      | _ => (s.pipe.step (.decode true)).map fun pipe => { s with pipe }

end Playback

/-- The runs of a decoder that has `d` for its state when it is first used, on any
connection and with whatever earlier decoders left in the frame. -/
def playback [VideoDecoder δ α] (kind : Kind) (d : δ) :
    Runs.Machine (Playback δ α) (PlayAct α) where
  start s := ∃ sock f, s = .init kind sock d f
  step s a := s.step a

/-! ## What one step can do -/

variable [VideoDecoder δ α]

/-- Every step of a decoder in use. -/
inductive PlayMove (s : Playback δ α) : PlayAct α → Playback δ α → Prop
  | recv {e pipe} (h : RecvMove e s.pipe pipe) :
      PlayMove s (.recv e) { s with
        pipe
        videoFrame := if s.pipe.initialises then s.videoFrame.reset else s.videoFrame }
  | leave (hpc : s.pipe.recvPc = .between) :
      PlayMove s .leave { s with pipe := { s.pipe with recvPc := .releasing } }
  | call {a answer d r} (hpc : s.pipe.decodePc = .decoding a) (hlive : s.pipe.recvPc ≠ .deleted)
      (ha : VideoDecoder.allows s.decoder s.calls.length answer = true)
      (hr : VideoDecoder.decodeVideo s.decoder s.videoFrame s.calls.length answer = (d, r)) :
      PlayMove s (.decode answer) { s with
        pipe := { s.pipe with
          decodePc := if r.ok then .pushing a else .markFailed a
          decoded := s.pipe.decoded ++ [s.pipe.dec.heap a] }
        decoder := d
        videoFrame := r.left (s.pipe.dec.heap a).pts
        inHand := some s.calls.length
        calls := s.calls ++ [⟨(s.pipe.dec.heap a).pts, answer⟩]
        pushed := s.pushed ++ r.pushed (s.pipe.dec.heap a).pts }
  | recycle {a answer} (hpc : s.pipe.decodePc = .pushing a) :
      PlayMove s (.decode answer) { s with
        pipe := { s.pipe with dec := s.pipe.dec.pushEmptyPacket a, decodePc := .idle }
        inHand := none
        recycled := if s.pipe.dec.failed then s.recycled else s.recycled ++ [s.inHand] }
  | other {answer pipe} (h : DecodeMove s.pipe pipe) (hcall : ∀ a, s.pipe.decodePc ≠ .decoding a)
      (hpush : ∀ a, s.pipe.decodePc ≠ .pushing a) :
      PlayMove s (.decode answer) { s with pipe }

/-- What a call of `decode_video` does to the pipeline. -/
theorem decode_step {ok : Bool} {a : Nat} {s t : Pipeline} (hpc : s.decodePc = .decoding a)
    (h : pipeline.step s (.decode ok) = some t) :
    s.recvPc ≠ .deleted ∧ t = { s with
      decodePc := if ok then .pushing a else .markFailed a
      decoded := s.decoded ++ [s.dec.heap a] } := by
  change s.step (.decode ok) = some t at h
  simp only [Pipeline.step, Pipeline.decodeStep, hpc] at h
  split at h
  · cases h
  · exact ⟨‹_›, (Option.some.inj h).symm⟩

theorem decodeMove_of_step {ok : Bool} {s t : Pipeline} (h : pipeline.step s (.decode ok) = some t) :
    DecodeMove s t := by
  cases step_move h
  assumption

theorem playStep_move {kind : Kind} {d : δ} {s t : Playback δ α} {a : PlayAct α}
    (h : (playback kind d).step s a = some t) : PlayMove s a t := by
  change s.step a = some t at h
  cases a with
  | recv e =>
    obtain ⟨pipe, hp, rfl⟩ := Option.map_eq_some_iff.mp h
    cases step_move (s := s.pipe) (a := .recv e) hp with
    | recv hm => exact .recv hm
  | leave =>
    obtain ⟨pipe, hp, rfl⟩ := Option.map_eq_some_iff.mp h
    cases step_move (s := s.pipe) (a := .leave) hp with
    | leave hpc => exact .leave hpc
  | decode answer =>
    simp only [Playback.step] at h
    split at h
    · rename_i a hpc
      simp only [Playback.callStep] at h
      split at h
      · obtain ⟨pipe, hp, rfl⟩ := Option.map_eq_some_iff.mp h
        obtain ⟨hlive, rfl⟩ := decode_step hpc hp
        exact .call hpc hlive ‹_› rfl
      · cases h
    · rename_i a hpc
      obtain ⟨pipe, hp, rfl⟩ := Option.map_eq_some_iff.mp h
      cases decodeMove_of_step hp
      case push hpc' =>
        obtain rfl : a = _ := DecodePc.pushing.inj (hpc.symm.trans hpc')
        exact .recycle hpc
      all_goals simp_all
    · obtain ⟨pipe, hp, rfl⟩ := Option.map_eq_some_iff.mp h
      exact .other (decodeMove_of_step hp) ‹_› ‹_›

theorem pipe_step {kind : Kind} {d : δ} {s t : Playback δ α} {a : PlayAct α}
    (h : (playback kind d).step s a = some t) : ∃ b, s.pipe.step b = some t.pipe := by
  change s.step a = some t at h
  cases a with
  | recv e =>
    obtain ⟨pipe, hp, rfl⟩ := Option.map_eq_some_iff.mp h
    exact ⟨.recv e, hp⟩
  | leave =>
    obtain ⟨pipe, hp, rfl⟩ := Option.map_eq_some_iff.mp h
    exact ⟨.leave, hp⟩
  | decode answer =>
    simp only [Playback.step] at h
    split at h
    · simp only [Playback.callStep] at h
      split at h
      · obtain ⟨pipe, hp, rfl⟩ := Option.map_eq_some_iff.mp h
        exact ⟨_, hp⟩
      · cases h
    · obtain ⟨pipe, hp, rfl⟩ := Option.map_eq_some_iff.mp h
      exact ⟨_, hp⟩
    · obtain ⟨pipe, hp, rfl⟩ := Option.map_eq_some_iff.mp h
      exact ⟨_, hp⟩

/-- A decoder in use goes through a run of `pipeline`. -/
theorem pipe_reachable {kind : Kind} {d : δ} {s : Playback δ α}
    (h : (playback kind d).Reachable s) : pipeline.Reachable s.pipe := by
  refine h.invariant (I := fun s => pipeline.Reachable s.pipe) ?_ fun s a t _ hi _ ht => ?_
  · rintro s ⟨sock, f, rfl⟩
    exact .start ⟨kind, sock, rfl⟩
  · obtain ⟨b, hb⟩ := pipe_step ht
    exact hi.next hb

/-! ## Before and after the decoder is initialised -/

/-- Before `init`, nothing has been queued for the decoding thread; and it calls
`decode_video` only on a decoder that has not failed. -/
structure Unready (s : Pipeline) : Prop where
  queue : s.dec.ready = false → s.dec.decodeQueue = []
  idle : s.dec.ready = false → s.decodePc = .idle
  pushing : s.dec.ready = false → ∀ a x, s.recvPc ≠ .pushStart a x ∧ s.recvPc ≠ .enqueue a x
  unfailed : ∀ a, s.decodePc = .decoding a → s.dec.failed = false

/-- Of the steps of the receiving thread, only the initialisation touches `ready`. -/
theorem recvMove_ready {e : Env} {s t : Pipeline} (hm : RecvMove e s t) :
    t.dec.ready = s.dec.ready ∨
      s.initialises = true ∧ s.dec.ready = false ∧ t.dec.ready = true := by
  cases hm
  case initOk hpc hr => exact .inr ⟨by simp [Pipeline.initialises, hpc, hr], hr, rfl⟩
  case short hf =>
    obtain ⟨p, rfl⟩ := fill_short hf
    exact .inl rfl
  case filled hf =>
    obtain ⟨p, rfl, _⟩ := fill_done hf
    exact .inl rfl
  all_goals exact .inl rfl

theorem decodeMove_ready {s t : Pipeline} (hm : DecodeMove s t) : t.dec.ready = s.dec.ready := by
  cases hm <;> rfl

theorem Pipeline.not_initialises {s : Pipeline} (h : s.dec.ready = true) :
    s.initialises = false := by
  unfold initialises
  split <;> simp [h]

theorem unready_recv {e : Env} {s t : Pipeline} (hi : Unready s) (hm : RecvMove e s t) :
    Unready t := by
  have ⟨hqueue, hidle, hpush, hfail⟩ := hi
  cases hm
  case short hf =>
    obtain ⟨p, rfl⟩ := fill_short hf
    exact ⟨hqueue, hidle, by simp, hfail⟩
  case filled hf =>
    obtain ⟨p, rfl, _⟩ := fill_done hf
    exact ⟨hqueue, hidle, by simp, hfail⟩
  case ready hr => exact ⟨hqueue, hidle, fun h => by simp [hr] at h, hfail⟩
  case initOk => exact ⟨by simp, by simp, by simp, hfail⟩
  case initFails hr => exact ⟨hqueue, hidle, by simp, by simp [hidle hr]⟩
  case keep hpc _ => exact ⟨hqueue, hidle, fun h => absurd hpc (hpush h _ _).1, hfail⟩
  case enqueue hpc =>
    exact ⟨fun h => absurd hpc (hpush h _ _).2, hidle, fun h => absurd hpc (hpush h _ _).2, hfail⟩
  case wait => exact hi
  all_goals exact ⟨hqueue, hidle, by simp, hfail⟩

theorem unready_decode {s t : Pipeline} (hi : Unready s) (hm : DecodeMove s t) : Unready t := by
  have ⟨hqueue, hidle, hpush, hfail⟩ := hi
  cases hm
  case sleep => exact hi
  case found hq => exact ⟨hqueue, fun h => absurd (hqueue h) hq, hpush, by simp⟩
  case push => exact ⟨hqueue, fun _ => rfl, hpush, by simp⟩
  case notFailed hpc hf => exact ⟨hqueue, fun h => by simp_all, hpush, fun _ _ => hf⟩
  all_goals
    rename_i hpc
    exact ⟨fun h => by simp_all, fun h => by simp_all, hpush, by simp⟩

theorem unready_of_reachable {s : Pipeline} (h : pipeline.Reachable s) : Unready s := by
  refine h.invariant ?_ fun s a t _ hi _ hs => ?_
  · rintro _ ⟨kind, sock, rfl⟩
    exact ⟨fun _ => rfl, fun _ => rfl, by simp [Pipeline.init], by simp [Pipeline.init]⟩
  · cases step_move hs with
    | recv hm => exact unready_recv hi hm
    | leave => exact ⟨hi.queue, hi.idle, by simp, hi.unfailed⟩
    | decode _ hm => exact unready_decode hi hm

/-- After a failed call of `decode_video` there is no other. -/
def Spent (s : Pipeline) : Prop :=
  (∃ a, s.decodePc = .markFailed a) ∨ (s.dec.failed = true ∧ ∀ a, s.decodePc ≠ .decoding a)

theorem spent_decoding {s : Pipeline} {a : Nat} (h : Spent s) : s.decodePc ≠ .decoding a := by
  intro hpc
  rcases h with ⟨b, hb⟩ | ⟨_, hb⟩
  · simp [hpc] at hb
  · exact hb a hpc

theorem spent_recv {e : Env} {s t : Pipeline} (hi : Spent s) (hm : RecvMove e s t) : Spent t := by
  obtain ⟨hpc, _, _, _, _, hf⟩ := recvMove_record hm
  rcases hi with ⟨a, ha⟩ | ⟨hfailed, ha⟩
  · exact .inl ⟨a, hpc.trans ha⟩
  · exact .inr ⟨hf hfailed, hpc ▸ ha⟩

theorem spent_decode {s t : Pipeline} (hi : Spent s) (hm : DecodeMove s t) : Spent t := by
  rcases hi with ⟨a, ha⟩ | ⟨hf, ha⟩
  · cases hm
    case markFailed => exact .inr ⟨rfl, by simp⟩
    all_goals simp_all
  · cases hm
    case sleep => exact .inr ⟨hf, ha⟩
    case decodeFails hpc => exact absurd hpc (ha _)
    case notFailed hf' => simp [hf] at hf'
    all_goals exact .inr ⟨by simp [Decoder.pushEmptyPacket, hf], by simp⟩

/-! ## Frames pushed -/

/-- What has been pushed is what the calls of `decode_video` put out, from a frame
on that has been reset. -/
structure Played (d : δ) (s : Playback δ α) : Prop where
  unready : s.pipe.dec.ready = false → s.calls = [] ∧ s.pushed = [] ∧ s.decoder = d
  ready : s.pipe.dec.ready = true → ∃ f : ObsFrame,
    s.pushed = VideoDecoder.outputs d f.reset 0 s.calls ∧
      (VideoDecoder.after d f.reset 0 s.calls = some (s.decoder, s.videoFrame) ∨
        VideoDecoder.after d f.reset 0 s.calls = none ∧ Spent s.pipe)

theorem played_step {kind : Kind} {d : δ} {s t : Playback δ α} {a : PlayAct α}
    (hu : Unready s.pipe) (hi : Played d s) (h : (playback kind d).step s a = some t) :
    Played d t := by
  cases playStep_move h
  case recv hm =>
    obtain hr | ⟨hinit, hr, hr'⟩ := recvMove_ready hm
    · refine ⟨fun ht => hi.unready (hr ▸ ht), fun ht => ?_⟩
      have hready : s.pipe.dec.ready = true := hr ▸ ht
      obtain ⟨f, hpushed, hafter⟩ := hi.ready hready
      refine ⟨f, hpushed, hafter.imp (fun h => ?_) fun h => ⟨h.1, spent_recv h.2 hm⟩⟩
      simpa [Pipeline.not_initialises hready] using h
    · refine ⟨fun ht => by simp [hr'] at ht, fun _ => ⟨s.videoFrame, ?_, .inl ?_⟩⟩
      · simp [hi.unready hr, VideoDecoder.outputs]
      · simp [hi.unready hr, VideoDecoder.after, hinit]
  case leave => exact ⟨hi.unready, hi.ready⟩
  case call a answer e r hpc _ ha hr =>
    have hready : s.pipe.dec.ready = true := by
      by_contra hn
      have hidle := hu.idle (Bool.eq_false_iff.mpr hn)
      simp [hpc] at hidle
    obtain ⟨f, hpushed, hafter⟩ := hi.ready hready
    have hafter := hafter.resolve_right fun h => spent_decoding h.2 hpc
    refine ⟨fun ht => by simp [hready] at ht, fun _ => ⟨f, ?_, ?_⟩⟩
    · simp only [VideoDecoder.outputs_concat, hafter, Nat.zero_add, hr, hpushed]
    · simp only [VideoDecoder.after_concat, hafter, Nat.zero_add, hr]
      cases r.ok with
      | true => exact .inl rfl
      | false => exact .inr ⟨rfl, .inl ⟨a, rfl⟩⟩
  case recycle hpc =>
    refine ⟨hi.unready, fun ht => ?_⟩
    obtain ⟨f, hpushed, hafter⟩ := hi.ready ht
    exact ⟨f, hpushed, hafter.imp id fun h => ⟨h.1, spent_decode h.2 (.push hpc)⟩⟩
  case other hm _ _ =>
    have hr := decodeMove_ready hm
    refine ⟨fun ht => hi.unready (hr ▸ ht), fun ht => ?_⟩
    obtain ⟨f, hpushed, hafter⟩ := hi.ready (hr ▸ ht)
    exact ⟨f, hpushed, hafter.imp id fun h => ⟨h.1, spent_decode h.2 hm⟩⟩

theorem pushed_eq_outputs {kind : Kind} {d : δ} {s : Playback δ α}
    (h : (playback kind d).Reachable s) :
    ∃ f : ObsFrame, s.pushed = VideoDecoder.outputs d f.reset 0 s.calls := by
  have hi : Played d s := by
    refine h.invariant ?_ fun s a t hr hi _ hs =>
      played_step (unready_of_reachable (pipe_reachable hr)) hi hs
    rintro _ ⟨sock, f, rfl⟩
    exact ⟨fun _ => ⟨rfl, rfl, rfl⟩, fun hr => by cases hr⟩
  cases hr : s.pipe.dec.ready with
  | true =>
    obtain ⟨f, hpushed, _⟩ := hi.ready hr
    exact ⟨f, hpushed⟩
  | false => exact ⟨s.videoFrame, by simp [hi.unready hr, VideoDecoder.outputs]⟩

/-- **The frame describes what was decoded.** In every run of a decoder, the frame
describes each picture it is pushed with just when `FFMpegDecoder` delivers no
other format and no hardware picture of another size, and `MJpegDecoder` no other
size and subsampling, than at first. -/
theorem frame_described_iff (kind : Kind) :
    (∀ (hw : Bool) (hwPixFmt : AvPixelFormat) (s : Playback FFMpegDecoder CodecAnswer),
      (playback kind (FFMpegDecoder.opened hw hwPixFmt)).Reachable s →
        ((∀ x ∈ s.pushed, Describes x.frame x.picture) ↔
          FFMpegDecoder.Steady ((FFMpegDecoder.opened hw hwPixFmt).delivered 0 s.calls))) ∧
    (∀ s : Playback MJpegDecoder TjAnswer,
      (playback kind MJpegDecoder.new).Reachable s →
        ((∀ x ∈ s.pushed, Describes x.frame x.picture) ↔
          MJpegDecoder.SteadyImage s.calls)) := by
  constructor
  · intro hw hwPixFmt s hs
    obtain ⟨f, hf⟩ := pushed_eq_outputs hs
    rw [hf]
    exact FFMpegDecoder.described_iff hw hwPixFmt f 0 s.calls
  · intro s hs
    obtain ⟨f, hf⟩ := pushed_eq_outputs hs
    rw [hf]
    exact MJpegDecoder.described_iff f.reset 0 s.calls

/-! ## Two pictures in a row -/

/-- A software frame of 640x480 that libavcodec makes of a packet. -/
def AvFrame.software (packet : Nat) (format : AvPixelFormat) : AvFrame where
  packet
  format
  width := 640
  height := 480
  data _ := 4096
  linesize _ := 640
  fullRange := false
  colorspace := .bt709
  trc := .bt709
  bt2020 := false

/-- The packet is taken and makes one software frame, at once. -/
def CodecAnswer.software (packet : Nat) (format : AvPixelFormat) : CodecAnswer :=
  ⟨.ok, [.software packet format], false, none, true⟩

/-- An opened decoder that uses hardware, whose frames have format 46. -/
def hardwareDecoder : FFMpegDecoder := .opened true (.other 46)

/-- The packet is taken and makes one frame in hardware, which can be copied to NV12. -/
def CodecAnswer.hardware (packet : Nat) (width height : Int32) : CodecAnswer where
  send := .ok
  yields := [{ AvFrame.software packet (.other 46) with width, height }]
  receiveFails := false
  transfer := some ⟨.nv12, fun _ => 8192, fun _ => width⟩
  copied := true

/-- A JPEG of a size, of which TurboJPEG makes a picture of another. -/
def TjAnswer.sized (width height w h : Int32) : TjAnswer :=
  ⟨some ⟨width, height, tjSamp420⟩, 4096, some ⟨w, h, tjSamp420⟩⟩

/-- A connection on which two packets of one byte arrive. -/
def twoPackets : Sock := ⟨encodeHeader 1 1 ++ [7] ++ (encodeHeader 2 1 ++ [7]), false, 0⟩

/-- Both packets are received, and then decoded with the given answers. -/
def decodeTwo (x y : α) : List (PlayAct α) :=
  List.replicate 18 (.recv .quiet) ++ List.replicate 5 (.decode x) ++ List.replicate 5 (.decode y)

/-- Two hardware pictures of one size. -/
theorem frame_described_nv12 : ∃ s : Playback FFMpegDecoder CodecAnswer,
    (playback (.ffmpeg .h264) hardwareDecoder).Reachable s ∧ s.pushed.length = 2 ∧
      ∀ x ∈ s.pushed, Describes x.frame x.picture := by
  obtain ⟨s, hs, hp⟩ := (playback (.ffmpeg .h264) hardwareDecoder).reachable_of_replay
    (fun s => s.pushed.length = 2 ∧
      FFMpegDecoder.Steady (hardwareDecoder.delivered 0 s.calls))
    (.init (.ffmpeg .h264) twoPackets _ .blank)
    (decodeTwo (.hardware 0 640 480) (.hardware 1 640 480)) ⟨_, _, rfl⟩ (by decide +kernel)
  obtain ⟨hlen, hsteady⟩ := of_decide_eq_true hp
  exact ⟨s, hs, hlen, ((frame_described_iff _).1 _ _ s hs).mpr hsteady⟩

/-- A hardware decoder that falls back to software, from NV12 to YUV420P; one whose
pictures turn from 640x480 to 1280x720, which are still shown as 640x480; and a
camera that turns from 640x480 to 160x120, of which TurboJPEG makes 320x240. -/
theorem frame_misdescribed :
    (¬ ∀ s : Playback FFMpegDecoder CodecAnswer,
      (playback (.ffmpeg .h264) hardwareDecoder).Reachable s →
        ∀ x ∈ s.pushed, x.frame.format = x.picture.obsFormat) ∧
    (¬ ∀ s : Playback FFMpegDecoder CodecAnswer,
      (playback (.ffmpeg .h264) hardwareDecoder).Reachable s →
        ∀ x ∈ s.pushed, x.frame.width = x.picture.width) ∧
    (¬ ∀ s : Playback MJpegDecoder TjAnswer, (playback .mjpeg MJpegDecoder.new).Reachable s →
      ∀ x ∈ s.pushed, x.frame.width = x.picture.width) := by
  refine ⟨fun hall => ?_, fun hall => ?_, fun hall => ?_⟩
  · obtain ⟨s, hs, hp⟩ := (playback (.ffmpeg .h264) hardwareDecoder).reachable_of_replay
      (fun s => s.pushed.any fun x => x.frame.format = .nv12 ∧ x.picture.obsFormat = .i420)
      (.init (.ffmpeg .h264) twoPackets _ .blank)
      (decodeTwo (.hardware 0 640 480) (.software 1 .yuv420p)) ⟨_, _, rfl⟩ (by decide +kernel)
    obtain ⟨x, hx, hformat⟩ := List.any_eq_true.mp hp
    obtain ⟨hframe, hpic⟩ := of_decide_eq_true hformat
    exact absurd (hframe.symm.trans ((hall s hs x hx).trans hpic)) (by decide)
  · obtain ⟨s, hs, hp⟩ := (playback (.ffmpeg .h264) hardwareDecoder).reachable_of_replay
      (fun s => s.pushed.any fun x => x.frame.width = 640 ∧ x.picture.width = 1280)
      (.init (.ffmpeg .h264) twoPackets _ .blank)
      (decodeTwo (.hardware 0 640 480) (.hardware 1 1280 720)) ⟨_, _, rfl⟩ (by decide +kernel)
    obtain ⟨x, hx, hsize⟩ := List.any_eq_true.mp hp
    obtain ⟨hframe, hpic⟩ := of_decide_eq_true hsize
    exact absurd (hframe.symm.trans ((hall s hs x hx).trans hpic)) (by decide)
  · obtain ⟨s, hs, hp⟩ := (playback .mjpeg MJpegDecoder.new).reachable_of_replay
      (fun s => s.pushed.any fun x => x.frame.width = 640 ∧ x.picture.width = 320)
      (.init .mjpeg twoPackets _ .blank)
      (decodeTwo (.sized 640 480 640 480) (.sized 160 120 320 240)) ⟨_, _, rfl⟩
      (by decide +kernel)
    obtain ⟨x, hx, hsize⟩ := List.any_eq_true.mp hp
    obtain ⟨hframe, hpic⟩ := of_decide_eq_true hsize
    exact absurd (hframe.symm.trans ((hall s hs x hx).trans hpic)) (by decide)

end DroidcamWhip
