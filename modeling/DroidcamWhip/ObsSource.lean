import DroidcamWhip.Pipeline
import DroidcamWhip.VideoRequest

/-!
`droidcam_obs_source` and its two threads. `video_thread` connects, receives and
releases decoders; `video_decode_thread` works on whatever decoder it last loaded
from `video_decoder`. A decoder is a `Pipeline`, known by its number.
-/

namespace DroidcamWhip

/-- Where `video_thread` is. In `release_decoder` the flag tells the call that
`droidcam_source_stop` makes when it has joined both threads. -/
inductive VideoPc where
  | loop
  | body
  | running
  | resetTest
  | recvEnter
  | receiving (d : Nat)
  | closeFailed
  | connect
  | send
  | cleanup
  | release (final : Bool)
  | releasing (final : Bool) (d : Nat)
  | deleting (final : Bool) (d : Nat)
  | nulling (final : Bool)
  | exit
  | done
  | finished
  deriving DecidableEq

/-- Where `video_decode_thread` is; `working d` from the load of the pointer to
decoder `d` to the end of the iteration. -/
inductive ThreadPc where
  | top
  | load
  | working (d : Nat)
  | ended
  | faulted
  deriving DecidableEq

/-- An access that the threads must not make: to a decoder that is gone, to a
packet that is gone, to the front of an empty queue. -/
inductive Fault where
  | deletedDecoder (d : Nat)
  | heldPacket (d a : Nat)
  | emptyFront (d : Nat)
  deriving DecidableEq

/-- The members of `droidcam_obs_source` that the two threads use, with their
local state. `sock` is `none` for `INVALID_SOCKET` and `conn` the stream behind
it. The last five fields record the run: the sockets that `connect_device`
returned, the arguments of `net_close`, what has been sent on the current
connection, which decoder was given to `recv_video_frame` on which connection, and
the accesses that must not happen. -/
structure ObsSource where
  format : VideoFormat
  activated : Bool
  isShowing : Bool
  resetRequested : Bool
  stopRequested : Bool
  videoRunning : Bool
  sock : Option Nat
  conn : Sock
  videoDecoder : Option Nat
  decoders : Nat → Pipeline
  created : Nat
  video : VideoPc
  decode : ThreadPc
  opened : List Nat
  closed : List (Option Nat)
  wire : List Char
  fed : List (Nat × Nat)
  faults : List Fault

/-- Answers from outside for a step of `video_thread`: those for the decoder, of
`connect_device` and of `send`, the stream of a new connection, and what the
request is filled with. -/
structure VideoEnv where
  pipe : Env
  socket : Option Nat
  stream : Sock
  req : VideoReq
  sends : List Nat

/-- The decoder that `recv_video_frame` creates, with the codec it initialises. -/
def VideoFormat.kind : VideoFormat → Kind
  | .avc => .ffmpeg .h264
  | .mjpg => .mjpeg
  | .hevc => .ffmpeg .h265

/-- The next access takes the front of an empty queue. -/
def Pipeline.popsNothing (p : Pipeline) : Act → Bool
  | .recv _ =>
      match p.recvPc with
      | .pullPop _ => p.dec.recieveQueue = []
      | _ => false
  | .leave => false
  | .decode _ =>
      match p.decodePc with
      | .popping => p.dec.decodeQueue = []
      | _ => false

/-- The receiving thread turns to `release_decoder`. -/
def Pipeline.retire (e : Env) (p : Pipeline) : Option Pipeline :=
  match p.recvPc with
  | .between => p.step .leave
  | .gaveUp => p.step (.recv e)
  | _ => none

/-- Where `video_thread` goes on after a step of `recv_video_frame`. -/
def afterRecv (d : Nat) : RecvPc → VideoPc
  | .between => .loop
  | .gaveUp => .closeFailed
  | _ => .receiving d

/-- Where `release_decoder` goes on after a test of the wait loop. -/
def afterWait (final : Bool) (d : Nat) : RecvPc → VideoPc
  | .deleting => .deleting final d
  | _ => .releasing final d

/-- Where `video_decode_thread` goes on after a step on decoder `d`. -/
def afterDecode (d : Nat) : DecodePc → ThreadPc
  | .idle => .top
  | .crashed => .faulted
  | _ => .working d

namespace ObsSource

def init (format : VideoFormat) : ObsSource :=
  { format, activated := true, isShowing := true, resetRequested := false
    stopRequested := false, videoRunning := false, sock := none, conn := ⟨[], false, 0⟩
    videoDecoder := none, decoders := fun _ => .init format.kind ⟨[], false, 0⟩, created := 0
    video := .loop, decode := .top, opened := [], closed := [], wire := [], fed := [], faults := [] }

/-- `net_close(sock); sock = INVALID_SOCKET`. -/
def netClose (s : ObsSource) : ObsSource :=
  { s with closed := s.closed ++ [s.sock], sock := none }

/-- `if (sock != INVALID_SOCKET) net_close(sock)`. -/
def closeValid (s : ObsSource) : ObsSource := if s.sock = none then s else s.netClose

def setDecoder (s : ObsSource) (d : Nat) (p : Pipeline) : ObsSource :=
  { s with decoders := Function.update s.decoders d p }

/-- The request is formatted and given to `net_send_all`. -/
def sendReq (e : VideoEnv) (s : ObsSource) : ObsSource :=
  { s with wire := s.wire ++ (netSendAll (e.req.buffer s.format) e.sends).2 }

/-- `video_thread`, and `droidcam_source_stop` from the joins on. -/
def videoStep (e : VideoEnv) (s : ObsSource) : Option ObsSource :=
  match s.video with
  | .loop =>
      if s.stopRequested then some { s with video := .exit } else some { s with video := .body }
  | .body =>
      if s.activated && s.isShowing then some { s with video := .running }
      else some { s with video := .cleanup }
  | .running =>
      if s.videoRunning then some { s with video := .resetTest }
      else some { s with video := .connect }
  | .resetTest =>
      if s.resetRequested then some { s with video := .closeFailed }
      else some { s with video := .recvEnter }
  | .recvEnter =>
      match s.videoDecoder with
      | none =>
          some { s.setDecoder s.created (.init s.format.kind s.conn) with
            created := s.created + 1
            videoDecoder := some s.created
            fed := s.fed ++ [(s.created, s.opened.length)]
            video := .receiving s.created }
      | some d =>
          some { s.setDecoder d { s.decoders d with sock := s.conn } with
            fed := s.fed ++ [(d, s.opened.length)]
            video := .receiving d }
  | .receiving d =>
      match (s.decoders d).step (.recv e.pipe) with
      | none => none
      | some p =>
          some { s.setDecoder d p with
            conn := p.sock
            faults := s.faults ++
              if (s.decoders d).popsNothing (.recv e.pipe) then [.emptyFront d] else []
            video := afterRecv d p.recvPc }
  | .closeFailed =>
      some { s.netClose with resetRequested := false, videoRunning := false, video := .cleanup }
  | .connect =>
      match e.socket with
      | none => some { s with sock := none, video := .cleanup }
      | some fd =>
          some { s with
            sock := some fd, conn := e.stream, opened := s.opened ++ [fd], wire := []
            video := .send }
  | .send =>
      if (netSendAll (e.req.buffer s.format) e.sends).1 then
        some { s.sendReq e with videoRunning := true, video := .loop }
      else some { (s.sendReq e).netClose with video := .cleanup }
  | .cleanup => some { s.closeValid with videoRunning := false, video := .release false }
  | .release final =>
      match s.videoDecoder with
      | none => some { s with video := if final then .finished else .loop }
      | some d =>
          match (s.decoders d).retire e.pipe with
          | none => none
          | some p => some { s.setDecoder d p with video := .releasing final d }
  | .releasing final d =>
      match (s.decoders d).step (.recv { e.pipe with stop := s.stopRequested }) with
      | none => none
      | some p => some { s.setDecoder d p with video := afterWait final d p.recvPc }
  | .deleting final d =>
      match (s.decoders d).step (.recv e.pipe) with
      | none => none
      | some p =>
          some { s.setDecoder d p with
            faults := s.faults ++ ((s.decoders d).dec.destroy.1.filter
              (· ∈ (s.decoders d).decodePc.hand)).map (.heldPacket d)
            video := .nulling final }
  | .nulling final =>
      some { s with videoDecoder := none, video := if final then .finished else .loop }
  | .exit => some { s.closeValid with videoRunning := false, video := .done }
  | .done =>
      match s.decode with
      | .ended => some { s with video := .release true }
      | _ => none
  | .finished => none

/-- `video_decode_thread`; `ok` is what `decode_video` returns. -/
def decodeStep (ok : Bool) (s : ObsSource) : Option ObsSource :=
  match s.decode with
  | .top =>
      if s.stopRequested then some { s with decode := .ended } else some { s with decode := .load }
  | .load =>
      match s.videoDecoder with
      | none => some { s with decode := .top }
      | some d => some { s with decode := .working d }
  | .working d =>
      match (s.decoders d).recvPc with
      | .deleted =>
          some { s with faults := s.faults ++ [.deletedDecoder d], decode := .faulted }
      | _ =>
          match (s.decoders d).step (.decode ok) with
          | none => none
          | some p =>
              some { s.setDecoder d p with
                faults := s.faults ++
                  if (s.decoders d).popsNothing (.decode ok) then [.emptyFront d] else []
                decode := afterDecode d p.decodePc }
  | .ended | .faulted => none

end ObsSource

/-- A step of one of the threads, or a change of a flag from outside. -/
inductive SourceAct where
  | video (e : VideoEnv)
  | decode (ok : Bool)
  | stop
  | reset
  | flags (activated isShowing : Bool)

def ObsSource.step (s : ObsSource) : SourceAct → Option ObsSource
  | .video e => s.videoStep e
  | .decode ok => s.decodeStep ok
  | .stop => some { s with stopRequested := true }
  | .reset => some { s with resetRequested := true }
  | .flags activated isShowing => some { s with activated, isShowing }

/-- The runs of a source, with any video format. -/
def obsSource : Runs.Machine ObsSource SourceAct where
  start s := ∃ format, s = .init format
  step s a := s.step a

/-! ## What one step can do -/

/-- Every step of `video_thread`, with the test that led to it. -/
inductive VideoMove (e : VideoEnv) (s : ObsSource) : ObsSource → Prop
  | quit (hpc : s.video = .loop) : VideoMove e s { s with video := .exit }
  | enter (hpc : s.video = .loop) : VideoMove e s { s with video := .body }
  | active (hpc : s.video = .body) : VideoMove e s { s with video := .running }
  | inactive (hpc : s.video = .body) : VideoMove e s { s with video := .cleanup }
  | isRunning (hpc : s.video = .running) (hr : s.videoRunning = true) :
      VideoMove e s { s with video := .resetTest }
  | notRunning (hpc : s.video = .running) (hr : s.videoRunning = false) :
      VideoMove e s { s with video := .connect }
  | resetAsked (hpc : s.video = .resetTest) : VideoMove e s { s with video := .closeFailed }
  | notAsked (hpc : s.video = .resetTest) : VideoMove e s { s with video := .recvEnter }
  | newDecoder (hpc : s.video = .recvEnter) (hd : s.videoDecoder = none) :
      VideoMove e s { s.setDecoder s.created (.init s.format.kind s.conn) with
        created := s.created + 1
        videoDecoder := some s.created
        fed := s.fed ++ [(s.created, s.opened.length)]
        video := .receiving s.created }
  | oldDecoder {d} (hpc : s.video = .recvEnter) (hd : s.videoDecoder = some d) :
      VideoMove e s { s.setDecoder d { s.decoders d with sock := s.conn } with
        fed := s.fed ++ [(d, s.opened.length)]
        video := .receiving d }
  | receive {d p} (hpc : s.video = .receiving d)
      (hp : pipeline.step (s.decoders d) (.recv e.pipe) = some p) :
      VideoMove e s { s.setDecoder d p with
        conn := p.sock
        faults := s.faults ++
          if (s.decoders d).popsNothing (.recv e.pipe) then [.emptyFront d] else []
        video := afterRecv d p.recvPc }
  | closeFailed (hpc : s.video = .closeFailed) :
      VideoMove e s { s.netClose with
        resetRequested := false, videoRunning := false, video := .cleanup }
  | noConnection (hpc : s.video = .connect) :
      VideoMove e s { s with sock := none, video := .cleanup }
  | connected {fd} (hpc : s.video = .connect) :
      VideoMove e s { s with
        sock := some fd, conn := e.stream, opened := s.opened ++ [fd], wire := []
        video := .send }
  | sent (hpc : s.video = .send)
      (hs : (netSendAll (e.req.buffer s.format) e.sends).1 = true) :
      VideoMove e s { s.sendReq e with videoRunning := true, video := .loop }
  | notSent (hpc : s.video = .send) :
      VideoMove e s { (s.sendReq e).netClose with video := .cleanup }
  | cleanup (hpc : s.video = .cleanup) :
      VideoMove e s { s.closeValid with videoRunning := false, video := .release false }
  | noDecoder {final} (hpc : s.video = .release final) (hd : s.videoDecoder = none) :
      VideoMove e s { s with video := if final then .finished else .loop }
  | retire {final d p} (hpc : s.video = .release final) (hd : s.videoDecoder = some d)
      (hp : (s.decoders d).retire e.pipe = some p) :
      VideoMove e s { s.setDecoder d p with video := .releasing final d }
  | wait {final d p} (hpc : s.video = .releasing final d)
      (hp : pipeline.step (s.decoders d) (.recv { e.pipe with stop := s.stopRequested }) = some p) :
      VideoMove e s { s.setDecoder d p with video := afterWait final d p.recvPc }
  | delete {final d p} (hpc : s.video = .deleting final d)
      (hp : pipeline.step (s.decoders d) (.recv e.pipe) = some p) :
      VideoMove e s { s.setDecoder d p with
        faults := s.faults ++ ((s.decoders d).dec.destroy.1.filter
          (· ∈ (s.decoders d).decodePc.hand)).map (.heldPacket d)
        video := .nulling final }
  | null {final} (hpc : s.video = .nulling final) :
      VideoMove e s { s with
        videoDecoder := none, video := if final then .finished else .loop }
  | exit (hpc : s.video = .exit) :
      VideoMove e s { s.closeValid with videoRunning := false, video := .done }
  | join (hpc : s.video = .done) (he : s.decode = .ended) :
      VideoMove e s { s with video := .release true }

theorem videoStep_move {e : VideoEnv} {s t : ObsSource} (h : s.videoStep e = some t) :
    VideoMove e s t := by
  unfold ObsSource.videoStep at h
  split at h
  · split at h <;> cases h
    · exact .quit ‹_›
    · exact .enter ‹_›
  · split at h <;> cases h
    · exact .active ‹_›
    · exact .inactive ‹_›
  · split at h <;> cases h
    · exact .isRunning ‹_› ‹_›
    · exact .notRunning ‹_› (Bool.eq_false_iff.mpr ‹_›)
  · split at h <;> cases h
    · exact .resetAsked ‹_›
    · exact .notAsked ‹_›
  · split at h <;> cases h
    · exact .newDecoder ‹_› ‹_›
    · exact .oldDecoder ‹_› ‹_›
  · split at h <;> cases h
    exact .receive ‹_› ‹_›
  · cases h
    exact .closeFailed ‹_›
  · split at h <;> cases h
    · exact .noConnection ‹_›
    · exact .connected ‹_›
  · rename_i hpc
    split at h <;> cases h
    · rename_i hs
      exact .sent hpc hs
    · exact .notSent hpc
  · cases h
    exact .cleanup ‹_›
  · split at h
    · cases h
      exact .noDecoder ‹_› ‹_›
    · split at h <;> cases h
      exact .retire ‹_› ‹_› ‹_›
  · split at h <;> cases h
    exact .wait ‹_› ‹_›
  · split at h <;> cases h
    exact .delete ‹_› ‹_›
  · cases h
    exact .null ‹_›
  · cases h
    exact .exit ‹_›
  · split at h <;> cases h
    exact .join ‹_› ‹_›
  · cases h

/-- Every step of `video_decode_thread`. -/
inductive ThreadMove (ok : Bool) (s : ObsSource) : ObsSource → Prop
  | quit (hpc : s.decode = .top) : ThreadMove ok s { s with decode := .ended }
  | enter (hpc : s.decode = .top) : ThreadMove ok s { s with decode := .load }
  | loadNull (hpc : s.decode = .load) (hd : s.videoDecoder = none) :
      ThreadMove ok s { s with decode := .top }
  | load {d} (hpc : s.decode = .load) (hd : s.videoDecoder = some d) :
      ThreadMove ok s { s with decode := .working d }
  | dangling {d} (hpc : s.decode = .working d) (hd : (s.decoders d).recvPc = .deleted) :
      ThreadMove ok s { s with faults := s.faults ++ [.deletedDecoder d], decode := .faulted }
  | work {d p} (hpc : s.decode = .working d) (hd : (s.decoders d).recvPc ≠ .deleted)
      (hp : pipeline.step (s.decoders d) (.decode ok) = some p) :
      ThreadMove ok s { s.setDecoder d p with
        faults := s.faults ++
          if (s.decoders d).popsNothing (.decode ok) then [.emptyFront d] else []
        decode := afterDecode d p.decodePc }

theorem threadStep_move {ok : Bool} {s t : ObsSource} (h : s.decodeStep ok = some t) :
    ThreadMove ok s t := by
  unfold ObsSource.decodeStep at h
  split at h
  · split at h <;> cases h
    · exact .quit ‹_›
    · exact .enter ‹_›
  · split at h <;> cases h
    · exact .loadNull ‹_› ‹_›
    · exact .load ‹_› ‹_›
  · split at h
    · cases h
      exact .dangling ‹_› ‹_›
    · split at h <;> cases h
      exact .work ‹_› ‹_› ‹_›
  · cases h
  · cases h

/-- Every step of a source. -/
inductive SourceMove (s : ObsSource) : SourceAct → ObsSource → Prop
  | video {e t} (h : VideoMove e s t) : SourceMove s (.video e) t
  | decode {ok t} (h : ThreadMove ok s t) : SourceMove s (.decode ok) t
  | stop : SourceMove s .stop { s with stopRequested := true }
  | reset : SourceMove s .reset { s with resetRequested := true }
  | flags {activated isShowing} :
      SourceMove s (.flags activated isShowing) { s with activated, isShowing }

theorem obsSource_move {s t : ObsSource} {a : SourceAct} (h : obsSource.step s a = some t) :
    SourceMove s a t := by
  change s.step a = some t at h
  cases a with
  | video e => exact .video (videoStep_move h)
  | decode ok => exact .decode (threadStep_move h)
  | stop | reset | flags =>
    cases h
    constructor

end DroidcamWhip
