import DroidcamWhip.ReadFrame
import DroidcamWhip.Lib.AnnexB
import DroidcamWhip.Lib.Runs

/-!
The life of one decoder, from `new` in `recv_video_frame` to `delete` in
`release_decoder`, under the two threads that share it. Each step is one access
to what they share: an emptiness test, a locked pop or push, a read of a queue's
size, a read or write of `failed`, one `decode_video` call.
-/

namespace DroidcamWhip

/-- A packet as `read_frame` returned it, the config block read with it (empty
when there was none), and the last config block of the stream up to there. -/
structure Arrival where
  packet : DataPacket
  config : List UInt8
  recent : List UInt8

/-- Where the receiving thread is. `between` and `gaveUp` are the states after
`recv_video_frame` returned true and false. -/
inductive RecvPc where
  | between
  | pullTest (req : Request)
  | pullPop (req : Request)
  | pullNew (req : Request)
  | fill (req : Request) (a : Nat)
  | giveBack (a : Nat)
  | failedTest (a : Nat) (x : Arrival)
  | discardFailed (a : Nat)
  | readyTest (a : Nat) (x : Arrival)
  | pushStart (a : Nat) (x : Arrival)
  | discard (a : Nat) (x : Arrival)
  | enqueue (a : Nat) (x : Arrival)
  | aacTest
  | fullTest
  | gaveUp
  | releasing
  | deleting
  | deleted
  | crashed (held : List Nat)

/-- Where the decoding thread is in its iteration on this decoder. -/
inductive DecodePc where
  | idle
  | popping
  | failedTest (a : Nat)
  | decoding (a : Nat)
  | markFailed (a : Nat)
  | pushing (a : Nat)
  | crashed
  deriving DecidableEq

/-- The packet that the receiving thread holds, if any. -/
def RecvPc.hand : RecvPc → List Nat
  | .fill _ a | .giveBack a | .failedTest a _ | .discardFailed a | .readyTest a _
  | .pushStart a _ | .discard a _ | .enqueue a _ => [a]
  | .crashed held => held
  | _ => []

/-- The packet that the decoding thread holds, if any. -/
def DecodePc.hand : DecodePc → List Nat
  | .failedTest a | .decoding a | .markFailed a | .pushing a => [a]
  | _ => []

/-- The decoder, the connection it is fed from and the two threads. The last
five fields record the run: the last config block, the packets `read_frame`
returned, what `push_ready_packet` did with each packet it was given (`true` for
queued), and the packets the decoding thread pulled and passed to
`decode_video`, as they were then. -/
structure Pipeline where
  dec : Decoder
  sock : Sock
  recvPc : RecvPc
  decodePc : DecodePc
  recent : List UInt8
  arrivals : List Arrival
  verdicts : List (Arrival × Bool)
  pulled : List DataPacket
  decoded : List DataPacket

/-- Answers from outside for a step of the receiving thread: of `brealloc`, of
the decoder's `init`, of a read past the end of a packet's block, and the value
of `stop_requested`. -/
structure Env where
  alloc : Alloc
  initOk : Bool
  oob : UInt8
  stop : Bool

/-- Allocation and `init` succeed, and nobody has asked to stop. -/
def Env.quiet : Env := ⟨some fun _ => 0, true, 0, false⟩

/-! ## `push_ready_packet` -/

/-- The byte from which `push_ready_packet` takes the NAL type. -/
def headerByte (p : DataPacket) (oob : UInt8) : UInt8 :=
  if p.data.getD 2 oob = 1 then p.data.getD 3 oob else p.data.getD 4 oob

/-- The NAL types below which a packet is taken for a P or B frame. -/
def isInterFrame : Kind → UInt8 → Bool
  | .ffmpeg .h264, header => AnnexB.avcType header < 5
  | .ffmpeg .h265, header => AnnexB.hevcType header < 10
  | _, _ => false

/-- The tests by which `push_ready_packet` discards a packet: `FFMpegDecoder`
only while catching up, `MJpegDecoder` whenever two packets wait. -/
def Decoder.discards (d : Decoder) (p : DataPacket) (oob : UInt8) : Bool :=
  match d.kind with
  | .ffmpeg _ =>
      d.catchup && (1 < d.decodeQueue.length || isInterFrame d.kind (headerByte p oob))
  | .mjpeg => 1 < d.decodeQueue.length

/-- Where `push_ready_packet` goes on after `decodeQueue.add_item`. -/
def afterEnqueue : Kind → RecvPc
  | .ffmpeg .aac => .aacTest
  | .ffmpeg _ => .fullTest
  | .mjpeg => .between

/-- `push_ready_packet` is between `add_item` and the last of its size tests. -/
def RecvPc.testing (pc : RecvPc) : Prop := pc = .aacTest ∨ pc = .fullTest

/-! ## The threads -/

namespace Pipeline

/-- `new FFMpegDecoder()` or `new MJpegDecoder()` on a connection. -/
def init (kind : Kind) (sock : Sock) : Pipeline :=
  { dec := .new kind, sock, recvPc := .between, decodePc := .idle, recent := []
    arrivals := [], verdicts := [], pulled := [], decoded := [] }

/-- The receiving thread: `recv_video_frame`, `read_frame`, `push_ready_packet`
and `release_decoder`. -/
def recvStep (e : Env) (s : Pipeline) : Option Pipeline :=
  match s.recvPc with
  | .between =>
      match readHeaders [] false s.sock with
      | (none, _, sock) => some { s with sock, recvPc := .gaveUp }
      | (some req, _, sock) =>
          some { s with
            sock
            recvPc := .pullTest req
            recent := if req.config = [] then s.recent else req.config }
  | .pullTest req =>
      if s.dec.recieveQueue = [] then some { s with recvPc := .pullNew req }
      else some { s with recvPc := .pullPop req }
  | .pullPop req =>
      match s.dec.recieveQueue with
      | [] => some { s with recvPc := .crashed [] }
      | a :: q =>
          some { s with
            dec := s.dec.reusePacket a q (req.config.length + req.len) e.alloc
            recvPc := .fill req a }
  | .pullNew req =>
      some { s with
        dec := s.dec.newPacket (req.config.length + req.len) e.alloc
        recvPc := .fill req s.dec.issued }
  | .fill req a =>
      match fill s.dec a req s.sock with
      | .crash => some { s with recvPc := .crashed [a] }
      | .short dec sock => some { s with dec, sock, recvPc := .giveBack a }
      | .done dec sock =>
          let x : Arrival := ⟨dec.heap a, req.config, s.recent⟩
          some { s with dec, sock, recvPc := .failedTest a x, arrivals := s.arrivals ++ [x] }
  | .giveBack a => some { s with dec := s.dec.pushEmptyPacket a, recvPc := .gaveUp }
  | .failedTest a x =>
      if s.dec.failed then some { s with recvPc := .discardFailed a }
      else some { s with recvPc := .readyTest a x }
  | .discardFailed a => some { s with dec := s.dec.pushEmptyPacket a, recvPc := .between }
  | .readyTest a x =>
      if s.dec.ready then some { s with recvPc := .pushStart a x }
      else if e.initOk then
        some { s with dec := { s.dec with ready := true }, recvPc := .pushStart a x }
      else some { s with dec := { s.dec with failed := true }, recvPc := .discardFailed a }
  | .pushStart a x =>
      if s.dec.discards (s.dec.heap a) e.oob then some { s with recvPc := .discard a x }
      else some { s with dec := { s.dec with catchup := false }, recvPc := .enqueue a x }
  | .discard a x =>
      some { s with
        dec := s.dec.pushEmptyPacket a
        recvPc := .between
        verdicts := s.verdicts ++ [(x, false)] }
  | .enqueue a x =>
      some { s with
        dec := s.dec.enqueue a
        recvPc := afterEnqueue s.dec.kind
        verdicts := s.verdicts ++ [(x, true)] }
  | .aacTest =>
      if s.dec.decodeQueue.length > 1000 / 23 then
        some { s with dec := { s.dec with catchup := true }, recvPc := .between }
      else some { s with recvPc := .fullTest }
  | .fullTest =>
      if s.dec.decodeQueue.length > 30 then
        some { s with dec := { s.dec with catchup := true }, recvPc := .between }
      else some { s with recvPc := .between }
  | .gaveUp => some { s with recvPc := .releasing }
  | .releasing =>
      if s.dec.recieveQueue.length < s.dec.allocCount ∧ e.stop = false then some s
      else some { s with recvPc := .deleting }
  | .deleting => some { s with recvPc := .deleted }
  | .deleted | .crashed _ => none

/-- The decoding thread: `video_decode_thread` from `pull_ready_packet` to
`push_empty_packet`; `ok` is what `decode_video` returns. -/
def decodeStep (ok : Bool) (s : Pipeline) : Option Pipeline :=
  match s.decodePc with
  | .idle =>
      if s.dec.decodeQueue = [] then some s else some { s with decodePc := .popping }
  | .popping =>
      match s.dec.decodeQueue with
      | [] => some { s with decodePc := .crashed }
      | a :: q =>
          some { s with
            dec := { s.dec with decodeQueue := q }
            decodePc := .failedTest a
            pulled := s.pulled ++ [s.dec.heap a] }
  | .failedTest a =>
      if s.dec.failed then some { s with decodePc := .pushing a }
      else some { s with decodePc := .decoding a }
  | .decoding a =>
      some { s with
        decodePc := if ok then .pushing a else .markFailed a
        decoded := s.decoded ++ [s.dec.heap a] }
  | .markFailed a =>
      some { s with dec := { s.dec with failed := true }, decodePc := .pushing a }
  | .pushing a => some { s with dec := s.dec.pushEmptyPacket a, decodePc := .idle }
  | .crashed => none

end Pipeline

/-- `leave` takes the receiving thread to `release_decoder` without a failed
read: the source was deactivated or reset. -/
inductive Act where
  | recv (e : Env)
  | leave
  | decode (ok : Bool)

def Pipeline.step (s : Pipeline) : Act → Option Pipeline
  | .recv e => s.recvStep e
  | .leave =>
      match s.recvPc with
      | .between => some { s with recvPc := .releasing }
      | _ => none
  | .decode ok =>
      match s.recvPc with
      | .deleted => none
      | _ => s.decodeStep ok

/-- The runs of one decoder, of any kind and on any connection. -/
def pipeline : Runs.Machine Pipeline Act where
  start s := ∃ kind sock, s = .init kind sock
  step s a := s.step a

/-! ## What one step can do -/

theorem afterEnqueue_cases (kind : Kind) :
    afterEnqueue kind = .between ∨ afterEnqueue kind = .aacTest ∨ afterEnqueue kind = .fullTest := by
  cases kind with
  | mjpeg => exact .inl rfl
  | ffmpeg id => cases id <;> simp [afterEnqueue]

theorem afterEnqueue_testing {kind : Kind} (h : kind ≠ .mjpeg) :
    (afterEnqueue kind).testing := by
  cases kind with
  | mjpeg => exact absurd rfl h
  | ffmpeg id => cases id <;> simp [afterEnqueue, RecvPc.testing]

/-- The arrival recorded when the payload of `req` is in the packet at `a`. -/
def Pipeline.arrival (s : Pipeline) (dec : Decoder) (a : Nat) (req : Request) : Arrival :=
  ⟨dec.heap a, req.config, s.recent⟩

/-- Every step of the receiving thread, with the test that led to it. -/
inductive RecvMove (e : Env) (s : Pipeline) : Pipeline → Prop
  | noHeaders {hc sock} (hpc : s.recvPc = .between)
      (hr : readHeaders [] false s.sock = (none, hc, sock)) :
      RecvMove e s { s with sock, recvPc := .gaveUp }
  | headers {req hc sock} (hpc : s.recvPc = .between)
      (hr : readHeaders [] false s.sock = (some req, hc, sock)) :
      RecvMove e s { s with
        sock
        recvPc := .pullTest req
        recent := if req.config = [] then s.recent else req.config }
  | poolEmpty {req} (hpc : s.recvPc = .pullTest req) (hq : s.dec.recieveQueue = []) :
      RecvMove e s { s with recvPc := .pullNew req }
  | poolFilled {req} (hpc : s.recvPc = .pullTest req) (hq : s.dec.recieveQueue ≠ []) :
      RecvMove e s { s with recvPc := .pullPop req }
  | popNothing {req} (hpc : s.recvPc = .pullPop req) (hq : s.dec.recieveQueue = []) :
      RecvMove e s { s with recvPc := .crashed [] }
  | pop {req a q} (hpc : s.recvPc = .pullPop req) (hq : s.dec.recieveQueue = a :: q) :
      RecvMove e s { s with
        dec := s.dec.reusePacket a q (req.config.length + req.len) e.alloc
        recvPc := .fill req a }
  | allocate {req} (hpc : s.recvPc = .pullNew req) :
      RecvMove e s { s with
        dec := s.dec.newPacket (req.config.length + req.len) e.alloc
        recvPc := .fill req s.dec.issued }
  | overrun {req a} (hpc : s.recvPc = .fill req a) (hf : fill s.dec a req s.sock = .crash) :
      RecvMove e s { s with recvPc := .crashed [a] }
  | short {req a dec sock} (hpc : s.recvPc = .fill req a)
      (hf : fill s.dec a req s.sock = .short dec sock) :
      RecvMove e s { s with dec, sock, recvPc := .giveBack a }
  | filled {req a dec sock} (hpc : s.recvPc = .fill req a)
      (hf : fill s.dec a req s.sock = .done dec sock) :
      RecvMove e s { s with
        dec, sock
        recvPc := .failedTest a (s.arrival dec a req)
        arrivals := s.arrivals ++ [s.arrival dec a req] }
  | giveBack {a} (hpc : s.recvPc = .giveBack a) :
      RecvMove e s { s with dec := s.dec.pushEmptyPacket a, recvPc := .gaveUp }
  | failed {a x} (hpc : s.recvPc = .failedTest a x) (hf : s.dec.failed = true) :
      RecvMove e s { s with recvPc := .discardFailed a }
  | notFailed {a x} (hpc : s.recvPc = .failedTest a x) (hf : s.dec.failed = false) :
      RecvMove e s { s with recvPc := .readyTest a x }
  | discardFailed {a} (hpc : s.recvPc = .discardFailed a) :
      RecvMove e s { s with dec := s.dec.pushEmptyPacket a, recvPc := .between }
  | ready {a x} (hpc : s.recvPc = .readyTest a x) (hr : s.dec.ready = true) :
      RecvMove e s { s with recvPc := .pushStart a x }
  | initOk {a x} (hpc : s.recvPc = .readyTest a x) (hr : s.dec.ready = false) :
      RecvMove e s { s with dec := { s.dec with ready := true }, recvPc := .pushStart a x }
  | initFails {a x} (hpc : s.recvPc = .readyTest a x) (hr : s.dec.ready = false) :
      RecvMove e s { s with dec := { s.dec with failed := true }, recvPc := .discardFailed a }
  | drop {a x} (hpc : s.recvPc = .pushStart a x)
      (hd : s.dec.discards (s.dec.heap a) e.oob = true) :
      RecvMove e s { s with recvPc := .discard a x }
  | keep {a x} (hpc : s.recvPc = .pushStart a x)
      (hd : s.dec.discards (s.dec.heap a) e.oob = false) :
      RecvMove e s { s with dec := { s.dec with catchup := false }, recvPc := .enqueue a x }
  | discard {a x} (hpc : s.recvPc = .discard a x) :
      RecvMove e s { s with
        dec := s.dec.pushEmptyPacket a
        recvPc := .between
        verdicts := s.verdicts ++ [(x, false)] }
  | enqueue {a x} (hpc : s.recvPc = .enqueue a x) :
      RecvMove e s { s with
        dec := s.dec.enqueue a
        recvPc := afterEnqueue s.dec.kind
        verdicts := s.verdicts ++ [(x, true)] }
  | aacLow (hpc : s.recvPc = .aacTest) : RecvMove e s { s with recvPc := .fullTest }
  | full (hpc : s.recvPc = .aacTest ∨ s.recvPc = .fullTest) :
      RecvMove e s { s with dec := { s.dec with catchup := true }, recvPc := .between }
  | notFull (hpc : s.recvPc = .fullTest) (hl : s.dec.decodeQueue.length ≤ 30) :
      RecvMove e s { s with recvPc := .between }
  | close (hpc : s.recvPc = .gaveUp) : RecvMove e s { s with recvPc := .releasing }
  | wait (hpc : s.recvPc = .releasing) : RecvMove e s s
  | proceed (hpc : s.recvPc = .releasing)
      (hw : s.dec.allocCount ≤ s.dec.recieveQueue.length ∨ e.stop = true) :
      RecvMove e s { s with recvPc := .deleting }
  | delete (hpc : s.recvPc = .deleting) : RecvMove e s { s with recvPc := .deleted }

theorem recvStep_move {e : Env} {s t : Pipeline} (h : s.recvStep e = some t) :
    RecvMove e s t := by
  unfold Pipeline.recvStep at h
  split at h
  · split at h <;> cases h
    · exact .noHeaders ‹_› ‹_›
    · exact .headers ‹_› ‹_›
  · split at h <;> cases h
    · exact .poolEmpty ‹_› ‹_›
    · exact .poolFilled ‹_› ‹_›
  · split at h <;> cases h
    · exact .popNothing ‹_› ‹_›
    · exact .pop ‹_› ‹_›
  · cases h
    exact .allocate ‹_›
  · split at h <;> cases h
    · exact .overrun ‹_› ‹_›
    · exact .short ‹_› ‹_›
    · exact .filled ‹_› ‹_›
  · cases h
    exact .giveBack ‹_›
  · split at h <;> cases h
    · exact .failed ‹_› ‹_›
    · exact .notFailed ‹_› (Bool.eq_false_iff.mpr ‹_›)
  · cases h
    exact .discardFailed ‹_›
  · split at h
    · cases h
      exact .ready ‹_› ‹_›
    · have hr := Bool.eq_false_iff.mpr ‹¬s.dec.ready = true›
      split at h <;> cases h
      · exact .initOk ‹_› hr
      · exact .initFails ‹_› hr
  · split at h <;> cases h
    · exact .drop ‹_› ‹_›
    · exact .keep ‹_› (Bool.eq_false_iff.mpr ‹_›)
  · cases h
    exact .discard ‹_›
  · cases h
    exact .enqueue ‹_›
  · split at h <;> cases h
    · exact .full (.inl ‹_›)
    · exact .aacLow ‹_›
  · split at h <;> cases h
    · exact .full (.inr ‹_›)
    · exact .notFull ‹_› (Nat.le_of_not_lt ‹_›)
  · cases h
    exact .close ‹_›
  · split at h <;> cases h
    · exact .wait ‹_›
    · rename_i hw
      refine .proceed ‹_› ?_
      cases hstop : e.stop
      · exact .inl (Nat.le_of_not_lt fun hlt => hw ⟨hlt, hstop⟩)
      · exact .inr rfl
  · cases h
    exact .delete ‹_›
  · cases h
  · cases h

/-- Every step of the decoding thread. -/
inductive DecodeMove (s : Pipeline) : Pipeline → Prop
  | sleep (hpc : s.decodePc = .idle) : DecodeMove s s
  | found (hpc : s.decodePc = .idle) (hq : s.dec.decodeQueue ≠ []) :
      DecodeMove s { s with decodePc := .popping }
  | popNothing (hpc : s.decodePc = .popping) (hq : s.dec.decodeQueue = []) :
      DecodeMove s { s with decodePc := .crashed }
  | pop {a q} (hpc : s.decodePc = .popping) (hq : s.dec.decodeQueue = a :: q) :
      DecodeMove s { s with
        dec := { s.dec with decodeQueue := q }
        decodePc := .failedTest a
        pulled := s.pulled ++ [s.dec.heap a] }
  | failed {a} (hpc : s.decodePc = .failedTest a) (hf : s.dec.failed = true) :
      DecodeMove s { s with decodePc := .pushing a }
  | notFailed {a} (hpc : s.decodePc = .failedTest a) (hf : s.dec.failed = false) :
      DecodeMove s { s with decodePc := .decoding a }
  | decoded {a} (hpc : s.decodePc = .decoding a) :
      DecodeMove s { s with decodePc := .pushing a, decoded := s.decoded ++ [s.dec.heap a] }
  | decodeFails {a} (hpc : s.decodePc = .decoding a) :
      DecodeMove s { s with decodePc := .markFailed a, decoded := s.decoded ++ [s.dec.heap a] }
  | markFailed {a} (hpc : s.decodePc = .markFailed a) :
      DecodeMove s { s with dec := { s.dec with failed := true }, decodePc := .pushing a }
  | push {a} (hpc : s.decodePc = .pushing a) :
      DecodeMove s { s with dec := s.dec.pushEmptyPacket a, decodePc := .idle }

theorem decodeStep_move {ok : Bool} {s t : Pipeline} (h : s.decodeStep ok = some t) :
    DecodeMove s t := by
  unfold Pipeline.decodeStep at h
  split at h
  · split at h <;> cases h
    · exact .sleep ‹_›
    · exact .found ‹_› ‹_›
  · split at h <;> cases h
    · exact .popNothing ‹_› ‹_›
    · exact .pop ‹_› ‹_›
  · split at h <;> cases h
    · exact .failed ‹_› ‹_›
    · exact .notFailed ‹_› (Bool.eq_false_iff.mpr ‹_›)
  · cases h
    cases ok
    · exact .decodeFails ‹_›
    · exact .decoded ‹_›
  · cases h
    exact .markFailed ‹_›
  · cases h
    exact .push ‹_›
  · cases h

/-- Every step of a decoder's life. -/
inductive Move (s : Pipeline) : Act → Pipeline → Prop
  | recv {e t} (h : RecvMove e s t) : Move s (.recv e) t
  | leave (hpc : s.recvPc = .between) : Move s .leave { s with recvPc := .releasing }
  | decode {ok t} (hlive : s.recvPc ≠ .deleted) (h : DecodeMove s t) : Move s (.decode ok) t

theorem step_move {s t : Pipeline} {a : Act} (h : pipeline.step s a = some t) : Move s a t := by
  change s.step a = some t at h
  cases a with
  | recv e => exact .recv (recvStep_move h)
  | leave =>
    simp only [Pipeline.step] at h
    split at h <;> cases h
    exact .leave ‹_›
  | decode ok =>
    simp only [Pipeline.step] at h
    split at h
    · cases h
    · exact .decode ‹_› (decodeStep_move h)

/-- The decoding thread only ever shortens the queue. -/
theorem decodeMove_queue {s t : Pipeline} (hm : DecodeMove s t) :
    t.dec.decodeQueue.length ≤ s.dec.decodeQueue.length ∧ t.dec.kind = s.dec.kind ∧
      t.dec.catchup = s.dec.catchup ∧ t.dec.issued = s.dec.issued ∧ t.recvPc = s.recvPc := by
  cases hm
  case pop hpc hq => exact ⟨by simp [hq], rfl, rfl, rfl, rfl⟩
  all_goals exact ⟨Nat.le_refl _, rfl, rfl, rfl, rfl⟩

/-- The decoding thread touches neither the packet being received nor the record
of what was queued, and `failed` only to set it. -/
theorem decodeMove_record {s t : Pipeline} (hm : DecodeMove s t) :
    t.recvPc = s.recvPc ∧ t.recent = s.recent ∧ t.verdicts = s.verdicts ∧
      t.arrivals = s.arrivals ∧ t.sock = s.sock ∧
      (s.dec.failed = true → t.dec.failed = true) := by
  cases hm <;> simp [Decoder.pushEmptyPacket]

theorem decodeMove_heap {s t : Pipeline} (hm : DecodeMove s t) : t.dec.heap = s.dec.heap := by
  cases hm <;> rfl

end DroidcamWhip
