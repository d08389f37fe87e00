import Mathlib.Data.Rat.Floor
import Mathlib.Algebra.Order.Round
import Mathlib.Tactic.FieldSimp
import Mathlib.Tactic.Positivity
import DroidcamWhip.Lib.Clock
import DroidcamWhip.OutputLife

/-!
The timestamps of encoded frames: `next_pts` makes a clock of them that follows
the source and never stands still, in 64 bits and over the whole use of an encoder.
-/

namespace DroidcamWhip

/-! ## Rescaled timestamps -/

theorem divRound_eq_round {n : Int} {d : Nat} (hn : 0 ≤ n) (hd : 0 < d) :
    divRound n d = round ((n : ℚ) / d) := by
  have hhalf : (n : ℚ) / d + 1 / 2 = ((2 * n + d : ℤ) : ℚ) / ((2 * d : ℕ) : ℚ) := by
    have hd' : (d : ℚ) ≠ 0 := by exact_mod_cast hd.ne'
    push_cast
    field_simp
  rw [divRound, if_pos hn, round_eq, hhalf, Rat.floor_intCast_div_natCast]
  push_cast
  rfl

/-- The timestamp of the source in frames, rounded half away from zero. -/
def rescaled (fps : Int32) (pts : Int64) : ℤ :=
  round ((pts.toInt * fps.toInt : ℚ) / 1000000)

section Rescaled

variable {fps : Int32} {pts : Int64}

theorem rescaled_eq (hfps : 1 ≤ fps.toInt) (hpts : 0 ≤ pts) :
    rescaled fps pts = divRound (pts.toInt * fps.toInt) 1000000 := by
  have hpts' : 0 ≤ pts.toInt := Int64.le_iff_toInt_le.mp hpts
  have hround := divRound_eq_round (d := 1000000) (Int.mul_nonneg hpts' (by omega : 0 ≤ fps.toInt))
    (by decide)
  rw [rescaled]
  push_cast at hround
  exact hround.symm

/-- There is room for 2 ^ 43 more frames. -/
theorem rescaled_bounds (hfps : 1 ≤ fps.toInt) (hfps' : fps.toInt < 1000000) (hpts : 0 ≤ pts) :
    0 ≤ rescaled fps pts ∧ rescaled fps pts ≤ 2 ^ 63 - 2 ^ 43 := by
  have hpts' : 0 ≤ pts.toInt := Int64.le_iff_toInt_le.mp hpts
  have hpos : 0 ≤ pts.toInt * fps.toInt := Int.mul_nonneg hpts' (by omega)
  have hle : pts.toInt * fps.toInt ≤ (2 ^ 63 - 1) * 999999 :=
    Int.mul_le_mul (Int.le_sub_one_of_lt pts.toInt_lt) (by omega) (by omega) (by decide)
  rw [rescaled_eq hfps hpts, divRound, if_pos hpos]
  omega

theorem avRescaleQ_toInt (hfps : 1 ≤ fps.toInt) (hfps' : fps.toInt < 1000000) (hpts : 0 ≤ pts) :
    (avRescaleQ pts ⟨1, 1000000⟩ ⟨1, fps.toInt⟩).toInt = rescaled fps pts := by
  obtain ⟨hlow, hhigh⟩ := rescaled_bounds hfps hfps' hpts
  have heq : divRound (pts.toInt * (1 * fps.toInt)) (1000000 * 1) = rescaled fps pts := by
    rw [one_mul, mul_one, rescaled_eq hfps hpts]
  simp only [avRescaleQ]
  rw [heq, if_pos (by omega), Int64.toInt_ofInt_of_le (by omega) (by omega)]

end Rescaled

/-- What a frame's timestamp says about its time. -/
def source (fps : Int32) (pts : Int64) : Option ℤ :=
  if 0 ≤ pts then some (rescaled fps pts) else none

/-! ## The clock of a context -/

/-- The frame rate of a context that is made for `fps`. -/
def frameRate (fps : Int32) : Int32 := if 0 < fps then fps else 25

theorem frameRate_of_pos {fps : Int32} (h : 1 ≤ fps.toInt) : frameRate fps = fps :=
  if_pos (Int32.lt_iff_toInt_lt.mpr (Int.lt_of_lt_of_le Int.zero_lt_one h))

namespace Rtsp

variable (s : Rtsp)

/-- There is an encoder that can be given a frame, or is at work on one. -/
def Busy : Prop := s.pc = .idle ∨ s.pc = .receiving

/-- What the frames came with. -/
def sources : List (Option ℤ) := s.stamps.frames.map fun p => source s.stamps.fps p.1

end Rtsp

/-- The stamps of the frames are the readings of a clock, and `next_pts` is its next
time. -/
structure Clocked (s : Rtsp) : Prop where
  readings : s.stamps.frames.map (fun p => p.2.map Int64.toInt) =
    (Clock.readings 1 0 s.sources).map some
  next : s.Busy → s.ctx.nextPts.toInt = Clock.after 1 0 s.sources

/-- The use that the clock is meant for. -/
structure InRange (s : Rtsp) : Prop where
  pos : 1 ≤ s.stamps.fps.toInt
  lt : s.stamps.fps.toInt < 1000000
  length : s.stamps.frames.length < 2 ^ 40

theorem length_sources (s : Rtsp) : s.sources.length = s.stamps.frames.length := List.length_map _

theorem sources_le {s : Rtsp} (hs : InRange s) {r : ℤ} (hr : some r ∈ s.sources) :
    r ≤ 2 ^ 63 - 2 ^ 43 := by
  obtain ⟨p, _, hp⟩ := List.mem_map.mp hr
  unfold source at hp
  split at hp
  · cases hp
    exact (rescaled_bounds hs.pos hs.lt ‹_›).2
  · cases hp

/-- The clock stays far from the end of 64 bits. -/
theorem after_sources_le {s : Rtsp} (hs : InRange s) :
    Clock.after 1 0 s.sources ≤ 2 ^ 63 - 2 ^ 43 + s.stamps.frames.length := by
  have hstart : (0 : ℤ) ≤ 2 ^ 63 - 2 ^ 43 := by decide
  have hle := Clock.after_le Int.one_nonneg hstart fun _ hr => sources_le hs hr
  rwa [length_sources, nsmul_one] at hle

/-- The timestamp step is a tick of the clock, and the frame is sent with it. -/
theorem stamp_clocked {s : Rtsp} (hs : InRange s) (h : Clocked s) (hbusy : s.Busy)
    (htime : s.ctx.timeBase = ⟨1, s.stamps.fps.toInt⟩) (hframe : s.ctx.frame.isSome = true)
    (pts : Int64) : Clocked ((s.stamp pts).sendFrame pts) := by
  have hsources : ((s.stamp pts).sendFrame pts).sources =
      s.sources ++ [source s.stamps.fps pts] := List.map_append ..
  have hafter := after_sources_le hs
  have hlen := hs.length
  obtain ⟨f, hstamps, hnext, hf⟩ : ∃ f,
      ((s.stamp pts).sendFrame pts).stamps.frames = s.stamps.frames ++ [(pts, some f)] ∧
      ((s.stamp pts).sendFrame pts).ctx.nextPts = f + 1 ∧
      f.toInt = Clock.tick (Clock.after 1 0 s.sources) (source s.stamps.fps pts) := by
    obtain ⟨g, hg⟩ := Option.isSome_iff_exists.mp hframe
    refine ⟨_, by simp only [Rtsp.sendFrame, Rtsp.stamp, hg, Option.map_some], rfl, ?_⟩
    rw [← h.next hbusy, htime]
    unfold source
    split
    · rename_i hpts
      have hrescaled := avRescaleQ_toInt hs.pos hs.lt hpts
      rw [Clock.tick]
      split
      · rename_i hlt
        rw [Int64.lt_iff_toInt_lt, hrescaled] at hlt
        rw [max_eq_right (by omega)]
      · rename_i hlt
        rw [Int64.lt_iff_toInt_lt, hrescaled] at hlt
        rw [max_eq_left (by omega), hrescaled]
    · split <;> rfl
  have hbound : f.toInt < 2 ^ 63 - 1 := by
    rw [hf]
    unfold source
    split
    · have := (rescaled_bounds hs.pos hs.lt ‹_›).2
      rw [Clock.tick, max_lt_iff]
      omega
    · rw [Clock.tick]
      omega
  constructor
  · rw [hstamps, hsources, List.map_append, h.readings, Clock.readings_snoc, List.map_append,
      List.map_singleton, List.map_singleton, Option.map_some, hf]
  · intro _
    rw [hnext, hsources, Clock.after_snoc, Int64.toInt_add, hf]
    have hlow := f.le_toInt
    rw [hf] at hlow hbound
    exact Int.bmod_eq_of_le (by simp; omega) (by simp; omega)

/-- What belongs to the clock is as it was. -/
structure SameClock (s t : Rtsp) : Prop where
  stamps : t.stamps = s.stamps
  nextPts : t.ctx.nextPts = s.ctx.nextPts
  timeBase : t.ctx.timeBase = s.ctx.timeBase

theorem SameClock.trans {s t u : Rtsp} (h : SameClock s t) (h' : SameClock t u) : SameClock s u :=
  ⟨h'.stamps.trans h.stamps, h'.nextPts.trans h.nextPts, h'.timeBase.trans h.timeBase⟩

/-- The output has no part in the clock, nor in the frame. -/
theorem SameCore.sameClock {s t : Rtsp} (h : SameCore s t) :
    SameClock s t ∧ t.ctx.frame = s.ctx.frame :=
  ⟨⟨h.stamps, (congrArg EncoderRtspCtx.nextPts h.core :), (congrArg EncoderRtspCtx.timeBase h.core :)⟩,
    (congrArg EncoderRtspCtx.frame h.core :)⟩

/-- The stamps of a use are a clock, in the time base of its codec, and there is a
frame to stamp. -/
structure ClockOk (s : Rtsp) : Prop where
  timeBase : s.Busy → s.ctx.timeBase = ⟨1, (frameRate s.stamps.fps).toInt⟩
  frame : s.Busy → s.ctx.frame.isSome = true
  clocked : InRange s → Clocked s

theorem SameClock.clockOk {s t : Rtsp} (h : SameClock s t) (hframe : t.ctx.frame = s.ctx.frame)
    (hs : ClockOk s) (hpc : t.Busy → s.Busy) : ClockOk t := by
  have hsources : t.sources = s.sources := by rw [Rtsp.sources, Rtsp.sources, h.stamps]
  constructor
  · intro hbusy
    rw [h.timeBase, h.stamps]
    exact hs.timeBase (hpc hbusy)
  · intro hbusy
    rw [hframe]
    exact hs.frame (hpc hbusy)
  · intro ht
    obtain ⟨hreadings, hafter⟩ := hs.clocked ⟨h.stamps ▸ ht.pos, h.stamps ▸ ht.lt, h.stamps ▸ ht.length⟩
    refine ⟨by rw [h.stamps, hsources, hreadings], fun hbusy => ?_⟩
    rw [h.nextPts, hsources, hafter (hpc hbusy)]

/-! ## `encoder_rtsp_init` -/

/-- No frame has been stamped yet. -/
structure Unstamped (s : Rtsp) : Prop where
  frames : s.stamps.frames = []
  nextPts : s.ctx.nextPts = 0
  fps : s.ctx.fps = frameRate s.stamps.fps

theorem Unstamped.clocked {s : Rtsp} (hframes : s.stamps.frames = [])
    (hnext : s.Busy → s.ctx.nextPts = 0) : Clocked s := by
  have hsources : s.sources = [] := by rw [Rtsp.sources, hframes, List.map_nil]
  refine ⟨?_, fun hbusy => ?_⟩
  · rw [hframes, hsources]
    rfl
  · rw [hnext hbusy, hsources]
    rfl

/-- A codec that opens has the frame rate for its time base. -/
theorem initEncoder_unstamped {s : Rtsp} (h : Unstamped s) (a : Rtsp.CodecAnswer) :
    Unstamped (s.initEncoder a).2 ∧ (¬ (s.initEncoder a).1 < 0 →
      (s.initEncoder a).2.ctx.timeBase =
        ⟨1, (frameRate (s.initEncoder a).2.stamps.fps).toInt⟩) := by
  have hsame : ∀ t : Rtsp, t.stamps = s.stamps → t.ctx.nextPts = s.ctx.nextPts →
      t.ctx.fps = s.ctx.fps → Unstamped t := fun t hstamps hnext hfps =>
    ⟨hstamps ▸ h.frames, hnext.trans h.nextPts, by rw [hfps, hstamps, h.fps]⟩
  unfold Rtsp.initEncoder
  split
  · exact ⟨h, fun hneg => absurd (show Rtsp.encoderNotFound < 0 by decide) hneg⟩
  · split
    · exact ⟨hsame _ rfl rfl rfl, fun hneg => absurd (show Rtsp.enomem < 0 by decide) hneg⟩
    · dsimp only
      split
      · exact ⟨hsame _ rfl rfl rfl, fun hneg => absurd ‹a.opened < 0› hneg⟩
      · refine ⟨hsame _ rfl rfl rfl, fun _ => ?_⟩
        exact congrArg (fun fps : Int32 => (⟨1, fps.toInt⟩ : AvRational)) h.fps

theorem initBuffers_same {s : Rtsp} (hopts : s.opts = none) (a : Rtsp.InitAnswer) :
    SameClock s (s.initBuffers a) := by
  refine (@initBuffers_rule (fun t => SameClock s t ∧ t.opts = none) s a ?_ ?_
    (fun t ht _ => ?_) (fun t ht _ => ?_) fun t pc ht => ?_).1
  · exact ⟨⟨rfl, rfl, rfl⟩, hopts⟩
  · exact ⟨⟨rfl, rfl, rfl⟩, hopts⟩
  · exact ⟨⟨ht.1.stamps, ht.1.nextPts, ht.1.timeBase⟩, ht.2⟩
  · have hcore := @openOutput_core a.output (t.make fun id => { t.ctx with sws := some id }) ht.2
    have hmake : SameClock s (t.make fun id => { t.ctx with sws := some id }) :=
      ⟨ht.1.stamps, ht.1.nextPts, ht.1.timeBase⟩
    exact ⟨hmake.trans hcore.sameClock.1, hcore.opts.trans ht.2⟩
  · exact ⟨⟨ht.1.stamps, ht.1.nextPts, ht.1.timeBase⟩, ht.2⟩

/-- `encoder_rtsp_init` does not return a context without a frame. -/
theorem initBuffers_frame {s : Rtsp} (hopts : s.opts = none) (a : Rtsp.InitAnswer) :
    (s.initBuffers a).pc = .closing ∨
      (s.initBuffers a).pc = .idle ∧ (s.initBuffers a).ctx.frame.isSome = true := by
  unfold Rtsp.initBuffers
  dsimp only
  split
  · exact .inl rfl
  · rename_i hmade
    split
    · exact .inl rfl
    · split
      · exact .inl rfl
      · obtain ⟨hframe, hpacket⟩ : a.frame = true ∧ a.packet = true := by simpa using hmade
        have hcore : ∀ t : Rtsp, t.opts = s.opts →
            (t.openOutput a.output).2.ctx.frame = t.ctx.frame := fun t ht =>
          (openOutput_core a.output (ht.trans hopts)).sameClock.2
        refine .inr ⟨rfl, ?_⟩
        simp only [hframe, hpacket, if_true]
        rw [hcore]
        · rfl
        · rfl

theorem initEncoder_opts {s : Rtsp} (h : s.opts = none) (a : Rtsp.CodecAnswer) :
    (s.initEncoder a).2.opts = none := by
  unfold Rtsp.initEncoder
  split
  · exact h
  · split
    · exact h
    · dsimp only
      split <;> rfl

theorem initBuffers_clockOk {s : Rtsp} (h : Unstamped s) (hopts : s.opts = none)
    (htime : s.ctx.timeBase = ⟨1, (frameRate s.stamps.fps).toInt⟩) (a : Rtsp.InitAnswer) :
    ClockOk (s.initBuffers a) := by
  have hsame := initBuffers_same hopts a
  have hclocked : Clocked (s.initBuffers a) :=
    Unstamped.clocked (hsame.stamps ▸ h.frames) fun _ => hsame.nextPts.trans h.nextPts
  refine ⟨fun _ => ?_, fun hbusy => ?_, fun _ => hclocked⟩
  · rw [hsame.timeBase, hsame.stamps, htime]
  · rcases initBuffers_frame hopts a with hclosing | ⟨_, hframe⟩
    · simp [Rtsp.Busy, hclosing] at hbusy
    · exact hframe

theorem initCodec_clockOk {s : Rtsp} (h : Unstamped s) (hopts : s.opts = none)
    (a : Rtsp.InitAnswer) : ClockOk (s.initCodec a) := by
  obtain ⟨h1, htime1⟩ := initEncoder_unstamped h a.nvenc
  have hopts1 := initEncoder_opts hopts a.nvenc
  unfold Rtsp.initCodec
  dsimp only
  split
  · obtain ⟨h2, htime2⟩ := initEncoder_unstamped h1 a.x264
    split
    · exact ⟨by simp [Rtsp.Busy], by simp [Rtsp.Busy],
        fun _ => Unstamped.clocked h2.frames fun _ => h2.nextPts⟩
    · exact initBuffers_clockOk h2 (initEncoder_opts hopts1 a.x264) (htime2 ‹_›) a
  · exact initBuffers_clockOk h1 hopts1 (htime1 ‹_›) a

theorem encoderRtspInit_clockOk {s : Rtsp} (h : ClockOk s) (hopts : s.opts = none)
    (width height fps : Int32) (a : Rtsp.InitAnswer) :
    ClockOk (s.encoderRtspInit width height fps a) := by
  unfold Rtsp.encoderRtspInit
  split
  · exact h
  · refine initCodec_clockOk ?_ ?_ a
    · unfold Rtsp.allocCtx
      dsimp only
      split <;> exact ⟨rfl, rfl, rfl⟩
    · unfold Rtsp.allocCtx
      dsimp only
      split <;> exact hopts

/-! ## Runs -/

theorem beginFrame_clockOk {s : Rtsp} (h : ClockOk s) (hidle : s.pc = .idle) (hasData : Bool)
    (pts : Int64) (writable send : Int) : ClockOk (s.beginFrame hasData pts writable send) := by
  have hbusy : s.Busy := .inl hidle
  have hstamp : ClockOk ((s.stamp pts).sendFrame pts) := by
    refine ⟨fun _ => h.timeBase hbusy, fun _ => ?_, fun ht => ?_⟩
    · simpa [Rtsp.stamp, Rtsp.sendFrame] using h.frame hbusy
    · have hlen : s.stamps.frames.length + 1 < 2 ^ 40 := by
        simpa [Rtsp.sendFrame, Rtsp.stamp] using ht.length
      have hs : InRange s := ⟨ht.pos, ht.lt, by omega⟩
      have htime := h.timeBase hbusy
      rw [frameRate_of_pos hs.pos] at htime
      exact stamp_clocked hs (h.clocked hs) hbusy htime (h.frame hbusy) pts
  unfold Rtsp.beginFrame
  split
  · exact h
  · split
    · exact h
    · dsimp only
      split
      · exact hstamp
      · exact SameClock.clockOk (s := (s.stamp pts).sendFrame pts) ⟨rfl, rfl, rfl⟩ rfl hstamp
          fun _ => .inl hidle

theorem clockOk_step {s t : Rtsp} {act : RtspAct} (hok : RtspOk s) (hi : ClockOk s)
    (h : rtsp.step s act = some t) : ClockOk t := by
  have hopts := hok.between.opts
  cases rtsp_move h with
  | init => exact encoderRtspInit_clockOk hi hopts _ _ _ _
  | encode hidle => exact beginFrame_clockOk hi hidle _ _ _ _
  | @receive e a hrecv =>
    obtain ⟨hclock, hframe⟩ := (writePacket_core e.packet a hopts).sameClock
    unfold Rtsp.receivePacket
    dsimp only
    split
    · exact SameClock.clockOk ⟨hclock.stamps, hclock.nextPts, hclock.timeBase⟩ hframe hi
        fun _ => .inr hrecv
    · exact hclock.clockOk hframe hi fun _ => .inr hrecv
  | drained hrecv => exact SameClock.clockOk (s := s) ⟨rfl, rfl, rfl⟩ rfl hi fun _ => .inr hrecv
  | close hidle => exact SameClock.clockOk (s := s) ⟨rfl, rfl, rfl⟩ rfl hi fun _ => .inl hidle
  | @flush e a hclosing =>
    unfold Rtsp.flushPacket
    split
    · have hcore := writePacket_core e.packet a hopts
      obtain ⟨hclock, hframe⟩ := hcore.sameClock
      refine hclock.clockOk hframe hi fun hbusy => ?_
      unfold Rtsp.Busy at hbusy ⊢
      rwa [hcore.pc] at hbusy
    · exact hi
  | closed =>
    have hstamps : s.freeAll.stamps = s.stamps := (closeOutput_core s).stamps
    refine ⟨by simp [Rtsp.Busy, Rtsp.freeAll], by simp [Rtsp.Busy, Rtsp.freeAll], fun ht => ?_⟩
    have hreadings := (hi.clocked ⟨hstamps ▸ ht.pos, hstamps ▸ ht.lt, hstamps ▸ ht.length⟩).readings
    refine ⟨?_, by simp [Rtsp.Busy, Rtsp.freeAll]⟩
    rwa [Rtsp.sources, hstamps]

theorem clockOk_of_reachable {s : Rtsp} (h : rtsp.Reachable s) : ClockOk s := by
  refine h.invariant (I := ClockOk) ?_ fun _ _ _ hr hi _ hs =>
    clockOk_step (rtspOk_of_reachable hr) hi hs
  rintro _ rfl
  exact ⟨by simp [Rtsp.Busy, Rtsp.fresh], by simp [Rtsp.Busy, Rtsp.fresh],
    fun _ => Unstamped.clocked rfl fun _ => rfl⟩

/-! ## Timestamps -/

/-- The times a frame has to keep up with: its number, and the rescaled timestamps
up to its own, each with the frames since. -/
def Rtsp.due (s : Rtsp) (n : ℕ) : Set ℤ :=
  insert (n : ℤ) {x | ∃ k ≤ n, ∃ pts f, s.stamps.frames[k]? = some (pts, f) ∧ 0 ≤ pts ∧
    x = rescaled s.stamps.fps pts + (n - k)}

section Frames

variable {s : Rtsp} {n : ℕ} {pts f : Int64} {given : Option Int64}

theorem getElem?_sources (h : s.stamps.frames[n]? = some (pts, given)) :
    s.sources[n]? = some (source s.stamps.fps pts) := by
  rw [Rtsp.sources, List.getElem?_map, h, Option.map_some]

/-- Every frame has been sent with a timestamp. -/
theorem Clocked.stamped (hc : Clocked s) (h : s.stamps.frames[n]? = some (pts, given)) :
    ∃ f, given = some f ∧ (Clock.readings 1 0 s.sources)[n]? = some f.toInt := by
  have hread : ((Clock.readings 1 0 s.sources).map some)[n]? = some (given.map Int64.toInt) := by
    rw [← hc.readings, List.getElem?_map, h, Option.map_some]
  rw [List.getElem?_map] at hread
  obtain ⟨x, hx, hgiven⟩ := Option.map_eq_some_iff.mp hread
  obtain ⟨f, rfl, rfl⟩ := Option.map_eq_some_iff.mp hgiven.symm
  exact ⟨f, rfl, hx⟩

theorem Clocked.reading (hc : Clocked s) (h : s.stamps.frames[n]? = some (pts, some f)) :
    (Clock.readings 1 0 s.sources)[n]? = some f.toInt := by
  obtain ⟨g, hg, hread⟩ := hc.stamped h
  rwa [Option.some.inj hg]

theorem candidates_eq_due (hn : n < s.stamps.frames.length) :
    Clock.candidates 1 0 s.sources n = s.due n := by
  ext x
  simp only [Clock.candidates, Rtsp.due, zero_add, nsmul_one, Set.mem_insert_iff, Set.mem_ofPred_eq]
  refine or_congr_right ⟨?_, ?_⟩
  · rintro ⟨k, hk, r, hr, rfl⟩
    have hstamp := List.getElem?_eq_getElem (hk.trans_lt hn)
    rw [getElem?_sources hstamp, Option.some.injEq, source] at hr
    split at hr
    · cases hr
      exact ⟨k, hk, _, _, hstamp, ‹_›, by rw [Nat.cast_sub hk]⟩
    · cases hr
  · rintro ⟨k, hk, pts, f, hstamp, hpts, rfl⟩
    refine ⟨k, hk, rescaled s.stamps.fps pts, ?_, by rw [Nat.cast_sub hk]⟩
    rw [getElem?_sources hstamp, source, if_pos hpts]

/-- A frame whose source is late enough gets the source's time. -/
theorem Clocked.eq_rescaled (hc : Clocked s) (h : s.stamps.frames[n]? = some (pts, some f))
    (hpts : 0 ≤ pts) (hzero : 0 ≤ rescaled s.stamps.fps pts)
    (hprev : ∀ m, m + 1 = n → ∀ pts' f', s.stamps.frames[m]? = some (pts', some f') →
      f'.toInt < rescaled s.stamps.fps pts) : f.toInt = rescaled s.stamps.fps pts := by
  have hread := hc.reading h
  rw [Clock.getElem?_readings, getElem?_sources h, Option.map_some, Option.some.injEq, source,
    if_pos hpts] at hread
  rw [← hread]
  apply Clock.tick_some_of_le
  cases n with
  | zero => exact hzero
  | succ m =>
    have hm : m < s.stamps.frames.length := by
      have := (List.getElem?_eq_some_iff.mp h).1
      omega
    obtain ⟨pts', given', hstamp⟩ : ∃ pts' given', s.stamps.frames[m]? = some (pts', given') :=
      ⟨_, _, List.getElem?_eq_getElem hm⟩
    obtain ⟨f', rfl, hread'⟩ := hc.stamped hstamp
    rw [Clock.after_take_succ hread']
    exact hprev m rfl _ _ hstamp

/-- What a frame has to keep up with leaves room in 64 bits. -/
theorem due_lt (hs : InRange s) (hn : n < 2 ^ 40) {x : ℤ} (hx : x ∈ s.due n) :
    x < 2 ^ 63 - 1 := by
  rcases hx with rfl | ⟨k, hk, pts, f, _, hpts, rfl⟩
  · omega
  · have := (rescaled_bounds hs.pos hs.lt hpts).2
    omega

end Frames

/-- **Timestamps of frames.** For a context made for `fps`, whatever its calls return,
each frame is sent with a timestamp, the latest of the times it has to keep up with. It
is later than all before, not before its source, the source's own where that is
later than the frame before, and the next one still fits 64 bits. -/
theorem frame_pts {s : Rtsp} (h : rtsp.Reachable s) (hfps : 1 ≤ s.stamps.fps.toInt)
    (hfps' : s.stamps.fps.toInt < 1000000) (hlen : s.stamps.frames.length < 2 ^ 40) {n : ℕ}
    {pts : Int64} {given : Option Int64} (hn : s.stamps.frames[n]? = some (pts, given)) :
    ∃ f, given = some f ∧ IsGreatest (s.due n) f.toInt ∧
      (∀ m < n, ∀ pts' f', s.stamps.frames[m]? = some (pts', some f') → f'.toInt < f.toInt) ∧
      (0 ≤ pts → rescaled s.stamps.fps pts ≤ f.toInt) ∧
      (0 ≤ pts → (∀ m, m + 1 = n → ∀ pts' f', s.stamps.frames[m]? = some (pts', some f') →
        f'.toInt < rescaled s.stamps.fps pts) → f.toInt = rescaled s.stamps.fps pts) ∧
      (0 ≤ pts → rescaled s.stamps.fps pts < 2 ^ 63) ∧ (f + 1).toInt = f.toInt + 1 := by
  have hs : InRange s := ⟨hfps, hfps', hlen⟩
  have hc := (clockOk_of_reachable h).clocked hs
  obtain ⟨f, rfl, hread⟩ := hc.stamped hn
  have hlt : n < s.stamps.frames.length := (List.getElem?_eq_some_iff.mp hn).1
  have hgreatest : IsGreatest (s.due n) f.toInt := by
    rw [← candidates_eq_due hlt]
    exact Clock.isGreatest_reading hread
  refine ⟨f, rfl, hgreatest, fun m hm pts' f' hm' => ?_, fun hpts => ?_, fun hpts hprev => ?_,
    fun hpts => ?_, ?_⟩
  · have hle := Clock.reading_add_le hm.le (hc.reading hm') hread
    rw [nsmul_one] at hle
    omega
  · exact hgreatest.2 (.inr ⟨n, le_rfl, pts, some f, hn, hpts, by simp⟩)
  · exact hc.eq_rescaled hn hpts (rescaled_bounds hfps hfps' hpts).1 hprev
  · have := (rescaled_bounds hfps hfps' hpts).2
    omega
  · have hbound := due_lt hs (hlt.trans hlen) hgreatest.1
    have hlow := f.le_toInt
    rw [Int64.toInt_add]
    exact Int.bmod_eq_of_le (by simp; omega) (by simp; omega)

/-- Frames that come without a time, jump ahead, go back and catch up, the
second of them with a failed send. -/
theorem frame_pts_jump : ∃ s, rtsp.Reachable s ∧
    s.stamps = ⟨25, [(-1, some 0), (1000000, some 25), (0, some 26), (2000000, some 50)]⟩ ∧
    rescaled 25 2000000 ≤ (50 : Int64).toInt := by
  obtain ⟨s, hs, hp⟩ := rtsp.reachable_of_replay
    (fun s => s.stamps =
      ⟨25, [(-1, some 0), (1000000, some 25), (0, some 26), (2000000, some 50)]⟩)
    .fresh
    [.init 640 480 25 .good, .encode true (-1) 0 0, .drained, .encode true 1000000 0 (-22),
      .encode true 0 0 0, .drained, .encode true 2000000 0 0]
    rfl (by decide +kernel)
  have hstamps := of_decide_eq_true hp
  have hlast : s.stamps.frames[3]? = some (2000000, some 50) := by
    rw [hstamps]
    rfl
  obtain ⟨f, hf, _, _, hle, _⟩ := frame_pts hs (by rw [hstamps]; decide) (by rw [hstamps]; decide)
    (by rw [hstamps]; decide) hlast
  obtain rfl := Option.some.inj hf
  rw [hstamps] at hle
  exact ⟨s, hs, hstamps, hle (by decide)⟩

end DroidcamWhip
