import DroidcamWhip.Frame
import DroidcamWhip.Lib.Int32
import DroidcamWhip.Lib.Runs
import DroidcamWhip.Lib.Slot

/-!
`push_video_frame` and `frame_to_bgr`: a decoded frame is scaled into `bgr_frame`
and given to the encoder. The buffer, the `sws` context and the encoder are kept
between frames and rebuilt when a frame needs another.
-/

namespace DroidcamWhip

/-! ## The three resources -/

/-- A block of memory that `brealloc` gave. -/
structure Block where
  addr : UInt64
  capacity : Nat
  deriving DecidableEq

/-- `bgr_frame` and `bgr_frame_size`. -/
structure BgrFrame where
  block : Option Block
  size : UInt64
  deriving DecidableEq

/-- `needed` in `frame_to_bgr`. -/
def ObsFrame.needed (f : ObsFrame) : UInt64 := f.width.toUInt64 * f.height.toUInt64 * 3

/-- The growth of `bgr_frame`; `answer` is what `brealloc` returns. -/
def BgrFrame.grow (b : BgrFrame) (needed : UInt64) (answer : Option UInt64) : BgrFrame :=
  if b.size < needed then
    { block := answer.map fun addr => ⟨addr, needed.toNat⟩, size := needed }
  else b

/-- `to_bgr_format`, `to_bgr_width` and `to_bgr_height`. -/
structure SwsKey where
  format : ObsFormat
  width : Int32
  height : Int32
  deriving DecidableEq

/-- The source that `sws_getContext` was given for a context. -/
structure SwsContext where
  format : AvPixelFormat
  width : Int32
  height : Int32
  deriving DecidableEq

/-- `video_width` and `video_height`, and what `encoder_rtsp_init` was given. -/
structure VideoSize where
  width : Int32
  height : Int32
  deriving DecidableEq

def ObsFrame.swsKey (f : ObsFrame) : SwsKey := ⟨f.format, f.width.toInt32, f.height.toInt32⟩

def ObsFrame.swsContext (f : ObsFrame) : SwsContext :=
  ⟨framePixFmt f.format, f.width.toInt32, f.height.toInt32⟩

def ObsFrame.size (f : ObsFrame) : VideoSize := ⟨f.width.toInt32, f.height.toInt32⟩

/-- A call of `sws_scale`: the context, whether it had been freed, the frame and
`bgr_frame`. -/
structure Scale where
  context : SwsContext
  freed : Bool
  frame : ObsFrame
  dst : Option Block

/-- A call of `encoder_rtsp_encode_frame`: what the encoder was initialised with,
whether it had been closed, and the frame. -/
structure Encode where
  encoder : VideoSize
  closed : Bool
  frame : ObsFrame

/-- The members of `droidcam_obs_source` that `push_video_frame` uses. The last
two record the calls that have been made. -/
structure Conversion where
  bgr : BgrFrame
  toBgr : Slot SwsKey SwsContext
  encoder : Slot VideoSize VideoSize
  stopped : Bool
  scales : List Scale
  encodes : List Encode

/-- What the libraries answer to one `push_video_frame`: `brealloc`,
`sws_getContext`, `sws_scale`, `encoder_rtsp_init`, `encoder_rtsp_encode_frame`. -/
structure PushAnswer where
  alloc : Option UInt64
  context : Bool
  scaled : Bool
  init : Bool
  encoded : Bool

namespace Conversion

/-- After `droidcam_source_start` with the size `configured`. -/
def start (configured : VideoSize) : Conversion where
  bgr := ⟨none, 0⟩
  toBgr := .empty ⟨.none, 0, 0⟩
  encoder := .empty configured
  stopped := false
  scales := []
  encodes := []

/-! ## The source functions -/

/-- `frame_to_bgr` from the test of `bgr_frame` on. -/
def scale (f : ObsFrame) (a : PushAnswer) (c : Conversion) : Bool × Conversion :=
  match c.bgr.block with
  | none => (false, c)
  | some _ =>
      let c := { c with toBgr := c.toBgr.want f.swsKey (if a.context then some f.swsContext else none) }
      match c.toBgr.current with
      | none => (false, c)
      | some (id, context) =>
          (a.scaled, { c with
            scales := c.scales ++ [⟨context, id ∈ c.toBgr.released, f, c.bgr.block⟩] })

def frameToBgr (f : ObsFrame) (a : PushAnswer) (c : Conversion) : Bool × Conversion :=
  if framePixFmt f.format = .none then (false, c)
  else scale f a { c with bgr := c.bgr.grow f.needed a.alloc }

/-- `push_video_frame` behind `frame_to_bgr`. -/
def encode (f : ObsFrame) (a : PushAnswer) (c : Conversion) : Bool × Conversion :=
  let c := { c with encoder := c.encoder.want f.size (if a.init then some f.size else none) }
  match c.encoder.current with
  | none => (false, c)
  | some (id, size) =>
      (a.encoded, { c with encodes := c.encodes ++ [⟨size, id ∈ c.encoder.released, f⟩] })

def pushVideoFrame (f : ObsFrame) (a : PushAnswer) (c : Conversion) : Bool × Conversion :=
  let r := c.frameToBgr f a
  if r.1 then r.2.encode f a else (false, r.2)

/-- `droidcam_source_stop`, which deletes the plugin. -/
def stop (c : Conversion) : Conversion :=
  { c with
    encoder := c.encoder.clear, toBgr := c.toBgr.clear, bgr := { c.bgr with block := none }
    stopped := true }

end Conversion

inductive ConversionAct where
  | push (f : ObsFrame) (a : PushAnswer)
  | stop

def Conversion.step (c : Conversion) (act : ConversionAct) : Option Conversion :=
  if c.stopped then none
  else match act with
    | .push f a => some (c.pushVideoFrame f a).2
    | .stop => some c.stop

/-- The frames pushed from `droidcam_source_start` to `droidcam_source_stop`. -/
def conversion : Runs.Machine Conversion ConversionAct where
  start c := ∃ configured, c = .start configured
  step c act := c.step act

/-- `sws_getContext` makes no context for a width or height below one. -/
def SwsChecksSize (_ : Conversion) : ConversionAct → Prop
  | .push f a => a.context = true → 0 < f.width.toInt32.toInt ∧ 0 < f.height.toInt32.toInt
  | .stop => True

/-! ## Coherence -/

/-- A context made for a key. -/
structure SwsContext.For (k : SwsKey) (x : SwsContext) : Prop where
  format : x.format = framePixFmt k.format
  width : x.width = k.width
  height : x.height = k.height
  positive : 0 < k.width.toInt ∧ 0 < k.height.toInt

/-- A call of `sws_scale` with a live context for just this frame, and room for
its pixels. -/
structure Scale.Coherent (x : Scale) : Prop where
  context : x.context = x.frame.swsContext
  live : x.freed = false
  room : ∃ b, x.dst = some b ∧ 3 * x.frame.width.toNat * x.frame.height.toNat ≤ b.capacity

/-- A call of `encoder_rtsp_encode_frame` for an encoder of just this size. -/
structure Encode.Coherent (x : Encode) : Prop where
  size : x.encoder = x.frame.size
  live : x.closed = false

structure Coherent (c : Conversion) : Prop where
  bgr : ∀ b ∈ c.bgr.block, b.capacity = c.bgr.size.toNat
  toBgr : c.toBgr.Sound SwsContext.For
  encoder : c.encoder.Sound Eq
  scales : ∀ x ∈ c.scales, x.Coherent
  encodes : ∀ x ∈ c.encodes, x.Coherent
  final : c.stopped = true → c.toBgr.current = none ∧ c.encoder.current = none

theorem coherent_start (configured : VideoSize) : Coherent (.start configured) :=
  ⟨nofun, Slot.sound_empty _, Slot.sound_empty _, by simp [Conversion.start],
    by simp [Conversion.start], by simp [Conversion.start]⟩

/-- The block is as large as recorded, and as large as needed. -/
theorem BgrFrame.grow_capacity {b : BgrFrame} (h : ∀ x ∈ b.block, x.capacity = b.size.toNat)
    (needed : UInt64) (answer : Option UInt64) :
    ∀ x ∈ (b.grow needed answer).block,
      x.capacity = (b.grow needed answer).size.toNat ∧ needed.toNat ≤ x.capacity := by
  intro x hx
  unfold grow at hx ⊢
  split
  · rename_i hlt
    rw [if_pos hlt] at hx
    obtain ⟨addr, _, rfl⟩ := Option.map_eq_some_iff.mp hx
    exact ⟨rfl, Nat.le_refl _⟩
  · rename_i hle
    rw [if_neg hle] at hx
    refine ⟨h x hx, ?_⟩
    rw [h x hx]
    exact UInt64.le_iff_toNat_le.mp (UInt64.not_lt.mp hle)

/-- For sizes that are positive `int`s the product does not wrap. -/
theorem ObsFrame.needed_toNat {f : ObsFrame} (hw : 0 < f.width.toInt32.toInt)
    (hh : 0 < f.height.toInt32.toInt) :
    f.needed.toNat = 3 * f.width.toNat * f.height.toNat := by
  have hw' := Int32.lt_of_toInt32_pos hw
  have hh' := Int32.lt_of_toInt32_pos hh
  have harea : f.width.toNat * f.height.toNat < 2 ^ 31 * 2 ^ 31 := Nat.mul_lt_mul'' hw' hh'
  have hsize : 3 * f.width.toNat * f.height.toNat = f.width.toNat * f.height.toNat * 3 := by
    rw [Nat.mul_assoc, Nat.mul_comm]
  rw [hsize, needed, UInt64.toNat_mul, UInt64.toNat_mul, UInt32.toNat_toUInt64,
    UInt32.toNat_toUInt64]
  change (f.width.toNat * f.height.toNat % 2 ^ 64 * 3) % 2 ^ 64 = _
  omega

theorem ObsFrame.swsContext_for {f : ObsFrame} {a : PushAnswer} {c : Conversion}
    (hg : SwsChecksSize c (.push f a)) :
    ∀ x ∈ (if a.context then some f.swsContext else none), SwsContext.For f.swsKey x := by
  intro x hx
  split at hx
  · cases hx
    exact ⟨rfl, rfl, rfl, hg ‹_›⟩
  · cases hx

theorem ObsFrame.size_eq (f : ObsFrame) (init : Bool) :
    ∀ x ∈ (if init then some f.size else none), f.size = x := by
  intro x hx
  split at hx <;> cases hx
  rfl

/-- A context for the key of a frame is one for the frame. -/
theorem SwsContext.For.eq {f : ObsFrame} {x : SwsContext} (h : For f.swsKey x) :
    x = f.swsContext := by
  obtain ⟨format, width, height⟩ := x
  obtain ⟨rfl, rfl, rfl, _⟩ := h
  rfl

/-! ## Steps and runs -/

theorem Coherent.grow {c : Conversion} (h : Coherent c) (needed : UInt64) (answer : Option UInt64) :
    Coherent { c with bgr := c.bgr.grow needed answer } :=
  { h with bgr := fun b hb => (BgrFrame.grow_capacity h.bgr needed answer b hb).1 }

theorem Coherent.scale {f : ObsFrame} {a : PushAnswer} {c : Conversion} (h : Coherent c)
    (hg : SwsChecksSize c (.push f a)) (hroom : ∀ b ∈ c.bgr.block, f.needed.toNat ≤ b.capacity)
    (hlive : c.stopped = false) : Coherent (c.scale f a).2 := by
  have hmade := f.swsContext_for hg
  have hsound := h.toBgr.want hmade
  have hwanted := h.toBgr.wanted hmade
  have hrest : ∀ log, (∀ x ∈ log, Scale.Coherent x) → Coherent { c with
      toBgr := c.toBgr.want f.swsKey (if a.context then some f.swsContext else none)
      scales := log } := fun log hlog =>
    ⟨h.bgr, hsound, h.encoder, hlog, h.encodes, by simp [hlive]⟩
  unfold Conversion.scale
  cases hb : c.bgr.block with
  | none => exact h
  | some b =>
    cases hcur : (c.toBgr.want f.swsKey (if a.context then some f.swsContext else none)).current with
    | none =>
      simp only [hcur]
      exact hrest _ h.scales
    | some x =>
      obtain ⟨id, context⟩ := x
      have hfor := hwanted _ hcur
      have hfit : 3 * f.width.toNat * f.height.toNat ≤ b.capacity := by
        rw [← ObsFrame.needed_toNat hfor.positive.1 hfor.positive.2]
        exact hroom b hb
      simp only [hcur]
      refine hrest _ ?_
      rw [List.forall_mem_append]
      refine ⟨h.scales, List.forall_mem_singleton.mpr ⟨hfor.eq, ?_, b, hb, hfit⟩⟩
      exact decide_eq_false (hsound.not_released _ hcur)

theorem Coherent.frameToBgr {f : ObsFrame} {a : PushAnswer} {c : Conversion} (h : Coherent c)
    (hg : SwsChecksSize c (.push f a)) (hlive : c.stopped = false) :
    Coherent (c.frameToBgr f a).2 := by
  unfold Conversion.frameToBgr
  split
  · exact h
  · exact (h.grow f.needed a.alloc).scale hg
      (fun b hb => (BgrFrame.grow_capacity h.bgr f.needed a.alloc b hb).2) hlive

theorem Coherent.encode {f : ObsFrame} {a : PushAnswer} {c : Conversion} (h : Coherent c)
    (hlive : c.stopped = false) : Coherent (c.encode f a).2 := by
  have hsound := h.encoder.want (f.size_eq a.init)
  have hrest : ∀ log, (∀ x ∈ log, Encode.Coherent x) → Coherent { c with
      encoder := c.encoder.want f.size (if a.init then some f.size else none)
      encodes := log } := fun log hlog =>
    ⟨h.bgr, h.toBgr, hsound, h.scales, hlog, by simp [hlive]⟩
  unfold Conversion.encode
  cases hcur : (c.encoder.want f.size (if a.init then some f.size else none)).current with
  | none =>
    simp only [hcur]
    exact hrest _ h.encodes
  | some x =>
    have hsize : f.size = x.2 := h.encoder.wanted (f.size_eq a.init) x hcur
    simp only [hcur]
    refine hrest _ ?_
    rw [List.forall_mem_append]
    refine ⟨h.encodes, List.forall_mem_singleton.mpr ⟨hsize.symm, ?_⟩⟩
    exact decide_eq_false (hsound.not_released _ hcur)

theorem stopped_frameToBgr (f : ObsFrame) (a : PushAnswer) (c : Conversion) :
    (c.frameToBgr f a).2.stopped = c.stopped := by
  unfold Conversion.frameToBgr Conversion.scale
  split
  · rfl
  · split
    · rfl
    · simp only
      split <;> rfl

theorem stopped_pushVideoFrame (f : ObsFrame) (a : PushAnswer) (c : Conversion) :
    (c.pushVideoFrame f a).2.stopped = c.stopped := by
  have hbgr := stopped_frameToBgr f a c
  unfold Conversion.pushVideoFrame Conversion.encode
  dsimp only
  split
  · split <;> exact hbgr
  · exact hbgr

theorem coherent_step {c d : Conversion} {act : ConversionAct} (h : Coherent c)
    (hg : SwsChecksSize c act) (hs : conversion.step c act = some d) : Coherent d := by
  change c.step act = some d at hs
  unfold Conversion.step at hs
  split at hs
  · cases hs
  · have hlive : c.stopped = false := Bool.eq_false_iff.mpr ‹_›
    cases act with
    | push f a =>
      cases hs
      have hbgr := h.frameToBgr hg hlive
      unfold Conversion.pushVideoFrame
      dsimp only
      split
      · exact hbgr.encode (stopped_frameToBgr f a c ▸ hlive)
      · exact hbgr
    | stop =>
      cases hs
      exact ⟨nofun, h.toBgr.clear, h.encoder.clear, h.scales, h.encodes, fun _ => ⟨rfl, rfl⟩⟩

theorem coherent_of_reach {c : Conversion} (h : conversion.Reach SwsChecksSize c) :
    Coherent c := by
  refine h.invariant ?_ fun _ _ _ _ hi hg hs => coherent_step hi hg hs
  rintro _ ⟨configured, rfl⟩
  exact coherent_start configured

/-- Everything that was put into a slot is in it or has been released once; at
the end nothing is in it. -/
structure Released {K R : Type} (s : Slot K R) (final : Bool) : Prop where
  held : Custody.Held [s.held, s.released] s.issued
  final : final = true → ∀ a, s.released.count a = if a < s.issued then 1 else 0

/-- **Coherent caches.** Every `sws_scale` has a context for its frame and room
for its pixels, every `encoder_rtsp_encode_frame` an encoder for its size, and
contexts and encoders are released exactly once. -/
theorem caches_coherent {c : Conversion} (h : conversion.Reach SwsChecksSize c) :
    (∀ x ∈ c.scales, x.Coherent) ∧ (∀ x ∈ c.encodes, x.Coherent) ∧
      Released c.toBgr c.stopped ∧ Released c.encoder c.stopped := by
  have hi := coherent_of_reach h
  exact ⟨hi.scales, hi.encodes,
    ⟨hi.toBgr.custody, fun hs => hi.toBgr.all_released (hi.final hs).1⟩,
    ⟨hi.encoder.custody, fun hs => hi.encoder.all_released (hi.final hs).2⟩⟩

/-- A frame of a phone. -/
def ObsFrame.i420 (width height : UInt32) : ObsFrame :=
  { ObsFrame.blank with format := .i420, width, height }

def PushAnswer.good : PushAnswer := ⟨some 4096, true, true, true, true⟩

/-- The frame has a size that `sws_getContext` accepts. -/
def ConversionAct.sized : ConversionAct → Bool
  | .push f _ => 0 < f.width.toInt32.toInt ∧ 0 < f.height.toInt32.toInt
  | .stop => true

theorem swsChecksSize_of_sized (c : Conversion) (act : ConversionAct) (h : act.sized = true) :
    SwsChecksSize c act := by
  cases act with
  | push f a => exact fun _ => of_decide_eq_true h
  | stop => trivial

/-- A phone is turned, the context for the new size cannot be made, and it is
turned back: the context for the first size is made again. -/
theorem caches_coherent_turned : ∃ c, conversion.Reach SwsChecksSize c ∧
    c.scales.length = 2 ∧ c.toBgr.released = [0, 1] ∧ c.encoder.released = [0] ∧
    (∀ x ∈ c.scales, x.Coherent) ∧ (∀ x ∈ c.encodes, x.Coherent) ∧
      Released c.toBgr c.stopped ∧ Released c.encoder c.stopped := by
  obtain ⟨c, hc, hp⟩ := conversion.reach_of_replay
    (fun _ act => act.sized)
    (fun c => c.scales.length = 2 ∧ c.toBgr.released = [0, 1] ∧ c.encoder.released = [0])
    (.start ⟨640, 480⟩)
    [.push (.i420 640 480) .good, .push (.i420 480 640) { PushAnswer.good with context := false },
      .push (.i420 640 480) .good, .stop]
    swsChecksSize_of_sized (.start ⟨_, rfl⟩) (by decide +kernel)
  obtain ⟨hscales, hsws, henc⟩ := of_decide_eq_true hp
  exact ⟨c, hc, hscales, hsws, henc, caches_coherent hc⟩

end DroidcamWhip
