import DroidcamWhip.Conversion
import DroidcamWhip.EncoderClock

/-!
`push_video_frame` with the encoder that it makes, feeds and closes: the caches of the source
and the encoder of `encoder_rtsp.c` as one system, from `droidcam_source_start` to the end of
`droidcam_source_stop`.
-/

namespace DroidcamWhip

open Runs

/-! ## The system -/

/-- Where the decoding thread is: between two frames; in `encoder_rtsp_close` of an encoder for
another size; about to call `encoder_rtsp_init`; in the `encoder_rtsp_close` of an
`encoder_rtsp_init` that has failed; about to call `encoder_rtsp_encode_frame`; in its loop. At
last `droidcam_source_stop` is in `encoder_rtsp_close`, or behind it. -/
inductive OutputPc where
  | idle
  | closing (f : ObsFrame) (a : PushAnswer) (pts : Int64)
  | init (f : ObsFrame) (a : PushAnswer) (pts : Int64)
  | dropping
  | frame (pts : Int64)
  | encoding
  | stopping
  | stopped

structure SourceOutput where
  pc : OutputPc
  fps : Int32
  conv : Conversion
  encoder : Rtsp

/-- A frame is pushed; `encoder_rtsp_init` is called; `encoder_rtsp_encode_frame` is called; a
turn of its loop and its end; a turn of the loop of `encoder_rtsp_close` and its end;
`droidcam_source_stop`. -/
inductive OutputAct where
  | push (f : ObsFrame) (pts : Int64) (a : PushAnswer)
  | init (a : Rtsp.InitAnswer)
  | encode (writable send : Int)
  | receive (e : Encoded) (a : Rtsp.WriteAnswer)
  | drained
  | flush (e : Encoded) (a : Rtsp.WriteAnswer)
  | closed
  | stop

namespace SourceOutput

def start (configured : VideoSize) (fps : Int32) : SourceOutput :=
  ⟨.idle, fps, .start configured, .fresh⟩

/-- A step of the encoder. -/
def onRtsp (s : SourceOutput) (act : RtspAct) (pc : Rtsp → OutputPc) : Option SourceOutput :=
  (s.encoder.step act).map fun r => { s with encoder := r, pc := pc r }

/-- `encoder_rtsp_init` has an encoder to return, or gives up; the caches are then as
`push_video_frame` leaves them. -/
def initialised (s : SourceOutput) (f : ObsFrame) (a : PushAnswer) (pts : Int64) (r : Rtsp) :
    SourceOutput :=
  { s with
    conv := (s.conv.pushVideoFrame f { a with init := r.pc = .idle }).2
    encoder := r
    pc := match r.pc with
      | .idle => .frame pts
      | .closing => .dropping
      | _ => .idle }

/-- Where the loop of `encoder_rtsp_encode_frame` is left. -/
def afterReceive (r : Rtsp) : OutputPc :=
  match r.pc with
  | .receiving => .encoding
  | _ => .idle

def step (s : SourceOutput) (act : OutputAct) : Option SourceOutput :=
  match s.pc, act with
  | .idle, .push f pts a =>
      if (s.conv.frameToBgr f a).1 = false then
        some { s with conv := (s.conv.pushVideoFrame f a).2 }
      else
        match s.conv.encoder.current with
        | none => some { s with pc := .init f a pts }
        | some _ =>
            if s.conv.encoder.key ≠ f.size then s.onRtsp .close fun _ => .closing f a pts
            else some { s with conv := (s.conv.pushVideoFrame f a).2, pc := .frame pts }
  | pc, .flush e w => s.onRtsp (.flush e w) fun _ => pc
  | .closing f a pts, .closed => s.onRtsp .closed fun _ => .init f a pts
  | .init f a pts, .init answer =>
      (s.encoder.step (.init f.size.width f.size.height s.fps answer)).map (s.initialised f a pts)
  | .dropping, .closed => s.onRtsp .closed fun _ => .idle
  | .frame pts, .encode writable send =>
      s.onRtsp (.encode s.conv.bgr.block.isSome pts writable send) afterReceive
  | .encoding, .receive e w => s.onRtsp (.receive e w) afterReceive
  | .encoding, .drained => s.onRtsp .drained afterReceive
  | .idle, .stop =>
      match s.conv.encoder.current with
      | none => some { s with conv := s.conv.stop, pc := .stopped }
      | some _ => s.onRtsp .close fun _ => .stopping
  | .stopping, .closed =>
      (s.encoder.step .closed).map fun r =>
        { s with conv := s.conv.stop, encoder := r, pc := .stopped }
  | _, _ => none

end SourceOutput

def sourceOutput : Machine SourceOutput OutputAct where
  start s := ∃ configured fps, s = .start configured fps
  step s act := s.step act

/-- Where a frame is pushed, `sws_getContext` checks its size. -/
def OutputAct.ChecksSize (s : SourceOutput) : OutputAct → Prop
  | .push f _ a => SwsChecksSize s.conv (.push f a)
  | _ => True

/-- Every step, with where it is made. -/
inductive OutputMove (s : SourceOutput) : OutputAct → SourceOutput → Prop
  | unscaled {f pts a} (hpc : s.pc = .idle) (hscaled : (s.conv.frameToBgr f a).1 = false) :
      OutputMove s (.push f pts a) { s with conv := (s.conv.pushVideoFrame f a).2 }
  | first {f pts a} (hpc : s.pc = .idle) (hscaled : (s.conv.frameToBgr f a).1 = true)
      (hnone : s.conv.encoder.current = none) :
      OutputMove s (.push f pts a) { s with pc := .init f a pts }
  | resized {f pts a r} (hpc : s.pc = .idle) (hscaled : (s.conv.frameToBgr f a).1 = true)
      (hkey : s.conv.encoder.key ≠ f.size) (hr : s.encoder.step .close = some r) :
      OutputMove s (.push f pts a) { s with encoder := r, pc := .closing f a pts }
  | same {f pts a x} (hpc : s.pc = .idle) (hscaled : (s.conv.frameToBgr f a).1 = true)
      (hsome : s.conv.encoder.current = some x) (hkey : s.conv.encoder.key = f.size) :
      OutputMove s (.push f pts a)
        { s with conv := (s.conv.pushVideoFrame f a).2, pc := .frame pts }
  | flush {e w r} (hr : s.encoder.step (.flush e w) = some r) :
      OutputMove s (.flush e w) { s with encoder := r }
  | closedOld {f a pts r} (hpc : s.pc = .closing f a pts) (hr : s.encoder.step .closed = some r) :
      OutputMove s .closed { s with encoder := r, pc := .init f a pts }
  | init {f a pts answer r} (hpc : s.pc = .init f a pts)
      (hr : s.encoder.step (.init f.size.width f.size.height s.fps answer) = some r) :
      OutputMove s (.init answer) (s.initialised f a pts r)
  | closedFailed {r} (hpc : s.pc = .dropping) (hr : s.encoder.step .closed = some r) :
      OutputMove s .closed { s with encoder := r, pc := .idle }
  | encode {pts writable send r} (hpc : s.pc = .frame pts)
      (hr : s.encoder.step (.encode s.conv.bgr.block.isSome pts writable send) = some r) :
      OutputMove s (.encode writable send)
        { s with encoder := r, pc := SourceOutput.afterReceive r }
  | receive {e w r} (hpc : s.pc = .encoding) (hr : s.encoder.step (.receive e w) = some r) :
      OutputMove s (.receive e w) { s with encoder := r, pc := SourceOutput.afterReceive r }
  | drained {r} (hpc : s.pc = .encoding) (hr : s.encoder.step .drained = some r) :
      OutputMove s .drained { s with encoder := r, pc := SourceOutput.afterReceive r }
  | stopNone (hpc : s.pc = .idle) (hnone : s.conv.encoder.current = none) :
      OutputMove s .stop { s with conv := s.conv.stop, pc := .stopped }
  | stop {r} (hpc : s.pc = .idle) (hr : s.encoder.step .close = some r) :
      OutputMove s .stop { s with encoder := r, pc := .stopping }
  | closedLast {r} (hpc : s.pc = .stopping) (hr : s.encoder.step .closed = some r) :
      OutputMove s .closed { s with conv := s.conv.stop, encoder := r, pc := .stopped }

theorem output_move {s t : SourceOutput} {act : OutputAct} (h : sourceOutput.step s act = some t) :
    OutputMove s act t := by
  change s.step act = some t at h
  unfold SourceOutput.step SourceOutput.onRtsp at h
  split at h
  · split at h
    · cases h
      exact .unscaled ‹_› ‹_›
    · rename_i hpc hscaled
      rw [Bool.not_eq_false] at hscaled
      split at h
      · cases h
        exact .first hpc hscaled ‹_›
      · split at h
        · obtain ⟨r, hr, rfl⟩ := Option.map_eq_some_iff.mp h
          exact .resized hpc hscaled ‹_› hr
        · rename_i hkey
          cases h
          exact .same hpc hscaled ‹_› (not_not.mp hkey)
  · obtain ⟨r, hr, rfl⟩ := Option.map_eq_some_iff.mp h
    exact .flush hr
  · obtain ⟨r, hr, rfl⟩ := Option.map_eq_some_iff.mp h
    exact .closedOld ‹_› hr
  · obtain ⟨r, hr, rfl⟩ := Option.map_eq_some_iff.mp h
    exact .init ‹_› hr
  · obtain ⟨r, hr, rfl⟩ := Option.map_eq_some_iff.mp h
    exact .closedFailed ‹_› hr
  · obtain ⟨r, hr, rfl⟩ := Option.map_eq_some_iff.mp h
    exact .encode ‹_› hr
  · obtain ⟨r, hr, rfl⟩ := Option.map_eq_some_iff.mp h
    exact .receive ‹_› hr
  · obtain ⟨r, hr, rfl⟩ := Option.map_eq_some_iff.mp h
    exact .drained ‹_› hr
  · split at h
    · cases h
      exact .stopNone ‹_› ‹_›
    · obtain ⟨r, hr, rfl⟩ := Option.map_eq_some_iff.mp h
      exact .stop ‹_› hr
  · obtain ⟨r, hr, rfl⟩ := Option.map_eq_some_iff.mp h
    exact .closedLast ‹_› hr
  · cases h

/-! ## The size of an encoder -/

/-- What `encoder_rtsp_init` was given. -/
def Rtsp.size (r : Rtsp) : VideoSize := ⟨r.ctx.width, r.ctx.height⟩

theorem SameCore.size {s t : Rtsp} (h : SameCore s t) : t.size = s.size := by
  have hwidth := congrArg EncoderRtspCtx.width h.core
  have hheight := congrArg EncoderRtspCtx.height h.core
  exact congrArg₂ VideoSize.mk hwidth hheight

theorem initEncoder_size (s : Rtsp) (a : Rtsp.CodecAnswer) :
    (s.initEncoder a).2.size = s.size := by
  unfold Rtsp.initEncoder
  split
  · rfl
  · split
    · rfl
    · dsimp only
      split <;> rfl

/-- A size that is kept up to the end of `encoder_rtsp_init`. -/
structure Sized (size : VideoSize) (s : Rtsp) : Prop where
  size : s.size = size
  opts : s.opts = none

theorem initBuffers_sized {size : VideoSize} {s : Rtsp} (h : Sized size s) (a : Rtsp.InitAnswer) :
    Sized size (s.initBuffers a) := by
  refine initBuffers_rule a h ⟨h.size, h.opts⟩ (fun t ht _ => ⟨ht.size, ht.opts⟩) (fun t ht _ => ?_)
    fun t pc ht => ⟨ht.size, ht.opts⟩
  have hopen := openOutput_core a.output
    (s := t.make fun id => { t.ctx with sws := some id }) ht.opts
  exact ⟨hopen.size.trans ht.size, hopen.opts.trans ht.opts⟩

theorem initEncoder_sized {size : VideoSize} {s : Rtsp} (h : Sized size s) (a : Rtsp.CodecAnswer) :
    Sized size (s.initEncoder a).2 :=
  ⟨(initEncoder_size s a).trans h.size, initEncoder_opts h.opts a⟩

theorem initCodec_sized {size : VideoSize} {s : Rtsp} (h : Sized size s) (a : Rtsp.InitAnswer) :
    (s.initCodec a).pc = .closing ∨ (s.initCodec a).pc = .idle ∧ (s.initCodec a).size = size := by
  have hnvenc := initEncoder_sized h a.nvenc
  have hx264 := initEncoder_sized hnvenc a.x264
  have hbuffers : ∀ t : Rtsp, Sized size t → (t.initBuffers a).pc = .closing ∨
      (t.initBuffers a).pc = .idle ∧ (t.initBuffers a).size = size := by
    intro t ht
    rcases initBuffers_frame ht.opts a with hclosing | ⟨hidle, _⟩
    · exact .inl hclosing
    · exact .inr ⟨hidle, (initBuffers_sized ht a).size⟩
  unfold Rtsp.initCodec
  dsimp only
  split
  · split
    · exact .inl rfl
    · exact hbuffers _ hx264
  · exact hbuffers _ hnvenc

theorem encoderRtspInit_sized {s : Rtsp} (hpc : s.pc = .none) (hopts : s.opts = none)
    (width height fps : Int32) (a : Rtsp.InitAnswer) :
    let r := s.encoderRtspInit width height fps a
    r.pc = .none ∨ r.pc = .closing ∨ r.pc = .idle ∧ r.size = ⟨width, height⟩ := by
  have halloc : Sized ⟨width, height⟩ (s.allocCtx width height fps a) := by
    unfold Rtsp.allocCtx
    dsimp only
    split <;> exact ⟨rfl, hopts⟩
  dsimp only
  unfold Rtsp.encoderRtspInit
  split
  · exact .inl hpc
  · exact .inr (initCodec_sized halloc a)

/-- What one step of the encoder does to its size and to where it is. -/
def RtspAct.Leads (s r : Rtsp) : RtspAct → Prop
  | .init width height _ _ =>
      r.pc = .none ∨ r.pc = .closing ∨ r.pc = .idle ∧ r.size = ⟨width, height⟩
  | .encode .. | .receive .. | .drained => r.size = s.size ∧ (r.pc = .idle ∨ r.pc = .receiving)
  | .close | .flush .. => r.pc = .closing
  | .closed => r.pc = .none

theorem beginFrame_leads {s : Rtsp} (hpc : s.pc = .idle) (hasData : Bool) (pts : Int64)
    (writable send : Int) :
    (RtspAct.encode hasData pts writable send).Leads s
      (s.beginFrame hasData pts writable send) := by
  unfold Rtsp.beginFrame
  split
  · exact ⟨rfl, .inl hpc⟩
  · split
    · exact ⟨rfl, .inl hpc⟩
    · split
      · exact ⟨rfl, .inl hpc⟩
      · exact ⟨rfl, .inr rfl⟩

theorem receivePacket_leads {s : Rtsp} (hpc : s.pc = .receiving) (hopts : s.opts = none)
    (e : Encoded) (a : Rtsp.WriteAnswer) :
    (RtspAct.receive e a).Leads s (s.receivePacket e a) := by
  have hcore := writePacket_core e.packet a hopts
  unfold Rtsp.receivePacket
  dsimp only
  split
  · exact ⟨hcore.size, .inl rfl⟩
  · exact ⟨hcore.size, .inr (hcore.pc.trans hpc)⟩

theorem flushPacket_leads {s : Rtsp} (hpc : s.pc = .closing) (hopts : s.opts = none)
    (e : Encoded) (a : Rtsp.WriteAnswer) : (RtspAct.flush e a).Leads s (s.flushPacket e a) := by
  unfold Rtsp.flushPacket
  split
  · exact (writePacket_core e.packet a hopts).pc.trans hpc
  · exact hpc

/-- The loop of `encoder_rtsp_close` turns in that function only. -/
theorem flush_from {s r : Rtsp} {e : Encoded} {w : Rtsp.WriteAnswer}
    (h : s.step (.flush e w) = some r) : s.pc = .closing := by
  cases hpc : s.pc with
  | closing => rfl
  | none | idle | receiving => simp [Rtsp.step, hpc] at h

theorem rtsp_leads {s r : Rtsp} {act : RtspAct} (hopts : s.opts = none)
    (h : s.step act = some r) : act.Leads s r := by
  unfold Rtsp.step at h
  split at h
  · cases h
    exact encoderRtspInit_sized ‹_› hopts ..
  · cases h
    exact beginFrame_leads ‹_› ..
  · cases h
    exact receivePacket_leads ‹_› hopts ..
  · cases h
    exact ⟨rfl, .inl rfl⟩
  · cases h
    rfl
  · split at h <;> cases h
    exact flushPacket_leads ‹_› hopts ..
  · cases h
    rfl
  · cases h

/-! ## The caches -/

namespace Conversion

theorem frameToBgr_encoder (f : ObsFrame) (a : PushAnswer) (c : Conversion) :
    (c.frameToBgr f a).2.encoder = c.encoder := by
  unfold frameToBgr scale
  split
  · rfl
  · split
    · rfl
    · dsimp only
      split <;> rfl

theorem encode_encoder (f : ObsFrame) (a : PushAnswer) (c : Conversion) :
    (c.encode f a).2.encoder = c.encoder.want f.size (if a.init then some f.size else none) ∧
      (c.encode f a).2.bgr = c.bgr := by
  unfold encode
  dsimp only
  split <;> exact ⟨rfl, rfl⟩

/-- A frame that is not scaled is given to nobody. -/
theorem push_unscaled {f : ObsFrame} {a : PushAnswer} {c : Conversion}
    (h : (c.frameToBgr f a).1 = false) : (c.pushVideoFrame f a).2.encoder = c.encoder := by
  unfold pushVideoFrame
  dsimp only
  rw [if_neg (by simp [h])]
  exact frameToBgr_encoder f a c

theorem push_scaled {f : ObsFrame} {a : PushAnswer} {c : Conversion}
    (h : (c.frameToBgr f a).1 = true) :
    (c.pushVideoFrame f a).2.encoder =
        c.encoder.want f.size (if a.init then some f.size else none) ∧
      (c.pushVideoFrame f a).2.bgr = (c.frameToBgr f a).2.bgr := by
  unfold pushVideoFrame
  dsimp only
  rw [if_pos h]
  obtain ⟨hencoder, hbgr⟩ := encode_encoder f a (c.frameToBgr f a).2
  rw [hencoder, frameToBgr_encoder]
  exact ⟨rfl, hbgr⟩

/-- A frame that is scaled has been scaled by a context for it, into the block as it is now. -/
theorem frameToBgr_scaled {f : ObsFrame} {a : PushAnswer} {c : Conversion}
    (h : (c.frameToBgr f a).1 = true) :
    let d := (c.frameToBgr f a).2
    d.toBgr.current.isSome = true ∧ d.toBgr.key = f.swsKey ∧
      ∃ x ∈ d.scales, x.frame = f ∧ x.dst = d.bgr.block := by
  unfold frameToBgr scale at h ⊢
  dsimp only at h ⊢
  split at h
  · cases h
  · rw [if_neg ‹_›]
    split at h
    · cases h
    · rename_i b hb
      split at h
      · cases h
      · rename_i id context hcur
        simp only [hb, hcur]
        exact ⟨rfl, Slot.want_key .., _, List.mem_append_right _ (List.mem_singleton_self _),
          rfl, rfl⟩

end Conversion

/-- Room in `bgr_frame` for a picture of this size. -/
def BgrFrame.Fits (b : BgrFrame) (size : VideoSize) : Prop :=
  0 < size.width.toInt ∧ 0 < size.height.toInt ∧
    ∃ x ∈ b.block, 3 * (size.width.toInt * size.height.toInt) ≤ x.capacity

theorem Coherent.fits {f : ObsFrame} {a : PushAnswer} {c : Conversion} (h : Coherent c)
    (hg : SwsChecksSize c (.push f a)) (hlive : c.stopped = false)
    (hscaled : (c.frameToBgr f a).1 = true) : (c.frameToBgr f a).2.bgr.Fits f.size := by
  have hnext := h.frameToBgr hg hlive
  obtain ⟨hcur, hkey, x, hx, hframe, hdst⟩ := Conversion.frameToBgr_scaled hscaled
  obtain ⟨y, hy⟩ := Option.isSome_iff_exists.mp hcur
  have hpos := (hnext.toBgr.matched y hy).positive
  rw [hkey] at hpos
  obtain ⟨b, hb, hroom⟩ := (hnext.scales x hx).room
  refine ⟨hpos.1, hpos.2, b, hdst.symm.trans hb, ?_⟩
  have hwidth : f.size.width.toInt = f.width.toNat := Int32.toInt_toInt32_of_pos hpos.1
  have hheight : f.size.height.toInt = f.height.toNat := Int32.toInt_toInt32_of_pos hpos.2
  rw [hframe, Nat.mul_assoc] at hroom
  rw [hwidth, hheight]
  exact_mod_cast hroom

/-! ## The stages -/

namespace SourceOutput

variable {s t : SourceOutput}

/-- The encoder is the one in the slot, with the size it was made for. -/
def Serves (s : SourceOutput) : Prop := ∃ x ∈ s.conv.encoder.current, s.encoder.size = x.2

/-- The frame has been scaled and needs an encoder that there is not. -/
structure Wants (s : SourceOutput) (f : ObsFrame) (a : PushAnswer) : Prop where
  scaled : (s.conv.frameToBgr f a).1 = true
  other : s.conv.encoder.current.isNone ∨ s.conv.encoder.key ≠ f.size
  checks : SwsChecksSize s.conv (.push f a)

/-- What holds of the encoder and of the slot, by where the thread is. -/
def Stage (s : SourceOutput) : Prop :=
  match s.pc with
  | .idle => s.encoder.pc = .none ∧ s.conv.encoder.current = none ∨ s.encoder.pc = .idle ∧ s.Serves
  | .closing f a _ => s.encoder.pc = .closing ∧ s.Wants f a
  | .init f a _ => s.encoder.pc = .none ∧ s.Wants f a
  | .dropping => s.encoder.pc = .closing ∧ s.conv.encoder.current = none
  | .frame _ => s.encoder.pc = .idle ∧ s.Serves ∧ s.conv.bgr.Fits s.encoder.size
  | .encoding => s.encoder.pc = .receiving ∧ s.Serves
  | .stopping => s.encoder.pc = .closing
  | .stopped => s.encoder.pc = .none ∧ s.conv.stopped = true ∧ s.conv.bgr.block = none

/-- Both parts are as they are on their own, and stand as the stage says. -/
structure Driven (s : SourceOutput) : Prop where
  conv : conversion.Reach SwsChecksSize s.conv
  encoder : rtsp.Reachable s.encoder
  live : s.pc ≠ .stopped → s.conv.stopped = false
  stage : s.Stage

/-- The slot is empty or serves, where the thread is between two frames. -/
theorem Stage.idle (h : s.Stage) (hpc : s.pc = .idle) :
    s.encoder.pc = .none ∧ s.conv.encoder.current = none ∨ s.encoder.pc = .idle ∧ s.Serves := by
  unfold Stage at h
  rwa [hpc] at h

theorem Stage.closing {f : ObsFrame} {a : PushAnswer} {pts : Int64} (h : s.Stage)
    (hpc : s.pc = .closing f a pts) : s.encoder.pc = .closing ∧ s.Wants f a := by
  unfold Stage at h
  rwa [hpc] at h

theorem Stage.init {f : ObsFrame} {a : PushAnswer} {pts : Int64} (h : s.Stage)
    (hpc : s.pc = .init f a pts) : s.encoder.pc = .none ∧ s.Wants f a := by
  unfold Stage at h
  rwa [hpc] at h

theorem Stage.dropping (h : s.Stage) (hpc : s.pc = .dropping) :
    s.encoder.pc = .closing ∧ s.conv.encoder.current = none := by
  unfold Stage at h
  rwa [hpc] at h

theorem Stage.frame {pts : Int64} (h : s.Stage) (hpc : s.pc = .frame pts) :
    s.encoder.pc = .idle ∧ s.Serves ∧ s.conv.bgr.Fits s.encoder.size := by
  unfold Stage at h
  rwa [hpc] at h

theorem Stage.encoding (h : s.Stage) (hpc : s.pc = .encoding) :
    s.encoder.pc = .receiving ∧ s.Serves := by
  unfold Stage at h
  rwa [hpc] at h

theorem Stage.stopping (h : s.Stage) (hpc : s.pc = .stopping) : s.encoder.pc = .closing := by
  unfold Stage at h
  rwa [hpc] at h

theorem Stage.stopped (h : s.Stage) (hpc : s.pc = .stopped) :
    s.encoder.pc = .none ∧ s.conv.stopped = true ∧ s.conv.bgr.block = none := by
  unfold Stage at h
  rwa [hpc] at h

/-- A turn of the loop of `encoder_rtsp_close` is made where an encoder is being closed, and
changes nothing but the encoder. -/
theorem Stage.flush {r : Rtsp} (h : s.Stage) (hfrom : s.encoder.pc = .closing)
    (hr : r.pc = .closing) : Stage { s with encoder := r } := by
  unfold Stage at h ⊢
  dsimp only
  split at h
  · rcases h with ⟨hnone, _⟩ | ⟨hidle, _⟩
    · exact absurd (hfrom.symm.trans hnone) (by simp)
    · exact absurd (hfrom.symm.trans hidle) (by simp)
  · exact ⟨hr, h.2.scaled, h.2.other, h.2.checks⟩
  · exact absurd (hfrom.symm.trans h.1) (by simp)
  · exact ⟨hr, h.2⟩
  · exact absurd (hfrom.symm.trans h.1) (by simp)
  · exact absurd (hfrom.symm.trans h.1) (by simp)
  · exact hr
  · exact absurd (hfrom.symm.trans h.1) (by simp)

/-- After a turn of the loop of `encoder_rtsp_encode_frame` there is another, or the thread is
between two frames. -/
theorem stage_afterReceive {r : Rtsp} (h : s.Serves) (hsize : r.size = s.encoder.size)
    (hr : r.pc = .idle ∨ r.pc = .receiving) :
    Stage { s with encoder := r, pc := afterReceive r } := by
  obtain ⟨x, hx, hserves⟩ := h
  rcases hr with hidle | hreceiving
  · have hpc : afterReceive r = .idle := by simp [afterReceive, hidle]
    unfold Stage
    rw [hpc]
    exact .inr ⟨hidle, x, hx, hsize.trans hserves⟩
  · have hpc : afterReceive r = .encoding := by simp [afterReceive, hreceiving]
    unfold Stage
    rw [hpc]
    exact ⟨hreceiving, x, hx, hsize.trans hserves⟩

theorem Driven.conv_pushed (h : s.Driven) (hpc : s.pc ≠ .stopped) {f : ObsFrame} {a : PushAnswer}
    (hg : SwsChecksSize s.conv (.push f a)) :
    conversion.Reach SwsChecksSize (s.conv.pushVideoFrame f a).2 ∧
      (s.conv.pushVideoFrame f a).2.stopped = false := by
  have hlive := h.live hpc
  refine ⟨.next h.conv hg ?_, (stopped_pushVideoFrame f a s.conv).trans hlive⟩
  simp [conversion, Conversion.step, hlive]

theorem Driven.conv_stopped (h : s.Driven) (hpc : s.pc ≠ .stopped) :
    conversion.Reach SwsChecksSize s.conv.stop :=
  .next (a := .stop) h.conv trivial (by simp [conversion, Conversion.step, h.live hpc])

/-- The encoder has taken a step of its own. -/
theorem Driven.encoder_next (h : s.Driven) {act : RtspAct} {r : Rtsp}
    (hr : s.encoder.step act = some r) : rtsp.Reachable r ∧ act.Leads s.encoder r :=
  ⟨h.encoder.next hr, rtsp_leads (rtspOk_of_reachable h.encoder).between.opts hr⟩

/-- The room that a scaled frame has. -/
theorem Driven.fits (h : s.Driven) (hpc : s.pc ≠ .stopped) {f : ObsFrame} {a : PushAnswer}
    (hg : SwsChecksSize s.conv (.push f a)) (hscaled : (s.conv.frameToBgr f a).1 = true) :
    (s.conv.pushVideoFrame f a).2.bgr.Fits f.size := by
  rw [(Conversion.push_scaled hscaled).2]
  exact (coherent_of_reach h.conv).fits hg (h.live hpc) hscaled

/-- `encoder_rtsp_init` has returned: the slot holds the encoder for the frame, or nothing. -/
theorem stage_initialised {f : ObsFrame} {a : PushAnswer} {pts : Int64} {r : Rtsp}
    (h : s.Wants f a) (hfits : ∀ init, (s.conv.pushVideoFrame f { a with init }).2.bgr.Fits f.size)
    (hr : r.pc = .none ∨ r.pc = .closing ∨ r.pc = .idle ∧ r.size = f.size) :
    (s.initialised f a pts r).Stage := by
  have hencoder : ∀ init, (s.conv.pushVideoFrame f { a with init }).2.encoder =
      s.conv.encoder.renew f.size (if init then some f.size else none) := by
    intro init
    rw [(Conversion.push_scaled (a := { a with init }) h.scaled).1, Slot.want, if_pos h.other]
  have hempty : r.pc ≠ .idle → (s.initialised f a pts r).conv.encoder.current = none := by
    intro hne
    have hnone := hencoder (r.pc = .idle)
    rw [if_neg (by simpa using hne)] at hnone
    exact congrArg Slot.current hnone
  rcases hr with hnone | hclosing | ⟨hidle, hsize⟩
  · have hpc : (s.initialised f a pts r).pc = .idle := by simp [initialised, hnone]
    unfold Stage
    rw [hpc]
    exact .inl ⟨hnone, hempty (by simp [hnone])⟩
  · have hpc : (s.initialised f a pts r).pc = .dropping := by simp [initialised, hclosing]
    unfold Stage
    rw [hpc]
    exact ⟨hclosing, hempty (by simp [hclosing])⟩
  · have hpc : (s.initialised f a pts r).pc = .frame pts := by simp [initialised, hidle]
    unfold Stage
    rw [hpc]
    have hmade := hencoder (r.pc = .idle)
    rw [if_pos (by simpa using hidle)] at hmade
    refine ⟨hidle, ⟨(s.conv.encoder.issued, f.size), congrArg Slot.current hmade, hsize⟩, ?_⟩
    change (s.conv.pushVideoFrame f { a with init := r.pc = .idle }).2.bgr.Fits r.size
    rw [hsize]
    exact hfits _

end SourceOutput

/-! ## Runs -/

theorem driven_step {s t : SourceOutput} {act : OutputAct} (h : s.Driven)
    (hg : OutputAct.ChecksSize s act) (hs : sourceOutput.step s act = some t) : t.Driven := by
  cases output_move hs with
  | @unscaled f pts a hpc hscaled =>
    obtain ⟨hconv, hlive⟩ := h.conv_pushed (by simp [hpc]) hg
    have hencoder := Conversion.push_unscaled hscaled
    refine ⟨hconv, h.encoder, fun _ => hlive, ?_⟩
    have hidle := h.stage.idle hpc
    unfold SourceOutput.Stage SourceOutput.Serves
    dsimp only
    rw [hpc, hencoder]
    exact hidle
  | first hpc hscaled hnone =>
    refine ⟨h.conv, h.encoder, fun _ => h.live (by simp [hpc]), ?_⟩
    rcases h.stage.idle hpc with ⟨hfrom, _⟩ | ⟨_, x, hx, _⟩
    · exact ⟨hfrom, hscaled, .inl (by simp [hnone]), hg⟩
    · cases hnone.symm.trans hx
  | resized hpc hscaled hkey hr =>
    obtain ⟨hreach, hclosing⟩ := h.encoder_next hr
    exact ⟨h.conv, hreach, fun _ => h.live (by simp [hpc]), hclosing, hscaled, .inr hkey, hg⟩
  | @same f pts a x hpc hscaled hsome hkey =>
    obtain ⟨hconv, hlive⟩ := h.conv_pushed (by simp [hpc]) hg
    refine ⟨hconv, h.encoder, fun _ => hlive, ?_⟩
    rcases h.stage.idle hpc with ⟨_, hnone⟩ | ⟨hidle, y, hy, hsize⟩
    · cases hnone.symm.trans hsome
    · have hkept : (s.conv.pushVideoFrame f a).2.encoder = s.conv.encoder := by
        rw [(Conversion.push_scaled hscaled).1, Slot.want, if_neg (by simp [hsome, hkey])]
      have hmade : f.size = y.2 := hkey ▸ (coherent_of_reach h.conv).encoder.matched y hy
      refine ⟨hidle, ⟨y, (congrArg Slot.current hkept).trans hy, hsize⟩, ?_⟩
      dsimp only
      rw [hsize, ← hmade]
      exact h.fits (by simp [hpc]) hg hscaled
  | flush hr =>
    obtain ⟨hreach, hclosing⟩ := h.encoder_next hr
    exact ⟨h.conv, hreach, h.live, h.stage.flush (flush_from hr) hclosing⟩
  | closedOld hpc hr =>
    obtain ⟨hreach, hnone⟩ := h.encoder_next hr
    have hwants := (h.stage.closing hpc).2
    exact ⟨h.conv, hreach, fun _ => h.live (by simp [hpc]), hnone, hwants.scaled, hwants.other,
      hwants.checks⟩
  | @init f a pts answer r hpc hr =>
    obtain ⟨hreach, hleads⟩ := h.encoder_next hr
    have hwants := (h.stage.init hpc).2
    obtain ⟨hconv, hlive⟩ := h.conv_pushed (a := { a with init := r.pc = .idle }) (by simp [hpc])
      hwants.checks
    refine ⟨hconv, hreach, fun _ => hlive,
      SourceOutput.stage_initialised hwants (fun init => ?_) hleads⟩
    exact h.fits (a := { a with init }) (by simp [hpc]) hwants.checks hwants.scaled
  | closedFailed hpc hr =>
    obtain ⟨hreach, hnone⟩ := h.encoder_next hr
    exact ⟨h.conv, hreach, fun _ => h.live (by simp [hpc]), .inl ⟨hnone, (h.stage.dropping hpc).2⟩⟩
  | encode hpc hr =>
    obtain ⟨hreach, hsize, hleads⟩ := h.encoder_next hr
    exact ⟨h.conv, hreach, fun _ => h.live (by simp [hpc]),
      SourceOutput.stage_afterReceive (h.stage.frame hpc).2.1 hsize hleads⟩
  | receive hpc hr =>
    obtain ⟨hreach, hsize, hleads⟩ := h.encoder_next hr
    exact ⟨h.conv, hreach, fun _ => h.live (by simp [hpc]),
      SourceOutput.stage_afterReceive (h.stage.encoding hpc).2 hsize hleads⟩
  | drained hpc hr =>
    obtain ⟨hreach, hsize, hleads⟩ := h.encoder_next hr
    exact ⟨h.conv, hreach, fun _ => h.live (by simp [hpc]),
      SourceOutput.stage_afterReceive (h.stage.encoding hpc).2 hsize hleads⟩
  | stopNone hpc hnone =>
    refine ⟨h.conv_stopped (by simp [hpc]), h.encoder, fun hne => absurd rfl hne, ?_⟩
    rcases h.stage.idle hpc with ⟨hgone, _⟩ | ⟨_, x, hx, _⟩
    · exact ⟨hgone, rfl, rfl⟩
    · cases hnone.symm.trans hx
  | stop hpc hr =>
    obtain ⟨hreach, hclosing⟩ := h.encoder_next hr
    exact ⟨h.conv, hreach, fun _ => h.live (by simp [hpc]), hclosing⟩
  | closedLast hpc hr =>
    obtain ⟨hreach, hnone⟩ := h.encoder_next hr
    exact ⟨h.conv_stopped (by simp [hpc]), hreach, fun hne => absurd rfl hne, hnone, rfl, rfl⟩

theorem driven_of_reach {s : SourceOutput} (h : sourceOutput.Reach OutputAct.ChecksSize s) :
    s.Driven := by
  refine h.invariant ?_ fun _ _ _ _ hi hg hs => driven_step hi hg hs
  rintro _ ⟨configured, fps, rfl⟩
  exact ⟨.start ⟨configured, rfl⟩, .start rfl, fun _ => rfl, .inl ⟨rfl, rfl⟩⟩

/-- **Served output.** The caches and the encoder, driven by one another, stay in states that each
reaches on its own. Between two frames the slot is empty where there is no encoder, and names the
size of the one there is; a frame is encoded by an encoder of the size in the slot, and `bgr_frame`
has room for a picture of that size; after `droidcam_source_stop` everything that the encoders and
the scaling contexts took has been released once. -/
theorem output_served {s : SourceOutput} (h : sourceOutput.Reach OutputAct.ChecksSize s) :
    conversion.Reach SwsChecksSize s.conv ∧ rtsp.Reachable s.encoder ∧
      (s.pc = .idle → s.encoder.pc = .none ∧ s.conv.encoder.current = none ∨
        s.encoder.pc = .idle ∧ s.Serves) ∧
      (∀ pts, s.pc = .frame pts →
        s.encoder.pc = .idle ∧ s.Serves ∧ s.conv.bgr.Fits s.encoder.size) ∧
      (s.pc = .stopped → s.conv.bgr.block = none ∧
        (∀ a, s.conv.toBgr.released.count a = if a < s.conv.toBgr.issued then 1 else 0) ∧
        ∀ a, s.encoder.av.released.count a = if a < s.encoder.av.issued then 1 else 0) := by
  have hi := driven_of_reach h
  refine ⟨hi.conv, hi.encoder, hi.stage.idle, fun _ => hi.stage.frame, fun hpc => ?_⟩
  obtain ⟨hnone, hstopped, hblock⟩ := hi.stage.stopped hpc
  have hcaches := coherent_of_reach hi.conv
  exact ⟨hblock, hcaches.toBgr.all_released (hcaches.final hstopped).1,
    (rtspOk_of_reachable hi.encoder).all_released hnone⟩

def OutputAct.sized : OutputAct → Bool
  | .push f _ a => (ConversionAct.push f a).sized
  | _ => true

theorem checksSize_of_sized (s : SourceOutput) (act : OutputAct) (h : act.sized = true) :
    act.ChecksSize s := by
  cases act with
  | push f pts a => exact swsChecksSize_of_sized s.conv (.push f a) h
  | _ => trivial

/-- A frame is encoded, the phone is turned and the next encoder gets no frame; the one after it
is made and closed again. -/
theorem output_served_turned : ∃ s, sourceOutput.Reach OutputAct.ChecksSize s ∧
    s.pc = .stopped ∧ s.encoder.av.issued = 23 ∧ s.conv.toBgr.issued = 2 ∧
      s.conv.bgr.block = none ∧
      ∀ a, s.encoder.av.released.count a = if a < s.encoder.av.issued then 1 else 0 := by
  obtain ⟨s, hs, hp⟩ := sourceOutput.reach_of_replay (fun _ act => act.sized)
    (fun s => (s.pc matches .stopped) && s.encoder.av.issued = 23 && s.conv.toBgr.issued = 2)
    (.start ⟨640, 480⟩ 30)
    [.push (.i420 640 480) 0 .good, .init .good, .encode 0 0,
      .receive ⟨[0x65], some 1, some 1⟩ .good, .drained,
      .push (.i420 480 640) 40000 .good, .flush ⟨[0x41], some 2, some 2⟩ .good, .closed,
      .init { Rtsp.InitAnswer.good with frame := false }, .closed,
      .push (.i420 480 640) 80000 .good, .init .good, .encode 0 0, .drained,
      .stop, .closed]
    checksSize_of_sized (.start ⟨_, _, rfl⟩) (by decide +kernel)
  simp only [Bool.and_eq_true, decide_eq_true_eq] at hp
  obtain ⟨⟨hstopped, hissued⟩, hcontexts⟩ := hp
  have hpc : s.pc = .stopped := by
    cases hpc : s.pc with
    | stopped => rfl
    | _ => simp [hpc] at hstopped
  obtain ⟨_, _, _, _, hfinal⟩ := output_served hs
  obtain ⟨hblock, _, hreleased⟩ := hfinal hpc
  exact ⟨s, hs, hpc, hissued, hcontexts, hblock, hreleased⟩

/-! ## The calls -/

/-- What may come next, by where the thread is. -/
def OutputPc.Allows : OutputPc → OutputAct → Prop
  | .idle, .push .. | .idle, .stop | .closing .., .closed | .init .., .init _ | .dropping, .closed
  | .frame _, .encode .. | .encoding, .receive .. | .encoding, .drained | .stopping, .closed => True
  | _, _ => False

/-- Between two frames any frame can be pushed. -/
theorem push_accepted {s : SourceOutput} (h : s.Driven) (hpc : s.pc = .idle) (f : ObsFrame)
    (pts : Int64) (a : PushAnswer) : ∃ t, s.step (.push f pts a) = some t := by
  unfold SourceOutput.step SourceOutput.onRtsp
  rw [hpc]
  dsimp only
  split
  · exact ⟨_, rfl⟩
  · cases hcur : s.conv.encoder.current with
    | none => exact ⟨_, rfl⟩
    | some x =>
      rcases h.stage.idle hpc with ⟨_, hnone⟩ | ⟨hidle, _⟩
      · cases hnone.symm.trans hcur
      · dsimp only
        split
        · exact ⟨_, by simp [Rtsp.step, hidle]; rfl⟩
        · exact ⟨_, rfl⟩

theorem stop_accepted {s : SourceOutput} (h : s.Driven) (hpc : s.pc = .idle) :
    ∃ t, s.step .stop = some t := by
  unfold SourceOutput.step SourceOutput.onRtsp
  rw [hpc]
  dsimp only
  cases hcur : s.conv.encoder.current with
  | none => exact ⟨_, rfl⟩
  | some x =>
    rcases h.stage.idle hpc with ⟨_, hnone⟩ | ⟨hidle, _⟩
    · cases hnone.symm.trans hcur
    · exact ⟨_, by simp [Rtsp.step, hidle]; rfl⟩

/-- **Calls.** Whatever the libraries have answered so far, `encoder_rtsp_init` is called where
there is no encoder, `encoder_rtsp_encode_frame` and `encoder_rtsp_close` where there is one that
no other call is using. -/
theorem calls_accepted {s : SourceOutput} (h : sourceOutput.Reach OutputAct.ChecksSize s)
    {act : OutputAct} (ha : s.pc.Allows act) : ∃ t, sourceOutput.step s act = some t := by
  have hi := driven_of_reach h
  change ∃ t, s.step act = some t
  cases hpc : s.pc with
  | idle =>
    cases act with
    | push f pts a => exact push_accepted hi hpc f pts a
    | stop => exact stop_accepted hi hpc
    | _ => simp [hpc, OutputPc.Allows] at ha
  | closing f a pts =>
    have hclosing := (hi.stage.closing hpc).1
    cases act with
    | closed =>
      exact ⟨_, by simp [SourceOutput.step, SourceOutput.onRtsp, Rtsp.step, hpc, hclosing]; rfl⟩
    | _ => simp [hpc, OutputPc.Allows] at ha
  | init f a pts =>
    have hnone := (hi.stage.init hpc).1
    cases act with
    | init answer => exact ⟨_, by simp [SourceOutput.step, Rtsp.step, hpc, hnone]; rfl⟩
    | _ => simp [hpc, OutputPc.Allows] at ha
  | dropping =>
    have hclosing := (hi.stage.dropping hpc).1
    cases act with
    | closed =>
      exact ⟨_, by simp [SourceOutput.step, SourceOutput.onRtsp, Rtsp.step, hpc, hclosing]; rfl⟩
    | _ => simp [hpc, OutputPc.Allows] at ha
  | frame pts =>
    have hidle := (hi.stage.frame hpc).1
    cases act with
    | encode writable send =>
      exact ⟨_, by simp [SourceOutput.step, SourceOutput.onRtsp, Rtsp.step, hpc, hidle]; rfl⟩
    | _ => simp [hpc, OutputPc.Allows] at ha
  | encoding =>
    have hreceiving := (hi.stage.encoding hpc).1
    cases act with
    | receive e w =>
      exact ⟨_, by simp [SourceOutput.step, SourceOutput.onRtsp, Rtsp.step, hpc, hreceiving]; rfl⟩
    | drained =>
      exact ⟨_, by simp [SourceOutput.step, SourceOutput.onRtsp, Rtsp.step, hpc, hreceiving]; rfl⟩
    | _ => simp [hpc, OutputPc.Allows] at ha
  | stopping =>
    have hclosing := hi.stage.stopping hpc
    cases act with
    | closed => exact ⟨_, by simp [SourceOutput.step, Rtsp.step, hpc, hclosing]; rfl⟩
    | _ => simp [hpc, OutputPc.Allows] at ha
  | stopped => simp [hpc, OutputPc.Allows] at ha

/-- The first frame waits for the encoder that has been made for it. -/
theorem calls_accepted_first : ∃ s, sourceOutput.Reach OutputAct.ChecksSize s ∧
    (∃ x ∈ s.conv.encoder.current, x.2 = ⟨640, 480⟩) ∧
      ∃ t, sourceOutput.step s (.encode 0 0) = some t := by
  obtain ⟨s, hs, hp⟩ := sourceOutput.reach_of_replay (fun _ act => act.sized)
    (fun s => (s.pc matches .frame _) && s.conv.encoder.current = some (0, ⟨640, 480⟩))
    (.start ⟨640, 480⟩ 30) [.push (.i420 640 480) 0 .good, .init .good]
    checksSize_of_sized (.start ⟨_, _, rfl⟩) (by decide +kernel)
  simp only [Bool.and_eq_true, decide_eq_true_eq] at hp
  obtain ⟨hframe, hmade⟩ := hp
  have hallows : s.pc.Allows (.encode 0 0) := by
    cases hpc : s.pc with
    | frame pts => trivial
    | _ => simp [hpc] at hframe
  exact ⟨s, hs, ⟨_, hmade, rfl⟩, calls_accepted hs hallows⟩

end DroidcamWhip
