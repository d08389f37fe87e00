import DroidcamWhip.EncoderRtsp

/-!
The life of the RTSP output: the muxer is called on contexts with a written header
only, and everything that is handed out is released once, whichever calls fail.
-/

namespace DroidcamWhip

open Custody (Held)

/-- A call on a live context whose header has been written. -/
def MuxerCall.Sound : MuxerCall → Prop
  | .write target freed _ _ _ => (∃ f, target = some f ∧ f.header = true) ∧ freed = false
  | .trailer target freed => target.header = true ∧ freed = false

/-- The context whose trailer a call writes. -/
def MuxerCall.ends : MuxerCall → List Nat
  | .trailer target _ => [target.id]
  | .write .. => []

/-- The contexts whose trailer has been written, in order. -/
def Av.ended (v : Av) : List Nat := v.calls.flatMap MuxerCall.ends

theorem EncoderRtspCtx.holds_count (c : EncoderRtspCtx) (a : Nat) :
    c.holds.count a = c.self.toList.count a + c.url.toList.count a +
      (c.codecCtx.map CodecContext.id).toList.count a +
      (c.frame.map EncoderFrame.id).toList.count a + c.packet.toList.count a + c.sws.toList.count a + c.output.count a := by
  simp only [holds, List.count_append]

/-- The output of a context: open only with a written header and a stream. -/
structure OutputSound (c : EncoderRtspCtx) : Prop where
  opened : c.outputOpen = true →
    (∃ f, c.fmtCtx = some f ∧ f.header = true) ∧ c.stream.isSome = true
  noFile : ∀ f ∈ c.fmtCtx, f.noFile = true → f.pb = none
  stream : c.fmtCtx = none → c.stream = none

/-- Calls made so far: all sound, no context ended twice or before its release. -/
structure CallsSound (v : Av) : Prop where
  calls : ∀ c ∈ v.calls, c.Sound
  once : v.ended.Nodup
  gone : ∀ id ∈ v.ended, id ∈ v.released

structure RtspSound (s : Rtsp) : Prop where
  held : Held [s.ctx.holds, s.opts.toList, s.av.released] s.av.issued
  output : OutputSound s.ctx
  calls : CallsSound s.av

namespace RtspSound

variable {s : Rtsp}

/-! ## The ledger -/

theorem make (h : RtspSound s) {put : Nat → EncoderRtspCtx}
    (hcount : ∀ a, (put s.av.issued).holds.count a =
      s.ctx.holds.count a + if a = s.av.issued then 1 else 0)
    (hout : OutputSound (put s.av.issued)) : RtspSound (s.make put) := by
  refine ⟨h.held.issue fun a => ?_, hout, ⟨h.calls.calls, h.calls.once, h.calls.gone⟩⟩
  simp only [Rtsp.make, Custody.occurrences_cons, hcount]
  omega

theorem drop (h : RtspSound s) {ids : List Nat} {ctx : EncoderRtspCtx}
    (hcount : ∀ a, ctx.holds.count a + ids.count a = s.ctx.holds.count a)
    (hout : OutputSound ctx) : RtspSound (s.drop ids ctx) := by
  refine ⟨h.held.move fun a => ?_, hout, ⟨h.calls.calls, h.calls.once, fun id hid => ?_⟩⟩
  · have := hcount a
    simp only [Rtsp.drop, Custody.occurrences_cons, Custody.occurrences_nil, List.count_append]
    omega
  · exact List.mem_append_left _ (h.calls.gone id hid)

theorem setDict (h : RtspSound s) (hopts : s.opts = none) : RtspSound s.setDict := by
  refine ⟨h.held.issue fun a => ?_, h.output, ⟨h.calls.calls, h.calls.once, h.calls.gone⟩⟩
  simp [Rtsp.setDict, hopts, List.count_singleton, eq_comm (a := a)]
  omega

theorem freeDict (h : RtspSound s) : RtspSound s.freeDict := by
  refine ⟨h.held.move fun a => ?_, h.output, ⟨h.calls.calls, h.calls.once, fun id hid => ?_⟩⟩
  · simp [Rtsp.freeDict]
    omega
  · exact List.mem_append_left _ (h.calls.gone id hid)

/-- What is held has not been released. -/
theorem live (h : RtspSound s) {id : Nat} (hid : id ∈ s.ctx.holds) : id ∉ s.av.released := by
  have hc := h.held id
  have hpos := List.count_pos_iff.mpr hid
  simp only [Custody.occurrences_cons, Custody.occurrences_nil] at hc
  rw [← List.count_eq_zero]
  split at hc <;> omega

theorem fmtCtx_live (h : RtspSound s) {f : FormatContext} (hf : s.ctx.fmtCtx = some f) :
    f.id ∉ s.av.released :=
  h.live (by simp [EncoderRtspCtx.holds, EncoderRtspCtx.output, hf])

/-- A write on a live context leaves everything else as it is. -/
theorem write (h : RtspSound s) (hopen : s.ctx.outputOpen = true) (p : AvPacket) (ret : Int) :
    RtspSound (s.interleavedWrite p ret) := by
  obtain ⟨⟨f, hf, hheader⟩, _⟩ := h.output.opened hopen
  refine ⟨h.held, h.output, ⟨?_, ?_, ?_⟩⟩
  · simp only [Rtsp.interleavedWrite, Rtsp.call, List.forall_mem_append, List.forall_mem_singleton]
    refine ⟨h.calls.calls, ⟨f, hf, hheader⟩, ?_⟩
    simp [hf, h.fmtCtx_live hf]
  · simpa [Rtsp.interleavedWrite, Rtsp.call, Av.ended, MuxerCall.ends] using h.calls.once
  · simpa [Rtsp.interleavedWrite, Rtsp.call, Av.ended, MuxerCall.ends] using h.calls.gone

/-! ## The output -/

/-- An output that is closed, as `close_output` leaves it. -/
structure Closed (s : Rtsp) : Prop where
  fmtCtx : s.ctx.fmtCtx = none
  stream : s.ctx.stream = none
  outputOpen : s.ctx.outputOpen = false

/-- The trailer is written for an open output that is released with it. -/
theorem trailer (h : RtspSound s) {f : FormatContext} (hf : s.ctx.fmtCtx = some f)
    (hopen : s.ctx.outputOpen = true) {ids : List Nat} (hid : f.id ∈ ids) :
    CallsSound ((s.call (.trailer f (f.id ∈ s.av.released))).drop ids s.ctx).av := by
  obtain ⟨⟨g, hg, hheader⟩, _⟩ := h.output.opened hopen
  have hlive := h.fmtCtx_live hf
  have hended : Av.ended ((s.call (.trailer f (f.id ∈ s.av.released))).drop ids s.ctx).av =
      s.av.ended ++ [f.id] := by
    simp [Rtsp.call, Rtsp.drop, Av.ended, MuxerCall.ends]
  refine ⟨?_, ?_, ?_⟩
  · simp only [Rtsp.call, Rtsp.drop, List.forall_mem_append, List.forall_mem_singleton]
    refine ⟨h.calls.calls, ?_, decide_eq_false hlive⟩
    rwa [Option.some.inj (hf.symm.trans hg)]
  · rw [hended]
    refine List.nodup_append.mpr ⟨h.calls.once, by simp, ?_⟩
    rintro a ha b hb rfl
    exact hlive (List.mem_singleton.mp hb ▸ h.calls.gone _ ha)
  · rw [hended]
    intro id hmem
    rcases List.mem_append.mp hmem with hmem | hmem
    · exact List.mem_append_left _ (h.calls.gone id hmem)
    · exact List.mem_append_right _ (List.mem_singleton.mp hmem ▸ hid)

theorem closeOutput (h : RtspSound s) : RtspSound s.closeOutput := by
  unfold Rtsp.closeOutput
  cases hf : s.ctx.fmtCtx with
  | none => exact h
  | some f =>
    have hcount : ∀ a, ({ s.ctx with fmtCtx := none, stream := none, outputOpen := false } :
          EncoderRtspCtx).holds.count a +
        ((if f.noFile then [] else f.pb.toList) ++ [f.id]).count a = s.ctx.holds.count a := by
      intro a
      simp only [EncoderRtspCtx.holds, EncoderRtspCtx.output, hf, List.count_append,
        Option.map_some, Option.map_none, Option.bind_some, Option.bind_none, Option.toList_some,
        Option.toList_none, List.count_nil]
      split
      · rw [h.output.noFile f hf ‹_›]
        simp only [Option.toList_none, List.count_nil]
        omega
      · omega
    have hout : OutputSound { s.ctx with fmtCtx := none, stream := none, outputOpen := false } :=
      ⟨nofun, nofun, fun _ => rfl⟩
    have hdrop := h.drop hcount hout
    dsimp only
    split
    · rename_i hopen
      exact ⟨hdrop.held, hdrop.output, h.trailer hf hopen (by simp)⟩
    · exact hdrop

theorem closeOutput_closed (h : RtspSound s) : Closed s.closeOutput := by
  unfold Rtsp.closeOutput
  cases hf : s.ctx.fmtCtx with
  | none =>
    refine ⟨hf, h.output.stream hf, Bool.eq_false_iff.mpr fun hopen => ?_⟩
    obtain ⟨⟨f, hf', _⟩, _⟩ := h.output.opened hopen
    simp [hf] at hf'
  | some f => exact ⟨rfl, rfl, rfl⟩

end RtspSound

/-- The members that are not the output. -/
def EncoderRtspCtx.core (c : EncoderRtspCtx) : EncoderRtspCtx :=
  { c with fmtCtx := none, stream := none, outputOpen := false }

/-- Only the output differs. -/
structure SameCore (s t : Rtsp) : Prop where
  pc : t.pc = s.pc
  opts : t.opts = s.opts
  stamps : t.stamps = s.stamps
  core : t.ctx.core = s.ctx.core

theorem SameCore.refl (s : Rtsp) : SameCore s s := ⟨rfl, rfl, rfl, rfl⟩

theorem SameCore.trans {s t u : Rtsp} (h : SameCore s t) (h' : SameCore t u) : SameCore s u :=
  ⟨h'.pc.trans h.pc, h'.opts.trans h.opts, h'.stamps.trans h.stamps, h'.core.trans h.core⟩

theorem closeOutput_core (s : Rtsp) : SameCore s s.closeOutput := by
  unfold Rtsp.closeOutput
  split
  · exact .refl s
  · dsimp only
    split <;> exact ⟨rfl, rfl, rfl, rfl⟩

theorem writeHeader_core (a : Rtsp.OpenAnswer) (s : Rtsp) :
    SameCore s.freeDict (s.writeHeader a).2 := by
  unfold Rtsp.writeHeader
  split
  · exact closeOutput_core _
  · exact ⟨rfl, rfl, rfl, rfl⟩

theorem startOutput_core (a : Rtsp.OpenAnswer) {s : Rtsp} (hopts : s.opts = none) :
    SameCore s (s.startOutput a).2 := by
  have hfree : ∀ t : Rtsp, SameCore s { t with opts := s.opts } → SameCore s t.freeDict :=
    fun t h => ⟨h.pc, hopts.symm, h.stamps, h.core⟩
  unfold Rtsp.startOutput
  dsimp only
  split
  · exact (hfree s.setDict ⟨rfl, rfl, rfl, rfl⟩).trans (writeHeader_core a _)
  · split
    · exact (hfree s.setDict ⟨rfl, rfl, rfl, rfl⟩).trans (closeOutput_core _)
    · exact (hfree s.setDict.openPb ⟨rfl, rfl, rfl, rfl⟩).trans (writeHeader_core a _)

theorem openOutput_core (a : Rtsp.OpenAnswer) {s : Rtsp} (hopts : s.opts = none) :
    SameCore s (s.openOutput a).2 := by
  have hclose := closeOutput_core s
  have hopts' := hclose.opts.trans hopts
  unfold Rtsp.openOutput
  dsimp only
  split
  · exact hclose
  · split
    · exact hclose
    · split
      · exact hclose.trans ⟨rfl, rfl, rfl, rfl⟩
      · split
        · exact hclose.trans ⟨rfl, rfl, rfl, rfl⟩
        · refine (hclose.trans ?_).trans (startOutput_core a hopts')
          exact ⟨rfl, rfl, rfl, rfl⟩

namespace RtspSound

variable {s : Rtsp}

/-- A context whose header is still to be written, with its stream. -/
structure Opening (s : Rtsp) : Prop where
  fmtCtx : s.ctx.fmtCtx.isSome = true
  stream : s.ctx.stream.isSome = true

theorem writeHeader (h : RtspSound s) (ho : Opening s) (a : Rtsp.OpenAnswer) :
    RtspSound (s.writeHeader a).2 := by
  unfold Rtsp.writeHeader
  split
  · exact h.freeDict.closeOutput
  · obtain ⟨f, hf⟩ := Option.isSome_iff_exists.mp ho.fmtCtx
    have hfree := h.freeDict
    refine ⟨hfree.held.move fun x => ?_,
      ⟨fun _ => ⟨⟨{ f with header := true }, ?_, rfl⟩, ?_⟩, ?_, ?_⟩, hfree.calls⟩
    · simp [Rtsp.freeDict, Rtsp.publish, EncoderRtspCtx.holds, EncoderRtspCtx.output, hf]
    · simp [Rtsp.freeDict, Rtsp.publish, hf]
    · simpa [Rtsp.freeDict, Rtsp.publish] using ho.stream
    · simpa [Rtsp.freeDict, Rtsp.publish, hf] using h.output.noFile f hf
    · simp [Rtsp.freeDict, Rtsp.publish, hf]

theorem startOutput (h : RtspSound s) (ho : Opening s) (hclosed : s.ctx.outputOpen = false)
    (hopts : s.opts = none) {f : FormatContext} (hf : s.ctx.fmtCtx = some f) (hpb : f.pb = none)
    {a : Rtsp.OpenAnswer} (hno : f.noFile = a.noFile) : RtspSound (s.startOutput a).2 := by
  have hdict := h.setDict hopts
  unfold Rtsp.startOutput
  dsimp only
  split
  · exact hdict.writeHeader ⟨ho.fmtCtx, ho.stream⟩ a
  · rename_i hfile
    split
    · exact hdict.freeDict.closeOutput
    · have hopen : RtspSound s.setDict.openPb := by
        refine hdict.make (fun x => ?_) ⟨?_, ?_, ?_⟩
        · simp [Rtsp.setDict, EncoderRtspCtx.holds, EncoderRtspCtx.output, hf, hpb, List.count_cons,
            eq_comm (a := x)]
          omega
        · simp [Rtsp.setDict, hclosed]
        · simp [Rtsp.setDict, hf, hno, hfile]
        · simp [Rtsp.setDict, hf]
      refine hopen.writeHeader ⟨?_, ho.stream⟩ a
      simp [Rtsp.openPb, Rtsp.setDict, Rtsp.make, hf]

theorem openOutput (h : RtspSound s) (hopts : s.opts = none) (a : Rtsp.OpenAnswer) :
    RtspSound (s.openOutput a).2 := by
  have hclose := h.closeOutput
  have hc := h.closeOutput_closed
  have hopts' := (closeOutput_core s).opts.trans hopts
  unfold Rtsp.openOutput
  dsimp only
  split
  · exact hclose
  · split
    · exact hclose
    · have hmade : RtspSound (s.closeOutput.make fun id =>
          { s.closeOutput.ctx with fmtCtx := some ⟨id, a.noFile, none, false⟩ }) := by
        refine hclose.make (fun x => ?_) ⟨?_, ?_, ?_⟩
        · simp [EncoderRtspCtx.holds, EncoderRtspCtx.output, hc.fmtCtx, List.count_singleton,
            eq_comm (a := x)]
          omega
        · simp [hc.outputOpen]
        · simp
        · simp
      split
      · exact hmade
      · have hstream : RtspSound { (s.closeOutput.make fun id =>
            { s.closeOutput.ctx with fmtCtx := some ⟨id, a.noFile, none, false⟩ }) with
            ctx := { s.closeOutput.ctx with
              fmtCtx := some ⟨s.closeOutput.av.issued, a.noFile, none, false⟩
              stream := some ⟨0, s.closeOutput.ctx.timeBase⟩ } } :=
          ⟨hmade.held, ⟨by simp [hc.outputOpen], hmade.output.noFile, nofun⟩, hmade.calls⟩
        split
        · exact hstream
        · exact hstream.startOutput ⟨rfl, rfl⟩ hc.outputOpen hopts' rfl rfl rfl

end RtspSound

/-! ## Packets -/

theorem writeHeader_open {a : Rtsp.OpenAnswer} {s : Rtsp} (h : ¬ (s.writeHeader a).1 < 0) :
    (s.writeHeader a).2.ctx.outputOpen = true := by
  unfold Rtsp.writeHeader at h ⊢
  split
  · rename_i hneg
    rw [if_pos hneg] at h
    exact absurd hneg h
  · rfl

theorem startOutput_open {a : Rtsp.OpenAnswer} {s : Rtsp} (h : ¬ (s.startOutput a).1 < 0) :
    (s.startOutput a).2.ctx.outputOpen = true := by
  unfold Rtsp.startOutput at h ⊢
  dsimp only at h ⊢
  split at h
  · rw [if_pos ‹_›]
    exact writeHeader_open h
  · rw [if_neg ‹_›]
    split at h
    · exact absurd ‹a.avio < 0› h
    · rw [if_neg ‹_›]
      exact writeHeader_open h

/-- `open_output` reports success only with an open output. -/
theorem openOutput_open {a : Rtsp.OpenAnswer} {s : Rtsp} (h : ¬ (s.openOutput a).1 < 0) :
    (s.openOutput a).2.ctx.outputOpen = true := by
  unfold Rtsp.openOutput at h ⊢
  dsimp only at h ⊢
  split at h
  · exact absurd ‹a.context < 0› h
  · rw [if_neg ‹_›]
    split at h
    · exact absurd (show Rtsp.averrorUnknown < 0 by decide) h
    · rw [if_neg ‹_›]
      split at h
      · exact absurd (show Rtsp.enomem < 0 by decide) h
      · rw [if_neg ‹_›]
        split at h
        · exact absurd ‹a.parameters < 0› h
        · rw [if_neg ‹_›]
          exact startOutput_open h

theorem sendPacket_core (p : AvPacket) (a : Rtsp.WriteAnswer) {s : Rtsp} (hopts : s.opts = none) :
    SameCore s (s.sendPacket p a).2 := by
  have hwrite : SameCore s (s.interleavedWrite (s.prepare p) a.write) := ⟨rfl, rfl, rfl, rfl⟩
  have hclose := hwrite.trans (closeOutput_core _)
  have hopen := hclose.trans (openOutput_core a.second (hclose.opts.trans hopts))
  unfold Rtsp.sendPacket
  dsimp only
  split
  · split
    · exact hopen.trans ⟨rfl, rfl, rfl, rfl⟩
    · exact hopen
  · exact hwrite

theorem writePacket_core (p : AvPacket) (a : Rtsp.WriteAnswer) {s : Rtsp} (hopts : s.opts = none) :
    SameCore s (s.writePacket p a).2 := by
  have hopen := openOutput_core a.first hopts
  unfold Rtsp.writePacket
  dsimp only
  split
  · exact sendPacket_core p a hopts
  · split
    · exact hopen
    · exact hopen.trans (sendPacket_core p a (hopen.opts.trans hopts))

namespace RtspSound

variable {s : Rtsp}

theorem sendPacket (h : RtspSound s) (hopts : s.opts = none) (hopen : s.ctx.outputOpen = true)
    (p : AvPacket) (a : Rtsp.WriteAnswer) : RtspSound (s.sendPacket p a).2 := by
  have hwrite := h.write hopen (s.prepare p) a.write
  have hcore := closeOutput_core (s.interleavedWrite (s.prepare p) a.write)
  have hagain := hwrite.closeOutput.openOutput (hcore.opts.trans hopts) a.second
  unfold Rtsp.sendPacket
  dsimp only
  split
  · split
    · rename_i hzero
      exact hagain.write (openOutput_open (by rw [hzero]; decide)) .blank a.again
    · exact hagain
  · exact hwrite

theorem writePacket (h : RtspSound s) (hopts : s.opts = none) (p : AvPacket)
    (a : Rtsp.WriteAnswer) : RtspSound (s.writePacket p a).2 := by
  have hfirst := h.openOutput hopts a.first
  unfold Rtsp.writePacket
  dsimp only
  split
  · exact h.sendPacket hopts ‹_› p a
  · split
    · exact hfirst
    · exact hfirst.sendPacket ((openOutput_core a.first hopts).opts.trans hopts)
        (openOutput_open ‹_›) p a

end RtspSound

/-! ## The encoder -/

/-- A sound state between two calls. -/
structure RtspBetween (s : Rtsp) : Prop where
  sound : RtspSound s
  opts : s.opts = none

/-- A member that is not part of the output is set to something new. -/
theorem RtspBetween.make {s : Rtsp} (h : RtspBetween s) {put : Nat → EncoderRtspCtx}
    (hcount : ∀ a, (put s.av.issued).holds.count a =
      s.ctx.holds.count a + if a = s.av.issued then 1 else 0)
    (hout : (put s.av.issued).fmtCtx = s.ctx.fmtCtx ∧ (put s.av.issued).stream = s.ctx.stream ∧
      (put s.av.issued).outputOpen = s.ctx.outputOpen) : RtspBetween (s.make put) := by
  obtain ⟨hf, hst, hopen⟩ := hout
  have ho := h.sound.output
  exact ⟨h.sound.make hcount
    ⟨by rw [hopen, hf, hst]; exact ho.opened, by rw [hf]; exact ho.noFile,
      by rw [hf, hst]; exact ho.stream⟩, h.opts⟩

theorem RtspBetween.setPc {s : Rtsp} (h : RtspBetween s) (pc : RtspPc) :
    RtspBetween { s with pc } :=
  ⟨⟨h.sound.held, h.sound.output, h.sound.calls⟩, h.opts⟩

/-- No encoder and no buffers yet. -/
structure Blank (c : EncoderRtspCtx) : Prop where
  codecCtx : c.codecCtx = none
  frame : c.frame = none
  packet : c.packet = none
  sws : c.sws = none

theorem initEncoder_between {s : Rtsp} (h : RtspBetween s) (hblank : Blank s.ctx)
    (a : Rtsp.CodecAnswer) :
    RtspBetween (s.initEncoder a).2 ∧ (s.initEncoder a).2.ctx.frame = none ∧
      (s.initEncoder a).2.ctx.packet = none ∧ (s.initEncoder a).2.ctx.sws = none ∧
      ((s.initEncoder a).1 < 0 → (s.initEncoder a).2.ctx.codecCtx = none) := by
  obtain ⟨hcodec, hframe, hpacket, hsws⟩ := hblank
  unfold Rtsp.initEncoder
  split
  · exact ⟨h, hframe, hpacket, hsws, fun _ => hcodec⟩
  · split
    · refine ⟨?_, hframe, hpacket, hsws, fun _ => rfl⟩
      rwa [← hcodec]
    · have hmake : RtspBetween (s.make fun id =>
          { s.ctx with codecCtx := some ⟨id, ⟨1, s.ctx.fps.toInt⟩⟩ }) := by
        refine h.make (fun x => ?_) ⟨rfl, rfl, rfl⟩
        simp [EncoderRtspCtx.holds_count, hcodec, EncoderRtspCtx.output, List.count_singleton,
          eq_comm (a := x)]
        omega
      have hdict : RtspBetween (s.make fun id =>
          { s.ctx with codecCtx := some ⟨id, ⟨1, s.ctx.fps.toInt⟩⟩ }).setDict.freeDict :=
        ⟨(hmake.sound.setDict hmake.opts).freeDict, rfl⟩
      dsimp only
      split
      · refine ⟨⟨hdict.sound.drop (fun x => ?_) ?_, rfl⟩, hframe, hpacket, hsws, fun _ => rfl⟩
        · simp [Rtsp.freeDict, Rtsp.setDict, Rtsp.make, EncoderRtspCtx.holds_count,
            EncoderRtspCtx.output]
          omega
        · exact ⟨h.sound.output.opened, h.sound.output.noFile, h.sound.output.stream⟩
      · exact ⟨hdict, hframe, hpacket, hsws, fun hneg => absurd hneg (Int.lt_irrefl 0)⟩

/-- What the frame, the packet, the scaler and the output keep, `initBuffers` keeps. -/
theorem initBuffers_rule {P : Rtsp → Prop} {s : Rtsp} (a : Rtsp.InitAnswer) (hs : P s)
    (hframe : P (s.make fun id => { s.ctx with frame := some ⟨id, 0⟩ }))
    (hpacket : ∀ t, P t → t.ctx.packet = s.ctx.packet →
      P (t.make fun id => { t.ctx with packet := some id }))
    (hsws : ∀ t, P t → t.ctx.sws = s.ctx.sws →
      P ((t.make fun id => { t.ctx with sws := some id }).openOutput a.output).2)
    (hpc : ∀ t pc, P t → P { t with pc }) : P (s.initBuffers a) := by
  unfold Rtsp.initBuffers
  have h1 : P (if a.frame then s.make fun id => { s.ctx with frame := some ⟨id, 0⟩ } else s) ∧
      (if a.frame then s.make fun id =>
        { s.ctx with frame := some ⟨id, 0⟩ } else s).ctx.packet = s.ctx.packet ∧
      (if a.frame then s.make fun id =>
        { s.ctx with frame := some ⟨id, 0⟩ } else s).ctx.sws = s.ctx.sws := by
    split
    · exact ⟨hframe, rfl, rfl⟩
    · exact ⟨hs, rfl, rfl⟩
  generalize (if a.frame then s.make fun id =>
    { s.ctx with frame := some ⟨id, 0⟩ } else s) = t at h1
  have h2 : P (if a.packet then t.make fun id => { t.ctx with packet := some id } else t) ∧
      (if a.packet then t.make fun id =>
        { t.ctx with packet := some id } else t).ctx.sws = s.ctx.sws := by
    split
    · exact ⟨hpacket t h1.1 h1.2.1, h1.2.2⟩
    · exact ⟨h1.1, h1.2.2⟩
  dsimp only
  generalize (if a.packet then t.make fun id => { t.ctx with packet := some id } else t) = u at h2
  split
  · exact hpc u _ h2.1
  · split
    · exact hpc u _ h2.1
    · split
      · exact hpc u _ h2.1
      · exact hpc _ _ (hsws u h2.1 h2.2)

theorem initBuffers_between {s : Rtsp} (h : RtspBetween s) (hframe : s.ctx.frame = none)
    (hpacket : s.ctx.packet = none) (hsws : s.ctx.sws = none) (a : Rtsp.InitAnswer) :
    RtspBetween (s.initBuffers a) := by
  refine initBuffers_rule a h ?_ (fun t ht hsame => ?_) (fun t ht hsame => ?_)
    fun t pc ht => ht.setPc pc
  · refine h.make (fun x => ?_) ⟨rfl, rfl, rfl⟩
    simp [EncoderRtspCtx.holds_count, hframe, EncoderRtspCtx.output, List.count_singleton,
      eq_comm (a := x)]
    omega
  · refine ht.make (fun x => ?_) ⟨rfl, rfl, rfl⟩
    simp [EncoderRtspCtx.holds_count, hsame, hpacket, EncoderRtspCtx.output, List.count_singleton,
      eq_comm (a := x)]
    omega
  · have hmake : RtspBetween (t.make fun id => { t.ctx with sws := some id }) := by
      refine ht.make (fun x => ?_) ⟨rfl, rfl, rfl⟩
      simp [EncoderRtspCtx.holds_count, hsame, hsws, EncoderRtspCtx.output, List.count_singleton,
        eq_comm (a := x)]
      omega
    exact ⟨hmake.sound.openOutput hmake.opts a.output,
      (openOutput_core a.output hmake.opts).opts.trans hmake.opts⟩

theorem initCodec_between {s : Rtsp} (h : RtspBetween s) (hblank : Blank s.ctx)
    (a : Rtsp.InitAnswer) : RtspBetween (s.initCodec a) := by
  obtain ⟨h1, hframe, hpacket, hsws, hnone⟩ := initEncoder_between h hblank a.nvenc
  unfold Rtsp.initCodec
  dsimp only
  split
  · rename_i hneg
    obtain ⟨h2, hframe', hpacket', hsws', _⟩ :=
      initEncoder_between h1 ⟨hnone hneg, hframe, hpacket, hsws⟩ a.x264
    split
    · exact h2.setPc _
    · exact initBuffers_between h2 hframe' hpacket' hsws' a
  · exact initBuffers_between h1 hframe hpacket hsws a

theorem allocCtx_between {s : Rtsp} (h : RtspBetween s) (hzero : s.ctx = .zero)
    (width height fps : Int32) (a : Rtsp.InitAnswer) :
    RtspBetween (s.allocCtx width height fps a) ∧ Blank (s.allocCtx width height fps a).ctx := by
  have h1 : RtspBetween (s.make fun id =>
      { EncoderRtspCtx.zero with
        self := some id, width, height, fps := if 0 < fps then fps else 25 }) := by
    refine h.make (fun x => ?_) (by rw [hzero]; exact ⟨rfl, rfl, rfl⟩)
    simp [hzero, EncoderRtspCtx.holds_count, EncoderRtspCtx.zero, EncoderRtspCtx.output,
      List.count_singleton, eq_comm (a := x)]
  unfold Rtsp.allocCtx
  dsimp only
  split
  · have h2 := @RtspBetween.make _ h1 (fun id => { EncoderRtspCtx.zero with
        self := some s.av.issued, width, height, fps := if 0 < fps then fps else 25
        url := some id }) (fun x => by
      simp [Rtsp.make, EncoderRtspCtx.holds_count, EncoderRtspCtx.zero, EncoderRtspCtx.output,
        List.count_singleton, eq_comm (a := x)]) ⟨rfl, rfl, rfl⟩
    exact ⟨⟨⟨h2.sound.held, h2.sound.output, h2.sound.calls⟩, h2.opts⟩, ⟨rfl, rfl, rfl, rfl⟩⟩
  · exact ⟨⟨⟨h1.sound.held, h1.sound.output, h1.sound.calls⟩, h1.opts⟩, ⟨rfl, rfl, rfl, rfl⟩⟩

theorem encoderRtspInit_between {s : Rtsp} (h : RtspBetween s) (hzero : s.ctx = .zero)
    (width height fps : Int32) (a : Rtsp.InitAnswer) :
    RtspBetween (s.encoderRtspInit width height fps a) := by
  obtain ⟨halloc, hblank⟩ := allocCtx_between h hzero width height fps a
  unfold Rtsp.encoderRtspInit
  split
  · exact h
  · exact initCodec_between halloc hblank a

theorem stamp_between {s : Rtsp} (h : RtspBetween s) (pts : Int64) : RtspBetween (s.stamp pts) := by
  have ho := h.sound.output
  refine ⟨⟨h.sound.held.move fun a => ?_, ⟨ho.opened, ho.noFile, ho.stream⟩, h.sound.calls⟩, h.opts⟩
  have hid : (s.stamp pts).ctx.frame.map EncoderFrame.id = s.ctx.frame.map EncoderFrame.id := by
    simp only [Rtsp.stamp, Option.map_map]
    rfl
  simp only [Custody.occurrences_cons, EncoderRtspCtx.holds_count, hid]
  rfl

theorem sendFrame_between {s : Rtsp} (h : RtspBetween s) (pts : Int64) :
    RtspBetween (s.sendFrame pts) :=
  ⟨⟨h.sound.held, h.sound.output, h.sound.calls⟩, h.opts⟩

theorem beginFrame_between {s : Rtsp} (h : RtspBetween s) (hasData : Bool) (pts : Int64)
    (writable send : Int) : RtspBetween (s.beginFrame hasData pts writable send) := by
  unfold Rtsp.beginFrame
  split
  · exact h
  · split
    · exact h
    · have hsent := sendFrame_between (stamp_between h pts) pts
      dsimp only
      split
      · exact hsent
      · exact hsent.setPc _

theorem writePacket_between {s : Rtsp} (h : RtspBetween s) (p : AvPacket) (a : Rtsp.WriteAnswer) :
    RtspBetween (s.writePacket p a).2 :=
  ⟨h.sound.writePacket h.opts p a, (writePacket_core p a h.opts).opts.trans h.opts⟩

theorem receivePacket_between {s : Rtsp} (h : RtspBetween s) (e : Encoded) (a : Rtsp.WriteAnswer) :
    RtspBetween (s.receivePacket e a) := by
  have hwrite := writePacket_between h e.packet a
  unfold Rtsp.receivePacket
  dsimp only
  split
  · exact hwrite.setPc _
  · exact hwrite

theorem flushPacket_between {s : Rtsp} (h : RtspBetween s) (e : Encoded) (a : Rtsp.WriteAnswer) :
    RtspBetween (s.flushPacket e a) := by
  unfold Rtsp.flushPacket
  split
  · exact writePacket_between h e.packet a
  · exact h

theorem outputSound_zero : OutputSound .zero :=
  ⟨by simp [EncoderRtspCtx.zero], by simp [EncoderRtspCtx.zero], fun _ => rfl⟩

theorem freeAll_between {s : Rtsp} (h : RtspBetween s) : RtspBetween s.freeAll := by
  have hclosed := h.sound.closeOutput_closed
  have hopts := (closeOutput_core s).opts.trans h.opts
  refine RtspBetween.setPc ⟨h.sound.closeOutput.drop (fun x => ?_) outputSound_zero,
    hopts⟩ _
  simp [EncoderRtspCtx.holds_count, EncoderRtspCtx.output, hclosed.fmtCtx, EncoderRtspCtx.zero]
  omega

/-! ## Runs -/

/-- Where no encoder is, nothing is held. -/
structure RtspOk (s : Rtsp) : Prop where
  between : RtspBetween s
  gone : s.pc = .none → s.ctx = .zero

theorem initBuffers_pc (a : Rtsp.InitAnswer) (s : Rtsp) : (s.initBuffers a).pc ≠ .none := by
  unfold Rtsp.initBuffers
  dsimp only
  split
  · exact RtspPc.noConfusion
  · split
    · exact RtspPc.noConfusion
    · split <;> exact RtspPc.noConfusion

theorem initCodec_pc (a : Rtsp.InitAnswer) (s : Rtsp) : (s.initCodec a).pc ≠ .none := by
  unfold Rtsp.initCodec
  dsimp only
  split
  · split
    · nofun
    · exact initBuffers_pc a _
  · exact initBuffers_pc a _

theorem encoderRtspInit_pc {s : Rtsp} {width height fps : Int32} {a : Rtsp.InitAnswer}
    (h : (s.encoderRtspInit width height fps a).pc = .none) :
    s.encoderRtspInit width height fps a = s := by
  unfold Rtsp.encoderRtspInit at h ⊢
  split
  · rfl
  · rw [if_neg ‹_›] at h
    exact absurd h (initCodec_pc a _)

theorem rtspOk_step {s t : Rtsp} {act : RtspAct} (hi : RtspOk s) (h : rtsp.step s act = some t) :
    RtspOk t := by
  have hpc : ∀ {u : Rtsp} {pc : RtspPc}, u.pc = pc → pc ≠ .none → u.pc = .none → u.ctx = .zero :=
    fun hu hne hnone => absurd (hu.symm.trans hnone) hne
  cases rtsp_move h with
  | init hnone =>
    refine ⟨encoderRtspInit_between hi.between (hi.gone hnone) _ _ _ _, fun hpc => ?_⟩
    rw [encoderRtspInit_pc hpc]
    exact hi.gone hnone
  | @encode hasData pts writable send hidle =>
    refine ⟨beginFrame_between hi.between _ _ _ _, ?_⟩
    unfold Rtsp.beginFrame
    split
    · exact hi.gone
    · split
      · exact hi.gone
      · split
        · exact hpc (u := s.stamp pts) hidle nofun
        · nofun
  | @receive e a hrecv =>
    refine ⟨receivePacket_between hi.between _ _, ?_⟩
    have hcore := writePacket_core e.packet a hi.between.opts
    unfold Rtsp.receivePacket
    dsimp only
    split
    · nofun
    · exact hpc (hcore.pc.trans hrecv) nofun
  | drained => exact ⟨hi.between.setPc _, nofun⟩
  | close => exact ⟨hi.between.setPc _, nofun⟩
  | @flush e a hclosing =>
    refine ⟨flushPacket_between hi.between _ _, ?_⟩
    unfold Rtsp.flushPacket
    split
    · exact hpc ((writePacket_core e.packet a hi.between.opts).pc.trans hclosing) nofun
    · exact hi.gone
  | closed => exact ⟨freeAll_between hi.between, fun _ => rfl⟩

theorem rtspOk_fresh : RtspOk .fresh := by
  have hheld : Held [EncoderRtspCtx.zero.holds, [], []] 0 := fun id => by
    simp [EncoderRtspCtx.holds_count, EncoderRtspCtx.zero, EncoderRtspCtx.output]
  have hcalls : CallsSound ⟨0, [], []⟩ := ⟨by simp, by simp [Av.ended], by simp [Av.ended]⟩
  exact ⟨⟨⟨hheld, outputSound_zero, hcalls⟩, rfl⟩, fun _ => rfl⟩

theorem rtspOk_of_reachable {s : Rtsp} (h : rtsp.Reachable s) : RtspOk s := by
  refine h.invariant ?_ fun _ _ _ _ hi _ hs => rtspOk_step hi hs
  rintro _ rfl
  exact rtspOk_fresh

/-- Without an encoder nothing is held. -/
theorem RtspOk.all_released {s : Rtsp} (h : RtspOk s) (hpc : s.pc = .none) (id : Nat) :
    s.av.released.count id = if id < s.av.issued then 1 else 0 := by
  have hheld := h.between.sound.held id
  rw [h.gone hpc, h.between.opts, show EncoderRtspCtx.zero.holds = [] from rfl] at hheld
  simpa using hheld

/-- **Output life cycle.** Whichever calls fail, the muxer is only called on live
contexts with a written header, no trailer is written twice, an open output has
its context and stream, everything handed out is held or has been released once,
and all of it has been released when there is no encoder any more. -/
theorem output_life {s : Rtsp} (h : rtsp.Reachable s) :
    (∀ c ∈ s.av.calls, c.Sound) ∧ s.av.ended.Nodup ∧
      (s.ctx.outputOpen = true → s.ctx.fmtCtx.isSome = true ∧ s.ctx.stream.isSome = true) ∧
      Held [s.ctx.holds, s.opts.toList, s.av.released] s.av.issued ∧
      (s.pc = .none →
        ∀ id, s.av.released.count id = if id < s.av.issued then 1 else 0) := by
  have hok := rtspOk_of_reachable h
  have hsound := hok.between.sound
  refine ⟨hsound.calls.calls, hsound.calls.once, fun hopen => ?_, hsound.held, hok.all_released⟩
  obtain ⟨⟨f, hf, _⟩, hstream⟩ := hsound.output.opened hopen
  exact ⟨by simp [hf], hstream⟩

/-- Answers when nothing fails. -/
def Rtsp.OpenAnswer.good : Rtsp.OpenAnswer where
  context := 0
  made := true
  noFile := true
  stream := true
  parameters := 0
  avio := 0
  header := 0
  timeBase := ⟨1, 90000⟩

def Rtsp.WriteAnswer.good : Rtsp.WriteAnswer := ⟨.good, 0, .good, 0⟩

def Rtsp.InitAnswer.good : Rtsp.InitAnswer where
  self := true
  url := true
  nvenc := ⟨true, true, 0⟩
  x264 := ⟨true, true, 0⟩
  frame := true
  packet := true
  buffer := 0
  sws := true
  output := .good

/-- The first codec does not open, the first output has no stream, a write fails,
and the trailers of both outputs that were opened are written. -/
theorem output_life_reopened : ∃ s, rtsp.Reachable s ∧
    s.pc = .none ∧ s.av.issued = 14 ∧ s.av.calls.length = 5 ∧ s.av.ended.length = 2 ∧
    ∀ id, s.av.released.count id = if id < s.av.issued then 1 else 0 := by
  obtain ⟨s, hs, hp⟩ := rtsp.reachable_of_replay
    (fun s => s.pc = .none ∧ s.av.issued = 14 ∧ s.av.calls.length = 5 ∧ s.av.ended.length = 2)
    .fresh
    [.init 640 480 25 { Rtsp.InitAnswer.good with
        nvenc := ⟨true, true, -1⟩, output := { Rtsp.OpenAnswer.good with stream := false } },
      .encode true 40000 0 0,
      .receive ⟨[0x65], some 1, some 1⟩ { Rtsp.WriteAnswer.good with write := -32 },
      .drained, .close, .flush ⟨[0x41], some 2, some 2⟩ .good, .closed]
    rfl (by decide +kernel)
  obtain ⟨hpc, hissued, hcalls, hended⟩ := of_decide_eq_true hp
  exact ⟨s, hs, hpc, hissued, hcalls, hended, (output_life hs).2.2.2.2 hpc⟩

end DroidcamWhip
