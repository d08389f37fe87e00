import DroidcamWhip.OutputLife

/-!
What becomes of a packet in `write_packet`: the muxer takes a packet over even when
it fails, so that the second write after a reconnect has nothing left to write.
-/

namespace DroidcamWhip

/-! ## Accepted packets -/

/-- A write that the muxer reports as successful. -/
def MuxerCall.accepted : MuxerCall → Bool
  | .write _ _ _ _ ret => 0 ≤ ret
  | .trailer .. => false

/-- The writes that were successful, in order. -/
def Av.accepted (v : Av) : List MuxerCall := v.calls.filter MuxerCall.accepted

/-- A write of the bytes of a packet to a live context with a written header, with
the timestamps converted from `src` to the time base of its stream. -/
def MuxerCall.Carries (src : AvRational) (e : Encoded) : MuxerCall → Prop
  | .write target freed timeBase packet _ =>
      (∃ f, target = some f ∧ f.header = true) ∧ freed = false ∧ packet.data = some e.bytes ∧
        packet.pts = e.pts.map (avRescaleQ · src timeBase) ∧
        packet.dts = e.dts.map (avRescaleQ · src timeBase)
  | .trailer .. => False

/-- From `s` to `t` one write was successful, that of the packet. -/
def Rtsp.Delivered (s : Rtsp) (e : Encoded) (t : Rtsp) : Prop :=
  ∃ c, t.av.accepted = s.av.accepted ++ [c] ∧ c.Carries s.ctx.timeBase e

namespace Rtsp

theorem call_accepted (s : Rtsp) (c : MuxerCall) :
    (s.call c).av.accepted = s.av.accepted ++ [c].filter MuxerCall.accepted :=
  List.filter_append ..

/-- A trailer is not a packet. -/
@[simp] theorem closeOutput_accepted (s : Rtsp) : s.closeOutput.av.accepted = s.av.accepted := by
  unfold closeOutput
  split
  · rfl
  · dsimp only
    split
    · exact (call_accepted s _).trans (List.append_nil _)
    · rfl

@[simp] theorem setDict_accepted (s : Rtsp) : s.setDict.av.accepted = s.av.accepted := rfl

@[simp] theorem freeDict_accepted (s : Rtsp) : s.freeDict.av.accepted = s.av.accepted := rfl

@[simp] theorem openPb_accepted (s : Rtsp) : s.openPb.av.accepted = s.av.accepted := rfl

@[simp] theorem publish_accepted (timeBase : AvRational) (s : Rtsp) :
    (s.publish timeBase).av.accepted = s.av.accepted := rfl

@[simp] theorem make_accepted (s : Rtsp) (put : Nat → EncoderRtspCtx) :
    (s.make put).av.accepted = s.av.accepted := rfl

@[simp] theorem writeHeader_accepted (a : OpenAnswer) (s : Rtsp) :
    (s.writeHeader a).2.av.accepted = s.av.accepted := by
  unfold writeHeader
  split <;> simp

@[simp] theorem startOutput_accepted (a : OpenAnswer) (s : Rtsp) :
    (s.startOutput a).2.av.accepted = s.av.accepted := by
  unfold startOutput
  dsimp only
  split
  · simp
  · split <;> simp

@[simp] theorem openOutput_accepted (a : OpenAnswer) (s : Rtsp) :
    (s.openOutput a).2.av.accepted = s.av.accepted := by
  unfold openOutput
  dsimp only
  split
  · simp
  · split
    · simp
    · split
      · simp
      · split <;> simp

/-! ## `open_output` -/

/-- The answers with which `open_output` opens the output. -/
def OpenAnswer.Opens (a : OpenAnswer) : Prop :=
  0 ≤ a.context ∧ a.made = true ∧ a.stream = true ∧ 0 ≤ a.parameters ∧
    (a.noFile = true ∨ 0 ≤ a.avio) ∧ 0 ≤ a.header

theorem writeHeader_fst (a : OpenAnswer) (s : Rtsp) :
    (s.writeHeader a).1 = if a.header < 0 then a.header else 0 := by
  unfold writeHeader
  split <;> rfl

theorem startOutput_fst (a : OpenAnswer) (s : Rtsp) :
    (s.startOutput a).1 =
      if a.noFile = false ∧ a.avio < 0 then a.avio
      else if a.header < 0 then a.header else 0 := by
  unfold startOutput
  dsimp only
  cases a.noFile <;> by_cases hneg : a.avio < 0 <;> simp [hneg, writeHeader_fst]

theorem openOutput_of_opens {a : OpenAnswer} (h : a.Opens) (s : Rtsp) :
    (s.openOutput a).1 = 0 := by
  obtain ⟨hcontext, hmade, hstream, hparameters, hpb, hheader⟩ := h
  have hpb' : ¬ (a.noFile = false ∧ a.avio < 0) := by
    rintro ⟨hno, hneg⟩
    rcases hpb with hno' | havio
    · simp [hno] at hno'
    · omega
  unfold openOutput
  dsimp only
  rw [if_neg (by omega), if_neg (by simp [hmade]), if_neg (by simp [hstream]),
    if_neg (by omega), startOutput_fst, if_neg hpb', if_neg (by omega)]

theorem opens_of_openOutput {a : OpenAnswer} {s : Rtsp} (h : ¬ (s.openOutput a).1 < 0) :
    a.Opens := by
  unfold openOutput at h
  dsimp only at h
  split at h
  · exact absurd ‹a.context < 0› h
  · split at h
    · exact absurd (show averrorUnknown < 0 by decide) h
    · split at h
      · exact absurd (show enomem < 0 by decide) h
      · split at h
        · exact absurd ‹a.parameters < 0› h
        · rw [startOutput_fst] at h
          split at h
          · exact absurd (And.right ‹a.noFile = false ∧ a.avio < 0›) h
          · split at h
            · exact absurd ‹a.header < 0› h
            · refine ⟨by omega, by simp_all, by simp_all, by omega, ?_, by omega⟩
              rcases Bool.eq_false_or_eq_true a.noFile with hno | hno
              · exact .inl hno
              · exact .inr (by simp_all)

theorem openOutput_neg_iff (a : OpenAnswer) (s : Rtsp) : (s.openOutput a).1 < 0 ↔ ¬ a.Opens := by
  constructor
  · intro hneg hopens
    rw [openOutput_of_opens hopens] at hneg
    exact absurd hneg (Int.lt_irrefl 0)
  · intro h
    by_contra hneg
    exact h (opens_of_openOutput hneg)

theorem openOutput_zero_iff (a : OpenAnswer) (s : Rtsp) : (s.openOutput a).1 = 0 ↔ a.Opens :=
  ⟨fun h => opens_of_openOutput (Int.not_lt.mpr (Int.le_of_eq h.symm)),
    fun h => openOutput_of_opens h s⟩

/-! ## `write_packet` -/

theorem interleavedWrite_accepted (p : AvPacket) {ret : Int} (hret : 0 ≤ ret) (s : Rtsp) :
    (s.interleavedWrite p ret).av.accepted = s.av.accepted ++
      [.write s.ctx.fmtCtx (s.ctx.fmtCtx.any fun f => f.id ∈ s.av.released)
        ((s.ctx.stream.map AvStream.timeBase).getD ⟨0, 1⟩) p ret] := by
  rw [interleavedWrite, call_accepted]
  simp [MuxerCall.accepted, hret]

theorem interleavedWrite_refused (p : AvPacket) {ret : Int} (hret : ret < 0) (s : Rtsp) :
    (s.interleavedWrite p ret).av.accepted = s.av.accepted := by
  rw [interleavedWrite, call_accepted]
  simp [MuxerCall.accepted, Int.not_le.mpr hret]

/-- The first write of a packet is that of its bytes. -/
theorem interleavedWrite_delivered {s : Rtsp} (h : RtspSound s) (hopen : s.ctx.outputOpen = true)
    (e : Encoded) {ret : Int} (hret : 0 ≤ ret) :
    s.Delivered e (s.interleavedWrite (s.prepare e.packet) ret) := by
  obtain ⟨⟨f, hf, hheader⟩, hstream⟩ := h.output.opened hopen
  obtain ⟨st, hst⟩ := Option.isSome_iff_exists.mp hstream
  refine ⟨_, interleavedWrite_accepted _ hret s, ⟨f, hf, hheader⟩, ?_, rfl, ?_, ?_⟩
  · simp [hf, h.fmtCtx_live hf]
  · simp [prepare, AvPacket.rescaleTs, Encoded.packet, hst]
  · simp [prepare, AvPacket.rescaleTs, Encoded.packet, hst]

/-- The write failed and the write after the reconnect did not. -/
def WriteAnswer.Retried (a : WriteAnswer) : Prop :=
  a.write < 0 ∧ a.second.Opens ∧ 0 ≤ a.again

theorem sendPacket_delivered_iff {s : Rtsp} (h : RtspSound s) (hopen : s.ctx.outputOpen = true)
    (e : Encoded) (a : WriteAnswer) :
    (0 ≤ (s.sendPacket e.packet a).1 → s.Delivered e (s.sendPacket e.packet a).2) ↔
      ¬ a.Retried := by
  unfold sendPacket
  dsimp only
  by_cases hwrite : a.write < 0
  · rw [if_pos hwrite]
    have haccepted : (s.interleavedWrite (s.prepare e.packet) a.write).closeOutput.openOutput
        a.second |>.2.av.accepted = s.av.accepted := by
      rw [openOutput_accepted, closeOutput_accepted, interleavedWrite_refused _ hwrite]
    by_cases hopens : a.second.Opens
    · rw [if_pos ((openOutput_zero_iff _ _).mpr hopens)]
      constructor
      · rintro hdelivered ⟨_, _, hagain⟩
        obtain ⟨c, hc, hcarries⟩ := hdelivered hagain
        rw [interleavedWrite_accepted _ hagain, haccepted] at hc
        -- the packet was taken over by the write that failed
        obtain rfl := List.singleton_inj.mp (List.append_cancel_left hc)
        exact absurd hcarries.2.2.1 (by simp [AvPacket.blank])
      · intro hretried hagain
        exact absurd ⟨hwrite, hopens, hagain⟩ hretried
    · rw [if_neg (mt (openOutput_zero_iff _ _).mp hopens)]
      exact iff_of_true (fun hpos => absurd hpos (Int.not_le.mpr hwrite))
        fun hretried => hopens hretried.2.1
  · rw [if_neg hwrite]
    exact iff_of_true (fun hpos => interleavedWrite_delivered h hopen e hpos)
      fun hretried => hwrite hretried.1

/-- **Delivery.** A packet for which `write_packet` reports success has been
accepted once, with converted timestamps, exactly unless it was written twice:
to an output that failed and, with success, to the one that replaced it. -/
theorem writePacket_delivers_iff {s : Rtsp} (h : rtsp.Reachable s) (e : Encoded)
    (a : WriteAnswer) :
    (0 ≤ (s.writePacket e.packet a).1 → s.Delivered e (s.writePacket e.packet a).2) ↔
      ¬ ((s.ctx.outputOpen = true ∨ a.first.Opens) ∧ a.Retried) := by
  obtain ⟨⟨hsound, hopts⟩, _⟩ := rtspOk_of_reachable h
  unfold writePacket
  dsimp only
  split
  · rename_i hopen
    rw [sendPacket_delivered_iff hsound hopen e a]
    simp [hopen]
  · rename_i hopen
    by_cases hneg : (s.openOutput a.first).1 < 0
    · rw [if_pos hneg]
      have hfirst := (openOutput_neg_iff _ _).mp hneg
      exact iff_of_true (fun hpos => absurd hpos (Int.not_le.mpr (Int.negSucc_lt_zero 0)))
        fun ⟨hor, _⟩ => hor.elim hopen hfirst
    · rw [if_neg hneg]
      have hfirst := opens_of_openOutput hneg
      have hcore := (openOutput_core a.first hopts).core
      have htime : (s.openOutput a.first).2.ctx.timeBase = s.ctx.timeBase := by
        have hcodec := congrArg EncoderRtspCtx.codecCtx hcore
        simp only [EncoderRtspCtx.timeBase]
        rw [show (s.openOutput a.first).2.ctx.codecCtx = s.ctx.codecCtx from hcodec]
      have hsend := sendPacket_delivered_iff (hsound.openOutput hopts a.first)
        (openOutput_open hneg) e a
      simp only [Delivered, openOutput_accepted, htime] at hsend ⊢
      simp [hsend, hfirst]

/-- The write of a packet fails, and the output is opened again. -/
def WriteAnswer.broken : WriteAnswer := { WriteAnswer.good with write := -32 }

/-- A packet is delivered to an output that has just been opened. -/
theorem writePacket_delivers_first : ∃ s, rtsp.Reachable s ∧ s.pc = .receiving ∧
    s.ctx.outputOpen = false ∧
    s.Delivered ⟨[0x65], some 1, some 1⟩
      (s.writePacket (Encoded.packet ⟨[0x65], some 1, some 1⟩) .good).2 := by
  obtain ⟨s, hs, hp⟩ := rtsp.reachable_of_replay
    (fun s => s.pc = .receiving ∧ s.ctx.outputOpen = false ∧
      0 ≤ (s.writePacket (Encoded.packet ⟨[0x65], some 1, some 1⟩) .good).1)
    .fresh
    [.init 640 480 25 { InitAnswer.good with output := { OpenAnswer.good with header := -111 } },
      .encode true 40000 0 0]
    rfl (by decide +kernel)
  obtain ⟨hpc, hopen, hret⟩ := of_decide_eq_true hp
  have hiff := writePacket_delivers_iff hs ⟨[0x65], some 1, some 1⟩ .good
  refine ⟨s, hs, hpc, hopen, hiff.mpr ?_ hret⟩
  rintro ⟨_, hneg, _⟩
  exact absurd hneg (by decide)

/-- A packet is lost though `write_packet` reports success: the output broke and
was opened again in time. -/
theorem writePacket_loses : ∃ s, rtsp.Reachable s ∧ s.pc = .receiving ∧
    0 ≤ (s.writePacket (Encoded.packet ⟨[0x65], some 1, some 1⟩) .broken).1 ∧
    ¬ s.Delivered ⟨[0x65], some 1, some 1⟩
      (s.writePacket (Encoded.packet ⟨[0x65], some 1, some 1⟩) .broken).2 := by
  obtain ⟨s, hs, hp⟩ := rtsp.reachable_of_replay
    (fun s => s.pc = .receiving ∧
      0 ≤ (s.writePacket (Encoded.packet ⟨[0x65], some 1, some 1⟩) .broken).1 ∧
      (s.writePacket (Encoded.packet ⟨[0x65], some 1, some 1⟩) .broken).2.av.accepted =
        s.av.accepted ++ [.write (some ⟨9, true, none, true⟩) false ⟨1, 90000⟩ .blank 0])
    .fresh [.init 640 480 25 .good, .encode true 40000 0 0] rfl (by decide +kernel)
  obtain ⟨hpc, hret, haccepted⟩ := of_decide_eq_true hp
  refine ⟨s, hs, hpc, hret, ?_⟩
  rintro ⟨c, hc, hcarries⟩
  rw [haccepted] at hc
  obtain rfl := List.singleton_inj.mp (List.append_cancel_left hc)
  exact absurd hcarries.2.2.1 (by decide)

end Rtsp

end DroidcamWhip
