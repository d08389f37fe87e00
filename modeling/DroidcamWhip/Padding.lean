import DroidcamWhip.Ownership

/-!
The padding of the packets given to libavcodec. `FFMpegDecoder` has a
`pull_empty_packet` of its own that allocates and clears it, but the function is
not virtual and `read_frame` holds a `Decoder*`, so `Decoder::pull_empty_packet`
runs instead.
-/

namespace DroidcamWhip

variable {padding : Nat}

/-- The block extends `padding` bytes beyond the payload, and these are zero. -/
def DataPacket.Padded (padding : Nat) (p : DataPacket) : Prop :=
  p.used + padding ≤ p.data.length ∧ (p.data.drop p.used).take padding = List.replicate padding 0

/-- `FFMpegDecoder::pull_empty_packet`; `padding` is `AV_INPUT_BUFFER_PADDING_SIZE`. -/
def FFMpegDecoder.pullEmptyPacket (padding : Nat) (d : Decoder) (size : Nat) (alloc : Alloc) :
    Nat × Decoder :=
  let newSize := size + padding
  let r := d.pullEmptyPacket newSize alloc
  (r.1, r.2.setPacket r.1 ((r.2.heap r.1).write 0 (List.replicate newSize 0)))

/-! ## What the override would ensure -/

/-- Reading a payload leaves the bytes behind it alone. -/
theorem fill_tail {d d' : Decoder} {a : Nat} {req : Request} {sock sock' : Sock}
    (h : fill d a req sock = .done d' sock') :
    (d'.heap a).used = req.config.length + req.len ∧
      (d'.heap a).data.length = (d.heap a).data.length ∧
      (d'.heap a).data.drop (req.config.length + req.len) =
        (d.heap a).data.drop (req.config.length + req.len) := by
  have hle : (recvBlock (d.heap a) sock req.len).data.length ≤ req.len := by
    unfold recvBlock
    split
    · exact Nat.zero_le _
    · exact netRecvAll_le sock req.len
  simp only [fill] at h
  split at h
  · cases h
  · split at h
    · cases h
    · split at h <;> cases h
      simp only [Decoder.setPacket, Function.update_self, DataPacket.write_length, true_and]
      simp only [DataPacket.write]
      rw [Bytes.overwrite_drop _ _ _ _ (by omega), Bytes.overwrite_drop _ _ _ _ (by omega)]

/-- A packet pulled by the override is padded once it is filled. -/
theorem padded_of_override {d d' : Decoder} {g : Nat → UInt8} {req : Request} {sock sock' : Sock}
    (h : fill (FFMpegDecoder.pullEmptyPacket padding d (req.config.length + req.len) (some g)).2
      (FFMpegDecoder.pullEmptyPacket padding d (req.config.length + req.len) (some g)).1 req sock =
        .done d' sock') :
    (d'.heap (FFMpegDecoder.pullEmptyPacket padding d (req.config.length + req.len)
      (some g)).1).Padded padding := by
  obtain ⟨hused, hlen, htail⟩ := fill_tail h
  have hroom := pullEmptyPacket_room d (req.config.length + req.len + padding) g
  rw [DataPacket.Padded, hused, hlen, htail]
  simp only [FFMpegDecoder.pullEmptyPacket, Decoder.setPacket, Function.update_self,
    DataPacket.write_length]
  refine ⟨hroom, ?_⟩
  simp only [DataPacket.write]
  rw [Bytes.overwrite_zero _ _ (by simpa using hroom), List.drop_append_of_le_length (by simp),
    List.take_append_of_le_length (by simp)]
  simp

/-! ## What the pool hands out -/

/-- Until a packet has been queued, the first one is on its way in a block of
its own size, or the decoder has failed. -/
def RecvPc.unpadded (pc : RecvPc) (dec : Decoder) : Prop :=
  match pc with
  | .between | .pullTest _ | .pullPop _ | .pullNew _ => dec.failed = true ∨ dec.issued = 0
  | .fill req a =>
      dec.failed = true ∨ (dec.heap a).data.length ≤ req.config.length + req.len
  | .failedTest _ x => dec.failed = true ∨ x.packet.data.length ≤ x.packet.used
  | .readyTest _ x | .pushStart _ x | .enqueue _ x => x.packet.data.length ≤ x.packet.used
  | .discard _ _ => False
  | .discardFailed _ => dec.failed = true
  | _ => True

structure Unpadded (s : Pipeline) : Prop where
  opening : accepted s.verdicts = [] → s.recvPc.unpadded s.dec
  first : ∀ x, (accepted s.verdicts).head? = some x → x.packet.data.length ≤ x.packet.used

theorem unpadded_recv {e : Env} {s t : Pipeline} (hr : pipeline.Reachable s)
    (hk : s.dec.kind ≠ .mjpeg) (hi : Unpadded s) (hm : RecvMove e s t) : Unpadded t := by
  have ⟨hopen, hfirst⟩ := hi
  cases hm
  case headers hpc _ | poolEmpty hpc _ | poolFilled hpc _ | initOk hpc _ | ready hpc _
      | keep hpc _ =>
    rw [hpc] at hopen
    exact ⟨hopen, hfirst⟩
  case pop req a q hpc hq =>
    rw [hpc] at hopen
    refine ⟨fun hnil => .inl ((hopen hnil).resolve_right fun hzero => ?_), hfirst⟩
    have htotal := (owned_of_reachable hr).held.total
    simp [Pipeline.places, hq, hzero] at htotal
  case allocate req hpc =>
    rw [hpc] at hopen
    refine ⟨fun hnil => .inr ?_, hfirst⟩
    simp only [Decoder.newPacket, Function.update_self]
    cases halloc : e.alloc with
    | none => simp [DataPacket.new_none, DataPacket.empty]
    | some g => simp [DataPacket.new_length]
  case short hpc hf => exact ⟨fun _ => trivial, hfirst⟩
  case filled req a dec sock hpc hf =>
    rw [hpc] at hopen
    obtain ⟨p, rfl, hlen, hused, _⟩ := fill_done hf
    refine ⟨fun hnil => (hopen hnil).imp_right fun hle => ?_, hfirst⟩
    simpa [Pipeline.arrival, Decoder.setPacket, hlen, hused] using hle
  case failed a x hpc hf => exact ⟨fun _ => hf, hfirst⟩
  case notFailed a x hpc hf =>
    rw [hpc] at hopen
    exact ⟨fun hnil => (hopen hnil).resolve_left (by simp [hf]), hfirst⟩
  case discardFailed a hpc =>
    rw [hpc] at hopen
    exact ⟨fun hnil => .inl (hopen hnil), hfirst⟩
  case initFails => exact ⟨fun _ => rfl, hfirst⟩
  case drop a x hpc hd =>
    refine ⟨fun hnil => ?_, hfirst⟩
    -- nothing is discarded before the catch-up flag goes up
    have hc : s.dec.catchup = false := by
      by_contra hc
      exact accepted_of_catchup hr (.inl (by simpa using hc)) hnil
    cases hkind : s.dec.kind with
    | mjpeg => exact absurd hkind hk
    | ffmpeg id => simp [Decoder.discards, hkind, hc] at hd
  case discard a x hpc =>
    rw [hpc] at hopen
    have hacc := accepted_append_false s.verdicts x
    exact ⟨fun hnil => (hopen (hacc ▸ hnil)).elim, fun y hy => hfirst y (hacc ▸ hy)⟩
  case enqueue a x hpc =>
    rw [hpc] at hopen
    have happ := accepted_append_true s.verdicts x
    refine ⟨fun hnil => by simp [happ] at hnil, fun y hy => ?_⟩
    simp only [happ] at hy
    cases hacc : accepted s.verdicts with
    | nil =>
      simp only [hacc, List.nil_append, List.head?_cons, Option.some.injEq] at hy
      exact hy ▸ hopen hacc
    | cons z zs => exact hfirst y (by simpa [hacc] using hy)
  case aacLow hpc => exact ⟨fun _ => trivial, hfirst⟩
  case full hpc =>
    have hne := accepted_of_catchup hr (.inr hpc)
    exact ⟨fun hnil => absurd hnil hne, hfirst⟩
  case notFull hpc _ =>
    have hne := accepted_of_catchup hr (.inr (.inr hpc))
    exact ⟨fun hnil => absurd hnil hne, hfirst⟩
  case wait => exact hi
  all_goals exact ⟨fun _ => trivial, hfirst⟩

theorem unpadded_failed {pc : RecvPc} {dec dec' : Decoder}
    (hf : dec.failed = true → dec'.failed = true) (hn : dec'.issued = dec.issued)
    (hh : dec'.heap = dec.heap) (h : pc.unpadded dec) : pc.unpadded dec' := by
  cases pc <;> simp only [RecvPc.unpadded, hn, hh] at h ⊢
  case between | pullTest | pullPop | pullNew | fill | failedTest => exact h.imp_left hf
  case discardFailed => exact hf h
  all_goals exact h

theorem unpadded_of_reachable {s : Pipeline} (h : pipeline.Reachable s)
    (hk : s.dec.kind ≠ .mjpeg) : Unpadded s := by
  induction h with
  | start h0 =>
    obtain ⟨kind, sock, rfl⟩ := h0
    exact ⟨fun _ => .inr rfl, by simp [Pipeline.init, accepted]⟩
  | next hr _ hs ih =>
    cases step_move hs with
    | recv hm =>
      obtain ⟨_, _, _, hkind, _⟩ := recvMove_record hm
      exact unpadded_recv hr (hkind ▸ hk) (ih (hkind ▸ hk)) hm
    | leave hpc => exact ⟨fun _ => trivial, (ih hk).first⟩
    | decode _ hm =>
      obtain ⟨_, hkind, _, hissued, hpc⟩ := decodeMove_queue hm
      obtain ⟨_, _, hv, _, _, hf⟩ := decodeMove_record hm
      have hi := ih (hkind ▸ hk)
      refine ⟨fun hnil => ?_, hv ▸ hi.first⟩
      rw [hpc]
      exact unpadded_failed hf hissued (decodeMove_heap hm) (hi.opening (hv ▸ hnil))

/-- **Padding.** The first packet given to `avcodec_send_packet` fills its block
to the end, so all of them are padded only while there are none. -/
theorem decoded_padded_iff (hpos : 0 < padding) {s : Pipeline} (h : pipeline.Reachable s)
    {id : CodecId} (hk : s.dec.kind = .ffmpeg id) :
    (∀ p ∈ s.decoded, p.Padded padding) ↔ s.decoded = [] := by
  constructor
  · intro hall
    by_contra hne
    obtain ⟨p, ps, hp⟩ := List.exists_cons_of_ne_nil hne
    have hinit := (decoded_initial h).trans (pulled_initial h)
    rw [hp] at hinit hall
    obtain ⟨rest, hrest⟩ := hinit
    cases hacc : accepted s.verdicts with
    | nil => simp [hacc] at hrest
    | cons x xs =>
      have hfirst := (unpadded_of_reachable h (by simp [hk])).first x (by simp [hacc])
      simp only [hacc, List.cons_append, List.map_cons, List.cons.injEq] at hrest
      have hpad := (hall p (by simp)).1
      rw [hrest.1] at hpad
      omega
  · rintro h p hp
    simp [h] at hp

/-- One key frame received and decoded. -/
theorem decoded_padded_iff_keyFrame : ∃ s, pipeline.Reachable s ∧
    s.dec.kind = .ffmpeg .h264 ∧ ¬ ∀ p ∈ s.decoded, p.Padded 64 := by
  obtain ⟨s, hs, hp⟩ := pipeline.reachable_of_replay
    (fun s => s.dec.kind = .ffmpeg .h264 ∧ s.decoded.length = 1)
    (.init (.ffmpeg .h264) ⟨encodeHeader 7 5 ++ [0, 0, 0, 1, 101], false, 0⟩)
    (List.replicate 8 (.recv .quiet) ++ List.replicate 4 (.decode true))
    ⟨_, _, rfl⟩ (by decide +kernel)
  obtain ⟨hk, hlen⟩ := of_decide_eq_true hp
  refine ⟨s, hs, hk, fun hall => ?_⟩
  simp [(decoded_padded_iff (by omega : 0 < 64) hs hk).mp hall] at hlen

/-- The five bytes of an IDR slice go to `avcodec_send_packet` in a block of five. -/
theorem decoded_unpadded : ¬ ∀ s, pipeline.Reachable s → s.dec.kind = .ffmpeg .h264 →
    ∀ p ∈ s.decoded, p.Padded 64 := by
  intro hall
  obtain ⟨s, hs, hp⟩ := pipeline.reachable_of_replay
    (fun s => s.dec.kind = .ffmpeg .h264 ∧
      s.decoded.map (fun p => (p.used, p.data.length)) = [(5, 5)])
    (.init (.ffmpeg .h264) ⟨encodeHeader 7 5 ++ [0, 0, 0, 1, 101], false, 0⟩)
    (List.replicate 8 (.recv .quiet) ++ List.replicate 4 (.decode true))
    ⟨_, _, rfl⟩ (by decide +kernel)
  obtain ⟨hk, hsizes⟩ := of_decide_eq_true hp
  obtain ⟨p, hp, hsize⟩ := List.map_eq_singleton_iff.mp hsizes
  have hpad := (hall s hs hk p (by simp [hp])).1
  simp only [Prod.mk.injEq] at hsize
  omega

end DroidcamWhip
