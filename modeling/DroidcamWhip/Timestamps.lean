import DroidcamWhip.Playback

/-!
Packets into libavcodec and frames out of it. `decode_video` sends once and
receives at most once, and `video_decode_thread` labels what comes out with the
packet in hand; that is right as long as the codec keeps in step.
-/

namespace DroidcamWhip

/-- The `pts` of packet `j`. -/
def Playback.ptsOf {δ α : Type} (s : Playback δ α) (j : Nat) : Option UInt64 :=
  s.calls[j]?.map Call.pts

/-- Packets recycled by a decoder that has not failed were taken by the codec, and
frames were pushed with the `pts` of the packet they come from. -/
structure Accounted (s : Playback FFMpegDecoder CodecAnswer) : Prop where
  taken : ∀ k ∈ s.recycled, ∃ j, k = some j ∧ j ∈ s.decoder.codec.accepted
  stamped : ∀ x ∈ s.pushed, s.ptsOf x.picture.packet = some x.pts

/-- In a call of `decode_video` that does not fail the codec does not refuse the
packet, and the frame that it hands out, if any, comes from this packet or from one
with the same `pts`. -/
def InStep (s : Playback FFMpegDecoder CodecAnswer) : PlayAct CodecAnswer → Prop
  | .decode answer => ∀ a, s.pipe.decodePc = .decoding a →
      (s.decoder.decodeVideo s.videoFrame s.calls.length answer).2.ok = true →
      answer.send ≠ .again ∧
        ∀ p, s.decoder.codec.handsOut answer = some p →
          p.packet = s.calls.length ∨ s.ptsOf p.packet = some (s.pipe.dec.heap a).pts
  | _ => True

/-! ## Runs in which the codec keeps in step -/

theorem ptsOf_append {δ α : Type} {s t : Playback δ α} {c : Call α} {j : Nat} {pts : UInt64}
    (ht : t.calls = s.calls ++ [c]) (h : s.ptsOf j = some pts) : t.ptsOf j = some pts := by
  obtain ⟨b, hb, rfl⟩ := Option.map_eq_some_iff.mp h
  obtain ⟨hlt, rfl⟩ := List.getElem?_eq_some_iff.mp hb
  rw [Playback.ptsOf, ht, List.getElem?_append_left hlt]
  exact h

theorem ptsOf_last {δ α : Type} {s t : Playback δ α} {c : Call α}
    (ht : t.calls = s.calls ++ [c]) : t.ptsOf s.calls.length = some c.pts := by
  simp [Playback.ptsOf, ht]

/-- The packet that is about to be recycled has been taken. -/
structure Keeping (s : Playback FFMpegDecoder CodecAnswer) : Prop where
  inHand : ∀ a, s.pipe.decodePc = .pushing a → s.pipe.dec.failed = false →
    ∃ j, s.inHand = some j ∧ j ∈ s.decoder.codec.accepted
  accounted : Accounted s

theorem keeping_step {kind : Kind} {d : FFMpegDecoder} {s t : Playback FFMpegDecoder CodecAnswer}
    {act : PlayAct CodecAnswer} (hi : Keeping s) (hg : InStep s act)
    (h : (playback kind d).step s act = some t) : Keeping t := by
  have ⟨hhand, htaken, hstamped⟩ := hi
  cases playStep_move h
  case recv hm =>
    obtain ⟨hpc, _, _, _, _, hf⟩ := recvMove_record hm
    refine ⟨fun a ha hff => hhand a (hpc ▸ ha) ?_, htaken, hstamped⟩
    by_contra hn
    simp [hf (Bool.eq_true_of_not_eq_false hn)] at hff
  case leave => exact ⟨hhand, htaken, hstamped⟩
  case call a answer e r hpc _ _ hr =>
    obtain ⟨rfl, rfl⟩ := FFMpegDecoder.decodeVideo_parts hr
    refine ⟨fun b hb _ => ⟨_, rfl, ?_⟩, fun k hk => ?_, fun x hx => ?_⟩
    · have hok : (s.decoder.decodeVideo s.videoFrame s.calls.length answer).2.ok = true := by
        by_contra hn
        simp [Bool.eq_false_iff.mpr hn] at hb
      exact FFMpegDecoder.accepted_of_ok hok (hg a hpc hok).1
    · obtain ⟨j, hj, hmem⟩ := htaken k hk
      exact ⟨j, hj, s.decoder.accepted_subset s.calls.length answer hmem⟩
    · rcases List.mem_append.mp hx with hx | hx
      · exact ptsOf_append rfl (hstamped x hx)
      · obtain ⟨hpts, p, hp, hpacket⟩ := FFMpegDecoder.pushed_packet hx
        rw [hpts, hpacket]
        rcases (hg a hpc (DecodeResult.ok_of_pushed hx)).2 p hp with hk | hk
        · rw [hk]
          exact ptsOf_last (s := s) (c := ⟨_, answer⟩) rfl
        · exact ptsOf_append rfl hk
  case recycle a answer hpc =>
    refine ⟨by simp, ?_, hstamped⟩
    intro k hk
    simp only at hk
    split at hk
    · exact htaken k hk
    · rename_i hf
      rcases List.mem_append.mp hk with hk | hk
      · exact htaken k hk
      · obtain ⟨j, hj, hmem⟩ := hhand a hpc (Bool.eq_false_iff.mpr hf)
        exact ⟨j, (List.mem_singleton.mp hk).trans hj, hmem⟩
  case other hm hcall hpush =>
    refine ⟨fun a ha hf => ?_, htaken, hstamped⟩
    cases hm
    case sleep => exact hhand a ha hf
    case failed hf' => simp [hf'] at hf
    case markFailed => cases hf
    case decoded hpc => exact absurd hpc (hcall _)
    all_goals cases ha

theorem keeping_of_reach {kind : Kind} {hw : Bool} {hwPixFmt : AvPixelFormat}
    {s : Playback FFMpegDecoder CodecAnswer}
    (h : (playback kind (FFMpegDecoder.opened hw hwPixFmt)).Reach InStep s) : Keeping s := by
  refine h.invariant ?_ fun s a t _ hi hg hs => keeping_step hi hg hs
  rintro _ ⟨sock, f, rfl⟩
  exact ⟨by simp [Playback.init, Pipeline.init], by simp [Playback.init], by simp [Playback.init]⟩

/-- **No packet is skipped and every frame keeps its timestamp**, in the runs in
which the codec keeps in step with the calls of `decode_video`. -/
theorem packets_accounted (kind : Kind) (hw : Bool) (hwPixFmt : AvPixelFormat)
    {s : Playback FFMpegDecoder CodecAnswer}
    (h : (playback kind (FFMpegDecoder.opened hw hwPixFmt)).Reach InStep s) :
    Accounted s := (keeping_of_reach h).accounted

/-- The guard for a call of `decode_video` that hands out no packet but its own. -/
def handsOutOwn (s : Playback FFMpegDecoder CodecAnswer) : PlayAct CodecAnswer → Bool
  | .decode answer =>
      match s.pipe.decodePc with
      | .decoding _ => answer.send ≠ .again ∧
          (s.decoder.codec.handsOut answer).all fun p => p.packet = s.calls.length
      | _ => true
  | _ => true

/-- Two packets, each decoded at once. -/
theorem packets_accounted_software : ∃ s : Playback FFMpegDecoder CodecAnswer,
    (playback (.ffmpeg .h264) (FFMpegDecoder.opened false .none)).Reach InStep s ∧
      s.recycled.length = 2 ∧ s.pushed.length = 2 ∧ Accounted s := by
  obtain ⟨s, hs, hp⟩ :=
    (playback (.ffmpeg .h264) (FFMpegDecoder.opened false .none)).reach_of_replay (G := InStep)
    handsOutOwn (fun s => s.recycled.length = 2 ∧ s.pushed.length = 2)
    (.init (.ffmpeg .h264) twoPackets _ .blank)
    (decodeTwo (.software 0 .yuv420p) (.software 1 .yuv420p))
    (by
      intro s act hg
      cases act with
      | recv | leave => trivial
      | decode answer =>
        intro a hpc _
        simp only [handsOutOwn, hpc, Option.all_eq_true, decide_eq_true_eq] at hg
        exact ⟨hg.1, fun p hp => .inl (hg.2 p hp)⟩)
    (.start ⟨_, _, rfl⟩) (by decide +kernel)
  obtain ⟨hrec, hpush⟩ := of_decide_eq_true hp
  exact ⟨s, hs, hrec, hpush, packets_accounted _ _ _ hs⟩

/-! A codec without delay makes of each packet one frame at most, at once. It never
has frames waiting, so that it never refuses a packet. -/

def Prompt (s : Playback FFMpegDecoder CodecAnswer) : PlayAct CodecAnswer → Prop
  | .decode answer =>
      answer.yields.length ≤ 1 ∧ ∀ p ∈ answer.yields, p.packet = s.calls.length
  | _ => True

/-- No frame waits in the codec, unless a call has failed. -/
def Drained (s : Playback FFMpegDecoder CodecAnswer) : Prop :=
  s.decoder.codec.ready = [] ∨ Spent s.pipe

theorem inStep_of_prompt {s : Playback FFMpegDecoder CodecAnswer} {act : PlayAct CodecAnswer}
    (hd : Drained s) (hp : Prompt s act)
    (hallow : ∀ answer a, act = .decode answer → s.pipe.decodePc = .decoding a →
      s.decoder.codec.allows s.calls.length answer = true) : InStep s act := by
  cases act with
  | recv | leave => trivial
  | decode answer =>
    intro a hpc _
    have hready := hd.resolve_right fun h => spent_decoding h hpc
    refine ⟨fun hagain => ?_, fun p hout => .inl (hp.2 p ?_)⟩
    · have hno := hallow answer a rfl hpc
      simp [AvCodec.allows, hagain, hready] at hno
    · unfold AvCodec.handsOut at hout
      split at hout
      · exact List.mem_of_mem_head? (by simpa [hready] using hout)
      · cases hout

theorem drained_step {kind : Kind} {d : FFMpegDecoder} {s t : Playback FFMpegDecoder CodecAnswer}
    {act : PlayAct CodecAnswer} (hi : Drained s) (hp : Prompt s act)
    (h : (playback kind d).step s act = some t) : Drained t := by
  cases playStep_move h
  case recv hm => exact hi.imp id fun h => spent_recv h hm
  case leave => exact hi
  case call a answer e r hpc _ _ hr =>
    obtain ⟨rfl, rfl⟩ := FFMpegDecoder.decodeVideo_parts hr
    have hready := hi.resolve_right fun h => spent_decoding h hpc
    cases hok : (s.decoder.decodeVideo s.videoFrame s.calls.length answer).2.ok with
    | false => exact .inr (.inl ⟨a, rfl⟩)
    | true =>
      refine .inl ?_
      have hne : (s.decoder.deliver s.calls.length answer).2 ≠ .error := by
        intro he
        simp [FFMpegDecoder.decodeVideo, he] at hok
      simp only [FFMpegDecoder.deliver_ready s.calls.length hne, hready, List.nil_append]
      split
      · exact List.eq_nil_of_length_eq_zero (by simpa using Nat.sub_eq_zero_of_le hp.1)
      · rfl
  case recycle hpc => exact hi.imp id fun h => spent_decode h (.push hpc)
  case other hm _ _ => exact hi.imp id fun h => spent_decode h hm

/-- Under a codec without delay, packets and timestamps are kept. -/
theorem accounted_of_prompt (kind : Kind) (hw : Bool) (hwPixFmt : AvPixelFormat)
    {s : Playback FFMpegDecoder CodecAnswer}
    (h : (playback kind (FFMpegDecoder.opened hw hwPixFmt)).Reach Prompt s) :
    Accounted s := by
  have hi : Drained s ∧ (playback kind (FFMpegDecoder.opened hw hwPixFmt)).Reach InStep s := by
    refine h.invariant (I := fun s => Drained s ∧
      (playback kind (FFMpegDecoder.opened hw hwPixFmt)).Reach InStep s)
      ?_ fun s a t _ hi hg hs => ?_
    · rintro _ ⟨sock, f, rfl⟩
      exact ⟨.inl rfl, .start ⟨sock, f, rfl⟩⟩
    · refine ⟨drained_step hi.1 hg hs, .next hi.2 (inStep_of_prompt hi.1 hg ?_) hs⟩
      rintro answer a rfl hpc
      cases playStep_move hs
      case call ha _ => exact ha
      case recycle hpc' => simp [hpc] at hpc'
      case other hcall _ => exact absurd hpc (hcall a)
  exact (keeping_of_reach hi.2).accounted

/-! ## Runs in which it does not -/

theorem ptsOf_of_append {δ α : Type} {s t : Playback δ α} {c : Call α} {j : Nat} {pts : UInt64}
    (ht : t.calls = s.calls ++ [c]) (hj : j ≠ s.calls.length) (h : t.ptsOf j = some pts) :
    s.ptsOf j = some pts := by
  rcases Nat.lt_or_gt_of_ne hj with hlt | hgt
  · rwa [Playback.ptsOf, ht, List.getElem?_append_left hlt] at h
  · rw [Playback.ptsOf, ht, List.getElem?_eq_none (by simp; omega)] at h
    cases h

/-- The codec takes only packets that it has been passed. -/
theorem accepted_lt {kind : Kind} {hw : Bool} {hwPixFmt : AvPixelFormat}
    {s : Playback FFMpegDecoder CodecAnswer}
    (h : (playback kind (FFMpegDecoder.opened hw hwPixFmt)).Reachable s) :
    ∀ j ∈ s.decoder.codec.accepted, j < s.calls.length := by
  refine h.invariant
    (I := fun s => ∀ j ∈ s.decoder.codec.accepted, j < s.calls.length) ?_ fun s a t _ hi _ hs => ?_
  · rintro _ ⟨sock, f, rfl⟩
    simp [Playback.init, FFMpegDecoder.opened, AvCodec.opened]
  · cases playStep_move hs
    case call answer e r _ _ _ hr _ =>
      obtain ⟨rfl, _⟩ := FFMpegDecoder.decodeVideo_parts hr
      intro j hj
      simp only [s.decoder.deliver_accepted s.calls.length answer] at hj
      simp only [List.length_append, List.length_singleton]
      split at hj
      · rcases List.mem_append.mp hj with hj | hj
        · exact Nat.lt_succ_of_lt (hi j hj)
        · exact (List.mem_singleton.mp hj) ▸ Nat.lt_succ_self _
      · exact Nat.lt_succ_of_lt (hi j hj)
    all_goals exact hi

theorem recycle_step {kind : Kind} {d : FFMpegDecoder} {s : Playback FFMpegDecoder CodecAnswer}
    {a : Nat} (answer : CodecAnswer) (hpc : s.pipe.decodePc = .pushing a)
    (hlive : s.pipe.recvPc ≠ .deleted) :
    (playback kind d).step s (.decode answer) = some { s with
      pipe := { s.pipe with dec := s.pipe.dec.pushEmptyPacket a, decodePc := .idle }
      inHand := none
      recycled := if s.pipe.dec.failed then s.recycled else s.recycled ++ [s.inHand] } := by
  have hstep : s.pipe.step (.decode true) =
      some { s.pipe with dec := s.pipe.dec.pushEmptyPacket a, decodePc := .idle } := by
    simp only [Pipeline.step, Pipeline.decodeStep, hpc]
  change s.step (.decode answer) = _
  simp only [Playback.step, hpc, hstep]
  rfl

/-- A call in which the codec is out of step pushes a frame under a wrong `pts`, or
its packet is recycled without having been taken. -/
theorem inStep_needed {kind : Kind} {hw : Bool} {hwPixFmt : AvPixelFormat}
    {s t : Playback FFMpegDecoder CodecAnswer} {act : PlayAct CodecAnswer}
    (h : (playback kind (FFMpegDecoder.opened hw hwPixFmt)).Reachable s)
    (hstep : (playback kind (FFMpegDecoder.opened hw hwPixFmt)).step s act = some t)
    (hn : ¬ InStep s act) :
    ¬ Accounted t ∨ ∀ answer, ∃ u,
      (playback kind (FFMpegDecoder.opened hw hwPixFmt)).step t (.decode answer) = some u ∧
        ¬ Accounted u := by
  cases playStep_move hstep
  case recv | leave => exact absurd trivial hn
  case recycle hpc => exact absurd (fun a ha => by simp [hpc] at ha) hn
  case other hcall _ => exact absurd (fun a ha => absurd ha (hcall a)) hn
  case call a answer e r hpc hlive _ hr =>
    obtain ⟨rfl, rfl⟩ := FFMpegDecoder.decodeVideo_parts hr
    have hok : (s.decoder.decodeVideo s.videoFrame s.calls.length answer).2.ok = true := by
      by_contra hf
      exact hn fun _ _ hok => absurd hok hf
    by_cases hagain : answer.send = .again
    · refine .inr fun answer' => ⟨_, recycle_step answer' (if_pos hok) hlive, fun hacc => ?_⟩
      have hf := (unready_of_reachable (pipe_reachable h)).unfailed a hpc
      obtain ⟨j, hj, hmem⟩ := hacc.taken (some s.calls.length) (by simp [hf])
      obtain rfl := Option.some.inj hj
      simp only [s.decoder.deliver_accepted, hagain, reduceCtorEq, if_false] at hmem
      exact absurd (accepted_lt h _ hmem) (Nat.lt_irrefl _)
    · refine .inl fun hacc => hn fun b hb _ => ⟨hagain, fun p hp => ?_⟩
      obtain rfl : a = b := DecodePc.decoding.inj (hpc.symm.trans hb)
      obtain ⟨x, hx, hpts, hpacket⟩ :=
        FFMpegDecoder.pushed_of_handsOut (s.pipe.dec.heap a).pts hp hok
      have hstamped := hacc.stamped x (List.mem_append_right _ hx)
      rw [hpts, hpacket] at hstamped
      by_cases hk : p.packet = s.calls.length
      · exact .inl hk
      · exact .inr (ptsOf_of_append (s := s) (c := ⟨_, answer⟩) rfl hk hstamped)

/-- A codec that makes two frames of the first packet refuses the second, which is
recycled; and one that holds the first frame back until it has the second packet
gives it the `pts` of that packet. -/
theorem packets_unaccounted :
    (¬ ∀ s : Playback FFMpegDecoder CodecAnswer,
      (playback (.ffmpeg .h264) (FFMpegDecoder.opened false .none)).Reachable s →
        ∀ k ∈ s.recycled, ∃ j, k = some j ∧ j ∈ s.decoder.codec.accepted) ∧
    (¬ ∀ s : Playback FFMpegDecoder CodecAnswer,
      (playback (.ffmpeg .h264) (FFMpegDecoder.opened false .none)).Reachable s →
        ∀ x ∈ s.pushed, s.ptsOf x.picture.packet = some x.pts) := by
  constructor
  · intro hall
    obtain ⟨s, hs, hp⟩ := (playback (.ffmpeg .h264)
        (FFMpegDecoder.opened false .none)).reachable_of_replay
      (fun s => some 1 ∈ s.recycled ∧ 1 ∉ s.decoder.codec.accepted)
      (.init (.ffmpeg .h264) twoPackets _ .blank)
      (decodeTwo ⟨.ok, [.software 0 .yuv420p, .software 0 .yuv420p], false, none, true⟩
        ⟨.again, [], false, none, true⟩) ⟨_, _, rfl⟩ (by decide +kernel)
    obtain ⟨hrec, hno⟩ := of_decide_eq_true hp
    obtain ⟨j, hj, hmem⟩ := hall s hs _ hrec
    exact hno (Option.some.inj hj ▸ hmem)
  · intro hall
    obtain ⟨s, hs, hp⟩ := (playback (.ffmpeg .h264)
        (FFMpegDecoder.opened false .none)).reachable_of_replay
      (fun s => s.pushed.any fun x => s.ptsOf x.picture.packet = some 1 ∧ x.pts = 2)
      (.init (.ffmpeg .h264) twoPackets _ .blank)
      (decodeTwo ⟨.ok, [], false, none, true⟩ (.software 0 .yuv420p)) ⟨_, _, rfl⟩ (by decide +kernel)
    obtain ⟨x, hx, hpts⟩ := List.any_eq_true.mp hp
    obtain ⟨hof, hpts⟩ := of_decide_eq_true hpts
    have hstamped := hall s hs x hx
    simp [hof, hpts] at hstamped

end DroidcamWhip
