import DroidcamWhip.Lib.Variant
import DroidcamWhip.Release

/-!
The end of a source: once `stop_requested` is set, the joins of `droidcam_source_stop`
return. Each thread has a number of steps ahead of it that the other thread does not raise.
-/

namespace DroidcamWhip

open Runs

/-! ## Steps ahead -/

/-- How many steps `recv_video_frame` has ahead of it at most. -/
def RecvPc.ahead : RecvPc → Nat
  | .between => 12
  | .pullTest _ => 11
  | .pullPop _ | .pullNew _ => 10
  | .fill _ _ => 9
  | .failedTest _ _ => 8
  | .readyTest _ _ => 7
  | .pushStart _ _ => 6
  | .enqueue _ _ => 5
  | .aacTest => 4
  | .fullTest => 3
  | .giveBack _ | .discardFailed _ | .discard _ _ => 2
  | _ => 0

/-- How many steps an iteration of `video_decode_thread` has ahead of it at most. -/
def DecodePc.ahead : DecodePc → Nat
  | .idle => 7
  | .popping => 6
  | .failedTest _ => 5
  | .decoding _ => 4
  | .markFailed _ => 3
  | .pushing _ => 2
  | .crashed => 0

namespace ObsSource

/-- How many steps `video_thread` has ahead of it at most, with the `release_decoder` of
`droidcam_source_stop` behind the joins. -/
def videoAhead (s : ObsSource) : Nat :=
  match s.video with
  | .finished => 0
  | .nulling true => 1
  | .deleting true _ => 2
  | .releasing true _ => 3
  | .release true => 4
  | .done => 5
  | .exit => 6
  | .loop => 7
  | .nulling false => 8
  | .deleting false _ => 9
  | .releasing false _ => 10
  | .release false => 11
  | .cleanup => 12
  | .closeFailed | .send => 13
  | .connect => 14
  | .receiving d => 14 + (s.decoders d).recvPc.ahead
  | .recvEnter => 27
  | .resetTest => 28
  | .running => 29
  | .body => 30

/-- How many steps `video_decode_thread` has ahead of it at most. -/
def decodeAhead (s : ObsSource) : Nat :=
  match s.decode with
  | .ended | .faulted => 0
  | .top => 1
  | .working d => 1 + (s.decoders d).decodePc.ahead
  | .load => 9

def ahead (s : ObsSource) : Nat := s.videoAhead + s.decodeAhead

end ObsSource

/-- A step of one of the threads. -/
def SourceAct.isThread : SourceAct → Bool
  | .video _ | .decode _ => true
  | _ => false

theorem RecvPc.ahead_le (r : RecvPc) : r.ahead ≤ 12 := by
  cases r <;> simp [ahead]

theorem DecodePc.ahead_le (pc : DecodePc) : pc.ahead ≤ 7 := by
  cases pc <;> simp [ahead]

theorem videoAhead_le (s : ObsSource) : s.videoAhead ≤ 30 := by
  have hrecv := fun d => (s.decoders d).recvPc.ahead_le
  unfold ObsSource.videoAhead
  split
  all_goals first | omega | exact Nat.le_trans (Nat.add_le_add_left (hrecv _) 14) (by decide)

theorem decodeAhead_le (s : ObsSource) : s.decodeAhead ≤ 9 := by
  have hdecode := fun d => (s.decoders d).decodePc.ahead_le
  unfold ObsSource.decodeAhead
  split
  all_goals first | omega | exact Nat.le_trans (Nat.add_le_add_left (hdecode _) 1) (by decide)

/-! ## One decoder -/

/-- `recv_video_frame` returns or comes closer to its end. -/
theorem recvMove_ahead {e : Env} {p q : Pipeline} (hm : RecvMove e p q)
    (hstage : p.recvPc.stage = 0) (hopen : p.recvPc ≠ .gaveUp) :
    q.recvPc = .between ∨ q.recvPc = .gaveUp ∨ q.recvPc.ahead < p.recvPc.ahead := by
  cases hm
  case close hpc => exact absurd hpc hopen
  case wait hpc | proceed hpc _ | delete hpc => simp [hpc, RecvPc.stage] at hstage
  case enqueue hpc =>
    rw [hpc]
    rcases afterEnqueue_cases p.dec.kind with h | h | h
    · exact .inl h
    · exact .inr (.inr (show (afterEnqueue p.dec.kind).ahead < 5 by rw [h]; decide))
    · exact .inr (.inr (show (afterEnqueue p.dec.kind).ahead < 5 by rw [h]; decide))
  case noHeaders | giveBack => exact .inr (.inl rfl)
  case discardFailed | discard | full | notFull => exact .inl rfl
  all_goals
    rename_i hpc
    refine .inr (.inr ?_)
    simp_all [RecvPc.ahead]

theorem recvMove_ahead_pos {e : Env} {p q : Pipeline} (hm : RecvMove e p q)
    (hstage : p.recvPc.stage = 0) (hopen : p.recvPc ≠ .gaveUp) : 0 < p.recvPc.ahead := by
  cases hm
  case full hpc => rcases hpc with hpc | hpc <;> simp [hpc, RecvPc.ahead]
  all_goals simp_all [RecvPc.ahead, RecvPc.stage]

theorem decodeMove_ahead {p q : Pipeline} (hm : DecodeMove p q) :
    0 < p.decodePc.ahead ∧ (q.decodePc = .idle ∨ q.decodePc.ahead < p.decodePc.ahead) := by
  cases hm
  case sleep hpc => exact ⟨by simp [hpc, DecodePc.ahead], .inl hpc⟩
  case push hpc => exact ⟨by simp [hpc, DecodePc.ahead], .inl rfl⟩
  all_goals simp_all [DecodePc.ahead]

/-! ## The source -/

theorem videoAhead_congr {s t : ObsSource} (hv : t.video = s.video)
    (hd : ∀ d, (t.decoders d).recvPc = (s.decoders d).recvPc) : t.videoAhead = s.videoAhead := by
  unfold ObsSource.videoAhead
  rw [hv]
  simp only [hd]

theorem decodeAhead_congr {s t : ObsSource} (hpc : t.decode = s.decode)
    (hd : ∀ d, s.decode = .working d → (t.decoders d).decodePc = (s.decoders d).decodePc) :
    t.decodeAhead = s.decodeAhead := by
  unfold ObsSource.decodeAhead
  rw [hpc]
  cases hs : s.decode with
  | working d => exact congrArg (fun pc : DecodePc => 1 + pc.ahead) (hd d hs)
  | _ => rfl

theorem step_decodePc {e : Env} {p q : Pipeline} (h : pipeline.step p (.recv e) = some q) :
    q.decodePc = p.decodePc := by
  cases step_move h with
  | recv hm => exact (recvMove_record hm).1

theorem retire_decodePc {e : Env} {p q : Pipeline} (h : p.retire e = some q) :
    q.decodePc = p.decodePc := by
  obtain ⟨⟨a, ha⟩, -⟩ := retire_step h
  unfold Pipeline.retire at h
  split at h
  · cases step_move (s := p) (a := .leave) h with
    | leave => rfl
  · exact step_decodePc h
  · cases h

theorem decodePc_update {f : Nat → Pipeline} {d : Nat} {p : Pipeline}
    (h : p.decodePc = (f d).decodePc) (e : Nat) :
    (Function.update f d p e).decodePc = (f e).decodePc := by
  rw [Function.update_apply]
  split
  · rename_i he
    rw [h, he]
  · rfl

/-- `video_thread` leaves the iteration of the other thread as it is. -/
theorem videoMove_decode {e : VideoEnv} {s t : ObsSource} (ha : Attached s)
    (hm : VideoMove e s t) : t.decodeAhead = s.decodeAhead := by
  cases hm
  case newDecoder hpc hd =>
    refine decodeAhead_congr rfl fun d hw => ?_
    have hlt := ha.working d hw
    show (Function.update s.decoders s.created _ d).decodePc = _
    rw [Function.update_of_ne (by omega)]
  case oldDecoder d hpc hd =>
    exact decodeAhead_congr rfl fun e _ =>
      decodePc_update (p := { s.decoders d with sock := s.conn }) rfl e
  case receive d p hpc hp | wait d p hpc hp | delete d p hpc hp =>
    exact decodeAhead_congr rfl fun e _ => decodePc_update (step_decodePc hp) e
  case retire d p hpc hd hp =>
    exact decodeAhead_congr rfl fun e _ => decodePc_update (retire_decodePc hp) e
  case cleanup | exit =>
    unfold ObsSource.closeValid
    split
    · exact decodeAhead_congr rfl fun _ _ => rfl
    · exact decodeAhead_congr rfl fun _ _ => rfl
  all_goals exact decodeAhead_congr rfl fun _ _ => rfl

theorem afterRecv_ahead {s : ObsSource} {d : Nat} {r : RecvPc} (hv : s.video = afterRecv d r)
    (hd : (s.decoders d).recvPc = r) {n : Nat} (hn : 0 < n)
    (h : r = .between ∨ r = .gaveUp ∨ r.ahead < n) : s.videoAhead < 14 + n := by
  unfold ObsSource.videoAhead
  rcases h with rfl | rfl | h
  · rw [hv]
    show 7 < 14 + n
    omega
  · rw [hv]
    show 13 < 14 + n
    omega
  · rw [hv]
    cases r
    case between => show 7 < 14 + n; omega
    case gaveUp => show 13 < 14 + n; omega
    all_goals
      simp only [afterRecv, hd]
      omega

/-- A step of `video_thread` brings it closer to its end when it has been asked to stop. -/
theorem videoStep_ahead {e : VideoEnv} {s t : ObsSource} (ha : Attached s)
    (hstop : s.stopRequested = true) (h : s.videoStep e = some t) :
    t.videoAhead < s.videoAhead := by
  have hm := videoStep_move h
  cases hm
  case enter hpc => simp [ObsSource.videoStep, hpc, hstop] at h
  case newDecoder hpc hd =>
    simp [ObsSource.videoAhead, ObsSource.setDecoder, hpc, Pipeline.init, RecvPc.ahead]
  case oldDecoder d hpc hd =>
    have hexp := (ha.current d hd).2.2
    rw [hpc] at hexp
    simp only [VideoPc.expects] at hexp
    simp [ObsSource.videoAhead, ObsSource.setDecoder, hpc, hexp, RecvPc.ahead]
  case receive d p hpc hp =>
    have hd := ha.target d (by simp [hpc, VideoPc.target])
    have hexp := (ha.current d hd).2.2
    rw [hpc] at hexp
    have hs : s.videoAhead = 14 + (s.decoders d).recvPc.ahead := by
      simp [ObsSource.videoAhead, hpc]
    rw [hs]
    cases step_move hp with
    | recv hr =>
      exact afterRecv_ahead rfl (by simp [ObsSource.setDecoder])
        (recvMove_ahead_pos hr hexp.1 hexp.2) (recvMove_ahead hr hexp.1 hexp.2)
  case retire final d p hpc hd hp => cases final <;> simp [ObsSource.videoAhead, hpc]
  case wait final d p hpc hp =>
    have hd := ha.target d (by simp [hpc, VideoPc.target])
    have hexp := (ha.current d hd).2.2
    rw [hpc] at hexp
    -- the wait for packets is over when the source is to stop
    simp [pipeline, Pipeline.step, Pipeline.recvStep, show (s.decoders d).recvPc = _ from hexp,
      hstop] at hp
    subst hp
    cases final <;> simp [ObsSource.videoAhead, hpc, afterWait]
  case delete final d p hpc hp => cases final <;> simp [ObsSource.videoAhead, hpc]
  case null final hpc => cases final <;> simp [ObsSource.videoAhead, hpc]
  case noDecoder final hpc hd => cases final <;> simp [ObsSource.videoAhead, hpc]
  case cleanup hpc | exit hpc =>
    unfold ObsSource.closeValid
    split <;> simp [ObsSource.videoAhead, hpc]
  case isRunning hpc hr | notRunning hpc hr | sent hpc hr | join hpc hr =>
    simp [ObsSource.videoAhead, hpc]
  case quit hpc | active hpc | inactive hpc | resetAsked hpc | notAsked hpc | closeFailed hpc |
      noConnection hpc | connected hpc | notSent hpc =>
    simp [ObsSource.videoAhead, hpc]

theorem afterDecode_ahead {s : ObsSource} {d : Nat} {pc : DecodePc}
    (hw : s.decode = afterDecode d pc) (hd : (s.decoders d).decodePc = pc) {n : Nat} (hn : 0 < n)
    (h : pc = .idle ∨ pc.ahead < n) : s.decodeAhead < 1 + n := by
  unfold ObsSource.decodeAhead
  rcases h with rfl | h
  · rw [hw]
    show 1 < 1 + n
    omega
  · rw [hw]
    cases pc
    case idle => show 1 < 1 + n; omega
    case crashed => show 0 < 1 + n; omega
    all_goals
      simp only [afterDecode, hd]
      omega

/-- A step of `video_decode_thread` does the same for it. -/
theorem decodeStep_ahead {ok : Bool} {s t : ObsSource} (hstop : s.stopRequested = true)
    (h : s.decodeStep ok = some t) : t.decodeAhead < s.decodeAhead := by
  have hm := threadStep_move h
  cases hm
  case quit hpc => simp [ObsSource.decodeAhead, hpc]
  case enter hpc => simp [ObsSource.decodeStep, hpc, hstop] at h
  case loadNull hpc hd => simp [ObsSource.decodeAhead, hpc]
  case load d hpc hd =>
    have := (s.decoders d).decodePc.ahead_le
    simp only [ObsSource.decodeAhead, hpc]
    omega
  case dangling d hpc hd => simp [ObsSource.decodeAhead, hpc]
  case work d p hpc hd hp =>
    have hs : s.decodeAhead = 1 + (s.decoders d).decodePc.ahead := by
      simp [ObsSource.decodeAhead, hpc]
    rw [hs]
    cases step_move hp with
    | decode _ hr =>
      obtain ⟨hpos, hnext⟩ := decodeMove_ahead hr
      exact afterDecode_ahead rfl (by simp [ObsSource.setDecoder]) hpos hnext

/-- It leaves `video_thread` as it is. -/
theorem threadMove_video {ok : Bool} {s t : ObsSource} (hm : ThreadMove ok s t) :
    t.videoAhead = s.videoAhead := by
  cases hm
  case work d p hpc hd hp =>
    refine videoAhead_congr rfl fun e => ?_
    cases step_move hp with
    | decode _ hr =>
      show (Function.update s.decoders d p e).recvPc = _
      rw [Function.update_apply]
      split
      · rename_i he
        rw [(decodeMove_record hr).1, he]
      · rfl
  all_goals exact videoAhead_congr rfl fun _ => rfl

/-- Nothing takes the request back. -/
theorem sourceMove_stop {s t : ObsSource} {a : SourceAct} (hm : SourceMove s a t)
    (hstop : s.stopRequested = true) : t.stopRequested = true := by
  cases hm with
  | video hm =>
    cases hm
    case cleanup | exit =>
      unfold ObsSource.closeValid
      split <;> exact hstop
    all_goals exact hstop
  | decode hm => cases hm <;> exact hstop
  | stop => rfl
  | reset | flags => exact hstop

theorem stopping_variant : obsSource.Variant
    (fun s => obsSource.Reachable s ∧ s.stopRequested = true) (fun _ => False)
    SourceAct.isThread ObsSource.ahead where
  keeps s a t hs ht := ⟨hs.1.next ht, sourceMove_stop (obsSource_move ht) hs.2⟩
  stays _ _ _ _ _ h := h
  lowers s a t hs ht := by
    refine .inr ?_
    have ha := attached_of_reachable hs.1
    unfold ObsSource.ahead
    cases obsSource_move ht with
    | video hm =>
      have hlt := videoStep_ahead ha hs.2 (show s.videoStep _ = some t from ht)
      have heq := videoMove_decode ha hm
      show _ + 1 ≤ _
      omega
    | decode hm =>
      have hlt := decodeStep_ahead hs.2 (show s.decodeStep _ = some t from ht)
      have heq := threadMove_video hm
      show _ + 1 ≤ _
      omega
    | stop | reset | flags => exact Nat.le_refl _

/-! ## There is always a step -/

theorem recv_some {p : Pipeline} (e : Env) (hlive : p.recvPc ≠ .deleted)
    (hok : ∀ held, p.recvPc ≠ .crashed held) : ∃ q, p.step (.recv e) = some q := by
  rw [← Option.isSome_iff_exists]
  show (p.recvStep e).isSome = true
  cases hpc : p.recvPc
  case deleted => exact absurd hpc hlive
  case crashed held => exact absurd hpc (hok held)
  all_goals
    simp only [Pipeline.recvStep, hpc]
    repeat' split
    all_goals rfl

theorem retire_some {p : Pipeline} (e : Env) (h : p.recvPc = .between ∨ p.recvPc = .gaveUp) :
    ∃ q, p.retire e = some q := by
  rw [← Option.isSome_iff_exists]
  rcases h with h | h
  · simp only [Pipeline.retire, Pipeline.step, h]
    rfl
  · simp only [Pipeline.retire, Pipeline.step, Pipeline.recvStep, h]
    rfl

/-- The decoding thread never takes the front of an empty queue. -/
theorem decodePc_ne_crashed {p : Pipeline} (h : pipeline.Reachable p) : p.decodePc ≠ .crashed := by
  refine h.invariant (I := fun p => p.decodePc ≠ .crashed) ?_ fun p a q hr hi _ hs => ?_
  · rintro _ ⟨kind, sock, rfl⟩
    exact DecodePc.noConfusion
  · cases step_move hs with
    | leave => exact hi
    | recv hm => exact (recvMove_record hm).1 ▸ hi
    | decode _ hm =>
      cases hm
      case popNothing hpc hq => exact absurd hq ((pops_something hr).2 hpc)
      case sleep => exact hi
      all_goals exact DecodePc.noConfusion

theorem decode_some {p : Pipeline} (ok : Bool) (hlive : p.recvPc ≠ .deleted)
    (hok : p.decodePc ≠ .crashed) : ∃ q, p.step (.decode ok) = some q := by
  have hstep : p.step (.decode ok) = p.decodeStep ok := by
    cases hpc : p.recvPc
    case deleted => exact absurd hpc hlive
    all_goals simp only [Pipeline.step, hpc]
  rw [hstep, ← Option.isSome_iff_exists]
  cases hpc : p.decodePc
  case crashed => exact absurd hpc hok
  all_goals
    simp only [Pipeline.decodeStep, hpc]
    repeat' split
    all_goals rfl

/-- A thread has used a decoder behind its end, or written behind the end of a packet. -/
def ObsSource.Broken (s : ObsSource) : Prop :=
  s.decode = .faulted ∨ ∃ d held, s.video = .receiving d ∧ (s.decoders d).recvPc = .crashed held

/-- `video_thread` waits for nothing but the end of the other thread. -/
theorem video_some {s : ObsSource} (ha : Attached s) (hok : ¬ s.Broken)
    (hend : s.video ≠ .finished) (hjoin : s.video = .done → s.decode = .ended) (e : VideoEnv) :
    ∃ t, s.step (.video e) = some t := by
  rw [← Option.isSome_iff_exists]
  show (s.videoStep e).isSome = true
  have hcurrent : ∀ d, s.video.target = some d → s.video.expects (s.decoders d).recvPc :=
    fun d hd => (ha.current d (ha.target d hd)).2.2
  cases hpc : s.video
  case finished => exact absurd hpc hend
  case done =>
    simp only [ObsSource.videoStep, hpc, hjoin hpc]
    rfl
  case receiving d =>
    have hexp := hcurrent d (by simp [hpc, VideoPc.target])
    rw [hpc] at hexp
    obtain ⟨q, hq⟩ := recv_some e.pipe
      (fun hdel => by simp [hdel, VideoPc.expects, RecvPc.stage] at hexp)
      (fun held hcrash => hok (.inr ⟨d, held, hpc, hcrash⟩))
    simp only [ObsSource.videoStep, hpc, hq]
    rfl
  case release final =>
    cases hd : s.videoDecoder with
    | none =>
      simp only [ObsSource.videoStep, hpc, hd]
      rfl
    | some d =>
      have hexp := (ha.current d hd).2.2
      rw [hpc] at hexp
      obtain ⟨q, hq⟩ := retire_some e.pipe hexp
      simp only [ObsSource.videoStep, hpc, hd, hq]
      rfl
  case releasing final d =>
    have hexp := hcurrent d (by simp [hpc, VideoPc.target])
    rw [hpc] at hexp
    simp only [VideoPc.expects] at hexp
    obtain ⟨q, hq⟩ := recv_some (p := s.decoders d) { e.pipe with stop := s.stopRequested }
      (by simp [hexp]) (by simp [hexp])
    simp only [ObsSource.videoStep, hpc, hq]
    rfl
  case deleting final d =>
    have hexp := hcurrent d (by simp [hpc, VideoPc.target])
    rw [hpc] at hexp
    simp only [VideoPc.expects] at hexp
    obtain ⟨q, hq⟩ := recv_some (p := s.decoders d) e.pipe (by simp [hexp]) (by simp [hexp])
    simp only [ObsSource.videoStep, hpc, hq]
    rfl
  all_goals
    simp only [ObsSource.videoStep, hpc]
    repeat' split
    all_goals rfl

/-- `video_decode_thread` waits for nothing. -/
theorem thread_some {s : ObsSource} (ha : Attached s) (hok : s.decode ≠ .faulted)
    (hend : s.decode ≠ .ended) (ok : Bool) : ∃ t, s.step (.decode ok) = some t := by
  show ∃ t, s.decodeStep ok = some t
  rw [← Option.isSome_iff_exists]
  cases hpc : s.decode
  case faulted => exact absurd hpc hok
  case ended => exact absurd hpc hend
  case working d =>
    by_cases hdel : (s.decoders d).recvPc = .deleted
    · simp only [ObsSource.decodeStep, hpc, hdel]
      rfl
    · obtain ⟨q, hq⟩ := decode_some ok hdel (decodePc_ne_crashed (ha.runs d (ha.working d hpc)))
      simp only [ObsSource.decodeStep, hpc, hq]
      split
      all_goals rfl
  all_goals
    simp only [ObsSource.decodeStep, hpc]
    repeat' split
    all_goals rfl

/-- **A stop ends.** Once `stop_requested` is set, the two threads and
`droidcam_source_stop`, up to the end of its `release_decoder`, make 39 steps at most, whatever
the phone and the libraries answer and however the threads are interleaved; and as long as a
thread has not crashed, one of them can make a step, until that `release_decoder` has
returned. A call of a library is a part of one step: it is taken to return. -/
theorem source_stops {s : ObsSource} (h : obsSource.Reachable s) (hstop : s.stopRequested = true)
    {as : List SourceAct} {t : ObsSource} (hrun : as.foldlM ObsSource.step s = some t) :
    as.countP SourceAct.isThread ≤ 39 ∧
      (t.video = .finished ∨ t.Broken ∨ (∀ e, ∃ u, t.step (.video e) = some u) ∨
        ∀ ok, ∃ u, t.step (.decode ok) = some u) := by
  obtain ⟨⟨hreach, -⟩, hle⟩ := stopping_variant.run ⟨h, hstop⟩ hrun
  have hle := hle.resolve_left id
  have hvideo := videoAhead_le s
  have hdecode := decodeAhead_le s
  have ha := attached_of_reachable hreach
  refine ⟨by unfold ObsSource.ahead at hle; omega, ?_⟩
  by_cases hend : t.video = .finished
  · exact .inl hend
  · by_cases hbroken : t.Broken
    · exact .inr (.inl hbroken)
    · by_cases hthread : t.decode = .ended
      · exact .inr (.inr (.inl (video_some ha hbroken hend fun _ => hthread)))
      · exact .inr (.inr (.inr (thread_some ha (fun hf => hbroken (.inl hf)) hthread)))

/-- What the threads do when they have been asked to stop between two frames. -/
def endingActs : List SourceAct :=
  List.replicate 2 (.video (.quiet 5 ⟨[], false, 0⟩)) ++ [.decode true] ++
    List.replicate 5 (.video (.quiet 5 ⟨[], false, 0⟩))

/-- A frame is received and decoded, and the source is stopped. -/
theorem source_stops_frame : ∃ s t : ObsSource, s.stopRequested = true ∧
    endingActs.foldlM ObsSource.step s = some t ∧ t.video = .finished ∧
      endingActs.countP SourceAct.isThread ≤ 39 := by
  obtain ⟨s, hs, hp⟩ := obsSource.reachable_of_replay
    (fun s => s.stopRequested = true ∧ (s.decoders 0).decoded.length = 1 ∧
      ((endingActs.foldlM ObsSource.step s).any fun t => t.video = .finished) = true)
    (.init .avc)
    (List.replicate 19 (.video (.quiet 5 ⟨encodeHeader 7 5 ++ [0, 0, 0, 1, 101], false, 0⟩)) ++
      List.replicate 7 (.decode true) ++ [.stop])
    ⟨_, rfl⟩ (by decide +kernel)
  obtain ⟨hstop, -, hany⟩ := of_decide_eq_true hp
  obtain ⟨t, hrun, hend⟩ := (Option.any_eq_true _ _).mp hany
  exact ⟨s, t, hstop, hrun, of_decide_eq_true hend, (source_stops hs hstop hrun).1⟩

end DroidcamWhip
