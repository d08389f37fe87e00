import DroidcamWhip.Connection
import DroidcamWhip.Ownership

/-!
The release of decoders while `video_decode_thread` may hold a pointer to one.
Every decoder of a source goes through a run of its own, as `Pipeline` describes
it; whether the pointer is still good depends on when `release_decoder` deletes.
-/

namespace DroidcamWhip

/-! ## Decoders of a source are pipelines -/

/-- How far a decoder is on its way through `release_decoder`. -/
def RecvPc.stage : RecvPc → Nat
  | .releasing => 1
  | .deleting => 2
  | .deleted => 3
  | _ => 0

/-- Where the receiving side of the present decoder stands at each point of
`video_thread`. -/
def VideoPc.expects : VideoPc → RecvPc → Prop
  | .receiving _, r => r.stage = 0 ∧ r ≠ .gaveUp
  | .closeFailed, r | .cleanup, r | .release _, r => r = .between ∨ r = .gaveUp
  | .releasing _ _, r => r = .releasing
  | .deleting _ _, r => r = .deleting
  | .nulling _, r => r = .deleted
  | _, r => r = .between

/-- The decoder that `video_thread` is working on. -/
def VideoPc.target : VideoPc → Option Nat
  | .receiving d | .releasing _ d | .deleting _ d => some d
  | _ => none

/-- What `video_thread` goes on with is what the receiving side is ready for. -/
theorem afterRecv_expects (d : Nat) {r : RecvPc} (h : r.stage = 0) : (afterRecv d r).expects r := by
  cases r with
  | releasing => cases h
  | deleting => cases h
  | deleted => cases h
  | between => rfl
  | gaveUp => exact .inr rfl
  | _ => exact ⟨rfl, RecvPc.noConfusion⟩

theorem recvMove_open {e : Env} {p q : Pipeline} (hm : RecvMove e p q)
    (h : p.recvPc.stage = 0) (hg : p.recvPc ≠ .gaveUp) : q.recvPc.stage = 0 := by
  cases hm
  case close hpc => exact absurd hpc hg
  case wait hpc => exact h
  case proceed hpc _ | delete hpc => simp [hpc, RecvPc.stage] at h
  case enqueue => rcases afterEnqueue_cases p.dec.kind with h' | h' | h' <;> simp [h', RecvPc.stage]
  all_goals rfl

theorem recvMove_gaveUp {e : Env} {p q : Pipeline} (hm : RecvMove e p q)
    (hpc : p.recvPc = .gaveUp) : q.recvPc = .releasing ∧ q.sock = p.sock := by
  cases hm
  case close => exact ⟨rfl, rfl⟩
  all_goals simp_all

theorem recvMove_releasing {e : Env} {p q : Pipeline} (hm : RecvMove e p q)
    (hpc : p.recvPc = .releasing) :
    (q.recvPc = .releasing ∨ q.recvPc = .deleting) ∧ q.sock = p.sock := by
  cases hm
  case wait => exact ⟨.inl hpc, rfl⟩
  case proceed => exact ⟨.inr rfl, rfl⟩
  all_goals simp_all

theorem recvMove_deleting {e : Env} {p q : Pipeline} (hm : RecvMove e p q)
    (hpc : p.recvPc = .deleting) : q.recvPc = .deleted ∧ q.sock = p.sock := by
  cases hm
  case delete => exact ⟨rfl, rfl⟩
  all_goals simp_all

/-- A decoder on which `recv_video_frame` has returned can be released. -/
theorem retire_step {e : Env} {p q : Pipeline} (h : p.retire e = some q) :
    (∃ a, pipeline.step p a = some q) ∧ q.recvPc = .releasing ∧ q.sock = p.sock := by
  unfold Pipeline.retire at h
  split at h
  · have hs : pipeline.step p .leave = some q := h
    cases step_move hs with
    | leave => exact ⟨⟨_, hs⟩, rfl, rfl⟩
  · rename_i hpc
    have hs : pipeline.step p (.recv e) = some q := h
    cases step_move hs with
    | recv hr => exact ⟨⟨_, hs⟩, recvMove_gaveUp hr hpc⟩
  · cases h

structure Attached (s : ObsSource) : Prop where
  current : ∀ d, s.videoDecoder = some d → d < s.created ∧ (s.decoders d).sock = s.conn ∧
    s.video.expects (s.decoders d).recvPc
  target : ∀ d, s.video.target = some d → s.videoDecoder = some d
  nulling : ∀ final, s.video = .nulling final → s.videoDecoder.isSome = true
  working : ∀ d, s.decode = .working d → d < s.created
  runs : ∀ d < s.created, pipeline.Reachable (s.decoders d)

theorem attached_init (format : VideoFormat) : Attached (.init format) := by
  refine ⟨?_, ?_, ?_, ?_, ?_⟩ <;> simp [ObsSource.init, VideoPc.target]

theorem runs_update {f : Nat → Pipeline} {n m d : Nat} {p : Pipeline}
    (h : ∀ d < n, pipeline.Reachable (f d)) (hp : pipeline.Reachable p) (hn : m ≤ n ∨ (m = n + 1 ∧ d = n)) :
    ∀ d' < m, pipeline.Reachable (Function.update f d p d') := by
  intro d' hd'
  by_cases heq : d' = d
  · rw [heq, Function.update_self]
    exact hp
  · rw [Function.update_of_ne heq]
    exact h d' (by omega)

/-- The present decoder moves, and `video_thread` with it. -/
theorem attached_set {s t : ObsSource} {d : Nat} {p : Pipeline} (hi : Attached s)
    (hd : s.videoDecoder = some d) (hp : pipeline.Reachable p)
    (ht : t.decoders = Function.update s.decoders d p) (hv : t.videoDecoder = some d)
    (hc : t.created = s.created) (hs : p.sock = t.conn) (hw : t.decode = s.decode)
    (he : t.video.expects p.recvPc) (htarget : ∀ d', t.video.target = some d' → d' = d) :
    Attached t := by
  have hlt := (hi.current d hd).1
  constructor
  · intro d' hd'
    obtain rfl : d = d' := Option.some.inj (hv.symm.trans hd')
    rw [ht, hc, Function.update_self]
    exact ⟨hlt, hs, he⟩
  · intro d' hd'
    rw [hv, htarget d' hd']
  · simp [hv]
  · rw [hw, hc]
    exact hi.working
  · rw [ht, hc]
    exact runs_update hi.runs hp (.inl (Nat.le_refl _))

/-- The decoder that `video_thread` works on takes a step of the receiving thread. -/
theorem attached_recv {e : Env} {s t : ObsSource} {d : Nat} {p : Pipeline} (hi : Attached s)
    (htd : s.video.target = some d) (hp : pipeline.step (s.decoders d) (.recv e) = some p)
    (ht : t.decoders = Function.update s.decoders d p) (hv : t.videoDecoder = s.videoDecoder)
    (hc : t.created = s.created) (hw : t.decode = s.decode)
    (hnext : RecvMove e (s.decoders d) p → s.video.expects (s.decoders d).recvPc →
      (s.decoders d).sock = s.conn → p.sock = t.conn ∧ t.video.expects p.recvPc)
    (htarget : ∀ d', t.video.target = some d' → d' = d) : Attached t := by
  have hd := hi.target d htd
  obtain ⟨hlt, hsock, hexp⟩ := hi.current d hd
  cases step_move hp with
  | recv hr =>
    obtain ⟨hconn, hexp'⟩ := hnext hr hexp hsock
    exact attached_set hi hd ((hi.runs d hlt).next hp) ht (hv.trans hd) hc hconn hw hexp' htarget

theorem attached_video {e : VideoEnv} {s t : ObsSource} (hl : Linked s) (hi : Attached s)
    (hm : VideoMove e s t) : Attached t := by
  have ⟨hcur, htarget, hnull, hwork, hruns⟩ := hi
  have hplace := hl.place
  unfold ObsSource.linkAt at hplace
  cases hm
  case newDecoder hpc hd =>
    constructor
    · rintro d ⟨⟩
      simp only [ObsSource.setDecoder, Function.update_self]
      exact ⟨Nat.lt_succ_self _, rfl, rfl, by simp [Pipeline.init]⟩
    · simp [VideoPc.target]
    · simp
    · exact fun d h => Nat.lt_succ_of_lt (hwork d h)
    · exact runs_update hruns (.start ⟨_, _, rfl⟩) (.inr ⟨rfl, rfl⟩)
  case oldDecoder d hpc hd =>
    obtain ⟨hlt, hsock, hexp⟩ := hcur d hd
    rw [hpc] at hexp
    have hp : ({ s.decoders d with sock := s.conn } : Pipeline) = s.decoders d := by rw [← hsock]
    refine attached_set hi hd (hp ▸ hruns d hlt) rfl hd rfl rfl rfl ?_ (by simp [VideoPc.target])
    simp only [VideoPc.expects] at hexp ⊢
    simp [hexp, RecvPc.stage]
  case receive d p hpc hp =>
    refine attached_recv hi (by simp [hpc, VideoPc.target]) hp rfl rfl rfl rfl
      (fun hr hexp _ => ⟨rfl, ?_⟩) ?_
    · rw [hpc] at hexp
      exact afterRecv_expects d (recvMove_open hr hexp.1 hexp.2)
    · cases hp' : p.recvPc <;> simp [afterRecv, VideoPc.target]
  case retire final d p hpc hd hp =>
    obtain ⟨hlt, hsock, _⟩ := hcur d hd
    obtain ⟨⟨a, ha⟩, hrel, hsock'⟩ := retire_step hp
    exact attached_set hi hd ((hruns d hlt).next ha) rfl hd rfl (hsock'.trans hsock) rfl hrel
      (by simp [VideoPc.target])
  case wait final d p hpc hp =>
    refine attached_recv hi (by simp [hpc, VideoPc.target]) hp rfl rfl rfl rfl
      (fun hr hexp hsock => ?_) ?_
    · rw [hpc] at hexp
      obtain ⟨hrel | hdel, hsock'⟩ := recvMove_releasing hr hexp
      · exact ⟨hsock'.trans hsock, by simp [hrel, afterWait, VideoPc.expects]⟩
      · exact ⟨hsock'.trans hsock, by simp [hdel, afterWait, VideoPc.expects]⟩
    · cases hp' : p.recvPc <;> simp [afterWait, VideoPc.target]
  case delete final d p hpc hp =>
    refine attached_recv hi (by simp [hpc, VideoPc.target]) hp rfl rfl rfl rfl
      (fun hr hexp hsock => ?_) (by simp [VideoPc.target])
    rw [hpc] at hexp
    obtain ⟨hdel, hsock'⟩ := recvMove_deleting hr hexp
    exact ⟨hsock'.trans hsock, hdel⟩
  case connected fd hpc =>
    rw [hpc] at hplace
    exact ⟨fun d hd => by simp [hplace.2] at hd, by simp [VideoPc.target], by simp, hwork, hruns⟩
  case null final hpc =>
    cases final <;> exact ⟨by simp, by simp [VideoPc.target], by simp, hwork, hruns⟩
  case noDecoder final hpc hd =>
    cases final <;> exact ⟨by simp [hd], by simp [VideoPc.target], by simp, hwork, hruns⟩
  case sent hpc _ =>
    rw [hpc] at hplace
    exact ⟨fun d hd => by simp [ObsSource.sendReq, hplace.2.2.2] at hd, by simp [VideoPc.target],
      by simp, hwork, hruns⟩
  case notSent hpc =>
    rw [hpc] at hplace
    exact ⟨fun d hd => by simp [ObsSource.sendReq, ObsSource.netClose, hplace.2.2.2] at hd,
      by simp [VideoPc.target], by simp, hwork, hruns⟩
  case cleanup hpc | exit hpc =>
    rw [hpc] at hcur
    unfold ObsSource.closeValid
    split <;> exact ⟨hcur, by simp [VideoPc.target], by simp, hwork, hruns⟩
  case closeFailed hpc =>
    rw [hpc] at hcur
    exact ⟨hcur, by simp [VideoPc.target], by simp, hwork, hruns⟩
  case inactive hpc | resetAsked hpc | noConnection hpc | join hpc _ =>
    rw [hpc] at hcur
    refine ⟨fun d hd => ?_, by simp [VideoPc.target], by simp, hwork, hruns⟩
    obtain ⟨hlt, hsock, hexp⟩ := hcur d hd
    exact ⟨hlt, hsock, .inl hexp⟩
  case quit hpc | enter hpc | active hpc | isRunning hpc _ | notRunning hpc _ | notAsked hpc =>
    rw [hpc] at hcur
    exact ⟨hcur, by simp [VideoPc.target], by simp, hwork, hruns⟩

theorem attached_decode {ok : Bool} {s t : ObsSource} (hi : Attached s)
    (hm : ThreadMove ok s t) : Attached t := by
  have ⟨hcur, htarget, hnull, hwork, hruns⟩ := hi
  cases hm
  case load d hpc hd =>
    exact ⟨hcur, htarget, hnull, fun d' h => by cases h; exact (hcur d hd).1, hruns⟩
  case work d p hpc hd hp =>
    have hlt := hwork d hpc
    cases step_move hp with
    | decode _ hr =>
      obtain ⟨hrecv, _, _, _, hsock, _⟩ := decodeMove_record hr
      refine ⟨fun d' hd' => ?_, htarget, hnull, fun d' h => ?_,
        runs_update hruns ((hruns d hlt).next hp) (.inl (Nat.le_refl _))⟩
      · obtain ⟨hlt', hsock', hexp⟩ := hcur d' hd'
        simp only [ObsSource.setDecoder, Function.update_apply]
        split
        · rename_i heq
          subst heq
          exact ⟨hlt', hsock.trans hsock', hrecv ▸ hexp⟩
        · exact ⟨hlt', hsock', hexp⟩
      · cases hp' : p.decodePc <;> simp [hp', afterDecode] at h <;> exact h ▸ hlt
  case quit | enter | loadNull | dangling =>
    exact ⟨hcur, htarget, hnull, by simp, hruns⟩

theorem attached_of_reachable {s : ObsSource} (h : obsSource.Reachable s) : Attached s := by
  refine h.invariant ?_ fun s a t hr hi _ hs => ?_
  · rintro _ ⟨format, rfl⟩
    exact attached_init format
  · cases obsSource_move hs with
    | video hm => exact attached_video (linked_of_reachable hr) hi hm
    | decode hm => exact attached_decode hi hm
    | stop | reset | flags => exact ⟨hi.current, hi.target, hi.nulling, hi.working, hi.runs⟩

/-- **Refinement.** What a source does to each of its decoders is a run of
`pipeline`. -/
theorem decoders_run {s : ObsSource} (h : obsSource.Reachable s) {d : Nat} (hd : d < s.created) :
    pipeline.Reachable (s.decoders d) :=
  (attached_of_reachable h).runs d hd

/-! ## Queues and packets -/

/-- Each queue has one consumer, so what its emptiness test saw still holds when
the front is taken. -/
theorem pops_something {p : Pipeline} (h : pipeline.Reachable p) :
    (∀ req, p.recvPc = .pullPop req → p.dec.recieveQueue ≠ []) ∧
      (p.decodePc = .popping → p.dec.decodeQueue ≠ []) := by
  refine h.invariant (I := fun p => (∀ req, p.recvPc = .pullPop req → p.dec.recieveQueue ≠ []) ∧
    (p.decodePc = .popping → p.dec.decodeQueue ≠ [])) ?_ ?_
  · rintro _ ⟨kind, sock, rfl⟩
    simp [Pipeline.init]
  · rintro p a q _ ⟨hrecv, hdecode⟩ _ hs
    cases step_move hs with
    | leave => exact ⟨by simp, hdecode⟩
    | decode _ hm =>
      cases hm
      case found hpc hq => exact ⟨hrecv, fun _ => hq⟩
      case sleep hpc => exact ⟨hrecv, hdecode⟩
      case push hpc => exact ⟨by simp [Decoder.pushEmptyPacket], by simp⟩
      all_goals exact ⟨hrecv, by simp⟩
    | recv hm =>
      cases hm
      case poolFilled hpc hq => exact ⟨fun _ _ => hq, hdecode⟩
      case short hpc hf =>
        obtain ⟨x, rfl⟩ := fill_short hf
        exact ⟨by simp, hdecode⟩
      case filled hpc hf =>
        obtain ⟨x, rfl, _⟩ := fill_done hf
        exact ⟨by simp, hdecode⟩
      case enqueue hpc =>
        refine ⟨fun req h => ?_, by simp [Decoder.enqueue]⟩
        rcases afterEnqueue_cases p.dec.kind with h' | h' | h' <;> simp [h'] at h
      case wait => exact ⟨hrecv, hdecode⟩
      all_goals exact ⟨by simp, hdecode⟩

theorem popsNothing_false {p : Pipeline} (h : pipeline.Reachable p) (a : Act) :
    p.popsNothing a = false := by
  obtain ⟨hrecv, hdecode⟩ := pops_something h
  cases a with
  | recv e =>
    cases hpc : p.recvPc <;> simp only [Pipeline.popsNothing, hpc]
    case pullPop req => simpa using hrecv req hpc
  | leave => rfl
  | decode ok =>
    cases hpc : p.decodePc <;> simp only [Pipeline.popsNothing, hpc]
    case popping => simpa using hdecode hpc

/-- `~Decoder` does not free the packet that the decoding thread holds. -/
theorem destroy_spares {p : Pipeline} (h : pipeline.Reachable p) :
    p.dec.destroy.1.filter (· ∈ p.decodePc.hand) = [] := by
  rw [List.filter_eq_nil_iff]
  intro a ha
  have hapart := (owned_of_reachable h).held.apart a
  rw [Decoder.destroy_eq] at ha
  rcases List.mem_append.mp ha with ha | ha
  · simpa using (hapart.1 ha).2.2
  · simpa using (hapart.2.1 ha).2

/-- A step of `video_thread` makes no forbidden access. -/
theorem videoMove_faults {e : VideoEnv} {s t : ObsSource} (ha : Attached s)
    (hm : VideoMove e s t) : t.faults = s.faults := by
  cases hm
  case receive d p hpc hp =>
    have hd := ha.target d (by simp [hpc, VideoPc.target])
    have hpops := popsNothing_false (ha.runs d (ha.current d hd).1) (.recv e.pipe)
    simp [hpops]
  case delete final d p hpc hp =>
    have hd := ha.target d (by simp [hpc, VideoPc.target])
    have hspare := destroy_spares (ha.runs d (ha.current d hd).1)
    simp [hspare]
  case cleanup | exit =>
    unfold ObsSource.closeValid
    split <;> rfl
  all_goals rfl

/-- A step of `video_decode_thread` makes none on a decoder that still exists. -/
theorem threadMove_faults {ok : Bool} {s t : ObsSource} (ha : Attached s)
    (hm : ThreadMove ok s t) :
    t.faults = s.faults ∨ ∃ d, s.decode = .working d ∧ (s.decoders d).recvPc = .deleted ∧
      t.faults = s.faults ++ [.deletedDecoder d] := by
  cases hm
  case dangling d hpc hd => exact .inr ⟨d, hpc, hd, rfl⟩
  case work d p hpc hd hp =>
    have hpops := popsNothing_false (ha.runs d (ha.working d hpc)) (.decode ok)
    exact .inl (by simp [hpops])
  all_goals exact .inl rfl

/-- Whatever the interleaving, no packet is freed under the decoding thread and
no empty queue is popped; only deleted decoders can be touched. -/
theorem faults_dangling {s : ObsSource} (h : obsSource.Reachable s) :
    ∀ f ∈ s.faults, ∃ d, f = .deletedDecoder d := by
  refine h.invariant (I := fun s => ∀ f ∈ s.faults, ∃ d, f = .deletedDecoder d) ?_ ?_
  · rintro _ ⟨format, rfl⟩
    simp [ObsSource.init]
  · intro s a t hr hi _ hs
    have ha := attached_of_reachable hr
    cases obsSource_move hs with
    | video hm => exact videoMove_faults ha hm ▸ hi
    | decode hm =>
      rcases threadMove_faults ha hm with h | ⟨d, _, _, h⟩
      · exact h ▸ hi
      · intro f hf
        rcases List.mem_append.mp (h ▸ hf) with hf | hf
        · exact hi f hf
        · exact ⟨d, List.mem_singleton.mp hf⟩
    | stop | reset | flags => exact hi

/-! ## Dangling pointers -/

/-- The step does not delete the decoder that `video_decode_thread` is working
on, nor load the pointer between its deletion and its reset. -/
def Undisturbed (s : ObsSource) : SourceAct → Prop
  | .video _ => ∀ final d, s.video = .deleting final d → s.decode ≠ .working d
  | .decode _ => s.decode = .load → ∀ final, s.video ≠ .nulling final
  | _ => True

/-- The pointer in use is good. -/
def Alive (s : ObsSource) : Prop :=
  ∀ d, s.decode = .working d → (s.decoders d).recvPc ≠ .deleted

theorem alive_set {s t : ObsSource} {d : Nat} {p : Pipeline} (hi : Alive s)
    (ht : t.decoders = Function.update s.decoders d p) (hw : t.decode = s.decode)
    (hp : s.decode = .working d → p.recvPc ≠ .deleted) : Alive t := by
  intro d' hd'
  rw [hw] at hd'
  rw [ht, Function.update_apply]
  split
  · rename_i heq
    exact hp (heq ▸ hd')
  · exact hi d' hd'

theorem alive_video {e : VideoEnv} {s t : ObsSource} (ha : Attached s)
    (hg : Undisturbed s (.video e)) (hi : Alive s) (hm : VideoMove e s t) : Alive t := by
  cases hm
  case newDecoder hpc hd => exact alive_set hi rfl rfl fun _ => by simp [Pipeline.init]
  case oldDecoder d hpc hd => exact alive_set hi rfl rfl (hi d)
  case receive d p hpc hp =>
    have hd := ha.target d (by simp [hpc, VideoPc.target])
    have hexp := (ha.current d hd).2.2
    rw [hpc] at hexp
    refine alive_set hi rfl rfl fun _ hdel => ?_
    cases step_move hp with
    | recv hr => simpa [hdel, RecvPc.stage] using recvMove_open hr hexp.1 hexp.2
  case retire final d p hpc hd hp =>
    exact alive_set hi rfl rfl fun _ => by simp [(retire_step hp).2.1]
  case wait final d p hpc hp =>
    have hd := ha.target d (by simp [hpc, VideoPc.target])
    have hexp := (ha.current d hd).2.2
    rw [hpc] at hexp
    refine alive_set hi rfl rfl fun _ => ?_
    cases step_move hp with
    | recv hr => obtain ⟨h | h, _⟩ := recvMove_releasing hr hexp <;> simp [h]
  case delete final d p hpc hp =>
    exact alive_set hi rfl rfl fun hw => absurd hw (hg final d hpc)
  case cleanup | exit =>
    unfold ObsSource.closeValid
    split <;> exact hi
  all_goals exact hi

theorem alive_decode {ok : Bool} {s t : ObsSource} (ha : Attached s)
    (hg : Undisturbed s (.decode ok)) (hm : ThreadMove ok s t) : Alive t := by
  cases hm
  case load d hpc hd =>
    intro d' hd' hdel
    cases hd'
    have hexp := (ha.current d hd).2.2
    rw [show (s.decoders d).recvPc = .deleted from hdel] at hexp
    cases hv : s.video <;> simp [hv, VideoPc.expects, RecvPc.stage] at hexp
    case nulling final => exact hg hpc final hv
  case work d p hpc hd hp =>
    intro d' hd'
    cases step_move hp with
    | decode _ hr =>
      have hrecv := (decodeMove_record hr).1
      have heq : d' = d := by
        cases hp' : p.decodePc <;> simp [hp', afterDecode] at hd' <;> exact hd'.symm
      simpa [heq, ObsSource.setDecoder, hrecv] using hd
  all_goals simp [Alive]

/-- **Deletion.** As long as no decoder is deleted under the decoding thread, and
the pointer is not loaded between deletion and reset, that thread never touches a
deleted decoder, no packet it holds is freed, and no empty queue is popped. -/
theorem decoder_alive {s : ObsSource} (h : obsSource.Reach Undisturbed s) : s.faults = [] := by
  have hi : Alive s ∧ s.faults = [] := by
    refine h.invariant (I := fun s => Alive s ∧ s.faults = []) ?_ fun s a t hr hi hg hs => ?_
    · rintro _ ⟨format, rfl⟩
      exact ⟨by simp [Alive, ObsSource.init], rfl⟩
    · have ha := attached_of_reachable hr.reachable
      cases obsSource_move hs with
      | video hm => exact ⟨alive_video ha hg hi.1 hm, (videoMove_faults ha hm).trans hi.2⟩
      | decode hm =>
        refine ⟨alive_decode ha hg hm, ?_⟩
        rcases threadMove_faults ha hm with h | ⟨d, hpc, hd, _⟩
        · exact h.trans hi.2
        · exact absurd hd (hi.1 d hpc)
      | stop | reset | flags => exact hi
  exact hi.2

/-- Decoders are deleted only while the decoding thread is between iterations. -/
def ObsSource.releasesApart (s : ObsSource) : Bool :=
  match s.video with
  | .deleting _ _ | .nulling _ => s.decode = .top
  | _ => true

theorem undisturbed_of_apart {s : ObsSource} (h : s.releasesApart = true) (a : SourceAct) :
    Undisturbed s a := by
  cases a with
  | video e =>
    intro final d hpc
    simp only [ObsSource.releasesApart, hpc, decide_eq_true_eq] at h
    simp [h]
  | decode ok =>
    intro hload final hpc
    simp [ObsSource.releasesApart, hpc, hload] at h
  | stop | reset | flags => trivial

/-- One frame is received and decoded, the connection ends, and the decoder is
released while the decoding thread is elsewhere. -/
theorem decoder_alive_frame : ∃ s, obsSource.Reach Undisturbed s ∧ s.videoDecoder = none ∧
    (s.decoders 0).recvPc.stage = 3 ∧ (s.decoders 0).decoded.length = 1 ∧ s.faults = [] := by
  obtain ⟨s, hs, hp⟩ := obsSource.reach_of_replay (fun s _ => s.releasesApart)
    (fun s => s.videoDecoder = none ∧ (s.decoders 0).recvPc.stage = 3 ∧
      (s.decoders 0).decoded.length = 1)
    (.init .avc)
    (List.replicate 19 (.video (.quiet 5 ⟨encodeHeader 7 5 ++ [0, 0, 0, 1, 101], false, 0⟩)) ++
      List.replicate 7 (.decode true) ++
      List.replicate 12 (.video (.quiet 5 ⟨[], false, 0⟩)))
    (fun _ a h => undisturbed_of_apart h a) (.start ⟨_, rfl⟩) (by decide +kernel)
  obtain ⟨hv, hstage, hdec⟩ := of_decide_eq_true hp
  exact ⟨s, hs, hv, hstage, hdec, decoder_alive hs⟩

/-- The decoding thread loads the pointer, the connection ends and the decoder is
deleted: the pool is full, as nothing has been allocated. The thread then asks
the deleted decoder for a packet. -/
theorem decoder_deleted : ¬ ∀ s, obsSource.Reachable s → s.faults = [] := by
  intro hall
  obtain ⟨s, hs, hp⟩ := obsSource.reachable_of_replay
    (fun s => s.faults = [.deletedDecoder 0]) (.init .avc)
    (List.replicate 10 (.video (.quiet 5 ⟨[], false, 0⟩)) ++ List.replicate 2 (.decode true) ++
      List.replicate 6 (.video (.quiet 5 ⟨[], false, 0⟩)) ++ [.decode true])
    ⟨_, rfl⟩ (by decide +kernel)
  simp [hall s hs] at hp

/-- After a step against the condition, the next step of the decoding thread on
the decoder touches a deleted one. -/
theorem undisturbed_needed {s t : ObsSource} {a : SourceAct} (h : obsSource.Reachable s)
    (hg : ¬ Undisturbed s a) (hs : obsSource.step s a = some t) (ok : Bool) :
    ∃ u, obsSource.step t (.decode ok) = some u ∧ u.faults ≠ [] := by
  have ha := attached_of_reachable h
  have htouch : ∀ d, t.decode = .working d → (t.decoders d).recvPc = .deleted →
      ∃ u, obsSource.step t (.decode ok) = some u ∧ u.faults ≠ [] := by
    intro d hpc hdel
    refine ⟨{ t with faults := t.faults ++ [.deletedDecoder d], decode := .faulted }, ?_, by simp⟩
    change t.decodeStep ok = _
    simp only [ObsSource.decodeStep, hpc, hdel]
  cases obsSource_move hs with
  | video hm =>
    simp only [Undisturbed, not_forall, not_not] at hg
    obtain ⟨final, d, hpc, hw⟩ := hg
    have hd := ha.target d (by simp [hpc, VideoPc.target])
    have hexp := (ha.current d hd).2.2
    rw [hpc] at hexp
    cases hm
    case delete final' d' p hpc' hp =>
      obtain ⟨rfl, rfl⟩ : final = final' ∧ d = d' := by simpa [hpc] using hpc'
      cases step_move hp with
      | recv hr =>
        exact htouch d hw (by simp [ObsSource.setDecoder, (recvMove_deleting hr hexp).1])
    all_goals simp_all
  | decode hm =>
    simp only [Undisturbed, not_forall, not_not] at hg
    obtain ⟨hload, final, hpc⟩ := hg
    obtain ⟨d, hd⟩ := Option.isSome_iff_exists.mp (ha.nulling final hpc)
    have hexp := (ha.current d hd).2.2
    rw [hpc] at hexp
    cases hm
    case load d' hpc' hd' =>
      obtain rfl : d = d' := Option.some.inj (hd.symm.trans hd')
      exact htouch d rfl hexp
    all_goals simp_all
  | stop | reset | flags => exact absurd trivial hg

end DroidcamWhip
