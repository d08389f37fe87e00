import DroidcamWhip.Shutdown

/-!
The wait in `release_decoder`: the decoding thread gives back every packet of the decoder
after a number of steps that its queue bounds, so `video_thread` does not wait for ever.
-/

namespace DroidcamWhip

open Runs

/-! ## The wait -/

/-- The test that ends the wait, when the source is not to stop. -/
def Pipeline.Full (p : Pipeline) : Prop := p.dec.allocCount ≤ p.dec.recieveQueue.length

/-- How many steps the decoding thread has to make in an iteration, and up to the test in the
next. -/
def DecodePc.due : DecodePc → Nat
  | .failedTest _ => 13
  | .decoding _ => 12
  | .markFailed _ => 11
  | .pushing _ => 10
  | .idle => 7
  | .popping => 6
  | .crashed => 0

/-- How many steps it has to make until it has given back the packets of the decoder `d`. -/
def ObsSource.due (d : Nat) (s : ObsSource) : Nat :=
  8 * (s.decoders d).dec.decodeQueue.length +
    match s.decode with
    | .top => 9
    | .load => 8
    | .working e => if e = d then (s.decoders d).decodePc.due else 1
    | .ended | .faulted => 0

/-- A step after which `video_thread` is where it was. -/
def ObsSource.waitStep (s : ObsSource) (a : SourceAct) : Option ObsSource :=
  (s.step a).filter fun t => t.video = s.video

def SourceAct.isDecode : SourceAct → Bool
  | .decode _ => true
  | _ => false

theorem due_le (d : Nat) (s : ObsSource) :
    s.due d ≤ 8 * (s.decoders d).dec.decodeQueue.length + 13 := by
  have hdue : (s.decoders d).decodePc.due ≤ 13 := by
    cases (s.decoders d).decodePc <;> simp [DecodePc.due]
  unfold ObsSource.due
  split
  case h_3 e _ => split <;> omega
  all_goals omega

/-! ## Decoders that are not in use -/

/-- The decoding thread has left the iterations on all decoders but one. -/
def Calm (s : ObsSource) : Prop :=
  s.decode = .faulted ∨ ∀ d, s.decode ≠ .working d → (s.decoders d).decodePc = .idle

/-- All decoders but one are deleted. -/
def Old (s : ObsSource) : Prop :=
  ∀ d < s.created, s.videoDecoder ≠ some d → (s.decoders d).recvPc = .deleted

theorem calm_congr {s t : ObsSource} (hi : Calm s) (hpc : t.decode = s.decode)
    (hd : ∀ d, (t.decoders d).decodePc = (s.decoders d).decodePc) : Calm t := by
  refine hi.imp (fun h => hpc.trans h) fun h d hw => ?_
  rw [hd]
  exact h d (hpc ▸ hw)

theorem calm_video {e : VideoEnv} {s t : ObsSource} (hi : Calm s) (hm : VideoMove e s t) :
    Calm t := by
  cases hm
  case newDecoder hpc hd =>
    refine hi.imp id fun h d hw => ?_
    show (Function.update s.decoders s.created _ d).decodePc = _
    rw [Function.update_apply]
    split
    · rfl
    · exact h d hw
  case oldDecoder d hpc hd =>
    exact calm_congr hi rfl fun e => decodePc_update (p := { s.decoders d with sock := s.conn }) rfl e
  case receive d p hpc hp | wait d p hpc hp | delete d p hpc hp =>
    exact calm_congr hi rfl fun e => decodePc_update (step_decodePc hp) e
  case retire d p hpc hd hp =>
    exact calm_congr hi rfl fun e => decodePc_update (retire_decodePc hp) e
  case cleanup | exit =>
    unfold ObsSource.closeValid
    split
    · exact calm_congr hi rfl fun _ => rfl
    · exact calm_congr hi rfl fun _ => rfl
  all_goals exact calm_congr hi rfl fun _ => rfl

theorem calm_decode {ok : Bool} {s t : ObsSource} (hi : Calm s) (hm : ThreadMove ok s t) :
    Calm t := by
  cases hm
  case quit hpc | enter hpc =>
    exact .inr fun d _ => (hi.resolve_left (by simp [hpc])) d (by simp [hpc])
  case loadNull hpc hd | load hpc hd =>
    exact .inr fun d _ => (hi.resolve_left (by simp [hpc])) d (by simp [hpc])
  case dangling => exact .inl rfl
  case work d p hpc hd hp =>
    have hidle := hi.resolve_left (by simp [hpc])
    by_cases hcrash : p.decodePc = .crashed
    · exact .inl (by simp [hcrash, afterDecode])
    · refine .inr fun e hw => ?_
      show (Function.update s.decoders d p e).decodePc = _
      rw [Function.update_apply]
      split
      · rename_i he
        subst he
        by_contra hne
        refine hw ?_
        show afterDecode e p.decodePc = _
        cases hp' : p.decodePc
        case idle => exact absurd hp' hne
        case crashed => exact absurd hp' hcrash
        all_goals rfl
      · rename_i he
        exact hidle e (by simp [hpc, Ne.symm he])

theorem old_congr {s t : ObsSource} (hi : Old s) (hc : t.created = s.created)
    (hv : t.videoDecoder = s.videoDecoder)
    (hd : ∀ d, s.videoDecoder ≠ some d → (t.decoders d).recvPc = (s.decoders d).recvPc) :
    Old t := by
  intro d hlt hne
  rw [hv] at hne
  rw [hd d hne]
  exact hi d (hc ▸ hlt) hne

theorem update_of_current {s : ObsSource} {d : Nat} {p : Pipeline}
    (hd : s.videoDecoder = some d) (e : Nat) (he : s.videoDecoder ≠ some e) :
    (Function.update s.decoders d p e).recvPc = (s.decoders e).recvPc := by
  rw [Function.update_of_ne]
  exact fun h => he (h ▸ hd)

theorem old_video {e : VideoEnv} {s t : ObsSource} (ha : Attached s) (hi : Old s)
    (hm : VideoMove e s t) : Old t := by
  cases hm
  case newDecoder hpc hd =>
    intro d hlt hne
    have hne' : d ≠ s.created := fun h => hne (by rw [h])
    have hlt' : d < s.created + 1 := hlt
    show (Function.update s.decoders s.created _ d).recvPc = _
    rw [Function.update_of_ne hne']
    exact hi d (by omega) (by simp [hd])
  case oldDecoder d hpc hd => exact old_congr hi rfl rfl (update_of_current hd)
  case receive d p hpc hp | wait d p hpc hp | delete d p hpc hp =>
    exact old_congr hi rfl rfl (update_of_current (ha.target d (by simp [hpc, VideoPc.target])))
  case retire d p hpc hd hp => exact old_congr hi rfl rfl (update_of_current hd)
  case null final hpc =>
    intro d hlt _
    by_cases hd : s.videoDecoder = some d
    · have hexp := (ha.current d hd).2.2
      rw [hpc] at hexp
      exact hexp
    · exact hi d hlt hd
  case cleanup | exit =>
    unfold ObsSource.closeValid
    split
    · exact old_congr hi rfl rfl fun _ _ => rfl
    · exact old_congr hi rfl rfl fun _ _ => rfl
  all_goals exact old_congr hi rfl rfl fun _ _ => rfl

theorem old_decode {ok : Bool} {s t : ObsSource} (hi : Old s) (hm : ThreadMove ok s t) :
    Old t := by
  cases hm
  case work d p hpc hd hp =>
    refine old_congr hi rfl rfl fun e _ => ?_
    cases step_move hp with
    | decode _ hr =>
      show (Function.update s.decoders d p e).recvPc = _
      rw [Function.update_apply]
      split
      · rename_i he
        rw [(decodeMove_record hr).1, he]
      · rfl
  all_goals exact old_congr hi rfl rfl fun _ _ => rfl

theorem unused_of_reachable {s : ObsSource} (h : obsSource.Reachable s) : Calm s ∧ Old s := by
  refine h.invariant (I := fun s => Calm s ∧ Old s) ?_ fun s a t hr hi hg hs => ?_
  · rintro _ ⟨format, rfl⟩
    exact ⟨.inr fun d _ => rfl, fun d hlt => absurd hlt (Nat.not_lt_zero d)⟩
  · cases obsSource_move hs with
    | video hm => exact ⟨calm_video hi.1 hm, old_video (attached_of_reachable hr) hi.2 hm⟩
    | decode hm => exact ⟨calm_decode hi.1 hm, old_decode hi.2 hm⟩
    | stop | reset | flags => exact hi

/-! ## One step of the decoding thread -/

/-- What is left of the queue and of the iteration. -/
def Pipeline.due (p : Pipeline) : Nat :=
  8 * p.dec.decodeQueue.length + p.decodePc.due

/-- A decoder that is released and has no packet left to decode has them all back. -/
theorem full_of_idle {p : Pipeline} (hr : pipeline.Reachable p) (hpc : p.recvPc = .releasing)
    (hidle : p.decodePc = .idle) (hq : p.dec.decodeQueue = []) : p.Full := by
  have howned := owned_of_reachable hr
  have htotal := howned.held.total
  simp only [Pipeline.places, hpc, hidle, hq, RecvPc.hand, DecodePc.hand, List.map_cons,
    List.map_nil, List.sum_cons, List.sum_nil, List.length_nil] at htotal
  unfold Pipeline.Full
  rw [howned.count]
  omega

theorem decodeMove_full {p q : Pipeline} (hm : DecodeMove p q) (hfull : p.Full) : q.Full := by
  cases hm
  case push a hpc =>
    have hle : p.dec.allocCount ≤ p.dec.recieveQueue.length := hfull
    show p.dec.allocCount ≤ (p.dec.recieveQueue ++ [a]).length
    rw [List.length_append]
    omega
  all_goals exact hfull

/-- The decoding thread uses up what is left, an iteration at a time. -/
theorem decodeStep_due {ok : Bool} {p q : Pipeline} (hr : pipeline.Reachable p)
    (hpc : p.recvPc = .releasing) (h : p.decodeStep ok = some q) :
    q.Full ∨ q.decodePc = .idle ∧ 8 * q.dec.decodeQueue.length + 10 ≤ p.due ∨
      q.decodePc ≠ .idle ∧ q.due + 1 ≤ p.due := by
  unfold Pipeline.due
  cases decodeStep_move h
  case sleep hidle =>
    by_cases hq : p.dec.decodeQueue = []
    · exact .inl (full_of_idle hr hpc hidle hq)
    · -- it takes the packet that has come
      simp only [Pipeline.decodeStep, hidle, if_neg hq, Option.some.injEq] at h
      exact absurd (congrArg Pipeline.decodePc h) (by simp [hidle])
  case popNothing hpop hq => exact absurd hq ((pops_something hr).2 hpop)
  case pop a q hpop hq =>
    refine .inr (.inr ⟨DecodePc.noConfusion, ?_⟩)
    simp only [hpop, hq, List.length_cons, DecodePc.due]
    omega
  case push a hpush =>
    refine .inr (.inl ⟨rfl, ?_⟩)
    simp only [hpush, DecodePc.due]
    exact Nat.le_refl _
  all_goals
    refine .inr (.inr ⟨DecodePc.noConfusion, ?_⟩)
    simp_all only [DecodePc.due]
    omega

/-! ## The wait of a source -/

/-- `video_thread` waits in `release_decoder` for the decoder `d`. -/
structure Waits (final : Bool) (d : Nat) (s : ObsSource) : Prop where
  reach : obsSource.Reachable s
  video : s.video = .releasing final d

theorem Waits.attached {final : Bool} {d : Nat} {s : ObsSource} (h : Waits final d s) :
    Attached s := attached_of_reachable h.reach

theorem Waits.current {final : Bool} {d : Nat} {s : ObsSource} (h : Waits final d s) :
    s.videoDecoder = some d := h.attached.target d (by simp [h.video, VideoPc.target])

theorem Waits.releasing {final : Bool} {d : Nat} {s : ObsSource} (h : Waits final d s) :
    (s.decoders d).recvPc = .releasing := by
  have hexp := (h.attached.current d h.current).2.2
  rw [h.video] at hexp
  exact hexp

theorem Waits.run {final : Bool} {d : Nat} {s : ObsSource} (h : Waits final d s) :
    pipeline.Reachable (s.decoders d) :=
  h.attached.runs d (h.attached.current d h.current).1

/-- Besides the moves of the decoding thread, nothing happens to the decoder. -/
theorem waitStep_cases {final : Bool} {d : Nat} {s t : ObsSource} {a : SourceAct}
    (hs : Waits final d s) (h : s.waitStep a = some t) :
    a.isDecode = false ∧ t.decoders d = s.decoders d ∧ t.decode = s.decode ∨
      ∃ ok, a = .decode ok ∧ s.decodeStep ok = some t := by
  obtain ⟨hstep, heq⟩ := Option.filter_eq_some_iff.mp h
  have hvideo := (of_decide_eq_true heq).trans hs.video
  cases obsSource_move hstep with
  | video hm =>
    refine .inl ⟨rfl, ?_⟩
    cases hm
    case wait final' e p hpc hp =>
      obtain ⟨rfl, rfl⟩ : final' = final ∧ e = d := by simpa [hpc] using hs.video
      cases step_move hp with
      | recv hr =>
        cases hr
        case wait hrel => exact ⟨Function.update_self .., rfl⟩
        case proceed hrel hw => cases hvideo
        all_goals simp_all [hs.releasing]
    all_goals simp_all [hs.video]
  | decode => exact .inr ⟨_, rfl, hstep⟩
  | stop | reset | flags => exact .inl ⟨rfl, rfl, rfl⟩

theorem due_congr {d : Nat} {s t : ObsSource} (hd : t.decoders d = s.decoders d)
    (hpc : t.decode = s.decode) : t.due d = s.due d := by
  unfold ObsSource.due
  rw [hd, hpc]

theorem afterDecode_working {d : Nat} {pc : DecodePc} (hi : pc ≠ .idle) (hc : pc ≠ .crashed) :
    afterDecode d pc = .working d := by
  cases pc
  case idle => exact absurd rfl hi
  case crashed => exact absurd rfl hc
  all_goals rfl

theorem decodeStep_lowers {final ok : Bool} {d : Nat} {s t : ObsSource} (hs : Waits final d s)
    (h : s.decodeStep ok = some t) : (t.decoders d).Full ∨ t.due d + 1 ≤ s.due d := by
  obtain ⟨hcalm, hold⟩ := unused_of_reachable hs.reach
  cases threadStep_move h
  case quit hpc | enter hpc => exact .inr (by simp [ObsSource.due, hpc])
  case loadNull hpc hd => simp [hs.current] at hd
  case load e hpc hd =>
    obtain rfl : d = e := by simpa [hs.current] using hd
    have hidle := hcalm.resolve_left (by simp [hpc]) d (by simp [hpc])
    exact .inr (by simp [ObsSource.due, hpc, hidle, DecodePc.due])
  case dangling e hpc hdel =>
    have hne : e ≠ d := fun h => by simp [h, hs.releasing] at hdel
    exact .inr (by simp [ObsSource.due, hpc, hne])
  case work e p hpc hlive hp =>
    by_cases he : e = d
    · subst he
      have hrun := hs.run.next hp
      have hcrash := decodePc_ne_crashed hrun
      have hp' : (s.decoders e).decodeStep ok = some p := by
        simpa [pipeline, Pipeline.step, hs.releasing] using hp
      have hdue : s.due e = (s.decoders e).due := by simp [ObsSource.due, Pipeline.due, hpc]
      rw [hdue]
      simp only [ObsSource.due, ObsSource.setDecoder, Function.update_self]
      obtain hfull | ⟨hidle, hle⟩ | ⟨hidle, hle⟩ := decodeStep_due hs.run hs.releasing hp'
      · exact .inl hfull
      · refine .inr ?_
        rw [hidle]
        exact hle
      · refine .inr ?_
        rw [afterDecode_working hidle hcrash]
        simpa [Pipeline.due] using hle
    · -- the thread is on a decoder of an earlier connection, which is deleted
      refine absurd (hold e (hs.attached.working e hpc) ?_) hlive
      simpa [hs.current] using Ne.symm he

/-- **Variant.** The decoding thread has to make fewer and fewer steps until all packets of the
decoder are back. -/
theorem waiting_variant (final : Bool) (d : Nat) :
    (⟨obsSource.Reachable, ObsSource.waitStep⟩ : Machine ObsSource SourceAct).Variant
      (Waits final d) (fun s => (s.decoders d).Full) SourceAct.isDecode (ObsSource.due d) where
  keeps s a t hs ht := by
    obtain ⟨hstep, heq⟩ := Option.filter_eq_some_iff.mp ht
    exact ⟨hs.reach.next hstep, (of_decide_eq_true heq).trans hs.video⟩
  stays s a t hs ht hfull := by
    obtain ⟨-, hd, -⟩ | ⟨ok, rfl, hstep⟩ := waitStep_cases hs ht
    · exact hd ▸ hfull
    · cases threadStep_move hstep
      case work e p hpc hlive hp =>
        show (Function.update s.decoders e p d).Full
        rw [Function.update_apply]
        split
        · rename_i he
          cases step_move hp with
          | decode _ hm => exact decodeMove_full hm (he ▸ hfull)
        · exact hfull
      all_goals exact hfull
  lowers s a t hs ht := by
    obtain ⟨ha, hd, hpc⟩ | ⟨ok, rfl, hstep⟩ := waitStep_cases hs ht
    · rw [due_congr hd hpc, ha]
      exact .inr (Nat.le_refl _)
    · exact decodeStep_lowers hs hstep

/-! ## The end of the wait -/

theorem decodeStep_video {ok : Bool} {s t : ObsSource} (h : s.decodeStep ok = some t) :
    t.video = s.video := by
  cases threadStep_move h <;> rfl

/-- The decoding thread ends on request only. -/
theorem ended_stopped {s : ObsSource} (h : obsSource.Reachable s) (hend : s.decode = .ended) :
    s.stopRequested = true := by
  refine h.invariant (I := fun s => s.decode = .ended → s.stopRequested = true) ?_
    (fun s a t hr hi hg hs hend => ?_) hend
  · rintro _ ⟨format, rfl⟩ hend
    cases hend
  · have hm := obsSource_move hs
    cases hm with
    | video hv =>
      have hpc : t.decode = s.decode := by
        cases hv
        case cleanup | exit => unfold ObsSource.closeValid; split <;> rfl
        all_goals rfl
      exact sourceMove_stop (.video hv) (hi (hpc ▸ hend))
    | @decode ok _ hd =>
      have hstep : s.decodeStep ok = some t := hs
      cases hd
      case quit hpc =>
        by_contra hstop
        simp only [ObsSource.decodeStep, hpc, Bool.not_eq_true] at hstep hstop
        simp [hstop] at hstep
      case work e p hpc hlive hp =>
        cases hp' : p.decodePc <;> simp [hp', afterDecode] at hend
      all_goals cases hend
    | stop => rfl
    | reset | flags => exact hi hend

/-- The test that ends the wait. -/
theorem wait_over {final : Bool} {d : Nat} {s : ObsSource} (hs : Waits final d s)
    (hover : (s.decoders d).Full ∨ s.stopRequested = true) (e : VideoEnv) :
    ∃ t, s.step (.video e) = some t ∧ t.video = .deleting final d := by
  have htest : ¬ ((s.decoders d).dec.recieveQueue.length < (s.decoders d).dec.allocCount ∧
      s.stopRequested = false) := by
    rintro ⟨hlt, hgo⟩
    rcases hover with hfull | hstop
    · exact absurd hfull (Nat.not_le_of_lt hlt)
    · simp [hstop] at hgo
  have hp : (s.decoders d).step (.recv { e.pipe with stop := s.stopRequested }) =
      some { s.decoders d with recvPc := .deleting } := by
    simp only [Pipeline.step, Pipeline.recvStep, hs.releasing, if_neg htest]
  refine ⟨{ s.setDecoder d { s.decoders d with recvPc := .deleting } with
    video := .deleting final d }, ?_, rfl⟩
  show s.videoStep e = _
  simp only [ObsSource.videoStep, hs.video, hp, afterWait]

/-- **`release_decoder` gets its packets back.** While `video_thread` waits for a decoder, the
decoding thread has at most eight steps to make for each packet that is queued and thirteen
besides, until every packet of the decoder is back and the wait ends; until then it can make its
next step, unless it has crashed. -/
theorem release_wait_ends {final : Bool} {d : Nat} {s : ObsSource} (h : obsSource.Reachable s)
    (hvideo : s.video = .releasing final d) {as : List SourceAct} {t : ObsSource}
    (hrun : as.foldlM ObsSource.waitStep s = some t) :
    (∀ e, ∃ u, t.step (.video e) = some u ∧ u.video = .deleting final d) ∨
      as.countP SourceAct.isDecode ≤ 8 * (s.decoders d).dec.decodeQueue.length + 13 ∧
        (t.decode = .faulted ∨ ∀ ok, ∃ u, t.waitStep (.decode ok) = some u) := by
  obtain ⟨hs, hrank⟩ := (waiting_variant final d).run ⟨h, hvideo⟩ hrun
  by_cases hover : (t.decoders d).Full ∨ t.stopRequested = true
  · exact .inl (wait_over hs hover)
  · refine .inr ⟨?_, or_iff_not_imp_left.mpr fun hok ok => ?_⟩
    · have hle := hrank.resolve_left fun hfull => hover (.inl hfull)
      have hdue := due_le d s
      omega
    · obtain ⟨u, hu⟩ := thread_some hs.attached hok
        (fun hend => hover (.inr (ended_stopped hs.reach hend))) ok
      exact ⟨u, Option.filter_eq_some_iff.mpr ⟨hu, decide_eq_true (decodeStep_video hu)⟩⟩

/-- The phone closes the connection while a frame waits for the decoding thread. -/
theorem release_wait_ends_frame : ∃ s t : ObsSource, s.video = .releasing false 0 ∧
    (s.decoders 0).dec.decodeQueue.length = 1 ∧
      (List.replicate 22 (.decode true)).foldlM ObsSource.waitStep s = some t ∧
        ∀ e, ∃ u, t.step (.video e) = some u ∧ u.video = .deleting false 0 := by
  obtain ⟨s, hs, hp⟩ := obsSource.reachable_of_replay
    (fun s => s.video = .releasing false 0 ∧ (s.decoders 0).dec.decodeQueue.length = 1 ∧
      ((List.replicate 22 (.decode true)).foldlM ObsSource.waitStep s).isSome = true)
    (.init .avc)
    (List.replicate 29 (.video (.quiet 5 ⟨encodeHeader 7 5 ++ [0, 0, 0, 1, 101], false, 0⟩)))
    ⟨_, rfl⟩ (by decide +kernel)
  obtain ⟨hvideo, hlen, hsome⟩ := of_decide_eq_true hp
  obtain ⟨t, hrun⟩ := Option.isSome_iff_exists.mp hsome
  refine ⟨s, t, hvideo, hlen, hrun, (release_wait_ends hs hvideo hrun).resolve_right fun hle => ?_⟩
  -- more steps than the packet needs
  have hcount := hle.1
  rw [hlen] at hcount
  exact absurd hcount (by decide)

end DroidcamWhip
