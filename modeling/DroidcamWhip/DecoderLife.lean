import DroidcamWhip.DecoderInit
import DroidcamWhip.ReleaseWait
import DroidcamWhip.Playback

/-!
The life of an `FFMpegDecoder` with what it has from the libraries: `Pipeline` says what the
two threads do with the decoder, `DecoderInit` what `init` and the destructor do.
-/

namespace DroidcamWhip

open Runs Custody

/-! ## The machine -/

/-- A decoder under the two threads. The last members record how often `init` was called, how
much `decode_video` has missed of what it works on, and whether `init` has crashed. -/
structure DecoderLife where
  pipe : Pipeline
  object : DecoderObject
  inits : Nat
  missed : Nat
  crashed : Bool

inductive LifeAct where
  | recv (e : Env) (a : InitAnswer)
  | leave
  | decode (ok : Bool)

namespace DecoderLife

def start (id : CodecId) (sock : Sock) : DecoderLife where
  pipe := .init (.ffmpeg id) sock
  object := .new
  inits := 0
  missed := 0
  crashed := false

/-- `recv_video_frame` at the initialisation of the decoder. -/
def initStep (target : BuildTarget) (id : CodecId) (useHw : Bool) (e : Env) (a : InitAnswer)
    (s : DecoderLife) : Option DecoderLife :=
  match DecoderObject.init target none id useHw a s.object with
  | none => some { s with crashed := true }
  | some (ret, o) =>
      (s.pipe.step (.recv { e with initOk := 0 ≤ ret })).map fun pipe =>
        { s with pipe := pipe, object := o, inits := s.inits + 1 }

def step (target : BuildTarget) (id : CodecId) (useHw : Bool) (s : DecoderLife) :
    LifeAct → Option DecoderLife
  | .recv e a =>
      if s.crashed then none
      else if s.pipe.initialises then s.initStep target id useHw e a
      else
        (s.pipe.step (.recv e)).map fun pipe =>
          { s with
            pipe := pipe
            object := match s.pipe.recvPc with
              | .deleting => s.object.destroy
              | _ => s.object }
  | .leave =>
      if s.crashed then none else (s.pipe.step .leave).map fun pipe => { s with pipe := pipe }
  | .decode ok =>
      if s.crashed then none
      else
        match s.pipe.recvPc, s.pipe.decodePc with
        | .deleted, .decoding _ =>
            -- a call of `decode_video` that is under way goes on behind the end
            some { s with missed := s.missed + s.object.missing }
        | _, pc =>
            (s.pipe.step (.decode ok)).map fun pipe =>
              { s with
                pipe := pipe
                missed := match pc with
                  | .decoding _ => s.missed + s.object.missing
                  | _ => s.missed }

end DecoderLife

/-- The runs of a decoder for the codec `id` on any connection. -/
def decoderLife (target : BuildTarget) (id : CodecId) (useHw : Bool) :
    Machine DecoderLife LifeAct where
  start s := ∃ sock, s = .start id sock
  step s a := s.step target id useHw a

/-- Contexts can be allocated, and no request to stop cuts the wait of `release_decoder`
short. -/
def Unhurried (s : DecoderLife) : LifeAct → Prop
  | .recv e a => a.context = true ∧ (s.pipe.recvPc = .releasing → e.stop = false)
  | _ => True

/-! ## Steps of the pipeline -/

theorem Pipeline.initialises_iff {s : Pipeline} :
    s.initialises = true ↔ (∃ a x, s.recvPc = .readyTest a x) ∧ s.dec.ready = false := by
  unfold initialises
  split
  · rename_i a x hpc
    simp [hpc]
  · rename_i hno
    simp only [Bool.false_eq_true, false_iff]
    rintro ⟨⟨a, x, hpc⟩, -⟩
    exact hno a x hpc

/-- An initialisation either fails for good or makes the decoder ready. -/
theorem init_flags {e : Env} {s t : Pipeline} (hinit : s.initialises = true)
    (ht : s.step (.recv e) = some t) :
    t.decodePc = s.decodePc ∧ t.dec.ready = e.initOk ∧ t.dec.failed = (s.dec.failed || !e.initOk) ∧
      (∀ a x, t.recvPc ≠ .readyTest a x) ∧ t.recvPc ≠ .deleted := by
  obtain ⟨⟨a, x, hpc⟩, hr⟩ := Pipeline.initialises_iff.mp hinit
  simp only [Pipeline.step, Pipeline.recvStep, hpc, hr] at ht
  cases he : e.initOk with
  | true =>
    rw [he] at ht
    cases ht
    exact ⟨rfl, rfl, by simp, by simp, by simp⟩
  | false =>
    rw [he] at ht
    cases ht
    exact ⟨rfl, rfl, by simp, by simp, by simp⟩

/-- What another step of the receiving thread does to the flags, and which tests lead to an
initialisation and to the end. -/
structure RecvFlags (s t : Pipeline) : Prop where
  ready : t.dec.ready = s.dec.ready
  failed : t.dec.failed = s.dec.failed
  testing : ∀ a x, t.recvPc = .readyTest a x → s.dec.failed = false
  deleted : t.recvPc = .deleted → s.recvPc = .deleting

theorem recvMove_flags {e : Env} {s t : Pipeline} (hm : RecvMove e s t)
    (hinit : s.initialises = false) : RecvFlags s t := by
  cases hm
  case short hf =>
    obtain ⟨p, rfl⟩ := fill_short hf
    exact ⟨rfl, rfl, nofun, nofun⟩
  case filled hf =>
    obtain ⟨p, rfl, -⟩ := fill_done hf
    exact ⟨rfl, rfl, nofun, nofun⟩
  case notFailed hf => exact ⟨rfl, rfl, fun _ _ _ => hf, nofun⟩
  case initOk a x hpc hr =>
    exact absurd (Pipeline.initialises_iff.mpr ⟨⟨a, x, hpc⟩, hr⟩) (by simp [hinit])
  case initFails a x hpc hr =>
    exact absurd (Pipeline.initialises_iff.mpr ⟨⟨a, x, hpc⟩, hr⟩) (by simp [hinit])
  case enqueue =>
    refine ⟨rfl, rfl, fun a x h => ?_, fun h => ?_⟩
    all_goals
      rcases afterEnqueue_cases s.dec.kind with h' | h' | h' <;>
        exact absurd (h'.symm.trans h) (by simp)
  case wait hpc => exact ⟨rfl, rfl, fun a x h => by simp [hpc] at h, fun h => by simp [hpc] at h⟩
  case delete hpc => exact ⟨rfl, rfl, nofun, fun _ => hpc⟩
  all_goals exact ⟨rfl, rfl, nofun, nofun⟩

/-- The decoding thread sleeps until the decoder is ready. -/
theorem decodeMove_unready {s t : Pipeline} (hu : Unready s) (hr : s.dec.ready = false)
    (hm : DecodeMove s t) : t = s := by
  have hidle := hu.idle hr
  cases hm
  case sleep => rfl
  case found hq => exact absurd (hu.queue hr) hq
  all_goals simp_all

theorem pipe_next {s t : Pipeline} {b : Act} (hr : pipeline.Reachable s)
    (h : s.step b = some t) : pipeline.Reachable t :=
  Machine.Reachable.next (a := b) hr h

theorem step_live {s t : Pipeline} {b : Act} (h : s.step b = some t) : s.recvPc ≠ .deleted := by
  intro hpc
  cases b with
  | recv e => simp [Pipeline.step, Pipeline.recvStep, hpc] at h
  | leave => simp [Pipeline.step, hpc] at h
  | decode ok => simp [Pipeline.step, hpc] at h

/-! ## What one step can do -/

/-- Every step of a decoder. -/
inductive LifeMove (target : BuildTarget) (id : CodecId) (useHw : Bool) (s : DecoderLife) :
    LifeAct → DecoderLife → Prop
  | crash {e a} (hinit : s.pipe.initialises = true)
      (ho : DecoderObject.init target none id useHw a s.object = none) :
      LifeMove target id useHw s (.recv e a) { s with crashed := true }
  | init {e a ret o pipe} (hinit : s.pipe.initialises = true)
      (ho : DecoderObject.init target none id useHw a s.object = some (ret, o))
      (hp : s.pipe.step (.recv { e with initOk := 0 ≤ ret }) = some pipe) :
      LifeMove target id useHw s (.recv e a)
        { s with pipe := pipe, object := o, inits := s.inits + 1 }
  | recv {e a pipe} (hinit : s.pipe.initialises = false) (hpc : s.pipe.recvPc ≠ .deleting)
      (hp : s.pipe.step (.recv e) = some pipe) :
      LifeMove target id useHw s (.recv e a) { s with pipe := pipe }
  | delete {e a pipe} (hinit : s.pipe.initialises = false) (hpc : s.pipe.recvPc = .deleting)
      (hp : s.pipe.step (.recv e) = some pipe) :
      LifeMove target id useHw s (.recv e a)
        { s with pipe := pipe, object := s.object.destroy }
  | leave {pipe} (hp : s.pipe.step .leave = some pipe) :
      LifeMove target id useHw s .leave { s with pipe := pipe }
  | behind {ok a} (hdel : s.pipe.recvPc = .deleted) (hpc : s.pipe.decodePc = .decoding a) :
      LifeMove target id useHw s (.decode ok) { s with missed := s.missed + s.object.missing }
  | call {ok pipe a} (hpc : s.pipe.decodePc = .decoding a)
      (hp : s.pipe.step (.decode ok) = some pipe) :
      LifeMove target id useHw s (.decode ok)
        { s with pipe := pipe, missed := s.missed + s.object.missing }
  | decode {ok pipe} (hp : s.pipe.step (.decode ok) = some pipe) :
      LifeMove target id useHw s (.decode ok) { s with pipe := pipe }

variable {target : BuildTarget} {id : CodecId} {useHw : Bool} {s t : DecoderLife}

theorem life_move {a : LifeAct} (h : (decoderLife target id useHw).step s a = some t) :
    s.crashed = false ∧ LifeMove target id useHw s a t := by
  change s.step target id useHw a = some t at h
  cases a with
  | recv e a =>
    simp only [DecoderLife.step] at h
    split at h
    · cases h
    · rename_i hcrashed
      refine ⟨Bool.eq_false_iff.mpr hcrashed, ?_⟩
      split at h
      · rename_i hinit
        unfold DecoderLife.initStep at h
        split at h
        · rename_i ho
          cases h
          exact .crash hinit ho
        · rename_i ret o ho
          obtain ⟨pipe, hp, rfl⟩ := Option.map_eq_some_iff.mp h
          exact .init hinit ho hp
      · rename_i hinit
        obtain ⟨pipe, hp, rfl⟩ := Option.map_eq_some_iff.mp h
        split
        · exact .delete (Bool.eq_false_iff.mpr hinit) ‹_› hp
        · exact .recv (Bool.eq_false_iff.mpr hinit) ‹_› hp
  | leave =>
    simp only [DecoderLife.step] at h
    split at h
    · cases h
    · rename_i hcrashed
      obtain ⟨pipe, hp, rfl⟩ := Option.map_eq_some_iff.mp h
      exact ⟨Bool.eq_false_iff.mpr hcrashed, .leave hp⟩
  | decode ok =>
    simp only [DecoderLife.step] at h
    split at h
    · cases h
    · rename_i hcrashed
      refine ⟨Bool.eq_false_iff.mpr hcrashed, ?_⟩
      split at h
      · rename_i hdel hpc
        cases h
        exact .behind hdel hpc
      · obtain ⟨pipe, hp, rfl⟩ := Option.map_eq_some_iff.mp h
        split
        · exact .call ‹_› hp
        · exact .decode hp

/-- **Refinement.** A decoder goes through a run of `pipeline`, whatever the libraries
answer. -/
theorem life_pipeline (h : (decoderLife target id useHw).Reachable s) :
    pipeline.Reachable s.pipe := by
  refine h.invariant (I := fun s => pipeline.Reachable s.pipe) ?_ fun s a t hr hi hg ht => ?_
  · rintro s ⟨sock, rfl⟩
    exact .start ⟨.ffmpeg id, sock, rfl⟩
  · obtain ⟨-, hm⟩ := life_move ht
    cases hm
    case crash | behind => exact hi
    case init _ _ hp | recv _ _ hp | delete _ _ hp => exact pipe_next hi hp
    case call _ hp => exact pipe_next hi hp
    case leave hp | decode hp => exact pipe_next hi hp

/-! ## The end of the wait -/

/-- The decoding thread holds no packet of a decoder that has them all back. -/
theorem hand_of_full {p : Pipeline} (hr : pipeline.Reachable p) (hfull : p.Full) :
    p.decodePc.hand = [] := by
  have howned := owned_of_reachable hr
  have htotal := howned.held.total
  simp only [Pipeline.places, List.map_cons, List.map_nil, List.sum_cons, List.sum_nil] at htotal
  unfold Pipeline.Full at hfull
  rw [howned.count] at hfull
  exact List.length_eq_zero_iff.mp (by omega)

/-- The wait of `release_decoder` ends with all packets back, if nothing cuts it short. -/
theorem recvMove_full {e : Env} {p q : Pipeline} (hm : RecvMove e p q)
    (hstop : p.recvPc = .releasing → e.stop = false) (hp : 2 ≤ p.recvPc.stage → p.Full)
    (hq : 2 ≤ q.recvPc.stage) : q.Full := by
  cases hm
  case wait hpc => exact hp hq
  case proceed hpc hw => exact hw.resolve_right (by simp [hstop hpc])
  case delete hpc => exact hp (by simp [hpc, RecvPc.stage])
  case enqueue =>
    rcases afterEnqueue_cases p.dec.kind with h | h | h <;> simp [h, RecvPc.stage] at hq
  all_goals exact absurd hq (by simp [RecvPc.stage])

theorem full_of_unhurried (h : (decoderLife target id useHw).Reach Unhurried s)
    (hs : 2 ≤ s.pipe.recvPc.stage) : s.pipe.Full := by
  revert hs
  refine h.invariant (I := fun s => 2 ≤ s.pipe.recvPc.stage → s.pipe.Full) ?_
    fun s a t _ hi hg ht => ?_
  · rintro s ⟨sock, rfl⟩ hs
    exact absurd hs (by simp [DecoderLife.start, Pipeline.init, RecvPc.stage])
  · obtain ⟨-, hm⟩ := life_move ht
    cases hm
    case crash | behind => exact hi
    case init e a ret o pipe hinit ho hp => 
      exact recvMove_full (recvStep_move hp) hg.2 hi
    case recv e a pipe hinit hpc hp => exact recvMove_full (recvStep_move hp) hg.2 hi
    case delete e a pipe hinit hpc hp => exact recvMove_full (recvStep_move hp) hg.2 hi
    case leave pipe hp =>
      simp only [Pipeline.step] at hp
      split at hp
      · cases hp
        exact fun hs => absurd hs (by simp [RecvPc.stage])
      · cases hp
    case call ok pipe a hpc hp | decode ok pipe hp =>
      have hd := decodeMove_of_step hp
      intro hs
      rw [(decodeMove_record hd).1] at hs
      exact decodeMove_full hd (hi hs)

/-! ## Every run -/

/-- `init` has succeeded on the object. -/
def DecoderObject.Ready (id : CodecId) (o : DecoderObject) : Prop :=
  ∃ device fmt a, o.Equipped id device fmt a

/-- Nothing is missing of what `decode_video` works on. -/
theorem DecoderObject.Ready.missing_eq {o : DecoderObject} (h : o.Ready id) (hfreed : o.freed = []) :
    o.missing = 0 := by
  obtain ⟨device, fmt, a, heq⟩ := h
  obtain ⟨packet, hpacket⟩ := Option.isSome_iff_exists.mp heq.packet
  obtain ⟨frame, hframe⟩ := Option.isSome_iff_exists.mp heq.frame
  obtain ⟨d, hd, -⟩ := heq.decoder
  have hthere : ∀ i ∈ o.uses, i.isSome = true := by
    intro i hi
    simp only [uses, List.mem_append, List.mem_cons, List.not_mem_nil, or_false] at hi
    rcases hi with ((rfl | rfl) | hi) | rfl
    · exact heq.packet
    · simp [hd]
    · split at hi
      · rw [List.mem_singleton.mp hi, heq.frameHw]
        assumption
      · cases hi
    · exact heq.frame
  refine List.length_eq_zero_iff.mpr (List.filter_eq_nil_iff.mpr fun i hi => ?_)
  obtain ⟨j, rfl⟩ := Option.isSome_iff_exists.mp (hthere i hi)
  simp [hfreed]

/-- Until it is deleted, a decoder owns what was handed out for it; it is new until `init` is
called, which happens once, and then it is ready or has failed. -/
structure LifeSound (id : CodecId) (s : DecoderLife) : Prop where
  owned : s.object.Owned
  freed : s.pipe.recvPc ≠ .deleted → s.object.freed = []
  fresh : s.pipe.dec.ready = false → s.pipe.dec.failed = false →
    s.object = .new ∧ s.inits = 0
  ready : s.pipe.dec.ready = true → s.pipe.recvPc ≠ .deleted → s.object.Ready id
  once : s.inits ≤ 1
  testing : ∀ a x, s.pipe.recvPc = .readyTest a x → s.pipe.dec.ready = false →
    s.pipe.dec.failed = false
  gone : s.pipe.recvPc = .deleted → s.object.kept = []
  missed : s.missed = 0
  crashed : s.crashed = false

theorem lifeSound_start (id : CodecId) (sock : Sock) : LifeSound id (.start id sock) :=
  ⟨DecoderObject.owned_new, fun _ => rfl, fun _ _ => ⟨rfl, rfl⟩, nofun, Nat.zero_le _, nofun, nofun,
    rfl, rfl⟩

/-- `init` is called for a decoder that is new. -/
theorem LifeSound.init_new (h : LifeSound id s) (hinit : s.pipe.initialises = true) :
    s.object = .new ∧ s.inits = 0 := by
  obtain ⟨⟨a, x, hpc⟩, hr⟩ := Pipeline.initialises_iff.mp hinit
  exact h.fresh hr (h.testing a x hpc hr)

theorem LifeSound.decodes (hu : Unready s.pipe) (h : LifeSound id s) {pipe : Pipeline}
    (hm : DecodeMove s.pipe pipe) : LifeSound id { s with pipe := pipe } := by
  obtain ⟨hpc, -⟩ := decodeMove_record hm
  have hready := decodeMove_ready hm
  cases hr : s.pipe.dec.ready with
  | false =>
    obtain rfl := decodeMove_unready hu hr hm
    exact h
  | true =>
    rw [hr] at hready
    exact { h with
      freed := fun hlive => h.freed (hpc ▸ hlive)
      fresh := fun hno => absurd hready (Bool.eq_false_iff.mp hno)
      ready := fun _ hlive => h.ready hr (hpc ▸ hlive)
      testing := fun _ _ _ hno => absurd hready (Bool.eq_false_iff.mp hno)
      gone := fun hdel => h.gone (hpc ▸ hdel) }

theorem lifeSound_step (hr : (decoderLife target id useHw).Reach Unhurried s)
    (h : LifeSound id s) {a : LifeAct}
    (hg : Unhurried s a) (ht : (decoderLife target id useHw).step s a = some t) :
    LifeSound id t := by
  have hrun := life_pipeline hr.reachable
  have hu := unready_of_reachable hrun
  obtain ⟨-, hm⟩ := life_move ht
  cases hm
  case crash e a hinit ho =>
    have hspec := DecoderObject.init_spec target none id useHw a
    rw [(h.init_new hinit).1] at ho
    rw [ho] at hspec
    exact absurd hg.1 (Bool.eq_false_iff.mp hspec.2)
  case init e a ret o pipe hinit ho hp =>
    obtain ⟨hnew, hinits⟩ := h.init_new hinit
    have hspec := DecoderObject.init_spec target none id useHw a
    rw [hnew] at ho
    rw [ho] at hspec
    obtain ⟨hown, hfreed, hnone, hout⟩ := hspec
    obtain ⟨-, hready, hfailed, htesting, hlive⟩ := init_flags hinit hp
    refine ⟨hown, fun _ => hfreed, fun hr hf => ?_, fun hr _ => ?_, by simp [hinits],
      fun a x hpc => absurd hpc (htesting a x), fun hdel => absurd hdel hlive, h.missed, h.crashed⟩
    · rw [hready] at hr
      rw [hfailed, hr] at hf
      simp at hf
    · have hret : 0 ≤ ret := by simpa [hready] using hr
      cases hc : a.codec with
      | none => exact absurd hret (by simp [hnone hc])
      | some c => exact ⟨_, _, _, (hout c hc (.inl hret)).equipped hret⟩
  case recv e a pipe hinit hpc hp =>
    have hlive := step_live hp
    obtain ⟨hready, hfailed, htesting, hdeleted⟩ := recvMove_flags (recvStep_move hp) hinit
    exact { h with
      freed := fun _ => h.freed hlive
      fresh := fun hr hf => h.fresh (hready ▸ hr) (hfailed ▸ hf)
      ready := fun hr _ => h.ready (hready ▸ hr) hlive
      testing := fun a x ht _ => hfailed.trans (htesting a x ht)
      gone := fun hdel => absurd (hdeleted hdel) hpc }
  case delete e a pipe hinit hpc hp =>
    simp only [Pipeline.step, Pipeline.recvStep, hpc] at hp
    cases hp
    obtain ⟨hown, hkept⟩ := h.owned.destroy
    exact { h with
      owned := hown
      freed := fun hlive => absurd rfl hlive
      fresh := fun hr hf => ⟨by rw [(h.fresh hr hf).1]; rfl, (h.fresh hr hf).2⟩
      ready := fun _ hlive => absurd rfl hlive
      testing := by simp
      gone := fun _ => hkept }
  case leave pipe hp =>
    have hlive := step_live hp
    simp only [Pipeline.step] at hp
    split at hp
    · cases hp
      exact { h with
        freed := fun _ => h.freed hlive
        ready := fun hr _ => h.ready hr hlive
        testing := by simp
        gone := by simp }
    · cases hp
  case behind ok a hdel hpc =>
    have hhand := hand_of_full hrun (full_of_unhurried hr (by simp [hdel, RecvPc.stage]))
    simp [hpc, DecodePc.hand] at hhand
  case call ok pipe a hpc hp =>
    have hlive := step_live hp
    have hready : s.pipe.dec.ready = true := by
      by_contra hno
      have hidle := hu.idle (Bool.eq_false_iff.mpr hno)
      simp [hpc] at hidle
    have hmissing := (h.ready hready hlive).missing_eq (h.freed hlive)
    exact { h.decodes hu (decodeMove_of_step hp) with
      missed := by rw [hmissing, h.missed] }
  case decode ok pipe hp => exact h.decodes hu (decodeMove_of_step hp)

theorem lifeSound (h : (decoderLife target id useHw).Reach Unhurried s) : LifeSound id s := by
  refine h.invariant (I := LifeSound id) ?_ fun s a t hr hi hg ht => lifeSound_step hr hi hg ht
  rintro s ⟨sock, rfl⟩
  exact lifeSound_start id sock

/-- **What a decoder works with.** In every run of a decoder whose release is not cut short by
a request to stop, at whichever point `init` gives up and however the two threads are
interleaved: `init` is called at most once, packets are only queued for the codec it has found,
`decode_video` finds everything it works on, nothing is given back before the end, and there
everything is, once. -/
theorem decoder_objects (h : (decoderLife target id useHw).Reach Unhurried s) :
    s.crashed = false ∧ s.inits ≤ 1 ∧ s.missed = 0 ∧
      (s.pipe.recvPc ≠ .deleted → s.object.freed = [] ∧
        (s.pipe.dec.decodeQueue ≠ [] → s.object.codec = some id)) ∧
      (s.object.kept ++ s.object.freed).Perm (List.range s.object.made) ∧
      (s.pipe.recvPc = .deleted → s.object.freed.Perm (List.range s.object.made)) := by
  have hs := lifeSound h
  have hperm := (held_iff_perm _ _).mp hs.owned
  simp only [List.flatten_cons, List.flatten_nil, List.append_nil] at hperm
  refine ⟨hs.crashed, hs.once, hs.missed, fun hlive => ⟨hs.freed hlive, fun hqueue => ?_⟩, hperm,
    fun hdel => ?_⟩
  · have hu := unready_of_reachable (life_pipeline h.reachable)
    have hready : s.pipe.dec.ready = true := by
      by_contra hno
      exact hqueue (hu.queue (Bool.eq_false_iff.mpr hno))
    obtain ⟨device, fmt, a, heq⟩ := hs.ready hready hlive
    exact heq.codec
  · rwa [hs.gone hdel, List.nil_append] at hperm

/-- A key frame is received and decoded with VA-API, and the decoder is released. -/
def vaapiActs : List LifeAct :=
  List.replicate 9 (.recv .quiet .vaapi) ++ List.replicate 5 (.decode true) ++ [.leave] ++
    List.replicate 2 (.recv .quiet .vaapi)

/-- A decision procedure for the guard. -/
def unhurried (s : DecoderLife) : LifeAct → Bool
  | .recv e a =>
      a.context && match s.pipe.recvPc with
        | .releasing => !e.stop
        | _ => true
  | _ => true

theorem unhurried_spec (s : DecoderLife) (a : LifeAct) (h : unhurried s a = true) :
    Unhurried s a := by
  cases a with
  | recv e a =>
    simp only [unhurried, Bool.and_eq_true] at h
    refine ⟨h.1, fun hpc => ?_⟩
    simpa [hpc] using h.2
  | leave => trivial
  | decode ok => trivial

theorem decoder_objects_vaapi : ∃ s : DecoderLife, s.pipe.decoded.length = 1 ∧ s.missed = 0 ∧
    s.object.freed.Perm (List.range 6) := by
  obtain ⟨s, hs, hp⟩ := (decoderLife .linux .h264 true).reach_of_replay (G := Unhurried) unhurried
    (fun s => s.object.made = 6 ∧ s.pipe.recvPc.stage = 3 ∧ s.pipe.decoded.length = 1)
    (.start .h264 ⟨encodeHeader 7 5 ++ [0, 0, 0, 1, 101], false, 0⟩) vaapiActs
    unhurried_spec (.start ⟨_, rfl⟩) (by decide +kernel)
  obtain ⟨hmade, hstage, hlen⟩ := of_decide_eq_true hp
  have hdel : s.pipe.recvPc = .deleted := by
    cases hpc : s.pipe.recvPc <;> simp [hpc, RecvPc.stage] at hstage
    rfl
  obtain ⟨-, -, hmissed, -, -, hfreed⟩ := decoder_objects hs
  exact ⟨s, hlen, hmissed, hmade ▸ hfreed hdel⟩

/-- The same frame, and a request to stop while `decode_video` is at work: the codec's
context, the packet and both frames are gone under it. -/
def hurriedActs : List LifeAct :=
  List.replicate 9 (.recv .quiet .vaapi) ++ List.replicate 3 (.decode true) ++ [.leave] ++
    List.replicate 2 (.recv { Env.quiet with stop := true } .vaapi) ++ [.decode true]

theorem hurried_missed :
    ∃ s : DecoderLife, (decoderLife .linux .h264 true).Reachable s ∧ s.missed = 4 := by
  obtain ⟨s, hs, hp⟩ := (decoderLife .linux .h264 true).reachable_of_replay
    (fun s => s.missed = 4) (.start .h264 ⟨encodeHeader 7 5 ++ [0, 0, 0, 1, 101], false, 0⟩)
    hurriedActs ⟨_, rfl⟩ (by decide +kernel)
  exact ⟨s, hs, of_decide_eq_true hp⟩

end DroidcamWhip
