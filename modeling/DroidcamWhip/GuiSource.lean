import DroidcamWhip.GuiSession
import DroidcamWhip.Shutdown

/-!
The GUI mode together with the source: `droidcam_source_start` and `droidcam_source_stop` in
the thread of a session, and how the wait of the main thread for that thread ends.
-/

namespace DroidcamWhip

open CString Runs

/-! ## The code -/

/-- The GUI mode and the source that `droidcam_source_start` has allocated, until it is
deleted. -/
structure GuiRun where
  app : GuiApp
  source : Option ObsSource

/-- A step of the GUI mode, or of one of the threads of the source. -/
inductive GuiRunAct where
  | gui (a : GuiAct)
  | source (a : SourceAct)

namespace GuiRun

/-- The end of `droidcam_source_stop`, behind the joins and `release_decoder`. -/
def freeSource (r : GuiRun) (o : ObsSource) : Option GuiRun :=
  if o.video = .finished then (r.app.workerStep false).map fun app => ⟨app, none⟩ else none

/-- `gui_pipeline_thread`, with the result of `pthread_create` where it is called next. -/
def threadStep (r : GuiRun) (ok : Bool) : Option GuiRun :=
  match r.app.worker, r.source with
  | some .starting, none =>
      if ok then some { r with source := some (.init r.app.config.values.videoFormat) }
      else (r.app.workerStep false).map fun app => ⟨app, none⟩
  | some .starting, some o =>
      if o.stopRequested then r.freeSource o
      else if ok then (r.app.workerStep true).map fun app => ⟨app, some o⟩
      -- there is no `video_decode_thread` to join
      else some { r with source := some { o with stopRequested := true, decode := .ended } }
  | some .stopping, some o =>
      if o.stopRequested then r.freeSource o
      else some { r with source := some { o with stopRequested := true } }
  | _, source => (r.app.workerStep ok).map fun app => ⟨app, source⟩

/-- A step of the source, whose decoding thread is created last. -/
def sourceStep (r : GuiRun) (a : SourceAct) : Option GuiRun :=
  match r.source, a with
  | none, _ | some _, .stop => none
  | some o, .decode ok =>
      if r.app.worker = some .starting then none
      else (o.step (.decode ok)).map fun o => { r with source := some o }
  | some o, a => (o.step a).map fun o => { r with source := some o }

def step (r : GuiRun) : GuiRunAct → Option GuiRun
  | .gui (.worker ok) => r.threadStep ok
  | .gui a => (r.app.step a).map fun app => { r with app }
  | .source a => r.sourceStep a

end GuiRun

def guiRun : Machine GuiRun GuiRunAct where
  start r := r.app.Fresh ∧ r.source = none
  step r a := r.step a

/-! ## One thread -/

/-- Where `gui_pipeline_thread` goes on. -/
def WorkerPc.next (stop start : Bool) : WorkerPc → Option WorkerPc
  | .connecting => some .starting
  | .starting => if start then some .connected else some .failed
  | .failed => some .ended
  | .connected => some .waiting
  | .waiting => if stop then some .stopping else some .waiting
  | .stopping => some .stopped
  | .stopped => some .ended
  | .ended => none

theorem WorkerPc.next_holding {stop start : Bool} {w w' : WorkerPc} (hstart : w ≠ .starting)
    (hstop : w ≠ .stopping) (h : w.next stop start = some w') : w'.Holding ↔ w.Holding := by
  cases w with
  | starting => exact absurd rfl hstart
  | stopping => exact absurd rfl hstop
  | waiting =>
    cases stop <;> cases h <;> exact Iff.rfl
  | ended => cases h
  | _ =>
    cases h
    exact Iff.rfl

namespace GuiApp

variable {s t : GuiApp}

/-- A step of the thread, which it can make before its end, moves nothing but the thread. -/
theorem workerStep_next {w : WorkerPc} (hw : s.worker = some w) (start : Bool) :
    (s.workerStep start).map (fun t => (t.worker, t.main, t.stopRequested, t.threadActive)) =
      (w.next s.stopRequested start).map
        fun w' => (some w', s.main, s.stopRequested, s.threadActive) := by
  unfold workerStep
  rw [hw]
  cases w with
  | starting => cases start <;> rfl
  | waiting => cases hstop : s.stopRequested <;> simp [WorkerPc.next, touch, hstop, hw]
  | _ => rfl

/-- What the thread does to its own place. -/
theorem workerStep_eq {start : Bool} (ht : s.workerStep start = some t) :
    ∃ w w', s.worker = some w ∧ w.next s.stopRequested start = some w' ∧ t.worker = some w' ∧
      t.main = s.main ∧ t.stopRequested = s.stopRequested := by
  cases hw : s.worker with
  | none => simp [workerStep, hw] at ht
  | some w =>
    have hnext := workerStep_next hw start
    rw [ht, Option.map_some] at hnext
    obtain ⟨w', hw', hall⟩ := Option.map_eq_some_iff.mp hnext.symm
    simp only [Prod.mk.injEq] at hall
    exact ⟨w, w', rfl, hw', hall.1.symm, hall.2.1.symm, hall.2.2.1.symm⟩

theorem workerStep_some {w : WorkerPc} (hw : s.worker = some w) (hend : w ≠ .ended)
    (start : Bool) : ∃ t, s.workerStep start = some t := by
  have hnext := workerStep_next hw start
  have hsome : (w.next s.stopRequested start).isSome = true := by
    cases w with
    | starting => cases start <;> rfl
    | waiting => cases s.stopRequested <;> rfl
    | ended => exact absurd rfl hend
    | _ => rfl
  rw [← Option.isSome_iff_exists, ← Option.isSome_map, hnext, Option.isSome_map, hsome]

theorem requestStart_worker (hc : s.Consistent) (create : Bool) :
    (s.requestStart create).worker = s.worker ∨
      (s.worker = none ∧ (s.requestStart create).worker = some .connecting) := by
  unfold requestStart
  by_cases hrun : s.running = true
  · rw [if_pos hrun]
    exact .inl rfl
  · rw [if_neg hrun, guiStartPipeline]
    by_cases hactive : s.threadActive = true
    · rw [if_pos hactive]
      exact .inl rfl
    · have hworker : s.worker = none := by
        rw [hc.active, Bool.not_eq_true, Option.isSome_eq_false_iff] at hactive
        exact Option.isNone_iff_eq_none.mp hactive
      rw [if_neg hactive]
      cases create with
      | false => exact .inl rfl
      | true => exact .inr ⟨hworker, rfl⟩

/-- The other threads create the thread, take it away when it has ended, or leave it. -/
theorem step_worker (hc : s.Consistent) {a : GuiAct} (ha : ∀ start, a ≠ .worker start)
    (ht : s.step a = some t) :
    t.worker = s.worker ∨ (s.worker = none ∧ t.worker = some .connecting) ∨
      (s.worker = some .ended ∧ t.worker = none) := by
  have hresume : ∀ j (u : GuiApp), (resume j u).worker = u.worker := by
    intro j u
    cases j <;> rfl
  have hstop : ∀ j, (s.guiStopPipeline j (resume j)).worker = s.worker := by
    intro j
    unfold guiStopPipeline
    split
    · rfl
    · exact hresume j s
  cases a with
  | worker start => exact absurd rfl (ha start)
  | connect create =>
    simp only [step] at ht
    split at ht
    · cases ht
    · split at ht <;> cases ht
      · exact .inl (hstop .connect)
      · exact (requestStart_worker hc create).imp_right .inl
  | join =>
    simp only [step] at ht
    split at ht
    · split at ht
      · rename_i hended
        cases ht
        exact .inr (.inr ⟨hended, hresume _ _⟩)
      · cases ht
    · cases ht
  | close =>
    simp only [step] at ht
    split at ht
    · cases ht
    · split at ht <;> cases ht
      · exact .inl (hstop .close)
      · exact .inl rfl
  | exit =>
    simp only [step] at ht
    split at ht <;> cases ht
    exact .inl (hstop .exit)
  | _ =>
    simp only [step] at ht
    split at ht <;> cases ht
    exact .inl rfl

end GuiApp

/-! ## The thread and its source -/

namespace GuiRun

/-- The source is there as long as the thread has it, from the call of
`droidcam_source_start` on, and is told to stop by the thread only. -/
structure Linked (r : GuiRun) : Prop where
  app : guiApp.Reachable r.app
  runs : ∀ o ∈ r.source, obsSource.Reachable o
  held : ∀ w ∈ r.app.worker, w.Holding → r.source ≠ none
  owned : r.source ≠ none → ∃ w ∈ r.app.worker, w = .starting ∨ w.Holding
  early : r.app.worker = some .starting → ∀ o ∈ r.source,
    o.decode = if o.stopRequested then .ended else .top
  told : ∀ o ∈ r.source, o.stopRequested = true →
    r.app.worker = some .starting ∨ r.app.worker = some .stopping

/-- Every step of the thread of a session. -/
inductive SessionMove (ok : Bool) (r : GuiRun) : GuiRun → Prop
  | create (hpc : r.app.worker = some .starting) (hs : r.source = none) :
      SessionMove ok r { r with source := some (.init r.app.config.values.videoFormat) }
  | giveUp {app} (hpc : r.app.worker = some .starting) (hs : r.source = none)
      (hstep : r.app.workerStep false = some app) : SessionMove ok r ⟨app, none⟩
  | start {app o} (hpc : r.app.worker = some .starting) (hs : r.source = some o)
      (hstop : o.stopRequested = false) (hstep : r.app.workerStep true = some app) :
      SessionMove ok r ⟨app, some o⟩
  | cutShort {o} (hpc : r.app.worker = some .starting) (hs : r.source = some o)
      (hstop : o.stopRequested = false) :
      SessionMove ok r { r with source := some { o with stopRequested := true, decode := .ended } }
  | ask {o} (hpc : r.app.worker = some .stopping) (hs : r.source = some o)
      (hstop : o.stopRequested = false) :
      SessionMove ok r { r with source := some { o with stopRequested := true } }
  | free {app o} (hpc : r.app.worker = some .starting ∨ r.app.worker = some .stopping)
      (hs : r.source = some o) (hstop : o.stopRequested = true) (hend : o.video = .finished)
      (hstep : r.app.workerStep false = some app) : SessionMove ok r ⟨app, none⟩
  | other {app w} (hw : r.app.worker = some w) (hpc : w ≠ .starting)
      (hs : w = .stopping → r.source = none) (hstep : r.app.workerStep ok = some app) :
      SessionMove ok r ⟨app, r.source⟩

variable {r t : GuiRun}

theorem freeSource_eq {o : ObsSource} (h : r.freeSource o = some t) :
    o.video = .finished ∧ ∃ app, r.app.workerStep false = some app ∧ t = ⟨app, none⟩ := by
  unfold freeSource at h
  split at h
  · obtain ⟨app, happ, rfl⟩ := Option.map_eq_some_iff.mp h
    exact ⟨‹_›, app, happ, rfl⟩
  · cases h

theorem session_move {ok : Bool} (h : r.threadStep ok = some t) : SessionMove ok r t := by
  unfold threadStep at h
  split at h
  case h_1 hpc hs =>
    split at h
    · cases h
      exact .create hpc hs
    · obtain ⟨app, happ, rfl⟩ := Option.map_eq_some_iff.mp h
      exact .giveUp hpc hs happ
  case h_2 o hpc hs =>
    split at h
    · obtain ⟨hend, app, happ, rfl⟩ := freeSource_eq h
      exact .free (.inl hpc) hs ‹_› hend happ
    · rename_i hstop
      rw [Bool.not_eq_true] at hstop
      split at h
      · obtain ⟨app, happ, rfl⟩ := Option.map_eq_some_iff.mp h
        exact .start hpc hs hstop happ
      · cases h
        exact .cutShort hpc hs hstop
  case h_3 o hpc hs =>
    split at h
    · obtain ⟨hend, app, happ, rfl⟩ := freeSource_eq h
      exact .free (.inr hpc) hs ‹_› hend happ
    · rename_i hstop
      cases h
      exact .ask hpc hs (Bool.eq_false_iff.mpr hstop)
  case h_4 hnone hsome hstopping =>
    obtain ⟨app, happ, rfl⟩ := Option.map_eq_some_iff.mp h
    cases hw : r.app.worker with
    | none => simp [GuiApp.workerStep, hw] at happ
    | some w =>
      refine .other hw ?_ ?_ happ
      · rintro rfl
        cases hs : r.source with
        | none => exact hnone hw hs
        | some o => exact hsome o hw hs
      · rintro rfl
        cases hs : r.source with
        | none => rfl
        | some o => exact absurd hs (hstopping o hw)

theorem Linked.goes (h : r.Linked) {app : GuiApp} (happ : guiApp.Reachable app)
    (hw : app.worker = r.app.worker ∨ (r.app.worker = none ∧ app.worker = some .connecting) ∨
      (r.app.worker = some .ended ∧ app.worker = none)) : Linked { r with app := app } := by
  have hidle : app.worker = r.app.worker ∨ (r.source = none ∧
      (app.worker = some .connecting ∨ app.worker = none)) := by
    rcases hw with hw | ⟨hw, hnext⟩ | ⟨hw, hnext⟩
    · exact .inl hw
    · refine .inr ⟨?_, .inl hnext⟩
      by_contra hs
      obtain ⟨w, hmem, -⟩ := h.owned hs
      rw [hw] at hmem
      cases hmem
    · refine .inr ⟨?_, .inr hnext⟩
      by_contra hs
      obtain ⟨w, hmem, hpc⟩ := h.owned hs
      rw [hw] at hmem
      cases hmem
      rcases hpc with hpc | hpc
      · cases hpc
      · exact hpc
  rcases hidle with hsame | ⟨hnone, hnext⟩
  · exact ⟨happ, h.runs, hsame ▸ h.held, hsame ▸ h.owned, hsame ▸ h.early, hsame ▸ h.told⟩
  · have hno : ∀ o, o ∉ r.source := by simp [hnone]
    refine ⟨happ, h.runs, fun w hmem hhold => ?_, fun hs => absurd hnone hs,
      fun _ o ho => absurd ho (hno o), fun o ho => absurd ho (hno o)⟩
    rcases hnext with hnext | hnext
    · rw [show app.worker = some .connecting from hnext] at hmem
      cases hmem
      exact hhold.elim
    · rw [show app.worker = none from hnext] at hmem
      cases hmem

/-- The thread without a source. -/
theorem Linked.without {app : GuiApp} (happ : guiApp.Reachable app) {w : WorkerPc}
    (hw : app.worker = some w) (hhold : ¬ w.Holding) : Linked ⟨app, none⟩ where
  app := happ
  runs o ho := absurd ho (by simp)
  held v hv hhold' := by
    rw [show app.worker = some w from hw] at hv
    cases hv
    exact absurd hhold' hhold
  owned hs := absurd rfl hs
  early _ o ho := absurd ho (by simp)
  told o ho := absurd ho (by simp)

/-- Outside of `droidcam_source_start` the source is there as long as the thread has it. -/
theorem Linked.source_iff (h : r.Linked) {w : WorkerPc} (hw : r.app.worker = some w)
    (hpc : w ≠ .starting) : r.source ≠ none ↔ w.Holding := by
  refine ⟨fun hsome => ?_, h.held w hw⟩
  obtain ⟨v, hmem, hpc' | hhold⟩ := h.owned hsome
  · cases hw.symm.trans hmem
    exact absurd hpc' hpc
  · cases hw.symm.trans hmem
    exact hhold

/-- A source without a decoding thread is like one whose thread has looked at the flag at once. -/
theorem Linked.cutShort (h : r.Linked) (hpc : r.app.worker = some .starting) {o : ObsSource}
    (hs : r.source = some o) (hstop : o.stopRequested = false) :
    obsSource.Reachable { o with stopRequested := true, decode := .ended } := by
  have hdecode : o.decode = .top := by
    have hearly := h.early hpc o hs
    rwa [hstop] at hearly
  have hasked : obsSource.Reachable { o with stopRequested := true } :=
    (h.runs o hs).next (a := .stop) rfl
  have hended : ObsSource.step { o with stopRequested := true } (.decode true) =
      some { o with stopRequested := true, decode := .ended } := by
    simp [ObsSource.step, ObsSource.decodeStep, hdecode]
  exact hasked.next (a := .decode true) hended

theorem linked_session (h : r.Linked) {ok : Bool} (hm : SessionMove ok r t) : t.Linked := by
  cases hm with
  | create hpc hs =>
    exact ⟨h.app, fun o ho => by cases ho; exact .start ⟨_, rfl⟩, fun _ _ _ => Option.some_ne_none _,
      fun _ => ⟨.starting, hpc, .inl rfl⟩, fun _ o ho => by cases ho; rfl,
      fun o ho hstop => by cases ho; cases hstop⟩
  | giveUp hpc hs hstep =>
    obtain ⟨w, w', hw, hnext, hw', -⟩ := GuiApp.workerStep_eq hstep
    cases hpc.symm.trans hw
    cases hnext
    exact .without (h.app.next (a := .worker false) hstep) hw' id
  | @start app o hpc hs hstop hstep =>
    obtain ⟨w, w', hw, hnext, hw', -⟩ := GuiApp.workerStep_eq hstep
    cases hpc.symm.trans hw
    cases hnext
    refine ⟨h.app.next (a := .worker true) hstep, hs ▸ h.runs, fun _ _ _ => Option.some_ne_none _,
      fun _ => ⟨.connected, hw', .inr trivial⟩, fun hstart => ?_, fun o' ho hstop' => ?_⟩
    · cases hw'.symm.trans hstart
    · cases ho
      rw [hstop] at hstop'
      cases hstop'
  | @cutShort o hpc hs hstop =>
    refine ⟨h.app, fun o' ho => ?_, fun _ _ _ => Option.some_ne_none _,
      fun _ => ⟨.starting, hpc, .inl rfl⟩, fun _ o' ho => ?_, fun _ _ _ => .inl hpc⟩
    · cases ho
      exact h.cutShort hpc hs hstop
    · cases ho
      rfl
  | @ask o hpc hs hstop =>
    refine ⟨h.app, fun o' ho => ?_, fun _ _ _ => Option.some_ne_none _,
      fun _ => ⟨.stopping, hpc, .inr trivial⟩, fun hstart => ?_, fun _ _ _ => .inr hpc⟩
    · cases ho
      exact (h.runs o hs).next (a := .stop) rfl
    · cases hpc.symm.trans hstart
  | free hpc hs hstop hend hstep =>
    obtain ⟨w, w', hw, hnext, hw', -⟩ := GuiApp.workerStep_eq hstep
    refine .without (h.app.next (a := .worker false) hstep) hw' ?_
    rcases hpc with hpc | hpc
    · cases hpc.symm.trans hw
      cases hnext
      exact id
    · cases hpc.symm.trans hw
      cases hnext
      exact id
  | @other app w hw hpc hs hstep =>
    obtain ⟨v, w', hv, hnext, hw', -⟩ := GuiApp.workerStep_eq hstep
    cases hw.symm.trans hv
    have hrun : w ≠ .stopping := fun hstop =>
      h.held w hw (by rw [hstop]; trivial) (hs hstop)
    have hkeep := h.source_iff hw hpc
    have hsame := WorkerPc.next_holding hpc hrun hnext
    refine ⟨h.app.next (a := .worker ok) hstep, h.runs, fun v hmem hhold => ?_, fun hsome => ?_,
      fun hstart => ?_, fun o ho hstop => ?_⟩
    · cases hw'.symm.trans hmem
      exact hkeep.mpr (hsame.mp hhold)
    · exact ⟨w', hw', .inr (hsame.mpr (hkeep.mp hsome))⟩
    · cases hw'.symm.trans hstart
      have hidle : r.source = none := by
        rw [← not_ne_iff, hkeep, ← hsame]
        exact id
      intro o ho
      rw [show r.source = some o from ho] at hidle
      cases hidle
    · rcases h.told o ho hstop with hpc' | hpc'
      · exact absurd (Option.some.inj (hw.symm.trans hpc')) hpc
      · exact absurd (Option.some.inj (hw.symm.trans hpc')) hrun

theorem videoStep_decode {e : VideoEnv} {o o' : ObsSource} (h : o.videoStep e = some o') :
    o'.decode = o.decode ∧ o'.stopRequested = o.stopRequested := by
  cases videoStep_move h
  case cleanup | exit =>
    unfold ObsSource.closeValid
    split <;> exact ⟨rfl, rfl⟩
  all_goals exact ⟨rfl, rfl⟩

/-- The source does not stop by itself, and does not decode while it is being started. -/
theorem sourceStep_eq {a : SourceAct} (h : r.sourceStep a = some t) :
    ∃ o o', r.source = some o ∧ o.step a = some o' ∧ t = { r with source := some o' } ∧
      o'.stopRequested = o.stopRequested ∧
      (r.app.worker = some .starting → o'.decode = o.decode) := by
  cases hs : r.source with
  | none => simp [sourceStep, hs] at h
  | some o =>
    cases a with
    | stop => simp [sourceStep, hs] at h
    | decode ok =>
      unfold sourceStep at h
      rw [hs] at h
      dsimp only at h
      split at h
      · cases h
      · rename_i hpc
        obtain ⟨o', ho', rfl⟩ := Option.map_eq_some_iff.mp h
        refine ⟨o, o', rfl, ho', rfl, ?_, fun hstart => absurd hstart hpc⟩
        cases threadStep_move (show o.decodeStep ok = some o' from ho') <;> rfl
    | video e =>
      unfold sourceStep at h
      rw [hs] at h
      obtain ⟨o', ho', rfl⟩ := Option.map_eq_some_iff.mp h
      obtain ⟨hd, hr⟩ := videoStep_decode ho'
      exact ⟨o, o', rfl, ho', rfl, hr, fun _ => hd⟩
    | reset | flags =>
      unfold sourceStep at h
      rw [hs] at h
      cases h
      exact ⟨o, _, rfl, rfl, rfl, rfl, fun _ => rfl⟩

theorem linked_source (h : r.Linked) {a : SourceAct} (ht : r.sourceStep a = some t) :
    t.Linked := by
  obtain ⟨o, o', ho, hstep, rfl, hstop, hdecode⟩ := sourceStep_eq ht
  have hsome : r.source ≠ none := by simp [ho]
  refine ⟨h.app, fun q hq => ?_, fun _ _ _ => Option.some_ne_none _, fun _ => h.owned hsome,
    fun hpc q hq => ?_, fun q hq hq' => ?_⟩
  · cases hq
    exact (h.runs o ho).next hstep
  · cases hq
    rw [hdecode hpc, hstop]
    exact h.early hpc o ho
  · cases hq
    exact h.told o ho (hstop ▸ hq')

theorem gui_step_eq {a : GuiAct} (ha : ∀ ok, a ≠ .worker ok) (h : r.step (.gui a) = some t) :
    ∃ app, r.app.step a = some app ∧ t = { r with app := app } := by
  cases a with
  | worker ok => exact absurd rfl (ha ok)
  | _ =>
    obtain ⟨app, happ, rfl⟩ := Option.map_eq_some_iff.mp h
    exact ⟨app, happ, rfl⟩

theorem linked (h : guiRun.Reachable r) : r.Linked := by
  refine h.invariant (I := Linked) (fun s hs => ?_) fun s a t _ hi _ ht => ?_
  · have hno : ∀ o, o ∉ s.source := by simp [hs.2]
    refine ⟨.start hs.1, fun o ho => absurd ho (hno o), fun w hw => ?_,
      fun hsome => absurd hs.2 hsome, fun _ o ho => absurd ho (hno o), fun o ho => absurd ho (hno o)⟩
    rw [hs.1.idle.2.2.1] at hw
    cases hw
  · have ht' : s.step a = some t := ht
    cases a with
    | source a => exact linked_source hi ht
    | gui a =>
      by_cases ha : ∃ ok, a = .worker ok
      · obtain ⟨ok, rfl⟩ := ha
        exact linked_session hi (session_move ht)
      · push Not at ha
        obtain ⟨app, happ, rfl⟩ := gui_step_eq ha ht
        exact hi.goes (hi.app.next happ) (GuiApp.step_worker (GuiApp.consistent hi.app) ha happ)

/-! ## The wait for the thread -/

/-- How many steps the thread has ahead of it, when the window has told it to stop. -/
def left (r : GuiRun) : Nat :=
  match r.app.worker, r.source with
  | some .connecting, _ => 8
  | some .starting, none => 7
  | some .starting, some o => if o.stopRequested then 2 else 6
  | some .connected, _ => 5
  | some .waiting, _ => 4
  | some .stopping, none => 3
  | some .stopping, some o => if o.stopRequested then 2 else 3
  | some .stopped, _ | some .failed, _ => 1
  | some .ended, _ | none, _ => 0

theorem left_le (r : GuiRun) : r.left ≤ 8 := by
  unfold left
  split
  all_goals first | omega | (split <;> omega)

/-- The main thread waits for the thread. -/
structure Waits (r : GuiRun) (j : Joiner) : Prop where
  linked : r.Linked
  main : r.app.main = .joining j
  told : r.app.stopRequested = true
  worker : r.app.worker ≠ none

theorem session_left (htold : r.app.stopRequested = true) {ok : Bool} (hm : SessionMove ok r t) :
    t.left < r.left := by
  cases hm with
  | create hpc hs => simp [left, hpc, hs, ObsSource.init]
  | cutShort hpc hs hstop => simp [left, hpc, hs, hstop]
  | ask hpc hs hstop => simp [left, hpc, hs, hstop]
  | giveUp hpc hs hstep =>
    obtain ⟨w, w', hw, hnext, hw', -⟩ := GuiApp.workerStep_eq hstep
    cases hpc.symm.trans hw
    cases hnext
    simp [left, hpc, hs, hw']
  | start hpc hs hstop hstep =>
    obtain ⟨w, w', hw, hnext, hw', -⟩ := GuiApp.workerStep_eq hstep
    cases hpc.symm.trans hw
    cases hnext
    simp [left, hpc, hs, hw', hstop]
  | free hpc hs hstop hend hstep =>
    obtain ⟨w, w', hw, hnext, hw', -⟩ := GuiApp.workerStep_eq hstep
    rcases hpc with hpc | hpc
    · cases hpc.symm.trans hw
      cases hnext
      simp [left, hpc, hs, hw', hstop]
    · cases hpc.symm.trans hw
      cases hnext
      simp [left, hpc, hs, hw', hstop]
  | @other app w hw hpc hs hstep =>
    obtain ⟨v, w', hv, hnext, hw', -⟩ := GuiApp.workerStep_eq hstep
    cases hw.symm.trans hv
    rw [htold] at hnext
    unfold left
    rw [hw, hw']
    cases w with
    | starting => exact absurd rfl hpc
    | ended => cases hnext
    | stopping =>
      cases hnext
      rw [hs rfl]
      decide
    | connecting | waiting =>
      cases hnext
      cases r.source with
      | none => decide
      | some o => cases hstop : o.stopRequested <;> simp [hstop]
    | _ =>
      cases hnext
      simp

/-- The thread has a place, and the main thread stays where it is. -/
theorem session_waits {j : Joiner} (h : r.Waits j) {ok : Bool} (hm : SessionMove ok r t) :
    t.Waits j := by
  have hlinked := linked_session h.linked hm
  have hstep : ∀ {start app}, r.app.workerStep start = some app →
      app.main = .joining j ∧ app.stopRequested = true ∧ app.worker ≠ none := by
    intro start app hstep
    obtain ⟨w, w', -, -, hw', hmain, hstop⟩ := GuiApp.workerStep_eq hstep
    exact ⟨hmain.trans h.main, hstop.trans h.told, by simp [hw']⟩
  cases hm with
  | create | cutShort | ask => exact ⟨hlinked, h.main, h.told, h.worker⟩
  | giveUp _ _ happ | start _ _ _ happ | free _ _ _ _ happ | other _ _ _ happ =>
    obtain ⟨hmain, hstop, hw⟩ := hstep happ
    exact ⟨hlinked, hmain, hstop, hw⟩

/-- A step of the source takes nothing from the thread. -/
theorem source_left {a : SourceAct} (h : r.sourceStep a = some t) : t.left = r.left := by
  obtain ⟨o, o', ho, -, rfl, hstop, -⟩ := sourceStep_eq h
  unfold left
  rw [ho]
  cases r.app.worker with
  | none => rfl
  | some w => cases w <;> simp [hstop]

theorem source_waits {j : Joiner} (h : r.Waits j) {a : SourceAct} (ht : r.sourceStep a = some t) :
    t.Waits j := by
  have hlinked := linked_source h.linked ht
  obtain ⟨o, o', -, -, rfl, -, -⟩ := sourceStep_eq ht
  exact ⟨hlinked, h.main, h.told, h.worker⟩

/-- While the main thread waits, the window gets no message. -/
theorem gui_waits {j : Joiner} (h : r.Waits j) {a : GuiAct} (hjoin : a ≠ .join)
    (hworker : ∀ ok, a ≠ .worker ok) (ht : r.step (.gui a) = some t) :
    t.Waits j ∧ t.left = r.left ∧ t.source = r.source := by
  obtain ⟨app, happ, rfl⟩ := gui_step_eq hworker ht
  have hlinked := h.linked.goes (h.linked.app.next happ)
    (GuiApp.step_worker (GuiApp.consistent h.linked.app) hworker happ)
  have hmain := h.main
  obtain ⟨hm, hs, hw⟩ : app.main = r.app.main ∧ app.stopRequested = r.app.stopRequested ∧
      app.worker = r.app.worker := by
    cases a with
    | join => exact absurd rfl hjoin
    | worker ok => exact absurd rfl (hworker ok)
    | dial | frame =>
      simp only [GuiApp.step] at happ
      split at happ <;> cases happ
      exact ⟨rfl, rfl, rfl⟩
    | _ => simp [GuiApp.step, hmain] at happ
  refine ⟨⟨hlinked, hm.trans h.main, hs.trans h.told, ?_⟩, ?_, rfl⟩
  · rw [show GuiApp.worker _ = _ from hw]
    exact h.worker
  · unfold left
    rw [hw]

end GuiRun

/-- A step of the thread of the session. -/
def GuiRunAct.isSession : GuiRunAct → Bool
  | .gui (.worker _) => true
  | _ => false

/-- A step of that thread or of one of the threads of the source. -/
def GuiRunAct.isThread : GuiRunAct → Bool
  | .source a => a.isThread
  | a => a.isSession

/-- Everything but the return of `pthread_join`. -/
def GuiRunAct.waits : GuiRunAct → Bool
  | .gui .join => false
  | _ => true

namespace GuiRun

variable {r t : GuiRun} {j : Joiner}

/-- How many steps the threads of the source have ahead of them, once it is to stop. -/
def ahead (r : GuiRun) : Nat := r.source.elim 0 ObsSource.ahead

/-- What a step leaves of the wait. -/
theorem Waits.step (h : r.Waits j) {a : GuiRunAct}
    (ht : (guiRun.only GuiRunAct.waits).step r a = some t) :
    t.Waits j ∧ t.left + a.isSession.toNat ≤ r.left := by
  obtain ⟨hallowed, ht⟩ := Machine.only_step ht
  cases a with
  | source a => exact ⟨source_waits h ht, (source_left ht).le⟩
  | gui a =>
    by_cases ha : ∃ ok, a = .worker ok
    · obtain ⟨ok, rfl⟩ := ha
      have hm := session_move ht
      exact ⟨session_waits h hm, session_left h.told hm⟩
    · push Not at ha
      have hjoin : a ≠ .join := by
        rintro rfl
        cases hallowed
      obtain ⟨hwaits, hleft, -⟩ := gui_waits h hjoin ha ht
      have hcount : (GuiRunAct.gui a).isSession = false := by
        cases a with
        | worker ok => exact absurd rfl (ha ok)
        | _ => rfl
      exact ⟨hwaits, by rw [hcount, hleft]; exact le_rfl⟩

theorem session_variant (j : Joiner) : (guiRun.only GuiRunAct.waits).Variant (Waits · j)
    (fun _ => False) GuiRunAct.isSession left where
  keeps _ _ _ h ht := (h.step ht).1
  stays _ _ _ _ _ h := h
  lowers _ _ _ h ht := .inr (h.step ht).2

/-- The source is told to stop where the thread has two steps left. -/
theorem stop_of_left (h : r.Linked) {o : ObsSource} (ho : r.source = some o) (hleft : r.left ≤ 2) :
    o.stopRequested = true := by
  obtain ⟨w, hw, hpc⟩ := h.owned (by simp [ho])
  unfold left at hleft
  rw [show r.app.worker = some w from hw, ho] at hleft
  by_contra hstop
  cases w <;> simp_all [WorkerPc.Holding]

theorem left_of_stop (h : r.Linked) {o : ObsSource} (ho : r.source = some o)
    (hstop : o.stopRequested = true) : r.left = 2 := by
  unfold left
  rcases h.told o ho hstop with hpc | hpc
  · rw [hpc, ho]
    exact if_pos hstop
  · rw [hpc, ho]
    exact if_pos hstop

theorem session_ahead (hleft : r.left ≤ 2) {ok : Bool} (hm : SessionMove ok r t) :
    t.ahead ≤ r.ahead := by
  cases hm with
  | create hpc hs => simp [left, hpc, hs] at hleft
  | cutShort hpc hs hstop => simp [left, hpc, hs, hstop] at hleft
  | ask hpc hs hstop => simp [left, hpc, hs, hstop] at hleft
  | giveUp | free => exact Nat.zero_le _
  | start hpc hs =>
    unfold ahead
    rw [hs]
  | other => exact le_rfl

/-- Once the source is told to stop, the steps of its threads count, too. -/
theorem stop_variant (j : Joiner) : (guiRun.only GuiRunAct.waits).Variant
    (fun r => r.Waits j ∧ r.left ≤ 2) (fun _ => False) GuiRunAct.isThread
    (fun r => r.left + r.ahead) where
  keeps r a t h ht := by
    obtain ⟨hwaits, hle⟩ := h.1.step ht
    exact ⟨hwaits, by have := h.2; omega⟩
  stays _ _ _ _ _ h := h
  lowers r a t h ht := by
    obtain ⟨hw, hleft⟩ := h
    refine .inr ?_
    obtain ⟨hwaits, hle⟩ := hw.step ht
    obtain ⟨hallowed, ht⟩ := Machine.only_step ht
    cases a with
    | source a =>
      have hsame := source_left ht
      obtain ⟨o, o', ho, hstep, rfl, -, -⟩ := sourceStep_eq ht
      have hstop := stop_of_left hw.linked ho hleft
      have hlow := (stopping_variant.lowers o a o' ⟨hw.linked.runs o ho, hstop⟩ hstep).resolve_left id
      show _ + o'.ahead + a.isThread.toNat ≤ r.left + r.source.elim 0 ObsSource.ahead
      rw [ho]
      simp only [Option.elim_some]
      omega
    | gui a =>
      suffices hsource : t.ahead ≤ r.ahead by
        show t.left + t.ahead + (GuiRunAct.gui a).isSession.toNat ≤ r.left + r.ahead
        omega
      by_cases ha : ∃ ok, a = .worker ok
      · obtain ⟨ok, rfl⟩ := ha
        exact session_ahead hleft (session_move ht)
      · push Not at ha
        obtain ⟨-, -, hsame⟩ := gui_waits hw (by rintro rfl; cases hallowed) ha ht
        unfold ahead
        rw [hsame]

/-! ## There is always a step -/

theorem freeSource_some {o : ObsSource} (hend : o.video = .finished) {w : WorkerPc}
    (hw : r.app.worker = some w) (hne : w ≠ .ended) : ∃ u, r.freeSource o = some u := by
  obtain ⟨app, happ⟩ := GuiApp.workerStep_some hw hne false
  unfold freeSource
  rw [if_pos hend, happ]
  exact ⟨_, rfl⟩

/-- A source that is to stop can go on to its end. -/
theorem source_some (h : r.Linked) {o : ObsSource} (ho : r.source = some o)
    (hstop : o.stopRequested = true) (hend : o.video ≠ .finished) :
    o.Broken ∨ (∀ e, ∃ u, r.step (.source (.video e)) = some u) ∨
      ∀ ok, ∃ u, r.step (.source (.decode ok)) = some u := by
  by_cases hbroken : o.Broken
  · exact .inl hbroken
  have ha := attached_of_reachable (h.runs o ho)
  by_cases hthread : o.decode = .ended
  · refine .inr (.inl fun e => ?_)
    obtain ⟨q, hq⟩ := video_some ha hbroken hend (fun _ => hthread) e
    show ∃ u, r.sourceStep (.video e) = some u
    unfold sourceStep
    rw [ho]
    dsimp only
    rw [hq]
    exact ⟨_, rfl⟩
  · have hpc : r.app.worker ≠ some .starting := by
      intro hpc
      have hearly := h.early hpc o ho
      rw [hstop] at hearly
      exact hthread hearly
    refine .inr (.inr fun ok => ?_)
    obtain ⟨q, hq⟩ := thread_some ha (fun hf => hbroken (.inl hf)) hthread ok
    show ∃ u, r.sourceStep (.decode ok) = some u
    unfold sourceStep
    rw [ho]
    dsimp only
    rw [if_neg hpc, hq]
    exact ⟨_, rfl⟩

theorem Waits.goes_on (h : r.Waits j) :
    (∃ u, r.step (.gui .join) = some u ∧ u.app.worker = none ∧ ∀ i, u.app.main ≠ .joining i) ∨
      (∀ ok, ∃ u, r.step (.gui (.worker ok)) = some u) ∨
      ∃ o ∈ r.source, o.stopRequested = true ∧ (o.Broken ∨
        (∀ e, ∃ u, r.step (.source (.video e)) = some u) ∨
        ∀ ok, ∃ u, r.step (.source (.decode ok)) = some u) := by
  obtain ⟨w, hw⟩ := Option.ne_none_iff_exists'.mp h.worker
  by_cases hended : w = .ended
  · subst hended
    have hjoin : r.app.step .join = some (GuiApp.resume j { r.app with
        threadActive := false, worker := none, joined := r.app.joined + 1 }) := by
      simp [GuiApp.step, h.main, hw]
    refine .inl ⟨{ r with app := _ }, congrArg (Option.map _) hjoin, ?_, fun i => ?_⟩
    · cases j <;> rfl
    · cases j <;> exact MainPc.noConfusion
  refine .inr ?_
  by_cases hsource : ∃ o ∈ r.source, o.stopRequested = true ∧ o.video ≠ .finished
  · obtain ⟨o, ho, hstop, hend⟩ := hsource
    exact .inr ⟨o, ho, hstop, source_some h.linked ho hstop hend⟩
  · push Not at hsource
    refine .inl fun ok => ?_
    obtain ⟨app, happ⟩ := GuiApp.workerStep_some hw hended ok
    rw [← Option.isSome_iff_exists]
    show (r.threadStep ok).isSome = true
    cases hs : r.source with
    | none => cases w <;> cases ok <;> simp_all [threadStep]
    | some o =>
      cases hstop : o.stopRequested with
      | false => cases w <;> cases ok <;> simp_all [threadStep]
      | true =>
        obtain ⟨u, hu⟩ := freeSource_some (hsource o hs hstop) hw hended
        cases w <;> simp_all [threadStep]

end GuiRun

/-- **The wait for the thread ends.** While the main thread waits in `pthread_join`, at
Disconnect, at the close of the window or behind `gui_run`, the thread of the session makes
eight steps at most, and from the request of `droidcam_source_stop` on it and the threads of
the source make 41 at most, however they are interleaved. Until `pthread_join` can return the
thread can make its next step, or it waits in `droidcam_source_stop` for a source one of
whose threads can, unless one of these has crashed. -/
theorem gui_join_returns {r : GuiRun} (h : guiRun.Reachable r) {j : Joiner}
    (hj : r.app.main = .joining j) {as : List GuiRunAct} (has : ∀ a ∈ as, a ≠ .gui .join)
    {t : GuiRun} (hrun : as.foldlM GuiRun.step r = some t) :
    as.countP GuiRunAct.isSession ≤ 8 ∧
      ((∃ o ∈ r.source, o.stopRequested = true) → as.countP GuiRunAct.isThread ≤ 41) ∧
      ((∃ u, t.step (.gui .join) = some u ∧ u.app.worker = none ∧ ∀ i, u.app.main ≠ .joining i) ∨
        (∀ ok, ∃ u, t.step (.gui (.worker ok)) = some u) ∨
        ∃ o ∈ t.source, o.stopRequested = true ∧ (o.Broken ∨
          (∀ e, ∃ u, t.step (.source (.video e)) = some u) ∨
          ∀ ok, ∃ u, t.step (.source (.decode ok)) = some u)) := by
  have hlinked := GuiRun.linked h
  have hc := GuiApp.consistent hlinked.app
  obtain ⟨hactive, htold⟩ := hc.joining j hj
  have hwaits : r.Waits j := by
    refine ⟨hlinked, hj, htold, ?_⟩
    rw [← Option.isSome_iff_ne_none, ← hc.active, hactive]
  have hallowed : ∀ a ∈ as, a.waits = true := by
    intro a ha
    have hne := has a ha
    cases a with
    | source => rfl
    | gui a => cases a <;> first | rfl | exact absurd rfl hne
  have hrun' := Machine.only_run (M := guiRun) hallowed hrun
  obtain ⟨ht, hle⟩ := (GuiRun.session_variant j).run hwaits hrun'
  have hleft := r.left_le
  refine ⟨by have := hle.resolve_left id; omega, ?_, ht.goes_on⟩
  rintro ⟨o, ho, hstop⟩
  have htwo := GuiRun.left_of_stop hlinked ho hstop
  obtain ⟨-, hle'⟩ := (GuiRun.stop_variant j).run ⟨hwaits, htwo.le⟩ hrun'
  have hahead : r.ahead ≤ 39 := by
    have hvideo := videoAhead_le o
    have hdecode := decodeAhead_le o
    show r.source.elim 0 ObsSource.ahead ≤ 39
    rw [show r.source = some o from ho, Option.elim_some, ObsSource.ahead]
    omega
  have := hle'.resolve_left id
  omega

/-- Connect, both threads of the source are created, the phone is dialled, Disconnect, and
the source is told to stop. -/
def leavingActs : List GuiRunAct :=
  [.gui (.connect true), .gui (.worker true), .gui (.worker true), .gui (.worker true),
    .gui (.worker true)] ++
  List.replicate 4 (.source (.video (.quiet 5 ⟨[], false, 0⟩))) ++
  [.gui (.connect true), .gui (.worker true), .gui (.worker true)]

/-- What is left to do. -/
def leftActs : List GuiRunAct :=
  .source (.decode true) :: List.replicate 5 (.source (.video (.quiet 5 ⟨[], false, 0⟩))) ++
    [.gui (.worker true), .gui (.worker true)]

theorem gui_join_returns_session : ∃ r t : GuiRun, r.app.main = .joining .connect ∧
    leftActs.foldlM GuiRun.step r = some t ∧ t.app.worker = some .ended ∧
      leftActs.countP GuiRunAct.isThread ≤ 41 := by
  obtain ⟨r, hr, hp⟩ := guiRun.reachable_of_replay
    (fun r => decide (r.app.main = .joining .connect) && (r.source.any (·.stopRequested)) &&
      (leftActs.foldlM GuiRun.step r).any fun t => t.app.worker = some .ended)
    ⟨freshApp, none⟩ leavingActs ⟨fresh_freshApp, rfl⟩ (by decide +kernel)
  simp only [Bool.and_eq_true, decide_eq_true_eq, Option.any_eq_true] at hp
  obtain ⟨⟨hmain, hstop⟩, t, hrun, hended⟩ := hp
  exact ⟨r, t, hmain, hrun, hended,
    (gui_join_returns hr hmain (by simp [leftActs]) hrun).2.1 hstop⟩

end DroidcamWhip
