import DroidcamWhip.GuiPipeline

/-!
Runs of the GUI mode: what holds between the window, the thread of a session and its source
in every interleaving.
-/

namespace DroidcamWhip

open CString Runs

/-! ## The invariant -/

/-- The main thread has not left the messages for good. -/
def MainPc.Inside : MainPc → Prop
  | .messages | .dialog | .joining .connect | .joining .close => True
  | _ => False

/-- There is a source while the thread is there. -/
def WorkerPc.Holding : WorkerPc → Prop
  | .connected | .waiting | .stopping => True
  | _ => False

/-- What the status may say. -/
def statusOf : Option WorkerPc → List (List UInt8)
  | none | some .connecting => [enterText, idleText, startFailedText]
  | some .starting | some .failed | some .connected => [connectingText]
  | some .waiting | some .stopping | some .stopped => [connectedText]
  | some .ended => [failedText, waitingText]

namespace GuiApp

structure Consistent (s : GuiApp) : Prop where
  active : s.threadActive = s.worker.isSome
  running : s.main.Inside → s.running = s.threadActive
  joining : ∀ j, s.main = .joining j → s.threadActive = true ∧ s.stopRequested = true
  finished : s.main = .finished → s.worker = none
  source : s.source.isSome = true ↔ ∃ w ∈ s.worker, w.Holding
  own : ∀ r ∈ s.source, r = some .phoneIp
  config : s.worker.isSome = true → s.config.deviceIp = some .phoneIp ∧
    s.config.rtspUrl = some .rtspUrl ∧ s.config.values = s.chosen.asked.values
  strings : s.worker.isSome = true → s.phoneIp.str = s.chosen.phoneIp.str ∧
    s.rtspUrl.str = s.chosen.rtspUrl.str
  terminated : 0 ∈ s.settings.phoneIp.bytes ∧ 0 ∈ s.settings.rtspUrl.bytes
  zeros : s.phoneIp.bytes[63]? = some 0 ∧ s.rtspUrl.bytes[255]? = some 0
  threads : s.created = s.joined + s.worker.isSome.toNat
  sources : s.started = s.stopped + s.source.isSome.toNat
  status : s.main ≠ .finished → s.status.str ∈ statusOf s.worker
  records : (∀ g ∈ s.given, g.1 = g.2.asked) ∧ ∀ d ∈ s.dialled, d.1 = d.2.phoneIp.str
  faults : s.faults = 0

variable {s t : GuiApp}

theorem str_guiSetStatus {text : List UInt8} (h0 : 0 ∉ text) (hlen : text.length ≤ 255) :
    (s.guiSetStatus text).status.str = text := by
  have hfill : (text ++ List.replicate 255 0).take 255 =
      text ++ List.replicate (255 - text.length) 0 := by
    rw [List.take_append, List.take_of_length_le hlen, List.take_replicate,
      Nat.min_eq_left (Nat.sub_le ..)]
  have hlast : ((s.status.strncpyFirst 255 text).store 255 [0]).bytes =
      text ++ List.replicate (256 - text.length) 0 := by
    have hbytes : (s.status.strncpyFirst 255 text).bytes =
        text ++ List.replicate (255 - text.length) 0 ++ s.status.bytes.drop 255 := by
      rw [Chars.strncpyFirst_bytes _ (by decide), text_of_notMem h0, hfill]
    have hfull : (text ++ List.replicate (255 - text.length) (0 : UInt8)).length = 255 := by
      rw [List.length_append, List.length_replicate]
      omega
    show Bytes.overwrite (s.status.strncpyFirst 255 text).bytes 255 [0] = _
    rw [Bytes.overwrite_eq _ _ _ (by rw [Chars.size]; decide), hbytes, List.take_left' hfull,
      List.drop_of_length_le (by rw [← hbytes, Chars.size]; decide), List.append_nil,
      List.append_assoc, ← List.replicate_succ']
    congr 2
    omega
  show CString.text ((s.status.strncpyFirst 255 text).store 255 [0]).bytes = text
  rw [hlast, show 256 - text.length = 255 - text.length + 1 by omega, List.replicate_succ]
  exact text_terminated _ h0

/-- The threads have left nothing behind, and the strings are terminated. -/
structure Idle (s : GuiApp) : Prop where
  active : s.threadActive = false
  worker : s.worker = none
  source : s.source = none
  terminated : 0 ∈ s.settings.phoneIp.bytes ∧ 0 ∈ s.settings.rtspUrl.bytes
  zeros : s.phoneIp.bytes[63]? = some 0 ∧ s.rtspUrl.bytes[255]? = some 0
  threads : s.created = s.joined
  sources : s.started = s.stopped
  records : (∀ g ∈ s.given, g.1 = g.2.asked) ∧ ∀ d ∈ s.dialled, d.1 = d.2.phoneIp.str
  faults : s.faults = 0

theorem Idle.consistent (h : s.Idle) (hrunning : s.main.Inside → s.running = false)
    (hj : ∀ j, s.main ≠ .joining j)
    (hstatus : s.main ≠ .finished → s.status.str ∈ statusOf none) : s.Consistent where
  active := by
    rw [h.active, h.worker]
    rfl
  running hin := (hrunning hin).trans h.active.symm
  joining j hmain := absurd hmain (hj j)
  finished _ := h.worker
  source := by simp [h.source, h.worker]
  own := by simp [h.source]
  config hw := by simp [h.worker] at hw
  strings hw := by simp [h.worker] at hw
  terminated := h.terminated
  zeros := h.zeros
  threads := by
    rw [h.worker, h.threads]
    rfl
  sources := by
    rw [h.source, h.sources]
    rfl
  status hmain := by
    rw [h.worker]
    exact hstatus hmain
  records := h.records
  faults := h.faults

theorem consistent_of_fresh (h : s.Fresh) : s.Consistent := by
  obtain ⟨hrun, hactive, hworker, hsource⟩ := h.idle
  obtain ⟨hip, hurl⟩ := h.zeros
  obtain ⟨hcreated, hjoined, hstarted, hstopped⟩ := h.counts
  obtain ⟨hgiven, hdialled, hfaults⟩ := h.records
  have hidle : s.Idle := ⟨hactive, hworker, hsource, ⟨h.phoneIp, h.rtspUrl⟩,
    ⟨by rw [hip]; rfl, by rw [hurl]; rfl⟩, hcreated.trans hjoined.symm,
    hstarted.trans hstopped.symm, by simp [hgiven, hdialled], hfaults⟩
  refine hidle.consistent (fun _ => hrun) (fun j hj => ?_) fun _ => ?_
  · rw [h.main] at hj
    cases hj
  · rw [h.status]
    exact List.mem_cons_self ..

/-! ## The other threads -/

theorem Consistent.touch_eq (h : s.Consistent) (hw : s.worker ≠ none) : s.touch = s := by
  unfold touch
  rw [if_neg fun hmain => hw (h.finished hmain)]
  rfl

/-- A step of the thread that takes it to `w`. -/
theorem Consistent.work (h : s.Consistent) (hw : s.worker ≠ none) {w : WorkerPc}
    {status : Chars 256} {source : Option (Option StrRef)} {started stopped : Nat}
    {given : List (Chosen × Settings)} (hsource : source.isSome = true ↔ w.Holding)
    (hown : ∀ r ∈ source, r = some .phoneIp)
    (hcount : started = stopped + source.isSome.toNat) (hstatus : status.str ∈ statusOf (some w))
    (hgiven : ∀ g ∈ given, g.1 = g.2.asked) :
    Consistent { s with
      worker := some w, status := status, source := source, started := started
      stopped := stopped, given := given } := by
  obtain ⟨v, hv⟩ := Option.ne_none_iff_exists'.mp hw
  have hsome : s.worker.isSome = true := by
    rw [hv]
    rfl
  refine ⟨h.active.trans hsome, h.running, h.joining, fun hmain => absurd (h.finished hmain) hw,
    hsource.trans (by simp), hown, fun _ => h.config hsome, fun _ => h.strings hsome,
    h.terminated, h.zeros, ?_, hcount, fun _ => hstatus, ⟨hgiven, h.records.2⟩, h.faults⟩
  have := h.threads
  rwa [hsome] at this

/-- What the thread gives to `droidcam_source_start` is what was chosen. -/
theorem Consistent.taken_eq (h : s.Consistent) (hw : s.worker.isSome = true) :
    s.config.taken s.deref = s.chosen.asked := by
  obtain ⟨hip, hurl, hvalues⟩ := h.config hw
  obtain ⟨hipstr, hurlstr⟩ := h.strings hw
  show Chosen.mk (s.config.deviceIp.elim [] s.deref)
    (s.config.rtspUrl.elim defaultUrl.bytes s.deref) s.config.values = s.chosen.asked
  rw [hip, hurl, hvalues]
  show Chosen.mk s.phoneIp.str s.rtspUrl.str s.chosen.asked.values = s.chosen.asked
  rw [hipstr, hurlstr]
  rfl

theorem consistent_worker (h : s.Consistent) {start : Bool} (ht : s.workerStep start = some t) :
    t.Consistent := by
  unfold workerStep at ht
  cases hw : s.worker with
  | none =>
    rw [hw] at ht
    cases ht
  | some w =>
    have hne : s.worker ≠ none := by simp [hw]
    have hsome : s.worker.isSome = true := by simp [hw]
    have hmain : s.main ≠ .finished := fun hmain => hne (h.finished hmain)
    have hhold : s.source.isSome = true ↔ w.Holding := by
      rw [h.source, hw]
      simp
    have hstatus := h.status hmain
    rw [hw] at ht hstatus
    simp only [h.touch_eq hne] at ht
    cases w with
    | connecting =>
      cases ht
      exact h.work hne hhold h.own h.sources
        (by rw [str_guiSetStatus (by decide) (by decide)]; exact List.mem_cons_self ..) h.records.1
    | starting =>
      have hnone : s.source.isSome = false := by simpa [WorkerPc.Holding] using hhold
      have hsources := h.sources
      rw [hnone] at hsources
      dsimp only at ht
      split at ht
      · cases ht
        refine h.work hne (by simp [WorkerPc.Holding]) (fun r hr => ?_)
          (by rw [hsources]; rfl) hstatus fun g hg => ?_
        · cases hr
          exact (h.config hsome).1
        · rcases List.mem_append.mp hg with hg | hg
          · exact h.records.1 g hg
          · cases List.mem_singleton.mp hg
            exact h.taken_eq hsome
      · cases ht
        exact h.work hne (by simp [WorkerPc.Holding]) (by simp) hsources hstatus h.records.1
    | failed =>
      cases ht
      exact h.work hne hhold h.own h.sources
        (by rw [str_guiSetStatus (by decide) (by decide)]; exact List.mem_cons_self ..) h.records.1
    | connected =>
      cases ht
      exact h.work hne hhold h.own h.sources
        (by rw [str_guiSetStatus (by decide) (by decide)]; exact List.mem_cons_self ..) h.records.1
    | waiting =>
      dsimp only at ht
      split at ht
      · cases ht
        exact h.work hne hhold h.own h.sources hstatus h.records.1
      · cases ht
        exact h
    | stopping =>
      cases ht
      have hsources := h.sources
      rw [hhold.mpr trivial] at hsources
      exact h.work hne (by simp [WorkerPc.Holding]) (by simp) hsources hstatus h.records.1
    | stopped =>
      cases ht
      exact h.work hne hhold h.own h.sources
        (by rw [str_guiSetStatus (by decide) (by decide)]; simp [statusOf]) h.records.1
    | ended => cases ht

theorem consistent_dial (h : s.Consistent) (ht : s.step .dial = some t) : t.Consistent := by
  have hworker : ∀ r, s.source = some r → s.worker ≠ none := fun r hr hnone => by
    obtain ⟨w, hw, -⟩ := h.source.mp (by rw [hr]; rfl)
    rw [hnone] at hw
    cases hw
  simp only [step] at ht
  split at ht
  · rename_i r hr
    have hne := hworker _ hr
    rw [h.touch_eq hne] at ht
    cases ht
    obtain rfl : r = .phoneIp := Option.some_inj.mp (h.own _ hr)
    refine { h with records := ⟨h.records.1, fun d hd => ?_⟩ }
    rcases List.mem_append.mp hd with hd | hd
    · exact h.records.2 d hd
    · cases List.mem_singleton.mp hd
      exact (h.strings (Option.isSome_iff_ne_none.mpr hne)).1
  · cases ht

/-! ## The main thread -/

/-- The main thread goes on to a place where it does not wait. -/
theorem Consistent.goes (h : s.Consistent) (hs : s.main.Inside) (main : MainPc)
    (hj : ∀ j, main ≠ .joining j) (hend : main ≠ .finished) :
    Consistent { s with main := main } :=
  { h with
    running := fun _ => h.running hs
    joining := fun j hmain => absurd hmain (hj j)
    finished := fun hmain => absurd hmain hend
    status := fun _ => h.status fun hmain => by
      rw [hmain] at hs
      exact hs }

/-- Behind `gui_stop_pipeline`, where there is no thread. -/
theorem Idle.resume (h : s.Idle) (j : Joiner) : (resume j s).Consistent := by
  have hidle : s.stopDone.status.str ∈ statusOf none := by
    rw [stopDone, str_guiSetStatus (by decide) (by decide)]
    exact List.mem_cons_of_mem _ (List.mem_cons_self ..)
  cases j with
  | connect =>
    have hdone : Idle { s.stopDone with main := .messages } := { h with }
    exact hdone.consistent (fun _ => rfl) (fun j hj => by cases hj) fun _ => hidle
  | close =>
    have hdone : Idle { s.stopDone with main := .leaving } := { h with }
    exact hdone.consistent (fun _ => rfl) (fun j hj => by cases hj) fun _ => hidle
  | exit =>
    have hdone : Idle { s with main := .finished } := { h with }
    exact hdone.consistent (fun hin => hin.elim) (fun j hj => by cases hj)
      fun hmain => absurd rfl hmain

/-- There is no source without a thread. -/
theorem Consistent.source_eq_none (h : s.Consistent) (hw : s.worker = none) :
    s.source = none := by
  rw [← Option.not_isSome_iff_eq_none, h.source, hw]
  simp

theorem consistent_stop (h : s.Consistent) (j : Joiner)
    (hj : (MainPc.joining j).Inside → s.main.Inside) (hs : s.main ≠ .finished) :
    (s.guiStopPipeline j (resume j)).Consistent := by
  unfold guiStopPipeline
  by_cases hactive : s.threadActive = true
  · rw [if_pos hactive]
    exact { h with
      running := fun hin => h.running (hj hin)
      joining := fun _ _ => ⟨hactive, rfl⟩
      finished := fun hmain => by cases hmain
      status := fun _ => h.status hs }
  · rw [if_neg hactive]
    have hworker : s.worker = none := by
      have := h.active
      rw [Bool.eq_false_iff.mpr hactive] at this
      exact Option.not_isSome_iff_eq_none.mp (by rw [← this]; decide)
    have hsource := h.source_eq_none hworker
    have hthreads := h.threads
    have hsources := h.sources
    rw [hworker] at hthreads
    rw [hsource] at hsources
    have hidle : s.Idle := { h with
      active := Bool.eq_false_iff.mpr hactive
      worker := hworker
      source := hsource
      threads := hthreads
      sources := hsources }
    exact hidle.resume j

theorem consistent_join (h : s.Consistent) (ht : s.step .join = some t) : t.Consistent := by
  simp only [step] at ht
  split at ht
  · split at ht
    · rename_i hended
      cases ht
      have hsource : s.source = none := by
        rw [← Option.not_isSome_iff_eq_none, h.source, hended]
        simp [WorkerPc.Holding]
      have hthreads := h.threads
      have hsources := h.sources
      rw [hended] at hthreads
      rw [hsource] at hsources
      have hidle : Idle { s with
          threadActive := false, worker := none, joined := s.joined + 1 } := { h with
        active := rfl
        worker := rfl
        source := hsource
        threads := hthreads
        sources := hsources }
      exact hidle.resume _
    · cases ht
  · cases ht

theorem consistent_start (h : s.Consistent) (hmain : s.main = .messages) (create : Bool) :
    (s.requestStart create).Consistent := by
  unfold requestStart
  by_cases hrun : s.running = true
  · rw [if_pos hrun]
    exact h
  have hactive : s.threadActive = false := by
    rw [← h.running (by rw [hmain]; trivial)]
    exact Bool.eq_false_iff.mpr hrun
  have hworker : s.worker = none := by
    have := h.active
    rw [hactive] at this
    exact Option.not_isSome_iff_eq_none.mp (by rw [← this]; decide)
  have hzeros : (s.phoneIp.strncpyFirst 63 s.settings.phoneIp.str).bytes[63]? = some 0 ∧
      (s.rtspUrl.strncpyFirst 255 s.settings.rtspUrl.str).bytes[255]? = some 0 := by
    rw [Chars.getElem?_strncpyFirst _ (by decide), Chars.getElem?_strncpyFirst _ (by decide)]
    exact h.zeros
  rw [if_neg hrun, guiStartPipeline, if_neg (by rw [hactive]; decide)]
  cases create with
  | false =>
    have hno : ¬ s.worker.isSome = true := by simp [hworker]
    exact { h with
      active := by
        show false = s.worker.isSome
        rw [hworker]
        rfl
      running := fun _ => Bool.eq_false_iff.mpr hrun
      joining := fun j hj => by
        have hj' : s.main = .joining j := hj
        rw [hmain] at hj'
        cases hj'
      config := fun hw => absurd hw hno
      strings := fun hw => absurd hw hno
      zeros := hzeros
      status := fun _ => by
        show (guiSetStatus _ startFailedText).status.str ∈ statusOf s.worker
        rw [str_guiSetStatus (by decide) (by decide), hworker]
        simp [statusOf] }
  | true =>
    have hthreads := h.threads
    rw [hworker] at hthreads
    exact { h with
      active := rfl
      running := fun _ => rfl
      joining := fun j hj => by
        have hj' : s.main = .joining j := hj
        rw [hmain] at hj'
        cases hj'
      finished := fun hend => by
        have hend' : s.main = .finished := hend
        rw [hmain] at hend'
        cases hend'
      source := by
        show s.source.isSome = true ↔ _
        rw [h.source_eq_none hworker]
        simp [WorkerPc.Holding]
      config := fun _ => ⟨rfl, rfl, rfl⟩
      strings := fun _ => ⟨Chars.str_copy h.terminated.1 rfl (by decide) h.zeros.1,
        Chars.str_copy h.terminated.2 rfl (by decide) h.zeros.2⟩
      zeros := hzeros
      threads := by
        show s.created + 1 = s.joined + 1
        rw [hthreads]
        rfl
      status := fun _ => by
        have hstatus := h.status (by rw [hmain]; decide)
        rw [hworker] at hstatus
        exact hstatus }

theorem consistent_step (h : s.Consistent) {a : GuiAct} (ht : s.step a = some t) :
    t.Consistent := by
  cases a with
  | connect create =>
    simp only [step] at ht
    split at ht
    · cases ht
    · rename_i hmain
      rw [not_not] at hmain
      split at ht <;> cases ht
      · exact consistent_stop h .connect (fun _ => by rw [hmain]; trivial) (by rw [hmain]; decide)
      · exact consistent_start h hmain create
  | settings =>
    simp only [step] at ht
    split at ht
    · rename_i hmain
      cases ht
      exact h.goes (by rw [hmain]; trivial) _ (by simp) (by simp)
    · cases ht
  | save ip rtsp port width height fps sel =>
    simp only [step] at ht
    split at ht
    · rename_i hmain
      cases ht
      have hsaved : (s.saveSettings ip rtsp port width height fps sel).Consistent :=
        { h with
          terminated := ⟨Chars.zero_mem_snprintf _ _ (by decide),
            Chars.zero_mem_snprintf _ _ (by decide)⟩ }
      exact hsaved.goes (show s.main.Inside by rw [hmain]; trivial) _ (by simp) (by simp)
    · cases ht
  | cancel =>
    simp only [step] at ht
    split at ht
    · rename_i hmain
      cases ht
      exact h.goes (by rw [hmain]; trivial) _ (by simp) (by simp)
    · cases ht
  | close =>
    simp only [step] at ht
    split at ht
    · cases ht
    · rename_i hmain
      rw [not_not] at hmain
      split at ht <;> cases ht
      · exact consistent_stop h .close (fun _ => by rw [hmain]; trivial) (by rw [hmain]; decide)
      · exact h.goes (by rw [hmain]; trivial) _ (by simp) (by simp)
  | leave =>
    simp only [step] at ht
    split at ht
    · rename_i hmain
      cases ht
      exact h.goes (by rw [hmain]; trivial) _ (by simp) (by simp)
    · cases ht
  | join => exact consistent_join h ht
  | exit =>
    simp only [step] at ht
    split at ht
    · rename_i hmain
      cases ht
      exact consistent_stop h .exit (fun hin => hin.elim) (by rw [hmain]; decide)
    · cases ht
  | worker start => exact consistent_worker h ht
  | dial => exact consistent_dial h ht
  | frame =>
    simp only [step] at ht
    split at ht
    · rename_i hframe
      cases ht
      obtain ⟨w, hw, -⟩ := h.source.mp hframe.1
      rw [h.touch_eq (by rw [hw]; simp)]
      exact h
    · cases ht

theorem consistent (h : guiApp.Reachable s) : s.Consistent :=
  Machine.Reach.invariant (I := Consistent) (fun _ => consistent_of_fresh)
    (fun _ _ _ _ hi _ ht => consistent_step hi ht) h

end GuiApp

/-! ## Sessions -/

/-- **Sessions are orderly.** In every run there is at most one thread and one source, the
window says that it runs exactly as long as there is a thread, and nothing that other threads
do touches the window or the pipeline once the main thread is through with them; then every
thread has been joined and every source stopped. -/
theorem gui_sessions {s : GuiApp} (h : guiApp.Reachable s) :
    s.faults = 0 ∧ s.created ≤ s.joined + 1 ∧ s.started ≤ s.stopped + 1 ∧
      (s.main.Inside → (s.running = true ↔ s.worker ≠ none) ∧
        (s.running = false → s.status.str ∈ [enterText, idleText, startFailedText])) ∧
      (s.main = .finished → s.worker = none ∧ s.source = none ∧ s.created = s.joined ∧
        s.started = s.stopped) := by
  have hc := GuiApp.consistent h
  have hthreads := hc.threads
  have hsources := hc.sources
  have hone : ∀ b : Bool, b.toNat ≤ 1 := fun b => by cases b <;> decide
  refine ⟨hc.faults, ?_, ?_, fun hmain => ⟨?_, fun hrun => ?_⟩, fun hmain => ?_⟩
  · have := hone s.worker.isSome
    omega
  · have := hone s.source.isSome
    omega
  · rw [hc.running hmain, hc.active, Option.isSome_iff_ne_none]
  · have hworker : s.worker = none := by
      rw [hc.running hmain, hc.active] at hrun
      exact Option.not_isSome_iff_eq_none.mp (by rw [hrun]; decide)
    have hstatus := hc.status fun hend => by
      rw [hend] at hmain
      exact hmain
    rwa [hworker] at hstatus
  · have hworker := hc.finished hmain
    have hsource := hc.source_eq_none hworker
    rw [hworker] at hthreads
    rw [hsource] at hsources
    exact ⟨hworker, hsource, hthreads, hsources⟩

/-- **A session keeps its settings.** Every source is started with the address, the URL and
the numbers that were in the settings when Connect was clicked, and connects to no other
address as long as it runs, whatever the dialog has saved since. -/
theorem gui_settings_kept {s : GuiApp} (h : guiApp.Reachable s) :
    (∀ g ∈ s.given, g.1 = g.2.asked) ∧ ∀ d ∈ s.dialled, d.1 = d.2.phoneIp.str :=
  (GuiApp.consistent h).records

/-! ## A session -/

/-- `main` behind `gui_create`, without a file of settings. -/
def freshApp : GuiApp where
  settings := ⟨(Chars.zero 64).snprintf (ascii "192.168.1.100"),
    (Chars.zero 256).snprintf defaultUrl.bytes, 4747, 1280, 720, 25, .avc⟩
  running := false
  status := (Chars.zero 256).snprintf enterText
  threadActive := false
  stopRequested := false
  source := none
  config := ⟨none, none, none, ⟨0, 0, 0, 0, .avc, false, false⟩, false⟩
  phoneIp := Chars.zero 64
  rtspUrl := Chars.zero 256
  main := .messages
  worker := none
  created := 0
  joined := 0
  started := 0
  stopped := 0
  chosen := ⟨Chars.zero 64, Chars.zero 256, 0, 0, 0, 0, .avc⟩
  given := []
  dialled := []
  faults := 0

theorem fresh_freshApp : freshApp.Fresh where
  phoneIp := Chars.zero_mem_snprintf _ _ (by decide)
  rtspUrl := Chars.zero_mem_snprintf _ _ (by decide)
  idle := ⟨rfl, rfl, rfl, rfl⟩
  status := Chars.str_snprintf _ (by decide) (by decide)
  zeros := ⟨rfl, rfl⟩
  main := rfl
  counts := ⟨rfl, rfl, rfl, rfl⟩
  records := ⟨rfl, rfl, rfl⟩

/-- Connect, the phone is dialled, the dialog saves another address, the phone is lost and
dialled again, and Disconnect. -/
def sessionActs : List GuiAct :=
  [.connect true, .worker true, .worker true, .worker true, .dial, .settings,
    .save (ascii "10.0.0.7") [] [] [] [] [] 1, .dial, .connect true]

theorem reachable_session : ∃ s, guiApp.Reachable s ∧ s.main = .joining .connect ∧
    s.settings.phoneIp.str = ascii "10.0.0.7" ∧
    s.dialled.map (fun d => d.2.phoneIp.str) = List.replicate 2 (ascii "192.168.1.100") := by
  obtain ⟨s, hs, hp⟩ := guiApp.reachable_of_replay
    (fun s => s.main = .joining .connect && s.settings.phoneIp.str = ascii "10.0.0.7" &&
      s.dialled.map (fun d => d.2.phoneIp.str) = List.replicate 2 (ascii "192.168.1.100"))
    freshApp sessionActs fresh_freshApp (by decide +kernel)
  simp only [Bool.and_eq_true, decide_eq_true_eq] at hp
  exact ⟨s, hs, hp.1.1, hp.1.2, hp.2⟩

theorem gui_settings_kept_session : ∃ s, guiApp.Reachable s ∧
    s.settings.phoneIp.str = ascii "10.0.0.7" ∧
    s.dialled.map Prod.fst = List.replicate 2 (ascii "192.168.1.100") := by
  obtain ⟨s, hs, -, hip, hdialled⟩ := reachable_session
  refine ⟨s, hs, hip, ?_⟩
  rw [← hdialled]
  exact List.map_congr_left (gui_settings_kept hs).2

theorem gui_sessions_session : ∃ s, guiApp.Reachable s ∧ s.main = .joining .connect ∧
    s.faults = 0 := by
  obtain ⟨s, hs, hmain, -⟩ := reachable_session
  exact ⟨s, hs, hmain, (gui_sessions hs).1⟩

end DroidcamWhip
