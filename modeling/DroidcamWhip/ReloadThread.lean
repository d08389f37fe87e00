import DroidcamWhip.Lib.Runs
import DroidcamWhip.Lib.Custody
import DroidcamWhip.DeviceList

/-!
The reload thread of a `DeviceDiscovery` beside the thread that looks for a device in
`connect_device`, step by step, up to the end of the object. Devices are known by the order
in which they are made.
-/

namespace DroidcamWhip

open Runs Custody

/-! ## The state -/

/-- An entry of `deviceList`. -/
inductive DevicePtr where
  | null
  | live (d : Nat)
  | dangling (d : Nat)
  deriving DecidableEq

/-- The device that is there. -/
def DevicePtr.live? : DevicePtr → Option Nat
  | .live d => some d
  | _ => none

/-- Where `reload_thread` is: at an entry in `Clear`, with its device deleted or not yet,
before the virtual call of `DoReload`, in it, or at its end. -/
inductive ReloadPc where
  | clearing (i : Nat) (freed : Bool)
  | dispatch
  | loading
  | ended
  deriving DecidableEq

/-- Where the other thread is: `video_thread` up to its loop, between two attempts, in
`GetDevice` before it loads an entry and before it compares a serial, with the device that it
has found, and where it has found none; then in `~DeviceDiscovery`. -/
inductive OwnerPc where
  | first
  | resetting
  | between
  | looking (i : Nat)
  | comparing (i d : Nat)
  | holding (d : Nat)
  | missed
  | destroying
  | clearing (i : Nat) (freed : Bool)
  | gone
  deriving DecidableEq

/-- A `DeviceDiscovery`. The last members record the run: how many devices were made, which were
deleted, and how often something was used behind its end. -/
structure Discovery where
  list : List DevicePtr
  rthr : Bool
  thread : Option ReloadPc
  owner : OwnerPc
  derived : Bool
  made : Nat
  deleted : List Nat
  faults : Nat

/-- What `DoReload` does next: `AddDevice` for a device that is new, something with the members
of its own class, or nothing more. -/
inductive LoadAct where
  | add
  | work
  | finish

inductive DiscoveryAct where
  | reload (create : Bool)
  | resetIter
  | lookup
  | look
  | compare (hit : Bool)
  | use
  | release
  | destroy
  | join
  | clear
  | thread (next : LoadAct)

namespace Discovery

def start : Discovery where
  list := List.replicate devicesLimit .null
  rthr := false
  thread := none
  owner := .first
  derived := true
  made := 0
  deleted := []
  faults := 0

/-! ## The code -/

/-- A member of the device is read. -/
def access (s : Discovery) (d : Nat) : Discovery :=
  { s with faults := s.faults + if d ∈ s.deleted then 1 else 0 }

/-- A member of the derived class is used. -/
def accessDerived (s : Discovery) : Discovery :=
  { s with faults := s.faults + if s.derived then 0 else 1 }

/-- One half of the body of the loop in `Clear`. -/
def clearEntry (s : Discovery) (i : Nat) (freed : Bool) : Discovery :=
  if freed then { s with list := s.list.set i .null }
  else
    match s.list[i]? with
    | some (.live d) => { s with list := s.list.set i (.dangling d), deleted := s.deleted ++ [d] }
    | some (.dangling d) => { s.access d with deleted := s.deleted ++ [d] }
    | _ => s

/-- The place in the loop behind that. -/
def clearNext (i : Nat) (freed : Bool) : Nat × Bool := if freed then (i + 1, false) else (i, true)

/-- `join`, if it returns. -/
def joined (s : Discovery) : Option Discovery :=
  if s.rthr then
    if s.thread = some .ended then some { s with rthr := false, thread := none } else none
  else some s

/-- `AddDevice` for a serial that is not in the list. -/
def addDevice (s : Discovery) : Discovery :=
  match s.list.findIdx? fun p => p = .null with
  | none => s
  | some i => { s with list := s.list.set i (.live s.made), made := s.made + 1 }

/-- `reload_thread`. -/
def threadStep (s : Discovery) (next : LoadAct) : Option Discovery :=
  match s.thread with
  | none => none
  | some (.clearing i freed) =>
      if i < devicesLimit then
        let (j, f) := clearNext i freed
        some { s.clearEntry i freed with thread := some (.clearing j f) }
      else some { s with thread := some .dispatch }
  | some .dispatch => some { s.accessDerived with thread := some .loading }
  | some .loading =>
      match next with
      | .add => some s.accessDerived.addDevice
      | .work => some s.accessDerived
      | .finish => some { s with thread := some .ended }
  | some .ended => none

/-- `Reload` behind `join`. -/
def create (s : Discovery) (created : Bool) : Discovery :=
  if created then { s with rthr := true, thread := some (.clearing 0 false) } else s

def step (s : Discovery) : DiscoveryAct → Option Discovery
  | .reload created =>
      match s.owner with
      | .first => s.joined.map fun t => { t.create created with owner := .resetting }
      | .missed => s.joined.map fun t => { t.create created with owner := .between }
      | _ => none
  | .resetIter =>
      if s.owner = .resetting then s.joined.map fun t => { t with owner := .between } else none
  | .lookup => if s.owner = .between then some { s with owner := .looking 0 } else none
  | .look =>
      match s.owner with
      | .looking i =>
          match s.list[i]? with
          | some (.live d) | some (.dangling d) => some { s with owner := .comparing i d }
          | _ => some { s with owner := .missed }
      | _ => none
  | .compare hit =>
      match s.owner with
      | .comparing i d =>
          some { s.access d with owner := if hit then .holding d else .looking (i + 1) }
      | _ => none
  | .use =>
      match s.owner with
      | .holding d => some (s.access d)
      | _ => none
  | .release =>
      match s.owner with
      | .holding _ => some { s with owner := .between }
      | _ => none
  | .destroy =>
      if s.owner = .between then some { s with derived := false, owner := .destroying } else none
  | .join =>
      if s.owner = .destroying then s.joined.map fun t => { t with owner := .clearing 0 false }
      else none
  | .clear =>
      match s.owner with
      | .clearing i freed =>
          if i < devicesLimit then
            let (j, f) := clearNext i freed
            some { s.clearEntry i freed with owner := .clearing j f }
          else some { s with owner := .gone }
      | _ => none
  | .thread next => s.threadStep next

end Discovery

def discovery : Machine Discovery DiscoveryAct := ⟨fun s => s = .start, Discovery.step⟩

/-- The thread is in `Clear`. -/
def Discovery.Clearing (s : Discovery) : Prop := ∃ i freed, s.thread = some (.clearing i freed)

/-- No search begins while the thread clears the list, and the object is not destroyed while
there is a thread at work. -/
def Timely (s : Discovery) : DiscoveryAct → Prop
  | .lookup => ¬ s.Clearing
  | .destroy => s.thread = none ∨ s.thread = some .ended
  | _ => True

/-! ## Devices -/

/-- The devices in the list. -/
def lives (list : List DevicePtr) : List Nat := list.filterMap DevicePtr.live?

theorem count_lives_set {list : List DevicePtr} {i : Nat} {p q : DevicePtr}
    (hp : list[i]? = some p) (a : Nat) :
    (lives (list.set i q)).count a + p.live?.toList.count a =
      (lives list).count a + q.live?.toList.count a := by
  induction list generalizing i with
  | nil => cases hp
  | cons r list ih =>
    have hcons : ∀ (x : DevicePtr) (l : List DevicePtr),
        (lives (x :: l)).count a = x.live?.toList.count a + (lives l).count a := fun x l => by
      rw [lives, List.filterMap_cons, lives]
      cases x.live? with
      | none => simp
      | some d => simp [List.count_cons, Nat.add_comm]
    cases i with
    | zero =>
      cases hp
      rw [List.set_cons_zero, hcons, hcons]
      omega
    | succ i =>
      have hrest := ih (show list[i]? = some p from hp)
      rw [List.set_cons_succ, hcons, hcons]
      omega

theorem mem_lives {list : List DevicePtr} {i d : Nat} (h : list[i]? = some (.live d)) :
    d ∈ lives list :=
  List.mem_filterMap.mpr ⟨.live d, List.mem_of_getElem? h, rfl⟩

/-! ## Every run -/

namespace Discovery

/-- The loop of `Clear` is at the entry `i`: those before are null, and only this one may
dangle, when its device has been deleted. -/
structure ClearedTo (list : List DevicePtr) (i : Nat) (freed : Bool) : Prop where
  before : ∀ j < i, list[j]? = some .null
  emptied : freed = true → ∀ d, list[i]? ≠ some (DevicePtr.live d)
  dangling : ∀ j d, list[j]? = some (DevicePtr.dangling d) → j = i ∧ freed = true

/-- Nothing dangles. -/
def Clean (list : List DevicePtr) : Prop :=
  ∀ (j d : Nat), list[j]? ≠ some (DevicePtr.dangling d)

theorem Clean.clearedTo {list : List DevicePtr} (h : Clean list) : ClearedTo list 0 false :=
  ⟨fun j hj => absurd hj (Nat.not_lt_zero j), (fun hf => by cases hf),
    fun j d hd => absurd hd (h j d)⟩

structure Sound (s : Discovery) : Prop where
  size : s.list.length = devicesLimit
  rthr : s.rthr = s.thread.isSome
  thread : ∀ i freed, s.thread = some (.clearing i freed) → ClearedTo s.list i freed
  owner : ∀ i freed, s.owner = .clearing i freed → ClearedTo s.list i freed
  clean : ¬ s.Clearing → (∀ i freed, s.owner ≠ .clearing i freed) → Clean s.list
  alone : (∃ i freed, s.owner = .clearing i freed) ∨ s.owner = .gone → s.thread = none
  gone : s.owner = .gone → ∀ j < devicesLimit, s.list[j]? = some .null
  held : Held [lives s.list, s.deleted] s.made

variable {s t : Discovery}

/-- One half of the body of the loop in `Clear`. -/
theorem clearEntry_eq {i : Nat} {freed : Bool} (hi : i < s.list.length)
    (hto : ClearedTo s.list i freed) (hheld : Held [lives s.list, s.deleted] s.made) :
    ∃ list deleted, s.clearEntry i freed = { s with list := list, deleted := deleted } ∧
      list.length = s.list.length ∧
      ClearedTo list (clearNext i freed).1 (clearNext i freed).2 ∧
      Held [lives list, deleted] s.made := by
  obtain ⟨p, hp⟩ : ∃ p, s.list[i]? = some p := ⟨_, List.getElem?_eq_getElem hi⟩
  have hset : ∀ (q : DevicePtr) (j : Nat), (s.list.set i q)[j]? =
      if i = j then some q else s.list[j]? := fun q j => by
    rw [List.getElem?_set]
    split
    · rfl
    · rfl
  cases freed with
  | true =>
    refine ⟨s.list.set i .null, s.deleted, rfl, List.length_set .., ⟨fun j hj => ?_,
      (fun hf => by cases hf), fun j d hd => ?_⟩, hheld.move fun a => ?_⟩
    · have hj' : j < i + 1 := hj
      rw [hset]
      split
      · rfl
      · exact hto.before j (by omega)
    · rw [hset] at hd
      split at hd
      · cases hd
      · rename_i hne
        exact absurd (hto.dangling j d hd).1.symm hne
    · have hcount := count_lives_set hp (q := .null) a
      have hno : p.live? = none := by
        cases p with
        | live d => exact absurd hp (hto.emptied rfl d)
        | null => rfl
        | dangling d => rfl
      rw [hno] at hcount
      simp only [occurrences_cons, occurrences_nil]
      simpa [DevicePtr.live?] using hcount
  | false =>
    cases p with
    | null =>
      refine ⟨s.list, s.deleted, ?_, rfl, ⟨hto.before, fun _ d hd => ?_, fun j d hd => ?_⟩, hheld⟩
      · simp [clearEntry, hp]
      · have hd' : s.list[i]? = some (.live d) := hd
        rw [hp] at hd'
        cases hd'
      · exact absurd (hto.dangling j d hd).2 (by decide)
    | dangling d => exact absurd (hto.dangling i d hp).2 (by decide)
    | live d =>
      refine ⟨s.list.set i (.dangling d), s.deleted ++ [d], ?_, List.length_set ..,
        ⟨fun j hj => ?_, fun _ e he => ?_, fun j e he => ?_⟩, hheld.move fun a => ?_⟩
      · simp [clearEntry, hp]
      · have hj' : j < i := hj
        rw [hset, if_neg (by omega)]
        exact hto.before j hj'
      · have he' : (s.list.set i (.dangling d))[i]? = some (.live e) := he
        rw [hset, if_pos rfl] at he'
        cases he'
      · rw [hset] at he
        split at he
        · rename_i hij
          exact ⟨hij.symm, rfl⟩
        · exact absurd (hto.dangling j e he).2 (by decide)
      · have hcount := count_lives_set hp (q := .dangling d) a
        simp only [DevicePtr.live?, Option.toList_some, Option.toList_none, List.count_nil] at hcount
        simp only [occurrences_cons, occurrences_nil, List.count_append]
        omega

/-- The loop of `Clear` is through. -/
theorem ClearedTo.done {list : List DevicePtr} {i : Nat} {freed : Bool}
    (h : ClearedTo list i freed) (hi : ¬ i < devicesLimit) (hlen : list.length = devicesLimit) :
    Clean list ∧ ∀ j < devicesLimit, list[j]? = some .null := by
  have hnull : ∀ j < devicesLimit, list[j]? = some .null := fun j hj => h.before j (by omega)
  refine ⟨fun j d hd => ?_, hnull⟩
  have hlt := (List.getElem?_eq_some_iff.mp hd).1
  rw [hnull j (hlen ▸ hlt)] at hd
  cases hd

/-- `AddDevice` for a new serial. -/
theorem addDevice_eq (hclean : Clean s.list) (hheld : Held [lives s.list, s.deleted] s.made) :
    ∃ list made, s.addDevice = { s with list := list, made := made } ∧
      list.length = s.list.length ∧ Clean list ∧ Held [lives list, s.deleted] made := by
  unfold addDevice
  cases hfind : s.list.findIdx? fun p => p = .null with
  | none => exact ⟨s.list, s.made, rfl, rfl, hclean, hheld⟩
  | some i =>
    obtain ⟨hi, hnull, -⟩ := List.findIdx?_eq_some_iff_getElem.mp hfind
    have hp : s.list[i]? = some .null := by
      rw [List.getElem?_eq_getElem hi]
      simpa using hnull
    refine ⟨s.list.set i (.live s.made), s.made + 1, rfl, List.length_set .., fun j d hd => ?_,
      hheld.issue fun a => ?_⟩
    · rw [List.getElem?_set] at hd
      split at hd
      · cases hd
      · exact hclean j d hd
    · have hcount := count_lives_set hp (q := .live s.made) a
      simp only [DevicePtr.live?, Option.toList_some, Option.toList_none, List.count_nil,
        List.count_singleton, beq_iff_eq] at hcount
      simp only [occurrences_cons, occurrences_nil]
      rw [show (if a = s.made then 1 else 0) = if s.made = a then 1 else 0 by
        simp only [eq_comm]]
      omega

theorem sound_start : Sound start := by
  have hclean : Clean (List.replicate devicesLimit DevicePtr.null) := fun j d hd => by
    have := List.eq_of_mem_replicate (List.mem_of_getElem? hd)
    cases this
  have hnil : lives (List.replicate devicesLimit DevicePtr.null) = [] :=
    List.filterMap_replicate_of_none rfl
  refine ⟨List.length_replicate, rfl, (fun i f h => by cases h), (fun i f h => by cases h),
    fun _ _ => hclean, fun _ => rfl, (fun h => by cases h), fun a => ?_⟩
  show occurrences [lives (List.replicate devicesLimit DevicePtr.null), []] a = _
  rw [hnil]
  rfl

/-- The other thread goes on outside of `Clear`. -/
theorem Sound.moved (h : s.Sound) (ho : ∀ i freed, s.owner ≠ .clearing i freed)
    (owner : OwnerPc) (ho' : ∀ i freed, owner ≠ .clearing i freed) (hg' : owner ≠ .gone) : Sound { s with owner := owner } :=
  { h with
    owner := fun i freed hc => absurd hc (ho' i freed)
    clean := fun hclear _ => h.clean hclear ho
    alone := fun hor => by
      obtain ⟨i, freed, hc⟩ | hgone := hor
      · exact absurd hc (ho' i freed)
      · exact absurd hgone hg'
    gone := fun hgone => absurd hgone hg' }

/-- `join` returns when there is no thread that still runs. -/
theorem joined_eq (h : s.Sound) (ht : s.joined = some t) :
    (s.thread = none ∨ s.thread = some .ended) ∧ t = { s with rthr := false, thread := none } := by
  have hrthr := h.rthr
  unfold joined at ht
  cases hthread : s.thread with
  | none =>
    rw [hthread] at hrthr
    rw [if_neg (by rw [hrthr]; decide)] at ht
    cases ht
    refine ⟨.inl rfl, ?_⟩
    rw [← hthread, ← show s.rthr = false from hrthr]
  | some pc =>
    rw [hthread] at hrthr
    rw [if_pos (by rw [hrthr]; rfl)] at ht
    split at ht
    · rename_i hended
      cases ht
      exact ⟨.inr (hthread ▸ hended), rfl⟩
    · cases ht

theorem not_clearing (h : s.thread = none ∨ s.thread = some .ended) : ¬ s.Clearing := by
  rintro ⟨i, freed, hc⟩
  rw [hc] at h
  rcases h with h | h <;> cases h

theorem Sound.joined (h : s.Sound) (ht : s.joined = some t) : t.Sound := by
  obtain ⟨hthread, rfl⟩ := joined_eq h ht
  exact { h with
    rthr := rfl
    thread := fun i freed hc => by cases hc
    clean := fun _ => h.clean (not_clearing hthread)
    alone := fun _ => rfl }

/-- `Reload`, from a place outside of `Clear`. -/
theorem Sound.reload (h : s.Sound) (ho : ∀ i freed, s.owner ≠ .clearing i freed) {u : Discovery} (hu : s.joined = some u) (created : Bool)
    (owner : OwnerPc) (ho' : ∀ i freed, owner ≠ .clearing i freed) (hg' : owner ≠ .gone) :
    Sound { u.create created with owner := owner } := by
  have hsound := h.joined hu
  obtain ⟨hthread, rfl⟩ := joined_eq h hu
  have hclean := h.clean (not_clearing hthread) ho
  have hmoved := hsound.moved ho owner ho' hg'
  unfold create
  cases created with
  | false => exact hmoved
  | true =>
    exact { hmoved with
      rthr := rfl
      thread := fun i freed hc => by
        cases hc
        exact hclean.clearedTo
      clean := fun hno => absurd ⟨0, false, rfl⟩ hno
      alone := fun hor => by
        obtain ⟨i, freed, hc⟩ | hgone := hor
        · exact absurd hc (ho' i freed)
        · exact absurd hgone hg' }

theorem Sound.threadStep (h : s.Sound) {next : LoadAct} (ht : s.threadStep next = some t) :
    t.Sound := by
  unfold Discovery.threadStep at ht
  have hfree : ∀ pc, s.thread = some pc →
      (∀ i freed, s.owner ≠ .clearing i freed) ∧ s.owner ≠ .gone := fun pc hpc => by
    constructor
    · intro i freed hc
      rw [h.alone (.inl ⟨i, freed, hc⟩)] at hpc
      cases hpc
    · intro hgone
      rw [h.alone (.inr hgone)] at hpc
      cases hpc
  cases hthread : s.thread with
  | none =>
    rw [hthread] at ht
    cases ht
  | some pc =>
    rw [hthread] at ht
    obtain ⟨ho, hg⟩ := hfree pc hthread
    have hrthr := h.rthr
    rw [hthread] at hrthr
    cases pc with
    | clearing i freed =>
      have hto := h.thread i freed hthread
      dsimp only at ht
      split at ht
      · rename_i hi
        cases ht
        obtain ⟨list, deleted, heq, hlen, hnext, hheld⟩ :=
          clearEntry_eq (h.size ▸ hi) hto h.held
        rw [heq]
        exact { h with
          size := hlen.trans h.size
          rthr := hrthr
          thread := fun j f hc => by
            cases hc
            exact hnext
          owner := fun j f hc => absurd hc (ho j f)
          clean := fun hno => absurd ⟨_, _, rfl⟩ hno
          alone := fun hor => by
            obtain ⟨j, f, hc⟩ | hgone := hor
            · exact absurd hc (ho j f)
            · exact absurd hgone hg
          gone := fun hgone => absurd hgone hg
          held := hheld }
      · rename_i hi
        cases ht
        exact { h with
          rthr := hrthr
          thread := fun j f hc => by cases hc
          clean := fun _ _ => (hto.done hi h.size).1
          alone := fun hor => by
            obtain ⟨j, f, hc⟩ | hgone := hor
            · exact absurd hc (ho j f)
            · exact absurd hgone hg }
    | dispatch =>
      cases ht
      exact { h with
        rthr := hrthr
        thread := fun j f hc => by cases hc
        clean := fun _ => h.clean fun ⟨j, f, hc⟩ => by
          rw [hthread] at hc
          cases hc
        alone := fun hor => by
          obtain ⟨j, f, hc⟩ | hgone := hor
          · exact absurd hc (ho j f)
          · exact absurd hgone hg }
    | loading =>
      have hno : ¬ s.Clearing := fun ⟨j, f, hc⟩ => by
        rw [hthread] at hc
        cases hc
      cases next with
      | add =>
        cases ht
        obtain ⟨list, made, heq, hlen, hclean, hheld⟩ :=
          addDevice_eq (s := s.accessDerived) (h.clean hno ho) h.held
        rw [heq]
        exact { h with
          size := hlen.trans h.size
          thread := fun j f hc => absurd ⟨j, f, hc⟩ hno
          owner := fun j f hc => absurd hc (ho j f)
          clean := fun _ _ => hclean
          gone := fun hgone => absurd hgone hg
          held := hheld }
      | work =>
        cases ht
        exact { h with }
      | finish =>
        cases ht
        exact { h with
          rthr := hrthr
          thread := fun j f hc => by cases hc
          clean := fun _ => h.clean hno
          alone := fun hor => by
            obtain ⟨j, f, hc⟩ | hgone := hor
            · exact absurd hc (ho j f)
            · exact absurd hgone hg }
    | ended => cases ht

theorem sound_step (h : s.Sound) {a : DiscoveryAct} (ht : s.step a = some t) : t.Sound := by
  cases a with
  | reload created =>
    simp only [step] at ht
    split at ht
    · rename_i ho
      obtain ⟨u, hu, rfl⟩ := Option.map_eq_some_iff.mp ht
      exact h.reload (by simp [ho]) hu created _ (by simp) (by simp)
    · rename_i ho
      obtain ⟨u, hu, rfl⟩ := Option.map_eq_some_iff.mp ht
      exact h.reload (by simp [ho]) hu created _ (by simp) (by simp)
    · cases ht
  | resetIter =>
    simp only [step] at ht
    split at ht
    · rename_i ho
      obtain ⟨u, hu, rfl⟩ := Option.map_eq_some_iff.mp ht
      exact h.reload (by simp [ho]) hu false _ (by simp) (by simp)
    · cases ht
  | lookup =>
    simp only [step] at ht
    split at ht
    · rename_i ho
      cases ht
      exact h.moved (by simp [ho]) _ (by simp) (by simp)
    · cases ht
  | look =>
    simp only [step] at ht
    split at ht
    · rename_i ho
      split at ht <;> cases ht <;>
        exact h.moved (by simp [ho]) _ (by simp) (by simp)
    · cases ht
  | compare hit =>
    simp only [step] at ht
    split at ht
    · rename_i i d ho
      cases ht
      have hmoved := h.moved (by simp [ho])
        (if hit then .holding d else .looking (i + 1)) (by cases hit <;> simp)
        (by cases hit <;> simp)
      exact { hmoved with }
    · cases ht
  | use =>
    simp only [step] at ht
    split at ht
    · cases ht
      exact { h with }
    · cases ht
  | release =>
    simp only [step] at ht
    split at ht
    · rename_i ho
      cases ht
      exact h.moved (by simp [ho]) _ (by simp) (by simp)
    · cases ht
  | destroy =>
    simp only [step] at ht
    split at ht
    · rename_i ho
      cases ht
      have hmoved := h.moved (by simp [ho]) .destroying (by simp) (by simp)
      exact { hmoved with }
    · cases ht
  | join =>
    simp only [step] at ht
    split at ht
    · rename_i ho
      obtain ⟨u, hu, rfl⟩ := Option.map_eq_some_iff.mp ht
      have hsound := h.joined hu
      obtain ⟨hthread, rfl⟩ := joined_eq h hu
      have hclean := h.clean (not_clearing hthread) (by simp [ho])
      exact { hsound with
        owner := fun i freed hc => by
          cases hc
          exact hclean.clearedTo
        clean := fun _ hno => absurd rfl (hno 0 false)
        alone := fun _ => rfl
        gone := fun hgone => by cases hgone }
    · cases ht
  | clear =>
    simp only [step] at ht
    split at ht
    · rename_i i freed ho
      have hto := h.owner i freed ho
      have hnone := h.alone (.inl ⟨i, freed, ho⟩)
      split at ht
      · rename_i hi
        cases ht
        obtain ⟨list, deleted, heq, hlen, hnext, hheld⟩ := clearEntry_eq (h.size ▸ hi) hto h.held
        rw [heq]
        exact { h with
          size := hlen.trans h.size
          thread := fun j f hc => by
            have hc' : s.thread = some (.clearing j f) := hc
            rw [hnone] at hc'
            cases hc'
          owner := fun j f hc => by
            cases hc
            exact hnext
          clean := fun _ hno => absurd rfl (hno _ _)
          alone := fun _ => hnone
          gone := fun hgone => by cases hgone
          held := hheld }
      · rename_i hi
        cases ht
        exact { h with
          owner := fun j f hc => by cases hc
          clean := fun _ _ => (hto.done hi h.size).1
          alone := fun _ => hnone
          gone := fun _ => (hto.done hi h.size).2 }
    · cases ht
  | thread next => exact h.threadStep ht

theorem sound {s : Discovery} (h : discovery.Reachable s) : s.Sound :=
  Machine.Reach.invariant (M := discovery) (I := Sound)
    (fun s h0 => (show s = start from h0) ▸ sound_start)
    (fun _ _ _ _ hi _ ht => sound_step hi ht) h

end Discovery

/-- **No device is lost.** In every run, however searches, reloads and the destruction are
interleaved, each device is in the list or has been deleted, and deleted once; when the object
is gone all are deleted and no thread is left. -/
theorem devices_deleted {s : Discovery} (h : discovery.Reachable s) :
    (lives s.list ++ s.deleted).Perm (List.range s.made) ∧
      (s.owner = .gone → s.thread = none ∧ s.deleted.Perm (List.range s.made)) := by
  have hs := Discovery.sound h
  have hperm := (held_iff_perm _ _).mp hs.held
  simp only [List.flatten_cons, List.flatten_nil, List.append_nil] at hperm
  refine ⟨hperm, fun hgone => ⟨hs.alone (.inr hgone), ?_⟩⟩
  have hnil : lives s.list = [] := by
    refine List.filterMap_eq_nil_iff.mpr fun p hp => ?_
    obtain ⟨j, hj⟩ := List.mem_iff_getElem?.mp hp
    have hlt := (List.getElem?_eq_some_iff.mp hj).1
    rw [hs.gone hgone j (hs.size ▸ hlt)] at hj
    cases hj
    rfl
  rwa [hnil, List.nil_append] at hperm

/-! ## Timely runs -/

/-- The search has gone beyond its start and has not missed. -/
def OwnerPc.Searching : OwnerPc → Prop
  | .looking _ | .comparing _ _ | .holding _ => True
  | _ => False

/-- The thread has a pointer to the device. -/
def OwnerPc.Points (d : Nat) : OwnerPc → Prop
  | .comparing _ e | .holding e => e = d
  | _ => False

/-- The destructor has been entered. -/
def OwnerPc.Late : OwnerPc → Prop
  | .destroying | .clearing _ _ | .gone => True
  | _ => False

namespace Discovery

structure Spared (s : Discovery) : Prop where
  searching : s.owner.Searching → ¬ s.Clearing
  pointer : ∀ d, s.owner.Points d → d ∈ lives s.list
  derived : s.derived = false → (s.thread = none ∨ s.thread = some .ended) ∧ s.owner.Late
  faults : s.faults = 0

variable {s t : Discovery}

/-- A device in the list is not deleted. -/
theorem Sound.not_deleted (h : s.Sound) {d : Nat} (hd : d ∈ lives s.list) : d ∉ s.deleted := by
  intro hdel
  have hcount := h.held d
  simp only [occurrences_cons, occurrences_nil] at hcount
  have h₁ := List.count_pos_iff.mpr hd
  have h₂ := List.count_pos_iff.mpr hdel
  split at hcount <;> omega

theorem Sound.access_eq (h : s.Sound) {d : Nat} (hd : d ∈ lives s.list) : s.access d = s := by
  unfold access
  rw [if_neg (h.not_deleted hd)]
  rfl

/-- The derived class is there while the thread is at work. -/
theorem Spared.alive (h : s.Spared) {pc : ReloadPc} (hpc : s.thread = some pc)
    (hne : pc ≠ .ended) : s.derived = true := by
  cases hd : s.derived with
  | true => rfl
  | false =>
    obtain ⟨hnone | hended, -⟩ := h.derived hd
    · rw [hpc] at hnone
      cases hnone
    · rw [hpc] at hended
      exact absurd (Option.some_inj.mp hended) hne

theorem Spared.accessDerived_eq (h : s.Spared) {pc : ReloadPc} (hpc : s.thread = some pc)
    (hne : pc ≠ .ended) : s.accessDerived = s := by
  unfold accessDerived
  rw [if_pos (h.alive hpc hne)]
  rfl

/-- A device stays in the list when another is added. -/
theorem lives_addDevice {d : Nat} (hd : d ∈ lives s.list) : d ∈ lives s.addDevice.list := by
  unfold addDevice
  cases hfind : s.list.findIdx? fun p => p = .null with
  | none => exact hd
  | some i =>
    obtain ⟨hi, hnull, -⟩ := List.findIdx?_eq_some_iff_getElem.mp hfind
    have hp : s.list[i]? = some .null := by
      rw [List.getElem?_eq_getElem hi]
      simpa using hnull
    have hcount := count_lives_set hp (q := .live s.made) d
    have hpos := List.count_pos_iff.mpr hd
    have hnil : DevicePtr.null.live?.toList.count d = 0 := rfl
    refine List.count_pos_iff.mp ?_
    show 0 < (lives (s.list.set i (.live s.made))).count d
    omega

theorem Spared.owner_to (h : s.Spared) {owner : OwnerPc} (hs : ¬ owner.Searching)
    (hp : ∀ d, ¬ owner.Points d) (hl : s.owner.Late → owner.Late) :
    Spared { s with owner := owner } :=
  ⟨fun h' => absurd h' hs, fun d h' => absurd h' (hp d),
    fun hd => ⟨(h.derived hd).1, hl (h.derived hd).2⟩, h.faults⟩

theorem spared_thread (hs : s.Sound) (h : s.Spared) {next : LoadAct}
    (ht : s.threadStep next = some t) : t.Spared := by
  unfold Discovery.threadStep at ht
  cases hthread : s.thread with
  | none =>
    rw [hthread] at ht
    cases ht
  | some pc =>
    rw [hthread] at ht
    cases pc with
    | clearing i freed =>
      have hd := h.alive hthread (by simp)
      have hquiet : ¬ s.owner.Searching := fun h' => h.searching h' ⟨i, freed, hthread⟩
      have hpoints : ∀ d, ¬ s.owner.Points d := fun d hp => hquiet (by
        cases ho : s.owner <;> rw [ho] at hp <;> first | exact hp.elim | trivial)
      have hlate : ¬ s.derived = false := fun hd' => by
        rw [hd] at hd'
        cases hd'
      dsimp only at ht
      split at ht
      · rename_i hi
        cases ht
        obtain ⟨list, deleted, heq, -, -, -⟩ :=
          clearEntry_eq (hs.size ▸ hi) (hs.thread i freed hthread) hs.held
        rw [heq]
        exact ⟨fun h' => absurd h' hquiet, fun d hp => absurd hp (hpoints d),
          fun hd' => absurd hd' hlate, h.faults⟩
      · cases ht
        exact ⟨fun h' => absurd h' hquiet, fun d hp => absurd hp (hpoints d),
          fun hd' => absurd hd' hlate, h.faults⟩
    | dispatch =>
      cases ht
      have hd := h.alive hthread (by simp)
      rw [h.accessDerived_eq hthread (by simp)]
      refine ⟨fun _ => ?_, h.pointer, fun hd' => ?_, h.faults⟩
      · rintro ⟨i, freed, hc⟩
        cases hc
      · rw [show s.derived = false from hd'] at hd
        cases hd
    | loading =>
      have hd := h.alive hthread (by simp)
      have hno : ¬ s.Clearing := fun ⟨j, f, hc⟩ => by
        rw [hthread] at hc
        cases hc
      cases next with
      | add =>
        cases ht
        rw [h.accessDerived_eq hthread (by simp)]
        have hlives : ∀ d, d ∈ lives s.list → d ∈ lives s.addDevice.list :=
          fun d => lives_addDevice
        have howner : s.addDevice.owner = s.owner ∧ s.addDevice.thread = s.thread ∧
            s.addDevice.derived = s.derived ∧ s.addDevice.faults = s.faults := by
          unfold addDevice
          split <;> exact ⟨rfl, rfl, rfl, rfl⟩
        obtain ⟨ho, hth, hde, hfa⟩ := howner
        refine ⟨fun _ => ?_, fun d hp => hlives d (h.pointer d (ho ▸ hp)), fun hd' => ?_,
          hfa.trans h.faults⟩
        · rintro ⟨i, freed, hc⟩
          exact hno ⟨i, freed, hth ▸ hc⟩
        · rw [hde, hd] at hd'
          cases hd'
      | work =>
        cases ht
        rw [h.accessDerived_eq hthread (by simp)]
        exact h
      | finish =>
        cases ht
        refine ⟨fun _ => ?_, h.pointer, fun hd' => ?_, h.faults⟩
        · rintro ⟨i, freed, hc⟩
          cases hc
        · rw [show s.derived = false from hd'] at hd
          cases hd
    | ended => cases ht

theorem spared_step (hs : s.Sound) (h : s.Spared) {a : DiscoveryAct} (hg : Timely s a)
    (ht : s.step a = some t) : t.Spared := by
  cases a with
  | reload created =>
    have hreload : ∀ {u : Discovery} {owner : OwnerPc}, ¬ s.owner.Late → s.joined = some u →
        ¬ owner.Searching → (∀ d, ¬ owner.Points d) →
          Spared { u.create created with owner := owner } := by
      intro u owner hearly hu hquiet hpoints
      obtain ⟨-, rfl⟩ := joined_eq hs hu
      have hd : ∀ {p : Prop}, s.derived = false → p := fun hd' =>
        absurd (h.derived hd').2 hearly
      cases created <;>
        exact ⟨fun h' => absurd h' hquiet, fun d hp => absurd hp (hpoints d), hd, h.faults⟩
    simp only [step] at ht
    split at ht
    · rename_i ho
      obtain ⟨u, hu, rfl⟩ := Option.map_eq_some_iff.mp ht
      exact hreload (by rw [ho]; exact id) hu id fun _ => id
    · rename_i ho
      obtain ⟨u, hu, rfl⟩ := Option.map_eq_some_iff.mp ht
      exact hreload (by rw [ho]; exact id) hu id fun _ => id
    · cases ht
  | resetIter =>
    simp only [step] at ht
    split at ht
    · rename_i ho
      obtain ⟨u, hu, rfl⟩ := Option.map_eq_some_iff.mp ht
      obtain ⟨-, rfl⟩ := joined_eq hs hu
      refine ⟨fun h' => h'.elim, fun d hp => hp.elim, fun hd => ?_, h.faults⟩
      have hlate := (h.derived hd).2
      rw [ho] at hlate
      exact hlate.elim
    · cases ht
  | lookup =>
    simp only [step] at ht
    split at ht
    · rename_i ho
      cases ht
      refine ⟨fun _ => hg, fun d hp => hp.elim, fun hd => ?_, h.faults⟩
      have hlate := (h.derived hd).2
      rw [ho] at hlate
      exact hlate.elim
    · cases ht
  | look =>
    simp only [step] at ht
    split at ht
    · rename_i i ho
      have hno : ¬ s.Clearing := h.searching (by rw [ho]; trivial)
      have hearly : ∀ {p : Prop}, s.derived = false → p := fun hd => by
        have hlate := (h.derived hd).2
        rw [ho] at hlate
        exact hlate.elim
      split at ht
      · rename_i d hd
        cases ht
        exact ⟨fun _ => hno, fun e he => (show d = e from he) ▸ mem_lives hd, hearly, h.faults⟩
      · rename_i d hd
        exact absurd hd (hs.clean hno (by simp [ho]) i d)
      · cases ht
        exact ⟨fun h' => h'.elim, fun d hp => hp.elim, hearly, h.faults⟩
    · cases ht
  | compare hit =>
    simp only [step] at ht
    split at ht
    · rename_i i d ho
      have hno : ¬ s.Clearing := h.searching (by rw [ho]; trivial)
      have hd : d ∈ lives s.list := h.pointer d (by rw [ho]; rfl)
      have hearly : ∀ {p : Prop}, s.derived = false → p := fun hd => by
        have hlate := (h.derived hd).2
        rw [ho] at hlate
        exact hlate.elim
      rw [hs.access_eq hd] at ht
      cases ht
      cases hit with
      | true => exact ⟨fun _ => hno, fun e he => (show d = e from he) ▸ hd, hearly, h.faults⟩
      | false => exact ⟨fun _ => hno, fun e he => he.elim, hearly, h.faults⟩
    · cases ht
  | use =>
    simp only [step] at ht
    split at ht
    · rename_i d ho
      rw [hs.access_eq (h.pointer d (by rw [ho]; rfl))] at ht
      cases ht
      exact h
    · cases ht
  | release =>
    simp only [step] at ht
    split at ht
    · rename_i ho
      cases ht
      exact h.owner_to id (fun _ => id) fun hlate => by rwa [ho] at hlate
    · cases ht
  | destroy =>
    simp only [step] at ht
    split at ht
    · cases ht
      exact ⟨fun h' => h'.elim, fun d hp => hp.elim, fun _ => ⟨hg, trivial⟩, h.faults⟩
    · cases ht
  | join =>
    simp only [step] at ht
    split at ht
    · obtain ⟨u, hu, rfl⟩ := Option.map_eq_some_iff.mp ht
      obtain ⟨-, rfl⟩ := joined_eq hs hu
      exact ⟨fun h' => h'.elim, fun d hp => hp.elim, fun _ => ⟨.inl rfl, trivial⟩, h.faults⟩
    · cases ht
  | clear =>
    simp only [step] at ht
    split at ht
    · rename_i i freed ho
      have hnone := hs.alone (.inl ⟨i, freed, ho⟩)
      split at ht
      · rename_i hi
        cases ht
        obtain ⟨list, deleted, heq, -, -, -⟩ :=
          clearEntry_eq (hs.size ▸ hi) (hs.owner i freed ho) hs.held
        rw [heq]
        exact ⟨fun h' => h'.elim, fun d hp => hp.elim, fun _ => ⟨.inl hnone, trivial⟩, h.faults⟩
      · cases ht
        exact ⟨fun h' => h'.elim, fun d hp => hp.elim, fun _ => ⟨.inl hnone, trivial⟩, h.faults⟩
    · cases ht
  | thread next => exact spared_thread hs h ht

theorem spared {s : Discovery} (h : discovery.Reach Timely s) : s.Spared :=
  Machine.Reach.invariant (M := discovery) (I := Spared)
    (fun s h0 => (show s = start from h0) ▸
      ⟨fun h' => h'.elim, fun d hp => hp.elim, (fun hd => by cases hd), rfl⟩)
    (fun _ _ _ hr hi hg ht => spared_step (sound hr.reachable) hi hg ht) h

end Discovery

/-- **Timely runs use nothing behind its end.** If no search for a device begins while the
reload thread clears the list, and the object is not destroyed while that thread is at work,
then no device is read after it has been deleted, however the two threads are interleaved
otherwise, and the thread uses nothing of a class that is destroyed. -/
theorem reload_spared {s : Discovery} (h : discovery.Reach Timely s) :
    s.faults = 0 ∧ ∀ d, s.owner.Points d → d ∉ s.deleted :=
  have hs := Discovery.spared h
  ⟨hs.faults, fun d hd => (Discovery.sound h.reachable).not_deleted (hs.pointer d hd)⟩

/-! ## Runs -/

/-- `Clear` by the thread up to the entry `n`, and the call of `DoReload`. -/
def clearAll (n : Nat) : List DiscoveryAct :=
  List.replicate (2 * n + 1) (.thread .finish) ++ [.thread .finish]

/-- Two devices are found, the list is searched for the first of them, which is used, and the
object is destroyed. -/
def timelyActs : List DiscoveryAct :=
  [.reload true] ++ clearAll devicesLimit ++ [.thread .add, .thread .add, .thread .finish,
    .resetIter, .lookup, .look, .compare true, .use, .release, .destroy, .join] ++
    List.replicate (2 * devicesLimit + 1) .clear

/-- A decision procedure for guards. -/
def timely (s : Discovery) : DiscoveryAct → Bool
  | .lookup => match s.thread with | some (.clearing _ _) => false | _ => true
  | .destroy => s.thread = none || s.thread = some .ended
  | _ => true

theorem timely_spec (s : Discovery) (a : DiscoveryAct) (h : timely s a = true) : Timely s a := by
  cases a with
  | lookup =>
    rintro ⟨i, freed, hc⟩
    simp [timely, hc] at h
  | destroy =>
    show s.thread = none ∨ s.thread = some .ended
    simpa [timely] using h
  | _ => trivial

theorem reach_timely : ∃ s, discovery.Reach Timely s ∧ s.owner = .gone ∧ s.made = 2 := by
  obtain ⟨s, hs, hp⟩ := discovery.reach_of_replay timely
    (fun s => s.owner = .gone && s.made = 2) Discovery.start timelyActs timely_spec (.start rfl)
    (by decide +kernel)
  simp only [Bool.and_eq_true, decide_eq_true_eq] at hp
  exact ⟨s, hs, hp⟩

theorem devices_deleted_timely : ∃ s : Discovery, s.thread = none ∧ s.deleted.Perm [0, 1] := by
  obtain ⟨s, hs, hgone, hmade⟩ := reach_timely
  have hend := (devices_deleted hs.reachable).2 hgone
  rw [hmade] at hend
  exact ⟨s, hend⟩

theorem reload_spared_timely : ∃ s : Discovery, s.owner = .gone ∧ s.made = 2 ∧ s.faults = 0 := by
  obtain ⟨s, hs, hgone, hmade⟩ := reach_timely
  exact ⟨s, hgone, hmade, (reload_spared hs).1⟩

/-- A search in a list that is cleared: one device has been found but is not the one looked
for, so the list is reloaded and searched again. -/
def overlappedActs : List DiscoveryAct :=
  [.reload true] ++ clearAll devicesLimit ++ [.thread .add, .thread .finish,
    .resetIter, .lookup, .look, .compare false, .look, .reload true,
    .lookup, .look, .thread .finish, .compare true]

/-- The object is destroyed before its thread calls `DoReload`. -/
def hastyActs : List DiscoveryAct :=
  [.reload true] ++ clearAll devicesLimit ++ [.thread .finish, .resetIter, .lookup, .look,
    .reload true, .destroy] ++ clearAll devicesLimit

/-- Without either half of the guard the code does use something behind its end. -/
theorem timely_needed :
    (∃ s, discovery.Reachable s ∧ s.derived = true ∧ s.faults = 1) ∧
      ∃ s, discovery.Reachable s ∧ s.deleted = [] ∧ s.faults = 1 := by
  constructor
  · obtain ⟨s, hs, hp⟩ := discovery.reachable_of_replay
      (fun s => s.derived = true && s.faults = 1) Discovery.start overlappedActs rfl
      (by decide +kernel)
    simp only [Bool.and_eq_true, decide_eq_true_eq] at hp
    exact ⟨s, hs, hp⟩
  · obtain ⟨s, hs, hp⟩ := discovery.reachable_of_replay
      (fun s => s.deleted = [] && s.faults = 1) Discovery.start hastyActs rfl
      (by decide +kernel)
    simp only [Bool.and_eq_true, decide_eq_true_eq] at hp
    exact ⟨s, hs, hp⟩

end DroidcamWhip
