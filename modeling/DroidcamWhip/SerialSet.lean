import Mathlib.Data.List.Induction
import DroidcamWhip.DeviceList

/-!
The device list as a set keyed by the serial: which sequences of `Clear`, `AddDevice`
and `GetDevice` calls it serves as such a set would.
-/

namespace DroidcamWhip

open CString

/-! ## Calls -/

/-- A serial as callers pass it: a pointer and a length, with no terminator needed. -/
structure Serial where
  start : List UInt8
  length : Nat
  pos : 1 ≤ length
  le : length ≤ 79
  inside : length ≤ start.length
  noNul : 0 ∉ start.take length

abbrev Name := List UInt8

def Serial.name (x : Serial) : Name := x.start.take x.length

theorem Serial.name_length (x : Serial) : x.name.length = x.length :=
  List.length_take_of_le x.inside

inductive ListCall where
  | clear
  | addDevice (x : Serial)
  | getDevice (x : Serial)

namespace DeviceDiscovery

/-- What a call returns, the slot of a device or NULL, and what it leaves. -/
def perform (s : DeviceDiscovery) : ListCall → Option Nat × DeviceDiscovery
  | .clear => (none, s.clear)
  | .addDevice x => s.addDevice x.start x.length
  | .getDevice x => s.getDevice x.start x.length

/-- The list after a sequence of calls. -/
def after (calls : List ListCall) : DeviceDiscovery :=
  calls.foldl (fun s c => (s.perform c).2) new

end DeviceDiscovery

/-! ## The set -/

/-- The serials of the `AddDevice` calls since the last `Clear`. -/
def added (calls : List ListCall) : List Name :=
  calls.foldl (fun l c => match c with
    | .clear => []
    | .addDevice x => l ++ [x.name]
    | .getDevice _ => l) []

/-- The set: the distinct serials in order of first insertion, up to the limit. -/
def serials (calls : List ListCall) : List Name :=
  (added calls).eraseDups.take devicesLimit

/-- What a call on the set `l` returns. -/
def setReply (l : List Name) : ListCall → Option Nat
  | .clear => none
  | .addDevice x => if x.name ∈ l ∨ l.length = devicesLimit then none else some l.length
  | .getDevice x => l.idxOf? x.name

/-- The list serves the calls as a set keyed by the serial would: before each call and
after the last one it holds the set, and each call returns what the set returns. -/
def Keyed (calls : List ListCall) : Prop :=
  ∀ before rest, calls = before ++ rest →
    (DeviceDiscovery.after before).Holds
      ((serials before).map fun name => Device.named name name.length) ∧
    ∀ c ∈ rest.head?,
      ((DeviceDiscovery.after before).perform c).1 = setReply (serials before) c

/-- A serial that is looked for is one of `l`, or no serial of `l` is longer and begins
with it; it does not matter for one that is added to a full list. -/
def Unextended (l : List Name) : ListCall → Prop
  | .clear => True
  | .addDevice x => x.name ∈ l ∨ l.length = devicesLimit ∨ ∀ name ∈ l, ¬ x.name <+: name
  | .getDevice x => x.name ∈ l ∨ ∀ name ∈ l, ¬ x.name <+: name

/-! ## One call -/

theorem serials_length_le (calls : List ListCall) : (serials calls).length ≤ devicesLimit :=
  List.length_take_le _ _

theorem serials_clear (calls : List ListCall) : serials (calls ++ [.clear]) = [] := by
  simp [serials, added, List.foldl_append]

theorem serials_getDevice (calls : List ListCall) (x : Serial) :
    serials (calls ++ [.getDevice x]) = serials calls := by
  simp [serials, added, List.foldl_append]

theorem serials_addDevice (calls : List ListCall) (x : Serial) :
    serials (calls ++ [.addDevice x]) =
      if x.name ∈ serials calls ∨ (serials calls).length = devicesLimit then serials calls
      else serials calls ++ [x.name] := by
  have hadd : added (calls ++ [.addDevice x]) = added calls ++ [x.name] := by
    simp [added, List.foldl_append]
  unfold serials
  rw [hadd, List.eraseDups_append, List.length_take]
  by_cases hmem : x.name ∈ added calls
  · have hrem : [x.name].removeAll (added calls) = [] := by simp [List.removeAll, hmem]
    rw [hrem, List.eraseDups_nil, List.append_nil]
    split
    · rfl
    · rename_i hnot
      rw [not_or] at hnot
      have hall : (added calls).eraseDups.length ≤ devicesLimit := by omega
      rw [List.take_of_length_le hall, List.mem_eraseDups] at hnot
      exact absurd hmem hnot.1
  · have hrem : [x.name].removeAll (added calls) = [x.name] := by simp [List.removeAll, hmem]
    have hset : x.name ∉ (added calls).eraseDups.take devicesLimit := fun h =>
      hmem (List.mem_eraseDups.mp (List.mem_of_mem_take h))
    rw [hrem, List.take_append]
    by_cases hfull : devicesLimit ≤ (added calls).eraseDups.length
    · rw [if_pos (.inr (by omega)), Nat.sub_eq_zero_of_le hfull, List.take_zero,
        List.append_nil]
    · rw [if_neg (by rw [not_or]; exact ⟨hset, by omega⟩)]
      congr 1
      apply List.take_of_length_le
      simp [List.eraseDups_cons]
      omega

/-- The serials of a set fit their arrays, and none is part of an earlier one. -/
structure Orderly (l : List Name) : Prop where
  terminated : ∀ name ∈ l, 0 ∉ name ∧ name.length ≤ 79
  fresh : l.Pairwise fun a b => ¬ b <+: a

namespace DeviceDiscovery

variable {s : DeviceDiscovery} {l : List Name}

theorem named_name (x : Serial) :
    Device.named x.name x.name.length = Device.named x.start x.length := by
  rw [x.name_length, Serial.name, Device.named, Device.named, List.take_take, Nat.min_self]

/-- The comparison with an entry accepts what the entry begins with. -/
theorem compare_named {name : Name} (h : 0 ∉ name ∧ name.length ≤ 79) (x : Serial) :
    strncmp (Device.named name name.length).serial.bytes x.start x.length = 0 ↔
      x.name <+: name := by
  have hstr : (Device.named name name.length).serial.str = name := by
    show ((Chars.zero 80).store 0 (name.take name.length)).str = name
    rw [List.take_length]
    exact Chars.str_store_zero h.1 (by omega)
  rw [strncmp_length_eq_zero_iff x.inside x.noNul]
  show _ <+: (Device.named name name.length).serial.str ↔ _
  rw [hstr, Serial.name]

theorem findIdx?_congr {α : Type*} {p q : α → Bool} {l : List α} (h : ∀ x ∈ l, p x = q x) :
    l.findIdx? p = l.findIdx? q := by
  induction l with
  | nil => rfl
  | cons x l ih =>
    rw [List.findIdx?_cons, List.findIdx?_cons, h x List.mem_cons_self,
      ih fun y hy => h y (List.mem_cons_of_mem x hy)]

/-- What `GetDevice` finds: the first serial that begins with the one looked for. -/
theorem findIdx?_named (h : Orderly l) (x : Serial) :
    (l.map fun name => Device.named name name.length).findIdx?
        (fun d => strncmp d.serial.bytes x.start x.length = 0) =
      l.findIdx? fun name => x.name <+: name := by
  rw [List.findIdx?_map]
  apply findIdx?_congr
  intro name hname
  exact decide_eq_decide.mpr (compare_named (h.terminated name hname) x)

/-- Looking for what begins with `x` finds `x` itself, unless there are only
longer serials. -/
theorem findIdx?_prefix_iff (h : l.Pairwise fun a b => ¬ b <+: a) (x : Name) :
    (l.findIdx? fun name => x <+: name) = l.idxOf? x ↔
      x ∈ l ∨ ∀ name ∈ l, ¬ x <+: name := by
  induction l with
  | nil => simp
  | cons name l ih =>
    rw [List.pairwise_cons] at h
    rw [List.findIdx?_cons, List.idxOf?_cons]
    by_cases hx : name = x
    · subst hx
      simp
    · by_cases hpre : x <+: name
      · have hmem : x ∉ l := fun hmem => h.1 x hmem hpre
        simp [hx, Ne.symm hx, hpre, hmem]
      · have hmap : ∀ a b : Option Nat, a.map (· + 1) = b.map (· + 1) ↔ a = b := fun a b =>
          (Option.map_injective (add_left_injective 1)).eq_iff
        simp [hx, Ne.symm hx, hpre, hmap, ih h.2]

/-- **One call.** On a list that holds the set, a call returns what the set returns
exactly if no longer serial gets in its way. -/
theorem Holds.perform_eq_iff (hs : s.Holds (l.map fun name => Device.named name name.length))
    (h : Orderly l) (c : ListCall) : (s.perform c).1 = setReply l c ↔ Unextended l c := by
  cases c with
  | clear => exact iff_of_true rfl trivial
  | getDevice x =>
    show (s.getDevice x.start x.length).1 = l.idxOf? x.name ↔ _
    rw [hs.getDevice_fst, findIdx?_named h]
    exact findIdx?_prefix_iff h.fresh x.name
  | addDevice x =>
    have hfound : (∃ d ∈ l.map fun name => Device.named name name.length,
        strncmp d.serial.bytes x.start x.length = 0) ↔ ∃ name ∈ l, x.name <+: name := by
      simp only [List.mem_map, exists_exists_and_eq_and]
      exact exists_congr fun name => and_congr_right fun hname =>
        compare_named (h.terminated name hname) x
    have hadd := hs.addDevice x.start x.length
    dsimp only at hadd
    rw [hfound, List.length_map] at hadd
    have hself : x.name ∈ l → ∃ name ∈ l, x.name <+: name := fun hx =>
      ⟨x.name, hx, List.prefix_rfl⟩
    show (s.addDevice x.start x.length).1 =
      (if x.name ∈ l ∨ l.length = devicesLimit then none else some l.length) ↔
      x.name ∈ l ∨ l.length = devicesLimit ∨ ∀ name ∈ l, ¬ x.name <+: name
    obtain ⟨hcase, hret, -⟩ | ⟨⟨hfree, hroom⟩, hret, -⟩ := hadd
    · rw [hret]
      split
      · grind
      · grind
    · have hnot : ¬ (x.name ∈ l ∨ l.length = devicesLimit) := by
        rintro (hx | hfull)
        · exact hfree (hself hx)
        · omega
      rw [hret, if_neg hnot]
      grind

/-- **Step.** A call that no longer serial gets in the way of leaves the set that it
should leave. -/
theorem Holds.perform {calls : List ListCall} {c : ListCall}
    (hs : s.Holds ((serials calls).map fun name => Device.named name name.length))
    (h : Orderly (serials calls)) (hc : Unextended (serials calls) c) :
    (s.perform c).2.Holds
        ((serials (calls ++ [c])).map fun name => Device.named name name.length) ∧
      Orderly (serials (calls ++ [c])) := by
  cases c with
  | clear =>
    rw [serials_clear]
    exact ⟨holds_clear s, by simp, by simp⟩
  | getDevice x =>
    rw [serials_getDevice]
    exact ⟨hs.getDevice x.start x.length, h⟩
  | addDevice x =>
    have hreply := (hs.perform_eq_iff h (.addDevice x)).mpr hc
    have hadd := hs.addDevice x.start x.length
    dsimp only at hadd
    rw [serials_addDevice]
    simp only [DeviceDiscovery.perform, setReply] at hreply ⊢
    split
    · rename_i hin
      rw [if_pos hin] at hreply
      obtain ⟨-, -, hkeep⟩ | ⟨-, hret, -⟩ := hadd
      · exact ⟨hkeep, h⟩
      · rw [hret] at hreply
        cases hreply
    · rename_i hout
      rw [if_neg hout] at hreply
      obtain ⟨-, hret, -⟩ | ⟨-, -, hpush⟩ := hadd
      · rw [hret] at hreply
        cases hreply
      · rw [not_or] at hout
        have hnone : ∀ name ∈ serials calls, ¬ x.name <+: name :=
          (hc.resolve_left hout.1).resolve_left hout.2
        refine ⟨?_, ?_, ?_⟩
        · rw [List.map_append, List.map_singleton, named_name]
          exact hpush
        · intro name hname
          rcases List.mem_append.mp hname with hname | hname
          · exact h.terminated name hname
          · rw [List.mem_singleton.mp hname]
            exact ⟨x.noNul, by rw [x.name_length]; exact x.le⟩
        · rw [List.pairwise_append]
          refine ⟨h.fresh, List.pairwise_singleton _ _, ?_⟩
          intro name hname y hy
          rw [List.mem_singleton.mp hy]
          exact hnone name hname

/-! ## A sequence of calls -/

theorem after_append (calls : List ListCall) (c : ListCall) :
    after (calls ++ [c]) = ((after calls).perform c).2 := by
  rw [after, List.foldl_append]
  rfl

/-- The list is the set after calls that no longer serial got in the way of. -/
theorem after_holds (calls : List ListCall)
    (h : ∀ before c rest, calls = before ++ c :: rest → Unextended (serials before) c) :
    (after calls).Holds ((serials calls).map fun name => Device.named name name.length) ∧
      Orderly (serials calls) := by
  induction calls using List.reverseRecOn with
  | nil => exact ⟨holds_new, by simp [serials, added], by simp [serials, added]⟩
  | append_singleton calls c ih =>
    obtain ⟨hs, ho⟩ := ih fun before d rest hcalls =>
      h before d (rest ++ [c]) (by simp [hcalls])
    rw [after_append]
    exact hs.perform ho (h calls c [] rfl)

end DeviceDiscovery

open DeviceDiscovery

theorem Keyed.of_append {calls : List ListCall} {c : ListCall} (h : Keyed (calls ++ [c])) :
    Keyed calls := by
  intro before rest hcalls
  obtain ⟨hs, hret⟩ := h before (rest ++ [c]) (by rw [hcalls, List.append_assoc])
  refine ⟨hs, fun d hd => hret d ?_⟩
  cases rest with
  | nil => cases hd
  | cons e rest => exact hd

/-- As long as the calls are served, no longer serial got in the way of one. -/
theorem Keyed.unextended {calls : List ListCall} (h : Keyed calls) :
    ∀ before c rest, calls = before ++ c :: rest → Unextended (serials before) c := by
  induction calls using List.reverseRecOn with
  | nil => simp
  | append_singleton calls c ih =>
    intro before d rest hcalls
    rcases List.eq_nil_or_concat rest with rfl | ⟨rest, e, rfl⟩
    · obtain ⟨rfl, hlast⟩ := List.append_inj' hcalls rfl
      obtain rfl : c = d := by simpa using hlast
      obtain ⟨-, ho⟩ := after_holds calls (ih h.of_append)
      obtain ⟨hs, hret⟩ := h calls [c] rfl
      exact (hs.perform_eq_iff ho c).mp (hret c rfl)
    · have hassoc : before ++ d :: (rest ++ [e]) = (before ++ d :: rest) ++ [e] := by simp
      rw [List.concat_eq_append, hassoc] at hcalls
      obtain ⟨rfl, -⟩ := List.append_inj' hcalls rfl
      exact ih h.of_append before d rest rfl

/-- **The device list is a set keyed by the serial in exactly those sequences of calls
in which no serial that is looked for or added is a proper beginning of another one in
the set.** -/
theorem keyed_iff (calls : List ListCall) :
    Keyed calls ↔
      ∀ before c rest, calls = before ++ c :: rest → Unextended (serials before) c := by
  constructor
  · exact Keyed.unextended
  · intro h before rest hcalls
    obtain ⟨hs, ho⟩ := after_holds before fun b c r hb =>
      h b c (r ++ rest) (by rw [hcalls, hb]; simp)
    refine ⟨hs, fun c hc => ?_⟩
    cases rest with
    | nil => cases hc
    | cons d rest =>
      obtain rfl : d = c := by simpa using hc
      exact (hs.perform_eq_iff ho d).mpr (h before d rest hcalls)

/-- The same bytes with the lengths 3 and 2. -/
def abc : Serial := ⟨[97, 98, 99], 3, by decide, by decide, by decide, by decide⟩

def ab : Serial := ⟨[97, 98, 99], 2, by decide, by decide, by decide, by decide⟩

/-- After `abc`, `ab` is taken for a duplicate. -/
theorem not_keyed_abc_ab : ¬ Keyed [.addDevice abc, .addDevice ab] := by
  intro h
  have hret := (h [.addDevice abc] [.addDevice ab] rfl).2 _ rfl
  have hcode : ((after [.addDevice abc]).perform (.addDevice ab)).1 = none := by decide +kernel
  have hset : setReply (serials [.addDevice abc]) (.addDevice ab) = some 1 := by decide +kernel
  rw [hcode, hset] at hret
  cases hret

end DroidcamWhip
