import Mathlib.Data.List.Induction
import DroidcamWhip.QueryCallback

/-!
Which records of mDNS responses may add a device or rename one, and for which records
`query_callback` keeps to it.
-/

namespace DroidcamWhip

open CString

/-! ## What records may do -/

/-- What a device is called after a pair with the value `value`. -/
def shown (value fromaddr : List UInt8) : List UInt8 := (modelText value fromaddr).take 79

namespace MdnsRecord

/-- The record answers the query for the service, and so may add a device. -/
def Adds (r : MdnsRecord) : Prop :=
  r.entryType = .answer ∧ r.rtype = ptrType ∧ r.owner = serviceName ∧ r.target ≠ []

/-- The record says that the device `d` is called `model`. -/
def Names (r : MdnsRecord) (d : Device) (model : List UInt8) : Prop :=
  r.entryType = .additional ∧ r.rtype = txtType ∧ r.owner = d.serial.str ∧
    ∃ p ∈ r.pairs, p.key = ascii "name" ∧ ∃ a ∈ r.fromaddr, model = shown p.value (text a)

/-- The record, which takes the devices from `ds` to `ds'`, does no more than it may. -/
def Frame (r : MdnsRecord) (ds ds' : List Device) : Prop :=
  (ds.length < ds'.length → r.Adds) ∧
    ∀ (i : Nat) d, ds[i]? = some d → ∃ d', ds'[i]? = some d' ∧
      d' = { d with model := d'.model } ∧
      (d'.model.str ≠ d.model.str → r.Names d d'.model.str)

/-- An answer that makes a device may add one. If an additional TXT record has a pair that
is taken for the name of a device, then the last such pair repeats the model, or the
record is owned by the device and has a pair with the key `name` and the same text. -/
def Benign (r : MdnsRecord) (ds : List Device) : Prop :=
  ∀ a, r.fromaddr = some a →
    (r.entryType = .answer →
      (∃ d ∈ ds, d.Matches r.target) ∨ ds.length = devicesLimit ∨ r.Adds) ∧
    (r.entryType = .additional → r.rtype = txtType →
      ∀ (i : Nat) d, (ds.findIdx? fun d => d.Matches r.owner) = some i → ds[i]? = some d →
        ∀ p, (r.pairs.filter fun p => p.Used).getLast? = some p →
          shown p.value (text a) = d.model.str ∨
          (r.owner = d.serial.str ∧
            ∃ q ∈ r.pairs, q.key = ascii "name" ∧
              shown q.value (text a) = shown p.value (text a)))

/-! ## One record -/

theorem zero_notMem_modelText {value fromaddr : List UInt8} (h : 0 ∉ fromaddr) :
    0 ∉ modelText value fromaddr := by
  have hv := zero_notMem_text (value.take modelLimit)
  have hopen : (0 : UInt8) ∉ ascii " [" := by decide
  have hsuffix : (0 : UInt8) ∉ mdnsSuffix := by decide
  have hmid : (0 : UInt8) ∉ ascii "] (" := by decide
  have hclose : (0 : UInt8) ∉ ascii ")" := by decide
  unfold modelText
  simp only [List.mem_append, not_or]
  exact ⟨⟨⟨⟨⟨hv, hopen⟩, hsuffix⟩, hmid⟩, h⟩, hclose⟩

/-- Reading pairs changes nothing but the model. -/
theorem rename_frame (fromaddr : List UInt8) (pairs : List TxtPair) (d : Device) :
    rename fromaddr pairs d = { d with model := (rename fromaddr pairs d).model } := by
  induction pairs using List.reverseRecOn with
  | nil => rfl
  | append_singleton pairs p ih =>
    have hsnoc : rename fromaddr (pairs ++ [p]) d =
        renameBy fromaddr (rename fromaddr pairs d) p := by
      rw [rename, List.foldl_append]
      rfl
    rw [hsnoc, renameBy]
    split
    · rw [ih]
    · exact ih

/-- The last pair that is taken for the name counts. -/
theorem rename_model (a : List UInt8) (pairs : List TxtPair) (d : Device) :
    (rename (text a) pairs d).model.str =
      match (pairs.filter fun p => p.Used).getLast? with
      | none => d.model.str
      | some p => shown p.value (text a) := by
  induction pairs using List.reverseRecOn with
  | nil => rfl
  | append_singleton pairs p ih =>
    have hsnoc : rename (text a) (pairs ++ [p]) d =
        renameBy (text a) (rename (text a) pairs d) p := by
      rw [rename, List.foldl_append]
      rfl
    rw [hsnoc, renameBy, List.filter_append]
    by_cases hused : p.Used
    · have hlast : ([p].filter fun p => p.Used) = [p] := by simp [hused]
      rw [if_pos hused, hlast, List.getLast?_concat]
      exact Chars.str_snprintf _ (zero_notMem_modelText (zero_notMem_text a)) (by decide)
    · have hlast : ([p].filter fun p => p.Used) = [] := by simp [hused]
      rw [if_neg hused, hlast, List.append_nil]
      exact ih

theorem frame_refl (r : MdnsRecord) (ds : List Device) : r.Frame ds ds :=
  ⟨fun h => absurd h (lt_irrefl _), fun _ d hd => ⟨d, hd, rfl, fun h => absurd rfl h⟩⟩

theorem frame_append (r : MdnsRecord) (ds : List Device) (d : Device) :
    r.Frame ds (ds ++ [d]) ↔ r.Adds := by
  constructor
  · rintro ⟨hadds, -⟩
    exact hadds (by simp)
  · intro h
    refine ⟨fun _ => h, fun i e he => ⟨e, ?_, rfl, fun h => absurd rfl h⟩⟩
    rw [List.getElem?_append_left (List.getElem?_eq_some_iff.mp he).1]
    exact he

theorem frame_modify (r : MdnsRecord) {ds : List Device} {i : Nat} {d : Device}
    (hi : ds[i]? = some d) (a : List UInt8) :
    r.Frame ds (ds.modify i (rename (text a) r.pairs)) ↔
      ((rename (text a) r.pairs d).model.str ≠ d.model.str →
        r.Names d (rename (text a) r.pairs d).model.str) := by
  constructor
  · rintro ⟨-, hkeep⟩ hne
    obtain ⟨d', hd', -, hnames⟩ := hkeep i d hi
    rw [List.getElem?_modify_eq, hi] at hd'
    obtain rfl : rename (text a) r.pairs d = d' := Option.some_inj.mp hd'
    exact hnames hne
  · intro h
    refine ⟨fun hlt => absurd hlt (by simp), fun j e he => ?_⟩
    by_cases hij : i = j
    · subst hij
      obtain rfl : d = e := Option.some_inj.mp (hi.symm.trans he)
      exact ⟨rename (text a) r.pairs d, by rw [List.getElem?_modify_eq, hi]; rfl,
        rename_frame _ _ _, h⟩
    · exact ⟨e, by rw [List.getElem?_modify_ne _ _ hij, he], rfl, fun h => absurd rfl h⟩

/-- **One record** does no more than it may exactly if it is benign. -/
theorem frame_iff (r : MdnsRecord) (ds : List Device) :
    r.Frame ds (r.respond ds) ↔ r.Benign ds := by
  unfold respond Benign
  cases ha : r.fromaddr with
  | none => exact iff_of_true (r.frame_refl ds) (by simp)
  | some a =>
    simp only [Option.some.injEq, forall_eq']
    by_cases hanswer : r.entryType = .answer
    · have hother : r.entryType ≠ .additional := by
        rw [hanswer]
        decide
      simp only [hanswer, if_true, forall_const, reduceCtorEq, false_implies, and_true]
      split
      · rename_i hstay
        exact iff_of_true (r.frame_refl ds) (hstay.imp_right .inl)
      · rename_i hfree
        rw [not_or] at hfree
        rw [frame_append, or_iff_right hfree.1, or_iff_right hfree.2]
    · rw [if_neg hanswer]
      simp only [hanswer, false_implies, true_and]
      by_cases htxt : r.entryType = .additional ∧ r.rtype = txtType
      · rw [if_pos htxt]
        simp only [htxt.1, htxt.2, forall_const]
        cases hfind : ds.findIdx? fun d => d.Matches r.owner with
        | none => exact iff_of_true (r.frame_refl ds) (by simp)
        | some i =>
          have hlt := (List.findIdx?_eq_some_iff_getElem.mp hfind).1
          obtain ⟨d, hd⟩ : ∃ d, ds[i]? = some d := ⟨ds[i], List.getElem?_eq_getElem hlt⟩
          have hmodel := rename_model a r.pairs d
          show r.Frame ds (ds.modify i (rename (text a) r.pairs)) ↔ _
          rw [frame_modify r hd a, Names, ha]
          cases hlast : (r.pairs.filter fun p => p.Used).getLast? with
          | none =>
            rw [hlast] at hmodel
            exact iff_of_true (fun hne => absurd hmodel hne) (by simp)
          | some p =>
            rw [hlast] at hmodel
            rw [hmodel]
            constructor
            · intro h j e hj he q hq
              cases hj
              cases hd.symm.trans he
              cases hq
              by_cases hsame : shown p.value (text a) = d.model.str
              · exact .inl hsame
              · obtain ⟨-, -, howner, q, hq, hkey, b, hb, heq⟩ := h hsame
                cases hb
                exact .inr ⟨howner, q, hq, hkey, heq.symm⟩
            · intro h hne
              rcases h i d rfl hd p rfl with hsame | ⟨howner, q, hq, hkey, heq⟩
              · exact absurd hsame hne
              · exact ⟨htxt.1, htxt.2, howner, q, hq, hkey, a, rfl, heq.symm⟩
      · rw [if_neg htxt]
        refine iff_of_true (r.frame_refl ds) fun h₁ h₂ => absurd ⟨h₁, h₂⟩ htxt

end MdnsRecord

/-! ## All records of a search -/

namespace DeviceDiscovery

/-- The list after the records of the responses to a query; the search starts with
`Clear`. -/
def search (s : DeviceDiscovery) (records : List MdnsRecord) : DeviceDiscovery :=
  records.foldl queryCallback s.clear

theorem search_append (s : DeviceDiscovery) (records : List MdnsRecord) (r : MdnsRecord) :
    s.search (records ++ [r]) = (s.search records).queryCallback r := by
  rw [search, List.foldl_append]
  rfl

theorem search_holds (s : DeviceDiscovery) (records : List MdnsRecord) :
    (s.search records).Holds (s.search records).devices := by
  suffices h : ∃ ds, (s.search records).Holds ds by
    obtain ⟨ds, hds⟩ := h
    rw [hds.devices]
    exact hds
  induction records using List.reverseRecOn with
  | nil => exact ⟨[], holds_clear s⟩
  | append_singleton records r ih =>
    obtain ⟨ds, hds⟩ := ih
    rw [search_append]
    exact ⟨r.respond ds, hds.queryCallback r⟩

end DeviceDiscovery

/-- **Records do no more than they may** exactly in the searches in which each of them is
benign for the devices found before. -/
theorem search_frame_iff (s : DeviceDiscovery) (records : List MdnsRecord) :
    (∀ before r rest, records = before ++ r :: rest →
      r.Frame (s.search before).devices (s.search (before ++ [r])).devices) ↔
      ∀ before r rest, records = before ++ r :: rest → r.Benign (s.search before).devices := by
  have hstep : ∀ before r, (s.search (before ++ [r])).devices =
      r.respond (s.search before).devices := fun before r => by
    rw [DeviceDiscovery.search_append]
    exact ((s.search_holds before).queryCallback r).devices
  constructor
  · intro h before r rest hrecords
    have hframe := h before r rest hrecords
    rw [hstep] at hframe
    exact (r.frame_iff _).mp hframe
  · intro h before r rest hrecords
    rw [hstep]
    exact (r.frame_iff _).mpr (h before r rest hrecords)

/-- The answer of a printer to a query of someone else. -/
def printerAnswer : MdnsRecord where
  entryType := .answer
  queryId := 0
  rtype := ptrType
  owner := ascii "_ipp._tcp.local."
  target := ascii "Printer._ipp._tcp.local."
  pairs := []
  fromaddr := some (ascii "192.168.1.9")
  owner_le := by decide
  target_le := by decide

/-- The printer becomes a device. -/
theorem not_frame_printerAnswer :
    ¬ ∀ before r rest, [printerAnswer] = before ++ r :: rest →
      r.Frame (DeviceDiscovery.new.search before).devices
        (DeviceDiscovery.new.search (before ++ [r])).devices := by
  intro h
  have hadds := (h [] printerAnswer [] rfl).1 (by decide +kernel)
  revert hadds
  unfold MdnsRecord.Adds
  decide +kernel

end DroidcamWhip
