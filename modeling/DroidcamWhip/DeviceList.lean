import DroidcamWhip.Lib.CString

/-!
The device list of `DeviceDiscovery`: `Clear`, `GetDevice` and `AddDevice`, compared
with a set of serials that remembers the order of insertion.
-/

namespace DroidcamWhip

open CString

/-! ## The list as the code keeps it -/

/-- `DEVICES_LIMIT`. -/
def devicesLimit : Nat := 32

structure Device where
  serial : Chars 80
  model : Chars 80
  state : Chars 32
  address : Chars 64
  handle : Int
  deriving DecidableEq

def Device.new : Device := ⟨.zero 80, .zero 80, .zero 32, .zero 64, 0⟩

/-- A new device whose serial is the first `length` bytes at `serial`. -/
def Device.named (serial : List UInt8) (length : Nat) : Device :=
  { Device.new with serial := (Chars.zero 80).store 0 (serial.take length) }

/-- A pointer to a device is the number of its slot in `deviceList`. -/
structure DeviceDiscovery where
  iter : Nat
  deviceList : List (Option Device)
  size : deviceList.length = devicesLimit
  deriving DecidableEq

namespace DeviceDiscovery

def new : DeviceDiscovery := ⟨0, List.replicate devicesLimit none, List.length_replicate⟩

def clear (s : DeviceDiscovery) : DeviceDiscovery :=
  { s with
    deviceList := s.deviceList.map fun _ => none
    size := by rw [List.length_map, s.size] }

/-- The loop of `GetDevice` from slot `i` on; it ends at the first empty slot. -/
def findDevice (serial : List UInt8) (length : Nat) : List (Option Device) → Nat → Option Nat
  | [], _ => none
  | none :: _, _ => none
  | some d :: rest, i =>
      if strncmp d.serial.bytes serial length = 0 then some i
      else findDevice serial length rest (i + 1)

def getDevice (s : DeviceDiscovery) (serial : List UInt8) (length : Nat) :
    Option Nat × DeviceDiscovery :=
  match findDevice serial length s.deviceList 0 with
  | some i => (some i, { s with iter := i })
  | none => (none, s)

/-- The loop of `AddDevice`: the first empty slot from `i` on. -/
def freeSlot : List (Option Device) → Nat → Option Nat
  | [], _ => none
  | none :: _, i => some i
  | some _ :: rest, i => freeSlot rest (i + 1)

/-- A device in the slot `i`. -/
def put (s : DeviceDiscovery) (i : Nat) (d : Device) : DeviceDiscovery :=
  { s with
    deviceList := s.deviceList.set i (some d)
    size := by rw [List.length_set, s.size] }

/-- Change a device through a pointer to it. -/
def update (s : DeviceDiscovery) (i : Nat) (f : Device → Device) : DeviceDiscovery :=
  { s with
    deviceList := s.deviceList.modify i (Option.map f)
    size := by rw [List.length_modify, s.size] }

def addDevice (s : DeviceDiscovery) (serial : List UInt8) (length : Nat) :
    Option Nat × DeviceDiscovery :=
  match s.getDevice serial length with
  | (some _, t) => (none, t)
  | (none, t) =>
      match freeSlot t.deviceList 0 with
      | some i => (some i, t.put i (Device.named serial length))
      | none => (none, t)

/-- Only the first `length` bytes at `serial` matter. -/
theorem addDevice_congr (s : DeviceDiscovery) {serial serial' : List UInt8} {length : Nat}
    (h : serial.take length = serial'.take length) :
    s.addDevice serial length = s.addDevice serial' length := by
  have hcmp : ∀ a, strncmp a serial length = strncmp a serial' length := fun a => by
    rw [← strncmp_take, h, strncmp_take]
  have hfind : ∀ slots i, findDevice serial length slots i = findDevice serial' length slots i := by
    intro slots i
    induction slots generalizing i with
    | nil => rfl
    | cons slot slots ih =>
      cases slot with
      | none => rfl
      | some d => rw [findDevice, findDevice, hcmp, ih]
  have hnamed : Device.named serial length = Device.named serial' length := by
    rw [Device.named, Device.named, h]
  unfold addDevice getDevice
  rw [hfind, hnamed]

/-! ## A list without holes -/

/-- The devices `ds` are in the first slots, in order, and the other slots are empty. -/
def Holds (s : DeviceDiscovery) (ds : List Device) : Prop :=
  s.deviceList = ds.map some ++ List.replicate (devicesLimit - ds.length) none

/-- The devices in the slots. -/
def devices (s : DeviceDiscovery) : List Device := s.deviceList.filterMap id

variable {s : DeviceDiscovery} {ds : List Device}

theorem holds_new : new.Holds [] := rfl

theorem holds_clear (s : DeviceDiscovery) : s.clear.Holds [] := by
  show s.deviceList.map (fun _ => none) = List.replicate devicesLimit none
  rw [List.map_const', s.size]

theorem Holds.length_le (h : s.Holds ds) : ds.length ≤ devicesLimit := by
  have hlen := congrArg List.length h
  rw [s.size] at hlen
  simp at hlen
  omega

theorem Holds.devices (h : s.Holds ds) : s.devices = ds := by
  rw [DeviceDiscovery.devices, h, List.filterMap_append, List.filterMap_map,
    List.filterMap_replicate_of_none rfl]
  simp

theorem Holds.unique {ds' : List Device} (h : s.Holds ds) (h' : s.Holds ds') : ds = ds' :=
  h.devices.symm.trans h'.devices

theorem findDevice_filled (serial : List UInt8) (length : Nat) (ds : List Device) (n i : Nat) :
    findDevice serial length (ds.map some ++ List.replicate n none) i =
      (ds.findIdx? fun d => strncmp d.serial.bytes serial length = 0).map (· + i) := by
  induction ds generalizing i with
  | nil => cases n <;> rfl
  | cons d ds ih =>
    rw [List.map_cons, List.cons_append, findDevice, List.findIdx?_cons]
    by_cases hd : strncmp d.serial.bytes serial length = 0
    · simp [hd]
    · simp only [hd, if_false, decide_false, Bool.false_eq_true, ih, Option.map_map]
      congr 1
      funext j
      show j + (i + 1) = j + 1 + i
      omega

theorem freeSlot_filled (ds : List Device) (n i : Nat) :
    freeSlot (ds.map some ++ List.replicate n none) i =
      if n = 0 then none else some (ds.length + i) := by
  induction ds generalizing i with
  | nil => cases n <;> simp [freeSlot, List.replicate_succ]
  | cons d ds ih =>
    rw [List.map_cons, List.cons_append, freeSlot, ih, List.length_cons]
    split
    · rfl
    · congr 1
      omega

/-- What `GetDevice` finds in a list without holes. -/
theorem Holds.getDevice_fst (h : s.Holds ds) (serial : List UInt8) (length : Nat) :
    (s.getDevice serial length).1 =
      ds.findIdx? fun d => strncmp d.serial.bytes serial length = 0 := by
  have hfind := findDevice_filled serial length ds (devicesLimit - ds.length) 0
  rw [← h] at hfind
  rw [getDevice, hfind]
  cases ds.findIdx? fun d => strncmp d.serial.bytes serial length = 0 <;> rfl

/-- `GetDevice` leaves the devices alone. -/
theorem getDevice_deviceList (s : DeviceDiscovery) (serial : List UInt8) (length : Nat) :
    (s.getDevice serial length).2.deviceList = s.deviceList := by
  unfold getDevice
  split <;> rfl

/-- The slot that is found becomes the position of the iteration. -/
theorem getDevice_iter {serial : List UInt8} {length i : Nat}
    (h : (s.getDevice serial length).1 = some i) : (s.getDevice serial length).2.iter = i := by
  unfold getDevice at h ⊢
  split at h
  · exact Option.some_inj.mp h
  · cases h

theorem findDevice_lt {serial : List UInt8} {length : Nat} {slots : List (Option Device)}
    {i j : Nat} (h : findDevice serial length slots i = some j) : j < i + slots.length := by
  induction slots generalizing i with
  | nil => cases h
  | cons slot slots ih =>
    cases slot with
    | none => cases h
    | some d =>
      unfold findDevice at h
      rw [List.length_cons]
      split at h
      · cases h
        omega
      · have := ih h
        omega

theorem getDevice_lt {serial : List UInt8} {length i : Nat}
    (h : (s.getDevice serial length).1 = some i) : i < devicesLimit := by
  unfold DeviceDiscovery.getDevice at h
  split at h
  · rename_i j hfind
    cases h
    have := findDevice_lt hfind
    rw [s.size] at this
    omega
  · cases h

theorem Holds.getDevice (h : s.Holds ds) (serial : List UInt8) (length : Nat) :
    (s.getDevice serial length).2.Holds ds := by
  rw [Holds, getDevice_deviceList]
  exact h

theorem Holds.update (h : s.Holds ds) (i : Nat) (f : Device → Device) :
    (s.update i f).Holds (ds.modify i f) := by
  show s.deviceList.modify i (Option.map f) = _
  rw [h, List.length_modify]
  apply List.ext_getElem?
  intro j
  by_cases hj : j < ds.length
  · by_cases hi : i = j <;> simp [List.getElem?_append, hj, hi]
  · by_cases hi : i = j <;>
      simp [List.getElem?_append, List.getElem?_replicate, hj, hi]

/-- Change the last device. -/
theorem Holds.update_last {d : Device} (h : s.Holds (ds ++ [d])) (f : Device → Device) :
    (s.update ds.length f).Holds (ds ++ [f d]) := by
  have hlast : (ds ++ [d]).modify ds.length f = ds ++ [f d] := by
    clear h
    induction ds with
    | nil => rfl
    | cons e ds ih => simpa using ih
  rw [← hlast]
  exact h.update ds.length f

theorem Holds.push (h : s.Holds ds) (hroom : ds.length < devicesLimit) (d : Device) :
    (s.put ds.length d).Holds (ds ++ [d]) := by
  have hsucc : devicesLimit - ds.length = devicesLimit - (ds.length + 1) + 1 := by omega
  show s.deviceList.set ds.length (some d) = _
  rw [h, List.set_append_right _ _ (by simp), hsucc]
  simp [List.replicate_succ]

/-- **`AddDevice` in full**: nothing if a device is found or the list is full, and
else one more device at the end. -/
theorem Holds.addDevice (h : s.Holds ds) (serial : List UInt8) (length : Nat) :
    let found := ∃ d ∈ ds, strncmp d.serial.bytes serial length = 0
    ((found ∨ ds.length = devicesLimit) ∧
      (s.addDevice serial length).1 = none ∧ (s.addDevice serial length).2.Holds ds) ∨
    ((¬ found ∧ ds.length < devicesLimit) ∧
      (s.addDevice serial length).1 = some ds.length ∧
      (s.addDevice serial length).2.Holds (ds ++ [Device.named serial length])) := by
  intro found
  have hget := h.getDevice_fst serial length
  have hkeep := h.getDevice serial length
  have hle := h.length_le
  unfold DeviceDiscovery.addDevice
  split
  · rename_i i t heq
    rw [heq] at hget hkeep
    obtain ⟨hi, hd, -⟩ := List.findIdx?_eq_some_iff_getElem.mp hget.symm
    exact .inl ⟨.inl ⟨ds[i], List.getElem_mem hi, of_decide_eq_true hd⟩, rfl, hkeep⟩
  · rename_i t heq
    rw [heq] at hget hkeep
    have hnone : ¬ found := by
      rintro ⟨d, hd, hcmp⟩
      have := List.findIdx?_eq_none_iff.mp hget.symm d hd
      simp [hcmp] at this
    have hfree := freeSlot_filled ds (devicesLimit - ds.length) 0
    rw [← hkeep] at hfree
    by_cases hroom : ds.length < devicesLimit
    · rw [if_neg (by omega), Nat.add_zero] at hfree
      rw [hfree]
      exact .inr ⟨⟨hnone, hroom⟩, rfl, hkeep.push hroom _⟩
    · rw [if_pos (by omega)] at hfree
      rw [hfree]
      exact .inl ⟨.inr (by omega), rfl, hkeep⟩

end DeviceDiscovery

end DroidcamWhip
