import DroidcamWhip.DeviceList

/-!
`query_callback` of `mdns_discovery.cc`: what a record of an mDNS response does to the
list of devices.
-/

namespace DroidcamWhip

open CString

/-! ## Records -/

/-- `MDNS_ENTRYTYPE_…`. -/
inductive EntryType where
  | question
  | answer
  | authority
  | additional
  deriving DecidableEq

/-- `MDNS_RECORDTYPE_PTR`, `MDNS_RECORDTYPE_TXT` and `MDNS_RECORDTYPE_SRV`. -/
def ptrType : UInt16 := 12

def txtType : UInt16 := 16

def srvType : UInt16 := 33

/-- `DROIDCAM_SERVICE_NAME`. -/
def serviceName : List UInt8 := ascii "_droidcamobs._tcp.local."

/-- `suffix` of `MDNS`. -/
def mdnsSuffix : List UInt8 := ascii "WIFI"

/-- A pair of a TXT record; keys are printable, and pairs without a key are not reported. -/
structure TxtPair where
  key : List UInt8
  value : List UInt8
  key_ne : key ≠ []
  printable : ∀ b ∈ key, 0x20 ≤ b ∧ b ≤ 0x7E

/-- A record as it is reported to `query_callback`: the names are what
`mdns_string_extract` makes of the owner and `mdns_record_parse_ptr` of the data, in an
array for a serial, and `fromaddr` is what `inet_ntop` makes of the sender's address. -/
structure MdnsRecord where
  entryType : EntryType
  queryId : UInt16
  rtype : UInt16
  owner : List UInt8
  target : List UInt8
  pairs : List TxtPair
  fromaddr : Option (List UInt8)
  owner_le : owner.length ≤ 79
  target_le : target.length ≤ 79

/-! ## The callback -/

/-- `MDNS_STRING_LIMIT` of the value of a pair. -/
def modelLimit : Nat := 80 - mdnsSuffix.length - 6 - 16

/-- `"%.*s [%s] (%.*s)"`. -/
def modelText (value fromaddr : List UInt8) : List UInt8 :=
  text (value.take modelLimit) ++ ascii " [" ++ mdnsSuffix ++ ascii "] (" ++ fromaddr ++ ascii ")"

namespace DeviceDiscovery

/-- The body of the loop over the pairs. -/
def readPair (fromaddr : List UInt8) (dev : Nat) (s : DeviceDiscovery) (p : TxtPair) :
    DeviceDiscovery :=
  if p.value.length = 0 then s
  else if strncmp (ascii "name") p.key p.key.length = 0 then
    s.update dev fun d => { d with model := d.model.snprintf (modelText p.value fromaddr) }
  else s

def queryCallback (s : DeviceDiscovery) (r : MdnsRecord) : DeviceDiscovery :=
  match r.fromaddr with
  | none => s
  | some addrbuffer =>
      let fromaddr := text addrbuffer
      if r.entryType = .answer then
        match s.addDevice r.target r.target.length with
        | (none, t) => t
        | (some dev, t) =>
            let fromaddr := fromaddr.take 63
            t.update dev fun d => { d with
              handle := r.queryId.toNat
              model := d.model.store 0 fromaddr
              address := d.address.store 0 fromaddr }
      else if r.entryType ≠ .additional then s
      else
        match s.getDevice r.owner r.owner.length with
        | (none, t) => t
        | (some dev, t) =>
            if r.rtype = srvType then t
            else if r.rtype = txtType then r.pairs.foldl (readPair fromaddr dev) t
            else t

end DeviceDiscovery

/-! ## The callback on the devices -/

/-- A device is found under a name. -/
def Device.Matches (d : Device) (name : List UInt8) : Prop :=
  strncmp d.serial.bytes name name.length = 0

instance (d : Device) (name : List UInt8) : Decidable (d.Matches name) :=
  inferInstanceAs (Decidable (_ = _))

namespace TxtPair

/-- The pair is taken for the name. -/
def Used (p : TxtPair) : Prop := p.value ≠ [] ∧ p.key <+: ascii "name"

instance (p : TxtPair) : Decidable p.Used := inferInstanceAs (Decidable (_ ∧ _))

theorem key_iff (p : TxtPair) :
    strncmp (ascii "name") p.key p.key.length = 0 ↔ p.key <+: ascii "name" := by
  have hzero : 0 ∉ p.key := fun h => absurd (p.printable 0 h).1 (by decide)
  rw [strncmp_length_eq_zero_iff le_rfl (by rwa [List.take_length]), List.take_length]
  rfl

end TxtPair

namespace MdnsRecord

/-- The device that an answer makes. -/
def newDevice (r : MdnsRecord) (addrbuffer : List UInt8) : Device :=
  let fromaddr := (text addrbuffer).take 63
  let d := Device.named r.target r.target.length
  { d with
    handle := r.queryId.toNat
    model := d.model.store 0 fromaddr
    address := d.address.store 0 fromaddr }

/-- The device after a pair has been read. -/
def renameBy (fromaddr : List UInt8) (d : Device) (p : TxtPair) : Device :=
  if p.Used then { d with model := d.model.snprintf (modelText p.value fromaddr) } else d

/-- The device after the pairs of a record have been read. -/
def rename (fromaddr : List UInt8) (pairs : List TxtPair) (d : Device) : Device :=
  pairs.foldl (renameBy fromaddr) d

/-- The devices after a record. -/
def respond (r : MdnsRecord) (ds : List Device) : List Device :=
  match r.fromaddr with
  | none => ds
  | some addrbuffer =>
      if r.entryType = .answer then
        if (∃ d ∈ ds, d.Matches r.target) ∨ ds.length = devicesLimit then ds
        else ds ++ [r.newDevice addrbuffer]
      else if r.entryType = .additional ∧ r.rtype = txtType then
        match ds.findIdx? fun d => d.Matches r.owner with
        | none => ds
        | some i => ds.modify i (rename (text addrbuffer) r.pairs)
      else ds

end MdnsRecord

namespace DeviceDiscovery

variable {s : DeviceDiscovery} {ds : List Device}

theorem holds_readPair (h : s.Holds ds) (fromaddr : List UInt8) (dev : Nat) (p : TxtPair) :
    (readPair fromaddr dev s p).Holds
      (ds.modify dev fun d => MdnsRecord.renameBy fromaddr d p) := by
  have hsame : ∀ hused : ¬ p.Used,
      (ds.modify dev fun d => MdnsRecord.renameBy fromaddr d p) = ds := fun hused => by
    simp only [MdnsRecord.renameBy, if_neg hused]
    exact List.modify_id _ _
  unfold readPair
  split
  · rename_i hempty
    rw [hsame fun hused => hused.1 (List.length_eq_zero_iff.mp hempty)]
    exact h
  · rename_i hvalue
    split
    · rename_i hkey
      have hused : p.Used := ⟨fun hnil => hvalue (by rw [hnil]; rfl), p.key_iff.mp hkey⟩
      simp only [MdnsRecord.renameBy, if_pos hused]
      exact h.update dev _
    · rename_i hkey
      rw [hsame fun hused => hkey (p.key_iff.mpr hused.2)]
      exact h

theorem holds_readPairs (h : s.Holds ds) (fromaddr : List UInt8) (dev : Nat)
    (pairs : List TxtPair) :
    (pairs.foldl (readPair fromaddr dev) s).Holds
      (ds.modify dev (MdnsRecord.rename fromaddr pairs)) := by
  induction pairs generalizing s ds with
  | nil =>
    have hsame : ds.modify dev (MdnsRecord.rename fromaddr []) = ds := List.modify_id _ _
    rw [hsame]
    exact h
  | cons p pairs ih =>
    have hnext := ih (holds_readPair h fromaddr dev p)
    rw [List.modify_modify_eq] at hnext
    exact hnext

/-- **The callback works on the devices.** -/
theorem Holds.queryCallback (h : s.Holds ds) (r : MdnsRecord) :
    (s.queryCallback r).Holds (r.respond ds) := by
  unfold DeviceDiscovery.queryCallback MdnsRecord.respond
  cases r.fromaddr with
  | none => exact h
  | some addrbuffer =>
    dsimp only
    by_cases hanswer : r.entryType = .answer
    · rw [if_pos hanswer, if_pos hanswer]
      obtain ⟨hwhy, hret, hkeep⟩ | ⟨⟨hnone, hroom⟩, hret, hpush⟩ :=
        h.addDevice r.target r.target.length
      · have hfound : (∃ d ∈ ds, d.Matches r.target) ∨ ds.length = devicesLimit := hwhy
        rw [if_pos hfound, ← Prod.mk.eta (p := s.addDevice r.target r.target.length), hret]
        exact hkeep
      · have hfree : ¬ ((∃ d ∈ ds, d.Matches r.target) ∨ ds.length = devicesLimit) :=
          not_or.mpr ⟨hnone, by omega⟩
        rw [if_neg hfree, ← Prod.mk.eta (p := s.addDevice r.target r.target.length), hret]
        exact hpush.update_last _
    · rw [if_neg hanswer, if_neg hanswer]
      by_cases hadd : r.entryType = .additional
      · have hget : (s.getDevice r.owner r.owner.length).1 =
            ds.findIdx? fun d => d.Matches r.owner := h.getDevice_fst r.owner r.owner.length
        have hkeep := h.getDevice r.owner r.owner.length
        rw [if_neg (not_not.mpr hadd), ← Prod.mk.eta (p := s.getDevice r.owner r.owner.length),
          hget]
        by_cases htxt : r.rtype = txtType
        · have hsrv : ¬ r.rtype = srvType := by
            rw [htxt]
            decide
          rw [if_pos ⟨hadd, htxt⟩]
          cases ds.findIdx? fun d => d.Matches r.owner with
          | none => exact hkeep
          | some i =>
            simp only [if_neg hsrv, if_pos htxt]
            exact holds_readPairs hkeep _ i r.pairs
        · rw [if_neg fun hboth => htxt hboth.2]
          cases ds.findIdx? fun d => d.Matches r.owner with
          | none => exact hkeep
          | some i =>
            simp only [if_neg htxt, ite_self]
            exact hkeep
      · rw [if_pos hadd, if_neg fun hboth => hadd hboth.1]
        exact h

end DeviceDiscovery

end DroidcamWhip
