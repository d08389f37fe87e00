import Mathlib.Data.List.Infix
import DroidcamWhip.Lib.Bytes

/-!
Names as DNS messages spell them: labels, each behind its length, up to an empty label.
In place of a label there may be a reference to a place in the message where the name
goes on.
-/

namespace Names

/-! ## Spelling -/

/-- A length that is none: the two top bits mark a reference. -/
def IsRef (b : UInt8) : Prop := 192 ≤ b.toNat

instance (b : UInt8) : Decidable (IsRef b) := inferInstanceAs (Decidable (_ ≤ _))

/-- Where a reference leads to. -/
def target (a b : UInt8) : Nat := Bytes.value [a, b] % 2 ^ 14

/-- A length and as many bytes. -/
def counted (l : List UInt8) : List UInt8 := UInt8.ofNat l.length :: l

/-- The label `l` stands in the message `m` at `j`. -/
def Stored (m : List UInt8) (j : Nat) (l : List UInt8) : Prop :=
  l.length < 192 ∧ counted l <+: m.drop j

/-- From `i` the way leads over `k` references to `j`, where there is none. -/
inductive Leads (m : List UInt8) : Nat → Nat → Nat → Prop
  | here {i : Nat} {b : UInt8} : m[i]? = some b → ¬ IsRef b → Leads m 0 i i
  | hop {i j k : Nat} {a b : UInt8} :
      m[i]? = some a → IsRef a → m[i + 1]? = some b → Leads m k (target a b) j →
      Leads m (k + 1) i j

/-- The labels are spelled from `i` on, with at most `hops` references before each. -/
inductive Spells (m : List UInt8) (hops : Nat) : Nat → List (List UInt8) → Prop
  | root {i j k : Nat} : Leads m k i j → k ≤ hops → Stored m j [] → Spells m hops i []
  | label {i j k : Nat} {l : List UInt8} {ls : List (List UInt8)} :
      Leads m k i j → k ≤ hops → Stored m j l → l ≠ [] →
      Spells m hops (j + 1 + l.length) ls → Spells m hops i (l :: ls)

/-- What is spelled from `i` on goes up to `e`: up to an empty label or a reference. -/
inductive Ends (m : List UInt8) : Nat → Nat → Prop
  | root {i : Nat} : Stored m i [] → Ends m i (i + 1)
  | ref {i : Nat} {a b : UInt8} :
      m[i]? = some a → IsRef a → m[i + 1]? = some b → Ends m i (i + 2)
  | label {i e : Nat} {l : List UInt8} :
      Stored m i l → l ≠ [] → Ends m (i + 1 + l.length) e → Ends m i e

/-- The labels, each with a dot behind it. -/
def dotted (ls : List (List UInt8)) : List UInt8 := ls.flatMap (· ++ [46])

/-- The labels one behind the other, without an end. -/
def packed (ls : List (List UInt8)) : List UInt8 := ls.flatMap counted

/-- A name without references. -/
def encode (ls : List (List UInt8)) : List UInt8 := packed ls ++ [0]

/-- Labels that can be spelled: none is empty, none has a length that is a reference. -/
def Fit (ls : List (List UInt8)) : Prop := ∀ l ∈ ls, l ≠ [] ∧ l.length < 192

instance (ls : List (List UInt8)) : Decidable (Fit ls) :=
  inferInstanceAs (Decidable (∀ l ∈ ls, _ ∧ _))

variable {m : List UInt8} {i j k e hops : Nat} {l : List UInt8} {ls : List (List UInt8)}

@[simp] theorem counted_length (l : List UInt8) : (counted l).length = l.length + 1 := rfl

@[simp] theorem dotted_nil : dotted [] = [] := rfl

@[simp] theorem dotted_cons (l : List UInt8) (ls : List (List UInt8)) :
    dotted (l :: ls) = l ++ [46] ++ dotted ls := rfl

@[simp] theorem packed_nil : packed [] = [] := rfl

@[simp] theorem packed_cons (l : List UInt8) (ls : List (List UInt8)) :
    packed (l :: ls) = counted l ++ packed ls := rfl

theorem packed_length (ls : List (List UInt8)) : (packed ls).length = (dotted ls).length := by
  induction ls with
  | nil => rfl
  | cons l ls ih =>
    simp only [packed_cons, dotted_cons, List.length_append, counted_length, ih,
      List.length_singleton]

/-! ## What stands in a message -/

theorem toNat_length (h : l.length < 192) : (UInt8.ofNat l.length).toNat = l.length := by
  rw [UInt8.toNat_ofNat']
  omega

theorem Stored.getElem? (h : Stored m j l) : m[j]? = some (UInt8.ofNat l.length) := by
  obtain ⟨t, ht⟩ := h.2
  have hhead : (m.drop j)[0]? = some (UInt8.ofNat l.length) := by
    rw [← ht]
    rfl
  rwa [List.getElem?_drop, Nat.add_zero] at hhead

theorem Stored.not_ref (h : Stored m j l) : ¬ IsRef (UInt8.ofNat l.length) := by
  rw [IsRef, toNat_length h.1]
  exact Nat.not_le.mpr h.1

theorem Stored.bytes (h : Stored m j l) : (m.drop (j + 1)).take l.length = l := by
  obtain ⟨t, ht⟩ := h.2
  rw [← List.drop_drop, ← ht]
  show (l ++ t).take l.length = l
  exact List.take_left

theorem Stored.le (h : Stored m j l) : j + 1 + l.length ≤ m.length := by
  have hlen := h.2.length_le
  rw [List.length_drop, counted_length] at hlen
  omega

/-- A length within the message has a label behind it. -/
theorem stored_of_getElem? {b : UInt8} (hb : m[j]? = some b) (href : ¬ IsRef b)
    (hm : j + 1 + b.toNat ≤ m.length) :
    Stored m j ((m.drop (j + 1)).take b.toNat) ∧
      ((m.drop (j + 1)).take b.toNat).length = b.toNat := by
  have hlen : ((m.drop (j + 1)).take b.toNat).length = b.toNat := by
    rw [List.length_take, List.length_drop]
    omega
  obtain ⟨hlt, hget⟩ := List.getElem?_eq_some_iff.mp hb
  refine ⟨⟨by rw [hlen]; exact Nat.not_le.mp href, ?_⟩, hlen⟩
  rw [counted, hlen, UInt8.ofNat_toNat, List.drop_eq_getElem_cons hlt, hget]
  exact List.prefix_cons_inj b |>.mpr (List.take_prefix _ _)

theorem Stored.unique {l' : List UInt8} (h : Stored m j l) (h' : Stored m j l') : l = l' := by
  have hlen : l.length = l'.length := by
    have hb := Option.some_inj.mp (h.getElem?.symm.trans h'.getElem?)
    rw [← toNat_length h.1, ← toNat_length h'.1, hb]
  rw [← h.bytes, ← h'.bytes, hlen]

theorem Leads.lt (h : Leads m k i j) : i < m.length := by
  cases h with
  | here hb _ => exact (List.getElem?_eq_some_iff.mp hb).1
  | hop ha _ _ _ => exact (List.getElem?_eq_some_iff.mp ha).1

/-- The way from a reference. -/
theorem Leads.of_ref {a b : UInt8} (ha : m[i]? = some a) (href : IsRef a)
    (hb : m[i + 1]? = some b) (h : Leads m k i j) :
    ∃ k', k = k' + 1 ∧ Leads m k' (target a b) j := by
  cases h with
  | here hc hno => exact absurd href (Option.some_inj.mp (ha.symm.trans hc) ▸ hno)
  | hop ha' _ hb' hrest =>
    cases Option.some_inj.mp (ha.symm.trans ha')
    cases Option.some_inj.mp (hb.symm.trans hb')
    exact ⟨_, rfl, hrest⟩

/-- The way from a label. -/
theorem Leads.of_label {b : UInt8} (hb : m[i]? = some b) (href : ¬ IsRef b)
    (h : Leads m k i j) : k = 0 ∧ j = i := by
  cases h with
  | here _ _ => exact ⟨rfl, rfl⟩
  | hop ha hyes _ _ => exact absurd (Option.some_inj.mp (ha.symm.trans hb) ▸ hyes) href

theorem Leads.unique {k' j' : Nat} (h : Leads m k i j) (h' : Leads m k' i j') :
    k = k' ∧ j = j' := by
  induction h generalizing k' j' with
  | here hb href =>
    obtain ⟨rfl, rfl⟩ := h'.of_label hb href
    exact ⟨rfl, rfl⟩
  | hop ha href hb _ ih =>
    obtain ⟨k', rfl, hrest⟩ := h'.of_ref ha href hb
    obtain ⟨rfl, rfl⟩ := ih hrest
    exact ⟨rfl, rfl⟩

/-- **A place spells one name.** -/
theorem Spells.unique {ls' : List (List UInt8)} (h : Spells m hops i ls)
    (h' : Spells m hops i ls') : ls = ls' := by
  induction h generalizing ls' with
  | root hlead _ hstored =>
    cases h' with
    | root _ _ _ => rfl
    | label hlead' _ hstored' hne _ =>
      obtain ⟨-, rfl⟩ := hlead.unique hlead'
      exact absurd (hstored'.unique hstored) hne
  | label hlead _ hstored hne _ ih =>
    cases h' with
    | root hlead' _ hstored' =>
      obtain ⟨-, rfl⟩ := hlead.unique hlead'
      exact absurd (hstored.unique hstored') hne
    | label hlead' _ hstored' _ hrest =>
      obtain ⟨-, rfl⟩ := hlead.unique hlead'
      cases hstored.unique hstored'
      rw [ih hrest]

/-- A name that is spelled ends somewhere. -/
theorem Spells.ends (h : Spells m hops i ls) : ∃ e, Ends m i e := by
  induction h with
  | root hlead _ hstored =>
    cases hlead with
    | here _ _ => exact ⟨_, .root hstored⟩
    | hop ha href hb _ => exact ⟨_, .ref ha href hb⟩
  | label hlead _ hstored hne _ ih =>
    cases hlead with
    | here _ _ =>
      obtain ⟨e, he⟩ := ih
      exact ⟨e, .label hstored hne he⟩
    | hop ha href hb _ => exact ⟨_, .ref ha href hb⟩

/-- The end is behind the start and inside the message. -/
theorem Ends.bounds (h : Ends m i e) : i < e ∧ e ≤ m.length := by
  induction h with
  | root hstored => exact ⟨Nat.lt_succ_self _, hstored.le⟩
  | ref _ _ hb =>
    have hlt := (List.getElem?_eq_some_iff.mp hb).1
    omega
  | label hstored _ _ ih => omega

theorem Ends.unique {e' : Nat} (h : Ends m i e) (h' : Ends m i e') : e = e' := by
  induction h with
  | root hstored =>
    cases h' with
    | root _ => rfl
    | ref ha href _ =>
      exact absurd href (Option.some_inj.mp (ha.symm.trans hstored.getElem?) ▸ hstored.not_ref)
    | label hstored' hne _ => exact absurd (hstored'.unique hstored) hne
  | ref ha href _ =>
    cases h' with
    | root hstored =>
      exact absurd href (Option.some_inj.mp (ha.symm.trans hstored.getElem?) ▸ hstored.not_ref)
    | ref _ _ _ => rfl
    | label hstored _ _ =>
      exact absurd href (Option.some_inj.mp (ha.symm.trans hstored.getElem?) ▸ hstored.not_ref)
  | label hstored hne _ ih =>
    cases h' with
    | root hstored' => exact absurd (hstored.unique hstored') hne
    | ref ha href _ =>
      exact absurd href (Option.some_inj.mp (ha.symm.trans hstored.getElem?) ▸ hstored.not_ref)
    | label hstored' _ hrest =>
      cases hstored.unique hstored'
      exact ih hrest

/-! ## Writing names -/

theorem stored_of_drop {t : List UInt8} (hl : l.length < 192) (h : m.drop j = counted l ++ t) :
    Stored m j l := ⟨hl, h ▸ List.prefix_append _ _⟩

theorem drop_of_drop {s t : List UInt8} (h : m.drop j = s ++ t) :
    m.drop (j + s.length) = t := by
  rw [← List.drop_drop, h, List.drop_left]

/-- The first place behind labels in a row spells what is left of the name. -/
theorem Spells.packed {t : List UInt8} {ls' : List (List UInt8)} (hfit : Fit ls)
    (h : m.drop i = packed ls ++ t) (hrest : Spells m hops (i + (packed ls).length) ls') :
    Spells m hops i (ls ++ ls') := by
  induction ls generalizing i with
  | nil => exact hrest
  | cons l ls ih =>
    obtain ⟨hne, hlt⟩ := hfit l (List.mem_cons_self ..)
    rw [packed_cons, List.append_assoc] at h
    have hstored : Stored m i l := stored_of_drop hlt h
    have hnext := drop_of_drop h
    rw [counted_length] at hnext
    have hplace : i + (l.length + 1) = i + 1 + l.length := by omega
    refine .label (.here hstored.getElem? hstored.not_ref) (Nat.zero_le _) hstored hne
      (ih (fun l' hl' => hfit l' (List.mem_cons_of_mem _ hl')) (hplace ▸ hnext) ?_)
    rw [packed_cons, List.length_append, counted_length] at hrest
    rwa [show i + 1 + l.length + (Names.packed ls).length =
      i + (l.length + 1 + (Names.packed ls).length) by omega]

theorem Ends.packed {t : List UInt8} (hfit : Fit ls) (h : m.drop i = packed ls ++ t)
    (hrest : Ends m (i + (packed ls).length) e) : Ends m i e := by
  induction ls generalizing i with
  | nil => exact hrest
  | cons l ls ih =>
    obtain ⟨hne, hlt⟩ := hfit l (List.mem_cons_self ..)
    rw [packed_cons, List.append_assoc] at h
    have hstored : Stored m i l := stored_of_drop hlt h
    have hnext := drop_of_drop h
    rw [counted_length] at hnext
    have hplace : i + (l.length + 1) = i + 1 + l.length := by omega
    refine .label hstored hne
      (ih (fun l' hl' => hfit l' (List.mem_cons_of_mem _ hl')) (hplace ▸ hnext) ?_)
    rw [packed_cons, List.length_append, counted_length] at hrest
    rwa [show i + 1 + l.length + (Names.packed ls).length =
      i + (l.length + 1 + (Names.packed ls).length) by omega]

/-- **A name without references** spells its labels, up to its own end. -/
theorem spells_encode (hops : Nat) {t : List UInt8} (hfit : Fit ls) (h : m.drop i = encode ls ++ t) :
    Spells m hops i ls ∧ Ends m i (i + (encode ls).length) := by
  rw [encode, List.append_assoc] at h
  have hroot : Stored m (i + (Names.packed ls).length) [] :=
    stored_of_drop (by decide) (drop_of_drop h)
  have hspells : Spells m hops (i + (Names.packed ls).length) [] :=
    .root (.here hroot.getElem? hroot.not_ref) (Nat.zero_le _) hroot
  have hends : Ends m (i + (Names.packed ls).length) (i + (encode ls).length) := by
    rw [encode, List.length_append, List.length_singleton, ← Nat.add_assoc]
    exact .root hroot
  exact ⟨by simpa using Spells.packed hfit h hspells, Ends.packed hfit h hends⟩

/-- **A name that ends in a reference** goes on with the name spelled there. -/
theorem spells_ref {t : List UInt8} {a b : UInt8} {ls' : List (List UInt8)} (hfit : Fit ls)
    (href : IsRef a) (h : m.drop i = Names.packed ls ++ a :: b :: t)
    (hrest : Spells m hops (target a b) ls') (hlt : ∀ k j, Leads m k (target a b) j → k < hops) :
    Spells m hops i (ls ++ ls') ∧ Ends m i (i + (Names.packed ls).length + 2) := by
  have hget : ∀ n, m[i + (Names.packed ls).length + n]? = (a :: b :: t)[n]? := fun n => by
    rw [← List.getElem?_drop, drop_of_drop h]
  have ha : m[i + (Names.packed ls).length]? = some a := hget 0
  have hb : m[i + (Names.packed ls).length + 1]? = some b := hget 1
  refine ⟨Spells.packed hfit h ?_, Ends.packed hfit h (.ref ha href hb)⟩
  cases hrest with
  | root hlead _ hstored =>
    exact .root (.hop ha href hb hlead) (hlt _ _ hlead) hstored
  | label hlead _ hstored hne hrest =>
    exact .label (.hop ha href hb hlead) (hlt _ _ hlead) hstored hne hrest

end Names
