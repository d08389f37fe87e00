import Mathlib.Data.List.Basic

/-!
The Annex B byte stream format of H.264 and HEVC: NAL units separated by the
start code `00 00 01`, which a further zero byte may precede.
-/

namespace AnnexB

/-- The bytes before the first start code, and the units after each of them.
Prepending a byte can only complete a start code at the very front. -/
def split : List UInt8 → List UInt8 × List (List UInt8)
  | [] => ([], [])
  | b :: bs =>
      let r := split bs
      if b = 0 ∧ r.1.take 2 = [0, 1] then ([], r.1.drop 2 :: r.2) else (b :: r.1, r.2)

def nalUnits (bs : List UInt8) : List (List UInt8) := (split bs).2

/-- At least one unit, each with a header, and nothing before the first start
code but its optional zero byte. -/
def WellFormed (bs : List UInt8) : Prop :=
  ((split bs).1 = [] ∨ (split bs).1 = [0]) ∧ nalUnits bs ≠ [] ∧ [] ∉ nalUnits bs

instance (bs : List UInt8) : Decidable (WellFormed bs) :=
  inferInstanceAs (Decidable (_ ∧ _ ∧ _))

/-- `nal_unit_type` of an H.264 unit, from its first header byte. -/
def avcType (header : UInt8) : Nat := (header &&& 0x1f).toNat

/-- `nal_unit_type` of an HEVC unit, from its first header byte. -/
def hevcType (header : UInt8) : Nat := ((header >>> 1) &&& 0x3f).toNat

def header (unit : List UInt8) : UInt8 := unit.headD 0

theorem split_cons (b : UInt8) (bs : List UInt8) :
    (b = 0 ∧ (split bs).1.take 2 = [0, 1] ∧
      split (b :: bs) = ([], (split bs).1.drop 2 :: (split bs).2)) ∨
    split (b :: bs) = (b :: (split bs).1, (split bs).2) := by
  by_cases h : b = 0 ∧ (split bs).1.take 2 = [0, 1]
  · exact .inl ⟨h.1, h.2, by simp only [split]; rw [if_pos h]⟩
  · exact .inr (by simp only [split]; rw [if_neg h])

/-- A leading chunk that starts with a byte starts where the stream does. -/
theorem split_chunk {bs h : List UInt8} {b : UInt8} {us : List (List UInt8)}
    (hs : split bs = (b :: h, us)) : ∃ tail, bs = b :: tail ∧ split tail = (h, us) := by
  cases bs with
  | nil => simp [split] at hs
  | cons c cs =>
    rcases split_cons c cs with ⟨_, _, hc⟩ | hc
    · simp [hs] at hc
    · rw [hc] at hs
      simp only [Prod.mk.injEq, List.cons.injEq] at hs
      obtain ⟨⟨rfl, rfl⟩, rfl⟩ := hs
      exact ⟨cs, rfl, rfl⟩

/-- An empty leading chunk before a unit is a three-byte start code. -/
theorem split_startCode {bs u : List UInt8} {us : List (List UInt8)}
    (hs : split bs = ([], u :: us)) :
    ∃ tail, bs = 0 :: 0 :: 1 :: tail ∧ split tail = (u, us) := by
  cases bs with
  | nil => simp [split] at hs
  | cons b bs =>
    rcases split_cons b bs with ⟨rfl, ht, hc⟩ | hc
    · rw [hc] at hs
      simp only [Prod.mk.injEq, List.cons.injEq, true_and] at hs
      obtain ⟨hu, rfl⟩ := hs
      have hchunk : (split bs).1 = 0 :: 1 :: u := by
        rw [← List.take_append_drop 2 (split bs).1, ht, hu]
        rfl
      obtain ⟨t₁, rfl, h₁⟩ := split_chunk (Prod.ext hchunk rfl)
      obtain ⟨t₂, rfl, h₂⟩ := split_chunk h₁
      exact ⟨t₂, rfl, h₂⟩
    · simp [hc] at hs

/-- Position of the first unit's header byte, found from the third byte. -/
def headerIndex (bs : List UInt8) : Nat := if bs.getD 2 0 = 1 then 3 else 4

/-- **First header.** In a well-formed stream the byte at `headerIndex` is the
header of the first unit. -/
theorem WellFormed.first_header {bs : List UInt8} (h : WellFormed bs) :
    ∃ u us, nalUnits bs = u :: us ∧ bs[headerIndex bs]? = some (header u) := by
  obtain ⟨hpre, hne, hmem⟩ := h
  cases hn : nalUnits bs with
  | nil => exact absurd hn hne
  | cons u us =>
    refine ⟨u, us, rfl, ?_⟩
    have hu : u ≠ [] := by
      rintro rfl
      exact hmem (by simp [hn])
    obtain ⟨c, u, rfl⟩ := List.exists_cons_of_ne_nil hu
    -- behind a start code, the first unit's first byte comes next
    have hcode : ∀ cs, split cs = ([], (c :: u) :: us) → ∃ t, cs = 0 :: 0 :: 1 :: c :: t := by
      intro cs hcs
      obtain ⟨tail, rfl, ht⟩ := split_startCode hcs
      obtain ⟨t, rfl, _⟩ := split_chunk ht
      exact ⟨t, rfl⟩
    rcases hpre with hp | hp
    · obtain ⟨t, rfl⟩ := hcode bs (Prod.ext hp hn)
      rfl
    · obtain ⟨cs, rfl, hcs⟩ := split_chunk (Prod.ext hp hn : split bs = ([0], (c :: u) :: us))
      obtain ⟨t, rfl⟩ := hcode cs hcs
      rfl

example : nalUnits [0, 0, 0, 1, 9, 16, 0, 0, 1, 65, 7] = [[9, 16], [65, 7]] := by decide

end AnnexB
