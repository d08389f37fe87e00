import DroidcamWhip.Lib.Bytes

/-!
`cmd_execute` of `sys/unix/cmd.cc`: the parent reads what the child writes into the
caller's buffer once and drains the rest of the pipe.
-/

namespace DroidcamWhip

/-! ## The pipe -/

/-- How a call of `read` is answered: it fails, or it may return up to `n` bytes. -/
inductive ReadAnswer where
  | failed
  | ready (n : { n : Nat // 0 < n })

/-- The bytes that a call with the count `count` may return. -/
def ReadAnswer.room (a : ReadAnswer) (count : Nat) : Nat :=
  match a with
  | failed => 0
  | ready n => min count n

/-- `SIZE_MAX`, which is what -1 becomes in a `size_t`. -/
def sizeMax : Nat := 2 ^ 64 - 1

/-- `read` from a pipe with the bytes `rest` in it whose writer is going to close it: the
value as a `size_t`, the bytes that are stored, and those that stay in the pipe. -/
def readPipe (a : ReadAnswer) (rest : List UInt8) (count : Nat) : Nat × List UInt8 × List UInt8 :=
  match a with
  | .failed => (sizeMax, [], rest)
  | .ready n =>
      let got := rest.take (min count n)
      (got.length, got, rest.drop (min count n))

/-- The answers after the first. -/
def later (answers : Nat → ReadAnswer) : Nat → ReadAnswer := fun i => answers (i + 1)

/-! ## `cmd_execute` -/

inductive ProcessResult where
  | success
  | errorGeneric
  | errorMissingBinary
  deriving DecidableEq

/-- The loop that reads into `scratch`; nothing if it takes more than `fuel` calls. -/
def drain : Nat → (Nat → ReadAnswer) → List UInt8 → Option (List UInt8)
  | 0, _, _ => none
  | fuel + 1, answers, rest =>
      let (n, _, rest) := readPipe (answers 0) rest 256
      if n > 0 then drain fuel (later answers) rest else some rest

/-- The result and the buffer; nothing if draining takes more than `fuel` calls. `pipe`
tells whether `pipe` succeeds, `fork` is the child that `fork` makes, and the child
writes `written`. -/
def cmdExecute (fuel : Nat) (pipe : Bool) (fork : Option Nat) (answers : Nat → ReadAnswer)
    (written : List UInt8) (out : Option (List UInt8)) :
    Option (ProcessResult × Option (List UInt8)) :=
  if ¬ pipe then some (.errorGeneric, out)
  else
    match fork with
    | none => some (.errorGeneric, out)
    | some _ =>
        match out with
        | none => (drain fuel answers written).map fun _ => (.success, none)
        | some buf =>
            if buf.length > 2 then
              let (n, got, rest) := readPipe (answers 0) written (buf.length - 1)
              let buf' := Bytes.overwrite buf 0 got
              if n ≥ buf.length then some (.errorGeneric, some buf')
              else
                let buf' := if n > 0 then buf'.set n 0 else buf'
                (drain fuel (later answers) rest).map fun _ => (.success, some buf')
            else (drain fuel answers written).map fun _ => (.success, some buf)

/-- A buffer as the callers have them. -/
structure OutBuffer where
  bytes : List UInt8
  large : 2 < bytes.length
  addressable : bytes.length ≤ sizeMax

/-- The call comes to an end, and if it is a success then the buffer has what was written
in it, as far as there is room, and a terminator. -/
def Captured (pipe : Bool) (fork : Option Nat) (answers : Nat → ReadAnswer)
    (written : List UInt8) (out : OutBuffer) : Prop :=
  (∃ fuel r, cmdExecute fuel pipe fork answers written (some out.bytes) = some r) ∧
    ∀ fuel buf, cmdExecute fuel pipe fork answers written (some out.bytes) =
        some (.success, some buf) →
      written.take (out.bytes.length - 1) ++ [0] <+: buf

/-! ## Draining -/

/-- The bytes that the first `i` calls for `scratch` may return. -/
def drained (answers : Nat → ReadAnswer) : Nat → Nat
  | 0 => 0
  | i + 1 => (answers 0).room 256 + drained (later answers) i

/-- A call that does not fail comes when the pipe is empty. -/
def Drains (answers : Nat → ReadAnswer) (left : Nat) : Prop :=
  ∃ i n, answers i = .ready n ∧ left ≤ drained answers i

theorem drain_failed {answers : Nat → ReadAnswer} (ha : answers 0 = .failed) (fuel : Nat)
    (rest : List UInt8) : drain (fuel + 1) answers rest = drain fuel (later answers) rest := by
  rw [drain, ha]
  rfl

theorem drain_empty {answers : Nat → ReadAnswer} {n : { n : Nat // 0 < n }}
    (ha : answers 0 = .ready n) (fuel : Nat) : drain (fuel + 1) answers [] = some [] := by
  simp [drain, ha, readPipe]

theorem drain_more {answers : Nat → ReadAnswer} {n : { n : Nat // 0 < n }}
    (ha : answers 0 = .ready n) (fuel : Nat) {rest : List UInt8} (hne : rest ≠ []) :
    drain (fuel + 1) answers rest = drain fuel (later answers) (rest.drop (min 256 n)) := by
  have hpos := List.length_pos_iff.mpr hne
  have hn := n.2
  have hgot : (rest.take (min 256 n)).length > 0 := by
    rw [List.length_take]
    omega
  rw [drain, ha]
  exact if_pos hgot

/-- **Draining ends** exactly if some call meets an empty pipe and does not fail: a call
that fails looks like one that has read something. -/
theorem drain_iff (answers : Nat → ReadAnswer) (rest : List UInt8) :
    (∃ fuel r, drain fuel answers rest = some r) ↔ Drains answers rest.length := by
  constructor
  · rintro ⟨fuel, r, h⟩
    induction fuel generalizing answers rest with
    | zero => simp [drain] at h
    | succ fuel ih =>
      cases ha : answers 0 with
      | failed =>
        rw [drain_failed ha] at h
        obtain ⟨i, n, hi, hle⟩ := ih (later answers) rest h
        refine ⟨i + 1, n, hi, ?_⟩
        rw [drained]
        omega
      | ready n =>
        by_cases hempty : rest = []
        · exact ⟨0, n, ha, by simp [hempty]⟩
        · rw [drain_more ha fuel hempty] at h
          obtain ⟨i, k, hi, hle⟩ := ih (later answers) _ h
          refine ⟨i + 1, k, hi, ?_⟩
          rw [List.length_drop] at hle
          rw [drained, ha, ReadAnswer.room]
          omega
  · rintro ⟨i, n, hi, hle⟩
    induction i generalizing answers rest with
    | zero =>
      have hnil : rest = [] := List.length_eq_zero_iff.mp (by simpa [drained] using hle)
      exact ⟨1, [], by rw [hnil, drain_empty hi]⟩
    | succ i ih =>
      cases ha : answers 0 with
      | failed =>
        rw [drained, ha, ReadAnswer.room, Nat.zero_add] at hle
        obtain ⟨fuel, r, h⟩ := ih (later answers) rest hi hle
        exact ⟨fuel + 1, r, by rw [drain_failed ha, h]⟩
      | ready k =>
        by_cases hempty : rest = []
        · exact ⟨1, [], by rw [hempty, drain_empty ha]⟩
        · rw [drained, ha, ReadAnswer.room] at hle
          obtain ⟨fuel, r, h⟩ := ih (later answers) (rest.drop (min 256 k)) hi
            (by rw [List.length_drop]; omega)
          exact ⟨fuel + 1, r, by rw [drain_more ha fuel hempty, h]⟩

/-! ## The first read -/

/-- The one `read` into the buffer of up to `n` bytes is enough: it gets all that there is
room for, or the buffer happened to have what comes behind it; with nothing to read, the
buffer was empty before. -/
def FirstReadFills (written : List UInt8) (out : OutBuffer) (n : Nat) : Prop :=
  if written = [] then out.bytes.head? = some 0
  else
    min written.length (out.bytes.length - 1) ≤ n ∨
      (written.take (out.bytes.length - 1)).drop n ++ [0] <+: 0 :: out.bytes.drop (n + 1)

/-- If the pipe and the child are there and the first call does not fail, then it is enough
and the rest of the pipe drains. -/
def ReadsWell (pipe : Bool) (fork : Option Nat) (answers : Nat → ReadAnswer)
    (written : List UInt8) (out : OutBuffer) : Prop :=
  pipe = true → fork ≠ none → ∀ n, answers 0 = .ready n →
    FirstReadFills written out n ∧
      Drains (later answers) (written.length - min (out.bytes.length - 1) n)

/-- The buffer after a first call that may return up to `n` bytes. -/
def filled (written : List UInt8) (out : OutBuffer) (n : Nat) : List UInt8 :=
  let got := written.take (min (out.bytes.length - 1) n)
  let buf := Bytes.overwrite out.bytes 0 got
  if got.length > 0 then buf.set got.length 0 else buf

theorem filled_iff (written : List UInt8) (out : OutBuffer) (n : { n : Nat // 0 < n }) :
    written.take (out.bytes.length - 1) ++ [0] <+: filled written out n ↔
      FirstReadFills written out n := by
  have hlarge := out.large
  have hn := n.2
  have hgot : (written.take (min (out.bytes.length - 1) n)).length ≤ out.bytes.length := by
    rw [List.length_take]
    omega
  unfold filled FirstReadFills
  dsimp only
  rw [Bytes.overwrite_zero _ _ hgot]
  by_cases hempty : written = []
  · simp [hempty, List.singleton_prefix_iff_head?_eq_some]
  · have hpos := List.length_pos_iff.mpr hempty
    have htake : written.take (min (out.bytes.length - 1) n) =
        (written.take (out.bytes.length - 1)).take n := by
      rw [List.take_take, Nat.min_comm]
    have hlen : (written.take (min (out.bytes.length - 1) n)).length > 0 := by
      rw [List.length_take]
      omega
    have hlt : (written.take (min (out.bytes.length - 1) n)).length < out.bytes.length := by
      rw [List.length_take]
      omega
    rw [if_neg hempty, if_pos hlen, List.set_append_right _ _ le_rfl, Nat.sub_self,
      List.drop_eq_getElem_cons hlt, List.set_cons_zero, htake]
    have hall : (written.take (out.bytes.length - 1)).length =
        min written.length (out.bytes.length - 1) := by
      rw [List.length_take, Nat.min_comm]
    by_cases hfull : min written.length (out.bytes.length - 1) ≤ n
    · have hsame : (written.take (out.bytes.length - 1)).take n =
          written.take (out.bytes.length - 1) := List.take_of_length_le (by omega)
      rw [hsame]
      exact iff_of_true ⟨_, List.append_assoc _ _ _⟩ (.inl hfull)
    · have hk : ((written.take (out.bytes.length - 1)).take n).length = n :=
        List.length_take_of_le (by omega)
      rw [or_iff_right hfull, hk]
      conv_lhs => rw [← List.take_append_drop n (written.take (out.bytes.length - 1))]
      rw [List.append_assoc, List.take_append_drop, List.prefix_append_right_inj]

theorem cmdExecute_failed (fuel child : Nat) {answers : Nat → ReadAnswer}
    (ha : answers 0 = .failed) (written : List UInt8) (out : OutBuffer) :
    cmdExecute fuel true (some child) answers written (some out.bytes) =
      some (.errorGeneric, some (Bytes.overwrite out.bytes 0 [])) := by
  have hlarge := out.large
  have haddr := out.addressable
  unfold cmdExecute
  simp only [not_true_eq_false, if_false, if_pos hlarge, ha, readPipe]
  exact if_pos haddr

theorem cmdExecute_ready (fuel child : Nat) {answers : Nat → ReadAnswer}
    {n : { n : Nat // 0 < n }} (ha : answers 0 = .ready n) (written : List UInt8)
    (out : OutBuffer) :
    cmdExecute fuel true (some child) answers written (some out.bytes) =
      (drain fuel (later answers) (written.drop (min (out.bytes.length - 1) n))).map fun _ =>
        (.success, some (filled written out n)) := by
  have hlarge := out.large
  have hfit : ¬ (written.take (min (out.bytes.length - 1) n)).length ≥ out.bytes.length := by
    rw [List.length_take]
    omega
  unfold cmdExecute
  simp only [not_true_eq_false, if_false, if_pos hlarge, ha, readPipe, if_neg hfit]
  rfl

/-- **`cmd_execute` captures the output whatever the timing** exactly if the first read is
enough and no error comes to stay while the pipe is drained. -/
theorem captured_iff (pipe : Bool) (fork : Option Nat) (answers : Nat → ReadAnswer)
    (written : List UInt8) (out : OutBuffer) :
    Captured pipe fork answers written out ↔ ReadsWell pipe fork answers written out := by
  cases pipe with
  | false =>
    refine iff_of_true ⟨⟨0, _, rfl⟩, ?_⟩ (by simp [ReadsWell])
    intro fuel buf h
    cases h
  | true =>
    cases fork with
    | none =>
      refine iff_of_true ⟨⟨0, _, rfl⟩, ?_⟩ (by simp [ReadsWell])
      intro fuel buf h
      cases h
    | some child =>
      cases ha : answers 0 with
      | failed =>
        refine iff_of_true ⟨⟨0, _, cmdExecute_failed 0 child ha written out⟩, ?_⟩ ?_
        · intro fuel buf h
          rw [cmdExecute_failed fuel child ha] at h
          cases h
        · intro _ _ n hn
          rw [ha] at hn
          cases hn
      | ready n =>
        have hends : (∃ fuel r, cmdExecute fuel true (some child) answers written
              (some out.bytes) = some r) ↔
            Drains (later answers) (written.length - min (out.bytes.length - 1) n) := by
          rw [← List.length_drop, ← drain_iff]
          simp [cmdExecute_ready _ child ha]
        have hreads : ReadsWell true (some child) answers written out ↔
            FirstReadFills written out n ∧
              Drains (later answers) (written.length - min (out.bytes.length - 1) n) := by
          simp [ReadsWell, ha]
        rw [hreads, Captured, hends, and_comm]
        refine and_congr_left fun hdrains => ?_
        obtain ⟨fuel, r, hrun⟩ := hends.mpr hdrains
        rw [← filled_iff]
        constructor
        · intro h
          rw [cmdExecute_ready fuel child ha] at hrun
          obtain ⟨left, hleft, -⟩ := Option.map_eq_some_iff.mp hrun
          apply h fuel
          rw [cmdExecute_ready fuel child ha, hleft, Option.map_some]
        · intro h fuel buf hbuf
          rw [cmdExecute_ready fuel child ha] at hbuf
          obtain ⟨left, -, heq⟩ := Option.map_eq_some_iff.mp hbuf
          obtain rfl : filled written out n = buf := by simpa using heq
          exact h

/-- The output `ab` in two pieces: only the first is kept. -/
theorem not_captured_pieces :
    ¬ Captured true (some 1) (fun _ => .ready ⟨1, by decide⟩) [97, 98]
      ⟨[0, 0, 0, 0], by decide, by decide⟩ := by
  intro h
  have hprefix := h.2 4 [97, 0, 0, 0] (by decide)
  revert hprefix
  decide

end DroidcamWhip
