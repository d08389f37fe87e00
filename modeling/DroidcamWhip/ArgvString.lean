import DroidcamWhip.Lib.CString
import DroidcamWhip.CmdExecute

/-!
Command lines: `argv_to_string`, which renders one for the log, and the vector that
`adb_execute` builds.
-/

namespace DroidcamWhip

open CString

/-! ## `argv_to_string` -/

/-- The difference of two values of type `size_t`. -/
def sizeSub (a b : Nat) : Nat := (a + 2 ^ 64 - b) % 2 ^ 64

/-- `memcpy` of `len` bytes of the string `arg` to `&buf[idx]`; nothing if it would read
behind the string or write behind the buffer. -/
def copyArg (buf : List UInt8) (idx : Nat) (arg : List UInt8) (len : Nat) :
    Option (List UInt8) :=
  if len ≤ arg.length + 1 ∧ idx + len ≤ buf.length then
    some (Bytes.overwrite buf idx ((arg ++ [0]).take len))
  else none

/-- `buf[idx] = b`; nothing if it is behind the buffer. -/
def putByte (buf : List UInt8) (idx : Nat) (b : UInt8) : Option (List UInt8) :=
  if idx < buf.length then some (buf.set idx b) else none

/-- The copy of an argument and the space behind it. -/
def addArg (buf : List UInt8) (idx : Nat) (arg : List UInt8) (len : Nat) :
    Option (List UInt8) :=
  (copyArg buf idx arg len).bind fun buf => putByte buf (idx + len) 32

/-- The loop: whether the string is truncated, `idx` and the buffer. -/
def argvLoop : List (List UInt8) → Nat → List UInt8 → Option (Bool × Nat × List UInt8)
  | [], idx, buf => some (false, idx, buf)
  | arg :: argv, idx, buf =>
      let truncated := decide (idx + arg.length + 1 ≥ buf.length)
      let len := if truncated then sizeSub (sizeSub buf.length idx) 2 else arg.length
      (addArg buf idx arg len).bind fun buf =>
        if truncated then some (true, idx + len + 1, buf)
        else argvLoop argv (idx + len + 1) buf

/-- `argv_to_string` with a buffer of `bufsize` bytes: the result and the buffer; nothing
for an access outside of what is passed. -/
def argvToString (argv : List (List UInt8)) (buf : List UInt8) : Option (Bool × List UInt8) :=
  (argvLoop argv 0 buf).bind fun (truncated, idx, buf) =>
    let idx := if idx > 0 then idx - 1 else idx
    (putByte buf idx 0).map fun buf => (truncated, buf)

/-- The arguments with a space between them. -/
def joined (argv : List (List UInt8)) : List UInt8 := List.intercalate [32] argv

/-- A buffer of two bytes or more. -/
structure ArgvBuffer where
  bytes : List UInt8
  large : 2 ≤ bytes.length
  addressable : bytes.length ≤ sizeMax

/-- All accesses are in bounds, the buffer has a string with what fits of the arguments,
and the result tells whether that is all. -/
def Rendered (argv : List (List UInt8)) (b : ArgvBuffer) : Prop :=
  ∃ truncated out, argvToString argv b.bytes = some (truncated, out) ∧
    out.length = b.bytes.length ∧
    (joined argv).take (b.bytes.length - 2) ++ [0] <+: out ∧
    (truncated = true ↔ b.bytes.length - 2 < (joined argv).length)

/-! ## `adb_execute` -/

/-- What becomes of the vector. -/
inductive CmdVector where
  | refused
  | overflow
  | built (cmd : List (Option (List UInt8)))
  deriving DecidableEq

/-- The slots of `cmd`. -/
def cmdSlots : Nat := 32

/-- `sizeof(cmd)`. -/
def cmdSize : Nat := cmdSlots * 8

/-- The vector of `adb_execute`, with the terminating NULL; the prefix is for Flatpak. -/
def adbVector (flatpak : Bool) (adbExe serial : Option (List UInt8))
    (adbCmd : List (List UInt8)) : CmdVector :=
  if adbCmd.length > cmdSize - 6 then .refused
  else
    match adbExe with
    | none => .refused
    | some exe =>
        let cmd := if flatpak then [some (ascii "flatpak-spawn"), some (ascii "--host")] else []
        let cmd := cmd ++ [some exe]
        let cmd := match serial with
          | none => cmd
          | some serial => cmd ++ [some (ascii "-s"), some serial]
        let cmd := cmd ++ adbCmd.map some ++ [none]
        if cmd.length ≤ cmdSlots then .built cmd else .overflow

/-! ## Rendering -/

/-- The arguments with a space behind each. -/
def spaced (argv : List (List UInt8)) : List UInt8 := (argv.map (· ++ [32])).flatten

theorem spaced_cons (arg : List UInt8) (argv : List (List UInt8)) :
    spaced (arg :: argv) = arg ++ [32] ++ spaced argv := by
  simp [spaced]

/-- The space behind the last argument is too much. -/
theorem spaced_eq {argv : List (List UInt8)} (h : argv ≠ []) : spaced argv = joined argv ++ [32] := by
  induction argv with
  | nil => exact absurd rfl h
  | cons arg argv ih =>
    cases argv with
    | nil => simp [spaced, joined]
    | cons arg' argv =>
      rw [spaced_cons, ih (List.cons_ne_nil _ _), joined, joined, List.intercalate_cons_cons]
      simp

theorem addArg_eq (pre tail arg : List UInt8) {len : Nat} (hlen : len ≤ arg.length)
    (hfit : len + 1 ≤ tail.length) :
    addArg (pre ++ tail) pre.length arg len =
      some (pre ++ arg.take len ++ [32] ++ tail.drop (len + 1)) := by
  have htake : (arg ++ [0]).take len = arg.take len := List.take_append_of_le_length hlen
  have hcopied : (arg.take len).length = len := List.length_take_of_le hlen
  have hcopy : copyArg (pre ++ tail) pre.length arg len =
      some (pre ++ (arg.take len ++ tail.drop len)) := by
    rw [copyArg, if_pos ⟨by omega, by rw [List.length_append]; omega⟩, htake,
      Bytes.overwrite_append, Bytes.overwrite_zero _ _ (by omega), hcopied]
  have hdrop : tail.drop len = tail[len] :: tail.drop (len + 1) := List.drop_eq_getElem_cons hfit
  have hk : (pre ++ arg.take len).length = pre.length + len := by
    rw [List.length_append, hcopied]
  rw [addArg, hcopy, Option.bind_some, putByte, if_pos (by simp; omega),
    ← List.append_assoc, hdrop, List.set_append_right _ _ (by omega), hk, Nat.sub_self,
    List.set_cons_zero, List.append_assoc _ [32]]
  rfl

/-- With one byte left the length of the copy wraps around. -/
theorem addArg_overrun {pre tail : List UInt8} (arg : List UInt8) (hone : tail.length = 1) :
    addArg (pre ++ tail) pre.length arg (sizeSub (sizeSub (pre ++ tail).length pre.length) 2) =
      none := by
  have hlen : sizeSub (sizeSub (pre ++ tail).length pre.length) 2 = 2 ^ 64 - 1 := by
    rw [List.length_append, hone]
    unfold sizeSub
    omega
  rw [addArg, hlen, copyArg, if_neg (by rw [List.length_append]; omega), Option.bind_none]

/-- No argument comes when there is one byte left behind `pre`. -/
def Spacious (size : Nat) (pre : List UInt8) (argv : List (List UInt8)) : Prop :=
  ∀ before arg after, argv = before ++ arg :: after → (pre ++ spaced before).length + 1 ≠ size

theorem spacious_cons (size : Nat) (pre arg : List UInt8) (argv : List (List UInt8)) :
    Spacious size pre (arg :: argv) ↔
      pre.length + 1 ≠ size ∧ Spacious size (pre ++ arg ++ [32]) argv := by
  constructor
  · intro h
    refine ⟨by simpa [spaced] using h [] arg argv rfl, fun before a after heq => ?_⟩
    have hnext := h (arg :: before) a after (by rw [heq]; rfl)
    rw [spaced_cons] at hnext
    simpa using hnext
  · rintro ⟨hfirst, hrest⟩ before a after heq
    cases before with
    | nil => simpa [spaced] using hfirst
    | cons b before =>
      cases heq
      rw [spaced_cons]
      simpa using hrest before a after rfl

/-- Arguments behind a text that is too long already find no byte to be left. -/
theorem spacious_of_le {size : Nat} {pre : List UInt8} (h : size ≤ pre.length)
    (argv : List (List UInt8)) : Spacious size pre argv := by
  intro before arg after _
  rw [List.length_append]
  omega

theorem argvLoop_cons (pre tail arg : List UInt8) (argv : List (List UInt8)) :
    argvLoop (arg :: argv) pre.length (pre ++ tail) =
      if pre.length + arg.length + 1 ≥ (pre ++ tail).length then
        (addArg (pre ++ tail) pre.length arg
          (sizeSub (sizeSub (pre ++ tail).length pre.length) 2)).map fun buf =>
            (true, pre.length + sizeSub (sizeSub (pre ++ tail).length pre.length) 2 + 1, buf)
      else
        (addArg (pre ++ tail) pre.length arg arg.length).bind fun buf =>
          argvLoop argv (pre.length + arg.length + 1) buf := by
  rw [argvLoop]
  by_cases h : pre.length + arg.length + 1 ≥ (pre ++ tail).length
  · simp only [h, decide_true, if_true, Option.map_eq_bind]
    rfl
  · simp only [h, decide_false, if_false, Bool.false_eq_true]

/-- **The loop** behind the text `pre`: it is a failure if an argument comes when there is
one byte left, and else the buffer has what fits and a space. -/
theorem argvLoop_spec (argv : List (List UInt8)) (pre tail : List UInt8)
    (hroom : 0 < tail.length) (hlarge : 2 ≤ (pre ++ tail).length)
    (hsize : (pre ++ tail).length ≤ sizeMax) :
    (¬ Spacious (pre ++ tail).length pre argv → argvLoop argv pre.length (pre ++ tail) = none) ∧
    (Spacious (pre ++ tail).length pre argv → (pre ++ spaced argv).length < (pre ++ tail).length →
      ∃ tail', argvLoop argv pre.length (pre ++ tail) =
        some (false, (pre ++ spaced argv).length, pre ++ spaced argv ++ tail') ∧
        (pre ++ spaced argv ++ tail').length = (pre ++ tail).length) ∧
    (Spacious (pre ++ tail).length pre argv → (pre ++ tail).length ≤ (pre ++ spaced argv).length →
      ∃ tail', argvLoop argv pre.length (pre ++ tail) =
        some (true, (pre ++ tail).length - 1,
          (pre ++ spaced argv).take ((pre ++ tail).length - 2) ++ [32] ++ tail') ∧
        tail'.length = 1) := by
  induction argv generalizing pre tail with
  | nil =>
    refine ⟨fun h => absurd ?_ h, fun _ _ => ⟨tail, by simp [argvLoop, spaced]⟩, fun _ h => ?_⟩
    · intro before arg after heq
      simp at heq
    · have hnil : spaced [] = [] := rfl
      rw [hnil, List.append_nil, List.length_append] at h
      omega
  | cons arg argv ih =>
    have hlen : (pre ++ tail).length = pre.length + tail.length := List.length_append
    have hspaced : pre ++ spaced (arg :: argv) = pre ++ arg ++ [32] ++ spaced argv := by
      rw [spaced_cons]
      simp
    have hmany : (pre ++ arg ++ [32]).length = pre.length + arg.length + 1 := by
      simp [Nat.add_assoc]
    rw [argvLoop_cons, spacious_cons, hspaced]
    by_cases hone : tail.length = 1
    · rw [if_pos (by omega), addArg_overrun arg hone]
      refine ⟨fun _ => rfl, fun h => absurd ?_ h.1, fun h => absurd ?_ h.1⟩ <;> omega
    · by_cases htrunc : pre.length + arg.length + 1 ≥ (pre ++ tail).length
      · have hlen' : sizeSub (sizeSub (pre ++ tail).length pre.length) 2 = tail.length - 2 := by
          unfold sizeMax at hsize
          unfold sizeSub
          omega
        have hspacious := spacious_of_le (by omega : (pre ++ tail).length ≤
          (pre ++ arg ++ [32]).length) argv
        rw [if_pos htrunc, hlen', addArg_eq pre tail arg (by omega) (by omega)]
        refine ⟨fun h => absurd ⟨by omega, hspacious⟩ h, fun _ h => ?_, fun _ _ => ?_⟩
        · rw [List.length_append, hmany] at h
          omega
        · refine ⟨tail.drop (tail.length - 2 + 1), ?_, by rw [List.length_drop]; omega⟩
          have hsub : (pre ++ tail).length - 2 = pre.length + (tail.length - 2) := by omega
          have hlast : pre.length + (tail.length - 2) + 1 = (pre ++ tail).length - 1 := by omega
          have htake : (pre ++ arg ++ [32] ++ spaced argv).take (pre.length + (tail.length - 2)) =
              pre ++ arg.take (tail.length - 2) := by
            rw [List.append_assoc, List.append_assoc, List.take_length_add_append,
              List.take_append_of_le_length (by omega)]
          rw [Option.map_some, hlast, hsub, htake]
      · have htotal : (pre ++ arg ++ [32] ++ tail.drop (arg.length + 1)).length =
            (pre ++ tail).length := by
          rw [List.length_append, hmany, List.length_drop]
          omega
        have hih := ih (pre ++ arg ++ [32]) (tail.drop (arg.length + 1))
          (by rw [List.length_drop]; omega) (by rw [htotal]; exact hlarge)
          (by rw [htotal]; exact hsize)
        rw [hmany, htotal] at hih
        obtain ⟨hnone, hfits, hcut⟩ := hih
        rw [if_neg htrunc, addArg_eq pre tail arg le_rfl (by omega), List.take_length,
          Option.bind_some]
        exact ⟨fun h => hnone fun hs => h ⟨by omega, hs⟩, fun h => hfits h.2, fun h => hcut h.2⟩

theorem argvToString_overrun {argv : List (List UInt8)} (b : ArgvBuffer)
    (h : ¬ Spacious b.bytes.length [] argv) : argvToString argv b.bytes = none := by
  have hlarge := b.large
  obtain ⟨hspec, -⟩ := argvLoop_spec argv [] b.bytes (by omega) hlarge b.addressable
  have hnone : argvLoop argv 0 b.bytes = none := hspec h
  rw [argvToString, hnone, Option.bind_none]

/-- The last space becomes the terminator. -/
theorem argvToString_of_loop {argv : List (List UInt8)} {buf : List UInt8} {truncated : Bool}
    {t tail : List UInt8}
    (h : argvLoop argv 0 buf = some (truncated, t.length + 1, t ++ [32] ++ tail)) :
    argvToString argv buf = some (truncated, t ++ [0] ++ tail) := by
  have hput : putByte (t ++ [32] ++ tail) t.length 0 = some (t ++ [0] ++ tail) := by
    rw [putByte, if_pos (by simp), List.append_assoc, List.set_append_right _ _ le_rfl,
      Nat.sub_self, List.append_assoc]
    rfl
  rw [argvToString, h, Option.bind_some]
  dsimp only
  rw [if_pos (Nat.succ_pos _), Nat.add_sub_cancel, hput, Option.map_some]

/-- **What is rendered** when no argument comes with one byte left. -/
theorem rendered_of_spacious {argv : List (List UInt8)} (b : ArgvBuffer)
    (h : Spacious b.bytes.length [] argv) : Rendered argv b := by
  have hlarge := b.large
  obtain ⟨-, hfits, hcut⟩ := argvLoop_spec argv [] b.bytes (by omega) hlarge b.addressable
  simp only [List.nil_append, List.length_nil] at hfits hcut
  by_cases hnil : argv = []
  · subst hnil
    have hpos : 0 < b.bytes.length := by omega
    obtain ⟨x, xs, hx⟩ := List.exists_cons_of_ne_nil (List.ne_nil_of_length_pos hpos)
    refine ⟨false, b.bytes.set 0 0, ?_, List.length_set, ?_, by simp [joined]⟩
    · simp [argvToString, argvLoop, putByte, hpos]
    · rw [hx]
      exact ⟨xs, by simp [joined]⟩
  · have hspaced := spaced_eq hnil
    have hlen : (spaced argv).length = (joined argv).length + 1 := by
      rw [hspaced, List.length_append]
      rfl
    by_cases hlt : (spaced argv).length < b.bytes.length
    · obtain ⟨tail, hloop, htotal⟩ := hfits h hlt
      rw [hlen, hspaced] at hloop
      refine ⟨false, joined argv ++ [0] ++ tail, argvToString_of_loop hloop, ?_, ?_, ?_⟩
      · rw [← htotal, hspaced]
        simp
      · rw [List.take_of_length_le (by omega)]
        exact List.prefix_append _ _
      · simp
        omega
    · obtain ⟨tail, hloop, htail⟩ := hcut h (by omega)
      have htake : (spaced argv).take (b.bytes.length - 2) =
          (joined argv).take (b.bytes.length - 2) := by
        rw [hspaced, List.take_append_of_le_length (by omega)]
      have hidx : b.bytes.length - 1 =
          ((joined argv).take (b.bytes.length - 2)).length + 1 := by
        rw [List.length_take]
        omega
      rw [htake, hidx] at hloop
      refine ⟨true, _, argvToString_of_loop hloop, ?_, List.prefix_append _ _, ?_⟩
      · simp only [List.length_append, List.length_singleton, htail]
        omega
      · simp
        omega

/-- `argv_to_string` renders exactly the vectors whose arguments never come with one byte
left in the buffer. -/
theorem rendered_iff (argv : List (List UInt8)) (b : ArgvBuffer) :
    Rendered argv b ↔ Spacious b.bytes.length [] argv := by
  constructor
  · rintro ⟨truncated, out, hrun, -⟩
    by_contra h
    rw [argvToString_overrun b h] at hrun
    cases hrun
  · exact rendered_of_spacious b

/-! ## The vector -/

/-- The slots that a vector takes. -/
def vectorLength (flatpak : Bool) (serial : Option (List UInt8)) (adbCmd : List (List UInt8)) :
    Nat :=
  (if flatpak then 2 else 0) + 1 + (if serial.isSome then 2 else 0) + adbCmd.length + 1

theorem adbVector_overflow_iff (flatpak : Bool) (adbExe serial : Option (List UInt8))
    (adbCmd : List (List UInt8)) :
    adbVector flatpak adbExe serial adbCmd ≠ .overflow ↔
      adbExe = none ∨ 250 < adbCmd.length ∨ vectorLength flatpak serial adbCmd ≤ cmdSlots := by
  have hguard : cmdSize - 6 = 250 := rfl
  unfold adbVector
  rw [hguard]
  by_cases hmany : adbCmd.length > 250
  · rw [if_pos hmany]
    exact iff_of_true nofun (.inr (.inl hmany))
  · rw [if_neg hmany, or_iff_right hmany]
    cases adbExe with
    | none => exact iff_of_true nofun (.inl rfl)
    | some exe =>
      rw [or_iff_right nofun]
      cases flatpak <;> cases serial <;>
        simp only [vectorLength, List.length_append, List.length_map, List.length_cons,
          List.length_nil, if_true, Bool.false_eq_true, if_false, Option.isSome] <;>
        split <;> simp <;> omega

/-- **Command lines** are rendered in bounds exactly if no argument comes when there is
just one byte left behind the ones before it and their spaces, and the vector of
`adb_execute` stays in `cmd` exactly if it is not built or takes no more than 32 slots. -/
theorem command_line_iff (argv : List (List UInt8)) (b : ArgvBuffer) (flatpak : Bool)
    (adbExe serial : Option (List UInt8)) (adbCmd : List (List UInt8)) :
    (Rendered argv b ↔
      ∀ before arg after, argv = before ++ arg :: after → before ≠ [] →
        (joined before).length + 2 ≠ b.bytes.length) ∧
    (adbVector flatpak adbExe serial adbCmd ≠ .overflow ↔
      adbExe = none ∨ 250 < adbCmd.length ∨ vectorLength flatpak serial adbCmd ≤ cmdSlots) := by
  refine ⟨?_, adbVector_overflow_iff flatpak adbExe serial adbCmd⟩
  have hlen : ∀ before : List (List UInt8), before ≠ [] →
      ([] ++ spaced before).length + 1 = (joined before).length + 2 := fun before h => by
    rw [spaced_eq h]
    simp
  rw [rendered_iff]
  constructor
  · intro h before arg after heq hne
    rw [← hlen before hne]
    exact h before arg after heq
  · intro h before arg after heq
    by_cases hne : before = []
    · have hlarge := b.large
      rw [hne]
      simp [spaced]
      omega
    · rw [hlen before hne]
      exact h before arg after heq hne

/-- `ab c` in four bytes, and 31 arguments for `adb`. -/
theorem command_line_overrun :
    ¬ Rendered [ascii "ab", ascii "c"] ⟨[0, 0, 0, 0], by decide, by decide⟩ ∧
      adbVector false (some (ascii "adb")) none (List.replicate 31 []) = .overflow := by
  constructor
  · rintro ⟨truncated, out, hrun, -⟩
    have hnone : argvToString [ascii "ab", ascii "c"] [0, 0, 0, 0] = none := by decide +kernel
    rw [hnone] at hrun
    cases hrun
  · decide +kernel

end DroidcamWhip
