import DroidcamWhip.CommandLine

/-!
`get_os_name_version` on Linux: the two readers that share `/etc/os-release`, the name
that they leave in `os_name_version`, and the video request that it is part of.
-/

namespace DroidcamWhip

open CString

/-! ## The readers -/

def idKey : List UInt8 := ascii "ID="

def linuxName : List UInt8 := ascii "linux"

/-- How much `fgets` takes with room for `n` characters. -/
def lineLength : Nat → List UInt8 → Nat
  | 0, _ => 0
  | _, [] => 0
  | n + 1, b :: s => if b = newline then 1 else lineLength n s + 1

/-- `fgets` with a buffer of `size` bytes: the line and the rest of the stream. -/
def fgets (size : Nat) (s : List UInt8) : Option (List UInt8 × List UInt8) :=
  if s = [] then none
  else some (s.take (lineLength (size - 1) s), s.drop (lineLength (size - 1) s))

/-- The literal part of a format: whether all of it is there, and the rest of the stream. -/
def scanLiteral : List UInt8 → List UInt8 → Bool × List UInt8
  | [], s => (true, s)
  | _ :: _, [] => (false, [])
  | l :: lit, b :: s => if b = l then scanLiteral lit s else (false, b :: s)

/-- `fscanf(fp, "ID=%64s", distro)`: the word if there is one, and the rest of the stream. -/
def fscanfId (s : List UInt8) : Option (List UInt8) × List UInt8 :=
  match scanLiteral idKey s with
  | (false, rest) => (none, rest)
  | (true, rest) =>
      let rest := rest.dropWhile (IsSpace ·)
      let word := (rest.takeWhile (¬ IsSpace ·)).take 64
      if word = [] then (none, rest) else (some word, rest.drop word.length)

theorem lineLength_pos {n : Nat} {s : List UInt8} (hn : 0 < n) (hs : s ≠ []) :
    0 < lineLength n s := by
  match n, s with
  | n + 1, b :: s =>
    unfold lineLength
    split <;> omega

theorem fgets_lt {s line rest : List UInt8} (h : fgets 256 s = some (line, rest)) :
    rest.length < s.length := by
  unfold fgets at h
  split at h
  · cases h
  · rename_i hs
    have hpos : 0 < lineLength (256 - 1) s := lineLength_pos (by omega) hs
    have hlen := List.length_pos_iff.mpr hs
    simp only [Option.some.injEq, Prod.mk.injEq] at h
    rw [← h.2, List.length_drop]
    omega

theorem scanLiteral_length (lit s : List UInt8) : (scanLiteral lit s).2.length ≤ s.length := by
  induction lit generalizing s with
  | nil => exact Nat.le_refl _
  | cons l lit ih =>
    cases s with
    | nil => exact Nat.le_refl _
    | cons b s =>
      unfold scanLiteral
      split
      · exact (ih s).trans (Nat.le_succ _)
      · exact Nat.le_refl _

theorem fscanfId_length (s : List UInt8) : (fscanfId s).2.length ≤ s.length := by
  have hlit := scanLiteral_length idKey s
  have hdrop (t : List UInt8) : (t.dropWhile (IsSpace ·)).length ≤ t.length :=
    (List.dropWhile_suffix _).length_le
  unfold fscanfId
  split
  · rename_i rest heq
    rw [heq] at hlit
    exact hlit
  · rename_i rest heq
    rw [heq] at hlit
    dsimp only
    split
    · exact (hdrop rest).trans hlit
    · rw [List.length_drop]
      exact (Nat.sub_le ..).trans ((hdrop rest).trans hlit)

/-- The loop: the words that `fscanf` stores in `distro`, and the one that is kept. -/
def nameLoop (s : List UInt8) : List (List UInt8) × Option (List UInt8) :=
  match _hline : fgets 256 s with
  | none => ([], none)
  | some (_, rest) =>
      let next := fscanfId rest
      match next.1 with
      | none => nameLoop next.2
      | some distro =>
          if distro.headD 0 ≠ 0 then ([distro], some distro)
          else
            let found := nameLoop next.2
            (distro :: found.1, found.2)
termination_by s.length
decreasing_by
  all_goals exact Nat.lt_of_le_of_lt (fscanfId_length rest) (fgets_lt _hline)

/-- `get_os_name_version`: how many bytes each `fscanf` stores in `distro`, and the name;
`file` is the content of `/etc/os-release`, if it can be opened. -/
def getOsNameVersion (out : Chars 64) (file : Option (List UInt8)) : List Nat × Chars 64 :=
  let out := out.strncpy linuxName
  match file with
  | none => ([], out)
  | some content =>
      let found := nameLoop content
      (found.1.map (·.length + 1), found.2.elim out out.strncpy)

/-! ## The name that the file gives -/

/-- The value of a line behind `ID=`, up to white space. -/
def lineValue (line : List UInt8) : List UInt8 :=
  (line.drop idKey.length).takeWhile (¬ IsSpace ·)

/-- The value of the first line that begins with `ID=`, cut to what has a place beside the
terminator. -/
def osName (content : List UInt8) : List UInt8 :=
  match (content.splitOn newline).find? (idKey <+: ·) with
  | none => linuxName
  | some line =>
      let value := (text (lineValue line)).take 63
      if value = [] then linuxName else value

/-- The rest of a file from its first line that begins with `ID=`. -/
def idLine (content : List UInt8) : Option (List UInt8) :=
  match (content.splitOn newline).dropWhile (¬ idKey <+: ·) with
  | [] => none
  | lines => some ([newline].intercalate lines)

/-! ## Where the loop looks

A place in a file is the rest of the file there. -/

/-- A line with its line break, or 255 bytes of a longer one. -/
def pieceLength (s : List UInt8) : Nat := min 255 ((s.takeWhile (· ≠ newline)).length + 1)

/-- How many bytes of a literal a text begins with. -/
def begun : List UInt8 → List UInt8 → Nat
  | l :: lit, b :: s => if b = l then begun lit s + 1 else 0
  | _, _ => 0

/-- How much of a text is gone behind a look: the part of `ID=` that it begins with, and
where all of `ID=` is there, the white space behind it and up to 64 bytes of a word. -/
def usedUp (s : List UInt8) : Nat :=
  if idKey <+: s then
    let value := s.drop idKey.length
    idKey.length + (value.takeWhile (IsSpace ·)).length +
      min 64 ((value.dropWhile (IsSpace ·)).takeWhile (¬ IsSpace ·)).length
  else begun idKey s

/-- The places behind each piece, if no word is ever kept. -/
def looks (s : List UInt8) : List (List UInt8) :=
  if _hs : s = [] then []
  else
    let place := s.drop (pieceLength s)
    place :: looks (place.drop (usedUp place))
termination_by s.length
decreasing_by
  have hlen := List.length_pos_iff.mpr _hs
  have hpiece : 0 < pieceLength s := by
    unfold pieceLength
    omega
  rw [List.length_drop, List.length_drop]
  omega

/-- The word behind `ID=` at the start of a text, whatever its length. -/
def idWord (s : List UInt8) : Option (List UInt8) :=
  if idKey <+: s then
    let word := ((s.drop idKey.length).dropWhile (IsSpace ·)).takeWhile (¬ IsSpace ·)
    if word = [] then none else some word
  else none

/-- A word that does not begin with a terminator. -/
def Named (word : List UInt8) : Prop := word.headD 0 ≠ 0

instance (word : List UInt8) : Decidable (Named word) := inferInstanceAs (Decidable (_ ≠ _))

/-- A list up to the first element that is as asked for, and with it. -/
def upTo {α : Type} (p : α → Bool) : List α → List α
  | [] => []
  | a :: as => if p a then [a] else a :: upTo p as

/-- The words in the places where the loop looks. -/
def seen (content : List UInt8) : List (List UInt8) := (looks content).filterMap idWord

/-- The first of these places that has a name. -/
def namePlace (content : List UInt8) : Option (List UInt8) :=
  (looks content).find? fun place => (idWord place).any (Named ·)

/-- How a place with a name and the first line that begins with `ID=` go together. -/
inductive Agrees (content place : List UInt8) : Prop
  /-- The place is the start of that line, and no white space follows `ID=`. -/
  | own (line : idLine content = some place) (value : lineValue place ≠ [])
  /-- That line is elsewhere in the file, with the same name. -/
  | twice (line : List UInt8) (found : idLine content = some line) (elsewhere : line ≠ place)
      (value : text (lineValue line) ≠ [])
      (same : ∃ word ∈ idWord place, text word = (text (lineValue line)).take 63)
  /-- There is no such line or no value on it, and the place has `linux`. -/
  | unnamed (none : ∀ line ∈ idLine content, text (lineValue line) = [])
      (same : ∃ word ∈ idWord place, text word = linuxName)

/-- A file whose name the loop can read: no word up to the one that it keeps is too long,
and the first place with a name is that of the line that gives the name. -/
structure Recognised (content : List UInt8) : Prop where
  short : ∀ word ∈ upTo (Named ·) (seen content), word.length ≤ 63
  named : ∀ place ∈ namePlace content, Agrees content place
  unnamed : namePlace content = none → ∀ line ∈ idLine content,
    text (lineValue line) = [] ∨ text (lineValue line) = linuxName

/-! ## The loop, look by look -/

theorem scanLiteral_matched {lit s : List UInt8} (h : lit <+: s) :
    scanLiteral lit s = (true, s.drop lit.length) := by
  induction lit generalizing s with
  | nil => rfl
  | cons l lit ih =>
    cases s with
    | nil => exact absurd h (by simp)
    | cons b s =>
      obtain ⟨rfl, h'⟩ := List.cons_prefix_cons.mp h
      rw [scanLiteral, if_pos rfl, ih h']
      rfl

theorem scanLiteral_mismatched {lit s : List UInt8} (h : ¬ lit <+: s) :
    (scanLiteral lit s).1 = false := by
  induction lit generalizing s with
  | nil => exact absurd (List.nil_prefix) h
  | cons l lit ih =>
    cases s with
    | nil => rfl
    | cons b s =>
      unfold scanLiteral
      split
      · rename_i hb
        apply ih
        intro h'
        exact h (List.cons_prefix_cons.mpr ⟨hb.symm, h'⟩)
      · rfl

/-- The word of `fscanf` is the word of the text, cut to the width of the conversion. -/
theorem fscanfId_fst (s : List UInt8) : (fscanfId s).1 = (idWord s).map (·.take 64) := by
  by_cases h : idKey <+: s
  · have hnil (word : List UInt8) : word.take 64 = [] ↔ word = [] := by
      rw [List.take_eq_nil_iff]
      simp
    unfold fscanfId idWord
    rw [scanLiteral_matched h, if_pos h]
    dsimp only
    by_cases hword :
        ((s.drop idKey.length).dropWhile (IsSpace ·)).takeWhile (¬ IsSpace ·) = []
    · rw [if_pos ((hnil _).mpr hword), if_pos hword]
      rfl
    · rw [if_neg (mt (hnil _).mp hword), if_neg hword]
      rfl
  · have hfalse := scanLiteral_mismatched h
    unfold fscanfId idWord
    rw [if_neg h]
    split
    · rfl
    · rename_i heq
      rw [heq] at hfalse
      cases hfalse

theorem Named.take {word : List UInt8} : Named (word.take 64) ↔ Named word := by
  unfold Named
  cases word <;> rfl

/-- What `fgets` leaves is what is behind a piece. -/
theorem drop_lineLength (n : Nat) (s : List UInt8) :
    s.drop (lineLength n s) = s.drop (min n ((s.takeWhile (· ≠ newline)).length + 1)) := by
  induction s generalizing n with
  | nil => simp
  | cons b s ih =>
    cases n with
    | zero => simp [lineLength]
    | succ n =>
      unfold lineLength
      by_cases hb : b = newline
      · simp [hb]
      · rw [if_neg hb, List.takeWhile_cons_of_pos (by simpa using hb), List.length_cons,
          Nat.succ_min_succ, List.drop_succ_cons, List.drop_succ_cons, ih]

theorem fgets_piece {s : List UInt8} (hs : s ≠ []) :
    ∃ line, fgets 256 s = some (line, s.drop (pieceLength s)) := by
  have hrest : s.drop (lineLength (256 - 1) s) = s.drop (pieceLength s) := drop_lineLength 255 s
  unfold fgets
  rw [if_neg hs, hrest]
  exact ⟨_, rfl⟩

theorem scanLiteral_snd {lit s : List UInt8} (h : ¬ lit <+: s) :
    (scanLiteral lit s).2 = s.drop (begun lit s) := by
  induction lit generalizing s with
  | nil => exact absurd List.nil_prefix h
  | cons l lit ih =>
    cases s with
    | nil => rfl
    | cons b s =>
      unfold scanLiteral begun
      by_cases hb : b = l
      · have h' : ¬ lit <+: s := fun h' => h (List.cons_prefix_cons.mpr ⟨hb.symm, h'⟩)
        rw [if_pos hb, if_pos hb, List.drop_succ_cons, ih h']
      · rw [if_neg hb, if_neg hb, List.drop_zero]

theorem dropWhile_eq_drop (p : UInt8 → Bool) (s : List UInt8) :
    s.dropWhile p = s.drop (s.takeWhile p).length := by
  conv_rhs => rw [← List.takeWhile_append_dropWhile (p := p) (l := s)]
  rw [List.drop_left' (by simp)]

/-- What `fscanf` leaves is what is not used up. -/
theorem fscanfId_snd (s : List UInt8) : (fscanfId s).2 = s.drop (usedUp s) := by
  unfold fscanfId usedUp
  by_cases h : idKey <+: s
  · have hrest (word rest : List UInt8) :
        (if word = [] then ((none : Option (List UInt8)), rest)
          else (some word, rest.drop word.length)).2 = rest.drop word.length := by
      split
      · rename_i hnil
        rw [hnil]
        rfl
      · rfl
    rw [scanLiteral_matched h, if_pos h]
    dsimp only
    rw [hrest, List.length_take, dropWhile_eq_drop (IsSpace ·), List.drop_drop, List.drop_drop,
      Nat.add_assoc]
  · have hscan := scanLiteral_snd h
    have hfalse := scanLiteral_mismatched h
    rw [if_neg h]
    split
    · rename_i heq
      rw [heq] at hscan
      exact hscan
    · rename_i heq
      rw [heq] at hfalse
      cases hfalse

section Turns

variable {s : List UInt8}

theorem nameLoop_end : nameLoop [] = ([], none) := by
  rw [nameLoop]
  rfl

theorem looks_end : looks [] = [] := by
  rw [looks]
  rfl

variable {line rest : List UInt8}

theorem looks_next (h : fgets 256 s = some (line, rest)) :
    looks s = rest :: looks (fscanfId rest).2 := by
  have hs : s ≠ [] := by
    rintro rfl
    cases h
  obtain ⟨line', h'⟩ := fgets_piece hs
  rw [h] at h'
  cases h'
  rw [looks, dif_neg hs, fscanfId_snd]

theorem nameLoop_next (h : fgets 256 s = some (line, rest)) :
    nameLoop s =
      match (fscanfId rest).1 with
      | none => nameLoop (fscanfId rest).2
      | some distro =>
          if distro.headD 0 ≠ 0 then ([distro], some distro)
          else (distro :: (nameLoop (fscanfId rest).2).1, (nameLoop (fscanfId rest).2).2) := by
  rw [nameLoop]
  split
  · rename_i heq
    rw [h] at heq
    cases heq
  · rename_i heq
    rw [h] at heq
    cases heq
    rfl

end Turns

/-- **The loop.** It stops at the first word that it sees and that has a name in it. -/
theorem nameLoop_eq (s : List UInt8) :
    nameLoop s = ((upTo (Named ·) (seen s)).map (·.take 64),
      ((seen s).find? (Named ·)).map (·.take 64)) := by
  induction s using looks.induct with
  | case1 =>
    rw [nameLoop_end, seen, looks_end]
    rfl
  | case2 s hs place ih =>
    obtain ⟨line, hline⟩ := fgets_piece hs
    have hseen : seen s = (idWord place).toList ++ seen (fscanfId place).2 := by
      unfold seen
      rw [looks_next hline, List.filterMap_cons]
      cases idWord place <;> rfl
    rw [← fscanfId_snd] at ih
    rw [nameLoop_next hline, hseen, fscanfId_fst]
    cases idWord place with
    | none => exact ih
    | some word =>
      show (if Named (word.take 64) then _ else _) = _
      by_cases hword : Named word
      · rw [if_pos (Named.take.mpr hword)]
        simp [upTo, hword]
      · rw [if_neg (mt Named.take.mp hword), ih]
        simp [upTo, hword]

/-! ## The line that gives the name -/

/-- What follows a line: nothing at the end of the file. -/
def behindLine (lines : List (List UInt8)) : List UInt8 := lines.flatMap (newline :: ·)

theorem intercalate_lines (first : List UInt8) (lines : List (List UInt8)) :
    [newline].intercalate (first :: lines) = first ++ behindLine lines := by
  induction lines generalizing first with
  | nil => simp [behindLine]
  | cons l lines ih =>
    rw [List.intercalate_cons_cons, ih]
    simp [behindLine]

theorem takeWhile_line (v : List UInt8) (lines : List (List UInt8)) :
    (v ++ behindLine lines).takeWhile (¬ IsSpace ·) = v.takeWhile (¬ IsSpace ·) := by
  have hstop : (behindLine lines).takeWhile (¬ IsSpace ·) = [] := by
    cases lines <;> rfl
  induction v with
  | nil => exact hstop
  | cons b v ih =>
    rw [List.cons_append, List.takeWhile_cons, List.takeWhile_cons, ih]

/-- What is on the lines behind a line makes no difference to its value. -/
theorem lineValue_append {line : List UInt8} (lines : List (List UInt8)) (h : idKey <+: line) :
    lineValue (line ++ behindLine lines) = lineValue line := by
  unfold lineValue
  rw [List.drop_append_of_le_length h.length_le, takeWhile_line]

theorem find?_eq_head? (lines : List (List UInt8)) :
    lines.find? (idKey <+: ·) = (lines.dropWhile (¬ idKey <+: ·)).head? := by
  induction lines with
  | nil => rfl
  | cons line lines ih =>
    by_cases h : idKey <+: line
    · simp [h]
    · rw [List.find?_cons_of_neg (by simpa using h), ih]
      simp [h]

/-- The line at `idLine` is the one that `osName` looks for. -/
theorem idLine_cases (content : List UInt8) :
    ((content.splitOn newline).find? (idKey <+: ·) = none ∧ idLine content = none) ∨
    ∃ line lines, (content.splitOn newline).find? (idKey <+: ·) = some line ∧
      idKey <+: line ∧ idLine content = some (line ++ behindLine lines) := by
  have hfind := find?_eq_head? (content.splitOn newline)
  unfold idLine
  cases hlines : (content.splitOn newline).dropWhile (¬ idKey <+: ·) with
  | nil =>
    rw [hlines] at hfind
    exact .inl ⟨hfind, rfl⟩
  | cons line lines =>
    rw [hlines] at hfind
    refine .inr ⟨line, lines, hfind, by simpa using List.find?_some hfind, ?_⟩
    dsimp only
    rw [intercalate_lines]

theorem idLine_key {content line : List UInt8} (h : idLine content = some line) :
    idKey <+: line := by
  obtain ⟨-, hnone⟩ | ⟨l, lines, -, hkey, hsome⟩ := idLine_cases content
  · rw [hnone] at h
    cases h
  · rw [hsome] at h
    cases h
    exact hkey.trans (List.prefix_append l _)

theorem osName_unnamed {content : List UInt8}
    (h : ∀ line ∈ idLine content, text (lineValue line) = []) : osName content = linuxName := by
  unfold osName
  obtain ⟨hfind, -⟩ | ⟨l, lines, hfind, hkey, hsome⟩ := idLine_cases content
  · rw [hfind]
  · have hvalue := h _ hsome
    rw [lineValue_append lines hkey] at hvalue
    rw [hfind]
    simp [hvalue]

theorem osName_named {content line : List UInt8} (h : idLine content = some line)
    (hvalue : text (lineValue line) ≠ []) :
    osName content = (text (lineValue line)).take 63 := by
  unfold osName
  obtain ⟨-, hnone⟩ | ⟨l, lines, hfind, hkey, hsome⟩ := idLine_cases content
  · rw [hnone] at h
    cases h
  · rw [hsome] at h
    cases h
    rw [lineValue_append lines hkey] at hvalue ⊢
    rw [hfind]
    simp [hvalue]

/-- The word at a line with a value. -/
theorem idWord_value {place : List UInt8} (h : idKey <+: place) (hv : lineValue place ≠ []) :
    idWord place = some (lineValue place) := by
  unfold lineValue at hv ⊢
  unfold idWord
  rw [if_pos h]
  have hskip : (place.drop idKey.length).dropWhile (IsSpace ·) = place.drop idKey.length := by
    match hl : place.drop idKey.length with
    | [] => rfl
    | b :: v =>
      have hb : ¬ IsSpace b := by
        intro hb
        rw [hl] at hv
        simp [hb] at hv
      simp [hb]
  dsimp only
  rw [hskip, if_neg hv]

theorem Named.text_ne {word : List UInt8} (h : Named word) : text word ≠ [] := by
  cases word with
  | nil => exact absurd rfl h
  | cons b word =>
    have hb : b ≠ 0 := h
    simp [text, hb]

theorem seen_find (content : List UInt8) :
    (seen content).find? (Named ·) = (namePlace content).bind idWord :=
  List.find?_filterMap

theorem namePlace_word {content place : List UInt8} (h : namePlace content = some place) :
    ∃ word, idWord place = some word ∧ Named word := by
  have hany := List.find?_some h
  rw [Option.any_eq_true] at hany
  simpa using hany

theorem mem_upTo {α : Type} {p : α → Bool} {as : List α} {a : α} (h : as.find? p = some a) :
    a ∈ upTo p as := by
  induction as with
  | nil => cases h
  | cons b as ih =>
    unfold upTo
    rw [List.find?_cons] at h
    cases hb : p b with
    | true =>
      rw [hb] at h
      simpa using h.symm
    | false =>
      rw [hb] at h
      simpa using .inr (ih h)

/-- Where the first place with a name agrees with the line that gives it, the name that is
read there is the name that is asked for, and nowhere else. -/
theorem Agrees.iff {content place word : List UInt8} (hword : idWord place = some word)
    (hnamed : Named word) (hshort : word.length ≤ 63) :
    Agrees content place ↔ text word = osName content := by
  constructor
  · rintro (⟨hline, hvalue⟩ | ⟨line, hline, -, hvalue, ⟨word', hword', hsame⟩⟩ |
      ⟨hnone, ⟨word', hword', hsame⟩⟩)
    · rw [idWord_value (idLine_key hline) hvalue] at hword
      cases hword
      have hcut : (text (lineValue place)).length ≤ 63 := (text_length_le _).trans hshort
      rw [osName_named hline hnamed.text_ne, List.take_of_length_le hcut]
    · rw [hword] at hword'
      cases hword'
      rw [osName_named hline hvalue, hsame]
    · rw [hword] at hword'
      cases hword'
      rw [osName_unnamed hnone, hsame]
  · intro hsame
    by_cases hvalue : ∃ line ∈ idLine content, text (lineValue line) ≠ []
    · obtain ⟨line, hline, hvalue⟩ := hvalue
      by_cases hplace : line = place
      · subst hplace
        refine .own hline fun hnil => hvalue ?_
        rw [hnil]
        rfl
      · rw [osName_named hline hvalue] at hsame
        exact .twice line hline hplace hvalue ⟨word, hword, hsame⟩
    · push Not at hvalue
      rw [osName_unnamed hvalue] at hsame
      exact .unnamed hvalue ⟨word, hword, hsame⟩

theorem osName_eq_linux {content : List UInt8} :
    osName content = linuxName ↔ ∀ line ∈ idLine content,
      text (lineValue line) = [] ∨ text (lineValue line) = linuxName := by
  constructor
  · intro h line hline
    by_cases hvalue : text (lineValue line) = []
    · exact .inl hvalue
    · rw [osName_named hline hvalue] at h
      have hlen : (text (lineValue line)).length ≤ 63 := by
        have hcut := congrArg List.length h
        rw [List.length_take] at hcut
        have hlinux : linuxName.length = 5 := rfl
        omega
      rw [List.take_of_length_le hlen] at h
      exact .inr h
  · intro h
    by_cases hvalue : ∃ line ∈ idLine content, text (lineValue line) ≠ []
    · obtain ⟨line, hline, hvalue⟩ := hvalue
      rw [osName_named hline hvalue, (h line hline).resolve_left hvalue]
      rfl
    · push Not at hvalue
      exact osName_unnamed hvalue

/-- **The name.** What the loop leaves is the name that is asked for exactly for the files
that it recognises. -/
theorem Recognised.iff {content : List UInt8}
    (hshort : ∀ word ∈ upTo (Named ·) (seen content), word.length ≤ 63) :
    Recognised content ↔
      ((seen content).find? (Named ·)).elim linuxName text = osName content := by
  have hfind := seen_find content
  cases hplace : namePlace content with
  | none =>
    rw [hplace, Option.bind_none] at hfind
    rw [hfind, Option.elim_none, eq_comm, osName_eq_linux]
    constructor
    · intro h
      exact h.unnamed hplace
    · intro h
      exact ⟨hshort, by simp [hplace], fun _ => h⟩
  | some place =>
    obtain ⟨word, hword, hnamed⟩ := namePlace_word hplace
    rw [hplace, Option.bind_some, hword] at hfind
    have hlen := hshort word (mem_upTo hfind)
    rw [hfind, Option.elim_some, ← Agrees.iff hword hnamed hlen]
    constructor
    · intro h
      exact h.named place hplace
    · intro h
      exact ⟨hshort, by simpa [hplace] using h, by simp [hplace]⟩

/-! ## Ordinary files -/

/-- Lines that fit the buffer of `fgets`, where `ID=` is not on the first one and never
without a value that has a place in `distro`. -/
structure Ordinary (first : List UInt8) (lines : List (List UInt8)) : Prop where
  clean : ∀ l ∈ first :: lines, newline ∉ l ∧ 0 ∉ l ∧ l.length ≤ 254
  first : ¬ idKey <+: first
  value : ∀ l ∈ lines, idKey <+: l → lineValue l ≠ [] ∧ (lineValue l).length ≤ 63

theorem lineLength_line {l : List UInt8} (s : List UInt8) {n : Nat} (hl : newline ∉ l)
    (hn : l.length < n) : lineLength n (l ++ newline :: s) = l.length + 1 := by
  induction l generalizing n with
  | nil =>
    match n with
    | n + 1 => simp [lineLength]
  | cons b l ih =>
    rw [List.mem_cons, not_or] at hl
    match n with
    | n + 1 =>
      have hlen : l.length < n := Nat.lt_of_succ_lt_succ hn
      simp [lineLength, Ne.symm hl.1, ih hl.2 hlen]

theorem fgets_line {l : List UInt8} (s : List UInt8) (hl : newline ∉ l) (hlen : l.length ≤ 254) :
    fgets 256 (l ++ newline :: s) = some (l ++ [newline], s) := by
  have hcut : l ++ newline :: s = (l ++ [newline]) ++ s := by simp
  have htake : (l ++ newline :: s).take (l.length + 1) = l ++ [newline] := by
    rw [hcut, List.take_left' (by simp)]
  have hdrop : (l ++ newline :: s).drop (l.length + 1) = s := by
    rw [hcut, List.drop_left' (by simp)]
  unfold fgets
  rw [if_neg (by simp), lineLength_line s hl (by omega), htake, hdrop]

/-- The last line of a file. -/
theorem lineLength_last {l : List UInt8} {n : Nat} (hl : newline ∉ l) (hn : l.length ≤ n) :
    lineLength n l = l.length := by
  induction l generalizing n with
  | nil => cases n <;> rfl
  | cons b l ih =>
    rw [List.mem_cons, not_or] at hl
    match n with
    | n + 1 => simp [lineLength, Ne.symm hl.1, ih hl.2 (Nat.le_of_succ_le_succ hn)]

theorem seen_last {l : List UInt8} (hl : newline ∉ l) (hlen : l.length ≤ 254) : seen l = [] := by
  unfold seen
  by_cases hnil : l = []
  · subst hnil
    rw [looks_end]
    rfl
  · have hline : fgets 256 l = some (l, []) := by
      unfold fgets
      rw [if_neg hnil, lineLength_last hl (by omega), List.take_length, List.drop_length]
    rw [looks_next hline, fscanfId_snd, List.drop_nil, looks_end]
    rfl

/-- A literal that a line does not begin with uses up a part of that line at most. -/
theorem scanLiteral_line {lit l : List UInt8} (lines : List (List UInt8)) (h : ¬ lit <+: l)
    (hlit : newline ∉ lit) :
    ∃ l', l' <:+ l ∧ scanLiteral lit (l ++ behindLine lines) = (false, l' ++ behindLine lines) := by
  induction lit generalizing l with
  | nil => exact absurd List.nil_prefix h
  | cons c lit ih =>
    rw [List.mem_cons, not_or] at hlit
    cases l with
    | nil =>
      refine ⟨[], List.nil_suffix, ?_⟩
      cases lines with
      | nil => rfl
      | cons k lines => exact if_neg hlit.1
    | cons b l =>
      by_cases hb : b = c
      · have h' : ¬ lit <+: l := fun h' => h (List.cons_prefix_cons.mpr ⟨hb.symm, h'⟩)
        obtain ⟨l', hl', hscan⟩ := ih h' hlit.2
        refine ⟨l', hl'.trans (List.suffix_cons b l), ?_⟩
        rw [List.cons_append, scanLiteral, if_pos hb, hscan]
      · exact ⟨b :: l, List.suffix_rfl, if_neg hb⟩

theorem fscanfId_line {l : List UInt8} (lines : List (List UInt8)) (h : ¬ idKey <+: l) :
    ∃ l', l' <:+ l ∧ fscanfId (l ++ behindLine lines) = (none, l' ++ behindLine lines) := by
  obtain ⟨l', hl', hscan⟩ := scanLiteral_line lines h (by decide)
  refine ⟨l', hl', ?_⟩
  unfold fscanfId
  rw [hscan]

/-- The word at a line with a value. -/
theorem idWord_line {l : List UInt8} (lines : List (List UInt8)) (h : idKey <+: l)
    (hv : lineValue l ≠ []) : idWord (l ++ behindLine lines) = some (lineValue l) := by
  have hvalue := lineValue_append lines h
  rw [idWord_value (h.trans (List.prefix_append l _)) (by rwa [hvalue]), hvalue]

/-- The first word that the loop sees in an ordinary file is that of its first line with a
name. -/
theorem seen_lines {l : List UInt8} {lines : List (List UInt8)}
    (hclean : ∀ k ∈ l :: lines, newline ∉ k ∧ k.length ≤ 254)
    (hvalue : ∀ k ∈ lines, idKey <+: k → lineValue k ≠ []) :
    (seen (l ++ behindLine lines)).head? = (lines.find? (idKey <+: ·)).map lineValue := by
  induction lines generalizing l with
  | nil =>
    have hl := hclean l List.mem_cons_self
    have hseen : seen (l ++ behindLine []) = [] := by
      rw [behindLine, List.flatMap_nil, List.append_nil]
      exact seen_last hl.1 hl.2
    rw [hseen]
    rfl
  | cons k lines ih =>
    obtain ⟨hl, hlen⟩ := hclean l List.mem_cons_self
    have hline : fgets 256 (l ++ behindLine (k :: lines)) =
        some (l ++ [newline], k ++ behindLine lines) := fgets_line _ hl hlen
    unfold seen
    rw [looks_next hline, List.filterMap_cons, List.find?_cons]
    by_cases hk : idKey <+: k
    · rw [idWord_line lines hk (hvalue k List.mem_cons_self hk)]
      simp [hk]
    · obtain ⟨k', hk', hscan⟩ := fscanfId_line lines hk
      have hnone : idWord (k ++ behindLine lines) = none := by
        have hfst := fscanfId_fst (k ++ behindLine lines)
        rw [hscan] at hfst
        exact Option.map_eq_none_iff.mp hfst.symm
      have hrest : ∀ m ∈ k' :: lines, newline ∉ m ∧ m.length ≤ 254 := by
        intro m hm
        rcases List.mem_cons.mp hm with rfl | hm
        · have hkc := hclean k (by simp)
          exact ⟨fun h => hkc.1 (hk'.subset h), hk'.length_le.trans hkc.2⟩
        · exact hclean m (by simp [hm])
      have hih := ih hrest fun m hm => hvalue m (List.mem_cons_of_mem k hm)
      rw [hnone, hscan]
      simpa [hk, seen] using hih

/-- The value of the line that names the system. -/
theorem Ordinary.value_of_find {first : List UInt8} {lines : List (List UInt8)}
    (h : Ordinary first lines) {line : List UInt8}
    (hfind : lines.find? (idKey <+: ·) = some line) :
    lineValue line ≠ [] ∧ (lineValue line).length ≤ 63 ∧ 0 ∉ lineValue line := by
  have hmem := List.mem_of_find?_eq_some hfind
  obtain ⟨hne, hlen⟩ := h.value line hmem (by simpa using List.find?_some hfind)
  refine ⟨hne, hlen, fun h0 => ?_⟩
  have hline : 0 ∈ line := List.mem_of_mem_drop (List.takeWhile_subset _ h0)
  exact (h.clean line (List.mem_cons_of_mem first hmem)).2.1 hline

theorem Ordinary.osName_eq {first : List UInt8} {lines : List (List UInt8)}
    (h : Ordinary first lines) : osName ([newline].intercalate (first :: lines)) =
      (lines.find? (idKey <+: ·)).elim linuxName lineValue := by
  have hsplit : ([newline].intercalate (first :: lines)).splitOn newline = first :: lines :=
    List.splitOn_intercalate newline (fun l hl => (h.clean l hl).1) (List.cons_ne_nil _ _)
  unfold osName
  rw [hsplit, List.find?_cons_of_neg (by simpa using h.first)]
  cases hfind : lines.find? (idKey <+: ·) with
  | none => rfl
  | some line =>
    obtain ⟨hne, hlen, hzero⟩ := h.value_of_find hfind
    dsimp only
    rw [text_of_notMem hzero, List.take_of_length_le hlen, if_neg hne]
    rfl

/-- **Ordinary files.** The loop recognises them. -/
theorem Ordinary.recognised {first : List UInt8} {lines : List (List UInt8)}
    (h : Ordinary first lines) : Recognised ([newline].intercalate (first :: lines)) := by
  have hseen := seen_lines (fun k hk => ⟨(h.clean k hk).1, (h.clean k hk).2.2⟩)
    fun k hk hid => (h.value k hk hid).1
  rw [← intercalate_lines] at hseen
  cases hfind : lines.find? (idKey <+: ·) with
  | none =>
    rw [hfind, Option.map_none, List.head?_eq_none_iff] at hseen
    have hshort : ∀ word ∈ upTo (Named ·) (seen ([newline].intercalate (first :: lines))),
        word.length ≤ 63 := by
      simp [hseen, upTo]
    rw [Recognised.iff hshort, hseen, h.osName_eq, hfind]
    rfl
  | some line =>
    obtain ⟨hne, hlen, hzero⟩ := h.value_of_find hfind
    have hnamed : Named (lineValue line) := by
      unfold Named
      cases hv : lineValue line with
      | nil => exact absurd hv hne
      | cons b v =>
        rintro rfl
        simp [hv] at hzero
    rw [hfind, Option.map_some, List.head?_eq_some_iff] at hseen
    obtain ⟨more, hseen⟩ := hseen
    have hshort : ∀ word ∈ upTo (Named ·) (seen ([newline].intercalate (first :: lines))),
        word.length ≤ 63 := by
      rw [hseen, upTo, if_pos (by simpa using hnamed)]
      simpa using hlen
    rw [Recognised.iff hshort, hseen, List.find?_cons_of_pos (by simpa using hnamed),
      h.osName_eq, hfind]
    exact text_of_notMem hzero

/-! ## The request -/

/-- What `VIDEO_REQ` is filled with: the size of the configuration, until `push_video_frame`
has `stored` that of a frame; `os` is the string in `os_name_version`, which has a terminator
in it. -/
def videoRequest (s : ParseState) (stored : Option (Int32 × Int32)) (usbPort : Int32)
    (os : Chars 64) : VideoReq where
  width := stored.elim s.config.width Prod.fst
  height := stored.elim s.config.height Prod.snd
  usbPort := usbPort
  os := os.str.map fun b => Char.ofNat b.toNat
  useHdr := s.config.useHdr
  os_fits := by
    rw [List.length_map]
    exact (text_length_le os.bytes).trans os.size.le

/-- `char video_req[256]` after `snprintf`; `junk` is what it held before. -/
def VideoReq.array (format : VideoFormat) (r : VideoReq) (junk : List Char) : List Char :=
  r.buffer format ++ Char.ofNat 0 :: junk.drop ((r.buffer format).length + 1)

/-- The request is in its array as it was formatted, and `net_send_all` with the length that
`snprintf` returns sends nothing else. -/
structure RequestSent (format : VideoFormat) (r : VideoReq) : Prop where
  fits : (r.text format).length < 256
  inside : ∀ junk, junk.length = 256 → (r.array format junk).length = 256
  sent : ∀ junk ws, junk.length = 256 →
    let sent := netSendAll ((r.array format junk).take (r.text format).length) ws
    sent.2 <+: r.text format ∧ (sent.1 = true → sent.2 = r.text format)

theorem requestSent (format : VideoFormat) (r : VideoReq) : RequestSent format r where
  fits := Nat.lt_succ_of_le (r.text_length format)
  inside junk hjunk := by
    have hlen := r.text_length format
    unfold VideoReq.array
    rw [r.buffer_eq, List.length_append, List.length_cons, List.length_drop, hjunk]
    omega
  sent junk ws hjunk := by
    have htake : (r.array format junk).take (r.text format).length = r.text format := by
      unfold VideoReq.array
      rw [r.buffer_eq, List.take_left]
    rw [htake]
    exact ⟨netSendAll_start _ ws, netSendAll_sent⟩

/-- `os_name_version` is zeroed by `main` before the call. -/
def readOsRelease (content : List UInt8) : List Nat × Chars 64 :=
  getOsNameVersion (.zero 64) (some content)

/-- The name is read as asked for, and no store leaves `distro`. -/
structure NameRead (content : List UInt8) : Prop where
  stored : ∀ n ∈ (readOsRelease content).1, n ≤ 64
  terminated : 0 ∈ (readOsRelease content).2.bytes
  name : (readOsRelease content).2.str = osName content

theorem stored_iff (content : List UInt8) :
    (∀ n ∈ (readOsRelease content).1, n ≤ 64) ↔
      ∀ word ∈ upTo (Named ·) (seen content), word.length ≤ 63 := by
  have hcap (word : List UInt8) : (word.take 64).length + 1 ≤ 64 ↔ word.length ≤ 63 := by
    rw [List.length_take]
    omega
  show (∀ n ∈ (nameLoop content).1.map (·.length + 1), n ≤ 64) ↔ _
  rw [nameLoop_eq, List.forall_mem_map, List.forall_mem_map]
  exact forall₂_congr fun word _ => hcap word

theorem readOsRelease_snd (content : List UInt8) :
    (readOsRelease content).2 = (nameLoop content).2.elim
      ((Chars.zero 64).strncpy linuxName) ((Chars.zero 64).strncpy linuxName).strncpy := rfl

/-- What is in `os_name_version`, if no store left `distro`. -/
theorem readOsRelease_name {content : List UInt8}
    (h : ∀ word ∈ upTo (Named ·) (seen content), word.length ≤ 63) :
    0 ∈ (readOsRelease content).2.bytes ∧
      (readOsRelease content).2.str = ((seen content).find? (Named ·)).elim linuxName text := by
  rw [readOsRelease_snd, nameLoop_eq]
  cases hfind : (seen content).find? (Named ·) with
  | none =>
    have hlinux := Chars.str_strncpy (.zero 64) (s := linuxName) (by decide)
    exact ⟨hlinux.2, hlinux.1⟩
  | some word =>
    have hword := h word (mem_upTo hfind)
    have hfit : (text word).length < 64 :=
      Nat.lt_of_le_of_lt (text_length_le word) (by omega)
    have hname := Chars.str_strncpy ((Chars.zero 64).strncpy linuxName) hfit
    rw [Option.map_some, List.take_of_length_le (hword.trans (by omega))]
    exact ⟨hname.2, hname.1⟩

/-- **The video request.** The name is read in bounds and as asked for, and every request
with it is sent whole, exactly for the files that the loop recognises. -/
theorem videoRequest_iff (content : List UInt8) :
    (NameRead content ∧ ∀ argv stored usbPort, (parseArgs argv).Admitted →
      RequestSent (parseArgs argv).config.videoFormat
        (videoRequest (parseArgs argv) stored usbPort (readOsRelease content).2)) ↔
    Recognised content := by
  constructor
  · rintro ⟨hread, -⟩
    have hshort := (stored_iff content).mp hread.stored
    exact (Recognised.iff hshort).mpr ((readOsRelease_name hshort).2.symm.trans hread.name)
  · intro h
    obtain ⟨hterm, hname⟩ := readOsRelease_name h.short
    have hname := hname.trans ((Recognised.iff h.short).mp h)
    exact ⟨⟨(stored_iff content).mpr h.short, hterm, hname⟩, fun _ _ _ _ => requestSent _ _⟩

/-- A file that begins with the name. -/
def idFirst : List UInt8 := ascii "ID=arch" ++ newline :: ascii "NAME=Arch" ++ [newline]

/-- The first line is gone before `fscanf` looks for the first time. -/
theorem not_read_idFirst : ¬ NameRead idFirst := by
  intro h
  have hfirst : fgets 256 idFirst =
      some (ascii "ID=arch" ++ [newline], ascii "NAME=Arch" ++ [newline]) := by decide +kernel
  have hmiss : fscanfId (ascii "NAME=Arch" ++ [newline]) =
      (none, ascii "NAME=Arch" ++ [newline]) := by decide +kernel
  have hsecond : fgets 256 (ascii "NAME=Arch" ++ [newline]) =
      some (ascii "NAME=Arch" ++ [newline], []) := by decide +kernel
  have hloop : nameLoop idFirst = ([], none) := by
    rw [nameLoop_next hfirst, hmiss]
    dsimp only
    rw [nameLoop_next hsecond]
    exact nameLoop_end
  have hname : (readOsRelease idFirst).2.str = linuxName := by
    rw [readOsRelease_snd, hloop]
    decide +kernel
  have hasked : osName idFirst = ascii "arch" := by decide +kernel
  rw [h.name, hasked] at hname
  exact absurd hname (by decide)

end DroidcamWhip
