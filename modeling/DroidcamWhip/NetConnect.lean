import Mathlib.Data.List.Basic

/-!
`net_connect` of `net.cc`: the addresses of a host are tried one after the other,
and what became of an attempt is inferred from `errno` and `select`.
-/

namespace DroidcamWhip

/-! ## Sockets -/

structure SockAddr where
  family : Int
  addr : List UInt8
  port : UInt16
  deriving DecidableEq

/-- Sockets are numbered in the order in which they are made: those closed, those
that do not block, those bound, their receive timeouts, and where the
connections that have been established lead. -/
structure Net where
  issued : Nat
  closed : List Nat
  nonblock : List Nat
  bound : List (Nat × SockAddr)
  timeouts : List (Nat × Nat)
  peers : List (Nat × SockAddr)
  deriving DecidableEq

def eagain : Int := 11
def ewouldblock : Int := 11
def einprogress : Int := 115

def afInet : Int := 2
def afInet6 : Int := 10

/-- The values of `errno` that `net_connect` takes for a connection in progress. -/
def InProgress (errno : Int) : Prop :=
  errno = eagain ∨ errno = ewouldblock ∨ errno = einprogress

instance (errno : Int) : Decidable (InProgress errno) :=
  inferInstanceAs (Decidable (_ ∨ _ ∨ _))

/-- A connection in progress: it is established, or the attempt fails, or neither
within the timeout of `select`, or `select` itself fails. -/
inductive Progress where
  | established
  | failed (soError : Int)
  | pending
  | selectFailed
  deriving DecidableEq

/-- `connect` on a socket that does not block: it returns 0 and leaves `errno`
alone, or fails with another code than those for a connection in progress, or
the connection is in progress. -/
inductive Connect where
  | immediate
  | failed (errno : { e : Int // ¬ InProgress e })
  | inProgress (p : Progress)
  deriving DecidableEq

namespace Connect

/-- `errno` after `connect`. -/
def errno (before : Int) : Connect → Int
  | immediate => before
  | failed e => e
  | inProgress _ => einprogress

/-- The value of `select` on the socket: it is writable when the attempt is over. -/
def select : Connect → Int
  | immediate => 1
  | failed _ => 1
  | inProgress .established => 1
  | inProgress (.failed _) => 1
  | inProgress .pending => 0
  | inProgress .selectFailed => -1

/-- The connection is established within the timeout. -/
def established : Connect → Bool
  | immediate => true
  | inProgress .established => true
  | _ => false

end Connect

/-- The values of the calls of `fcntl` in `set_nonblock`. -/
structure Fcntl where
  getfl : Int
  setfl : Int
  deriving DecidableEq

def Fcntl.Ok (a : Fcntl) : Prop := 0 ≤ a.getfl ∧ 0 ≤ a.setfl

instance (a : Fcntl) : Decidable a.Ok := inferInstanceAs (Decidable (_ ∧ _))

/-- A resolved address and what happens there; `errno` is what earlier calls have
left in it when `connect` is called. -/
structure Attempt where
  addr : SockAddr
  socket : Bool
  bind : Int
  nonblock : Fcntl
  errno : Int
  connect : Connect
  block : Fcntl
  deriving DecidableEq

/-! ## `net_connect` -/

namespace SockAddr

/-- `sin_port` or `sin6_port`. -/
def withPort (a : SockAddr) (port : UInt16) : SockAddr :=
  if a.family = afInet then { a with port }
  else if a.family = afInet6 then { a with port }
  else a

end SockAddr

namespace Net

def newSocket (s : Net) : Net := { s with issued := s.issued + 1 }

def netClose (s : Net) (sock : Nat) : Net := { s with closed := s.closed ++ [sock] }

def setNonblock (s : Net) (sock : Nat) (nonblock : Bool) (a : Fcntl) : Bool × Net :=
  if a.getfl < 0 then (false, s)
  else if a.setfl < 0 then (false, s)
  else (true, { s with
    nonblock := if nonblock then s.nonblock ++ [sock] else s.nonblock.filter (· ≠ sock) })

/-- `bind`, when there is an address of the same family; that it fails is only logged. -/
def bindTo (s : Net) (sock : Nat) (bindSaddr : Option SockAddr) (addr : SockAddr) (ret : Int) :
    Net :=
  match bindSaddr with
  | none => s
  | some b =>
      if b.family = addr.family ∧ 0 ≤ ret then { s with bound := s.bound ++ [(sock, b)] } else s

/-- `connect`, and the connection that comes of it. -/
def connectTo (s : Net) (sock : Nat) (addr : SockAddr) (c : Connect) : Net :=
  if c.established then { s with peers := s.peers ++ [(sock, addr)] } else s

def setRecvTimeout (s : Net) (sock sec : Nat) : Net :=
  { s with timeouts := s.timeouts ++ [(sock, sec)] }

/-- The end of `net_connect` for an address, from `connect` on. -/
def awaitConnect (s : Net) (sock : Nat) (x : Attempt) : Option Nat × Net :=
  if ¬ InProgress (x.connect.errno x.errno) then (none, s.netClose sock)
  else
    let rc := x.connect.select
    if rc = 0 then (none, s.netClose sock)
    else if rc < 0 then (none, s.netClose sock)
    else
      let r := s.setNonblock sock false x.block
      if r.1 = false then (none, r.2.netClose sock) else (some sock, r.2)

/-- `net_connect` for an address. -/
def connectAddr (s : Net) (bindSaddr : Option SockAddr) (port : UInt16) (x : Attempt) :
    Option Nat × Net :=
  if x.socket = false then (none, s)
  else
    let addr := x.addr.withPort port
    let sock := s.issued
    let r := (s.newSocket.bindTo sock bindSaddr addr x.bind).setNonblock sock true x.nonblock
    if r.1 = false then (none, r.2.netClose sock)
    else (r.2.connectTo sock addr x.connect).awaitConnect sock x

/-- The loop of `net_connect` for a host; its list is not empty at first. -/
def connectLoop (bindSaddr : Option SockAddr) (port : UInt16) :
    List Attempt → Net → Option Nat × Net
  | [], s => (none, s)
  | x :: rest, s =>
      let r := s.connectAddr bindSaddr port x
      match r.1 with
      | some sock => (some sock, r.2.setRecvTimeout sock 5)
      | none => connectLoop bindSaddr port rest r.2

/-- `net_connect` for a host: `bindAddr` is the first address of `bindIP`, and
`resolved` are those of the host, of which there is at least one. -/
def netConnect (s : Net) (bindIP : String) (bindAddr : Option SockAddr) (port : UInt16)
    (resolved : Option (Attempt × List Attempt)) : Option Nat × Net :=
  let bindSaddr := if bindIP = "" then none else bindAddr
  match resolved with
  | none => (none, s)
  | some (x, rest) => connectLoop bindSaddr port (x :: rest) s

end Net

/-! ## What is promised -/

namespace Attempt

/-- None of the calls around `connect` fails. -/
def Usable (x : Attempt) : Prop := x.socket = true ∧ x.nonblock.Ok ∧ x.block.Ok

/-- The address can be connected within the timeout. -/
def Connects (x : Attempt) : Prop := x.Usable ∧ x.connect.established = true

instance (x : Attempt) : Decidable x.Usable := inferInstanceAs (Decidable (_ ∧ _))

instance (x : Attempt) : Decidable x.Connects := inferInstanceAs (Decidable (_ ∧ _))

/-- The connection is there at once but `errno` says otherwise, or the attempt has
failed but the socket is writable. -/
def Misjudged (x : Attempt) : Prop :=
  x.Usable ∧ (x.connect = .immediate ∧ ¬ InProgress x.errno ∨
    ∃ e, x.connect = .inProgress (.failed e))

/-- The first address with `p`, and its socket when the first socket has the
number `n`. -/
def first (p : Attempt → Prop) [DecidablePred p] : Nat → List Attempt → Option (Nat × Attempt)
  | _, [] => none
  | n, x :: rest =>
      if p x then some (n, x) else first p (if x.socket then n + 1 else n) rest

/-- No address is misjudged before the first that can be connected, nor is that one. -/
def Judged : List Attempt → Prop
  | [] => True
  | x :: rest => ¬ x.Misjudged ∧ (x.Connects ∨ Judged rest)

end Attempt

/-- From `s` on, the socket of the first address that can be connected is returned,
with an established connection, or none; all other sockets are closed. -/
structure Net.Serves (s : Net) (port : UInt16) (xs : List Attempt) (r : Option Nat × Net) :
    Prop where
  live : r.1 = (Attempt.first Attempt.Connects s.issued xs).map Prod.fst
  peer : ∀ p ∈ Attempt.first Attempt.Connects s.issued xs, (p.1, p.2.addr.withPort port) ∈ r.2.peers
  others : ∃ k, r.2.issued = s.issued + k ∧
    r.2.closed = s.closed ++ (List.range' s.issued k).filter fun sock => r.1 ≠ some sock

/-! ## An address -/

namespace Net

theorem setNonblock_fst (s : Net) (sock : Nat) (nonblock : Bool) (a : Fcntl) :
    (s.setNonblock sock nonblock a).1 = decide a.Ok := by
  unfold setNonblock
  split
  · exact (decide_eq_false fun hok => absurd hok.1 (by omega)).symm
  · split
    · exact (decide_eq_false fun hok => absurd hok.2 (by omega)).symm
    · exact (decide_eq_true ⟨by omega, by omega⟩).symm

/-- Blocking or not changes nothing else. -/
theorem setNonblock_snd (s : Net) (sock : Nat) (nonblock : Bool) (a : Fcntl) :
    (s.setNonblock sock nonblock a).2.issued = s.issued ∧
      (s.setNonblock sock nonblock a).2.closed = s.closed ∧
      (s.setNonblock sock nonblock a).2.peers = s.peers := by
  unfold setNonblock
  split
  · exact ⟨rfl, rfl, rfl⟩
  · split <;> exact ⟨rfl, rfl, rfl⟩

theorem bindTo_snd (s : Net) (sock : Nat) (bindSaddr : Option SockAddr) (addr : SockAddr)
    (ret : Int) :
    (s.bindTo sock bindSaddr addr ret).issued = s.issued ∧
      (s.bindTo sock bindSaddr addr ret).closed = s.closed := by
  unfold bindTo
  split
  · exact ⟨rfl, rfl⟩
  · split <;> exact ⟨rfl, rfl⟩

theorem connectTo_snd (s : Net) (sock : Nat) (addr : SockAddr) (c : Connect) :
    (s.connectTo sock addr c).issued = s.issued ∧ (s.connectTo sock addr c).closed = s.closed ∧
      (c.established = true → (sock, addr) ∈ (s.connectTo sock addr c).peers) := by
  unfold connectTo
  split
  · exact ⟨rfl, rfl, fun _ => List.mem_append_right _ (List.mem_singleton.mpr rfl)⟩
  · exact ⟨rfl, rfl, fun h => absurd h ‹_›⟩

end Net

/-- What `net_connect` takes for a connection. -/
def Attempt.Taken (x : Attempt) : Prop :=
  x.Usable ∧ InProgress (x.connect.errno x.errno) ∧ 0 < x.connect.select

instance (x : Attempt) : Decidable x.Taken := inferInstanceAs (Decidable (_ ∧ _))

namespace Net

theorem awaitConnect_spec (s : Net) (sock : Nat) (x : Attempt) :
    (s.awaitConnect sock x).2.issued = s.issued ∧
    ((x.block.Ok ∧ InProgress (x.connect.errno x.errno) ∧ 0 < x.connect.select) ∧
        (s.awaitConnect sock x).1 = some sock ∧ (s.awaitConnect sock x).2.closed = s.closed ∧
        (s.awaitConnect sock x).2.peers = s.peers ∨
      ¬ (x.block.Ok ∧ InProgress (x.connect.errno x.errno) ∧ 0 < x.connect.select) ∧
        (s.awaitConnect sock x).1 = none ∧
        (s.awaitConnect sock x).2.closed = s.closed ++ [sock]) := by
  obtain ⟨hissued, hclosed, hpeers⟩ := setNonblock_snd s sock false x.block
  unfold awaitConnect
  dsimp only
  split
  · exact ⟨rfl, .inr ⟨fun h => absurd h.2.1 ‹_›, rfl, rfl⟩⟩
  · rename_i herrno
    rw [not_not] at herrno
    split
    · exact ⟨rfl, .inr ⟨fun h => absurd h.2.2 (by omega), rfl, rfl⟩⟩
    · split
      · exact ⟨rfl, .inr ⟨fun h => absurd h.2.2 (by omega), rfl, rfl⟩⟩
      · rw [setNonblock_fst]
        split
        · rename_i hok
          refine ⟨hissued, .inr ⟨fun h => of_decide_eq_false hok h.1, rfl, ?_⟩⟩
          simp only [netClose, hclosed]
        · rename_i hok
          have hok' : x.block.Ok := by simpa using hok
          exact ⟨hissued, .inl ⟨⟨hok', herrno, by omega⟩, rfl, hclosed, hpeers⟩⟩

/-- What becomes of an address: its socket is returned, or it is closed. -/
theorem connectAddr_spec (s : Net) (bindSaddr : Option SockAddr) (port : UInt16) (x : Attempt) :
    (s.connectAddr bindSaddr port x).2.issued = (if x.socket then s.issued + 1 else s.issued) ∧
    (x.Taken ∧ (s.connectAddr bindSaddr port x).1 = some s.issued ∧
        (s.connectAddr bindSaddr port x).2.closed = s.closed ∧
        (x.connect.established = true →
          (s.issued, x.addr.withPort port) ∈ (s.connectAddr bindSaddr port x).2.peers) ∨
      ¬ x.Taken ∧ (s.connectAddr bindSaddr port x).1 = none ∧
        (s.connectAddr bindSaddr port x).2.closed =
          s.closed ++ if x.socket then [s.issued] else []) := by
  unfold connectAddr
  dsimp only
  split
  · rename_i hsocket
    exact ⟨by simp [hsocket], .inr ⟨fun h => by simp [h.1.1] at hsocket, rfl, by simp [hsocket]⟩⟩
  · rename_i hsocket
    rw [Bool.not_eq_false] at hsocket
    rw [if_pos hsocket, if_pos hsocket]
    have hbind := bindTo_snd s.newSocket s.issued bindSaddr (x.addr.withPort port) x.bind
    generalize s.newSocket.bindTo s.issued bindSaddr (x.addr.withPort port) x.bind = t at hbind
    obtain ⟨hissued, hclosed, -⟩ := setNonblock_snd t s.issued true x.nonblock
    rw [hbind.1] at hissued
    rw [hbind.2] at hclosed
    rw [setNonblock_fst]
    split
    · rename_i hok
      refine ⟨hissued, .inr ⟨fun h => of_decide_eq_false hok h.1.2.1, rfl, ?_⟩⟩
      simp only [netClose, hclosed]
      rfl
    · rename_i hok
      have hok' : x.nonblock.Ok := by simpa using hok
      generalize (t.setNonblock s.issued true x.nonblock).2 = u at hissued hclosed
      obtain ⟨hissued', hclosed', hpeer⟩ :=
        connectTo_snd u s.issued (x.addr.withPort port) x.connect
      rw [hissued] at hissued'
      rw [hclosed] at hclosed'
      obtain ⟨hlast, hspec⟩ := awaitConnect_spec
        (u.connectTo s.issued (x.addr.withPort port) x.connect) s.issued x
      refine ⟨hlast.trans hissued', ?_⟩
      rcases hspec with ⟨⟨hblock, herrno, hselect⟩, hfst, hcl, hpe⟩ | ⟨hnot, hfst, hcl⟩
      · refine .inl ⟨⟨⟨hsocket, hok', hblock⟩, herrno, hselect⟩, hfst, hcl.trans hclosed', ?_⟩
        rw [hpe]
        exact hpeer
      · refine .inr ⟨fun h => hnot ⟨h.1.2.2, h.2⟩, hfst, ?_⟩
        rw [hcl, hclosed']
        rfl

end Net

/-! ## The list -/

namespace Attempt

section First

variable {p : Attempt → Prop} [DecidablePred p]

/-- The sockets are numbered from `n` on. -/
theorem le_of_first {n : Nat} {xs : List Attempt} {q : Nat × Attempt}
    (h : first p n xs = some q) : n ≤ q.1 := by
  induction xs generalizing n with
  | nil => cases h
  | cons x rest ih =>
    rw [first] at h
    split at h
    · cases h
      exact Nat.le_refl n
    · have hle := ih h
      split at hle <;> omega

/-- A socket that was passed over is not found later. -/
theorem first_ne_of_lt {n m : Nat} {xs : List Attempt} (h : m < n) :
    (first p n xs).map Prod.fst ≠ some m := by
  intro hm
  obtain ⟨q, hq, rfl⟩ := Option.map_eq_some_iff.mp hm
  exact absurd (le_of_first hq) (by omega)

theorem first_spec {n : Nat} {xs : List Attempt} {q : Nat × Attempt}
    (h : first p n xs = some q) : p q.2 := by
  induction xs generalizing n with
  | nil => cases h
  | cons x rest ih =>
    rw [first] at h
    split at h
    · cases h
      assumption
    · exact ih h

end First

theorem taken_iff_connects {x : Attempt} (h : ¬ x.Misjudged) : x.Taken ↔ x.Connects := by
  unfold Taken Connects
  refine and_congr_right fun husable => ?_
  cases hc : x.connect with
  | immediate =>
    have herrno : InProgress x.errno := by
      by_contra hnot
      exact h ⟨husable, .inl ⟨hc, hnot⟩⟩
    exact iff_of_true ⟨herrno, Int.one_pos⟩ rfl
  | failed e => exact iff_of_false (fun hp => e.2 hp.1) Bool.false_ne_true
  | inProgress p =>
    have hcode : InProgress einprogress := .inr (.inr rfl)
    cases p with
    | established => exact iff_of_true ⟨hcode, Int.one_pos⟩ rfl
    | failed e => exact absurd ⟨husable, .inr ⟨e, hc⟩⟩ h
    | pending => exact iff_of_false (fun hp => absurd hp.2 (by decide)) Bool.false_ne_true
    | selectFailed => exact iff_of_false (fun hp => absurd hp.2 (by decide)) Bool.false_ne_true

theorem taken_iff_not_connects {x : Attempt} (h : x.Misjudged) : x.Taken ↔ ¬ x.Connects := by
  obtain ⟨husable, ⟨hc, herrno⟩ | ⟨e, hc⟩⟩ := h
  · refine iff_of_false (fun htaken => ?_) (not_not.mpr ⟨husable, by rw [hc]; rfl⟩)
    rw [Taken, hc] at htaken
    exact herrno htaken.2.1
  · refine iff_of_true ⟨husable, ?_, ?_⟩ fun hconnects => ?_
    · rw [hc]
      exact .inr (.inr rfl)
    · rw [hc]
      exact Int.one_pos
    · rw [Connects, hc] at hconnects
      exact Bool.false_ne_true hconnects.2

theorem first_eq_of_judged {n : Nat} {xs : List Attempt} (h : Judged xs) :
    first Taken n xs = first Connects n xs := by
  induction xs generalizing n with
  | nil => rfl
  | cons x rest ih =>
    obtain ⟨hx, hrest⟩ := h
    rw [first, first]
    simp only [taken_iff_connects hx]
    split
    · rfl
    · exact ih (hrest.resolve_left ‹_›)

theorem judged_of_first_eq {n : Nat} {xs : List Attempt}
    (h : (first Taken n xs).map Prod.fst = (first Connects n xs).map Prod.fst) : Judged xs := by
  induction xs generalizing n with
  | nil => trivial
  | cons x rest ih =>
    rw [first, first] at h
    by_cases hx : x.Misjudged
    · have htaken := taken_iff_not_connects hx
      simp only [hx.1.1, if_true] at h
      by_cases hconnects : x.Connects
      · rw [if_neg (mt htaken.mp (not_not.mpr hconnects)), if_pos hconnects] at h
        exact absurd h (first_ne_of_lt (Nat.lt_succ_self n))
      · rw [if_pos (htaken.mpr hconnects), if_neg hconnects] at h
        exact absurd h.symm (first_ne_of_lt (Nat.lt_succ_self n))
    · simp only [taken_iff_connects hx] at h
      refine ⟨hx, ?_⟩
      by_cases hconnects : x.Connects
      · exact .inl hconnects
      · rw [if_neg hconnects, if_neg hconnects] at h
        exact .inr (ih h)

end Attempt

namespace Net

/-- The loop returns the socket of the first address taken for connected. -/
theorem connectLoop_first (bindSaddr : Option SockAddr) (port : UInt16) (xs : List Attempt)
    (s : Net) :
    (connectLoop bindSaddr port xs s).1 =
        (Attempt.first Attempt.Taken s.issued xs).map Prod.fst ∧
      ∀ q ∈ Attempt.first Attempt.Taken s.issued xs, q.2.connect.established = true →
        (q.1, q.2.addr.withPort port) ∈ (connectLoop bindSaddr port xs s).2.peers := by
  induction xs generalizing s with
  | nil => exact ⟨rfl, fun q hq => absurd hq (Option.not_mem_none q)⟩
  | cons x rest ih =>
    obtain ⟨hissued, ⟨htaken, hfst, _, hpeer⟩ | ⟨hnot, hfst, _⟩⟩ :=
      connectAddr_spec s bindSaddr port x
    · rw [connectLoop, Attempt.first, if_pos htaken]
      simp only [hfst]
      refine ⟨rfl, fun q hq => ?_⟩
      cases hq
      exact hpeer
    · rw [connectLoop, Attempt.first, if_neg hnot, ← hissued]
      simp only [hfst]
      exact ih _

/-- All sockets made are closed, up to the one returned. -/
theorem connectLoop_closes (bindSaddr : Option SockAddr) (port : UInt16) (xs : List Attempt)
    (s : Net) :
    ∃ k, (connectLoop bindSaddr port xs s).2.issued = s.issued + k ∧
      (connectLoop bindSaddr port xs s).2.closed = s.closed ++ (List.range' s.issued k).filter
        fun sock => (connectLoop bindSaddr port xs s).1 ≠ some sock := by
  induction xs generalizing s with
  | nil => exact ⟨0, rfl, (List.append_nil _).symm⟩
  | cons x rest ih =>
    obtain ⟨hissued, ⟨htaken, hfst, hclosed, _⟩ | ⟨hnot, hfst, hclosed⟩⟩ :=
      connectAddr_spec s bindSaddr port x
    · rw [if_pos htaken.1.1] at hissued
      rw [connectLoop]
      simp only [hfst]
      exact ⟨1, hissued, by simp [setRecvTimeout, hclosed]⟩
    · obtain ⟨k, hk, hrest⟩ := ih (s.connectAddr bindSaddr port x).2
      have hres := (connectLoop_first bindSaddr port rest (s.connectAddr bindSaddr port x).2).1
      rw [connectLoop]
      simp only [hfst]
      by_cases hsocket : x.socket = true
      · rw [if_pos hsocket] at hissued hclosed
        rw [hissued] at hk hrest hres
        refine ⟨k + 1, by omega, ?_⟩
        have hne : (Attempt.first Attempt.Taken (s.issued + 1) rest).map Prod.fst ≠
            some s.issued := Attempt.first_ne_of_lt (Nat.lt_succ_self s.issued)
        rw [← hres] at hne
        rw [List.range'_succ, List.filter_cons_of_pos (by simpa using hne), hrest, hclosed,
          List.append_assoc, List.singleton_append]
      · rw [if_neg hsocket] at hissued hclosed
        rw [hissued] at hk hrest
        exact ⟨k, hk, by rw [hrest, hclosed, List.append_nil]⟩

/-- What the resolver has found. -/
def attempts (resolved : Option (Attempt × List Attempt)) : List Attempt :=
  match resolved with
  | none => []
  | some (x, rest) => x :: rest

/-- **Falling through.** `net_connect` returns a connected socket for the first
address that can be connected, or none, and closes all others, exactly if no
address up to that one is connected at once while `errno` says otherwise or
fails while in progress. -/
theorem netConnect_serves_iff (s : Net) (bindIP : String) (bindAddr : Option SockAddr)
    (port : UInt16) (resolved : Option (Attempt × List Attempt)) :
    s.Serves port (attempts resolved) (s.netConnect bindIP bindAddr port resolved) ↔
      Attempt.Judged (attempts resolved) := by
  have hloop : s.netConnect bindIP bindAddr port resolved =
      connectLoop (if bindIP = "" then none else bindAddr) port (attempts resolved) s := by
    unfold netConnect attempts
    cases resolved <;> rfl
  rw [hloop]
  obtain ⟨hfst, hpeer⟩ := connectLoop_first (if bindIP = "" then none else bindAddr) port
    (attempts resolved) s
  constructor
  · intro hserves
    exact Attempt.judged_of_first_eq (hfst.symm.trans hserves.live)
  · intro hjudged
    have hfirst := Attempt.first_eq_of_judged (n := s.issued) hjudged
    rw [hfirst] at hfst hpeer
    refine ⟨hfst, fun q hq => hpeer q hq ?_, connectLoop_closes _ port _ s⟩
    exact (Attempt.first_spec hq).2

/-- No socket has been made yet. -/
def fresh : Net := ⟨0, [], [], [], [], []⟩

/-- An address where nothing fails and the connection is established in time. -/
def goodAttempt (addr : List UInt8) : Attempt where
  addr := ⟨afInet, addr, 0⟩
  socket := true
  bind := 0
  nonblock := ⟨2, 0⟩
  errno := 0
  connect := .inProgress .established
  block := ⟨2050, 0⟩

/-- A host that refuses the connection is taken for connected, and one that accepts
it at once for dead. -/
theorem netConnect_misjudges :
    ¬ fresh.Serves 4747 [{ goodAttempt [192, 168, 1, 2] with connect := .inProgress (.failed 111) },
        goodAttempt [192, 168, 1, 3]]
      (fresh.netConnect "" none 4747
        (some ({ goodAttempt [192, 168, 1, 2] with connect := .inProgress (.failed 111) },
          [goodAttempt [192, 168, 1, 3]]))) ∧
      ¬ fresh.Serves 4747 [{ goodAttempt [127, 0, 0, 1] with connect := .immediate }]
        (fresh.netConnect "" none 4747
          (some ({ goodAttempt [127, 0, 0, 1] with connect := .immediate }, []))) :=
  ⟨fun h => absurd h.live (by decide), fun h => absurd h.live (by decide)⟩

end Net

end DroidcamWhip
