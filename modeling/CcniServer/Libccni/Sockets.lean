import CcniServer.Lib.Lts
import Mathlib.Data.Multiset.AddSub
import Mathlib.Tactic.SplitIfs

/-!
The sockets of the client library: what `connect` and `disconnect` open and close, whatever the
system calls in them answer.
-/
namespace CcniServer

/-- The answers of the system calls in one `connect`; a call on the descriptor -1 fails anyway. -/
structure CCNIConnection.Answers where
  udp : Option ℕ
  sent : Bool
  received : Option (UInt64 × UInt64)
  tcp : Option ℕ
  connected : Bool
  pthread_create : ℕ
  strerror : String

/-- A connection, with the descriptors that it has opened and not closed. -/
structure CCNIConnection.Sockets where
  _udpsock : ℤ
  _tcpsock : ℤ
  _connected : Bool
  _k1 : UInt64
  _k2 : UInt64
  _lasterr : String
  opened : Multiset ℤ

namespace CCNIConnection.Sockets

/-- The constructor. -/
def new : Sockets := ⟨-1,-1,false,0,0,"",0⟩

/-- What `socket` returns. -/
def fdOf (answer : Option ℕ) : ℤ := answer.elim (-1) (fun fd => fd)

/-- The descriptor that a field holds, nothing for -1. -/
def fds (fd : ℤ) : Multiset ℤ := if fd = -1 then 0 else {fd}

def held (s : Sockets) : Multiset ℤ := fds s._udpsock + fds s._tcpsock

/-- `close` of a field that may be -1. -/
def close (opened : Multiset ℤ) (fd : ℤ) : Multiset ℤ := if fd ≥ 0 then opened.erase fd else opened

def openUdp (s : Sockets) (answer : Option ℕ) : Sockets :=
  { s with _udpsock := fdOf answer, opened := s.opened + fds (fdOf answer) }

def openTcp (s : Sockets) (answer : Option ℕ) : Sockets :=
  { s with _tcpsock := fdOf answer, opened := s.opened + fds (fdOf answer) }

def setKeys (s : Sockets) (hd : UInt64 × UInt64) : Sockets := { s with _k1 := hd.1, _k2 := hd.2 }

/-- Nothing happens before the flag is set at the end of `connect`. -/
def disconnect (s : Sockets) : Sockets :=
  if s._connected then
    { s with
      opened := close (close s.opened s._tcpsock) s._udpsock
      _tcpsock := -1
      _udpsock := -1
      _connected := false }
  else s

/-- An exit of `connect` with an error. -/
def fail (s : Sockets) (error : String) : Bool × Sockets :=
  (false,({ s with _lasterr := error }).disconnect)

/-- `connect`. The test of `pthread_create` is for negative numbers, which it does not return. -/
def connect (s : Sockets) (a : Answers) : Bool × Sockets :=
  let s := s.openUdp a.udp
  if ¬ (a.udp.isSome ∧ a.sent) then s.fail ("send error:" ++ a.strerror)
  else
    match a.received with
    | none => s.fail "receive udp error"
    | some hd =>
      let s := (s.setKeys hd).openTcp a.tcp
      if ¬ (a.tcp.isSome ∧ a.connected) then s.fail ("TCP connect error:" ++ a.strerror)
      else if (a.pthread_create : ℤ) < 0 then s.fail "create listener thread error."
      else (true,{ s with _connected := true })

/-- A call of the two. -/
inductive Call
  | connect (a : Answers)
  | disconnect

def step (s : Sockets) : Call → Sockets
  | .connect a => (s.connect a).2
  | .disconnect => s.disconnect

/-- The open sockets are those in the fields, and there are none while the object is not
connected. -/
structure NoLeak (s : Sockets) : Prop where
  exact : s.opened = s.held
  idle : s._connected = false → s.opened = 0 ∧ s._udpsock = -1 ∧ s._tcpsock = -1

/-- `connect` on an object that is not connected, with no first socket or with all that it needs. -/
def Meant (s : Sockets) : Call → Prop
  | .connect a => s._connected = false ∧
      (a.udp = none ∨ a.sent = true ∧ a.received.isSome ∧ a.tcp.isSome ∧ a.connected = true)
  | .disconnect => True

/-- An open socket that no later `disconnect` will close. -/
def Lost (s : Sockets) : Prop := (if s._connected then s.held.card else 0) < s.opened.card

theorem Lost.not_noLeak {s : Sockets} (h : Lost s) : ¬ NoLeak s := by
  intro hno
  unfold Lost at h
  split_ifs at h with hconn
  · rw [hno.exact] at h
    exact lt_irrefl _ h
  · rw [(hno.idle (by simpa using hconn)).1] at h
    exact lt_irrefl _ h

theorem card_fds_le (fd : ℤ) : (fds fd).card ≤ 1 := by
  unfold fds
  split_ifs
  · exact Nat.zero_le 1
  · exact le_rfl

/-- A close takes one socket away at most. -/
theorem card_close (opened : Multiset ℤ) (fd : ℤ) :
    opened.card ≤ (close opened fd).card + (fds fd).card := by
  unfold close fds
  split_ifs with hpos hneg
  · omega
  · by_cases hmem : fd ∈ opened
    · exact (Multiset.card_erase_add_one hmem).ge
    · rw [Multiset.erase_of_notMem hmem]
      exact Nat.le_add_right _ _
  · exact Nat.le_add_right _ _
  · exact Nat.le_add_right _ _

theorem lost_of_not_connected {s : Sockets} (hconn : s._connected = false) :
    Lost s ↔ 0 < s.opened.card := by simp [Lost,hconn]

theorem lost_of_connected {s : Sockets} (hconn : s._connected = true) :
    Lost s ↔ (fds s._udpsock).card + (fds s._tcpsock).card < s.opened.card := by
  simp [Lost,hconn,held]

theorem Lost.disconnect {s : Sockets} (h : Lost s) : Lost s.disconnect := by
  unfold Sockets.disconnect
  split_ifs with hconn
  · rw [lost_of_connected hconn] at h
    rw [lost_of_not_connected rfl]
    have htcp := card_close s.opened s._tcpsock
    have hudp := card_close (close s.opened s._tcpsock) s._udpsock
    dsimp only
    omega
  · exact h

theorem Lost.fail {s : Sockets} (h : Lost s) (error : String) : Lost (s.fail error).2 :=
  Lost.disconnect (s := { s with _lasterr := error }) h

/-- What is lost stays lost where the open sockets grow by as many as the fields hold more. -/
theorem Lost.grow {s t : Sockets} (h : Lost s) (hconn : t._connected = s._connected)
    (hopened : s.opened.card ≤ t.opened.card)
    (hheld : s.opened.card + ((fds t._udpsock).card + (fds t._tcpsock).card) ≤
      t.opened.card + ((fds s._udpsock).card + (fds s._tcpsock).card)) : Lost t := by
  cases hs : s._connected with
  | true =>
    rw [lost_of_connected hs] at h
    rw [lost_of_connected (hconn.trans hs)]
    omega
  | false =>
    rw [lost_of_not_connected hs] at h
    rw [lost_of_not_connected (hconn.trans hs)]
    omega

theorem Lost.openUdp {s : Sockets} (h : Lost s) (answer : Option ℕ) : Lost (s.openUdp answer) := by
  apply h.grow (t := s.openUdp answer) rfl
  · simp [Sockets.openUdp]
  · simp only [Sockets.openUdp,Multiset.card_add]
    omega

theorem Lost.openTcp {s : Sockets} (h : Lost s) (answer : Option ℕ) : Lost (s.openTcp answer) := by
  apply h.grow (t := s.openTcp answer) rfl
  · simp [Sockets.openTcp]
  · simp only [Sockets.openTcp,Multiset.card_add]
    omega

/-- The ways through `connect`: an exit after each of the two sockets, or the end. -/
theorem connect_cases (s : Sockets) (a : Answers) :
    (∃ error, s.connect a = (s.openUdp a.udp).fail error ∧
      ¬ (a.udp.isSome ∧ a.sent = true ∧ a.received.isSome)) ∨
    (∃ hd error, s.connect a = (((s.openUdp a.udp).setKeys hd).openTcp a.tcp).fail error ∧
      a.udp.isSome ∧ ¬ (a.tcp.isSome ∧ a.connected = true)) ∨
    ∃ hd, s.connect a =
        (true,{ ((s.openUdp a.udp).setKeys hd).openTcp a.tcp with _connected := true }) ∧
      a.udp.isSome ∧ a.sent = true ∧ a.received.isSome ∧ a.tcp.isSome ∧ a.connected = true := by
  have hthread : ¬ (a.pthread_create : ℤ) < 0 := Int.not_lt.mpr (Int.natCast_nonneg _)
  unfold connect
  dsimp only
  by_cases hsent : a.udp.isSome = true ∧ a.sent = true
  · rw [if_neg (not_not.mpr hsent)]
    cases hreceived : a.received with
    | none => exact .inl ⟨_,rfl,fun h => by simp at h⟩
    | some hd =>
      dsimp only
      by_cases htcp : a.tcp.isSome = true ∧ a.connected = true
      · rw [if_neg (not_not.mpr htcp),if_neg hthread]
        exact .inr (.inr ⟨hd,rfl,hsent.1,hsent.2,rfl,htcp⟩)
      · rw [if_pos htcp]
        exact .inr (.inl ⟨hd,_,rfl,hsent.1,htcp⟩)
  · rw [if_pos hsent]
    exact .inl ⟨_,rfl,fun h => hsent ⟨h.1,h.2.1⟩⟩

/-- A `connect` that returns false leaves the object not connected. -/
theorem connect_false {s : Sockets} {a : Answers} (h : (s.connect a).1 = false) :
    (s.connect a).2._connected = false := by
  have hfail : ∀ (s : Sockets) error, (s.fail error).2._connected = false := by
    intro s error
    unfold fail Sockets.disconnect
    split_ifs with hconn
    · rfl
    · simpa using hconn
  obtain ⟨error,hcase,-⟩ | ⟨hd,error,hcase,-⟩ | ⟨hd,hcase,-⟩ := connect_cases s a
  · rw [hcase]
    exact hfail _ _
  · rw [hcase]
    exact hfail _ _
  · rw [hcase] at h
    cases h

/-- What is lost once the first socket is open stays lost, if the end is not reached. -/
theorem lost_connect {s : Sockets} {a : Answers} (h : Lost (s.openUdp a.udp))
    (hend : ∀ hd, a.udp.isSome → a.sent = true → a.received.isSome → a.tcp.isSome →
      a.connected = true →
        Lost { ((s.openUdp a.udp).setKeys hd).openTcp a.tcp with _connected := true }) :
    Lost (s.connect a).2 := by
  have hkeys : ∀ hd, Lost ((s.openUdp a.udp).setKeys hd) := fun _ => h
  obtain ⟨error,hcase,-⟩ | ⟨hd,error,hcase,-⟩ | ⟨hd,hcase,hall⟩ := connect_cases s a
  · rw [hcase]
    exact h.fail error
  · rw [hcase]
    exact ((hkeys hd).openTcp a.tcp).fail error
  · rw [hcase]
    obtain ⟨hudp,hsent,hreceived,htcp,hconnected⟩ := hall
    exact hend hd hudp hsent hreceived htcp hconnected

theorem card_fds_fdOf {answer : Option ℕ} (h : answer.isSome) : (fds (fdOf answer)).card = 1 := by
  obtain ⟨fd,rfl⟩ := Option.isSome_iff_exists.mp h
  have hne : (fd : ℤ) ≠ -1 := by omega
  exact congrArg Multiset.card (if_neg hne)

/-- Both sockets are new where `connect` comes to its end. -/
theorem lost_of_end {s : Sockets} {a : Answers} (h : 0 < s.opened.card) (hd : UInt64 × UInt64) :
    Lost { ((s.openUdp a.udp).setKeys hd).openTcp a.tcp with _connected := true } := by
  rw [lost_of_connected rfl]
  simp only [Sockets.openUdp,Sockets.openTcp,setKeys,Multiset.card_add]
  omega

theorem Lost.connect {s : Sockets} (h : Lost s) (a : Answers) : Lost (s.connect a).2 :=
  lost_connect (h.openUdp a.udp) fun hd _ _ _ _ _ => lost_of_end ((Nat.zero_le _).trans_lt h) hd

theorem Lost.step {s : Sockets} (h : Lost s) (c : Call) : Lost (s.step c) := by
  cases c with
  | connect a => exact h.connect a
  | disconnect => exact h.disconnect

/-- What the calls that are meant keep. -/
structure Good (s : Sockets) : Prop where
  exact : s.opened = s.held
  fields : if s._connected then 0 ≤ s._udpsock ∧ 0 ≤ s._tcpsock
    else s._udpsock = -1 ∧ s._tcpsock = -1

theorem Good.noLeak {s : Sockets} (h : Good s) : NoLeak s := by
  refine ⟨h.exact,fun hconn => ?_⟩
  obtain ⟨hudp,htcp⟩ : s._udpsock = -1 ∧ s._tcpsock = -1 := by simpa [hconn] using h.fields
  refine ⟨?_,hudp,htcp⟩
  rw [h.exact,held,hudp,htcp]
  rfl

theorem fds_of_nonneg {fd : ℤ} (h : 0 ≤ fd) : fds fd = {fd} := if_neg (by omega)

theorem Good.disconnect {s : Sockets} (h : Good s) : Good s.disconnect := by
  unfold Sockets.disconnect
  split_ifs with hconn
  · obtain ⟨hudp,htcp⟩ : 0 ≤ s._udpsock ∧ 0 ≤ s._tcpsock := by simpa [hconn] using h.fields
    refine ⟨?_,⟨rfl,rfl⟩⟩
    rw [h.exact,held,fds_of_nonneg hudp,fds_of_nonneg htcp,close,if_pos hudp,close,if_pos htcp]
    have hswap : ({s._udpsock} + {s._tcpsock} : Multiset ℤ) = s._tcpsock ::ₘ {s._udpsock} :=
      Multiset.pair_comm s._udpsock s._tcpsock
    rw [hswap,Multiset.erase_cons_head,Multiset.erase_singleton]
    rfl
  · exact h

theorem Good.connect {s : Sockets} (h : Good s) {a : Answers} (hmeant : s.Meant (.connect a)) :
    Good (s.connect a).2 := by
  obtain ⟨hconn,hanswers⟩ := hmeant
  obtain ⟨hopened,hudp,htcp⟩ := h.noLeak.idle hconn
  obtain ⟨error,hcase,hnot⟩ | ⟨hd,error,hcase,hsome,hnot⟩ | ⟨hd,hcase,hsome,-,-,htcpsome,-⟩ :=
    connect_cases s a
  · have hnone : a.udp = none := by
      rcases hanswers with hnone | hall
      · exact hnone
      · exact Option.not_isSome_iff_eq_none.mp fun hsome => hnot ⟨hsome,hall.1,hall.2.1⟩
    rw [hcase]
    refine Good.disconnect ⟨?_,?_⟩
    · simp only [held,Sockets.openUdp,hnone,hopened,htcp]
      rfl
    · simp only [Sockets.openUdp,hnone,hconn,htcp]
      exact ⟨rfl,trivial⟩
  · rcases hanswers with hnone | hall
    · rw [hnone] at hsome
      cases hsome
    · exact absurd hall.2.2 hnot
  · obtain ⟨udp,hudp'⟩ := Option.isSome_iff_exists.mp hsome
    obtain ⟨tcp,htcp'⟩ := Option.isSome_iff_exists.mp htcpsome
    rw [hcase]
    refine ⟨?_,?_⟩
    · simp only [held,Sockets.openUdp,Sockets.openTcp,setKeys,hopened,Multiset.zero_add]
    · simp only [Sockets.openUdp,Sockets.openTcp,setKeys,hudp',htcp']
      exact ⟨Int.natCast_nonneg udp,Int.natCast_nonneg tcp⟩

/-- Another call of `connect` loses a socket. -/
theorem Good.lost {s : Sockets} (h : Good s) {a : Answers} (hmeant : ¬ s.Meant (.connect a)) :
    Lost (s.connect a).2 := by
  cases hconn : s._connected with
  | true =>
    -- the two descriptors of the connection stay open, and one field at least is written over
    have hcard : s.opened.card = 2 := by
      obtain ⟨hudp,htcp⟩ : 0 ≤ s._udpsock ∧ 0 ≤ s._tcpsock := by simpa [hconn] using h.fields
      rw [h.exact,held,fds_of_nonneg hudp,fds_of_nonneg htcp]
      rfl
    refine lost_connect ?_ fun hd _ _ _ _ _ => lost_of_end (by omega) hd
    rw [lost_of_connected (s := s.openUdp a.udp) hconn]
    have htcp := card_fds_le s._tcpsock
    simp only [Sockets.openUdp,Multiset.card_add]
    omega
  | false =>
    -- the first socket is open, and nothing closes it
    have hsome : a.udp.isSome := by
      by_contra hnone
      exact hmeant ⟨hconn,.inl (Option.not_isSome_iff_eq_none.mp hnone)⟩
    refine lost_connect ?_ fun hd _ hsent hreceived htcp hconnected => ?_
    · rw [lost_of_not_connected (s := s.openUdp a.udp) hconn]
      have hone := card_fds_fdOf hsome
      simp only [Sockets.openUdp,Multiset.card_add]
      omega
    · exact absurd ⟨hconn,.inr ⟨hsent,hreceived,htcp,hconnected⟩⟩ hmeant

theorem new_good : Good new := ⟨rfl,⟨rfl,rfl⟩⟩

/-- After any calls the open sockets are those of the object, and none while it is not connected,
exactly when every call was meant. Then a `connect` that returns false leaves no socket. -/
theorem noLeak_iff (calls : List Call) :
    (NoLeak (calls.foldl step new) ↔ Lts.Meets (Lts.Moves step) Meant new calls) ∧
      ∀ (s : Sockets) a, NoLeak (s.connect a).2 → (s.connect a).1 = false →
        (s.connect a).2._connected = false ∧ (s.connect a).2.opened = 0 ∧
          (s.connect a).2._udpsock = -1 ∧ (s.connect a).2._tcpsock = -1 := by
  refine ⟨?_,fun s a hno hfalse => ⟨connect_false hfalse,hno.idle (connect_false hfalse)⟩⟩
  have hkeep : ∀ s c, True → Good s → s.Meant c → Good (s.step c) := by
    intro s c _ h hmeant
    cases c with
    | connect a => exact h.connect hmeant
    | disconnect => exact h.disconnect
  have hlose : ∀ s c, True → Good s → ¬ s.Meant c → Lost (s.step c) := by
    intro s c _ h hmeant
    cases c with
    | connect a => exact h.lost hmeant
    | disconnect => exact absurd trivial hmeant
  exact Lts.foldl_iff_meets hkeep hlose (fun _ c h => Lost.step h c) (fun _ => Good.noLeak)
    (fun _ => Lost.not_noLeak) (fun _ _ => trivial) new_good

/-- The server does not answer the first datagram. -/
theorem socket_leaked : ¬ ∀ calls : List Call, NoLeak (calls.foldl step new) := by
  intro h
  have hidle := ((h [.connect ⟨some 3,true,none,none,false,0,""⟩]).idle rfl).1
  exact absurd hidle (by decide)

end CCNIConnection.Sockets
end CcniServer
