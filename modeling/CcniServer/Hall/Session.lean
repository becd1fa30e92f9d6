import CcniServer.Lib.OrdSet
import CcniServer.Hall.Client

/-! Game sessions: two players' seats and a bounded set of watchers. Every operation returns
the session after it and the notifier with the members it collected. -/
namespace CcniServer

/-- The places of an `ASSERT`, which calls `exit(0)` when it fails. -/
inductive Assertion
  | leaveRoomFound
  | leaveRoomLeft
  | createSessionState
  | createSessionFound
  | createSessionInRoom
  | leaveSessionState
  | leaveSessionFound
  | leaveSessionListed
  | leaveSessionSeated
  | watchSessionState
  | watchSessionFound
  | enterSessionState
  | enterSessionFound
  | doLeaveRoomState
  | doListSessionsState
  | doListSessionsFound
  | doReadyState
  | doReadyFound
  | doReadyReturned
  | readySeated
  deriving DecidableEq, Repr

/-- A computation that ends the server when an `ASSERT` in it fails. -/
abbrev Checked := Except Assertion

def ASSERT (site : Assertion) (v : Bool) : Checked Unit := if v then .ok () else .error site

namespace Checked
variable {α β : Type}

theorem ASSERT_pos {site : Assertion} {v : Bool} (h : v = true) : ASSERT site v = .ok () := by
  rw [ASSERT,if_pos h]

theorem ASSERT_neg {site : Assertion} {v : Bool} (h : v = false) :
    ASSERT site v = .error site := by
  simp [ASSERT,h]

@[simp] theorem ok_bind (a : α) (f : α → Checked β) : ((.ok a : Checked α) >>= f) = f a := rfl

@[simp] theorem error_bind (site : Assertion) (f : α → Checked β) :
    ((.error site : Checked α) >>= f) = .error site := rfl

@[simp] theorem pure_eq (a : α) : (pure a : Checked α) = .ok a := rfl

theorem map_eq_ok {x : Checked α} {f : α → β} {b : β} :
    x.map f = .ok b ↔ ∃ a, x = .ok a ∧ f a = b := by
  cases x <;> simp [Except.map]

end Checked

structure CSessionConfig where
  des : String := "session"
  fen : String := "hello"
  red : ℤ := 0
  innings : ℤ := 0
  rule : ℤ := 0
  totalTime : ℤ := 10*60
  stepTime : ℤ := 30
  bonusPerStep : ℤ := 3
  requiredScore : ℤ := 0
  ante : ℤ := 0
  watcherCount : ℤ := 200
  watcherCount_nonneg : 0 ≤ watcherCount := by decide

/-- The constructor. -/
def CSessionConfig.create : CSessionConfig := {}

structure CSession where
  id : ℕ
  cfg : CSessionConfig
  owner : Option CClientPtr
  opponent : Option CClientPtr
  watchers : OrdSet CClientPtr
  watchers_le : (watchers.size : ℤ) ≤ cfg.watcherCount

namespace CSession

/-- The counter step of `genid` and the id it hands out. -/
def genid (idseed : ℕ) : ℕ × ℕ :=
  let idseed := (idseed + 1) % 20000
  (idseed,idseed + 1)

theorem genid_range (idseed : ℕ) :
    (genid idseed).1 < 20000 ∧ 0 < (genid idseed).2 ∧ (genid idseed).2 ≤ 20000 := by
  simp only [genid]
  omega

def new (ow : CClientPtr) (cfg : CSessionConfig) (id : ℕ) : CSession where
  id := id
  cfg := cfg
  owner := some ow
  opponent := none
  watchers := OrdSet.empty
  watchers_le := by simpa using cfg.watcherCount_nonneg

/-- Everybody the notifying loops go through: the owner, the opponent, then the watchers. -/
def members (ss : CSession) : List CClientPtr :=
  ss.owner.toList ++ ss.opponent.toList ++ ss.watchers.toList

@[simp] theorem mem_members {ss : CSession} {c : CClientPtr} :
    c ∈ ss.members ↔ ss.owner = some c ∨ ss.opponent = some c ∨ c ∈ ss.watchers := by
  simp only [members,List.mem_append,Option.mem_toList,OrdSet.mem_toList,or_assoc]

/-- Nobody has two seats. -/
theorem nodup_members {ss : CSession} : ss.members.Nodup ↔
    (∀ c, ss.owner = some c → ss.opponent ≠ some c) ∧
    ∀ c ∈ ss.watchers, ss.owner ≠ some c ∧ ss.opponent ≠ some c := by
  have hw := ss.watchers.nodup
  have hmem : ∀ c, c ∈ ss.watchers.toList ↔ c ∈ ss.watchers := fun _ => OrdSet.mem_toList
  unfold members
  cases ss.owner <;> cases ss.opponent <;> simp [hw,hmem] <;> grind

/-- The seat `leave` takes from a client; owner and opponent are tried before the watchers. -/
def unseat (ss : CSession) (c : CClientPtr) : Option CSession :=
  if ss.owner = some c then some { ss with owner := none }
  else if ss.opponent = some c then some { ss with opponent := none }
  else if c ∈ ss.watchers then
    some { ss with
      watchers := ss.watchers.erase c
      watchers_le := by
        have h := OrdSet.size_erase_le c ss.watchers
        have hle := ss.watchers_le
        omega }
  else none

theorem unseat_isSome {ss : CSession} {c : CClientPtr} :
    (ss.unseat c).isSome ↔ c ∈ ss.members := by
  rw [mem_members]
  unfold unseat
  split_ifs with how hop hw
  · exact ⟨fun _ => .inl how,fun _ => rfl⟩
  · exact ⟨fun _ => .inr (.inl hop),fun _ => rfl⟩
  · exact ⟨fun _ => .inr (.inr hw),fun _ => rfl⟩
  · simp [how,hop,hw]

/-- A leaving client gives up its seat and nobody else does. -/
theorem unseat_some {ss ss' : CSession} {c : CClientPtr} (hnd : ss.members.Nodup)
    (h : ss.unseat c = some ss') :
    ss'.id = ss.id ∧ (∀ d, ss'.owner = some d ↔ ss.owner = some d ∧ d ≠ c) ∧
      (∀ d, ss'.opponent = some d ↔ ss.opponent = some d ∧ d ≠ c) ∧
      ∀ d, d ∈ ss'.watchers ↔ d ∈ ss.watchers ∧ d ≠ c := by
  obtain ⟨hone,htwo⟩ := nodup_members.mp hnd
  unfold unseat at h
  split_ifs at h with how hop hw
  · cases h
    refine ⟨rfl,fun d => ?_,fun d => ?_,fun d => ?_⟩ <;> grind
  · cases h
    refine ⟨rfl,fun d => ?_,fun d => ?_,fun d => ?_⟩ <;> grind
  · cases h
    refine ⟨rfl,fun d => ?_,fun d => ?_,fun d => ?_⟩
    · grind
    · grind
    · simp only [OrdSet.mem_erase,and_comm]

theorem mem_unseat {ss ss' : CSession} {c d : CClientPtr} (hnd : ss.members.Nodup)
    (h : ss.unseat c = some ss') : d ∈ ss'.members ↔ d ∈ ss.members ∧ d ≠ c := by
  obtain ⟨-,how,hop,hwt⟩ := unseat_some hnd h
  simp only [mem_members,how,hop,hwt,or_and_right]

/-- Negative for a client without a seat, else the number of members left. -/
def leave (ss : CSession) (c : CClientPtr) (notier : CNotifier) : ℤ × CSession × CNotifier :=
  match ss.unseat c with
  | none => (-1,ss,notier)
  | some ss' => (ss'.members.length,ss',notier.addNotifiees ss'.members)

/-- The session with one more watcher, nothing where the places are taken. -/
def addWatcher (ss : CSession) (c : CClientPtr) : Option CSession :=
  if h : (ss.watchers.size : ℤ) ≥ ss.cfg.watcherCount then none
  else
    some { ss with
      watchers := ss.watchers.insert c
      watchers_le := by
        have h' := OrdSet.size_insert_le c ss.watchers
        omega }

theorem addWatcher_some {ss ss' : CSession} {c : CClientPtr} (h : ss.addWatcher c = some ss') :
    ss'.id = ss.id ∧ ss'.owner = ss.owner ∧ ss'.opponent = ss.opponent ∧
      ∀ d, d ∈ ss'.watchers ↔ d = c ∨ d ∈ ss.watchers := by
  unfold addWatcher at h
  split_ifs at h
  cases h
  exact ⟨rfl,rfl,rfl,fun d => OrdSet.mem_insert⟩

theorem mem_addWatcher {ss ss' : CSession} {c d : CClientPtr} (h : ss.addWatcher c = some ss') :
    d ∈ ss'.members ↔ d = c ∨ d ∈ ss.members := by
  obtain ⟨-,how,hop,hwt⟩ := addWatcher_some h
  simp only [mem_members,how,hop,hwt]
  tauto

def watch (ss : CSession) (c : CClientPtr) (notier : CNotifier) : ℤ × CSession × CNotifier :=
  match ss.addWatcher c with
  | none => (-3,ss,notier)
  | some ss' => (0,ss',notier.addNotifiees ss.members)

/-- The seat `enter` gives a client: the one opposite a player. Without a player it gives none
and still succeeds. -/
def takeSeat (ss : CSession) (c : CClientPtr) : Option CSession :=
  match ss.owner, ss.opponent with
  | some _, some _ => none
  | some _, none => some { ss with opponent := some c }
  | none, some _ => some { ss with owner := some c }
  | none, none => some ss

theorem takeSeat_some {ss ss' : CSession} {c : CClientPtr} (h : ss.takeSeat c = some ss') :
    (ss.owner ≠ none ∧ ss.opponent = none ∧ ss' = { ss with opponent := some c }) ∨
    (ss.owner = none ∧ ss.opponent ≠ none ∧ ss' = { ss with owner := some c }) ∨
    (ss.owner = none ∧ ss.opponent = none ∧ ss' = ss) := by
  unfold takeSeat at h
  cases how : ss.owner <;> cases hop : ss.opponent <;> simp_all

/-- With a player in the session the newcomer gets the other seat. -/
theorem mem_takeSeat {ss ss' : CSession} {c d : CClientPtr}
    (hplayer : ss.owner ≠ none ∨ ss.opponent ≠ none) (h : ss.takeSeat c = some ss') :
    d ∈ ss'.members ↔ d = c ∨ d ∈ ss.members := by
  rcases takeSeat_some h with ⟨-,hop,rfl⟩ | ⟨how,-,rfl⟩ | ⟨how,hop,-⟩
  · simp only [mem_members,hop,Option.some.injEq,eq_comm]
    tauto
  · simp only [mem_members,how,Option.some.injEq,eq_comm]
    tauto
  · exact absurd hplayer (by simp [how,hop])

/-- Nobody loses a seat. -/
theorem mem_takeSeat_of_mem {ss ss' : CSession} {c d : CClientPtr}
    (h : ss.takeSeat c = some ss') (hd : d ∈ ss.members) : d ∈ ss'.members := by
  by_cases hplayer : ss.owner ≠ none ∨ ss.opponent ≠ none
  · exact (mem_takeSeat hplayer h).mpr (.inr hd)
  · obtain ⟨how,hop⟩ := not_or.mp hplayer
    rcases takeSeat_some h with ⟨hne,-,-⟩ | ⟨-,hne,-⟩ | ⟨-,-,rfl⟩
    · exact absurd hne how
    · exact absurd hne hop
    · exact hd

def enter (ss : CSession) (c : CClientPtr) (notier : CNotifier) : ℤ × CSession × CNotifier :=
  match ss.takeSeat c with
  | none => (-3,ss,notier)
  | some ss' => (0,ss',notier.addNotifiees ss.members)

/-- The return value of `ready`, the clients after it and its out-parameters. -/
structure ReadyRes where
  ret : ℤ
  heap : CClientPtr → CClient
  notier : CNotifier
  redn : String
  bkn : String

def setstate (heap : CClientPtr → CClient) (c : CClientPtr) (st : CClient.State) :
    CClientPtr → CClient :=
  Function.update heap c { heap c with state := st }

/-- The states of both players and the names of the moving and the pondering one. -/
def updatePlayersState (ss : CSession) (heap : CClientPtr → CClient) (ow op : CClientPtr) :
    (CClientPtr → CClient) × String × String :=
  if ss.cfg.red = 0 then
    (setstate (setstate heap ow .stMoving) op .stPondering,(heap ow).uname,(heap op).uname)
  else
    (setstate (setstate heap ow .stPondering) op .stMoving,(heap op).uname,(heap ow).uname)

/-- The part of `ready` for a seated player whose opposite seat is `other`. -/
def readyAgainst (ss : CSession) (heap : CClientPtr → CClient) (ow op : CClientPtr)
    (other : CClientPtr) (notier : CNotifier) : ReadyRes :=
  let notier := (notier.addNotifiee other).addNotifiees ss.watchers.toList
  if (heap other).state = .stReady then
    let started := ss.updatePlayersState heap ow op
    ⟨1,started.1,notier,started.2.1,started.2.2⟩
  else ⟨0,heap,notier,"",""⟩

def ready (ss : CSession) (heap : CClientPtr → CClient) (c : CClientPtr) (notier : CNotifier) :
    Checked ReadyRes :=
  let heap := setstate heap c .stReady
  if ss.owner = some c then
    match ss.opponent with
    | none => .ok ⟨0,heap,notier.addNotifiees ss.watchers.toList,"",""⟩
    | some op => .ok (ss.readyAgainst heap c op op notier)
  else if ss.opponent = some c then
    match ss.owner with
    | none => .ok ⟨0,heap,notier.addNotifiees ss.watchers.toList,"",""⟩
    | some ow => .ok (ss.readyAgainst heap ow c ow notier)
  else .error .readySeated

open CXmlMsg in
def toXml (ss : CSession) (uname : CClientPtr → String) : CXmlNode :=
  let nd := CXmlNode.create xmlTagSession
  let nd := addIntParameter nd xmlTagId ss.id
  let nd := addParameter nd xmlTagDescription ss.cfg.des
  let nd := addParameter nd xmlTagFen ss.cfg.fen
  let nd := addIntParameter nd xmlTagRed ss.cfg.red
  let nd := addIntParameter nd xmlTagInnings ss.cfg.innings
  let nd := addIntParameter nd xmlTagRule ss.cfg.rule
  let nd := addIntParameter nd xmlTagTotalTime ss.cfg.totalTime
  let nd := addIntParameter nd xmlTagStepTime ss.cfg.stepTime
  let nd := addIntParameter nd xmlTagBonusPerStep ss.cfg.bonusPerStep
  let nd := addIntParameter nd xmlTagRequiredScore ss.cfg.requiredScore
  let nd := addIntParameter nd xmlTagAnte ss.cfg.ante
  let nd := addIntParameter nd xmlTagMaxWatcherCount ss.cfg.watcherCount
  let nd := ss.owner.elim nd (fun ow => addParameter nd xmlTagOwner (uname ow))
  let nd := ss.opponent.elim nd (fun op => addParameter nd xmlTagOpponent (uname op))
  let wt := ss.watchers.toList.foldl
    (fun wt w => addParameter wt xmlTagUserName (uname w)) (CXmlNode.create xmlTagWatchers)
  nd.addChild wt

end CSession
end CcniServer
