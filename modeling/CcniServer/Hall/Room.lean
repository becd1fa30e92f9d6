import CcniServer.Hall.Session

/-! Rooms: a bounded set of users and the live sessions by their ids. -/
namespace CcniServer

/-- The configuration of a room. Its id comes from a counter that starts at one or from a
positive number of the configuration file, both of type `int`. -/
structure CRoomConfig where
  id : ℕ
  capacity : ℕ
  description : String
  id_pos : 0 < id
  id_lt : id < 2^31

/-- The id that the counter hands out first is a valid one. -/
theorem CRoomConfig.one_lt : 1 < 2^31 := by
  decide

structure CRoom where
  cfg : CRoomConfig
  usrlist : OrdSet CClientPtr
  sessions : OrdMap ℕ CSession
  usrlist_le : usrlist.size ≤ cfg.capacity

namespace CRoom

def new (cfg : CRoomConfig) : CRoom where
  cfg := cfg
  usrlist := OrdSet.empty
  sessions := OrdMap.empty
  usrlist_le := Nat.zero_le _

/-- The room with one more user, nothing where it is full or the client is in it. -/
def addUser (rm : CRoom) (c : CClientPtr) : Option CRoom :=
  if h : rm.usrlist.size ≥ rm.cfg.capacity then none
  else if c ∈ rm.usrlist then none
  else
    some { rm with
      usrlist := rm.usrlist.insert c
      usrlist_le := by
        have h' := OrdSet.size_insert_le c rm.usrlist
        omega }

theorem addUser_some {rm rm' : CRoom} {c : CClientPtr} (h : rm.addUser c = some rm') :
    rm'.cfg = rm.cfg ∧ rm'.sessions = rm.sessions ∧
      ∀ d, d ∈ rm'.usrlist ↔ d = c ∨ d ∈ rm.usrlist := by
  unfold addUser at h
  split_ifs at h
  cases h
  exact ⟨rfl,rfl,fun d => OrdSet.mem_insert⟩

def enter (rm : CRoom) (heap : CClientPtr → CClient) (c : CClientPtr) (bd : CBroadCaster) :
    Bool × CRoom × CBroadCaster :=
  match rm.addUser c with
  | none => (false,rm,bd)
  | some rm' => (true,rm',bd.insertaddrs heap (rm'.usrlist.toList.filter (fun u => u ≠ c)))

/-- The room without a client that was in it. -/
def dismiss (rm : CRoom) (c : CClientPtr) : Option CRoom :=
  if c ∈ rm.usrlist then
    some { rm with
      usrlist := rm.usrlist.erase c
      usrlist_le := (OrdSet.size_erase_le c rm.usrlist).trans rm.usrlist_le }
  else none

theorem dismiss_some {rm rm' : CRoom} {c : CClientPtr} (h : rm.dismiss c = some rm') :
    c ∈ rm.usrlist ∧ rm'.cfg = rm.cfg ∧ rm'.sessions = rm.sessions ∧
      ∀ d, d ∈ rm'.usrlist ↔ d ≠ c ∧ d ∈ rm.usrlist := by
  unfold dismiss at h
  split_ifs at h with hin
  cases h
  exact ⟨hin,rfl,rfl,fun d => OrdSet.mem_erase⟩

def leave (rm : CRoom) (heap : CClientPtr → CClient) (c : CClientPtr) (bd : CBroadCaster) :
    Bool × CRoom × CBroadCaster :=
  match rm.dismiss c with
  | none => (false,rm,bd)
  | some rm' => (true,rm',bd.insertaddrs heap rm'.usrlist.toList)

def setSession (rm : CRoom) (k : ℕ) (ss : CSession) : CRoom :=
  { rm with sessions := rm.sessions.insert k ss }

def eraseSession (rm : CRoom) (k : ℕ) : CRoom := { rm with sessions := rm.sessions.erase k }

/-- The new session, the room that stores it under its id and the counter of `genid`. -/
def createSession (rm : CRoom) (heap : CClientPtr → CClient) (c : CClientPtr)
    (cfg : CSessionConfig) (bd : CBroadCaster) (idseed : ℕ) :
    Checked (CSession × CRoom × CBroadCaster × ℕ) := do
  ASSERT .createSessionInRoom (c ∈ rm.usrlist)
  let bd := bd.insertaddrs heap (rm.usrlist.toList.filter (fun u => u ≠ c))
  let gen := CSession.genid idseed
  let ss := CSession.new c cfg gen.2
  return (ss,rm.setSession ss.id ss,bd,gen.1)

/-- An emptied session is erased and announced to every user of the room. -/
def leaveSession (rm : CRoom) (heap : CClientPtr → CClient) (sid : ℤ) (c : CClientPtr)
    (noti : CNotifier) (bd : CBroadCaster) : Checked (CRoom × CNotifier × CBroadCaster) := do
  let k := Scan.toUInt32 sid
  let some ss := rm.sessions.find? k | throw .leaveSessionListed
  let left := ss.leave c noti
  ASSERT .leaveSessionSeated (left.1 ≥ 0)
  if left.1 = 0 then
    return (rm.eraseSession k,left.2.2,bd.insertaddrs heap rm.usrlist.toList)
  else
    return (rm.setSession k left.2.1,left.2.2,bd)

def enterSession (rm : CRoom) (sid : ℤ) (c : CClientPtr) (noti : CNotifier) :
    ℤ × CRoom × CNotifier :=
  let k := Scan.toUInt32 sid
  match rm.sessions.find? k with
  | none => (-2,rm,noti)
  | some ss =>
    let entered := ss.enter c noti
    (entered.1,rm.setSession k entered.2.1,entered.2.2)

def watchSession (rm : CRoom) (sid : ℤ) (c : CClientPtr) (noti : CNotifier) :
    ℤ × CRoom × CNotifier :=
  let k := Scan.toUInt32 sid
  match rm.sessions.find? k with
  | none => (-2,rm,noti)
  | some ss =>
    let watched := ss.watch c noti
    (watched.1,rm.setSession k watched.2.1,watched.2.2)

theorem enterSession_of_none {rm : CRoom} {sid : ℤ} {c : CClientPtr}
    (h : (rm.sessions.find? (Scan.toUInt32 sid)).bind (fun ss => ss.takeSeat c) = none)
    (noti : CNotifier) : (rm.enterSession sid c noti).1 < 0 := by
  cases hss : rm.sessions.find? (Scan.toUInt32 sid) with
  | none =>
    simp only [enterSession,hss]
    decide
  | some ss =>
    have hts : ss.takeSeat c = none := by simpa only [hss,Option.bind_some] using h
    simp only [enterSession,hss,CSession.enter,hts]
    decide

theorem enterSession_of_some {rm : CRoom} {sid : ℤ} {c : CClientPtr} {ss' : CSession}
    (h : (rm.sessions.find? (Scan.toUInt32 sid)).bind (fun ss => ss.takeSeat c) = some ss')
    (noti : CNotifier) : (rm.enterSession sid c noti).1 = 0 ∧
      (rm.enterSession sid c noti).2.1 = rm.setSession (Scan.toUInt32 sid) ss' := by
  obtain ⟨ss,hss,hts⟩ := Option.bind_eq_some_iff.mp h
  simp only [enterSession,hss,CSession.enter,hts,and_self]

theorem watchSession_of_none {rm : CRoom} {sid : ℤ} {c : CClientPtr}
    (h : (rm.sessions.find? (Scan.toUInt32 sid)).bind (fun ss => ss.addWatcher c) = none)
    (noti : CNotifier) : (rm.watchSession sid c noti).1 < 0 := by
  cases hss : rm.sessions.find? (Scan.toUInt32 sid) with
  | none =>
    simp only [watchSession,hss]
    decide
  | some ss =>
    have hts : ss.addWatcher c = none := by simpa only [hss,Option.bind_some] using h
    simp only [watchSession,hss,CSession.watch,hts]
    decide

theorem watchSession_of_some {rm : CRoom} {sid : ℤ} {c : CClientPtr} {ss' : CSession}
    (h : (rm.sessions.find? (Scan.toUInt32 sid)).bind (fun ss => ss.addWatcher c) = some ss')
    (noti : CNotifier) : (rm.watchSession sid c noti).1 = 0 ∧
      (rm.watchSession sid c noti).2.1 = rm.setSession (Scan.toUInt32 sid) ss' := by
  obtain ⟨ss,hss,hts⟩ := Option.bind_eq_some_iff.mp h
  simp only [watchSession,hss,CSession.watch,hts,and_self]

def ready (rm : CRoom) (heap : CClientPtr → CClient) (sid : ℤ) (c : CClientPtr)
    (noti : CNotifier) : Checked CSession.ReadyRes :=
  match rm.sessions.find? (Scan.toUInt32 sid) with
  | none => .ok ⟨-2,heap,noti,"",""⟩
  | some ss => ss.ready heap c noti

def xmlSessionList (rm : CRoom) (uname : CClientPtr → String) : CXmlNode :=
  rm.sessions.entries.foldl (fun nd e => nd.addChild (e.2.toXml uname))
    (CXmlNode.create xmlTagSessions)

open CXmlMsg in
def toXml (rm : CRoom) : CXmlNode :=
  let nd := CXmlNode.create xmlTagRoom
  let nd := addIntParameter nd xmlTagCapacity rm.cfg.capacity
  let nd := addParameter nd xmlTagDescription rm.cfg.description
  let nd := addIntParameter nd xmlTagId rm.cfg.id
  addIntParameter nd xmlTagUserCount rm.usrlist.size

end CRoom
end CcniServer
