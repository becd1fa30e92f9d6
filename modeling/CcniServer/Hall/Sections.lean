import CcniServer.Hall.Asserts
import CcniServer.Lib.Writes

/-!
The hall under interleaved threads. The thread that works for a client runs one critical section
at a time, of a room, of its sessions or of the registry, and writes the fields of its own client
afterwards, one by one and outside every section. Only `CSession::ready` writes another client's
state, inside the section.
-/
namespace CcniServer

/-- A write to a field of the own client. -/
inductive Field
  | state (st : CClient.State)
  | roomid (r : ℤ)
  | sessionid (k : ℤ)
  | ctsk (served : Bool)
  deriving DecidableEq

def Member.write : Field → Member → Member
  | .state st, m => { m with state := st }
  | .roomid r, m => { m with roomid := r }
  | .sessionid k, m => { m with sessionid := k }
  | .ctsk served, m => { m with ctsk := served }

/-- The hall once every client has made the writes that are still to be made. -/
def Hall.settle (h : Hall) (todo : CClientPtr → List Field) : Hall :=
  { h with member := Writes.settle Member.write h.member todo }

/-- The operations of a thread. `createSession` is two of them: it looks for the client in the
user list and collects the recipients, then it makes the session and stores it. The last three
are those of `doWork` after an I/O error. -/
inductive Instr
  | enterRoom (rid : ℤ)
  | leaveRoom
  | collect
  | store
  | enterSession (sid : ℤ)
  | leaveSession
  | watchSession (sid : ℤ)
  | ready
  | listSessions
  | dropSession
  | dropRoom
  | delClient

namespace Instr

/-- `CRoom::leave`, and what the client writes after it. -/
def runLeaveRoom (h : Hall) (c : CClientPtr) : Checked (Hall × List Field) := do
  let some rm := h.rooms.find? (h.member c).roomid | throw .leaveRoomFound
  let some rm := rm.dismiss c | throw .leaveRoomLeft
  return (h.setRoom (h.member c).roomid rm,[.state .stOnline,.roomid (-1)])

/-- `CRoom::leaveSession`, and what the client writes after it. -/
def runLeaveSession (h : Hall) (c : CClientPtr) : Checked (Hall × List Field) := do
  ASSERT .leaveSessionState
    ((h.member c).ctsk ∧ (h.member c).roomid > 0 ∧ (h.member c).sessionid > 0)
  let some rm := h.rooms.find? (h.member c).roomid | throw .leaveSessionFound
  let k := Scan.toUInt32 (h.member c).sessionid
  let some ss := rm.sessions.find? k | throw .leaveSessionListed
  let some ss := ss.unseat c | throw .leaveSessionSeated
  return (h.setRoom (h.member c).roomid (Hall.putSession rm k ss),
    [.state .stIdle,.sessionid (-1)])

/-- `CRoom::enterSession` and `CRoom::watchSession`: the writes follow where there was a place. -/
def runJoin (h : Hall) (c : CClientPtr) (sid : ℤ) (stateSite foundSite : Assertion)
    (join : CSession → Option CSession) (st : CClient.State) : Checked (Hall × List Field) := do
  ASSERT stateSite ((h.member c).ctsk ∧ (h.member c).roomid > 0 ∧ (h.member c).sessionid < 0)
  let some rm := h.rooms.find? (h.member c).roomid | throw foundSite
  match (rm.sessions.find? (Scan.toUInt32 sid)).bind join with
  | none => return (h,[])
  | some ss =>
    return (h.setRoom (h.member c).roomid (rm.setSession (Scan.toUInt32 sid) ss),
      [.state st,.sessionid sid])

/-- One operation up to the end of its critical section, and the writes that are to follow. The
unsynchronised counter of `genid` may hold any number when the session is made. -/
def run (h : Hall) (c : CClientPtr) (seed : Fin 20000) : Instr → Checked (Hall × List Field)
  | .enterRoom rid =>
    if (h.member c).state ≠ .stOnline ∨ (h.member c).ctsk = false then return (h,[])
    else
      match (h.rooms.find? rid).bind (fun rm => rm.addUser c) with
      | none => return (h,[])
      | some rm => return (h.setRoom rid rm,[.state .stIdle,.roomid rid])
  | .leaveRoom => do
    ASSERT .doLeaveRoomState ((h.member c).roomid > 0)
    runLeaveRoom h c
  | .collect => do
    ASSERT .createSessionState
      ((h.member c).state = .stIdle ∧ (h.member c).ctsk ∧ (h.member c).roomid > 0)
    let some rm := h.rooms.find? (h.member c).roomid | throw .createSessionFound
    ASSERT .createSessionInRoom (c ∈ rm.usrlist)
    return (h,[])
  | .store => do
    -- the room is the one that was found for the recipients: rooms are never removed
    let some rm := h.rooms.find? (h.member c).roomid | throw .createSessionFound
    let gen := CSession.genid seed
    return ({ h.setRoom (h.member c).roomid
        (rm.setSession gen.2 (CSession.new c .create gen.2)) with idseed := gen.1 },
      [.state .stSessional,.sessionid gen.2])
  | .enterSession sid =>
    runJoin h c sid .enterSessionState .enterSessionFound (fun ss => ss.takeSeat c) .stSessional
  | .leaveSession => runLeaveSession h c
  | .watchSession sid =>
    runJoin h c sid .watchSessionState .watchSessionFound (fun ss => ss.addWatcher c) .stWatching
  | .ready => do
    ASSERT .doReadyState
      ((h.member c).ctsk ∧ (h.member c).roomid > 0 ∧ (h.member c).sessionid > 0)
    let some rm := h.rooms.find? (h.member c).roomid | throw .doReadyFound
    let some ss := rm.sessions.find? (Scan.toUInt32 (h.member c).sessionid)
      | throw .doReadyReturned
    let some m := Hall.readyMembers ss h.member c | throw .readySeated
    return ({ h with member := m },[])
  | .listSessions => do
    ASSERT .doListSessionsState ((h.member c).roomid > 0)
    let some _ := h.rooms.find? (h.member c).roomid | throw .doListSessionsFound
    return (h,[])
  | .dropSession => if (h.member c).sessionid > 0 then runLeaveSession h c else return (h,[])
  | .dropRoom => if (h.member c).roomid > 0 then runLeaveRoom h c else return (h,[])
  | .delClient =>
    return ({ h with list := h.list.erase (h.member c).uname },[.state .stOffline,.ctsk false])

/-- The operations of a handler. -/
def ofHandler (msg : CXmlNode) : CClient.Msghnd → List Instr
  | .doEnterRoom => [.enterRoom (CClient.idOf msg)]
  | .doLeaveRoom => [.leaveRoom]
  | .doNewSession => [.collect,.store]
  | .doEnterSession => [.enterSession (CClient.idOf msg)]
  | .doLeaveSession => [.leaveSession]
  | .doWatchSession => [.watchSession (CClient.idOf msg)]
  | .doReady => [.ready]
  | .doListSessions => [.listSessions]
  | _ => []

/-- The operations of `doWork` after an I/O error. -/
def ofBreak : List Instr := [.dropSession,.dropRoom,.delClient]

end Instr

/-- The hall with the work of every client's thread: the writes still to be made to the own
fields, and the operations left of the request or of the broken line. -/
structure Workers where
  hall : Hall
  todo : CClientPtr → List Field
  code : CClientPtr → List Instr

/-- What can happen next: a login registers a new client, a thread takes up a request or a broken
line of its client, or it goes one step on. -/
inductive Turn
  | login (c : CClientPtr) (uname : String)
  | request (c : CClientPtr) (msg : CXmlNode)
  | broken (c : CClientPtr)
  | go (c : CClientPtr) (seed : Fin 20000)

/-- Operations as they would run in one piece. -/
inductive Op
  | login (c : CClientPtr) (uname : String)
  | instr (c : CClientPtr) (seed : Fin 20000) (i : Instr)

namespace Workers

def create (cfgs : List CRoomConfig) : Workers :=
  ⟨(CEngine.create cfgs).hall,fun _ => [],fun _ => []⟩

/-- No thread works for the client. -/
def Resting (s : Workers) (c : CClientPtr) : Prop := s.todo c = [] ∧ s.code c = []

instance (s : Workers) (c : CClientPtr) : Decidable (s.Resting c) :=
  inferInstanceAs (Decidable (_ ∧ _))

/-- Whether the table lets a handler begin, by the state that the thread reads. -/
def Admits (s : Workers) (c : CClientPtr) (msg : CXmlNode) : Prop :=
  s.Resting c ∧ (s.hall.member c).ctsk = true ∧ msg.isElement = true ∧
    (s.hall.member c).state.isIn (CClient.findHnd msg.name).vstate = true

instance (s : Workers) (c : CClientPtr) (msg : CXmlNode) : Decidable (s.Admits c msg) :=
  inferInstanceAs (Decidable (_ ∧ _))

/-- The section of `addClient` for an object that nobody else has seen; the task is made after
it. A name in use drops the object. -/
def register (s : Workers) (c : CClientPtr) (uname : String) : Workers :=
  match s.hall.list.find? uname with
  | some _ => s
  | none =>
    { s with
      hall := { s.hall.setMember c ⟨.stOnline,uname,-1,-1,false⟩ with
        list := s.hall.list.insert uname c }
      todo := Function.update s.todo c [.ctsk true] }

def load (s : Workers) (c : CClientPtr) (code : List Instr) : Workers :=
  { s with code := Function.update s.code c code }

/-- The next write of a thread, or else its next operation. -/
def go (s : Workers) (c : CClientPtr) (seed : Fin 20000) : Checked Workers :=
  match s.todo c with
  | w :: ws =>
    .ok { s with
      hall := s.hall.setMember c (Member.write w (s.hall.member c))
      todo := Function.update s.todo c ws }
  | [] =>
    match s.code c with
    | [] => .ok s
    | i :: is => do
      let res ← i.run s.hall c seed
      return ⟨res.1,Function.update s.todo c res.2,Function.update s.code c is⟩

def step (s : Workers) : Turn → Checked Workers
  | .login c uname =>
    if s.Resting c ∧ (s.hall.member c).ctsk = false then .ok (s.register c uname) else .ok s
  | .request c msg =>
    if s.Admits c msg then
      .ok (s.load c (Instr.ofHandler msg (CClient.findHnd msg.name).fn))
    else .ok s
  | .broken c =>
    if s.Resting c ∧ (s.hall.member c).ctsk = true then .ok (s.load c Instr.ofBreak) else .ok s
  | .go c seed => s.go c seed

def run (s : Workers) (ts : List Turn) : Checked Workers := Lts.exec step s ts

/-- The operation whose critical section a turn runs. -/
def op (s : Workers) : Turn → Option Op
  | .login c uname =>
    if s.Resting c ∧ (s.hall.member c).ctsk = false then some (.login c uname) else none
  | .go c seed =>
    match s.todo c, s.code c with
    | [], i :: _ => some (.instr c seed i)
    | _, _ => none
  | _ => none

/-- The operations that a turn gives a thread to run. -/
def asked (s : Workers) : Turn → Option (CClientPtr × List Instr)
  | .request c msg =>
    if s.Admits c msg then some (c,Instr.ofHandler msg (CClient.findHnd msg.name).fn) else none
  | .broken c =>
    if s.Resting c ∧ (s.hall.member c).ctsk = true then some (c,Instr.ofBreak) else none
  | _ => none

/-- The hall once every thread has made the writes that follow its last section. -/
def settled (s : Workers) : Hall := s.hall.settle s.todo

end Workers
end CcniServer
