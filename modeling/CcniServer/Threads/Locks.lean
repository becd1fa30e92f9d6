import CcniServer.Hall.Handlers
import CcniServer.Lib.LockOrder

/-!
The mutexes of the server and what each function does with them. A function is the language of its
locks and releases, over all rooms, sessions, clients and sockets it may find; `CAutoMutex` is a
scope. Where a failed `ASSERT` ends the process, the function goes on here.
-/
namespace CcniServer.Locks
open LockOrder Computability

inductive Queue
  | pool
  | log
  deriving DecidableEq

inductive Mutex
  | CClient_iolk (c : CClientPtr)
  | CRoom_lk (roomid : ℤ)
  | CRoom_slk (roomid : ℤ)
  | CSession_lk (session : ℕ)
  | CDataMgr_listlk
  | CUserListener_lk
  | CUdpSockData_lk (udp : CUdpSockDataPtr)
  | CCMsgQueue_evt (queue : Queue)
  | CThreadsPool_event
  | CWorkThread_event (w : ℕ)
  | CSecKeyMap_lk
  | genSecret_mu
  | CDataBase_lk
  deriving DecidableEq

open Mutex

abbrev Prog := Code Mutex

/-! ### Queues and the log -/

namespace CCMsgQueue

def send (q : Queue) : Prog := scope (CCMsgQueue_evt q) 1

def receive (q : Queue) : Prog := scope (CCMsgQueue_evt q) (wait (CCMsgQueue_evt q))∗

def getMsgCnt (q : Queue) : Prog := scope (CCMsgQueue_evt q) 1

end CCMsgQueue

/-- A record of a level that is not logged is dropped. -/
def CLog.print : Prog := 1 + CCMsgQueue.send .log

/-- The records of a stretch of code, those of a destructor at its end included. -/
def logs : Prog := CLog.print∗

def CLog.thread_func : Prog := (CCMsgQueue.receive .log)∗

/-! ### The hall -/

namespace CSession

def leave (ss : ℕ) : Prog := scope (CSession_lk ss) logs

def watch (ss : ℕ) : Prog := scope (CSession_lk ss) 1

def enter (ss : ℕ) : Prog := scope (CSession_lk ss) 1

def ready (ss : ℕ) : Prog := logs * scope (CSession_lk ss) logs

def toXml (ss : ℕ) : Prog := scope (CSession_lk ss) 1

end CSession

namespace CRoom

def enter (rm : ℤ) : Prog := scope (CRoom_lk rm) 1

def leave (rm : ℤ) : Prog := scope (CRoom_lk rm) 1

def createSession (rm : ℤ) : Prog := scope (CRoom_lk rm) logs * scope (CRoom_slk rm) 1

def leaveSession (rm : ℤ) : Prog :=
  scope (CRoom_slk rm) (logs * (⨆ ss, CSession.leave ss) * logs)

def enterSession (rm : ℤ) : Prog := scope (CRoom_slk rm) (1 + ⨆ ss, CSession.enter ss)

def watchSession (rm : ℤ) : Prog := scope (CRoom_slk rm) (1 + ⨆ ss, CSession.watch ss)

def ready (rm : ℤ) : Prog := scope (CRoom_slk rm) (1 + ⨆ ss, CSession.ready ss)

def xmlSessionList (rm : ℤ) : Prog := scope (CRoom_slk rm) (⨆ ss, CSession.toXml ss)∗

def toXml (rm : ℤ) : Prog := scope (CRoom_lk rm) 1

end CRoom

namespace CDataMgr

def xmlRoomList : Prog := (⨆ rm, CRoom.toXml rm)∗

def userCount : Prog := scope CDataMgr_listlk 1

def findClient : Prog := scope CDataMgr_listlk 1

def addClient : Prog := scope CDataMgr_listlk 1

def delClient : Prog := scope CDataMgr_listlk logs

end CDataMgr

namespace CThreadsPool

def assign : Prog := CCMsgQueue.send .pool

def getBusyCount : Prog := scope CThreadsPool_event 1

def getQueuedJobs : Prog := CCMsgQueue.getMsgCnt .pool

def moveToIdleList : Prog := scope CThreadsPool_event logs

end CThreadsPool

/-! ### Clients -/

namespace CClient

def addToEpoll : Prog := logs

def rmFromEpoll : Prog := logs

end CClient

def CUserListener.assign : Prog := scope CUserListener_lk CClient.addToEpoll

namespace CClient

def consumeBdsAndNotis : Prog :=
  (1 + logs * CThreadsPool.assign) * (1 + logs * CThreadsPool.assign)

def enterRoom (rid : ℤ) : Prog := 1 + CRoom.enter rid * logs

def leaveRoom : Prog := logs * (⨆ rm, CRoom.leave rm) * logs

def createSession : Prog :=
  logs * (⨆ rm, CRoom.createSession rm) * logs * (1 + logs * ⨆ ss, CSession.toXml ss)

def leaveSession : Prog := logs * (⨆ rm, CRoom.leaveSession rm) * logs

def watchSession : Prog := logs * (⨆ rm, CRoom.watchSession rm) * logs

def enterSession : Prog := logs * (⨆ rm, CRoom.enterSession rm) * logs

/-- The handlers. -/
def Msghnd.run : CClient.Msghnd → Prog
  | .doEnterRoom => logs * (⨆ rid, enterRoom rid) * logs
  | .doLeaveRoom => logs * leaveRoom * logs
  | .doNewSession => logs * createSession * logs
  | .doListSessions => logs * ⨆ rm, CRoom.xmlSessionList rm
  | .doEnterSession => logs * enterSession * logs
  | .doLeaveSession => leaveSession * logs
  | .doWatchSession => logs * watchSession * logs
  | .doReady =>
    logs * (⨆ rm, CRoom.ready rm) * logs * (1 + logs * (1 + CThreadsPool.assign)) * logs
  | .doListRooms => CDataMgr.xmlRoomList
  | .doLogout => logs
  | .doCCNI | .doMyState | .doMove | .doDraw | .doGiveUp | .doSendMessages | .doUnknow => 1

/-- The message after the last one that is taken is refused or ends the batch. -/
def procMsgs : Prog :=
  ((⨆ h, Msghnd.run h) * consumeBdsAndNotis)∗ * (1 + logs + ⨆ h, Msghnd.run h) * logs

def donotify : Prog := logs

def dosend : Prog := logs * (1 + donotify)

/-- The messages are handled here, though the test before them always returns. -/
def doread : Prog := logs * (1 + procMsgs * dosend)

/-- What `doWork` does with a client whose connection is broken. -/
def disconnect : Prog :=
  (1 + leaveSession * consumeBdsAndNotis) * (1 + leaveRoom * consumeBdsAndNotis) *
    CDataMgr.delClient * logs * CDataMgr.userCount * logs

def doWork (c : CClientPtr) : Prog :=
  scope (CClient_iolk c)
    ((doread + dosend + donotify + logs) * (CUserListener.assign + disconnect) * logs) * logs

def queueNotification (c : CClientPtr) : Prog :=
  scope (CClient_iolk c) (1 + rmFromEpoll * donotify * CUserListener.assign)

end CClient

/-! ### Jobs -/

def CNotifier.run : Prog := logs * (⨆ c, CClient.queueNotification c)∗ * logs

def CUdpSockData.sendto (udp : CUdpSockDataPtr) : Prog := scope (CUdpSockData_lk udp) 1

def CBroadCaster.run : Prog := logs * ((⨆ udp, CUdpSockData.sendto udp) * logs)∗

namespace CSecKeyMap

def size : Prog := scope CSecKeyMap_lk 1

def insert : Prog := scope CSecKeyMap_lk 1

def verifykey : Prog := scope CSecKeyMap_lk 1

def remove : Prog := scope CSecKeyMap_lk 1

def genSecret : Prog := scope genSecret_mu 1

end CSecKeyMap

namespace CDataBase

def open_ : Prog := scope CDataBase_lk logs

def verifyUser : Prog := scope CDataBase_lk logs

end CDataBase

namespace CTcpJob

def doLogin : Prog :=
  logs * (1 + CDataMgr.findClient * logs * (1 + CDataBase.verifyUser * logs *
    CDataMgr.addClient * logs * (1 + CUserListener.assign * logs * CDataMgr.userCount * logs)))

def run : Prog := logs * CSecKeyMap.verifykey * logs * (1 + doLogin * logs)

end CTcpJob

def CUdpJob.run (udp : CUdpSockDataPtr) : Prog :=
  logs * CSecKeyMap.genSecret * logs * CSecKeyMap.insert * logs *
    (1 + CSecKeyMap.size * logs * CUdpSockData.sendto udp * logs * (1 + CSecKeyMap.remove))

/-- `CJob` with its classes. -/
inductive CJob
  | client (c : CClientPtr)
  | notifier
  | broadCaster
  | tcp
  | udp (sock : CUdpSockDataPtr)

def CJob.run : CJob → Prog
  | client c => CClient.doWork c
  | notifier => CNotifier.run
  | broadCaster => CBroadCaster.run
  | tcp => CTcpJob.run
  | udp sock => CUdpJob.run sock

/-! ### Threads -/

namespace CWorkThread

def run (w : ℕ) : Prog := scope (CWorkThread_event w) 1

def doWork (w : ℕ) : Prog :=
  (scope (CWorkThread_event w) (1 + wait (CWorkThread_event w)) *
    (⨆ j, CJob.run j) * CThreadsPool.moveToIdleList)∗

end CWorkThread

def CThreadsPool.doWork : Prog :=
  (CCMsgQueue.receive .pool * (1 + scope CThreadsPool_event (1 + wait CThreadsPool_event) *
    ⨆ w, CWorkThread.run w))∗

def CUserListener.doWork : Prog := (logs * (1 + CClient.rmFromEpoll * CThreadsPool.assign))∗

def CTcpListener.doWork : Prog := (logs * (1 + CThreadsPool.assign))∗

def CUdpListener.doWork : Prog := (logs * (1 + CThreadsPool.assign))∗

def CEngine.create : Prog := logs * CDataBase.open_ * logs

def CCmder.dowork : Prog :=
  (logs * (1 + CThreadsPool.getBusyCount * CThreadsPool.getQueuedJobs))∗

/-- The threads of the server, any number of workers and user listeners among them. -/
inductive Thread
  | main
  | logger
  | pool
  | worker (w : ℕ)
  | tcpListener
  | udpListener
  | usrListener (i : ℕ)
  deriving DecidableEq

def Thread.code : Thread → Prog
  | main => CEngine.create * CCmder.dowork
  | logger => CLog.thread_func
  | pool => CThreadsPool.doWork
  | worker w => CWorkThread.doWork w
  | tcpListener => CTcpListener.doWork
  | udpListener => CUdpListener.doWork
  | usrListener _ => CUserListener.doWork

/-! ### The order of the mutexes -/

/-- A client's mutex comes first and that of the log last; a session's comes after its room's. -/
def rank : Mutex → ℕ
  | CClient_iolk _ => 0
  | CSession_lk _ => 2
  | CCMsgQueue_evt .log => 3
  | _ => 1

theorem rank_lt_four (l : Mutex) : rank l < 4 := by
  unfold rank
  split <;> decide

theorem keeps_receive (q : Queue) : Keeps rank 0 (CCMsgQueue.receive q) :=
  keeps_waits (Nat.zero_le _) fun _ hh => (passes_wait hh).kstar

theorem keeps_event {l : Mutex} : Keeps rank 0 (scope l (1 + wait l)) :=
  keeps_waits (Nat.zero_le _) fun _ hh => passes_one.add (passes_wait hh)

/-- Most functions lock one mutex. -/
theorem keeps_single {r : ℕ} {l : Mutex} (hr : r ≤ rank l) : Keeps rank r (scope l 1) :=
  keeps_scope hr keeps_one

/-- Whatever is held, a thread can log. -/
theorem keeps_logs {r : ℕ} (hr : r ≤ 3) : Keeps rank r logs := by
  apply Keeps.kstar
  apply keeps_one.add
  exact keeps_single hr

theorem keeps_logged {r : ℕ} {l : Mutex} (hr : r ≤ rank l) (hl : rank l < 3) :
    Keeps rank r (scope l logs) := keeps_scope hr (keeps_logs hl)

theorem CThreadsPool.keeps_assign {r : ℕ} (hr : r ≤ 1) : Keeps rank r CThreadsPool.assign :=
  keeps_single hr

theorem CUserListener.keeps_assign {r : ℕ} (hr : r ≤ 1) : Keeps rank r CUserListener.assign :=
  keeps_logged hr (by decide)

/-! Under a client's mutex. -/

section
variable (rm : ℤ) (ss : ℕ)

theorem CSession.keeps_toXml {r : ℕ} (hr : r ≤ 2) : Keeps rank r (CSession.toXml ss) :=
  keeps_single hr

theorem CRoom.keeps_createSession : Keeps rank 1 (CRoom.createSession rm) := by
  apply Keeps.mul
  · exact keeps_logged le_rfl (by decide : 1 < 3)
  · exact keeps_single le_rfl

theorem CRoom.keeps_leaveSession : Keeps rank 1 (CRoom.leaveSession rm) := by
  have hlog : Keeps rank 2 logs := keeps_logs (by decide)
  have hleave : ∀ ss, Keeps rank 2 (CSession.leave ss) := fun ss =>
    keeps_logged le_rfl (by decide : 2 < 3)
  apply keeps_scope (l := CRoom_slk rm) le_rfl
  exact (hlog.mul (keeps_iSup hleave)).mul hlog

/-- One session is found in the room, or none. -/
theorem CRoom.keeps_found {F : ℕ → Prog} (hF : ∀ ss, Keeps rank 2 (F ss)) :
    Keeps rank 1 (scope (CRoom_slk rm) (1 + ⨆ ss, F ss)) := by
  apply keeps_scope (l := CRoom_slk rm) le_rfl
  exact keeps_one.add (keeps_iSup hF)

theorem CRoom.keeps_enterSession : Keeps rank 1 (CRoom.enterSession rm) :=
  CRoom.keeps_found rm fun _ => keeps_single le_rfl

theorem CRoom.keeps_watchSession : Keeps rank 1 (CRoom.watchSession rm) :=
  CRoom.keeps_found rm fun _ => keeps_single le_rfl

theorem CRoom.keeps_ready : Keeps rank 1 (CRoom.ready rm) := by
  apply CRoom.keeps_found
  intro ss
  apply (keeps_logs (by decide)).mul
  exact keeps_logged le_rfl (by decide : 2 < 3)

theorem CRoom.keeps_xmlSessionList : Keeps rank 1 (CRoom.xmlSessionList rm) := by
  apply keeps_scope (l := CRoom_slk rm) le_rfl
  exact (keeps_iSup fun ss => CSession.keeps_toXml ss le_rfl).kstar

end

theorem CDataMgr.keeps_xmlRoomList : Keeps rank 1 CDataMgr.xmlRoomList := by
  apply Keeps.kstar
  exact keeps_iSup fun _ => keeps_single le_rfl

namespace CClient

theorem keeps_logs_one : Keeps rank 1 logs := keeps_logs (by decide)

/-- The operations on a room log before and after. -/
theorem keeps_between_logs {F : ℤ → Prog} (hF : ∀ rm, Keeps rank 1 (F rm)) :
    Keeps rank 1 (logs * (⨆ rm, F rm) * logs) :=
  (keeps_logs_one.mul (keeps_iSup hF)).mul keeps_logs_one

theorem keeps_consumeBdsAndNotis : Keeps rank 1 consumeBdsAndNotis := by
  have hassign : Keeps rank 1 (1 + logs * CThreadsPool.assign) :=
    keeps_one.add (keeps_logs_one.mul (CThreadsPool.keeps_assign le_rfl))
  exact hassign.mul hassign

theorem keeps_enterRoom (rid : ℤ) : Keeps rank 1 (enterRoom rid) := by
  have henter : Keeps rank 1 (CRoom.enter rid) := keeps_single le_rfl
  apply keeps_one.add
  exact henter.mul keeps_logs_one

theorem keeps_leaveRoom : Keeps rank 1 leaveRoom := keeps_between_logs fun _ => keeps_single le_rfl

theorem keeps_createSession : Keeps rank 1 createSession := by
  apply (keeps_between_logs CRoom.keeps_createSession).mul
  apply keeps_one.add
  exact keeps_logs_one.mul (keeps_iSup fun ss => CSession.keeps_toXml ss (by decide))

theorem keeps_leaveSession : Keeps rank 1 leaveSession :=
  keeps_between_logs CRoom.keeps_leaveSession

theorem keeps_enterSession : Keeps rank 1 enterSession :=
  keeps_between_logs CRoom.keeps_enterSession

theorem keeps_watchSession : Keeps rank 1 watchSession :=
  keeps_between_logs CRoom.keeps_watchSession

/-- Every handler. -/
theorem Msghnd.keeps_run (h : CClient.Msghnd) : Keeps rank 1 (Msghnd.run h) := by
  have hlog := keeps_logs_one
  cases h with
  | doEnterRoom => exact keeps_between_logs keeps_enterRoom
  | doLeaveRoom => exact (hlog.mul keeps_leaveRoom).mul hlog
  | doNewSession => exact (hlog.mul keeps_createSession).mul hlog
  | doListSessions => exact hlog.mul (keeps_iSup CRoom.keeps_xmlSessionList)
  | doEnterSession => exact (hlog.mul keeps_enterSession).mul hlog
  | doLeaveSession => exact keeps_leaveSession.mul hlog
  | doWatchSession => exact (hlog.mul keeps_watchSession).mul hlog
  | doReady =>
    have hstart : Keeps rank 1 (1 + logs * (1 + CThreadsPool.assign)) :=
      keeps_one.add (hlog.mul (keeps_one.add (CThreadsPool.keeps_assign le_rfl)))
    exact ((keeps_between_logs CRoom.keeps_ready).mul hstart).mul hlog
  | doListRooms => exact CDataMgr.keeps_xmlRoomList
  | doLogout => exact hlog
  | _ => exact keeps_one

theorem keeps_procMsgs : Keeps rank 1 procMsgs := by
  have hrun := keeps_iSup Msghnd.keeps_run
  have hlast : Keeps rank 1 (1 + logs + ⨆ h, Msghnd.run h) :=
    (keeps_one.add keeps_logs_one).add hrun
  exact ((hrun.mul keeps_consumeBdsAndNotis).kstar.mul hlast).mul keeps_logs_one

theorem keeps_donotify : Keeps rank 1 donotify := keeps_logs_one

theorem keeps_dosend : Keeps rank 1 dosend := by
  apply keeps_logs_one.mul
  exact keeps_one.add keeps_donotify

theorem keeps_doread : Keeps rank 1 doread := by
  apply keeps_logs_one.mul
  exact keeps_one.add (keeps_procMsgs.mul keeps_dosend)

theorem keeps_disconnect : Keeps rank 1 disconnect := by
  have hsession : Keeps rank 1 (1 + leaveSession * consumeBdsAndNotis) :=
    keeps_one.add (keeps_leaveSession.mul keeps_consumeBdsAndNotis)
  have hroom : Keeps rank 1 (1 + leaveRoom * consumeBdsAndNotis) :=
    keeps_one.add (keeps_leaveRoom.mul keeps_consumeBdsAndNotis)
  have hdel : Keeps rank 1 CDataMgr.delClient := keeps_logged le_rfl (by decide)
  have hcount : Keeps rank 1 CDataMgr.userCount := keeps_single le_rfl
  exact ((((hsession.mul hroom).mul hdel).mul keeps_logs_one).mul hcount).mul keeps_logs_one

/-! Jobs and threads, which begin with no mutex. -/

theorem keeps_doWork (c : CClientPtr) : Keeps rank 0 (doWork c) := by
  have hio : Keeps rank 1 (doread + dosend + donotify + logs) :=
    ((keeps_doread.add keeps_dosend).add keeps_donotify).add keeps_logs_one
  have hend : Keeps rank 1 (CUserListener.assign + disconnect) :=
    (CUserListener.keeps_assign le_rfl).add keeps_disconnect
  apply Keeps.mul
  · apply keeps_scope (l := CClient_iolk c) le_rfl
    exact (hio.mul hend).mul keeps_logs_one
  · exact keeps_logs (by decide)

theorem keeps_queueNotification (c : CClientPtr) : Keeps rank 0 (queueNotification c) := by
  have hrm : Keeps rank 1 rmFromEpoll := keeps_logs_one
  apply keeps_scope (l := CClient_iolk c) le_rfl
  apply keeps_one.add
  exact (hrm.mul keeps_donotify).mul (CUserListener.keeps_assign le_rfl)

end CClient

theorem keeps_logs_zero : Keeps rank 0 logs := keeps_logs (by decide)

theorem CTcpJob.keeps_doLogin : Keeps rank 0 CTcpJob.doLogin := by
  have hlog := keeps_logs_zero
  have hfind : Keeps rank 0 CDataMgr.findClient := keeps_single (by decide)
  have hverify : Keeps rank 0 CDataBase.verifyUser := keeps_logged (by decide) (by decide)
  have hadd : Keeps rank 0 CDataMgr.addClient := keeps_single (by decide)
  have hcount : Keeps rank 0 CDataMgr.userCount := keeps_single (by decide)
  have hassign : Keeps rank 0 CUserListener.assign := CUserListener.keeps_assign (by decide)
  have hadded : Keeps rank 0 (1 + CUserListener.assign * logs * CDataMgr.userCount * logs) :=
    keeps_one.add (((hassign.mul hlog).mul hcount).mul hlog)
  have hfree := ((((hverify.mul hlog).mul hadd).mul hlog).mul hadded)
  exact hlog.mul (keeps_one.add ((hfind.mul hlog).mul (keeps_one.add hfree)))

theorem CTcpJob.keeps_run : Keeps rank 0 CTcpJob.run := by
  have hlog := keeps_logs_zero
  have hkey : Keeps rank 0 CSecKeyMap.verifykey := keeps_single (by decide)
  exact ((hlog.mul hkey).mul hlog).mul (keeps_one.add (keeps_doLogin.mul hlog))

theorem CUdpSockData.keeps_sendto (udp : CUdpSockDataPtr) :
    Keeps rank 0 (CUdpSockData.sendto udp) := keeps_single (Nat.zero_le _)

theorem CUdpJob.keeps_run (udp : CUdpSockDataPtr) : Keeps rank 0 (CUdpJob.run udp) := by
  have hlog := keeps_logs_zero
  have hgen : Keeps rank 0 CSecKeyMap.genSecret := keeps_single (by decide)
  have hinsert : Keeps rank 0 CSecKeyMap.insert := keeps_single (by decide)
  have hsize : Keeps rank 0 CSecKeyMap.size := keeps_single (by decide)
  have hremove : Keeps rank 0 CSecKeyMap.remove := keeps_single (by decide)
  have hreply := (((hsize.mul hlog).mul (CUdpSockData.keeps_sendto udp)).mul hlog).mul
    (keeps_one.add hremove)
  exact ((((hlog.mul hgen).mul hlog).mul hinsert).mul hlog).mul (keeps_one.add hreply)

theorem CJob.keeps_run (j : CJob) : Keeps rank 0 j.run := by
  have hlog := keeps_logs_zero
  cases j with
  | client c => exact CClient.keeps_doWork c
  | notifier => exact (hlog.mul (keeps_iSup CClient.keeps_queueNotification).kstar).mul hlog
  | broadCaster => exact hlog.mul ((keeps_iSup CUdpSockData.keeps_sendto).mul hlog).kstar
  | tcp => exact CTcpJob.keeps_run
  | udp sock => exact CUdpJob.keeps_run sock

theorem CWorkThread.keeps_doWork (w : ℕ) : Keeps rank 0 (CWorkThread.doWork w) := by
  have hidle : Keeps rank 0 CThreadsPool.moveToIdleList := keeps_logged (by decide) (by decide)
  apply Keeps.kstar
  exact (keeps_event.mul (keeps_iSup CJob.keeps_run)).mul hidle

theorem CThreadsPool.keeps_doWork : Keeps rank 0 CThreadsPool.doWork := by
  have hrun : ∀ w, Keeps rank 0 (CWorkThread.run w) := fun w => keeps_single (Nat.zero_le _)
  apply Keeps.kstar
  apply (keeps_receive .pool).mul
  exact keeps_one.add (keeps_event.mul (keeps_iSup hrun))

theorem Thread.keeps_code (t : Thread) : Keeps rank 0 t.code := by
  have hlog := keeps_logs_zero
  have hassign : Keeps rank 0 CThreadsPool.assign := CThreadsPool.keeps_assign (by decide)
  cases t with
  | main =>
    have hopen : Keeps rank 0 CDataBase.open_ := keeps_logged (by decide) (by decide)
    have hbusy : Keeps rank 0 CThreadsPool.getBusyCount := keeps_single (by decide)
    have hqueued : Keeps rank 0 CThreadsPool.getQueuedJobs := keeps_single (by decide)
    apply ((hlog.mul hopen).mul hlog).mul
    exact (hlog.mul (keeps_one.add (hbusy.mul hqueued))).kstar
  | logger => exact (keeps_receive .log).kstar
  | pool => exact CThreadsPool.keeps_doWork
  | worker w => exact CWorkThread.keeps_doWork w
  | tcpListener | udpListener => exact (hlog.mul (keeps_one.add hassign)).kstar
  | usrListener i =>
    have hrm : Keeps rank 0 CClient.rmFromEpoll := hlog
    exact (hlog.mul (keeps_one.add (hrm.mul hassign))).kstar

/-- In no reachable state do threads wait for each other's mutexes, and who holds the mutex of a
client waits for none of a client. -/
theorem no_deadlock {es : List (LockOrder.Event Thread Mutex)} {s : State Thread Mutex}
    (h : Lts.Run (Step Thread.code) .new es s) :
    (∀ S : Set Thread, ¬ Deadlocked s S) ∧
    ∀ t c d, CClient_iolk c ∈ s.held t → s.want t ≠ some (CClient_iolk d) := by
  have hfollows := follows_run h
  refine ⟨not_deadlocked rank_lt_four Thread.keeps_code hfollows,fun t c d hheld hwant => ?_⟩
  have hlt := rank_lt Thread.keeps_code hfollows hwant hheld
  exact absurd hlt (Nat.lt_irrefl 0)

/-- The user listener has locked the queue of the pool, whose thread wants it. -/
def contended : State Thread Mutex :=
  ((State.new.request (.usrListener 0) (CCMsgQueue_evt .pool)).act (.usrListener 0)
    (.acquire (CCMsgQueue_evt .pool))).request .pool (CCMsgQueue_evt .pool)

theorem mem_kstar_self {P : Prog} {w : List (Act Mutex)} (hw : w ∈ P) : w ∈ P∗ :=
  Language.mem_kstar.mpr ⟨[w],(List.append_nil w).symm,List.forall_mem_singleton.mpr hw⟩

theorem mem_scope {l : Mutex} {W : Prog} (hW : [] ∈ W) :
    [.acquire l,.release l] ∈ scope l W :=
  Language.mem_mul.mpr ⟨_,Language.mem_mul.mpr ⟨_,rfl,[],hW,rfl⟩,_,rfl,rfl⟩

theorem contended_reachable : ∃ es, Lts.Run (Step Thread.code) .new es contended := by
  have hlisten : [.acquire (CCMsgQueue_evt .pool),.release (CCMsgQueue_evt .pool)] ∈
      (Thread.usrListener 0).code := by
    have hassign := mem_scope (l := CCMsgQueue_evt .pool) Language.nil_mem_one
    have hempty : [] ∈ logs := Language.nil_mem_kstar _
    refine mem_kstar_self (Language.mem_mul.mpr ⟨[],hempty,_,.inr ?_,rfl⟩)
    exact Language.mem_mul.mpr ⟨[],hempty,_,hassign,rfl⟩
  have hpool : [.acquire (CCMsgQueue_evt .pool),.release (CCMsgQueue_evt .pool)] ∈
      Thread.pool.code := by
    have hreceive := mem_scope (l := CCMsgQueue_evt .pool)
      (Language.nil_mem_kstar (wait (CCMsgQueue_evt .pool)))
    exact mem_kstar_self (Language.mem_mul.mpr ⟨_,hreceive,[],.inl rfl,rfl⟩)
  have hfree : ∀ u, CCMsgQueue_evt .pool ∉
      (State.new.request (.usrListener 0) (CCMsgQueue_evt .pool) : State Thread Mutex).held u :=
    fun u => List.not_mem_nil
  exact ⟨_,.cons (.request rfl ⟨_,hlisten⟩) (.cons (.acquire rfl hfree)
    (.cons (.request rfl ⟨_,hpool⟩) (.nil _)))⟩

theorem no_deadlock_contended : contended.want .pool = some (CCMsgQueue_evt .pool) ∧
    CCMsgQueue_evt .pool ∈ contended.held (.usrListener 0) ∧
    ¬ Deadlocked contended {.pool,.usrListener 0} := by
  obtain ⟨es,hes⟩ := contended_reachable
  exact ⟨rfl,by decide,(no_deadlock hes).1 _⟩

end CcniServer.Locks
