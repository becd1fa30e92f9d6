import CcniServer.Db.Buffers
import CcniServer.Epoll.Ownership
import CcniServer.Login.Registration

/-!
The life of one accepted descriptor: with the listener as a `CTcpSockData`, in a login job, and as
the socket of a client. Every call on its number is written down. The registry, the keys and the
kernel answer as they like; a deleted task keeps its memory, and who still has it may go on with it.
-/
namespace CcniServer

/-- A call on the number of the descriptor. -/
inductive Call
  | fcntl
  | epoll_ctl
  | read
  | send
  | close
  deriving DecidableEq

/-- What is done next with the descriptor before a client has it, and after: the job still has the
`CTcpSockData` to delete, or it has not. -/
inductive Connection.Next
  | set_nonblock
  | _epollAddSock
  | _doread
  | verifykey
  | parse
  | findClient
  | block_send (code : ℤ)
  | addClient
  | err_end
  | assigned
  | done
  deriving DecidableEq

/-- A descriptor with its `CTcpSockData`, given by the parser in it, its client and the client's
task. -/
structure Connection where
  next : Connection.Next
  _sk : Option CCNIMsgParser
  cli : Bool
  _ctsk : Option CClientTask
  dataMgr : CDataMgr
  calls : List Call

/-- The calls that a step of the client's threads can make. -/
def CClientTask.Event.calls : CClientTask.Event → List Call
  | .rm _ | .rmIdle _ | .add _ _ | .addFail _ => [.epoll_ctl]
  | .work _ _ => [.read,.send]
  | .donotify _ => [.send]
  | _ => []

namespace Connection

/-- `accept` has returned. -/
def accepted (m : CDataMgr) : Connection := ⟨.set_nonblock,none,false,none,m,[]⟩

inductive Event
  | set_nonblock (ok : Bool)
  | _epollAddSock (ok : Bool)
  | _doread (sock : Sock)
  | verifykey (ok : Bool)
  | parse
  | findClient
  | block_send
  | addClient (c : CClientPtr) (sock : Sock)
  | err_end
  | task (e : CClientTask.Event)
  | delete_sk
  | destroy
  | registry (m : CDataMgr)

def invoke (s : Connection) (cs : List Call) : Connection := { s with calls := s.calls ++ cs }

def uname (p : CCNIMsgParser) : String :=
  CXmlNode.getContent (CXmlNode.findChild (p.getmsg xmlTagLogin) xmlTagUserName)

/-- `_doaccept` after `accept`: where `set_nonblock` fails it returns. -/
def set_nonblock (s : Connection) (ok : Bool) : Connection :=
  if ok then { s.invoke [.fcntl] with next := ._epollAddSock, _sk := some .new }
  else { s.invoke [.fcntl] with next := .done }

/-- A failure closes the descriptor, and `_doaccept` deletes the object. -/
def _epollAddSock (s : Connection) (ok : Bool) : Connection :=
  if ok then { s.invoke [.epoll_ctl] with next := ._doread }
  else { s.invoke [.epoll_ctl,.close] with next := .done, _sk := none }

def _doread (s : Connection) (p : CCNIMsgParser) (sock : Sock) : Connection :=
  let p := (p.read sock).1
  match p.state with
  | .st_rderror | .st_hderror =>
    { s.invoke [.read,.epoll_ctl,.close] with next := .done, _sk := none }
  | .st_rdok => { s.invoke [.read,.epoll_ctl] with next := .verifykey, _sk := some p }
  | .st_rdhd | .st_rdbd => { s.invoke [.read] with _sk := some p }

def verifykey (s : Connection) (ok : Bool) : Connection :=
  { s with next := if ok then .parse else .err_end }

/-- The parser's answer, and the search for the login message in `doLogin`. -/
def parse (createFromXmlCdata : List UInt8 → Option CXmlNode) (s : Connection)
    (p : CCNIMsgParser) : Connection :=
  let (ok,p) := p.parse createFromXmlCdata
  { s with
    _sk := some p
    next := if ok && (p.getmsg xmlTagLogin).isSome then .findClient else .err_end }

def findClient (s : Connection) (p : CCNIMsgParser) : Connection :=
  { s with next := .block_send (if (s.dataMgr.findClient (uname p)).isSome then -2 else 0) }

def block_send (s : Connection) (code : ℤ) : Connection :=
  { s.invoke [.send] with next := if code = 0 then .addClient else .err_end }

/-- The client made for the descriptor is destroyed with `cli` where it is not added, and has its
task where it is. -/
def addClient (s : Connection) (p : CCNIMsgParser) (c : CClientPtr) (sock : Sock) : Connection :=
  let (ok,m) := s.dataMgr.addClient (uname p) c
  if ok then
    { s with next := .assigned, cli := true, _ctsk := some (.new sock), dataMgr := m }
  else { s.invoke [.close] with next := .err_end }

def err_end (s : Connection) : Connection :=
  { s.invoke [.close] with next := .done, _sk := none }

variable (createFromXmlCdata : List UInt8 → Option CXmlNode)

inductive Step : Connection → Event → Connection → Prop
  | set_nonblock {s ok} (hnext : s.next = .set_nonblock) :
      Step s (.set_nonblock ok) (s.set_nonblock ok)
  | _epollAddSock {s ok} (hnext : s.next = ._epollAddSock) :
      Step s (._epollAddSock ok) (s._epollAddSock ok)
  | _doread {s p sock} (hnext : s.next = ._doread) (hsk : s._sk = some p) :
      Step s (._doread sock) (s._doread p sock)
  | verifykey {s ok} (hnext : s.next = .verifykey) : Step s (.verifykey ok) (s.verifykey ok)
  | parse {s p} (hnext : s.next = .parse) (hsk : s._sk = some p) :
      Step s .parse (s.parse createFromXmlCdata p)
  | findClient {s p} (hnext : s.next = .findClient) (hsk : s._sk = some p) :
      Step s .findClient (s.findClient p)
  | block_send {s code} (hnext : s.next = .block_send code) : Step s .block_send (s.block_send code)
  | addClient {s p c sock} (hnext : s.next = .addClient) (hsk : s._sk = some p) :
      Step s (.addClient c sock) (s.addClient p c sock)
  | err_end {s} (hnext : s.next = .err_end) : Step s .err_end s.err_end
  /- The threads around the client, and the login job that arms it. -/
  | task {s t e t'} (ht : s._ctsk = some t) (hstep : CClientTask.Step createFromXmlCdata t e t') :
      Step s (.task e) { s.invoke e.calls with _ctsk := some t' }
  /- The end of `doLogin`. -/
  | delete_sk {s t} (hnext : s.next = .assigned) (ht : s._ctsk = some t)
      (hpc : t.pc .login = .out) :
      Step s .delete_sk { s with next := .done, _sk := none }
  /- The last `CClientPtr` goes. The task has one, so it is deleted by then. -/
  | destroy {s t} (hcli : s.cli = true) (ht : s._ctsk = some t) (htask : t.io._ctsk = false) :
      Step s .destroy { s.invoke [.close] with cli := false }
  /- Other logins and disconnections. -/
  | registry {s m} : Step s (.registry m) { s with dataMgr := m }

/-- Nothing follows the close of the descriptor, and when no object has it any more, it has been
closed once. -/
structure ClosedOnce (s : Connection) : Prop where
  last : ∀ before after, s.calls = before ++ .close :: after → after = []
  once : s.next ≠ .set_nonblock → s._sk = none → s.cli = false → s.calls.count .close = 1

/-- The descriptor is made non-blocking, the name is still free when the client is added, and
`rmFromEpoll` finds the client. -/
def Smooth (s : Connection) : Event → Prop
  | .set_nonblock ok => ok = true
  | .addClient _ _ => ∀ p, s._sk = some p → s.dataMgr.findClient (uname p) = none
  | .task e => ∀ t, s._ctsk = some t → CClientTask.Found t e
  | _ => True

/-! ### The close -/

/-- The last call is the only close. -/
def Closed (cs : List Call) : Prop := ∃ before, cs = before ++ [.close] ∧ .close ∉ before

theorem Closed.of_open {c d : List Call} (hc : .close ∉ c) (hd : .close ∉ d) :
    Closed (c ++ (d ++ [.close])) := by
  refine ⟨c ++ d,(List.append_assoc c d _).symm,?_⟩
  rw [List.mem_append,not_or]
  exact ⟨hc,hd⟩

theorem Closed.last {cs before after : List Call} (h : Closed cs)
    (hcs : cs = before ++ .close :: after) : after = [] := by
  obtain ⟨front,rfl,hfront⟩ := h
  by_contra hne
  have hdrop := congrArg List.dropLast hcs
  rw [List.dropLast_concat,List.dropLast_append_of_ne_nil (List.cons_ne_nil _ _),
    List.dropLast_cons_of_ne_nil hne] at hdrop
  apply hfront
  rw [hdrop]
  simp

theorem Closed.once {cs : List Call} (h : Closed cs) : cs.count .close = 1 := by
  obtain ⟨front,rfl,hfront⟩ := h
  rw [List.count_append,List.count_eq_zero_of_not_mem hfront]
  rfl

/-! ### Who has the descriptor -/

/-- The listener or the job has it, and no client. -/
def Next.Pending (n : Next) : Prop := n ≠ .set_nonblock ∧ n ≠ .assigned ∧ n ≠ .done

instance (n : Next) : Decidable n.Pending := inferInstanceAs (Decidable (_ ∧ _))

/-- The owner of an open descriptor, or the one that has closed it. -/
inductive Inv (s : Connection) : Prop
  | fresh (hnext : s.next = .set_nonblock) (hcli : s.cli = false) (htask : s._ctsk = none)
      (hopen : .close ∉ s.calls)
  | pending (hnext : s.next.Pending) (hsk : s._sk.isSome) (hcli : s.cli = false)
      (htask : s._ctsk = none) (hopen : .close ∉ s.calls)
  | ended (hnext : s.next = .done) (hcli : s.cli = false) (htask : s._ctsk = none)
      (hclosed : Closed s.calls)
  | client {t : CClientTask} (hnext : s.next = .assigned ∨ s.next = .done) (hcli : s.cli = true)
      (htask : s._ctsk = some t) (hinv : t.Inv) (hopen : .close ∉ s.calls)
  | destroyed {t : CClientTask} (hnext : s.next = .assigned ∨ s.next = .done)
      (hcli : s.cli = false) (htask : s._ctsk = some t) (hinv : t.Inv)
      (hgone : t.io._ctsk = false) (hclosed : Closed s.calls)

section
variable {createFromXmlCdata : List UInt8 → Option CXmlNode} {s s' : Connection} {e : Event}

theorem accepted_inv (m : CDataMgr) : Inv (accepted m) := .fresh rfl rfl rfl List.not_mem_nil

theorem Inv.closedOnce (h : Inv s) : ClosedOnce s := by
  have hopen_last : .close ∉ s.calls →
      ∀ before after, s.calls = before ++ .close :: after → after = [] := by
    intro hopen before after hcalls
    refine absurd ?_ hopen
    rw [hcalls]
    simp
  cases h with
  | fresh hnext hcli htask hopen => exact ⟨hopen_last hopen,fun h => absurd hnext h⟩
  | pending hnext hsk hcli htask hopen =>
    refine ⟨hopen_last hopen,fun _ hnone => ?_⟩
    rw [hnone] at hsk
    cases hsk
  | client hnext hcli htask hinv hopen =>
    refine ⟨hopen_last hopen,fun _ _ h => ?_⟩
    rw [hcli] at h
    cases h
  | ended hnext hcli htask hclosed => exact ⟨fun _ _ => hclosed.last,fun _ _ _ => hclosed.once⟩
  | destroyed hnext hcli htask hinv hgone hclosed =>
    exact ⟨fun _ _ => hclosed.last,fun _ _ _ => hclosed.once⟩

/-- The states in which the listener or the job goes on. -/
theorem Inv.of_pending (h : Inv s) (hnext : s.next.Pending) :
    s._sk.isSome ∧ s.cli = false ∧ s._ctsk = none ∧ .close ∉ s.calls := by
  cases h with
  | fresh hfresh => exact absurd hfresh hnext.1
  | pending _ hsk hcli htask hopen => exact ⟨hsk,hcli,htask,hopen⟩
  | ended hdone => exact absurd hdone hnext.2.2
  | client hlater | destroyed hlater =>
    rcases hlater with hlater | hlater
    · exact absurd hlater hnext.2.1
    · exact absurd hlater hnext.2.2

theorem invoke_open {cs : List Call} (hopen : .close ∉ s.calls) (hcs : .close ∉ cs) :
    .close ∉ (s.invoke cs).calls := by
  simp only [invoke,List.mem_append,not_or]
  exact ⟨hopen,hcs⟩

/-- The job or the listener goes on, and leaves the descriptor open. -/
theorem Inv.goOn (h : Inv s) (hnext : s.next.Pending) (hnext' : s'.next.Pending)
    (hsk : s._sk.isSome → s'._sk.isSome) (hcli : s'.cli = s.cli) (htask : s'._ctsk = s._ctsk)
    (hopen : .close ∉ s.calls → .close ∉ s'.calls) : Inv s' := by
  obtain ⟨hsk',hcli',htask',hopen'⟩ := h.of_pending hnext
  exact .pending hnext' (hsk hsk') (hcli.trans hcli') (htask.trans htask') (hopen hopen')

/-- The job or the listener closes the descriptor and deletes its object. -/
theorem Inv.close (h : Inv s) (hnext : s.next.Pending) {c : List Call} (hc : .close ∉ c) :
    Inv { s.invoke (c ++ [.close]) with next := .done, _sk := none } := by
  obtain ⟨-,hcli,htask,hopen⟩ := h.of_pending hnext
  exact .ended rfl hcli htask (.of_open hopen hc)

/-- No step closes the descriptor of a client. -/
theorem close_notMem_calls (e : CClientTask.Event) : .close ∉ e.calls := by
  cases e <;> simp [CClientTask.Event.calls]

/-- Whoever would call on the descriptor has the task, or finds the client registered. -/
theorem calls_of_gone {t t' : CClientTask} {e : CClientTask.Event} (h : t.Inv)
    (hgone : t.io._ctsk = false) (hfound : CClientTask.Found t e)
    (hstep : CClientTask.Step createFromXmlCdata t e t') : e.calls = [] := by
  have hregistered : t._epfd = none := by
    cases hepfd : t._epfd with
    | none => rfl
    | some l => exact absurd (h.epfd l hepfd) (h.gone hgone (.epoll l))
  have hthread : ∀ {u p}, t.pc u = p → CClientTask.holds u p = false := by
    intro u p hpc
    have hnot := h.gone hgone (.thread u)
    rw [CClientTask.Owns,hpc] at hnot
    exact Bool.not_eq_true _ ▸ hnot
  cases hstep with
  | rm hpc => exact absurd hregistered hfound
  | rmIdle hpc => exact absurd hregistered hfound
  | work hpc => cases hthread hpc
  | donotify hpc => cases hthread hpc
  | @add u l hpc hnew => cases u <;> cases hthread hpc
  | @addFail u hpc => cases u <;> cases hthread hpc
  | _ => rfl

theorem gone_step {t t' : CClientTask} {e : CClientTask.Event} (hgone : t.io._ctsk = false)
    (hstep : CClientTask.Step createFromXmlCdata t e t') : t'.io._ctsk = false := by
  rcases CClientTask.step_task hstep with hsame | ⟨w,hpc,rfl⟩
  · exact hsame.trans hgone
  · rfl

/-- The threads around the client. -/
theorem Inv.task (h : Inv s) {t t' : CClientTask} {e : CClientTask.Event} (ht : s._ctsk = some t)
    (hfound : CClientTask.Found t e) (hstep : CClientTask.Step createFromXmlCdata t e t') :
    Inv { s.invoke e.calls with _ctsk := some t' } := by
  cases h with
  | fresh hnext hcli htask hopen => exact absurd (htask.symm.trans ht) nofun
  | pending hnext hsk hcli htask hopen => exact absurd (htask.symm.trans ht) nofun
  | ended hnext hcli htask hclosed => exact absurd (htask.symm.trans ht) nofun
  | @client u hnext hcli htask hinv hopen =>
    rw [htask,Option.some_inj] at ht
    subst ht
    exact .client hnext hcli rfl (CClientTask.step_inv hinv hfound hstep)
      (invoke_open hopen (close_notMem_calls e))
  | @destroyed u hnext hcli htask hinv hgone hclosed =>
    rw [htask,Option.some_inj] at ht
    subst ht
    refine .destroyed hnext hcli rfl (CClientTask.step_inv hinv hfound hstep)
      (gone_step hgone hstep) ?_
    simpa only [invoke,calls_of_gone hinv hgone hfound hstep,List.append_nil] using hclosed

theorem Inv.doread (h : Inv s) (hnext : s.next = ._doread) (p : CCNIMsgParser) (sock : Sock) :
    Inv (s._doread p sock) := by
  have hpending : s.next.Pending := hnext ▸ by decide
  unfold Connection._doread
  cases hstate : (p.read sock).1.state with
  | st_rdhd | st_rdbd =>
    simp only [hstate]
    exact h.goOn hpending hpending (fun _ => rfl) rfl rfl fun hopen =>
      invoke_open hopen (by decide)
  | st_rdok =>
    simp only [hstate]
    have hnext' : Next.verifykey.Pending := by decide
    exact h.goOn hpending hnext' (fun _ => rfl) rfl rfl fun hopen => invoke_open hopen (by decide)
  | st_rderror | st_hderror =>
    simp only [hstate]
    exact h.close (c := [.read,.epoll_ctl]) hpending (by decide)

/-- A name that is free when the client is added is not refused. -/
theorem addClient_eq {p : CCNIMsgParser} (hfree : s.dataMgr.findClient (uname p) = none)
    (c : CClientPtr) (sock : Sock) : s.addClient p c sock =
      { s with
        next := .assigned, cli := true, _ctsk := some (.new sock)
        dataMgr := (s.dataMgr.addClient (uname p) c).2 } := by
  have hlist : s.dataMgr._list.find? (uname p) = none := hfree
  simp only [addClient,CDataMgr.addClient,hlist]
  rfl

theorem step_inv (h : Inv s) (hsmooth : Smooth s e) (hstep : Step createFromXmlCdata s e s') :
    Inv s' := by
  cases hstep with
  | @set_nonblock ok hnext =>
    have hok : ok = true := hsmooth
    subst hok
    cases h with
    | fresh _ hcli htask hopen =>
      have hnext' : Next._epollAddSock.Pending := by decide
      exact .pending hnext' rfl hcli htask (invoke_open hopen (by decide))
    | pending hpending => exact absurd hnext hpending.1
    | ended hdone => exact absurd (hnext.symm.trans hdone) nofun
    | client hlater | destroyed hlater =>
      rcases hlater with hlater | hlater <;> exact absurd (hnext.symm.trans hlater) nofun
  | @_epollAddSock ok hnext =>
    have hpending : s.next.Pending := hnext ▸ by decide
    cases ok with
    | true =>
      have hnext' : Next._doread.Pending := by decide
      exact h.goOn hpending hnext' id rfl rfl fun hopen => invoke_open hopen (by decide)
    | false => exact h.close (c := [.epoll_ctl]) hpending (by decide)
  | _doread hnext hsk => exact h.doread hnext _ _
  | @verifykey ok hnext =>
    have hnext' : (if ok then Next.parse else .err_end).Pending := by cases ok <;> decide
    exact h.goOn (hnext ▸ by decide) hnext' id rfl rfl id
  | parse hnext hsk =>
    refine h.goOn (hnext ▸ by decide) ?_ (fun _ => rfl) rfl rfl id
    unfold Connection.parse
    dsimp only
    split <;> decide
  | findClient hnext hsk =>
    have hnext' : ∀ code, (Next.block_send code).Pending := fun code => ⟨nofun,nofun,nofun⟩
    exact h.goOn (hnext ▸ by decide) (hnext' _) id rfl rfl id
  | @block_send code hnext =>
    have hnext' : (if code = 0 then Next.addClient else .err_end).Pending := by
      split <;> decide
    have hpending : s.next.Pending := hnext ▸ ⟨nofun,nofun,nofun⟩
    exact h.goOn hpending hnext' id rfl rfl fun hopen => invoke_open hopen (by decide)
  | addClient hnext hsk =>
    obtain ⟨-,hcli,htask,hopen⟩ := h.of_pending (hnext ▸ by decide)
    rw [addClient_eq (hsmooth _ hsk)]
    exact .client (.inl rfl) rfl rfl (CClientTask.new_inv _) hopen
  | err_end hnext => exact h.close (c := []) (hnext ▸ by decide) List.not_mem_nil
  | task ht hstep => exact h.task ht (hsmooth _ ht) hstep
  | delete_sk hnext ht hpc =>
    cases h with
    | fresh hfresh => exact absurd (hnext.symm.trans hfresh) nofun
    | pending hpending => exact absurd hnext hpending.2.1
    | ended hdone => exact absurd (hnext.symm.trans hdone) nofun
    | client hlater hcli htask hinv hopen => exact .client (.inr rfl) hcli htask hinv hopen
    | destroyed hlater hcli htask hinv hgone hclosed =>
      exact .destroyed (.inr rfl) hcli htask hinv hgone hclosed
  | destroy hcli ht htask =>
    cases h with
    | fresh _ hno | pending _ _ hno | ended _ hno | destroyed _ hno =>
      exact absurd (hno.symm.trans hcli) nofun
    | client hlater _ htask' hinv hopen =>
      rw [htask',Option.some_inj] at ht
      subst ht
      exact .destroyed hlater rfl htask' hinv htask (.of_open hopen (d := []) List.not_mem_nil)
  | registry =>
    cases h with
    | fresh hnext hcli htask hopen => exact .fresh hnext hcli htask hopen
    | pending hnext hsk hcli htask hopen => exact .pending hnext hsk hcli htask hopen
    | ended hnext hcli htask hclosed => exact .ended hnext hcli htask hclosed
    | client hnext hcli htask hinv hopen => exact .client hnext hcli htask hinv hopen
    | destroyed hnext hcli htask hinv hgone hclosed =>
      exact .destroyed hnext hcli htask hinv hgone hclosed

end

theorem Step.det {createFromXmlCdata : List UInt8 → Option CXmlNode} {s t t' : Connection}
    {e : Event} (h : Step createFromXmlCdata s e t) (h' : Step createFromXmlCdata s e t') :
    t = t' := by
  cases h with
  | _doread hnext hsk | parse hnext hsk | findClient hnext hsk | addClient hnext hsk =>
    cases h'
    simp_all
  | block_send hnext =>
    cases h'
    simp_all
  | task ht hstep =>
    cases h' with
    | task ht' hstep' =>
      obtain rfl := Option.some.inj (ht.symm.trans ht')
      rw [hstep.det hstep']
  | _ =>
    cases h'
    rfl

/-- In every run that is smooth, from `accept` on, the descriptor is closed once and for all. -/
theorem closed_once (createFromXmlCdata : List UInt8 → Option CXmlNode) (m : CDataMgr)
    (es : List Event) (s : Connection)
    (hrun : Lts.Run (Step createFromXmlCdata) (accepted m) es s)
    (hsmooth : Lts.Meets (Step createFromXmlCdata) Smooth (accepted m) es) : ClosedOnce s :=
  (hrun.invariant_of_meets (fun _ _ _ h hc hs => step_inv h hc hs) hsmooth
    (accepted_inv m)).closedOnce

def loginBody : List UInt8 :=
  bytes "<CCNIMessages><Login><UserName>alice</UserName></Login></CCNIMessages>".toList

open CXmlNode in
def loginRoot : CXmlNode :=
  element xmlTagCCNIMessages [element xmlTagLogin [element xmlTagUserName [text "alice"]]]

def readLogin (bs : List UInt8) : Option CXmlNode := if bs = loginBody then some loginRoot else none

def loginSock : Sock where
  inp := (CCNIMsgPacker.new.pack (some loginBody) 1 0 0 0).2.frame
  recvs := [.deliver 32,.deliver 70]
  out := []
  sends := []

/-- Alice logs in, her job arms her client, and her peer goes away: a worker reads the end of its
stream and deletes the task. Another user logs in meanwhile. -/
def comesAndGoes : List Event :=
  [.set_nonblock true,._epollAddSock true,._doread loginSock,.verifykey true,.parse,.findClient,
   .block_send,.registry ⟨OrdMap.empty.insert "bob" 2⟩,.addClient 1 ⟨[],[.closed],[],[]⟩,
   .task (.assign .login),.task (.add .login 0),.task (.store .login),.task (.leave .login),
   .delete_sk,.task (.wait 0),.task (.rm 0),.task (.pool 0),.task (.take 0),
   .task (.lock (.worker 0)),.task (.work 0 none),.task (.retire 0),.destroy]

theorem closed_once_comesAndGoes : ∃ s, Lts.Run (Step readLogin) (accepted ⟨OrdMap.empty⟩)
    comesAndGoes s ∧ ClosedOnce s ∧ s.calls = [.fcntl,.epoll_ctl,.read,.epoll_ctl,.send,.epoll_ctl,
      .epoll_ctl,.read,.send,.close] := by
  have hcons : ∀ {s t : Connection} {e : Event} {es : List Event} {P : Connection → Prop},
      Step readLogin s e t → Smooth s e →
      (∃ u, Lts.Run (Step readLogin) t es u ∧ Lts.Meets (Step readLogin) Smooth t es ∧ P u) →
      ∃ u, Lts.Run (Step readLogin) s (e :: es) u ∧
        Lts.Meets (Step readLogin) Smooth s (e :: es) ∧ P u :=
    fun he hc h => Lts.run_meets_cons (fun _ he' => Step.det he' he) he hc h
  have hrun : ∃ s, Lts.Run (Step readLogin) (accepted ⟨OrdMap.empty⟩) comesAndGoes s ∧
      Lts.Meets (Step readLogin) Smooth (accepted ⟨OrdMap.empty⟩) comesAndGoes ∧
      s.calls = [.fcntl,.epoll_ctl,.read,.epoll_ctl,.send,.epoll_ctl,.epoll_ctl,.read,.send,
        .close] := by
    refine hcons (.set_nonblock rfl) rfl (hcons (._epollAddSock rfl) trivial ?_)
    refine hcons (._doread rfl rfl) trivial (hcons (.verifykey rfl) trivial ?_)
    refine hcons (.parse rfl rfl) trivial (hcons (.findClient rfl rfl) trivial ?_)
    refine hcons (.block_send rfl) trivial (hcons .registry trivial ?_)
    refine hcons (.addClient rfl rfl) ?_ ?_
    · intro p hp
      cases hp
      rfl
    refine hcons (.task rfl (.assign rfl rfl)) (fun _ _ => trivial) ?_
    refine hcons (.task rfl (.add rfl (Finset.notMem_empty 0))) (fun _ _ => trivial) ?_
    refine hcons (.task rfl (.store rfl)) (fun _ _ => trivial) ?_
    refine hcons (.task rfl (.leave rfl)) (fun _ _ => trivial) ?_
    refine hcons (.delete_sk rfl rfl rfl) trivial ?_
    refine hcons (.task rfl (.wait rfl (Finset.mem_insert_self 0 ∅))) (fun _ _ => trivial) ?_
    refine hcons (.task rfl (.rm rfl)) ?_ (hcons (.task rfl (.pool rfl)) (fun _ _ => trivial) ?_)
    · intro t ht
      cases ht
      exact Option.some_ne_none _
    refine hcons (.task rfl (.take rfl (by decide))) (fun _ _ => trivial) ?_
    refine hcons (.task rfl (.lock rfl rfl)) (fun _ _ => trivial) ?_
    refine hcons (.task rfl (.work rfl)) (fun _ _ => trivial) ?_
    refine hcons (.task rfl (.retire rfl)) (fun _ _ => trivial) ?_
    exact hcons (.destroy rfl rfl rfl) trivial ⟨_,.nil _,trivial,rfl⟩
  obtain ⟨s,hrun,hsmooth,hcalls⟩ := hrun
  exact ⟨s,hrun,closed_once readLogin ⟨OrdMap.empty⟩ comesAndGoes s hrun hsmooth,hcalls⟩

/-! ### Two descriptors that are not closed once -/

/-- While the job answers the login, the same name is added by another one. -/
def overtaken : List Event :=
  [.set_nonblock true,._epollAddSock true,._doread loginSock,.verifykey true,.parse,.findClient,
   .block_send,.registry ⟨OrdMap.empty.insert "alice" 2⟩,.addClient 1 ⟨[],[],[],[]⟩,.err_end]

/-- A refused client closes the descriptor with the job's own close to come, and a descriptor that
stays blocking is dropped open. -/
theorem closed_twice_or_never :
    (∃ s, Lts.Run (Step readLogin) (accepted ⟨OrdMap.empty⟩) overtaken s ∧
      s.calls = [.fcntl,.epoll_ctl,.read,.epoll_ctl,.send,.close,.close] ∧ ¬ ClosedOnce s) ∧
    ∃ s, Lts.Run (Step readLogin) (accepted ⟨OrdMap.empty⟩) [.set_nonblock false] s ∧
      s.calls = [.fcntl] ∧ ¬ ClosedOnce s := by
  constructor
  · refine ⟨_,.cons (.set_nonblock rfl) (.cons (._epollAddSock rfl) (.cons (._doread rfl rfl)
      (.cons (.verifykey rfl) (.cons (.parse rfl rfl) (.cons (.findClient rfl rfl)
      (.cons (.block_send rfl) (.cons .registry (.cons (.addClient rfl rfl)
      (.cons (.err_end rfl) (.nil _)))))))))),?_,fun h => ?_⟩
    · rfl
    · exact absurd (h.last [.fcntl,.epoll_ctl,.read,.epoll_ctl,.send] [.close] rfl) nofun
  · refine ⟨_,.cons (.set_nonblock rfl) (.nil _),rfl,fun h => ?_⟩
    exact absurd (h.once nofun rfl rfl) (by decide)

end Connection
end CcniServer
