import CcniServer.Lib.Lts
import CcniServer.Wire.Packer
import CcniServer.Wire.Parser

/-!
The socket side of a client: one request is read, its response is sent, and then the queued
notifications. Every call runs under the client's lock, so a run is a sequence of calls.
-/
namespace CcniServer

inductive io_state_t
  | iostIdle
  | iostReading
  | iostSending
  | iostNotifing
  deriving DecidableEq

structure Request where
  hd : CCNI_HEADER
  body : List UInt8

/-- A request as it was handed on, and the frame of the response packed for it. -/
structure Exchange where
  request : Request
  answer : List UInt8

/-- The members of a client that the calls on its socket use, and two records that no call
reads: the requests handed on and the notifications queued. -/
structure CClientIo where
  _pstate : io_state_t
  _tcpfd : Sock
  _curmsg : CCNIMsgParser
  _resmsg : CCNIMsgPacker
  _notimsgs : List CCNINotification
  /-- The task of the client, which its disconnection deletes. -/
  _ctsk : Bool
  exchanged : List Exchange
  queued : List (List UInt8)

/-- The enumerators are numbered in order. -/
def CCNIMsgParser.State.val : CCNIMsgParser.State → ℕ
  | .st_rdhd => 0
  | .st_rdbd => 1
  | .st_rdok => 2
  | .st_rderror => 3
  | .st_hderror => 4

namespace CClientIo

/-- The constructor. -/
def new (sock : Sock) : CClientIo where
  _pstate := .iostIdle
  _tcpfd := sock
  _curmsg := .new
  _resmsg := .new
  _notimsgs := []
  _ctsk := true
  exchanged := []
  queued := []

def donotify (c : CClientIo) : Bool × CClientIo :=
  match c._notimsgs with
  | [] => (true,{ c with _pstate := .iostIdle })
  | inmsg :: rest =>
    match inmsg.send c._tcpfd with
    | (.error,_,s) =>
      (false,{ c with _pstate := .iostNotifing, _tcpfd := s, _notimsgs := rest })
    | (.sendok,_,s) =>
      let st := if rest.isEmpty then io_state_t.iostIdle else .iostNotifing
      (true,{ c with _pstate := st, _tcpfd := s, _notimsgs := rest })
    | (.eagain,inmsg,s) =>
      (true,{ c with _pstate := .iostNotifing, _tcpfd := s, _notimsgs := inmsg :: rest })

def dosend (c : CClientIo) : Bool × CClientIo :=
  let (m,s) := c._resmsg.send c._tcpfd
  let c := { c with _pstate := .iostSending, _resmsg := m, _tcpfd := s }
  if m.state = .st_sderror then (false,c)
  else if m.state = .st_sdok then
    donotify { c with _resmsg := c._resmsg.free, _curmsg := c._curmsg.free }
  else (true,c)

/-- `procMsgs`, as far as the socket is concerned: the response is packed under the four values
of the request. `dump` is the text of the response. -/
def procMsgs (dump : Option (List UInt8)) (c : CClientIo) : CClientIo :=
  let hd := c._curmsg.header
  let res := (c._resmsg.pack dump hd.seq hd.udata hd.secret1 hd.secret2).2
  { c with
    _resmsg := res
    exchanged := c.exchanged ++ [⟨⟨hd,c._curmsg.data.getD []⟩,res.frame⟩] }

variable (createFromXmlCdata : List UInt8 → Option CXmlNode)

/-- The third test asks for the enumerator `st_rdhd` itself, not for the state. -/
def doread (dump : Option (List UInt8)) (c : CClientIo) : Bool × CClientIo :=
  let (m,s) := c._curmsg.read c._tcpfd
  let c := { c with _pstate := .iostReading, _curmsg := m, _tcpfd := s }
  if m.state = .st_rderror then (false,c)
  else if m.state = .st_hderror then (false,c)
  else if m.state = .st_rdbd ∨ CCNIMsgParser.State.val .st_rdhd ≠ 0 then (true,c)
  else
    let (ok,m) := m.parse createFromXmlCdata
    if ok then dosend (procMsgs dump { c with _curmsg := m }) else (false,{ c with _curmsg := m })

/-- The part of `doWork` under the switch. -/
def resume (dump : Option (List UInt8)) (c : CClientIo) : Bool × CClientIo :=
  match c._pstate with
  | .iostIdle => doread createFromXmlCdata dump c
  | .iostReading => doread createFromXmlCdata dump c
  | .iostSending => dosend c
  | .iostNotifing => donotify c

/-- `doWork`; a client whose connection broke loses its task. -/
def doWork (dump : Option (List UInt8)) (c : CClientIo) : Bool × CClientIo :=
  let (ret,c) := resume createFromXmlCdata dump c
  if ret then (true,c) else (false,{ c with _ctsk := false })

def push_back (msg : List UInt8) (c : CClientIo) : CClientIo :=
  { c with _notimsgs := c._notimsgs ++ [⟨msg,0⟩], queued := c.queued ++ [msg] }

@[simp] theorem push_back_pstate (msg : List UInt8) (c : CClientIo) :
    (c.push_back msg)._pstate = c._pstate := rfl

@[simp] theorem push_back_notimsgs (msg : List UInt8) (c : CClientIo) :
    (c.push_back msg)._notimsgs = c._notimsgs ++ [⟨msg,0⟩] := rfl

/-- The value of `donotify` is ignored. -/
def queueNotification (msg : List UInt8) (c : CClientIo) : CClientIo :=
  let c := c.push_back msg
  if c._pstate = .iostIdle then c.donotify.2 else c

theorem queueNotification_idle {msg : List UInt8} {c : CClientIo} (h : c._pstate = .iostIdle) :
    queueNotification msg c = (c.push_back msg).donotify.2 := if_pos h

theorem queueNotification_busy {msg : List UInt8} {c : CClientIo} (h : c._pstate ≠ .iostIdle) :
    queueNotification msg c = c.push_back msg := if_neg h

/-- A call on the client, with the text of the document that it sends. -/
inductive Event
  | doWork (dump : Option (List UInt8))
  | queueNotification (dump : List UInt8)

/-- `doWork` is only called through the client's task. A notification comes to the client
packed. -/
def step (c : CClientIo) : Event → CClientIo
  | .doWork dump => if c._ctsk then (doWork createFromXmlCdata dump c).2 else c
  | .queueNotification dump =>
    match CCNIMsgPacker.new.packToFlat (some dump) with
    | some msg => queueNotification msg c
    | none => c

theorem step_queueNotification (c : CClientIo) (dump : List UInt8) :
    step createFromXmlCdata c (.queueNotification dump) =
      queueNotification (CCNIMsgPacker.new.pack (some dump) 0 0 0 0).2.frame c := rfl

/-- The calls on a client, in any order. -/
def Step : CClientIo → Event → CClientIo → Prop := Lts.Moves (step createFromXmlCdata)

/-! ### What a call leaves alone -/

/-- The third test of `doread` sees a body in progress and nothing else. -/
theorem waits_iff (st : CCNIMsgParser.State) :
    (st = .st_rdbd ∨ CCNIMsgParser.State.val .st_rdhd ≠ 0) ↔ st = .st_rdbd :=
  ⟨fun h => h.resolve_right (fun h0 => h0 rfl),.inl⟩

theorem donotify_task (c : CClientIo) : c.donotify.2._ctsk = c._ctsk := by
  unfold donotify
  split
  · rfl
  · split <;> rfl

theorem dosend_task (c : CClientIo) : c.dosend.2._ctsk = c._ctsk := by
  dsimp only [dosend]
  split
  · rfl
  · split
    · exact donotify_task _
    · rfl

theorem doread_task (dump : Option (List UInt8)) (c : CClientIo) :
    (doread createFromXmlCdata dump c).2._ctsk = c._ctsk := by
  dsimp only [doread]
  split
  · rfl
  · split
    · rfl
    · split
      · rfl
      · split
        · exact dosend_task _
        · rfl

/-- Only the disconnect path deletes the task. -/
theorem resume_task (dump : Option (List UInt8)) (c : CClientIo) :
    (resume createFromXmlCdata dump c).2._ctsk = c._ctsk := by
  unfold resume
  cases c._pstate with
  | iostIdle => exact doread_task createFromXmlCdata dump c
  | iostReading => exact doread_task createFromXmlCdata dump c
  | iostSending => exact dosend_task c
  | iostNotifing => exact donotify_task c

end CClientIo
end CcniServer
