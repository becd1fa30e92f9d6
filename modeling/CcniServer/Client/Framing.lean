import CcniServer.Client.Io

/-!
The stream that a client receives. Two writers share the socket and each can be stopped inside
a frame; the other one never writes before it has ended.
-/
namespace CcniServer

def IsFrame (bs : List UInt8) : Prop :=
  ∃ (hd : CCNI_HEADER) (body : List UInt8), bs = hd.toBytes ++ body ∧
    body.length = hd.datalen.toNat

theorem CCNIMsgPacker.Filled.isFrame {p : CCNIMsgPacker} (h : p.Filled) : IsFrame p.frame :=
  ⟨p.hd,p.body,rfl,h⟩

theorem IsFrame.length_pos {bs : List UInt8} (h : IsFrame bs) : 0 < bs.length := by
  obtain ⟨hd,body,hbs,hlen⟩ := h
  rw [hbs,List.length_append,CCNI_HEADER.length_toBytes]
  exact Nat.lt_of_lt_of_le (Nat.succ_pos 31) (Nat.le_add_right _ _)

/-- A frame on the stream, by the writer that puts it there. -/
inductive Piece
  | response (bytes : List UInt8)
  | notification (bytes : List UInt8)

namespace Piece

def bytes : Piece → List UInt8
  | response bs => bs
  | notification bs => bs

def response? : Piece → Option (List UInt8)
  | response bs => some bs
  | notification _ => none

def notification? : Piece → Option (List UInt8)
  | response _ => none
  | notification bs => some bs

end Piece

def stream (ps : List Piece) : List UInt8 := ps.flatMap Piece.bytes
def responses (ps : List Piece) : List (List UInt8) := ps.filterMap Piece.response?
def notifications (ps : List Piece) : List (List UInt8) := ps.filterMap Piece.notification?

section pieces
variable (ps : List Piece) (bs : List UInt8)

@[simp] theorem stream_response : stream (ps ++ [.response bs]) = stream ps ++ bs := by
  simp [stream,Piece.bytes]

@[simp] theorem stream_notification : stream (ps ++ [.notification bs]) = stream ps ++ bs := by
  simp [stream,Piece.bytes]

@[simp] theorem responses_response :
    responses (ps ++ [.response bs]) = responses ps ++ [bs] := by
  simp [responses,Piece.response?]

@[simp] theorem responses_notification :
    responses (ps ++ [.notification bs]) = responses ps := by
  simp [responses,Piece.response?]

@[simp] theorem notifications_response :
    notifications (ps ++ [.response bs]) = notifications ps := by
  simp [notifications,Piece.notification?]

@[simp] theorem notifications_notification :
    notifications (ps ++ [.notification bs]) = notifications ps ++ [bs] := by
  simp [notifications,Piece.notification?]

end pieces

/-- The frames `sent` are out, and after them the front `tail` of the frame `next`. Every
response is among them, in the order of the requests, and no notification is twice. -/
structure Framed (out0 : List UInt8) (c : CClientIo) (sent : List Piece) (next : Option Piece)
    (tail : List UInt8) : Prop where
  out : c._tcpfd.out = out0 ++ stream sent ++ tail
  tail_prefix : tail <+: stream next.toList
  answers : responses (sent ++ next.toList) = c.exchanged.map Exchange.answer
  notis : (notifications (sent ++ next.toList)).Sublist c.queued

namespace CClientIo

/-- What is out of the first notification. -/
def begun : List CCNINotification → List UInt8
  | [] => []
  | n :: _ => n.msg.take n.pos

/-- What holds between two calls, with `tail` out of the frame that is being sent and
`answering` the response it belongs to, if it is one. -/
structure Progress (out0 : List UInt8) (c : CClientIo) (sent : List Piece) (tail : List UInt8)
    (answering : List (List UInt8)) : Prop where
  out : c._tcpfd.out = out0 ++ stream sent ++ tail
  answers : responses sent ++ answering = c.exchanged.map Exchange.answer
  notis : (notifications sent ++ c._notimsgs.map CCNINotification.msg).Sublist c.queued
  room : ∀ n ∈ c._notimsgs, n.pos < n.msg.length
  fresh : ∀ n ∈ c._notimsgs.tail, n.pos = 0

/-- The states of the client's socket, by the writer that is at work. -/
inductive Inv (out0 : List UInt8) (c : CClientIo) : Prop
  | between (sent : List Piece) (hp : Progress out0 c sent (begun c._notimsgs) [])
      (hstate : c._pstate ≠ .iostSending) (hidle : c._pstate = .iostIdle → c._notimsgs = [])
      (hread : c._pstate = .iostReading → ∀ n ∈ c._notimsgs, n.pos = 0)
  | sending (sent : List Piece) (k : ℕ)
      (hp : Progress out0 c sent (c._resmsg.frame.take k) [c._resmsg.frame])
      (hstate : c._pstate = .iostSending) (hfresh : ∀ n ∈ c._notimsgs, n.pos = 0)
      (hsending : c._resmsg.Sending k) (hfilled : c._resmsg.Filled)
  | broken (sent : List Piece) (next : Option Piece) (tail : List UInt8)
      (hf : Framed out0 c sent next tail) (hctsk : c._ctsk = false)
      (hstate : c._pstate ≠ .iostIdle)

/-- What a call under the switch of `doWork` leaves behind, by its value. -/
structure Kept (out0 : List UInt8) (ret : Bool) (c : CClientIo) : Prop where
  ok : ret = true → Inv out0 c
  failed : ret = false → c._pstate ≠ .iostIdle ∧ ∃ sent next tail, Framed out0 c sent next tail

section
variable {out0 : List UInt8} {c : CClientIo} {sent : List Piece}

theorem begun_eq_nil {ns : List CCNINotification} (h : ∀ n ∈ ns, n.pos = 0) : begun ns = [] := by
  cases ns with
  | nil => rfl
  | cons n ns => rw [begun,h n List.mem_cons_self,List.take_zero]

theorem Progress.framed (hp : Progress out0 c sent (begun c._notimsgs) []) :
    ∃ next tail, Framed out0 c sent next tail := by
  have hanswers := hp.answers
  rw [List.append_nil] at hanswers
  cases hn : c._notimsgs with
  | nil =>
    refine ⟨none,[],?_,List.nil_prefix,?_,?_⟩
    · rw [hp.out,hn,begun]
    · rw [Option.toList_none,List.append_nil,hanswers]
    · have hnotis := hp.notis
      rw [hn,List.map_nil,List.append_nil] at hnotis
      rw [Option.toList_none,List.append_nil]
      exact hnotis
  | cons n ns =>
    refine ⟨some (.notification n.msg),n.msg.take n.pos,?_,?_,?_,?_⟩
    · rw [hp.out,hn,begun]
    · simp only [stream,Option.toList_some,List.flatMap_singleton,Piece.bytes]
      exact List.take_prefix _ _
    · rw [Option.toList_some,responses_notification,hanswers]
    · rw [Option.toList_some,notifications_notification]
      have hnotis := hp.notis
      rw [hn,List.map_cons] at hnotis
      refine List.Sublist.trans ?_ hnotis
      exact List.Sublist.append_left (List.singleton_sublist.mpr List.mem_cons_self) _

theorem Inv.of_notifing (hp : Progress out0 c sent (begun c._notimsgs) [])
    (hst : c._pstate = .iostNotifing) : Inv out0 c := by
  refine .between sent hp ?_ ?_ ?_ <;> simp [hst]

theorem Inv.of_idle (hp : Progress out0 c sent (begun c._notimsgs) [])
    (hst : c._pstate = .iostIdle) (hn : c._notimsgs = []) : Inv out0 c := by
  refine .between sent hp ?_ (fun _ => hn) ?_ <;> simp [hst]

/-- The frame of the first notification is complete. -/
theorem Progress.notified {n : CCNINotification} {ns : List CCNINotification} {m : ℕ} {s : Sock}
    (hp : Progress out0 c sent (begun c._notimsgs) []) (hn : c._notimsgs = n :: ns)
    (hout : s.out = c._tcpfd.out ++ (n.msg.drop n.pos).take m) (hall : n.msg.length ≤ n.pos + m)
    (st : io_state_t) :
    Progress out0 { c with _pstate := st, _tcpfd := s, _notimsgs := ns }
      (sent ++ [.notification n.msg]) (begun ns) [] := by
  have hfresh : ∀ n' ∈ ns, n'.pos = 0 := fun n' hn' => hp.fresh n' (by rw [hn]; exact hn')
  have hrest : (n.msg.drop n.pos).take m = n.msg.drop n.pos :=
    List.take_of_length_le (by rw [List.length_drop]; omega)
  refine ⟨?_,?_,?_,?_,fun n' hn' => hfresh n' (List.mem_of_mem_tail hn')⟩
  · change s.out = _
    rw [hout,hp.out,hn,begun,hrest,begun_eq_nil hfresh,stream_notification,List.append_nil]
    simp only [List.append_assoc,List.take_append_drop]
  · rw [responses_notification]
    exact hp.answers
  · have hnotis := hp.notis
    rw [hn,List.map_cons] at hnotis
    rw [notifications_notification,List.append_assoc]
    exact hnotis
  · exact fun n' hn' => hp.room n' (by rw [hn]; exact List.mem_cons_of_mem _ hn')

/-- More of the first notification is out, but not all of it. -/
theorem Progress.notifying {n n' : CCNINotification} {ns : List CCNINotification} {m : ℕ}
    {s : Sock} (hp : Progress out0 c sent (begun c._notimsgs) []) (hn : c._notimsgs = n :: ns)
    (hout : s.out = c._tcpfd.out ++ (n.msg.drop n.pos).take m) (hmsg : n'.msg = n.msg)
    (hpos : n'.pos = n.pos + m) (hlt : n'.pos < n.msg.length) (st : io_state_t) :
    Progress out0 { c with _pstate := st, _tcpfd := s, _notimsgs := n' :: ns } sent
      (begun (n' :: ns)) [] := by
  refine ⟨?_,hp.answers,?_,?_,?_⟩
  · change s.out = _
    rw [hout,hp.out,hn,begun,begun,hmsg,hpos,List.take_add]
    simp only [List.append_assoc]
  · have hnotis := hp.notis
    rw [hn,List.map_cons] at hnotis
    rw [List.map_cons,hmsg]
    exact hnotis
  · intro n'' hn''
    rcases List.mem_cons.mp hn'' with rfl | hn''
    · exact hmsg ▸ hlt
    · exact hp.room n'' (by rw [hn]; exact List.mem_cons_of_mem _ hn'')
  · exact fun n'' hn'' => hp.fresh n'' (by rw [hn]; exact hn'')

/-- A notification of which nothing is out can be given up. -/
theorem Progress.dropped {n : CCNINotification} {ns : List CCNINotification} {s : Sock}
    (hp : Progress out0 c sent (begun c._notimsgs) []) (hn : c._notimsgs = n :: ns)
    (hpos : n.pos = 0) (hout : s.out = c._tcpfd.out) (st : io_state_t) :
    Progress out0 { c with _pstate := st, _tcpfd := s, _notimsgs := ns } sent (begun ns) [] := by
  have hfresh : ∀ n' ∈ ns, n'.pos = 0 := fun n' hn' => hp.fresh n' (by rw [hn]; exact hn')
  refine ⟨?_,hp.answers,?_,?_,fun n' hn' => hfresh n' (List.mem_of_mem_tail hn')⟩
  · change s.out = _
    rw [hout,hp.out,hn,begun,hpos,List.take_zero,begun_eq_nil hfresh]
  · have hnotis := hp.notis
    rw [hn,List.map_cons] at hnotis
    refine List.Sublist.trans ?_ hnotis
    exact List.Sublist.append_left (List.sublist_cons_self _ _) _
  · exact fun n' hn' => hp.room n' (by rw [hn]; exact List.mem_cons_of_mem _ hn')

/-- `donotify` between two frames or inside the first notification. After an error the stream
can only go on where the notification had not begun. -/
theorem donotify_kept (hp : Progress out0 c sent (begun c._notimsgs) []) :
    Kept out0 c.donotify.1 c.donotify.2 ∧
    ((∀ n ∈ c._notimsgs, n.pos = 0) → Inv out0 c.donotify.2) := by
  unfold donotify
  cases hn : c._notimsgs with
  | nil =>
    have hrest : Progress out0 { c with _pstate := .iostIdle, _notimsgs := [] } sent [] [] := by
      refine ⟨?_,hp.answers,?_,nofun,nofun⟩
      · rw [hp.out,hn,begun]
      · have hnotis := hp.notis
        rw [hn] at hnotis
        exact hnotis
    have hinv := Inv.of_idle hrest rfl rfl
    exact ⟨⟨fun _ => hinv,Bool.noConfusion⟩,fun _ => hinv⟩
  | cons n ns =>
    have hmem : n ∈ c._notimsgs := by
      rw [hn]
      exact List.mem_cons_self
    obtain ⟨m,hsent⟩ := CCNINotification.send_sent (hp.room n hmem) c._tcpfd
    dsimp only
    rcases hsend : n.send c._tcpfd with ⟨r,n',s⟩
    rw [hsend] at hsent
    cases r with
    | sendok =>
      have hnext := hp.notified hn hsent.out (hsent.sendok rfl)
      have hinv : Inv out0 { c with
          _pstate := if ns.isEmpty then io_state_t.iostIdle else .iostNotifing
          _tcpfd := s, _notimsgs := ns } := by
        cases ns with
        | nil => exact Inv.of_idle (hnext _) rfl rfl
        | cons n'' ns' => exact Inv.of_notifing (hnext _) rfl
      exact ⟨⟨fun _ => hinv,Bool.noConfusion⟩,fun _ => hinv⟩
    | eagain =>
      have hroom := hsent.eagain rfl
      have hnext := hp.notifying hn hsent.out hsent.msg hroom.1 hroom.2 .iostNotifing
      have hinv := Inv.of_notifing hnext rfl
      exact ⟨⟨fun _ => hinv,Bool.noConfusion⟩,fun _ => hinv⟩
    | error =>
      have hout : s.out = c._tcpfd.out := by
        rw [hsent.out,hsent.error rfl,List.take_zero,List.append_nil]
      obtain ⟨next,tail,hf⟩ := hp.framed
      refine ⟨⟨Bool.noConfusion,fun _ => ⟨io_state_t.noConfusion,sent,next,tail,?_⟩⟩,fun hfresh => ?_⟩
      · exact ⟨hout.trans hf.out,hf.tail_prefix,hf.answers,hf.notis⟩
      · have hnext := hp.dropped hn (hfresh n List.mem_cons_self) hout .iostNotifing
        exact Inv.of_notifing hnext rfl

/-- The frame of the response is complete. -/
theorem Progress.answered {frame : List UInt8} {k m : ℕ} {s : Sock}
    (hp : Progress out0 c sent (frame.take k) [frame]) (hfresh : ∀ n ∈ c._notimsgs, n.pos = 0)
    (hout : s.out = c._tcpfd.out ++ (frame.drop k).take m) (hall : frame.length ≤ k + m)
    (st : io_state_t) (res : CCNIMsgPacker) (cur : CCNIMsgParser) :
    Progress out0 { c with _pstate := st, _tcpfd := s, _resmsg := res, _curmsg := cur }
      (sent ++ [.response frame]) (begun c._notimsgs) [] := by
  have hrest : (frame.drop k).take m = frame.drop k :=
    List.take_of_length_le (by rw [List.length_drop]; omega)
  refine ⟨?_,?_,?_,hp.room,hp.fresh⟩
  · change s.out = _
    rw [hout,hp.out,hrest,begun_eq_nil hfresh,stream_response,List.append_nil]
    simp only [List.append_assoc,List.take_append_drop]
  · rw [responses_response,List.append_nil]
    exact hp.answers
  · rw [notifications_response]
    exact hp.notis

theorem Progress.framed_response {frame : List UInt8} {k : ℕ}
    (hp : Progress out0 c sent (frame.take k) [frame]) :
    Framed out0 c sent (some (.response frame)) (frame.take k) := by
  refine ⟨hp.out,?_,?_,?_⟩
  · simp only [stream,Option.toList_some,List.flatMap_singleton,Piece.bytes]
    exact List.take_prefix _ _
  · rw [Option.toList_some,responses_response]
    exact hp.answers
  · rw [Option.toList_some,notifications_response]
    exact (List.sublist_append_left _ _).trans hp.notis

/-- `dosend` with `k` bytes of the response out. -/
theorem dosend_kept {k : ℕ} (hp : Progress out0 c sent (c._resmsg.frame.take k) [c._resmsg.frame])
    (hfresh : ∀ n ∈ c._notimsgs, n.pos = 0) (hsending : c._resmsg.Sending k)
    (hfilled : c._resmsg.Filled) : Kept out0 c.dosend.1 c.dosend.2 := by
  obtain ⟨m,hsent⟩ := CCNIMsgPacker.send_sent hfilled hsending c._tcpfd
  have hmore : (c._tcpfd.out ++ (c._resmsg.frame.drop k).take m) =
      out0 ++ stream sent ++ c._resmsg.frame.take (k + m) := by
    rw [hp.out,List.append_assoc,List.take_add]
  unfold dosend
  dsimp only
  rcases hsent.state with hstill | ⟨hok,hall⟩ | herror
  · have hgoing : (c._resmsg.send c._tcpfd).1.state ≠ .st_sderror ∧
        (c._resmsg.send c._tcpfd).1.state ≠ .st_sdok := by
      cases hstill with
      | header hstate => rw [hstate]; exact ⟨nofun,nofun⟩
      | body hstate => rw [hstate]; exact ⟨nofun,nofun⟩
    rw [if_neg hgoing.1,if_neg hgoing.2]
    refine ⟨fun _ => .sending sent (k + m) ?_ rfl hfresh hstill hsent.filled,Bool.noConfusion⟩
    dsimp only
    rw [hsent.frame]
    exact ⟨hsent.out.trans hmore,hp.answers,hp.notis,hp.room,hp.fresh⟩
  · rw [if_neg (by rw [hok]; exact nofun),if_pos hok]
    have hnext := hp.answered hfresh hsent.out hall .iostSending
      (c._resmsg.send c._tcpfd).1.free c._curmsg.free
    exact (donotify_kept hnext).1
  · rw [if_pos herror]
    have hcut : Progress out0 { c with
        _pstate := .iostSending, _resmsg := (c._resmsg.send c._tcpfd).1
        _tcpfd := (c._resmsg.send c._tcpfd).2 } sent (c._resmsg.frame.take (k + m))
        [c._resmsg.frame] :=
      ⟨hsent.out.trans hmore,hp.answers,hp.notis,hp.room,hp.fresh⟩
    exact ⟨by simp,
      fun _ => ⟨io_state_t.noConfusion,sent,_,_,hcut.framed_response⟩⟩

/-- A packed response, of which nothing is out. -/
theorem Progress.procMsgs (hp : Progress out0 c sent [] []) (dump : Option (List UInt8)) :
    Progress out0 (c.procMsgs dump) sent ((c.procMsgs dump)._resmsg.frame.take 0)
      [(c.procMsgs dump)._resmsg.frame] := by
  refine ⟨hp.out,?_,hp.notis,hp.room,hp.fresh⟩
  have hanswers := hp.answers
  rw [List.append_nil] at hanswers
  rw [hanswers]
  simp [CClientIo.procMsgs]

theorem doread_kept (createFromXmlCdata : List UInt8 → Option CXmlNode)
    (dump : Option (List UInt8)) (hp : Progress out0 c sent [] [])
    (hfresh : ∀ n ∈ c._notimsgs, n.pos = 0) :
    Kept out0 (doread createFromXmlCdata dump c).1 (doread createFromXmlCdata dump c).2 := by
  have hread : ∀ cur, Progress out0 { c with
      _pstate := .iostReading, _curmsg := cur, _tcpfd := (c._curmsg.read c._tcpfd).2 } sent [] [] :=
    fun cur => ⟨(CCNIMsgParser.read_out _ _).trans hp.out,hp.answers,hp.notis,hp.room,hp.fresh⟩
  have hnil := begun_eq_nil hfresh
  have hframed : ∀ cur, ∃ next tail, Framed out0 { c with
      _pstate := .iostReading, _curmsg := cur, _tcpfd := (c._curmsg.read c._tcpfd).2 }
      sent next tail := fun cur => Progress.framed <| by
    dsimp only
    rw [hnil]
    exact hread cur
  have hfail : ∀ cur, Kept out0 false { c with
      _pstate := .iostReading, _curmsg := cur, _tcpfd := (c._curmsg.read c._tcpfd).2 } :=
    fun cur => ⟨Bool.noConfusion,fun _ => ⟨io_state_t.noConfusion,sent,hframed cur⟩⟩
  unfold doread
  dsimp only
  split
  · exact hfail _
  · split
    · exact hfail _
    · split
      · refine ⟨fun _ => .between sent ?_ ?_ ?_ (fun _ => hfresh),Bool.noConfusion⟩
        · dsimp only
          rw [hnil]
          exact hread _
        · simp
        · simp
      · split
        · exact dosend_kept ((hread _).procMsgs dump) hfresh
            (CCNIMsgPacker.pack_sending _ _ _ _ _ _) (CCNIMsgPacker.pack_filled _ _ _ _ _ _)
        · exact hfail _

/-- The calls under the switch keep what holds between two calls. -/
theorem resume_kept (createFromXmlCdata : List UInt8 → Option CXmlNode)
    (dump : Option (List UInt8)) (h : Inv out0 c) (hctsk : c._ctsk = true) :
    Kept out0 (resume createFromXmlCdata dump c).1 (resume createFromXmlCdata dump c).2 := by
  unfold resume
  cases h with
  | between sent hp hstate hidle hread =>
    cases hst : c._pstate with
    | iostIdle =>
      have hnil := hidle hst
      have hfresh : ∀ n ∈ c._notimsgs, n.pos = 0 := by
        rw [hnil]
        exact nofun
      rw [begun_eq_nil hfresh] at hp
      exact doread_kept createFromXmlCdata dump hp hfresh
    | iostReading =>
      have hfresh := hread hst
      rw [begun_eq_nil hfresh] at hp
      exact doread_kept createFromXmlCdata dump hp hfresh
    | iostSending => exact absurd hst hstate
    | iostNotifing => exact (donotify_kept hp).1
  | sending sent k hp hstate hfresh hsending hfilled =>
    rw [hstate]
    exact dosend_kept hp hfresh hsending hfilled
  | broken sent next tail hf hno => simp [hctsk] at hno

theorem doWork_inv (createFromXmlCdata : List UInt8 → Option CXmlNode)
    (dump : Option (List UInt8)) (h : Inv out0 c) (hctsk : c._ctsk = true) :
    Inv out0 (doWork createFromXmlCdata dump c).2 := by
  have hkept := resume_kept createFromXmlCdata dump h hctsk
  unfold doWork
  dsimp only
  cases hret : (resume createFromXmlCdata dump c).1 with
  | true => exact hkept.ok hret
  | false =>
    obtain ⟨hst,sent,next,tail,hf⟩ := hkept.failed hret
    exact .broken sent next tail ⟨hf.out,hf.tail_prefix,hf.answers,hf.notis⟩ rfl hst

/-- A notification at the end of the queue changes nothing in front of it. -/
theorem Progress.push {tail : List UInt8} {answering : List (List UInt8)}
    (hp : Progress out0 c sent tail answering) {msg : List UInt8} (hmsg : 0 < msg.length) :
    Progress out0 (c.push_back msg) sent tail answering := by
  refine ⟨hp.out,hp.answers,?_,?_,?_⟩
  · have hboth := hp.notis.append (List.Sublist.refl [msg])
    rw [List.append_assoc] at hboth
    rw [push_back_notimsgs,List.map_append]
    exact hboth
  · intro n hn
    rcases List.mem_append.mp hn with hn | hn
    · exact hp.room n hn
    · rw [List.mem_singleton.mp hn]
      exact hmsg
  · intro n hn
    rw [push_back_notimsgs] at hn
    cases hl : c._notimsgs with
    | nil =>
      rw [hl] at hn
      simp at hn
    | cons n' ns =>
      rw [hl] at hn
      rcases List.mem_append.mp hn with hn | hn
      · exact hp.fresh n (by rw [hl]; exact hn)
      · rw [List.mem_singleton.mp hn]

theorem begun_push (ns : List CCNINotification) (msg : List UInt8) :
    begun (ns ++ [⟨msg,0⟩]) = begun ns := by
  cases ns with
  | nil => rfl
  | cons n ns => rfl

theorem fresh_push {ns : List CCNINotification} (h : ∀ n ∈ ns, n.pos = 0) (msg : List UInt8) :
    ∀ n ∈ ns ++ [⟨msg,0⟩], n.pos = 0 := by
  intro n hn
  rcases List.mem_append.mp hn with hn | hn
  · exact h n hn
  · rw [List.mem_singleton.mp hn]

theorem queueNotification_inv {msg : List UInt8} (hmsg : 0 < msg.length) (h : Inv out0 c) :
    Inv out0 (queueNotification msg c) := by
  unfold queueNotification
  dsimp only
  rw [push_back_pstate]
  cases h with
  | between sent hp hstate hidle hread =>
    have hpush := hp.push hmsg
    rw [← begun_push c._notimsgs msg] at hpush
    split
    · next hst =>
      have hfresh : ∀ n ∈ c._notimsgs, n.pos = 0 := by
        rw [hidle hst]
        exact nofun
      exact (donotify_kept hpush).2 (fresh_push hfresh msg)
    · next hst =>
      exact .between sent hpush hstate (fun h => absurd h hst)
        (fun h => fresh_push (hread h) msg)
  | sending sent k hp hstate hfresh hsending hfilled =>
    rw [if_neg (by rw [hstate]; exact nofun)]
    exact .sending sent k (hp.push hmsg) hstate (fresh_push hfresh msg) hsending hfilled
  | broken sent next tail hf hctsk hstate =>
    rw [if_neg hstate]
    exact .broken sent next tail
      ⟨hf.out,hf.tail_prefix,hf.answers,hf.notis.trans (List.sublist_append_left _ _)⟩ hctsk hstate

theorem step_inv (createFromXmlCdata : List UInt8 → Option CXmlNode) (e : Event)
    (h : Inv out0 c) : Inv out0 (step createFromXmlCdata c e) := by
  cases e with
  | doWork dump =>
    dsimp only [step]
    split
    · next hctsk => exact doWork_inv createFromXmlCdata dump h hctsk
    · exact h
  | queueNotification dump =>
    have hframe : IsFrame (CCNIMsgPacker.new.pack (some dump) 0 0 0 0).2.frame :=
      (CCNIMsgPacker.pack_filled _ _ _ _ _ _).isFrame
    simp only [step,CCNIMsgPacker.packToFlat_eq]
    exact queueNotification_inv hframe.length_pos h

theorem new_inv (sock : Sock) : Inv sock.out (new sock) := by
  have hp : Progress sock.out (new sock) [] [] [] := by
    refine ⟨?_,rfl,List.Sublist.refl [],nofun,nofun⟩
    rw [stream,List.flatMap_nil,List.append_nil,List.append_nil]
    rfl
  exact Inv.of_idle hp rfl rfl

/-- Between two calls the stream is framed, and nothing is queued while the client is idle. -/
theorem Inv.framed (h : Inv out0 c) :
    (∃ sent next tail, Framed out0 c sent next tail) ∧
    (c._pstate = .iostIdle → c._notimsgs = []) := by
  cases h with
  | between sent hp hstate hidle hread => exact ⟨⟨sent,hp.framed⟩,hidle⟩
  | sending sent k hp hstate hfresh hsending hfilled =>
    refine ⟨⟨sent,_,_,hp.framed_response⟩,fun hst => ?_⟩
    simp [hstate] at hst
  | broken sent next tail hf hctsk hstate =>
    exact ⟨⟨sent,next,tail,hf⟩,fun hst => absurd hst hstate⟩

/-- Everything on record is a complete frame. -/
structure Recorded (c : CClientIo) : Prop where
  answers : ∀ x ∈ c.exchanged, IsFrame x.answer
  notis : ∀ msg ∈ c.queued, IsFrame msg

theorem donotify_recorded (h : Recorded c) : Recorded c.donotify.2 := by
  unfold donotify
  split
  · exact ⟨h.answers,h.notis⟩
  · split <;> exact ⟨h.answers,h.notis⟩

theorem dosend_recorded (h : Recorded c) : Recorded c.dosend.2 := by
  dsimp only [dosend]
  split
  · exact ⟨h.answers,h.notis⟩
  · split
    · exact donotify_recorded ⟨h.answers,h.notis⟩
    · exact ⟨h.answers,h.notis⟩

theorem procMsgs_recorded (h : Recorded c) (dump : Option (List UInt8)) :
    Recorded (c.procMsgs dump) := by
  refine ⟨fun x hx => ?_,h.notis⟩
  rcases List.mem_append.mp hx with hx | hx
  · exact h.answers x hx
  · rw [List.mem_singleton.mp hx]
    exact (CCNIMsgPacker.pack_filled _ _ _ _ _ _).isFrame

theorem doread_recorded (createFromXmlCdata : List UInt8 → Option CXmlNode)
    (dump : Option (List UInt8)) (h : Recorded c) :
    Recorded (doread createFromXmlCdata dump c).2 := by
  have hread : ∀ cur, Recorded { c with
      _pstate := .iostReading, _curmsg := cur, _tcpfd := (c._curmsg.read c._tcpfd).2 } :=
    fun _ => ⟨h.answers,h.notis⟩
  dsimp only [doread]
  split
  · exact hread _
  · split
    · exact hread _
    · split
      · exact hread _
      · split
        · exact dosend_recorded (procMsgs_recorded (hread _) dump)
        · exact hread _

theorem step_recorded (createFromXmlCdata : List UInt8 → Option CXmlNode) (e : Event)
    (h : Recorded c) : Recorded (step createFromXmlCdata c e) := by
  cases e with
  | doWork dump =>
    have hresume : Recorded (resume createFromXmlCdata dump c).2 := by
      unfold resume
      cases c._pstate with
      | iostIdle => exact doread_recorded createFromXmlCdata dump h
      | iostReading => exact doread_recorded createFromXmlCdata dump h
      | iostSending => exact dosend_recorded h
      | iostNotifing => exact donotify_recorded h
    dsimp only [step,doWork]
    split
    · split
      · exact hresume
      · exact ⟨hresume.answers,hresume.notis⟩
    · exact h
  | queueNotification dump =>
    have hpush : Recorded (c.push_back (CCNIMsgPacker.new.pack (some dump) 0 0 0 0).2.frame) := by
      refine ⟨h.answers,fun msg hmsg => ?_⟩
      rcases List.mem_append.mp hmsg with hmsg | hmsg
      · exact h.notis msg hmsg
      · rw [List.mem_singleton.mp hmsg]
        exact (CCNIMsgPacker.pack_filled _ _ _ _ _ _).isFrame
    simp only [step,CCNIMsgPacker.packToFlat_eq,queueNotification]
    split
    · exact donotify_recorded hpush
    · exact hpush

theorem mem_responses {ps : List Piece} {bs : List UInt8} (h : .response bs ∈ ps) :
    bs ∈ responses ps := List.mem_filterMap.mpr ⟨_,h,rfl⟩

theorem mem_notifications {ps : List Piece} {bs : List UInt8} (h : .notification bs ∈ ps) :
    bs ∈ notifications ps := List.mem_filterMap.mpr ⟨_,h,rfl⟩

theorem Recorded.isFrame {next : Option Piece} {tail : List UInt8} (h : Recorded c)
    (hf : Framed out0 c sent next tail) : ∀ p ∈ sent ++ next.toList, IsFrame p.bytes := by
  intro p hp
  cases p with
  | response bs =>
    have hmem := mem_responses hp
    rw [hf.answers] at hmem
    obtain ⟨x,hx,rfl⟩ := List.mem_map.mp hmem
    exact h.answers x hx
  | notification bs => exact h.notis bs (hf.notis.subset (mem_notifications hp))

end

/-- After every run of calls the stream of a client is a row of complete frames and the front
of one more, the responses once and in the order of the requests, the notifications in the
order in which they were queued. -/
theorem stream_framed (createFromXmlCdata : List UInt8 → Option CXmlNode) (sock : Sock)
    (es : List Event) (c : CClientIo)
    (hrun : Lts.Run (Step createFromXmlCdata) (new sock) es c) :
    (∃ sent next tail, Framed sock.out c sent next tail ∧
      ∀ p ∈ sent ++ next.toList, IsFrame p.bytes) ∧
    (c._pstate = .iostIdle → c._notimsgs = []) := by
  have hinv : Inv sock.out c := hrun.invariant
    (fun _ e _ h hs => hs ▸ step_inv createFromXmlCdata e h) (new_inv sock)
  have hrecorded : Recorded c := hrun.invariant
    (fun _ e _ h hs => hs ▸ step_recorded createFromXmlCdata e h) ⟨nofun,nofun⟩
  obtain ⟨⟨sent,next,tail,hf⟩,hidle⟩ := hinv.framed
  exact ⟨⟨sent,next,tail,hf,hrecorded.isFrame hf⟩,hidle⟩

/-- The kernel takes five bytes of the first notification, and a second one queues behind it. -/
def cutRun : CClientIo :=
  [.queueNotification [1,2],.queueNotification [3]].foldl (step fun _ => none)
    (new ⟨[],[],[],[.accept 5]⟩)

theorem stream_framed_cut :
    (∃ sent next tail, Framed [] cutRun sent next tail ∧
      ∀ p ∈ sent ++ next.toList, IsFrame p.bytes) ∧
    (cutRun._pstate = .iostIdle → cutRun._notimsgs = []) :=
  stream_framed (fun _ => none) ⟨[],[],[],[.accept 5]⟩
    [.queueNotification [1,2],.queueNotification [3]] cutRun (Lts.run_foldl _ _ _)

end CClientIo
end CcniServer
