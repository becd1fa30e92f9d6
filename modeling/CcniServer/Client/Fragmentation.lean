import CcniServer.Client.Framing

/-!
The stream of a client's requests, cut by the kernel wherever it likes. A body can be cut; a
header that arrives in two pieces, or late, costs the client its connection.
-/
namespace CcniServer

namespace Request

/-- The frame of a request. -/
def bytes (r : Request) : List UInt8 := r.hd.toBytes ++ r.body

/-- A request whose header passes `verify` and whose body, of at least one byte, `parse`
accepts. -/
structure Valid (createFromXmlCdata : List UInt8 → Option CXmlNode) (r : Request) : Prop where
  verify : r.hd.verify = true
  length : r.body.length = r.hd.datalen.toNat
  pos : 1 ≤ r.hd.datalen.toNat
  parse : ∀ p : CCNIMsgParser, p.state = .st_rdok → p.data = some r.body →
    (p.parse createFromXmlCdata).1 = true

end Request

namespace CClientIo

/-- The requests handed to `procMsgs`. -/
def handed (c : CClientIo) : List Request := c.exchanged.map Exchange.request

/-- No call has returned false, and every request of which all bytes were read has been handed
on, in the order of the stream. -/
structure Undisturbed (frames : List Request) (c : CClientIo) : Prop where
  task : c._ctsk = true
  handed : ∃ todo got, frames = c.handed ++ todo ∧
    todo.flatMap Request.bytes = got ++ c._tcpfd.inp ∧
    ∀ r ∈ todo.head?, got.length < r.bytes.length

/-- The response of a call has a text, and a length that the header can carry. -/
def Event.Answered : Event → Prop
  | .doWork dump => ∃ d, dump = some d ∧ d.length % 65536 ≠ 0
  | .queueNotification _ => True

/-- The reads of headers that the kernel serves whole. -/
def HeaderWhole (c : CClientIo) : Event → Prop
  | .doWork _ => c._ctsk = true → c._pstate = .iostIdle ∨ c._pstate = .iostReading →
      c._curmsg.state = .st_rdhd → c._tcpfd.WholeHeader CCNI_HEADER.size
  | .queueNotification _ => True

/-- The socket brings nothing but bytes, and takes them. -/
structure Open (s : Sock) : Prop where
  alive : s.Alive
  writable : s.Writable

/-- Where a client stands in the stream of its requests, `todo` those not yet handed on. -/
inductive Standing (todo : List Request) (c : CClientIo) : Prop
  | reading (got : List UInt8) (hstate : c._pstate ≠ .iostSending)
      (hparsed : CCNIMsgParser.Parsed got c._curmsg)
      (hfront : c._curmsg.state = .st_rdhd ∧ got = [] ∨ c._curmsg.state = .st_rdbd)
      (hstream : todo.flatMap Request.bytes = got ++ c._tcpfd.inp)
  | sending (k : ℕ) (bs : List UInt8) (hstate : c._pstate = .iostSending)
      (hparsed : CCNIMsgParser.Parsed bs c._curmsg) (hok : c._curmsg.state = .st_rdok)
      (hsending : c._resmsg.Sending k) (hfilled : c._resmsg.Filled)
      (hpos : 0 < c._resmsg.hd.datalen.toNat)
      (hstream : todo.flatMap Request.bytes = c._tcpfd.inp)

/-- What holds between the calls as long as none has returned false. -/
structure Along (frames : List Request) (c : CClientIo) : Prop where
  task : c._ctsk = true
  sock : Open c._tcpfd
  room : ∀ n ∈ c._notimsgs, n.pos < n.msg.length
  standing : ∃ todo, frames = c.handed ++ todo ∧ Standing todo c

section
variable {frames todo : List Request} {c : CClientIo}

/-- `donotify` returns true and leaves the reader alone. -/
structure Notified (c c' : CClientIo) : Prop where
  state : c'._pstate ≠ .iostSending
  curmsg : c'._curmsg = c._curmsg
  inp : c'._tcpfd.inp = c._tcpfd.inp
  sock : Open c'._tcpfd
  room : ∀ n ∈ c'._notimsgs, n.pos < n.msg.length
  exchanged : c'.exchanged = c.exchanged
  task : c'._ctsk = c._ctsk

theorem donotify_notified (hsock : Open c._tcpfd)
    (hroom : ∀ n ∈ c._notimsgs, n.pos < n.msg.length) :
    c.donotify.1 = true ∧ Notified c c.donotify.2 := by
  unfold donotify
  cases hn : c._notimsgs with
  | nil =>
    refine ⟨rfl,io_state_t.noConfusion,rfl,rfl,hsock,?_,rfl,rfl⟩
    exact fun n h => absurd h List.not_mem_nil
  | cons n ns =>
    rw [hn] at hroom
    have hpos := hroom n List.mem_cons_self
    have hrest : ∀ n' ∈ ns, n'.pos < n'.msg.length :=
      fun n' hn' => hroom n' (List.mem_cons_of_mem _ hn')
    obtain ⟨m,hsent⟩ := CCNINotification.send_sent hpos c._tcpfd
    obtain ⟨hok,hwritable⟩ := CCNINotification.send_writable hpos hsock.writable
    dsimp only
    rcases hsend : n.send c._tcpfd with ⟨r,n',s⟩
    rw [hsend] at hsent hok hwritable
    have hopen : Open s := ⟨fun o ho => hsock.alive o (hsent.recvs ▸ ho),hwritable⟩
    cases r with
    | sendok =>
      refine ⟨rfl,?_,rfl,hsent.inp,hopen,hrest,rfl,rfl⟩
      dsimp only
      split <;> simp
    | eagain =>
      refine ⟨rfl,io_state_t.noConfusion,rfl,hsent.inp,hopen,fun n'' hn'' => ?_,rfl,rfl⟩
      rcases List.mem_cons.mp hn'' with rfl | hn''
      · have hlt := (hsent.eagain rfl).2
        exact hsent.msg ▸ hlt
      · exact hrest n'' hn''
    | error => simp at hok

/-- `dosend` returns true, with the response under way or all of it out. -/
theorem dosend_along {k : ℕ} {bs : List UInt8} (htask : c._ctsk = true) (hsock : Open c._tcpfd)
    (hroom : ∀ n ∈ c._notimsgs, n.pos < n.msg.length) (hframes : frames = c.handed ++ todo)
    (hparsed : CCNIMsgParser.Parsed bs c._curmsg) (hok : c._curmsg.state = .st_rdok)
    (hsending : c._resmsg.Sending k) (hfilled : c._resmsg.Filled)
    (hpos : 0 < c._resmsg.hd.datalen.toNat)
    (hstream : todo.flatMap Request.bytes = c._tcpfd.inp) :
    c.dosend.1 = true ∧ Along frames c.dosend.2 := by
  obtain ⟨m,hsent⟩ := CCNIMsgPacker.send_sent hfilled hsending c._tcpfd
  obtain ⟨hnoerror,hwritable⟩ := CCNIMsgPacker.send_writable hfilled hpos hsending hsock.writable
  have hopen : Open (c._resmsg.send c._tcpfd).2 :=
    ⟨fun o ho => hsock.alive o (hsent.recvs ▸ ho),hwritable⟩
  dsimp only [dosend]
  rw [if_neg hnoerror]
  rcases hsent.state with hstill | ⟨hsdok,hall⟩ | herror
  · have hmore : (c._resmsg.send c._tcpfd).1.state ≠ .st_sdok := by
      cases hstill with
      | header hstate =>
        rw [hstate]
        simp
      | body hstate =>
        rw [hstate]
        simp
    rw [if_neg hmore]
    refine ⟨rfl,htask,hopen,hroom,todo,hframes,?_⟩
    exact .sending (k + m) bs rfl hparsed hok hstill hsent.filled (hsent.hd ▸ hpos)
      (hstream.trans hsent.inp.symm)
  · rw [if_pos hsdok]
    obtain ⟨hret,hnoti⟩ := @donotify_notified { c with
      _pstate := .iostSending, _resmsg := (c._resmsg.send c._tcpfd).1.free
      _tcpfd := (c._resmsg.send c._tcpfd).2, _curmsg := c._curmsg.free } hopen hroom
    refine ⟨hret,hnoti.task.trans htask,hnoti.sock,hnoti.room,todo,?_,?_⟩
    · rw [handed,hnoti.exchanged]
      exact hframes
    · obtain ⟨hfree,hfront⟩ := hparsed.free hok
      refine .reading [] hnoti.state ?_ (.inl ⟨?_,rfl⟩) ?_
      · rw [hnoti.curmsg]
        exact hfree
      · rw [hnoti.curmsg]
        exact hfront
      · rw [hnoti.inp,List.nil_append]
        exact hstream.trans hsent.inp.symm
  · exact absurd herror hnoerror

variable {createFromXmlCdata : List UInt8 → Option CXmlNode}

/-- A read in front of a header that does not come whole makes `doread` return false. -/
theorem doread_lost (dump : Option (List UInt8)) (hsock : Open c._tcpfd)
    (hparsed : CCNIMsgParser.Parsed [] c._curmsg) (hstate : c._curmsg.state = .st_rdhd)
    (hcut : ¬ c._tcpfd.WholeHeader CCNI_HEADER.size) :
    (doread createFromXmlCdata dump c).1 = false := by
  have hpos : c._curmsg.pos = 0 := (hparsed.in_header hstate).1
  have hstill : (c._curmsg.read c._tcpfd).1.state = .st_rdhd :=
    not_not.mp (mt (CCNIMsgParser.read_header_iff hsock.alive hstate hpos).mp hcut)
  have hnotok : (c._curmsg.read c._tcpfd).1.state ≠ .st_rdok := by
    rw [hstill]
    simp
  have hfalse := CCNIMsgParser.parse_incomplete createFromXmlCdata hnotok
  dsimp only [doread]
  rw [hstill,if_neg CCNIMsgParser.State.noConfusion,if_neg CCNIMsgParser.State.noConfusion,
    if_neg (mt (waits_iff _).mp CCNIMsgParser.State.noConfusion),hfalse]
  rfl

/-- A read from inside a body, or of a header that comes whole, leads into the body or to the
end of the frame. -/
theorem read_along (hvalid : ∀ r ∈ todo, r.Valid createFromXmlCdata) (hsock : Open c._tcpfd)
    {got : List UInt8} (hparsed : CCNIMsgParser.Parsed got c._curmsg)
    (hfront : c._curmsg.state = .st_rdhd ∧ got = [] ∨ c._curmsg.state = .st_rdbd)
    (hstream : todo.flatMap Request.bytes = got ++ c._tcpfd.inp)
    (hwhole : c._curmsg.state = .st_rdhd → c._tcpfd.WholeHeader CCNI_HEADER.size) :
    ∃ bs r todo', todo = r :: todo' ∧ CCNIMsgParser.Parsed bs (c._curmsg.read c._tcpfd).1 ∧
      Open (c._curmsg.read c._tcpfd).2 ∧
      todo.flatMap Request.bytes = bs ++ (c._curmsg.read c._tcpfd).2.inp ∧
      ((c._curmsg.read c._tcpfd).1.state = .st_rdbd ∨
        (c._curmsg.read c._tcpfd).1.state = .st_rdok ∧
        (c._curmsg.read c._tcpfd).1.header = r.hd ∧
        (c._curmsg.read c._tcpfd).1.data = some r.body ∧
        todo'.flatMap Request.bytes = (c._curmsg.read c._tcpfd).2.inp) := by
  have hreading : c._curmsg.Reading := hfront.imp (fun h => h.1) id
  obtain ⟨got',htook,hread⟩ := CCNIMsgParser.read_parsed hsock.alive hparsed hreading
  have hopen : Open (c._curmsg.read c._tcpfd).2 :=
    ⟨htook.alive,fun o ho => hsock.writable o (htook.sends ▸ ho)⟩
  have hrest : todo.flatMap Request.bytes = (got ++ got') ++ (c._curmsg.read c._tcpfd).2.inp := by
    rw [hstream,htook.inp,List.append_assoc]
  -- The reader has left the header behind.
  have hleft : (c._curmsg.read c._tcpfd).1.state ≠ .st_rdhd := by
    rcases hfront with ⟨hstate,hnil⟩ | hstate
    · have hpos : c._curmsg.pos = 0 := by
        rw [(hparsed.in_header hstate).1,hnil,List.length_nil]
      exact (CCNIMsgParser.read_header_iff hsock.alive hstate hpos).mpr (hwhole hstate)
    · unfold CCNIMsgParser.read
      rw [hstate]
      exact CCNIMsgParser.readRdbd_state hstate _
  have hsome : 0 < (todo.flatMap Request.bytes).length := by
    have hsize : 0 < CCNI_HEADER.size := Nat.succ_pos 31
    rw [hstream,List.length_append]
    rcases hfront with ⟨hstate,-⟩ | hstate
    · have hle := (hwhole hstate).1
      omega
    · have hle := (hparsed.in_body hstate).1
      omega
  cases todo with
  | nil => exact absurd hsome (Nat.lt_irrefl 0)
  | cons r todo' =>
    have hr := hvalid r List.mem_cons_self
    refine ⟨got ++ got',r,todo',rfl,hread,hopen,hrest,?_⟩
    cases hread.stands hr.length hrest with
    | inHeader hstate hlt => exact absurd hstate hleft
    | refused hstate hbad => exact absurd (hbad.symm.trans hr.verify) Bool.false_ne_true
    | noBody hstate hzero => exact absurd hr.pos (by omega)
    | inBody hstate hlt => exact .inl hstate
    | complete hstate hgood hheader hdata hmore => exact .inr ⟨hstate,hheader,hdata,hmore.symm⟩

theorem doread_along {dump : Option (List UInt8)} (hanswer : ∃ d, dump = some d ∧
      d.length % 65536 ≠ 0) (hvalid : ∀ r ∈ todo, r.Valid createFromXmlCdata)
    (htask : c._ctsk = true) (hsock : Open c._tcpfd)
    (hroom : ∀ n ∈ c._notimsgs, n.pos < n.msg.length) (hframes : frames = c.handed ++ todo)
    {got : List UInt8} (hparsed : CCNIMsgParser.Parsed got c._curmsg)
    (hfront : c._curmsg.state = .st_rdhd ∧ got = [] ∨ c._curmsg.state = .st_rdbd)
    (hstream : todo.flatMap Request.bytes = got ++ c._tcpfd.inp)
    (hwhole : c._curmsg.state = .st_rdhd → c._tcpfd.WholeHeader CCNI_HEADER.size) :
    (doread createFromXmlCdata dump c).1 = true ∧
    Along frames (doread createFromXmlCdata dump c).2 := by
  obtain ⟨bs,r,todo',htodo,hread,hopen,hrest,hstate⟩ :=
    read_along hvalid hsock hparsed hfront hstream hwhole
  dsimp only [doread]
  rcases hstate with hbody | ⟨hok,hheader,hdata,hmore⟩
  · rw [hbody,if_neg CCNIMsgParser.State.noConfusion,if_neg CCNIMsgParser.State.noConfusion,
      if_pos ((waits_iff _).mpr rfl)]
    refine ⟨rfl,htask,hopen,hroom,todo,hframes,?_⟩
    exact .reading bs io_state_t.noConfusion hread (.inr hbody) hrest
  · obtain ⟨d,rfl,hlen⟩ := hanswer
    have haccept := (hvalid r (by rw [htodo]; exact List.mem_cons_self)).parse _ hok hdata
    obtain ⟨doc,hdoc⟩ := CCNIMsgParser.parse_snd createFromXmlCdata (c._curmsg.read c._tcpfd).1
    have hnowait : ¬ ((c._curmsg.read c._tcpfd).1.state = .st_rdbd ∨
        CCNIMsgParser.State.val .st_rdhd ≠ 0) := by
      rw [waits_iff,hok]
      simp
    rw [if_neg (by simp [hok]),
      if_neg (by simp [hok]),if_neg hnowait,if_pos haccept,hdoc]
    refine @dosend_along frames todo' (procMsgs (some d) { c with
        _pstate := .iostReading, _tcpfd := (c._curmsg.read c._tcpfd).2
        _curmsg := { (c._curmsg.read c._tcpfd).1 with doc := doc } }) 0 bs htask hopen hroom ?_
      (hread.withDoc doc) hok (CCNIMsgPacker.pack_sending _ _ _ _ _ _)
      (CCNIMsgPacker.pack_filled _ _ _ _ _ _) ?_ hmore
    · have hone : (procMsgs (some d) { c with
          _pstate := .iostReading, _tcpfd := (c._curmsg.read c._tcpfd).2
          _curmsg := { (c._curmsg.read c._tcpfd).1 with doc := doc } }).handed =
          c.handed ++ [⟨(c._curmsg.read c._tcpfd).1.header,
            (c._curmsg.read c._tcpfd).1.data.getD []⟩] := List.map_append
      rw [hone,hheader,hdata,hframes,htodo,List.append_assoc]
      rfl
    · refine Nat.lt_of_lt_of_eq (Nat.pos_of_ne_zero hlen) (Eq.symm ?_)
      exact CCNIMsgPacker.pack_datalen _ _ _ _ _ _

theorem Along.of_notified {c' : CClientIo} (htask : c._ctsk = true)
    (hframes : frames = c.handed ++ todo) (hstanding : Standing todo c)
    (hnosend : c._pstate ≠ .iostSending) (hnoti : Notified c c') : Along frames c' := by
  refine ⟨hnoti.task.trans htask,hnoti.sock,hnoti.room,todo,?_,?_⟩
  · rw [handed,hnoti.exchanged]
    exact hframes
  · cases hstanding with
    | reading got hstate hparsed hfront hstream =>
      refine .reading got hnoti.state ?_ ?_ ?_
      · rw [hnoti.curmsg]
        exact hparsed
      · rw [hnoti.curmsg]
        exact hfront
      · rw [hnoti.inp]
        exact hstream
    | sending k bs hstate => exact absurd hstate hnosend

theorem doWork_along {dump : Option (List UInt8)} (he : (Event.doWork dump).Answered)
    (hvalid : ∀ r ∈ frames, r.Valid createFromXmlCdata) (h : Along frames c)
    (hwhole : HeaderWhole c (.doWork dump)) :
    (resume createFromXmlCdata dump c).1 = true ∧
    Along frames (resume createFromXmlCdata dump c).2 := by
  obtain ⟨todo,hframes,hstanding⟩ := h.standing
  have htodo : ∀ r ∈ todo, r.Valid createFromXmlCdata :=
    fun r hr => hvalid r (by rw [hframes]; exact List.mem_append_right _ hr)
  unfold resume
  cases hstanding with
  | reading got hstate hparsed hfront hstream =>
    cases hst : c._pstate with
    | iostIdle =>
      exact doread_along he htodo h.task h.sock h.room hframes hparsed hfront hstream
        (hwhole h.task (.inl hst))
    | iostReading =>
      exact doread_along he htodo h.task h.sock h.room hframes hparsed hfront hstream
        (hwhole h.task (.inr hst))
    | iostSending => exact absurd hst hstate
    | iostNotifing =>
      obtain ⟨hret,hnoti⟩ := donotify_notified h.sock h.room
      exact ⟨hret,.of_notified h.task hframes (.reading got hstate hparsed hfront hstream) hstate
        hnoti⟩
  | sending k bs hstate hparsed hok hsending hfilled hpos hstream =>
    rw [hstate]
    exact dosend_along h.task h.sock h.room hframes hparsed hok hsending hfilled hpos hstream

theorem queueNotification_along {msg : List UInt8} (hmsg : 0 < msg.length) (h : Along frames c) :
    Along frames (queueNotification msg c) := by
  obtain ⟨todo,hframes,hstanding⟩ := h.standing
  have hroom : ∀ n ∈ (c.push_back msg)._notimsgs, n.pos < n.msg.length := by
    intro n hn
    rcases List.mem_append.mp hn with hn | hn
    · exact h.room n hn
    · rw [List.mem_singleton.mp hn]
      exact hmsg
  have hpush : Standing todo (c.push_back msg) := by
    cases hstanding with
    | reading got hstate hparsed hfront hstream =>
      exact .reading got hstate hparsed hfront hstream
    | sending k bs hstate hparsed hok hsending hfilled hpos hstream =>
      exact .sending k bs hstate hparsed hok hsending hfilled hpos hstream
  unfold queueNotification
  dsimp only
  split
  · next hidle =>
    have hnosend : (c.push_back msg)._pstate ≠ .iostSending := by
      rw [hidle]
      simp
    have hnoti := @donotify_notified (c.push_back msg) h.sock hroom
    exact @Along.of_notified frames todo (c.push_back msg) _ h.task hframes hpush hnosend hnoti.2
  · exact ⟨h.task,h.sock,hroom,todo,hframes,hpush⟩

theorem step_along {e : Event} (he : e.Answered)
    (hvalid : ∀ r ∈ frames, r.Valid createFromXmlCdata) (h : Along frames c)
    (hwhole : HeaderWhole c e) : Along frames (step createFromXmlCdata c e) := by
  cases e with
  | doWork dump =>
    have hresume := doWork_along he hvalid h hwhole
    dsimp only [step,doWork]
    rw [if_pos h.task,if_pos hresume.1]
    exact hresume.2
  | queueNotification dump =>
    have hframe : IsFrame (CCNIMsgPacker.new.pack (some dump) 0 0 0 0).2.frame :=
      (CCNIMsgPacker.pack_filled _ _ _ _ _ _).isFrame
    simp only [step,CCNIMsgPacker.packToFlat_eq]
    exact queueNotification_along hframe.length_pos h

/-- A header that does not come whole ends the connection. -/
theorem step_lost {e : Event} (h : Along frames c) (hcut : ¬ HeaderWhole c e) :
    (step createFromXmlCdata c e)._ctsk = false := by
  cases e with
  | queueNotification dump => exact absurd trivial hcut
  | doWork dump =>
    simp only [HeaderWhole,Classical.not_imp] at hcut
    obtain ⟨htask,hst,hstate,hwhole⟩ := hcut
    obtain ⟨todo,hframes,hstanding⟩ := h.standing
    cases hstanding with
    | sending k bs hsending =>
      rw [hsending] at hst
      rcases hst with hst | hst <;> simp at hst
    | reading got _ hparsed hfront =>
      have hnil : got = [] := hfront.elim (fun h => h.2)
        (fun h => absurd (hstate.symm.trans h) CCNIMsgParser.State.noConfusion)
      have hfalse := @doread_lost c createFromXmlCdata dump h.sock (hnil ▸ hparsed) hstate hwhole
      have hresume : resume createFromXmlCdata dump c = doread createFromXmlCdata dump c := by
        unfold resume
        rcases hst with hst | hst <;> rw [hst]
      dsimp only [step,doWork]
      rw [if_pos htask,hresume,if_neg (by rw [hfalse]; exact Bool.false_ne_true)]

/-- A task that was deleted does not come back. -/
theorem step_gone (e : Event) (h : c._ctsk = false) :
    (step createFromXmlCdata c e)._ctsk = false := by
  cases e with
  | doWork dump =>
    dsimp only [step]
    rw [if_neg (by rw [h]; exact Bool.false_ne_true)]
    exact h
  | queueNotification dump =>
    simp only [step,CCNIMsgPacker.packToFlat_eq,queueNotification]
    split
    · exact (donotify_task _).trans h
    · exact h

theorem new_along {sock : Sock} (hsock : Open sock)
    (hinp : sock.inp = frames.flatMap Request.bytes) : Along frames (new sock) := by
  refine ⟨rfl,hsock,nofun,frames,rfl,?_⟩
  exact .reading [] io_state_t.noConfusion CCNIMsgParser.parsed_new (.inl ⟨rfl,rfl⟩) hinp.symm

theorem Along.undisturbed (hvalid : ∀ r ∈ frames, r.Valid createFromXmlCdata)
    (h : Along frames c) : Undisturbed frames c := by
  obtain ⟨todo,hframes,hstanding⟩ := h.standing
  have hlength : ∀ r ∈ todo.head?, r.bytes.length = CCNI_HEADER.size + r.hd.datalen.toNat := by
    intro r hr
    have hmem : r ∈ frames := by
      rw [hframes]
      exact List.mem_append_right _ (List.mem_of_mem_head? hr)
    rw [Request.bytes,List.length_append,CCNI_HEADER.length_toBytes,(hvalid r hmem).length]
  have hsize : 0 < CCNI_HEADER.size := Nat.succ_pos 31
  refine ⟨h.task,todo,?_⟩
  cases hstanding with
  | sending k bs hstate hparsed hok hsending hfilled hpos hstream =>
    refine ⟨[],hframes,hstream,fun r hr => ?_⟩
    rw [hlength r hr,List.length_nil]
    omega
  | reading got hstate hparsed hfront hstream =>
    refine ⟨got,hframes,hstream,fun r hr => ?_⟩
    rw [hlength r hr]
    rcases hfront with ⟨-,hnil⟩ | hbody
    · rw [hnil,List.length_nil]
      omega
    · obtain ⟨todo',rfl⟩ : ∃ todo', todo = r :: todo' := List.head?_eq_some_iff.mp hr
      have hr' := hvalid r (by rw [hframes]; exact List.mem_append_right _ List.mem_cons_self)
      exact (hparsed.stands hr'.length hstream).body_lt hbody

end

/-- A client keeps its connection, and its requests are handed on as they were sent, exactly
when the kernel delivers every header whole. -/
theorem undisturbed_iff (createFromXmlCdata : List UInt8 → Option CXmlNode)
    (frames : List Request) (hvalid : ∀ r ∈ frames, r.Valid createFromXmlCdata) (sock : Sock)
    (hsock : Open sock) (hinp : sock.inp = frames.flatMap Request.bytes) (es : List Event)
    (hes : ∀ e ∈ es, e.Answered) :
    (∀ c, Lts.Run (Step createFromXmlCdata) (new sock) es c → Undisturbed frames c) ↔
    Lts.Meets (Step createFromXmlCdata) HeaderWhole (new sock) es := by
  have hiff := @Lts.foldl_iff_meets _ _ (step createFromXmlCdata) HeaderWhole (Along frames)
    (Undisturbed frames) (fun c => c._ctsk = false) Event.Answered
    (fun c e he h hc => step_along he hvalid h hc)
    (fun c e _ h hc => @step_lost frames c createFromXmlCdata e h hc)
    (fun c e h => step_gone e h) (fun c h => h.undisturbed hvalid)
    (fun c hgone h => absurd (h.task.symm.trans hgone) Bool.noConfusion) (new sock) es hes
    (new_along hsock hinp)
  rw [Step,← hiff]
  constructor
  · exact fun h => h _ (Lts.run_foldl _ _ _)
  · exact fun h c hrun => Lts.run_moves_iff.mp hrun ▸ h

/-- A parser that takes every text for an empty message. -/
def anyMessage (_ : List UInt8) : Option CXmlNode := some (.create xmlTagCCNIMessages)

def oneByte : Request where
  hd := { CCNI_HEADER.new with datalen := 1 }
  body := [32]

theorem oneByte_valid : oneByte.Valid anyMessage := by
  refine ⟨rfl,rfl,le_rfl,fun p hstate hdata => ?_⟩
  unfold CCNIMsgParser.parse
  rw [if_neg (not_not.mpr hstate)]
  rfl

/-- The stream of one request, under a schedule of the kernel. -/
def oneByteSock (recvs : List RecvOutcome) : Sock := ⟨oneByte.bytes,recvs,[],[]⟩

theorem undisturbed_oneByte :
    (∀ c, Lts.Run (Step anyMessage) (new (oneByteSock [.deliver 32,.deliver 1]))
      [.doWork (some [32])] c → Undisturbed [oneByte] c) ↔
    Lts.Meets (Step anyMessage) HeaderWhole (new (oneByteSock [.deliver 32,.deliver 1]))
      [.doWork (some [32])] :=
  undisturbed_iff anyMessage [oneByte]
    (fun r hr => by rw [List.mem_singleton.mp hr]; exact oneByte_valid)
    (oneByteSock [.deliver 32,.deliver 1]) ⟨by decide,by decide⟩ rfl [.doWork (some [32])]
    (fun e he => by rw [List.mem_singleton.mp he]; exact ⟨[32],rfl,by decide⟩)

/-- The kernel delivers 31 bytes of the header first, and the client is disconnected. -/
theorem cut_header :
    oneByte.Valid anyMessage ∧ Open (oneByteSock [.deliver 31,.deliver 1]) ∧
    (oneByteSock [.deliver 31,.deliver 1]).inp = [oneByte].flatMap Request.bytes ∧
    (Event.doWork (some [32])).Answered ∧
    ∃ c, Lts.Run (Step anyMessage) (new (oneByteSock [.deliver 31,.deliver 1]))
      [.doWork (some [32])] c ∧ ¬ Undisturbed [oneByte] c := by
  refine ⟨oneByte_valid,⟨by decide,by decide⟩,rfl,⟨[32],rfl,by decide⟩,_,.cons rfl (.nil _),?_⟩
  have hgone : (step anyMessage (new (oneByteSock [.deliver 31,.deliver 1]))
      (.doWork (some [32])))._ctsk = false := rfl
  exact fun h => absurd (h.task.symm.trans hgone) Bool.noConfusion

end CClientIo
end CcniServer
