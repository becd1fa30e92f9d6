import CcniServer.Hall.Client
import CcniServer.Lib.Lts
import CcniServer.Wire.Packer
import CcniServer.Wire.Parser

/-!
Broadcasts on the UDP sockets. Every address is sent the header and the body of a broadcast in
two datagrams, with the socket's lock free in between, and the client puts the datagrams
together with the parser of the TCP stream.
-/
namespace CcniServer

abbrev Datagram := List UInt8

/-- A socket with one datagram to read: a read drops what does not fit, the next one would
block, and an empty datagram is read as zero bytes. -/
def Sock.datagram (d : Datagram) : Sock where
  inp := d
  recvs := if d = [] then [.closed] else [.deliver d.length]
  out := []
  sends := []

/-! ### The client -/

/-- `CCNIConnection::doServerMessage` on the UDP socket, called again and again: the message it is
reading, and what the calls have returned, nothing for a -1. -/
structure UdpReader where
  pmsg : CCNIMsgParser
  returned : List (Option (CCNI_HEADER × List UInt8))

namespace UdpReader

def new : UdpReader := ⟨.new,[]⟩

def ret (r : UdpReader) (v : Option (CCNI_HEADER × List UInt8)) : UdpReader :=
  ⟨.new,r.returned ++ [v]⟩

variable (createFromXmlCdata : List UInt8 → Option CXmlNode)

/-- The next datagram. -/
def doServerMessage (r : UdpReader) (d : Datagram) : UdpReader :=
  let pmsg := (r.pmsg.read (.datagram d)).1
  match pmsg.state with
  | .st_rdhd => { r with pmsg := pmsg }
  | .st_rdbd => { r with pmsg := pmsg }
  | .st_rderror => r.ret none
  | .st_hderror => r.ret none
  | .st_rdok =>
    if (pmsg.parse createFromXmlCdata).1 then r.ret (some (pmsg.header,pmsg.data.getD []))
    else r.ret none

def receive (mail : List Datagram) : UdpReader := mail.foldl (doServerMessage createFromXmlCdata) new

theorem receive_snoc (mail : List Datagram) (d : Datagram) :
    receive createFromXmlCdata (mail ++ [d]) =
      doServerMessage createFromXmlCdata (receive createFromXmlCdata mail) d := by
  simp [receive]

/-- The parser between a header and its body. -/
def gotHeader (hd : CCNI_HEADER) : CCNIMsgParser where
  hd := hd.toBytes
  data := some []
  state := .st_rdbd
  pos := 0
  doc := none

/-- A header in one datagram. -/
theorem doServerMessage_header {hd : CCNI_HEADER} (hgood : hd.verify = true)
    (hpos : hd.datalen.toNat ≠ 0) (returned : List (Option (CCNI_HEADER × List UInt8))) :
    doServerMessage createFromXmlCdata ⟨.new,returned⟩ hd.toBytes = ⟨gotHeader hd,returned⟩ := by
  have hlen := CCNI_HEADER.length_toBytes hd
  have hne : hd.toBytes ≠ [] := by
    rw [← List.length_pos_iff_ne_nil,hlen]
    exact Nat.succ_pos 31
  have hwrite : Bytes.write CCNI_HEADER.new.toBytes 0 hd.toBytes = hd.toBytes := by
    rw [Bytes.write,List.take_zero,List.nil_append,List.drop_of_length_le,List.append_nil]
    rw [CCNI_HEADER.length_toBytes,hlen,Nat.zero_add]
  have hread : (Sock.datagram hd.toBytes).read CCNI_HEADER.size =
      (.data hd.toBytes,⟨[],[],[],[]⟩) := by
    have htake : hd.toBytes.take 32 = hd.toBytes := List.take_of_length_le hlen.le
    have hdrop : hd.toBytes.drop 32 = [] := List.drop_of_length_le hlen.le
    simp [Sock.read,Sock.datagram,hne,CCNI_HEADER.size,hlen,htake,hdrop]
  have hheader : CCNI_HEADER.ofBytes hd.toBytes = hd := CCNI_HEADER.ofBytes_toBytes hd
  have hblock : (⟨[],[],[],[]⟩ : Sock).read hd.datalen.toNat = (.eagain,⟨[],[],[],[]⟩) := by
    simp [Sock.read,hpos]
  have hbody : ((gotHeader hd)._readRdbd ⟨[],[],[],[]⟩).1 = gotHeader hd := by
    unfold CCNIMsgParser._readRdbd
    simp only [CCNIMsgParser.header,gotHeader,hheader,Nat.sub_zero,hblock]
  have hnew : (CCNIMsgParser.new.read (.datagram hd.toBytes)).1 = gotHeader hd := by
    unfold CCNIMsgParser.read CCNIMsgParser._readRdhd
    simp only [CCNIMsgParser.new,hread,hwrite,hlen,CCNIMsgParser.header,hheader,hgood,if_true,
      Nat.sub_zero,lt_irrefl,if_false]
    exact hbody
  simp only [doServerMessage,hnew]
  rfl

/-- The body in the next one. -/
theorem doServerMessage_body {hd : CCNI_HEADER} {body : List UInt8} {root : CXmlNode}
    (hlen : body.length = hd.datalen.toNat) (hpos : hd.datalen.toNat ≠ 0)
    (hparse : createFromXmlCdata body = some root) (hname : root.name = xmlTagCCNIMessages)
    (returned : List (Option (CCNI_HEADER × List UInt8))) :
    doServerMessage createFromXmlCdata ⟨gotHeader hd,returned⟩ body =
      ⟨.new,returned ++ [some (hd,body)]⟩ := by
  have hne : body ≠ [] := by
    rw [← List.length_pos_iff_ne_nil,hlen]
    omega
  have hheader : CCNI_HEADER.ofBytes hd.toBytes = hd := CCNI_HEADER.ofBytes_toBytes hd
  have hread : (Sock.datagram body).read hd.datalen.toNat = (.data body,⟨[],[],[],[]⟩) := by
    have hmax : max hd.datalen.toNat 1 = hd.datalen.toNat := by omega
    have htake : body.take hd.datalen.toNat = body := List.take_of_length_le hlen.le
    have hdrop : body.drop hd.datalen.toNat = [] := List.drop_of_length_le hlen.le
    simp [Sock.read,Sock.datagram,hne,hpos,hlen,hmax,htake,hdrop]
  have hwrite : Bytes.write [] 0 body = body := by simp [Bytes.write]
  have hgot : ((gotHeader hd).read (.datagram body)).1 =
      { gotHeader hd with data := some body, state := .st_rdok } := by
    unfold CCNIMsgParser.read CCNIMsgParser._readRdbd
    simp only [gotHeader,CCNIMsgParser.header,hheader,hread,hwrite,Option.getD_some,hlen,
      Nat.sub_zero,lt_irrefl,if_false]
  simp only [doServerMessage,hgot]
  simp [CCNIMsgParser.parse,hparse,hname,UdpReader.ret,CCNIMsgParser.header,gotHeader,hheader]

end UdpReader

/-! ### The server -/

namespace CBroadCaster

/-- The addresses in the order in which `run` goes through them. -/
def addrs (b : CBroadCaster) : List SockaddrIn := b.broadcaster.entries.flatMap Prod.snd

variable (dump : List CXmlNode → List UInt8)

/-- What `packToFlat` makes of the messages; `dump` is the text that libxml2 makes of them. -/
def bufptr (b : CBroadCaster) : List UInt8 :=
  (CCNIMsgPacker.new.packToFlat (some (dump b.msg))).getD []

/-- The header in it. -/
def header (b : CBroadCaster) : CCNI_HEADER :=
  (CCNIMsgPacker.new.pack (some (dump b.msg)) 0 0 0 0).2.hd

/-- A text that the header's length covers and the client's check admits. -/
def Short (b : CBroadCaster) : Prop := dump b.msg ≠ [] ∧ (dump b.msg).length < CCNI_MAX_LEN

variable {dump} {b : CBroadCaster}

theorem bufptr_header : (b.bufptr dump).take CCNI_HEADER.size = (b.header dump).toBytes := by
  have hlen := CCNI_HEADER.length_toBytes (b.header dump)
  rw [← hlen]
  exact List.take_left

theorem header_datalen (h : b.Short dump) :
    (b.header dump).datalen.toNat = (dump b.msg).length := by
  have hmax : CCNI_MAX_LEN = 32768 := rfl
  have hlt := h.2
  have hmod := CCNIMsgPacker.pack_datalen .new (some (dump b.msg)) 0 0 0 0
  rw [Option.getD_some,Nat.mod_eq_of_lt (by omega)] at hmod
  exact hmod

theorem bufptr_body (h : b.Short dump) : (b.bufptr dump).drop CCNI_HEADER.size = dump b.msg := by
  have hlen := CCNI_HEADER.length_toBytes (b.header dump)
  have hbody : (dump b.msg).take (b.header dump).datalen.toNat = dump b.msg := by
    rw [header_datalen h,List.take_length]
  rw [← hlen]
  exact List.drop_left.trans hbody

theorem header_verify (h : b.Short dump) : (b.header dump).verify = true := by
  have hlen := header_datalen h
  rw [CCNI_HEADER.verify,decide_eq_true_eq,hlen]
  exact ⟨rfl,rfl,rfl,h.2⟩

theorem header_pos (h : b.Short dump) : (b.header dump).datalen.toNat ≠ 0 := by
  rw [header_datalen h,← Nat.pos_iff_ne_zero]
  exact List.length_pos_of_ne_nil h.1

end CBroadCaster

/-- The jobs that broadcast, each with the addresses it has not served and whether the header
for the first of them is out, the datagrams sent to every address, and the broadcasts it has
been sent whole. -/
structure Broadcasts where
  left : ℕ → List SockaddrIn
  between : ℕ → Bool
  mail : SockaddrIn → List Datagram
  sent : SockaddrIn → List ℕ

namespace Broadcasts
open UdpReader CBroadCaster

variable (bd : ℕ → CBroadCaster) (dump : List CXmlNode → List UInt8)
variable (createFromXmlCdata : List UInt8 → Option CXmlNode)

def start : Broadcasts := ⟨fun j => (bd j).addrs,fun _ => false,fun _ => [],fun _ => []⟩

/-- `CUdpSockData::sendto`. -/
def sendto (s : Broadcasts) (addr : SockaddrIn) (d : Datagram) : Broadcasts :=
  { s with mail := Function.update s.mail addr (s.mail addr ++ [d]) }

/-- The next `sendto` of a job. -/
def run (s : Broadcasts) (j : ℕ) : Broadcasts :=
  match s.left j with
  | [] => s
  | addr :: rest =>
    if s.between j then
      { s.sendto addr (((bd j).bufptr dump).drop CCNI_HEADER.size) with
        left := Function.update s.left j rest
        between := Function.update s.between j false
        sent := Function.update s.sent addr (s.sent addr ++ [j]) }
    else
      { s.sendto addr (((bd j).bufptr dump).take CCNI_HEADER.size) with
        between := Function.update s.between j true }

/-- The job has sent its header to the address and not its body. -/
def Between (s : Broadcasts) (j : ℕ) (addr : SockaddrIn) : Prop :=
  s.between j = true ∧ (s.left j).head? = some addr

/-- A job that begins with an address has a text the client admits, and no other job is between
header and body for that address. -/
def Alone (s : Broadcasts) (j : ℕ) : Prop :=
  ∀ addr rest, s.left j = addr :: rest → s.between j = false →
    (bd j).Short dump ∧ ∀ i, ¬ s.Between i addr

/-- The broadcasts sent whole to an address, as the client gets them. -/
def whole (s : Broadcasts) (addr : SockaddrIn) : List (Option (CCNI_HEADER × List UInt8)) :=
  (s.sent addr).map (fun j => some ((bd j).header dump,dump (bd j).msg))

/-- The client at an address has got the whole broadcasts, and the header of one more where a job
is in between. -/
inductive Got (s : Broadcasts) (addr : SockaddrIn) : Prop
  | idle (hnone : ∀ i, ¬ s.Between i addr)
      (hgot : receive createFromXmlCdata (s.mail addr) = ⟨.new,s.whole bd dump addr⟩)
  | half (i : ℕ) (hin : s.Between i addr) (hshort : (bd i).Short dump)
      (hone : ∀ k, s.Between k addr → k = i)
      (hgot : receive createFromXmlCdata (s.mail addr) =
        ⟨gotHeader ((bd i).header dump),s.whole bd dump addr⟩)

/-- Every address of a job is served or left. -/
structure Inv (s : Broadcasts) : Prop where
  got : ∀ addr, s.Got bd dump createFromXmlCdata addr
  served : ∀ j addr, (s.sent addr).count j + (s.left j).count addr = (bd j).addrs.count addr

/-- Every call of `doServerMessage` has returned a broadcast, the ones sent to the address in
their order, and a job that is done has been received wherever it was addressed to. -/
structure Received (s : Broadcasts) : Prop where
  returned : ∀ addr, (receive createFromXmlCdata (s.mail addr)).returned = s.whole bd dump addr
  served : ∀ j, s.left j = [] → ∀ addr, (s.sent addr).count j = (bd j).addrs.count addr

variable {bd dump createFromXmlCdata}

theorem start_inv : (start bd).Inv bd dump createFromXmlCdata := by
  refine ⟨fun addr => .idle (fun i hi => ?_) rfl,fun j addr => ?_⟩
  · cases hi.1
  · simp [start]

theorem Inv.received {s : Broadcasts} (h : s.Inv bd dump createFromXmlCdata) :
    s.Received bd dump createFromXmlCdata := by
  refine ⟨fun addr => ?_,fun j hj addr => ?_⟩
  · cases h.got addr with
    | idle _ hgot => rw [hgot]
    | half _ _ _ _ hgot => rw [hgot]
  · have hserved := h.served j addr
    rw [hj,List.count_nil,Nat.add_zero] at hserved
    exact hserved

/-- Nothing happens at the other addresses. -/
theorem Got.congr {s s' : Broadcasts} {addr : SockaddrIn}
    (h : s.Got bd dump createFromXmlCdata addr) (hmail : s'.mail addr = s.mail addr)
    (hsent : s'.sent addr = s.sent addr) (hbetween : ∀ i, s'.Between i addr ↔ s.Between i addr) :
    s'.Got bd dump createFromXmlCdata addr := by
  have hwhole : s'.whole bd dump addr = s.whole bd dump addr := by rw [whole,whole,hsent]
  cases h with
  | idle hnone hgot =>
    refine .idle (fun i hi => hnone i ((hbetween i).mp hi)) ?_
    rw [hmail,hwhole,hgot]
  | half i hin hshort hone hgot =>
    refine .half i ((hbetween i).mpr hin) hshort (fun k hk => hone k ((hbetween k).mp hk)) ?_
    rw [hmail,hwhole,hgot]

theorem header_inv {s : Broadcasts} (h : s.Inv bd dump createFromXmlCdata) {j : ℕ}
    {addr : SockaddrIn} {rest : List SockaddrIn} (hleft : s.left j = addr :: rest)
    (hfirst : s.between j = false) (halone : s.Alone bd dump j) :
    (s.run bd dump j).Inv bd dump createFromXmlCdata := by
  obtain ⟨hshort,hnone⟩ := halone addr rest hleft hfirst
  have hrun : s.run bd dump j =
      { s.sendto addr ((bd j).header dump).toBytes with
        between := Function.update s.between j true } := by
    rw [run,hleft,← bufptr_header]
    simp [hfirst]
  rw [hrun]
  have hbetween : ∀ i addr', Between { s.sendto addr ((bd j).header dump).toBytes with
      between := Function.update s.between j true } i addr' ↔
        (i = j ∧ addr' = addr) ∨ s.Between i addr' := by
    intro i addr'
    simp only [Between,sendto]
    by_cases hij : i = j
    · simp [hij,hleft,hfirst,eq_comm]
    · simp [hij]
  refine ⟨fun addr' => ?_,h.served⟩
  by_cases haddr : addr' = addr
  · rw [haddr]
    refine .half j ((hbetween j addr).mpr (.inl ⟨rfl,rfl⟩)) hshort (fun k hk => ?_) ?_
    · exact (((hbetween k addr).mp hk).resolve_right (hnone k)).1
    · simp only [sendto,Function.update_self]
      rw [receive_snoc]
      cases h.got addr with
      | idle _ hgot =>
        rw [hgot,doServerMessage_header _ (header_verify hshort) (header_pos hshort)]
        rfl
      | half i hin => exact absurd hin (hnone i)
  · refine (h.got addr').congr ?_ rfl fun i => ?_
    · simp [sendto,haddr]
    · rw [hbetween]
      simp [haddr]

section body
variable {s : Broadcasts} {j : ℕ} {addr : SockaddrIn} {rest : List SockaddrIn}

theorem between_body (hleft : s.left j = addr :: rest) (hsecond : s.between j = true) (i : ℕ)
    (addr' : SockaddrIn) : (s.run bd dump j).Between i addr' ↔ i ≠ j ∧ s.Between i addr' := by
  simp only [run,hleft,hsecond,if_true,Between,sendto]
  by_cases hij : i = j
  · simp [hij]
  · simp [hij]

theorem sent_body (hleft : s.left j = addr :: rest) (hsecond : s.between j = true)
    (addr' : SockaddrIn) : (s.run bd dump j).sent addr' =
      if addr' = addr then s.sent addr ++ [j] else s.sent addr' := by
  simp only [run,hleft,hsecond,if_true,Function.update_apply]

/-- The address that gets the body has the whole broadcast. -/
theorem got_body (hxml : ∀ j, ∃ root, createFromXmlCdata (dump (bd j).msg) = some root ∧
      root.name = xmlTagCCNIMessages)
    (h : s.Got bd dump createFromXmlCdata addr) (hleft : s.left j = addr :: rest)
    (hsecond : s.between j = true) : (s.run bd dump j).Got bd dump createFromXmlCdata addr := by
  have hin : s.Between j addr := ⟨hsecond,by rw [hleft]; rfl⟩
  cases h with
  | idle hnone => exact absurd hin (hnone j)
  | half i _ hshort hone hgot =>
    have hji : j = i := hone j hin
    rw [← hji] at hshort hgot
    refine .idle (fun k hk => ?_) ?_
    · obtain ⟨hne,hk⟩ := (between_body hleft hsecond k addr).mp hk
      exact hne ((hone k hk).trans hji.symm)
    · obtain ⟨root,hparse,hname⟩ := hxml j
      have hmail : (s.run bd dump j).mail addr = s.mail addr ++ [dump (bd j).msg] := by
        rw [← bufptr_body hshort]
        simp only [run,hleft,hsecond,if_true,sendto,Function.update_self]
      rw [hmail,receive_snoc,hgot,doServerMessage_body _ (header_datalen hshort).symm
        (header_pos hshort) hparse hname]
      simp [whole,sent_body hleft hsecond]

theorem got_body_of_ne (h : s.Inv bd dump createFromXmlCdata) (hleft : s.left j = addr :: rest)
    (hsecond : s.between j = true) {addr' : SockaddrIn} (haddr : addr' ≠ addr) :
    (s.run bd dump j).Got bd dump createFromXmlCdata addr' := by
  refine (h.got addr').congr ?_ ?_ fun i => ?_
  · simp [run,hleft,hsecond,sendto,haddr]
  · rw [sent_body hleft hsecond,if_neg haddr]
  · rw [between_body hleft hsecond]
    refine ⟨fun hi => hi.2,fun hi => ⟨fun hij => ?_,hi⟩⟩
    have hhead := hi.2
    rw [hij,hleft] at hhead
    exact haddr (Option.some.inj hhead).symm

theorem body_inv (hxml : ∀ j, ∃ root, createFromXmlCdata (dump (bd j).msg) = some root ∧
      root.name = xmlTagCCNIMessages)
    (h : s.Inv bd dump createFromXmlCdata) (hleft : s.left j = addr :: rest)
    (hsecond : s.between j = true) : (s.run bd dump j).Inv bd dump createFromXmlCdata := by
  refine ⟨fun addr' => ?_,fun i addr' => ?_⟩
  · by_cases haddr : addr' = addr
    · rw [haddr]
      exact got_body hxml (h.got addr) hleft hsecond
    · exact got_body_of_ne h hleft hsecond haddr
  · have hserved := h.served i addr'
    have hrest : (s.run bd dump j).left = Function.update s.left j rest := by
      simp only [run,hleft,hsecond,if_true]
    rw [sent_body hleft hsecond,hrest]
    by_cases hij : i = j
    · rw [hij,hleft] at hserved
      rw [hij,Function.update_self]
      by_cases haddr : addr' = addr
      · rw [haddr] at hserved ⊢
        simp at hserved ⊢
        omega
      · have hne : addr ≠ addr' := Ne.symm haddr
        simpa [haddr,hne] using hserved
    · have hji : j ≠ i := Ne.symm hij
      rw [Function.update_of_ne hij]
      by_cases haddr : addr' = addr
      · rw [haddr] at hserved ⊢
        simpa [hji] using hserved
      · simpa [haddr] using hserved

end body

theorem run_inv (hxml : ∀ j, ∃ root, createFromXmlCdata (dump (bd j).msg) = some root ∧
      root.name = xmlTagCCNIMessages)
    {s : Broadcasts} (h : s.Inv bd dump createFromXmlCdata) {j : ℕ} (halone : s.Alone bd dump j) :
    (s.run bd dump j).Inv bd dump createFromXmlCdata := by
  cases hleft : s.left j with
  | nil =>
    rw [run,hleft]
    exact h
  | cons addr rest =>
    cases hbetween : s.between j with
    | false => exact header_inv h hleft hbetween halone
    | true => exact body_inv hxml h hleft hbetween

/-- Broadcasts of short texts, of which no two are begun at one address, arrive whole. -/
theorem broadcasts_received (bd : ℕ → CBroadCaster) (dump : List CXmlNode → List UInt8)
    (createFromXmlCdata : List UInt8 → Option CXmlNode)
    (hxml : ∀ j, ∃ root, createFromXmlCdata (dump (bd j).msg) = some root ∧
      root.name = xmlTagCCNIMessages)
    (js : List ℕ) (halone : Lts.Meets (Lts.Moves (run bd dump)) (Alone bd dump) (start bd) js) :
    (js.foldl (run bd dump) (start bd)).Received bd dump createFromXmlCdata := by
  have hrun := Lts.run_foldl (run bd dump) (start bd) js
  have hinv : Inv bd dump createFromXmlCdata (js.foldl (run bd dump) (start bd)) :=
    hrun.invariant_of_meets (fun s j s' h hc hs => hs ▸ run_inv hxml h hc) halone start_inv
  exact hinv.received

/-! ### Two broadcasters -/

/-- The text of a document without messages. -/
def noMessages : List UInt8 :=
  "<?xml version=\"1.0\" encoding=\"UTF-8\"?>\n<CCNIMessages/>\n".toList.map
    (fun c => UInt8.ofNat c.toNat)

def readNoMessages (bs : List UInt8) : Option CXmlNode :=
  if bs = noMessages then some (.element xmlTagCCNIMessages []) else none

theorem readNoMessages_root : ∃ root, readNoMessages noMessages = some root ∧
    root.name = xmlTagCCNIMessages := ⟨_,if_pos rfl,rfl⟩

/-- Every job broadcasts to one address. -/
def oneAddr : CBroadCaster := CBroadCaster.create.insertaddr 0 default

theorem broadcasts_received_one :
    ([0,0].foldl (run (fun _ => oneAddr) fun _ => noMessages) (start fun _ => oneAddr)).Received
      (fun _ => oneAddr) (fun _ => noMessages) readNoMessages := by
  apply broadcasts_received (fun _ => oneAddr) (fun _ => noMessages) readNoMessages
    (fun _ => readNoMessages_root) [0,0]
  have hshort : oneAddr.Short fun _ => noMessages := ⟨List.cons_ne_nil _ _,by decide⟩
  refine ⟨fun addr rest _ _ => ⟨hshort,fun i hi => ?_⟩,fun t ht => ?_⟩
  · cases hi.1
  · cases ht
    refine ⟨fun addr rest _ hb => ?_,fun _ _ => trivial⟩
    cases hb

/-- The header of the second job is read as the body of the first. -/
theorem interleaved_broadcasts_lost :
    (∃ root, readNoMessages noMessages = some root ∧ root.name = xmlTagCCNIMessages) ∧
    ¬ ([0,1,0,1].foldl (run (fun _ => oneAddr) fun _ => noMessages)
      (start fun _ => oneAddr)).Received (fun _ => oneAddr) (fun _ => noMessages)
        readNoMessages := by
  refine ⟨readNoMessages_root,fun hreceived => ?_⟩
  have hlost : none ∈ (receive readNoMessages (([0,1,0,1].foldl
      (run (fun _ => oneAddr) fun _ => noMessages) (start fun _ => oneAddr)).mail
        default)).returned := by
    decide
  rw [hreceived.returned,whole] at hlost
  simp at hlost

end Broadcasts
end CcniServer
