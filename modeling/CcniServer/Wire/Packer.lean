import CcniServer.Wire.Header
import CcniServer.Wire.Socket

/-!
The writer of one response and the writer of one notification. Both put a frame on a socket,
piece by piece, and know how much of it they have put there.
-/
namespace CcniServer

inductive CCNIMsgPacker.State
  | st_sdhd
  | st_sdbd
  | st_sdok
  | st_sderror
  deriving DecidableEq

structure CCNIMsgPacker where
  hd : CCNI_HEADER
  data : Option (List UInt8)
  pos : ℕ
  state : CCNIMsgPacker.State

namespace CCNIMsgPacker

def new : CCNIMsgPacker where
  hd := .new
  data := none
  pos := 0
  state := .st_sdhd

def free (p : CCNIMsgPacker) : CCNIMsgPacker := { p with data := none, pos := 0, state := .st_sdhd }

/-- `dump` is the text that libxml2 makes of the document, if it makes one. -/
def pack (p : CCNIMsgPacker) (dump : Option (List UInt8)) (seq udata : UInt32)
    (k1 k2 : UInt64) : Bool × CCNIMsgPacker :=
  let hd := { p.hd with
    seq := seq, udata := udata, secret1 := k1, secret2 := k2
    datalen := UInt16.ofNat (dump.getD []).length }
  (dump.isSome,{ hd := hd, data := dump, pos := 0, state := .st_sdhd })

/-- The flat copy of a notification, nothing where there is no text. -/
def packToFlat (p : CCNIMsgPacker) (dump : Option (List UInt8)) : Option (List UInt8) :=
  let (ok,p') := p.pack dump 0 0 0 0
  if ok then some (p'.hd.toBytes ++ (p'.data.getD []).take p'.hd.datalen.toNat) else none

def _sendsdbd (p : CCNIMsgPacker) (s : Sock) : CCNIMsgPacker × Sock :=
  match s.send (((p.data.getD []).drop p.pos).take (p.hd.datalen.toNat - p.pos)) with
  | (.eagain,s) => (p,s)
  | (.error,s) => ({ p with state := .st_sderror },s)
  | (.sent slen,s) =>
    if slen < p.hd.datalen.toNat - p.pos then
      ({ p with pos := p.pos + slen, state := .st_sdbd },s)
    else ({ p with state := .st_sdok },s)

def _sendsdhd (p : CCNIMsgPacker) (s : Sock) : CCNIMsgPacker × Sock :=
  match s.send (p.hd.toBytes.drop p.pos) with
  | (.eagain,s) => (p,s)
  | (.error,s) => ({ p with state := .st_sderror },s)
  | (.sent slen,s) =>
    if slen < CCNI_HEADER.size - p.pos then
      ({ p with pos := p.pos + slen, state := .st_sdhd },s)
    else _sendsdbd { p with pos := 0, state := .st_sdbd } s

/-- `send`; what it returns is the state after it. -/
def send (p : CCNIMsgPacker) (s : Sock) : CCNIMsgPacker × Sock :=
  match p.state with
  | .st_sdhd => p._sendsdhd s
  | .st_sdbd => p._sendsdbd s
  | .st_sdok => (p,s)
  | .st_sderror => (p,s)

/-! ### The frame and how much of it is out -/

def body (p : CCNIMsgPacker) : List UInt8 := (p.data.getD []).take p.hd.datalen.toNat

/-- What the packer transmits. -/
def frame (p : CCNIMsgPacker) : List UInt8 := p.hd.toBytes ++ p.body

/-- A packer that has put `k` bytes of its frame on the socket and has more to send. -/
inductive Sending (k : ℕ) (p : CCNIMsgPacker) : Prop
  | header (hstate : p.state = .st_sdhd) (hk : k = p.pos) (hlt : p.pos < CCNI_HEADER.size)
  | body (hstate : p.state = .st_sdbd) (hk : k = CCNI_HEADER.size + p.pos)
      (hlt : p.pos < p.hd.datalen.toNat ∨ p.pos = 0)

/-- The text behind the header is as long as the header says. -/
def Filled (p : CCNIMsgPacker) : Prop := p.body.length = p.hd.datalen.toNat

theorem length_frame {p : CCNIMsgPacker} (h : p.Filled) :
    p.frame.length = CCNI_HEADER.size + p.hd.datalen.toNat := by
  rw [frame,List.length_append,CCNI_HEADER.length_toBytes,h]

/-- The length of a text, narrowed to the header's sixteen bits. -/
theorem pack_datalen (p : CCNIMsgPacker) (dump : Option (List UInt8)) (seq udata : UInt32)
    (k1 k2 : UInt64) :
    (p.pack dump seq udata k1 k2).2.hd.datalen.toNat = (dump.getD []).length % 65536 :=
  UInt16.toNat_ofNat'

theorem pack_filled (p : CCNIMsgPacker) (dump : Option (List UInt8)) (seq udata : UInt32)
    (k1 k2 : UInt64) : (p.pack dump seq udata k1 k2).2.Filled := by
  have hle : (dump.getD []).length % 65536 ≤ (dump.getD []).length := Nat.mod_le _ _
  rw [Filled,body,List.length_take,pack_datalen]
  exact Nat.min_eq_left hle

theorem pack_sending (p : CCNIMsgPacker) (dump : Option (List UInt8)) (seq udata : UInt32)
    (k1 k2 : UInt64) : (p.pack dump seq udata k1 k2).2.Sending 0 :=
  .header rfl rfl (Nat.succ_pos 31)

/-- A flat notification is the frame that `pack` prepares. -/
theorem packToFlat_eq (p : CCNIMsgPacker) (dump : List UInt8) :
    p.packToFlat (some dump) = some (p.pack (some dump) 0 0 0 0).2.frame := rfl

/-- What one call of a writer does: it puts some more of the frame on the socket, and it is in
the middle of the frame, at its end, or has failed. -/
structure Sent (k : ℕ) (p p' : CCNIMsgPacker) (s s' : Sock) (m : ℕ) : Prop where
  out : s'.out = s.out ++ (p.frame.drop k).take m
  frame : p'.frame = p.frame
  filled : p'.Filled
  hd : p'.hd = p.hd
  inp : s'.inp = s.inp
  recvs : s'.recvs = s.recvs
  state : p'.Sending (k + m) ∨ (p'.state = .st_sdok ∧ p.frame.length ≤ k + m) ∨
    p'.state = .st_sderror

theorem sendsdbd_sent {p : CCNIMsgPacker} (hf : p.Filled) (hstate : p.state = .st_sdbd)
    (hlt : p.pos < p.hd.datalen.toNat ∨ p.pos = 0) (s : Sock) :
    ∃ m, Sent (CCNI_HEADER.size + p.pos) p (p._sendsdbd s).1 s (p._sendsdbd s).2 m := by
  have hlen := length_frame hf
  have hdrop : p.frame.drop (CCNI_HEADER.size + p.pos) = p.body.drop p.pos := by
    rw [frame,← List.drop_drop,List.drop_left' (CCNI_HEADER.length_toBytes _)]
  have hpiece : ((p.data.getD []).drop p.pos).take (p.hd.datalen.toNat - p.pos) =
      p.frame.drop (CCNI_HEADER.size + p.pos) := by
    rw [hdrop,body,List.drop_take]
  have hpos : p.body.length = p.hd.datalen.toNat := hf
  unfold _sendsdbd
  rw [hpiece]
  rcases Sock.send_cases s (p.frame.drop (CCNI_HEADER.size + p.pos)) with
    ⟨k,s',hsend,hk,hkle,hout,hinp,hrecvs⟩ | ⟨r,s',hsend,hr,hout,hinp,hrecvs⟩
  · refine ⟨k,?_⟩
    rw [List.length_drop] at hkle
    simp only [hsend]
    by_cases hshort : k < p.hd.datalen.toNat - p.pos
    · rw [if_pos hshort]
      refine ⟨hout,rfl,hf,rfl,hinp,hrecvs,.inl (.body rfl (Nat.add_assoc _ _ _) ?_)⟩
      left
      change p.pos + k < p.hd.datalen.toNat
      omega
    · rw [if_neg hshort]
      exact ⟨hout,rfl,hf,rfl,hinp,hrecvs,.inr (.inl ⟨rfl,by omega⟩)⟩
  · have hnone : s'.out = s.out ++ (p.frame.drop (CCNI_HEADER.size + p.pos)).take 0 := by
      rw [hout,List.take_zero,List.append_nil]
    refine ⟨0,?_⟩
    rcases hr with rfl | rfl
    · simp only [hsend]
      exact ⟨hnone,rfl,hf,rfl,hinp,hrecvs,.inl (.body hstate rfl hlt)⟩
    · simp only [hsend]
      exact ⟨hnone,rfl,hf,rfl,hinp,hrecvs,.inr (.inr rfl)⟩

theorem sendsdhd_sent {p : CCNIMsgPacker} (hf : p.Filled) (hstate : p.state = .st_sdhd)
    (hlt : p.pos < CCNI_HEADER.size) (s : Sock) :
    ∃ m, Sent p.pos p (p._sendsdhd s).1 s (p._sendsdhd s).2 m := by
  have hdrop : p.frame.drop p.pos = p.hd.toBytes.drop p.pos ++ p.body := by
    rw [frame,List.drop_append_of_le_length]
    rw [CCNI_HEADER.length_toBytes]
    omega
  have hlen : (p.hd.toBytes.drop p.pos).length = CCNI_HEADER.size - p.pos := by
    rw [List.length_drop,CCNI_HEADER.length_toBytes]
  unfold _sendsdhd
  rcases Sock.send_cases s (p.hd.toBytes.drop p.pos) with
    ⟨k,s',hsend,hk,hkle,hout,hinp,hrecvs⟩ | ⟨r,s',hsend,hr,hout,hinp,hrecvs⟩
  · have hpiece : s'.out = s.out ++ (p.frame.drop p.pos).take k := by
      rw [hout,hdrop,List.take_append_of_le_length hkle]
    simp only [hsend]
    rw [hlen] at hkle
    by_cases hshort : k < CCNI_HEADER.size - p.pos
    · refine ⟨k,?_⟩
      rw [if_pos hshort]
      refine ⟨hpiece,rfl,hf,rfl,hinp,hrecvs,.inl (.header rfl rfl ?_)⟩
      change p.pos + k < CCNI_HEADER.size
      omega
    · -- The header is out, and the body follows in the same call.
      rw [if_neg hshort]
      obtain ⟨m,hbody⟩ := @sendsdbd_sent { p with pos := 0, state := .st_sdbd } hf rfl
        (.inr rfl) s'
      have hall : p.pos + k = CCNI_HEADER.size + 0 := by omega
      have hsum : p.pos + (k + m) = CCNI_HEADER.size + 0 + m := by omega
      refine ⟨k + m,?_,hbody.frame,hbody.filled,hbody.hd,hbody.inp.trans hinp,
        hbody.recvs.trans hrecvs,?_⟩
      · rw [hbody.out,hpiece,List.append_assoc,List.take_add,List.drop_drop,hall]
        rfl
      · rw [hsum]
        exact hbody.state
  · have hnone : s'.out = s.out ++ (p.frame.drop p.pos).take 0 := by
      rw [hout,List.take_zero,List.append_nil]
    refine ⟨0,?_⟩
    rcases hr with rfl | rfl
    · simp only [hsend]
      exact ⟨hnone,rfl,hf,rfl,hinp,hrecvs,.inl (.header hstate rfl hlt)⟩
    · simp only [hsend]
      exact ⟨hnone,rfl,hf,rfl,hinp,hrecvs,.inr (.inr rfl)⟩

/-- A call of `send` in the middle of a frame. -/
theorem send_sent {k : ℕ} {p : CCNIMsgPacker} (hf : p.Filled) (hp : p.Sending k) (s : Sock) :
    ∃ m, Sent k p (p.send s).1 s (p.send s).2 m := by
  unfold send
  cases hp with
  | header hstate hk hlt =>
    rw [hstate,hk]
    exact sendsdhd_sent hf hstate hlt s
  | body hstate hk hlt =>
    rw [hstate,hk]
    exact sendsdbd_sent hf hstate hlt s

/-- A packer with a body does not fail where the socket does not. -/
theorem send_writable {k : ℕ} {p : CCNIMsgPacker} {s : Sock} (hf : p.Filled)
    (hpos : 0 < p.hd.datalen.toNat) (hp : p.Sending k) (hs : s.Writable) :
    (p.send s).1.state ≠ .st_sderror ∧ (p.send s).2.Writable := by
  have hbody : ∀ (q : CCNIMsgPacker) (s : Sock), q.Filled → q.state = .st_sdbd →
      q.pos < q.hd.datalen.toNat → s.Writable →
      (q._sendsdbd s).1.state ≠ .st_sderror ∧ (q._sendsdbd s).2.Writable := by
    intro q s hq hstate hlt hs
    have hne : ((q.data.getD []).drop q.pos).take (q.hd.datalen.toNat - q.pos) ≠ [] := by
      have hlen : q.body.length = q.hd.datalen.toNat := hq
      rw [body,List.length_take] at hlen
      rw [← List.length_pos_iff_ne_nil,List.length_take,List.length_drop]
      omega
    obtain ⟨r,s',hsend,hs',hr⟩ := Sock.send_writable hs hne
    simp only [_sendsdbd,hsend]
    rcases hr with rfl | ⟨m,rfl⟩
    · exact ⟨by simp [hstate],hs'⟩
    · dsimp only
      split <;> exact ⟨by simp,hs'⟩
  unfold send
  cases hp with
  | header hstate hk hlt =>
    have hne : p.hd.toBytes.drop p.pos ≠ [] := by
      rw [← List.length_pos_iff_ne_nil,List.length_drop,CCNI_HEADER.length_toBytes]
      omega
    obtain ⟨r,s',hsend,hs',hr⟩ := Sock.send_writable hs hne
    simp only [hstate,_sendsdhd,hsend]
    rcases hr with rfl | ⟨m,rfl⟩
    · exact ⟨by simp [hstate],hs'⟩
    · dsimp only
      split
      · exact ⟨by simp,hs'⟩
      · exact hbody { p with pos := 0, state := .st_sdbd } s' hf rfl hpos hs'
  | body hstate hk hlt =>
    rw [hstate]
    exact hbody p s hf hstate (by omega) hs

/-- `n` successive calls of `send`. -/
def sends : ℕ → CCNIMsgPacker → Sock → CCNIMsgPacker × Sock
  | 0, p, s => (p,s)
  | n + 1, p, s => sends n (p.send s).1 (p.send s).2

theorem sends_done {p : CCNIMsgPacker} (h : p.state = .st_sdok ∨ p.state = .st_sderror) (n : ℕ)
    (s : Sock) : sends n p s = (p,s) := by
  have hsend : p.send s = (p,s) := by
    unfold send
    rcases h with h | h <;> rw [h]
  induction n with
  | zero => rfl
  | succ n ih => rw [sends,hsend,ih]

/-- However often the kernel stops it, a packer puts a front of its frame on the socket, and
all of it when it ends well. The induction is on the calls. -/
theorem sends_frame {k : ℕ} {p : CCNIMsgPacker} (hf : p.Filled) (hp : p.Sending k) (n : ℕ)
    (s : Sock) : ∃ m, (sends n p s).2.out = s.out ++ (p.frame.drop k).take m ∧
      ((sends n p s).1.state = .st_sdok → p.frame.length ≤ k + m) := by
  induction n generalizing k p s with
  | zero =>
    refine ⟨0,by rw [List.take_zero,List.append_nil,sends],fun hok => ?_⟩
    cases hp with
    | header hstate => exact absurd (hstate.symm.trans hok) nofun
    | body hstate => exact absurd (hstate.symm.trans hok) nofun
  | succ n ih =>
    obtain ⟨m,hsent⟩ := send_sent hf hp s
    rcases hsent.state with hmore | ⟨hok,hall⟩ | herror
    · obtain ⟨m',hout,hend⟩ := ih hsent.filled hmore (p.send s).2
      rw [hsent.frame] at hout hend
      refine ⟨m + m',?_,fun hok => ?_⟩
      · rw [sends,hout,hsent.out,List.append_assoc,List.take_add,List.drop_drop]
      · rw [← Nat.add_assoc]
        exact hend hok
    · rw [sends,sends_done (.inl hok)]
      exact ⟨m,hsent.out,fun _ => hall⟩
    · rw [sends,sends_done (.inr herror)]
      exact ⟨m,hsent.out,fun hok => absurd (herror.symm.trans hok) nofun⟩

end CCNIMsgPacker

/-! ### Notifications -/

/-- A flat message and how much of it is out. -/
structure CCNINotification where
  msg : List UInt8
  pos : ℕ

inductive CCNINotification.SendRes
  | error
  | sendok
  | eagain
  deriving DecidableEq

namespace CCNINotification

def send (n : CCNINotification) (s : Sock) : SendRes × CCNINotification × Sock :=
  if n.msg.length ≤ 0 then (.sendok,n,s)
  else
    match s.send (n.msg.drop n.pos) with
    | (.eagain,s) => (.eagain,n,s)
    | (.error,s) => (.error,n,s)
    | (.sent slen,s) =>
      if n.pos + slen ≥ n.msg.length then (.sendok,{ n with pos := n.pos + slen },s)
      else (.eagain,{ n with pos := n.pos + slen },s)

/-- What one call of `send` does to a notification: `m` more of its bytes are out. -/
structure Sent (n n' : CCNINotification) (s s' : Sock) (r : SendRes) (m : ℕ) : Prop where
  out : s'.out = s.out ++ (n.msg.drop n.pos).take m
  msg : n'.msg = n.msg
  inp : s'.inp = s.inp
  recvs : s'.recvs = s.recvs
  sendok : r = .sendok → n.msg.length ≤ n.pos + m
  eagain : r = .eagain → n'.pos = n.pos + m ∧ n'.pos < n.msg.length
  error : r = .error → m = 0

theorem send_sent {n : CCNINotification} (hpos : n.pos < n.msg.length) (s : Sock) :
    ∃ m, Sent n (n.send s).2.1 s (n.send s).2.2 (n.send s).1 m := by
  have hnone : s.out = s.out ++ (n.msg.drop n.pos).take 0 := by
    rw [List.take_zero,List.append_nil]
  have hsome : ¬ n.msg.length ≤ 0 := by omega
  unfold send
  rw [if_neg hsome]
  rcases Sock.send_cases s (n.msg.drop n.pos) with
    ⟨k,s',hsend,hk,hkle,hout,hinp,hrecvs⟩ | ⟨r,s',hsend,hr,hout,hinp,hrecvs⟩
  · rw [List.length_drop] at hkle
    refine ⟨k,?_⟩
    simp only [hsend]
    by_cases hall : n.pos + k ≥ n.msg.length
    · rw [if_pos hall]
      exact ⟨hout,rfl,hinp,hrecvs,fun _ => hall,nofun,nofun⟩
    · rw [if_neg hall]
      exact ⟨hout,rfl,hinp,hrecvs,nofun,fun _ => ⟨rfl,Nat.lt_of_not_ge hall⟩,nofun⟩
  · refine ⟨0,?_⟩
    rcases hr with rfl | rfl
    · simp only [hsend]
      exact ⟨hout.trans hnone,rfl,hinp,hrecvs,nofun,fun _ => ⟨rfl,hpos⟩,nofun⟩
    · simp only [hsend]
      exact ⟨hout.trans hnone,rfl,hinp,hrecvs,nofun,nofun,fun _ => rfl⟩

theorem send_writable {n : CCNINotification} {s : Sock} (hpos : n.pos < n.msg.length)
    (hs : s.Writable) : (n.send s).1 ≠ .error ∧ (n.send s).2.2.Writable := by
  have hne : n.msg.drop n.pos ≠ [] := by
    rw [← List.length_pos_iff_ne_nil,List.length_drop]
    omega
  obtain ⟨r,s',hsend,hs',hr⟩ := Sock.send_writable hs hne
  have hsome : ¬ n.msg.length ≤ 0 := by omega
  simp only [send,if_neg hsome,hsend]
  rcases hr with rfl | ⟨m,rfl⟩
  · exact ⟨by simp,hs'⟩
  · dsimp only
    split <;> exact ⟨by simp,hs'⟩

end CCNINotification
end CcniServer
