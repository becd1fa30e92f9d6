import CcniServer.Db.Buffers
import CcniServer.Keys.UdpJob
import Mathlib.Data.Vector.Basic

/-!
The keys that `genSecret` makes. The serial number in front of the hashed bytes is drawn under a
lock and wraps after 2^32 calls; the rest of a call works on the thread's own buffer, and the
digest lands on the two secrets of the job's header.
-/
namespace CcniServer
open Bytes CSecKeyMap

namespace CCNI_HEADER

/-- The 16 bytes from `secret1` on are written over. -/
def overlay (h : CCNI_HEADER) (digest : List.Vector UInt8 16) : CCNI_HEADER :=
  ofBytes (write h.toBytes 14 digest.toList)

def secrets (h : CCNI_HEADER) : CSecretKey := ⟨h.secret1,h.secret2⟩

theorem secrets_overlay (h : CCNI_HEADER) (digest : List.Vector UInt8 16) :
    (h.overlay digest).secrets = ⟨UInt64.ofNat (ofLe (digest.toList.take 8)),
      UInt64.ofNat (ofLe (digest.toList.drop 8))⟩ := by
  have hpos : 14 ≤ h.toBytes.length := by
    rw [length_toBytes]
    decide
  have hlen : digest.toList.length = 16 := digest.toList_length
  have h1 : fieldAt (write h.toBytes 14 digest.toList) 14 8 = fieldAt digest.toList 0 8 :=
    fieldAt_write (i := 0) hpos (by omega)
  have h2 : fieldAt (write h.toBytes 14 digest.toList) 22 8 = fieldAt digest.toList 8 8 :=
    fieldAt_write (i := 8) hpos (by omega)
  have hdrop : (digest.toList.drop 8).take 8 = digest.toList.drop 8 :=
    List.take_of_length_le (by simp [hlen])
  simp only [overlay,secrets,ofBytes,h1,h2]
  rw [fieldAt,fieldAt,hdrop,List.drop_zero]

/-- Eight bytes fit into a secret. -/
theorem ofNat_ofLe_inj {bs cs : List UInt8} (hbs : bs.length = 8) (hcs : cs.length = 8)
    (h : UInt64.ofNat (ofLe bs) = UInt64.ofNat (ofLe cs)) : bs = cs := by
  have hb : ofLe bs < 2^64 := by
    have := ofLe_lt bs
    rwa [hbs] at this
  have hc : ofLe cs < 2^64 := by
    have := ofLe_lt cs
    rwa [hcs] at this
  have hsame := congrArg UInt64.toNat h
  rw [UInt64.toNat_ofNat_of_lt' hb,UInt64.toNat_ofNat_of_lt' hc] at hsame
  exact ofLe_inj (hbs.trans hcs.symm) hsame

/-- The two secrets hold the whole digest. -/
theorem secrets_overlay_inj {h h' : CCNI_HEADER} {d d' : List.Vector UInt8 16}
    (heq : (h.overlay d).secrets = (h'.overlay d').secrets) : d = d' := by
  rw [secrets_overlay,secrets_overlay] at heq
  obtain ⟨h1,h2⟩ := CSecretKey.mk.inj heq
  have hlen : ∀ x : List.Vector UInt8 16, (x.toList.take 8).length = 8 ∧
      (x.toList.drop 8).length = 8 := by
    intro x
    simp
  have htake := ofNat_ofLe_inj (hlen d).1 (hlen d').1 h1
  have hdrop := ofNat_ofLe_inj (hlen d).2 (hlen d').2 h2
  have hlist : d.toList = d'.toList := by
    rw [← List.take_append_drop 8 d.toList,htake,hdrop,List.take_append_drop]
  exact List.Vector.toList_injective hlist

end CCNI_HEADER

/-- The next line of a call of `genSecret`. -/
inductive GenSecret
  | serno
  | addr
  | sec
  | md5_calc
  | returned
  deriving DecidableEq

@[simp] theorem SockaddrIn.length_toBytes (addr : SockaddrIn) : addr.toBytes.length = 16 := by
  simp [SockaddrIn.toBytes]

/-- A secret that fits into the buffer of `genSecret`. -/
def Secret : Type := { sec : CString // 4 + 16 + (bytes sec.val).length ≤ GENSECRET_BUFLEN }

/-- `memcpy` into the buffer of `genSecret`. -/
def GenSecret.memcpy (buf : List.Vector UInt8 GENSECRET_BUFLEN) (pos : ℕ) (bs : List UInt8)
    (h : pos + bs.length ≤ GENSECRET_BUFLEN) : List.Vector UInt8 GENSECRET_BUFLEN :=
  ⟨write buf.toList pos bs,
    (length_write (h.trans buf.toList_length.ge)).trans buf.toList_length⟩

/-- A call of `genSecret` for the header of a job. -/
structure GenSecret.Call where
  line : GenSecret
  buf : List.Vector UInt8 GENSECRET_BUFLEN
  hd : CCNI_HEADER

/-- The serial number, the jobs in the order in which they drew it, their calls of `genSecret`
and what they do with the keys. -/
structure Handshakes where
  serno : UInt32
  calls : List ℕ
  call : ℕ → GenSecret.Call
  jobs : UdpJobs

namespace Handshakes
open GenSecret

/-- A job goes on, a TCP job calls `verifykey`, or the clock shows another time. -/
inductive Event
  | job (j : ℕ) (sent : Bool)
  | verifykey (k : CSecretKey) (ip : UInt32)
  | time (now : ℤ)

/-- No call has begun; the buffers hold anything. -/
def start (secret_timeout : UInt32) (now : ℤ) (mem : ℕ → List.Vector UInt8 GENSECRET_BUFLEN)
    (received : ℕ → CCNI_HEADER) : Handshakes :=
  ⟨0,[],fun j => ⟨.serno,mem j,received j⟩,.start secret_timeout now⟩

variable (md5_calc : List UInt8 → List.Vector UInt8 16) (secret : Secret)
variable (sock : ℕ → CUdpSockDataPtr) (addr : ℕ → SockaddrIn)

/-- The bytes of the job's buffer that are hashed. -/
def input (s : Handshakes) (j : ℕ) : List UInt8 :=
  (s.call j).buf.toList.take (4 + 16 + (bytes secret.val.val).length)

def key (s : Handshakes) (j : ℕ) : CSecretKey := (s.call j).hd.secrets

def setCall (s : Handshakes) (j : ℕ) (c : GenSecret.Call) : Handshakes :=
  { s with call := Function.update s.call j c }

/-- One line of `genSecret`; the first is the one under the lock. -/
def genSecret (s : Handshakes) (j : ℕ) : Handshakes :=
  let c := s.call j
  match c.line with
  | .serno =>
    let serno := s.serno + 1
    { s with serno, calls := s.calls ++ [j] }.setCall j
      ⟨.addr,memcpy c.buf 0 (le 4 serno.toNat) (by rw [length_le]; decide),c.hd⟩
  | .addr =>
    s.setCall j ⟨.sec,memcpy c.buf 4 (addr j).toBytes (by rw [SockaddrIn.length_toBytes]; decide),
      c.hd⟩
  | .sec =>
    s.setCall j ⟨.md5_calc,memcpy c.buf (4 + 16) (bytes secret.val.val) secret.property,c.hd⟩
  | .md5_calc => s.setCall j ⟨.returned,c.buf,c.hd.overlay (md5_calc (s.input secret j))⟩
  | .returned => s

/-- A job inserts, sends and removes its key after `genSecret`. -/
def step (s : Handshakes) : Event → Except UdpJobs.Undefined Handshakes
  | .job j sent =>
    if (s.call j).line = .returned then
      match UdpJobs.run s.key sock addr s.jobs j sent with
      | .ok jobs => .ok { s with jobs }
      | .error u => .error u
    else .ok (s.genSecret md5_calc secret addr j)
  | .verifykey k ip =>
    .ok { s with jobs := { s.jobs with smap := (s.jobs.smap.verifykey k ip).2 } }
  | .time now => .ok { s with jobs := { s.jobs with now } }

/-- Up to 2^32 consecutive calls, from the call `a` on. -/
def Window (s : Handshakes) (a : ℕ) : Set ℕ :=
  {j | ∃ p, s.calls[p]? = some j ∧ a ≤ p ∧ p < a + 2^32}

/-- The bytes to hash are complete. -/
def Complete (s : Handshakes) (j : ℕ) : Prop :=
  (s.call j).line = .md5_calc ∨ (s.call j).line = .returned

/-- The inputs of the digests of some jobs. -/
def inputs (s : Handshakes) (W : Set ℕ) : Set (List UInt8) :=
  {x | ∃ j ∈ W, s.Complete j ∧ s.input secret j = x}

/-- The key is made, and not inserted so far. -/
def Fresh (s : Handshakes) (j : ℕ) : Prop :=
  (s.call j).line = .returned ∧ s.jobs.next j = .insert

/-- The key is made, and `insert` was called with it. -/
def Tried (s : Handshakes) (j : ℕ) : Prop :=
  (s.call j).line = .returned ∧ s.jobs.next j ≠ .insert

/-- The answer of `insert` to the job. -/
def inserts (s : Handshakes) (j : ℕ) : Bool :=
  (s.jobs.smap.insert s.jobs.now (s.key j) (sock j) (addr j)).1

/-! ### What the calls have written -/

/-- The serial number of the call `p`. -/
def serial (p : ℕ) : UInt32 := UInt32.ofNat (p + 1)

/-- What the call `p` has written so far. -/
def Written (p : ℕ) (ad : SockaddrIn) (c : GenSecret.Call) : Prop :=
  match c.line with
  | .serno => False
  | .addr => c.buf.toList.take 4 = le 4 (serial p).toNat
  | .sec => c.buf.toList.take (4 + 16) = le 4 (serial p).toNat ++ ad.toBytes
  | .md5_calc => c.buf.toList.take (4 + 16 + (bytes secret.val.val).length) =
      genSecretBuf (serial p) ad secret.val
  | .returned => c.buf.toList.take (4 + 16 + (bytes secret.val.val).length) =
      genSecretBuf (serial p) ad secret.val ∧
        ∃ h : CCNI_HEADER, c.hd = h.overlay (md5_calc (genSecretBuf (serial p) ad secret.val))

/-- Each job draws once, a job that does not return from `genSecret` inserts nothing, and the
entries of the map come from the jobs. -/
structure Inv (s : Handshakes) : Prop where
  serno : s.serno = UInt32.ofNat s.calls.length
  nodup : s.calls.Nodup
  waits : ∀ j, j ∉ s.calls ↔ (s.call j).line = .serno
  written : ∀ p j, s.calls[p]? = some j → Written md5_calc secret p (addr j) (s.call j)
  early : ∀ j, (s.call j).line ≠ .returned → s.jobs.next j = .insert
  entries : ∀ k item, s.jobs.smap.map.find? k = some item → ∃ i, s.Tried i ∧ s.key i = k

section
variable {md5_calc : List UInt8 → List.Vector UInt8 16} {secret : Secret}
variable {sock : ℕ → CUdpSockDataPtr} {addr : ℕ → SockaddrIn}
variable {s t : Handshakes} {i j p q a : ℕ} {c : GenSecret.Call}

@[simp] theorem call_setCall : (s.setCall j c).call i = if i = j then c else s.call i :=
  Function.update_apply _ _ _ _

theorem start_inv {secret_timeout : UInt32} {now : ℤ}
    {mem : ℕ → List.Vector UInt8 GENSECRET_BUFLEN} {received : ℕ → CCNI_HEADER} :
    Inv md5_calc secret addr (start secret_timeout now mem received) where
  serno := rfl
  nodup := List.nodup_nil
  waits _ := by simp [start]
  written p j h := by simp [start] at h
  early _ _ := rfl
  entries k item h := by simp [start,UdpJobs.start,CSecKeyMap.new] at h

theorem take_memcpy {buf : List.Vector UInt8 GENSECRET_BUFLEN} {pos n : ℕ} {front bs : List UInt8}
    {h : pos + bs.length ≤ GENSECRET_BUFLEN} (hn : bs.length = n)
    (hfront : buf.toList.take pos = front) :
    (memcpy buf pos bs h).toList.take (pos + n) = front ++ bs := by
  subst hn
  have hlen : buf.toList.length = GENSECRET_BUFLEN := buf.toList_length
  have hpos : front.length = pos := by
    rw [← hfront,List.length_take_of_le (by omega)]
  exact take_write hfront hpos

theorem tried_setCall (hi : s.Tried i) (hj : (s.call j).line ≠ .returned) :
    (s.setCall j c).Tried i ∧ (s.setCall j c).key i = s.key i := by
  have hij : i ≠ j := by
    rintro rfl
    exact hj hi.1
  constructor
  · refine ⟨?_,hi.2⟩
    rw [call_setCall,if_neg hij]
    exact hi.1
  · rw [key,call_setCall,if_neg hij,key]

/-- A call goes on after it has drawn. -/
theorem Inv.setCall (h : Inv md5_calc secret addr s) (hdrawn : (s.call j).line ≠ .serno)
    (hj : (s.call j).line ≠ .returned) (hc : c.line ≠ .serno)
    (hw : ∀ p, Written md5_calc secret p (addr j) (s.call j) →
      Written md5_calc secret p (addr j) c) : Inv md5_calc secret addr (s.setCall j c) where
  serno := h.serno
  nodup := h.nodup
  waits i := by
    rw [call_setCall]
    split_ifs with hij
    · subst hij
      exact iff_of_false (fun hi => hdrawn ((h.waits i).mp hi)) hc
    · exact h.waits i
  written p i hi := by
    rw [call_setCall]
    split_ifs with hij
    · subst hij
      exact hw p (h.written p i hi)
    · exact h.written p i hi
  early i hi := by
    rw [call_setCall] at hi
    split_ifs at hi with hij
    · exact hij ▸ h.early j hj
    · exact h.early i hi
  entries k item hk := by
    obtain ⟨i,hi,hkey⟩ := h.entries k item hk
    obtain ⟨hi',hkey'⟩ := tried_setCall hi hj
    exact ⟨i,hi',hkey'.trans hkey⟩

/-- The line under the lock. -/
theorem Inv.draw (h : Inv md5_calc secret addr s) (hj : (s.call j).line = .serno)
    (hc : Written md5_calc secret s.calls.length (addr j) c) (hline : c.line ≠ .serno) :
    Inv md5_calc secret addr ({ s with
      serno := s.serno + 1, calls := s.calls ++ [j] }.setCall j c) where
  serno := by
    change s.serno + 1 = UInt32.ofNat (s.calls ++ [j]).length
    rw [h.serno,List.length_append,List.length_singleton,UInt32.ofNat_add]
    rfl
  nodup := List.nodup_append.mpr ⟨h.nodup,List.nodup_singleton j,by
    intro i hi i' hi'
    rw [List.mem_singleton.mp hi']
    rintro rfl
    exact (h.waits i).mpr hj hi⟩
  waits i := by
    rw [call_setCall]
    change i ∉ s.calls ++ [j] ↔ _
    split_ifs with hij
    · exact iff_of_false (by simp [hij]) hline
    · rw [← h.waits i]
      simp [hij]
  written p i hi := by
    rw [call_setCall]
    have hmem := List.mem_of_getElem? hi
    change (s.calls ++ [j])[p]? = some i at hi
    by_cases hp : p < s.calls.length
    · rw [List.getElem?_append_left hp] at hi
      have hij : i ≠ j := by
        rintro rfl
        exact (h.waits i).mpr hj (List.mem_of_getElem? hi)
      rw [if_neg hij]
      exact h.written p i hi
    · rw [List.getElem?_append_right (not_lt.mp hp)] at hi
      obtain ⟨hp',hij⟩ := List.getElem?_eq_some_iff.mp hi
      simp only [List.length_singleton,Nat.lt_one_iff] at hp'
      have hpos : p = s.calls.length := by omega
      have hji : j = i := by simpa [hp'] using hij
      rw [if_pos hji.symm,hpos,← hji]
      exact hc
  early i hi := by
    rw [call_setCall] at hi
    split_ifs at hi with hij
    · exact hij ▸ h.early j (by rw [hj]; decide)
    · exact h.early i hi
  entries k item hk := by
    obtain ⟨i,hi,hkey⟩ := h.entries k item hk
    obtain ⟨hi',hkey'⟩ := tried_setCall (c := c) hi (j := j) (by rw [hj]; decide)
    exact ⟨i,hi',hkey'.trans hkey⟩

theorem genSecret_inv (h : Inv md5_calc secret addr s) :
    Inv md5_calc secret addr (s.genSecret md5_calc secret addr j) := by
  unfold genSecret
  dsimp only
  split
  · next hline =>
    have hserial : s.serno + 1 = serial s.calls.length := by
      rw [h.serno,serial,UInt32.ofNat_add]
      rfl
    refine h.draw hline ?_ (by simp)
    simp only [Written,hserial]
    exact (take_memcpy (length_le 4 _) List.take_zero).trans (List.nil_append _)
  · next hline =>
    refine h.setCall (by rw [hline]; decide) (by rw [hline]; decide) (by simp) fun p hp => ?_
    simp only [Written,hline] at hp ⊢
    exact take_memcpy (SockaddrIn.length_toBytes _) hp
  · next hline =>
    refine h.setCall (by rw [hline]; decide) (by rw [hline]; decide) (by simp) fun p hp => ?_
    simp only [Written,hline] at hp ⊢
    rw [take_memcpy rfl hp,List.append_assoc,genSecretBuf]
  · next hline =>
    refine h.setCall (by rw [hline]; decide) (by rw [hline]; decide) (by simp) fun p hp => ?_
    simp only [Written,hline] at hp ⊢
    exact ⟨hp,_,congrArg (fun x => ((s.call j).hd.overlay (md5_calc x))) hp⟩
  · exact h

theorem jobs_inv {jobs : UdpJobs} {sent : Bool} (h : Inv md5_calc secret addr s)
    (hj : (s.call j).line = .returned)
    (hrun : UdpJobs.run s.key sock addr s.jobs j sent = .ok jobs) :
    Inv md5_calc secret addr { s with jobs } := by
  obtain ⟨hothers,hself,hentries⟩ := UdpJobs.run_ok hrun
  refine ⟨h.serno,h.nodup,h.waits,h.written,fun i hi => ?_,fun k item hk => ?_⟩
  · have hij : i ≠ j := by
      rintro rfl
      exact hi hj
    exact (hothers i hij).trans (h.early i hi)
  · have htried : ∀ i, s.Tried i → Tried { s with jobs } i := by
      intro i hi
      refine ⟨hi.1,?_⟩
      by_cases hij : i = j
      · exact hij ▸ hself
      · exact fun hnext => hi.2 ((hothers i hij).symm.trans hnext)
    rcases hentries k item hk with hkey | ⟨item',hitem'⟩
    · exact ⟨j,⟨hj,hself⟩,hkey.symm⟩
    · obtain ⟨i,hi,hkey⟩ := h.entries k item' hitem'
      exact ⟨i,htried i hi,hkey⟩

theorem find?_verifykey {m : CSecKeyMap} {k k' : CSecretKey} {ip : UInt32} {item : CItem}
    (h : (m.verifykey k' ip).2.map.find? k = some item) : m.map.find? k = some item := by
  cases hv : m.verifykey k' ip with
  | mk used m' =>
    rw [hv] at h
    cases used with
    | none =>
      obtain ⟨rfl,-⟩ := verifykey_none hv
      exact h
    | some item' =>
      obtain ⟨-,-,rfl⟩ := verifykey_some hv
      simp only [OrdMap.find?_erase] at h
      split_ifs at h
      exact h

theorem step_inv {e : Event} (h : Inv md5_calc secret addr s)
    (hs : Lts.Steps (step md5_calc secret sock addr) s e t) : Inv md5_calc secret addr t := by
  cases e with
  | job j sent =>
    simp only [Lts.Steps,step] at hs
    split_ifs at hs with hline
    · split at hs
      · next jobs hrun =>
        cases hs
        exact jobs_inv h hline hrun
      · cases hs
    · cases hs
      exact genSecret_inv h
  | verifykey k ip =>
    cases hs
    refine ⟨h.serno,h.nodup,h.waits,h.written,h.early,fun k' item hk => ?_⟩
    exact h.entries k' item (find?_verifykey hk)
  | time now =>
    cases hs
    exact ⟨h.serno,h.nodup,h.waits,h.written,h.early,h.entries⟩

/-! ### Keys within 2^32 calls -/

/-- Serial numbers less than 2^32 calls apart are different. -/
theorem serial_inj (hp : a ≤ p ∧ p < a + 2^32) (hq : a ≤ q ∧ q < a + 2^32)
    (h : serial p = serial q) : p = q := by
  have hmod : (p + 1) % 2^32 = (q + 1) % 2^32 := by
    have := congrArg UInt32.toNat h
    simpa only [serial,UInt32.toNat_ofNat'] using this
  omega

theorem genSecretBuf_inj {serno serno' : UInt32} {ad ad' : SockaddrIn} {sec : CString}
    (h : genSecretBuf serno ad sec = genSecretBuf serno' ad' sec) : serno = serno' := by
  have hfront : le 4 serno.toNat = le 4 serno'.toNat :=
    (List.append_inj h (by rw [length_le,length_le])).1
  have hlt : serno.toNat < 256^4 ∧ serno'.toNat < 256^4 := ⟨serno.toNat_lt,serno'.toNat_lt⟩
  have hmod := le_inj hfront
  rw [Nat.mod_eq_of_lt hlt.1,Nat.mod_eq_of_lt hlt.2] at hmod
  exact UInt32.toNat_inj.mp hmod

theorem Inv.mem_calls (h : Inv md5_calc secret addr s) (hj : (s.call j).line = .returned) :
    j ∈ s.calls := by
  by_contra hj'
  rw [(h.waits j).mp hj'] at hj
  cases hj

theorem Inv.input (h : Inv md5_calc secret addr s) (hp : s.calls[p]? = some j)
    (hj : s.Complete j) : s.input secret j = genSecretBuf (serial p) (addr j) secret.val := by
  have hw := h.written p j hp
  rcases hj with hline | hline
  · simp only [Written,hline] at hw
    exact hw
  · simp only [Written,hline] at hw
    exact hw.1

theorem Inv.key (h : Inv md5_calc secret addr s) (hj : (s.call j).line = .returned) :
    ∃ hd : CCNI_HEADER, s.key j = (hd.overlay (md5_calc (s.input secret j))).secrets := by
  obtain ⟨p,hp⟩ := List.getElem?_of_mem (h.mem_calls hj)
  have hw := h.written p j hp
  simp only [Written,hj] at hw
  obtain ⟨hinput,hd,hhd⟩ := hw
  refine ⟨hd,?_⟩
  rw [h.input hp (.inr hj),Handshakes.key,hhd]

theorem Inv.input_ne (h : Inv md5_calc secret addr s) (hi : i ∈ s.Window a)
    (hj : j ∈ s.Window a) (hij : i ≠ j) (hi' : s.Complete i) (hj' : s.Complete j) :
    s.input secret i ≠ s.input secret j := by
  obtain ⟨p,hp,hpa⟩ := hi
  obtain ⟨q,hq,hqa⟩ := hj
  intro heq
  rw [h.input hp hi',h.input hq hj'] at heq
  have hpq := serial_inj hpa hqa (genSecretBuf_inj heq)
  subst hpq
  exact hij (Option.some.inj (hp.symm.trans hq))

theorem Inv.key_ne (h : Inv md5_calc secret addr s)
    (hmd5 : Set.InjOn md5_calc (s.inputs secret (s.Window a))) (hi : i ∈ s.Window a)
    (hj : j ∈ s.Window a) (hij : i ≠ j) (hi' : (s.call i).line = .returned)
    (hj' : (s.call j).line = .returned) : s.key i ≠ s.key j := by
  intro heq
  obtain ⟨hd,hkey⟩ := h.key hi'
  obtain ⟨hd',hkey'⟩ := h.key hj'
  rw [hkey,hkey'] at heq
  have hdigest := CCNI_HEADER.secrets_overlay_inj heq
  exact h.input_ne hi hj hij (.inr hi') (.inr hj')
    (hmd5 ⟨i,hi,.inr hi',rfl⟩ ⟨j,hj,.inr hj',rfl⟩ hdigest)

/-- A refused key is the key of another job. -/
theorem Inv.refused (h : Inv md5_calc secret addr s) (hj : s.Fresh j)
    (hfalse : s.inserts sock addr j = false) : ∃ i, i ≠ j ∧ s.Tried i ∧ s.key i = s.key j := by
  have hins : s.jobs.smap.insert s.jobs.now (s.key j) (sock j) (addr j) =
      (false,(s.jobs.smap.insert s.jobs.now (s.key j) (sock j) (addr j)).2) := by
    rw [← hfalse,inserts]
  obtain ⟨-,item,hfind,-⟩ := insert_false hins
  obtain ⟨i,hi,hkey⟩ := h.entries _ item hfind
  refine ⟨i,?_,hi,hkey⟩
  rintro rfl
  exact hi.2 hj.2

end

/-- The inputs of the digests of 2^32 consecutive calls differ. Where the digest tells them apart
the keys do too, no call among them makes `insert` refuse the key of another, and up to 2^32 calls
after the start none is refused. -/
theorem genSecret_fresh (md5_calc : List UInt8 → List.Vector UInt8 16) (secret : Secret)
    (sock : ℕ → CUdpSockDataPtr) (addr : ℕ → SockaddrIn) {secret_timeout : UInt32} {now : ℤ}
    {mem : ℕ → List.Vector UInt8 GENSECRET_BUFLEN} {received : ℕ → CCNI_HEADER}
    {es : List Event} {s : Handshakes}
    (h : Lts.Run (Lts.Steps (step md5_calc secret sock addr))
      (start secret_timeout now mem received) es s) (a : ℕ) :
    (∀ i ∈ s.Window a, ∀ j ∈ s.Window a, i ≠ j → s.Complete i → s.Complete j →
      s.input secret i ≠ s.input secret j) ∧
    (Set.InjOn md5_calc (s.inputs secret (s.Window a)) →
      (∀ i ∈ s.Window a, ∀ j ∈ s.Window a, i ≠ j → (s.call i).line = .returned →
        (s.call j).line = .returned → s.key i ≠ s.key j) ∧
      ∀ j ∈ s.Window a, s.Fresh j → s.inserts sock addr j = false →
        ∃ i ∉ s.Window a, s.Tried i ∧ s.key i = s.key j) ∧
    (s.calls.length ≤ 2^32 → Set.InjOn md5_calc (s.inputs secret (s.Window 0)) →
      ∀ j, s.Fresh j → s.inserts sock addr j = true) := by
  have hinv := h.invariant (fun _ _ _ hs ht => step_inv hs ht) start_inv
  refine ⟨fun i hi j hj hij => hinv.input_ne hi hj hij,fun hmd5 => ⟨?_,?_⟩,?_⟩
  · exact fun i hi j hj hij => hinv.key_ne hmd5 hi hj hij
  · intro j hj hfresh hfalse
    obtain ⟨i,hij,hi,hkey⟩ := hinv.refused hfresh hfalse
    refine ⟨i,fun hiW => ?_,hi,hkey⟩
    exact hinv.key_ne hmd5 hiW hj hij hi.1 hfresh.1 hkey
  · intro hlen hmd5 j hfresh
    have hall : ∀ i, (s.call i).line = .returned → i ∈ s.Window 0 := by
      intro i hi
      obtain ⟨p,hp,hget⟩ := List.getElem_of_mem (hinv.mem_calls hi)
      exact ⟨p,List.getElem?_eq_some_iff.mpr ⟨hp,hget⟩,Nat.zero_le p,by omega⟩
    by_contra hfalse
    obtain ⟨i,hij,hi,hkey⟩ := hinv.refused hfresh (Bool.not_eq_true _ ▸ hfalse)
    exact hinv.key_ne hmd5 (hall i hi.1) (hall j hfresh.1) hij hi.1 hfresh.1 hkey

/-! ### Two calls for one address -/

def helloSecret : Secret := ⟨c_str "hello",by decide⟩

/-- 127.0.0.1 and the port 8080, as they lie in memory. -/
def oneAddr : ℕ → SockaddrIn := fun _ => ⟨0x0100007f,0x901f⟩

def firstDigest : List.Vector UInt8 16 :=
  ⟨[200,136,218,161,59,172,37,212,176,232,168,41,51,166,181,12],rfl⟩

def secondDigest : List.Vector UInt8 16 :=
  ⟨[225,71,66,24,127,121,61,9,123,216,87,168,128,144,126,200],rfl⟩

/-- The digests of the two inputs. -/
def twoDigests (x : List UInt8) : List.Vector UInt8 16 :=
  if x = genSecretBuf (serial 0) (oneAddr 0) helloSecret.val then firstDigest else secondDigest

/-- The second job overtakes the first after the lock. -/
def twoCalls : List Event :=
  [.job 0 true,.job 1 true,.job 1 true,.job 1 true,.job 0 true,.job 1 true,.job 0 true,
    .job 0 true]

theorem twoCalls_run : ∃ s, Lts.Run (Lts.Steps (step twoDigests helloSecret id oneAddr))
    (start 5 0 (fun _ => List.Vector.replicate 512 0) (fun _ => .new)) twoCalls s ∧
    s.calls = [0,1] ∧ s.Fresh 0 ∧ s.Fresh 1 :=
  ⟨_,Lts.exec_ok_iff.mp rfl,rfl,⟨rfl,rfl⟩,rfl,rfl⟩

theorem genSecret_fresh_two : ∃ s, Lts.Run (Lts.Steps (step twoDigests helloSecret id oneAddr))
    (start 5 0 (fun _ => List.Vector.replicate 512 0) (fun _ => .new)) twoCalls s ∧
    s.key 0 ≠ s.key 1 ∧ s.inserts id oneAddr 0 = true ∧ s.inserts id oneAddr 1 = true := by
  obtain ⟨s,hrun,hcalls,h0,h1⟩ := twoCalls_run
  have hinv := hrun.invariant (fun _ _ _ hs ht => step_inv hs ht) start_inv
  have hwindow : ∀ i, i ∈ s.Window 0 → i = 0 ∨ i = 1 := by
    rintro i ⟨p,hp,-⟩
    have hmem := List.mem_of_getElem? hp
    rw [hcalls] at hmem
    simpa using hmem
  have hw0 : 0 ∈ s.Window 0 := ⟨0,by rw [hcalls]; rfl,by norm_num⟩
  have hw1 : 1 ∈ s.Window 0 := ⟨1,by rw [hcalls]; rfl,by norm_num⟩
  have hin0 := hinv.input (p := 0) (by rw [hcalls]; rfl) (.inr h0.1)
  have hin1 := hinv.input (p := 1) (by rw [hcalls]; rfl) (.inr h1.1)
  have hd0 : twoDigests (s.input helloSecret 0) = firstDigest := by
    rw [hin0,twoDigests,if_pos rfl]
  have hd1 : twoDigests (s.input helloSecret 1) = secondDigest := by
    rw [hin1,twoDigests,if_neg (by decide)]
  have hne : firstDigest ≠ secondDigest := by decide
  have hmd5 : Set.InjOn twoDigests (s.inputs helloSecret (s.Window 0)) := by
    rintro _ ⟨i,hi,-,rfl⟩ _ ⟨j,hj,-,rfl⟩ heq
    rcases hwindow i hi with rfl | rfl <;> rcases hwindow j hj with rfl | rfl
    · rfl
    · exact absurd (hd0.symm.trans (heq.trans hd1)) hne
    · exact absurd (hd0.symm.trans (heq.symm.trans hd1)) hne
    · rfl
  obtain ⟨-,hkeys,hnever⟩ := genSecret_fresh twoDigests helloSecret id oneAddr hrun 0
  have hlen : s.calls.length ≤ 2^32 := by rw [hcalls]; decide
  exact ⟨s,hrun,(hkeys hmd5).1 0 hw0 1 hw1 (by decide) h0.1 h1.1,
    hnever hlen hmd5 0 h0,hnever hlen hmd5 1 h1⟩

end Handshakes
end CcniServer
