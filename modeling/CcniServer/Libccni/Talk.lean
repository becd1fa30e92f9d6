import CcniServer.Lib.Lts
import CcniServer.Wire.Parser
import Mathlib.Logic.Function.Basic

/-!
Requests and replies of the client library. The listener thread puts every reply into the queue
of its sequence number, which is the caller's thread id cut to 32 bits, and a caller takes the
first reply of its queue or gives up.
-/
namespace CcniServer

/-- A message that a thread has sent to the server. -/
structure CCNIConnection.Request where
  thread : ℕ
  name : String

/-- The requests in the order they were sent, how many of the replies have arrived, the queues,
the request whose reply a thread waits for, and what the calls have returned: the request of the
reply, or nothing for a failure. -/
structure CCNIConnection where
  sent : List CCNIConnection.Request
  arrived : ℕ
  evts : UInt32 → List ℕ
  waiting : ℕ → Option ℕ
  returned : List (ℕ × Option ℕ)

namespace CCNIConnection

def new : CCNIConnection := ⟨[],0,fun _ => [],fun _ => none,[]⟩

/-- What `talkToServer` takes for the reply to a message: it has the element of that name, with
no return code but zero. -/
def Recognised (msg : String) (res : CXmlNode) : Prop :=
  ∃ rgmsg, CXmlNode.findChild (some res) (msg ++ xmlTagRes) = some rgmsg ∧
    CXmlNode.getIntContent (CXmlNode.findChild (some rgmsg) xmlTagReturnCode) = 0

instance (msg : String) (res : CXmlNode) : Decidable (Recognised msg res) :=
  match h : CXmlNode.findChild (some res) (msg ++ xmlTagRes) with
  | none => isFalse (by simp [Recognised,h])
  | some rgmsg => decidable_of_iff (CXmlNode.getIntContent
      (CXmlNode.findChild (some rgmsg) xmlTagReturnCode) = 0) (by simp [Recognised,h])

/-- A thread calls `talkToServer`, the listener thread reads the next reply, or a waiting thread
comes out of `receive`, with nothing where its queue is empty by then. -/
inductive Event
  | talkToServer (t : ℕ) (msg : String)
  | doServerMessage
  | receive (t : ℕ)

variable (pthread_self : ℕ → UInt64) (res : ℕ → CXmlNode)

/-- `(uint32_t)pthread_self()`. -/
def seq (t : ℕ) : UInt32 := (pthread_self t).toUInt32

/-- The call up to `receive`, while the thread is in no other call. -/
def talkToServer (s : CCNIConnection) (t : ℕ) (msg : String) : CCNIConnection :=
  match s.waiting t with
  | some _ => s
  | none =>
    { s with
      sent := s.sent ++ [⟨t,msg⟩]
      waiting := Function.update s.waiting t (some s.sent.length) }

/-- The next reply; one with the number zero is dropped. -/
def doServerMessage (s : CCNIConnection) : CCNIConnection :=
  match s.sent[s.arrived]? with
  | none => s
  | some req =>
    let q := seq pthread_self req.thread
    { s with
      arrived := s.arrived + 1
      evts := if q = 0 then s.evts else Function.update s.evts q (s.evts q ++ [s.arrived]) }

/-- `receive` and what `talkToServer` makes of the reply. -/
def receive (s : CCNIConnection) (t : ℕ) : CCNIConnection :=
  match s.waiting t with
  | none => s
  | some r =>
    let q := seq pthread_self t
    let s := { s with waiting := Function.update s.waiting t none }
    match s.evts q with
    | [] => { s with returned := s.returned ++ [(r,none)] }
    | r' :: rest =>
      let msg := (s.sent[r]?.map Request.name).getD ""
      { s with
        evts := Function.update s.evts q rest
        returned := s.returned ++ [(r,if Recognised msg (res r') then some r' else none)] }

def step (s : CCNIConnection) : Event → CCNIConnection
  | .talkToServer t msg => s.talkToServer t msg
  | .doServerMessage => s.doServerMessage pthread_self
  | .receive t => s.receive pthread_self res t

/-- A request under a number that has a queue, whose reply has not arrived or is in the queue. -/
structure Outstanding (s : CCNIConnection) (q : UInt32) (r : ℕ) : Prop where
  kept : q ≠ 0
  sent : ∃ req, s.sent[r]? = some req ∧ seq pthread_self req.thread = q
  pending : s.arrived ≤ r ∨ r ∈ s.evts q

/-- The call meets no reply that it would take for its own: none is outstanding under its number,
and no thread that waits under that number would take the new one for its own. -/
def Clear (s : CCNIConnection) : Event → Prop
  | .talkToServer t msg => s.waiting t = none → seq pthread_self t ≠ 0 →
      (∀ r, s.Outstanding pthread_self (seq pthread_self t) r → ¬ Recognised msg (res r)) ∧
      ∀ t' r req, s.waiting t' = some r → s.sent[r]? = some req →
        seq pthread_self t' = seq pthread_self t → ¬ Recognised req.name (res s.sent.length)
  | _ => True

structure Inv (s : CCNIConnection) : Prop where
  arrived : s.arrived ≤ s.sent.length
  /-- The queued replies have arrived, under the queue's number. -/
  queued : ∀ q r, r ∈ s.evts q → r < s.arrived ∧ s.Outstanding pthread_self q r
  waiting : ∀ t r, s.waiting t = some r → ∃ msg, s.sent[r]? = some ⟨t,msg⟩
  /-- A waiting thread would refuse every outstanding reply but its own. -/
  apart : ∀ t r req, s.waiting t = some r → s.sent[r]? = some req → ∀ r',
    s.Outstanding pthread_self (seq pthread_self t) r' → r' ≠ r → ¬ Recognised req.name (res r')
  matched : ∀ r r', (r,some r') ∈ s.returned → r' = r

variable {pthread_self res}

theorem new_inv : new.Inv pthread_self res := by
  refine ⟨le_rfl,fun q r h => ?_,fun t r h => ?_,fun t r msg h => ?_,fun r r' h => ?_⟩ <;> cases h

theorem Outstanding.lt {s : CCNIConnection} {q : UInt32} {r : ℕ}
    (h : s.Outstanding pthread_self q r) : r < s.sent.length := by
  obtain ⟨req,hreq,-⟩ := h.sent
  exact (List.getElem?_eq_some_iff.mp hreq).1

/-- A call adds one request, which is outstanding as long as its number has a queue. -/
theorem outstanding_talkToServer {s : CCNIConnection} {t : ℕ} {msg : String} {q : UInt32} {r : ℕ}
    {w : ℕ → Option ℕ} (harrived : s.arrived ≤ s.sent.length) :
    Outstanding pthread_self { s with sent := s.sent ++ [⟨t,msg⟩], waiting := w } q r ↔
      s.Outstanding pthread_self q r ∨ (r = s.sent.length ∧ q = seq pthread_self t ∧ q ≠ 0) := by
  have hlast : (s.sent ++ [⟨t,msg⟩])[s.sent.length]? = some ⟨t,msg⟩ := by simp
  constructor
  · intro h
    by_cases hr : r < s.sent.length
    · left
      refine ⟨h.kept,?_,h.pending⟩
      have hsent := h.sent
      rwa [List.getElem?_append_left hr] at hsent
    · right
      have hlt := h.lt
      simp only [List.length_append,List.length_singleton] at hlt
      have heq : r = s.sent.length := by omega
      obtain ⟨req,hreq,hq⟩ := h.sent
      rw [heq,hlast,Option.some_inj] at hreq
      rw [← hreq] at hq
      exact ⟨heq,hq.symm,h.kept⟩
  · rintro (h | ⟨rfl,rfl,hq⟩)
    · refine ⟨h.kept,?_,h.pending⟩
      rw [List.getElem?_append_left h.lt]
      exact h.sent
    · exact ⟨hq,⟨_,hlast,rfl⟩,.inl harrived⟩

theorem talkToServer_inv {s : CCNIConnection} (h : s.Inv pthread_self res) {t : ℕ} {msg : String}
    (hclear : s.Clear pthread_self res (.talkToServer t msg)) :
    (s.talkToServer t msg).Inv pthread_self res := by
  unfold talkToServer
  cases hw : s.waiting t with
  | some r => exact h
  | none =>
    have hclear := hclear hw
    dsimp only
    have hlast : (s.sent ++ [⟨t,msg⟩])[s.sent.length]? = some ⟨t,msg⟩ := by simp
    have hold : ∀ t' r, s.waiting t' = some r → (s.sent ++ [⟨t,msg⟩])[r]? = s.sent[r]? := by
      intro t' r hr
      obtain ⟨msg',hreq⟩ := h.waiting t' r hr
      exact List.getElem?_append_left (List.getElem?_eq_some_iff.mp hreq).1
    refine ⟨?_,fun q r hr => ?_,fun t' r hr => ?_,fun t' r req hr hreq r' hout hne => ?_,
      h.matched⟩
    · simp only [List.length_append]
      exact h.arrived.trans (Nat.le_add_right _ _)
    · obtain ⟨hlt,hout⟩ := h.queued q r hr
      exact ⟨hlt,(outstanding_talkToServer h.arrived).mpr (.inl hout)⟩
    · dsimp only at hr ⊢
      by_cases htt : t' = t
      · rw [htt,Function.update_self,Option.some_inj] at hr
        rw [← hr,htt]
        exact ⟨msg,hlast⟩
      · rw [Function.update_of_ne htt] at hr
        rw [hold t' r hr]
        exact h.waiting t' r hr
    · dsimp only at hr hreq
      by_cases htt : t' = t
      · -- The new call, and the replies that are outstanding already.
        rw [htt,Function.update_self,Option.some_inj] at hr
        rw [← hr] at hreq hne
        rw [hlast,Option.some_inj] at hreq
        rw [htt,outstanding_talkToServer h.arrived] at hout
        rw [← hreq]
        rcases hout with hout | ⟨hr',-⟩
        · exact (hclear hout.kept).1 r' hout
        · exact absurd hr' hne
      · -- A call that waits, and perhaps the new reply.
        rw [Function.update_of_ne htt] at hr
        rw [hold t' r hr] at hreq
        rcases (outstanding_talkToServer h.arrived).mp hout with hout | ⟨hr',hq,hkept⟩
        · exact h.apart t' r req hr hreq r' hout hne
        · rw [hr']
          exact (hclear (hq ▸ hkept)).2 t' r req hr hreq hq

/-- Fewer calls wait and fewer replies are outstanding. -/
theorem Inv.fewer {s s' : CCNIConnection} (h : s.Inv pthread_self res)
    (hsent : s'.sent = s.sent) (hwaiting : ∀ t r, s'.waiting t = some r → s.waiting t = some r)
    (hmatched : ∀ r r', (r,some r') ∈ s'.returned → r' = r) (harrived : s'.arrived ≤ s'.sent.length)
    (hqueued : ∀ q r, r ∈ s'.evts q → r < s'.arrived ∧ s'.Outstanding pthread_self q r)
    (hout : ∀ q r, s'.Outstanding pthread_self q r → s.Outstanding pthread_self q r) :
    s'.Inv pthread_self res := by
  refine ⟨harrived,hqueued,fun t r hr => ?_,fun t r req hr hreq r' hr' => ?_,hmatched⟩
  · rw [hsent]
    exact h.waiting t r (hwaiting t r hr)
  · rw [hsent] at hreq
    exact h.apart t r req (hwaiting t r hr) hreq r' (hout _ _ hr')

/-- A reply arrives, and is dropped or outstanding in its queue. -/
theorem doServerMessage_inv {s : CCNIConnection} (h : s.Inv pthread_self res) :
    (s.doServerMessage pthread_self).Inv pthread_self res := by
  unfold doServerMessage
  cases hreq : s.sent[s.arrived]? with
  | none => exact h
  | some req =>
    dsimp only
    have hlt := (List.getElem?_eq_some_iff.mp hreq).1
    have hqueue : ∀ q r, r ∈ (if seq pthread_self req.thread = 0 then s.evts
        else Function.update s.evts (seq pthread_self req.thread)
          (s.evts (seq pthread_self req.thread) ++ [s.arrived])) q →
        r ∈ s.evts q ∨ (r = s.arrived ∧ q = seq pthread_self req.thread ∧ q ≠ 0) := by
      intro q r hr
      split_ifs at hr with hzero
      · exact .inl hr
      · by_cases hq : q = seq pthread_self req.thread
        · rw [hq,Function.update_self,List.mem_append,List.mem_singleton] at hr
          rw [hq]
          exact hr.imp_right fun hr => ⟨hr,rfl,hzero⟩
        · rw [Function.update_of_ne hq] at hr
          exact .inl hr
    refine h.fewer rfl (fun _ _ hr => hr) h.matched hlt (fun q r hr => ?_) fun q r hout => ?_
    · have hmem : r ∈ s.evts q ∨ (r = s.arrived ∧ q = seq pthread_self req.thread ∧ q ≠ 0) :=
        hqueue q r hr
      rcases hmem with hmem | ⟨heq,hq,hzero⟩
      · obtain ⟨hrlt,hout⟩ := h.queued q r hmem
        exact ⟨Nat.lt_succ_of_lt hrlt,hout.kept,hout.sent,.inr hr⟩
      · rw [heq]
        exact ⟨Nat.lt_succ_self _,hzero,⟨req,hreq,hq.symm⟩,.inr (heq ▸ hr)⟩
    · refine ⟨hout.kept,hout.sent,?_⟩
      rcases hout.pending with hle | hmem
      · exact .inl (Nat.le_of_succ_le hle)
      · rcases hqueue q r hmem with hmem | ⟨heq,-⟩
        · exact .inr hmem
        · exact .inl heq.ge

/-- A call ends, and takes nothing or a reply that was queued. -/
theorem Inv.taken {s : CCNIConnection} (h : s.Inv pthread_self res) (t : ℕ)
    {evts : UInt32 → List ℕ} {returned : List (ℕ × Option ℕ)}
    (hsub : ∀ q r, r ∈ evts q → r ∈ s.evts q) (hmatched : ∀ r r', (r,some r') ∈ returned → r' = r) :
    Inv pthread_self res { s with
      waiting := Function.update s.waiting t none, evts := evts, returned := returned } := by
  refine h.fewer rfl (fun t' r hr => ?_) hmatched h.arrived (fun q r hr => ?_) fun q r hout => ?_
  · dsimp only at hr
    by_cases htt : t' = t
    · rw [htt,Function.update_self] at hr
      cases hr
    · rwa [Function.update_of_ne htt] at hr
  · obtain ⟨hlt,hout⟩ := h.queued q r (hsub q r hr)
    exact ⟨hlt,hout.kept,hout.sent,.inr hr⟩
  · exact ⟨hout.kept,hout.sent,hout.pending.imp_right (hsub q r)⟩

/-- The first reply of the queue is taken, by a call that would refuse it unless it is its own. -/
theorem receive_inv {s : CCNIConnection} (h : s.Inv pthread_self res) (t : ℕ) :
    (s.receive pthread_self res t).Inv pthread_self res := by
  unfold receive
  cases hw : s.waiting t with
  | none => exact h
  | some r =>
    dsimp only
    cases hq : s.evts (seq pthread_self t) with
    | nil =>
      dsimp only
      refine h.taken t (fun _ _ hr => hr) fun r₁ r₂ hret => ?_
      rcases List.mem_append.mp hret with hret | hret
      · exact h.matched r₁ r₂ hret
      · simp at hret
    | cons r' rest =>
      dsimp only
      obtain ⟨msg,hsent⟩ := h.waiting t r hw
      have hhead : r' ∈ s.evts (seq pthread_self t) := by
        rw [hq]
        exact List.mem_cons_self
      refine h.taken t (fun q r₁ hr => ?_) fun r₁ r₂ hret => ?_
      · by_cases hqq : q = seq pthread_self t
        · rw [hqq,Function.update_self] at hr
          rw [hqq,hq]
          exact List.mem_cons_of_mem _ hr
        · rwa [Function.update_of_ne hqq] at hr
      · rcases List.mem_append.mp hret with hret | hret
        · exact h.matched r₁ r₂ hret
        · rw [List.mem_singleton,hsent,Option.map_some,Option.getD_some] at hret
          by_cases hrec : Recognised msg (res r')
          · rw [if_pos hrec] at hret
            cases hret
            by_contra hne
            exact h.apart t r _ hw hsent r' (h.queued _ r' hhead).2 hne hrec
          · rw [if_neg hrec] at hret
            cases hret

theorem step_inv {s : CCNIConnection} (h : s.Inv pthread_self res) {e : Event}
    (hclear : s.Clear pthread_self res e) : (s.step pthread_self res e).Inv pthread_self res := by
  cases e with
  | talkToServer t msg => exact talkToServer_inv h hclear
  | doServerMessage => exact doServerMessage_inv h
  | receive t => exact receive_inv h t

/-- A call over a queue that holds a reply it recognises returns that reply. -/
theorem stale_returned {s : CCNIConnection} {t r' : ℕ} {msg : String} {rest : List ℕ}
    (hw : s.waiting t = none) (hq : s.evts (seq pthread_self t) = r' :: rest)
    (hrec : Recognised msg (res r')) :
    (s.sent.length,some r') ∈
      ((s.step pthread_self res (.talkToServer t msg)).step pthread_self res
        (.receive t)).returned := by
  simp [step,talkToServer,receive,hw,hq,hrec]

/-- Where no call meets a reply that it would take for its own, every reply that is returned
belongs to its call. -/
theorem replies_matched (pthread_self : ℕ → UInt64) (res : ℕ → CXmlNode) (es : List Event)
    (hclear : Lts.Meets (Lts.Moves (step pthread_self res)) (Clear pthread_self res) new es) :
    ∀ r r', (r,some r') ∈ (es.foldl (step pthread_self res) new).returned → r' = r := by
  have hrun := Lts.run_foldl (step pthread_self res) new es
  have hinv : Inv pthread_self res (es.foldl (step pthread_self res) new) :=
    hrun.invariant_of_meets (fun s e s' h hc hs => hs ▸ step_inv h hc) hclear new_inv
  exact hinv.matched

/-- A server that answers nothing but `Ready`. -/
def readyRes : CXmlNode :=
  .element xmlTagCCNIMessages [.element xmlTagReadyRes [.element xmlTagReturnCode [.text "0"]]]

/-- The second thread has a number of its own, the third one that of the first. -/
def selves (t : ℕ) : UInt64 := if t = 1 then 8 else if t = 2 then 4294967303 else 7

def replies (r : ℕ) : CXmlNode :=
  if r = 2 then
    .element xmlTagCCNIMessages
      [.element "LeaveRoomRes" [.element xmlTagReturnCode [.text "0"]]]
  else readyRes

/-- Three threads call at once and get their replies. The first calls again and gives up before its
reply is there. -/
def calls : List Event :=
  [.talkToServer 0 xmlTagReady,.talkToServer 1 xmlTagReady,.talkToServer 2 "LeaveRoom",
   .doServerMessage,.doServerMessage,.doServerMessage,.receive 1,.receive 0,.receive 2,
   .talkToServer 0 xmlTagReady,.receive 0,.doServerMessage]

theorem replies_matched_calls :
    (calls.foldl (step selves replies) new).returned =
      [(1,some 1),(0,some 0),(2,some 2),(3,none)] ∧
    ∀ r r', (r,some r') ∈ (calls.foldl (step selves replies) new).returned → r' = r := by
  refine ⟨by decide,replies_matched selves replies calls ?_⟩
  refine Lts.meets_moves_cons
    (fun _ _ => ⟨fun r hout => absurd hout.lt (Nat.not_lt_zero r),nofun⟩) ?_
  refine Lts.meets_moves_cons (fun _ _ => ⟨fun r hout => ?_,fun t r req hr hreq hseq => ?_⟩) ?_
  · obtain ⟨req,hreq,hseq⟩ := hout.sent
    obtain rfl : r = 0 := Nat.lt_one_iff.mp hout.lt
    cases hreq
    exact absurd hseq (by decide)
  · by_cases ht : t = 0
    · subst ht
      exact absurd hseq (by decide)
    · change Function.update (fun _ => none) 0 (some 0) t = some r at hr
      rw [Function.update_of_ne ht] at hr
      cases hr
  refine Lts.meets_moves_cons (fun _ _ => ⟨fun r hout => ?_,fun t r req hr hreq hseq => ?_⟩) ?_
  · -- The reply of the first thread is for another call, and the second one has another number.
    obtain ⟨req,hreq,hseq⟩ := hout.sent
    have hr : r = 0 ∨ r = 1 := by
      have hlt : r < 2 := hout.lt
      omega
    obtain rfl | rfl := hr
    · decide
    · cases hreq
      exact absurd hseq (by decide)
  · change Function.update (Function.update (fun _ => none) 0 (some 0)) 1 (some 1) t = some r at hr
    by_cases ht : t = 1
    · subst ht
      exact absurd hseq (by decide)
    · rw [Function.update_of_ne ht,Function.update_apply] at hr
      split_ifs at hr
      cases hr
      cases hreq
      decide
  refine Lts.meets_moves_cons trivial (Lts.meets_moves_cons trivial ?_)
  refine Lts.meets_moves_cons trivial (Lts.meets_moves_cons trivial ?_)
  refine Lts.meets_moves_cons trivial (Lts.meets_moves_cons trivial ?_)
  refine Lts.meets_moves_cons (fun _ _ => ⟨fun r hout => ?_,fun t r req hr hreq hseq => ?_⟩) ?_
  · -- All replies have been fetched.
    obtain hlate | hqueued := hout.pending
    · exact absurd hout.lt (not_lt.mpr hlate)
    · cases hqueued
  · have hnone : ∀ t, ((calls.take 9).foldl (step selves replies) new).waiting t = none := by
      intro t
      match t with
      | 0 | 1 | 2 => rfl
      | n + 3 => rfl
    exact absurd ((hnone t).symm.trans hr) nofun
  exact Lts.meets_moves_cons trivial (Lts.meets_moves_cons trivial trivial)

/-- The first call gives up before its reply arrives, and the second one takes that reply. -/
theorem stale_reply_returned :
    ¬ ∀ r r', (r,some r') ∈ ([.talkToServer 0 xmlTagReady,.receive 0,.doServerMessage,
      .talkToServer 0 xmlTagReady,.receive 0].foldl
        (step (fun _ => 7) fun _ => readyRes) new).returned → r' = r := by
  intro h
  have hmem : (1,some 0) ∈ ([.talkToServer 0 xmlTagReady,.receive 0,.doServerMessage,
      .talkToServer 0 xmlTagReady,.receive 0].foldl
        (step (fun _ => 7) fun _ => readyRes) new).returned := by
    decide
  exact absurd (h 1 0 hmem) (by decide)

end CCNIConnection
end CcniServer
