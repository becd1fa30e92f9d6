import CcniServer.Hall.Membership
import CcniServer.Hall.Replies
import CcniServer.Lib.Grouped
import CcniServer.Udp.Broadcast

/-!
Recipients: whom the operations of a session collect in a notifier, whose addresses the operations
of a room insert into a broadcaster, and which of them `CBroadCaster::run` sends to.
-/
namespace CcniServer

/-! ### Sessions -/

namespace CNotifier

@[simp] theorem clis_addNotifiees (n : CNotifier) (cs : List CClientPtr) :
    (n.addNotifiees cs).clis = n.clis ++ cs := by
  unfold addNotifiees
  induction cs generalizing n with
  | nil => exact (List.append_nil _).symm
  | cons c cs ih =>
    rw [List.foldl_cons,ih,addNotifiee,List.append_assoc]
    rfl

end CNotifier

namespace CSession
variable {ss ss' : CSession} {c : CClientPtr} {n n' : CNotifier}

/-- Every member of the session but the client is appended to the notifier once, and nobody else. -/
structure Told (ss : CSession) (c : CClientPtr) (n n' : CNotifier) : Prop where
  prefix_clis : n.clis <+: n'.clis
  once : ∀ d, n'.clis.count d = n.clis.count d + if d ∈ ss.members ∧ d ≠ c then 1 else 0

theorem told_addNotifiees {cs : List CClientPtr} (hnd : cs.Nodup)
    (hmem : ∀ d, d ∈ cs ↔ d ∈ ss.members ∧ d ≠ c) : ss.Told c n (n.addNotifiees cs) := by
  refine ⟨?_,fun d => ?_⟩
  · rw [CNotifier.clis_addNotifiees]
    exact List.prefix_append _ _
  · rw [CNotifier.clis_addNotifiees,List.count_append,hnd.count]
    simp only [hmem]

theorem enter_told (hnd : ss.members.Nodup) (hc : c ∉ ss.members) (h : 0 ≤ (ss.enter c n).1) :
    ss.Told c n (ss.enter c n).2.2 := by
  unfold enter at h ⊢
  cases hseat : ss.takeSeat c with
  | none => simp [hseat] at h
  | some ss' =>
    refine told_addNotifiees hnd fun d => (and_iff_left_of_imp fun hd => ?_).symm
    exact ne_of_mem_of_not_mem hd hc

theorem watch_told (hnd : ss.members.Nodup) (hc : c ∉ ss.members) (h : 0 ≤ (ss.watch c n).1) :
    ss.Told c n (ss.watch c n).2.2 := by
  unfold watch at h ⊢
  cases hseat : ss.addWatcher c with
  | none => simp [hseat] at h
  | some ss' =>
    refine told_addNotifiees hnd fun d => (and_iff_left_of_imp fun hd => ?_).symm
    exact ne_of_mem_of_not_mem hd hc

theorem nodup_unseat (hnd : ss.members.Nodup) (h : ss.unseat c = some ss') :
    ss'.members.Nodup := by
  obtain ⟨-,how,hop,hwt⟩ := unseat_some hnd h
  obtain ⟨hone,htwo⟩ := nodup_members.mp hnd
  refine nodup_members.mpr ⟨fun d hd hd' => ?_,fun d hd => ⟨fun hd' => ?_,fun hd' => ?_⟩⟩
  · exact hone d ((how d).mp hd).1 ((hop d).mp hd').1
  · exact (htwo d ((hwt d).mp hd).1).1 ((how d).mp hd').1
  · exact (htwo d ((hwt d).mp hd).1).2 ((hop d).mp hd').1

theorem leave_told (hnd : ss.members.Nodup) (hc : c ∈ ss.members) :
    0 ≤ (ss.leave c n).1 ∧ ss.Told c n (ss.leave c n).2.2 := by
  obtain ⟨ss',hseat⟩ := Option.isSome_iff_exists.mp (unseat_isSome.mpr hc)
  unfold leave
  rw [hseat]
  exact ⟨Int.natCast_nonneg _,
    told_addNotifiees (nodup_unseat hnd hseat) fun d => mem_unseat hnd hseat⟩

theorem told_of_perm {cs : List CClientPtr} (hnd : ss.members.Nodup)
    (h : ss.members.Perm (c :: cs)) : ss.Told c n (n.addNotifiees cs) := by
  obtain ⟨hc,hcs⟩ := List.nodup_cons.mp (h.nodup_iff.mp hnd)
  refine told_addNotifiees hcs fun d => ?_
  rw [h.mem_iff,List.mem_cons]
  constructor
  · exact fun hd => ⟨.inr hd,ne_of_mem_of_not_mem hd hc⟩
  · exact fun hd => hd.1.resolve_left hd.2

theorem members_of_owner (how : ss.owner = some c) :
    ss.members = c :: (ss.opponent.toList ++ ss.watchers.toList) := by
  rw [members,how]
  rfl

theorem members_of_opponent (hop : ss.opponent = some c) :
    ss.members.Perm (c :: (ss.owner.toList ++ ss.watchers.toList)) := by
  rw [members,hop,List.append_assoc]
  exact List.perm_middle

/-- The other player and the watchers of a player that gets ready. -/
theorem ready_told (hnd : ss.members.Nodup) (hc : ss.owner = some c ∨ ss.opponent = some c)
    (heap : CClientPtr → CClient) :
    ∃ res, ss.ready heap c n = .ok res ∧ ss.Told c n res.notier := by
  have hagainst : ∀ ow op other, (ss.readyAgainst (setstate heap c .stReady) ow op other n).notier =
      n.addNotifiees (other :: ss.watchers.toList) := by
    intro ow op other
    unfold readyAgainst
    dsimp only
    split_ifs <;> rfl
  unfold ready
  by_cases how : ss.owner = some c
  · have htold := told_of_perm (n := n) hnd (List.Perm.of_eq (members_of_owner how))
    simp only [how,if_true]
    cases hop : ss.opponent with
    | none =>
      rw [hop] at htold
      exact ⟨_,rfl,htold⟩
    | some op =>
      rw [hop] at htold
      refine ⟨_,rfl,?_⟩
      rw [hagainst]
      exact htold
  · have hop := hc.resolve_left how
    have htold := told_of_perm (n := n) hnd (members_of_opponent hop)
    simp only [how,hop,if_true,if_false]
    cases how' : ss.owner with
    | none =>
      rw [how'] at htold
      exact ⟨_,rfl,htold⟩
    | some ow =>
      rw [how'] at htold
      refine ⟨_,rfl,?_⟩
      rw [hagainst]
      exact htold

end CSession

/-! ### Rooms -/

/-- The socket and the address under which a client gets broadcasts. -/
def CClient.udpPair (cl : CClient) : CUdpSockDataPtr × SockaddrIn := (cl.udp,cl.udpaddr)

namespace CBroadCaster

/-- The inserted pairs, each as often as it was inserted. -/
def pairs (b : CBroadCaster) : Multiset (CUdpSockDataPtr × SockaddrIn) := b.broadcaster.pairs

theorem broadcaster_insertaddr (b : CBroadCaster) (udp : CUdpSockDataPtr) (addr : SockaddrIn) :
    (b.insertaddr udp addr).broadcaster = b.broadcaster.push udp addr := by
  unfold insertaddr OrdMap.push
  cases b.broadcaster.find? udp <;> rfl

theorem pairs_create : create.pairs = 0 := rfl

theorem pairs_append (b : CBroadCaster) (m : CXmlNode) : (b.append m).pairs = b.pairs := rfl

theorem pairs_insertaddr (b : CBroadCaster) (udp : CUdpSockDataPtr) (addr : SockaddrIn) :
    (b.insertaddr udp addr).pairs = b.pairs + {(udp,addr)} := by
  rw [pairs,broadcaster_insertaddr]
  exact OrdMap.pairs_push b.broadcaster udp addr

theorem pairs_insertaddrs (b : CBroadCaster) (heap : CClientPtr → CClient) (cs : List CClientPtr) :
    (b.insertaddrs heap cs).pairs = b.pairs + (cs.map (fun c => (heap c).udpPair) : List _) := by
  have hfold : (b.insertaddrs heap cs).broadcaster =
      cs.foldl (fun m c => m.push (heap c).udpPair.1 (heap c).udpPair.2) b.broadcaster := by
    unfold insertaddrs
    induction cs generalizing b with
    | nil => rfl
    | cons c cs ih => rw [List.foldl_cons,ih,broadcaster_insertaddr,List.foldl_cons]; rfl
  rw [pairs,hfold]
  exact OrdMap.pairs_foldl_push b.broadcaster (fun c => (heap c).udpPair) cs

end CBroadCaster

namespace CRoom
variable {rm : CRoom} {heap : CClientPtr → CClient} {c : CClientPtr} {bd : CBroadCaster}

/-- The pairs of all users of the room. -/
def udpPairs (rm : CRoom) (heap : CClientPtr → CClient) : Multiset (CUdpSockDataPtr × SockaddrIn) :=
  (rm.usrlist.toList.map (fun u => (heap u).udpPair) : List _)

/-- The pairs of all users of the room but one. -/
def udpPairsBut (rm : CRoom) (heap : CClientPtr → CClient) (c : CClientPtr) :
    Multiset (CUdpSockDataPtr × SockaddrIn) :=
  ((rm.usrlist.toList.filter (fun u => u ≠ c)).map (fun u => (heap u).udpPair) : List _)

theorem udpPairsBut_of_mem_iff {cs : List CClientPtr} (hnd : cs.Nodup)
    (hmem : ∀ d, d ∈ cs ↔ d ≠ c ∧ d ∈ rm.usrlist) :
    (cs.map (fun u => (heap u).udpPair) : List _) = rm.udpPairsBut heap c := by
  have hperm : cs.Perm (rm.usrlist.toList.filter (fun u => u ≠ c)) := by
    refine (List.perm_ext_iff_of_nodup hnd (rm.usrlist.nodup.filter _)).mpr fun d => ?_
    rw [hmem,List.mem_filter,OrdSet.mem_toList,decide_eq_true_eq,and_comm]
  exact Multiset.coe_eq_coe.mpr (hperm.map _)

theorem enter_pairs (h : (rm.enter heap c bd).1 = true) :
    (rm.enter heap c bd).2.2.pairs = bd.pairs + rm.udpPairsBut heap c := by
  unfold enter at h ⊢
  cases hadd : rm.addUser c with
  | none => simp [hadd] at h
  | some rm' =>
    obtain ⟨-,-,hmem⟩ := addUser_some hadd
    dsimp only
    rw [CBroadCaster.pairs_insertaddrs,udpPairsBut_of_mem_iff (rm'.usrlist.nodup.filter _)]
    intro d
    rw [List.mem_filter,OrdSet.mem_toList,hmem,decide_eq_true_eq]
    constructor
    · exact fun hd => ⟨hd.2,hd.1.resolve_left hd.2⟩
    · exact fun hd => ⟨.inr hd.2,hd.1⟩

theorem leave_pairs (h : (rm.leave heap c bd).1 = true) :
    (rm.leave heap c bd).2.2.pairs = bd.pairs + rm.udpPairsBut heap c := by
  unfold leave at h ⊢
  cases hdismiss : rm.dismiss c with
  | none => simp [hdismiss] at h
  | some rm' =>
    obtain ⟨-,-,-,hmem⟩ := dismiss_some hdismiss
    dsimp only
    rw [CBroadCaster.pairs_insertaddrs,udpPairsBut_of_mem_iff rm'.usrlist.nodup hmem]

theorem createSession_pairs {cfg : CSessionConfig} {idseed : ℕ}
    {made : CSession × CRoom × CBroadCaster × ℕ}
    (h : rm.createSession heap c cfg bd idseed = .ok made) :
    made.2.2.1.pairs = bd.pairs + rm.udpPairsBut heap c := by
  obtain ⟨_,-,h⟩ := Checked.bind_eq_ok.mp h
  cases h
  exact CBroadCaster.pairs_insertaddrs bd heap _

/-- A session that lost its last member is erased and announced to everybody in the room, and any
other one is announced to nobody. -/
theorem leaveSession_pairs {sid : ℤ} {n : CNotifier} {left : CRoom × CNotifier × CBroadCaster}
    (h : rm.leaveSession heap sid c n bd = .ok left) :
    ∃ ss ss', rm.sessions.find? (Scan.toUInt32 sid) = some ss ∧ ss.unseat c = some ss' ∧
      ((ss'.members = [] ∧ left.1.sessions.find? (Scan.toUInt32 sid) = none ∧
          left.2.2.pairs = bd.pairs + rm.udpPairs heap) ∨
        (ss'.members ≠ [] ∧ left.1.sessions.find? (Scan.toUInt32 sid) = some ss' ∧
          left.2.2 = bd)) := by
  unfold leaveSession at h
  cases hss : rm.sessions.find? (Scan.toUInt32 sid) with
  | none =>
    simp only [hss] at h
    cases h
  | some ss =>
    simp only [hss] at h
    obtain ⟨_,hseated,h⟩ := Checked.bind_eq_ok.mp h
    unfold CSession.leave at hseated h
    cases hseat : ss.unseat c with
    | none =>
      simp only [hseat] at hseated
      cases hseated
    | some ss' =>
      refine ⟨ss,ss',rfl,hseat,?_⟩
      simp only [hseat] at h
      split_ifs at h with hzero
      · cases h
        refine .inl ⟨List.length_eq_zero_iff.mp (Int.natCast_eq_zero.mp hzero),?_,
          CBroadCaster.pairs_insertaddrs bd heap _⟩
        rw [eraseSession,OrdMap.find?_erase,if_pos rfl]
      · cases h
        refine .inr ⟨fun hnil => hzero (by rw [hnil]; rfl),?_,rfl⟩
        rw [setSession,OrdMap.find?_insert,if_pos rfl]

end CRoom

/-! ### The datagrams -/

/-- The two datagrams of a broadcast. -/
inductive CBroadCaster.Part
  | header
  | body
  deriving DecidableEq

/-- A call of `CUdpSockData::sendto`. -/
structure CBroadCaster.Sendto where
  sock : CUdpSockDataPtr
  addr : SockaddrIn
  part : CBroadCaster.Part

namespace CBroadCaster

/-- The bytes that a call sends of the flat message. -/
def Sendto.datagram (bufptr : List UInt8) (call : Sendto) : Datagram :=
  match call.part with
  | .header => bufptr.take CCNI_HEADER.size
  | .body => bufptr.drop CCNI_HEADER.size

/-- One address: the body follows a header that was sent. `ok` answers the calls by their number. -/
def serve (ok : ℕ → Bool) (calls : List Sendto) (p : CUdpSockDataPtr × SockaddrIn) : List Sendto :=
  if ok calls.length then calls ++ [⟨p.1,p.2,.header⟩,⟨p.1,p.2,.body⟩]
  else calls ++ [⟨p.1,p.2,.header⟩]

/-- The calls of `run`. -/
def run (dump : List CXmlNode → List UInt8) (ok : ℕ → Bool) (b : CBroadCaster) : List Sendto :=
  if (b.bufptr dump).length > 0 then
    b.broadcaster.entries.foldl
      (fun calls e => e.2.foldl (fun calls addr => serve ok calls (e.1,addr)) calls) []
  else []

/-- The pairs that a part is sent to. -/
def sentTo (part : Part) (calls : List Sendto) : List (CUdpSockDataPtr × SockaddrIn) :=
  (calls.filter (fun call => call.part = part)).map (fun call => (call.sock,call.addr))

section
variable {dump : List CXmlNode → List UInt8} {ok : ℕ → Bool} {b : CBroadCaster}

theorem sentTo_append (part : Part) (calls calls' : List Sendto) :
    sentTo part (calls ++ calls') = sentTo part calls ++ sentTo part calls' := by
  simp only [sentTo,List.filter_append,List.map_append]

theorem header_serve (calls : List Sendto) (p : CUdpSockDataPtr × SockaddrIn) :
    sentTo .header (serve ok calls p) = sentTo .header calls ++ [p] := by
  unfold serve
  split_ifs <;> exact sentTo_append _ _ _

theorem body_serve (calls : List Sendto) (p : CUdpSockDataPtr × SockaddrIn) :
    sentTo .body (serve ok calls p) =
      sentTo .body calls ++ if ok calls.length then [p] else [] := by
  unfold serve
  split_ifs <;> exact sentTo_append _ _ _

theorem header_foldl (calls : List Sendto) (ps : List (CUdpSockDataPtr × SockaddrIn)) :
    sentTo .header (ps.foldl (serve ok) calls) = sentTo .header calls ++ ps := by
  induction ps generalizing calls with
  | nil => exact (List.append_nil _).symm
  | cons p ps ih => rw [List.foldl_cons,ih,header_serve,List.append_assoc,List.singleton_append]

/-- Only addresses whose header was sent get a body. -/
theorem body_foldl (calls : List Sendto) (ps : List (CUdpSockDataPtr × SockaddrIn)) :
    ∃ qs, sentTo .body (ps.foldl (serve ok) calls) = sentTo .body calls ++ qs ∧ qs.Sublist ps ∧
      ((∀ n, ok n = true) → qs = ps) := by
  induction ps generalizing calls with
  | nil => exact ⟨[],(List.append_nil _).symm,List.Sublist.refl _,fun _ => rfl⟩
  | cons p ps ih =>
    obtain ⟨qs,hqs,hsub,hall⟩ := ih (serve ok calls p)
    rw [List.foldl_cons,hqs,body_serve,List.append_assoc]
    split_ifs with hok
    · exact ⟨p :: qs,rfl,hsub.cons_cons p,fun h => by rw [hall h]⟩
    · exact ⟨qs,rfl,hsub.cons p,fun h => absurd (h _) hok⟩

/-- The loops go through the groups of the map. -/
theorem run_eq : b.run dump ok = (OrdMap.pairsOf b.broadcaster.entries).foldl (serve ok) [] := by
  have hlen : (b.bufptr dump).length > 0 := by
    have hsize := congrArg List.length ((@bufptr_header dump b))
    rw [List.length_take,CCNI_HEADER.length_toBytes,CCNI_HEADER.size] at hsize
    omega
  rw [run,if_pos hlen,OrdMap.pairsOf,List.foldl_flatMap]
  simp only [List.foldl_map]

theorem run_header : (sentTo .header (b.run dump ok) : Multiset _) = b.pairs := by
  rw [run_eq,header_foldl]
  rfl

theorem run_body : (sentTo .body (b.run dump ok) : Multiset _) ≤ b.pairs ∧
    ((∀ n, ok n = true) → (sentTo .body (b.run dump ok) : Multiset _) = b.pairs) := by
  obtain ⟨qs,hqs,hsub,hall⟩ := @body_foldl ok [] (OrdMap.pairsOf b.broadcaster.entries)
  rw [run_eq,hqs]
  exact ⟨Multiset.coe_le.mpr hsub.subperm,fun h => by rw [hall h]; rfl⟩

/-- The addresses come in the order of the two loops. -/
theorem run_addrs : (sentTo .header (b.run dump ok)).map Prod.snd = b.addrs := by
  rw [run_eq,header_foldl,addrs,OrdMap.pairsOf]
  simp [sentTo,List.map_flatMap,Function.comp_def]

end
end CBroadCaster

namespace CEngine
open CBroadCaster

/-- In a state the server can reach the operations of a session tell every other member once and
nobody else; those of any room insert the pairs of all users but the client, and of everybody where a
session is gone; and `run` addresses the pairs that were inserted. -/
theorem recipients_exact {cfgs : List CRoomConfig} {es : List Event} {s : CEngine}
    (hrun : (create cfgs).run es = .ok s) :
    (∀ r rm k ss, s.Live r rm k ss → ∀ c n,
      (c ∉ ss.members → (0 ≤ (ss.enter c n).1 → ss.Told c n (ss.enter c n).2.2) ∧
        (0 ≤ (ss.watch c n).1 → ss.Told c n (ss.watch c n).2.2)) ∧
      (c ∈ ss.members → 0 ≤ (ss.leave c n).1 ∧ ss.Told c n (ss.leave c n).2.2) ∧
      (ss.owner = some c ∨ ss.opponent = some c → ∀ heap,
        ∃ res, ss.ready heap c n = .ok res ∧ ss.Told c n res.notier)) ∧
    (∀ (rm : CRoom) heap c bd,
      ((rm.enter heap c bd).1 = true →
        (rm.enter heap c bd).2.2.pairs = bd.pairs + rm.udpPairsBut heap c) ∧
      ((rm.leave heap c bd).1 = true →
        (rm.leave heap c bd).2.2.pairs = bd.pairs + rm.udpPairsBut heap c) ∧
      (∀ cfg idseed made, rm.createSession heap c cfg bd idseed = .ok made →
        made.2.2.1.pairs = bd.pairs + rm.udpPairsBut heap c) ∧
      ∀ sid n left, rm.leaveSession heap sid c n bd = .ok left →
        ∃ ss ss', rm.sessions.find? (Scan.toUInt32 sid) = some ss ∧ ss.unseat c = some ss' ∧
          ((ss'.members = [] ∧ left.1.sessions.find? (Scan.toUInt32 sid) = none ∧
              left.2.2.pairs = bd.pairs + rm.udpPairs heap) ∨
            (ss'.members ≠ [] ∧ left.1.sessions.find? (Scan.toUInt32 sid) = some ss' ∧
              left.2.2 = bd))) ∧
    (CBroadCaster.create.pairs = 0 ∧ ∀ (b : CBroadCaster) udp addr m,
      (b.insertaddr udp addr).pairs = b.pairs + {(udp,addr)} ∧ (b.append m).pairs = b.pairs) ∧
    ∀ dump ok (b : CBroadCaster), (sentTo .header (b.run dump ok) : Multiset _) = b.pairs ∧
      (sentTo .body (b.run dump ok) : Multiset _) ≤ b.pairs ∧
      ((∀ n, ok n = true) → (sentTo .body (b.run dump ok) : Multiset _) = b.pairs) := by
  refine ⟨fun r rm k ss hlive c n => ?_,fun rm heap c bd => ?_,⟨pairs_create,?_⟩,fun dump ok b => ?_⟩
  · have hnd := (hlive.ok hrun).nodup
    refine ⟨fun hc => ⟨CSession.enter_told hnd hc,CSession.watch_told hnd hc⟩,?_,?_⟩
    · exact CSession.leave_told hnd
    · exact CSession.ready_told hnd
  · exact ⟨CRoom.enter_pairs,CRoom.leave_pairs,fun _ _ _ => CRoom.createSession_pairs,
      fun _ _ _ => CRoom.leaveSession_pairs⟩
  · exact fun b udp addr m => ⟨pairs_insertaddr b udp addr,pairs_append b m⟩
  · exact ⟨run_header,run_body⟩

/-- A client enters the session of another one. -/
theorem recipients_exact_enter : ∃ s rm ss,
    (create [room1]).run (arrive 1 "alice" ++ [.request 1 (requestOf xmlTagNewSession "")]) =
      .ok s ∧ s.Live 1 rm 2 ss ∧ ss.Told 2 .create (ss.enter 2 .create).2.2 := by
  obtain ⟨s,rm,ss,hrun,hlive,hmem,hcode⟩ : ∃ s rm ss,
      (create [room1]).run (arrive 1 "alice" ++ [.request 1 (requestOf xmlTagNewSession "")]) =
        .ok s ∧ s.Live 1 rm 2 ss ∧ ss.members = [1] ∧ 0 ≤ (ss.enter 2 .create).1 :=
    ⟨_,_,_,rfl,⟨rfl,rfl⟩,rfl,le_rfl⟩
  have hnew : 2 ∉ ss.members := by
    rw [hmem]
    decide
  exact ⟨s,rm,ss,hrun,hlive,(((recipients_exact hrun).1 1 rm 2 ss hlive 2 .create).1 hnew).1 hcode⟩

end CEngine
end CcniServer
