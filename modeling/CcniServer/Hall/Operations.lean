import CcniServer.Hall.Sections
import CcniServer.Hall.LifeCycle

/-!
Operations in one piece. An operation of a thread is one critical section and then the writes to
the fields of its own client; when these follow at once, the operation is one of the hall's. What
the thread relies on when it begins an operation keeps every `ASSERT` of it from failing.
-/
namespace CcniServer
namespace Instr
variable {h : Hall} {c : CClientPtr} {m : CClientPtr → Member}

/-- The result of an operation with other members in the hall. -/
def withMembers (m : CClientPtr → Member) (res : Hall × List Field) : Hall × List Field :=
  ({ res.1 with member := m },res.2)

theorem runLeaveRoom_congr (hm : m c = h.member c) :
    runLeaveRoom { h with member := m } c = (runLeaveRoom h c).map (withMembers m) := by
  simp only [runLeaveRoom,hm]
  cases h.rooms.find? (h.member c).roomid with
  | none => rfl
  | some rm =>
    simp only
    cases rm.dismiss c with
    | none => rfl
    | some rm' => rfl

theorem runLeaveSession_congr (hm : m c = h.member c) :
    runLeaveSession { h with member := m } c = (runLeaveSession h c).map (withMembers m) := by
  simp only [runLeaveSession,hm,ASSERT]
  split_ifs with hc
  · simp only [Checked.ok_bind]
    cases h.rooms.find? (h.member c).roomid with
    | none => rfl
    | some rm =>
      simp only
      cases rm.sessions.find? (Scan.toUInt32 (h.member c).sessionid) with
      | none => rfl
      | some ss =>
        simp only
        cases ss.unseat c with
        | none => rfl
        | some ss' => rfl
  · rfl

theorem runJoin_congr (hm : m c = h.member c) (sid : ℤ) (stateSite foundSite : Assertion)
    (join : CSession → Option CSession) (st : CClient.State) :
    runJoin { h with member := m } c sid stateSite foundSite join st =
      (runJoin h c sid stateSite foundSite join st).map (withMembers m) := by
  simp only [runJoin,hm,ASSERT]
  split_ifs with hc
  · simp only [Checked.ok_bind]
    cases h.rooms.find? (h.member c).roomid with
    | none => rfl
    | some rm =>
      simp only
      cases (rm.sessions.find? (Scan.toUInt32 sid)).bind join with
      | none => rfl
      | some ss => rfl
  · rfl

/-- Only `ready` reads the fields of other clients. -/
theorem run_congr {i : Instr} (hi : i ≠ .ready) (hm : m c = h.member c) (seed : Fin 20000) :
    i.run { h with member := m } c seed = (i.run h c seed).map (withMembers m) := by
  cases i with
  | ready => exact absurd rfl hi
  | leaveSession => exact runLeaveSession_congr hm
  | enterSession sid => exact runJoin_congr hm sid _ _ _ _
  | watchSession sid => exact runJoin_congr hm sid _ _ _ _
  | dropSession =>
    simp only [run,hm]
    split_ifs
    · exact runLeaveSession_congr hm
    · rfl
  | dropRoom =>
    simp only [run,hm]
    split_ifs
    · exact runLeaveRoom_congr hm
    · rfl
  | leaveRoom =>
    simp only [run,hm,ASSERT]
    split_ifs
    · exact runLeaveRoom_congr hm
    · rfl
  | enterRoom rid =>
    simp only [run,hm]
    split_ifs
    · rfl
    · cases (h.rooms.find? rid).bind (fun rm => rm.addUser c) with
      | none => rfl
      | some rm => rfl
  | collect =>
    simp only [run,hm,ASSERT]
    split_ifs
    · simp only [Checked.ok_bind]
      cases h.rooms.find? (h.member c).roomid with
      | none => rfl
      | some rm =>
        simp only
        split_ifs <;> rfl
    · rfl
  | store =>
    simp only [run,hm]
    cases h.rooms.find? (h.member c).roomid with
    | none => rfl
    | some rm => rfl
  | listSessions =>
    simp only [run,hm,ASSERT]
    split_ifs
    · simp only [Checked.ok_bind]
      cases h.rooms.find? (h.member c).roomid with
      | none => rfl
      | some rm => rfl
    · rfl
  | delClient =>
    simp only [run,hm]
    rfl
theorem run_member {i : Instr} {seed : Fin 20000} {res : Hall × List Field} (hi : i ≠ .ready)
    (hr : i.run h c seed = .ok res) : res.1.member = h.member := by
  have hsame := run_congr hi (rfl : h.member c = h.member c) seed
  have heta : ({ h with member := h.member } : Hall) = h := rfl
  rw [heta,hr] at hsame
  exact congrArg (fun res => res.1.member) (Except.ok.inj hsame)

theorem run_ready {seed : Fin 20000} {res : Hall × List Field}
    (hr : Instr.run h c seed .ready = .ok res) :
    ((h.member c).ctsk = true ∧ (h.member c).roomid > 0 ∧ (h.member c).sessionid > 0) ∧
      ∃ rm ss m, h.rooms.find? (h.member c).roomid = some rm ∧
        rm.sessions.find? (Scan.toUInt32 (h.member c).sessionid) = some ss ∧
        Hall.readyMembers ss h.member c = some m ∧ res = ({ h with member := m },[]) := by
  simp only [Instr.run,ASSERT] at hr
  split_ifs at hr with hst
  · simp only [Checked.ok_bind] at hr
    split at hr
    · rename_i rm hrm
      split at hr
      · rename_i ss hss
        split at hr
        · rename_i m hm
          exact ⟨of_decide_eq_true hst,rm,ss,m,hrm,hss,hm,(Except.ok.inj hr).symm⟩
        · cases hr
      · cases hr
    · cases hr
  · cases hr

theorem run_ready_eq {rm : CRoom} {ss : CSession} {m : CClientPtr → Member}
    (hst : (h.member c).ctsk = true ∧ (h.member c).roomid > 0 ∧ (h.member c).sessionid > 0)
    (hrm : h.rooms.find? (h.member c).roomid = some rm)
    (hss : rm.sessions.find? (Scan.toUInt32 (h.member c).sessionid) = some ss)
    (hm : Hall.readyMembers ss h.member c = some m) (seed : Fin 20000) :
    Instr.run h c seed .ready = .ok ({ h with member := m },[]) := by
  simp only [Instr.run,Checked.ASSERT_pos (decide_eq_true hst),Checked.ok_bind,hrm,hss,hm]
  rfl

/-! ### The writes left after an operation -/

variable {seed : Fin 20000}

theorem runLeaveRoom_writes {res : Hall × List Field} (hr : runLeaveRoom h c = .ok res) :
    res.2 = [.state .stOnline,.roomid (-1)] := by
  simp only [runLeaveRoom] at hr
  split at hr
  · split at hr
    · cases hr
      rfl
    · cases hr
  · cases hr

theorem runLeaveSession_writes {res : Hall × List Field} (hr : runLeaveSession h c = .ok res) :
    res.2 = [.state .stIdle,.sessionid (-1)] := by
  simp only [runLeaveSession,ASSERT] at hr
  split_ifs at hr
  · simp only [Checked.ok_bind] at hr
    split at hr
    · split at hr
      · split at hr
        · cases hr
          rfl
        · cases hr
      · cases hr
    · cases hr
  · cases hr

theorem runJoin_writes {sid : ℤ} {stateSite foundSite : Assertion}
    {join : CSession → Option CSession} {st : CClient.State} {res : Hall × List Field}
    (hr : runJoin h c sid stateSite foundSite join st = .ok res) :
    res.2 = [] ∨ res.2 = [.state st,.sessionid sid] := by
  simp only [runJoin,ASSERT] at hr
  split_ifs at hr
  · simp only [Checked.ok_bind] at hr
    split at hr
    · split at hr
      · cases hr
        exact .inl rfl
      · cases hr
        exact .inr rfl
    · cases hr
  · cases hr

theorem run_listSessions {res : Hall × List Field} (hr : run h c seed .listSessions = .ok res) :
    res = (h,[]) := by
  simp only [run,ASSERT] at hr
  split_ifs at hr
  · simp only [Checked.ok_bind] at hr
    split at hr
    · exact (Except.ok.inj hr).symm
    · cases hr
  · cases hr

/-- The state `Ready` is written inside a section only. -/
theorem run_writes {i : Instr} {res : Hall × List Field} (hr : i.run h c seed = .ok res) :
    .state .stReady ∉ res.2 := by
  have hleave : runLeaveSession h c = .ok res → .state .stReady ∉ res.2 := by
    intro hr
    rw [runLeaveSession_writes hr]
    decide
  have hroom : runLeaveRoom h c = .ok res → .state .stReady ∉ res.2 := by
    intro hr
    rw [runLeaveRoom_writes hr]
    decide
  have hjoin : ∀ {sid stateSite foundSite join st}, st ≠ .stReady →
      runJoin h c sid stateSite foundSite join st = .ok res → .state .stReady ∉ res.2 := by
    intro sid stateSite foundSite join st hst hr
    obtain hw | hw := runJoin_writes hr
    · simp [hw]
    · simp [hw,Ne.symm hst]
  cases i with
  | enterRoom rid =>
    simp only [run] at hr
    split_ifs at hr
    · cases hr
      simp
    · split at hr
      · cases hr
        simp
      · cases hr
        simp
  | leaveRoom =>
    simp only [run,ASSERT] at hr
    split_ifs at hr
    · exact hroom hr
    · cases hr
  | collect =>
    simp only [run,ASSERT] at hr
    split_ifs at hr
    · simp only [Checked.ok_bind] at hr
      split at hr
      · split_ifs at hr
        · cases hr
          simp
        · cases hr
      · cases hr
    · cases hr
  | store =>
    simp only [run] at hr
    split at hr
    · cases hr
      simp
    · cases hr
  | enterSession sid => exact hjoin (by decide) hr
  | leaveSession => exact hleave hr
  | watchSession sid => exact hjoin (by decide) hr
  | ready =>
    obtain ⟨-,rm,ss,m,-,-,-,rfl⟩ := run_ready hr
    simp
  | listSessions =>
    rw [run_listSessions hr]
    simp
  | dropSession =>
    simp only [run] at hr
    split_ifs at hr
    · exact hleave hr
    · cases hr
      simp
  | dropRoom =>
    simp only [run] at hr
    split_ifs at hr
    · exact hroom hr
    · cases hr
      simp
  | delClient =>
    cases hr
    simp

end Instr

/-- What the operations left to a thread rely on, at each of them. -/
inductive Member.Fits (m : Member) : List Instr → Prop
  | nil : m.Fits []
  | enterRoom (rid : ℤ) (served : m.ctsk = true) (online : m.state = .stOnline) :
      m.Fits [.enterRoom rid]
  | leaveRoom (served : m.ctsk = true) (idle : m.state = .stIdle) : m.Fits [.leaveRoom]
  | collect (served : m.ctsk = true) (idle : m.state = .stIdle) : m.Fits [.collect,.store]
  | store (served : m.ctsk = true) (idle : m.state = .stIdle) : m.Fits [.store]
  | enterSession (sid : ℤ) (served : m.ctsk = true) (idle : m.state = .stIdle)
      (range : -2^31 ≤ sid ∧ sid < 2^31) : m.Fits [.enterSession sid]
  | leaveSession (served : m.ctsk = true) (within : 0 < m.sessionid) : m.Fits [.leaveSession]
  | watchSession (sid : ℤ) (served : m.ctsk = true) (idle : m.state = .stIdle)
      (range : -2^31 ≤ sid ∧ sid < 2^31) : m.Fits [.watchSession sid]
  | ready (served : m.ctsk = true) (sessional : m.state = .stSessional) : m.Fits [.ready]
  | listSessions (served : m.ctsk = true) (within : 0 < m.roomid) : m.Fits [.listSessions]
  | dropSession (served : m.ctsk = true) : m.Fits [.dropSession,.dropRoom,.delClient]
  | dropRoom (served : m.ctsk = true) (out : m.sessionid = -1) : m.Fits [.dropRoom,.delClient]
  | delClient (served : m.ctsk = true) (out : m.sessionid = -1) (outside : m.roomid = -1) :
      m.Fits [.delClient]

/-- A game that begins takes nothing from a client that its thread relies on. -/
theorem Member.Fits.begun {m : Member} {code : List Instr} {st : CClient.State}
    (hf : m.Fits code) (hready : m.state = .stReady) : ({ m with state := st } : Member).Fits code := by
  have hno : ∀ {P : Prop} {st : CClient.State}, m.state = st → st ≠ .stReady → P :=
    fun hst hne => absurd (hst.symm.trans hready) hne
  cases hf with
  | nil => exact .nil
  | enterRoom rid hc hst => exact hno hst (by decide)
  | leaveRoom hc hst => exact hno hst (by decide)
  | collect hc hst => exact hno hst (by decide)
  | store hc hst => exact hno hst (by decide)
  | enterSession sid hc hst hr => exact hno hst (by decide)
  | leaveSession hc hpos => exact .leaveSession hc hpos
  | watchSession sid hc hst hr => exact hno hst (by decide)
  | ready hc hst => exact hno hst (by decide)
  | listSessions hc hpos => exact .listSessions hc hpos
  | dropSession hc => exact .dropSession hc
  | dropRoom hc hsid => exact .dropRoom hc hsid
  | delClient hc hsid hroom => exact .delClient hc hsid hroom

namespace Hall
open CClient.State

/-- An operation in one piece. -/
def effect (h : Hall) : Op → Option Hall
  | .login c uname => some (h.login c uname)
  | .instr c seed i =>
    match i with
    | .enterRoom rid => some (h.enterRoom c rid)
    | .leaveRoom => h.leaveRoom c
    | .collect => some h
    | .store => ({ h with idseed := seed } : Hall).newSession c
    | .enterSession sid => h.enterSession c sid
    | .leaveSession => h.leaveSession c
    | .watchSession sid => h.watchSession c sid
    | .ready => h.ready c
    | .listSessions => some h
    | .dropSession => h.dropSession c
    | .dropRoom => h.dropRoom c
    | .delClient => some (h.retire c)

/-- What the thread relies on holds at the operation itself. -/
def Allows (h : Hall) : Op → Prop
  | .login c _ => (h.member c).ctsk = false
  | .instr c _ i => ∃ is, (h.member c).Fits (i :: is)

/-- An operation that takes nobody's seat. -/
def Spares (h : Hall) : Op → Prop
  | .instr c seed .store => ({ h with idseed := seed } : Hall).Seats (.newSession c)
  | .instr c _ (.enterSession sid) => h.Seats (.enterSession c sid)
  | _ => True

/-- One operation after another. -/
def Does (h : Hall) (o : Op) (h' : Hall) : Prop := h.Allows o ∧ h.effect o = some h'

variable {h : Hall} {c d : CClientPtr} {seed : Fin 20000} {i : Instr} {is : List Instr}

theorem Ok.reseed (ok : h.Ok) (seed : Fin 20000) : ({ h with idseed := seed } : Hall).Ok :=
  ok.setIdseed seed.isLt

theorem Seated.reseed (hs : h.Seated) (seed : Fin 20000) :
    ({ h with idseed := seed } : Hall).Seated := hs

@[simp] theorem setMember_self (h : Hall) (c : CClientPtr) : h.setMember c (h.member c) = h := by
  rw [setMember,Function.update_eq_self]

theorem dropSession_isSome (ok : h.Ok) (hs : h.Seated) (c : CClientPtr) :
    (h.dropSession c).isSome := by
  unfold Hall.dropSession
  split_ifs with hpos
  · exact Seated.leaveSession_isSome ok hpos (hs c hpos)
  · rfl

theorem dropRoom_isSome (ok : h.Ok) (c : CClientPtr) : (h.dropRoom c).isSome := by
  unfold Hall.dropRoom
  split_ifs with hpos
  · exact Seated.leaveRoom_isSome ok hpos
  · rfl

/-- Where the thread gets what it relies on, the operation ends. -/
theorem effect_isSome (ok : h.Ok) (hs : h.Seated) {o : Op} (ho : h.Allows o) :
    (h.effect o).isSome := by
  cases o with
  | login c uname => rfl
  | instr c seed i =>
    obtain ⟨is,hf⟩ := ho
    cases hf with
    | enterRoom rid hc hst => rfl
    | leaveRoom hc hst =>
      have hpos := (ok.member c).inRoom (by rw [hst]; rfl)
      exact Seated.leaveRoom_isSome ok hpos
    | collect hc hst => rfl
    | store hc hst => exact Seated.newSession_isSome (ok.reseed seed) hc hst
    | enterSession sid hc hst hr => exact Seated.joinSession_isSome ok hc hst sid _ _
    | leaveSession hc hpos => exact Seated.leaveSession_isSome ok hpos (hs c hpos)
    | watchSession sid hc hst hr => exact Seated.joinSession_isSome ok hc hst sid _ _
    | ready hc hst => exact hs.ready_isSome ok hst
    | listSessions hc hpos => rfl
    | dropSession hc => exact dropSession_isSome ok hs c
    | dropRoom hc hsid => exact dropRoom_isSome ok c
    | delClient hc hsid hroom => rfl

theorem Ok.effect (ok : h.Ok) {o : Op} {h' : Hall} (hd : h.Does o h') : h'.Ok := by
  obtain ⟨ho,he⟩ := hd
  cases o with
  | login c uname =>
    cases he
    exact ok.login ho uname
  | instr c seed i =>
    obtain ⟨is,hf⟩ := ho
    cases hf with
    | enterRoom rid hc hst =>
      cases he
      exact ok.enterRoom c rid
    | leaveRoom hc hst => exact ok.leaveRoom ((ok.member c).noSession (by rw [hst]; rfl)) he
    | collect hc hst =>
      cases he
      exact ok
    | store hc hst => exact (ok.reseed seed).newSession he
    | enterSession sid hc hst hr => exact ok.enterSession hst hr he
    | leaveSession hc hpos => exact ok.leaveSession he
    | watchSession sid hc hst hr => exact ok.watchSession hst hr he
    | ready hc hst => exact ok.ready he
    | listSessions hc hpos =>
      cases he
      exact ok
    | dropSession hc => exact (ok.dropSession he).1
    | dropRoom hc hsid => exact (ok.dropRoom hsid he).1
    | delClient hc hsid hroom =>
      cases he
      exact ok.retire hroom hsid hc

theorem Seated.dropSession (hs : h.Seated) (ok : h.Ok) {h' : Hall}
    (hd : h.dropSession c = some h') : h'.Seated := by
  unfold Hall.dropSession at hd
  split_ifs at hd
  · exact hs.leaveSession ok hd
  · cases hd
    exact hs

theorem Seated.dropRoom (hs : h.Seated) {h' : Hall} (hsid : (h.member c).sessionid = -1)
    (hd : h.dropRoom c = some h') : h'.Seated := by
  unfold Hall.dropRoom at hd
  split_ifs at hd
  · exact hs.leaveRoom hsid hd
  · cases hd
    exact hs

theorem Seated.effect (hs : h.Seated) (ok : h.Ok) {o : Op} {h' : Hall} (hsp : h.Spares o)
    (hd : h.Does o h') : h'.Seated := by
  obtain ⟨ho,he⟩ := hd
  cases o with
  | login c uname =>
    cases he
    exact hs.login c uname
  | instr c seed i =>
    obtain ⟨is,hf⟩ := ho
    cases hf with
    | enterRoom rid hc hst =>
      cases he
      exact hs.enterRoom ok c rid
    | leaveRoom hc hst => exact hs.leaveRoom ((ok.member c).noSession (by rw [hst]; rfl)) he
    | collect hc hst =>
      cases he
      exact hs
    | store hc hst => exact (hs.reseed seed).newSession hsp he
    | enterSession sid hc hst hr =>
      have hg : h.Guard (.enterSession c sid) := ⟨hc,hst,hr⟩
      exact hs.act ok hg hsp he
    | leaveSession hc hpos => exact hs.leaveSession ok he
    | watchSession sid hc hst hr =>
      have hg : h.Guard (.watchSession c sid) := ⟨hc,hst,hr⟩
      exact hs.act ok hg trivial he
    | ready hc hst => exact hs.ready ok he
    | listSessions hc hpos =>
      cases he
      exact hs
    | dropSession hc => exact hs.dropSession ok he
    | dropRoom hc hsid => exact hs.dropRoom hsid he
    | delClient hc hsid hroom =>
      cases he
      have hneg : ¬ 0 < (h.member c).sessionid := by omega
      exact hs.setMember hneg

/-- The fields of a client change in its own operations, and where it was ready and the other
player begins the game. -/
theorem effect_other (ok : h.Ok) {h' : Hall} (he : h.effect (.instr c seed i) = some h')
    (hd : d ≠ c) : h'.member d = h.member d ∨ Begun h c d h' := by
  cases i with
  | enterRoom rid =>
    have hact : h.act (.enterRoom c rid) = some h' := he
    refine (act_other ok hact (fun h => hd (Option.some.inj h).symm)).imp_right ?_
    rintro ⟨c',hc',-⟩
    exact Action.noConfusion hc'
  | leaveRoom => exact .inl (leaveRoom_other he hd)
  | collect =>
    cases he
    exact .inl rfl
  | store =>
    have hn : ({ h with idseed := seed } : Hall).newSession c = some h' := he
    have hsame : h'.member d = ({ h with idseed := seed } : Hall).member d := newSession_other hn hd
    exact .inl hsame
  | enterSession sid => exact .inl (joinSession_other he hd)
  | leaveSession => exact .inl (leaveSession_other he hd)
  | watchSession sid => exact .inl (joinSession_other he hd)
  | ready => exact ready_other ok he hd
  | listSessions =>
    cases he
    exact .inl rfl
  | dropSession => exact .inl (dropSession_other he hd)
  | dropRoom => exact .inl (dropRoom_other he hd)
  | delClient =>
    cases he
    exact .inl (setMember_of_ne hd)

/-- The next operation finds what it relies on. -/
theorem effect_fits (ok : h.Ok) {h' : Hall} (hf : (h.member c).Fits (i :: is))
    (he : h.effect (.instr c seed i) = some h') : (h'.member c).Fits is := by
  cases hf with
  | collect hc hst =>
    cases he
    exact .store hc hst
  | dropSession hc =>
    obtain ⟨-,hsid,htsk⟩ := ok.dropSession he
    exact .dropRoom (htsk.trans hc) hsid
  | dropRoom hc hsid =>
    obtain ⟨-,hsid',hroom,htsk⟩ := ok.dropRoom hsid he
    exact .delClient (htsk.trans hc) hsid' hroom
  | _ => exact .nil

/-! ### One operation and the writes after it -/

/-- An operation whose writes follow at once is the operation in one piece. -/
def Makes (c : CClientPtr) (res : Hall × List Field) (h' : Hall) : Prop :=
  h' = res.1.setMember c (Writes.after Member.write res.2 (res.1.member c))

theorem makes_nil (h : Hall) (c : CClientPtr) : Makes c (h,[]) h := (setMember_self h c).symm

theorem runLeaveRoom_makes {h' : Hall} (hl : h.leaveRoom c = some h') :
    ∃ res, Instr.runLeaveRoom h c = .ok res ∧ Makes c res h' := by
  obtain ⟨rm',hdis,rfl⟩ := Option.map_eq_some_iff.mp hl
  obtain ⟨rm,hrm,hdis⟩ := Option.bind_eq_some_iff.mp hdis
  refine ⟨(h.setRoom (h.member c).roomid rm',[.state .stOnline,.roomid (-1)]),?_,rfl⟩
  simp only [Instr.runLeaveRoom,hrm,hdis]
  rfl

theorem runLeaveSession_makes {h' : Hall} (hl : h.leaveSession c = some h') :
    ∃ res, Instr.runLeaveSession h c = .ok res ∧ Makes c res h' := by
  unfold Hall.leaveSession at hl
  split_ifs at hl with hst
  obtain ⟨rm,hrm,hl⟩ := Option.bind_eq_some_iff.mp hl
  obtain ⟨ss',hun,rfl⟩ := Option.map_eq_some_iff.mp hl
  obtain ⟨ss,hss,hun⟩ := Option.bind_eq_some_iff.mp hun
  refine ⟨(h.setRoom (h.member c).roomid
    (putSession rm (Scan.toUInt32 (h.member c).sessionid) ss'),
      [.state .stIdle,.sessionid (-1)]),?_,rfl⟩
  simp only [Instr.runLeaveSession,Checked.ASSERT_pos (decide_eq_true hst),Checked.ok_bind,hrm,
    hss,hun]
  rfl

theorem runJoin_makes {sid : ℤ} {join : CSession → Option CSession} {st : CClient.State}
    {h' : Hall} (hj : h.joinSession c sid join st = some h') (stateSite foundSite : Assertion) :
    ∃ res, Instr.runJoin h c sid stateSite foundSite join st = .ok res ∧ Makes c res h' := by
  unfold Hall.joinSession at hj
  split_ifs at hj with hst
  obtain ⟨rm,hrm,rfl⟩ := Option.map_eq_some_iff.mp hj
  simp only [Instr.runJoin,Checked.ASSERT_pos (decide_eq_true hst),Checked.ok_bind,hrm]
  cases (rm.sessions.find? (Scan.toUInt32 sid)).bind join with
  | none => exact ⟨(h,[]),rfl,makes_nil h c⟩
  | some ss => exact ⟨_,rfl,rfl⟩

/-- No `ASSERT` of the operation fails, and it does the operation in one piece. -/
theorem run_makes (ok : h.Ok) {h' : Hall} (hf : (h.member c).Fits (i :: is))
    (he : h.effect (.instr c seed i) = some h') :
    ∃ res, i.run h c seed = .ok res ∧ Makes c res h' := by
  cases hf with
  | enterRoom rid hc hst =>
    cases he
    simp only [Instr.run,Hall.enterRoom]
    split_ifs
    · exact ⟨(h,[]),rfl,makes_nil h c⟩
    · cases (h.rooms.find? rid).bind (fun rm => rm.addUser c) with
      | none => exact ⟨(h,[]),rfl,makes_nil h c⟩
      | some rm => exact ⟨_,rfl,rfl⟩
  | leaveRoom hc hst =>
    have hpos : (h.member c).roomid > 0 := (ok.member c).inRoom (by rw [hst]; rfl)
    simp only [Instr.run,Checked.ASSERT_pos (decide_eq_true hpos),Checked.ok_bind]
    exact runLeaveRoom_makes he
  | collect hc hst =>
    cases he
    have hpos : (h.member c).roomid > 0 := (ok.member c).inRoom (by rw [hst]; rfl)
    obtain ⟨rm,hrm⟩ := ok.found c hpos
    have hin : c ∈ rm.usrlist := (ok.user _ rm hrm c).mpr rfl
    have hidle : (h.member c).state = .stIdle ∧ (h.member c).ctsk = true ∧
        (h.member c).roomid > 0 := ⟨hst,hc,hpos⟩
    refine ⟨(h,[]),?_,makes_nil h c⟩
    simp only [Instr.run,Checked.ASSERT_pos (decide_eq_true hidle),Checked.ok_bind,hrm,
      Checked.ASSERT_pos (decide_eq_true hin)]
    rfl
  | store hc hst =>
    have hn : ({ h with idseed := seed } : Hall).newSession c = some h' := he
    unfold Hall.newSession at hn
    split_ifs at hn with hidle
    obtain ⟨rm,hrm,hn⟩ := Option.bind_eq_some_iff.mp hn
    have hrm : h.rooms.find? (h.member c).roomid = some rm := hrm
    split_ifs at hn with hin
    cases hn
    simp only [Instr.run,hrm]
    exact ⟨_,rfl,rfl⟩
  | enterSession sid hc hst hr => exact runJoin_makes he _ _
  | leaveSession hc hpos => exact runLeaveSession_makes he
  | watchSession sid hc hst hr => exact runJoin_makes he _ _
  | ready hc hst =>
    have hr : h.ready c = some h' := he
    unfold Hall.ready at hr
    split_ifs at hr with hin
    obtain ⟨rm,hrm,hr⟩ := Option.bind_eq_some_iff.mp hr
    obtain ⟨m',hm',rfl⟩ := Option.map_eq_some_iff.mp hr
    obtain ⟨ss,hss,hm'⟩ := Option.bind_eq_some_iff.mp hm'
    exact ⟨_,Instr.run_ready_eq hin hrm hss hm' seed,makes_nil _ c⟩
  | listSessions hc hpos =>
    cases he
    obtain ⟨rm,hrm⟩ := ok.found c hpos
    refine ⟨(h,[]),?_,makes_nil h c⟩
    have hpos : (h.member c).roomid > 0 := hpos
    simp only [Instr.run,Checked.ASSERT_pos (decide_eq_true hpos),Checked.ok_bind,hrm]
    rfl
  | dropSession hc =>
    have hd : h.dropSession c = some h' := he
    unfold Hall.dropSession at hd
    simp only [Instr.run]
    split_ifs at hd ⊢
    · exact runLeaveSession_makes hd
    · cases hd
      exact ⟨(h,[]),rfl,makes_nil h c⟩
  | dropRoom hc hsid =>
    have hd : h.dropRoom c = some h' := he
    unfold Hall.dropRoom at hd
    simp only [Instr.run]
    split_ifs at hd ⊢
    · exact runLeaveRoom_makes hd
    · cases hd
      exact ⟨(h,[]),rfl,makes_nil h c⟩
  | delClient hc hsid hroom =>
    cases he
    exact ⟨_,rfl,rfl⟩

end Hall
end CcniServer
