import CcniServer.Hall.Refinement
import CcniServer.Hall.Games

/-!
Who writes the fields of a client: its own requests, and the `Ready` of the other player when a
game begins. A game then lasts until the connection of its player breaks.
-/
namespace CcniServer

/-- The client on whose behalf an action is taken. -/
def Action.client? : Action → Option CClientPtr
  | .quiet => none
  | .login c _ => some c
  | .enterRoom c _ => some c
  | .leaveRoom c => some c
  | .newSession c => some c
  | .enterSession c _ => some c
  | .leaveSession c => some c
  | .watchSession c _ => some c
  | .ready c => some c
  | .listSessions c => some c
  | .disconnect c => some c

namespace Hall
variable {h h' : Hall} {c d : CClientPtr} {a : Action}

theorem setMember_of_ne {m' : Member} (hd : d ≠ c) : (h.setMember c m').member d = h.member d :=
  Function.update_of_ne hd _ _

theorem login_other (h : Hall) (uname : String) (hd : d ≠ c) :
    (h.login c uname).member d = h.member d := by
  unfold Hall.login
  cases h.list.find? uname with
  | some c' => rfl
  | none => exact setMember_of_ne hd

theorem leaveRoom_other (hl : h.leaveRoom c = some h') (hd : d ≠ c) :
    h'.member d = h.member d := by
  obtain ⟨rm,-,rfl⟩ := Option.map_eq_some_iff.mp hl
  exact setMember_of_ne hd

theorem leaveSession_other (hl : h.leaveSession c = some h') (hd : d ≠ c) :
    h'.member d = h.member d := by
  unfold Hall.leaveSession at hl
  split_ifs at hl
  obtain ⟨rm,-,hl⟩ := Option.bind_eq_some_iff.mp hl
  obtain ⟨ss,-,rfl⟩ := Option.map_eq_some_iff.mp hl
  exact setMember_of_ne hd

theorem joinSession_other {sid : ℤ} {join : CSession → Option CSession} {st : CClient.State}
    (hj : h.joinSession c sid join st = some h') (hd : d ≠ c) : h'.member d = h.member d := by
  obtain ⟨rm,-,⟨-,rfl⟩ | ⟨ss,ss',-,-,rfl⟩⟩ := joinSession_cases hj
  · rfl
  · exact setMember_of_ne hd

theorem newSession_other (hn : h.newSession c = some h') (hd : d ≠ c) :
    h'.member d = h.member d := by
  unfold Hall.newSession at hn
  split_ifs at hn
  obtain ⟨rm,-,hn⟩ := Option.bind_eq_some_iff.mp hn
  split_ifs at hn
  cases hn
  exact setMember_of_ne hd

theorem dropSession_other (hl : h.dropSession c = some h') (hd : d ≠ c) :
    h'.member d = h.member d := by
  unfold Hall.dropSession at hl
  split_ifs at hl
  · exact leaveSession_other hl hd
  · cases hl
    rfl

theorem dropRoom_other (hl : h.dropRoom c = some h') (hd : d ≠ c) :
    h'.member d = h.member d := by
  unfold Hall.dropRoom at hl
  split_ifs at hl
  · exact leaveRoom_other hl hd
  · cases hl
    rfl

theorem breakLine_other (hb : h.breakLine c = some h') (hd : d ≠ c) :
    h'.member d = h.member d := by
  obtain ⟨h₂,h₂b,rfl⟩ := Option.map_eq_some_iff.mp hb
  obtain ⟨h₁,h₁b,h₂b⟩ := Option.bind_eq_some_iff.mp h₂b
  have hone : h₁.member d = h.member d := dropSession_other h₁b hd
  have htwo : h₂.member d = h₁.member d := dropRoom_other h₂b hd
  exact (setMember_of_ne hd).trans (htwo.trans hone)

/-- The other player of a game that begins: it was ready, and only its state is written. -/
structure Begun (h : Hall) (c d : CClientPtr) (h' : Hall) : Prop where
  ready : (h.member d).state = .stReady
  roomid : (h.member d).roomid = (h.member c).roomid
  sessionid : (h.member d).sessionid = (h.member c).sessionid
  member : ∃ st, (st = .stMoving ∨ st = .stPondering) ∧
    h'.member d = { h.member d with state := st }

theorem ready_other (ok : h.Ok) (hr : h.ready c = some h') (hd : d ≠ c) :
    h'.member d = h.member d ∨ Begun h c d h' := by
  unfold Hall.ready at hr
  split_ifs at hr with hc
  obtain ⟨rm,hrm,hr⟩ := Option.bind_eq_some_iff.mp hr
  obtain ⟨m',hm',rfl⟩ := Option.map_eq_some_iff.mp hr
  obtain ⟨ss,hss,hm'⟩ := Option.bind_eq_some_iff.mp hm'
  have hok := ok.session _ rm hrm _ ss hss
  have hin : ∀ e, ss.owner = some e ∨ ss.opponent = some e →
      (h.member e).roomid = (h.member c).roomid ∧
        (h.member e).sessionid = Scan.toUInt32 (h.member c).sessionid := by
    intro e he
    have hmem : e ∈ ss.members :=
      CSession.mem_members.mpr (he.elim .inl fun hop => .inr (.inl hop))
    exact ⟨hok.roomid e hmem,hok.sessionid e hmem⟩
  obtain ⟨-,-,rfl⟩ | ⟨a,b,hab,hpair,hready,rfl⟩ := readyMembers_some hok.nodup hm'
  · exact .inl (setState_of_ne hd)
  · have hplayers : ∀ e, e = a ∨ e = b → ss.owner = some e ∨ ss.opponent = some e := by
      rintro e (rfl | rfl)
      · exact hpair.imp And.left And.right
      · exact (hpair.imp And.right And.left).symm
    have hca : c = a ∨ c = b := hready.imp And.left And.left
    have hsid : (h.member c).sessionid = Scan.toUInt32 (h.member c).sessionid :=
      (hin c (hplayers c hca)).2
    by_cases hda : d = a
    · subst hda
      obtain ⟨hroom,hsess⟩ := hin d (hplayers d (.inl rfl))
      have hst : (h.member d).state = .stReady := (hready.resolve_left fun h => hd h.1.symm).2
      refine .inr ⟨hst,hroom,hsess.trans hsid.symm,.stMoving,.inl rfl,?_⟩
      change Hall.setState (Hall.setState h.member d .stMoving) b .stPondering d = _
      rw [setState_of_ne hab]
      exact Function.update_self _ _ _
    · by_cases hdb : d = b
      · subst hdb
        obtain ⟨hroom,hsess⟩ := hin d (hplayers d (.inr rfl))
        have hst : (h.member d).state = .stReady := (hready.resolve_right fun h => hd h.1.symm).2
        refine .inr ⟨hst,hroom,hsess.trans hsid.symm,.stPondering,.inr rfl,?_⟩
        change Hall.setState (Hall.setState h.member a .stMoving) d .stPondering d = _
        rw [Hall.setState,Function.update_self,setState_of_ne hda]
      · exact .inl ((setState_of_ne hdb).trans (setState_of_ne hda))

/-- No action writes the fields of another client, but for the `Ready` that begins a game. -/
theorem act_other (ok : h.Ok) (ha : h.act a = some h') (hd : a.client? ≠ some d) :
    h'.member d = h.member d ∨ ∃ c, a = .ready c ∧ Begun h c d h' := by
  have hne : ∀ {c : CClientPtr}, a.client? = some c → d ≠ c := by
    rintro c hc rfl
    exact hd hc
  cases a with
  | quiet =>
    cases ha
    exact .inl rfl
  | login c uname =>
    cases ha
    exact .inl (login_other h uname (hne rfl))
  | enterRoom c rid =>
    cases ha
    unfold Hall.enterRoom
    split_ifs
    · exact .inl rfl
    · cases (h.rooms.find? rid).bind (fun rm => rm.addUser c) with
      | none => exact .inl rfl
      | some rm => exact .inl (setMember_of_ne (hne rfl))
  | leaveRoom c =>
    simp only [Hall.act] at ha
    split_ifs at ha
    exact .inl (leaveRoom_other ha (hne rfl))
  | newSession c => exact .inl (newSession_other ha (hne rfl))
  | enterSession c sid => exact .inl (joinSession_other ha (hne rfl))
  | leaveSession c => exact .inl (leaveSession_other ha (hne rfl))
  | watchSession c sid => exact .inl (joinSession_other ha (hne rfl))
  | ready c => exact (ready_other ok ha (hne rfl)).imp_right fun hb => ⟨c,rfl,hb⟩
  | listSessions c =>
    simp only [Hall.act] at ha
    split_ifs at ha
    cases ha
    exact .inl rfl
  | disconnect c => exact .inl (breakLine_other ha (hne rfl))

/-! ### Games -/

/-- No action but its own disconnection writes the fields of a playing client. -/
theorem act_playing (ok : h.Ok) (hg : h.Guard a) (ha : h.act a = some h') (hc : h.Playing c)
    (hne : a ≠ .disconnect c) : h'.member c = h.member c := by
  have hstate := playing_iff.mp hc
  have hnot : ∀ {st : CClient.State}, (h.member c).state = st → st ≠ .stMoving ∧ st ≠ .stPondering →
      h'.member c = h.member c := by
    intro st hst hne
    rw [hst] at hstate
    exact absurd hstate (not_or.mpr hne)
  by_cases hself : a.client? = some c
  · cases a with
    | quiet => cases hself
    | login c' uname =>
      cases hself
      have hserved := (ok.member c).served.mpr (by obtain h | h := hstate <;> rw [h] <;> decide)
      rw [show (h.member c).ctsk = false from hg] at hserved
      cases hserved
    | enterRoom c' rid =>
      cases hself
      exact hnot hg.2 (by decide)
    | leaveRoom c' =>
      cases hself
      exact hnot hg.2 (by decide)
    | newSession c' =>
      cases hself
      exact hnot hg.2 (by decide)
    | enterSession c' sid =>
      cases hself
      exact hnot hg.2.1 (by decide)
    | leaveSession c' =>
      cases hself
      have hin := hg.2
      obtain h | h := hstate <;> rw [h] at hin <;> exact absurd hin (by decide)
    | watchSession c' sid =>
      cases hself
      exact hnot hg.2.1 (by decide)
    | ready c' =>
      cases hself
      exact hnot hg.2 (by decide)
    | listSessions c' =>
      simp only [Hall.act] at ha
      split_ifs at ha
      cases ha
      rfl
    | disconnect c' =>
      cases hself
      exact absurd rfl hne
  · obtain hsame | ⟨d,-,hb⟩ := act_other ok ha hself
    · exact hsame
    · exact hnot hb.ready (by decide)

end Hall

namespace CEngine

/-- A playing client keeps its state, its room, its session and its name through every run, with one
request at a time, that its connection survives. -/
theorem game_lasts {cfgs : List CRoomConfig} {es fs : List Event} {s t : CEngine}
    (hrun : (create cfgs).run es = .ok s) {c : CClientPtr}
    (hc : (s.clients c).state = .stMoving ∨ (s.clients c).state = .stPondering)
    (hrest : s.run fs = .ok t) (hconn : .disconnect c ∉ fs) :
    (t.clients c).member = (s.clients c).member := by
  have hstep : ∀ (u : CEngine) (e : Event) (v : CEngine),
      (u.hall.Ok ∧ u.hall.member c = s.hall.member c) → e ≠ .disconnect c → Lts.Steps step u e v →
      v.hall.Ok ∧ v.hall.member c = s.hall.member c := by
    rintro u e v ⟨ok,hsame⟩ he hv
    have hact := step_ok_hall hv
    have hplay : u.hall.Playing c := by
      rw [Hall.playing_iff,hsame]
      exact hc
    refine ⟨ok.step hact,(Hall.act_playing ok (u.hall.action_guard e) hact hplay ?_).trans hsame⟩
    exact fun h => he (Hall.action_disconnect h)
  have hmeets : Lts.Meets (Lts.Steps step) (fun _ e => e ≠ .disconnect c) s fs := by
    refine Lts.meets_of_labels (fun e he => ?_) s
    rintro rfl
    exact hconn he
  exact ((Lts.exec_ok_iff.mp hrest).invariant_of_meets hstep hmeets ⟨Hall.ok_of_run hrun,rfl⟩).2

/-- A player asks to leave, moves and loses the other one. -/
theorem game_lasts_abandoned : ∃ s t, (create [room1]).run twoPlayers = .ok s ∧
    s.run [.request 1 (requestOf xmlTagLeaveSession ""),.request 1 (requestOf xmlTagMove ""),
      .disconnect 2] = .ok t ∧ (t.clients 1).member = (s.clients 1).member := by
  obtain ⟨s,t,hrun,hst,hrest⟩ : ∃ s t, (create [room1]).run twoPlayers = .ok s ∧
      (s.clients 1).state = .stMoving ∧
      s.run [.request 1 (requestOf xmlTagLeaveSession ""),.request 1 (requestOf xmlTagMove ""),
        .disconnect 2] = .ok t := ⟨_,_,rfl,rfl,rfl⟩
  exact ⟨s,t,hrun,hrest,game_lasts hrun (.inl hst) hrest (by simp)⟩

end CEngine
end CcniServer
