import CcniServer.Hall.Linear
import CcniServer.Hall.Games

/-!
Games under interleaved threads. The state that the table checks may be another one by the time
the section runs: a client asks to leave its session while it waits, the other player begins the
game, and only then the client leaves. One request at a time this cannot happen.
-/
namespace CcniServer
namespace Hall
open CClient.State
variable {h h' : Hall} {c d : CClientPtr} {o : Op}

theorem Ok.playing_session (ok : h.Ok) (hc : h.Playing c) : 0 < (h.member c).sessionid := by
  apply (ok.member c).inSession
  obtain hst | hst := playing_iff.mp hc <;> rw [hst] <;> rfl

/-- The two players of a game are in one session. -/
theorem InGame.other {a b : CClientPtr} {rm : CRoom} {ss : CSession} (ok : h.Ok)
    (hin : h.InGame c a b rm ss) : ∃ d, d ≠ c ∧ h.Playing d ∧ d ∈ ss.members ∧
      (ss.owner = some c ∨ ss.opponent = some c) := by
  obtain ⟨hone,-⟩ :=
    CSession.nodup_members.mp (ok.session _ rm hin.room _ ss hin.session).nodup
  have hab : a ≠ b := by
    rintro rfl
    obtain ⟨h₁,h₂⟩ | ⟨h₁,h₂⟩ := hin.pair <;> exact hone a h₁ h₂
  have ha : h.Playing a := playing_of_moving hin.moving
  have hb : h.Playing b := playing_of_pondering hin.pondering
  have hmem : a ∈ ss.members ∧ b ∈ ss.members := by
    simp only [CSession.mem_members]
    obtain ⟨h₁,h₂⟩ | ⟨h₁,h₂⟩ := hin.pair <;> simp [h₁,h₂]
  obtain rfl | rfl := hin.player
  · exact ⟨b,hab.symm,hb,hmem.2,hin.pair.imp And.left And.right⟩
  · exact ⟨a,hab,ha,hmem.1,(hin.pair.imp And.right And.left).symm⟩

namespace Games

/-- Where a player leaves, the other one plays on without a game. -/
theorem lost_of_leave (hg : h.Games) (ok : h.Ok) (hc : h.Playing c)
    (hl : h.leaveSession c = some h') : ¬ h'.Games := by
  intro hg'
  obtain ⟨a,b,rm,ss,hin⟩ := hg c hc
  obtain ⟨d,hdc,hd,hmem,hseat⟩ := hin.other ok
  have hok := ok.session _ rm hin.room _ ss hin.session
  have hsame : h'.member d = h.member d := leaveSession_other hl hdc
  have hd' : h'.Playing d := by rwa [Playing,hsame]
  obtain ⟨a',b',rm',ss',hin'⟩ := hg' d hd'
  -- the session of the other player is the one that was left
  have hroom : (h.member d).roomid = (h.member c).roomid := hok.roomid d hmem
  have hsid : Scan.toUInt32 (h.member d).sessionid = Scan.toUInt32 (h.member c).sessionid := by
    rw [hok.sessionid d hmem]
    exact Scan.toUInt32_natCast (by have := hok.key.2; omega)
  unfold Hall.leaveSession at hl
  split_ifs at hl with hst
  obtain ⟨rm₀,hrm₀,hl⟩ := Option.bind_eq_some_iff.mp hl
  obtain ⟨ss₁,hun,rfl⟩ := Option.map_eq_some_iff.mp hl
  obtain ⟨ss₀,hss₀,hun⟩ := Option.bind_eq_some_iff.mp hun
  have hrm : rm₀ = rm := Option.some.inj (hrm₀.symm.trans hin.room)
  subst hrm
  have hss : ss₀ = ss := Option.some.inj (hss₀.symm.trans hin.session)
  subst hss
  have hmem₁ : d ∈ ss₁.members := (CSession.mem_unseat hok.nodup hun).mpr ⟨hmem,hdc⟩
  have hrm' := hin'.room
  have hss' := hin'.session
  rw [hsame,hroom,setMember_rooms,setRoom_rooms,OrdMap.find?_insert,if_pos rfl] at hrm'
  cases hrm'
  rw [hsame,hsid,putSession,if_neg (List.ne_nil_of_mem hmem₁),CRoom.setSession,
    OrdMap.find?_insert,if_pos rfl] at hss'
  have hpair := hin'.pair
  rw [← Option.some.inj hss'] at hpair
  -- and there the seat of the one that left is free
  obtain ⟨-,how,hop,-⟩ := CSession.unseat_some hok.nodup hun
  obtain ⟨x,y,hx,hy⟩ : ∃ x y, ss₁.owner = some x ∧ ss₁.opponent = some y :=
    hpair.elim (fun h => ⟨_,_,h.1,h.2⟩) (fun h => ⟨_,_,h.1,h.2⟩)
  obtain ⟨hx,hxc⟩ := (how x).mp hx
  obtain ⟨hy,hyc⟩ := (hop y).mp hy
  obtain hc | hc := hseat
  · exact hxc (Option.some.inj (hx.symm.trans hc))
  · exact hyc (Option.some.inj (hy.symm.trans hc))

theorem dropSession (hg : h.Games) (ok : h.Ok) (hc : ¬ h.Playing c)
    (hd : h.dropSession c = some h') : h'.Games := by
  unfold Hall.dropSession at hd
  split_ifs at hd
  · exact hg.leaveSession ok hc hd
  · cases hd
    exact hg

theorem dropRoom (hg : h.Games) (hc : ¬ h.Playing c) (hd : h.dropRoom c = some h') : h'.Games := by
  unfold Hall.dropRoom at hd
  split_ifs at hd
  · exact hg.leaveRoom hc hd
  · cases hd
    exact hg

end Games

/-- The operations that take a client out of its session. -/
def Leaves (c : CClientPtr) (o : Op) : Prop :=
  ∃ seed, o = .instr c seed .leaveSession ∨ o = .instr c seed .dropSession

/-- The games of the hall stay complete exactly when no player leaves. -/
theorem games_effect_iff (hg : h.Games) (ok : h.Ok) (hsp : h.Spares o) (hd : h.Does o h') :
    h'.Games ↔ ∀ c, Leaves c o → ¬ h.Playing c := by
  obtain ⟨hallow,he⟩ := hd
  constructor
  · rintro hg' c ⟨seed,rfl | rfl⟩ hc
    · exact hg.lost_of_leave ok hc he hg'
    · have hl : h.leaveSession c = some h' := by
        have hdrop : h.dropSession c = some h' := he
        rwa [Hall.dropSession,if_pos (ok.playing_session hc)] at hdrop
      exact hg.lost_of_leave ok hc hl hg'
  · intro hstay
    cases o with
    | login c uname =>
      cases he
      exact hg.login ok hallow uname
    | instr c seed i =>
      obtain ⟨is,hf⟩ := hallow
      cases hf with
      | enterRoom rid hc hst =>
        cases he
        exact hg.enterRoom c rid
      | leaveRoom hc hst => exact hg.leaveRoom (Games.not_playing hst (by decide)) he
      | collect hc hst =>
        cases he
        exact hg
      | store hc hst =>
        have hg₀ : ({ h with idseed := seed } : Hall).Games := hg.congr rfl rfl
        refine hg₀.newSession ?_ he
        intro rm ss hrm hss
        rw [hsp rm hrm] at hss
        cases hss
      | enterSession sid hc hst hr => exact hg.enterSession hst he
      | leaveSession hc hpos => exact hg.leaveSession ok (hstay c ⟨seed,.inl rfl⟩) he
      | watchSession sid hc hst hr => exact hg.watchSession hst he
      | ready hc hst => exact hg.ready ok hst he
      | listSessions hc hpos =>
        cases he
        exact hg
      | dropSession hc => exact hg.dropSession ok (hstay c ⟨seed,.inr rfl⟩) he
      | dropRoom hc hsid =>
        refine hg.dropRoom (fun hplay => ?_) he
        have hpos := ok.playing_session hplay
        omega
      | delClient hc hsid hroom =>
        cases he
        have hno : ¬ h.Playing c := by
          intro hplay
          have hpos := ok.playing_session hplay
          omega
        have hnew : isIn .stOffline stPlaying = false := by decide
        have hset : (h.setMember c { h.member c with state := .stOffline, ctsk := false }).Games :=
          hg.setMember hno hnew
        exact hset.congr rfl rfl

end Hall

namespace Workers
variable {cfgs : List CRoomConfig} {ts : List Turn}

/-- A turn whose operation takes no player out of a game. -/
def Stays (s : Workers) (t : Turn) : Prop :=
  ∀ o, s.op t = some o → ∀ c, Hall.Leaves c o → ¬ s.hall.Playing c

/-- At every moment of a run, the writes that are still to be made taken as made, every playing
client has the other player of its game, exactly when no section of `leaveSession` runs for a
playing client: at the end of its connection, or because the game began after `LeaveSession` was
admitted. -/
theorem games_iff_stays (hcareful : Lts.Meets (Lts.Steps step) Careful (create cfgs) ts) :
    (∀ us, us <+: ts → ∀ s, (create cfgs).run us = .ok s → s.settled.Games) ↔
      Lts.Meets (Lts.Steps step) Stays (create cfgs) ts := by
  have hstep : ∀ (s : Workers) (t : Turn), s.Inv → s.Careful t →
      ∃ s', s.step t = .ok s' ∧ s'.Inv ∧
        (s.settled.Games → (s'.settled.Games ↔ s.Stays t)) := by
    intro s t inv ht
    obtain ⟨s',hs',inv',hdone⟩ := inv.step ht
    refine ⟨s',hs',inv',fun hg => ?_⟩
    cases ho : s.op t with
    | none =>
      rw [ho] at hdone
      rw [hdone.of_nil]
      refine ⟨fun _ o ho' => ?_,fun _ => hg⟩
      rw [ho] at ho'
      cases ho'
    | some o =>
      rw [ho] at hdone
      have hsp : s.settled.Spares o :=
        Hall.spares_settle (fun c seed i he => op_instr (he ▸ ho)) (ht o ho)
      rw [Hall.games_effect_iff hg inv.ok hsp hdone.of_single]
      have hplay : ∀ c, Hall.Leaves c o → (s.settled.Playing c ↔ s.hall.Playing c) := by
        rintro c ⟨seed,he | he⟩ <;>
          rw [Hall.Playing,settled,Hall.settle_member (op_instr (he ▸ ho)),Hall.Playing]
      constructor
      · intro hstay o' ho' c hc
        cases ho.symm.trans ho'
        rw [← hplay c hc]
        exact hstay c hc
      · intro hstay c hc
        rw [hplay c hc]
        exact hstay o ho c hc
  refine Lts.always_iff_meets hstep hcareful (create_inv cfgs) ?_
  rw [create_settled]
  exact Hall.create_games cfgs

/-- The first client asks to leave while it waits, and the game begins before it has left. -/
def raced : List Turn :=
  [.request 1 (CEngine.requestOf xmlTagReady ""),on 1,
   .request 1 (CEngine.requestOf xmlTagLeaveSession ""),
   .request 2 (CEngine.requestOf xmlTagReady ""),on 2]

/-- No connection breaks, and yet one player is left alone. -/
theorem games_iff_stays_raced : (∀ c, .broken c ∉ together ++ (raced ++ [on 1])) ∧
    ¬ ∀ us, us <+: together ++ (raced ++ [on 1]) → ∀ s,
      (create [CEngine.room1]).run us = .ok s → s.settled.Games := by
  refine ⟨by simp [together,raced,on],fun hall => ?_⟩
  obtain ⟨s,t,hs,ht,hcareful,ho,hplay⟩ : ∃ s t,
      (create [CEngine.room1]).run together = .ok s ∧ s.run raced = .ok t ∧
      Lts.Meets (Lts.Steps step) Careful s (raced ++ [on 1]) ∧
      t.op (on 1) = some (.instr 1 noSeed .leaveSession) ∧ t.hall.Playing 1 := by
    refine ⟨_,_,rfl,rfl,?_,rfl,rfl⟩
    refine meets_idle rfl rfl (meets_op rfl rfl trivial (meets_idle rfl rfl ?_))
    exact meets_idle rfl rfl (meets_op rfl rfl trivial (meets_op rfl rfl trivial trivial))
  have hstay := (games_iff_stays (Lts.meets_append hs together_careful hcareful)).mp hall
  have hlast := (Lts.exec_ok_iff.mp ht).meets_of_append
    ((Lts.exec_ok_iff.mp hs).meets_of_append hstay)
  exact hlast.1 _ ho 1 ⟨noSeed,.inl rfl⟩ hplay

end Workers
end CcniServer
