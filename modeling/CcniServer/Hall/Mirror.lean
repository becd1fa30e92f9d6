import CcniServer.Hall.Notices

/-!
Mirrors: a member of a session that reads its notices in the order in which they were assigned
knows at any time who else is in the session, and in which state. It knows the others by the names
in the notices, which are the others' own where libxml2 finds no reference in them.
-/
namespace CcniServer
open CClient CXmlMsg References

/-! ### Views -/

/-- The clients of a session by their names, with their states. -/
abbrev View := String → Option CClient.State

namespace View

/-- The client that a notice names under a tag. -/
def named (m : CXmlNode) (tag : String) : String :=
  CXmlNode.getContent (CXmlNode.findChild (some m) tag)

/-- The view after a notice. -/
def hear (v : View) (m : CXmlNode) : View :=
  if m.name = xmlTagNotifyEnterSession then
    Function.update v (named m xmlTagUserName) (some .stSessional)
  else if m.name = xmlTagNotifyWatchSession then
    Function.update v (named m xmlTagUserName) (some .stWatching)
  else if m.name = xmlTagNotifyLeaveSession then
    Function.update v (named m xmlTagUserName) none
  else if m.name = xmlTagNotifyReady then
    Function.update v (named m xmlTagUserName) (some .stReady)
  else if m.name = xmlTagNotifyStartGame then
    Function.update (Function.update v (named m xmlTagMoving) (some .stMoving))
      (named m xmlTagPondering) (some .stPondering)
  else v

def hearAll (v : View) (ms : List CXmlNode) : View := ms.foldl hear v

theorem hearAll_append (v : View) (ms ms' : List CXmlNode) :
    v.hearAll (ms ++ ms') = (v.hearAll ms).hearAll ms' := List.foldl_append

theorem named_bdmsg (tag uname : String) :
    named (bdmsg tag xmlTagUserName uname) xmlTagUserName = uname := String.append_empty

theorem name_bdmsg (tag param uname : String) : (bdmsg tag param uname).name = tag := rfl

variable (v : View) (uname : String)

theorem hear_enter : v.hear (bdmsg xmlTagNotifyEnterSession xmlTagUserName uname) =
    Function.update v uname (some .stSessional) := by
  rw [hear,name_bdmsg,if_pos rfl,named_bdmsg]

theorem hear_watch : v.hear (bdmsg xmlTagNotifyWatchSession xmlTagUserName uname) =
    Function.update v uname (some .stWatching) := by
  rw [hear,name_bdmsg,if_neg (by decide),if_pos rfl,named_bdmsg]

theorem hear_leave : v.hear (bdmsg xmlTagNotifyLeaveSession xmlTagUserName uname) =
    Function.update v uname none := by
  rw [hear,name_bdmsg,if_neg (by decide),if_neg (by decide),if_pos rfl,named_bdmsg]

theorem hear_ready : v.hear (notifyReady uname) = Function.update v uname (some .stReady) := by
  rw [hear,notifyReady,name_bdmsg,if_neg (by decide),if_neg (by decide),if_neg (by decide),
    if_pos rfl,named_bdmsg]

theorem hear_start (moving pondering : String) : v.hear (notifyStartGame moving pondering) =
    Function.update (Function.update v moving (some .stMoving)) pondering (some .stPondering) := by
  obtain ⟨hmoving,hpondering⟩ := names_notifyStartGame moving pondering
  have hname : (notifyStartGame moving pondering).name = xmlTagNotifyStartGame := rfl
  rw [hear,hname,if_neg (by decide),if_neg (by decide),if_neg (by decide),if_neg (by decide),
    if_pos rfl,named,named,hmoving,hpondering]

end View

namespace Hall
variable {h h' : Hall} {c d : CClientPtr}

/-- The session that a client names. -/
def mySession (h : Hall) (d : CClientPtr) : Option CSession :=
  h.sessionOf d (h.member d).sessionid

/-- A view has the other members of a client's session, and no other name but the client's own. -/
structure Shows (h : Hall) (d : CClientPtr) (ss : CSession) (v : View) : Prop where
  members : ∀ e ∈ ss.members, e ≠ d → v (h.member e).uname = some (h.member e).state
  others : ∀ u, (∀ e ∈ ss.members, (h.member e).uname ≠ u) → v u = none

/-- A client stays in its session, and the messages tell it what happens there. -/
structure Follows (h h' : Hall) (d : CClientPtr) (ms : List CXmlNode) : Prop where
  roomid : (h'.member d).roomid = (h.member d).roomid
  sessionid : (h'.member d).sessionid = (h.member d).sessionid
  shows : ∀ ss, h.mySession d = some ss → d ∈ ss.members →
    ∃ ss', h'.mySession d = some ss' ∧ d ∈ ss'.members ∧
      ∀ v, h.Shows d ss v → h'.Shows d ss' (v.hearAll ms)

theorem Follows.refl (h : Hall) (d : CClientPtr) : Follows h h d [] :=
  ⟨rfl,rfl,fun ss hss hd => ⟨ss,hss,hd,fun _ hv => hv⟩⟩

theorem Follows.trans {h'' : Hall} {ms ms' : List CXmlNode} (hf : Follows h h' d ms)
    (hf' : Follows h' h'' d ms') : Follows h h'' d (ms ++ ms') := by
  refine ⟨hf'.roomid.trans hf.roomid,hf'.sessionid.trans hf.sessionid,fun ss hss hd => ?_⟩
  obtain ⟨ss',hss',hd',hshow⟩ := hf.shows ss hss hd
  obtain ⟨ss'',hss'',hd'',hshow'⟩ := hf'.shows ss' hss' hd'
  refine ⟨ss'',hss'',hd'',fun v hv => ?_⟩
  rw [View.hearAll_append]
  exact hshow' _ (hshow v hv)

/-! ### What happens elsewhere -/

theorem mySession_ok (ok : h.Ok) {ss : CSession} (hss : h.mySession d = some ss) :
    ss.Ok h.member (h.member d).roomid (Scan.toUInt32 (h.member d).sessionid) :=
  sessionOf_ok ok hss

/-- A client is in no session but the one it names. -/
theorem mySession_of_mem (ok : h.Ok) {r : ℤ} {rm : CRoom} {k : ℕ} {ss : CSession}
    (hrm : h.rooms.find? r = some rm) (hss : rm.sessions.find? k = some ss)
    (hd : d ∈ ss.members) : (h.member d).roomid = r ∧ Scan.toUInt32 (h.member d).sessionid = k ∧
      h.mySession d = some ss := by
  have hok := ok.session r rm hrm k ss hss
  have hkey : Scan.toUInt32 (h.member d).sessionid = k := by
    rw [hok.sessionid d hd]
    exact Scan.toUInt32_natCast (by have := hok.key.2; omega)
  refine ⟨hok.roomid d hd,hkey,?_⟩
  rw [mySession,sessionOf,hok.roomid d hd,hrm,hkey]
  exact hss

theorem not_mem_of_sessionid (ok : h.Ok) {ss : CSession} (hss : h.mySession d = some ss)
    (hc : (h.member c).sessionid = -1) : c ∉ ss.members := by
  intro hmem
  have hok := mySession_ok ok hss
  have hsid := hok.sessionid c hmem
  omega

theorem mySession_of_mate (ok : h.Ok) {ss : CSession} (hss : h.mySession c = some ss)
    (hd : d ∈ ss.members) : h.mySession d = some ss := by
  obtain ⟨rm,hrm,hss⟩ := Option.bind_eq_some_iff.mp hss
  exact (mySession_of_mem ok hrm hss hd).2.2

theorem same_session (ok : h.Ok) {ss : CSession} (hss : h.mySession d = some ss)
    (hc : c ∈ ss.members) : (h.member d).roomid = (h.member c).roomid ∧
      Scan.toUInt32 (h.member d).sessionid = Scan.toUInt32 (h.member c).sessionid := by
  have hok := mySession_ok ok hss
  refine ⟨(hok.roomid c hc).symm,?_⟩
  rw [hok.sessionid c hc]
  exact (Scan.toUInt32_natCast (by have := hok.key.2; omega)).symm

/-- Two clients have two names. -/
theorem uname_ne (ok : h.Ok) {e : CClientPtr} (hc : (h.member c).ctsk = true)
    (he : (h.member e).ctsk = true) (hne : e ≠ c) : (h.member e).uname ≠ (h.member c).uname := by
  intro heq
  have hfind := (ok.registered _ e).mpr ⟨he,heq⟩
  rw [(ok.registered _ c).mpr ⟨hc,rfl⟩] at hfind
  exact hne (Option.some.inj hfind).symm

theorem ctsk_of_mem (ok : h.Ok) {ss : CSession} {r : ℤ} {k : ℕ} (hok : ss.Ok h.member r k)
    {e : CClientPtr} (he : e ∈ ss.members) : (h.member e).ctsk = true := by
  refine (ok.member e).ctsk_of_sessionid ?_
  rw [hok.sessionid e he]
  exact Int.natCast_pos.mpr hok.key.1

/-- Nobody in the session is written, nor is its list of members. -/
theorem Follows.elsewhere (hd : h'.member d = h.member d)
    (hsess : ∀ ss, h.mySession d = some ss → d ∈ ss.members →
      h'.mySession d = some ss ∧ ∀ e ∈ ss.members, h'.member e = h.member e) :
    Follows h h' d [] := by
  refine ⟨by rw [hd],by rw [hd],fun ss hss hmem => ?_⟩
  obtain ⟨hss',hstay⟩ := hsess ss hss hmem
  refine ⟨ss,hss',hmem,fun v hv => ⟨fun e he hed => ?_,fun u hu => hv.others u fun e he => ?_⟩⟩
  · rw [hstay e he]
    exact hv.members e he hed
  · rw [← hstay e he]
    exact hu e he

section
variable {r : ℤ} {rm rm' : CRoom} {m' : Member}

/-- The session that a client names after a room and another client are written. -/
theorem mySession_put (hd : d ≠ c) : ((h.setRoom r rm').setMember c m').mySession d =
    if (h.member d).roomid = r then rm'.sessions.find? (Scan.toUInt32 (h.member d).sessionid)
    else h.mySession d := by
  have hmem : ((h.setRoom r rm').setMember c m').member d = h.member d :=
    Function.update_of_ne hd _ _
  rw [mySession,sessionOf,hmem,setMember_rooms,setRoom_rooms,OrdMap.find?_insert]
  split_ifs
  · rfl
  · rfl

/-- The sessions of the room are the old ones. -/
theorem Follows.sameSessions (ok : h.Ok) (hd : d ≠ c) (hrm : h.rooms.find? r = some rm)
    (hsess : rm'.sessions = rm.sessions) (hc : (h.member c).sessionid = -1) :
    Follows h ((h.setRoom r rm').setMember c m') d [] := by
  refine .elsewhere (Function.update_of_ne hd _ _) fun ss hss _ => ⟨?_,fun e he =>
    Function.update_of_ne (ne_of_mem_of_not_mem he (not_mem_of_sessionid ok hss hc)) _ _⟩
  rw [mySession_put hd]
  split_ifs with hr
  · rw [hsess]
    rw [mySession,sessionOf,hr,hrm] at hss
    exact hss
  · exact hss

/-- Another session of some room is written or erased. -/
theorem Follows.otherSession (hd : d ≠ c) (hrm : h.rooms.find? r = some rm) (k : ℕ)
    (hother : ∀ j, j ≠ k → rm'.sessions.find? j = rm.sessions.find? j)
    (hout : ∀ ss, h.mySession d = some ss → d ∈ ss.members →
      ¬ ((h.member d).roomid = r ∧ Scan.toUInt32 (h.member d).sessionid = k) ∧ c ∉ ss.members) :
    Follows h ((h.setRoom r rm').setMember c m') d [] := by
  refine .elsewhere (Function.update_of_ne hd _ _) fun ss hss hmem => ?_
  obtain ⟨hne,hc⟩ := hout ss hss hmem
  refine ⟨?_,fun e he => Function.update_of_ne (ne_of_mem_of_not_mem he hc) _ _⟩
  rw [mySession_put hd]
  split_ifs with hr
  · rw [hother _ fun hk => hne ⟨hr,hk⟩]
    rw [mySession,sessionOf,hr,hrm] at hss
    exact hss
  · exact hss

end

/-! ### Joining and leaving -/

theorem follows_join (ok : h.Ok) {sid : ℤ} {join : CSession → Option CSession}
    {st : CClient.State} {tag : String} (hd : d ≠ c) (hidle : (h.member c).state = .stIdle)
    (hmem : ∀ rm ss ss', h.rooms.find? (h.member c).roomid = some rm →
      rm.sessions.find? (Scan.toUInt32 sid) = some ss → join ss = some ss' →
      ∀ e, e ∈ ss'.members ↔ e = c ∨ e ∈ ss.members)
    (htag : ∀ v : View, v.hear (h.userNotice tag c) =
      Function.update v (h.member c).uname (some st))
    (hj : h.joinSession c sid join st = some h') :
    Follows h h' d (heard (h.joinNotice c sid join tag) d) := by
  have hcsid : (h.member c).sessionid = -1 := (ok.member c).noSession (by rw [hidle]; rfl)
  have hctsk : (h.member c).ctsk = true := (ok.member c).served.mpr (by rw [hidle]; decide)
  obtain ⟨rm,hrm,⟨hnone,hsame⟩ | ⟨ss,ss',hss,hjoin,rfl⟩⟩ := joinSession_cases hj
  · have hnotice : h.joinNotice c sid join tag = none := by
      rw [joinNotice,sessionOf,hrm,Option.bind_some]
      cases hss : rm.sessions.find? (Scan.toUInt32 sid) with
      | none => rfl
      | some ss =>
        rw [hss,Option.bind_some] at hnone
        rw [Option.bind_some,hnone]
        rfl
    rw [hsame,hnotice]
    exact .refl h d
  · have hnotice : h.joinNotice c sid join tag = some (ss.members,h.userNotice tag c) := by
      rw [joinNotice,sessionOf,hrm,Option.bind_some,hss,Option.bind_some,hjoin]
      rfl
    have hmem := hmem rm ss ss' hrm hss hjoin
    rw [hnotice,heard,Option.map_some,Option.getD_some]
    by_cases hdm : d ∈ ss.members
    · rw [if_pos hdm]
      obtain ⟨hroom,hkey,hmy⟩ := mySession_of_mem ok hrm hss hdm
      have hdd : ∀ e, e ≠ c → ((h.setRoom (h.member c).roomid
          (rm.setSession (Scan.toUInt32 sid) ss')).setMember c
            { h.member c with state := st, sessionid := sid }).member e = h.member e :=
        fun e he => Function.update_of_ne he _ _
      refine ⟨by rw [hdd d hd],by rw [hdd d hd],fun ss₀ hss₀ _ => ?_⟩
      cases hmy.symm.trans hss₀
      have hcout := not_mem_of_sessionid ok hmy hcsid
      refine ⟨ss',?_,(hmem d).mpr (.inr hdm),fun v hv => ?_⟩
      · rw [mySession_put hd,if_pos hroom,hkey,CRoom.setSession,OrdMap.find?_insert,if_pos rfl]
      · have hheard : v.hearAll [h.userNotice tag c] =
            Function.update v (h.member c).uname (some st) := htag v
        have hname : ∀ e ∈ ss.members, (h.member e).uname ≠ (h.member c).uname := fun e he =>
          uname_ne ok hctsk (ctsk_of_mem ok (mySession_ok ok hmy) he)
            (ne_of_mem_of_not_mem he hcout)
        rw [hheard]
        refine ⟨fun e he hed => ?_,fun u hu => ?_⟩
        · obtain rfl | he := (hmem e).mp he
          · rw [setMember_member,Function.update_self,Function.update_self]
          · rw [hdd e (ne_of_mem_of_not_mem he hcout),Function.update_of_ne (hname e he)]
            exact hv.members e he hed
        · have huc := hu c ((hmem c).mpr (.inl rfl))
          rw [setMember_member,Function.update_self] at huc
          rw [Function.update_of_ne huc.symm]
          refine hv.others u fun e he => ?_
          have hue := hu e ((hmem e).mpr (.inr he))
          rwa [hdd e (ne_of_mem_of_not_mem he hcout)] at hue
    · rw [if_neg hdm]
      refine .otherSession hd hrm (Scan.toUInt32 sid) ?_ fun ss₀ hss₀ hd₀ =>
        ⟨?_,not_mem_of_sessionid ok hss₀ hcsid⟩
      · intro j hne
        rw [CRoom.setSession,OrdMap.find?_insert,if_neg hne]
      · rintro ⟨hroom,hkey⟩
        rw [mySession,sessionOf,hroom,hrm,Option.bind_some,hkey,hss] at hss₀
        cases hss₀
        exact hdm hd₀

theorem follows_leave (ok : h.Ok) (hd : d ≠ c) (hl : h.leaveSession c = some h') :
    Follows h h' d (heard (h.leaveNotice c) d) := by
  unfold Hall.leaveSession at hl
  split_ifs at hl with hc
  obtain ⟨rm,hrm,hl⟩ := Option.bind_eq_some_iff.mp hl
  obtain ⟨ss',hun,rfl⟩ := Option.map_eq_some_iff.mp hl
  obtain ⟨ss,hss,hun⟩ := Option.bind_eq_some_iff.mp hun
  have hmy : h.mySession c = some ss := by
    rw [mySession,sessionOf,hrm]
    exact hss
  have hok := mySession_ok ok hmy
  have hmem : ∀ e, e ∈ ss'.members ↔ e ∈ ss.members ∧ e ≠ c :=
    fun e => CSession.mem_unseat hok.nodup hun
  have hnotice : h.leaveNotice c = some (ss'.members,h.userNotice xmlTagNotifyLeaveSession c) := by
    rw [leaveNotice,show h.sessionOf c (h.member c).sessionid = some ss from hmy,Option.bind_some,hun]
    rfl
  have hdd : ∀ e, e ≠ c → ((h.setRoom (h.member c).roomid
      (putSession rm (Scan.toUInt32 (h.member c).sessionid) ss')).setMember c
        { h.member c with state := .stIdle, sessionid := -1 }).member e = h.member e :=
    fun e he => Function.update_of_ne he _ _
  rw [hnotice,heard,Option.map_some,Option.getD_some]
  by_cases hdm : d ∈ ss.members
  · have hdm' : d ∈ ss'.members := (hmem d).mpr ⟨hdm,hd⟩
    rw [if_pos hdm']
    obtain ⟨hroom,hkey,hmyd⟩ := mySession_of_mem ok hrm hss hdm
    refine ⟨by rw [hdd d hd],by rw [hdd d hd],fun ss₀ hss₀ _ => ?_⟩
    cases hmyd.symm.trans hss₀
    refine ⟨ss',?_,hdm',fun v hv => ?_⟩
    · rw [mySession_put hd,if_pos hroom,hkey,putSession,if_neg (List.ne_nil_of_mem hdm'),
        CRoom.setSession,OrdMap.find?_insert,if_pos rfl]
    · have hheard : v.hearAll [h.userNotice xmlTagNotifyLeaveSession c] =
          Function.update v (h.member c).uname none := View.hear_leave v _
      rw [hheard]
      refine ⟨fun e he hed => ?_,fun u hu => ?_⟩
      · obtain ⟨he,hec⟩ := (hmem e).mp he
        have hname := uname_ne ok hc.1 (ctsk_of_mem ok hok he) hec
        rw [hdd e hec,Function.update_of_ne hname]
        exact hv.members e he hed
      · by_cases huc : u = (h.member c).uname
        · rw [huc,Function.update_self]
        · rw [Function.update_of_ne huc]
          refine hv.others u fun e he => ?_
          by_cases hec : e = c
          · rw [hec]
            exact fun hcu => huc hcu.symm
          · have hue := hu e ((hmem e).mpr ⟨he,hec⟩)
            rwa [hdd e hec] at hue
  · rw [if_neg fun hdm' => hdm ((hmem d).mp hdm').1]
    refine .otherSession hd hrm (Scan.toUInt32 (h.member c).sessionid) ?_ fun ss₀ hss₀ hd₀ => ?_
    · intro j hne
      unfold putSession
      split_ifs
      · rw [CRoom.eraseSession,OrdMap.find?_erase,if_neg hne]
      · rw [CRoom.setSession,OrdMap.find?_insert,if_neg hne]
    · have hne : ¬ ((h.member d).roomid = (h.member c).roomid ∧
          Scan.toUInt32 (h.member d).sessionid = Scan.toUInt32 (h.member c).sessionid) := by
        rintro ⟨hroom,hkey⟩
        rw [mySession,sessionOf,hroom,hrm,Option.bind_some,hkey,hss] at hss₀
        cases hss₀
        exact hdm hd₀
      exact ⟨hne,fun hc₀ => hne (same_session ok hss₀ hc₀)⟩

/-! ### Ready -/

theorem setState_comm {m : CClientPtr → Member} {a b : CClientPtr} (hne : a ≠ b)
    (st st' : CClient.State) : setState (setState m a st) b st' = setState (setState m b st') a st := by
  unfold setState
  rw [Function.update_of_ne hne.symm,Function.update_of_ne hne,Function.update_comm hne]

theorem setState_setState (m : CClientPtr → Member) (a : CClientPtr) (st st' : CClient.State) :
    setState (setState m a st) a st' = setState m a st' := by
  unfold setState
  rw [Function.update_self,Function.update_idem]

/-- The state a player had before the game is written over. -/
theorem setState_paired {m : CClientPtr → Member} {mv pd : CClientPtr} (hne : mv ≠ pd)
    (hc : c = mv ∨ c = pd) (st : CClient.State) :
    setState (setState (setState m c st) mv .stMoving) pd .stPondering =
      setState (setState m mv .stMoving) pd .stPondering := by
  obtain rfl | rfl := hc
  · rw [setState_setState]
  · rw [setState_comm hne.symm,setState_setState]

/-- A game begins with the moving player and the pondering one. -/
theorem startGame_starters {ss : CSession} {m : CClientPtr → Member} {ow op : CClientPtr}
    (how : ss.owner = some ow) (hop : ss.opponent = some op) (hne : ow ≠ op) (hc : c = ow ∨ c = op) :
    ∃ mv pd, starters ss = some (mv,pd) ∧ mv ≠ pd ∧ (c = mv ∨ c = pd) ∧
      startGame ss (setState m c .stReady) ow op =
        setState (setState m mv .stMoving) pd .stPondering := by
  unfold starters startGame
  rw [how,hop]
  split_ifs with hred
  · exact ⟨ow,op,rfl,hne,hc,setState_paired hne hc _⟩
  · refine ⟨op,ow,rfl,hne.symm,hc.symm,?_⟩
    rw [setState_comm hne]
    exact setState_paired hne.symm hc.symm _

/-- A client that gets ready, where the seat across is not ready and where it is. -/
theorem readyMembers_cases {ss : CSession} {m' : CClientPtr → Member} (hnd : ss.members.Nodup)
    (hr : readyMembers ss h.member c = some m') :
    (h.startNotice ss c = [] ∧ m' = setState h.member c .stReady) ∨
    ∃ mv pd, mv ∈ ss.members ∧ pd ∈ ss.members ∧ mv ≠ pd ∧ (c = mv ∨ c = pd) ∧
      h.startNotice ss c = [notifyStartGame (h.member mv).uname (h.member pd).uname] ∧
      m' = setState (setState h.member mv .stMoving) pd .stPondering := by
  have hseat := player_of_readyMembers hr
  have hne : ∀ ow op, ss.owner = some ow → ss.opponent = some op → ow ≠ op := by
    rintro ow op how hop rfl
    exact (CSession.nodup_members.mp hnd).1 ow how hop
  have hbegins : ∀ ow op o, ss.owner = some ow → ss.opponent = some op → c = ow ∨ c = op →
      ss.other c = some o → (h.member o).state = .stReady →
      m' = startGame ss (setState h.member c .stReady) ow op →
      ∃ mv pd, mv ∈ ss.members ∧ pd ∈ ss.members ∧ mv ≠ pd ∧ (c = mv ∨ c = pd) ∧
        h.startNotice ss c = [notifyStartGame (h.member mv).uname (h.member pd).uname] ∧
        m' = setState (setState h.member mv .stMoving) pd .stPondering := by
    intro ow op o how hop hc ho hready hm'
    obtain ⟨mv,pd,hst,hmp,hcp,hgame⟩ :=
      startGame_starters (m := h.member) how hop (hne ow op how hop) hc
    have hmem : mv ∈ ss.members ∧ pd ∈ ss.members := by
      unfold starters at hst
      rw [how,hop] at hst
      simp only [CSession.mem_members,how,hop]
      split_ifs at hst <;>
      · cases hst
        simp
    refine ⟨mv,pd,hmem.1,hmem.2,hmp,hcp,?_,hm'.trans hgame⟩
    rw [startNotice,ho,Option.any_some,if_pos (decide_eq_true hready),hst]
    rfl
  have hwaits : ∀ o, ss.other c = some o → (h.member o).state ≠ .stReady →
      h.startNotice ss c = [] := by
    intro o ho hready
    rw [startNotice,ho,Option.any_some,if_neg (by simpa using hready)]
  have halone : ss.other c = none → h.startNotice ss c = [] := by
    intro ho
    rw [startNotice,ho]
    rfl
  unfold readyMembers at hr
  by_cases how : ss.owner = some c
  · have hother : ss.other c = ss.opponent := if_pos how
    simp only [how,if_true] at hr
    cases hop : ss.opponent with
    | none =>
      simp only [hop,Option.some.injEq] at hr
      exact .inl ⟨halone (hother.trans hop),hr.symm⟩
    | some op =>
      have hcop := hne c op how hop
      simp only [hop,Option.some.injEq,setState_of_ne hcop.symm] at hr
      split_ifs at hr with hready
      · exact .inr (hbegins c op op how hop (.inl rfl) (hother.trans hop) hready hr.symm)
      · exact .inl ⟨hwaits op (hother.trans hop) hready,hr.symm⟩
  · have hop := hseat.resolve_left how
    have hother : ss.other c = ss.owner := if_neg how
    simp only [how,hop,if_false,if_true] at hr
    cases how' : ss.owner with
    | none =>
      simp only [how',Option.some.injEq] at hr
      exact .inl ⟨halone (hother.trans how'),hr.symm⟩
    | some ow =>
      have hcow := hne ow c how' hop
      simp only [how',Option.some.injEq,setState_of_ne hcow] at hr
      split_ifs at hr with hready
      · exact .inr (hbegins ow c ow how' hop (.inr rfl) (hother.trans how') hready hr.symm)
      · exact .inl ⟨hwaits ow (hother.trans how') hready,hr.symm⟩

/-- One member of a session gets another state. -/
theorem Shows.setState (ok : h.Ok) {ss : CSession} {v : View} {m : CClientPtr → Member}
    (st : CClient.State) (huname : ∀ e, (m e).uname = (h.member e).uname) (hmy : h.mySession d = some ss)
    (hc : c ∈ ss.members) (hv : Shows { h with member := m } d ss v) :
    Shows { h with member := Hall.setState m c st } d ss
      (Function.update v (h.member c).uname (some st)) := by
  have hok := mySession_ok ok hmy
  refine ⟨fun e he hed => ?_,fun u hu => ?_⟩
  · simp only [setState_uname,setState_state,huname]
    by_cases hec : e = c
    · rw [hec,Function.update_self,if_pos rfl]
    · have hne := uname_ne ok (ctsk_of_mem ok hok hc) (ctsk_of_mem ok hok he) hec
      rw [Function.update_of_ne hne,if_neg hec,← huname e]
      exact hv.members e he hed
  · simp only [setState_uname] at hu
    have huc := hu c hc
    rw [huname] at huc
    rw [Function.update_of_ne huc.symm]
    exact hv.others u hu

/-- A client's own state does not show. -/
theorem Shows.self {ss : CSession} {v : View} {m : CClientPtr → Member} {st : CClient.State}
    (hv : Shows { h with member := m } d ss v) :
    Shows { h with member := Hall.setState m d st } d ss v := by
  refine ⟨fun e he hed => ?_,fun u hu => ?_⟩
  · simp only [setState_of_ne hed]
    exact hv.members e he hed
  · simp only [setState_uname] at hu
    exact hv.others u hu

theorem follows_ready (ok : h.Ok) (hr : h.ready c = some h') :
    Follows h h' d (h.told (.ready c) d) := by
  unfold Hall.ready at hr
  split_ifs at hr with hc
  obtain ⟨rm,hrm,hr⟩ := Option.bind_eq_some_iff.mp hr
  obtain ⟨m',hm',rfl⟩ := Option.map_eq_some_iff.mp hr
  obtain ⟨ss,hss,hm'⟩ := Option.bind_eq_some_iff.mp hm'
  have hmy : h.mySession c = some ss := by
    rw [mySession,sessionOf,hrm]
    exact hss
  have hnd := (mySession_ok ok hmy).nodup
  have hseat := player_of_readyMembers hm'
  have hcm : c ∈ ss.members :=
    CSession.mem_members.mpr (hseat.elim .inl fun hop => .inr (.inl hop))
  have htold : h.told (.ready c) d = if d ∈ ss.members then
      (if d = c then [] else [notifyReady (h.member c).uname]) ++ h.startNotice ss c else [] := by
    have hsession : h.sessionOf c (h.member c).sessionid = some ss := hmy
    rw [told,hsession]
    rfl
  have hcases := readyMembers_cases hnd hm'
  have hfields : ∀ e, (m' e).uname = (h.member e).uname ∧ (m' e).roomid = (h.member e).roomid ∧
      (m' e).sessionid = (h.member e).sessionid := by
    intro e
    obtain ⟨-,rfl⟩ | ⟨mv,pd,-,-,-,-,-,rfl⟩ := hcases <;> simp
  have hmy' : ∀ e, ({ h with member := m' } : Hall).mySession e = h.mySession e := by
    intro e
    simp only [mySession,sessionOf,hfields]
  by_cases hdm : d ∈ ss.members
  · rw [htold,if_pos hdm]
    have hmyd := mySession_of_mate ok hmy hdm
    refine ⟨(hfields d).2.1,(hfields d).2.2,fun ss₀ hss₀ _ => ?_⟩
    cases hmyd.symm.trans hss₀
    refine ⟨ss,(hmy' d).trans hmyd,hdm,fun v hv => ?_⟩
    have hready : Shows { h with member := setState h.member c .stReady } d ss
        (v.hearAll (if d = c then [] else [notifyReady (h.member c).uname])) := by
      by_cases hdc : d = c
      · rw [if_pos hdc,← hdc]
        exact Shows.self hv
      · rw [if_neg hdc]
        have hheard : v.hearAll [notifyReady (h.member c).uname] =
            Function.update v (h.member c).uname (some .stReady) := View.hear_ready v _
        rw [hheard]
        exact Shows.setState ok _ (fun _ => rfl) hmyd hcm hv
    rw [View.hearAll_append]
    obtain ⟨hstart,rfl⟩ | ⟨mv,pd,hmv,hpd,hmp,hcp,hstart,rfl⟩ := hcases
    · rw [hstart]
      exact hready
    · have hmoving := Shows.setState ok .stMoving (fun e => setState_uname _ _ _ _) hmyd
        hmv hready
      have hpondering := Shows.setState ok .stPondering
        (fun e => (setState_uname _ _ _ _).trans (setState_uname _ _ _ _)) hmyd hpd hmoving
      rw [setState_paired hmp hcp] at hpondering
      rw [← View.hear_start] at hpondering
      rw [hstart]
      exact hpondering
  · rw [htold,if_neg hdm]
    have hout : ∀ e, e ∉ ss.members → m' e = h.member e := by
      intro e he
      have hec := ne_of_mem_of_not_mem hcm he
      obtain ⟨-,rfl⟩ | ⟨mv,pd,hmv,hpd,-,-,-,rfl⟩ := hcases
      · exact setState_of_ne hec.symm
      · have hem := ne_of_mem_of_not_mem hmv he
        have hep := ne_of_mem_of_not_mem hpd he
        exact (setState_of_ne hep.symm).trans (setState_of_ne hem.symm)
    refine .elsewhere (hout d hdm) fun ss₀ hss₀ hd₀ => ⟨(hmy' d).trans hss₀,fun e he => ?_⟩
    refine hout e fun hes => hdm ?_
    -- a client of both sessions names one of them
    cases (mySession_of_mate ok hmy hes).symm.trans (mySession_of_mate ok hss₀ he)
    exact hd₀

/-! ### Actions -/

theorem Follows.congr {h'' : Hall} {ms : List CXmlNode} (hf : Follows h h' d ms)
    (hm : h''.member = h'.member) (hr : h''.rooms = h'.rooms) : Follows h h'' d ms := by
  have hmy : h''.mySession d = h'.mySession d := by
    rw [mySession,mySession,sessionOf,sessionOf,hm,hr]
  refine ⟨by rw [hm,hf.roomid],by rw [hm,hf.sessionid],fun ss hss hd => ?_⟩
  obtain ⟨ss',hss',hd',hshow⟩ := hf.shows ss hss hd
  refine ⟨ss',hmy.trans hss',hd',fun v hv => ⟨?_,?_⟩⟩
  · rw [hm]
    exact (hshow v hv).members
  · rw [hm]
    exact (hshow v hv).others

theorem follows_login (ok : h.Ok) (hd : (h.member d).ctsk = true) (hc : (h.member c).ctsk = false)
    (uname : String) : Follows h (h.login c uname) d [] := by
  have hne : ∀ e, (h.member e).ctsk = true → e ≠ c := by
    rintro e he rfl
    rw [hc] at he
    cases he
  unfold Hall.login
  cases h.list.find? uname with
  | some c' => exact .refl h d
  | none =>
    have hset : Follows h (h.setMember c ⟨.stOnline,uname,-1,-1,true⟩) d [] := by
      have hsame : (h.setMember c ⟨.stOnline,uname,-1,-1,true⟩).member d = h.member d :=
        Function.update_of_ne (hne d hd) _ _
      refine .elsewhere hsame fun ss hss _ => ⟨?_,fun e he => ?_⟩
      · rw [mySession,sessionOf,hsame]
        exact hss
      · exact Function.update_of_ne (hne e (ctsk_of_mem ok (mySession_ok ok hss) he)) _ _
    exact hset.congr rfl rfl

theorem follows_enterRoom (ok : h.Ok) (hd : d ≠ c) (rid : ℤ) :
    Follows h (h.enterRoom c rid) d [] := by
  unfold Hall.enterRoom
  split_ifs with hst
  · exact .refl h d
  · have hst : (h.member c).state = .stOnline := not_not.mp (not_or.mp hst).1
    cases hadm : (h.rooms.find? rid).bind (fun rm => rm.addUser c) with
    | none => exact .refl h d
    | some rm' =>
      obtain ⟨rm,hrm,hadd⟩ := Option.bind_eq_some_iff.mp hadm
      exact .sameSessions ok hd hrm (CRoom.addUser_some hadd).2.1
        ((ok.member c).noSession (by rw [hst]; rfl))

theorem follows_leaveRoom (ok : h.Ok) (hd : d ≠ c) (hc : (h.member c).sessionid = -1)
    (hl : h.leaveRoom c = some h') : Follows h h' d [] := by
  obtain ⟨rm',hdis,rfl⟩ := Option.map_eq_some_iff.mp hl
  obtain ⟨rm,hrm,hdis⟩ := Option.bind_eq_some_iff.mp hdis
  exact .sameSessions ok hd hrm (CRoom.dismiss_some hdis).2.2.1 hc

theorem follows_newSession (ok : h.Ok) (hd : d ≠ c) (hseats : h.Seats (.newSession c))
    (hn : h.newSession c = some h') : Follows h h' d [] := by
  unfold Hall.newSession at hn
  split_ifs at hn with hst
  obtain ⟨rm,hrm,hn⟩ := Option.bind_eq_some_iff.mp hn
  split_ifs at hn with hin
  cases hn
  have hcsid : (h.member c).sessionid = -1 := (ok.member c).noSession (by rw [hst.1]; rfl)
  have hfree := hseats rm hrm
  generalize CSession.genid h.idseed = gen at hfree ⊢
  have hput : Follows h ((h.setRoom (h.member c).roomid
      (rm.setSession gen.2 (CSession.new c .create gen.2))).setMember c
        { h.member c with state := .stSessional, sessionid := gen.2 }) d [] := by
    refine .otherSession hd hrm gen.2 ?_ fun ss hss _ => ⟨?_,not_mem_of_sessionid ok hss hcsid⟩
    · intro j hne
      rw [CRoom.setSession,OrdMap.find?_insert,if_neg hne]
    · rintro ⟨hroom,hkey⟩
      rw [mySession,sessionOf,hroom,hrm,Option.bind_some,hkey,hfree] at hss
      cases hss
  exact hput.congr rfl rfl

theorem follows_disconnect (ok : h.Ok) (hd : d ≠ c)
    (hb : h.breakLine c = some h') : Follows h h' d (h.told (.disconnect c) d) := by
  obtain ⟨h₂,h₂b,rfl⟩ := Option.map_eq_some_iff.mp hb
  obtain ⟨h₁,h₁b,h₂b⟩ := Option.bind_eq_some_iff.mp h₂b
  obtain ⟨ok₁,hsid₁,hc₁⟩ := ok.dropSession h₁b
  obtain ⟨ok₂,hsid₂,-,-⟩ := ok₁.dropRoom hsid₁ h₂b
  have hone : Follows h h₁ d (h.told (.disconnect c) d) := by
    rw [told_of_ne fun _ => Action.noConfusion]
    unfold Hall.dropSession at h₁b
    simp only [notice]
    split_ifs at h₁b ⊢
    · exact follows_leave ok hd h₁b
    · cases h₁b
      exact .refl h d
  have htwo : Follows h₁ h₂ d [] := by
    unfold Hall.dropRoom at h₂b
    split_ifs at h₂b
    · exact follows_leaveRoom ok₁ hd hsid₁ h₂b
    · cases h₂b
      exact .refl _ d
  have hthree : Follows h₂ (h₂.retire c) d [] := by
    refine .elsewhere (Function.update_of_ne hd _ _) fun ss hss _ => ⟨?_,fun e he => ?_⟩
    · have hsame : (h₂.retire c).member d = h₂.member d := Function.update_of_ne hd _ _
      rw [mySession,sessionOf,hsame]
      exact hss
    · exact Function.update_of_ne
        (ne_of_mem_of_not_mem he (not_mem_of_sessionid ok₂ hss hsid₂)) _ _
  have hall := hone.trans (htwo.trans hthree)
  rwa [List.append_nil,List.append_nil] at hall

/-- A client that does not leave its session follows every action. -/
theorem act_follows (ok : h.Ok) {a : Action} (hg : h.Guard a) (hseats : h.Seats a)
    (ha : h.act a = some h') (hsid : 0 < (h.member d).sessionid) (hleave : a ≠ .leaveSession d)
    (hdisc : a ≠ .disconnect d) : Follows h h' d (h.told a d) := by
  have hidle : ∀ {c : CClientPtr}, (h.member c).sessionid = -1 → d ≠ c := by
    rintro c hc rfl
    omega
  have hno : ∀ {c : CClientPtr} {st : CClient.State}, (h.member c).state = st →
      st.isIn (CClient.State.stInSession ||| CClient.State.stPlaying) = false →
      (h.member c).sessionid = -1 := by
    intro c st hst hin
    exact (ok.member c).noSession (by rw [hst,hin])
  cases a with
  | quiet =>
    cases ha
    exact .refl h d
  | login c uname =>
    cases ha
    exact follows_login ok ((ok.member d).ctsk_of_sessionid hsid) hg uname
  | enterRoom c rid =>
    cases ha
    exact follows_enterRoom ok (hidle (hno hg.2 rfl)) rid
  | leaveRoom c =>
    have hcsid := hno hg.2 rfl
    simp only [Hall.act] at ha
    split_ifs at ha
    exact follows_leaveRoom ok (hidle hcsid) hcsid ha
  | newSession c => exact follows_newSession ok (hidle (hno hg.2 rfl)) hseats ha
  | enterSession c sid =>
    refine follows_join ok (hidle (hno hg.2.1 rfl)) hg.2.1 ?_ (fun v => View.hear_enter v _) ha
    exact fun rm ss ss' hrm hss hts e => CSession.mem_takeSeat (hseats rm ss hrm hss) hts
  | leaveSession c => exact follows_leave ok (fun hd => hleave (hd ▸ rfl)) ha
  | watchSession c sid =>
    refine follows_join ok (hidle (hno hg.2.1 rfl)) hg.2.1 ?_ (fun v => View.hear_watch v _) ha
    exact fun rm ss ss' hrm hss haw e => CSession.mem_addWatcher haw
  | ready c => exact follows_ready ok ha
  | listSessions c =>
    simp only [Hall.act] at ha
    split_ifs at ha
    cases ha
    exact .refl h d
  | disconnect c => exact follows_disconnect ok (fun hd => hdisc (hd ▸ rfl)) ha

/-! ### Names -/

/-- Nobody in the client's room has a `&` in its name. -/
def PlainRoom (h : Hall) (d : CClientPtr) : Prop :=
  ∀ c, (h.member c).roomid = (h.member d).roomid → '&' ∉ (h.member c).uname.toList

section
variable {e : List Char → List Char}

theorem PlainRoom.expandText_eq (hp : h.PlainRoom d) (he : Expansion e)
    (hc : (h.member c).roomid = (h.member d).roomid) :
    expandText e (h.member c).uname = (h.member c).uname :=
  (expandText_eq_iff e).mpr (he.plain _ (hp c hc))

theorem PlainRoom.expanded_userNotice (hp : h.PlainRoom d) (he : Expansion e)
    (hc : (h.member c).roomid = (h.member d).roomid) (tag : String) :
    (h.userNotice tag c).expanded e = h.userNotice tag c := by
  rw [userNotice,bdmsg,expanded_addParameter,hp.expandText_eq he hc]
  rfl

/-- A notice that a client hears comes from its own session. -/
theorem notice_roomid (ok : h.Ok) {a : Action} {x : List CClientPtr × CXmlNode}
    (hx : h.notice a = some x) (hd : d ∈ x.1) :
    ∃ tag c, x.2 = h.userNotice tag c ∧ (h.member c).roomid = (h.member d).roomid := by
  have hjoin : ∀ {c sid join tag}, h.joinNotice c sid join tag = some x →
      ∃ tag c, x.2 = h.userNotice tag c ∧ (h.member c).roomid = (h.member d).roomid := by
    intro c sid join tag hj
    obtain ⟨ss,hss,hj⟩ := Option.bind_eq_some_iff.mp hj
    obtain ⟨-,-,rfl⟩ := Option.map_eq_some_iff.mp hj
    exact ⟨tag,c,rfl,((sessionOf_ok ok hss).roomid d hd).symm⟩
  have hleave : ∀ {c}, h.leaveNotice c = some x →
      ∃ tag c, x.2 = h.userNotice tag c ∧ (h.member c).roomid = (h.member d).roomid := by
    intro c hl
    obtain ⟨ss,hss,hl⟩ := Option.bind_eq_some_iff.mp hl
    obtain ⟨ss',hun,rfl⟩ := Option.map_eq_some_iff.mp hl
    have hok := sessionOf_ok ok hss
    have hmem := (CSession.mem_unseat hok.nodup hun).mp hd
    exact ⟨_,c,rfl,(hok.roomid d hmem.1).symm⟩
  cases a with
  | enterSession c sid => exact hjoin hx
  | watchSession c sid => exact hjoin hx
  | leaveSession c => exact hleave hx
  | disconnect c =>
    simp only [notice] at hx
    split_ifs at hx
    exact hleave hx
  | _ => cases hx

/-- The players of a game are in its session. -/
theorem starters_mem {ss : CSession} {p : CClientPtr × CClientPtr} (hp : starters ss = some p) :
    p.1 ∈ ss.members ∧ p.2 ∈ ss.members := by
  obtain ⟨ow,how,hp⟩ := Option.bind_eq_some_iff.mp hp
  obtain ⟨op,hop,rfl⟩ := Option.map_eq_some_iff.mp hp
  simp only [CSession.mem_members,how,hop]
  split_ifs <;> simp

theorem PlainRoom.expanded_startNotice (hp : h.PlainRoom d) (he : Expansion e) {ss : CSession}
    (hroom : ∀ c' ∈ ss.members, (h.member c').roomid = (h.member d).roomid) :
    (h.startNotice ss c).map (CXmlNode.expanded e) = h.startNotice ss c := by
  unfold startNotice
  split_ifs
  · cases hs : starters ss with
    | none => rfl
    | some p =>
      obtain ⟨hmv,hpd⟩ := starters_mem hs
      rw [Option.toList_some,List.map_singleton,List.map_singleton,expanded_notifyStartGame,
        hp.expandText_eq he (hroom _ hmv),hp.expandText_eq he (hroom _ hpd)]
  · rfl

/-- What a client hears is read as it was written. -/
theorem PlainRoom.expanded_told (hp : h.PlainRoom d) (he : Expansion e) (ok : h.Ok) (a : Action) :
    (h.told a d).map (CXmlNode.expanded e) = h.told a d := by
  by_cases ha : ∃ c, a = .ready c
  · obtain ⟨c,rfl⟩ := ha
    simp only [told]
    cases hss : h.sessionOf c (h.member c).sessionid with
    | none => rfl
    | some ss =>
      have hok := sessionOf_ok ok hss
      rw [Option.map_some,Option.getD_some]
      by_cases hd : d ∈ ss.members
      · have hready : (notifyReady (h.member c).uname).expanded e = notifyReady (h.member c).uname :=
          hp.expanded_userNotice he (hok.roomid d hd).symm xmlTagNotifyReady
        have hstart : (h.startNotice ss c).map (CXmlNode.expanded e) = h.startNotice ss c :=
          hp.expanded_startNotice he fun c' hc' => (hok.roomid c' hc').trans (hok.roomid d hd).symm
        rw [if_pos hd,List.map_append,hstart]
        split_ifs
        · rfl
        · rw [List.map_singleton,hready]
      · rw [if_neg hd]
        rfl
  · rw [told_of_ne fun c hc => ha ⟨c,hc⟩]
    cases hx : h.notice a with
    | none => rfl
    | some x =>
      rw [heard,Option.map_some,Option.getD_some]
      split_ifs with hd
      · obtain ⟨tag,c,hm,hc⟩ := notice_roomid ok hx hd
        rw [List.map_singleton,hm,hp.expanded_userNotice he hc]
      · rfl

end

theorem action_leaveSession {e : Event} (ha : h.action e = .leaveSession c) :
    ∃ msg, e = .request c msg ∧ msg.name = xmlTagLeaveSession := by
  cases e with
  | login c' udp udpaddr uname =>
    simp only [action] at ha
    split_ifs at ha
  | frame c' => cases ha
  | disconnect c' =>
    simp only [action] at ha
    split_ifs at ha
  | request c' msg =>
    obtain ⟨hnd,hmem,hlabel,-,hact⟩ := action_request ha Action.noConfusion
    have hlabels : ∀ hnd ∈ CClient.msghnds, hnd.fn = .doLeaveSession →
        hnd.label = xmlTagLeaveSession := by decide
    have hfn : c' = c ∧ hnd.fn = .doLeaveSession := by
      cases hf : hnd.fn <;> rw [hf] at hact <;> cases hact
      exact ⟨rfl,rfl⟩
    exact ⟨msg,by rw [hfn.1],hlabel.symm.trans (hlabels hnd hmem hfn.2)⟩

end Hall

/-! ### Runs -/

/-- The client asks to leave its session, or its connection breaks. -/
def Event.Leaves (d : CClientPtr) : Event → Prop
  | .request c msg => c = d ∧ msg.name = xmlTagLeaveSession
  | .disconnect c => c = d
  | _ => False

namespace CEngine
variable {cfgs : List CRoomConfig} {es fs : List Event} {s t : CEngine} {d : CClientPtr}

theorem step_follows {e : Event} (ok : s.hall.Ok) (hsafe : s.SafeEvent e) (hstay : ¬ e.Leaves d)
    (hsid : 0 < (s.clients d).sessionid) (h : s.step e = .ok t) :
    Hall.Follows s.hall t.hall d (s.hall.told (s.hall.action e) d) := by
  refine Hall.act_follows ok (s.hall.action_guard e) hsafe.seats (step_ok_hall h) hsid ?_ ?_
  · intro ha
    obtain ⟨msg,rfl,hname⟩ := Hall.action_leaveSession ha
    exact hstay ⟨rfl,hname⟩
  · intro ha
    rw [Hall.action_disconnect ha] at hstay
    exact hstay rfl

/-- In a run of safe events a member of a session that does not leave it stays in it. While nobody
in its room has a `&` in its name, the messages assigned for it, in their order and as libxml2 has
read them, turn any right view of the other members into a right view. -/
theorem notices_mirror {e : List Char → List Char} (he : Expansion e)
    (hrun : (create cfgs).run es = .ok s) (hrest : s.run fs = .ok t)
    (hsafe : Lts.Meets (Lts.Steps step) SafeEvent s fs)
    (hplain : Lts.Meets (Lts.Steps step) (fun u _ => u.hall.PlainRoom d) s fs)
    (hstay : ∀ e ∈ fs, ¬ e.Leaves d) {r : ℤ}
    {rm : CRoom} {k : ℕ} {ss : CSession} (hlive : s.Live r rm k ss) (hd : d ∈ ss.members) :
    ∃ rm' ss' jobs, t.Live r rm' k ss' ∧ d ∈ ss'.members ∧ t.assigned = s.assigned ++ jobs ∧
      ∀ v, s.hall.Shows d ss v → t.hall.Shows d ss' (v.hearAll (CJob.queued e jobs d)) := by
  have ok := Hall.ok_of_run hrun
  obtain ⟨hroom,hkey,hmy⟩ := Hall.mySession_of_mem ok hlive.room hlive.session hd
  have hsid : 0 < (s.clients d).sessionid := by
    have hok := hlive.ok hrun
    rw [show (s.clients d).sessionid = k from hok.sessionid d hd]
    exact Int.natCast_pos.mpr hok.key.1
  have hstep : ∀ (u : CEngine) (ev : Event) (w : CEngine),
      (u.hall.Ok ∧ (∀ c, (u.clients c).Clear) ∧ ∃ jobs, u.assigned = s.assigned ++ jobs ∧
        Hall.Follows s.hall u.hall d (CJob.queued e jobs d)) →
      ((u.SafeEvent ev ∧ u.hall.PlainRoom d) ∧ ¬ ev.Leaves d) → Lts.Steps step u ev w →
      w.hall.Ok ∧ (∀ c, (w.clients c).Clear) ∧ ∃ jobs, w.assigned = s.assigned ++ jobs ∧
        Hall.Follows s.hall w.hall d (CJob.queued e jobs d) := by
    rintro u ev w ⟨ok,hclear,jobs,hjobs,hf⟩ ⟨⟨hev,hp⟩,hst⟩ hw
    obtain ⟨more,hmore,htold⟩ := step_sends ok hclear hw
    have hsid' : 0 < (u.clients d).sessionid := lt_of_lt_of_eq hsid hf.sessionid.symm
    refine ⟨ok.step (step_ok_hall hw),fun c => step_clear hclear hw c,jobs ++ more,?_,?_⟩
    · rw [hmore,hjobs,List.append_assoc]
    · have hboth := hf.trans (step_follows ok hev hst hsid' hw)
      rw [← hp.expanded_told he ok,← htold d] at hboth
      rwa [CJob.queued,CJob.deliveries,List.flatMap_append,List.map_append]
  obtain ⟨ok',-,jobs,hjobs,hf⟩ := (Lts.exec_ok_iff.mp hrest).invariant_of_meets hstep
    ((hsafe.and hplain).and (Lts.meets_of_labels hstay s))
    ⟨ok,run_clear hrun,[],(List.append_nil _).symm,.refl s.hall d⟩
  obtain ⟨ss',hss',hd',hshow⟩ := hf.shows ss hmy hd
  obtain ⟨rm',hrm',hss'⟩ := Option.bind_eq_some_iff.mp hss'
  rw [hf.roomid,hroom] at hrm'
  rw [hf.sessionid,hkey] at hss'
  exact ⟨rm',ss',jobs,⟨hrm',hss'⟩,hd',hjobs,hshow⟩

/-- The second player of a session comes in, and the game begins. -/
theorem notices_mirror_game : ∃ s t rm ss jobs,
    (create [room1]).run (twoPlayers.take 5) = .ok s ∧ s.run (twoPlayers.drop 5) = .ok t ∧
    t.Live 1 rm 2 ss ∧ t.assigned = s.assigned ++ jobs ∧
    t.hall.Shows 1 ss (View.hearAll (fun _ => none) (CJob.queued expand jobs 1)) := by
  obtain ⟨s,t,rm,ss,hrun,hrest,hlive,hmem⟩ : ∃ s t rm ss,
      (create [room1]).run (twoPlayers.take 5) = .ok s ∧ s.run (twoPlayers.drop 5) = .ok t ∧
      s.Live 1 rm 2 ss ∧ ss.members = [1] := ⟨_,_,_,_,rfl,rfl,⟨rfl,rfl⟩,rfl⟩
  have hsafe : Lts.Meets (Lts.Steps step) SafeEvent s (twoPlayers.drop 5) := by
    cases hrun
    refine Lts.meets_cons rfl ?_ (Lts.meets_cons rfl ?_ (Lts.meets_cons rfl ?_ trivial))
    · refine fun _ => ⟨?_,fun hname => absurd hname (by decide)⟩
      rintro - rm ss ⟨hrm,hss⟩
      cases hrm
      cases hss
      exact .inl (Option.some_ne_none 1)
    · intro hst
      cases hst
    · intro hst
      cases hst
  -- The users of the room are alice and bob.
  have hnames : ∀ (es : List Event) {u : CEngine} {rm : CRoom}, (create [room1]).run es = .ok u →
      u.findRoom 1 = some rm → rm.usrlist.toList = [1,2] → (u.clients 1).roomid = 1 →
      u.uname 1 = "alice" → u.uname 2 = "bob" → u.hall.PlainRoom 1 := by
    intro es u rm hu hrm husers hroom halice hbob c hc
    have hin := ((Hall.ok_of_run hu).user 1 rm hrm c).mpr (hc.trans hroom)
    rw [← OrdSet.mem_toList,husers] at hin
    simp only [List.mem_cons,List.not_mem_nil,or_false] at hin
    obtain rfl | rfl := hin
    · rw [show (u.hall.member 1).uname = "alice" from halice]
      decide
    · rw [show (u.hall.member 2).uname = "bob" from hbob]
      decide
  have hplain : Lts.Meets (Lts.Steps step) (fun u _ => u.hall.PlainRoom 1) s
      (twoPlayers.drop 5) := by
    cases hrun
    refine Lts.meets_cons rfl ?_ (Lts.meets_cons rfl ?_ (Lts.meets_cons rfl ?_ trivial))
    · exact hnames (twoPlayers.take 5) rfl rfl rfl rfl rfl rfl
    · exact hnames (twoPlayers.take 6) rfl rfl rfl rfl rfl rfl
    · exact hnames (twoPlayers.take 7) rfl rfl rfl rfl rfl rfl
  have hstay : ∀ e ∈ twoPlayers.drop 5, ¬ e.Leaves 1 := by
    intro e he
    simp only [twoPlayers,arrive,List.cons_append,List.nil_append,List.drop_succ_cons,
      List.drop_zero,List.mem_cons,List.not_mem_nil,or_false] at he
    obtain rfl | rfl | rfl := he <;> exact fun h => absurd h.2 (by decide)
  obtain ⟨rm',ss',jobs,hlive',-,hjobs,hshow⟩ :=
    notices_mirror expansion_expand hrun hrest hsafe hplain hstay hlive (d := 1)
      (by rw [hmem]; decide)
  refine ⟨s,t,rm',ss',jobs,hrun,hrest,hlive',hjobs,hshow _ ⟨fun e he hne => ?_,fun u hu => rfl⟩⟩
  rw [hmem] at he
  exact absurd (List.mem_singleton.mp he) hne

end CEngine
end CcniServer
