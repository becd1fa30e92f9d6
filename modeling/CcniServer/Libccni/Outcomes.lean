import CcniServer.Hall.Membership
import CcniServer.Hall.Replies
import CcniServer.Libccni.Talk
import CcniServer.Wire.Documents

/-!
What a method of the client library reports and what the server did about its request: the
request as the method builds it, the answer of the login job or of the message handlers, and what
the method makes of the answer.
-/
namespace CcniServer
open CXmlMsg

/-! ### The methods of the library -/

/-- The fields of a connection that requests are made of. -/
structure CCNIConnection.Account where
  uname : String
  passwd : String

/-- A method of `CCNIConnection` that sends a request, with its arguments. -/
inductive CCNIConnection.Method
  | login (uname pwd : String)
  | logout
  | ccni
  | state
  | listrooms
  | enterroom (roomid : ℤ)
  | leaveroom
  | listsessions
  | newsession
  | entersession (sessionid : ℤ)
  | watchsession (sessionid : ℤ)
  | leavesession
  | ready

namespace CCNIConnection.Method

def tag : Method → String
  | login _ _ => xmlTagLogin
  | logout => xmlTagLogout
  | ccni => xmlTagCCNI
  | state => xmlTagMyState
  | listrooms => xmlTagListRooms
  | enterroom _ => xmlTagEnterRoom
  | leaveroom => xmlTagLeaveRoom
  | listsessions => xmlTagListSessions
  | newsession => xmlTagNewSession
  | entersession _ => xmlTagEnterSession
  | watchsession _ => xmlTagWatchSession
  | leavesession => xmlTagLeaveSession
  | ready => xmlTagReady

/-- Nothing but `login` sends a login message. -/
theorem tag_eq_login {m : Method} (h : m.tag = xmlTagLogin) : ∃ uname pwd, m = login uname pwd := by
  cases m with
  | login uname pwd => exact ⟨uname,pwd,rfl⟩
  | _ =>
    dsimp only [tag] at h
    exact absurd h (by decide)

/-- The name and the password of `login` and `logout`. -/
def credentials (msg : CXmlNode) (uname pwd : String) : CXmlNode :=
  addParameter (addParameter msg xmlTagUserName uname) xmlTagPassword pwd

/-- The message that a method hands to `talkToServer`. -/
def request (conn : Account) (m : Method) : CXmlNode :=
  let msg := CXmlNode.create m.tag
  match m with
  | login uname pwd => credentials msg uname pwd
  | logout => credentials msg conn.uname conn.passwd
  | enterroom id | entersession id | watchsession id => addIntParameter msg xmlTagId id
  | ccni | state | listrooms | leaveroom | listsessions | newsession | leavesession | ready => msg

/-- The reply to a request, nothing for a failure. -/
def talkToServer (m : Method) (res : Option CXmlNode) : Option CXmlNode :=
  res.filter (fun res => decide (Recognised m.tag res))

/-- The states a client knows, with the names in the replies. -/
def states : List (ℤ × String) :=
  [(0,"Offline"),(0x01,"Online"),(0x02,"Idle"),(0x04,"Sessional"),(0x08,"Ready"),
   (0x10,"Watching"),(0x20,"Moving"),(0x40,"Pondering")]

/-- The mask of a state, the one of `Offline` for a name not in the table. -/
def stateOf (v : String) : ℤ := ((states.find? (fun e => e.2 == v)).map Prod.fst).getD 0

/-- How many children of a node have a name. -/
def countChildren (nd : Option CXmlNode) (n : String) : ℤ :=
  nd.elim 0 (fun nd => (nd.children.countP (CXmlNode.isNamed n) : ℕ))

/-- What a method returns, given what `talkToServer` returned; negative for a failure. -/
def result : Method → Option CXmlNode → ℤ
  | _, none => -1
  | state, some res => stateOf (CXmlNode.getContent
      (CXmlNode.findChild (CXmlNode.findChild (some res) xmlTagMyStateRes) xmlTagState))
  | listrooms, some res => countChildren
      (CXmlNode.findChild (CXmlNode.findChild (some res) xmlTagListRoomsRes) xmlTagRooms) xmlTagRoom
  | listsessions, some res => countChildren
      (CXmlNode.findChild (CXmlNode.findChild (some res) xmlTagListSessionsRes) xmlTagSessions)
      xmlTagSession
  | _, some _ => 0

theorem result_none (m : Method) : m.result none = -1 := by
  cases m <;> rfl

theorem stateOf_nonneg (v : String) : 0 ≤ stateOf v := by
  unfold stateOf
  cases hfound : states.find? (fun e => e.2 == v) with
  | none => exact le_rfl
  | some e =>
    have hall : ∀ e ∈ states, 0 ≤ e.1 := by decide
    exact hall e (List.mem_of_find?_eq_some hfound)

theorem countChildren_nonneg (nd : Option CXmlNode) (n : String) : 0 ≤ countChildren nd n := by
  cases nd with
  | none => exact le_rfl
  | some nd => exact Int.natCast_nonneg _

/-- A method that gets a reply reports no failure. -/
theorem result_some (m : Method) (res : CXmlNode) : 0 ≤ m.result (some res) := by
  cases m with
  | state => exact stateOf_nonneg _
  | listrooms | listsessions => exact countChildren_nonneg _ _
  | _ => exact le_rfl

theorem request_eq (conn : Account) (m : Method) : ∃ cs, m.request conn = .element m.tag cs := by
  cases m <;> exact ⟨_,rfl⟩

end CCNIConnection.Method

/-! ### The server -/

namespace CTcpListener

def loginRes (rcode : ℤ) (info : String) : CXmlNode :=
  addParameter (addIntParameter (CXmlNode.create xmlTagLoginRes) xmlTagReturnCode rcode)
    xmlTagReturnInfo info

/-- The name in a login message. -/
def unameOf (msglogin : CXmlNode) : String :=
  CXmlNode.getContent (CXmlNode.findChild (some msglogin) xmlTagUserName)

/-- `doLogin` with the client object it makes at `c`: the return code and the answer, nothing
where the first message of the connection is no login. -/
def doLogin (s : CEngine) (c : CClientPtr) (udp : CUdpSockDataPtr) (udpaddr : SockaddrIn)
    (root : CXmlNode) : CEngine × Option (ℤ × CXmlNode) :=
  match CXmlNode.findChild (some root) xmlTagLogin with
  | none => (s,none)
  | some msglogin =>
    match s.list.find? (unameOf msglogin) with
    | some _ => (s,some (-2,loginRes (-2) "User already login."))
    | none => (s.login c udp udpaddr (unameOf msglogin),some (0,loginRes 0 "Login success."))

end CTcpListener

/-- What the server makes of a batch: the state after it, the return code of the handler that
ended it, and the reply. A connection may be closed without the two. -/
structure Served where
  engine : CEngine
  code : Option ℤ
  reply : Option CXmlNode

/-- The connection of the client object at `c` has read the document with the given root. Before
its login `doLogin` answers it, if the secret key is that of an address; later the handlers do. -/
def serve (key : Option (CUdpSockDataPtr × SockaddrIn)) (s : CEngine) (c : CClientPtr)
    (root : CXmlNode) : Checked Served :=
  if (s.clients c).ctsk then do
    let res ← CClient.procCodes (CClient.createRes s c) c none root.children
    return ⟨res.1,res.2,some (document (res.1.clients c).resmsg)⟩
  else
    match key with
    | none => .ok ⟨s,none,none⟩
    | some (udp,udpaddr) =>
      let res := CTcpListener.doLogin s c udp udpaddr root
      .ok ⟨res.1,res.2.map Prod.fst,res.2.map (fun ans => document [ans.2])⟩

/-- A request that the server takes: the message is valid in the client's state and its handler
takes it, or it is a login with a key that was given out and a free name. -/
def Accepted (key : Option (CUdpSockDataPtr × SockaddrIn)) (s : CEngine) (c : CClientPtr)
    (root : CXmlNode) : Prop :=
  if (s.clients c).ctsk then ∃ msg ∈ root.children, msg.isElement = true ∧ CClient.Taken s c msg
  else key.isSome ∧ ∃ msg, CXmlNode.findChild (some root) xmlTagLogin = some msg ∧
    s.list.find? (CTcpListener.unameOf msg) = none

/-- The reply to a request that the server takes. -/
def replyTo (s : CEngine) (c : CClientPtr) (m : CCNIConnection.Method) : CXmlNode :=
  if (s.clients c).ctsk then document ((CClient.findHnd m.tag).fn.answer s c)
  else document [CTcpListener.loginRes 0 "Login success."]

/-- A request that the server does not take: it answers a negative code, or it closes the
connection, and the clients, the rooms and the sessions stay as they were. -/
inductive Declined (s : CEngine) (srv : Served) : Prop
  | refused {tag : String} {rcode : ℤ} {rest : List CXmlNode}
      (hrcode : rcode = -1 ∨ rcode = -2 ∨ rcode = -3) (hcode : srv.code = some rcode)
      (hreply : srv.reply = some (document [coded tag rcode rest]))
      (hhall : srv.engine.hall = s.hall)
  | closed (hcode : srv.code = none) (hreply : srv.reply = none)
      (hhall : srv.engine.hall = s.hall)

section
variable {key : Option (CUdpSockDataPtr × SockaddrIn)} {s : CEngine} {c : CClientPtr}
  {m : CCNIConnection.Method} {root msg : CXmlNode} {srv : Served}

theorem only_element (hone : root.children.filter CXmlNode.isElement = [msg]) {nd : CXmlNode}
    (hmem : nd ∈ root.children) (hel : nd.isElement = true) : nd = msg := by
  have hfilter : nd ∈ root.children.filter CXmlNode.isElement := List.mem_filter.mpr ⟨hmem,hel⟩
  rwa [hone,List.mem_singleton] at hfilter

theorem mem_of_only (hone : root.children.filter CXmlNode.isElement = [msg]) :
    msg ∈ root.children ∧ msg.isElement = true :=
  List.mem_filter.mp (hone ▸ List.mem_singleton_self msg)

theorem hall_createRes (s : CEngine) (c : CClientPtr) : (CClient.createRes s c).hall = s.hall :=
  hall_modify_of_member s c _ rfl

theorem resmsg_createRes (s : CEngine) (c : CClientPtr) :
    ((CClient.createRes s c).clients c).resmsg = [] := by
  rw [CClient.createRes,CEngine.clients_modify]

theorem taken_createRes (s : CEngine) (c : CClientPtr) (msg : CXmlNode) :
    CClient.Taken (CClient.createRes s c) c msg ↔ CClient.Taken s c msg := by
  have hstate : ((CClient.createRes s c).clients c).state = (s.clients c).state := by
    rw [CClient.createRes,CEngine.clients_modify]
  rw [CClient.Taken,CClient.Taken,CClient.accepts_congr (hall_createRes s c),hstate]

/-- After the login the batch goes to the handler of its one message. -/
theorem serve_cases_logged (hone : root.children.filter CXmlNode.isElement = [msg])
    (hname : msg.name = m.tag) (hc : (s.clients c).ctsk = true)
    (h : serve key s c root = .ok srv) :
    (Accepted key s c root ∧ srv.code = some 0 ∧ srv.reply = some (replyTo s c m)) ∨
    (¬ Accepted key s c root ∧ Declined s srv) := by
  obtain ⟨hmem,hel⟩ := mem_of_only hone
  unfold serve at h
  rw [if_pos hc] at h
  rw [Accepted,replyTo,if_pos hc,if_pos hc]
  obtain ⟨res,hres,h⟩ := Checked.bind_eq_ok.mp h
  cases h
  rcases CClient.procCodes_one hone hres with ⟨hok,hcode,hresmsg⟩ |
    ⟨hno,hhall,tag,rcode,des,hrcode,hcode,hresmsg⟩
  · left
    refine ⟨⟨msg,hmem,hel,(taken_createRes s c msg).mp hok⟩,hcode,?_⟩
    dsimp only
    rw [hresmsg,resmsg_createRes,List.nil_append,CClient.answer_congr (hall_createRes s c),hname]
  · right
    have hreply : (some (document (res.1.clients c).resmsg)) =
        some (document [coded tag rcode [.element xmlTagDescription [.text des]]]) := by
      rw [hresmsg,resmsg_createRes]
      rfl
    refine ⟨?_,.refused hrcode hcode hreply (hhall.trans (hall_createRes s c))⟩
    intro hacc
    obtain ⟨nd,hnd,hndel,hok⟩ := hacc
    rw [only_element hone hnd hndel] at hok
    exact hno ((taken_createRes s c msg).mpr hok)

/-- Before the login the batch is the login's, whatever its messages are. -/
theorem serve_cases_login (hc : ¬ (s.clients c).ctsk = true) (h : serve key s c root = .ok srv) :
    (Accepted key s c root ∧ srv.code = some 0 ∧ srv.reply = some (replyTo s c m)) ∨
    (¬ Accepted key s c root ∧ Declined s srv) := by
  unfold serve at h
  rw [if_neg hc] at h
  rw [Accepted,replyTo,if_neg hc,if_neg hc]
  cases key with
  | none =>
    cases h
    right
    exact ⟨fun hacc => by simp at hacc,.closed rfl rfl rfl⟩
  | some k =>
    cases hlogin : CXmlNode.findChild (some root) xmlTagLogin with
    | none =>
      simp only [CTcpListener.doLogin,hlogin] at h
      cases h
      right
      exact ⟨fun hacc => by simp at hacc,.closed rfl rfl rfl⟩
    | some nd =>
      cases hfind : s.list.find? (CTcpListener.unameOf nd) with
      | some d =>
        simp only [CTcpListener.doLogin,hlogin,hfind] at h
        cases h
        right
        exact ⟨fun hacc => by simp [hfind] at hacc,.refused (.inr (.inl rfl)) rfl rfl rfl⟩
      | none =>
        simp only [CTcpListener.doLogin,hlogin,hfind] at h
        cases h
        left
        exact ⟨⟨rfl,nd,rfl,hfind⟩,rfl,rfl⟩

/-- A batch of one message is taken and answered, or declined. -/
theorem serve_cases (hone : root.children.filter CXmlNode.isElement = [msg])
    (hname : msg.name = m.tag) (h : serve key s c root = .ok srv) :
    (Accepted key s c root ∧ srv.code = some 0 ∧ srv.reply = some (replyTo s c m)) ∨
    (¬ Accepted key s c root ∧ Declined s srv) := by
  by_cases hc : (s.clients c).ctsk = true
  · exact serve_cases_logged hone hname hc h
  · exact serve_cases_login hc h

/-- The methods that the server answers under their own name: `watchsession` gets the answer of
`entersession`, and there is no handler for a second login. -/
def Understood (s : CEngine) (c : CClientPtr) : CCNIConnection.Method → Prop
  | .login _ _ => (s.clients c).ctsk = false
  | .watchsession _ => False
  | _ => True

theorem replyTo_understood (hone : root.children.filter CXmlNode.isElement = [msg])
    (hname : msg.name = m.tag) (hacc : Accepted key s c root) (h : Understood s c m) :
    ∃ rest, replyTo s c m = document [coded (m.tag ++ xmlTagRes) 0 rest] := by
  unfold Accepted at hacc
  unfold replyTo
  by_cases hc : (s.clients c).ctsk = true
  · rw [if_pos hc] at hacc
    rw [if_pos hc]
    obtain ⟨nd,hnd,hndel,htaken⟩ := hacc
    rw [only_element hone hnd hndel,CClient.Taken,hname] at htaken
    cases m with
    | login uname pwd => exact absurd (hc.symm.trans h) nofun
    | watchsession id => exact h.elim
    | listsessions =>
      obtain ⟨rm,hrm⟩ := Option.isSome_iff_exists.mp htaken.2
      refine ⟨[rm.xmlSessionList s.uname],?_⟩
      have hanswer : CClient.Msghnd.doListSessions.answer s c =
          [CClient.listRes xmlTagListSessionsRes (rm.xmlSessionList s.uname)] := by
        simp [CClient.Msghnd.answer,hrm]
      exact congrArg document hanswer
    | _ => exact ⟨_,rfl⟩
  · rw [if_neg hc] at hacc
    rw [if_neg hc]
    obtain ⟨-,nd,hnd,-⟩ := hacc
    have hfound := List.find?_some hnd
    simp only [CXmlNode.isNamed,Bool.and_eq_true,beq_iff_eq] at hfound
    have hmem : nd ∈ root.children := List.mem_of_find?_eq_some hnd
    rw [only_element hone hmem hfound.1,hname] at hfound
    obtain ⟨uname,pwd,rfl⟩ := CCNIConnection.Method.tag_eq_login hfound.2
    exact ⟨_,rfl⟩

theorem replyTo_not_understood (h : ¬ Understood s c m) :
    CXmlNode.findChild (some (replyTo s c m)) (m.tag ++ xmlTagRes) = none := by
  unfold replyTo
  cases m with
  | login uname pwd =>
    rw [if_pos (by simpa [Understood] using h)]
    rfl
  | watchsession id =>
    split_ifs
    · rfl
    · rfl
  | _ => exact absurd trivial h

end

/-! ### What the library makes of the reply -/

namespace CCNIConnection

theorem Recognised.findChild {tag : String} {d d' : CXmlNode} (hread : Reread d d')
    (h : Recognised tag d') : (CXmlNode.findChild (some d) (tag ++ xmlTagRes)).isSome := by
  obtain ⟨rgmsg,hfound,-⟩ := h
  have hrel := hread.findChild (tag ++ xmlTagRes)
  rw [hfound] at hrel
  generalize CXmlNode.findChild (some d) (tag ++ xmlTagRes) = found at hrel
  cases hrel with
  | some _ => exact rfl

/-- An answer is recognised by its name and the return code zero. -/
theorem recognised_iff {msg tag : String} {code : ℤ} {rest : List CXmlNode} {d' : CXmlNode}
    (hread : Reread (document [coded tag code rest]) d') :
    Recognised msg d' ↔ tag = msg ++ xmlTagRes ∧ (Scan.scanInt (toString code)).getD 0 = 0 := by
  have hrel := hread.findChild (msg ++ xmlTagRes)
  by_cases htag : tag = msg ++ xmlTagRes
  · have hhead : CXmlNode.findChild (some (document [coded tag code rest])) (msg ++ xmlTagRes) =
        some (coded tag code rest) := by
      simp [CXmlNode.findChild,document,CXmlNode.children,coded,CXmlNode.isNamed,
        CXmlNode.isElement,CXmlNode.name,htag]
    rw [hhead] at hrel
    simp only [Recognised,htag,true_and]
    generalize CXmlNode.findChild (some d') (msg ++ xmlTagRes) = found at hrel
    cases hrel with
    | some hread => simp [hread.returnCode]
  · have hnone : CXmlNode.findChild (some (document [coded tag code rest])) (msg ++ xmlTagRes) =
        none := by
      simp [CXmlNode.findChild,document,CXmlNode.children,coded,CXmlNode.isNamed,
        CXmlNode.isElement,CXmlNode.name,htag]
    refine ⟨fun h => ?_,fun h => absurd h.1 htag⟩
    have hsome := h.findChild hread
    rw [hnone] at hsome
    cases hsome

/-- No negative code is taken for a success. -/
theorem scanInt_negative {code : ℤ} (h : code = -1 ∨ code = -2 ∨ code = -3) :
    (Scan.scanInt (toString code)).getD 0 ≠ 0 := by
  rcases h with rfl | rfl | rfl <;> decide

/-- The library and the server agree on the outcome of a request: a method succeeds where the
handler returned zero and fails where it returned a negative code, and after a failure the clients,
the rooms and the sessions of the server are as before. -/
structure Agree (m : Method) (s : CEngine) (srv : Served) (res : Option CXmlNode) : Prop where
  success : srv.code = some 0 → res.isSome ∧ 0 ≤ m.result res
  failure : ∀ code, srv.code = some code → code < 0 → m.result res < 0
  unchanged : m.result res < 0 → srv.engine.hall = s.hall

/-- Agreement comes down to the replies to the requests that the server takes. -/
theorem agree_iff {m : Method} {s : CEngine} {srv : Served} {accepted : Prop}
    {res : Option CXmlNode}
    (hcases : (accepted ∧ srv.code = some 0) ∨ (¬ accepted ∧ Declined s srv))
    (hdeclined : ¬ accepted → res = none) :
    Agree m s srv res ↔ (accepted → res.isSome) := by
  rcases hcases with ⟨hacc,hcode⟩ | ⟨hacc,hdecl⟩
  · refine ⟨fun h _ => (h.success hcode).1,fun h => ?_⟩
    obtain ⟨root,hroot⟩ := Option.isSome_iff_exists.mp (h hacc)
    have hpos := m.result_some root
    rw [hroot]
    refine ⟨fun _ => ⟨rfl,hpos⟩,fun code hcode' hneg => ?_,fun hneg => ?_⟩
    · rw [hcode,Option.some_inj] at hcode'
      omega
    · omega
  · refine ⟨fun _ h => absurd h hacc,fun _ => ?_⟩
    rw [hdeclined hacc]
    have hfails : m.result none < 0 := by
      rw [m.result_none]
      exact neg_one_lt_zero
    refine ⟨fun hzero => ?_,fun _ _ _ => hfails,fun _ => ?_⟩
    · cases hdecl with
      | refused hrcode hcode _ _ =>
        rw [hcode,Option.some_inj] at hzero
        omega
      | closed hcode _ _ =>
        rw [hcode] at hzero
        cases hzero
    · cases hdecl with
      | refused _ _ _ hhall => exact hhall
      | closed _ _ hhall => exact hhall

/-- The only message in the document of a request, as the server reads it. -/
theorem request_read {m : Method} {conn : Account} {root : CXmlNode}
    (hread : Reread (document [m.request conn]) root) :
    ∃ msg, root.children.filter CXmlNode.isElement = [msg] ∧ msg.name = m.tag := by
  obtain ⟨cs,hreq⟩ := m.request_eq conn
  rw [hreq,document] at hread
  cases hread with
  | @element n cs cs' helements hnumber =>
    rw [List.filter_cons_of_pos rfl,List.filter_nil] at helements
    obtain ⟨msg,rest,hmsg,hrest,hfilter⟩ := List.forall₂_cons_left_iff.mp helements
    rw [List.forall₂_nil_left_iff.mp hrest] at hfilter
    exact ⟨msg,hfilter,hmsg.name⟩

theorem talkToServer_isSome {m : Method} {res : Option CXmlNode} :
    (m.talkToServer res).isSome ↔ ∃ root, res = some root ∧ Recognised m.tag root := by
  cases res with
  | none => simp [Method.talkToServer]
  | some root => simp [Method.talkToServer,Option.filter_some]

section
variable {dump : CXmlNode → List UInt8} {createFromXmlCdata : List UInt8 → Option CXmlNode}
  {seq udata : UInt32} {k1 k2 : UInt64} {sock : Sock} {n : ℕ}

/-- A negative answer is no success. -/
theorem declined_fails {m : Method} {s : CEngine} {srv : Served} (h : Declined s srv)
    (hreply : ∀ d, srv.reply = some d → Carries dump createFromXmlCdata d ∧ Delivers
      (CCNIMsgPacker.new.pack (some (dump d)) seq udata k1 k2).2.frame sock)
    (hn : sock.recvs.length ≤ n) :
    m.talkToServer (srv.reply.bind (fun _ => received createFromXmlCdata n sock)) =
      none := by
  cases h with
  | closed _ hclosed _ =>
    rw [hclosed]
    rfl
  | @refused tag rcode rest hrcode _ hrefused _ =>
    obtain ⟨hcarries,hdelivers⟩ := hreply _ hrefused
    rw [hrefused,Option.bind_some,received_eq hcarries hdelivers hn,← Option.not_isSome_iff_eq_none,
      talkToServer_isSome]
    rintro ⟨root,hroot,hrec⟩
    split_ifs at hroot
    have hzero := ((recognised_iff (hcarries.reread root hroot)).mp hrec).2
    exact scanInt_negative hrcode hzero

/-- The success answer is recognised where it is understood and can be read. -/
theorem answer_isSome_iff {m : Method} {s : CEngine} {c : CClientPtr}
    {msgs : List CXmlNode} (hmsgs : replyTo s c m = document msgs)
    (hcarries : Carries dump createFromXmlCdata (document msgs))
    (hdelivers : Delivers
      (CCNIMsgPacker.new.pack (some (dump (document msgs))) seq udata k1 k2).2.frame sock)
    (hn : sock.recvs.length ≤ n)
    (hunderstood : Understood s c m → ∃ rest, document msgs =
      document [coded (m.tag ++ xmlTagRes) 0 rest]) :
    (m.talkToServer (received createFromXmlCdata n sock)).isSome ↔
      Understood s c m ∧ seq ≠ 0 ∧ Legible dump createFromXmlCdata (document msgs) := by
  rw [talkToServer_isSome,received_eq hcarries hdelivers hn]
  constructor
  · rintro ⟨root,hroot,hrec⟩
    split_ifs at hroot with hread
    refine ⟨?_,hread.1,hread.2,Option.isSome_iff_exists.mpr ⟨root,hroot⟩⟩
    by_contra hnot
    have hsome := hrec.findChild (hcarries.reread root hroot)
    rw [← hmsgs,replyTo_not_understood hnot] at hsome
    cases hsome
  · intro h
    obtain ⟨hund,hseq,hlen,hsome⟩ := h
    obtain ⟨rest,hrest⟩ := hunderstood hund
    obtain ⟨root,hroot⟩ := Option.isSome_iff_exists.mp hsome
    refine ⟨root,by rw [if_pos ⟨hseq,hlen⟩,hroot],?_⟩
    have hreread := hcarries.reread root hroot
    rw [hrest] at hreread
    exact (recognised_iff hreread).mpr ⟨rfl,by decide⟩

end

/-- A method has sent its request, the server has read it and served the client, and the frame of
the reply is on its way to the library. -/
structure Exchanged (dump : CXmlNode → List UInt8)
    (createFromXmlCdata : List UInt8 → Option CXmlNode)
    (key : Option (CUdpSockDataPtr × SockaddrIn)) (s : CEngine) (c : CClientPtr) (conn : Account)
    (m : Method) (root : CXmlNode) (srv : Served) (seq udata : UInt32) (k1 k2 : UInt64)
    (sock : Sock) (n : ℕ) : Prop where
  request : Carries dump createFromXmlCdata (document [m.request conn])
  read : createFromXmlCdata (dump (document [m.request conn])) = some root
  served : serve key s c root = .ok srv
  reply : ∀ d, srv.reply = some d → Carries dump createFromXmlCdata d ∧ Delivers
    (CCNIMsgPacker.new.pack (some (dump d)) seq udata k1 k2).2.frame sock
  enough : sock.recvs.length ≤ n

/-- What `talkToServer` returns to a method. -/
def replyOf (createFromXmlCdata : List UInt8 → Option CXmlNode) (m : Method) (srv : Served)
    (sock : Sock) (n : ℕ) : Option CXmlNode :=
  m.talkToServer (srv.reply.bind (fun _ => received createFromXmlCdata n sock))

/-- Library and server agree on a request if and only if the server does not take it, or its
answer has the name that the library looks for and arrives as a document: it has a sequence number
and a text that a parser takes and libxml2 reads. -/
theorem outcomes_agree_iff (dump : CXmlNode → List UInt8)
    (createFromXmlCdata : List UInt8 → Option CXmlNode)
    (key : Option (CUdpSockDataPtr × SockaddrIn)) (s : CEngine) (c : CClientPtr) (conn : Account)
    (m : Method) (root : CXmlNode) (srv : Served) (seq udata : UInt32) (k1 k2 : UInt64)
    (sock : Sock) (n : ℕ)
    (h : Exchanged dump createFromXmlCdata key s c conn m root srv seq udata k1 k2 sock n) :
    Agree m s srv (replyOf createFromXmlCdata m srv sock n) ↔
      (Accepted key s c root →
        Understood s c m ∧ seq ≠ 0 ∧ Legible dump createFromXmlCdata (replyTo s c m)) := by
  obtain ⟨msg,hone,hname⟩ := request_read (h.request.reread root h.read)
  have hcases := serve_cases hone hname h.served
  have hagree : Agree m s srv (replyOf createFromXmlCdata m srv sock n) ↔
      (Accepted key s c root → (replyOf createFromXmlCdata m srv sock n).isSome) := by
    refine agree_iff (hcases.imp_left (fun h => ⟨h.1,h.2.1⟩)) fun hacc => ?_
    have hdecl := hcases.resolve_left (fun h => hacc h.1)
    exact declined_fails hdecl.2 h.reply h.enough
  rw [hagree]
  refine forall_congr' fun hacc => ?_
  obtain ⟨-,-,hsrv⟩ := hcases.resolve_right (fun h => h.1 hacc)
  obtain ⟨hcarries,hdelivers⟩ := h.reply _ hsrv
  obtain ⟨msgs,hmsgs⟩ : ∃ msgs, replyTo s c m = document msgs := by
    unfold replyTo
    split_ifs <;> exact ⟨_,rfl⟩
  rw [replyOf,hsrv,Option.bind_some,hmsgs]
  rw [hmsgs] at hcarries hdelivers
  refine answer_isSome_iff hmsgs hcarries hdelivers h.enough fun hund => ?_
  rw [← hmsgs]
  exact replyTo_understood hone hname hacc hund

/-! ### Two exchanges -/

def ascii (s : String) : List UInt8 := s.toList.map (fun ch => UInt8.ofNat ch.toNat)

/-- The text of a document of one message. -/
def formatted (tag : String) (params : List (String × String)) : List UInt8 :=
  (["<?xml version=","\"1.0\""," encoding=","\"UTF-8\"","?>\n","<CCNIMessages>\n","  <",tag,">"] ++
    params.flatMap (fun p => ["\n    <",p.1,">",p.2,"</",p.1,">"]) ++
    ["\n  </",tag,">\n","</CCNIMessages>\n"]).flatMap ascii

def param (p : String × String) : CXmlNode := .element p.1 [.text p.2]

def message (tag : String) (params : List (String × String)) : CXmlNode :=
  document [.element tag (params.map param)]

/-- The document of one message with the blanks of its text. -/
def laidOut (tag : String) (params : List (String × String)) : CXmlNode :=
  document [.text "\n  ",.element tag
    (params.flatMap (fun p => [CXmlNode.text "\n    ",param p]) ++ [.text "\n  "]),.text "\n"]

theorem reread_laidOut (tag : String) (params : List (String × String)) (hne : params ≠ []) :
    Reread (message tag params) (laidOut tag params) := by
  have hparam : ∀ p, Reread (param p) (param p) := by
    intro p
    exact .element (by simp [CXmlNode.isElement]) (fun _ h => h)
  have hparams : ∀ ps : List (String × String), List.Forall₂ Reread
      ((ps.map param).filter CXmlNode.isElement)
      ((ps.flatMap (fun p => [CXmlNode.text "\n    ",param p]) ++
        [CXmlNode.text "\n  "]).filter CXmlNode.isElement) := by
    intro ps
    induction ps with
    | nil => exact .nil
    | cons p ps ih => exact .cons (hparam p) ih
  refine .element (.cons (.element (hparams params) fun i h => ?_) .nil) fun i h => ?_
  · cases params with
    | nil => exact absurd rfl hne
    | cons p ps => simp [param] at h
  · cases h

/-- The reader of some texts. -/
def known (texts : List (List UInt8 × CXmlNode)) (text : List UInt8) : Option CXmlNode :=
  (texts.find? (fun e => e.1 == text)).map Prod.snd

theorem carries_known {texts : List (List UInt8 × CXmlNode)} {dump : CXmlNode → List UInt8}
    {d d' : CXmlNode} (hd' : known texts (dump d) = some d') (hread : Reread d d')
    (hne : dump d ≠ []) (hfront : ∀ e ∈ texts, e.1 <+: dump d → e.1 = dump d) :
    Carries dump (known texts) d := by
  refine ⟨hne,fun n hn => ?_,fun root hroot => ?_⟩
  · have hnone : texts.find? (fun e => e.1 == (dump d).take n) = none := by
      rw [List.find?_eq_none]
      intro e he heq
      have htake := beq_iff_eq.mp heq
      have hsame := hfront e he (htake ▸ List.take_prefix n (dump d))
      have hlen := congrArg List.length (hsame.symm.trans htake)
      rw [List.length_take] at hlen
      omega
    rw [known,hnone,Option.map_none]
  · rw [hd',Option.some_inj] at hroot
    exact hroot ▸ hread

/-- A request with an id and its answer, each with its parameters. -/
structure Sample where
  tag : String
  id : String
  res : String
  des : String

namespace Sample

def params (x : Sample) : List (String × String) := [(xmlTagId,x.id)]

def resParams (x : Sample) : List (String × String) :=
  [(xmlTagReturnCode,"0"),(xmlTagDescription,x.des)]

def dump (x : Sample) (d : CXmlNode) : List UInt8 :=
  if (CXmlNode.findChild (some d) x.tag).isSome then formatted x.tag x.params
  else formatted x.res x.resParams

def texts (x : Sample) : List (List UInt8 × CXmlNode) :=
  [(formatted x.tag x.params,laidOut x.tag x.params),
   (formatted x.res x.resParams,laidOut x.res x.resParams)]

/-- The answer as it arrives at the library. -/
def sock (x : Sample) : Sock :=
  .stream (CCNIMsgPacker.new.pack (some (formatted x.res x.resParams)) 7 0 0 0).2.frame

/-- Neither text begins with the other one. -/
def Apart (x : Sample) : Prop :=
  ¬ formatted x.tag x.params <+: formatted x.res x.resParams ∧
    ¬ formatted x.res x.resParams <+: formatted x.tag x.params

theorem formatted_ne (tag : String) (params : List (String × String)) :
    formatted tag params ≠ [] := by
  have hfirst : ascii "<?xml version=" ≠ [] := by decide
  intro h
  have hall := List.flatMap_eq_nil_iff.mp h
  exact hfirst (hall _ List.mem_cons_self)

theorem dump_request (x : Sample) :
    x.dump (message x.tag x.params) = formatted x.tag x.params := by
  rw [dump,if_pos]
  simp [message,document,CXmlNode.findChild,CXmlNode.children,CXmlNode.isNamed,
    CXmlNode.isElement,CXmlNode.name]

theorem dump_answer {x : Sample} (h : x.res ≠ x.tag) :
    x.dump (message x.res x.resParams) = formatted x.res x.resParams := by
  rw [dump,if_neg]
  simp [message,document,CXmlNode.findChild,CXmlNode.children,CXmlNode.isNamed,
    CXmlNode.isElement,CXmlNode.name,h]

theorem carries_request {x : Sample} (hapart : x.Apart) :
    Carries x.dump (known x.texts) (message x.tag x.params) ∧
      known x.texts (x.dump (message x.tag x.params)) = some (laidOut x.tag x.params) := by
  have hread : known x.texts (x.dump (message x.tag x.params)) =
      some (laidOut x.tag x.params) := by
    simp [dump_request,known,texts]
  refine ⟨carries_known hread (reread_laidOut _ _ (List.cons_ne_nil _ _)) ?_ ?_,hread⟩
  · rw [dump_request]
    exact formatted_ne _ _
  · intro e he hfront
    rw [dump_request] at hfront ⊢
    rcases List.mem_pair.mp he with rfl | rfl
    · rfl
    · exact absurd hfront hapart.2

theorem carries_answer {x : Sample} (hapart : x.Apart) (htag : x.res ≠ x.tag) :
    Carries x.dump (known x.texts) (message x.res x.resParams) ∧
      known x.texts (x.dump (message x.res x.resParams)) = some (laidOut x.res x.resParams) := by
  have hne : formatted x.tag x.params ≠ formatted x.res x.resParams := by
    intro h
    exact hapart.1 (h ▸ List.prefix_rfl)
  have hread : known x.texts (x.dump (message x.res x.resParams)) =
      some (laidOut x.res x.resParams) := by
    simp [dump_answer htag,known,texts,hne]
  refine ⟨carries_known hread (reread_laidOut _ _ (List.cons_ne_nil _ _)) ?_ ?_,hread⟩
  · rw [dump_answer htag]
    exact formatted_ne _ _
  · intro e he hfront
    rw [dump_answer htag] at hfront ⊢
    rcases List.mem_pair.mp he with rfl | rfl
    · exact absurd hfront hapart.1
    · rfl

/-- The exchange of a method whose request and answer are the two messages. -/
theorem exchanged {x : Sample} (hapart : x.Apart) (htag : x.res ≠ x.tag) {m : Method}
    {conn : Account} (hrequest : document [m.request conn] = message x.tag x.params)
    {key : Option (CUdpSockDataPtr × SockaddrIn)} {s : CEngine} {c : CClientPtr} {srv : Served}
    (hserve : serve key s c (laidOut x.tag x.params) = .ok srv)
    (hreply : srv.reply = some (message x.res x.resParams)) :
    Exchanged x.dump (known x.texts) key s c conn m (laidOut x.tag x.params) srv 7 0 0 0 x.sock
      x.sock.recvs.length := by
  have hcarries := carries_request hapart
  refine ⟨hrequest ▸ hcarries.1,hrequest ▸ hcarries.2,hserve,fun d hd => ?_,le_rfl⟩
  rw [hreply,Option.some_inj] at hd
  rw [← hd]
  refine ⟨(carries_answer hapart htag).1,?_⟩
  rw [dump_answer htag]
  exact delivers_stream _

end Sample

open CEngine

def enterSample : Sample := ⟨xmlTagEnterRoom,"1",xmlTagEnterRoomRes,"enter room success"⟩

theorem enterSample_apart : enterSample.Apart := by
  constructor <;> decide +kernel

/-- Alice enters the only room, and both sides know it. -/
theorem enterroom_agrees : ∃ s srv,
    (create [room1]).run [.login 1 0 ⟨0,0⟩ "alice"] = .ok s ∧
    serve none s 1 (laidOut enterSample.tag enterSample.params) = .ok srv ∧
    Agree (.enterroom 1) s srv (replyOf (known enterSample.texts) (.enterroom 1) srv
      enterSample.sock enterSample.sock.recvs.length) := by
  obtain ⟨s,srv,hrun,hserve,hreply,hto⟩ : ∃ s srv,
      (create [room1]).run [.login 1 0 ⟨0,0⟩ "alice"] = .ok s ∧
      serve none s 1 (laidOut enterSample.tag enterSample.params) = .ok srv ∧
      srv.reply = some (message enterSample.res enterSample.resParams) ∧
      replyTo s 1 (.enterroom 1) = message enterSample.res enterSample.resParams :=
    ⟨_,_,rfl,rfl,rfl,rfl⟩
  have htag : enterSample.res ≠ enterSample.tag := by decide
  have hanswer := Sample.carries_answer enterSample_apart htag
  refine ⟨s,srv,hrun,hserve,?_⟩
  refine (outcomes_agree_iff enterSample.dump (known enterSample.texts) none s 1 ⟨"",""⟩
    (.enterroom 1) _ srv 7 0 0 0 enterSample.sock _
    (Sample.exchanged enterSample_apart htag rfl hserve hreply)).mpr fun _ => ?_
  refine ⟨trivial,by decide,?_⟩
  rw [hto]
  refine ⟨?_,by rw [hanswer.2]; rfl⟩
  rw [Sample.dump_answer htag]
  decide +kernel

def watchSample : Sample :=
  ⟨xmlTagWatchSession,"2",xmlTagEnterSessionRes,"watch session success"⟩

theorem watchSample_apart : watchSample.Apart := by
  constructor <;> decide +kernel

/-- Bob watches the session of alice, and the library reports a failure. -/
theorem watchsession_fails : ∃ s srv,
    (create [room1]).run (arrive 1 "alice" ++ arrive 2 "bob" ++
      [.request 1 (requestOf xmlTagNewSession "")]) = .ok s ∧
    Exchanged watchSample.dump (known watchSample.texts) none s 2 ⟨"",""⟩ (.watchsession 2)
      (laidOut watchSample.tag watchSample.params) srv 7 0 0 0 watchSample.sock
      watchSample.sock.recvs.length ∧
    (s.clients 2).state = .stIdle ∧ (srv.engine.clients 2).state = .stWatching ∧
    ¬ Agree (.watchsession 2) s srv (replyOf (known watchSample.texts) (.watchsession 2) srv
      watchSample.sock watchSample.sock.recvs.length) := by
  obtain ⟨s,srv,hrun,hserve,hreply,hcode,hidle,hwatching⟩ : ∃ s srv,
      (create [room1]).run (arrive 1 "alice" ++ arrive 2 "bob" ++
        [.request 1 (requestOf xmlTagNewSession "")]) = .ok s ∧
      serve none s 2 (laidOut watchSample.tag watchSample.params) = .ok srv ∧
      srv.reply = some (message watchSample.res watchSample.resParams) ∧
      srv.code = some 0 ∧ (s.clients 2).state = .stIdle ∧
      (srv.engine.clients 2).state = .stWatching := ⟨_,_,rfl,rfl,rfl,rfl,rfl,rfl⟩
  have htag : watchSample.res ≠ watchSample.tag := by decide
  have hex : Exchanged watchSample.dump (known watchSample.texts) none s 2 ⟨"",""⟩
      (.watchsession 2) _ srv 7 0 0 0 watchSample.sock watchSample.sock.recvs.length :=
    Sample.exchanged watchSample_apart htag rfl hserve hreply
  refine ⟨s,srv,hrun,hex,hidle,hwatching,fun hagree => ?_⟩
  have hsome := (hagree.success hcode).1
  rw [replyOf,talkToServer_isSome,hreply,Option.bind_some] at hsome
  obtain ⟨root,hroot,hrec⟩ := hsome
  obtain ⟨hcarries,hdelivers⟩ := hex.reply _ hreply
  rw [received_eq hcarries hdelivers le_rfl] at hroot
  split_ifs at hroot
  have hfound := hrec.findChild (hcarries.reread root hroot)
  exact absurd hfound (by decide)

end CCNIConnection

end CcniServer
