import CcniServer.Hall.Identity
import CcniServer.Keys.UdpJob
import Mathlib.Data.Set.Function

/-!
The way into the server. A job of the UDP listener hands out a key to an address; a job of the TCP
listener redeems the key that its connection brings, and makes a client that is reached at that
address. Other jobs, requests of clients and broken lines come in between at every step.
-/
namespace CcniServer

/-- The next step of `CTcpJob::run`, with those of `doLogin`. -/
inductive Server.Next
  | verifykey
  | parse
  | findClient
  | block_send (code : ℤ)
  | addClient
  | done
  deriving DecidableEq

/-- A job of the TCP listener, with `udp` and `udpaddr` once `verifykey` has set them. -/
structure Server.TcpJob where
  next : Server.Next
  udp : Option (CUdpSockDataPtr × SockaddrIn)
  deriving DecidableEq

/-- The keys and the jobs that hand them out, the jobs that log connections in, and the engine. -/
structure Server where
  udp : UdpJobs
  tcp : ℕ → Server.TcpJob
  engine : CEngine

namespace Server

/-- `sent` is the answer of `sendto`, and `c` the address at which `new CClient` makes its
object, where these come next. -/
inductive Event
  | udp (j : ℕ) (sent : Bool)
  | time (now : ℤ)
  | tcp (n : ℕ) (c : CClientPtr)
  | frame (c : CClientPtr)
  | request (c : CClientPtr) (msg : CXmlNode)
  | disconnect (c : CClientPtr)

inductive Undefined
  | udp (u : UdpJobs.Undefined)
  | assertion (a : Assertion)

def start (secret_timeout : UInt32) (now : ℤ) (cfgs : List CRoomConfig) : Server :=
  ⟨.start secret_timeout now,fun _ => ⟨.verifykey,none⟩,.create cfgs⟩

def setTcp (s : Server) (n : ℕ) (job : TcpJob) : Server :=
  { s with tcp := Function.update s.tcp n job }

variable (key : ℕ → CSecretKey) (sock : ℕ → CUdpSockDataPtr) (addr : ℕ → SockaddrIn)
variable (secret : ℕ → CSecretKey) (peerip : ℕ → UInt32) (login : ℕ → Option String)

/-- The next step of the job of a connection. Its first frame has the key and, where it can be
parsed and has a login message, the user name. -/
def run (s : Server) (n : ℕ) (c : CClientPtr) : Server :=
  let job := s.tcp n
  match job.next with
  | .verifykey =>
    let (used,m) := s.udp.smap.verifykey (secret n) (peerip n)
    { s with udp := { s.udp with smap := m } }.setTcp n
      ⟨if used.isSome then .parse else .done,used.map fun item : CItem => (item.udp,item.addr)⟩
  | .parse => s.setTcp n { job with next := if (login n).isSome then .findClient else .done }
  | .findClient =>
    let found := (login n).bind s.engine.list.find?
    s.setTcp n { job with next := .block_send (if found.isSome then -2 else 0) }
  | .block_send code => s.setTcp n { job with next := if code = 0 then .addClient else .done }
  | .addClient =>
    match login n,job.udp with
    | some uname,some (udp,udpaddr) =>
      -- `new` does not answer the address of an object that is in use.
      if (s.engine.clients c).ctsk then s
      else { s with engine := s.engine.login c udp udpaddr uname }.setTcp n { job with next := .done }
    | _,_ => s
  | .done => s

def engineStep (s : Server) (e : CcniServer.Event) : Except Undefined Server :=
  match s.engine.step e with
  | .ok engine => .ok { s with engine := engine }
  | .error a => .error (.assertion a)

def step (s : Server) : Event → Except Undefined Server
  | .udp j sent =>
    match UdpJobs.run key sock addr s.udp j sent with
    | .ok udp => .ok { s with udp := udp }
    | .error u => .error (.udp u)
  | .time now => .ok { s with udp := { s.udp with now := now } }
  | .tcp n c => .ok (run secret peerip login s n c)
  | .frame c => s.engineStep (.frame c)
  | .request c msg => s.engineStep (.request c msg)
  | .disconnect c => s.engineStep (.disconnect c)

/-! ### Who was let in -/

/-- The job whose key a step puts into the map. -/
def inserted (s : Server) : Event → Option ℕ
  | .udp j _ =>
    if s.udp.next j = .insert ∧ (s.udp.smap.insert s.udp.now (key j) (sock j) (addr j)).1 = true
    then some j else none
  | .time _ => none
  | .tcp .. => none
  | .frame _ => none
  | .request .. => none
  | .disconnect _ => none

/-- The client has a task: it is served. -/
def Served (s : Server) (c : CClientPtr) : Prop := (s.engine.clients c).ctsk = true

/-- The connection has redeemed its key. -/
def Redeemed (s : Server) (n : ℕ) : Prop := (s.tcp n).udp.isSome = true

/-- Every served client has a connection of its own with its name, and every connection that
redeemed a key has a job of its own that had inserted this key, for an address of the same host;
the client is reached at this address, over the socket of the job. -/
structure Admitted (s : Server) (handed : List ℕ) (conn : CClientPtr → ℕ) (job : ℕ → ℕ) :
    Prop where
  conn_inj : Set.InjOn conn {c | s.Served c}
  job_inj : Set.InjOn job {n | s.Redeemed n}
  redeemed : ∀ c, s.Served c → s.Redeemed (conn c)
  uname : ∀ c, s.Served c → login (conn c) = some (s.engine.clients c).uname
  handed : ∀ n, s.Redeemed n → job n ∈ handed
  key : ∀ n, s.Redeemed n → key (job n) = secret n
  host : ∀ n, s.Redeemed n → (addr (job n)).sin_addr = peerip n
  udp : ∀ c, s.Served c → (s.engine.clients c).udp = sock (job (conn c))
  udpaddr : ∀ c, s.Served c → (s.engine.clients c).udpaddr = addr (job (conn c))

/-- An entry of the map comes from a job, its owner, that no connection has redeemed. -/
structure Inv (s : Server) (handed : List ℕ) (conn : CClientPtr → ℕ) (job : ℕ → ℕ)
    (owner : CSecretKey → ℕ) : Prop where
  begun : ∀ j ∈ handed, s.udp.next j ≠ .insert
  unverified : ∀ n, (s.tcp n).next = .verifykey → (s.tcp n).udp = none
  redeemed : ∀ n u a, (s.tcp n).udp = some (u,a) → job n ∈ handed ∧
    key (job n) = secret n ∧ a.sin_addr = peerip n ∧ u = sock (job n) ∧ a = addr (job n)
  job_inj : ∀ n m, s.Redeemed n → s.Redeemed m → job n = job m → n = m
  entries : ∀ k item, s.udp.smap.map.find? k = some item → owner k ∈ handed ∧
    key (owner k) = k ∧ item.udp = sock (owner k) ∧ item.addr = addr (owner k) ∧
    ∀ n, s.Redeemed n → job n ≠ owner k
  clients : ∀ c, s.Served c → (s.tcp (conn c)).next = .done ∧
    (s.tcp (conn c)).udp = some ((s.engine.clients c).udp,(s.engine.clients c).udpaddr) ∧
    login (conn c) = some (s.engine.clients c).uname
  conn_inj : ∀ c d, s.Served c → s.Served d → conn c = conn d → c = d

end Server

/-- What a job of the UDP listener does to the map: it makes the entry of its key, or none. -/
theorem UdpJobs.run_entries {key : ℕ → CSecretKey} {sock : ℕ → CUdpSockDataPtr}
    {addr : ℕ → SockaddrIn} {s t : UdpJobs} {j : ℕ} {sent : Bool}
    (h : run key sock addr s j sent = .ok t) :
    (∀ i, i = j ∨ s.next i ≠ .insert → t.next i ≠ .insert) ∧
      ((∀ k item, t.smap.map.find? k = some item → s.smap.map.find? k = some item) ∨
        (s.next j = .insert ∧ (s.smap.insert s.now (key j) (sock j) (addr j)).1 = true) ∧
        ∀ k item, t.smap.map.find? k = some item →
          if k = key j then item.udp = sock j ∧ item.addr = addr j
          else s.smap.map.find? k = some item) := by
  obtain ⟨hothers,hself,-⟩ := run_ok h
  refine ⟨fun i hi => ?_,?_⟩
  · by_cases hij : i = j
    · exact hij ▸ hself
    · rw [hothers i hij]
      exact hi.resolve_left hij
  unfold run at h
  cases hnext : s.next j with
  | insert =>
    cases hins : s.smap.insert s.now (key j) (sock j) (addr j) with
    | mk ok m =>
      simp only [hnext,hins] at h
      cases h
      cases ok with
      | false =>
        obtain ⟨rfl,-⟩ := CSecKeyMap.insert_false hins
        exact .inl fun k item hk => (CSecKeyMap.find?_sweep.mp hk).1
      | true =>
        obtain ⟨rfl,-⟩ := CSecKeyMap.insert_true hins
        refine .inr ⟨⟨rfl,rfl⟩,fun k item hk => ?_⟩
        change ((s.smap.sweep s.now).map.insert (key j) _).find? k = some item at hk
        rw [OrdMap.find?_insert] at hk
        split_ifs at hk ⊢ with hkey
        · cases hk
          exact ⟨rfl,rfl⟩
        · exact (CSecKeyMap.find?_sweep.mp hk).1
  | sendto =>
    simp only [hnext] at h
    cases h
    exact .inl fun k item hk => hk
  | remove =>
    cases hremove : s.smap.remove (key j) with
    | none => simp [hnext,hremove] at h
    | some m =>
      simp only [hnext,hremove] at h
      cases h
      obtain ⟨-,rfl⟩ := CSecKeyMap.remove_eq_some.mp hremove
      refine .inl fun k item hk => ?_
      change (s.smap.map.erase (key j)).find? k = some item at hk
      rw [OrdMap.find?_erase] at hk
      split_ifs at hk
      exact hk
  | done =>
    simp only [hnext] at h
    cases h
    exact .inl fun k item hk => hk

namespace Server

section
variable {key : ℕ → CSecretKey} {sock : ℕ → CUdpSockDataPtr} {addr : ℕ → SockaddrIn}
variable {secret : ℕ → CSecretKey} {peerip : ℕ → UInt32} {login : ℕ → Option String}
variable {s t : Server} {handed : List ℕ} {conn : CClientPtr → ℕ} {job : ℕ → ℕ}
variable {owner : CSecretKey → ℕ}

@[simp] theorem tcp_setTcp (n m : ℕ) (j : TcpJob) :
    (s.setTcp n j).tcp m = if m = n then j else s.tcp m := Function.update_apply _ _ _ _

theorem start_inv {secret_timeout : UInt32} {now : ℤ} {cfgs : List CRoomConfig} :
    Inv key sock addr secret peerip login (start secret_timeout now cfgs) [] conn job owner := by
  have hserved : ∀ c, ¬ (start secret_timeout now cfgs).Served c := by
    rintro c ⟨⟩
  have hredeemed : ∀ n, ¬ (start secret_timeout now cfgs).Redeemed n := by
    rintro n ⟨⟩
  refine ⟨nofun,fun _ _ => rfl,(by rintro n u a ⟨⟩),fun n m h => absurd h (hredeemed n),?_,
    fun c h => absurd h (hserved c),fun c d h => absurd h (hserved c)⟩
  intro k item h
  simp [start,UdpJobs.start,CSecKeyMap.new] at h

/-- The step of a job of the UDP listener: what it inserts belongs to it, and to no job before. -/
theorem Inv.udp (h : Inv key sock addr secret peerip login s handed conn job owner) {j : ℕ}
    {sent : Bool} {u : UdpJobs} (hrun : UdpJobs.run key sock addr s.udp j sent = .ok u) :
    ∃ owner', Inv key sock addr secret peerip login { s with udp := u }
      (handed ++ (inserted key sock addr s (.udp j sent)).toList) conn job owner' := by
  obtain ⟨hnext,hentries⟩ := UdpJobs.run_entries hrun
  have hhanded : ∀ i ∈ handed ++ (inserted key sock addr s (.udp j sent)).toList,
      u.next i ≠ .insert := by
    intro i hi
    apply hnext
    obtain hold | hnew := List.mem_append.mp hi
    · exact .inr (h.begun i hold)
    · simp only [inserted] at hnew
      split_ifs at hnew
      · exact .inl (List.mem_singleton.mp hnew)
      · cases hnew
  have hredeemed : ∀ n v a, (s.tcp n).udp = some (v,a) →
      job n ∈ handed ++ (inserted key sock addr s (.udp j sent)).toList ∧
      key (job n) = secret n ∧ a.sin_addr = peerip n ∧ v = sock (job n) ∧ a = addr (job n) := by
    intro n v a hn
    obtain ⟨hmem,hrest⟩ := h.redeemed n v a hn
    exact ⟨List.mem_append_left _ hmem,hrest⟩
  have hold : ∀ k item, s.udp.smap.map.find? k = some item →
      owner k ∈ handed ++ (inserted key sock addr s (.udp j sent)).toList ∧
      key (owner k) = k ∧ item.udp = sock (owner k) ∧ item.addr = addr (owner k) ∧
      ∀ n, s.Redeemed n → job n ≠ owner k := by
    intro k item hk
    obtain ⟨hmem,hrest⟩ := h.entries k item hk
    exact ⟨List.mem_append_left _ hmem,hrest⟩
  rcases hentries with hsame | ⟨hinsert,hnew⟩
  · exact ⟨owner,hhanded,h.unverified,hredeemed,h.job_inj,
      fun k item hk => hold k item (hsame k item hk),h.clients,h.conn_inj⟩
  · refine ⟨Function.update owner (key j) j,hhanded,h.unverified,hredeemed,h.job_inj,
      fun k item hk => ?_,h.clients,h.conn_inj⟩
    have hcase := hnew k item hk
    by_cases hkey : k = key j
    · subst hkey
      rw [if_pos rfl] at hcase
      rw [Function.update_self]
      refine ⟨?_,rfl,hcase.1,hcase.2,fun n hn hj => ?_⟩
      · rw [inserted,if_pos hinsert]
        simp
      · obtain ⟨⟨v,a⟩,hva⟩ := Option.isSome_iff_exists.mp hn
        have hbefore := h.begun _ (h.redeemed n v a hva).1
        rw [hj] at hbefore
        exact hbefore hinsert.1
    · rw [if_neg hkey] at hcase
      rw [Function.update_of_ne hkey]
      exact hold k item hcase

/-- A step of a connection's job that looks at nothing but its own state. -/
theorem Inv.move (h : Inv key sock addr secret peerip login s handed conn job owner) {n : ℕ}
    {next : Next} (hn : (s.tcp n).next ≠ .done) (hverify : next ≠ .verifykey) :
    Inv key sock addr secret peerip login (s.setTcp n { s.tcp n with next := next })
      handed conn job owner := by
  have hudp : ∀ m, ((s.setTcp n { s.tcp n with next := next }).tcp m).udp = (s.tcp m).udp := by
    intro m
    rw [tcp_setTcp]
    split_ifs with hm
    · rw [hm]
    · rfl
  have hsame : ∀ m, (s.setTcp n { s.tcp n with next := next }).Redeemed m ↔ s.Redeemed m := by
    intro m
    rw [Redeemed,hudp,Redeemed]
  refine ⟨h.begun,fun m hm => ?_,fun m u a hm => h.redeemed m u a (hudp m ▸ hm),
    fun m m' hm hm' => ?_,fun k item hk => ?_,fun c hc => ?_,h.conn_inj⟩
  · rw [tcp_setTcp] at hm
    rw [hudp]
    split_ifs at hm with hmn
    · exact absurd hm hverify
    · exact h.unverified m hm
  · exact h.job_inj m m' ((hsame m).mp hm) ((hsame m').mp hm')
  · obtain ⟨hdone,hkey,hsock,haddr,hfree⟩ := h.entries k item hk
    exact ⟨hdone,hkey,hsock,haddr,fun m hm => hfree m ((hsame m).mp hm)⟩
  · obtain ⟨hdone,hreach,hname⟩ := h.clients c hc
    have hne : conn c ≠ n := by
      rintro rfl
      exact hn hdone
    refine ⟨?_,by rw [hudp]; exact hreach,hname⟩
    rw [tcp_setTcp,if_neg hne]
    exact hdone

/-- The redemption of a key: its entry goes from its owner to the connection. -/
theorem Inv.verifykey (h : Inv key sock addr secret peerip login s handed conn job owner) {n : ℕ}
    (hn : (s.tcp n).next = .verifykey) {item : CItem} {m : CSecKeyMap}
    (hverify : s.udp.smap.verifykey (secret n) (peerip n) = (some item,m)) :
    Inv key sock addr secret peerip login
      ({ s with udp := { s.udp with smap := m } }.setTcp n ⟨.parse,some (item.udp,item.addr)⟩)
      handed conn (Function.update job n (owner (secret n))) owner := by
  obtain ⟨hfind,hip,rfl⟩ := CSecKeyMap.verifykey_some hverify
  obtain ⟨hdone,hkey,hsock,haddr,hfree⟩ := h.entries _ _ hfind
  have hbefore := h.unverified n hn
  -- The others are as before, and have other jobs.
  have hother : ∀ l, l ≠ n → ({ s with udp := { s.udp with
      smap := { s.udp.smap with map := s.udp.smap.map.erase (secret n) } } }.setTcp n
        ⟨.parse,some (item.udp,item.addr)⟩).tcp l = s.tcp l := by
    intro l hl
    rw [tcp_setTcp,if_neg hl]
  refine ⟨h.begun,fun l hl => ?_,fun l u a hl => ?_,fun l l' hl hl' hjob => ?_,fun k item' hk => ?_,
    fun c hc => ?_,h.conn_inj⟩
  · by_cases hln : l = n
    · subst hln
      rw [tcp_setTcp,if_pos rfl] at hl
      cases hl
    · rw [hother l hln] at hl ⊢
      exact h.unverified l hl
  · by_cases hln : l = n
    · subst hln
      rw [tcp_setTcp,if_pos rfl] at hl
      cases hl
      rw [Function.update_self]
      exact ⟨hdone,hkey,hip,hsock,haddr⟩
    · rw [hother l hln] at hl
      rw [Function.update_of_ne hln]
      exact h.redeemed l u a hl
  · by_cases hln : l = n
    · by_cases hln' : l' = n
      · exact hln.trans hln'.symm
      · rw [Redeemed,hother l' hln'] at hl'
        rw [hln,Function.update_self,Function.update_of_ne hln'] at hjob
        exact absurd hjob.symm (hfree l' hl')
    · rw [Redeemed,hother l hln] at hl
      by_cases hln' : l' = n
      · rw [hln',Function.update_self,Function.update_of_ne hln] at hjob
        exact absurd hjob (hfree l hl)
      · rw [Redeemed,hother l' hln'] at hl'
        rw [Function.update_of_ne hln,Function.update_of_ne hln'] at hjob
        exact h.job_inj l l' hl hl' hjob
  · change (s.udp.smap.map.erase (secret n)).find? k = some item' at hk
    rw [OrdMap.find?_erase] at hk
    split_ifs at hk with hks
    obtain ⟨hdone',hkey',hsock',haddr',hfree'⟩ := h.entries k item' hk
    refine ⟨hdone',hkey',hsock',haddr',fun l hl => ?_⟩
    by_cases hln : l = n
    · rw [hln,Function.update_self]
      intro howner
      rw [howner,hkey'] at hkey
      exact hks hkey
    · rw [Redeemed,hother l hln] at hl
      rw [Function.update_of_ne hln]
      exact hfree' l hl
  · obtain ⟨hdone',hreach,hname⟩ := h.clients c hc
    have hne : conn c ≠ n := by
      intro hcn
      rw [hcn,hn] at hdone'
      cases hdone'
    rw [hother _ hne]
    exact ⟨hdone',hreach,hname⟩

/-- The engine goes on without a login: whoever is served afterwards was served before. -/
theorem Inv.engine (h : Inv key sock addr secret peerip login s handed conn job owner) {t : CEngine}
    (ht : ∀ d, (t.clients d).ctsk = true → (t.clients d).ident = (s.engine.clients d).ident) :
    Inv key sock addr secret peerip login { s with engine := t } handed conn job owner := by
  have hserved : ∀ d, Served { s with engine := t } d → s.Served d := by
    intro d hd
    have hident := congrArg CClient.Ident.ctsk (ht d hd)
    exact hident.symm.trans hd
  refine ⟨h.begun,h.unverified,h.redeemed,h.job_inj,h.entries,fun c hc => ?_,fun c d hc hd => ?_⟩
  · obtain ⟨hdone,hreach,hname⟩ := h.clients c (hserved c hc)
    have hident := ht c hc
    have huname : (t.clients c).uname = (s.engine.clients c).uname :=
      congrArg CClient.Ident.uname hident
    have hudp : (t.clients c).udp = (s.engine.clients c).udp := congrArg CClient.Ident.udp hident
    have haddr : (t.clients c).udpaddr = (s.engine.clients c).udpaddr :=
      congrArg CClient.Ident.udpaddr hident
    dsimp only
    rw [hudp,haddr,huname]
    exact ⟨hdone,hreach,hname⟩
  · exact h.conn_inj c d (hserved c hc) (hserved d hd)

/-- A failed redemption ends the job. -/
theorem Inv.refused (h : Inv key sock addr secret peerip login s handed conn job owner) {n : ℕ}
    (hn : (s.tcp n).next = .verifykey) :
    Inv key sock addr secret peerip login (s.setTcp n ⟨.done,none⟩) handed conn job owner := by
  have hjob : { s.tcp n with next := .done } = (⟨.done,none⟩ : TcpJob) := by
    rw [← h.unverified n hn]
  rw [← hjob]
  exact h.move (by rw [hn]; decide) (by decide)

/-- A client is made for the connection, or none: the object at its address is new. -/
theorem Inv.addClient (h : Inv key sock addr secret peerip login s handed conn job owner) {n : ℕ}
    {c : CClientPtr} (hn : (s.tcp n).next = .addClient) (hc : ¬ s.Served c) {uname : String}
    {udp : CUdpSockDataPtr} {udpaddr : SockaddrIn} (hlogin : login n = some uname)
    (hudp : (s.tcp n).udp = some (udp,udpaddr)) :
    Inv key sock addr secret peerip login
      ({ s with engine := s.engine.login c udp udpaddr uname }.setTcp n
        { s.tcp n with next := .done })
      handed (Function.update conn c n) job owner := by
  have hmoved : Inv key sock addr secret peerip login
      (s.setTcp n { s.tcp n with next := .done }) handed conn job owner :=
    h.move (by rw [hn]; decide) (by decide)
  have hident := s.engine.login_ident c udp udpaddr uname
  -- Whoever is served now is the new client, or was served before on another connection.
  have hcase : ∀ d, ((s.engine.login c udp udpaddr uname).clients d).ctsk = true →
      (d = c ∧ ((s.engine.login c udp udpaddr uname).clients d).ident =
        ⟨uname,udp,udpaddr,true⟩) ∨
      d ≠ c ∧ s.Served d ∧ conn d ≠ n ∧
        ((s.engine.login c udp udpaddr uname).clients d).ident = (s.engine.clients d).ident := by
    intro d hd
    rcases hident d with hsame | hnew
    · have hserved : s.Served d := (congrArg CClient.Ident.ctsk hsame).symm.trans hd
      refine .inr ⟨?_,hserved,?_,hsame⟩
      · rintro rfl
        exact hc hserved
      · intro hdn
        have hdone := (h.clients d hserved).1
        rw [hdn,hn] at hdone
        cases hdone
    · exact .inl hnew
  refine ⟨hmoved.begun,hmoved.unverified,hmoved.redeemed,hmoved.job_inj,hmoved.entries,
    fun d hd => ?_,fun d d' hd hd' hconn => ?_⟩
  · rcases hcase d hd with ⟨rfl,hnew⟩ | ⟨hdc,hserved,hdn,hsame⟩
    · rw [Function.update_self,tcp_setTcp,if_pos rfl]
      have huname : ((s.engine.login d udp udpaddr uname).clients d).uname = uname :=
        congrArg CClient.Ident.uname hnew
      have hsock : ((s.engine.login d udp udpaddr uname).clients d).udp = udp :=
        congrArg CClient.Ident.udp hnew
      have haddr : ((s.engine.login d udp udpaddr uname).clients d).udpaddr = udpaddr :=
        congrArg CClient.Ident.udpaddr hnew
      refine ⟨rfl,?_,?_⟩
      · change (s.tcp n).udp = some (((s.engine.login d udp udpaddr uname).clients d).udp,
          ((s.engine.login d udp udpaddr uname).clients d).udpaddr)
        rw [hsock,haddr]
        exact hudp
      · change login n = some ((s.engine.login d udp udpaddr uname).clients d).uname
        rw [huname]
        exact hlogin
    · obtain ⟨hdone,hreach,hname⟩ := h.clients d hserved
      have huname : ((s.engine.login c udp udpaddr uname).clients d).uname =
          (s.engine.clients d).uname := congrArg CClient.Ident.uname hsame
      have hsock : ((s.engine.login c udp udpaddr uname).clients d).udp =
          (s.engine.clients d).udp := congrArg CClient.Ident.udp hsame
      have haddr : ((s.engine.login c udp udpaddr uname).clients d).udpaddr =
          (s.engine.clients d).udpaddr := congrArg CClient.Ident.udpaddr hsame
      rw [Function.update_of_ne hdc,tcp_setTcp,if_neg hdn]
      refine ⟨hdone,?_,?_⟩
      · change (s.tcp (conn d)).udp = some (((s.engine.login c udp udpaddr uname).clients d).udp,
          ((s.engine.login c udp udpaddr uname).clients d).udpaddr)
        rw [hsock,haddr]
        exact hreach
      · change login (conn d) = some ((s.engine.login c udp udpaddr uname).clients d).uname
        rw [huname]
        exact hname
  · rcases hcase d hd with ⟨rfl,-⟩ | ⟨hdc,hserved,hdn,-⟩
    · rcases hcase d' hd' with ⟨rfl,-⟩ | ⟨hdc',hserved',hdn',-⟩
      · rfl
      · rw [Function.update_self,Function.update_of_ne hdc'] at hconn
        exact absurd hconn.symm hdn'
    · rw [Function.update_of_ne hdc] at hconn
      rcases hcase d' hd' with ⟨rfl,-⟩ | ⟨hdc',hserved',hdn',-⟩
      · rw [Function.update_self] at hconn
        exact absurd hconn hdn
      · rw [Function.update_of_ne hdc'] at hconn
        exact h.conn_inj d d' hserved hserved' hconn

/-- One step of the job of a connection. -/
theorem Inv.run (h : Inv key sock addr secret peerip login s handed conn job owner) (n : ℕ)
    (c : CClientPtr) : ∃ conn' job', Inv key sock addr secret peerip login
      (run secret peerip login s n c) handed conn' job' owner := by
  unfold Server.run
  dsimp only
  cases hn : (s.tcp n).next with
  | verifykey =>
    dsimp only
    cases hverify : s.udp.smap.verifykey (secret n) (peerip n) with
    | mk used m =>
      cases used with
      | none =>
        obtain ⟨rfl,-⟩ := CSecKeyMap.verifykey_none hverify
        exact ⟨conn,job,h.refused hn⟩
      | some item => exact ⟨conn,_,h.verifykey hn hverify⟩
  | parse =>
    refine ⟨conn,job,h.move (by rw [hn]; decide) ?_⟩
    split_ifs <;> decide
  | findClient => exact ⟨conn,job,h.move (by rw [hn]; decide) (by simp)⟩
  | block_send code =>
    refine ⟨conn,job,h.move (by rw [hn]; simp) ?_⟩
    split_ifs <;> decide
  | addClient =>
    dsimp only
    split
    · next uname udp udpaddr hlogin hudp =>
      split_ifs with hc
      · exact ⟨conn,job,h⟩
      · exact ⟨_,job,h.addClient hn hc hlogin hudp⟩
    · exact ⟨conn,job,h⟩
  | done => exact ⟨conn,job,h⟩

theorem Inv.step (h : Inv key sock addr secret peerip login s handed conn job owner) {e : Event}
    (hstep : step key sock addr secret peerip login s e = .ok t) :
    ∃ conn' job' owner', Inv key sock addr secret peerip login t
      (handed ++ (inserted key sock addr s e).toList) conn' job' owner' := by
  have hengine : ∀ {e : CcniServer.Event},
      (∀ c udp udpaddr uname, e ≠ .login c udp udpaddr uname) → s.engineStep e = .ok t →
      Inv key sock addr secret peerip login t (handed ++ []) conn job owner := by
    intro e he hs
    unfold engineStep at hs
    rw [List.append_nil]
    cases hres : s.engine.step e with
    | error a =>
      rw [hres] at hs
      cases hs
    | ok u =>
      rw [hres] at hs
      cases hs
      exact h.engine fun d hd => CEngine.step_ident he hres hd
  cases e with
  | udp j sent =>
    simp only [Server.step] at hstep
    cases hrun : UdpJobs.run key sock addr s.udp j sent with
    | error u =>
      rw [hrun] at hstep
      cases hstep
    | ok u =>
      rw [hrun] at hstep
      cases hstep
      obtain ⟨owner',hinv⟩ := h.udp hrun
      exact ⟨conn,job,owner',hinv⟩
  | time now =>
    cases hstep
    refine ⟨conn,job,owner,?_⟩
    rw [inserted,Option.toList_none,List.append_nil]
    exact ⟨h.begun,h.unverified,h.redeemed,h.job_inj,h.entries,h.clients,h.conn_inj⟩
  | tcp n c =>
    cases hstep
    obtain ⟨conn',job',hinv⟩ := h.run n c
    refine ⟨conn',job',owner,?_⟩
    rwa [inserted,Option.toList_none,List.append_nil]
  | frame c => exact ⟨conn,job,owner,hengine (fun _ _ _ _ h => by cases h) hstep⟩
  | request c msg => exact ⟨conn,job,owner,hengine (fun _ _ _ _ h => by cases h) hstep⟩
  | disconnect c => exact ⟨conn,job,owner,hengine (fun _ _ _ _ h => by cases h) hstep⟩

theorem Inv.run_steps (h : Inv key sock addr secret peerip login s handed conn job owner)
    {es : List Event}
    (hrun : Lts.exec (Server.step key sock addr secret peerip login) s es = .ok t) :
    ∃ conn' job' owner', Inv key sock addr secret peerip login t (handed ++
      Lts.trail (Server.step key sock addr secret peerip login) (inserted key sock addr) s es)
      conn' job' owner' := by
  induction es generalizing s handed conn job owner with
  | nil =>
    cases hrun
    exact ⟨conn,job,owner,by rwa [Lts.trail,List.append_nil]⟩
  | cons e es ih =>
    cases hstep : Server.step key sock addr secret peerip login s e with
    | error u => simp [Lts.exec,hstep] at hrun
    | ok u =>
      obtain ⟨conn₁,job₁,owner₁,hu⟩ := h.step hstep
      rw [Lts.exec_cons_ok hstep] at hrun
      rw [Lts.trail_cons_ok hstep,← List.append_assoc]
      exact ih hu hrun

theorem Inv.admitted (h : Inv key sock addr secret peerip login s handed conn job owner) :
    Admitted key sock addr secret peerip login s handed conn job := by
  have hown : ∀ n, s.Redeemed n → ∃ u a, (s.tcp n).udp = some (u,a) ∧ job n ∈ handed ∧
      key (job n) = secret n ∧ a.sin_addr = peerip n ∧ u = sock (job n) ∧ a = addr (job n) := by
    intro n hn
    obtain ⟨⟨u,a⟩,hua⟩ := Option.isSome_iff_exists.mp hn
    exact ⟨u,a,hua,h.redeemed n u a hua⟩
  have hclient : ∀ c, s.Served c → s.Redeemed (conn c) := by
    intro c hc
    rw [Redeemed,(h.clients c hc).2.1]
    rfl
  refine ⟨fun c hc d hd => h.conn_inj c d hc hd,fun n hn m hm => h.job_inj n m hn hm,hclient,
    fun c hc => (h.clients c hc).2.2,fun n hn => ?_,fun n hn => ?_,fun n hn => ?_,
    fun c hc => ?_,fun c hc => ?_⟩
  · obtain ⟨u,a,-,hdone,-⟩ := hown n hn
    exact hdone
  · obtain ⟨u,a,-,-,hkey,-⟩ := hown n hn
    exact hkey
  · obtain ⟨u,a,-,-,-,hip,-,haddr⟩ := hown n hn
    exact haddr ▸ hip
  · exact (h.redeemed _ _ _ (h.clients c hc).2.1).2.2.2.1
  · exact (h.redeemed _ _ _ (h.clients c hc).2.1).2.2.2.2

end

/-- In every state that a run reaches, whoever is served has logged in over a connection of his
own, with the name that it gave; that connection has redeemed a key which a job of its own had
inserted in this run for an address of the same host, and broadcasts reach the client there and
nowhere else. -/
theorem run_admitted (key : ℕ → CSecretKey) (sock : ℕ → CUdpSockDataPtr) (addr : ℕ → SockaddrIn)
    (secret : ℕ → CSecretKey) (peerip : ℕ → UInt32) (login : ℕ → Option String)
    (secret_timeout : UInt32) (now : ℤ) (cfgs : List CRoomConfig) (es : List Event) (s : Server)
    (h : Lts.exec (step key sock addr secret peerip login) (start secret_timeout now cfgs) es =
      .ok s) :
    ∃ conn job, Admitted key sock addr secret peerip login s
      (Lts.trail (step key sock addr secret peerip login) (inserted key sock addr)
        (start secret_timeout now cfgs) es) conn job := by
  have hstart : Inv key sock addr secret peerip login (start secret_timeout now cfgs) []
      (fun _ => 0) (fun _ => 0) (fun _ => 0) := start_inv
  obtain ⟨conn,job,owner,hinv⟩ := hstart.run_steps h
  exact ⟨conn,job,hinv.admitted⟩

/-- The third job has the key of the first. -/
def someKey : ℕ → CSecretKey
  | 1 => ⟨3,4⟩
  | 3 => ⟨5,6⟩
  | _ => ⟨1,2⟩

def someSecret : ℕ → CSecretKey
  | 0 => ⟨1,2⟩
  | 1 => ⟨3,4⟩
  | _ => ⟨5,6⟩

def someAddr (j : ℕ) : SockaddrIn := if j = 3 then ⟨10,4001⟩ else ⟨9,4000⟩

def somePeerip (n : ℕ) : UInt32 := if n = 2 then 10 else 9

def someLogin (n : ℕ) : Option String := if n = 2 then some "bob" else some "alice"

/-- The key of the second job cannot be sent and is taken back before a connection comes with it;
the third job is refused. Alice and bob log in at the same time. -/
def twoCome : List Event :=
  [.udp 0 true,.udp 1 true,.udp 2 true,.udp 0 true,.tcp 0 7,.udp 1 false,.udp 1 true,.tcp 1 7,
   .udp 3 true,.tcp 0 7,.udp 3 true,.tcp 2 8,.tcp 0 7,.tcp 2 8,.tcp 0 7,.tcp 2 8,.tcp 2 8,.tcp 2 8,
   .tcp 0 7]

theorem run_admitted_two : ∃ s conn job,
    Lts.exec (step someKey (fun _ => 5) someAddr someSecret somePeerip someLogin) (start 5 0 [])
      twoCome = .ok s ∧ s.Served 7 ∧ s.Served 8 ∧ ¬ s.Redeemed 1 ∧
    Admitted someKey (fun _ => 5) someAddr someSecret somePeerip someLogin s [0,1,3] conn job := by
  obtain ⟨s,hs,halice,hbob,hno,hjobs⟩ : ∃ s,
      Lts.exec (step someKey (fun _ => 5) someAddr someSecret somePeerip someLogin) (start 5 0 [])
        twoCome = .ok s ∧ s.Served 7 ∧ s.Served 8 ∧ ¬ s.Redeemed 1 ∧
      Lts.trail (step someKey (fun _ => 5) someAddr someSecret somePeerip someLogin)
        (inserted someKey (fun _ => 5) someAddr) (start 5 0 []) twoCome = [0,1,3] :=
    ⟨_,rfl,rfl,rfl,Bool.false_ne_true,rfl⟩
  obtain ⟨conn,job,hadmitted⟩ := run_admitted someKey (fun _ => 5) someAddr someSecret somePeerip
    someLogin 5 0 [] twoCome s hs
  rw [hjobs] at hadmitted
  exact ⟨s,conn,job,hs,halice,hbob,hno,hadmitted⟩

end Server
end CcniServer
