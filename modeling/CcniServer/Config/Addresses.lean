import CcniServer.Config.Pointers
import CcniServer.Hall.Client

/-!
The listen addresses of the configuration: the texts that stand for an address and a port, and what
`CConfig::_parseAddrLst` makes of any list of texts.
-/
namespace CcniServer

abbrev xmlIP := "IP"

/-! ### Addresses and ports -/

/-- A number of a dotted quad: one to three digits, no zero before others, at most 255. -/
def octet (cs : List Char) : Option ℕ :=
  if cs ≠ [] ∧ cs.length ≤ 3 ∧ cs.all Char.isDigit ∧ (cs.head? = some '0' → cs.length = 1) ∧
      Scan.digitsValue cs ≤ 255 then
    some (Scan.digitsValue cs)
  else none

/-- `inet_pton` for `AF_INET`: the address in network order, nothing where the text is no dotted
quad. -/
def inet_pton (src : List Char) : Option UInt32 :=
  match (src.splitOn '.').map octet with
  | [some a,some b,some c,some d] => some (UInt32.ofNat (a + b*2^8 + c*2^16 + d*2^24))
  | _ => none

def htons (v : UInt16) : UInt16 := v <<< 8 ||| v >>> 8

/-- A decimal number of at most 65535. -/
def portOf (cs : List Char) : Option ℕ :=
  if cs ≠ [] ∧ cs.all Char.isDigit ∧ Scan.digitsValue cs ≤ 65535 then some (Scan.digitsValue cs)
  else none

/-- The text before the first ':' and the text after it. -/
def splitColon (cs : List Char) : Option (List Char × List Char) :=
  match cs.dropWhile (fun c => c != ':') with
  | [] => none
  | _ :: rest => some (cs.takeWhile (fun c => c != ':'),rest)

/-- The address that a text of the form IP:PORT stands for. -/
def ipPort (ips : String) : Option SockaddrIn :=
  (splitColon ips.toList).bind (fun parts =>
    (inet_pton parts.1).bind (fun addr =>
      (portOf parts.2).map (fun port => ⟨addr,htons (UInt16.ofNat port)⟩)))

theorem octet_some {cs : List Char} {n : ℕ} (h : octet cs = some n) :
    cs.length ≤ 3 ∧ ∀ c ∈ cs, c.isDigit = true := by
  unfold octet at h
  split_ifs at h with hcs
  exact ⟨hcs.2.1,List.all_eq_true.mp hcs.2.2.1⟩

/-- A dotted quad is short and has no ':' in it. -/
theorem inet_pton_some {src : List Char} {addr : UInt32} (h : inet_pton src = some addr) :
    src.length ≤ 15 ∧ ∀ c ∈ src, c.isDigit = true ∨ c = '.' := by
  obtain ⟨ws,xs,ys,zs,hsplit,hws,hxs,hys,hzs⟩ : ∃ ws xs ys zs,
      src.splitOn '.' = [ws,xs,ys,zs] ∧ (octet ws).isSome ∧ (octet xs).isSome ∧
      (octet ys).isSome ∧ (octet zs).isSome := by
    unfold inet_pton at h
    split at h
    · next hquad =>
      simp only [List.map_eq_cons_iff,List.map_eq_nil_iff] at hquad
      obtain ⟨ws,_,hsplit,ha,xs,_,rfl,hb,ys,_,rfl,hc,zs,_,rfl,hd,rfl⟩ := hquad
      exact ⟨ws,xs,ys,zs,hsplit,by rw [ha]; rfl,by rw [hb]; rfl,by rw [hc]; rfl,by rw [hd]; rfl⟩
    · cases h
  have hsrc : src = ws ++ '.' :: (xs ++ '.' :: (ys ++ '.' :: zs)) := by
    have hjoin : ['.'].intercalate (src.splitOn '.') = src := List.intercalate_splitOn '.'
    rw [hsplit] at hjoin
    rw [← hjoin]
    simp [List.intercalate]
  have hoctet : ∀ cs, (octet cs).isSome → cs.length ≤ 3 ∧ ∀ c ∈ cs, c.isDigit = true := by
    intro cs hcs
    obtain ⟨n,hn⟩ := Option.isSome_iff_exists.mp hcs
    exact octet_some hn
  obtain ⟨hlw,hdw⟩ := hoctet ws hws
  obtain ⟨hlx,hdx⟩ := hoctet xs hxs
  obtain ⟨hly,hdy⟩ := hoctet ys hys
  obtain ⟨hlz,hdz⟩ := hoctet zs hzs
  subst hsrc
  refine ⟨?_,fun c hc => ?_⟩
  · simp only [List.length_append,List.length_cons]
    omega
  · simp only [List.mem_append,List.mem_cons] at hc
    rcases hc with hc | rfl | hc | rfl | hc | rfl | hc
    · exact .inl (hdw c hc)
    · exact .inr rfl
    · exact .inl (hdx c hc)
    · exact .inr rfl
    · exact .inl (hdy c hc)
    · exact .inr rfl
    · exact .inl (hdz c hc)

theorem splitColon_append {ip rest : List Char} (h : ∀ c ∈ ip, c ≠ ':') :
    splitColon (ip ++ ':' :: rest) = some (ip,rest) := by
  have hp : ∀ c ∈ ip, (c != ':') = true := fun c hc => bne_iff_ne.mpr (h c hc)
  unfold splitColon
  rw [List.dropWhile_append_of_pos hp,List.dropWhile_cons_of_neg (by decide),
    List.takeWhile_append_of_pos hp,List.takeWhile_cons_of_neg (by decide),List.append_nil]

theorem splitColon_some {cs : List Char} {parts : List Char × List Char}
    (h : splitColon cs = some parts) : cs = parts.1 ++ ':' :: parts.2 := by
  unfold splitColon at h
  split at h
  · cases h
  · next colon rest hdrop =>
    cases h
    have hcolon : colon = ':' := by
      have hneg := List.head?_dropWhile_not (fun c => c != ':') cs
      rw [hdrop] at hneg
      simpa using hneg
    subst hcolon
    rw [← hdrop]
    exact List.takeWhile_append_dropWhile.symm

/-- The form IP:PORT. -/
theorem ipPort_eq_some {ips : String} {addr : SockaddrIn} : ipPort ips = some addr ↔
    ∃ ip port a, ips.toList = ip ++ ':' :: port ∧ inet_pton ip = some a ∧ port ≠ [] ∧
      (∀ c ∈ port, c.isDigit = true) ∧ Scan.digitsValue port ≤ 65535 ∧
      addr = ⟨a,htons (UInt16.ofNat (Scan.digitsValue port))⟩ := by
  have hport : ∀ cs n, portOf cs = some n ↔
      cs ≠ [] ∧ (∀ c ∈ cs, c.isDigit = true) ∧ Scan.digitsValue cs ≤ 65535 ∧
        n = Scan.digitsValue cs := by
    intro cs n
    unfold portOf
    split_ifs with hcs
    · rw [List.all_eq_true] at hcs
      rw [Option.some_inj]
      exact ⟨fun h => ⟨hcs.1,hcs.2.1,hcs.2.2,h.symm⟩,fun h => h.2.2.2.symm⟩
    · rw [List.all_eq_true] at hcs
      exact ⟨False.elim,fun h => absurd ⟨h.1,h.2.1,h.2.2.1⟩ hcs⟩
  unfold ipPort
  simp only [Option.bind_eq_some_iff,Option.map_eq_some_iff,hport]
  constructor
  · rintro ⟨⟨ip,port⟩,hsplit,a,ha,n,⟨hne,hdigits,hle,rfl⟩,rfl⟩
    exact ⟨ip,port,a,splitColon_some hsplit,ha,hne,hdigits,hle,rfl⟩
  · rintro ⟨ip,port,a,htext,ha,hne,hdigits,hle,rfl⟩
    refine ⟨(ip,port),?_,a,ha,_,⟨hne,hdigits,hle,rfl⟩,rfl⟩
    rw [htext]
    refine splitColon_append fun c hc heq => ?_
    rcases (inet_pton_some ha).2 c hc with hdigit | hdot
    · exact absurd (heq ▸ hdigit) (by decide)
    · exact absurd (heq.symm.trans hdot) (by decide)

/-! ### The parser -/

namespace CConfig

/-- How many bytes a text takes. -/
def size (cs : List Char) : ℕ := (cs.map Char.utf8Size).sum

/-- The text before the ':' and the number after it; nothing where the item is passed over. -/
def hostPort (ips : String) : Option (List Char × ℤ) :=
  (splitColon ips.toList).bind (fun parts =>
    if size parts.1 > 16 then none
    else (Scan.scanInt (String.ofList parts.2)).map (fun port => (parts.1,port)))

/-- An item of the list. The `sockaddr_in` is the one of the item before, and `inet_pton` is only
tested for an error that it does not return here. -/
def addIP (st : SockaddrIn × List SockaddrIn) (n : CXmlNode) : SockaddrIn × List SockaddrIn :=
  match hostPort (CXmlNode.getContent (some n)) with
  | none => st
  | some (ipbuf,port) =>
    let addr : SockaddrIn :=
      ⟨(inet_pton ipbuf).getD st.1.sin_addr,htons (UInt16.ofNat (port % 2^16).toNat)⟩
    (addr,st.2 ++ [addr])

def _parseAddrLst (lst : List SockaddrIn) (nd : CXmlNodePtr) : Derefs (Bool × List SockaddrIn) :=
  if nd.isEmpty then .ok (false,lst)
  else do
    let n ← nd.child
    let st ← CXmlNodePtr.each (CXmlNodePtr.ifNamed xmlIP addIP) (⟨0,0⟩,[]) n
    return (decide (st.2.length > 0),st.2)

/-- A text that the parser passes over unless it has the form IP:PORT. -/
def WellSpelt (ips : String) : Prop := (hostPort ips).isSome → (ipPort ips).isSome

instance (ips : String) : Decidable (WellSpelt ips) :=
  inferInstanceAs (Decidable ((hostPort ips).isSome → (ipPort ips).isSome))

/-- The texts of the items. -/
def texts (cs : List CXmlNode) : List String :=
  (cs.filter (CXmlNode.isNamed xmlIP)).map (fun n => CXmlNode.getContent (some n))

theorem hostPort_of_ipPort {ips : String} {addr : SockaddrIn} (h : ipPort ips = some addr) :
    ∃ ip port, hostPort ips = some (ip,port) ∧ inet_pton ip = some addr.sin_addr ∧
      htons (UInt16.ofNat (port % 2^16).toNat) = addr.sin_port := by
  obtain ⟨ip,port,a,htext,ha,hne,hdigits,hle,rfl⟩ := ipPort_eq_some.mp h
  obtain ⟨hlen,hchars⟩ := inet_pton_some ha
  have hascii : ∀ c ∈ ip, c.utf8Size = 1 ∧ c ≠ ':' := by
    intro c hc
    have hrange : c.toNat ≤ 57 := by
      rcases hchars c hc with hdigit | rfl
      · have hdigit' : 48 ≤ c.toNat ∧ c.toNat ≤ 57 := by
          simpa [Char.isDigit,Char.le_def,UInt32.le_iff_toNat_le] using hdigit
        exact hdigit'.2
      · decide
    refine ⟨Char.utf8Size_eq_one_iff.mpr ?_,fun heq => ?_⟩
    · exact UInt32.le_iff_toNat_le.mpr (hrange.trans (by decide))
    · rw [heq] at hrange
      exact absurd hrange (by decide)
  have hsize : size ip = ip.length := by
    have hmap : ip.map Char.utf8Size = ip.map (fun _ => 1) :=
      List.map_congr_left fun c hc => (hascii c hc).1
    rw [size,hmap,List.map_const',List.sum_replicate_nat,mul_one]
  refine ⟨ip,Scan.digitsValue port,?_,ha,?_⟩
  · rw [hostPort,htext,splitColon_append (fun c hc => (hascii c hc).2),Option.bind_some,
      if_neg (by dsimp only; omega),Scan.scanInt_of_isDigit hne hdigits (by omega)]
    rfl
  · have hmod : ((Scan.digitsValue port : ℤ) % 2^16).toNat = Scan.digitsValue port := by omega
    rw [hmod]

theorem addIP_of_ipPort {n : CXmlNode} {addr : SockaddrIn}
    (h : ipPort (CXmlNode.getContent (some n)) = some addr)
    (st : SockaddrIn × List SockaddrIn) : addIP st n = (addr,st.2 ++ [addr]) := by
  obtain ⟨ip,port,hhost,ha,hport⟩ := hostPort_of_ipPort h
  unfold addIP
  rw [hhost]
  simp only [ha,hport,Option.getD_some]

theorem addIP_of_hostPort {n : CXmlNode} (h : hostPort (CXmlNode.getContent (some n)) = none)
    (st : SockaddrIn × List SockaddrIn) : addIP st n = st := by
  rw [addIP,h]

theorem length_addIP (n : CXmlNode) (st : SockaddrIn × List SockaddrIn) :
    (addIP st n).2.length =
      st.2.length + if (hostPort (CXmlNode.getContent (some n))).isSome then 1 else 0 := by
  unfold addIP
  cases hostPort (CXmlNode.getContent (some n)) <;> simp

/-- Well-spelt items are the addresses they stand for. -/
theorem foldl_addIP {cs : List CXmlNode} (h : ∀ ips ∈ texts cs, WellSpelt ips)
    (st : SockaddrIn × List SockaddrIn) :
    ((cs.filter (CXmlNode.isNamed xmlIP)).foldl addIP st).2 =
      st.2 ++ (texts cs).filterMap ipPort := by
  unfold texts at h ⊢
  generalize cs.filter (CXmlNode.isNamed xmlIP) = ns at h ⊢
  induction ns generalizing st with
  | nil => exact (List.append_nil _).symm
  | cons n ns ih =>
    rw [List.map_cons,List.forall_mem_cons] at h
    rw [List.foldl_cons,List.map_cons,ih _ h.2]
    cases hip : ipPort (CXmlNode.getContent (some n)) with
    | none =>
      have hnone : hostPort (CXmlNode.getContent (some n)) = none := by
        refine Option.not_isSome_iff_eq_none.mp fun hsome => ?_
        simpa [hip] using h.1 hsome
      rw [addIP_of_hostPort hnone,List.filterMap_cons_none hip]
    | some addr =>
      rw [addIP_of_ipPort hip,List.filterMap_cons_some hip,List.append_assoc]
      rfl

/-- Every other item is one address too many. -/
theorem length_foldl_addIP (cs : List CXmlNode) (st : SockaddrIn × List SockaddrIn) :
    ((cs.filter (CXmlNode.isNamed xmlIP)).foldl addIP st).2.length =
      st.2.length + ((texts cs).filterMap ipPort).length +
        (texts cs).countP (fun ips => ¬ WellSpelt ips) := by
  unfold texts
  generalize cs.filter (CXmlNode.isNamed xmlIP) = ns
  induction ns generalizing st with
  | nil => rfl
  | cons n ns ih =>
    rw [List.foldl_cons,ih,length_addIP,List.map_cons,List.countP_cons]
    cases hip : ipPort (CXmlNode.getContent (some n)) with
    | none =>
      have hspelt : WellSpelt (CXmlNode.getContent (some n)) ↔
          ¬ (hostPort (CXmlNode.getContent (some n))).isSome := by simp [WellSpelt,hip]
      rw [List.filterMap_cons_none hip]
      by_cases hhost : (hostPort (CXmlNode.getContent (some n))).isSome
      · simp only [hspelt,hhost,not_true_eq_false,not_false_eq_true,decide_true,if_true]
        omega
      · simp only [hspelt,hhost]
        rfl
    | some addr =>
      obtain ⟨ip,port,hhost,-⟩ := hostPort_of_ipPort hip
      have hspelt : WellSpelt (CXmlNode.getContent (some n)) := by simp [WellSpelt,hip]
      rw [List.filterMap_cons_some hip,hhost]
      simp only [hspelt,not_true_eq_false,decide_false,Option.isSome_some,if_true,List.length_cons,
        Bool.false_eq_true,if_false]
      omega

/-- The list of an element with any items. -/
theorem parseAddrLst_cons (lst : List SockaddrIn) (nd : CXmlNode) (ns : List CXmlNode) :
    ∃ addrs, _parseAddrLst lst (nd :: ns) = .ok (decide (addrs.length > 0),addrs) ∧
      addrs = ((nd.children.filter (CXmlNode.isNamed xmlIP)).foldl addIP (⟨0,0⟩,[])).2 := by
  refine ⟨_,?_,rfl⟩
  have hloop := CXmlNodePtr.each_ifNamed xmlIP addIP (⟨0,0⟩,[]) nd.children
  simp only [_parseAddrLst,List.isEmpty_cons,Bool.false_eq_true,if_false]
  change (CXmlNodePtr.each (CXmlNodePtr.ifNamed xmlIP addIP) (⟨0,0⟩,[]) nd.children >>= _) = _
  rw [hloop]
  rfl

/-- The parser returns the addresses of the items of the form IP:PORT, in order and no others,
exactly when it passes over every other item. -/
theorem parseAddrLst_exact_iff (lst : List SockaddrIn) (nd : CXmlNode) (ns : List CXmlNode) :
    (∃ found, _parseAddrLst lst (nd :: ns) = .ok (found,(texts nd.children).filterMap ipPort)) ↔
      ∀ ips ∈ texts nd.children, WellSpelt ips := by
  obtain ⟨addrs,hparse,haddrs⟩ := parseAddrLst_cons lst nd ns
  rw [hparse]
  constructor
  · rintro ⟨found,hfound⟩ ips hips
    have hlen := length_foldl_addIP nd.children (⟨0,0⟩,[])
    have heq : addrs = (texts nd.children).filterMap ipPort :=
      congrArg Prod.snd (Except.ok.inj hfound)
    rw [← haddrs,heq] at hlen
    have hzero : (texts nd.children).countP (fun ips => ¬ WellSpelt ips) = 0 := by
      simp only [List.length_nil] at hlen
      omega
    simpa using List.countP_eq_zero.mp hzero ips hips
  · intro h
    have heq := foldl_addIP h (⟨0,0⟩,[])
    rw [← haddrs,List.nil_append] at heq
    exact ⟨_,by rw [heq]⟩

/-- An item without a valid address inherits the one before it. -/
theorem parseAddrLst_inherits : ¬ ∃ found,
    _parseAddrLst [] [.element "TCPListenIPList"
        [.element xmlIP [.text "10.0.0.1:80"],.element xmlIP [.text "localhost:81"]]] =
      .ok (found,["10.0.0.1:80","localhost:81"].filterMap ipPort) := by
  rintro ⟨found,h⟩
  have hlist : [(⟨0x0100000A,0x5000⟩ : SockaddrIn),⟨0x0100000A,0x5100⟩] =
      ["10.0.0.1:80","localhost:81"].filterMap ipPort := congrArg Prod.snd (Except.ok.inj h)
  exact absurd hlist (by decide)

end CConfig
end CcniServer
