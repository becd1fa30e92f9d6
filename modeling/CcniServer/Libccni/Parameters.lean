import CcniServer.Lib.References
import CcniServer.Libccni.Outcomes

/-!
The texts of parameters from one end to the other. `setContent` gives its argument to libxml2, which
reads references in it, and the tree that is dumped has the texts it made.
-/
namespace CcniServer
open CXmlMsg References CCNIMsgPacker CCNIConnection

/-- A message with the parameters added in turn. -/
def parameters (tag : String) (params : List (String × String)) : CXmlNode :=
  params.foldl (fun nd p => addParameter nd p.1 p.2) (CXmlNode.create tag)

/-- The request of `login` and the notifications are such messages. -/
theorem login_parameters (conn : CCNIConnection.Account) (uname pwd : String) :
    (CCNIConnection.Method.login uname pwd).request conn =
      parameters xmlTagLogin [(xmlTagUserName,uname),(xmlTagPassword,pwd)] := rfl

theorem bdmsg_parameters (tag uname : String) :
    CClient.bdmsg tag xmlTagUserName uname = parameters tag [(xmlTagUserName,uname)] := rfl

section
variable (e : List Char → List Char)

/-- The parameters of the dumped tree. -/
def expandParams (params : List (String × String)) : List (String × String) :=
  params.map (fun p => (p.1,expandText e p.2))

theorem expanded_parameters (tag : String) (params : List (String × String)) :
    (parameters tag params).expanded e = parameters tag (expandParams e params) := by
  have hfold : ∀ nd, (params.foldl (fun nd p => addParameter nd p.1 p.2) nd).expanded e =
      (expandParams e params).foldl (fun nd p => addParameter nd p.1 p.2) (nd.expanded e) := by
    induction params with
    | nil => exact fun _ => rfl
    | cons p params ih =>
      intro nd
      rw [List.foldl_cons,ih,expanded_addParameter]
      rfl
  exact hfold (CXmlNode.create tag)

end

/-! ### Parameters are found by their names -/

theorem find?_insertBefore_of_ne {n m d : String} {cs ds : List CXmlNode} (h : m ≠ n) :
    (CXmlNode.insertBefore d (.element n ds) cs).find? (CXmlNode.isNamed m) =
      cs.find? (CXmlNode.isNamed m) := by
  have hnot : CXmlNode.isNamed m (.element n ds) = false := by
    simpa [CXmlNode.isNamed,CXmlNode.isElement,CXmlNode.name] using Ne.symm h
  rw [CXmlNode.insertBefore,List.find?_append,List.find?_cons_of_neg (by simp [hnot]),
    ← List.find?_append,List.takeWhile_append_dropWhile]

theorem find?_insertBefore_self {n d : String} {cs ds : List CXmlNode}
    (h : cs.find? (CXmlNode.isNamed n) = none) :
    (CXmlNode.insertBefore d (.element n ds) cs).find? (CXmlNode.isNamed n) =
      some (.element n ds) := by
  have hfront : (cs.takeWhile (fun c => !CXmlNode.isNamed d c)).find? (CXmlNode.isNamed n) =
      none := by
    rw [List.find?_eq_none] at h ⊢
    exact fun c hc => h c ((List.takeWhile_prefix _).mem hc)
  have hself : CXmlNode.isNamed n (.element n ds) = true := by
    simp [CXmlNode.isNamed,CXmlNode.isElement,CXmlNode.name]
  rw [CXmlNode.insertBefore,List.find?_append,hfront,List.find?_cons_of_pos hself]
  rfl

theorem findChild_foldl_of_not_mem {tag n : String} {params : List (String × String)}
    {cs : List CXmlNode} (h : n ∉ params.map Prod.fst) :
    CXmlNode.findChild (some (params.foldl (fun nd p => addParameter nd p.1 p.2)
      (.element tag cs))) n = cs.find? (CXmlNode.isNamed n) := by
  induction params generalizing cs with
  | nil => rfl
  | cons p params ih =>
    rw [List.map_cons,List.mem_cons,not_or] at h
    rw [List.foldl_cons,addParameter,ih h.2,find?_insertBefore_of_ne h.1]

theorem findChild_foldl {tag n v : String} {params : List (String × String)} {cs : List CXmlNode}
    (hnodup : (params.map Prod.fst).Nodup) (hmem : (n,v) ∈ params)
    (hcs : cs.find? (CXmlNode.isNamed n) = none) :
    CXmlNode.findChild (some (params.foldl (fun nd p => addParameter nd p.1 p.2)
      (.element tag cs))) n = some (.element n [.text v]) := by
  induction params generalizing cs with
  | nil => cases hmem
  | cons p params ih =>
    rw [List.map_cons,List.nodup_cons] at hnodup
    rw [List.foldl_cons,addParameter]
    rcases List.mem_cons.mp hmem with rfl | hmem
    · rw [findChild_foldl_of_not_mem hnodup.1,find?_insertBefore_self hcs]
    · have hne : n ≠ p.1 := fun heq => hnodup.1 (heq ▸ List.mem_map_of_mem hmem)
      exact ih hnodup.2 hmem ((find?_insertBefore_of_ne hne).trans hcs)

theorem findChild_parameters {tag n v : String} {params : List (String × String)}
    (hnodup : (params.map Prod.fst).Nodup) (hmem : (n,v) ∈ params) :
    CXmlNode.findChild (some (parameters tag params)) n = some (.element n [.text v]) :=
  findChild_foldl hnodup hmem rfl

theorem parameters_eq (tag : String) (params : List (String × String)) :
    ∃ cs, parameters tag params = .element tag cs := by
  have hfold : ∀ cs, ∃ cs', params.foldl (fun nd p => addParameter nd p.1 p.2)
      (.element tag cs) = .element tag cs' := by
    induction params with
    | nil => exact fun cs => ⟨cs,rfl⟩
    | cons p params ih => exact fun cs => ih _
  exact hfold []

/-- The text of a parameter in a document that was read. -/
def textOf (d : CXmlNode) (tag n : String) : String :=
  CXmlNode.getContent (CXmlNode.findChild (CXmlNode.findChild (some d) tag) n)

theorem content_returned {n v : String} {d : CXmlNode} (h : Returned (.element n [.text v]) d) :
    CXmlNode.getContent (some d) = v := by
  cases h with
  | element helements htext =>
    rw [CXmlNode.getContent,CXmlNode.content]
    exact (htext v rfl).1

/-- The texts of the dumped tree come back. -/
theorem textOf_returned {tag n w : String} {params : List (String × String)} {d : CXmlNode}
    (hnodup : (params.map Prod.fst).Nodup) (hmem : (n,w) ∈ params)
    (h : Returned (document [parameters tag params]) d) : textOf d tag n = w := by
  have hmsg : CXmlNode.findChild (some (document [parameters tag params])) tag =
      some (parameters tag params) := by
    obtain ⟨cs,hcs⟩ := parameters_eq tag params
    simp [CXmlNode.findChild,document,CXmlNode.children,CXmlNode.isNamed,CXmlNode.isElement,
      CXmlNode.name,hcs]
  obtain ⟨msg,hfound,hmsgback⟩ := h.findSome hmsg
  obtain ⟨nd,hnd,hback⟩ := hmsgback.findSome (findChild_parameters hnodup hmem)
  rw [textOf,hfound,hnd]
  exact content_returned hback

/-! ### From `addParameter` to `getContent` -/

section
variable (dump : CXmlNode → List UInt8) (createFromXmlCdata : List UInt8 → Option CXmlNode)

/-- What libxml2 does to a document that it can write: the document is read again, and with it the
texts in it. -/
structure Restores (d : CXmlNode) : Prop where
  nonempty : dump d ≠ []
  cut : ∀ n, n + 1 < (dump d).length → createFromXmlCdata ((dump d).take n) = none
  returned : ∃ d', createFromXmlCdata (dump d) = some d' ∧ Returned d d'

/-- The document of a message with parameters, after `setContent`. -/
def written (e : List Char → List Char) (tag : String) (params : List (String × String)) :
    CXmlNode :=
  (document [parameters tag params]).expanded e

/-- Every parameter of a message is read by its name as it was added, however the frame with the
message is delivered. -/
def ComesBack (e : List Char → List Char) (tag : String) (params : List (String × String)) :
    Prop :=
  ∀ seq udata k1 k2 sock n, Delivers (CCNIMsgPacker.new.pack
      (some (dump (written e tag params))) seq udata k1 k2).2.frame sock →
    sock.recvs.length ≤ n →
    ∃ d, decodedDoc createFromXmlCdata n sock = some d ∧ ∀ p ∈ params, textOf d tag p.1 = p.2

variable {dump createFromXmlCdata}

theorem Restores.carries {d : CXmlNode} (h : Restores dump createFromXmlCdata d) :
    Carries dump createFromXmlCdata d := by
  refine ⟨h.nonempty,h.cut,fun d' hd' => ?_⟩
  obtain ⟨d'',hread,hback⟩ := h.returned
  rw [hread,Option.some_inj] at hd'
  exact hd' ▸ hback.reread

theorem written_eq (e : List Char → List Char) (tag : String) (params : List (String × String)) :
    written e tag params = document [parameters tag (expandParams e params)] := by
  rw [← expanded_parameters]
  rfl

variable {e : List Char → List Char} {tag : String} {params : List (String × String)}

theorem expandParams_nodup (hnodup : (params.map Prod.fst).Nodup) :
    ((expandParams e params).map Prod.fst).Nodup := by
  rwa [expandParams,List.map_map]

/-- The parameters come back if the frame is decoded and the reader changes none of them. -/
theorem comesBack_iff (hnodup : (params.map Prod.fst).Nodup)
    (hlib : Restores dump createFromXmlCdata (written e tag params)) :
    ComesBack dump createFromXmlCdata e tag params ↔
      (∀ p ∈ params, e p.2.toList = p.2.toList) ∧
        (dump (written e tag params)).length < CCNI_MAX_LEN := by
  have htext : ∀ d', Returned (written e tag params) d' → ∀ p ∈ params,
      textOf d' tag p.1 = expandText e p.2 := by
    intro d' hback p hp
    rw [written_eq] at hback
    exact textOf_returned (expandParams_nodup hnodup) (List.mem_map_of_mem hp) hback
  have hcarries := hlib.carries
  rw [written_eq] at hcarries
  have hdecoded : ∀ {seq udata k1 k2 sock n}, Delivers (CCNIMsgPacker.new.pack
      (some (dump (written e tag params))) seq udata k1 k2).2.frame sock →
      sock.recvs.length ≤ n → decodedDoc createFromXmlCdata n sock =
        if (dump (written e tag params)).length < CCNI_MAX_LEN then
          createFromXmlCdata (dump (written e tag params)) else none := by
    intro seq udata k1 k2 sock n hs hn
    rw [written_eq] at hs ⊢
    exact decodedDoc_eq hcarries hs hn
  obtain ⟨d',hread,hback⟩ := hlib.returned
  constructor
  · intro h
    obtain ⟨d,hd,hsame⟩ := h 0 0 0 0 _ _ (delivers_stream _) le_rfl
    rw [hdecoded (delivers_stream _) le_rfl] at hd
    split_ifs at hd with hshort
    rw [hread,Option.some_inj] at hd
    refine ⟨fun p hp => ?_,hshort⟩
    rw [← expandText_eq_iff e,← htext d' hback p hp,hd]
    exact hsame p hp
  · intro h seq udata k1 k2 sock n hs hn
    refine ⟨d',?_,fun p hp => ?_⟩
    · rw [hdecoded hs hn,if_pos h.2,hread]
    · rw [htext d' hback p hp]
      exact (expandText_eq_iff _).mpr (h.1 p hp)

theorem written_of_plain (he : ∀ p ∈ params, e p.2.toList = p.2.toList) :
    written e tag params = document [parameters tag params] := by
  have hsame : expandParams e params = params := by
    refine (List.map_congr_left fun p hp => ?_).trans (List.map_id params)
    exact Prod.ext rfl ((expandText_eq_iff _).mpr (he p hp))
  rw [written_eq,hsame]

/-- Texts of legal characters come back, whatever is made of a `&` with no reference, exactly if
there is no `&` in them and the parser takes the length of the document. -/
theorem texts_come_back_iff (hnodup : (params.map Prod.fst).Nodup)
    (hlegal : ∀ p ∈ params, ∀ c ∈ p.2.toList, isLegal c = true)
    (hlib : ∀ e, Expansion e →
      (∀ p ∈ expandParams e params, ∀ c ∈ p.2.toList, isLegal c = true) →
      Restores dump createFromXmlCdata (written e tag params)) :
    (∀ e, Expansion e → ComesBack dump createFromXmlCdata e tag params) ↔
      (∀ p ∈ params, '&' ∉ p.2.toList) ∧
        (dump (document [parameters tag params])).length < CCNI_MAX_LEN := by
  have hrestores : ∀ e, Expansion e → Restores dump createFromXmlCdata (written e tag params) := by
    intro e he
    refine hlib e he fun p hp c hc => ?_
    obtain ⟨q,hq,rfl⟩ := List.mem_map.mp hp
    rw [expandText,String.toList_ofList] at hc
    exact he.legal q.2.toList (hlegal q hq) c hc
  constructor
  · intro h
    have hexpand := (comesBack_iff hnodup (hrestores expand expansion_expand)).mp
      (h expand expansion_expand)
    rw [written_of_plain hexpand.1] at hexpand
    exact ⟨fun p hp => expand_eq_iff.mp (hexpand.1 p hp),hexpand.2⟩
  · intro h e he
    have hplain : ∀ p ∈ params, e p.2.toList = p.2.toList := fun p hp =>
      he.plain p.2.toList (h.1 p hp)
    refine (comesBack_iff hnodup (hrestores e he)).mpr ⟨hplain,?_⟩
    rw [written_of_plain hplain]
    exact h.2

end

/-! ### Two logins -/

theorem restores_known {text : List UInt8} {d : CXmlNode} (hd : d.isElement = true)
    (hne : text ≠ []) : Restores (fun _ => text) (known [(text,laid 0 d)]) d := by
  have hread : known [(text,laid 0 d)] text = some (laid 0 d) := by simp [known]
  have hback := returned_laid 0 d hd
  have hcarries : Carries (fun _ => text) (known [(text,laid 0 d)]) d := by
    refine carries_known hread hback.reread hne ?_
    intro e he hfront
    rw [List.mem_singleton.mp he]
  exact ⟨hcarries.nonempty,hcarries.cut,laid 0 d,hread,hback⟩

def loginParams (uname pwd : String) : List (String × String) :=
  [(xmlTagUserName,uname),(xmlTagPassword,pwd)]

def loginDocument (uname pwd : String) : CXmlNode :=
  document [parameters xmlTagLogin (loginParams uname pwd)]

/-- The text of a login, in which the texts of the two parameters stand as they are given. -/
def loginText (uname pwd : String) : List UInt8 := formatted xmlTagLogin (loginParams uname pwd)

theorem legal_of_all {params : List (String × String)}
    (h : params.all (fun p => p.2.toList.all isLegal) = true) :
    ∀ p ∈ params, ∀ c ∈ p.2.toList, isLegal c = true :=
  fun p hp => List.all_eq_true.mp (List.all_eq_true.mp h p hp)

theorem login_comes_back :
    ComesBack (fun _ => loginText "alice" "secret")
      (known [(loginText "alice" "secret",laid 0 (loginDocument "alice" "secret"))]) expand
      xmlTagLogin (loginParams "alice" "secret") := by
  have hplain : ∀ p ∈ loginParams "alice" "secret", '&' ∉ p.2.toList := by decide
  refine (texts_come_back_iff (by decide) (legal_of_all (by decide)) fun e he _ => ?_).mpr
    ⟨hplain,by decide +kernel⟩ expand expansion_expand
  rw [written_of_plain fun p hp => he.plain p.2.toList (hplain p hp)]
  exact restores_known rfl (Sample.formatted_ne _ _)

theorem expand_password : expand "a&amp;b".toList = "a&b".toList := by
  have hamp := expansion_expand.reference ['a'] ['a','m','p'] ['b'] '&' (by decide) (by decide)
    (by decide)
  rw [expansion_expand.plain ['b'] (by decide)] at hamp
  exact hamp

/-- The password `a&amp;b` is written as `a&b`, and that is what the server sees. -/
theorem login_changed : Expansion expand ∧
    (∀ p ∈ loginParams "alice" "a&amp;b", ∀ c ∈ p.2.toList, isLegal c = true) ∧
    Restores (fun _ => loginText "alice" "a&amp;b")
      (known [(loginText "alice" "a&amp;b",laid 0 (loginDocument "alice" "a&b"))])
      (written expand xmlTagLogin (loginParams "alice" "a&amp;b")) ∧
    ¬ ComesBack (fun _ => loginText "alice" "a&amp;b")
      (known [(loginText "alice" "a&amp;b",laid 0 (loginDocument "alice" "a&b"))]) expand
      xmlTagLogin (loginParams "alice" "a&amp;b") := by
  have hwritten : written expand xmlTagLogin (loginParams "alice" "a&amp;b") =
      loginDocument "alice" "a&b" := by
    have halice : expand "alice".toList = "alice".toList := expand_eq_iff.mpr (by decide)
    simp only [written_eq,expandParams,loginParams,List.map_cons,List.map_nil,expandText,halice,
      expand_password,String.ofList_toList]
    rfl
  have hrestores : Restores (fun _ => loginText "alice" "a&amp;b")
      (known [(loginText "alice" "a&amp;b",laid 0 (loginDocument "alice" "a&b"))])
      (written expand xmlTagLogin (loginParams "alice" "a&amp;b")) := by
    rw [hwritten]
    exact restores_known rfl (Sample.formatted_ne _ _)
  refine ⟨expansion_expand,legal_of_all (by decide),hrestores,fun h => ?_⟩
  have hsame := ((comesBack_iff (by decide) hrestores).mp h).1
    (xmlTagPassword,"a&amp;b") (by decide)
  exact absurd (expand_eq_iff.mp hsame) (by decide)

end CcniServer
