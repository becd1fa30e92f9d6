import CcniServer.Config.Addresses
import CcniServer.Config.Rooms

/-! The configuration file: what `CConfig::create` reads from a document, with its defaults. -/
namespace CcniServer

abbrev xmlHallConfig := "HallConfig"
abbrev xmlCCNIServerConfiguration := "CCNIServerConfiguration"
abbrev xmlTCPListenIPList := "TCPListenIPList"
abbrev xmlUDPListenIPList := "UDPListenIPList"
abbrev xmlLogConfig := "LogConfig"
abbrev xmlPath := "Path"
abbrev xmlLogLogin := "LogLogin"
abbrev xmlLogLogout := "LogLogout"
abbrev xmlDBPathName := "DBPathName"
abbrev xmlSecret := "Secret"
abbrev xmlPoolThreadCount := "PoolThreadCount"
abbrev xmlUserListenThreadCount := "UserListenThreadCount"
abbrev xmlLoginTimeOut := "LoginTimeOut"
abbrev xmlSecretKeyTimeOut := "SecretKeyTimeOut"

/-- The content of a child, a default where it is empty. -/
def contentOr (nd : CXmlNodePtr) (tag dflt : String) : String :=
  let v := (nd.findChild tag).getContent
  if v = "" then dflt else v

/-- The number in a child as an `unsigned int`, a default where it is zero. -/
def countOr (nd : CXmlNodePtr) (tag : String) (dflt : ℕ) : ℕ :=
  let v := Scan.toUInt32 (nd.findChild tag).getIntContent
  if v = 0 then dflt else v

/-- A path that is not absolute is one below the directory of the program. -/
def absolute (executable_path path : String) : String :=
  if path.toList.head? = some '/' then path else executable_path ++ path

structure CLogConfig where
  path : String
  login : Bool
  logout : Bool

def CLogConfig.create (executable_path : String) (nd : CXmlNodePtr) : CLogConfig where
  path := absolute executable_path (contentOr nd xmlPath (executable_path ++ "logs/")) ++ "ccni.evt."
  login := (nd.findChild xmlLogLogin).getIntContent = 1
  logout := (nd.findChild xmlLogLogout).getIntContent = 1

/-- The rooms come with the counter of `generateId`; there are none where it overflowed. -/
structure CConfig.Data where
  tcplst : List SockaddrIn
  udplst : List SockaddrIn
  logcfg : CLogConfig
  secret : String
  dburl : String
  pool_threads : ℕ
  usr_listen_threads : ℕ
  login_timeout : ℕ
  secret_timeout : ℕ
  hallcfg : Option (ℕ × List CRoomConfig)

namespace CConfig

/-- The configuration, once the lists and the rooms are read. -/
def fill (executable_path : String) (root : CXmlNodePtr) (tcplst udplst : List SockaddrIn)
    (hallcfg : Option (ℕ × List CRoomConfig)) : Data where
  tcplst := tcplst
  udplst := udplst
  logcfg := CLogConfig.create executable_path (root.findChild xmlLogConfig)
  secret := contentOr root xmlSecret "hello"
  dburl := absolute executable_path (contentOr root xmlDBPathName (executable_path ++ "db/ccni.db"))
  pool_threads := countOr root xmlPoolThreadCount 4
  usr_listen_threads := countOr root xmlUserListenThreadCount 1
  login_timeout := countOr root xmlLoginTimeOut 5
  secret_timeout := countOr root xmlSecretKeyTimeOut 5
  hallcfg := hallcfg

/-- Nothing for a document with another root. -/
def create (executable_path : String) (doc : CXmlDoc) : Derefs (Option Data) := do
  let root := doc.getRoot
  if (← root.name) ≠ xmlCCNIServerConfiguration then return none
  let tcplst ← _parseAddrLst [] (root.findChild xmlTCPListenIPList)
  let udplst ← _parseAddrLst [] (root.findChild xmlUDPListenIPList)
  let hallcfg ← CHallConfig.create 0 (root.findChild xmlHallConfig)
  return some (fill executable_path root tcplst.2 udplst.2 hallcfg)

theorem parseAddrLst_ok (lst : List SockaddrIn) (nd : CXmlNodePtr) :
    ∃ res, _parseAddrLst lst nd = .ok res := by
  cases nd with
  | nil => exact ⟨_,rfl⟩
  | cons n ns =>
    obtain ⟨addrs,hparse,-⟩ := parseAddrLst_cons lst n ns
    exact ⟨_,hparse⟩

/-- What a configuration comes from. -/
theorem create_some {executable_path : String} {doc : CXmlDoc} {cfg : Option Data}
    (h : create executable_path doc = .ok cfg) (hroot : doc.root.name = xmlCCNIServerConfiguration) :
    ∃ tcplst udplst hallcfg,
      CHallConfig.create 0 (doc.getRoot.findChild xmlHallConfig) = .ok hallcfg ∧
      cfg = some (fill executable_path doc.getRoot tcplst udplst hallcfg) := by
  simp only [create] at h
  obtain ⟨_,hname,h⟩ := Derefs.bind_eq_ok.mp h
  cases hname
  rw [if_neg (not_not.mpr hroot)] at h
  obtain ⟨tcplst,-,h⟩ := Derefs.bind_eq_ok.mp h
  obtain ⟨udplst,-,h⟩ := Derefs.bind_eq_ok.mp h
  obtain ⟨hallcfg,hhallcfg,h⟩ := Derefs.bind_eq_ok.mp h
  exact ⟨tcplst.2,udplst.2,hallcfg,hhallcfg,(Except.ok.inj h).symm⟩

/-- The other lists may be missing, the element with the rooms may not. -/
theorem create_ok_iff (executable_path : String) (doc : CXmlDoc) :
    (∃ cfg, create executable_path doc = .ok cfg) ↔
      (doc.root.name = xmlCCNIServerConfiguration →
        (CXmlNode.findChild (some doc.root) xmlHallConfig).isSome) := by
  have hhall : (CXmlNode.findChild (some doc.root) xmlHallConfig).isSome ↔
      ∃ hallcfg, CHallConfig.create 0 (doc.getRoot.findChild xmlHallConfig) = .ok hallcfg :=
    (CXmlNodePtr.findChild_ne_nil (p := doc.getRoot)).symm.trans
      (CXmlNodePtr.child_each_ok_iff xmlRoom CHallConfig.addRoom _ _).symm
  rw [hhall]
  constructor
  · rintro ⟨cfg,h⟩ hroot
    obtain ⟨_,_,hallcfg,hhallcfg,-⟩ := create_some h hroot
    exact ⟨hallcfg,hhallcfg⟩
  · intro h
    by_cases hroot : doc.root.name = xmlCCNIServerConfiguration
    · obtain ⟨hallcfg,hhallcfg⟩ := h hroot
      obtain ⟨tcplst,htcp⟩ := parseAddrLst_ok [] (doc.getRoot.findChild xmlTCPListenIPList)
      obtain ⟨udplst,hudp⟩ := parseAddrLst_ok [] (doc.getRoot.findChild xmlUDPListenIPList)
      refine ⟨some (fill executable_path doc.getRoot tcplst.2 udplst.2 hallcfg),?_⟩
      simp only [create]
      refine Derefs.bind_eq_ok.mpr ⟨_,rfl,?_⟩
      rw [if_neg (not_not.mpr hroot)]
      refine Derefs.bind_eq_ok.mpr ⟨tcplst,htcp,?_⟩
      refine Derefs.bind_eq_ok.mpr ⟨udplst,hudp,?_⟩
      exact Derefs.bind_eq_ok.mpr ⟨hallcfg,hhallcfg,rfl⟩
    · refine ⟨none,?_⟩
      simp only [create,CXmlDoc.getRoot,CXmlNodePtr.name]
      exact if_pos hroot

theorem countOr_ne_zero (nd : CXmlNodePtr) (tag : String) {dflt : ℕ} (h : dflt ≠ 0) :
    countOr nd tag dflt ≠ 0 := by
  simp only [countOr]
  split_ifs with hzero
  · exact h
  · exact hzero

/-- No number of a configuration is zero, and its secret is not empty. -/
theorem create_defaults {executable_path : String} {doc : CXmlDoc} {cfg : Data}
    (h : create executable_path doc = .ok (some cfg)) :
    cfg.pool_threads ≠ 0 ∧ cfg.usr_listen_threads ≠ 0 ∧ cfg.login_timeout ≠ 0 ∧
      cfg.secret_timeout ≠ 0 ∧ cfg.secret ≠ "" := by
  have hroot : doc.root.name = xmlCCNIServerConfiguration := by
    by_contra hroot
    simp only [create,CXmlDoc.getRoot,CXmlNodePtr.name] at h
    cases h.symm.trans (if_pos hroot)
  obtain ⟨tcplst,udplst,hallcfg,-,hcfg⟩ := create_some h hroot
  cases hcfg
  refine ⟨countOr_ne_zero _ _ (by decide),countOr_ne_zero _ _ (by decide),
    countOr_ne_zero _ _ (by decide),countOr_ne_zero _ _ (by decide),?_⟩
  simp only [fill,contentOr]
  split_ifs with hempty
  · decide
  · exact hempty

end CConfig
end CcniServer
