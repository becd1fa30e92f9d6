import CcniServer.Db.Statements
import CcniServer.Keys.SecKeyMap
import CcniServer.Wire.Parser

/-!
Two buffers of a fixed size that texts from outside are copied into: the statement with the
user name of a `Login` message, and the input of the digest with the configured secret.
-/
namespace CcniServer

theorem length_bytes_replicate {c : Char} (h : c.utf8Size = 1) (n : ℕ) :
    (bytes (List.replicate n c)).length = n := by
  rw [length_bytes fun d hd => (List.eq_of_mem_replicate hd).symm ▸ h,List.length_replicate]

theorem c_str_replicate {c : Char} (h : c ≠ Char.ofNat 0) (n : ℕ) :
    (c_str (String.ofList (List.replicate n c))).val = List.replicate n c := by
  simp [c_str,h]

/-! ### The statement -/

def CCNIMsgParser.getmsg (p : CCNIMsgParser) (msgname : String) : Option CXmlNode :=
  CXmlNode.findChild p.doc msgname

namespace CTcpJob
open CXmlNode

/-- The name that `doLogin` hands to `verifyUser`, where the first message is a `Login`. -/
def username (p : CCNIMsgParser) : Option CString :=
  (p.getmsg xmlTagLogin).map
    (fun msglogin => c_str (getContent (findChild (some msglogin) xmlTagUserName)))

end CTcpJob

/-- A frame that the parser has accepted, with the user name of its `Login` message. -/
structure LoginFrame (createFromXmlCdata : List UInt8 → Option CXmlNode) where
  frame : List UInt8
  parser : CCNIMsgParser
  name : CString
  read : CCNIMsgParser.Parsed frame parser
  parse : (parser.parse createFromXmlCdata).1 = true
  login : CTcpJob.username (parser.parse createFromXmlCdata).2 = some name

/-- What `sprintf` writes into `sqlBuf`, the closing NUL included. -/
def sqlBuf (name : CString) : List UInt8 := bytes (Statement.verifyUser name).printed ++ [0]

theorem length_sqlBuf (name : CString) : (sqlBuf name).length = (bytes name.val).length + 34 := by
  rw [sqlBuf,List.length_append,Statement.length_verifyUser]
  rfl

/-! ### The digest -/

def SockaddrIn.toBytes (addr : SockaddrIn) : List UInt8 :=
  Bytes.le 2 2 ++ (Bytes.le 2 addr.sin_port.toNat ++ (Bytes.le 4 addr.sin_addr.toNat ++
    List.replicate 8 0))

namespace CSecKeyMap

def GENSECRET_BUFLEN : ℕ := 512

/-- The bytes that `genSecret` copies into `buf`. -/
def genSecretBuf (serno : UInt32) (addr : SockaddrIn) (sec : CString) : List UInt8 :=
  Bytes.le 4 serno.toNat ++ (addr.toBytes ++ bytes sec.val)

theorem length_genSecretBuf (serno : UInt32) (addr : SockaddrIn) (sec : CString) :
    (genSecretBuf serno addr sec).length = (bytes sec.val).length + 20 := by
  simp only [genSecretBuf,SockaddrIn.toBytes,List.length_append,Bytes.length_le,
    List.length_replicate]
  omega

end CSecKeyMap

/-- The secret of the configuration, or the default in place of an empty one. -/
def CConfig.secret (content : String) : String := if content = "" then "hello" else content

open CSecKeyMap

/-- The statement fits exactly when the name has at most 2014 bytes, and the input of the digest
exactly when the secret has at most 492. -/
theorem buffers_hold_iff (createFromXmlCdata : List UInt8 → Option CXmlNode)
    (f : LoginFrame createFromXmlCdata) (content : String) (serno : UInt32) (addr : SockaddrIn) :
    ((sqlBuf f.name).length ≤ SQL_BUFLEN ↔ (bytes f.name.val).length ≤ 2014) ∧
    ((genSecretBuf serno addr (c_str (CConfig.secret content))).length ≤ GENSECRET_BUFLEN ↔
      (bytes (c_str content).val).length ≤ 492) := by
  constructor
  · rw [length_sqlBuf,SQL_BUFLEN]
    omega
  · rw [length_genSecretBuf,GENSECRET_BUFLEN,CConfig.secret]
    by_cases h : content = ""
    · rw [h]
      decide
    · rw [if_neg h]
      omega

/-! ### A name that does not fit -/

def longName : String := String.ofList (List.replicate 2015 'a')

def longBody : List UInt8 :=
  bytes "<CCNIMessages><Login><UserName>".toList ++ (bytes (List.replicate 2015 'a') ++
    bytes "</UserName></Login></CCNIMessages>".toList)

open CXmlNode in
def longRoot : CXmlNode :=
  element xmlTagCCNIMessages [element xmlTagLogin [element xmlTagUserName [text longName]]]

/-- A reader that knows the one document. -/
def readLong (bs : List UInt8) : Option CXmlNode := if bs = longBody then some longRoot else none

theorem length_longBody : longBody.length = 2080 := by
  have hname := length_bytes_replicate (c := 'a') (by decide) 2015
  have hfront : (bytes "<CCNIMessages><Login><UserName>".toList).length = 31 := by decide
  have hback : (bytes "</UserName></Login></CCNIMessages>".toList).length = 34 := by decide
  rw [longBody,List.length_append,List.length_append,hname,hfront,hback]

def longHeader : CCNI_HEADER := { CCNI_HEADER.new with datalen := 2080 }

def longParser : CCNIMsgParser where
  hd := longHeader.toBytes
  data := some longBody
  state := .st_rdok
  pos := 0
  doc := none

theorem longParser_read : CCNIMsgParser.Parsed (longHeader.toBytes ++ longBody) longParser := by
  have hheader : longParser.header = longHeader := CCNI_HEADER.ofBytes_toBytes longHeader
  have hlen := CCNI_HEADER.length_toBytes longHeader
  refine .complete rfl ?_ ?_ ?_ ?_ ?_
  · rw [← hlen,List.take_left]
    rfl
  · rw [hheader]
    decide
  · rw [hheader,List.length_append,hlen,length_longBody]
    decide
  · rw [← hlen,List.drop_left]
    rfl
  · rw [hheader]
    decide

theorem longParser_parse :
    longParser.parse readLong = (true,{ longParser with doc := some longRoot }) := by
  have hread : readLong longBody = some longRoot := if_pos rfl
  simp [CCNIMsgParser.parse,longParser,hread,longRoot,CXmlNode.name]

def longLogin : LoginFrame readLong where
  frame := longHeader.toBytes ++ longBody
  parser := longParser
  name := c_str longName
  read := longParser_read
  parse := by rw [longParser_parse]
  login := by
    rw [longParser_parse]
    simp [CTcpJob.username,CCNIMsgParser.getmsg,longRoot,CXmlNode.findChild,CXmlNode.children,
      CXmlNode.isNamed,CXmlNode.isElement,CXmlNode.name,CXmlNode.getContent,CXmlNode.content,
      CXmlNode.contents]

/-- A `Login` message with a name of 2015 bytes is accepted, and its statement takes 2049. -/
theorem long_name_overflows : ¬ (sqlBuf longLogin.name).length ≤ SQL_BUFLEN := by
  have hname : longLogin.name.val = List.replicate 2015 'a' := c_str_replicate (by decide) 2015
  rw [length_sqlBuf,hname,length_bytes_replicate (by decide)]
  decide

end CcniServer
