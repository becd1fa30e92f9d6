import CcniServer.Lib.OrdMap
import CcniServer.Xml

/-! The clients of the server and the jobs they hand to the thread pool. A client is named by
the address of its `CClient` object. -/
namespace CcniServer

abbrev CClientPtr := ℕ
abbrev CUdpSockDataPtr := ℕ

structure SockaddrIn where
  sin_addr : UInt32
  sin_port : UInt16
  deriving DecidableEq, Inhabited

/-- Messages to the addresses collected for each udp socket. -/
structure CBroadCaster where
  msg : List CXmlNode
  broadcaster : OrdMap CUdpSockDataPtr (List SockaddrIn)

namespace CBroadCaster

def create : CBroadCaster := ⟨[],OrdMap.empty⟩

def empty (b : CBroadCaster) : Bool := b.broadcaster.size = 0

def append (b : CBroadCaster) (m : CXmlNode) : CBroadCaster := { b with msg := b.msg ++ [m] }

def insertaddr (b : CBroadCaster) (udp : CUdpSockDataPtr) (addr : SockaddrIn) : CBroadCaster :=
  match b.broadcaster.find? udp with
  | none => { b with broadcaster := b.broadcaster.insert udp [addr] }
  | some lst => { b with broadcaster := b.broadcaster.insert udp (lst ++ [addr]) }

end CBroadCaster

/-- Messages to a list of clients. -/
structure CNotifier where
  msg : List CXmlNode
  clis : List CClientPtr

namespace CNotifier

def create : CNotifier := ⟨[],[]⟩

def empty (n : CNotifier) : Bool := n.clis.isEmpty

def append (n : CNotifier) (m : CXmlNode) : CNotifier := { n with msg := n.msg ++ [m] }

def addNotifiee (n : CNotifier) (c : CClientPtr) : CNotifier := { n with clis := n.clis ++ [c] }

def addNotifiees (n : CNotifier) (cs : List CClientPtr) : CNotifier := cs.foldl addNotifiee n

end CNotifier

/-- What is handed to `CThreadsPool::assign` by the message handlers. -/
inductive CJob
  | broadCaster (b : CBroadCaster)
  | notifier (n : CNotifier)

namespace CClient

/-- `CClient::state_t`. -/
inductive State
  | stOffline
  | stOnline
  | stIdle
  | stSessional
  | stReady
  | stWatching
  | stMoving
  | stPondering
  deriving DecidableEq, Repr

namespace State

def val : State → ℕ
  | stOffline => 0
  | stOnline => 0x01
  | stIdle => 0x02
  | stSessional => 0x04
  | stReady => 0x08
  | stWatching => 0x10
  | stMoving => 0x20
  | stPondering => 0x40

def str : State → String
  | stOffline => "Offline"
  | stOnline => "Online"
  | stIdle => "Idle"
  | stSessional => "Sessional"
  | stReady => "Ready"
  | stWatching => "Watching"
  | stMoving => "Moving"
  | stPondering => "Pondering"

def stConnected : ℕ := stOnline.val ||| stIdle.val ||| stSessional.val ||| stReady.val |||
  stWatching.val ||| stMoving.val ||| stPondering.val
def stInRoom : ℕ := stIdle.val ||| stSessional.val ||| stReady.val ||| stWatching.val |||
  stMoving.val ||| stPondering.val
def stInSession : ℕ := stSessional.val ||| stReady.val ||| stWatching.val
def stPlaying : ℕ := stMoving.val ||| stPondering.val

/-- The state lies in a combined state: `(_state & mask) != 0`. -/
def isIn (st : State) (mask : ℕ) : Bool := st.val &&& mask ≠ 0

end State
end CClient

/-- A `CClient` object without its socket. A missing broadcaster or notifier is a null
pointer. -/
structure CClient where
  state : CClient.State
  udp : CUdpSockDataPtr
  udpaddr : SockaddrIn
  uname : String
  roomid : ℤ
  sessionid : ℤ
  resmsg : List CXmlNode
  bder : Option CBroadCaster
  notifier : Option CNotifier
  ctsk : Bool

namespace CClient

/-- The constructor, before a `CClientTask` refers to the object. -/
def new (udp : CUdpSockDataPtr) (udpaddr : SockaddrIn) (uname : String) : CClient where
  state := .stOnline
  udp := udp
  udpaddr := udpaddr
  uname := uname
  roomid := -1
  sessionid := -1
  resmsg := []
  bder := none
  notifier := none
  ctsk := false

/-- An address no client lives at. -/
def absent : CClient := { new 0 default "" with state := .stOffline }

end CClient

/-- The addresses of a list of clients, inserted in turn. -/
def CBroadCaster.insertaddrs (b : CBroadCaster) (heap : CClientPtr → CClient)
    (cs : List CClientPtr) : CBroadCaster :=
  cs.foldl (fun b c => b.insertaddr (heap c).udp (heap c).udpaddr) b

end CcniServer
