import CcniServer.Lib.OrdSet
import CcniServer.Lib.OrdMap
import CcniServer.Lib.Lts
import CcniServer.Xml
import CcniServer.Hall.Simulation
import CcniServer.Hall.Invariant
import CcniServer.Hall.Preservation
import CcniServer.Hall.Membership
import CcniServer.Hall.Asserts
import CcniServer.Hall.Games
import CcniServer.Hall.SessionIds
import CcniServer.Hall.Replies
import CcniServer.Lib.Quoted
import CcniServer.Db.Statements
import CcniServer.Db.Buffers
import CcniServer.Lib.Deltas
import CcniServer.Hall.Lobby
import CcniServer.Udp.Broadcast
import CcniServer.Libccni.Talk
import CcniServer.Libccni.Outcomes
import CcniServer.Pool.Notifications
import CcniServer.Lib.Bytes
import CcniServer.Wire.Header
import CcniServer.Wire.Parser
import CcniServer.Wire.Packer
import CcniServer.Wire.RoundTrip
import CcniServer.Wire.Documents
import CcniServer.Client.Io
import CcniServer.Client.Framing
import CcniServer.Client.Fragmentation
import CcniServer.Epoll.Threads
import CcniServer.Lib.Token
import CcniServer.Login.Registration
import CcniServer.Epoll.Ownership
import CcniServer.Epoll.Atomic
import CcniServer.Keys.SecKeyMap
import CcniServer.Lib.History
import CcniServer.Keys.Redeem
import CcniServer.Keys.Expiry
import CcniServer.Keys.UdpJob
import CcniServer.Wire.Chunks
import CcniServer.Pool.ThreadsPool
import CcniServer.Hall.Refusals
import CcniServer.Hall.Batches
import CcniServer.Libccni.Lists
import CcniServer.Lib.References
import CcniServer.Libccni.Parameters
import CcniServer.Lib.LockOrder
import CcniServer.Threads.Locks
import CcniServer.Login.Descriptors
import CcniServer.Lib.Grouped
import CcniServer.Hall.Recipients
import CcniServer.Hall.Starts
import CcniServer.Config.Pointers
import CcniServer.Threads.Event
import CcniServer.Config.Addresses
import CcniServer.Config.Rooms
import CcniServer.Config.Config
import CcniServer.Config.Missing
import CcniServer.Libccni.Sockets
import CcniServer.Keys.Secrets
import CcniServer.Threads.ReadWrite
import CcniServer.Wire.Reuse
import CcniServer.Lib.Pieces
import CcniServer.Wire.Senders
import CcniServer.Lib.Printed
import CcniServer.Log.Dump
import CcniServer.Lib.Seating
import CcniServer.Hall.Guests
import CcniServer.Hall.Refinement
import CcniServer.Hall.LifeCycle
import CcniServer.Hall.Notices
import CcniServer.Hall.Mirror
import CcniServer.Hall.Sections
import CcniServer.Hall.Operations
import CcniServer.Hall.Interleaving
import CcniServer.Hall.Linear
import CcniServer.Hall.Races
import CcniServer.Hall.Serial
import CcniServer.Log.Logger
import CcniServer.Log.Files
import CcniServer.Log.Pipeline
import CcniServer.Keys.Bound
import CcniServer.Hall.Identity
import CcniServer.Login.Admission
import CcniServer.Hall.Draws
