import Libpomelo.Package
import Libpomelo.PackageStream
import Libpomelo.FeedTurn
import Libpomelo.Ring
import Libpomelo.Map
import Libpomelo.MapRefinement
import Libpomelo.MapReplace
import Libpomelo.MapStores
import Libpomelo.MapOrder
import Libpomelo.Listeners
import Libpomelo.ListenerRegistry
import Libpomelo.BinaryFloat
import Libpomelo.Json
import Libpomelo.PbEncode
import Libpomelo.PbDecode
import Libpomelo.Leb128
import Libpomelo.Outcome
import Libpomelo.PbWire
import Libpomelo.PbSchema
import Libpomelo.PbRoundtrip
import Libpomelo.PbLimits
import Libpomelo.PbBounds
import Libpomelo.PbSizing
import Libpomelo.PbStores
import Libpomelo.PbGrammar
import Libpomelo.PbReading
import Libpomelo.PbFaults
import Libpomelo.PbSync
import Libpomelo.PbVarint
import Libpomelo.PbComplete
import Libpomelo.PbLossless
import Libpomelo.PbKinds
import Libpomelo.Message
import Libpomelo.MessageRoundtrip
import Libpomelo.MessageStores
import Libpomelo.MessageBounds
import Libpomelo.Protocol
import Libpomelo.ParsedRoute
import Libpomelo.RouteDictionary
import Libpomelo.BodyEncoding
import Libpomelo.Lts
import Libpomelo.ParserInvariant
import Libpomelo.ParserBlock
import Libpomelo.Client
import Libpomelo.Handshake
import Libpomelo.Network
import Libpomelo.System
import Libpomelo.Moves
import Libpomelo.Turns
import Libpomelo.Acts
import Libpomelo.RequestOnce
import Libpomelo.Lifecycle
import Libpomelo.ParserLife
import Libpomelo.FeedStop
import Libpomelo.RequestIds
import Libpomelo.ProtoVersions
import Libpomelo.CallbackStatus
import Libpomelo.Established
import Libpomelo.Heartbeats
import Libpomelo.Intervals
import Libpomelo.Closed
import Libpomelo.OneTransport
import Libpomelo.ConnectWait
import Libpomelo.Disconnect
import Libpomelo.Destroy
import Libpomelo.ConnectOnce
import Libpomelo.ConnectAtomic
import Libpomelo.ConnectionReset
import Libpomelo.Recovery
import Libpomelo.ReconnectDelay
import Libpomelo.HandshakeReply
import Libpomelo.WriteAttachments
import Libpomelo.SendStages
import Libpomelo.JsonDump
import Libpomelo.PbScratch
import Libpomelo.Utf8
import Libpomelo.JsonUtf
import Libpomelo.JsonLex
import Libpomelo.JsonScan
import Libpomelo.JsonLoad
import Libpomelo.JsonAccept
import Libpomelo.JsonReread
import Libpomelo.JsonReal
import Libpomelo.JsonRoundtrip
import Libpomelo.MessageStream
import Libpomelo.WireOrder
import Libpomelo.CallbackOwed
import Libpomelo.Aftermath
import Libpomelo.Winding
import Libpomelo.RequestMap
