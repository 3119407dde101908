import Gravastar.Blocklist
import Gravastar.Bytes
import Gravastar.Cache
import Gravastar.Cache.Contents
import Gravastar.Cache.History
import Gravastar.Cache.Invariant
import Gravastar.Cache.Refinement
import Gravastar.Cache.Representation
import Gravastar.Config
import Gravastar.Config.Arrays
import Gravastar.Config.BlocklistFiles
import Gravastar.Config.MainConfig
import Gravastar.Config.Numbers
import Gravastar.Config.RecordFiles
import Gravastar.Config.RecordTables
import Gravastar.Config.Values
import Gravastar.Config.WholeFiles
import Gravastar.ControllerLog
import Gravastar.DnsPacket.Answer
import Gravastar.DnsPacket.Blanking
import Gravastar.DnsPacket.Build
import Gravastar.DnsPacket.CompressedNames
import Gravastar.DnsPacket.DecodedAnswers
import Gravastar.DnsPacket.Echo
import Gravastar.DnsPacket.Encode
import Gravastar.DnsPacket.Grammar
import Gravastar.DnsPacket.Names
import Gravastar.DnsPacket.PtrAnswers
import Gravastar.DnsPacket.Query
import Gravastar.DnsPacket.Read
import Gravastar.DnsPacket.Rebind
import Gravastar.DnsPacket.Rewrite
import Gravastar.DnsPacket.Safety
import Gravastar.DnsPacket.Targets
import Gravastar.DnsPacket.Walk
import Gravastar.DnsServer
import Gravastar.DnsServer.CacheKey
import Gravastar.DnsServer.ClientNames
import Gravastar.DnsServer.FailedLookups
import Gravastar.DnsServer.Forwarding
import Gravastar.DnsServer.Freshness
import Gravastar.DnsServer.Interleaving
import Gravastar.DnsServer.JobQueue
import Gravastar.DnsServer.LetterCase
import Gravastar.DnsServer.LocalAnswers
import Gravastar.DnsServer.MxValues
import Gravastar.DnsServer.Precedence
import Gravastar.DnsServer.RebindSafety
import Gravastar.DnsServer.Replies
import Gravastar.DnsServer.Runs
import Gravastar.DnsServer.Service
import Gravastar.DnsServer.Settled
import Gravastar.DnsServer.Shutdown
import Gravastar.DnsServer.Turns
import Gravastar.DnsServer.WakeUps
import Gravastar.Lib.Accounting
import Gravastar.Lib.Handles
import Gravastar.Lib.Machine
import Gravastar.Lib.Marker
import Gravastar.Lib.Progress
import Gravastar.Lib.Recency
import Gravastar.Lib.Scripted
import Gravastar.Lib.Settings
import Gravastar.Lib.Simulation
import Gravastar.Lib.Traced
import Gravastar.LocalRecords
import Gravastar.Numerals
import Gravastar.Program
import Gravastar.QueryLogger
import Gravastar.QueryLogger.Lines
import Gravastar.QueryLogger.Rotation
import Gravastar.RotatingLog
import Gravastar.RotatingLog.Names
import Gravastar.RotatingLog.Retention
import Gravastar.RotatingLog.WholeLines
import Gravastar.StartUp
import Gravastar.UpstreamBlocklist
import Gravastar.UpstreamBlocklist.AllOrNothing
import Gravastar.UpstreamBlocklist.ArrayFiles
import Gravastar.UpstreamBlocklist.CacheFiles
import Gravastar.UpstreamBlocklist.Formats
import Gravastar.UpstreamBlocklist.GeneratedFile
import Gravastar.UpstreamBlocklist.HttpErrors
import Gravastar.UpstreamBlocklist.MixedLists
import Gravastar.UpstreamBlocklist.Sources
import Gravastar.UpstreamBlocklist.TrailingComments
import Gravastar.UpstreamBlocklist.UpdaterThread
import Gravastar.UpstreamResolver
import Gravastar.UpstreamResolver.Connection
import Gravastar.UpstreamResolver.Framing
import Gravastar.UpstreamResolver.HostPort
