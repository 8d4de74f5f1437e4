import RunNginx.Api
import RunNginx.Api.Backup
import RunNginx.Api.Entropy
import RunNginx.Api.HostedApi
import RunNginx.Api.HostedRuns
import RunNginx.Api.Hosting
import RunNginx.Api.Management
import RunNginx.Api.Metrics
import RunNginx.Api.Provisioning
import RunNginx.Api.RateLimit
import RunNginx.Api.RateWindow
import RunNginx.Api.Reports
import RunNginx.Api.Sessions
import RunNginx.Api.SiteDatabase
import RunNginx.Api.SiteStore
import RunNginx.Api.Sites
import RunNginx.Api.WpConfig
import RunNginx.Auth
import RunNginx.Auth.BasicCredentials
import RunNginx.Cache
import RunNginx.Cache.Store
import RunNginx.Config.AuthText
import RunNginx.Config.Blocks
import RunNginx.Config.Braces
import RunNginx.Config.Complete
import RunNginx.Config.Directives
import RunNginx.Config.External
import RunNginx.Config.Fields
import RunNginx.Config.Files
import RunNginx.Config.IncludeGraph
import RunNginx.Config.IncludedBodies
import RunNginx.Config.Includes
import RunNginx.Config.Insertion
import RunNginx.Config.LocationOrder
import RunNginx.Config.Provenance
import RunNginx.Config.ProxyText
import RunNginx.Config.References
import RunNginx.Config.ServerBodies
import RunNginx.Config.ServerOrder
import RunNginx.Config.Shapes
import RunNginx.Config.Sizes
import RunNginx.Config.Statements
import RunNginx.Config.TokenText
import RunNginx.Config.Tokens
import RunNginx.Config.Types
import RunNginx.Config.Whole
import RunNginx.FastCgi
import RunNginx.FastCgi.CgiText
import RunNginx.FastCgi.Params
import RunNginx.FastCgi.Records
import RunNginx.FastCgi.Reply
import RunNginx.Firewall
import RunNginx.Http.Compress
import RunNginx.Http.Limits
import RunNginx.Http2
import RunNginx.IcmpGuard
import RunNginx.IcmpResidue
import RunNginx.IcmpRules
import RunNginx.IoRing
import RunNginx.Lib.Base64
import RunNginx.Lib.ByteString
import RunNginx.Lib.ChunkedBody
import RunNginx.Lib.Cuts
import RunNginx.Lib.Decimal
import RunNginx.Lib.DeviceQueue
import RunNginx.Lib.EarlyReturn
import RunNginx.Lib.FieldText
import RunNginx.Lib.FileTree
import RunNginx.Lib.Framed
import RunNginx.Lib.Gregorian
import RunNginx.Lib.HeadOnly
import RunNginx.Lib.HttpMessage
import RunNginx.Lib.IpAddr
import RunNginx.Lib.IpText
import RunNginx.Lib.JsonText
import RunNginx.Lib.LaneMask
import RunNginx.Lib.LastItems
import RunNginx.Lib.Lexer
import RunNginx.Lib.LexicalPath
import RunNginx.Lib.LfLines
import RunNginx.Lib.Longest
import RunNginx.Lib.LossyText
import RunNginx.Lib.Parse
import RunNginx.Lib.PathText
import RunNginx.Lib.PercentCode
import RunNginx.Lib.Persistence
import RunNginx.Lib.PhpText
import RunNginx.Lib.Ranks
import RunNginx.Lib.Reading
import RunNginx.Lib.RecordStream
import RunNginx.Lib.RenamedTable
import RunNginx.Lib.Replace
import RunNginx.Lib.Revalidated
import RunNginx.Lib.RoundRobin
import RunNginx.Lib.RuleChain
import RunNginx.Lib.Run
import RunNginx.Lib.Slice
import RunNginx.Lib.SqlText
import RunNginx.Lib.Storage
import RunNginx.Lib.Stream
import RunNginx.Lib.Table
import RunNginx.Lib.TokenBucket
import RunNginx.Lib.Trimmed
import RunNginx.Lib.Undo
import RunNginx.Lib.Updates
import RunNginx.Lib.Utf8
import RunNginx.LimitReq
import RunNginx.MultiUser.Creation
import RunNginx.MultiUser.Persistence
import RunNginx.MultiUser.Registry
import RunNginx.MultiUser.UserApi
import RunNginx.NumaPin
import RunNginx.Proxy
import RunNginx.Proxy.Completeness
import RunNginx.Proxy.Messages
import RunNginx.Proxy.PathMapping
import RunNginx.Proxy.Pool
import RunNginx.Rewrite
import RunNginx.Router
import RunNginx.Router.Locations
import RunNginx.Router.Priority
import RunNginx.Router.Reached
import RunNginx.Router.Servers
import RunNginx.ScanDetector
import RunNginx.ScanDetector.Probes
import RunNginx.ScanDetector.Reports
import RunNginx.Server.Answers
import RunNginx.Server.AuthMediation
import RunNginx.Server.BodySize
import RunNginx.Server.CacheCoherence
import RunNginx.Server.CacheKeys
import RunNginx.Server.ClientView
import RunNginx.Server.Dispatch
import RunNginx.Server.Exits
import RunNginx.Server.FieldValues
import RunNginx.Server.Framing
import RunNginx.Server.Handler
import RunNginx.Server.HeadAnswers
import RunNginx.Server.HeadPrefix
import RunNginx.Server.HopByHop
import RunNginx.Server.Hsts
import RunNginx.Server.KeepAlive
import RunNginx.Server.Listener
import RunNginx.Server.LocalAnswers
import RunNginx.Server.LogLines
import RunNginx.Server.LogTime
import RunNginx.Server.LogWriter
import RunNginx.Server.Negotiation
import RunNginx.Server.PercentDecoding
import RunNginx.Server.RangeAnswers
import RunNginx.Server.RangeArithmetic
import RunNginx.Server.Records
import RunNginx.Server.Relay
import RunNginx.Server.Request
import RunNginx.Server.Response
import RunNginx.Server.ResponseSplitting
import RunNginx.Server.Revalidation
import RunNginx.Server.Rewrites
import RunNginx.Server.RewrittenScripts
import RunNginx.Server.ScriptJail
import RunNginx.Server.SilentStatic
import RunNginx.Server.SsrfGuard
import RunNginx.Server.StaticFiles
import RunNginx.Server.System
import RunNginx.Server.Transparency
import RunNginx.Server.TryFiles
import RunNginx.Server.UnreachedServers
import RunNginx.Server.UpstreamFields
import RunNginx.Server.UriCheck
import RunNginx.Server.WireRequest
import RunNginx.Simd
import RunNginx.Simd.Grammar
import RunNginx.Simd.Indexed
import RunNginx.Simd.Scan
import RunNginx.Stats
import RunNginx.Stats.Percentiles
import RunNginx.Upstream
import RunNginx.Upstream.Health
import RunNginx.Upstream.Selection
import RunNginx.WebSocket
import RunNginx.WebSocket.Handshake
