import SubConverter.Lib.Wire
import SubConverter.Lib.Table
import SubConverter.Lib.RollingWindow
import SubConverter.Lib.PrefixScan
import SubConverter.Lib.Fs
import SubConverter.Statistics.Data
import SubConverter.Statistics.Core
import SubConverter.Statistics.Windows
import SubConverter.Statistics.Hours
import SubConverter.Statistics.Runs
import SubConverter.Statistics.Codec
import SubConverter.Statistics.RoundTrip
import SubConverter.Statistics.Accepted
import SubConverter.Statistics.Restart
import SubConverter.Statistics.Dirty
import SubConverter.Statistics.Checkpoints
import SubConverter.Statistics.Wal
import SubConverter.Statistics.Store
import SubConverter.Statistics.Recovery
import SubConverter.Statistics.Appends
import SubConverter.Dashboard.FailureLimiter
import SubConverter.Dashboard.Lockout
import SubConverter.Lib.Script
import SubConverter.Lib.Delimited
import SubConverter.Lib.Utf8
import SubConverter.Handler.CacheStorage
import SubConverter.Handler.CacheIdentity
import SubConverter.Handler.CacheBoundary
import SubConverter.Handler.Addresses
import SubConverter.Handler.Spelling
import SubConverter.Handler.FetchGate
import SubConverter.Handler.PrivateLiterals
import SubConverter.Handler.FetchSources
import SubConverter.Handler.FetchSafety
import SubConverter.Handler.SubRequestKey
import SubConverter.Generator.ExternalRules
import SubConverter.Handler.UserRules
import SubConverter.Lib.Stripped
import SubConverter.Web.InlineRules
import SubConverter.Lib.FreshName
import SubConverter.Lib.Results
import SubConverter.Handler.TaggedLink
import SubConverter.Handler.ProviderNames
import SubConverter.Handler.RemoteResources
import SubConverter.Handler.GroupIds
import SubConverter.Generator.GroupSelection
import SubConverter.Lib.CycleSearch
import SubConverter.Generator.StashBase
import SubConverter.Generator.StashGroups
import SubConverter.Generator.StashReferences
import SubConverter.Generator.StashNames
import SubConverter.Utils.FileSteps
import SubConverter.Utils.FileReplacement
import SubConverter.Utils.FileRuns
import SubConverter.Updater.Lock
import SubConverter.Updater.Install
import SubConverter.Updater.Exchange
import SubConverter.Updater.Transactions
import SubConverter.Updater.Runs
import SubConverter.Updater.Apply
import SubConverter.Updater.Calls
import SubConverter.Updater.Interruption
import SubConverter.Bridge.GoText
import SubConverter.Bridge.Preprocess
import SubConverter.Bridge.Lines
import SubConverter.Lib.Interleaving
import SubConverter.Server.Cancellation
import SubConverter.Server.RequestContext
import SubConverter.Server.TerminalAccounting
import SubConverter.Server.RetainedBytes
import SubConverter.Utils.CpuPermits
import SubConverter.Utils.BoundedExecutor
import SubConverter.Utils.LruStore
import SubConverter.Utils.LruCache
import SubConverter.Utils.WorkloadScheduler
import SubConverter.Utils.SchedulerAccounting
import SubConverter.Utils.SchedulerRuns
import SubConverter.Generator.RulePriority
import SubConverter.Server.ClientIp
import SubConverter.Server.ForwardedHeaders
import SubConverter.Server.Spoofing
import SubConverter.Generator.ClashRules
import SubConverter.Generator.ClashEmitters
import SubConverter.Handler.FetchOperations
import SubConverter.Handler.FetchConsumers
import SubConverter.Handler.FetchLinks
import SubConverter.Handler.FetchServing
import SubConverter.Handler.FetchReliance
import SubConverter.Handler.FetchSharing
import SubConverter.Parser.MieruUri
import SubConverter.Parser.MieruRoundTrip
import SubConverter.Lib.Keyed
import SubConverter.Handler.ShortLinks
import SubConverter.Handler.ShortLinkRuns
import SubConverter.Utils.IniReader
import SubConverter.Utils.IniBlocks
import SubConverter.Lib.Rewriting
import SubConverter.Utils.Redact
import SubConverter.Utils.RedactSecrets
import SubConverter.Lib.AsciiCase
import SubConverter.Handler.GithubProxy
import SubConverter.Handler.GithubInherit
import SubConverter.Lib.FirstMatch
import SubConverter.Generator.SingBoxRules
import SubConverter.Generator.SingBoxBuckets
import SubConverter.Generator.SingBoxFirstMatch
import SubConverter.Utils.SchedulerFairness
import SubConverter.Lib.Recency
import SubConverter.Handler.ResponseCache
import SubConverter.Utils.IniCache
import SubConverter.Statistics.RingIndices
import SubConverter.Handler.PublicNames
import SubConverter.Generator.RuleTargets
import SubConverter.Generator.SurgeRules
import SubConverter.Generator.RuleTypes
import SubConverter.Generator.StashRules
import SubConverter.Generator.RuleLimit
import SubConverter.Handler.AddressCase
import SubConverter.Handler.CurlHandlePool
import SubConverter.Handler.ProxyBypass
import SubConverter.Handler.ProxyIdentity
import SubConverter.Lib.FormUrlencoded
import SubConverter.Web.SubLink
import SubConverter.Web.SubLinkWire
import SubConverter.Web.SubLinkReading
import SubConverter.Web.SubLinkParams
import SubConverter.Web.SubLinkImport
import SubConverter.Generator.ClashSections
import SubConverter.Generator.NodeFilter
import SubConverter.Generator.NodeNames
import SubConverter.Handler.LinkPrefixes
import SubConverter.Handler.SafeNames
import SubConverter.Lib.Protobuf
import SubConverter.Parser.TrafficPattern
import SubConverter.Utils.IniItems
import SubConverter.Parser.Proxy
import SubConverter.Utils.Regexp
import SubConverter.Generator.NodeMatch
import SubConverter.Lib.Insertion
import SubConverter.Generator.StashProviders
import SubConverter.Generator.AddNodes
import SubConverter.Utils.ResourceGovernor
import SubConverter.Server.LatencyQuantile
import SubConverter.Server.CidrMatching
import SubConverter.Parser.ShareUri
import SubConverter.Generator.HysteriaPorts
import SubConverter.Lib.Cursor
import SubConverter.Generator.YamlScalars
import SubConverter.Lib.SixBits
import SubConverter.Utils.Base64
import SubConverter.Parser.StrictBase64
import SubConverter.Parser.TextCodecs
import SubConverter.Handler.DataUrl
import SubConverter.Lib.Retention
import SubConverter.Handler.DnsTemplates
import SubConverter.Handler.MultiEngineSafety
import SubConverter.Lib.ScriptText
import SubConverter.Generator.ClashScript
import SubConverter.Generator.ScriptLiterals
import SubConverter.Generator.ProviderPlan
import SubConverter.Generator.ClashProviders
import SubConverter.Lib.StdString
import SubConverter.Utils.Trimming
import SubConverter.Web.InlineRuleLines
import SubConverter.Lib.Loops
import SubConverter.Lib.Places
import SubConverter.Lib.RewriteLoops
import SubConverter.Utils.RedactLoops
import SubConverter.Utils.RedactRuns
import SubConverter.Utils.RedactFieldRuns
import SubConverter.Lib.AsciiCuts
import SubConverter.Lib.Utf8Text
import SubConverter.Utils.RedactCuts
import SubConverter.Utils.LogLine
