import FandheBackend.PatternSearch
import FandheBackend.FedMachine
import FandheBackend.StdBytes
import FandheBackend.HttpChunked
import FandheBackend.HttpChunkedMachine
import FandheBackend.HttpChunkedGrammar
import FandheBackend.HttpChunkedRoundTrip
import FandheBackend.Utf8Text
import FandheBackend.HttpExtensions
import FandheBackend.HttpRequestHead
import FandheBackend.HttpBodyLength
import FandheBackend.HttpBuffer
import FandheBackend.HttpConnection
import FandheBackend.HttpConnectionStream
import FandheBackend.HttpConnectionRuns
import FandheBackend.HttpResponse
import FandheBackend.HttpClient
import FandheBackend.CoreGates
import FandheBackend.CoreConnection
import FandheBackend.CoreConnectionTurns
import FandheBackend.CoreConnectionGates
import FandheBackend.CoreConnectionKeepAlive
import FandheBackend.CoreConnectionFraming
import FandheBackend.ActionRuns
import FandheBackend.CoreStreamingChannel
import FandheBackend.CorePermits
import FandheBackend.WatchChannel
import FandheBackend.CoreGenerations
import FandheBackend.CoreGenerationsLaw
import FandheBackend.TaskCounts
import FandheBackend.WsSender
import FandheBackend.WsSenderLaw
import FandheBackend.ExceptChecks
import FandheBackend.JwtVerify
import FandheBackend.JwtTokenCache
import FandheBackend.JwtDpopOrigin
import FandheBackend.JwtDpopProof
import FandheBackend.JwtDpopReplay
import FandheBackend.JwtAuthenticator
import FandheBackend.JwtRefresh
import FandheBackend.JwtRefreshLaw
import FandheBackend.KeyedList
import FandheBackend.WebRtcRegistry
import FandheBackend.WebRtcRegistryLaw
import FandheBackend.WsSession
import FandheBackend.WsSessionPhases
import FandheBackend.WsSessionLaw
import FandheBackend.WsSessionWire
import FandheBackend.WsPathPattern
import FandheBackend.WsHandshake
import FandheBackend.WsSessionPanics
import FandheBackend.WsUpgrade
import FandheBackend.WsUpgradeLaw
import FandheBackend.WebRtcRegistryLimit
import FandheBackend.JwtDpopReplaySet
import FandheBackend.JwtDpopPath
import FandheBackend.JwtDpopHtu
import FandheBackend.JwtDpopHtuLaw
import FandheBackend.Base64Url
import FandheBackend.JwtJwks
import FandheBackend.JwtJwksLaw
import FandheBackend.JwtDpopThumbprint
import FandheBackend.JwtAcceptance
import FandheBackend.SortedDistinct
import FandheBackend.HttpAllowedMethods
import FandheBackend.RoutesPattern
import FandheBackend.RoutesRouter
import FandheBackend.RoutesRouterDispatch
import FandheBackend.RoutesRouterMerge
import FandheBackend.PatternSplit
import FandheBackend.HttpCookie
import FandheBackend.HttpLocation
import FandheBackend.HttpResponseBuilder
import FandheBackend.HttpResponseFraming
import FandheBackend.PluginCompression
import FandheBackend.CoreConnectionPlan
import FandheBackend.CoreConnectionMiddleware
import FandheBackend.CoreConnectionObservations
import FandheBackend.RoutesPatternLaw
import FandheBackend.WsPathPatternLaw
import FandheBackend.HttpResponseHeads
import FandheBackend.HttpChunkedResources
import FandheBackend.HttpRequestGrammar
import FandheBackend.HttpRequestCookies
import FandheBackend.HttpRequestRanges
import FandheBackend.WsSessionPlaces
import FandheBackend.WsSessionDurations
import FandheBackend.WsSessionTimed
import FandheBackend.WsSessionKeepalive
import FandheBackend.WsSessionPace
import FandheBackend.WsSessionKeepaliveLaw
import FandheBackend.HttpCookieLaw
import FandheBackend.HttpForm
import FandheBackend.HttpFormLaw
import FandheBackend.RoutesPatternOverlap
import FandheBackend.SeparatedList
import FandheBackend.HttpTrim
import FandheBackend.HttpCacheControl
import FandheBackend.HttpResponseUnions
import FandheBackend.PluginHeaders
import FandheBackend.PluginCors
import FandheBackend.PluginCorsLaw
import FandheBackend.PluginCorsVary
import FandheBackend.PluginCompressionLaw
import FandheBackend.FloatRounding
import FandheBackend.StdF32
import FandheBackend.PluginCompressionWeights
import FandheBackend.FileTree
import FandheBackend.PluginStatic
import FandheBackend.PluginStaticLaw
import FandheBackend.HttpQueryLaw
import FandheBackend.HttpPercentLaw
import FandheBackend.JsonText
import FandheBackend.HttpErrorBody
import FandheBackend.PluginWebrtcProxy
import FandheBackend.PluginWebrtcProxyHead
import FandheBackend.PluginWebrtcProxyLaw
import FandheBackend.LongestRun
import FandheBackend.Ipv6Text
import FandheBackend.PluginCsrf
import FandheBackend.PluginCsrfOrigin
import FandheBackend.AtomicCell
import FandheBackend.JwtNotify
import FandheBackend.WebRtcDataChannels
import FandheBackend.PluginTracing
import FandheBackend.JwtChallenge
import FandheBackend.CoreAdmission
import FandheBackend.JwtGate
import FandheBackend.Unwinding
import FandheBackend.HubStores
import FandheBackend.HubTenantGate
import FandheBackend.PluginWebrtcProxyRelay
import FandheBackend.FirstAnswer
import FandheBackend.CorePlugins
import FandheBackend.CorePluginsLaw
import FandheBackend.HttpSentRequest
import FandheBackend.CoreConnectionSpoken
import FandheBackend.CoreDialogue
import FandheBackend.CoreWebSockets
import FandheBackend.CoreRouterDialogue
import FandheBackend.WsSessionFair
