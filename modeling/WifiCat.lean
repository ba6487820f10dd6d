import WifiCat.Library.Netfilter.Traversal
import WifiCat.Library.Run
import WifiCat.Library.CommandProgram
import WifiCat.Model.Daemon
import WifiCat.Analysis.FlatDocument
import WifiCat.Analysis.ServerBounds
import WifiCat.Analysis.ClientListInvariant
import WifiCat.Analysis.FilterPolicy
import WifiCat.Analysis.MarkAlgebra
import WifiCat.Analysis.SessionInvariant
import WifiCat.Analysis.PortalSafety
import WifiCat.Analysis.MacCommandOutcome
import WifiCat.Analysis.Restoration
import WifiCat.Analysis.AccessOutcome
import WifiCat.Analysis.TrafficCredit
import WifiCat.Analysis.TokenQuestion
import WifiCat.Analysis.PositiveAnswers
import WifiCat.Analysis.ControlRoundTrip
import WifiCat.Analysis.ShellAddresses
import WifiCat.Analysis.TcObjects
import WifiCat.Analysis.FreeIps
import WifiCat.Analysis.Deadlock
import WifiCat.Analysis.ConcurrentDestroy
import WifiCat.Analysis.ConcurrentExecute
import WifiCat.Analysis.RemoteRedirect
import WifiCat.Analysis.RuleLines
import WifiCat.Analysis.Comments
import WifiCat.Analysis.OptionOrder
import WifiCat.Analysis.CounterMaxima
import WifiCat.Analysis.RuleGrammar
import WifiCat.Analysis.RuleLoading
import WifiCat.Analysis.MacSets
import WifiCat.Analysis.DocumentTwice
import WifiCat.Analysis.OptionEffect
import WifiCat.Analysis.StartupStatus
import WifiCat.Analysis.ShapingBursts
import WifiCat.Analysis.MentionRemoval
import WifiCat.Analysis.HostResolution
import WifiCat.Analysis.RedirectHeader
import WifiCat.Analysis.LongerTimeouts
import WifiCat.Analysis.ResponseChunks
import WifiCat.Analysis.ClientsReport
import WifiCat.Model.HttpdRequest
import WifiCat.Analysis.RequestReading
import WifiCat.Analysis.RequestBounds
import WifiCat.Library.PathSegments
import WifiCat.Analysis.SanitisedPath
import WifiCat.Model.HttpdContent
import WifiCat.Analysis.Dispatch
import WifiCat.Analysis.QueryVariables
import WifiCat.Analysis.GetRequest
import WifiCat.Model.HttpdThread
import WifiCat.Analysis.PortalLink
import WifiCat.Model.GatewayRun
import WifiCat.Analysis.GatewayRefinement
import WifiCat.Analysis.AccessGrants
import WifiCat.Analysis.ConcurrentAccess
import WifiCat.Analysis.PortalLogin
import WifiCat.Library.Preorder
import WifiCat.Library.JsonTree
import WifiCat.Analysis.JsmnDocument
import WifiCat.Library.Template
import WifiCat.Model.HttpdOutput
import WifiCat.Analysis.PageOutput
import WifiCat.Analysis.SessionBound
