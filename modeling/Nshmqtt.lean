import Nshmqtt.TransitionRuns
import Nshmqtt.WriteBehind
import Nshmqtt.SortedMaps
import Nshmqtt.ByteStrings
import Nshmqtt.Binary64
import Nshmqtt.DecimalText
import Nshmqtt.DecimalRoundTrip
import Nshmqtt.TextUtil
import Nshmqtt.IntegerRoundTrip
import Nshmqtt.JsonUtil
import Nshmqtt.State
import Nshmqtt.StateRoundTrip
import Nshmqtt.Config
import Nshmqtt.ConfigKeys
import Nshmqtt.ConfigFile
import Nshmqtt.LastAssignments
import Nshmqtt.ConfigFields
import Nshmqtt.ConfigPrecedence
import Nshmqtt.ConfigLimits
import Nshmqtt.ConfigFrontEnds
import Nshmqtt.Metrics
import Nshmqtt.MessageHandler
import Nshmqtt.SaveInterleaving
import Nshmqtt.FileSystem
import Nshmqtt.SaveFileProtocol
import Nshmqtt.Http
import Nshmqtt.EventPlaceholders
import Nshmqtt.Server
import Nshmqtt.RouteAccess
import Nshmqtt.WrittenIntegers
import Nshmqtt.EchoRaces
import Nshmqtt.RetainedMirror
import Nshmqtt.WorkerShutdown
import Nshmqtt.ConnectionLoss
import Nshmqtt.RequestSegmentation
import Nshmqtt.Tally
import Nshmqtt.ThreadPool
import Nshmqtt.PublishQueue
import Nshmqtt.BoundedQueues
import Nshmqtt.MessagePipeline
import Nshmqtt.RouteEffects
import Nshmqtt.BodyFraming
import Nshmqtt.RequestRoundTrip
import Nshmqtt.SimpleUrlApi
import Nshmqtt.JsonGrammar
import Nshmqtt.JsonFlatten
import Nshmqtt.JsonLeaves
import Nshmqtt.MalformedJson
import Nshmqtt.JsonNumbers
import Nshmqtt.JsonOutput
import Nshmqtt.DeliverableCalls
import Nshmqtt.FirstClaims
import Nshmqtt.MetricNames
import Nshmqtt.TopicFilters
import Nshmqtt.PlaceholderPasses
import Nshmqtt.FlatNumberObject
import Nshmqtt.LeafNames
import Nshmqtt.ReloadableValues
import Nshmqtt.Utf8
import Nshmqtt.WebhookJson
import Nshmqtt.GeneratedValues
import Nshmqtt.ContentLengthLines
import Nshmqtt.NumberGrammar
import Nshmqtt.StrictParsers
import Nshmqtt.FreshValues
import Nshmqtt.RequestReuse
import Nshmqtt.SeriesNames
import Nshmqtt.CheckedReads
import Nshmqtt.JsonIndices
import Nshmqtt.ObservedRuns
import Nshmqtt.StableText
import Nshmqtt.StateRestarts
import Nshmqtt.ResponseReader
import Nshmqtt.ResponseDelivery
import Nshmqtt.ProjectedRuns
import Nshmqtt.AtomicPoints
import Nshmqtt.ConcurrentServer
import Nshmqtt.RequestCounters
import Nshmqtt.PoolDrain
import Nshmqtt.AcceptLoop
import Nshmqtt.ErrorPrograms
import Nshmqtt.HeldResources
import Nshmqtt.ListenerSetup
import Nshmqtt.HealthCheck
import Nshmqtt.ExpositionText
import Nshmqtt.MetricsReadBack
import Nshmqtt.Outsiders
import Nshmqtt.TextfileProtocol
import Nshmqtt.ServerShutdown
