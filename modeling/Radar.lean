import Radar.Server.ContextSwitch
import Radar.Auth.SessionRun
import Radar.Topology.Memo
import Radar.GitOps.ArgoAutoSync
import Radar.Timeline.Retention
import Radar.Issues.Dedupe
import Radar.K8s.RegistryRun
import Radar.Rbac.EffectiveRules
import Radar.Applications.ArgoSeparation
import Radar.Network.VerdictSound
import Radar.Server.StreamLists
import Radar.Topology.CoverageTruth
import Radar.GitOps.TreeWellFormed
import Radar.Search.Scope
import Radar.Server.TopologyCache
import Radar.Timeline.SeenRecording
import Radar.Mcp.SecretValues
import Radar.Issues.AffectedCount
import Radar.Timeline.GroupConservation
import Radar.Timeline.GroupHealth
import Radar.Topology.CascadePreview
import Radar.ResourceContext.ReadGate
import Radar.Auth.LogoutRun
import Radar.Checks.QueueOrder
import Radar.GitOps.DriftExact
import Radar.GitOps.IgnoredExact
import Radar.GitOps.LastApplied
import Radar.K8s.RecreateStash
import Radar.Packages.ChartRows
import Radar.Packages.RowOrder
import Radar.Search.Snippet
import Radar.Topology.ManagedBy
import Radar.GitOps.FluxInventory
import Radar.GitOps.LiveMatching
import Radar.K8s.DynamicCounts
import Radar.K8s.EventTimes
import Radar.K8s.NodeFit
import Radar.K8s.Rollback
import Radar.Topology.GenericCrds
import Radar.Topology.PodOwners
import Radar.Topology.SummaryMode
import Radar.Ai.EnvValues
import Radar.Images.LayerScan
import Radar.K8s.Discovery
import Radar.K8s.MetricsHistory
import Radar.Mcp.IssueCorrelation
import Radar.Mcp.PatchVerification
import Radar.Mcp.PreviewComplete
import Radar.Applications.AppGroups
import Radar.Network.FlowAggregation
import Radar.Server.PodFileCommands
import Radar.Server.PodFileListing
import Radar.Timeline.AttachedEvents
import Radar.Topology.OwnershipTags
import Radar.Issues.ClientOrder
import Radar.K8s.KindPlurals
import Radar.K8s.MissingRefs
import Radar.OpenCost.Summaries
import Radar.Prometheus.PodMatching
import Radar.Prometheus.Rightsizing
import Radar.Server.PortForwards
import Radar.Server.WorkloadLogs
import Radar.Topology.LayoutGraph
import Radar.Applications.ArgoClaims
import Radar.GitOps.InsightIssues
import Radar.K8s.HpaMetrics
import Radar.Timeline.NoiseGate
import Radar.K8s.CacheStartup
import Radar.Checks.AuditChecks
import Radar.Server.UseEventSource
import Radar.Checks.AuditSettings
