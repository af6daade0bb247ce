import Maistr0.NodeAgent.MemorySync
import Maistr0.Memory.Winners
import Maistr0.Memory.Exchange
import Maistr0.Memory.Coherence
import Maistr0.Orchestrator.Occupancy
import Maistr0.Orchestrator.Outcomes
import Maistr0.Discovery.Replay
import Maistr0.Orchestrator.Probes
import Maistr0.Orchestrator.RouterLedger
import Maistr0.Failover.Promotion
import Maistr0.Failover.StepDown
import Maistr0.Orchestrator.HedgeLedger
import Maistr0.Orchestrator.AttemptBudget
import Maistr0.Orchestrator.FreshTargets
import Maistr0.Cluster.Registry
import Maistr0.NodeAgent.Heartbeat
import Maistr0.Consensus.Group
import Maistr0.PeerIdentity.Connections
import Maistr0.PeerIdentity.Pairing
import Maistr0.Orchestrator.PipelineGate
import Maistr0.Orchestrator.PipelineStages
import Maistr0.NodeAgent.EngineStatus
import Maistr0.NodeControl.Controller
import Maistr0.Memory.FailedMerge
import Maistr0.Memory.Recent
import Maistr0.Taskmgr.FreshIDs
import Maistr0.NodeAgent.Idempotency
import Maistr0.Workpool
import Maistr0.Agent.DeepSeek
import Maistr0.Agent.Transcript
import Maistr0.Shards.Engines
import Maistr0.Shards.Requests
import Maistr0.Memory.FactMap
import Maistr0.Taskmgr.Replays
import Maistr0.Taskmgr.Retries
import Maistr0.NodeAgent.StageRequests
import Maistr0.Scheduler.Graph
import Maistr0.Scheduler.Eligibility
import Maistr0.NodeAgent.Inventory
import Maistr0.Hub
import Maistr0.Taskmgr.Paging
import Maistr0.Taskmgr.Dependencies
import Maistr0.Shards.GGUF
import Maistr0.Orchestrator.StreamParser
import Maistr0.Orchestrator.JSONObject
