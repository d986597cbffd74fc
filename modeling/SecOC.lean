import SecOC.Lib.Dict
import SecOC.Lib.Bytes
import SecOC.Lib.Residue
import SecOC.Lib.Runs
import SecOC.Sim.Base
import SecOC.Sim.NvM
import SecOC.Sim.Crypto
import SecOC.Sim.Keys
import SecOC.Sim.SecurityProfile
import SecOC.Sim.CanBus
import SecOC.Sim.Escalation
import SecOC.Sim.FreshnessManager
import SecOC.Sim.PduManager
import SecOC.Sim.Stack
import SecOC.Sim.StackSpec
import SecOC.Sim.StackRun
import SecOC.Properties.Delivery
import SecOC.Properties.Replay
import SecOC.Properties.Authenticity
import SecOC.Properties.Atomicity
import SecOC.Properties.Isolation
import SecOC.Properties.FailurePolicy
import SecOC.Sim.Ecu
import SecOC.Properties.BusTraffic
import SecOC.Sim.SecureBoot
import SecOC.Sim.Attacks
import SecOC.Api.State
import SecOC.Api.Routers
import SecOC.Api.Effects
import SecOC.Properties.SafeState
import SecOC.Properties.BootGate
import SecOC.Properties.Recovery
import SecOC.Properties.Burst
import SecOC.Properties.Accounting
import SecOC.Lib.JsNumber
import SecOC.Docs.Engine
import SecOC.Properties.Mirror
import SecOC.Properties.Usability
import SecOC.Properties.WireFormat
import SecOC.Sim.KeyRuns
import SecOC.Properties.KeyIsolation
import SecOC.Properties.KeyVersions
import SecOC.Sim.NvMFile
import SecOC.Properties.Restart
import SecOC.Properties.ReplayEndpoint
import SecOC.Lib.Ledger
import SecOC.Api.WebSocket
import SecOC.Api.WebSocketSpec
import SecOC.Properties.LiveEvents
import SecOC.Lib.HashChain
import SecOC.Sim.AuditLog
import SecOC.Properties.AuditTrail
import SecOC.Lib.BitField
import SecOC.Sim.SignalPackager
import SecOC.Properties.Signals
import SecOC.Properties.ReceiverCounts
import SecOC.Properties.BusOrder
import SecOC.Properties.Reconstruction
import SecOC.Properties.Tampering
import SecOC.Properties.Agility
import SecOC.Properties.Verifiers
import SecOC.Sim.NvMObjects
import SecOC.Properties.NvMFailures
import SecOC.Sim.ProfileFile
import SecOC.Sim.ProfileFileSpec
import SecOC.Properties.ProfileReload
import SecOC.Properties.ProfileUpdate
import SecOC.Properties.SignalFailures
import SecOC.Properties.Sending
import SecOC.Sim.HashJobs
import SecOC.Properties.StreamingHash
import SecOC.Lib.Periodic
import SecOC.Sim.BusScheduler
import SecOC.Properties.BusLoad
import SecOC.Lib.CounterLink
import SecOC.Sim.Link
import SecOC.Properties.Resync
import SecOC.Sim.CryptoDriver
import SecOC.Sim.CryptoServices
import SecOC.Properties.KeyLifetime
import SecOC.Properties.KeyConfinement
import SecOC.Sim.PerformanceProfiler
import SecOC.Properties.Profiling
import SecOC.Api.Device
import SecOC.Properties.Persistence
import SecOC.Properties.Lifetime
import SecOC.Properties.Rekeying
import SecOC.Properties.KeyRotation
import SecOC.Properties.BackInService
import SecOC.Properties.ServerErrors
import SecOC.Api.Scenarios
import SecOC.Properties.ScenarioRuns
import SecOC.Sim.SignalReceiver
import SecOC.Properties.SignalDelivery
