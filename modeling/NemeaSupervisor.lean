import NemeaSupervisor.Loop
import NemeaSupervisor.Run
import NemeaSupervisor.CText
import NemeaSupervisor.Xml
import NemeaSupervisor.Table
import NemeaSupervisor.Validate
import NemeaSupervisor.Grammar
import NemeaSupervisor.Reload
import NemeaSupervisor.Kernel
import NemeaSupervisor.Service
import NemeaSupervisor.Machine
import NemeaSupervisor.Interfaces
import NemeaSupervisor.ModuleReload
import NemeaSupervisor.TableReload
import NemeaSupervisor.DocumentReload
import NemeaSupervisor.TableInvariant
import NemeaSupervisor.ServiceSteps
import NemeaSupervisor.Invariants
import NemeaSupervisor.Processes
import NemeaSupervisor.Signals
import NemeaSupervisor.RestartLimit
import NemeaSupervisor.Termination
import NemeaSupervisor.Disable
import NemeaSupervisor.Configuration
import NemeaSupervisor.Restart
import NemeaSupervisor.InterfaceLists
import NemeaSupervisor.DocumentLimits
import NemeaSupervisor.Backup
import NemeaSupervisor.BackupRoundTrip
import NemeaSupervisor.Generations
import NemeaSupervisor.RunState
import NemeaSupervisor.ApplyTrace
import NemeaSupervisor.DocumentGrammar
import NemeaSupervisor.Representation
import NemeaSupervisor.Undisturbed
import NemeaSupervisor.Removal
import NemeaSupervisor.Meter
import NemeaSupervisor.RestartTimer
import NemeaSupervisor.RestartRate
import NemeaSupervisor.Params
import NemeaSupervisor.Arguments
import NemeaSupervisor.Memory
import NemeaSupervisor.ParamsArray
import NemeaSupervisor.ArgumentMemory
import NemeaSupervisor.SocketNames
import NemeaSupervisor.Pool
import NemeaSupervisor.Daemon
import NemeaSupervisor.ClientThreads
import NemeaSupervisor.ClientSlots
import NemeaSupervisor.Descriptors
import NemeaSupervisor.ConfigMode
import NemeaSupervisor.Connections
import NemeaSupervisor.LineStream
import NemeaSupervisor.LineReader
import NemeaSupervisor.RequestFraming
import NemeaSupervisor.Json
import NemeaSupervisor.ModuleStats
import NemeaSupervisor.ModulesInfo
import NemeaSupervisor.StatsExport
import NemeaSupervisor.StatsFaithful
import NemeaSupervisor.ServiceBuffer
import NemeaSupervisor.NumberSelection
import NemeaSupervisor.SelectionLines
import NemeaSupervisor.Inclusion
import NemeaSupervisor.Template
import NemeaSupervisor.RemovalPass
import NemeaSupervisor.BackupPath
import NemeaSupervisor.ProcStat
import NemeaSupervisor.LogBrowsing
import NemeaSupervisor.StatsMessages
import NemeaSupervisor.ServiceExchange
import NemeaSupervisor.ServiceLinks
import NemeaSupervisor.ServiceRounds
import NemeaSupervisor.ServiceTransfers
import NemeaSupervisor.SocketBuffers
import NemeaSupervisor.Thresholds
import NemeaSupervisor.StatsBuffer
import NemeaSupervisor.Progress
import NemeaSupervisor.Thinning
import NemeaSupervisor.CycleSteps
import NemeaSupervisor.Response
import NemeaSupervisor.RemovalRounds
import NemeaSupervisor.Parents
import NemeaSupervisor.Cooperation
import NemeaSupervisor.CooperativeCycle
import NemeaSupervisor.Convergence
import NemeaSupervisor.Quiescence
import NemeaSupervisor.DaemonShutdown
import NemeaSupervisor.CommandLine
import NemeaSupervisor.Menus
import NemeaSupervisor.RepeatedReload
import NemeaSupervisor.Deployment
