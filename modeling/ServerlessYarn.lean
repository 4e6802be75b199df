import ServerlessYarn.Lib.Dict
import ServerlessYarn.Lib.Ledger
import ServerlessYarn.HostSelection
import ServerlessYarn.Placement
import ServerlessYarn.LoopBounds
import ServerlessYarn.Assignation
import ServerlessYarn.Counts
import ServerlessYarn.Capacity
import ServerlessYarn.Integers
import ServerlessYarn.Numbers
import ServerlessYarn.Inventory
import ServerlessYarn.InventoryUpdates
import ServerlessYarn.Deploy
import ServerlessYarn.DiskDeployment
import ServerlessYarn.Progress
import ServerlessYarn.AmpleHost
import ServerlessYarn.EnergyBudget
import ServerlessYarn.DiskMismatch
import ServerlessYarn.InventoryClients
import ServerlessYarn.AppCounter
import ServerlessYarn.ScalingServices
import ServerlessYarn.AppStarts
import ServerlessYarn.ContainerNames
import ServerlessYarn.DiskConflict
import ServerlessYarn.Lib.Fallible
import ServerlessYarn.Tasks
import ServerlessYarn.ScalingBlock
import ServerlessYarn.Rollback
import ServerlessYarn.DeployTask
import ServerlessYarn.AppTasks
import ServerlessYarn.AppFailure
import ServerlessYarn.HostRemoval
import ServerlessYarn.Teardown
import ServerlessYarn.InventoryConf
import ServerlessYarn.PlainInventory
import ServerlessYarn.Lib.ZeroPad
import ServerlessYarn.Subnets
import ServerlessYarn.Hdfs
import ServerlessYarn.Lib.Grouping
import ServerlessYarn.ParallelCopy
import ServerlessYarn.CopyCommit
import ServerlessYarn.CopyAssembly
import ServerlessYarn.CopyJob
import ServerlessYarn.CopyExact
import ServerlessYarn.CopyLeftovers
import ServerlessYarn.Feeder
import ServerlessYarn.FeederStrings
import ServerlessYarn.Lib.BinarySearch
import ServerlessYarn.FeederProcs
import ServerlessYarn.FeederWait
import ServerlessYarn.FeederDocs
import ServerlessYarn.Lib.Utf8
import ServerlessYarn.Lib.Json
import ServerlessYarn.FeederTags
import ServerlessYarn.FeederJson
import ServerlessYarn.Lib.Election
import ServerlessYarn.SharedFs
import ServerlessYarn.SharedFsElection
import ServerlessYarn.CopySource
import ServerlessYarn.CopyHidden
import ServerlessYarn.InventoryDisks
import ServerlessYarn.DiskRegistration
import ServerlessYarn.InventoryReload
import ServerlessYarn.AppSizing
import ServerlessYarn.CpuShares
import ServerlessYarn.RoundedShares
import ServerlessYarn.CpuSplit
import ServerlessYarn.RoundedLimits
import ServerlessYarn.SizingLimits
import ServerlessYarn.SizingOrder
import ServerlessYarn.SizingBoundaries
import ServerlessYarn.CyclicBalance
import ServerlessYarn.GreedyFillUp
import ServerlessYarn.Lib.Chunks
import ServerlessYarn.Mappers
import ServerlessYarn.FeederCpu
import ServerlessYarn.FeederRates
import ServerlessYarn.FeederLoop
import ServerlessYarn.Lib.FirstMin
import ServerlessYarn.SlicingSearch
import ServerlessYarn.TransferSlicing
import ServerlessYarn.Lib.FewestChunks
import ServerlessYarn.SlicingMinimum
import ServerlessYarn.HadoopSizing
import ServerlessYarn.CoreAllocation
import ServerlessYarn.CoreOverlap
import ServerlessYarn.FreestHost
import ServerlessYarn.DisklessHosts
import ServerlessYarn.ConfigSync
import ServerlessYarn.ConfigContents
import ServerlessYarn.ConfigResync
import ServerlessYarn.Lib.Comparing
import ServerlessYarn.StructureNames
import ServerlessYarn.RescalerHosts
import ServerlessYarn.ContainerTuples
import ServerlessYarn.ContainerRemoval
import ServerlessYarn.DiskAddition
import ServerlessYarn.LvExtension
import ServerlessYarn.VolumeThrottling
import ServerlessYarn.ContainerRequests
import ServerlessYarn.CoreRanges
import ServerlessYarn.FreestDisk
import ServerlessYarn.MountLookup
import ServerlessYarn.FeederClock
import ServerlessYarn.DiskAtop
import ServerlessYarn.FeederResponse
import ServerlessYarn.MasterContainer
import ServerlessYarn.ContainerPayloads
import ServerlessYarn.PayloadUniformity
import ServerlessYarn.Lib.Frames
import ServerlessYarn.FeederConnection
import ServerlessYarn.FeederDelivery
import ServerlessYarn.PendingTasks
import ServerlessYarn.Lib.Sessions
import ServerlessYarn.PowerTicks
import ServerlessYarn.DiskRates
import ServerlessYarn.GlobalHdfs
import ServerlessYarn.Lib.Until
import ServerlessYarn.HdfsReplication
import ServerlessYarn.EventSelection
import ServerlessYarn.Lib.ShellWords
import ServerlessYarn.PipOptions
import ServerlessYarn.Lib.UrlQuery
import ServerlessYarn.WebEdits
import ServerlessYarn.SlurmConfig
