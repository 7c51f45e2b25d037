import Linux2Win.Bytes
import Linux2Win.Devices
import Linux2Win.Ext4Types
import Linux2Win.Reader
import Linux2Win.BlockMap
import Linux2Win.PointerTree
import Linux2Win.ExtentTree
import Linux2Win.FileData
import Linux2Win.FileContent
import Linux2Win.ReadFile
import Linux2Win.Unwritten
import Linux2Win.Directory
import Linux2Win.Runs
import Linux2Win.Programs
import Linux2Win.Traces
import Linux2Win.Containment
import Linux2Win.ReadErrors
import Linux2Win.Blocks
import Linux2Win.Vfs
import Linux2Win.DirEnum
import Linux2Win.EnumSessions
import Linux2Win.Guids
import Linux2Win.Partitions
import Linux2Win.Enumerator
import Linux2Win.SystemPartitions
import Linux2Win.Mounts
import Linux2Win.Hotplug
import Linux2Win.Caches
import Linux2Win.NodeTree
import Linux2Win.NodeWalk
import Linux2Win.TreeCalls
import Linux2Win.NodeCache
import Linux2Win.Joins
import Linux2Win.PathNames
import Linux2Win.Listings
import Linux2Win.Resolvers
import Linux2Win.DirPaths
import Linux2Win.MountDirs
import Linux2Win.ListedPaths
import Linux2Win.TreeGrowth
import Linux2Win.NodeSoundness
import Linux2Win.NodePlaces
import Linux2Win.Utf
import Linux2Win.WideNames
import Linux2Win.DirectoryLoads
import Linux2Win.DirRecords
import Linux2Win.Passes
import Linux2Win.MountPasses
import Linux2Win.ExtentMap
import Linux2Win.Walks
import Linux2Win.Descents
import Linux2Win.CopyTurns
import Linux2Win.ExtentBounds
import Linux2Win.DirBounds
import Linux2Win.Geometry
import Linux2Win.InodeLayout
import Linux2Win.Symlinks
import Linux2Win.FileServing
import Linux2Win.Locks
import Linux2Win.TreeLock
import Linux2Win.Restarts
import Linux2Win.MountFailures
import Linux2Win.Exports
import Linux2Win.Closings
import Linux2Win.MonitorThread
import Linux2Win.StopRequests
import Linux2Win.AlignedReads
import Linux2Win.DriveScans
import Linux2Win.GuidFields
import Linux2Win.GuidTexts
import Linux2Win.LooseGuids
import Linux2Win.FileTimes
import Linux2Win.PathKeys
import Linux2Win.Callbacks
import Linux2Win.Transducers
import Linux2Win.Volumes
import Linux2Win.StoredVolumes
import Linux2Win.Provider
import Linux2Win.OpenedEntries
import Linux2Win.Patches
import Linux2Win.ServedFiles
import Linux2Win.PieceReads
import Linux2Win.FileCommands
import Linux2Win.VolumeLabels
import Linux2Win.DirectoryViews
import Linux2Win.ListedFiles
import Linux2Win.CommandLine
import Linux2Win.Virtualization
import Linux2Win.Instances
import Linux2Win.Startup
import Linux2Win.Plugging
import Linux2Win.CommandMounts
