import Justext4.Fallible
import Justext4.Bytes
import Justext4.Bitmap
import Justext4.Fields
import Justext4.Extent
import Justext4.Superblock
import Justext4.GroupDescriptor
import Justext4.Inode
import Justext4.DirEntry
import Justext4.Filesystem
import Justext4.Mkfs
import Justext4.DirBlock
import Justext4.DirScan
import Justext4.NamedTree
import Justext4.PathTree
import Justext4.Nodes
import Justext4.Paths
import Justext4.Volumes
import Justext4.Runs
import Justext4.Allocation
import Justext4.Backing
import Justext4.Reading
import Justext4.Entries
import Justext4.Counts
import Justext4.Leaves
import Justext4.Create
import Justext4.Remove
import Justext4.Rename
import Justext4.Change
import Justext4.Formatted
import Justext4.Images
import Justext4.Decoders
import Justext4.ExtentMap
import Justext4.FileMap
import Justext4.ReadSafety
import Justext4.Start
import Justext4.View
import Justext4.Calls
import Justext4.Refinement
import Justext4.Invariants
import Justext4.FormatCheck
import Justext4.Progress
import Justext4.Astray
import Justext4.Failures
import Justext4.DirectoryTree
import Justext4.FileHistory
import Justext4.Utf8
import Justext4.HostTree
import Justext4.Complaints
import Justext4.Populate
import Justext4.CopiedTree
import Justext4.TwoRuns
import Justext4.Agreement
import Justext4.LargeFile
import Justext4.FreeBytes
import Justext4.TakenSpace
import Justext4.FreeSpace
import Justext4.Codecs
import Justext4.BlockEdits
import Justext4.Recounting
import Justext4.Slots
import Justext4.MetadataCalls
import Justext4.FlushedRecords
import Justext4.BitmapLimit
import Justext4.BitmapRuns
import Justext4.BoundedWalks
import Justext4.Ownership
import Justext4.StoredFile
import Justext4.Regions
import Justext4.Releasing
import Justext4.Shrinking
import Justext4.DirRoundTrip
import Justext4.PathSplitting
import Justext4.RecordLengths
import Justext4.FileSectors
import Justext4.Unlinking
import Justext4.Unmapping
import Justext4.HardLinks
import Justext4.FailedRemoval
import Justext4.Creating
import Justext4.FreeRuns
import Justext4.GroupBitmaps
import Justext4.ReleaseEnds
import Justext4.OwnGroups
import Justext4.SlotTables
import Justext4.OnDisk
import Justext4.Simulation
import Justext4.Sessions
import Justext4.Numerals
import Justext4.Display
import Justext4.Arguments
import Justext4.Commands
import Justext4.CommandRuns
import Justext4.ReadBack
import Justext4.Inspection
import Justext4.Ledger
import Justext4.Headroom
import Justext4.CalmCalls
import Justext4.CommandEnds
import Justext4.Pairing
import Justext4.Verdicts
