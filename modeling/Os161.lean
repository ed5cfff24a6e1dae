import Os161.Sfs.Mount
import Os161.Sfs.BlockIoSpec
import Os161.Sfs.Blocks
import Os161.Sfs.BmapSpec
import Os161.Lib.Bytes
import Os161.Sfs.FileIoSpec
import Os161.Sfs.Prune
import Os161.Threads.Invariant
import Os161.Threads.Semaphore
import Os161.Threads.Lock
import Os161.Threads.CondVar
import Os161.Sfs.RetrySpec
import Os161.Sfs.ErrorReports
import Os161.Sfs.Mksfs
import Os161.Bar.Code
import Os161.Bar.Bookkeeping
import Os161.Bar.Service
import Os161.Bar.Tabs
import Os161.Bar.Closing
import Os161.Sfs.FileArray
import Os161.Switch.ThreadTable
import Os161.Switch.Partition
import Os161.Switch.Preallocation
import Os161.Files.Accounting
import Os161.Files.OpenRuns
import Os161.Files.Accounts
import Os161.Files.Access
import Os161.Files.PathBuffer
import Os161.Files.PathRuns
import Os161.Filetable.Calls
import Os161.Filetable.Changes
import Os161.Filetable.Bounds
import Os161.Filetable.Reports
import Os161.Filetable.Vnodes
import Os161.Filetable.Offsets
import Os161.Bar.Drinks
import Os161.Sfs.BitmapSets
import Os161.Switch.QueueRuns
import Os161.Sfs.BmapPaths
import Os161.Vfs.KnownDevs
import Os161.Vfs.Names
import Os161.Vm.Ram
import Os161.Vm.Pages
import Os161.Dev.Lhd
import Os161.Dev.LhdSerial
import Os161.Vfs.Paths
import Os161.Vfs.Balance
import Os161.Sfs.VnodeCounts
import Os161.Sfs.CountRuns
import Os161.Vm.Spaces
import Os161.Vm.Isolation
import Os161.Lib.Linked
import Os161.Vm.Kheap
import Os161.Vm.KheapLists
import Os161.Vm.KheapAlloc
import Os161.Vm.KheapFree
import Os161.Vm.KheapRuns
import Os161.Lib.Rings
import Os161.Filetable.Clones
import Os161.Filetable.Failures
import Os161.Filetable.Walks
import Os161.Sfs.ReadBounds
import Os161.Sfs.BlockTree
import Os161.Sfs.Agreement
import Os161.Sfs.Lookups
import Os161.Sfs.Truncation
import Os161.Sfs.Shrinking
import Os161.Sfs.FailedWrites
import Os161.Sfs.LoadRuns
import Os161.Sfs.Residues
import Os161.Sfs.Segments
import Os161.User.Copies
import Os161.Filetable.Seeks
import Os161.Files.Syscalls
import Os161.Filetable.ReadBuffers
import Os161.User.Cwd
import Os161.User.PathArguments
import Os161.Vm.Coverage
import Os161.Vm.Executables
import Os161.Lib.Moves
import Os161.Libc.Memmove
import Os161.User.Prefixes
import Os161.User.Strings
import Os161.Dev.Console
import Os161.Dev.ConsoleInput
import Os161.Dev.ConsoleLine
import Os161.Dev.ConsoleOutput
import Os161.Dev.Lamebus
import Os161.Dev.LamebusDuds
import Os161.Lib.Digits
import Os161.Libc.Fields
import Os161.Vfs.Bootfs
import Os161.Lib.NamedStore
import Os161.Lib.Slots
import Os161.Sfs.Contents
import Os161.Sfs.DirectorySpec
import Os161.Sfs.FlatFs
import Os161.Sfs.NamespaceRuns
import Os161.Sfs.NameMap
import Os161.Sfs.Remount
import Os161.Sfs.BlockSafety
import Os161.Sfs.PathPanics
import Os161.Sfs.Sessions
import Os161.Threads.CondVarCalls
import Os161.Dev.LhdReturns
import Os161.Sfs.LastBlock
import Os161.Sfs.StaleBytes
