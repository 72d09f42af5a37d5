import VersionSix.Bytes
import VersionSix.Run
import VersionSix.PathTree
import VersionSix.AhciRead
import VersionSix.Process
import VersionSix.RoundRobin
import VersionSix.Sched
import VersionSix.Fairness
import VersionSix.Syscall
import VersionSix.Handlers
import VersionSix.WaitExit
import VersionSix.Context
import VersionSix.Descriptors
import VersionSix.OpenTables
import VersionSix.AddrSpace
import VersionSix.PageTable
import VersionSix.PageTree
import VersionSix.PageMap
import VersionSix.PageCursor
import VersionSix.PageInStep
import VersionSix.PageInitial
import VersionSix.PageAhead
import VersionSix.PageBoot
import VersionSix.PageAside
import VersionSix.PageContiguous
import VersionSix.PageFresh
import VersionSix.BumpCursor
import VersionSix.PageFrames
import VersionSix.AsvfsDisk
import VersionSix.AvsList
import VersionSix.DirTree
import VersionSix.AvsRefines
import VersionSix.Keyboard
import VersionSix.WokenReader
import VersionSix.Bitmap
import VersionSix.PageGroup
import VersionSix.PageQueries
import VersionSix.PageBlock
import VersionSix.PathText
import VersionSix.Receive
import VersionSix.VfsMount
import VersionSix.AsvfsPath
import VersionSix.AsvfsTree
import VersionSix.AsvfsRename
import VersionSix.AsvfsMove
import VersionSix.AsvfsCreate
import VersionSix.AsvfsNames
import VersionSix.KeyboardRace
import VersionSix.FdChecks
import VersionSix.Ended
import VersionSix.SyscallResults
import VersionSix.ForkCopy
import VersionSix.InterruptEntry
import VersionSix.Rfs
import VersionSix.AsvfsRead
import VersionSix.AsvfsWrite
import VersionSix.AsvfsCapacity
import VersionSix.VfsDispatch
import VersionSix.BitmapUpdates
import VersionSix.Brk
import VersionSix.Dictionary
import VersionSix.DictionaryMap
import VersionSix.DictionaryAlias
import VersionSix.NetSend
import VersionSix.OnesComplement
import VersionSix.Checksums
import VersionSix.TcpPayload
import VersionSix.Dhcp
import VersionSix.E1000Send
import VersionSix.E1000Receive
import VersionSix.AhciCommand
import VersionSix.TcpAck
import VersionSix.Ring
import VersionSix.SerialRing
import VersionSix.InputDevices
import VersionSix.Bubble
import VersionSix.Vui
import VersionSix.VuiDispatch
import VersionSix.VuiHover
import VersionSix.Console
import VersionSix.Pieces
import VersionSix.ElfFile
import VersionSix.ElfSymbols
import VersionSix.ElfNames
import VersionSix.KernelSymbols
import VersionSix.ElfLoader
import VersionSix.Elf2
import VersionSix.LibImage
import VersionSix.Libraries
import VersionSix.LibRelocations
import VersionSix.LazyLinking
import VersionSix.Execve
import VersionSix.ExecveArgs
import VersionSix.AsvfsAddress
import VersionSix.AsvfsCompose
import VersionSix.AsvfsUnlink
import VersionSix.AsvfsListing
import VersionSix.AsvfsLongNames
import VersionSix.AsvfsFailedWrite
import VersionSix.RunningMax
import VersionSix.BootMemory
import VersionSix.BoundedTable
import VersionSix.Pci
import VersionSix.CInt
import VersionSix.Madt
import VersionSix.JsonText
import VersionSix.Klog
import VersionSix.ShellWords
import VersionSix.TextLayout
import VersionSix.ConsoleText
import VersionSix.ConsoleTabs
import VersionSix.CopyLoop
import VersionSix.MousePointer
import VersionSix.Stdout
import VersionSix.MouseMoves
import VersionSix.MoveRect
import VersionSix.PsfFont
import VersionSix.Accumulate
import VersionSix.FontMask
import VersionSix.PageIndex
import VersionSix.Fields
import VersionSix.Placement
import VersionSix.Kmalloc
import VersionSix.KmallocArena
import VersionSix.KmallocLinks
import VersionSix.KmallocStored
import VersionSix.KmallocSearch
import VersionSix.KmallocHolds
import VersionSix.KmallocServe
import VersionSix.KmallocFree
import VersionSix.KmallocStore
import VersionSix.KmallocRuns
import VersionSix.KernelHeap
import VersionSix.Emit
import VersionSix.Printf
import VersionSix.PrintfText
import VersionSix.PrintfNumbers
import VersionSix.PrintfFormat
