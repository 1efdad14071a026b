import TinyRiscvOs.Lib.Dyadic
import TinyRiscvOs.Lib.BitSmear
import TinyRiscvOs.Lib.Bytes
import TinyRiscvOs.Lib.Scan
import TinyRiscvOs.Lib.ByteFile
import TinyRiscvOs.Lib.Calls
import TinyRiscvOs.Lib.ByteFiles
import TinyRiscvOs.Lib.Run
import TinyRiscvOs.Lib.PrivateMemory
import TinyRiscvOs.Lib.RadixForest
import TinyRiscvOs.Lib.Sharing
import TinyRiscvOs.Lib.DoublyLinked
import TinyRiscvOs.Fs.Virtio
import TinyRiscvOs.Fs.VirtioRing
import TinyRiscvOs.Fs.File
import TinyRiscvOs.Fs.Fat32
import TinyRiscvOs.Fs.Transfer
import TinyRiscvOs.Fs.ReadWrite
import TinyRiscvOs.Fs.Seek
import TinyRiscvOs.Fs.CountedLoops
import TinyRiscvOs.Fs.ChainEnd
import TinyRiscvOs.Fs.DeviceErrors
import TinyRiscvOs.Fs.NextCluster
import TinyRiscvOs.Fs.Layout
import TinyRiscvOs.Fs.Fat32Content
import TinyRiscvOs.Fs.Fat32Frame
import TinyRiscvOs.Fs.SeparateFiles
import TinyRiscvOs.Fs.Fat32Chain
import TinyRiscvOs.Fs.Open
import TinyRiscvOs.Fs.Lookup
import TinyRiscvOs.Kernel.Memmove
import TinyRiscvOs.User.ParseCmd
import TinyRiscvOs.User.Commands
import TinyRiscvOs.User.Shell
import TinyRiscvOs.Kernel.Syscall
import TinyRiscvOs.Kernel.Openat
import TinyRiscvOs.Kernel.Dispatch
import TinyRiscvOs.Kernel.Printk
import TinyRiscvOs.Kernel.Numerals
import TinyRiscvOs.Kernel.Formats
import TinyRiscvOs.Kernel.Console
import TinyRiscvOs.Kernel.Refusals
import TinyRiscvOs.Mm.Buddy
import TinyRiscvOs.Mm.RequestSize
import TinyRiscvOs.Mm.BuddyTree
import TinyRiscvOs.Mm.BuddyInvariant
import TinyRiscvOs.Mm.BuddyRun
import TinyRiscvOs.Mm.BuddyRelease
import TinyRiscvOs.Mm.BuddyAlloc
import TinyRiscvOs.Mm.BuddyInit
import TinyRiscvOs.Mm.Pages
import TinyRiscvOs.Mm.BuddyMisuse
import TinyRiscvOs.Mm.Kfree
import TinyRiscvOs.Proc.Sched
import TinyRiscvOs.Proc.Selection
import TinyRiscvOs.Proc.Epochs
import TinyRiscvOs.Proc.Fork
import TinyRiscvOs.Vm.Entry
import TinyRiscvOs.Vm.Machine
import TinyRiscvOs.Vm.Process
import TinyRiscvOs.Vm.Areas
import TinyRiscvOs.Vm.AreaList
import TinyRiscvOs.Vm.Tables
import TinyRiscvOs.Vm.StrayMapping
import TinyRiscvOs.Vm.FailedMapping
import TinyRiscvOs.Vm.TreeMapping
import TinyRiscvOs.Vm.MappedRange
import TinyRiscvOs.Vm.WholeTree
import TinyRiscvOs.Vm.AddressSpace
import TinyRiscvOs.Vm.Mapping
import TinyRiscvOs.Vm.Fault
import TinyRiscvOs.Vm.Plant
import TinyRiscvOs.Vm.Share
import TinyRiscvOs.Vm.ForkScan
import TinyRiscvOs.Vm.Boot
import TinyRiscvOs.Vm.System
import TinyRiscvOs.Vm.Generations
import TinyRiscvOs.Vm.Fill
import TinyRiscvOs.Vm.LoadElf
import TinyRiscvOs.Vm.Safety
import TinyRiscvOs.Vm.Isolation
import TinyRiscvOs.Vm.Counting
import TinyRiscvOs.Vm.DemandPaging
import TinyRiscvOs.Vm.StaleBytes
import TinyRiscvOs.Vm.DirectMap
import TinyRiscvOs.Vm.Relocate
import TinyRiscvOs.Trap.Entry
import TinyRiscvOs.Trap.System
import TinyRiscvOs.Trap.Invariant
import TinyRiscvOs.Trap.Steps
import TinyRiscvOs.Trap.Child
import TinyRiscvOs.Trap.Context
import TinyRiscvOs.Trap.ForkReturn
import TinyRiscvOs.Kernel.SharedTable
import TinyRiscvOs.Kernel.Descriptors
import TinyRiscvOs.Kernel.FileTable
import TinyRiscvOs.Vm.PrivateMemory
import TinyRiscvOs.User.Printf
import TinyRiscvOs.User.Cat
