import Os161.Lib.Transition
import Os161.Coremap.Live
import Os161.Coremap.Fifo
import Os161.Swap.Race
import Os161.Elf.FirstTouch
import Os161.Elf.Tiling
import Os161.Elf.Validate
import Os161.Kmalloc.Heap
import Os161.Boot.Handover
import Os161.Coremap.Tag
import Os161.Vm.LoadError
import Os161.Vm.PageTable
import Os161.Vm.Leak
import Os161.Vm.Stats
import Os161.Proc.Runprogram
import Os161.Syscall.StdIo
import Os161.Sfs.Transfer
import Os161.Sfs.Refine
import Os161.Dev.Isolation
import Os161.Dev.Lhd
import Os161.Kmalloc.Steps
import Os161.Kmalloc.Pagerefs
import Os161.Lib.Slots
import Os161.Semfs.Directory
import Os161.Semfs.Creat
import Os161.Semfs.Undo
import Os161.Semfs.Wakeup
import Os161.Thread.Semaphore
import Os161.Vfs.Devices
import Os161.Vfs.Path
import Os161.Vfs.Refs
import Os161.Vfs.BigLock
import Os161.Sfs.Lifetime
import Os161.Sfs.Persist
import Os161.Sfs.Opened
import Os161.Sfs.Sync
import Os161.Sfs.Directory
import Os161.Sfs.Bitmap
import Os161.Vm.Copyinout
import Os161.Vm.Uiomove
import Os161.Vm.Pages
import Os161.Vm.Capacity
import Os161.Vm.Coherence
import Os161.Vm.Tables
import Os161.Vm.Victim
import Os161.Vm.Served
import Os161.Vm.Isolation
import Os161.Sfs.Narrow
import Os161.Sfs.Superblock
import Os161.Sfs.Bounds
import Os161.Sfs.Regrow
import Os161.Boot.Oversize
import Os161.Thread.Threadlist
import Os161.Thread.Migration
import Os161.Sched.Idle
import Os161.Sched.Locks
import Os161.Sched.Fifo
import Os161.Thread.Spl
import Os161.Array.Preallocate
import Os161.Console.Editing
import Os161.Console.Kgets
import Os161.Lib.Ring
import Os161.Console.Input
import Os161.Dev.Sectors
import Os161.Vfs.Split
import Os161.Array.Refine
import Os161.Sfs.FileSystem
