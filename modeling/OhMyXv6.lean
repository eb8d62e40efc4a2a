import OhMyXv6.Log.Model
import OhMyXv6.Lib.Runs
import OhMyXv6.Log.Crash
import OhMyXv6.Log.Reservation
import OhMyXv6.Syscall.Args
import OhMyXv6.Fs.Layout
import OhMyXv6.Fs.Blocks
import OhMyXv6.Mkfs.Model
import OhMyXv6.Mkfs.Append
import OhMyXv6.Mkfs.Rep
import OhMyXv6.Mkfs.Tree
import OhMyXv6.Mkfs.Refine
import OhMyXv6.Mkfs.Final
import OhMyXv6.Fs.Dir
import OhMyXv6.Mkfs.Image
import OhMyXv6.Kernel.State
import OhMyXv6.Kernel.Inode
import OhMyXv6.Kernel.File
import OhMyXv6.Kernel.Sysfile
import OhMyXv6.Kernel.System
import OhMyXv6.Kernel.Transaction
import OhMyXv6.Fs.Bitmap
import OhMyXv6.Kernel.Node
import OhMyXv6.Kernel.Image
import OhMyXv6.Kernel.View
import OhMyXv6.Kernel.Balance
import OhMyXv6.Bio.Cache
import OhMyXv6.Bio.Flat
import OhMyXv6.Bio.Refine
import OhMyXv6.Console.Editor
import OhMyXv6.Icache.Consistent
import OhMyXv6.Kernel.Lookup
import OhMyXv6.Mkfs.Decode
import OhMyXv6.Pipe.Model
import OhMyXv6.Pipe.Step
import OhMyXv6.Pipe.Stream
import OhMyXv6.Pipe.Wakeup
import OhMyXv6.Proc.Family
import OhMyXv6.Proc.Kill
import OhMyXv6.Console.Draft
import OhMyXv6.Lib.Lines
import OhMyXv6.Shell.HistoryFile
import OhMyXv6.Shell.Sessions
import OhMyXv6.Console.Rerun
import OhMyXv6.Console.Typeahead
import OhMyXv6.Shell.Jump
import OhMyXv6.Shell.JumpIndex
import OhMyXv6.Console.Font
import OhMyXv6.Lib.Fallible
import OhMyXv6.Lib.Radix
import OhMyXv6.Proc.Cpu
import OhMyXv6.Proc.Running
import OhMyXv6.Vm.Address
import OhMyXv6.Vm.Exhaust
import OhMyXv6.Vm.Ownership
import OhMyXv6.Kernel.Alloc
import OhMyXv6.Kernel.Filewrite
import OhMyXv6.Kernel.Shared
import OhMyXv6.Kernel.Devsw
import OhMyXv6.Kernel.Display
import OhMyXv6.Kernel.Readback
import OhMyXv6.Vm.Segments
import OhMyXv6.Vm.Arguments
import OhMyXv6.Kernel.Create
import OhMyXv6.Kernel.Failed
import OhMyXv6.Kernel.Getcwd
import OhMyXv6.Lib.Chain
import OhMyXv6.Lib.Zipper
import OhMyXv6.Shell.Complete
import OhMyXv6.Shell.Cycle
import OhMyXv6.Shell.Grammar
import OhMyXv6.Shell.JumpStores
import OhMyXv6.Shell.Links
import OhMyXv6.Shell.HistoryZipper
import OhMyXv6.Shell.Parsecmd
import OhMyXv6.Shell.Recall
import OhMyXv6.Kernel.Opened
import OhMyXv6.Shell.Redirect
import OhMyXv6.Vm.Fork
import OhMyXv6.Lib.Stores
import OhMyXv6.Vm.Stack
import OhMyXv6.Exec.Failed
import OhMyXv6.Console.Writes
import OhMyXv6.Proc.Sleeplock
import OhMyXv6.Console.Loadfont
import OhMyXv6.Console.Cga
import OhMyXv6.Grep.Match
import OhMyXv6.Grep.Loop
import OhMyXv6.Console.Theme
import OhMyXv6.User.Printf
import OhMyXv6.Bio.Ide
import OhMyXv6.Lib.Circular
import OhMyXv6.User.Blocks
import OhMyXv6.User.Freelist
import OhMyXv6.User.Malloc
import OhMyXv6.Lib.Moves
import OhMyXv6.User.Memmove
import OhMyXv6.Vm.Entries
import OhMyXv6.Vm.Mapping
import OhMyXv6.Vm.Pagemap
import OhMyXv6.Vm.Words
