import Nrk.Lib.Outcome
import Nrk.Lib.Chunks
import Nrk.Lib.Simulation
import Nrk.Lib.SortedMap
import Nrk.Lib.Bits
import Nrk.Lib.Slots
import Nrk.Lib.SizeClass
import Nrk.Lib.Longest
import Nrk.Lib.SeqRing
import Nrk.Lib.ArrayVec
import Nrk.Lib.Carve
import Nrk.Lib.Pipe
import Nrk.Basic
import Nrk.Fs.File
import Nrk.Fs.FileSpec
import Nrk.Fs.MemNode
import Nrk.Fs.MlnrFS
import Nrk.Fs.FlatFS
import Nrk.Fs.MemNodeSpec
import Nrk.Fs.Refinement
import Nrk.Fs.Fd
import Nrk.Fs.Cnrfs
import Nrk.Fs.CnrfsSpec
import Nrk.Fs.RwLock
import Nrk.Fs.FdModel
import Nrk.Fs.FdRefinement
import Nrk.Memory.MapAction
import Nrk.Memory.PageTable
import Nrk.Memory.VSpace
import Nrk.Memory.Model
import Nrk.Memory.Walk
import Nrk.Memory.PageTableSpec
import Nrk.Memory.Consistency
import Nrk.Memory.Shootdown
import Nrk.Memory.Detmem
import Nrk.Memory.PerCore
import Nrk.Memory.Realloc
import Nrk.Memory.MCache
import Nrk.Lineup.Scheduler
import Nrk.Lineup.Run
import Nrk.Lineup.Waitlist
import Nrk.Process.Frames
import Nrk.Process.FramesSpec
import Nrk.Process.NrProcess
import Nrk.Process.Syscall
import Nrk.Process.Dispatch
import Nrk.Process.Calls
import Nrk.Process.UserSlice
import Nrk.Vibrio.Mem
import Nrk.Kernel.Cmdline
import Nrk.Kernel.Mpmc
import Nrk.Rpc.Queue
import Nrk.Rpc.Transport
import Nrk.Rpc.Tcp
import Nrk.Rpc.Shmem
import Nrk.Memory.MapBig
import Nrk.Vmxnet3.Basic
import Nrk.Vmxnet3.Rx
import Nrk.Vmxnet3.Tx
import Nrk.Vmxnet3.TxFifo
import Nrk.Vmxnet3.TxRing
import Nrk.Vmxnet3.TxRefine
import Nrk.Memory.Populate
import Nrk.Memory.GlobalMemory
import Nrk.Memory.MapGeneric
