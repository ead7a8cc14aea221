import Nrk.Lib.Outcome

/-! # Shared kernel definitions

The kernel's error type, its page sizes and the file types of `kpi::io`. -/

namespace Nrk

/-- `usize` and `u64` are 64 bits wide. -/
def USIZE_BITS : ℕ := 64

def BASE_PAGE_SIZE : ℕ := 4096

def LARGE_PAGE_SIZE : ℕ := 2 * 1024 * 1024

def HUGE_PAGE_SIZE : ℕ := 1024 * 1024 * 1024

/-- `kpi::KERNEL_BASE`: user space is the range below it. -/
def KERNEL_BASE : ℕ := 0x4000_0000_0000

/-- The variants of `KError` that modelled code returns. -/
inductive KError where
  | OutOfMemory
  | ReplicaNotSet
  | ProcessNotSet
  | NotSupported
  | InvalidVSpaceOperation (a : ℕ)
  | CacheExhausted
  | CacheFull
  | InvalidAffinityId
  | NoProcessFoundForPid
  | InvalidFrameId
  | TooManyRegisteredFrames
  | InvalidFileDescriptor
  | InvalidFrame
  | FrameStillMapped
  | AlreadyMapped (base : ℕ)
  | BaseOverflow (base : ℕ)
  | NotMapped
  | InvalidLength
  | InvalidBase
  | InvalidFile
  | InvalidOffset
  | PermissionError
  | AlreadyPresent
  | FileDescForPidAlreadyAdded
  | TryFromIntError
  | FileDescriptorTooLarge
  | UserBufferTooLarge
  | InvalidUserBufferArgs
  | PidMismatchInProcessArgument
  | NotInRightAddressSpaceForReading
  | NotAUserVAddr
  | UserPtMissingWriteAccess
  | UserPtMissingReadAccess
  | SliceLengthMismatchForWriting
  deriving DecidableEq, Repr

/-- `FileModes`: the permission bits a file is created with. -/
structure FileModes where
  bits : ℕ
  deriving DecidableEq, Repr

namespace FileModes

def S_IRWXU : FileModes := ⟨0x007⟩

def is_readable (m : FileModes) : Bool := m.bits &&& 0x004 == 0x004

def is_writable (m : FileModes) : Bool := m.bits &&& 0x002 == 0x002

end FileModes

/-- `FileFlags`: the flags a file descriptor is opened with. -/
structure FileFlags where
  bits : ℕ
  deriving DecidableEq, Repr

namespace FileFlags

def O_NONE : FileFlags := ⟨0x0000⟩

def O_RDONLY : FileFlags := ⟨0x0001⟩

def O_WRONLY : FileFlags := ⟨0x0002⟩

def O_RDWR : FileFlags := ⟨0x0003⟩

def O_CREAT : FileFlags := ⟨0x0200⟩

def O_TRUNC : FileFlags := ⟨0x0400⟩

def O_APPEND : FileFlags := ⟨0x2000⟩

def is_read (f : FileFlags) : Bool := f.bits &&& 0x0001 == 0x0001

def is_write (f : FileFlags) : Bool := f.bits &&& 0x0002 == 0x0002

def is_create (f : FileFlags) : Bool := f.bits &&& 0x0200 == 0x0200

def is_truncate (f : FileFlags) : Bool := f.bits &&& 0x0400 == 0x0400

def is_append (f : FileFlags) : Bool := f.bits &&& 0x2000 == 0x2000

end FileFlags

inductive FileType where
  | Directory
  | File
  deriving DecidableEq, Repr

/-- `From<FileType> for u64`. -/
def FileType.toU64 : FileType → ℕ
  | .Directory => 1
  | .File => 2

structure FileInfo where
  ftype : ℕ
  fsize : ℕ
  deriving DecidableEq, Repr

end Nrk
