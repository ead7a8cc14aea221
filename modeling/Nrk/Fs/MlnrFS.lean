import Nrk.Fs.MemNode

/-! # The in-memory file system (`kernel/src/fs/mod.rs`)

`MlnrFS` with its two hash maps as lookup functions; the `Arc` of a file's mnode number is left
out, as its count is one whenever `delete` runs in a sequential run. -/

namespace Nrk.Fs

/-- `MNODE_OFFSET`: the mnode number of the first created node. -/
def MNODE_OFFSET : ℕ := 2

structure MlnrFS where
  mnodes : MnodeNum → Option MemNode
  files : String → Option MnodeNum
  nextmemnode : ℕ

namespace MlnrFS

/-- `MlnrFS::default`: the root directory `/` is mnode `1`. The allocations made here panic
on failure and are not modelled. -/
def default : MlnrFS where
  mnodes := fun m => if m = 1 then some ⟨1, "/", .Directory, none⟩ else none
  files := fun p => if p = "/" then some 1 else none
  nextmemnode := MNODE_OFFSET

/-- `get_next_mno`: the counter before the increment, and the file system after it. -/
def get_next_mno (fs : MlnrFS) : MnodeNum × MlnrFS :=
  (fs.nextmemnode, { fs with nextmemnode := fs.nextmemnode + 1 })

/-- The common body of `create` and `mkdir`. The mnode number is taken before the three
allocations (`Arc::try_new`, `mnodes.try_reserve(1)`, `MemNode::new`), so a failed
allocation still advances the counter. -/
def create_node (fs : MlnrFS) (pathname : String) (modes : FileModes) (node_type : FileType) :
    AllocM (MlnrFS × Except KError MnodeNum) := do
  if (fs.files pathname).isSome then return (fs, .error .AlreadyPresent)
  let (mnode_num, fs) := fs.get_next_mno
  if !(← AllocM.request) then return (fs, .error .OutOfMemory)
  if !(← AllocM.request) then return (fs, .error .OutOfMemory)
  match ← MemNode.new mnode_num pathname modes node_type with
  | .error e => return (fs, .error e)
  | .ok memnode =>
      return ({ fs with
        files := Function.update fs.files pathname (some mnode_num)
        mnodes := Function.update fs.mnodes mnode_num (some memnode) }, .ok mnode_num)

/-- `create`: every created node is a regular file. -/
def create (fs : MlnrFS) (pathname : String) (modes : FileModes) :
    AllocM (MlnrFS × Except KError MnodeNum) :=
  fs.create_node pathname modes .File

def mkdir (fs : MlnrFS) (pathname : String) (modes : FileModes) :
    AllocM (MlnrFS × Except KError Unit) := do
  let (fs, r) ← fs.create_node pathname modes .Directory
  return (fs, r.map fun _ => ())

def write (fs : MlnrFS) (mnode_num : MnodeNum) (buffer : List UInt8) (offset : ℕ) :
    AllocM (MlnrFS × Except KError ℕ) := do
  match fs.mnodes mnode_num with
  | some mnode =>
      let (mnode, r) ← mnode.write buffer offset
      return ({ fs with mnodes := Function.update fs.mnodes mnode_num (some mnode) }, r)
  | none => return (fs, .error .InvalidFile)

def read (fs : MlnrFS) (mnode_num : MnodeNum) (buffer : List UInt8) (offset : ℕ) :
    Outcome (Except KError (List UInt8 × ℕ)) :=
  match fs.mnodes mnode_num with
  | some mnode => mnode.read buffer offset
  | none => .ok (.error .InvalidFile)

def lookup (fs : MlnrFS) (pathname : String) : Option MnodeNum := fs.files pathname

/-- `file_info`: `unreachable!` on an mnode number that is not in `mnodes`. -/
def file_info (fs : MlnrFS) (mnode : MnodeNum) : Outcome FileInfo :=
  match fs.mnodes mnode with
  | some mnode =>
      match mnode.get_mnode_type with
      | .Directory => .ok ⟨FileType.Directory.toU64, 0⟩
      | .File => do return ⟨FileType.File.toU64, ← mnode.get_file_size⟩
  | none => .panic

/-- `delete` removes the node, then the name. -/
def delete (fs : MlnrFS) (pathname : String) : MlnrFS × Except KError Unit :=
  match fs.files pathname with
  | some mnode =>
      ({ fs with
        mnodes := Function.update fs.mnodes mnode none
        files := Function.update fs.files pathname none }, .ok ())
  | none => (fs, .error .InvalidFile)

def truncate (fs : MlnrFS) (pathname : String) : Outcome (MlnrFS × Except KError Unit) :=
  match fs.files pathname with
  | some mnode =>
      match fs.mnodes mnode with
      | some memnode => do
          let (memnode, r) ← memnode.file_truncate
          return ({ fs with mnodes := Function.update fs.mnodes mnode (some memnode) }, r)
      | none => .ok (fs, .error .InvalidFile)
  | none => .ok (fs, .error .InvalidFile)

/-- The first half of `rename`: `delete(&newname).unwrap()` when `newname` is bound. -/
def delete_existing (fs : MlnrFS) (newname : String) : Outcome MlnrFS :=
  if (fs.files newname).isSome then
    match fs.delete newname with
    | (fs, .ok ()) => .ok fs
    | (_, .error _) => .panic
  else .ok fs

/-- The second half of `rename`: `remove_entry(oldname)`, then `insert(newname, oldnmode)`,
whose old value decides the reply. -/
def move_entry (fs : MlnrFS) (oldname newname : String) : MlnrFS × Except KError Unit :=
  match fs.files oldname with
  | some oldnmode =>
      let files := Function.update fs.files oldname none
      let fs' := { fs with files := Function.update files newname (some oldnmode) }
      match files newname with
      | none => (fs', .ok ())
      | some _ => (fs', .error .PermissionError)
  | none => (fs, .error .InvalidFile)

/-- `rename`: an existing `newname` is deleted first, then the entry of `oldname` is moved. -/
def rename (fs : MlnrFS) (oldname newname : String) : Outcome (MlnrFS × Except KError Unit) := do
  if (fs.files oldname).isNone then return (fs, .error .InvalidFile)
  let fs ← fs.delete_existing newname
  return fs.move_entry oldname newname

end MlnrFS

/-! ## Calls of the `FileSystem` trait -/

/-- A call of the `FileSystem` trait with its arguments; `read` carries the destination. -/
inductive FsCall where
  | create (pathname : String) (modes : FileModes)
  | write (mnode_num : MnodeNum) (buffer : List UInt8) (offset : ℕ)
  | read (mnode_num : MnodeNum) (buffer : List UInt8) (offset : ℕ)
  | lookup (pathname : String)
  | file_info (mnode : MnodeNum)
  | delete (pathname : String)
  | truncate (pathname : String)
  | rename (oldname newname : String)
  | mkdir (pathname : String) (modes : FileModes)
  deriving DecidableEq, Repr

/-- What a call returns; `read` also returns the destination buffer. -/
inductive FsReply where
  | create (r : Except KError MnodeNum)
  | write (r : Except KError ℕ)
  | read (r : Except KError (List UInt8 × ℕ))
  | lookup (r : Option MnodeNum)
  | file_info (r : FileInfo)
  | delete (r : Except KError Unit)
  | truncate (r : Except KError Unit)
  | rename (r : Except KError Unit)
  | mkdir (r : Except KError Unit)
  deriving DecidableEq, Repr

namespace MlnrFS

/-- One call on the file system. -/
def call (fs : MlnrFS) : FsCall → AllocM (MlnrFS × FsReply)
  | .create pathname modes => do
      let (fs, r) ← fs.create pathname modes
      return (fs, .create r)
  | .write mnode_num buffer offset => do
      let (fs, r) ← fs.write mnode_num buffer offset
      return (fs, .write r)
  | .read mnode_num buffer offset => do
      let r ← (fs.read mnode_num buffer offset : Outcome _)
      return (fs, .read r)
  | .lookup pathname => return (fs, .lookup (fs.lookup pathname))
  | .file_info mnode => do
      let r ← (fs.file_info mnode : Outcome _)
      return (fs, .file_info r)
  | .delete pathname =>
      let (fs, r) := fs.delete pathname
      return (fs, .delete r)
  | .truncate pathname => do
      let (fs, r) ← (fs.truncate pathname : Outcome _)
      return (fs, .truncate r)
  | .rename oldname newname => do
      let (fs, r) ← (fs.rename oldname newname : Outcome _)
      return (fs, .rename r)
  | .mkdir pathname modes => do
      let (fs, r) ← fs.mkdir pathname modes
      return (fs, .mkdir r)

/-- One call with the allocator threaded through: the file system as a state machine. -/
def step (st : MlnrFS × Allocator) (c : FsCall) : Outcome ((MlnrFS × Allocator) × FsReply) :=
  (fun (((fs, r), a) : (MlnrFS × FsReply) × Allocator) => ((fs, a), r)) <$> (st.1.call c).run st.2

end MlnrFS

end Nrk.Fs
