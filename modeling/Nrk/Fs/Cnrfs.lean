import Nrk.Fs.Fd
import Nrk.Fs.MlnrFS

/-! # The replicated file-system node (`kernel/src/fs/cnrfs.rs`)

`MlnrKernelNode`, its log mapping and its two dispatch functions; `dispatch` returns the node
too, since a `FileRead` at the cursor moves an offset held in an `AtomicUsize`. -/

namespace Nrk.Fs

/-- `Pid` (`usize`). -/
abbrev Pid := ℕ

/-- `offset as usize` for an `i64` offset: the two's complement bits read unsigned. -/
def offset_as_usize (offset : ℤ) : ℕ := (offset % 2 ^ USIZE_BITS).toNat

structure MlnrKernelNode where
  process_map : Pid → Option FileDescriptorTable
  fs : MlnrFS

inductive Modify where
  | ProcessAdd (pid : Pid)
  | FileOpen (pid : Pid) (filename : String) (flags : FileFlags) (modes : FileModes)
  | FileWrite (pid : Pid) (fd : FileDescriptor) (mnode : MnodeNum) (kernslice : List UInt8)
      (offset : ℤ)
  | FileClose (pid : Pid) (fd : FileDescriptor)
  | FileDelete (pid : Pid) (filename : String)
  | FileRename (pid : Pid) (oldname newname : String)
  | MkDir (pid : Pid) (filename : String) (modes : FileModes)
  deriving DecidableEq, Repr

inductive Access where
  | FileRead (pid : Pid) (fd : FileDescriptor) (mnode : MnodeNum) (userslice : List UInt8)
      (offset : ℤ)
  | FileInfo (pid : Pid) (name : String) (mnode : MnodeNum)
  | FdToMnode (pid : Pid) (fd : FileDescriptor)
  | FileNameToMnode (pid : Pid) (filename : String)
  | Synchronize (log_id : ℕ)
  deriving DecidableEq, Repr

inductive MlnrNodeResult where
  | ProcessAdded (pid : Pid)
  | FileOpened (fd : FileDescriptor)
  | FileAccessed (len : ℕ)
  | FileClosed (fd : FileDescriptor)
  | FileDeleted
  | FileInfo (info : FileInfo)
  | FileRenamed
  | DirCreated
  | MappedFileToMnode (mnode : MnodeNum)
  | Synchronized
  deriving DecidableEq, Repr

/-! ## Log mapping -/

/-- `push_to_all`: every log index below `nlogs`. -/
def push_to_all (nlogs : ℕ) : List ℕ := List.range nlogs

/-- The log of an mnode: `(mnode as usize - MNODE_OFFSET) % nlogs`, with the `usize`
subtraction and the remainder checked. -/
def mnode_log (mnode nlogs : ℕ) : Outcome ℕ := do
  let i ← Outcome.checkedSub mnode MNODE_OFFSET
  Outcome.checkedRem i nlogs

def Modify.hash (op : Modify) (nlogs : ℕ) : Outcome (List ℕ) :=
  match op with
  | .ProcessAdd _ => pure (push_to_all nlogs)
  | .FileOpen _ _ _ _ => pure (push_to_all nlogs)
  | .FileWrite _ _ mnode _ _ => do return [← mnode_log mnode nlogs]
  | .FileClose _ _ => pure (push_to_all nlogs)
  | .FileDelete _ _ => pure (push_to_all nlogs)
  | .FileRename _ _ _ => pure (push_to_all nlogs)
  | .MkDir _ _ _ => pure (push_to_all nlogs)

def Access.hash (op : Access) (nlogs : ℕ) : Outcome (List ℕ) :=
  match op with
  | .FileRead _ _ mnode _ _ => do return [← mnode_log mnode nlogs]
  | .FileInfo _ _ mnode => do return [← mnode_log mnode nlogs]
  | .FdToMnode _ _ => pure [0]
  | .FileNameToMnode _ _ => pure [0]
  | .Synchronize log_id => do
      let i ← Outcome.checkedSub log_id 1
      return [← Outcome.checkedRem i nlogs]

namespace MlnrKernelNode

def default : MlnrKernelNode := ⟨fun _ => none, MlnrFS.default⟩

/-- Stores the descriptor table of `pid`. -/
def setTable (n : MlnrKernelNode) (pid : Pid) (p : FileDescriptorTable) : MlnrKernelNode :=
  { n with process_map := Function.update n.process_map pid (some p) }

/-! ## `dispatch` -/

/-- The `FileRead` arm of `dispatch`: the node after the call (with the descriptor's
offset moved when no offset was given), the user slice after the call, and the number of
bytes read. -/
def file_read (n : MlnrKernelNode) (pid : Pid) (fd : FileDescriptor) (userslice : List UInt8)
    (offset : ℤ) : Outcome (MlnrKernelNode × Except KError (List UInt8 × ℕ)) :=
  match n.process_map pid with
  | none => .ok (n, .error .NoProcessFoundForPid)
  | some p =>
      match p.get_fd fd with
      | none => .ok (n, .error .PermissionError)
      | some e =>
          if !e.flags.is_read then .ok (n, .error .PermissionError)
          else
            let curr_offset := if offset = -1 then e.offset else offset_as_usize offset
            do
              match ← n.fs.read e.mnode userslice curr_offset with
              | .error err => return (n, .error err)
              | .ok (userslice, len) =>
                  if offset = -1 then
                    let new_offset ← Outcome.checkedAdd USIZE_BITS curr_offset len
                    return (n.setTable pid (p.set fd (some (e.update_offset new_offset))),
                      .ok (userslice, len))
                  else return (n, .ok (userslice, len))

/-- `dispatch`: the node after the call, the response, and the user slice of a
`FileRead` after the call. -/
def dispatch (n : MlnrKernelNode) :
    Access → Outcome (MlnrKernelNode × Except KError MlnrNodeResult × Option (List UInt8))
  | .FileRead pid fd _mnode userslice offset => do
      let (n, r) ← n.file_read pid fd userslice offset
      match r with
      | .ok (userslice, len) => return (n, .ok (.FileAccessed len), some userslice)
      | .error e => return (n, .error e, some userslice)
  | .FileInfo pid name _mnode =>
      match n.process_map pid with
      | none => .ok (n, .error .NoProcessFoundForPid, none)
      | some _ =>
          match n.fs.lookup name with
          | none => .ok (n, .error .InvalidFile, none)
          | some mnode => do
              let f_info ← n.fs.file_info mnode
              return (n, .ok (.FileInfo f_info), none)
  | .FdToMnode pid fd =>
      match n.process_map pid with
      | none => .ok (n, .error .NoProcessFoundForPid, none)
      | some p =>
          match p.get_fd fd with
          | none => .ok (n, .error .PermissionError, none)
          | some e => .ok (n, .ok (.MappedFileToMnode e.mnode), none)
  | .FileNameToMnode pid filename =>
      match n.process_map pid with
      | none => .ok (n, .error .NoProcessFoundForPid, none)
      | some _ =>
          match n.fs.lookup filename with
          | some mnode => .ok (n, .ok (.MappedFileToMnode mnode), none)
          | none => .ok (n, .error .InvalidFile, none)
  | .Synchronize _ => .ok (n, .ok .Synchronized, none)

/-! ## `dispatch_mut` -/

/-- The error path of `FileOpen` after a descriptor was allocated:
`deallocate_fd(fid)?`, then the error. -/
def open_failed (n : MlnrKernelNode) (pid : Pid) (p : FileDescriptorTable) (fid : FileDescriptor)
    (e : KError) : MlnrKernelNode × Except KError MlnrNodeResult :=
  match p.deallocate_fd fid with
  | (p, .ok _) => (n.setTable pid p, .error e)
  | (p, .error e') => (n.setTable pid p, .error e')

/-- The file `FileOpen` opens: the existing node (truncated on `O_TRUNC`) or a new one. -/
def open_node (fs : MlnrFS) (filename : String) (flags : FileFlags) (modes : FileModes)
    (mnode : Option MnodeNum) : AllocM (MlnrFS × Except KError MnodeNum) := do
  match mnode with
  | some mnode =>
      if flags.is_truncate then
        let (fs, r) ← (fs.truncate filename : Outcome _)
        return (fs, r.map fun _ => mnode)
      else return (fs, .ok mnode)
  | none => fs.create filename modes

def file_open (n : MlnrKernelNode) (pid : Pid) (filename : String) (flags : FileFlags)
    (modes : FileModes) : AllocM (MlnrKernelNode × Except KError MlnrNodeResult) := do
  let mnode := n.fs.lookup filename
  if mnode.isNone ∧ !flags.is_create then return (n, .error .PermissionError)
  -- `expect("TODO: FileOpen process lookup failed")`
  let some p := n.process_map pid | AllocM.panic
  let some (fid, p) := p.allocate_fd | return (n, .error .NotSupported)
  let (fs, r) ← open_node n.fs filename flags modes mnode
  let n := { n with fs := fs }
  match r with
  | .error e => return n.open_failed pid p fid e
  | .ok mnode_num =>
      let p := p.set fid (some (FileDescriptorEntry.default.update mnode_num flags))
      return (n.setTable pid p, .ok (.FileOpened fid))

/-- The offset a `FileWrite` writes at: the given one, or without one the end of the file
under `O_APPEND` (`file_info`) and the descriptor's offset otherwise. -/
def write_offset (n : MlnrKernelNode) (e : FileDescriptorEntry) (offset : ℤ) : Outcome ℕ :=
  if offset = -1 then
    if e.flags.is_append then do
      let finfo ← n.fs.file_info e.mnode
      return finfo.fsize
    else .ok e.offset
  else .ok (offset_as_usize offset)

def file_write (n : MlnrKernelNode) (pid : Pid) (fd : FileDescriptor) (kernslice : List UInt8)
    (offset : ℤ) : AllocM (MlnrKernelNode × Except KError MlnrNodeResult) := do
  -- `expect("TODO: FileWrite process lookup failed")`
  let some p := n.process_map pid | AllocM.panic
  let some e := p.get_fd fd | return (n, .error .PermissionError)
  if !e.flags.is_write then return (n, .error .PermissionError)
  let curr_offset ← (n.write_offset e offset : Outcome _)
  let (fs, r) ← n.fs.write e.mnode kernslice curr_offset
  let n := { n with fs := fs }
  match r with
  | .error err => return (n, .error err)
  | .ok len =>
      if offset = -1 then
        let new_offset ← (Outcome.checkedAdd USIZE_BITS curr_offset len : Outcome _)
        return (n.setTable pid (p.set fd (some (e.update_offset new_offset))),
          .ok (.FileAccessed len))
      else return (n, .ok (.FileAccessed len))

def dispatch_mut (n : MlnrKernelNode) :
    Modify → AllocM (MlnrKernelNode × Except KError MlnrNodeResult)
  | .ProcessAdd pid => do
      -- `pmap.try_reserve(1)?`
      if !(← AllocM.request) then return (n, .error .OutOfMemory)
      match n.process_map pid with
      | some _ => return (n, .error .FileDescForPidAlreadyAdded)
      | none => return (n.setTable pid FileDescriptorTable.default, .ok (.ProcessAdded pid))
  | .FileOpen pid filename flags modes => n.file_open pid filename flags modes
  | .FileWrite pid fd _mnode kernslice offset => n.file_write pid fd kernslice offset
  | .FileClose pid fd => do
      -- `expect("TODO: FileClose process lookup failed")`
      let some p := n.process_map pid | AllocM.panic
      match p.deallocate_fd fd with
      | (p, .ok _) => return (n.setTable pid p, .ok (.FileClosed fd))
      | (_, .error e) => return (n, .error e)
  | .FileDelete pid filename =>
      match n.process_map pid with
      | none => return (n, .error .NoProcessFoundForPid)
      | some _ =>
          let (fs, r) := n.fs.delete filename
          return ({ n with fs := fs }, r.map fun _ => .FileDeleted)
  | .FileRename pid oldname newname =>
      match n.process_map pid with
      | none => return (n, .error .NoProcessFoundForPid)
      | some _ => do
          let (fs, r) ← (n.fs.rename oldname newname : Outcome _)
          return ({ n with fs := fs }, r.map fun _ => .FileRenamed)
  | .MkDir pid filename modes =>
      match n.process_map pid with
      | none => return (n, .error .NoProcessFoundForPid)
      | some _ => do
          let (fs, r) ← n.fs.mkdir filename modes
          return ({ n with fs := fs }, r.map fun _ => .DirCreated)

end MlnrKernelNode

/-! ## Runs of a replica -/

/-- An operation a replica applies: a logged `Modify` or a local `Access`. -/
inductive NodeOp where
  | modify (op : Modify)
  | access (op : Access)
  deriving DecidableEq, Repr

namespace MlnrKernelNode

/-- One operation on a replica, with the allocator threaded through. A `Modify` fills no
user slice. -/
def step (st : MlnrKernelNode × Allocator) :
    NodeOp → Outcome ((MlnrKernelNode × Allocator) ×
      (Except KError MlnrNodeResult × Option (List UInt8)))
  | .modify op =>
      (fun (((n, r), a) : (MlnrKernelNode × Except KError MlnrNodeResult) × Allocator) =>
        ((n, a), (r, none))) <$> (st.1.dispatch_mut op).run st.2
  | .access op => (fun (n, r, u) => ((n, st.2), (r, u))) <$> st.1.dispatch op

end MlnrKernelNode

end Nrk.Fs
