import Nrk.Fs.File

/-! # Memory nodes (`kernel/src/fs/mnode.rs`) -/

namespace Nrk.Fs

/-- `MnodeNum` (`u64`). -/
abbrev MnodeNum := ℕ

structure MemNode where
  mnode_num : MnodeNum
  name : String
  node_type : FileType
  file : Option File
  deriving DecidableEq, Repr

namespace MemNode

/-- `MemNode::new`: a regular file allocates its `File` first, then the name is copied
(`TryString::try_from`, one request). -/
def new (mnode_num : MnodeNum) (pathname : String) (modes : FileModes) (node_type : FileType) :
    AllocM (Except KError MemNode) := do
  let file : Except KError (Option File) ← match node_type with
    | .Directory => pure (.ok none)
    | .File => (Except.map some) <$> File.new modes
  match file with
  | .error e => return .error e
  | .ok file =>
      if ← AllocM.request then return .ok ⟨mnode_num, pathname, node_type, file⟩
      else return .error .OutOfMemory

def get_mnode_type (m : MemNode) : FileType := m.node_type

/-- `get_file_size`: `self.file.as_ref().unwrap().get_size()`. -/
def get_file_size (m : MemNode) : Outcome ℕ :=
  match m.file with
  | some file => .ok file.get_size
  | none => .panic

/-- `MemNode::write`: only a writable regular file takes the bytes. -/
def write (m : MemNode) (buffer : List UInt8) (offset : ℕ) :
    AllocM (MemNode × Except KError ℕ) := do
  if m.node_type ≠ .File then return (m, .error .PermissionError)
  let some file := m.file | AllocM.panic
  if !file.get_mode.is_writable then return (m, .error .PermissionError)
  let len := buffer.length
  let (file, r) ← file.write_file buffer len offset
  return ({ m with file := some file }, r)

/-- `MemNode::read`: the buffer after the read and the number of bytes read. -/
def read (m : MemNode) (buffer : List UInt8) (offset : ℕ) :
    Outcome (Except KError (List UInt8 × ℕ)) := do
  if m.node_type ≠ .File then return .error .PermissionError
  let some file := m.file | .panic
  if !file.get_mode.is_readable then return .error .PermissionError
  let len := buffer.length
  let file_size ← m.get_file_size
  if offset > file_size then return .ok (buffer, 0)
  let bytes_to_read := min (file_size - offset) len
  let new_offset := offset + bytes_to_read
  if bytes_to_read = 0 then return .ok (buffer, 0)
  if offset ≥ new_offset ∨ new_offset > (← m.get_file_size) then return .error .InvalidOffset
  file.read_file buffer offset new_offset

/-- `MemNode::file_truncate` (the `O_TRUNC` of an open). -/
def file_truncate (m : MemNode) : Outcome (MemNode × Except KError Unit) := do
  if m.node_type ≠ .File then return (m, .error .PermissionError)
  let some file := m.file | .panic
  if !file.get_mode.is_writable then return (m, .error .PermissionError)
  return ({ m with file := some file.file_truncate }, .ok ())

end MemNode

end Nrk.Fs
