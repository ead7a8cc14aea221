import Nrk.Fs.MlnrFS

/-! # A flat file system

What the in-memory file system is for: names bound to node numbers, nodes holding a type, modes
and bytes. -/

namespace Nrk.Fs

structure FlatNode where
  ftype : FileType
  modes : FileModes
  bytes : List UInt8
  deriving DecidableEq, Repr

namespace FlatNode

/-- A regular file that the modes allow to write. -/
def Writable (n : FlatNode) : Prop := n.ftype = .File ∧ n.modes.is_writable = true

def Readable (n : FlatNode) : Prop := n.ftype = .File ∧ n.modes.is_readable = true

instance (n : FlatNode) : Decidable n.Writable := inferInstanceAs (Decidable (_ ∧ _))

instance (n : FlatNode) : Decidable n.Readable := inferInstanceAs (Decidable (_ ∧ _))

def write (n : FlatNode) (buf : List UInt8) (off : ℕ) : Option (FlatNode × Except KError ℕ) :=
  if ¬ n.Writable then some (n, .error .PermissionError)
  else if 2 ^ USIZE_BITS ≤ off + buf.length then none
  else some ({ n with bytes := (n.bytes.rightpad (off + buf.length) 0).overwrite off buf },
    .ok buf.length)

/-- A read copies `min (|bytes| - off) |dst|` bytes from `off` to the front of `dst`. -/
def read (n : FlatNode) (dst : List UInt8) (off : ℕ) : Except KError (List UInt8 × ℕ) :=
  if ¬ n.Readable then .error .PermissionError
  else
    let k := min (n.bytes.length - off) dst.length
    .ok (dst.overwrite 0 ((n.bytes.drop off).take k), k)

def truncate (n : FlatNode) : FlatNode × Except KError Unit :=
  if ¬ n.Writable then (n, .error .PermissionError) else ({ n with bytes := [] }, .ok ())

def info (n : FlatNode) : FileInfo :=
  match n.ftype with
  | .Directory => ⟨FileType.Directory.toU64, 0⟩
  | .File => ⟨FileType.File.toU64, n.bytes.length⟩

end FlatNode

structure FlatFS where
  paths : String → Option MnodeNum
  nodes : MnodeNum → Option FlatNode
  next : ℕ

namespace FlatFS

/-- The root directory `/` is node `1`; the counter starts at `2`. -/
def init : FlatFS where
  paths := fun p => if p = "/" then some 1 else none
  nodes := fun m => if m = 1 then some ⟨.Directory, FileModes.S_IRWXU, []⟩ else none
  next := 2

/-- A fresh name is bound to a fresh node with no bytes. -/
def create (s : FlatFS) (p : String) (modes : FileModes) (t : FileType) :
    FlatFS × Except KError MnodeNum :=
  if (s.paths p).isSome then (s, .error .AlreadyPresent)
  else
    ({ paths := Function.update s.paths p (some s.next)
       nodes := Function.update s.nodes s.next (some ⟨t, modes, []⟩)
       next := s.next + 1 }, .ok s.next)

/-- Replaces node `m` by `n`. -/
def setNode (s : FlatFS) (m : MnodeNum) (n : FlatNode) : FlatFS :=
  { s with nodes := Function.update s.nodes m (some n) }

def write (s : FlatFS) (m : MnodeNum) (buf : List UInt8) (off : ℕ) :
    Option (FlatFS × Except KError ℕ) :=
  match s.nodes m with
  | none => some (s, .error .InvalidFile)
  | some n => (n.write buf off).map fun (n, r) => (s.setNode m n, r)

def read (s : FlatFS) (m : MnodeNum) (dst : List UInt8) (off : ℕ) :
    Except KError (List UInt8 × ℕ) :=
  match s.nodes m with
  | none => .error .InvalidFile
  | some n => n.read dst off

def file_info (s : FlatFS) (m : MnodeNum) : Option FileInfo := (s.nodes m).map FlatNode.info

/-- A bound name is removed with its node. -/
def delete (s : FlatFS) (p : String) : FlatFS × Except KError Unit :=
  match s.paths p with
  | none => (s, .error .InvalidFile)
  | some m =>
      ({ s with paths := Function.update s.paths p none,
                nodes := Function.update s.nodes m none }, .ok ())

def truncate (s : FlatFS) (p : String) : FlatFS × Except KError Unit :=
  match s.paths p with
  | none => (s, .error .InvalidFile)
  | some m =>
      match s.nodes m with
      | none => (s, .error .InvalidFile)
      | some n => let (n, r) := n.truncate; (s.setNode m n, r)

/-- `old` is moved to `new`; a node bound to `new` before is deleted. -/
def rename (s : FlatFS) (old new : String) : Option (FlatFS × Except KError Unit) :=
  match s.paths old with
  | none => some (s, .error .InvalidFile)
  | some m =>
      if old = new then none
      else
        let s := if (s.paths new).isSome then (s.delete new).1 else s
        some ({ s with paths := Function.update (Function.update s.paths old none) new (some m) },
          .ok ())

/-- One call on the flat file system. -/
def call (s : FlatFS) : FsCall → Option (FlatFS × FsReply)
  | .create p modes => let (s, r) := s.create p modes .File; some (s, .create r)
  | .write m buf off => (s.write m buf off).map fun (s, r) => (s, .write r)
  | .read m dst off => some (s, .read (s.read m dst off))
  | .lookup p => some (s, .lookup (s.paths p))
  | .file_info m => (s.file_info m).map fun i => (s, .file_info i)
  | .delete p => let (s, r) := s.delete p; some (s, .delete r)
  | .truncate p => let (s, r) := s.truncate p; some (s, .truncate r)
  | .rename old new => (s.rename old new).map fun (s, r) => (s, .rename r)
  | .mkdir p modes => let (s, r) := s.create p modes .Directory; some (s, .mkdir (r.map fun _ => ()))

end FlatFS

end Nrk.Fs
