import Nrk.Fs.FlatFS
import Nrk.Fs.Cnrfs
import Nrk.Lib.Slots

/-! # Per-process file descriptors over the flat file system

What the descriptor layer of `MlnrKernelNode` is for: a table of open files per process, each
with its node, its flags and a cursor. -/

namespace Nrk.Fs

/-! ## Lengths that a `usize` holds

A write succeeds only when its range ends below `2 ^ 64`, so every node of the flat file
system keeps a length below that, and a read at an offset below `2 ^ 64` ends below it too.
These bounds are what keep the code's checked additions of cursors from overflowing. -/

namespace FlatNode

/-- A write either fails and changes nothing, or writes all of `buf` and the node grows to
the end of the written range. -/
theorem write_eq_some {n n' : FlatNode} {buf : List UInt8} {off : ℕ} {r : Except KError ℕ}
    (h : n.write buf off = some (n', r)) :
    (n' = n ∧ r = .error .PermissionError) ∨
      (n'.bytes.length = max (off + buf.length) n.bytes.length ∧
        off + buf.length < 2 ^ USIZE_BITS ∧ r = .ok buf.length) := by
  by_cases hw : n.Writable
  · by_cases hend : 2 ^ USIZE_BITS ≤ off + buf.length
    · simp [write, hw, hend] at h
    simp only [write, hw, hend, not_true_eq_false, if_false, Option.some.injEq,
      Prod.mk.injEq] at h
    obtain ⟨rfl, rfl⟩ := h
    have hfit : off + buf.length ≤ (n.bytes.rightpad (off + buf.length) 0).length := by
      rw [List.length_rightpad]
      exact le_max_left _ _
    refine .inr ⟨?_, by omega, rfl⟩
    rw [List.length_overwrite hfit, List.length_rightpad]
  · simp only [write, hw, not_false_eq_true, if_true, Option.some.injEq, Prod.mk.injEq] at h
    exact .inl ⟨h.1.symm, h.2.symm⟩

/-- A read at `off` from a node of length `L` moves `min (L - off) |dst|` bytes, so it ends
below any bound that `L` and `off` are both below. -/
theorem read_end_lt {n : FlatNode} {dst dst' : List UInt8} {off len B : ℕ}
    (hn : n.bytes.length < B) (hoff : off < B) (h : n.read dst off = .ok (dst', len)) :
    off + len < B := by
  unfold read at h
  split_ifs at h
  simp only [Except.ok.injEq, Prod.mk.injEq] at h
  obtain ⟨-, rfl⟩ := h
  omega

theorem truncate_length (n : FlatNode) : n.truncate.1.bytes.length ≤ n.bytes.length := by
  unfold truncate
  split_ifs <;> simp

end FlatNode

namespace FlatFS

/-- Every node's length is one that a `usize` holds. -/
def Sound (s : FlatFS) : Prop := ∀ m n, s.nodes m = some n → n.bytes.length < 2 ^ USIZE_BITS

variable {s s' : FlatFS}

theorem sound_init : FlatFS.init.Sound := by
  intro m n h
  simp only [init] at h
  split_ifs at h
  cases h
  simp [USIZE_BITS]

theorem Sound.setNode (hs : s.Sound) {m : MnodeNum} {n : FlatNode}
    (hn : n.bytes.length < 2 ^ USIZE_BITS) : (s.setNode m n).Sound := by
  intro m' n' h
  by_cases hm : m' = m
  · subst hm
    simp only [FlatFS.setNode, Function.update_self, Option.some.injEq] at h
    exact h ▸ hn
  · exact hs m' n' (by simpa [FlatFS.setNode, hm] using h)

theorem Sound.create (hs : s.Sound) (p : String) (modes : FileModes) (t : FileType) :
    (s.create p modes t).1.Sound := by
  unfold FlatFS.create
  split_ifs
  · exact hs
  · intro m n h
    simp only [Function.update_apply] at h
    split_ifs at h
    · cases h
      simp [USIZE_BITS]
    · exact hs m n h

theorem Sound.truncate (hs : s.Sound) (p : String) : (s.truncate p).1.Sound := by
  unfold FlatFS.truncate
  split
  · exact hs
  · split
    · exact hs
    · rename_i n hn
      exact hs.setNode (lt_of_le_of_lt n.truncate_length (hs _ n hn))

theorem Sound.write (hs : s.Sound) {m : MnodeNum} {buf : List UInt8} {off : ℕ}
    {r : Except KError ℕ} (h : s.write m buf off = some (s', r)) : s'.Sound := by
  unfold FlatFS.write at h
  split at h
  · simp only [Option.some.injEq, Prod.mk.injEq] at h
    exact h.1 ▸ hs
  · rename_i n hn
    obtain ⟨⟨n', r'⟩, hw, hret⟩ := Option.map_eq_some_iff.mp h
    simp only [Prod.mk.injEq] at hret
    rw [← hret.1]
    apply hs.setNode
    have hlen := hs m n hn
    rcases FlatNode.write_eq_some hw with ⟨rfl, -⟩ | ⟨hlen', hend, -⟩
    · exact hlen
    · omega

theorem write_eq_ok {m : MnodeNum} {buf : List UInt8} {off len : ℕ}
    (h : s.write m buf off = some (s', .ok len)) :
    len = buf.length ∧ off + len < 2 ^ USIZE_BITS := by
  unfold FlatFS.write at h
  split at h
  · simp at h
  · obtain ⟨⟨n', r'⟩, hw, hret⟩ := Option.map_eq_some_iff.mp h
    simp only [Prod.mk.injEq] at hret
    rw [hret.2] at hw
    rcases FlatNode.write_eq_some hw with ⟨-, hr⟩ | ⟨-, hend, hr⟩
    · cases hr
    · cases hr
      exact ⟨rfl, hend⟩

theorem Sound.read_end_lt (hs : s.Sound) {m : MnodeNum} {dst dst' : List UInt8} {off len : ℕ}
    (hoff : off < 2 ^ USIZE_BITS) (h : s.read m dst off = .ok (dst', len)) :
    off + len < 2 ^ USIZE_BITS := by
  unfold FlatFS.read at h
  split at h
  · cases h
  · exact FlatNode.read_end_lt (hs _ _ ‹_›) hoff h

end FlatFS

/-- An open file: its node, the flags it was opened with, and the cursor. -/
structure OpenFile where
  node : MnodeNum
  flags : FileFlags
  cursor : ℕ
  deriving DecidableEq, Repr

/-- A process's open files by descriptor. -/
abbrev Descriptors := FileDescriptor → Option OpenFile

/-- The lowest descriptor with no open file. -/
def lowest_free (t : Descriptors) : Option FileDescriptor := Slots.lowest fun fd => (t fd).isNone

structure FdModel where
  fs : FlatFS
  procs : Pid → Option Descriptors

namespace FdModel

/-- No process, and the file system with only the root. -/
def init : FdModel := ⟨FlatFS.init, fun _ => none⟩

def setProc (d : FdModel) (pid : Pid) (t : Descriptors) : FdModel :=
  { d with procs := Function.update d.procs pid (some t) }

/-- Where an access with an explicit offset works: the offset, when it is a position. -/
def position (offset : ℤ) : Option ℕ :=
  if 0 ≤ offset ∧ offset < 2 ^ 63 then some offset.toNat else none

/-- Where a read works: at the cursor without an offset, else at the offset. -/
def read_position (o : OpenFile) (offset : ℤ) : Option ℕ :=
  if offset = -1 then some o.cursor else position offset

/-- Where a write works: without an offset at the cursor, or at the end of the file under
`O_APPEND`; else at the offset. -/
def write_position (fs : FlatFS) (o : OpenFile) (offset : ℤ) : Option ℕ :=
  if offset = -1 then
    if o.flags.is_append then (fs.file_info o.node).map (·.fsize) else some o.cursor
  else position offset

/-- The node a successful open names, and the file system after it: the file bound to the
path, emptied under `O_TRUNC`, or a new file. -/
def open_node (fs : FlatFS) (filename : String) (flags : FileFlags) (modes : FileModes) :
    FlatFS × Except KError MnodeNum :=
  match fs.paths filename with
  | some m =>
      if flags.is_truncate then
        let (fs, r) := fs.truncate filename
        (fs, r.map fun _ => m)
      else (fs, .ok m)
  | none => fs.create filename modes .File

def process_add (d : FdModel) (pid : Pid) : FdModel × Except KError MlnrNodeResult :=
  match d.procs pid with
  | some _ => (d, .error .FileDescForPidAlreadyAdded)
  | none => (d.setProc pid fun _ => none, .ok (.ProcessAdded pid))

def file_open (d : FdModel) (pid : Pid) (t : Descriptors) (filename : String) (flags : FileFlags)
    (modes : FileModes) : FdModel × Except KError MlnrNodeResult :=
  if (d.fs.paths filename).isNone ∧ !flags.is_create then (d, .error .PermissionError)
  else
    match lowest_free t with
    | none => (d, .error .NotSupported)
    | some fd =>
        match open_node d.fs filename flags modes with
        | (fs, .error e) => ({ d with fs := fs }, .error e)
        | (fs, .ok m) =>
            ({ fs := fs, procs := Function.update d.procs pid
                (some (Function.update t fd (some ⟨m, flags, 0⟩))) }, .ok (.FileOpened fd))

def file_close (d : FdModel) (pid : Pid) (t : Descriptors) (fd : FileDescriptor) :
    FdModel × Except KError MlnrNodeResult :=
  match t fd with
  | some _ => (d.setProc pid (Function.update t fd none), .ok (.FileClosed fd))
  | none => (d, .error .InvalidFileDescriptor)

/-- A read into `dst`: the model after it, the reply, and `dst` after it. -/
def file_read (d : FdModel) (pid : Pid) (t : Descriptors) (fd : FileDescriptor)
    (dst : List UInt8) (offset : ℤ) :
    Option (FdModel × Except KError MlnrNodeResult × Option (List UInt8)) :=
  match t fd with
  | none => some (d, .error .PermissionError, some dst)
  | some o =>
      if !o.flags.is_read then some (d, .error .PermissionError, some dst)
      else do
        let pos ← read_position o offset
        match d.fs.read o.node dst pos with
        | .error e => return (d, .error e, some dst)
        | .ok (dst', len) =>
            let d := if offset = -1 then
              d.setProc pid (Function.update t fd (some { o with cursor := pos + len })) else d
            return (d, .ok (.FileAccessed len), some dst')

def file_write (d : FdModel) (pid : Pid) (t : Descriptors) (fd : FileDescriptor)
    (data : List UInt8) (offset : ℤ) :
    Option (FdModel × Except KError MlnrNodeResult × Option (List UInt8)) :=
  match t fd with
  | none => some (d, .error .PermissionError, none)
  | some o =>
      if !o.flags.is_write then some (d, .error .PermissionError, none)
      else do
        let pos ← write_position d.fs o offset
        let (fs, r) ← d.fs.write o.node data pos
        match r with
        | .error e => return ({ d with fs := fs }, .error e, none)
        | .ok len =>
            let d := { d with fs := fs }
            let d := if offset = -1 then
              d.setProc pid (Function.update t fd (some { o with cursor := pos + len })) else d
            return (d, .ok (.FileAccessed len), none)

/-- One operation of a process: `ProcessAdd`, `FileOpen`, `FileClose` and `FileWrite` as
logged operations, `FileRead` as a local one. Every other operation, and any operation of a
process not registered, is left open. -/
def step (d : FdModel) :
    NodeOp → Option (FdModel × (Except KError MlnrNodeResult × Option (List UInt8)))
  | .modify (.ProcessAdd pid) => let (d, r) := d.process_add pid; some (d, r, none)
  | .modify (.FileOpen pid filename flags modes) =>
      (d.procs pid).map fun t => let (d, r) := d.file_open pid t filename flags modes; (d, r, none)
  | .modify (.FileClose pid fd) =>
      (d.procs pid).map fun t => let (d, r) := d.file_close pid t fd; (d, r, none)
  | .modify (.FileWrite pid fd _ data offset) =>
      (d.procs pid).bind fun t => d.file_write pid t fd data offset
  | .access (.FileRead pid fd _ dst offset) =>
      (d.procs pid).bind fun t => d.file_read pid t fd dst offset
  | _ => none

/-! ## The invariant of the model -/

/-- Every cursor of a table is one that a `usize` holds. -/
def CursorsFit (t : Descriptors) : Prop := ∀ fd o, t fd = some o → o.cursor < 2 ^ USIZE_BITS

theorem CursorsFit.update {t : Descriptors} (ht : CursorsFit t) (fd : FileDescriptor)
    {x : Option OpenFile} (hx : ∀ o, x = some o → o.cursor < 2 ^ USIZE_BITS) :
    CursorsFit (Function.update t fd x) := by
  intro fd' o h
  by_cases hfd : fd' = fd
  · subst hfd
    exact hx o (by simpa using h)
  · exact ht fd' o (by simpa [hfd] using h)

/-- What every state the model reaches satisfies: node lengths and cursors that a `usize`
holds. -/
structure Inv (d : FdModel) : Prop where
  fs : d.fs.Sound
  cursors : ∀ pid t, d.procs pid = some t → CursorsFit t

variable {d d' : FdModel} {pid : Pid} {t : Descriptors}

theorem inv_init : init.Inv := ⟨FlatFS.sound_init, fun _ _ h => by cases h⟩

theorem Inv.with_fs (hi : d.Inv) {fs : FlatFS} (hs : fs.Sound) : ({ d with fs := fs } : FdModel).Inv :=
  ⟨hs, hi.cursors⟩

theorem Inv.setProc (hi : d.Inv) (pid : Pid) (ht : CursorsFit t) : (d.setProc pid t).Inv := by
  refine ⟨hi.fs, fun pid' t' h => ?_⟩
  by_cases hp : pid' = pid
  · subst hp
    simp only [FdModel.setProc, Function.update_self, Option.some.injEq] at h
    exact h ▸ ht
  · exact hi.cursors pid' t' (by simpa [FdModel.setProc, hp] using h)

theorem position_eq_some {offset : ℤ} {k : ℕ} (h : position offset = some k) :
    (k : ℤ) = offset ∧ k < 2 ^ 63 := by
  unfold position at h
  split_ifs at h with hpos
  cases h
  omega

theorem open_node_sound {fs : FlatFS} (hs : fs.Sound) (filename : String) (flags : FileFlags)
    (modes : FileModes) : (open_node fs filename flags modes).1.Sound := by
  unfold open_node
  split
  · split_ifs
    · exact hs.truncate filename
    · exact hs
  · exact hs.create filename modes .File

theorem process_add_inv (hi : d.Inv) (pid : Pid) : (d.process_add pid).1.Inv := by
  unfold process_add
  split
  · exact hi
  · exact hi.setProc pid fun _ _ h => by cases h

theorem file_open_inv (hi : d.Inv) (ht : d.procs pid = some t) (filename : String)
    (flags : FileFlags) (modes : FileModes) : (d.file_open pid t filename flags modes).1.Inv := by
  have hs := open_node_sound hi.fs filename flags modes
  unfold file_open
  split_ifs
  · exact hi
  split
  · exact hi
  rename_i fd _
  split
  · rename_i fs e hfs
    exact hi.with_fs (by rw [hfs] at hs; exact hs)
  · rename_i fs m hfs
    -- the new open file starts at cursor `0`
    have hfit : CursorsFit (Function.update t fd (some ⟨m, flags, 0⟩)) :=
      (hi.cursors pid t ht).update fd fun o ho => by
        cases ho
        exact Nat.two_pow_pos _
    exact (hi.with_fs (by rw [hfs] at hs; exact hs)).setProc pid hfit

theorem file_close_inv (hi : d.Inv) (ht : d.procs pid = some t) (fd : FileDescriptor) :
    (d.file_close pid t fd).1.Inv := by
  unfold file_close
  split
  · exact hi.setProc pid ((hi.cursors pid t ht).update fd fun _ h => by cases h)
  · exact hi

theorem file_read_inv (hi : d.Inv) (ht : d.procs pid = some t) {fd : FileDescriptor}
    {dst : List UInt8} {offset : ℤ} {r : Except KError MlnrNodeResult} {u : Option (List UInt8)}
    (h : d.file_read pid t fd dst offset = some (d', r, u)) : d'.Inv := by
  unfold file_read at h
  rcases ho : t fd with _ | o
  · simp only [ho, Option.some.injEq, Prod.mk.injEq] at h
    exact h.1 ▸ hi
  rcases hrd : o.flags.is_read with _ | _
  · simp only [ho, hrd, Bool.not_false, if_true, Option.some.injEq, Prod.mk.injEq] at h
    exact h.1 ▸ hi
  simp only [ho, hrd, Bool.not_true, Bool.false_eq_true, if_false, Option.bind_eq_bind] at h
  obtain ⟨pos, hpos, h⟩ := Option.bind_eq_some_iff.mp h
  split at h
  · simp only [Option.pure_def, Option.some.injEq, Prod.mk.injEq] at h
    exact h.1 ▸ hi
  rename_i dst' len hread
  simp only [Option.pure_def, Option.some.injEq, Prod.mk.injEq] at h
  rw [← h.1]
  split_ifs with hoff
  · -- without an offset the read starts at the cursor, which a `usize` holds
    simp only [read_position, hoff, if_true, Option.some.injEq] at hpos
    subst hpos
    have hend := hi.fs.read_end_lt (hi.cursors pid t ht fd o ho) hread
    exact hi.setProc pid ((hi.cursors pid t ht).update fd fun o' h' => by cases h'; exact hend)
  · exact hi

theorem file_write_inv (hi : d.Inv) (ht : d.procs pid = some t) {fd : FileDescriptor}
    {data : List UInt8} {offset : ℤ} {r : Except KError MlnrNodeResult}
    {u : Option (List UInt8)} (h : d.file_write pid t fd data offset = some (d', r, u)) :
    d'.Inv := by
  unfold file_write at h
  rcases ho : t fd with _ | o
  · simp only [ho, Option.some.injEq, Prod.mk.injEq] at h
    exact h.1 ▸ hi
  rcases hwr : o.flags.is_write with _ | _
  · simp only [ho, hwr, Bool.not_false, if_true, Option.some.injEq, Prod.mk.injEq] at h
    exact h.1 ▸ hi
  simp only [ho, hwr, Bool.not_true, Bool.false_eq_true, if_false, Option.bind_eq_bind] at h
  obtain ⟨pos, -, h⟩ := Option.bind_eq_some_iff.mp h
  obtain ⟨⟨fs, w⟩, hw, h⟩ := Option.bind_eq_some_iff.mp h
  have hs := hi.fs.write hw
  rcases w with e | len
  · simp only [Option.pure_def, Option.some.injEq, Prod.mk.injEq] at h
    exact h.1 ▸ hi.with_fs hs
  simp only [Option.pure_def, Option.some.injEq, Prod.mk.injEq] at h
  rw [← h.1]
  split_ifs
  · -- a successful write ends below `2 ^ 64`, and the cursor moves to its end
    have hend := (FlatFS.write_eq_ok hw).2
    exact (hi.with_fs hs).setProc pid
      ((hi.cursors pid t ht).update fd fun o' h' => by cases h'; exact hend)
  · exact hi.with_fs hs

theorem step_inv (hi : d.Inv) {op : NodeOp}
    {out : Except KError MlnrNodeResult × Option (List UInt8)}
    (h : d.step op = some (d', out)) : d'.Inv := by
  match op, h with
  | .modify (.ProcessAdd pid), h =>
      simp only [FdModel.step, Option.some.injEq] at h
      exact (Prod.mk.inj h).1 ▸ process_add_inv hi pid
  | .modify (.FileOpen pid filename flags modes), h =>
      obtain ⟨t, ht, h⟩ := Option.map_eq_some_iff.mp h
      exact (Prod.mk.inj h).1 ▸ file_open_inv hi ht filename flags modes
  | .modify (.FileClose pid fd), h =>
      obtain ⟨t, ht, h⟩ := Option.map_eq_some_iff.mp h
      exact (Prod.mk.inj h).1 ▸ file_close_inv hi ht fd
  | .modify (.FileWrite pid fd _ data offset), h =>
      obtain ⟨t, ht, h⟩ := Option.bind_eq_some_iff.mp h
      exact file_write_inv hi ht h
  | .access (.FileRead pid fd _ dst offset), h =>
      obtain ⟨t, ht, h⟩ := Option.bind_eq_some_iff.mp h
      exact file_read_inv hi ht h

end FdModel

end Nrk.Fs
