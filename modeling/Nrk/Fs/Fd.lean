import Nrk.Fs.MemNode

/-! # File descriptors (`kernel/src/fs/fd.rs`)

A process's table of `MAX_FILES_PER_PROCESS` descriptors; an update of an entry's atomic offset
returns the new table. -/

namespace Nrk.Fs

/-- `MAX_FILES_PER_PROCESS`. -/
def MAX_FILES_PER_PROCESS : ℕ := 4096

/-- `FileDescriptor`: its value is never at or above `MAX_FILES_PER_PROCESS`. -/
abbrev FileDescriptor := Fin MAX_FILES_PER_PROCESS

/-- `TryFrom<u64> for FileDescriptor`. -/
def FileDescriptor.try_from (value : ℕ) : Except KError FileDescriptor :=
  if h : value < MAX_FILES_PER_PROCESS then .ok ⟨value, h⟩ else .error .FileDescriptorTooLarge

structure FileDescriptorEntry where
  mnode : MnodeNum
  flags : FileFlags
  offset : ℕ
  deriving DecidableEq, Repr

namespace FileDescriptorEntry

/-- `Default`: mnode `0`, `O_NONE`, offset `0`. -/
def default : FileDescriptorEntry := ⟨0, FileFlags.O_NONE, 0⟩

def update (e : FileDescriptorEntry) (mnode : MnodeNum) (flags : FileFlags) :
    FileDescriptorEntry :=
  { e with mnode := mnode, flags := flags }

def update_offset (e : FileDescriptorEntry) (new_offset : ℕ) : FileDescriptorEntry :=
  { e with offset := new_offset }

end FileDescriptorEntry

structure FileDescriptorTable where
  table : List (Option FileDescriptorEntry)
  length_table : table.length = MAX_FILES_PER_PROCESS

namespace FileDescriptorTable

/-- `Default`: every slot is free. -/
def default : FileDescriptorTable := ⟨List.replicate MAX_FILES_PER_PROCESS none, by simp⟩

def get_fd (t : FileDescriptorTable) (fd : FileDescriptor) : Option FileDescriptorEntry :=
  t.table.get ⟨fd.val, by rw [t.length_table]; exact fd.isLt⟩

/-- Replaces slot `fd`. -/
def set (t : FileDescriptorTable) (fd : FileDescriptor) (e : Option FileDescriptorEntry) :
    FileDescriptorTable :=
  ⟨t.table.set fd.val e, by rw [List.length_set, t.length_table]⟩

/-- `allocate_fd`: the first free slot gets a default entry. -/
def allocate_fd (t : FileDescriptorTable) : Option (FileDescriptor × FileDescriptorTable) :=
  match h : t.table.findIdx? Option.isNone with
  | some fid =>
      have hlt : fid < MAX_FILES_PER_PROCESS := by
        rw [← t.length_table]
        exact (List.findIdx?_eq_some_iff_findIdx_eq.mp h).1
      some (⟨fid, hlt⟩, t.set ⟨fid, hlt⟩ (some FileDescriptorEntry.default))
  | none => none

def deallocate_fd (t : FileDescriptorTable) (fd : FileDescriptor) :
    FileDescriptorTable × Except KError ℕ :=
  match t.get_fd fd with
  | some _ => (t.set fd none, .ok fd.val)
  | none => (t, .error .InvalidFileDescriptor)

end FileDescriptorTable

end Nrk.Fs
