import Nrk.Basic

/-! # Access rights, page-table flags and frames (`kernel/src/memory/vspace.rs`)

`MapAction` and its conversions to and from the flags of each page-table level. -/

namespace Nrk.Memory

/-- `MapAction`. -/
structure MapAction where
  present : Bool
  write : Bool
  exec : Bool
  kernel : Bool
  not_cached : Bool
  aliased : Bool
  deriving DecidableEq, Repr

namespace MapAction

/-- `BitOr`: the union of two sets of rights. -/
instance : OrOp MapAction :=
  ⟨fun a b => ⟨a.present || b.present, a.write || b.write, a.exec || b.exec,
    a.kernel || b.kernel, a.not_cached || b.not_cached, a.aliased || b.aliased⟩⟩

def none : MapAction := ⟨false, false, false, false, false, false⟩

def user : MapAction := ⟨true, false, false, false, false, false⟩

/-- `MapAction::kernel()`. -/
def kernel' : MapAction := ⟨true, false, false, true, false, false⟩

/-- `MapAction::write()`. -/
def write' : MapAction := ⟨true, true, false, false, false, false⟩

def execute : MapAction := ⟨true, false, true, false, false, false⟩

def no_cache : MapAction := ⟨true, false, false, false, true, false⟩

/-- `MapAction::aliased()`: the only constructor that is not present. -/
def aliased' : MapAction := ⟨false, false, false, false, false, true⟩

def is_readable (a : MapAction) : Bool := a.present

def is_writable (a : MapAction) : Bool := a.write

def is_executable (a : MapAction) : Bool := a.exec

def is_aliasable (a : MapAction) : Bool := a.aliased

def is_userspace (a : MapAction) : Bool := !a.kernel

def is_kernelspace (a : MapAction) : Bool := a.kernel

@[simp] theorem or_eq (a b : MapAction) :
    a ||| b = ⟨a.present || b.present, a.write || b.write, a.exec || b.exec,
      a.kernel || b.kernel, a.not_cached || b.not_cached, a.aliased || b.aliased⟩ := rfl

end MapAction

/-! ## Entry flags -/

/-- The flag bits of an x86-64 page-table entry that this code writes or reads: present,
writable, user, cache-disable, page size, execute-disable and the software bit `USER_11`.
The bits that the conversions to `MapAction` discard as irrelevant (`PWT`, `A`, `D`, `G`,
`PAT`) are never written by this code and are left out. -/
structure Flags where
  P : Bool
  RW : Bool
  US : Bool
  PCD : Bool
  PS : Bool
  XD : Bool
  USER_11 : Bool
  deriving DecidableEq, Repr

namespace Flags

/-- `Flags::empty()`. -/
def empty : Flags := ⟨false, false, false, false, false, false, false⟩

end Flags

namespace MapAction

/-- The flags `to_pdpt_rights`, `to_pd_rights` and `to_pt_rights` build: the three set the
same bits of their flag types. `is_userspace` is `!kernel`, so the `debug_assert!` next to
`US` always holds. -/
def to_rights (a : MapAction) : Flags :=
  { Flags.empty with
    P := a.is_readable, RW := a.is_writable, XD := !a.is_executable,
    US := a.is_userspace, USER_11 := a.is_aliasable }

/-- Rights for a 1 GiB page. -/
def to_pdpt_rights (a : MapAction) : Flags := a.to_rights

/-- Rights for a 2 MiB page. -/
def to_pd_rights (a : MapAction) : Flags := a.to_rights

/-- Rights for a 4 KiB page. -/
def to_pt_rights (a : MapAction) : Flags := a.to_rights

/-- `From<PTFlags>`, `From<PDFlags>` and `From<PDPTFlags> for MapAction`. The three differ
only in the bits they discard first, none of which this function reads. -/
def from_flags (f : Flags) : MapAction :=
  let ma := none ||| (if f.US then user else kernel')
  let ma := if f.P then ma ||| user else ma
  let ma := if f.RW then ma ||| write' else ma
  let ma := if !f.XD then ma ||| execute else ma
  let ma := if f.PCD then ma ||| no_cache else ma
  if f.USER_11 then ma ||| aliased' else ma

@[simp] theorem from_flags_eq (f : Flags) :
    from_flags f = ⟨true, f.RW, !f.XD, !f.US, f.PCD, f.USER_11⟩ := by
  cases f with
  | mk P RW US PCD PS XD USER_11 =>
      cases P <;> cases RW <;> cases US <;> cases PCD <;> cases XD <;> cases USER_11 <;> rfl

/-- An action is `Representable` when the flags written for it read back as itself: it is
present and cached. -/
def Representable (a : MapAction) : Prop := a.present = true ∧ a.not_cached = false

instance (a : MapAction) : Decidable a.Representable := inferInstanceAs (Decidable (_ ∧ _))

/-- Reading back an entry written with `P | rights` (and `PS` for a large page) gives what
was asked for, once present and cached. -/
theorem from_flags_to_rights (a : MapAction) (ps : Bool) :
    from_flags { a.to_rights with P := true, PS := ps } =
      { a with present := true, not_cached := false } := by
  cases a
  simp [to_rights, is_readable, is_writable, is_executable, is_userspace, is_aliasable,
    Flags.empty]

theorem from_flags_to_rights_of_representable {a : MapAction} (h : a.Representable)
    (ps : Bool) :
    from_flags { a.to_rights with P := true, PS := ps } = a := by
  rw [from_flags_to_rights]
  obtain ⟨hp, hnc⟩ := h
  cases a
  simp_all

end MapAction

/-! ## Frames and mapping records -/

/-- `Frame` (`memory/frame.rs`): a physical region. -/
structure Frame where
  base : ℕ
  size : ℕ
  affinity : ℕ
  deriving DecidableEq, Repr

namespace Frame

/-- `Frame::new`: both assertions are on base-page alignment. -/
def new (base size affinity : ℕ) : Outcome Frame :=
  if base % BASE_PAGE_SIZE = 0 ∧ size % BASE_PAGE_SIZE = 0 then .ok ⟨base, size, affinity⟩
  else .panic

theorem new_of_aligned {base size : ℕ} (hbase : base % BASE_PAGE_SIZE = 0)
    (hsize : size % BASE_PAGE_SIZE = 0) (affinity : ℕ) :
    new base size affinity = .ok ⟨base, size, affinity⟩ :=
  if_pos ⟨hbase, hsize⟩

theorem new_of_not_aligned {base size : ℕ}
    (h : ¬ (base % BASE_PAGE_SIZE = 0 ∧ size % BASE_PAGE_SIZE = 0)) (affinity : ℕ) :
    new base size affinity = .panic :=
  if_neg h

end Frame

/-- `MappingInfo`: a frame and the rights it is mapped with. Its `typ` is `Heap` for every
mapping `VSpace` records and is left out. -/
structure MappingInfo where
  frame : Frame
  rights : MapAction
  deriving DecidableEq, Repr

/-- `TlbFlushHandle`: the region that an `unmap` removed. The set of cores to notify is
filled in by the process layer and is left out. -/
structure TlbFlushHandle where
  vaddr : ℕ
  paddr : ℕ
  size : ℕ
  flags : MapAction
  deriving DecidableEq, Repr

end Nrk.Memory
