import Nrk.Memory.PageTable
import Nrk.Lib.SortedMap

/-! # A process's address space (`arch/x86_64/vspace/mod.rs`)

`VSpace`: the record of mapped frames, a `SortedMap`, next to the page table. -/

namespace Nrk.Memory

/-- `VSpace`. -/
structure VSpace where
  mappings : SortedMap ℕ MappingInfo
  page_table : PageTable

namespace VSpace

/-- `VSpace::new`: no mappings and an empty page table. -/
def new (da : DA) (frame_empty : ℕ → Bool) : VSpace :=
  ⟨SortedMap.empty, PageTable.new da frame_empty⟩

/-- The end of `MappingInfo::vrange(base)`. -/
def vrange_end (base : ℕ) (m : MappingInfo) : Outcome ℕ :=
  Outcome.checkedAdd USIZE_BITS base m.frame.size

/-- The loop of `map_frame` over the recorded mapping `existing` with the largest base below
the end of the new range: `none` when it ends before `base` (or there is none) and mapping goes
on, otherwise what `map_frame` returns. An existing mapping at the same base, of the same
frame base, no larger and with the same rights, counts as already done. -/
def check_existing (base : ℕ) (frame : Frame) (action : MapAction)
    (existing : Option (ℕ × MappingInfo)) : Outcome (Option (Except KError Unit)) :=
  match existing with
  | none => .ok none
  | some (existing_base, existing_mapping) => do
      let existing_end ← vrange_end existing_base existing_mapping
      if existing_end ≤ base then return none
      else if existing_base = base ∧ existing_mapping.frame.base = frame.base ∧
          existing_mapping.frame.size ≤ frame.size ∧ existing_mapping.rights = action then
        return some (.ok ())
      else return some (.error (.AlreadyMapped existing_base))

/-- `map_frame`. -/
def map_frame (vs : VSpace) (base : ℕ) (frame : Frame) (action : MapAction) :
    AllocM (VSpace × Except KError Unit) := do
  if frame.size = 0 then return (vs, .error .InvalidFrame)
  if frame.base % frame.size ≠ 0 then return (vs, .error .InvalidFrame)
  if base % frame.size ≠ 0 then return (vs, .error .InvalidBase)
  let tomap_end ← (Outcome.checkedAdd USIZE_BITS base frame.size : Outcome ℕ)
  match ← (check_existing base frame action (vs.mappings.lastWhere (· < tomap_end)) :
      Outcome _) with
  | some r => return (vs, r)
  | none =>
      -- `try_insert`
      if !(← AllocM.request) then return (vs, .error .OutOfMemory)
      let mappings := vs.mappings.insert base ⟨frame, action⟩
      let (page_table, r) ← (vs.page_table.map_frame base frame action : Outcome _)
      return (⟨mappings, page_table⟩, r)

/-- `resolve`: the page table alone answers. -/
def resolve (vs : VSpace) (addr : ℕ) : Outcome (Except KError (ℕ × MapAction)) :=
  vs.page_table.resolve addr

/-- The loop of `unmap` over the recorded mapping with the largest base at or below `base`:
whether unmapping goes on. -/
def check_unmap (base : ℕ) (existing : Option (ℕ × MappingInfo)) : Outcome Bool :=
  match existing with
  | none => .ok true
  | some (existing_base, existing_mapping) => do
      let existing_end ← vrange_end existing_base existing_mapping
      return decide (existing_base ≤ base ∧ base < existing_end)

/-- `unmap`: the page table removes the page containing `base`, and the record the entry at
the start of that page, which `debug_assert!` expects to exist. -/
def unmap (vs : VSpace) (base : ℕ) : Outcome (VSpace × Except KError TlbFlushHandle) := do
  if !(← check_unmap base (vs.mappings.lastWhere (· ≤ base))) then
    return (vs, .error .NotMapped)
  let (page_table, r) ← vs.page_table.unmap base
  match r with
  | .error e => return ({ vs with page_table }, .error e)
  | .ok handle =>
      if (vs.mappings.get? handle.vaddr).isNone then .panic
      else return (⟨vs.mappings.erase handle.vaddr, page_table⟩, .ok handle)

/-- `adjust`: the page table first; a page whose start has no record entry is `NotMapped`,
with the page table already changed. -/
def adjust (vs : VSpace) (base : ℕ) (new_rights : MapAction) :
    Outcome (VSpace × Except KError (ℕ × ℕ)) := do
  let (page_table, r) ← vs.page_table.adjust base new_rights
  let vs := { vs with page_table }
  match r with
  | .error e => return (vs, .error e)
  | .ok (vaddr, size) =>
      match vs.mappings.get? vaddr with
      | none => return (vs, .error .NotMapped)
      | some _ =>
          return ({ vs with mappings := vs.mappings.modify vaddr fun m =>
            { m with rights := new_rights } }, .ok (vaddr, size))

end VSpace

/-! ## Runs -/

/-- `TestAction` (`vspace/test.rs`): one call on an address space. -/
inductive TestAction where
  | Map (base : ℕ) (frame : Frame) (rights : MapAction)
  | Adjust (vaddr : ℕ) (rights : MapAction)
  | Resolve (vaddr : ℕ)
  | Unmap (vaddr : ℕ)
  deriving DecidableEq, Repr

/-- What a call returns. -/
inductive TestReply where
  | Map (r : Except KError Unit)
  | Adjust (r : Except KError (ℕ × ℕ))
  | Resolve (r : Except KError (ℕ × MapAction))
  | Unmap (r : Except KError TlbFlushHandle)
  deriving DecidableEq, Repr

namespace VSpace

/-- One call on a `VSpace`, with the allocator of its record threaded through. -/
def step (st : VSpace × Allocator) : TestAction → Outcome ((VSpace × Allocator) × TestReply)
  | .Map base frame rights => do
      let ((vs, r), a) ← (st.1.map_frame base frame rights).run st.2
      return ((vs, a), .Map r)
  | .Adjust vaddr rights => do
      let (vs, r) ← st.1.adjust vaddr rights
      return ((vs, st.2), .Adjust r)
  | .Resolve vaddr => do
      let r ← st.1.resolve vaddr
      return (st, .Resolve r)
  | .Unmap vaddr => do
      let (vs, r) ← st.1.unmap vaddr
      return ((vs, st.2), .Unmap r)

end VSpace

end Nrk.Memory
