import Nrk.Memory.VSpace

/-! # The model address space (`memory/vspace_model.rs`)

`ModelAddressSpace`, the repository's own reference for `VSpace`. -/

namespace Nrk.Memory

/-- `ModelAddressSpace`. -/
structure ModelAddressSpace where
  oplog : List (ℕ × ℕ × ℕ × MapAction)
  deriving DecidableEq, Repr

namespace ModelAddressSpace

/-- `Default`: no mappings. -/
def default : ModelAddressSpace := ⟨[]⟩

/-- `overlaps` of two ranges `[start, end)`. -/
def overlaps (a b : ℕ × ℕ) : Bool := a.1 < b.2 && b.1 < a.2

/-- `intersection`: the smallest and the largest element of `a` that lie in `b`, found by
walking `a`, as a range. -/
def intersection (a b : ℕ × ℕ) : Option (ℕ × ℕ) :=
  if overlaps a b then
    let (min, max) := (List.range' a.1 (a.2 - a.1)).foldl
      (fun (acc : ℕ × ℕ) element =>
        if b.1 ≤ element ∧ element < b.2 then (Nat.min element acc.1, Nat.max element acc.2)
        else acc)
      (2 ^ USIZE_BITS - 1, 0)
    some (min, max + 1)
  else none

/-- The range `[v, v + length)`. -/
def range (v length : ℕ) : Outcome (ℕ × ℕ) := do
  let e ← Outcome.checkedAdd USIZE_BITS v length
  return (v, e)

/-- The case where a mapping is not a conflict but may be grown: same start, not past the
new end, same physical base and rights. -/
def extends_to (cur new : ℕ × ℕ) (cur_paddr : ℕ) (rights : MapAction) (frame : Frame)
    (action : MapAction) : Bool :=
  cur.1 = new.1 && cur.2 ≤ new.2 && cur_paddr = frame.base && rights = action

/-- The first loop of `map_frame`: the start of the intersection with every conflicting
mapping, in list order. -/
def overlapping_mappings (oplog : List (ℕ × ℕ × ℕ × MapAction)) (base : ℕ) (frame : Frame)
    (action : MapAction) : Outcome (List ℕ) :=
  oplog.foldlM (fun acc (cur_vaddr, cur_paddr, length, rights) => do
    let cur_range ← range cur_vaddr length
    let new_range ← range base frame.size
    if overlaps cur_range new_range then
      if extends_to cur_range new_range cur_paddr rights frame action then return acc
      else match intersection cur_range new_range with
        | some r => return acc ++ [r.1]
        | none => .panic
    else return acc) []

/-- The second loop of `map_frame`: the first mapping that can be grown, if any. -/
def find_extension (oplog : List (ℕ × ℕ × ℕ × MapAction)) (base : ℕ) (frame : Frame)
    (action : MapAction) : Outcome (Option ℕ) :=
  oplog.zipIdx.foldlM (fun found ((cur_vaddr, cur_paddr, length, rights), idx) => do
    match found with
    | some i => return some i
    | none =>
        let cur_range ← range cur_vaddr length
        let new_range ← range base frame.size
        if overlaps cur_range new_range ∧
            extends_to cur_range new_range cur_paddr rights frame action then
          return some idx
        else return none) none

/-- `map_frame`. -/
def map_frame (m : ModelAddressSpace) (base : ℕ) (frame : Frame) (action : MapAction) :
    Outcome (ModelAddressSpace × Except KError Unit) := do
  if frame.size = 0 then return (m, .error .InvalidFrame)
  if frame.base % frame.size ≠ 0 then return (m, .error .InvalidFrame)
  if base % frame.size ≠ 0 then return (m, .error .InvalidBase)
  let overlapping ← overlapping_mappings m.oplog base frame action
  if overlapping.isEmpty then
    match ← find_extension m.oplog base frame action with
    | some idx =>
        -- promote the frame size of the mapping that is extended
        return (⟨m.oplog.modify idx fun (v, p, _, r) => (v, p, frame.size, r)⟩, .ok ())
    | none => return (⟨m.oplog ++ [(base, frame.base, frame.size, action)]⟩, .ok ())
  else
    -- the lowest address where a conflict happened: `sort_unstable`, then the first
    match overlapping.min? with
    | some a => return (m, .error (.AlreadyMapped a))
    | none => .panic

/-- Whether `v` lies in the mapping at `cur_vaddr` of `length` bytes. -/
def contains (cur_vaddr length v : ℕ) : Outcome Bool := do
  let cur_range ← range cur_vaddr length
  return decide (cur_range.1 ≤ v ∧ v < cur_range.2)

/-- `adjust`: new rights for the last mapping that contains `base`. -/
def adjust (m : ModelAddressSpace) (base : ℕ) (new_rights : MapAction) :
    Outcome (ModelAddressSpace × Except KError (ℕ × ℕ)) := do
  if base % BASE_PAGE_SIZE ≠ 0 then return (m, .error .InvalidBase)
  let found ← m.oplog.zipIdx.reverse.findM? fun ((cur_vaddr, _, cur_length, _), _) =>
    contains cur_vaddr cur_length base
  match found with
  | some ((cur_vaddr, _, cur_length, _), idx) =>
      return (⟨m.oplog.modify idx fun (v, p, l, _) => (v, p, l, new_rights)⟩,
        .ok (cur_vaddr, cur_length))
  | none => return (m, .error .NotMapped)

/-- `resolve`: through the last mapping that contains `vaddr`. -/
def resolve (m : ModelAddressSpace) (vaddr : ℕ) :
    Outcome (Except KError (ℕ × MapAction)) := do
  let found ← m.oplog.reverse.findM? fun (cur_vaddr, _, length, _) =>
    contains cur_vaddr length vaddr
  match found with
  | some (cur_vaddr, cur_paddr, _, rights) => do
      let paddr ← Outcome.checkedAdd USIZE_BITS cur_paddr (vaddr - cur_vaddr)
      return .ok (paddr, rights)
  | none => return .error .NotMapped

/-- `unmap`: `drain_filter` takes out every mapping that contains `base`; the code asserts
there was only one. -/
def unmap (m : ModelAddressSpace) (base : ℕ) :
    Outcome (ModelAddressSpace × Except KError TlbFlushHandle) := do
  if base % BASE_PAGE_SIZE ≠ 0 then return (m, .error .InvalidBase)
  let hits ← m.oplog.filterM fun (cur_vaddr, _, cur_length, _) =>
    contains cur_vaddr cur_length base
  let rest ← m.oplog.filterM fun (cur_vaddr, _, cur_length, _) => do
    return !(← contains cur_vaddr cur_length base)
  match hits with
  | [] => return (m, .error .NotMapped)
  | [(cur_vaddr, cur_paddr, cur_length, cur_rights)] =>
      return (⟨rest⟩, .ok ⟨cur_vaddr, cur_paddr, cur_length, cur_rights⟩)
  | _ :: _ :: _ => .panic

/-- One call on the model. -/
def step (m : ModelAddressSpace) : TestAction → Outcome (ModelAddressSpace × TestReply)
  | .Map base frame rights => do
      let (m, r) ← m.map_frame base frame rights
      return (m, .Map r)
  | .Adjust vaddr rights => do
      let (m, r) ← m.adjust vaddr rights
      return (m, .Adjust r)
  | .Resolve vaddr => do
      let r ← m.resolve vaddr
      return (m, .Resolve r)
  | .Unmap vaddr => do
      let (m, r) ← m.unmap vaddr
      return (m, .Unmap r)

end ModelAddressSpace

end Nrk.Memory
