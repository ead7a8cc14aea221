import Nrk.Process.Frames
import Nrk.Memory.VSpace

/-! # The replicated process (`kernel/src/nrproc.rs`)

The memory operations of `NrProcess` on one replica, its address space and its registered
frames. -/

namespace Nrk.Process

open Memory

/-- `Ring3Process`: the address space and the registered frames. -/
structure Ring3Process where
  vspace : VSpace
  pfm : ProcessFrames

/-- The memory operations of `ProcessOpMut`. -/
inductive ProcessOpMut where
  | MemMapFrame (base : ℕ) (frame : Frame) (action : MapAction)
  | MemMapDevice (frame : Frame) (action : MapAction)
  | MemMapFrameId (base : ℕ) (frame_id : ℕ) (action : MapAction)
  | MemUnmap (vaddr : ℕ)
  | AllocateFrameToProcess (frame : Frame)
  | ReleaseFrameFromProcess (fid : ℕ)
  deriving DecidableEq, Repr

/-- The memory operation of `ProcessOp`. -/
inductive ProcessOp where
  | MemResolve (base : ℕ)
  deriving DecidableEq, Repr

/-- The variants of `ProcessResult` that the memory operations return. -/
inductive ProcessResult where
  | Ok
  | MappedFrameId (paddr size : ℕ)
  | Unmapped (handle : TlbFlushHandle)
  | Resolved (paddr : ℕ) (rights : MapAction)
  | FrameId (fid : ℕ)
  | Frame (frame : Memory.Frame)
  deriving DecidableEq, Repr

/-- `KernelAllocator::try_refill_tcache`. -/
def try_refill_tcache : AllocM (Except KError Unit) := do
  if ← AllocM.request then return .ok () else return .error .OutOfMemory

namespace NrProcess

/-- `NrProcess::dispatch_mut` on the memory operations. A `?` returns the error with what was
already changed kept: `MemMapFrameId` has counted the mapping before the refill and the
`map_frame` that can still fail. -/
def dispatch_mut (p : Ring3Process) : ProcessOpMut → AllocM (Ring3Process × Except KError ProcessResult)
  | .MemMapFrame base frame action => do
      match ← try_refill_tcache with
      | .error e => return (p, .error e)
      | .ok () =>
          let (vspace, r) ← p.vspace.map_frame base frame action
          return ({ p with vspace }, r.map fun () => .Ok)
  | .MemMapDevice frame action => do
      let base := frame.base
      let (vspace, r) ← p.vspace.map_frame base frame action
      return ({ p with vspace }, r.map fun () => .Ok)
  | .MemMapFrameId base frame_id action => do
      match p.pfm.get_frame frame_id with
      | .error e => return (p, .error e)
      | .ok (frame, _refcnt) =>
          let (pfm, r) := p.pfm.add_frame_mapping frame_id
          let p := { p with pfm }
          match r with
          | .error e => return (p, .error e)
          | .ok () =>
              match ← try_refill_tcache with
              | .error e => return (p, .error e)
              | .ok () =>
                  let (vspace, r) ← p.vspace.map_frame base frame action
                  return ({ p with vspace }, r.map fun () => .MappedFrameId frame.base frame.size)
  | .MemUnmap vaddr => do
      let (vspace, r) ← (p.vspace.unmap vaddr : Outcome _)
      let p := { p with vspace }
      match r with
      | .error e => return (p, .error e)
      | .ok shootdown_handle =>
          if shootdown_handle.flags.is_aliasable then
            let (pfm, r) ← (p.pfm.remove_frame_mapping shootdown_handle.paddr : Outcome _)
            match r with
            -- `expect("is_aliasable implies this op can't fail")`
            | .error _ => AllocM.panic
            | .ok () => return ({ p with pfm }, .ok (.Unmapped shootdown_handle))
          else return (p, .ok (.Unmapped shootdown_handle))
  | .AllocateFrameToProcess frame =>
      let (pfm, r) := p.pfm.add_frame frame
      return ({ p with pfm }, r.map .FrameId)
  | .ReleaseFrameFromProcess fid =>
      let (pfm, r) := p.pfm.deallocate_frame fid
      return ({ p with pfm }, r.map .Frame)

/-- `NrProcess::dispatch` on the memory operation. -/
def dispatch (p : Ring3Process) : ProcessOp → Outcome (Except KError ProcessResult)
  | .MemResolve base => do
      let r ← p.vspace.resolve base
      return r.map fun (paddr, rights) => .Resolved paddr rights

/-- `NrProcess::resolve`, with its `debug_assert!` on the address. -/
def resolve (p : Ring3Process) (base : ℕ) : Outcome (Except KError (ℕ × ℕ)) := do
  if ¬ base < KERNEL_BASE then .panic
  match ← dispatch p (.MemResolve base) with
  | .ok (.Resolved paddr _rights) => return .ok (paddr, 0x0)
  | .error e => return .error e
  | .ok _ => .panic

/-- `NrProcess::map_device_frame`. -/
def map_device_frame (p : Ring3Process) (frame : Frame) (action : MapAction) :
    AllocM (Ring3Process × Except KError (ℕ × ℕ)) := do
  let (p, response) ← dispatch_mut p (.MemMapDevice frame action)
  match response with
  | .ok .Ok => return (p, .ok (frame.base, frame.size))
  | .error e => return (p, .error e)
  | .ok _ => AllocM.panic

/-- `NrProcess::unmap`. -/
def unmap (p : Ring3Process) (base : ℕ) : AllocM (Ring3Process × Except KError TlbFlushHandle) := do
  let (p, response) ← dispatch_mut p (.MemUnmap base)
  match response with
  | .ok (.Unmapped handle) => return (p, .ok handle)
  | .error e => return (p, .error e)
  | .ok _ => AllocM.panic

/-- `NrProcess::map_frame_id`. -/
def map_frame_id (p : Ring3Process) (frame_id base : ℕ) (action : MapAction) :
    AllocM (Ring3Process × Except KError (ℕ × ℕ)) := do
  let (p, response) ← dispatch_mut p (.MemMapFrameId base frame_id action)
  match response with
  | .ok (.MappedFrameId paddr size) => return (p, .ok (paddr, size))
  | .error e => return (p, .error e)
  | .ok _ => AllocM.panic

/-- The loop of `NrProcess::map_frames`: each frame is mapped right after the previous one, at
`base + virtual_offset`, and any response but `Ok` is `unreachable!`. -/
def map_frames_loop (base : ℕ) (action : MapAction) :
    Ring3Process → List Frame → ℕ → AllocM (Ring3Process × ℕ)
  | p, [], virtual_offset => return (p, virtual_offset)
  | p, frame :: frames, virtual_offset => do
      let vaddr ← (Outcome.checkedAdd USIZE_BITS base virtual_offset : Outcome ℕ)
      let (p, response) ← dispatch_mut p (.MemMapFrame vaddr frame action)
      match response with
      | .ok .Ok =>
          let virtual_offset ← (Outcome.checkedAdd USIZE_BITS virtual_offset frame.size : Outcome ℕ)
          map_frames_loop base action p frames virtual_offset
      | _ => AllocM.panic

/-- `NrProcess::map_frames`. -/
def map_frames (p : Ring3Process) (base : ℕ) (frames : List Frame) (action : MapAction) :
    AllocM (Ring3Process × Except KError (ℕ × ℕ)) := do
  let (p, virtual_offset) ← map_frames_loop base action p frames 0
  return (p, .ok (base, virtual_offset))

end NrProcess

end Nrk.Process
