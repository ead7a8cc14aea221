import Nrk.Process.NrProcess
import Nrk.Memory.MCache

/-! # The vspace system calls (`arch/x86_64/syscall.rs`, `kernel/src/syscalls.rs`)

`SystemCallDispatch::vspace` and the `VSpaceDispatch` functions, on the calling process and the
core's frame caches. -/

namespace Nrk.Process

open Memory

/-- `size_to_pages` (`memory/utils.rs`): how many base pages and large pages cover `size`. -/
def size_to_pages (size : ℕ) : ℕ × ℕ :=
  let bytes_not_in_large := size % LARGE_PAGE_SIZE
  let div := bytes_not_in_large / BASE_PAGE_SIZE
  let rem := bytes_not_in_large % BASE_PAGE_SIZE
  let base_pages := if rem > 0 then div + 1 else div
  let remaining_size := size - bytes_not_in_large
  let div := remaining_size / LARGE_PAGE_SIZE
  let rem := remaining_size % LARGE_PAGE_SIZE
  let large_pages := if rem > 0 then div + 1 else div
  (base_pages, large_pages)

/-- The large pages are the whole 2 MiB multiples in the size, and the base pages cover the
rest, rounded up. -/
theorem size_to_pages_eq (size : ℕ) :
    size_to_pages size =
      ((size % LARGE_PAGE_SIZE + BASE_PAGE_SIZE - 1) / BASE_PAGE_SIZE, size / LARGE_PAGE_SIZE) := by
  -- what is left after the base pages is a whole number of large pages
  have hrest : (size - size % LARGE_PAGE_SIZE) % LARGE_PAGE_SIZE = 0 :=
    Nat.sub_mod_eq_zero_of_mod_eq (Nat.mod_mod _ _).symm
  have hlarge : (size - size % LARGE_PAGE_SIZE) / LARGE_PAGE_SIZE = size / LARGE_PAGE_SIZE := by
    simp only [LARGE_PAGE_SIZE]
    omega
  unfold size_to_pages
  simp only [hrest, hlarge, gt_iff_lt, lt_irrefl, if_false, Prod.mk.injEq, and_true]
  by_cases hrem : 0 < size % LARGE_PAGE_SIZE % BASE_PAGE_SIZE
  · rw [if_pos hrem]
    simp only [LARGE_PAGE_SIZE, BASE_PAGE_SIZE] at hrem ⊢
    omega
  · rw [if_neg hrem]
    simp only [LARGE_PAGE_SIZE, BASE_PAGE_SIZE] at hrem ⊢
    omega

/-- `MemType`. -/
inductive MemType where
  | Mem
  | PMem
  deriving DecidableEq, Repr

/-- What a system call reads and changes: the calling process, the core's two frame caches
(`pcm.mem_manager()` and `pcm.pmem_manager()`) and its node (`environment::NODE_ID`). -/
structure SyscallState where
  process : Ring3Process
  mem_manager : FrameCacheSmall
  pmem_manager : FrameCacheSmall
  node : ℕ

namespace SyscallState

/-- The cache that `map_generic` takes pages from. -/
def pmanager (s : SyscallState) : MemType → FrameCacheSmall
  | .Mem => s.mem_manager
  | .PMem => s.pmem_manager

def with_pmanager (s : SyscallState) : MemType → FrameCacheSmall → SyscallState
  | .Mem, c => { s with mem_manager := c }
  | .PMem, c => { s with pmem_manager := c }

@[simp] theorem with_pmanager_process (s : SyscallState) (t : MemType) (c : FrameCacheSmall) :
    (s.with_pmanager t c).process = s.process := by
  cases t <;> rfl

end SyscallState

namespace Arch86VSpaceDispatch

/-- One of the two allocation loops of `map_generic`, with `n` rounds left: each round takes a
page from the cache (`expect`ed), adds its size to `total_len`, pushes it on `frames`, and
keeps the base of the first page as `paddr`. -/
def allocate_pages (allocate : FrameCacheSmall → Outcome (FrameCacheSmall × Except KError Frame)) :
    ℕ → FrameCacheSmall → List Frame → Option ℕ → ℕ →
      Outcome (FrameCacheSmall × List Frame × Option ℕ × ℕ)
  | 0, pmanager, frames, paddr, total_len => .ok (pmanager, frames, paddr, total_len)
  | n + 1, pmanager, frames, paddr, total_len => do
      let (pmanager, r) ← allocate pmanager
      match r with
      -- `expect("We refilled so allocation should work.")`
      | .error _ => .panic
      | .ok frame =>
          let total_len ← Outcome.checkedAdd USIZE_BITS total_len frame.size
          -- `frames.try_push(frame)` has the capacity reserved before
          let paddr := if paddr.isNone then some frame.base else paddr
          allocate_pages allocate n pmanager (frames ++ [frame]) paddr total_len

@[simp] theorem allocate_pages_zero
    (allocate : FrameCacheSmall → Outcome (FrameCacheSmall × Except KError Frame))
    (pmanager : FrameCacheSmall) (frames : List Frame) (paddr : Option ℕ) (total_len : ℕ) :
    allocate_pages allocate 0 pmanager frames paddr total_len =
      .ok (pmanager, frames, paddr, total_len) := rfl

/-- Every page an allocation loop takes is one the cache hands out: the loop appends `n` of
them to `frames`. -/
theorem allocate_pages_frames
    {allocate : FrameCacheSmall → Outcome (FrameCacheSmall × Except KError Frame)}
    {P : Frame → Prop} (hP : ∀ c c' frame, allocate c = .ok (c', .ok frame) → P frame) :
    ∀ {n : ℕ} {pmanager : FrameCacheSmall} {frames : List Frame} {paddr : Option ℕ}
      {total_len : ℕ} {pmanager' : FrameCacheSmall} {frames' : List Frame} {paddr' : Option ℕ}
      {total_len' : ℕ},
      allocate_pages allocate n pmanager frames paddr total_len =
          .ok (pmanager', frames', paddr', total_len') →
        ∃ new, frames' = frames ++ new ∧ new.length = n ∧ ∀ frame ∈ new, P frame
  | 0, _, frames, _, _, _, _, _, _, h => by
      simp only [allocate_pages, Outcome.ok.injEq, Prod.mk.injEq] at h
      exact ⟨[], by simp [h.2.1], rfl, by simp⟩
  | n + 1, pmanager, frames, paddr, total_len, _, _, _, _, h => by
      rw [allocate_pages] at h
      -- the round's allocation, then the rest of the loop
      rcases hround : allocate pmanager with ⟨⟨c, _ | frame⟩⟩ | _
      · rw [hround, Outcome.ok_bind] at h
        cases h
      · rw [hround, Outcome.ok_bind] at h
        obtain ⟨total_len₁, -, hrest⟩ := Outcome.bind_eq_ok.mp h
        obtain ⟨new, rfl, hlen, hnew⟩ := allocate_pages_frames hP hrest
        refine ⟨frame :: new, by simp, by simp [hlen], ?_⟩
        rintro f (_ | ⟨_, hf⟩)
        · exact hP _ _ _ hround
        · exact hnew f hf
      · rw [hround, Outcome.panic_bind] at h
        cases h

/-- `map_generic`: reserve the frame vector, refill the cache, take the large pages and then
the base pages, map them all from `base` on, and return the first page's address and the
total length. -/
def map_generic (s : SyscallState) (mem_type : MemType) (base size : ℕ) :
    AllocM (SyscallState × Except KError (ℕ × ℕ)) := do
  let (bp, lp) := size_to_pages size
  -- `Vec::try_with_capacity(bp + lp)?`
  if !(← AllocM.request) then return (s, .error .OutOfMemory)
  match ← try_refill_tcache with
  | .error e => return (s, .error e)
  | .ok () =>
      let (pmanager, frames, paddr, total_len) ← (allocate_pages
        MCache.allocate_large_page lp (s.pmanager mem_type) [] none 0 : Outcome _)
      let (pmanager, frames, paddr, total_len) ← (allocate_pages
        MCache.allocate_base_page bp pmanager frames paddr total_len : Outcome _)
      let s := s.with_pmanager mem_type pmanager
      let (process, r) ← NrProcess.map_frames s.process base frames MapAction.write'
      let s := { s with process }
      match r, paddr with
      -- `expect("Can't map memory")`
      | .error _, _ => AllocM.panic
      -- `paddr.unwrap()`
      | .ok _, none => AllocM.panic
      | .ok _, some paddr => return (s, .ok (paddr, total_len))

/-- `unmap_generic`. -/
def unmap_generic (s : SyscallState) (base : ℕ) :
    AllocM (SyscallState × Except KError (ℕ × ℕ)) := do
  let (process, r) ← NrProcess.unmap s.process base
  return ({ s with process }, r.map fun handle => (handle.vaddr, handle.size))

end Arch86VSpaceDispatch

namespace VSpaceDispatch

open Arch86VSpaceDispatch

def map_mem (s : SyscallState) (base size : ℕ) : AllocM (SyscallState × Except KError (ℕ × ℕ)) :=
  map_generic s .Mem base size

def map_pmem (s : SyscallState) (base size : ℕ) : AllocM (SyscallState × Except KError (ℕ × ℕ)) :=
  map_generic s .PMem base size

/-- `map_device`: the frame is built with `Frame::new`, which asserts base-page alignment. -/
def map_device (s : SyscallState) (base size : ℕ) :
    AllocM (SyscallState × Except KError (ℕ × ℕ)) := do
  let frame ← (Frame.new base size s.node : Outcome Frame)
  let (process, r) ← NrProcess.map_device_frame s.process frame MapAction.write'
  return ({ s with process }, r)

/-- `map_frame_id`: a `u64` frame id always fits a `usize`. -/
def map_frame_id (s : SyscallState) (base frame_id : ℕ) :
    AllocM (SyscallState × Except KError (ℕ × ℕ)) := do
  let (process, r) ← NrProcess.map_frame_id s.process frame_id base
    (MapAction.user ||| MapAction.write' ||| MapAction.aliased')
  return ({ s with process }, r)

def unmap_mem (s : SyscallState) (base : ℕ) : AllocM (SyscallState × Except KError (ℕ × ℕ)) :=
  unmap_generic s base

def unmap_pmem (s : SyscallState) (base : ℕ) : AllocM (SyscallState × Except KError (ℕ × ℕ)) :=
  unmap_generic s base

def identify (s : SyscallState) (addr : ℕ) : AllocM (SyscallState × Except KError (ℕ × ℕ)) := do
  let r ← (NrProcess.resolve s.process addr : Outcome _)
  return (s, r)

end VSpaceDispatch

/-! ## Decoding the call -/

/-- `VSpaceOperation`. -/
inductive VSpaceOperation where
  | MapMem
  | UnmapMem
  | MapDevice
  | MapMemFrame
  | Identify
  | MapPMem
  | UnmapPMem
  deriving DecidableEq, Repr

/-- `VSpaceOperation::new`. -/
def VSpaceOperation.new : ℕ → Option VSpaceOperation
  | 1 => some .MapMem
  | 2 => some .UnmapMem
  | 3 => some .MapDevice
  | 4 => some .MapMemFrame
  | 5 => some .Identify
  | 6 => some .MapPMem
  | 7 => some .UnmapPMem
  | _ => none

/-- `VSpaceOperationArgs`. -/
inductive VSpaceOperationArgs where
  | MapMem (base size : ℕ)
  | UnmapMem (base : ℕ)
  | MapDevice (base size : ℕ)
  | MapMemFrame (base frame_id : ℕ)
  | Identify (base : ℕ)
  | MapPMem (base size : ℕ)
  | UnmapPMem (base : ℕ)
  deriving DecidableEq, Repr

/-- `VSpaceOperationArgs::validate`: only the operation number is checked. -/
def VSpaceOperationArgs.validate (arg1 arg2 arg3 : ℕ) : Except KError VSpaceOperationArgs :=
  match VSpaceOperation.new arg1 with
  | none => .error (.InvalidVSpaceOperation arg1)
  | some .MapMem => .ok (.MapMem arg2 arg3)
  | some .MapPMem => .ok (.MapPMem arg2 arg3)
  | some .MapDevice => .ok (.MapDevice arg2 arg3)
  | some .MapMemFrame => .ok (.MapMemFrame arg2 arg3)
  | some .UnmapMem => .ok (.UnmapMem arg2)
  | some .UnmapPMem => .ok (.UnmapPMem arg2)
  | some .Identify => .ok (.Identify arg2)

open VSpaceDispatch in
/-- `SystemCallDispatch::vspace`. -/
def SystemCallDispatch.vspace (s : SyscallState) (arg1 arg2 arg3 : ℕ) :
    AllocM (SyscallState × Except KError (ℕ × ℕ)) :=
  match VSpaceOperationArgs.validate arg1 arg2 arg3 with
  | .error e => return (s, .error e)
  | .ok (.MapMem base size) => map_mem s base size
  | .ok (.MapPMem base size) => map_pmem s base size
  | .ok (.MapDevice base size) => map_device s base size
  | .ok (.MapMemFrame base frame_id) => map_frame_id s base frame_id
  | .ok (.UnmapMem base) => unmap_mem s base
  | .ok (.UnmapPMem base) => unmap_pmem s base
  | .ok (.Identify base) => identify s base

end Nrk.Process
