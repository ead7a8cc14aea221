import Nrk.Process.Syscall
import Nrk.Memory.Consistency

/-! # What the memory operations of a process do

The run lemmas of `dispatch_mut`, `map_frames` and `map_generic` as functions of the allocator's
answers, then their effect on a consistent address space. -/

namespace Nrk.Process

open Memory

theorem try_refill_tcache_run (a : Allocator) :
    try_refill_tcache.run a =
      .ok (if a.grants 0 then .ok () else .error .OutOfMemory, a.request.2) := by
  simp only [try_refill_tcache, StateT.run, bind, StateT.bind, AllocM.request, Allocator.request]
  cases a.grants 0 <;> rfl

theorem map_frame_invalid_base (vs : VSpace) {base : ℕ} {frame : Frame} (action : MapAction)
    (a : Allocator) (hpos : 0 < frame.size) (halign : frame.base % frame.size = 0)
    (hbase : base % frame.size ≠ 0) :
    (vs.map_frame base frame action).run a = .ok ((vs, .error .InvalidBase), a) := by
  rw [VSpace.map_frame_run, if_neg hpos.ne', if_neg (not_not.mpr halign), if_pos hbase]

namespace NrProcess

/-! ## Run lemmas -/

theorem dispatch_mut_MemMapFrame_run (p : Ring3Process) (base : ℕ) (frame : Frame)
    (action : MapAction) (a : Allocator) :
    (dispatch_mut p (.MemMapFrame base frame action)).run a =
      if a.grants 0 then do
        let ((vspace, r), a') ← (p.vspace.map_frame base frame action).run a.request.2
        .ok (({ p with vspace }, r.map fun () => .Ok), a')
      else .ok ((p, .error .OutOfMemory), a.request.2) := by
  simp only [dispatch_mut, StateT.run_bind, try_refill_tcache_run, Outcome.ok_bind]
  cases a.grants 0
  · rfl
  · simp only [if_true, StateT.run_bind, StateT.run_pure]
    rfl

theorem dispatch_mut_MemMapFrameId_run (p : Ring3Process) (base fid : ℕ) (action : MapAction)
    (a : Allocator) {frame : Frame} {refcnt : ℕ} (hreg : p.pfm.lookup fid = some (frame, refcnt)) :
    (dispatch_mut p (.MemMapFrameId base fid action)).run a =
      let p' : Ring3Process := { p with pfm := p.pfm.set fid (some frame, refcnt + 1) }
      if a.grants 0 then do
        let ((vspace, r), a') ← (p.vspace.map_frame base frame action).run a.request.2
        .ok (({ p' with vspace }, r.map fun () => .MappedFrameId frame.base frame.size), a')
      else .ok ((p', .error .OutOfMemory), a.request.2) := by
  simp only [dispatch_mut, ProcessFrames.get_frame_eq, hreg, Option.elim,
    ProcessFrames.add_frame_mapping_eq, StateT.run_bind, try_refill_tcache_run, Outcome.ok_bind]
  cases a.grants 0
  · rfl
  · simp only [if_true, StateT.run_bind, StateT.run_pure]
    rfl

theorem map_frames_loop_cons_run (base : ℕ) (action : MapAction) (p : Ring3Process)
    (frame : Frame) (frames : List Frame) (virtual_offset : ℕ) (a : Allocator) :
    (map_frames_loop base action p (frame :: frames) virtual_offset).run a = (do
      let vaddr ← Outcome.checkedAdd USIZE_BITS base virtual_offset
      let ((p, response), a) ← (dispatch_mut p (.MemMapFrame vaddr frame action)).run a
      match response with
      | .ok .Ok => do
          let virtual_offset ← Outcome.checkedAdd USIZE_BITS virtual_offset frame.size
          (map_frames_loop base action p frames virtual_offset).run a
      | _ => .panic) := by
  simp only [map_frames_loop, StateT.run_bind, AllocM.run_liftM]
  cases Outcome.checkedAdd USIZE_BITS base virtual_offset with
  | panic => rfl
  | ok vaddr =>
      simp only [Outcome.ok_bind]
      cases (dispatch_mut p (.MemMapFrame vaddr frame action)).run a with
      | panic => rfl
      | ok r =>
          obtain ⟨⟨p', response⟩, a'⟩ := r
          simp only [Outcome.ok_bind]
          split <;> simp [StateT.run_bind]

theorem map_frames_run (p : Ring3Process) (base : ℕ) (frames : List Frame) (action : MapAction)
    (a : Allocator) :
    (map_frames p base frames action).run a =
      (map_frames_loop base action p frames 0).run a >>= fun ((p', virtual_offset), a') =>
        .ok ((p', .ok (base, virtual_offset)), a') := by
  simp only [map_frames, StateT.run_bind, StateT.run_pure, Outcome.pure_eq]

/-! ## On a consistent address space -/

/-- `MemMapFrame` of one page, aligned, on a range that meets no recorded one, when the refill
and the record's allocation are granted: it replies `Ok` and records the page. -/
theorem dispatch_mut_MemMapFrame_of_free {p : Ring3Process} (hc : p.vspace.Consistent)
    (base : ℕ) (frame : Frame) (action : MapAction)
    (hsize : frame.size = BASE_PAGE_SIZE ∨ frame.size = LARGE_PAGE_SIZE)
    (hbound : base + frame.size ≤ 2 ^ 48) (halign : frame.base % frame.size = 0)
    (hbase : base % frame.size = 0)
    (hfree : ∀ e ∈ p.vspace.mappings.entries,
      e.1 + e.2.frame.size ≤ base ∨ base + frame.size ≤ e.1)
    {a : Allocator} (h₀ : a.grants 0 = true) (h₁ : a.grants 1 = true) :
    ∃ vs' a', (dispatch_mut p (.MemMapFrame base frame action)).run a =
        .ok (({ p with vspace := vs' }, .ok .Ok), a') ∧ vs'.Consistent ∧
      vs'.mappings = p.vspace.mappings.insert base ⟨frame, action⟩ := by
  -- one page is a whole number of 4 KiB pages, shorter than two 2 MiB blocks
  have hpos : 0 < frame.size := by rcases hsize with h | h <;> rw [h] <;> decide
  have hpages : frame.size % BASE_PAGE_SIZE = 0 := by rcases hsize with h | h <;> rw [h] <;> decide
  have hshort : frame.size < 2 * LARGE_PAGE_SIZE := by rcases hsize with h | h <;> rw [h] <;> decide
  obtain ⟨vs', r, a', hmap, hc', hok⟩ := hc.map_frame base frame action hpages hbound
    (fun _ _ _ _ => PageTable.mapGuard_of_lt hshort) a.request.2
  obtain ⟨rfl, hrec⟩ := hok hpos halign hbase hfree h₁
  refine ⟨vs', a', ?_, hc', hrec⟩
  rw [dispatch_mut_MemMapFrame_run, if_pos h₀, hmap]
  rfl

/-- `MemMapFrame` of a frame whose base is not aligned to its size replies with an error, and
`map_frames` then reaches `unreachable!`. -/
theorem map_frames_loop_invalid_base (base : ℕ) (action : MapAction) (p : Ring3Process)
    {frame : Frame} (frames : List Frame) (a : Allocator) (hpos : 0 < frame.size)
    (halign : frame.base % frame.size = 0) (hbase : base % frame.size ≠ 0) :
    (map_frames_loop base action p (frame :: frames) 0).run a = .panic := by
  rw [map_frames_loop_cons_run]
  by_cases hfit : base + 0 < 2 ^ USIZE_BITS
  swap
  · rw [Outcome.checkedAdd_of_le (Nat.le_of_not_lt hfit), Outcome.panic_bind]
  rw [Outcome.checkedAdd_of_lt hfit, Outcome.ok_bind, dispatch_mut_MemMapFrame_run,
    Nat.add_zero]
  cases a.grants 0
  · -- the refill is refused: `Err(OutOfMemory)`
    rfl
  · -- the frame is refused: `Err(InvalidBase)`
    rw [if_pos rfl, map_frame_invalid_base p.vspace action _ hpos halign hbase]
    rfl

end NrProcess

namespace Arch86VSpaceDispatch

/-- `map_generic` as a function of the allocator's answers: the reservation of the frame vector
and the refill come first, and either refusal returns `OutOfMemory` with nothing changed. -/
theorem map_generic_run (s : SyscallState) (mem_type : MemType) (base size : ℕ)
    (a : Allocator) :
    (map_generic s mem_type base size).run a =
      if !a.grants 0 then .ok ((s, .error .OutOfMemory), a.request.2)
      else if !a.request.2.grants 0 then .ok ((s, .error .OutOfMemory), a.request.2.request.2)
      else (do
        let (pmanager, frames, paddr, total_len) ← allocate_pages
          MCache.allocate_large_page (size_to_pages size).2 (s.pmanager mem_type) [] none 0
        let (pmanager, frames, paddr, total_len) ← allocate_pages
          MCache.allocate_base_page (size_to_pages size).1 pmanager frames paddr total_len
        let ((process, r), a') ←
          (NrProcess.map_frames s.process base frames MapAction.write').run a.request.2.request.2
        match r, paddr with
        | .ok _, some paddr =>
            .ok (({ s.with_pmanager mem_type pmanager with process }, .ok (paddr, total_len)), a')
        | _, _ => .panic) := by
  simp only [map_generic, StateT.run_bind, AllocM.run_request, Outcome.ok_bind,
    Allocator.request_fst]
  by_cases h₀ : a.grants 0 = true
  swap
  · simp only [Bool.not_eq_true] at h₀
    simp only [h₀, Bool.not_false, if_true, StateT.run_pure]
    rfl
  simp only [h₀, Bool.not_true, Bool.false_eq_true, if_false, StateT.run_bind,
    try_refill_tcache_run, Outcome.ok_bind]
  by_cases h₁ : a.request.2.grants 0 = true
  swap
  · simp only [Bool.not_eq_true] at h₁
    simp only [h₁, Bool.not_false, if_true, if_false, Bool.false_eq_true, StateT.run_pure]
    rfl
  simp only [h₁, if_true, Bool.not_true, Bool.false_eq_true, if_false, AllocM.run_liftM,
    StateT.run_bind]
  -- the two allocation loops, the mapping loop, then the final match
  cases allocate_pages MCache.allocate_large_page (size_to_pages size).2
      (s.pmanager mem_type) [] none 0 with
  | panic => rfl
  | ok r₁ =>
      obtain ⟨c₁, frames₁, paddr₁, total₁⟩ := r₁
      simp only [Outcome.ok_bind]
      cases allocate_pages MCache.allocate_base_page (size_to_pages size).1 c₁ frames₁
          paddr₁ total₁ with
      | panic => rfl
      | ok r₂ =>
          obtain ⟨c₂, frames₂, paddr₂, total₂⟩ := r₂
          simp only [Outcome.ok_bind, SyscallState.with_pmanager_process]
          cases (NrProcess.map_frames s.process base frames₂ MapAction.write').run
              a.request.2.request.2 with
          | panic => rfl
          | ok r₃ =>
              obtain ⟨⟨process, r⟩, a'⟩ := r₃
              simp only [Outcome.ok_bind]
              rcases r with _ | _ <;> rcases paddr₂ with _ | _ <;> rfl

end Arch86VSpaceDispatch

end Nrk.Process
