import Nrk.Process.Dispatch

/-! # What a user process can make the vspace system calls do -/

namespace Nrk.Process

open Memory Arch86VSpaceDispatch VSpaceDispatch

/-- Operation `1` of the `vspace` system call is `map_mem`, with the other two arguments as
they come. -/
theorem vspace_map_mem (s : SyscallState) (base size : ℕ) :
    SystemCallDispatch.vspace s 1 base size = map_mem s base size := rfl

theorem allocate_pages_one_base {c : FrameCacheSmall}
    {paddr : { paddr : ℕ // paddr % BASE_PAGE_SIZE = 0 }} {rest : PageStack BASE_PAGE_SIZE 381}
    (hcache : c.base_page_addresses.pop = some (paddr, rest)) :
    allocate_pages MCache.allocate_base_page 1 c [] none 0 =
      .ok ({ c with base_page_addresses := rest }, [⟨paddr, BASE_PAGE_SIZE, c.node⟩], some paddr,
        BASE_PAGE_SIZE) := by
  simp only [allocate_pages, MCache.allocate_base_page, MCache.allocate_page, hcache,
    Frame.new_of_aligned paddr.2 (Nat.mod_self _), Outcome.ok_bind, Outcome.pure_eq,
    Outcome.checkedAdd_of_lt (show 0 + BASE_PAGE_SIZE < 2 ^ USIZE_BITS by decide)]
  rfl

/-- A one-page `map_mem` at `KERNEL_BASE` on a process whose address space is consistent and
has nothing recorded there: with the allocations granted, the call returns `Ok`, the page is
recorded at `KERNEL_BASE`, and `resolve` finds it there. `KERNEL_BASE` is the first address of
PML4 slot 128, the first of the kernel's slots. -/
theorem map_mem_at_kernel_base (s : SyscallState) (hc : s.process.vspace.Consistent)
    (hfree : ∀ e ∈ s.process.vspace.mappings.entries,
      e.1 + e.2.frame.size ≤ KERNEL_BASE ∨ KERNEL_BASE + BASE_PAGE_SIZE ≤ e.1)
    {paddr : { paddr : ℕ // paddr % BASE_PAGE_SIZE = 0 }} {rest : PageStack BASE_PAGE_SIZE 381}
    (hcache : s.mem_manager.base_page_addresses.pop = some (paddr, rest))
    (a : Allocator) (ha : ∀ n < 4, a.grants n = true) :
    ∃ s' a', (SystemCallDispatch.vspace s 1 KERNEL_BASE BASE_PAGE_SIZE).run a =
        .ok ((s', .ok (paddr, BASE_PAGE_SIZE)), a') ∧
      (KERNEL_BASE, ⟨⟨paddr, BASE_PAGE_SIZE, s.mem_manager.node⟩, MapAction.write'⟩) ∈
        s'.process.vspace.mappings.entries ∧
      s'.process.vspace.resolve KERNEL_BASE = .ok (.ok (paddr, MapAction.write')) ∧
      (pml4_index KERNEL_BASE).val = 128 := by
  set frame : Frame := ⟨paddr, BASE_PAGE_SIZE, s.mem_manager.node⟩
  -- the page is mapped by one `MemMapFrame`, with the third and fourth requests
  obtain ⟨vs', a', hmap, hc', hrec⟩ := NrProcess.dispatch_mut_MemMapFrame_of_free hc
    KERNEL_BASE frame MapAction.write' (.inl rfl)
    (show KERNEL_BASE + BASE_PAGE_SIZE ≤ 2 ^ 48 by decide) paddr.2
    (show KERNEL_BASE % BASE_PAGE_SIZE = 0 by decide) hfree
    (a := a.request.2.request.2) (ha 2 (by decide)) (ha 3 (by decide))
  have hmem : (KERNEL_BASE, ⟨frame, MapAction.write'⟩) ∈ vs'.mappings.entries := by
    rw [hrec]
    exact SortedMap.mem_insert.mpr (.inl rfl)
  refine ⟨⟨⟨vs', s.process.pfm⟩, { s.mem_manager with base_page_addresses := rest },
      s.pmem_manager, s.node⟩, a', ?_, hmem, ?_, by decide⟩
  · rw [vspace_map_mem, map_mem, map_generic_run, if_neg (by simp [ha 0 (by decide)]),
      if_neg (by simp [Allocator.request, ha 1 (by decide)])]
    have hpages : size_to_pages BASE_PAGE_SIZE = (1, 0) := by decide
    rw [hpages]
    simp only [allocate_pages_zero, Outcome.ok_bind, SyscallState.pmanager]
    rw [allocate_pages_one_base hcache, Outcome.ok_bind, NrProcess.map_frames_run,
      NrProcess.map_frames_loop_cons_run,
      Outcome.checkedAdd_of_lt (show KERNEL_BASE + 0 < 2 ^ USIZE_BITS by decide), Outcome.ok_bind,
      Nat.add_zero, hmap]
    rfl
  · rw [hc'.resolve_mapped hmem ⟨le_rfl, show KERNEL_BASE < KERNEL_BASE + BASE_PAGE_SIZE by decide⟩,
      Nat.sub_self, Nat.add_zero]
    rfl

theorem map_mem_at_kernel_base_on_new :
    ∃ s' a', (SystemCallDispatch.vspace
        ⟨⟨VSpace.new ⟨fun n => some ((n + 1) * BASE_PAGE_SIZE)⟩ (fun _ => true),
          ProcessFrames.default⟩, ⟨0, ⟨[⟨0x1000, by decide⟩], by decide⟩, .new⟩, ⟨0, .new, .new⟩, 0⟩
        1 KERNEL_BASE BASE_PAGE_SIZE).run Allocator.unlimited =
          .ok ((s', .ok (0x1000, BASE_PAGE_SIZE)), a') ∧
      s'.process.vspace.resolve KERNEL_BASE = .ok (.ok (0x1000, MapAction.write')) := by
  have hda := DA.grants_succ_mul
  obtain ⟨s', a', hrun, -, hres, -⟩ := map_mem_at_kernel_base
    ⟨⟨VSpace.new ⟨fun n => some ((n + 1) * BASE_PAGE_SIZE)⟩ (fun _ => true),
      ProcessFrames.default⟩, ⟨0, ⟨[⟨0x1000, by decide⟩], by decide⟩, .new⟩, ⟨0, .new, .new⟩, 0⟩
    (VSpace.consistent_new hda _) (by simp [VSpace.new, SortedMap.empty]) rfl
    Allocator.unlimited (fun _ _ => rfl)
  exact ⟨s', a', hrun, hres⟩

/-! ## Requests that reach a panic -/

/-- With the reservation and the refill granted, `map_generic` (`map_mem`, `map_pmem`) of a
base that is not 2 MiB aligned and a size of at least 2 MiB panics: the first frame is a large
page, its `MemMapFrame` at the base is refused, and `map_frames` reaches `unreachable!` (or a
page allocation reaches its `expect` before). `map_device` of a range that is not base-page
aligned panics in `Frame::new`. -/
theorem vspace_calls_panic (s : SyscallState) (a : Allocator) :
    (∀ mem_type base size, base % LARGE_PAGE_SIZE ≠ 0 → LARGE_PAGE_SIZE ≤ size →
      a.grants 0 = true → a.grants 1 = true →
      (map_generic s mem_type base size).run a = .panic) ∧
    (∀ base size, ¬ (base % BASE_PAGE_SIZE = 0 ∧ size % BASE_PAGE_SIZE = 0) →
      (map_device s base size).run a = .panic) := by
  constructor
  · intro mem_type base size hbase hsize h₀ h₁
    rw [map_generic_run, if_neg (by simp [h₀]), if_neg (by simp [Allocator.request, h₁])]
    have hlp : 0 < (size_to_pages size).2 := by
      rw [size_to_pages_eq]
      exact Nat.div_pos hsize (by decide)
    -- the large pages come first
    cases hL : allocate_pages MCache.allocate_large_page (size_to_pages size).2
        (s.pmanager mem_type) [] none 0 with
    | panic => rfl
    | ok r₁ =>
        obtain ⟨c₁, frames₁, paddr₁, total₁⟩ := r₁
        obtain ⟨large, rfl, hlen, hlarge⟩ :=
          allocate_pages_frames (fun _ _ _ h => MCache.allocate_large_page_frame h) hL
        obtain ⟨frame, rest, rfl⟩ := List.exists_cons_of_length_pos (hlen ▸ hlp)
        obtain ⟨hfsize, hfalign⟩ := hlarge frame (List.mem_cons_self ..)
        simp only [Outcome.ok_bind]
        cases hB : allocate_pages MCache.allocate_base_page (size_to_pages size).1 c₁
            (frame :: rest) paddr₁ total₁ with
        | panic => rfl
        | ok r₂ =>
            obtain ⟨c₂, frames₂, paddr₂, total₂⟩ := r₂
            obtain ⟨small, rfl, -, -⟩ :=
              allocate_pages_frames (fun _ _ _ _ => trivial) hB
            have hpanic := NrProcess.map_frames_loop_invalid_base base MapAction.write' s.process
              (rest ++ small) a.request.2.request.2 (by rw [hfsize]; decide)
              (by rw [hfsize]; exact hfalign) (by rw [hfsize]; exact hbase)
            simp only [Outcome.ok_bind, NrProcess.map_frames_run, List.cons_append, hpanic,
              Outcome.panic_bind]
  · intro base size hmis
    simp only [map_device, StateT.run_bind, AllocM.run_liftM, Frame.new_of_not_aligned hmis,
      Outcome.panic_bind]

theorem vspace_calls_panic_at_small_base :
    (map_generic ⟨⟨VSpace.new ⟨fun _ => none⟩ (fun _ => true), ProcessFrames.default⟩,
        ⟨0, .new, .new⟩, ⟨0, .new, .new⟩, 0⟩ .Mem 0x1000 LARGE_PAGE_SIZE).run Allocator.unlimited =
      .panic ∧
    (map_device ⟨⟨VSpace.new ⟨fun _ => none⟩ (fun _ => true), ProcessFrames.default⟩,
        ⟨0, .new, .new⟩, ⟨0, .new, .new⟩, 0⟩ 1 BASE_PAGE_SIZE).run Allocator.unlimited = .panic :=
  ⟨(vspace_calls_panic _ _).1 .Mem 0x1000 LARGE_PAGE_SIZE (by decide) le_rfl rfl rfl,
    (vspace_calls_panic _ _).2 1 BASE_PAGE_SIZE (by decide)⟩

/-! ## Counting aliased mappings -/

/-- `MemMapFrameId` of a registered frame at a base that is not aligned to the frame's size
fails, with `InvalidBase`, or `OutOfMemory` when the refill is refused. The address space is
unchanged, no mapping was made, and yet the frame's count has gone up by one: releasing the
frame now fails with `FrameStillMapped`. -/
theorem map_frame_id_error_counts (p : Ring3Process) (base fid : ℕ) (action : MapAction)
    (a : Allocator) {frame : Frame} {refcnt : ℕ} (hreg : p.pfm.lookup fid = some (frame, refcnt))
    (hpos : 0 < frame.size) (halign : frame.base % frame.size = 0)
    (hbase : base % frame.size ≠ 0) :
    ∃ e p' a', (NrProcess.dispatch_mut p (.MemMapFrameId base fid action)).run a =
        .ok ((p', .error e), a') ∧
      p'.vspace = p.vspace ∧ p'.pfm.lookup fid = some (frame, refcnt + 1) ∧
      (p'.pfm.deallocate_frame fid).2 = .error .FrameStillMapped := by
  set p' : Ring3Process := { p with pfm := p.pfm.set fid (some frame, refcnt + 1) }
  have hlookup : p'.pfm.lookup fid = some (frame, refcnt + 1) := by
    simp [p', ProcessFrames.lookup_set _ (ProcessFrames.lt_of_lookup hreg),
      ProcessFrames.entryView]
  have hrelease : (p'.pfm.deallocate_frame fid).2 = .error .FrameStillMapped := by
    rw [ProcessFrames.deallocate_frame_of_lookup hlookup, if_neg (Nat.succ_ne_zero _)]
  rw [NrProcess.dispatch_mut_MemMapFrameId_run p base fid action a hreg]
  cases a.grants 0
  · -- the refill is refused after the count went up
    exact ⟨.OutOfMemory, p', a.request.2, rfl, rfl, hlookup, hrelease⟩
  · -- `map_frame` refuses the base
    refine ⟨.InvalidBase, p', a.request.2, ?_, rfl, hlookup, hrelease⟩
    rw [if_pos rfl, map_frame_invalid_base p.vspace action _ hpos halign hbase]
    rfl

theorem map_frame_id_unaligned_after_allocate :
    ∃ e p' a', (NrProcess.dispatch_mut
        ⟨VSpace.new ⟨fun _ => none⟩ (fun _ => true),
          (ProcessFrames.default.add_frame ⟨0, BASE_PAGE_SIZE, 0⟩).1⟩
        (.MemMapFrameId 1 0 (MapAction.user ||| MapAction.write' ||| MapAction.aliased'))).run
          Allocator.unlimited = .ok ((p', .error e), a') ∧
      p'.vspace = VSpace.new ⟨fun _ => none⟩ (fun _ => true) ∧
      p'.pfm.lookup 0 = some (⟨0, BASE_PAGE_SIZE, 0⟩, 1) ∧
      (p'.pfm.deallocate_frame 0).2 = .error .FrameStillMapped :=
  map_frame_id_error_counts _ 1 0 _ Allocator.unlimited
    (show (ProcessFrames.default.add_frame ⟨0, BASE_PAGE_SIZE, 0⟩).1.lookup 0 =
      some (⟨0, BASE_PAGE_SIZE, 0⟩, 0) by decide)
    (by decide) (by decide) (by decide)

end Nrk.Process
