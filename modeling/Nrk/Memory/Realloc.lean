import Nrk.Memory.Detmem
import Nrk.Lib.SizeClass

/-! # In-place `realloc` and the `dealloc` after it (`kernel/src/memory/mod.rs`, `lib/vibrio/src/mem.rs`)

slabmalloc's `ZoneAllocator`, outside the repository, described by its size classes as the code
relies on them. -/

namespace Nrk.Memory

/-- slabmalloc's `ZoneAllocator`, by its size classes: their maxima in increasing order, the
largest being `MAX_ALLOC_SIZE`. -/
structure ZoneAllocator where
  classes : List ℕ
  increasing : classes.Pairwise (· < ·)
  MAX_ALLOC_SIZE : ℕ
  max_mem : MAX_ALLOC_SIZE ∈ classes
  le_max : ∀ c ∈ classes, c ≤ MAX_ALLOC_SIZE

namespace ZoneAllocator

variable (z : ZoneAllocator)

/-- `ZoneAllocator::get_max_size(s)`: the maximum of the class that serves `s`. -/
def get_max_size (s : ℕ) : Option ℕ := SizeClass.fit z.classes s

variable {z} {s n : ℕ}

/-- The test of `realloc`'s fast path, `new_size <= get_max_size(size).unwrap_or(0)` for a size
the zone serves: the size has a class, and the new size fits under it and under
`MAX_ALLOC_SIZE`. -/
theorem fits_of_le_getD (hs : s ≤ z.MAX_ALLOC_SIZE) (hn : n ≤ (z.get_max_size s).getD 0) :
    ∃ c, z.get_max_size s = some c ∧ n ≤ c ∧ n ≤ z.MAX_ALLOC_SIZE := by
  obtain ⟨c, hc⟩ := SizeClass.fit_isSome z.max_mem hs
  have hle : c ≤ z.MAX_ALLOC_SIZE := z.le_max c (SizeClass.fit_mem hc)
  rw [get_max_size, hc, Option.getD_some] at hn
  exact ⟨c, hc, hn, hn.trans hle⟩

theorem get_max_size_self {c : ℕ} (hc : c ∈ z.classes) : z.get_max_size c = some c :=
  SizeClass.fit_self z.increasing hc

theorem get_max_size_ne_of_lt {c d : ℕ} (hd : d ∈ z.classes) (hdc : d < c) (hn : n ≤ d) :
    z.get_max_size n ≠ some c :=
  SizeClass.fit_ne_of_lt z.increasing hd hdc hn

end ZoneAllocator

/-- Where a block comes from, or goes back to: a `ZoneAllocator` (the emergency one or not) and
the class that `get_max_size` names, a base or a large page of the frame cache, a region of
several pages, or nowhere (`dealloc` logs that it loses the region). -/
inductive Route where
  | zone (emergency : Bool) (class_max : Option ℕ)
  | base_page
  | large_page
  | big
  | lost
  deriving DecidableEq, Repr

/-- What `realloc` does with the block at `ptr`: keep it and return `ptr`, or move it to a new
allocation of `new_layout` and free it under its old layout. -/
inductive Realloc where
  | keep
  | move (new_layout : Layout)
  deriving DecidableEq, Repr

/-- `AllocatorType`. -/
inductive AllocatorType where
  | Zone
  | MemManager
  | MapBig
  deriving DecidableEq, Repr

/-! ## The kernel's `KernelAllocator` -/

namespace KernelAllocator

variable (z : ZoneAllocator)

/-- `KernelAllocator::allocator_for`. -/
def allocator_for (layout : Layout) : AllocatorType :=
  if layout.size ≤ z.MAX_ALLOC_SIZE then .Zone
  else if layout.size ≤ LARGE_PAGE_SIZE then .MemManager
  else .MapBig

/-- Where `try_alloc` takes a block of `layout` from, on a core that uses the emergency
allocator or not: the `MemManager` path takes a large page, `MapBig` maps a region. -/
def alloc_route (use_emergency_allocator : Bool) (layout : Layout) : Route :=
  match allocator_for z layout with
  | .Zone => .zone use_emergency_allocator (z.get_max_size layout.size)
  | .MemManager => .large_page
  | .MapBig => .big

/-- `KernelAllocator::dealloc`: where it hands the block back. -/
def dealloc (use_emergency_allocator : Bool) (layout : Layout) : Route :=
  if layout.size ≤ z.MAX_ALLOC_SIZE then
    .zone use_emergency_allocator (z.get_max_size layout.size)
  else if layout.size ≤ BASE_PAGE_SIZE then .base_page
  else if layout.size ≤ LARGE_PAGE_SIZE then .large_page
  else .lost

/-- `KernelAllocator::realloc`. -/
def realloc (use_emergency_allocator : Bool) (layout : Layout) (new_size : ℕ) : Realloc :=
  if use_emergency_allocator = false ∧ layout.size ≤ z.MAX_ALLOC_SIZE ∧
      layout.size ≠ BASE_PAGE_SIZE ∧ new_size ≤ (z.get_max_size layout.size).getD 0 then .keep
  else .move ⟨new_size, layout.align⟩

variable {z} {e : Bool} {layout : Layout} {n : ℕ}

theorem alloc_route_of_le (h : layout.size ≤ z.MAX_ALLOC_SIZE) :
    alloc_route z e layout = .zone e (z.get_max_size layout.size) := by
  simp [alloc_route, allocator_for, h]

theorem dealloc_of_le (h : layout.size ≤ z.MAX_ALLOC_SIZE) :
    dealloc z e layout = .zone e (z.get_max_size layout.size) := by
  simp [dealloc, h]

/-- The fast path runs off the emergency allocator, on a size the zone serves other than
`BASE_PAGE_SIZE`, and to a new size under that size's class. -/
theorem of_realloc_eq_keep (h : realloc z e layout n = .keep) :
    e = false ∧ layout.size ≤ z.MAX_ALLOC_SIZE ∧ layout.size ≠ BASE_PAGE_SIZE ∧
      n ≤ (z.get_max_size layout.size).getD 0 := by
  unfold realloc at h
  split_ifs at h with hfast
  exact hfast

/-- After the fast path, freeing the block under the new size hands it back where it came from
exactly when the new size has the old size's class. -/
theorem dealloc_after_keep_iff (h : realloc z e layout n = .keep) :
    dealloc z e ⟨n, layout.align⟩ = alloc_route z e layout ↔
      z.get_max_size n = z.get_max_size layout.size := by
  obtain ⟨-, hs, -, hn⟩ := of_realloc_eq_keep h
  obtain ⟨c, -, -, hnmax⟩ := ZoneAllocator.fits_of_le_getD hs hn
  rw [dealloc_of_le hnmax, alloc_route_of_le hs, Route.zone.injEq]
  simp

end KernelAllocator

end Nrk.Memory

/-! ## vibrio's `SafeZoneAllocator` -/

namespace Nrk.Vibrio.SafeZoneAllocator

open Nrk.Memory

variable (z : ZoneAllocator)

/-- Where `SafeZoneAllocator::alloc` takes a block of `layout` from: the zone, a large page of a
pager, or one large page after another for a big size. -/
def alloc_route (layout : Layout) : Route :=
  if layout.size ≤ z.MAX_ALLOC_SIZE then .zone false (z.get_max_size layout.size)
  -- `LPRANGE_START..=Pager::LARGE_PAGE_SIZE`: the sizes above the first arm
  else if layout.size ≤ LARGE_PAGE_SIZE then .large_page
  else .big

/-- `SafeZoneAllocator::dealloc`: where it hands the block back. -/
def dealloc (layout : Layout) : Route :=
  if layout.size ≤ z.MAX_ALLOC_SIZE then .zone false (z.get_max_size layout.size)
  else if layout.size ≤ LARGE_PAGE_SIZE then .large_page
  else .lost

/-- `SafeZoneAllocator::realloc`. -/
def realloc (layout : Layout) (new_size : ℕ) : Realloc :=
  if layout.size ≤ z.MAX_ALLOC_SIZE ∧ new_size ≤ (z.get_max_size layout.size).getD 0 then .keep
  else .move ⟨new_size, layout.align⟩

variable {z} {layout : Layout} {n : ℕ}

/-- After the fast path, freeing the block under the new size hands it back where it came from
exactly when the new size has the old size's class. -/
theorem dealloc_after_keep_iff (h : realloc z layout n = .keep) :
    dealloc z ⟨n, layout.align⟩ = alloc_route z layout ↔
      z.get_max_size n = z.get_max_size layout.size := by
  unfold realloc at h
  split_ifs at h with hfast
  obtain ⟨hs, hn⟩ := hfast
  obtain ⟨c, -, -, hnmax⟩ := ZoneAllocator.fits_of_le_getD hs hn
  simp [dealloc, alloc_route, hs, hnmax]

theorem realloc_of_smaller_class {small c align : ℕ} (hc : c ∈ z.classes) (hlt : small < c) :
    realloc z ⟨c, align⟩ small = .keep := by
  simp [realloc, z.le_max c hc, ZoneAllocator.get_max_size_self hc, hlt.le]

end Nrk.Vibrio.SafeZoneAllocator

namespace Nrk.Memory

namespace KernelAllocator

variable {z : ZoneAllocator}

/-- Shrinking a block of class `c`, other than `BASE_PAGE_SIZE`, to the maximum of a smaller
class takes the fast path off the emergency allocator. -/
theorem realloc_of_smaller_class {small c align : ℕ} (hc : c ∈ z.classes) (hlt : small < c)
    (hbase : c ≠ BASE_PAGE_SIZE) : realloc z false ⟨c, align⟩ small = .keep := by
  simp [realloc, z.le_max c hc, ZoneAllocator.get_max_size_self hc, hlt.le, hbase]

end KernelAllocator

/-- Fast-path `realloc` and the `dealloc` under the new size agree exactly when the new size has
the old size's class, in the kernel and in vibrio. So shrinking a block of class `c` to a
smaller class's maximum keeps the block, which the caller then frees into the smaller class. -/
theorem realloc_shrink_frees_into_smaller_class (z : ZoneAllocator) :
    (∀ e layout n, KernelAllocator.realloc z e layout n = .keep →
      (KernelAllocator.dealloc z e ⟨n, layout.align⟩ = KernelAllocator.alloc_route z e layout ↔
        z.get_max_size n = z.get_max_size layout.size)) ∧
    (∀ layout n, Vibrio.SafeZoneAllocator.realloc z layout n = .keep →
      (Vibrio.SafeZoneAllocator.dealloc z ⟨n, layout.align⟩ =
          Vibrio.SafeZoneAllocator.alloc_route z layout ↔
        z.get_max_size n = z.get_max_size layout.size)) ∧
    ∀ small c align, small ∈ z.classes → c ∈ z.classes → small < c → c ≠ BASE_PAGE_SIZE →
      KernelAllocator.realloc z false ⟨c, align⟩ small = .keep ∧
      KernelAllocator.dealloc z false ⟨small, align⟩ ≠
        KernelAllocator.alloc_route z false ⟨c, align⟩ ∧
      Vibrio.SafeZoneAllocator.realloc z ⟨c, align⟩ small = .keep ∧
      Vibrio.SafeZoneAllocator.dealloc z ⟨small, align⟩ ≠
        Vibrio.SafeZoneAllocator.alloc_route z ⟨c, align⟩ := by
  refine ⟨fun _ _ _ => KernelAllocator.dealloc_after_keep_iff,
    fun _ _ => Vibrio.SafeZoneAllocator.dealloc_after_keep_iff,
    fun small c align hsmall hc hlt hbase => ?_⟩
  -- the new size's class is below `c`, the old size's class is `c`
  have hclass : z.get_max_size small ≠ z.get_max_size c := by
    rw [ZoneAllocator.get_max_size_self hc]
    exact ZoneAllocator.get_max_size_ne_of_lt hsmall hlt le_rfl
  have hkernel : KernelAllocator.realloc z false ⟨c, align⟩ small = .keep :=
    KernelAllocator.realloc_of_smaller_class hc hlt hbase
  have hvibrio : Vibrio.SafeZoneAllocator.realloc z ⟨c, align⟩ small = .keep :=
    Vibrio.SafeZoneAllocator.realloc_of_smaller_class hc hlt
  exact ⟨hkernel, (KernelAllocator.dealloc_after_keep_iff hkernel).not.mpr hclass,
    hvibrio, (Vibrio.SafeZoneAllocator.dealloc_after_keep_iff hvibrio).not.mpr hclass⟩

/-- Size classes of the powers of two from `8` to `2^17`. -/
def power_of_two_classes : ZoneAllocator where
  classes := (List.range 15).map (8 * 2 ^ ·)
  increasing := by decide
  MAX_ALLOC_SIZE := 131072
  max_mem := by decide
  le_max := by decide

/-- With classes the powers of two from `8`, a block of `64` bytes reallocated to `8` bytes is
kept, and `dealloc(ptr, Layout(8, 8))` frees it into the class of `8`, not that of `64`. -/
theorem realloc_shrink_frees_into_smaller_class_64_to_8 :
    KernelAllocator.realloc power_of_two_classes false ⟨64, 8⟩ 8 = .keep ∧
    KernelAllocator.dealloc power_of_two_classes false ⟨8, 8⟩ = .zone false (some 8) ∧
    KernelAllocator.alloc_route power_of_two_classes false ⟨64, 8⟩ = .zone false (some 64) ∧
    KernelAllocator.dealloc power_of_two_classes false ⟨8, 8⟩ ≠
      KernelAllocator.alloc_route power_of_two_classes false ⟨64, 8⟩ ∧
    Vibrio.SafeZoneAllocator.realloc power_of_two_classes ⟨64, 8⟩ 8 = .keep ∧
    Vibrio.SafeZoneAllocator.dealloc power_of_two_classes ⟨8, 8⟩ ≠
      Vibrio.SafeZoneAllocator.alloc_route power_of_two_classes ⟨64, 8⟩ := by
  obtain ⟨hk, hkne, hv, hvne⟩ :=
    (realloc_shrink_frees_into_smaller_class power_of_two_classes).2.2 8 64 8
      (by decide) (by decide) (by decide) (by decide)
  exact ⟨hk, by decide, by decide, hkne, hv, hvne⟩

end Nrk.Memory
