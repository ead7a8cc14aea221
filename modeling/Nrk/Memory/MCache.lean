import Nrk.Lib.ArrayVec
import Nrk.Memory.MapAction

/-! # The frame caches (`kernel/src/memory/mcache.rs`)

`MCache`, the two stacks of free page addresses that a core's and a node's frame cache keep. -/

namespace Nrk.Memory

/-- A stack of free pages of `size` bytes: at most `CAP` addresses, each aligned to `size`. -/
abbrev PageStack (size CAP : ℕ) := ArrayVec { paddr : ℕ // paddr % size = 0 } CAP

/-- `MCache<BP, LP>`: the free base-page and large-page addresses of a node, on two stacks of
capacity `BP` and `LP`. Every address is aligned to its page size, as `grow_*` and
`release_*` assert before a push. -/
structure MCache (BP LP : ℕ) where
  node : ℕ
  base_page_addresses : PageStack BASE_PAGE_SIZE BP
  large_page_addresses : PageStack LARGE_PAGE_SIZE LP

/-- `FrameCacheLarge`: the cache of a NUMA node. -/
abbrev FrameCacheLarge := MCache 131071 131070

/-- `FrameCacheSmall`: the cache of a core. -/
abbrev FrameCacheSmall := MCache 381 128

namespace MCache

section Pages

variable {size CAP : ℕ}

/-- An address aligned to a page size that is a multiple of a base page is aligned to a base
page. -/
theorem base_aligned {paddr : ℕ} (hsize : size % BASE_PAGE_SIZE = 0) (h : paddr % size = 0) :
    paddr % BASE_PAGE_SIZE = 0 :=
  Nat.mod_eq_zero_of_dvd ((Nat.dvd_of_mod_eq_zero hsize).trans (Nat.dvd_of_mod_eq_zero h))

/-- What `allocate_base_page` and `allocate_large_page` share: pop the top address of a stack
and make it a frame of `size` on `node` (`paddr_to_base_page`, `paddr_to_large_page`), or
return `CacheExhausted`. -/
def allocate_page (node : ℕ) (stack : PageStack size CAP) :
    Outcome (PageStack size CAP × Except KError Frame) :=
  match stack.pop with
  | none => .ok (stack, .error .CacheExhausted)
  | some (paddr, stack) => do
      let frame ← Frame.new paddr size node
      return (stack, .ok frame)

/-- What `grow_base_pages` and `grow_large_pages` share: push the address of each frame after
asserting its size, its alignment and its node. A full stack returns `CacheFull` (`?`), with
the frames before it pushed. -/
def grow_pages (node : ℕ) :
    PageStack size CAP → List Frame → Outcome (PageStack size CAP × Except KError Unit)
  | stack, [] => .ok (stack, .ok ())
  | stack, frame :: free_list =>
      if h : frame.size = size ∧ frame.base % size = 0 ∧ frame.affinity = node then
        match stack.try_push ⟨frame.base, h.2.1⟩ with
        | none => .ok (stack, .error .CacheFull)
        | some stack => grow_pages node stack free_list
      else .panic

variable {node : ℕ} {stack stack' : PageStack size CAP} {frame : Frame}

theorem allocate_page_of_zero (h : stack.len = 0) :
    allocate_page node stack = .ok (stack, .error .CacheExhausted) := by
  rw [allocate_page, ArrayVec.pop_eq_none_iff.mpr h]

/-- A page size that is a multiple of a base page makes every address of the stack a frame:
the top one is popped, on `node`. -/
theorem allocate_page_of_pos (node : ℕ) (hsize : size % BASE_PAGE_SIZE = 0) (h : 0 < stack.len) :
    ∃ stack' frame, allocate_page node stack = .ok (stack', .ok frame) ∧
      stack'.len = stack.len - 1 ∧ frame.size = size ∧ frame.base % size = 0 ∧
        frame.affinity = node := by
  obtain ⟨paddr, stack', hpop, hlen⟩ := ArrayVec.pop_of_pos h
  refine ⟨stack', ⟨paddr.1, size, node⟩, ?_, hlen, rfl, paddr.2, rfl⟩
  rw [allocate_page, hpop]
  simp [Frame.new_of_aligned (base_aligned hsize paddr.2) hsize]

theorem allocate_page_len (h : allocate_page node stack = .ok (stack', .ok frame)) :
    stack'.len + 1 = stack.len := by
  unfold allocate_page at h
  split at h
  · cases h
  · rename_i paddr rest hpop
    rw [Outcome.bind_eq_ok] at h
    obtain ⟨frame', -, h⟩ := h
    cases h
    exact ArrayVec.len_of_pop hpop

theorem grow_pages_single (hroom : stack.len < CAP) (hsize : frame.size = size)
    (hbase : frame.base % size = 0) (hnode : frame.affinity = node) :
    ∃ stack', grow_pages node stack [frame] = .ok (stack', .ok ()) ∧
      stack'.len = stack.len + 1 := by
  obtain ⟨stack', hpush, -, hlen⟩ := ArrayVec.try_push_of_lt (a := ⟨frame.base, hbase⟩) hroom
  refine ⟨stack', ?_, hlen⟩
  rw [grow_pages, dif_pos ⟨hsize, hbase, hnode⟩, hpush]
  rfl

end Pages

variable {BP LP : ℕ}

def free_base_pages (c : MCache BP LP) : ℕ := c.base_page_addresses.len

def free_large_pages (c : MCache BP LP) : ℕ := c.large_page_addresses.len

def spare_base_page_capacity (c : MCache BP LP) : ℕ := BP - c.base_page_addresses.len

def spare_large_page_capacity (c : MCache BP LP) : ℕ := LP - c.large_page_addresses.len

/-- `allocate_base_page`. -/
def allocate_base_page (c : MCache BP LP) : Outcome (MCache BP LP × Except KError Frame) := do
  let (stack, r) ← allocate_page c.node c.base_page_addresses
  return ({ c with base_page_addresses := stack }, r)

/-- `allocate_large_page`. -/
def allocate_large_page (c : MCache BP LP) : Outcome (MCache BP LP × Except KError Frame) := do
  let (stack, r) ← allocate_page c.node c.large_page_addresses
  return ({ c with large_page_addresses := stack }, r)

/-- `grow_base_pages`. -/
def grow_base_pages (c : MCache BP LP) (free_list : List Frame) :
    Outcome (MCache BP LP × Except KError Unit) := do
  let (stack, r) ← grow_pages c.node c.base_page_addresses free_list
  return ({ c with base_page_addresses := stack }, r)

/-- `grow_large_pages`. -/
def grow_large_pages (c : MCache BP LP) (free_list : List Frame) :
    Outcome (MCache BP LP × Except KError Unit) := do
  let (stack, r) ← grow_pages c.node c.large_page_addresses free_list
  return ({ c with large_page_addresses := stack }, r)

theorem free_large_pages_le (c : MCache BP LP) : c.free_large_pages ≤ LP :=
  c.large_page_addresses.len_le

section Frames

variable {size CAP : ℕ} {node : ℕ} {stack stack' : PageStack size CAP} {frame : Frame}

/-- A frame popped from a stack of pages of a multiple of a base page has the stack's page
size, and its base is aligned to it. -/
theorem allocate_page_frame (hsize : size % BASE_PAGE_SIZE = 0)
    (h : allocate_page node stack = .ok (stack', .ok frame)) :
    frame.size = size ∧ frame.base % size = 0 := by
  unfold allocate_page at h
  split at h
  · cases h
  · rename_i paddr rest _
    rw [Frame.new_of_aligned (base_aligned hsize paddr.2) hsize, Outcome.ok_bind] at h
    cases h
    exact ⟨rfl, paddr.2⟩

end Frames

theorem allocate_base_page_frame {c c' : MCache BP LP} {frame : Frame}
    (h : c.allocate_base_page = .ok (c', .ok frame)) :
    frame.size = BASE_PAGE_SIZE ∧ frame.base % BASE_PAGE_SIZE = 0 := by
  obtain ⟨⟨stack, r⟩, hpage, hret⟩ := Outcome.bind_eq_ok.mp h
  cases hret
  exact allocate_page_frame (Nat.mod_self _) hpage

theorem allocate_large_page_frame {c c' : MCache BP LP} {frame : Frame}
    (h : c.allocate_large_page = .ok (c', .ok frame)) :
    frame.size = LARGE_PAGE_SIZE ∧ frame.base % LARGE_PAGE_SIZE = 0 := by
  obtain ⟨⟨stack, r⟩, hpage, hret⟩ := Outcome.bind_eq_ok.mp h
  cases hret
  exact allocate_page_frame (by decide) hpage

end MCache

end Nrk.Memory
