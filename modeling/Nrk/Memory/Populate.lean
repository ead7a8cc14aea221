import Mathlib.Order.Interval.Set.Disjoint
import Nrk.Lib.Carve
import Nrk.Memory.MapBig

/-! # Filling page caches from frames (`memory/frame.rs`, `memory/mcache.rs`)

`MCache::populate` cuts a frame into pages with `Frame::split_at`, so the pages a cache gains
are a carving of the frame. -/

namespace Nrk.Memory

/-- `round_up!(num, s)`. -/
def round_up (num s : ℕ) : ℕ := (num + s - 1) / s * s

theorem round_up_spec (num : ℕ) {s : ℕ} (hs : 0 < s) :
    num ≤ round_up num s ∧ round_up num s < num + s ∧ round_up num s % s = 0 := by
  have hdiv := Nat.div_add_mod (num + s - 1) s
  have hmod := Nat.mod_lt (num + s - 1) hs
  refine ⟨?_, ?_, Nat.mul_mod_left _ _⟩ <;>
  · rw [round_up, Nat.mul_comm]
    omega

namespace Frame

/-- The physical addresses a frame covers. -/
def range (f : Frame) : Set ℕ := Set.Ico f.base (f.base + f.size)

/-- `Frame::empty`. -/
def empty : Frame := ⟨0, 0, 0⟩

/-- `base_pages`. -/
def base_pages (f : Frame) : ℕ := f.size / BASE_PAGE_SIZE

/-- Frames carved out of frames: each piece lies in a frame of its own affinity. -/
abbrev Carved (inputs pieces : List Frame) : Prop := Carve.Carved range affinity inputs pieces

theorem range_subset {p f : Frame} (hlo : f.base ≤ p.base)
    (hhi : p.base + p.size ≤ f.base + f.size) : p.range ⊆ f.range :=
  Set.Ico_subset_Ico hlo hhi

theorem range_disjoint {p q : Frame} (h : p.base + p.size ≤ q.base) :
    Disjoint p.range q.range :=
  Set.Ico_disjoint_Ico.mpr ((min_le_left _ _).trans (h.trans (le_max_right _ _)))

theorem range_empty : empty.range = ∅ := by
  simp [range, empty]

theorem range_nonempty {f : Frame} (h : 0 < f.size) : f.range.Nonempty :=
  ⟨f.base, by simp [range, h]⟩

end Frame

/-- A frame that `Frame::new` accepts: its base and its size are multiples of a base page. -/
abbrev PFrame := { f : Frame // f.base % BASE_PAGE_SIZE = 0 ∧ f.size % BASE_PAGE_SIZE = 0 }

theorem base_page_mod_add {a b : ℕ} (ha : a % BASE_PAGE_SIZE = 0) (hb : b % BASE_PAGE_SIZE = 0) :
    (a + b) % BASE_PAGE_SIZE = 0 := by
  rw [Nat.add_mod, ha, hb]
  rfl

theorem large_page_mod_base_page : LARGE_PAGE_SIZE % BASE_PAGE_SIZE = 0 := rfl

theorem base_page_mod_of_large {a : ℕ} (h : a % LARGE_PAGE_SIZE = 0) : a % BASE_PAGE_SIZE = 0 :=
  Nat.mod_eq_zero_of_dvd
    ((Nat.dvd_of_mod_eq_zero large_page_mod_base_page).trans (Nat.dvd_of_mod_eq_zero h))

namespace PFrame

/-- `Frame::empty`. -/
def empty : PFrame := ⟨Frame.empty, rfl, rfl⟩

/-- `Frame::split_at(size)`: the frame's first `size` bytes and the rest, or the whole frame and
`Frame::empty` when `size` reaches the frame's end. -/
def split_at (f : PFrame) (size : ℕ) (hsize : size % BASE_PAGE_SIZE = 0) : PFrame × PFrame :=
  if size ≥ f.1.size then (f, empty)
  else
    (⟨⟨f.1.base, size, f.1.affinity⟩, f.2.1, hsize⟩,
      ⟨⟨f.1.base + size, f.1.size - size, f.1.affinity⟩, base_page_mod_add f.2.1 hsize,
        Nat.sub_mod_eq_zero_of_mod_eq (f.2.2.trans hsize.symm)⟩)

variable {f : PFrame} {size : ℕ} {hsize : size % BASE_PAGE_SIZE = 0}

theorem split_at_of_ge (h : f.1.size ≤ size) : f.split_at size hsize = (f, empty) :=
  if_pos h

theorem split_at_fst_of_lt (h : size < f.1.size) :
    (f.split_at size hsize).1.1 = ⟨f.1.base, size, f.1.affinity⟩ := by
  rw [split_at, if_neg (Nat.not_le.mpr h)]

theorem split_at_snd_of_lt (h : size < f.1.size) :
    (f.split_at size hsize).2.1 = ⟨f.1.base + size, f.1.size - size, f.1.affinity⟩ := by
  rw [split_at, if_neg (Nat.not_le.mpr h)]

theorem split_at_fst_base : (f.split_at size hsize).1.1.base = f.1.base := by
  unfold split_at
  split <;> rfl

/-- The high part starts at `base + size`, or is `Frame::empty` at 0: aligned to `a` when
`base + size` is. -/
theorem split_at_snd_base_mod {a : ℕ} (h : (f.1.base + size) % a = 0) :
    (f.split_at size hsize).2.1.base % a = 0 := by
  unfold split_at
  split
  · exact Nat.zero_mod a
  · exact h

theorem carved_split_at (f : PFrame) (size : ℕ) (hsize : size % BASE_PAGE_SIZE = 0) :
    Frame.Carved [f.1] [(f.split_at size hsize).1.1, (f.split_at size hsize).2.1] := by
  rcases Nat.lt_or_ge size f.1.size with hlt | hge
  · rw [split_at_fst_of_lt hlt, split_at_snd_of_lt hlt]
    refine Carve.Carved.pair (Or.inr ⟨rfl, ?_⟩) (Or.inr ⟨rfl, ?_⟩) ?_
    · exact Frame.range_subset le_rfl (by simp only; omega)
    · exact Frame.range_subset (by simp only; omega) (by simp only; omega)
    · exact Frame.range_disjoint le_rfl
  · rw [split_at_of_ge hge]
    refine Carve.Carved.pair (Or.inr ⟨rfl, subset_rfl⟩) (Or.inl Frame.range_empty) ?_
    show Disjoint f.1.range Frame.empty.range
    rw [Frame.range_empty]
    exact Set.disjoint_empty _

/-- `split_at_nearest_large_page_boundary`: the part below the first large-page boundary in the
frame, and the rest, which starts at that boundary (or is `Frame::empty` when the boundary lies
past the frame). -/
def split_at_nearest_large_page_boundary (f : PFrame) : PFrame × PFrame :=
  if f.1.base % LARGE_PAGE_SIZE = 0 then (empty, f)
  else
    let new_high_base := round_up f.1.base LARGE_PAGE_SIZE
    f.split_at (new_high_base - f.1.base)
      (Nat.sub_mod_eq_zero_of_mod_eq
        ((base_page_mod_of_large (round_up_spec f.1.base (by decide)).2.2).trans f.2.1.symm))

theorem split_at_nearest_large_page_boundary_snd (f : PFrame) :
    (f.split_at_nearest_large_page_boundary).2.1.base % LARGE_PAGE_SIZE = 0 := by
  unfold split_at_nearest_large_page_boundary
  split
  · assumption
  · have hup := round_up_spec f.1.base (show 0 < LARGE_PAGE_SIZE by decide)
    refine split_at_snd_base_mod ?_
    rw [Nat.add_sub_cancel' hup.1]
    exact hup.2.2

theorem carved_split_at_nearest_large_page_boundary (f : PFrame) :
    Frame.Carved [f.1] [(f.split_at_nearest_large_page_boundary).1.1,
      (f.split_at_nearest_large_page_boundary).2.1] := by
  unfold split_at_nearest_large_page_boundary
  split
  · refine Carve.Carved.pair (Or.inl Frame.range_empty) (Or.inr ⟨rfl, subset_rfl⟩) ?_
    show Disjoint Frame.empty.range f.1.range
    rw [Frame.range_empty]
    exact Set.empty_disjoint _
  · exact carved_split_at f _ _

/-- `IntoBasePageIter`, run to its end: `next` splits a base page off the front while more than
one is left, hands out the last page whole (leaving `Frame::empty`), and then stops. The
recursion runs on `n`, the pages left; `into_base_pages` starts it at the iterator's `len()`. -/
def base_pages_of : ℕ → PFrame → List PFrame
  | 0, _ => []
  | n + 1, frame =>
      if BASE_PAGE_SIZE < frame.1.size then
        (frame.split_at BASE_PAGE_SIZE (Nat.mod_self _)).1 ::
          base_pages_of n (frame.split_at BASE_PAGE_SIZE (Nat.mod_self _)).2
      else if frame.1.size = BASE_PAGE_SIZE then [frame]
      else []

/-- `frame.into_iter()`: the base pages of a frame, from its base up. -/
def into_base_pages (frame : PFrame) : List PFrame := base_pages_of frame.1.base_pages frame

theorem carved_base_pages_of : ∀ (n : ℕ) (frame : PFrame),
    Frame.Carved [frame.1] ((base_pages_of n frame).map (·.1)) ∧
      ∀ p ∈ base_pages_of n frame, p.1.size = BASE_PAGE_SIZE
  | 0, frame => ⟨Carve.Carved.nil, fun _ h => nomatch h⟩
  | n + 1, frame => by
    rw [base_pages_of]
    split_ifs with hgt heq
    · -- a base page split off the front, and the pages of the rest
      obtain ⟨hrest, hsizes⟩ := carved_base_pages_of n (frame.split_at BASE_PAGE_SIZE (Nat.mod_self _)).2
      have hsplit := carved_split_at frame BASE_PAGE_SIZE (Nat.mod_self _)
      have hlow : (frame.split_at BASE_PAGE_SIZE (Nat.mod_self _)).1.1.size = BASE_PAGE_SIZE := by
        rw [split_at_fst_of_lt hgt]
      refine ⟨hsplit.trans (hrest.cons ?_), ?_⟩
      · intro r hr
        rw [List.mem_singleton.mp hr]
        exact Carve.apart_pair.mp hsplit.apart
      · intro p hp
        rcases List.mem_cons.mp hp with rfl | hp
        · exact hlow
        · exact hsizes p hp
    · -- the last page, whole
      exact ⟨Carve.Carved.refl (List.pairwise_singleton _ _), fun p hp => by
        rw [List.mem_singleton.mp hp]; exact heq⟩
    · exact ⟨Carve.Carved.nil, fun _ h => nomatch h⟩

theorem carved_into_base_pages (frame : PFrame) :
    Frame.Carved [frame.1] ((into_base_pages frame).map (·.1)) ∧
      ∀ p ∈ into_base_pages frame, p.1.size = BASE_PAGE_SIZE :=
  carved_base_pages_of _ frame

end PFrame

namespace MCache

/-- The pages on a stack of `size`-byte pages, as frames of `node` (`paddr_to_base_page`,
`paddr_to_large_page`). -/
def stack_pages {size CAP : ℕ} (node : ℕ) (stack : PageStack size CAP) : List Frame :=
  stack.items.map fun paddr => ⟨paddr.1, size, node⟩

variable {BP LP : ℕ}

/-- The pages a cache holds, as frames of its node: the base pages, then the large pages. -/
def pages (c : MCache BP LP) : List Frame :=
  stack_pages c.node c.base_page_addresses ++ stack_pages c.node c.large_page_addresses

/-- `MCache::new`. -/
def new (node : ℕ) : MCache BP LP := ⟨node, ArrayVec.new, ArrayVec.new⟩

@[simp] theorem pages_new (node : ℕ) : (new node : MCache BP LP).pages = [] := rfl

/-- `MCache::init`: the same empty stacks, written into the memory the cache is to live in. -/
def init (node : ℕ) : MCache BP LP := ⟨node, ArrayVec.new, ArrayVec.new⟩

@[simp] theorem pages_init (node : ℕ) : (init node : MCache BP LP).pages = [] := rfl

/-- Every page of a cache is a base or a large page at an address aligned to its size, on the
cache's node. -/
theorem mem_pages {c : MCache BP LP} {p : Frame} (hp : p ∈ c.pages) :
    (p.size = BASE_PAGE_SIZE ∨ p.size = LARGE_PAGE_SIZE) ∧ p.base % p.size = 0 ∧
      p.affinity = c.node := by
  simp only [pages, stack_pages, List.mem_append, List.mem_map] at hp
  rcases hp with ⟨paddr, -, rfl⟩ | ⟨paddr, -, rfl⟩
  · exact ⟨Or.inl rfl, paddr.2, rfl⟩
  · exact ⟨Or.inr rfl, paddr.2, rfl⟩

/-- The two base-page loops of `populate`: the base of each page goes on the stack, up to the
first push that fails (`break`). -/
def push_base_pages : PageStack BASE_PAGE_SIZE BP → List PFrame → PageStack BASE_PAGE_SIZE BP
  | stack, [] => stack
  | stack, base_page :: pages =>
      match stack.try_push ⟨base_page.1.base, base_page.2.1⟩ with
      | some stack => push_base_pages stack pages
      | none => stack

/-- The large-page loop of `populate`: while pages are wanted and the frame holds a large page,
one is split off its front and its base pushed, a full stack losing it (`lost_large_pages`).
Returns the stack and the rest of the frame, which stays at a large-page boundary. -/
def push_large_pages : PageStack LARGE_PAGE_SIZE LP → (how_many_large_pages : ℕ) →
    (frame : PFrame) → frame.1.base % LARGE_PAGE_SIZE = 0 → PageStack LARGE_PAGE_SIZE LP × PFrame
  | stack, 0, frame, _ => (stack, frame)
  | stack, how_many_large_pages + 1, frame, hframe =>
      if LARGE_PAGE_SIZE ≤ frame.1.size then
        let large_page := (frame.split_at LARGE_PAGE_SIZE large_page_mod_base_page).1
        let rest := (frame.split_at LARGE_PAGE_SIZE large_page_mod_base_page).2
        let stack := (stack.try_push ⟨large_page.1.base, by
          rw [PFrame.split_at_fst_base]; exact hframe⟩).getD stack
        push_large_pages stack how_many_large_pages rest
          (PFrame.split_at_snd_base_mod (by rw [Nat.add_mod, hframe, Nat.mod_self]; rfl))
      else (stack, frame)

/-- `populate(frame, how_many_large_pages)`: the base pages below the frame's first large-page
boundary, then up to `how_many_large_pages` large pages (at least one), then the rest as base
pages. Pages that do not fit are dropped. -/
def populate (c : MCache BP LP) (frame : PFrame) (how_many_large_pages : ℕ) : MCache BP LP :=
  let how_many_large_pages := if how_many_large_pages = 0 then 1 else how_many_large_pages
  let low_frame := frame.split_at_nearest_large_page_boundary.1
  let base_page_addresses := push_base_pages c.base_page_addresses low_frame.into_base_pages
  let large := push_large_pages c.large_page_addresses how_many_large_pages
    frame.split_at_nearest_large_page_boundary.2
    (PFrame.split_at_nearest_large_page_boundary_snd frame)
  let base_page_addresses := push_base_pages base_page_addresses large.2.into_base_pages
  { c with base_page_addresses, large_page_addresses := large.1 }

/-- `populate_4k_first`: as many large pages as the frame holds beyond what fills the base-page
stack, or one. -/
def populate_4k_first (c : MCache BP LP) (frame : PFrame) : Outcome (MCache BP LP) := do
  let how_many_large_pages ←
    if frame.1.base_pages > BP then
      pure ((frame.1.base_pages - BP) * BASE_PAGE_SIZE / LARGE_PAGE_SIZE)
    else if BP * BASE_PAGE_SIZE ≤ LARGE_PAGE_SIZE then pure 1
    else .panic
  return c.populate frame how_many_large_pages

/-- `populate_2m_first`: 87 % of the frame's large pages as large pages. -/
def populate_2m_first (c : MCache BP LP) (frame : PFrame) : MCache BP LP :=
  c.populate frame (frame.1.size / LARGE_PAGE_SIZE * 87 / 100)

/-- `new_with_frame(node, mem)`. -/
def new_with_frame (node : ℕ) (mem : PFrame) : Outcome (MCache BP LP) :=
  (new node : MCache BP LP).populate_4k_first mem

/-! ## What a population adds -/

theorem stack_pages_cons {size CAP node : ℕ} {stack stack' : PageStack size CAP}
    {paddr : { paddr : ℕ // paddr % size = 0 }} (h : stack.try_push paddr = some stack') :
    stack_pages node stack' = ⟨paddr.1, size, node⟩ :: stack_pages node stack := by
  rw [stack_pages, ArrayVec.items_of_try_push h, List.map_cons, stack_pages]

theorem push_base_pages_spec (node : ℕ) : ∀ (stack : PageStack BASE_PAGE_SIZE BP)
    (pages : List PFrame), ∃ k, stack_pages node (push_base_pages stack pages) =
      ((pages.take k).map fun p => (⟨p.1.base, BASE_PAGE_SIZE, node⟩ : Frame)).reverse ++
        stack_pages node stack
  | stack, [] => ⟨0, rfl⟩
  | stack, page :: pages => by
    rw [push_base_pages]
    split
    · rename_i stack' hpush
      obtain ⟨k, hk⟩ := push_base_pages_spec node stack' pages
      refine ⟨k + 1, ?_⟩
      rw [hk, stack_pages_cons hpush]
      simp
    · exact ⟨0, by simp⟩

/-- The large-page loop pushes some of the large pages it splits off, and the pages it splits
off together with what it leaves of the frame are a carving of the frame. -/
theorem push_large_pages_spec (node : ℕ) : ∀ (stack : PageStack LARGE_PAGE_SIZE LP) (n : ℕ)
    (frame : PFrame) (hframe : frame.1.base % LARGE_PAGE_SIZE = 0), ∃ L : List Frame,
      stack_pages node (push_large_pages stack n frame hframe).1 =
        L.map (fun q => ⟨q.base, LARGE_PAGE_SIZE, node⟩) ++ stack_pages node stack ∧
      (∀ q ∈ L, q.size = LARGE_PAGE_SIZE) ∧
      Frame.Carved [frame.1] (L ++ [(push_large_pages stack n frame hframe).2.1])
  | stack, 0, frame, hframe => ⟨[], rfl, by simp, Carve.Carved.refl (List.pairwise_singleton _ _)⟩
  | stack, n + 1, frame, hframe => by
    rw [push_large_pages]
    split_ifs with hfits
    · dsimp only
      have hlp : (frame.split_at LARGE_PAGE_SIZE large_page_mod_base_page).1.1.base %
          LARGE_PAGE_SIZE = 0 := by
        rw [PFrame.split_at_fst_base]
        exact hframe
      have hrest : (frame.split_at LARGE_PAGE_SIZE large_page_mod_base_page).2.1.base %
          LARGE_PAGE_SIZE = 0 :=
        PFrame.split_at_snd_base_mod (by rw [Nat.add_mod, hframe, Nat.mod_self]; rfl)
      obtain ⟨L, hstack, hsizes, hcarved⟩ :=
        push_large_pages_spec node ((stack.try_push ⟨_, hlp⟩).getD stack) n _ hrest
      have hsplit := PFrame.carved_split_at frame LARGE_PAGE_SIZE large_page_mod_base_page
      -- the large page split off is the frame's front, or the whole frame when it is one page
      have hlarge : (frame.split_at LARGE_PAGE_SIZE large_page_mod_base_page).1.1.size =
          LARGE_PAGE_SIZE := by
        rcases Nat.lt_or_ge LARGE_PAGE_SIZE frame.1.size with hlt | hge
        · rw [PFrame.split_at_fst_of_lt hlt]
        · rw [PFrame.split_at_of_ge hge]
          exact Nat.le_antisymm hge hfits
      have hpieces : Frame.Carved [frame.1]
          ((frame.split_at LARGE_PAGE_SIZE large_page_mod_base_page).1.1 ::
            (L ++ [(push_large_pages ((stack.try_push ⟨_, hlp⟩).getD stack) n _ hrest).2.1])) := by
        refine hsplit.trans (hcarved.cons ?_)
        intro r hr
        rw [List.mem_singleton.mp hr]
        exact Carve.apart_pair.mp hsplit.apart
      cases hpush : stack.try_push ⟨_, hlp⟩ with
      | none =>
          -- a full stack loses the page
          simp only [hpush, Option.getD_none] at hstack hpieces ⊢
          exact ⟨L, hstack, hsizes, hpieces.sublist (List.sublist_cons_self _ _)⟩
      | some stack' =>
          simp only [hpush, Option.getD_some] at hstack hpieces ⊢
          refine ⟨L ++ [(frame.split_at LARGE_PAGE_SIZE large_page_mod_base_page).1.1], ?_, ?_, ?_⟩
          · rw [hstack, stack_pages_cons hpush]
            simp
          · intro q hq
            rcases List.mem_append.mp hq with hq | hq
            · exact hsizes q hq
            · rw [List.mem_singleton.mp hq]
              exact hlarge
          · refine hpieces.perm ?_
            simpa using List.perm_middle.symm
    · exact ⟨[], rfl, by simp, Carve.Carved.refl (List.pairwise_singleton _ _)⟩

theorem map_page_frame {size node : ℕ} {qs : List Frame}
    (h : ∀ q ∈ qs, q.size = size ∧ q.affinity = node) :
    qs.map (fun q => (⟨q.base, size, node⟩ : Frame)) = qs := by
  conv_rhs => rw [← List.map_id qs]
  refine List.map_congr_left fun q hq => ?_
  rw [← (h q hq).1, ← (h q hq).2]
  rfl

@[simp] theorem populate_node (c : MCache BP LP) (frame : PFrame) (n : ℕ) :
    (c.populate frame n).node = c.node := rfl

/-- What `populate` adds to a cache is a carving of the frame, on the cache's node. -/
theorem populate_carved (c : MCache BP LP) (frame : PFrame) (n : ℕ)
    (hnode : 0 < frame.1.size → frame.1.affinity = c.node) :
    (c.populate frame n).node = c.node ∧
      ∃ P, (c.populate frame n).pages.Perm (P ++ c.pages) ∧ Frame.Carved [frame.1] P := by
  refine ⟨rfl, ?_⟩
  set low := frame.split_at_nearest_large_page_boundary.1
  set high := frame.split_at_nearest_large_page_boundary.2
  set large := push_large_pages c.large_page_addresses (if n = 0 then 1 else n) high
    (PFrame.split_at_nearest_large_page_boundary_snd frame)
  have hnear := PFrame.carved_split_at_nearest_large_page_boundary frame
  obtain ⟨k₁, hk₁⟩ := push_base_pages_spec c.node c.base_page_addresses low.into_base_pages
  obtain ⟨k₂, hk₂⟩ := push_base_pages_spec c.node
    (push_base_pages c.base_page_addresses low.into_base_pages) large.2.into_base_pages
  obtain ⟨L, hL, hLsize, hLcarved⟩ := push_large_pages_spec c.node c.large_page_addresses
    (if n = 0 then 1 else n) high (PFrame.split_at_nearest_large_page_boundary_snd frame)
  obtain ⟨hlow, hlow_size⟩ := PFrame.carved_into_base_pages low
  obtain ⟨hrest, hrest_size⟩ := PFrame.carved_into_base_pages large.2
  -- the pieces of the frame that the stacks take
  set B₁ := (low.into_base_pages.take k₁).map (·.1)
  set B₂ := (large.2.into_base_pages.take k₂).map (·.1)
  have hB₁ : Frame.Carved [low.1] B₁ := hlow.sublist ((List.take_sublist _ _).map _)
  have hB₂ : Frame.Carved [large.2.1] B₂ := hrest.sublist ((List.take_sublist _ _).map _)
  have hhigh : Frame.Carved [high.1] (L ++ B₂) :=
    ((hLcarved.perm List.perm_append_comm).refine hB₂).perm List.perm_append_comm
  have hP : Frame.Carved [frame.1] (B₁ ++ (L ++ B₂)) := by
    refine hnear.trans (hB₁.append hhigh ?_)
    intro p₁ hp₁ p₂ hp₂
    rw [List.mem_singleton.mp hp₁, List.mem_singleton.mp hp₂]
    exact Carve.apart_pair.mp hnear.apart
  -- every page taken is nonempty, so it carries the frame's affinity: the cache's node
  have hnodes : ∀ q ∈ B₁ ++ (L ++ B₂), 0 < q.size → q.affinity = c.node := by
    intro q hq hpos
    obtain ⟨p, hp, htag, hsub⟩ := (hP.within q hq).of_nonempty (Frame.range_nonempty hpos)
    rw [List.mem_singleton.mp hp] at htag hsub
    -- the frame holds the page, so it is not empty
    have hframe : 0 < frame.1.size := by
      obtain ⟨x, hx⟩ := (Frame.range_nonempty hpos).mono hsub
      simp only [Frame.range, Set.mem_Ico] at hx
      omega
    exact htag.trans (hnode hframe)
  have hbase_pages : ∀ {B : List PFrame} {k : ℕ}, (∀ p ∈ B, p.1.size = BASE_PAGE_SIZE) →
      (∀ q ∈ (B.take k).map (·.1), q ∈ B₁ ++ (L ++ B₂)) →
      ((B.take k).map fun p => (⟨p.1.base, BASE_PAGE_SIZE, c.node⟩ : Frame)) =
        (B.take k).map (·.1) := by
    intro B k hsize hmem
    have hframes : ∀ q ∈ (B.take k).map (·.1), q.size = BASE_PAGE_SIZE ∧ q.affinity = c.node := by
      intro q hq
      obtain ⟨p, hp, rfl⟩ := List.mem_map.mp hq
      have hs := hsize p (List.mem_of_mem_take hp)
      exact ⟨hs, hnodes _ (hmem _ hq) (by rw [hs]; decide)⟩
    rw [← map_page_frame hframes, List.map_map]
    rfl
  have e₁ := hbase_pages hlow_size fun q hq => List.mem_append_left _ hq
  have e₂ := hbase_pages hrest_size fun q hq =>
    List.mem_append_right _ (List.mem_append_right _ hq)
  have eL : L.map (fun q => (⟨q.base, LARGE_PAGE_SIZE, c.node⟩ : Frame)) = L :=
    map_page_frame fun q hq => ⟨hLsize q hq, hnodes q
      (List.mem_append_right _ (List.mem_append_left _ hq)) (by rw [hLsize q hq]; decide)⟩
  refine ⟨B₁ ++ (L ++ B₂), ?_, hP⟩
  have hpages : (c.populate frame n).pages =
      stack_pages c.node (push_base_pages (push_base_pages c.base_page_addresses
        low.into_base_pages) large.2.into_base_pages) ++ stack_pages c.node large.1 := rfl
  rw [hpages, hk₂, hk₁, hL, e₁, e₂, eL, pages, List.perm_iff_count]
  intro a
  simp only [B₁, B₂, List.count_append, List.count_reverse]
  omega

theorem populate_4k_first_eq {c c' : MCache BP LP} {frame : PFrame}
    (h : c.populate_4k_first frame = .ok c') : ∃ n, c' = c.populate frame n := by
  unfold populate_4k_first at h
  split_ifs at h
  · exact ⟨_, (Outcome.ok.inj h).symm⟩
  · exact ⟨_, (Outcome.ok.inj h).symm⟩
  · simp at h

theorem new_with_frame_carved {node : ℕ} {mem : PFrame} {c : MCache BP LP}
    (h : new_with_frame node mem = .ok c) (hnode : 0 < mem.1.size → mem.1.affinity = node) :
    c.node = node ∧ Frame.Carved [mem.1] c.pages := by
  obtain ⟨n, rfl⟩ := populate_4k_first_eq h
  obtain ⟨hc, P, hperm, hP⟩ := populate_carved (new node) mem n hnode
  rw [pages_new, List.append_nil] at hperm
  exact ⟨hc, hP.perm hperm.symm⟩

theorem allocate_large_page_pages {c c' : MCache BP LP} {frame : Frame}
    (h : c.allocate_large_page = .ok (c', .ok frame)) :
    c'.node = c.node ∧ frame = ⟨frame.base, LARGE_PAGE_SIZE, c.node⟩ ∧
      c.pages.Perm (frame :: c'.pages) := by
  unfold allocate_large_page allocate_page at h
  split at h
  · simp at h
  · rename_i paddr stack hpop
    have hnew := Frame.new_of_aligned (base_page_mod_of_large paddr.2) large_page_mod_base_page c.node
    simp only [hnew, Outcome.ok_bind, Outcome.pure_eq, Outcome.ok.injEq, Prod.mk.injEq,
      Except.ok.injEq] at h
    obtain ⟨rfl, rfl⟩ := h
    refine ⟨rfl, rfl, ?_⟩
    simp only [pages, stack_pages, ArrayVec.items_of_pop hpop, List.map_cons]
    exact List.perm_middle

end MCache

end Nrk.Memory
