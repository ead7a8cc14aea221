import Nrk.Memory.Consistency
import Nrk.Process.NrProcess
import Nrk.Lib.Chunks

/-! # Slices of user memory (`kernel/src/process.rs`)

`UserSlice` and the page checks of `is_accessible` before the kernel touches user memory. -/

namespace Nrk.Process

open Memory

/-- `MAX_PROCESSES`. -/
def MAX_PROCESSES : ℕ := 12

/-- `i32::MAX`. -/
def I32_MAX : ℕ := 2 ^ 31 - 1

/-- `UVAddr`: a virtual address below `KERNEL_BASE`. -/
structure UVAddr where
  inner : ℕ
  lt_kernel_base : inner < KERNEL_BASE
  deriving DecidableEq

/-- `UVAddr::try_from`. -/
def UVAddr.try_from (va : ℕ) : Except KError UVAddr :=
  if h : va < KERNEL_BASE then .ok ⟨va, h⟩ else .error .NotAUserVAddr

theorem UVAddr.try_from_of_lt {va : ℕ} (h : va < KERNEL_BASE) : UVAddr.try_from va = .ok ⟨va, h⟩ :=
  dif_pos h

theorem UVAddr.try_from_of_ge {va : ℕ} (h : ¬ va < KERNEL_BASE) :
    UVAddr.try_from va = .error .NotAUserVAddr :=
  dif_neg h

/-- `UserSlice`. -/
structure UserSlice where
  pid : ℕ
  base : UVAddr
  len : ℕ
  deriving DecidableEq

namespace UserSlice

/-- `UserSlice::new`: no more than `i32::MAX` bytes, not in the first page, and ending below
`KERNEL_BASE`. -/
def new (pid : ℕ) (base : UVAddr) (len : ℕ) : Outcome (Except KError UserSlice) :=
  -- `debug_assert!(pid < MAX_PROCESSES)`
  if ¬ pid < MAX_PROCESSES then .panic
  else if len > I32_MAX then .ok (.error .UserBufferTooLarge)
  -- `checked_add`, then the two bounds
  else if base.inner + len < 2 ^ USIZE_BITS ∧ BASE_PAGE_SIZE ≤ base.inner ∧
      base.inner + len < KERNEL_BASE then .ok (.ok ⟨pid, base, len⟩)
  else .ok (.error .InvalidUserBufferArgs)

/-- One turn of the loop of `is_accessible`: the page at `tocheck` is a user address, resolves,
and has the rights asked for. -/
def check_page (vspace : VSpace) (writeable : Bool) (tocheck : ℕ) :
    Outcome (Except KError Unit) :=
  match UVAddr.try_from tocheck with
  | .error e => .ok (.error e)
  | .ok addr_to_check => do
      match ← vspace.resolve addr_to_check.inner with
      | .error e => return .error e
      | .ok (_paddr, rights) =>
          if writeable && !rights.is_writable then return .error .UserPtMissingWriteAccess
          else if !writeable && !rights.is_readable then return .error .UserPtMissingReadAccess
          else return .ok ()

/-- The loop of `is_accessible`: the first page that fails, or `Ok(())`. -/
def check_pages (vspace : VSpace) (writeable : Bool) : List ℕ → Outcome (Except KError Unit)
  | [] => .ok (.ok ())
  | tocheck :: rest => do
      match ← check_page vspace writeable tocheck with
      | .error e => return .error e
      | .ok () => check_pages vspace writeable rest

/-- `UserSlice::is_accessible`, for a process with pid `pid` and address space `vspace`.
`start` is `base & !(BASE_PAGE_SIZE - 1)`, the start of the page holding `base`. -/
def is_accessible (s : UserSlice) (pid : ℕ) (vspace : VSpace) (current_pid : Except KError ℕ)
    (writeable : Bool) : Outcome (Except KError Unit) :=
  if s.pid ≠ pid then .ok (.error .PidMismatchInProcessArgument)
  else if current_pid.toOption.any (· ≠ pid) then .ok (.error .NotInRightAddressSpaceForReading)
  else do
    let start := s.base.inner - s.base.inner % BASE_PAGE_SIZE
    let end_ ← Outcome.checkedAdd USIZE_BITS s.base.inner s.len
    check_pages vspace writeable (List.stepBy start end_ BASE_PAGE_SIZE)

/-- `UserSlice::with_slice`: `f` runs on the slice once it is accessible for reading. -/
def with_slice {R : Type} (s : UserSlice) (pid : ℕ) (vspace : VSpace)
    (current_pid : Except KError ℕ) (f : ℕ × ℕ → Except KError R) : Outcome (Except KError R) := do
  match ← s.is_accessible pid vspace current_pid false with
  | .error e => return .error e
  | .ok () => return f (s.base.inner, s.len)

/-- `UserSlice::with_slice_mut`: the check passes `writeable = false`, as in `with_slice`. -/
def with_slice_mut {R : Type} (s : UserSlice) (pid : ℕ) (vspace : VSpace)
    (current_pid : Except KError ℕ) (f : ℕ × ℕ → Except KError R) : Outcome (Except KError R) := do
  match ← s.is_accessible pid vspace current_pid false with
  | .error e => return .error e
  | .ok () => return f (s.base.inner, s.len)

/-! ## What the checks establish -/

/-- The base page at `page` overlaps `[base, base + len)`. -/
def Overlaps (base len page : ℕ) : Prop :=
  page % BASE_PAGE_SIZE = 0 ∧ page < base + len ∧ base < page + BASE_PAGE_SIZE

/-- The page at `page` resolves in `vspace` with read rights, or write rights when `writeable`
is set. -/
def PageAllows (vspace : VSpace) (writeable : Bool) (page : ℕ) : Prop :=
  ∃ paddr rights, vspace.resolve page = .ok (.ok (paddr, rights)) ∧
    (if writeable then rights.is_writable else rights.is_readable) = true

theorem mem_pages {base len page : ℕ} :
    page ∈ List.stepBy (base - base % BASE_PAGE_SIZE) (base + len) BASE_PAGE_SIZE ↔
      Overlaps base len page := by
  rw [List.mem_stepBy (by decide), Overlaps]
  simp only [BASE_PAGE_SIZE]
  omega

theorem check_page_eq_ok (vspace : VSpace) (writeable : Bool) (tocheck : ℕ) :
    check_page vspace writeable tocheck = .ok (.ok ()) ↔
      tocheck < KERNEL_BASE ∧ PageAllows vspace writeable tocheck := by
  unfold check_page
  by_cases hk : tocheck < KERNEL_BASE
  swap
  · simp [UVAddr.try_from_of_ge hk, hk]
  simp only [UVAddr.try_from_of_lt hk, hk, true_and, PageAllows]
  rcases hres : vspace.resolve tocheck with ⟨_ | ⟨paddr, rights⟩⟩ | _ <;>
    simp only [Outcome.ok_bind, Outcome.panic_bind]
  · simp
  · cases writeable <;> cases hw : rights.is_writable <;> cases hr : rights.is_readable <;>
      simp [hw, hr]
  · simp

theorem check_pages_eq_ok (vspace : VSpace) (writeable : Bool) (pages : List ℕ) :
    check_pages vspace writeable pages = .ok (.ok ()) ↔
      ∀ page ∈ pages, check_page vspace writeable page = .ok (.ok ()) := by
  induction pages with
  | nil => simp [check_pages]
  | cons tocheck rest ih =>
      simp only [check_pages, List.mem_cons, forall_eq_or_imp]
      rcases check_page vspace writeable tocheck with ⟨_ | ⟨⟩⟩ | _
      · simp
      · simp [ih]
      · simp

/-- `is_accessible` passes exactly when the pids agree, the end does not overflow, and every
base page overlapping the slice is a user page with the rights asked for. -/
theorem is_accessible_eq_ok (s : UserSlice) (pid : ℕ) (vspace : VSpace)
    (current_pid : Except KError ℕ) (writeable : Bool) :
    s.is_accessible pid vspace current_pid writeable = .ok (.ok ()) ↔
      s.pid = pid ∧ (∀ p, current_pid = .ok p → p = pid) ∧
      s.base.inner + s.len < 2 ^ USIZE_BITS ∧
      ∀ page, Overlaps s.base.inner s.len page →
        page < KERNEL_BASE ∧ PageAllows vspace writeable page := by
  unfold is_accessible
  by_cases hpid : s.pid = pid
  swap
  · simp [hpid]
  by_cases hcur : ∀ p, current_pid = .ok p → p = pid
  swap
  · simp only [not_forall] at hcur
    obtain ⟨p, rfl, hp⟩ := hcur
    simp [hpid, hp, Except.toOption]
  have hany : current_pid.toOption.any (· ≠ pid) = false := by
    cases current_pid with
    | error e => rfl
    | ok p => simpa [Except.toOption] using hcur p rfl
  rw [if_neg (not_not.mpr hpid), if_neg (by simpa using hany)]
  by_cases hend : s.base.inner + s.len < 2 ^ USIZE_BITS
  swap
  · rw [Outcome.checkedAdd_of_le (Nat.le_of_not_lt hend)]
    simp [hend]
  rw [Outcome.checkedAdd_of_lt hend, Outcome.ok_bind, check_pages_eq_ok]
  simp only [hpid, hend, true_and]
  -- the loop's pages are the overlapping ones
  constructor
  · intro h
    exact ⟨hcur, fun page hov =>
      (check_page_eq_ok vspace writeable page).mp (h page (mem_pages.mpr hov))⟩
  · intro h page hmem
    exact (check_page_eq_ok vspace writeable page).mpr (h.2 page (mem_pages.mp hmem))

/-- A slice that `new` accepted is the one asked for, ends below `KERNEL_BASE`, and is not in
the first page. -/
theorem new_eq_ok {pid : ℕ} {base : UVAddr} {len : ℕ} {s : UserSlice}
    (h : new pid base len = .ok (.ok s)) :
    s = ⟨pid, base, len⟩ ∧ BASE_PAGE_SIZE ≤ base.inner ∧ base.inner + len < KERNEL_BASE := by
  unfold new at h
  split_ifs at h with hpid hlen hok <;>
    simp only [Outcome.ok.injEq, Except.ok.injEq, reduceCtorEq] at h
  exact ⟨h.symm, hok.2⟩

theorem with_slice_of_accessible {s : UserSlice} {pid : ℕ} {vspace : VSpace}
    {current_pid : Except KError ℕ} (h : s.is_accessible pid vspace current_pid false = .ok (.ok ()))
    {R : Type} (f : ℕ × ℕ → Except KError R) :
    s.with_slice pid vspace current_pid f = .ok (f (s.base.inner, s.len)) := by
  rw [with_slice, h]
  rfl

theorem with_slice_of_error {s : UserSlice} {pid : ℕ} {vspace : VSpace}
    {current_pid : Except KError ℕ} {e : KError}
    (h : s.is_accessible pid vspace current_pid false = .ok (.error e))
    {R : Type} (f : ℕ × ℕ → Except KError R) :
    s.with_slice pid vspace current_pid f = .ok (.error e) := by
  rw [with_slice, h]
  rfl

theorem with_slice_mut_eq_with_slice (s : UserSlice) (pid : ℕ) (vspace : VSpace)
    (current_pid : Except KError ℕ) {R : Type} (f : ℕ × ℕ → Except KError R) :
    s.with_slice_mut pid vspace current_pid f = s.with_slice pid vspace current_pid f := rfl

/-- A slice that `new` accepted passes the read check when the pids match and every page
overlapping it resolves readable. -/
theorem is_accessible_of_readable {pid : ℕ} {base : UVAddr} {len : ℕ} {s : UserSlice}
    (hnew : new pid base len = .ok (.ok s)) (vspace : VSpace) {current_pid : Except KError ℕ}
    (hcur : ∀ p, current_pid = .ok p → p = pid)
    (hread : ∀ page, Overlaps base.inner len page → PageAllows vspace false page) :
    s.is_accessible pid vspace current_pid false = .ok (.ok ()) ∧ s.base = base ∧ s.len = len := by
  obtain ⟨rfl, -, hend⟩ := new_eq_ok hnew
  refine ⟨(is_accessible_eq_ok _ pid vspace current_pid false).mpr
    ⟨rfl, hcur, lt_trans hend (by decide), fun page hov => ⟨?_, hread page hov⟩⟩, rfl, rfl⟩
  -- every overlapping page starts below the end of the slice
  exact lt_trans hov.2.1 hend

/-- `with_slice_mut` asks for read rights only: on a slice that `new` accepted, with matching
pids, `f` runs as soon as every page overlapping the slice resolves readable, whatever its
write rights. -/
theorem with_slice_mut_read_only {pid : ℕ} {base : UVAddr} {len : ℕ} {s : UserSlice}
    (hnew : new pid base len = .ok (.ok s)) (vspace : VSpace) {current_pid : Except KError ℕ}
    (hcur : ∀ p, current_pid = .ok p → p = pid)
    (hread : ∀ page, Overlaps base.inner len page → PageAllows vspace false page)
    {R : Type} (f : ℕ × ℕ → Except KError R) :
    s.with_slice_mut pid vspace current_pid f = .ok (f (base.inner, len)) := by
  obtain ⟨hacc, rfl, rfl⟩ := is_accessible_of_readable hnew vspace hcur hread
  exact with_slice_of_accessible hacc f

/-- A new address space with one read-only page at `0x1000`, and a slice over that page:
`with_slice_mut` runs `f`. -/
theorem with_slice_mut_on_read_only_page :
    ∃ vspace : VSpace,
      vspace.resolve BASE_PAGE_SIZE = .ok (.ok (0, MapAction.user)) ∧
      MapAction.user.is_writable = false ∧
      (⟨0, ⟨BASE_PAGE_SIZE, by decide⟩, BASE_PAGE_SIZE⟩ : UserSlice).with_slice_mut 0 vspace
        (.ok 0) (fun slice => .ok slice) = .ok (.ok (BASE_PAGE_SIZE, BASE_PAGE_SIZE)) := by
  have hda := DA.grants_succ_mul
  obtain ⟨vs, r, a', -, hc, hok⟩ := (VSpace.consistent_new hda fun _ => true).map_frame
    BASE_PAGE_SIZE ⟨0, BASE_PAGE_SIZE, 0⟩ MapAction.user (by decide) (by decide)
    (fun _ _ _ _ => PageTable.mapGuard_of_lt (by decide)) Allocator.unlimited
  obtain ⟨-, hrec⟩ := hok (by decide) (by decide) (by decide) (by simp [VSpace.new]) rfl
  have hmem : (BASE_PAGE_SIZE, ⟨⟨0, BASE_PAGE_SIZE, 0⟩, MapAction.user⟩) ∈ vs.mappings.entries := by
    rw [hrec]
    exact SortedMap.mem_insert.mpr (.inl rfl)
  -- the one overlapping page resolves to frame 0 with the rights it was mapped with
  have hres : ∀ page, Overlaps BASE_PAGE_SIZE BASE_PAGE_SIZE page →
      vs.resolve page = .ok (.ok (0, MapAction.user)) := by
    intro page hov
    obtain rfl : page = BASE_PAGE_SIZE := by
      simp only [Overlaps, BASE_PAGE_SIZE] at hov ⊢
      omega
    rw [hc.resolve_mapped hmem ⟨le_rfl, by decide⟩]
    rfl
  refine ⟨vs, hres _ ⟨by decide, by decide, by decide⟩, rfl, ?_⟩
  exact with_slice_mut_read_only
    (show new 0 ⟨BASE_PAGE_SIZE, by decide⟩ BASE_PAGE_SIZE =
      .ok (.ok ⟨0, ⟨BASE_PAGE_SIZE, by decide⟩, BASE_PAGE_SIZE⟩) by decide)
    vs (fun _ h => (Except.ok.inj h).symm) (fun page hov => ⟨0, MapAction.user, hres page hov, rfl⟩)
    _

end UserSlice

namespace NrProcess

/-- The `WriteSlice` arm of `NrProcess::dispatch`: `kbuf` is copied into the slice. -/
def write_slice (pid : ℕ) (vspace : VSpace) (current_pid : Except KError ℕ) (uslice : UserSlice)
    (kbuf : List UInt8) : Outcome (Except KError ProcessResult) := do
  if uslice.len ≠ kbuf.length then return .error .SliceLengthMismatchForWriting
  -- `ubuf.copy_from_slice(kbuf)`
  match ← uslice.with_slice_mut pid vspace current_pid fun _ => .ok () with
  | .error e => return .error e
  | .ok () => return .ok .Ok

/-- A `WriteSlice` of the right length into a slice whose pages are all readable returns `Ok`:
the copy is made also where the process has no write right. -/
theorem write_slice_of_readable {pid : ℕ} {base : UVAddr} {len : ℕ} {s : UserSlice}
    (hnew : UserSlice.new pid base len = .ok (.ok s)) (vspace : VSpace)
    {current_pid : Except KError ℕ} (hcur : ∀ p, current_pid = .ok p → p = pid)
    (hread : ∀ page, UserSlice.Overlaps base.inner len page →
      UserSlice.PageAllows vspace false page)
    {kbuf : List UInt8} (hlen : kbuf.length = len) :
    write_slice pid vspace current_pid s kbuf = .ok (.ok .Ok) := by
  obtain ⟨hacc, -, hs⟩ := UserSlice.is_accessible_of_readable hnew vspace hcur hread
  rw [write_slice, if_neg (by rw [hs, hlen]; exact not_ne_iff.mpr rfl)]
  simp only [UserSlice.with_slice_mut, hacc]
  rfl

end NrProcess

end Nrk.Process
