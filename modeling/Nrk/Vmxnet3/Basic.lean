import Nrk.Basic

/-! # The vmxnet3 driver's shared pieces (`lib/vmxnet3/src`)

Ring sizes, descriptors, I/O buffers, and the cursor step with its generation flip. -/

namespace Nrk.Vmxnet3

def VMXNET3_MAX_TX_NDESC : ℕ := 4096
def VMXNET3_MIN_TX_NDESC : ℕ := 32
def VMXNET3_MAX_RX_NDESC : ℕ := 2048
def VMXNET3_MIN_RX_NDESC : ℕ := 32
def VMXNET3_TX_MAXSEGS : ℕ := 32
def VMXNET3_TX_MAXSEGSIZE : ℕ := 16383
def VMXNET3_INIT_GEN : ℕ := 1
def VMXNET3_BTYPE_HEAD : ℕ := 0
def VMXNET3_BTYPE_BODY : ℕ := 1

/-- `BoundedUSize::<LOW, HIGH>::new(n)`: `n.min(HIGH).max(LOW)`. -/
def BoundedUSize.new (LOW HIGH n : ℕ) : ℕ := max (min n HIGH) LOW

theorem BoundedUSize.new_of_le {LOW HIGH n : ℕ} (hlo : LOW ≤ n) (hhi : n ≤ HIGH) :
    BoundedUSize.new LOW HIGH n = n := by
  simp [BoundedUSize.new, hlo, hhi]

/-- `driverkit::iomem::IOBuf`: a buffer at a physical address, of `len` bytes. -/
structure IOBuf where
  paddr : ℕ
  len : ℕ
  deriving DecidableEq, Repr

/-- `IOBuf::truncate`: the buffer keeps its first `n` bytes. -/
def IOBuf.truncate (b : IOBuf) (n : ℕ) : IOBuf := { b with len := min b.len n }

/-- `driverkit::iomem::IOBufChain`: the segments of one packet, and its flags. -/
structure IOBufChain where
  segments : List IOBuf
  flags : ℕ
  deriving DecidableEq, Repr

/-- `DevQueueError`, with the variant that the queues return. -/
inductive DevQueueError where
  | QueueEmpty
  deriving DecidableEq, Repr

/-- `VMXNet3Error`, with the variant that the queues' constructors return. -/
inductive VMXNet3Error where
  | OutOfMemory1
  deriving DecidableEq, Repr

/-- `try_reserve_exact(n)` on a new `Vec` or `VecDeque`: an allocation request, except for
`n = 0`, which allocates nothing. -/
def try_reserve_exact (n : ℕ) : AllocM Bool :=
  if n = 0 then pure true else AllocM.request

/-- What `vmxnet3_txring::new`, `vmxnet3_rxring::new` and the two completion rings' `new` have
in common: `try_reserve_exact(ndesc)?`, then `ndesc` pushes of the default descriptor. -/
def descriptors_new {α : Type} (d : α) (ndesc : ℕ) : AllocM (Except VMXNet3Error (List α)) := do
  if (← try_reserve_exact ndesc) then return .ok (List.replicate ndesc d)
  else return .error .OutOfMemory1

theorem run_descriptors_new {α : Type} {d : α} {ndesc : ℕ} {a a' : Allocator} {ds : List α}
    (h : (descriptors_new d ndesc).run a = .ok (.ok ds, a')) : ds = List.replicate ndesc d := by
  rw [descriptors_new, AllocM.run_bind_eq_ok] at h
  obtain ⟨granted, a₁, -, h⟩ := h
  cases granted with
  | false => simp at h
  | true =>
      simp only [if_true, StateT.run_pure, Outcome.pure_eq, Outcome.ok.injEq, Prod.mk.injEq,
        Except.ok.injEq] at h
      exact h.1.symm

/-- A cursor's step over a ring of `ndesc` entries, as every loop of the queues writes it:
`idx += 1; if idx == ndesc { idx = 0; gen ^= 1 }`. -/
def advance (ndesc idx gen : ℕ) : ℕ × ℕ :=
  if idx + 1 = ndesc then (0, gen ^^^ 1) else (idx + 1, gen)

theorem advance_of_lt {ndesc idx gen : ℕ} (h : idx + 1 < ndesc) :
    advance ndesc idx gen = (idx + 1, gen) := by
  simp [advance, Nat.ne_of_lt h]

theorem advance_of_eq {ndesc idx gen : ℕ} (h : idx + 1 = ndesc) :
    advance ndesc idx gen = (0, gen ^^^ 1) := by
  simp [advance, h]

theorem advance_fst {ndesc idx gen : ℕ} (h : idx < ndesc) :
    (advance ndesc idx gen).1 = (idx + 1) % ndesc := by
  rcases Nat.lt_or_ge (idx + 1) ndesc with hlt | hge
  · rw [advance_of_lt hlt, Nat.mod_eq_of_lt hlt]
  · have heq : idx + 1 = ndesc := by omega
    rw [advance_of_eq heq, heq, Nat.mod_self]

/-! ## Cursors as absolute positions

A cursor that has made `p` steps from the start of a ring of `n` entries stands at `p % n`, in
lap `p / n`, whose generation is the initial one flipped once per lap. Two positions less than
a lap apart are on different entries, and an entry's generation tells its lap from the next. -/

/-- The generation of the lap that absolute position `p` is in. -/
def lap_gen (n p : ℕ) : ℕ := VMXNET3_INIT_GEN ^^^ (p / n % 2)

theorem lap_gen_lt (n p : ℕ) : lap_gen n p < 2 := by
  unfold lap_gen VMXNET3_INIT_GEN
  rcases Nat.mod_two_eq_zero_or_one (p / n) with h | h <;> simp [h]

theorem lap_gen_mod_two (n p : ℕ) : lap_gen n p % 2 = lap_gen n p :=
  Nat.mod_eq_of_lt (lap_gen_lt n p)

theorem lap_gen_add (n p : ℕ) (hn : 0 < n) : lap_gen n (p + n) = lap_gen n p ^^^ 1 := by
  unfold lap_gen VMXNET3_INIT_GEN
  rw [Nat.add_div_right p hn]
  rcases Nat.mod_two_eq_zero_or_one (p / n) with h | h
  · rw [Nat.succ_mod_two_eq_one_iff.mpr h, h]
    rfl
  · rw [Nat.succ_mod_two_eq_zero_iff.mpr h, h]
    rfl

theorem lap_gen_add_ne (n p : ℕ) (hn : 0 < n) : lap_gen n (p + n) ≠ lap_gen n p := by
  rw [lap_gen_add n p hn]
  have h := lap_gen_lt n p
  interval_cases lap_gen n p <;> decide

theorem lap_gen_of_lt {n p : ℕ} (h : p < n) : lap_gen n p = VMXNET3_INIT_GEN := by
  simp [lap_gen, Nat.div_eq_of_lt h]

theorem lap_gen_of_div_eq {n p p' : ℕ} (h : p / n = p' / n) : lap_gen n p = lap_gen n p' := by
  simp [lap_gen, h]

theorem advance_lap {n : ℕ} (hn : 0 < n) (p : ℕ) :
    advance n (p % n) (lap_gen n p) = ((p + 1) % n, lap_gen n (p + 1)) := by
  obtain ⟨q, r, hr, rfl⟩ : ∃ q r, r < n ∧ p = n * q + r :=
    ⟨p / n, p % n, Nat.mod_lt p hn, (Nat.div_add_mod p n).symm⟩
  have hdiv : (n * q + r) / n = q := by
    rw [Nat.mul_add_div hn, Nat.div_eq_of_lt hr, Nat.add_zero]
  rw [Nat.mul_add_mod, Nat.mod_eq_of_lt hr]
  rcases Nat.lt_or_ge (r + 1) n with h | h
  · -- inside the lap
    have hdiv' : (n * q + r + 1) / n = q := by
      rw [Nat.add_assoc, Nat.mul_add_div hn, Nat.div_eq_of_lt h, Nat.add_zero]
    rw [advance_of_lt h, Nat.add_assoc, Nat.mul_add_mod, Nat.mod_eq_of_lt h, ← Nat.add_assoc,
      lap_gen_of_div_eq (hdiv'.trans hdiv.symm)]
  · -- the last entry: the next lap starts
    have heq : r + 1 = n := by omega
    have hdiv' : n * q / n = (n * q + r) / n := by
      rw [hdiv, Nat.mul_div_cancel_left q hn]
    rw [advance_of_eq heq, Nat.add_assoc, heq, Nat.add_mod_right, Nat.mul_mod_right,
      lap_gen_add n _ hn, lap_gen_of_div_eq hdiv']

theorem mod_ne_of_lt_of_lt {n a b : ℕ} (hab : a < b) (hba : b < a + n) : a % n ≠ b % n := by
  intro h
  have hdvd : n ∣ b - a := (Nat.modEq_iff_dvd' hab.le).mp h
  have hpos : 0 < b - a := by omega
  have hle := Nat.le_of_dvd hpos hdvd
  omega

/-- `x.wrapping_sub(y) % n` on words, for a ring size that divides the word size: the difference
modulo `n`. -/
theorem wrapping_sub_mod {n x y z : ℕ} (hn : n ∣ 2 ^ USIZE_BITS) (hy : y ≤ x + 2 ^ USIZE_BITS)
    (hz : x ≡ z + y [MOD n]) : (x + 2 ^ USIZE_BITS - y) % 2 ^ USIZE_BITS % n = z % n := by
  rw [Nat.mod_mod_of_dvd _ hn]
  have hw : x + 2 ^ USIZE_BITS ≡ z + y [MOD n] := by
    have h0 : 2 ^ USIZE_BITS ≡ 0 [MOD n] := Nat.modEq_zero_iff_dvd.mpr hn
    simpa using (Nat.ModEq.add_left x h0).trans hz
  rw [← Nat.sub_add_cancel hy] at hw
  exact Nat.ModEq.add_right_cancel' y hw

end Nrk.Vmxnet3
