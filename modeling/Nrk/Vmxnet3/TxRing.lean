import Nrk.Vmxnet3.TxFifo

/-! # The transmit queue's loops, over absolute positions -/

namespace Nrk.Vmxnet3

/-! ## Counting -/

/-- `count` of two cursors `d < n` absolute positions apart is `d`, on a ring whose size is a
power of two dividing the word size. -/
theorem count_eq {n T d : ℕ} (hpow : n.isPowerOfTwo) (hn : n ∣ 2 ^ USIZE_BITS) (hd : d < n) :
    count (T % n) ((T + d) % n) n = d := by
  obtain ⟨k, rfl⟩ := hpow
  have hT : T % 2 ^ k < 2 ^ k := Nat.mod_lt T (Nat.two_pow_pos k)
  have hk : 2 ^ k ≤ 2 ^ USIZE_BITS := Nat.le_of_dvd (Nat.two_pow_pos _) hn
  have hz : (T + d) % 2 ^ k ≡ d + T % 2 ^ k [MOD 2 ^ k] := by
    rw [Nat.add_comm d]
    exact (Nat.mod_modEq _ _).trans (Nat.ModEq.add_right d (Nat.mod_modEq T _).symm)
  rw [count, Nat.and_two_pow_sub_one_eq_mod, wrapping_sub_mod hn (by omega) hz,
    Nat.mod_eq_of_lt hd]

/-- The index `enqueue` records, `pidx_head.wrapping_sub(1) % ndesc`, is that of the descriptor
before the head. -/
theorem recorded_index {n e : ℕ} (hn : n ∣ 2 ^ USIZE_BITS) (he : 0 < e) :
    (e % n + 2 ^ USIZE_BITS - 1) % 2 ^ USIZE_BITS % n = (e - 1) % n := by
  apply wrapping_sub_mod hn (le_add_left Nat.one_le_two_pow)
  rw [Nat.sub_add_cancel he]
  exact Nat.mod_modEq e n

/-- A position outside `[p, p + len)` and less than a lap from it is on none of the entries of
`p + j`, `j < len`. -/
theorem mod_ne_of_outside {n p len q : ℕ} (hout : q < p ∨ p + len ≤ q) (hlo : p + len ≤ q + n)
    (hhi : q < p + n) : ∀ j < len, (p + j) % n ≠ q % n := by
  intro j hj
  rcases hout with h | h
  · exact (mod_ne_of_lt_of_lt (by omega) (by omega)).symm
  · exact mod_ne_of_lt_of_lt (by omega) (by omega)

/-! ## Posting the segments of a chain -/

theorem Vmxnet3Txdesc.post_eq (d : Vmxnet3Txdesc) (seg : IOBuf) (gen : ℕ) (last : Bool)
    (flags : ℕ) : d.post seg gen last flags = (default : Vmxnet3Txdesc).post seg gen last flags := by
  cases last <;> rfl

/-- Flipping the generation of a descriptor posted with the other generation gives the
descriptor posted with this one. -/
theorem Vmxnet3Txdesc.post_set_gen_flip {g : ℕ} (hg : g < 2) (d : Vmxnet3Txdesc) (seg : IOBuf)
    (last : Bool) (flags : ℕ) :
    (d.post seg (g ^^^ 1) last flags).set_gen ((d.post seg (g ^^^ 1) last flags).gen ^^^ 1) =
      d.post seg g last flags := by
  cases d
  interval_cases g <;> cases last <;> simp [Vmxnet3Txdesc.post, Vmxnet3Txdesc.set_gen,
    Vmxnet3Txdesc.set_eop, Vmxnet3Txdesc.set_compreq, Vmxnet3Txdesc.set_len]

@[simp] theorem Vmxnet3Txdesc.post_gen (d : Vmxnet3Txdesc) (seg : IOBuf) (gen : ℕ) (last : Bool)
    (flags : ℕ) : (d.post seg gen last flags).gen = gen % 2 := by
  cases last <;> rfl

@[simp] theorem Vmxnet3Txdesc.post_addr (d : Vmxnet3Txdesc) (seg : IOBuf) (gen : ℕ) (last : Bool)
    (flags : ℕ) : (d.post seg gen last flags).addr = seg.paddr := by
  cases last <;> rfl

@[simp] theorem Vmxnet3Txdesc.post_len (d : Vmxnet3Txdesc) (seg : IOBuf) (gen : ℕ) (last : Bool)
    (flags : ℕ) : (d.post seg gen last flags).len = seg.len % 2 ^ 14 := by
  cases last <;> rfl

@[simp] theorem Vmxnet3Txdesc.post_eop (d : Vmxnet3Txdesc) (seg : IOBuf) (gen : ℕ) (last : Bool)
    (flags : ℕ) : (d.post seg gen last flags).eop = if last then 1 else 0 := by
  cases last <;> rfl

/-- What the loop of `enqueue` leaves on the descriptors: segment `j` of `segs` on the entry of
absolute position `p + j`, the first written with `gen` and the others with their lap's
generation. -/
def post_all (n flags : ℕ) :
    List IOBuf → List Vmxnet3Txdesc → ℕ → ℕ → List Vmxnet3Txdesc
  | [], txd, _, _ => txd
  | seg :: segs, txd, p, gen =>
      post_all n flags segs
        (txd.set (p % n) ((default : Vmxnet3Txdesc).post seg gen segs.isEmpty flags))
        (p + 1) (lap_gen n (p + 1))

section PostAll

variable {n flags : ℕ}

@[simp] theorem length_post_all : ∀ (segs : List IOBuf) (txd : List Vmxnet3Txdesc) (p gen : ℕ),
    (post_all n flags segs txd p gen).length = txd.length
  | [], _, _, _ => rfl
  | _ :: segs, txd, p, _ => by
      rw [post_all, length_post_all segs, List.length_set]

theorem post_all_getElem?_of_ne : ∀ (segs : List IOBuf) (txd : List Vmxnet3Txdesc) (p gen i : ℕ),
    (∀ j < segs.length, (p + j) % n ≠ i) → (post_all n flags segs txd p gen)[i]? = txd[i]?
  | [], _, _, _, _, _ => rfl
  | _ :: segs, txd, p, _, i, hi => by
      have h0 : p % n ≠ i := by simpa using hi 0 (by simp)
      rw [post_all, post_all_getElem?_of_ne segs _ (p + 1) _ i, List.getElem?_set_ne h0]
      intro j hj
      rw [Nat.add_right_comm]
      exact hi (j + 1) (by simp [hj])

theorem post_all_set : ∀ (segs : List IOBuf) (txd : List Vmxnet3Txdesc) (p gen i : ℕ)
    (x : Vmxnet3Txdesc), (∀ j < segs.length, (p + j) % n ≠ i) →
      post_all n flags segs (txd.set i x) p gen = (post_all n flags segs txd p gen).set i x
  | [], _, _, _, _, _, _ => rfl
  | _ :: segs, txd, p, _, i, x, hi => by
      have hshift : ∀ j < segs.length, (p + 1 + j) % n ≠ i := by
        intro j hj
        rw [Nat.add_right_comm]
        exact hi (j + 1) (by simp [hj])
      have h0 : p % n ≠ i := by simpa using hi 0 (by simp)
      rw [post_all, post_all, List.set_comm _ _ h0.symm,
        post_all_set segs _ (p + 1) _ i x hshift]

theorem post_all_getElem? (hn : 0 < n) :
    ∀ (segs : List IOBuf) (txd : List Vmxnet3Txdesc) (p gen j : ℕ), txd.length = n →
      segs.length ≤ n → (hj : j < segs.length) →
      (post_all n flags segs txd p gen)[(p + j) % n]? =
        some ((default : Vmxnet3Txdesc).post segs[j] (if j = 0 then gen else lap_gen n (p + j))
          (segs.drop (j + 1)).isEmpty flags)
  | [], _, _, _, _, _, _, hj => absurd hj (Nat.not_lt_zero _)
  | seg :: segs, txd, p, gen, 0, hlen, hsegs, _ => by
      have hout : ∀ j < segs.length, (p + 1 + j) % n ≠ p % n :=
        mod_ne_of_outside (Or.inl (by omega)) (by simp at hsegs; omega) (by omega)
      rw [Nat.add_zero, post_all, post_all_getElem?_of_ne segs _ _ _ _ hout,
        List.getElem?_set_self (by rw [hlen]; exact Nat.mod_lt p hn)]
      simp
  | seg :: segs, txd, p, gen, j + 1, hlen, hsegs, hj => by
      have hj' : j < segs.length := by simpa using hj
      rw [post_all, show p + (j + 1) = p + 1 + j by omega,
        post_all_getElem? hn segs _ (p + 1) _ j (by rw [List.length_set, hlen])
          (by simp at hsegs; omega) hj']
      cases j <;> simp

/-- Posted with the generation of its first lap, every descriptor of the chain has the
generation of its position. -/
theorem post_all_gen (hn : 0 < n) {segs : List IOBuf} {txd : List Vmxnet3Txdesc} {p j : ℕ}
    (hlen : txd.length = n) (hsegs : segs.length ≤ n) (hj : j < segs.length)
    {d : Vmxnet3Txdesc} (hd : (post_all n flags segs txd p (lap_gen n p))[(p + j) % n]? = some d) :
    d.gen = lap_gen n (p + j) := by
  rw [post_all_getElem? hn segs txd p _ j hlen hsegs hj, Option.some.injEq] at hd
  subst hd
  cases j <;> simp [lap_gen_mod_two]

/-- `enqueue` posts the first descriptor with the other generation and flips it last: that is
the loop run with the generation of the first descriptor's lap. -/
theorem post_all_flip_first {g : ℕ} (hg : g < 2) (seg : IOBuf) (segs : List IOBuf)
    (txd : List Vmxnet3Txdesc) (p : ℕ) (hsegs : segs.length < n) :
    (post_all n flags (seg :: segs) txd p (g ^^^ 1)).set (p % n)
        (((default : Vmxnet3Txdesc).post seg (g ^^^ 1) segs.isEmpty flags).set_gen
          (((default : Vmxnet3Txdesc).post seg (g ^^^ 1) segs.isEmpty flags).gen ^^^ 1)) =
      post_all n flags (seg :: segs) txd p g := by
  have hout : ∀ j < segs.length, (p + 1 + j) % n ≠ p % n :=
    mod_ne_of_outside (Or.inl (by omega)) (by omega) (by omega)
  rw [post_all, post_all, ← post_all_set segs _ _ _ _ _ hout, List.set_set,
    Vmxnet3Txdesc.post_set_gen_flip hg]

end PostAll

/-- The loop of `enqueue` over a chain's segments, with the head at absolute position `p` and the
tail at `T`, no more than a lap behind the chain's end: it neither finds the ring full nor
panics, and leaves the head and the ring's generation at the chain's end. -/
theorem post_segments_eq {n tail flags T : ℕ} (hpow : n.isPowerOfTwo)
    (hdvd : n ∣ 2 ^ USIZE_BITS) (htail : tail = T % n) :
    ∀ (segs : List IOBuf) (txr : Vmxnet3Txring) (p gen : ℕ), txr.vxtxr_gen = lap_gen n p →
      txr.vxtxr_txd.length = n → T ≤ p → p + segs.length < T + n →
      (∀ seg ∈ segs, seg.len < 2 ^ 32) →
      TxQueue.post_segments n tail flags segs txr (p % n) gen =
        .ok (⟨lap_gen n (p + segs.length), post_all n flags segs txr.vxtxr_txd p gen⟩,
          (p + segs.length) % n)
  | [], txr, p, gen, hgen, _, _, _, _ => by
      simp [TxQueue.post_segments, post_all, ← hgen]
  | seg :: segs, txr, p, gen, hgen, hlen, hTp, hend, hseg => by
      have hn : 0 < n := Nat.pos_of_isPowerOfTwo hpow
      -- the inlined `is_full()` sees `p - T` entries in use, fewer than `n - 1`
      have hcount : count tail (p % n) n = p - T := by
        rw [htail, show p = T + (p - T) by omega, Nat.add_sub_cancel_left]
        exact count_eq hpow hdvd (by simp at hend; omega)
      have hroom : n - (p - T) ≠ 1 := by simp at hend; omega
      obtain ⟨d, hd⟩ : ∃ d, txr.vxtxr_txd[p % n]? = some d :=
        ⟨_, List.getElem?_eq_getElem (by rw [hlen]; exact Nat.mod_lt p hn)⟩
      have hlen' : seg.len < 2 ^ 32 := hseg seg List.mem_cons_self
      have ih := @post_segments_eq n tail flags T hpow hdvd htail segs
        ⟨lap_gen n (p + 1),
          txr.vxtxr_txd.set (p % n) ((default : Vmxnet3Txdesc).post seg gen segs.isEmpty flags)⟩
        (p + 1) (lap_gen n (p + 1)) rfl (by rw [List.length_set, hlen]) (by omega)
        (by simp at hend; omega) (fun s hs => hseg s (List.mem_cons_of_mem seg hs))
      rw [show p + 1 + segs.length = p + (segs.length + 1) by omega] at ih
      rw [TxQueue.post_segments, hcount, Outcome.checkedSub_of_le (by simp at hend; omega)]
      simp only [Outcome.ok_bind, hroom, if_false, hd, Nat.not_le.mpr hlen', hgen,
        advance_lap hn, Vmxnet3Txdesc.post_eq d, ih, post_all, List.length_cons]

/-! ## What the device reads -/

/-- The descriptors from absolute position `p` on carry `segs`: each one's buffer, and `eop` on
the last one only. -/
def Carries (txd : List Vmxnet3Txdesc) (n : ℕ) : ℕ → List IOBuf → Prop
  | _, [] => True
  | p, seg :: segs =>
      (∀ d, txd[p % n]? = some d →
        (⟨d.addr, d.len⟩ : IOBuf) = seg ∧ d.eop = if segs.isEmpty then 1 else 0) ∧
      Carries txd n (p + 1) segs

/-- The descriptors from absolute position `p` on carry the chains `cs`, one after another. -/
def CarriesAll (txd : List Vmxnet3Txdesc) (n : ℕ) : ℕ → List IOBufChain → Prop
  | _, [] => True
  | p, c :: cs => Carries txd n p c.segments ∧ CarriesAll txd n (p + c.segments.length) cs

theorem carriesAll_append {txd : List Vmxnet3Txdesc} {n : ℕ} :
    ∀ (p : ℕ) (cs cs' : List IOBufChain),
      CarriesAll txd n p (cs ++ cs') ↔ CarriesAll txd n p cs ∧ CarriesAll txd n (p + descs cs) cs'
  | p, [], cs' => by simp [CarriesAll]
  | p, c :: cs, cs' => by
      simp only [List.cons_append, CarriesAll, descs_cons, carriesAll_append _ cs cs',
        Nat.add_assoc, and_assoc]

theorem Carries.congr {txd txd' : List Vmxnet3Txdesc} {n : ℕ} :
    ∀ {p : ℕ} {segs : List IOBuf}, (∀ j < segs.length, txd'[(p + j) % n]? = txd[(p + j) % n]?) →
      Carries txd n p segs → Carries txd' n p segs
  | _, [], _, _ => trivial
  | p, _ :: segs, heq, ⟨hd, hrest⟩ => by
      have h0 : txd'[p % n]? = txd[p % n]? := by simpa using heq 0 (by simp)
      refine ⟨fun d hd' => hd d (by rw [← h0]; exact hd'), ?_⟩
      refine Carries.congr (fun j hj => ?_) hrest
      rw [Nat.add_right_comm]
      exact heq (j + 1) (by simp [hj])

theorem CarriesAll.congr {txd txd' : List Vmxnet3Txdesc} {n : ℕ} :
    ∀ {p : ℕ} {cs : List IOBufChain}, (∀ j < descs cs, txd'[(p + j) % n]? = txd[(p + j) % n]?) →
      CarriesAll txd n p cs → CarriesAll txd' n p cs
  | _, [], _, _ => trivial
  | p, c :: cs, heq, ⟨hc, hrest⟩ => by
      refine ⟨Carries.congr (fun j hj => heq j (by simp; omega)) hc, ?_⟩
      refine CarriesAll.congr (fun j hj => ?_) hrest
      rw [Nat.add_assoc]
      exact heq _ (by simp; omega)

/-- What the loop of `enqueue` writes carries the chain, when no segment is longer than the
14 bits of a descriptor's length. -/
theorem carries_post_all {n flags : ℕ} (hn : 0 < n) :
    ∀ (segs : List IOBuf) (txd : List Vmxnet3Txdesc) (p gen : ℕ), txd.length = n →
      segs.length ≤ n → (∀ seg ∈ segs, seg.len < 2 ^ 14) →
      Carries (post_all n flags segs txd p gen) n p segs
  | [], _, _, _, _, _, _ => trivial
  | seg :: segs, txd, p, gen, hlen, hsegs, hseg => by
      have hout : ∀ j < segs.length, (p + 1 + j) % n ≠ p % n :=
        mod_ne_of_outside (Or.inl (by omega)) (by simp at hsegs; omega) (by omega)
      refine ⟨fun d hd => ?_, ?_⟩
      · rw [post_all, post_all_getElem?_of_ne segs _ _ _ _ hout,
          List.getElem?_set_self (by rw [hlen]; exact Nat.mod_lt p hn), Option.some.injEq] at hd
        subst hd
        have hlen' : seg.len % 16384 = seg.len := Nat.mod_eq_of_lt (hseg seg List.mem_cons_self)
        exact ⟨by simp [hlen'], by simp⟩
      · exact carries_post_all hn segs _ (p + 1) _ (by rw [List.length_set, hlen])
          (by simp at hsegs; omega) (fun s hs => hseg s (List.mem_cons_of_mem seg hs))

/-- The device reads back the packet that the descriptors from its cursor carry, and its cursor
moves past it. -/
theorem read_packet_of_carries {txd : List Vmxnet3Txdesc} {n : ℕ} (hlen : txd.length = n)
    (hn : 0 < n) : ∀ (segs : List IOBuf) (p fuel : ℕ), segs ≠ [] → segs.length ≤ fuel →
      Carries txd n p segs →
      read_packet txd fuel (p % n) (lap_gen n p) =
        some (segs, (p + segs.length - 1) % n, (p + segs.length) % n,
          lap_gen n (p + segs.length))
  | [], _, _, hne, _, _ => absurd rfl hne
  | seg :: segs, p, fuel + 1, _, hfuel, ⟨hd, hrest⟩ => by
      obtain ⟨d, hd'⟩ : ∃ d, txd[p % n]? = some d :=
        ⟨_, List.getElem?_eq_getElem (by rw [hlen]; exact Nat.mod_lt p hn)⟩
      obtain ⟨hseg, heop⟩ := hd d hd'
      cases segs with
      | nil =>
          simp only [List.isEmpty_nil, if_true] at heop
          simp [read_packet, hd', heop, hlen, advance_lap hn, hseg]
      | cons seg' segs =>
          simp only [List.isEmpty_cons, Bool.false_eq_true, if_false] at heop
          have ih := read_packet_of_carries hlen hn (seg' :: segs) (p + 1) fuel (by simp)
            (by simp at hfuel ⊢; omega) hrest
          rw [List.length_cons, show p + 1 + (segs.length + 1) = p + (segs.length + 1 + 1) by omega]
            at ih
          simp only [read_packet, hd', hlen, advance_lap hn, heop, zero_ne_one, if_false, ih,
            Option.map_some, hseg, List.length_cons]

/-! ## The chains in flight -/

/-- The chains in flight as `enqueue` records them, laid out from absolute position `p`: each
with the index of its last descriptor. -/
def records (n : ℕ) : ℕ → List IOBufChain → List (ℕ × IOBufChain)
  | _, [] => []
  | p, c :: cs => ((p + c.segments.length - 1) % n, c) :: records n (p + c.segments.length) cs

theorem records_append {n : ℕ} : ∀ (p : ℕ) (cs cs' : List IOBufChain),
    records n p (cs ++ cs') = records n p cs ++ records n (p + descs cs) cs'
  | p, [], cs' => by simp [records]
  | p, c :: cs, cs' => by
      simp [records, records_append _ cs cs', Nat.add_assoc]

@[simp] theorem length_records {n : ℕ} : ∀ (p : ℕ) (cs : List IOBufChain),
    (records n p cs).length = cs.length
  | _, [] => rfl
  | p, c :: cs => by simp [records, length_records _ cs]

@[simp] theorem map_snd_records {n : ℕ} : ∀ (p : ℕ) (cs : List IOBufChain),
    (records n p cs).map Prod.snd = cs
  | _, [] => rfl
  | p, c :: cs => by simp [records, map_snd_records _ cs]

end Nrk.Vmxnet3
