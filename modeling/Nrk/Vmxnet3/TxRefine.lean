import Nrk.Vmxnet3.TxRing

/-! # The transmit queue and the device refine the FIFO -/

namespace Nrk.Vmxnet3

open TxFifo

/-- The transmit queue `q` and the device `dev` stand for the FIFO `t`, with the oldest chain in
flight from absolute position `T` on the command ring and the next report at absolute position
`R` on the completion ring. -/
structure TxInv (q : TxQueue) (dev : TxDevice) (t : TxFifo) (T R : ℕ) : Prop where
  pow : t.capacity.isPowerOfTwo
  dvd : t.capacity ∣ 2 ^ USIZE_BITS
  txd_length : q.vxtxq_cmd_ring.vxtxr_txd.length = t.capacity
  vxcr_length : q.vxtxq_comp_ring.vxcr.length = t.capacity
  tail : q.pidx_tail = T % t.capacity
  head : q.pidx_head = (T + t.used) % t.capacity
  gen : q.vxtxq_cmd_ring.vxtxr_gen = lap_gen t.capacity (T + t.used)
  inflight : q.inflight_chains = records t.capacity T (t.sent ++ t.posted)
  processed : q.processed_chains = t.processed
  owned : ∀ p, T ≤ p → p < T + t.used → ∀ d,
    q.vxtxq_cmd_ring.vxtxr_txd[p % t.capacity]? = some d → d.gen = lap_gen t.capacity p
  free : ∀ p, T + t.used ≤ p → p < T + t.capacity → ∀ d,
    q.vxtxq_cmd_ring.vxtxr_txd[p % t.capacity]? = some d → d.gen ≠ lap_gen t.capacity p
  carries : CarriesAll q.vxtxq_cmd_ring.vxtxr_txd t.capacity (T + descs t.sent) t.posted
  next : q.vxtxq_comp_ring.vxcr_next = R % t.capacity
  comp_gen : q.vxtxq_comp_ring.vxcr_gen = lap_gen t.capacity R
  reported : ∀ j r, (records t.capacity T t.sent)[j]? = some r →
    q.vxtxq_comp_ring.vxcr[(R + j) % t.capacity]? = some ⟨r.1, lap_gen t.capacity (R + j)⟩
  unreported : ∀ p, R + t.sent.length ≤ p → p < R + t.capacity → ∀ c,
    q.vxtxq_comp_ring.vxcr[p % t.capacity]? = some c → c.gen ≠ lap_gen t.capacity p
  cursor : dev.cursor = (T + descs t.sent) % t.capacity
  dev_gen : dev.gen = lap_gen t.capacity (T + descs t.sent)
  dev_comp_next : dev.comp_next = (R + t.sent.length) % t.capacity
  dev_comp_gen : dev.comp_gen = lap_gen t.capacity (R + t.sent.length)
  wire : dev.sent = t.wire

/-- The queue and the device stand for the FIFO, for some ghost positions. -/
def TxRel (s : TxQueue × TxDevice) (t : TxFifo) : Prop := ∃ T R, TxInv s.1 s.2 t T R

theorem TxQueue.flush_fst (q : TxQueue) : ∃ x, q.flush.1 = { q with vxtxq_last_flush := x } := by
  unfold TxQueue.flush
  split
  · exact ⟨q.vxtxq_last_flush, rfl⟩
  · exact ⟨_, rfl⟩

namespace TxInv

variable {q : TxQueue} {dev : TxDevice} {t : TxFifo} {T R : ℕ}

theorem capacity_pos (h : TxInv q dev t T R) : 0 < t.capacity := Nat.pos_of_isPowerOfTwo h.pow

theorem capacity_eq (h : TxInv q dev t T R) : q.capacity = t.capacity := h.txd_length

theorem len (h : TxInv q dev t T R) : q.len = .ok t.used := by
  apply TxQueue.len_eq_ok.mpr
  rw [h.capacity_eq, h.tail, h.head]
  exact ⟨h.pow, count_eq h.pow h.dvd t.room⟩

theorem txd_getElem? (h : TxInv q dev t T R) (p : ℕ) :
    ∃ d, q.vxtxq_cmd_ring.vxtxr_txd[p % t.capacity]? = some d :=
  ⟨_, List.getElem?_eq_getElem (by rw [h.txd_length]; exact Nat.mod_lt p h.capacity_pos)⟩

theorem vxcr_getElem? (h : TxInv q dev t T R) (p : ℕ) :
    ∃ c, q.vxtxq_comp_ring.vxcr[p % t.capacity]? = some c :=
  ⟨_, List.getElem?_eq_getElem (by rw [h.vxcr_length]; exact Nat.mod_lt p h.capacity_pos)⟩

theorem sent_length_lt (_ : TxInv q dev t T R) : t.sent.length < t.capacity := by
  have hwf : ∀ c ∈ t.sent, c.WellFormed := fun c hc => t.wf c (List.mem_append_left _ hc)
  have hle := length_le_descs hwf
  have hused := t.room
  simp only [descs_append] at hused
  omega

theorem ndesc_eq (h : TxInv q dev t T R) : q.vxtxq_cmd_ring.vxtxr_ndesc = t.capacity :=
  h.txd_length

/-! ## `enqueue` -/

theorem enqueue_post (h : TxInv q dev t T R) {c : IOBufChain} (hc : c.WellFormed)
    (hfit : t.used + c.segments.length < t.capacity) :
    ∃ q', q.enqueue c = .ok (q', .ok ()) ∧ TxInv q' dev (t.post c hc hfit) T R := by
  have hne : c.segments ≠ [] := hc.1
  have hmax : c.segments.length ≤ VMXNET3_TX_MAXSEGS := hc.2.1
  have hsize : ∀ seg ∈ c.segments, seg.len ≤ VMXNET3_TX_MAXSEGSIZE := hc.2.2
  have hn := h.capacity_pos
  have hk : 0 < c.segments.length := List.length_pos_iff.mpr hne
  obtain ⟨H, hH⟩ : ∃ H, H = T + t.used := ⟨_, rfl⟩
  have hhead : q.pidx_head = H % t.capacity := hH ▸ h.head
  have hgen : q.vxtxq_cmd_ring.vxtxr_gen = lap_gen t.capacity H := hH ▸ h.gen
  have hseg32 : ∀ seg ∈ c.segments, seg.len < 2 ^ 32 := fun seg hs =>
    Nat.lt_of_le_of_lt (hsize seg hs) (by decide)
  have hpost := @post_segments_eq _ _ c.flags _ h.pow h.dvd h.tail c.segments q.vxtxq_cmd_ring H
    (lap_gen t.capacity H ^^^ 1) hgen h.txd_length (by omega) (by omega) hseg32
  obtain ⟨seg, segs, hsegs⟩ := List.exists_cons_of_ne_nil hne
  -- the loop's first descriptor, posted with the other generation
  have hsop : (post_all t.capacity c.flags c.segments q.vxtxq_cmd_ring.vxtxr_txd H
      (lap_gen t.capacity H ^^^ 1))[H % t.capacity]? =
        some ((default : Vmxnet3Txdesc).post seg (lap_gen t.capacity H ^^^ 1) segs.isEmpty c.flags) := by
    have h0 := @post_all_getElem? _ c.flags hn c.segments q.vxtxq_cmd_ring.vxtxr_txd H
      (lap_gen t.capacity H ^^^ 1) 0 h.txd_length (by omega) (by simp [hsegs])
    simpa [hsegs] using h0
  have hflip := @post_all_flip_first t.capacity c.flags _ (lap_gen_lt t.capacity H) seg segs
    q.vxtxq_cmd_ring.vxtxr_txd H (by simp [hsegs] at hfit; omega)
  rw [← hsegs] at hflip
  refine ⟨{ q with
      vxtxq_cmd_ring := ⟨lap_gen t.capacity (H + c.segments.length),
        post_all t.capacity c.flags c.segments q.vxtxq_cmd_ring.vxtxr_txd H (lap_gen t.capacity H)⟩
      pidx_head := (H + c.segments.length) % t.capacity
      inflight_chains := q.inflight_chains ++ [((H + c.segments.length - 1) % t.capacity, c)] },
    ?_, ?_⟩
  · have hroom : t.used < t.capacity := t.room
    simp only [TxQueue.enqueue, Nat.not_lt.mpr hmax, if_false, h.capacity_eq, h.len,
      Outcome.checkedSub_of_le (show 1 ≤ t.capacity by omega),
      Outcome.checkedSub_of_le (show t.used ≤ t.capacity - 1 by omega), Outcome.ok_bind,
      show ¬ t.capacity - 1 - t.used < c.segments.length by omega, h.ndesc_eq, hhead, hgen, hpost,
      hsop, hflip, recorded_index h.dvd (show 0 < H + c.segments.length by omega)]
    rfl
  · have hlen' : (post_all t.capacity c.flags c.segments q.vxtxq_cmd_ring.vxtxr_txd H
        (lap_gen t.capacity H)).length = t.capacity := by
      rw [length_post_all, h.txd_length]
    -- the entries outside the chain's keep their descriptors
    have hkeep : ∀ p, (p < H ∨ H + c.segments.length ≤ p) →
        H + c.segments.length ≤ p + t.capacity → p < H + t.capacity →
        (post_all t.capacity c.flags c.segments q.vxtxq_cmd_ring.vxtxr_txd H
          (lap_gen t.capacity H))[p % t.capacity]? =
          q.vxtxq_cmd_ring.vxtxr_txd[p % t.capacity]? :=
      fun p hout hlo hhi => post_all_getElem?_of_ne _ _ _ _ _ (mod_ne_of_outside hout hlo hhi)
    have hHT : T + descs t.sent + descs t.posted = H := by
      rw [hH, used, descs_append, Nat.add_assoc]
    refine ⟨h.pow, h.dvd, hlen', h.vxcr_length, h.tail, ?new_head, ?new_gen, ?new_inflight,
      h.processed, ?new_owned, ?new_free, ?new_carries, h.next, h.comp_gen, h.reported, h.unreported, h.cursor, h.dev_gen,
      h.dev_comp_next, h.dev_comp_gen, h.wire⟩
    case new_head => simp [hH, Nat.add_assoc]
    case new_gen => simp [hH, Nat.add_assoc]
    case new_inflight =>
      rw [post_capacity, post_sent, post_posted, ← List.append_assoc, records_append,
        ← h.inflight]
      simp [records, hH, used]
    case new_owned =>
      intro p hTp hp d hd
      simp only [post_capacity, post_used] at hp hd ⊢
      by_cases hpH : p < H
      · rw [hkeep p (Or.inl hpH) (by omega) (by omega)] at hd
        exact h.owned p hTp (by omega) d hd
      · obtain ⟨j, rfl⟩ : ∃ j, p = H + j := ⟨p - H, by omega⟩
        exact post_all_gen hn h.txd_length (by omega) (by omega) hd
    case new_free =>
      intro p hp hp' d hd
      simp only [post_capacity, post_used] at hp hp' hd ⊢
      rw [hkeep p (Or.inr (by omega)) (by omega) (by omega)] at hd
      exact h.free p (by omega) hp' d hd
    case new_carries =>
      simp only [post_capacity, post_sent, post_posted]
      rw [carriesAll_append, hHT]
      refine ⟨CarriesAll.congr (fun j hj => hkeep _ (Or.inl (by omega)) (by omega) (by omega))
        h.carries, carries_post_all hn _ _ _ _ h.txd_length (by omega) ?_, trivial⟩
      intro seg hseg
      exact Nat.lt_of_le_of_lt (hsize seg hseg) (by decide)

theorem enqueue_full (h : TxInv q dev t T R) {c : IOBufChain} (hc : c.WellFormed)
    (hfull : ¬ t.used + c.segments.length < t.capacity) : q.enqueue c = .ok (q, .error c) := by
  have hroom : t.used < t.capacity := t.room
  simp only [TxQueue.enqueue, Nat.not_lt.mpr hc.2.1, if_false, h.capacity_eq, h.len,
    Outcome.checkedSub_of_le (show 1 ≤ t.capacity by omega),
    Outcome.checkedSub_of_le (show t.used ≤ t.capacity - 1 by omega), Outcome.ok_bind,
    show t.capacity - 1 - t.used < c.segments.length by omega, if_true]
  rfl

theorem can_enqueue_eq (h : TxInv q dev t T R) (how_many_seg : ℕ) :
    q.can_enqueue how_many_seg = .ok (decide (how_many_seg < t.capacity - t.used)) := by
  have hroom : t.used < t.capacity := t.room
  simp [TxQueue.can_enqueue, h.capacity_eq, h.len, Outcome.checkedSub_of_le hroom.le]

theorem of_last_flush (h : TxInv q dev t T R) (x : ℤ) :
    TxInv { q with vxtxq_last_flush := x } dev t T R :=
  ⟨h.pow, h.dvd, h.txd_length, h.vxcr_length, h.tail, h.head, h.gen, h.inflight, h.processed,
    h.owned, h.free, h.carries, h.next, h.comp_gen, h.reported, h.unreported, h.cursor, h.dev_gen,
    h.dev_comp_next, h.dev_comp_gen, h.wire⟩

theorem flush (h : TxInv q dev t T R) : TxInv q.flush.1 dev t T R := by
  obtain ⟨x, hx⟩ := TxQueue.flush_fst q
  rw [hx]
  exact h.of_last_flush x

/-! ## The device -/

/-- The device sends the first chain posted: it reads the chain's segments from its cursor, and
reports it after the chains sent before. -/
theorem device_send (h : TxInv q dev t T R) {c : IOBufChain} {posted : List IOBufChain}
    (hp : t.posted = c :: posted) :
    ∃ dev' q', dev.step q = some (dev', q') ∧ TxInv q' dev' (t.send c posted hp) T R := by
  have hn := h.capacity_pos
  have hwf : c.WellFormed := t.wf c (by simp [hp])
  have hk : 0 < c.segments.length := List.length_pos_iff.mpr hwf.1
  have hroom : t.used < t.capacity := t.room
  have hsent := h.sent_length_lt
  obtain ⟨S, hS⟩ : ∃ S, S = T + descs t.sent := ⟨_, rfl⟩
  obtain ⟨D, hD⟩ : ∃ D, D = R + t.sent.length := ⟨_, rfl⟩
  have hused : t.used = descs t.sent + c.segments.length + descs posted := by
    simp [used, hp, Nat.add_assoc]
  have hcarries : Carries q.vxtxq_cmd_ring.vxtxr_txd t.capacity S c.segments := by
    have hc := h.carries
    rw [hp] at hc
    exact hS ▸ hc.1
  -- the descriptor at the cursor is the chain's first, in the device's lap
  obtain ⟨d, hd⟩ := h.txd_getElem? S
  have hdgen : d.gen = lap_gen t.capacity S := h.owned S (by omega) (by omega) d hd
  have hread := read_packet_of_carries h.txd_length hn c.segments S t.capacity hwf.1 (by omega)
    hcarries
  have hDlt : D % t.capacity < t.capacity := Nat.mod_lt _ hn
  refine ⟨⟨(S + c.segments.length) % t.capacity, lap_gen t.capacity (S + c.segments.length),
      (D + 1) % t.capacity, lap_gen t.capacity (D + 1), dev.sent ++ [c.segments]⟩,
    { q with vxtxq_comp_ring := { q.vxtxq_comp_ring with
        vxcr := q.vxtxq_comp_ring.vxcr.set (D % t.capacity)
          ⟨(S + c.segments.length - 1) % t.capacity, lap_gen t.capacity D⟩ } }, ?_, ?_⟩
  · simp only [TxDevice.step, h.cursor, h.dev_gen, ← hS, hd, hdgen, ne_eq, not_true_eq_false,
      if_false,
      h.txd_length, hread, h.vxcr_length, h.dev_comp_next, ← hD, Nat.not_le.mpr hDlt,
      h.dev_comp_gen, advance_lap hn]
  · refine ⟨h.pow, h.dvd, h.txd_length, by simp [h.vxcr_length], h.tail, ?new_head, ?new_gen,
      ?new_inflight, h.processed, ?new_owned, ?new_free, ?new_carries, h.next, h.comp_gen,
      ?new_reported, ?new_unreported, ?new_cursor, ?new_dev_gen, ?new_comp_next, ?new_comp_gen,
      by simp [h.wire]⟩
    case new_head => simpa using h.head
    case new_gen => simpa using h.gen
    case new_inflight =>
      rw [send_capacity, send_sent_append_posted]
      exact h.inflight
    case new_owned =>
      simpa using h.owned
    case new_free =>
      simpa using h.free
    case new_carries =>
      have hc := h.carries
      rw [hp] at hc
      simpa [Nat.add_assoc] using hc.2
    case new_reported =>
      intro j r hr
      rw [send_capacity, send_sent, records_append] at hr
      rcases Nat.lt_or_ge j t.sent.length with hj | hj
      · rw [List.getElem?_append_left (by simpa using hj)] at hr
        have hne : D % t.capacity ≠ (R + j) % t.capacity :=
          (mod_ne_of_lt_of_lt (by omega) (by omega)).symm
        rw [send_capacity, List.getElem?_set_ne hne]
        exact h.reported j r hr
      · -- the new report, the only one past the earlier ones
        obtain ⟨i, rfl⟩ : ∃ i, j = t.sent.length + i := ⟨j - t.sent.length, by omega⟩
        rw [List.getElem?_append_right (by simp), length_records, Nat.add_sub_cancel_left] at hr
        cases i with
        | succ i => simp [records] at hr
        | zero =>
            simp only [records, List.getElem?_cons_zero, Option.some.injEq, ← hS] at hr
            rw [send_capacity, Nat.add_zero, ← hD,
              List.getElem?_set_self (by rw [h.vxcr_length]; exact hDlt), ← hr]
    case new_unreported =>
      intro p hp hp' x hx
      simp only [send_capacity, send_sent, List.length_append, List.length_singleton] at hp hp' hx ⊢
      rw [List.getElem?_set_ne (mod_ne_of_lt_of_lt (by omega) (by omega))] at hx
      exact h.unreported p (by omega) hp' x hx
    case new_cursor => simp [hS, Nat.add_assoc]
    case new_dev_gen => simp [hS, Nat.add_assoc]
    case new_comp_next => simp [hD, Nat.add_assoc]
    case new_comp_gen => simp [hD, Nat.add_assoc]

theorem device_idle (h : TxInv q dev t T R) (hp : t.posted = []) : dev.step q = none := by
  have hroom : t.used < t.capacity := t.room
  have hused : t.used = descs t.sent := by simp [used, hp]
  obtain ⟨d, hd⟩ := h.txd_getElem? (T + descs t.sent)
  have hne : d.gen ≠ dev.gen := by
    rw [h.dev_gen]
    exact h.free _ (by omega) (by omega) d hd
  simp [TxDevice.step, h.cursor, hd, hne]

/-! ## `can_dequeue` -/

theorem process_completions_of_nil (h : TxInv q dev t T R) (hs : t.sent = []) (exact : Bool)
    (fuel m : ℕ) : TxQueue.process_completions exact (fuel + 1) q m = .ok (q, m) := by
  have hn := h.capacity_pos
  obtain ⟨x, hx⟩ := h.vxcr_getElem? R
  have hne : x.gen ≠ lap_gen t.capacity R :=
    h.unreported R (by simp [hs]) (by omega) x hx
  simp [TxQueue.process_completions, h.next, hx, h.comp_gen, hne]

/-- One turn of the loop of `can_dequeue` on the report of the oldest chain sent: the chain is
retired, the tail moves past it and the read position past its report. -/
theorem process_completions_of_cons (h : TxInv q dev t T R) {c : IOBufChain}
    {rest : List IOBufChain} (hs : t.sent = c :: rest) (exact : Bool) (fuel m : ℕ) :
    ∃ q', TxQueue.process_completions exact (fuel + 1) q m =
        (if exact then TxQueue.process_completions exact fuel q' (m + 1) else .ok (q', m + 1)) ∧
      TxInv q' dev (t.retire 1) (T + c.segments.length) (R + 1) := by
  have hn := h.capacity_pos
  have hwf : c.WellFormed := t.wf c (by simp [hs])
  have hk : 0 < c.segments.length := List.length_pos_iff.mpr hwf.1
  have hroom : t.used < t.capacity := t.room
  have hsent := h.sent_length_lt
  have hused : (t.retire 1).used + c.segments.length = t.used := by
    simp [used, hs]
    omega
  -- the report at the read position, with the index recorded for the chain
  have hrep : q.vxtxq_comp_ring.vxcr[R % t.capacity]? =
      some ⟨(T + c.segments.length - 1) % t.capacity, lap_gen t.capacity R⟩ := by
    simpa using h.reported 0 ((T + c.segments.length - 1) % t.capacity, c) (by simp [hs, records])
  have hin : q.inflight_chains = ((T + c.segments.length - 1) % t.capacity, c) ::
      records t.capacity (T + c.segments.length) (rest ++ t.posted) := by
    rw [h.inflight, hs]
    rfl
  have htail : ((T + c.segments.length - 1) % t.capacity + 1) % t.capacity =
      (T + c.segments.length) % t.capacity := by
    rw [Nat.mod_add_mod, Nat.sub_add_cancel (by omega)]
  refine ⟨{ q with
      vxtxq_comp_ring := { q.vxtxq_comp_ring with
        vxcr_next := (R + 1) % t.capacity, vxcr_gen := lap_gen t.capacity (R + 1) }
      inflight_chains := records t.capacity (T + c.segments.length) (rest ++ t.posted)
      processed_chains := q.processed_chains ++ [c]
      pidx_tail := (T + c.segments.length) % t.capacity }, ?_, ?_⟩
  · simp only [TxQueue.process_completions, h.next, hrep, h.comp_gen, ne_eq, not_true_eq_false,
      if_false, Vmxnet3TxcompRing.vxcr_ndesc, h.vxcr_length, advance_lap hn, hin, h.ndesc_eq,
      htail]
  · refine ⟨h.pow, h.dvd, h.txd_length, h.vxcr_length, rfl, ?new_head, ?new_gen, ?new_inflight,
      ?new_processed, ?new_owned, ?new_free, ?new_carries, rfl, rfl, ?new_reported,
      ?new_unreported, ?new_cursor, ?new_dev_gen, ?new_comp_next, ?new_comp_gen, h.wire⟩
    case new_head => rw [retire_capacity, Nat.add_assoc, Nat.add_comm _ (t.retire 1).used, hused,
      h.head]
    case new_gen => rw [retire_capacity, Nat.add_assoc, Nat.add_comm _ (t.retire 1).used, hused,
      h.gen]
    case new_inflight => simp [hs]
    case new_processed => simp [h.processed, hs]
    case new_owned =>
      intro p hp hp' d hd
      exact h.owned p (by omega) (by omega) d hd
    case new_free =>
      intro p hp hp' d hd
      rw [retire_capacity] at hp' hd ⊢
      rcases Nat.lt_or_ge p (T + t.capacity) with hlt | hge
      · exact h.free p (by omega) hlt d hd
      · -- an entry of the retired chain, one lap on
        obtain ⟨p', rfl⟩ : ∃ p', p = p' + t.capacity := ⟨p - t.capacity, by omega⟩
        rw [Nat.add_mod_right] at hd
        rw [h.owned p' (by omega) (by omega) d hd]
        exact (lap_gen_add_ne t.capacity p' hn).symm
    case new_carries =>
      rw [retire_capacity, retire_posted, retire_sent, hs, List.drop_one, List.tail_cons,
        Nat.add_assoc, ← descs_cons, ← hs]
      exact h.carries
    case new_reported =>
      intro j r hr
      rw [retire_capacity, retire_sent, hs, List.drop_one, List.tail_cons] at hr
      have hr' := h.reported (j + 1) r (by simpa [hs, records] using hr)
      rwa [show R + (j + 1) = R + 1 + j by omega] at hr'
    case new_unreported =>
      intro p hp hp' x hx
      rw [retire_capacity] at hp' hx ⊢
      simp only [retire_sent, hs, List.drop_one, List.tail_cons] at hp
      rcases Nat.lt_or_ge p (R + t.capacity) with hlt | hge
      · exact h.unreported p (by simp [hs]; omega) hlt x hx
      · -- the entry of the report just read, one lap on
        obtain rfl : p = R + t.capacity := by omega
        rw [Nat.add_mod_right, hrep, Option.some.injEq] at hx
        rw [← hx]
        exact (lap_gen_add_ne t.capacity R hn).symm
    case new_cursor =>
      rw [h.cursor, retire_capacity, retire_sent, hs, List.drop_one, List.tail_cons, descs_cons,
        Nat.add_assoc]
    case new_dev_gen =>
      rw [h.dev_gen, retire_capacity, retire_sent, hs, List.drop_one, List.tail_cons, descs_cons,
        Nat.add_assoc]
    case new_comp_next =>
      rw [h.dev_comp_next, retire_capacity, retire_sent, hs, List.drop_one, List.tail_cons,
        List.length_cons, Nat.add_right_comm, Nat.add_assoc]
    case new_comp_gen =>
      rw [h.dev_comp_gen, retire_capacity, retire_sent, hs, List.drop_one, List.tail_cons,
        List.length_cons, Nat.add_right_comm, Nat.add_assoc]

/-- The loop of `can_dequeue(true)`, with fuel for every chain sent and one more turn, retires
every chain sent. -/
theorem process_completions_true (h : TxInv q dev t T R) (fuel m : ℕ)
    (hfuel : t.sent.length < fuel) :
    ∃ q' T' R', TxQueue.process_completions true fuel q m = .ok (q', m + t.sent.length) ∧
      TxInv q' dev (t.retire t.sent.length) T' R' := by
  -- on the fuel, each turn retiring the oldest chain sent
  induction fuel generalizing q t T R m with
  | zero => omega
  | succ fuel ih =>
      cases hs : t.sent with
      | nil =>
          refine ⟨q, T, R, ?_, ?_⟩
          · rw [h.process_completions_of_nil hs]
            rfl
          · rw [List.length_nil, retire_of_sent_nil hs]
            exact h
      | cons c rest =>
          obtain ⟨q₁, hrun, h₁⟩ := h.process_completions_of_cons hs true fuel m
          have hlen : (t.retire 1).sent.length = rest.length := by simp [hs]
          obtain ⟨q', T', R', hrun', h'⟩ :=
            ih h₁ (m + 1) (by rw [hlen]; rw [hs] at hfuel; simpa using hfuel)
          refine ⟨q', T', R', ?_, ?_⟩
          · rw [hrun, if_pos rfl, hrun', hlen, List.length_cons, Nat.add_assoc, Nat.add_comm 1]
          · rwa [retire_retire, hlen, Nat.add_comm] at h'

theorem can_dequeue_true (h : TxInv q dev t T R) :
    ∃ q' T' R', q.can_dequeue true = .ok (q', t.sent.length) ∧
      TxInv q' dev (t.retire t.sent.length) T' R' := by
  have hfuel : t.sent.length < q.inflight_chains.length + 1 := by
    rw [h.inflight, length_records, List.length_append]
    omega
  simpa [TxQueue.can_dequeue] using h.process_completions_true _ 0 hfuel

theorem can_dequeue_false (h : TxInv q dev t T R) :
    ∃ q' T' R', q.can_dequeue false = .ok (q', min 1 t.sent.length) ∧
      TxInv q' dev (t.retire 1) T' R' := by
  cases hs : t.sent with
  | nil =>
      refine ⟨q, T, R, by simp [TxQueue.can_dequeue, h.process_completions_of_nil hs], ?_⟩
      rw [retire_of_sent_nil hs]
      exact h
  | cons c rest =>
      obtain ⟨q', hrun, h'⟩ := h.process_completions_of_cons hs false q.inflight_chains.length 0
      exact ⟨q', _, _, by simp [TxQueue.can_dequeue, hrun], h'⟩

/-! ## `dequeue` -/

theorem of_processed (h : TxInv q dev t T R) (processed : List IOBufChain) :
    TxInv { q with processed_chains := processed } dev { t with processed := processed } T R :=
  ⟨h.pow, h.dvd, h.txd_length, h.vxcr_length, h.tail, h.head, h.gen, h.inflight, rfl, h.owned,
    h.free, h.carries, h.next, h.comp_gen, h.reported, h.unreported, h.cursor, h.dev_gen,
    h.dev_comp_next, h.dev_comp_gen, h.wire⟩

/-- `dequeue` answers as the FIFO does: the oldest chain reported, after `can_dequeue(false)`
when none was waiting. -/
theorem dequeue_step (h : TxInv q dev t T R) {t' : TxFifo} {o : TxReply}
    (hstep : t.step .dequeue = some (t', o)) :
    ∃ q' T' R' r, q.dequeue = .ok (q', r) ∧ o = .dequeued r ∧ TxInv q' dev t' T' R' := by
  cases hp : t.processed with
  | cons c rest =>
      -- a chain is waiting already
      simp only [TxFifo.step, hp, List.isEmpty_cons, Bool.false_eq_true, if_false,
        Option.some.injEq, Prod.mk.injEq] at hstep
      obtain ⟨rfl, rfl⟩ := hstep
      refine ⟨_, T, R, _, ?_, rfl, h.of_processed rest⟩
      simp [TxQueue.dequeue, h.processed, hp]
  | nil =>
      -- `can_dequeue(false)` first
      obtain ⟨q₁, T₁, R₁, hcan, h₁⟩ := h.can_dequeue_false
      have hp₁ : q₁.processed_chains = t.sent.take 1 := by simp [h₁.processed, hp]
      cases hs : t.sent with
      | nil =>
          simp only [TxFifo.step, hp, List.isEmpty_nil, if_true, retire_processed, hs,
            List.take_nil, List.append_nil, Option.some.injEq, Prod.mk.injEq] at hstep
          obtain ⟨rfl, rfl⟩ := hstep
          refine ⟨q₁, T₁, R₁, _, ?_, rfl, h₁⟩
          simp [TxQueue.dequeue, h.processed, hp, hcan, hs]
      | cons c rest =>
          simp only [TxFifo.step, hp, List.isEmpty_nil, if_true, retire_processed, hs,
            List.take_succ_cons, List.take_zero, List.nil_append, Option.some.injEq,
            Prod.mk.injEq] at hstep
          obtain ⟨rfl, rfl⟩ := hstep
          refine ⟨_, T₁, R₁, _, ?_, rfl, h₁.of_processed []⟩
          rw [hs] at hp₁
          simp [TxQueue.dequeue, h.processed, hp, hcan, hs, hp₁]

end TxInv

namespace TxInv

variable {q : TxQueue} {dev : TxDevice} {t : TxFifo} {T R : ℕ}

/-! ## Every call -/

/-- Every call that the FIFO answers, the driver and the device answer alike, into states that
stand for the FIFO's. -/
theorem step_sim (h : TxInv q dev t T R) {i : TxCall} {t' : TxFifo} {o : TxReply}
    (hstep : t.step i = some (t', o)) :
    ∃ q' dev' T' R', tx_step (q, dev) i = .ok ((q', dev'), o) ∧ TxInv q' dev' t' T' R' := by
  cases i with
  | enqueue c =>
      simp only [TxFifo.step] at hstep
      split_ifs at hstep with hc hfit
      · obtain ⟨rfl, rfl⟩ := Prod.mk.inj (Option.some.inj hstep)
        obtain ⟨q', hq', h'⟩ := h.enqueue_post hc hfit
        exact ⟨q', dev, T, R, by simp [tx_step, hq'], h'⟩
      · obtain ⟨rfl, rfl⟩ := Prod.mk.inj (Option.some.inj hstep)
        exact ⟨q, dev, T, R, by simp [tx_step, h.enqueue_full hc hfit], h⟩
  | can_enqueue how_many_seg =>
      obtain ⟨rfl, rfl⟩ := Prod.mk.inj (Option.some.inj hstep)
      exact ⟨q, dev, T, R, by simp [tx_step, h.can_enqueue_eq], h⟩
  | flush =>
      obtain ⟨rfl, rfl⟩ := Prod.mk.inj (Option.some.inj hstep)
      refine ⟨q.flush.1, dev, T, R, ?_, h.flush⟩
      have hflush : q.flush.2 = .ok 0 := by
        unfold TxQueue.flush
        split <;> rfl
      simp [tx_step, hflush]
  | can_dequeue exact =>
      obtain ⟨rfl, rfl⟩ := Prod.mk.inj (Option.some.inj hstep)
      cases exact with
      | true =>
          obtain ⟨q', T', R', hq', h'⟩ := h.can_dequeue_true
          exact ⟨q', dev, T', R', by simp [tx_step, hq'], by simpa using h'⟩
      | false =>
          obtain ⟨q', T', R', hq', h'⟩ := h.can_dequeue_false
          exact ⟨q', dev, T', R', by simp [tx_step, hq'], by simpa [retire_min_one] using h'⟩
  | dequeue =>
      obtain ⟨q', T', R', r, hq', rfl, h'⟩ := h.dequeue_step hstep
      exact ⟨q', dev, T', R', by simp [tx_step, hq'], h'⟩
  | device =>
      simp only [TxFifo.step] at hstep
      split at hstep
      · rename_i hp
        obtain ⟨rfl, rfl⟩ := Prod.mk.inj (Option.some.inj hstep)
        exact ⟨q, dev, T, R, by simp [tx_step, h.device_idle hp], h⟩
      · rename_i c posted hp
        obtain ⟨rfl, rfl⟩ := Prod.mk.inj (Option.some.inj hstep)
        obtain ⟨dev', q', hdev, h'⟩ := h.device_send hp
        exact ⟨q', dev', T, R, by simp [tx_step, hdev], h'⟩

end TxInv

/-- The driver's calls and the device's steps simulate the FIFO. -/
theorem tx_simulates : Sim.Simulates tx_step TxFifo.step TxRel := by
  rintro ⟨q, dev⟩ t i t' o ⟨T, R, h⟩ hstep
  obtain ⟨q', dev', T', R', hrun, h'⟩ := h.step_sim hstep
  exact ⟨(q', dev'), hrun, T', R', h'⟩

/-! ## A new queue -/

theorem dvd_two_pow_of_le {n w : ℕ} (hpow : n.isPowerOfTwo) (hle : n ≤ 2 ^ w) : n ∣ 2 ^ w := by
  obtain ⟨k, rfl⟩ := hpow
  exact Nat.pow_dvd_pow 2 ((Nat.pow_le_pow_iff_right (by decide)).mp hle)

theorem BoundedUSize.new_le_max (ndesc : ℕ) :
    BoundedUSize.new VMXNET3_MIN_TX_NDESC VMXNET3_MAX_TX_NDESC ndesc ≤ VMXNET3_MAX_TX_NDESC := by
  simp [BoundedUSize.new, VMXNET3_MIN_TX_NDESC, VMXNET3_MAX_TX_NDESC]

/-- A new queue and the device after reset stand for the empty FIFO, when the ring's size is a
power of two. -/
theorem TxInv.new {ndesc : ℕ}
    (hpow : (BoundedUSize.new VMXNET3_MIN_TX_NDESC VMXNET3_MAX_TX_NDESC ndesc).isPowerOfTwo)
    {a a' : Allocator} {q : TxQueue} (hnew : (TxQueue.new ndesc).run a = .ok (.ok q, a')) :
    TxInv q TxDevice.init (TxFifo.empty _ (Nat.pos_of_isPowerOfTwo hpow)) 0 0 := by
  have hq := TxQueue.run_new hnew
  have hpos := Nat.pos_of_isPowerOfTwo hpow
  set n := BoundedUSize.new VMXNET3_MIN_TX_NDESC VMXNET3_MAX_TX_NDESC ndesc with hn
  have hdvd : n ∣ 2 ^ USIZE_BITS :=
    dvd_two_pow_of_le hpow ((BoundedUSize.new_le_max ndesc).trans (by decide))
  -- the rings hold zeroed entries, none with the generation of the first lap
  have hzero : ∀ p, p < n → lap_gen n p ≠ 0 := by
    intro p hp
    rw [lap_gen_of_lt hp]
    decide
  subst hq
  refine ⟨hpow, hdvd, by simp [TxFifo.empty, ← hn], by simp [TxFifo.empty, ← hn], rfl, rfl, ?new_gen, rfl,
    rfl, ?new_owned, ?new_free, trivial, rfl, ?new_comp_gen, ?new_reported, ?new_unreported, rfl,
    ?new_dev_gen, rfl, ?new_dev_comp_gen, rfl⟩
  case new_gen => simp [TxFifo.empty, TxFifo.used, ← hn, lap_gen_of_lt hpos]
  case new_owned =>
    intro p _ hp
    simp [TxFifo.empty, TxFifo.used] at hp
  case new_free =>
    intro p _ hp d hd
    simp only [TxFifo.empty, Nat.zero_add, ← hn] at hp hd ⊢
    rw [List.getElem?_replicate, if_pos (Nat.mod_lt p hpos), Option.some.injEq] at hd
    rw [← hd]
    exact (hzero p hp).symm
  case new_comp_gen => simp [TxFifo.empty, ← hn, lap_gen_of_lt hpos]
  case new_reported =>
    intro j r hr
    simp [TxFifo.empty, records] at hr
  case new_unreported =>
    intro p _ hp c hc
    simp only [TxFifo.empty, Nat.zero_add, ← hn] at hp hc ⊢
    rw [List.getElem?_replicate, if_pos (Nat.mod_lt p hpos), Option.some.injEq] at hc
    rw [← hc]
    exact (hzero p hp).symm
  case new_dev_gen => simp [TxFifo.empty, TxDevice.init, ← hn, lap_gen_of_lt hpos]
  case new_dev_comp_gen => simp [TxFifo.empty, TxDevice.init, ← hn, lap_gen_of_lt hpos]

/-! ## Runs from a new queue -/

/-- From a new queue whose ring's size is a power of two and the device after reset, every run
that the FIFO answers is a run of the driver and the device that returns the same replies and
ends in states standing for the FIFO's. -/
theorem tx_refines_fifo {ndesc : ℕ}
    (hpow : (BoundedUSize.new VMXNET3_MIN_TX_NDESC VMXNET3_MAX_TX_NDESC ndesc).isPowerOfTwo)
    {a a' : Allocator} {q : TxQueue} (hnew : (TxQueue.new ndesc).run a = .ok (.ok q, a'))
    {calls : List TxCall} {t : TxFifo} {replies : List TxReply}
    (hspec : Sim.runSpec TxFifo.step (TxFifo.empty _ (Nat.pos_of_isPowerOfTwo hpow)) calls =
      some (t, replies)) :
    ∃ s, Sim.runImpl tx_step (q, TxDevice.init) calls = .ok (s, replies) ∧ TxRel s t :=
  tx_simulates.runs calls (q, TxDevice.init) _ t replies ⟨0, 0, TxInv.new hpow hnew⟩ hspec

/-- On a new ring of 32 descriptors, a chain of one 1500-byte buffer is accepted and the device
sends it. -/
theorem tx_refines_fifo_one_packet :
    ∃ s, Sim.runImpl tx_step (⟨-1, ⟨VMXNET3_INIT_GEN, List.replicate 32 default⟩,
        ⟨List.replicate 32 default, 0, VMXNET3_INIT_GEN⟩, 0, 0, [], []⟩, TxDevice.init)
        [.enqueue ⟨[⟨4096, 1500⟩], IPI_TX_INTR⟩, .device] =
          .ok (s, [.enqueued (.ok ()), .sent true]) ∧
      TxRel s (((TxFifo.empty 32 (by decide)).post ⟨[⟨4096, 1500⟩], IPI_TX_INTR⟩ (by decide)
        (by decide)).send ⟨[⟨4096, 1500⟩], IPI_TX_INTR⟩ [] rfl) :=
  @tx_refines_fifo 32 (by decide) Allocator.unlimited Allocator.unlimited _ rfl _ _ _ rfl

/-- From a new queue whose ring's size is a power of two and the device after reset, a run of
well-formed chains never panics. The chains that `dequeue` handed back, then those waiting in
`processed_chains`, then those in flight, are in order the chains that `enqueue` accepted; and
the device has put on the wire, in the same order, the segments of the chains handed back or
waiting and of the first chains in flight. -/
theorem tx_queue_fifo {ndesc : ℕ}
    (hpow : (BoundedUSize.new VMXNET3_MIN_TX_NDESC VMXNET3_MAX_TX_NDESC ndesc).isPowerOfTwo)
    {a a' : Allocator} {q : TxQueue} (hnew : (TxQueue.new ndesc).run a = .ok (.ok q, a'))
    (calls : List TxCall) (hwf : ∀ c, TxCall.enqueue c ∈ calls → c.WellFormed) :
    ∃ s replies, Sim.runImpl tx_step (q, TxDevice.init) calls = .ok (s, replies) ∧
      TxFifo.dequeued replies ++ s.1.processed_chains ++ s.1.inflight_chains.map Prod.snd =
        TxFifo.accepted calls replies ∧
      ∃ k, s.2.sent = (TxFifo.dequeued replies ++ s.1.processed_chains ++
        (s.1.inflight_chains.take k).map Prod.snd).map IOBufChain.segments := by
  obtain ⟨t, replies, hspec⟩ :=
    TxFifo.runSpec_isSome calls (TxFifo.empty _ (Nat.pos_of_isPowerOfTwo hpow)) hwf
  obtain ⟨s, hrun, T, R, h⟩ :=
    tx_simulates.runs calls (q, TxDevice.init) _ t replies ⟨0, 0, TxInv.new hpow hnew⟩ hspec
  -- the FIFO's own account of the run, read through the invariant
  have hcons := TxFifo.conserves_run calls (TxFifo.conserves_empty _ _) hspec
  rw [List.nil_append, List.nil_append] at hcons
  refine ⟨s, replies, hrun, ?_, t.sent.length, ?_⟩
  · rw [h.processed, h.inflight, map_snd_records, ← List.append_assoc]
    exact hcons.order
  · rw [h.wire, hcons.wire, h.processed, h.inflight, records_append,
      List.take_left' (length_records _ _), map_snd_records]

/-- On a new ring of 32 descriptors: a chain of one 1500-byte buffer, the device's step, and
`dequeue`. -/
theorem tx_queue_fifo_one_packet :
    ∃ s replies, Sim.runImpl tx_step (⟨-1, ⟨VMXNET3_INIT_GEN, List.replicate 32 default⟩,
        ⟨List.replicate 32 default, 0, VMXNET3_INIT_GEN⟩, 0, 0, [], []⟩, TxDevice.init)
        [.enqueue ⟨[⟨4096, 1500⟩], IPI_TX_INTR⟩, .device, .dequeue] = .ok (s, replies) ∧
      TxFifo.dequeued replies ++ s.1.processed_chains ++ s.1.inflight_chains.map Prod.snd =
        TxFifo.accepted [.enqueue ⟨[⟨4096, 1500⟩], IPI_TX_INTR⟩, .device, .dequeue] replies ∧
      ∃ k, s.2.sent = (TxFifo.dequeued replies ++ s.1.processed_chains ++
        (s.1.inflight_chains.take k).map Prod.snd).map IOBufChain.segments :=
  @tx_queue_fifo 32 (by decide) Allocator.unlimited Allocator.unlimited _ rfl _ (by
    intro c hc
    simp only [List.mem_cons, TxCall.enqueue.injEq, reduceCtorEq, List.not_mem_nil, or_false]
      at hc
    subst hc
    decide)

end Nrk.Vmxnet3
