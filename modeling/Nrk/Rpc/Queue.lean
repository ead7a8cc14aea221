import Nrk.Kernel.Mpmc
import Nrk.Lib.Chunks

/-! # The shared-memory queue of the rpc transport (`lib/rpc/src/transport/shmem/queue_mpmc.rs`)

The ring of `SeqRing` with slots of `QUEUE_ENTRY_SIZE` bytes, which `enqueue` gathers slices into
and `dequeue` scatters across buffers: a bounded FIFO of byte strings, in either build. -/

namespace Nrk.Rpc

open SeqRing

/-- `QUEUE_ENTRY_SIZE`. -/
def QUEUE_ENTRY_SIZE : ℕ := 8192

/-- `size_of::<UnsafeCell<Node>>()`: the sequence number, `data_len` and the bytes, padded to
the alignment of 8. -/
def NODE_SIZE : ℕ := 8208

/-- `isize::MAX`. -/
def ISIZE_MAX : ℕ := 2 ^ 63 - 1

/-- `QueueError`. -/
inductive QueueError where
  | AllocError
  | NoData
  deriving DecidableEq, Repr

/-- A `Node` without its sequence number: `data_len` and `value: [u8; QUEUE_ENTRY_SIZE]`. -/
structure Entry where
  data_len : ℕ
  value : List UInt8
  length_value : value.length = QUEUE_ENTRY_SIZE

/-- A new node's `data_len: 0` and `value: [0u8; QUEUE_ENTRY_SIZE]`. -/
def Entry.zero : Entry := ⟨0, List.replicate QUEUE_ENTRY_SIZE 0, List.length_replicate⟩

/-- The entry `x` is what the node stores: `data_len` is its length and the bytes start with it. -/
def Entry.Stores (e : Entry) (x : List UInt8) : Prop :=
  e.data_len = x.length ∧ e.value.take x.length = x

/-! ## `State` -/

/-- `State::capacity`: the number of slots, rounded as in `mpmc`, and the bytes of the shared
region, a word. -/
def State.capacity (bd : Build) (capacity : ℕ) : Outcome (ℕ × ℕ) := do
  let num ← Mpmc.round_capacity bd capacity
  let nodes ← bd.mul USIZE_BITS num NODE_SIZE
  let buf_size ← bd.add USIZE_BITS (2 * 8) nodes
  return (num, buf_size)

/-- `State::with_capacity`, then `init(true, num, mem)`. -/
def State.with_capacity (bd : Build) (capacity : ℕ) :
    AllocM (Except QueueError (SeqRing.State Entry)) := do
  let (num, buf_size) ← liftM (State.capacity bd capacity)
  -- `Layout::from_size_align(buf_size, align_of::<State>())`
  if ISIZE_MAX < (buf_size + 7) / 8 * 8 then
    return .error .AllocError
  else
    -- a null `mem` panics
    if !(← AllocM.request) then AllocM.panic
    else
      -- `init` writes `num` nodes from byte 16 of the region: past its end when `buf_size`
      -- wrapped, which is undefined behaviour and gives no result
      if buf_size < 2 * 8 + num * NODE_SIZE then AllocM.panic
      else
        -- `Arc::new(state)`, which aborts when refused
        if !(← AllocM.request) then AllocM.panic
        else return .ok (SeqRing.init USIZE_BITS num Entry.zero)

/-- The copy loop of `push`: `value[offset..offset + d.len()].copy_from_slice(d)` for each
slice in turn. -/
def copy_values (value : List UInt8) (offset : ℕ) : List (List UInt8) → Outcome (List UInt8)
  | [] => .ok value
  | d :: ds =>
      if offset + d.length ≤ value.length then
        copy_values (value.overwrite offset d) (offset + d.length) ds
      else .panic

theorem length_copy_values : ∀ {value v : List UInt8} {offset : ℕ} {ds : List (List UInt8)},
    copy_values value offset ds = .ok v → v.length = value.length
  | value, v, offset, [], h => by
      simp only [copy_values, Outcome.ok.injEq] at h
      rw [h]
  | value, v, offset, d :: ds, h => by
      by_cases hfit : offset + d.length ≤ value.length
      · rw [copy_values, if_pos hfit] at h
        rw [length_copy_values h, List.length_overwrite hfit]
      · rw [copy_values, if_neg hfit] at h
        cases h

/-- What `push` writes into the node it takes: `data_len` (`as u16`), then the slices one
after another from the start of `value`. -/
def Entry.write (push_data_len : ℕ) (values : List (List UInt8)) (e : Entry) : Outcome Entry :=
  match h : copy_values e.value 0 values with
  | .ok value => .ok ⟨push_data_len % 2 ^ 16, value, (length_copy_values h).trans e.length_value⟩
  | .panic => .panic

/-- `State::push`: `assert!(push_data_len <= QUEUE_ENTRY_SIZE)`, nothing to do for no bytes, then
the ring's push. -/
def State.push (bd : Build) (s : SeqRing.State Entry) (values : List (List UInt8)) :
    Outcome (SeqRing.State Entry × Bool) :=
  let push_data_len := values.foldl (fun acc x => acc + x.length) 0
  if push_data_len ≤ QUEUE_ENTRY_SIZE then
    if push_data_len = 0 then .ok (s, true)
    else SeqRing.push bd USIZE_BITS (Entry.write push_data_len values) s
  else .panic

/-- The copy loop of `pop`, from the buffer `values[value_index]` on (`bufs`), `offset` bytes
into it, with `total_offset` bytes of the entry copied: the buffers from `values[value_index]` on
after the copy. -/
def scatter (value : List UInt8) (data_len : ℕ) (bufs : List (List UInt8))
    (offset total_offset : ℕ) : Outcome (List (List UInt8)) :=
  if _htotal : total_offset < data_len then
    match bufs with
    | [] => .panic
    | b :: rest =>
        -- `values[value_index].len()`, which the copy leaves as it is
        let data_to_copy := min b.length (data_len - total_offset)
        if _hfit : offset + data_to_copy ≤ b.length ∧
            total_offset + data_to_copy ≤ value.length then
          let b' := b.overwrite offset ((value.drop total_offset).take data_to_copy)
          if _hfull : offset + data_to_copy = b.length then
            (b' :: ·) <$> scatter value data_len rest 0 (total_offset + data_to_copy)
          else
            scatter value data_len (b' :: rest) (offset + data_to_copy)
              (total_offset + data_to_copy)
        else .panic
  else .ok bufs
termination_by (bufs.length, data_len - total_offset)
decreasing_by
  · exact Prod.Lex.left _ _ (by simp)
  · -- the buffer is not full, so something was copied into it
    refine Prod.Lex.right _ ?_
    omega

/-- What `pop` does with the node it takes: `assert!(data_len <= pop_data_len)`, then the copy
into the buffers; the node keeps its bytes. -/
def Entry.read (values : List (List UInt8)) (pop_data_len : ℕ) (e : Entry) :
    Outcome (Entry × ℕ × List (List UInt8)) :=
  if e.data_len ≤ pop_data_len then do
    let values ← scatter e.value e.data_len values 0 0
    return (e, e.data_len, values)
  else .panic

/-- `State::pop`: the entry's length and the buffers it was copied into, or `NoData`. -/
def State.pop (bd : Build) (s : SeqRing.State Entry) (values : List (List UInt8)) :
    Outcome (SeqRing.State Entry × Except QueueError ℕ × List (List UInt8)) := do
  let pop_data_len := values.foldl (fun acc x => acc + x.length) 0
  if pop_data_len = 0 then return (s, .ok 0, values)
  let (s, out) ← SeqRing.pop bd USIZE_BITS (Entry.read values pop_data_len) s
  match out with
  | some (data_len, values) => return (s, .ok data_len, values)
  | none => return (s, .error .NoData, values)

/-- `State::len`: the distance of the two positions, either way round. -/
def State.len (s : SeqRing.State Entry) : ℕ :=
  if s.enqueue_pos > s.dequeue_pos then s.enqueue_pos - s.dequeue_pos
  else s.dequeue_pos - s.enqueue_pos

/-! ## The copy loops -/

theorem copy_values_eq {value : List UInt8} :
    ∀ {offset : ℕ} (ds : List (List UInt8)), offset + (ds.map List.length).sum ≤ value.length →
      copy_values value offset ds = .ok (value.overwrite offset ds.flatten)
  | offset, [], _ => by simp [copy_values]
  | offset, d :: ds, hfit => by
      simp only [List.map_cons, List.sum_cons] at hfit
      have hd : offset + d.length ≤ value.length := by omega
      have hlen := List.length_overwrite hd
      rw [copy_values, if_pos hd, copy_values_eq ds (by omega),
        List.overwrite_overwrite hd, List.flatten_cons]

/-- A push of at most `QUEUE_ENTRY_SIZE` bytes stores their concatenation. -/
theorem Entry.write_stores {values : List (List UInt8)}
    (hn : (values.map List.length).sum ≤ QUEUE_ENTRY_SIZE) (e : Entry) :
    ∃ e', Entry.write (values.map List.length).sum values e = .ok e' ∧ e'.Stores values.flatten := by
  have hcopy : copy_values e.value 0 values = .ok (e.value.overwrite 0 values.flatten) :=
    copy_values_eq values (by rw [e.length_value]; omega)
  have hflat : values.flatten.length = (values.map List.length).sum := List.length_flatten ..
  unfold Entry.write
  split
  · next value h =>
      rw [hcopy, Outcome.ok.injEq] at h
      subst h
      refine ⟨_, rfl, ?_, ?_⟩
      · rw [hflat, Nat.mod_eq_of_lt (by simp only [QUEUE_ENTRY_SIZE] at hn; omega)]
      · simp [List.overwrite]
  · next h => simp [hcopy] at h

theorem scatter_of_le {value : List UInt8} {m t o : ℕ} (bufs : List (List UInt8)) (h : m ≤ t) :
    scatter value m bufs o t = .ok bufs := by
  unfold scatter
  rw [dif_neg (by omega)]

theorem scatter_cons_of_le {value b : List UInt8} {rest : List (List UInt8)} {m t : ℕ}
    (hm : m ≤ value.length) (ht : t < m) (hb : b.length ≤ m - t) :
    scatter value m (b :: rest) 0 t =
      (((value.drop t).take b.length) :: ·) <$> scatter value m rest 0 (t + b.length) := by
  have hmin : min b.length (m - t) = b.length := min_eq_left hb
  have hfill : ((value.drop t).take b.length).length = b.length := by
    simp only [List.length_take, List.length_drop]
    omega
  rw [scatter.eq_def, dif_pos ht]
  simp only [hmin, Nat.zero_add, dif_pos (⟨le_rfl, by omega⟩ : b.length ≤ b.length ∧
    t + b.length ≤ value.length), dite_true, List.overwrite_of_length_eq hfill]

theorem scatter_cons_of_lt {value b : List UInt8} {rest : List (List UInt8)} {m t : ℕ}
    (hm : m ≤ value.length) (ht : t < m) (hb : m - t < b.length) :
    scatter value m (b :: rest) 0 t =
      .ok (((value.drop t).take (m - t) ++ b.drop (m - t)) :: rest) := by
  have hmin : min b.length (m - t) = m - t := min_eq_right hb.le
  have hlen : ((value.drop t).take (m - t)).length = m - t := by
    simp only [List.length_take, List.length_drop]
    omega
  rw [scatter.eq_def, dif_pos ht]
  simp only [hmin, Nat.zero_add]
  rw [dif_pos ⟨hb.le, by omega⟩, dif_neg hb.ne, scatter_of_le _ (by omega)]
  simp [List.overwrite, hlen]

/-- The loop writes the entry's bytes from `t` to `m` across the buffers from their start, and
leaves the bytes after them as they were. -/
theorem scatter_eq {value : List UInt8} {m : ℕ} (hm : m ≤ value.length) :
    ∀ (bufs : List (List UInt8)) (t : ℕ), t ≤ m → m - t ≤ (bufs.map List.length).sum →
      scatter value m bufs 0 t = .ok ((bufs.map List.length).splitLengths
        ((value.take m).drop t ++ bufs.flatten.drop (m - t)))
  | [], t, ht, hsum => by
      simp only [List.map_nil, List.sum_nil] at hsum
      rw [scatter_of_le _ (by omega)]
      rfl
  | b :: rest, t, ht, hsum => by
      have hlen : ((value.take m).drop t).length = m - t := by simp; omega
      rcases Nat.lt_or_ge t m with ht' | ht'
      · rcases Nat.lt_or_ge (m - t) b.length with hb | hb
        · -- the entry ends inside `b`
          rw [scatter_cons_of_lt hm ht' hb, List.map_cons, List.splitLengths_cons,
            List.flatten_cons, List.drop_append_of_le_length hb.le, ← List.append_assoc,
            List.take_left' (by simp [hlen]; omega), List.drop_left' (by simp [hlen]; omega),
            List.splitLengths_map_length_flatten, List.drop_take]
        · -- `b` is filled, and the rest of the entry goes to the buffers after it
          simp only [List.map_cons, List.sum_cons] at hsum
          have hfront : ((value.take m).drop t ++ (b :: rest).flatten.drop (m - t)).take b.length =
              (value.drop t).take b.length := by
            rw [List.take_append_of_le_length (by omega), List.drop_take, List.take_take,
              min_eq_left hb]
          have hback : ((value.take m).drop t ++ (b :: rest).flatten.drop (m - t)).drop b.length =
              (value.take m).drop (t + b.length) ++ rest.flatten.drop (m - (t + b.length)) := by
            have hb0 : b.drop (m - t) = [] := List.drop_eq_nil_of_le hb
            rw [List.drop_append_of_le_length (hlen ▸ hb), List.drop_drop, List.flatten_cons,
              List.drop_append, hb0, List.nil_append, Nat.sub_sub]
          rw [scatter_cons_of_le hm ht' hb, scatter_eq hm rest (t + b.length) (by omega) (by omega),
            Outcome.map_ok, List.map_cons, List.splitLengths_cons, hfront, hback]
      · -- nothing is left to copy
        obtain rfl : t = m := by omega
        rw [scatter_of_le _ le_rfl, List.drop_of_length_le (by simp), Nat.sub_self,
          List.drop_zero, List.nil_append, List.splitLengths_map_length_flatten]

/-- The buffers `values` with the entry `x` written across them from the start. -/
def fill (x : List UInt8) (values : List (List UInt8)) : List (List UInt8) :=
  (values.map List.length).splitLengths (x ++ values.flatten.drop x.length)

section Fill

variable {x b : List UInt8} {values : List (List UInt8)}

theorem fill_nil (values : List (List UInt8)) : fill [] values = values := by
  simp [fill, List.splitLengths_map_length_flatten]

theorem fill_cons_of_le (bs : List (List UInt8)) (h : x.length ≤ b.length) :
    fill x (b :: bs) = (x ++ b.drop x.length) :: bs := by
  have hfront : (x ++ b.drop x.length ++ bs.flatten).take b.length = x ++ b.drop x.length :=
    List.take_left' (by simp; omega)
  have hback : (x ++ b.drop x.length ++ bs.flatten).drop b.length = bs.flatten :=
    List.drop_left' (by simp; omega)
  rw [fill, List.flatten_cons, List.drop_append_of_le_length h, ← List.append_assoc,
    List.map_cons, List.splitLengths_cons, hfront, hback, List.splitLengths_map_length_flatten]

theorem fill_cons_of_ge (bs : List (List UInt8)) (h : b.length ≤ x.length) :
    fill x (b :: bs) = x.take b.length :: fill (x.drop b.length) bs := by
  have hb : b.drop x.length = [] := List.drop_eq_nil_of_le h
  rw [fill, fill, List.flatten_cons, List.drop_append, hb, List.nil_append, List.map_cons,
    List.splitLengths_cons, List.take_append_of_le_length h, List.drop_append_of_le_length h,
    List.length_drop]

/-- Bytes that fit in the buffers lie at the front of their concatenation, and the bytes
after them are as they were. -/
theorem flatten_fill (h : x.length ≤ (values.map List.length).sum) :
    (fill x values).flatten = x ++ values.flatten.drop x.length :=
  List.flatten_splitLengths _ _ (by simp [List.length_flatten]; omega)

theorem map_length_fill (h : x.length ≤ (values.map List.length).sum) :
    (fill x values).map List.length = values.map List.length :=
  List.map_splitLengths_length _ _ (by simp [List.length_flatten]; omega)

end Fill

/-- A pop into buffers that hold the entry `x` copies it across them. -/
theorem Entry.read_of_stores {values : List (List UInt8)} {e : Entry} {x : List UInt8}
    (hx : e.Stores x) (hfit : x.length ≤ (values.map List.length).sum) :
    Entry.read values (values.map List.length).sum e = .ok (e, x.length, fill x values) := by
  obtain ⟨hdata, htake⟩ := hx
  have hle : x.length ≤ e.value.length := by
    rw [← htake]
    exact List.length_take_le' _ _
  rw [Entry.read, hdata, if_pos hfit, scatter_eq hle values 0 (Nat.zero_le _) (by omega),
    List.drop_zero, htake, Nat.sub_zero]
  rfl

/-! ## The queue as a FIFO of byte strings -/

/-- A call on the queue. -/
inductive Call where
  | enqueue (values : List (List UInt8))
  | dequeue (values : List (List UInt8))
  deriving DecidableEq, Repr

/-- What a call returns; `dequeue` also gives the buffers back. -/
inductive Reply where
  | enqueue (ok : Bool)
  | dequeue (result : Except QueueError ℕ) (values : List (List UInt8))
  deriving DecidableEq, Repr

/-- One call of `Queue::enqueue` or `Queue::dequeue`, which run the state's `push` and `pop`. -/
def step (bd : Build) (s : SeqRing.State Entry) : Call → Outcome (SeqRing.State Entry × Reply)
  | .enqueue values => do
      let (s, ok) ← State.push bd s values
      return (s, .enqueue ok)
  | .dequeue values => do
      let (s, result, values) ← State.pop bd s values
      return (s, .dequeue result values)

/-- The same call on a bounded FIFO of byte strings. An enqueue of no bytes succeeds and stores
nothing; an enqueue of more than `QUEUE_ENTRY_SIZE` bytes, and a dequeue into buffers too small
for the oldest entry, are left open. -/
def spec (q : Memory.Queue (List UInt8)) : Call → Option (Memory.Queue (List UInt8) × Reply)
  | .enqueue values =>
      if (values.map List.length).sum = 0 then some (q, .enqueue true)
      else if (values.map List.length).sum ≤ QUEUE_ENTRY_SIZE then
        match q.push values.flatten with
        | some q' => some (q', .enqueue true)
        | none => some (q, .enqueue false)
      else none
  | .dequeue values =>
      if (values.map List.length).sum = 0 then some (q, .dequeue (.ok 0) values)
      else
        match q.pop with
        | none => some (q, .dequeue (.error .NoData) values)
        | some (x, q') =>
            if x.length ≤ (values.map List.length).sum then
              some (q', .dequeue (.ok x.length) (fill x values))
            else none

/-- The ring holds the FIFO's entries, in as many slots as the FIFO's capacity, a power of two,
and its positions leave the build room for `n` more dequeues. -/
def Rel (bd : Build) (n : ℕ) (s : SeqRing.State Entry) (q : Memory.Queue (List UInt8)) : Prop :=
  ∃ e D, q.capacity = 2 ^ e ∧ Holds USIZE_BITS e Entry.Stores s D q.items ∧
    Fits bd USIZE_BITS (D + 2 ^ e + 1 + n)

section Calls

variable {bd : Build} {n : ℕ} {s : SeqRing.State Entry} {q : Memory.Queue (List UInt8)}

theorem Rel.of_succ (hR : Rel bd (n + 1) s q) : Rel bd n s q := by
  obtain ⟨e, D, hcap, h, hfit⟩ := hR
  exact ⟨e, D, hcap, h, hfit.mono (by omega)⟩

/-- An enqueue answers as the FIFO does, and leaves the positions where dequeues find them. -/
theorem enqueue_simulates {q' : Memory.Queue (List UInt8)} {r : Reply}
    {values : List (List UInt8)} (hR : Rel bd n s q)
    (hspec : spec q (.enqueue values) = some (q', r)) :
    ∃ s', step bd s (.enqueue values) = .ok (s', r) ∧ Rel bd n s' q' := by
  obtain ⟨e, D, hcap, h, hfit⟩ := hR
  have hfit' : Fits bd USIZE_BITS (D + 2 ^ e + 1) := hfit.mono (by omega)
  have hlen : values.foldl (fun acc x => acc + x.length) 0 = (values.map List.length).sum := by
    rw [List.foldl_add_length, Nat.zero_add]
  by_cases h0 : (values.map List.length).sum = 0
  · -- no bytes: a success that stores nothing
    simp only [spec, if_pos h0, Option.some.injEq, Prod.mk.injEq] at hspec
    obtain ⟨rfl, rfl⟩ := hspec
    exact ⟨s, by simp [step, State.push, hlen, h0], e, D, hcap, h, hfit⟩
  by_cases hn : (values.map List.length).sum ≤ QUEUE_ENTRY_SIZE
  swap
  · simp [spec, h0, hn] at hspec
  by_cases hlt : q.items.length < q.capacity
  · -- a free slot stores the concatenation
    obtain ⟨s', hpush, h'⟩ := h.push_of_lt hfit' (hcap ▸ hlt) (Entry.write_stores hn)
    simp only [spec, if_neg h0, if_pos hn, Memory.Queue.push, if_pos hlt, Option.some.injEq,
      Prod.mk.injEq] at hspec
    obtain ⟨rfl, rfl⟩ := hspec
    exact ⟨s', by simp [step, State.push, hlen, h0, hn, hpush], e, D, hcap, h', hfit⟩
  · -- a full ring refuses and stays as it is
    have hfull : q.items.length = 2 ^ e := by
      have := h.length_le
      omega
    have hpush : SeqRing.push bd USIZE_BITS (Entry.write (values.map List.length).sum values) s =
        .ok (s, false) := h.push_of_full hfit' hfull
    simp only [spec, if_neg h0, if_pos hn, Memory.Queue.push, if_neg hlt, Option.some.injEq,
      Prod.mk.injEq] at hspec
    obtain ⟨rfl, rfl⟩ := hspec
    exact ⟨s, by simp [step, State.push, hlen, h0, hn, hpush], e, D, hcap, h, hfit⟩

theorem dequeue_simulates {q' : Memory.Queue (List UInt8)} {r : Reply}
    {values : List (List UInt8)} (hR : Rel bd (n + 1) s q)
    (hspec : spec q (.dequeue values) = some (q', r)) :
    ∃ s', step bd s (.dequeue values) = .ok (s', r) ∧ Rel bd n s' q' := by
  obtain ⟨e, D, hcap, h, hfit⟩ := hR
  have hfit' : Fits bd USIZE_BITS (D + 2 ^ e + 1) := hfit.mono (by omega)
  have hlen : values.foldl (fun acc x => acc + x.length) 0 = (values.map List.length).sum := by
    rw [List.foldl_add_length, Nat.zero_add]
  by_cases h0 : (values.map List.length).sum = 0
  · -- no room at all: `Ok(0)`
    simp only [spec, if_pos h0, Option.some.injEq, Prod.mk.injEq] at hspec
    obtain ⟨rfl, rfl⟩ := hspec
    exact ⟨s, by simp [step, State.pop, hlen, h0], e, D, hcap, h, hfit.mono (by omega)⟩
  obtain ⟨capacity, items⟩ := q
  cases items with
  | nil =>
      have hpop : SeqRing.pop bd USIZE_BITS (Entry.read values (values.map List.length).sum) s =
          .ok (s, none) := h.pop_nil hfit'
      simp only [spec, if_neg h0, Memory.Queue.pop, Option.some.injEq, Prod.mk.injEq] at hspec
      obtain ⟨rfl, rfl⟩ := hspec
      exact ⟨s, by simp [step, State.pop, hlen, h0, hpop], e, D, hcap, h, hfit.mono (by omega)⟩
  | cons x xs =>
      by_cases hroom : x.length ≤ (values.map List.length).sum
      · -- the oldest entry is copied out, and the ring holds the rest from the next position
        obtain ⟨s', hpop, h'⟩ := h.pop_cons hfit' fun v hv => ⟨v, Entry.read_of_stores hv hroom⟩
        simp only [spec, if_neg h0, Memory.Queue.pop, if_pos hroom, Option.some.injEq,
          Prod.mk.injEq] at hspec
        obtain ⟨rfl, rfl⟩ := hspec
        exact ⟨s', by simp [step, State.pop, hlen, h0, hpop], e, D + 1, hcap, h',
          hfit.mono (by omega)⟩
      · simp [spec, h0, Memory.Queue.pop, hroom] at hspec

/-- Every call on a ring that holds a FIFO answers as the FIFO does, where the FIFO promises an
answer, for as many calls as the build leaves room for. -/
theorem step_simulates : Sim.SimulatesFor (step bd) spec (Rel bd) := by
  intro n s q call q' r hR hspec
  cases call with
  | enqueue values => exact enqueue_simulates hR.of_succ hspec
  | dequeue values => exact dequeue_simulates hR hspec

end Calls

/-! ## The new queue -/

theorem State.round_capacity_of_capacity {bd : Build} {c num buf_size : ℕ}
    (h : State.capacity bd c = .ok (num, buf_size)) : Mpmc.round_capacity bd c = .ok num := by
  simp only [State.capacity, Outcome.bind_eq_ok, Outcome.pure_eq, Outcome.ok.injEq,
    Prod.mk.injEq] at h
  obtain ⟨num', hround, -, -, -, -, rfl, -⟩ := h
  exact hround

theorem run_with_capacity {bd : Build} {c : ℕ} {a a' : Allocator} {s : SeqRing.State Entry}
    (h : (State.with_capacity bd c).run a = .ok (.ok s, a')) :
    ∃ num, Mpmc.round_capacity bd c = .ok num ∧ s = SeqRing.init USIZE_BITS num Entry.zero := by
  cases hcap : State.capacity bd c with
  | panic => simp [State.with_capacity, hcap] at h
  | ok p =>
  obtain ⟨num, buf_size⟩ := p
  refine ⟨num, State.round_capacity_of_capacity hcap, ?_⟩
  simp only [State.with_capacity, hcap, AllocM.liftM_ok, pure_bind] at h
  split at h
  · simp at h
  · -- the region was allocated
    rw [AllocM.run_bind_eq_ok] at h
    obtain ⟨g, a₁, -, h⟩ := h
    split at h
    · simp at h
    · split at h
      · simp at h
      · -- and the `Arc`
        rw [AllocM.run_bind_eq_ok] at h
        obtain ⟨g', a₂, -, h⟩ := h
        split at h
        · simp at h
        · simp at h
          exact h.1.symm

/-- A new queue, up to a capacity of `2 ^ 63`, holds the empty FIFO of its capacity, with room
for `n` dequeues when its build leaves room for them. -/
theorem rel_with_capacity {bd : Build} {n c : ℕ} (hc : c ≤ 2 ^ 63) {a a' : Allocator}
    {s : SeqRing.State Entry} (h : (State.with_capacity bd c).run a = .ok (.ok s, a'))
    (hfit : Fits bd USIZE_BITS (max 2 (Mpmc.next_power_of_two c) + 1 + n)) :
    Rel bd n s ⟨max 2 (Mpmc.next_power_of_two c), []⟩ := by
  obtain ⟨e, he, hw, hround, hmax⟩ := Mpmc.round_capacity_eq bd hc
  obtain ⟨num, hnum, rfl⟩ := run_with_capacity h
  obtain rfl : num = 2 ^ e := Outcome.ok.inj (hnum.symm.trans hround)
  exact ⟨e, 0, hmax, holds_init he hw, by rwa [Nat.zero_add, ← hmax]⟩

/-- From `Queue::with_capacity(c)`, `c ≤ 2 ^ 63`, every run of calls that the build leaves room
for answers as the FIFO of capacity `max 2 (next_power_of_two c)` answers. -/
theorem run_simulates {bd : Build} {c : ℕ} (hc : c ≤ 2 ^ 63) {a a' : Allocator}
    {s : SeqRing.State Entry} (h : (State.with_capacity bd c).run a = .ok (.ok s, a'))
    (calls : List Call)
    (hfit : Fits bd USIZE_BITS (max 2 (Mpmc.next_power_of_two c) + 1 + calls.length))
    {q : Memory.Queue (List UInt8)} {replies : List Reply}
    (hspec : Sim.runSpec spec ⟨max 2 (Mpmc.next_power_of_two c), []⟩ calls = some (q, replies)) :
    ∃ s', Sim.runImpl (step bd) s calls = .ok (s', replies) ∧ Rel bd 0 s' q :=
  step_simulates.runs calls s _ q replies (rel_with_capacity hc h hfit) hspec

theorem with_capacity_above_half (a : Allocator) :
    (State.with_capacity .debug (2 ^ 63 + 1)).run a = .panic := by
  simp only [State.with_capacity, State.capacity, Mpmc.round_capacity_above_half.1,
    Outcome.panic_bind, AllocM.liftM_panic]
  rfl

/-- Above `2 ^ 63`, a release build's ring has no slots, and the first enqueue of a byte indexes
past its end. -/
theorem enqueue_on_no_slots :
    ∃ s, (State.with_capacity .release (2 ^ 63 + 1)).run Allocator.unlimited =
        .ok (.ok s, Allocator.unlimited) ∧ step .release s (.enqueue [[1]]) = .panic := by
  refine ⟨SeqRing.init USIZE_BITS 0 Entry.zero, ?_, rfl⟩
  simp only [State.with_capacity, State.capacity, Mpmc.round_capacity_above_half.2,
    Outcome.ok_bind]
  rfl

/-! ## Both queues -/

theorem queues_are_bounded_fifos (bd : Build) (c : ℕ) (hc : c ≤ 2 ^ 63) :
    (∀ (a a' : Allocator) (s : SeqRing.State Entry),
      (State.with_capacity bd c).run a = .ok (.ok s, a') →
      ∀ (calls : List Call) (q : Memory.Queue (List UInt8)) (replies : List Reply),
        Fits bd USIZE_BITS (max 2 (Mpmc.next_power_of_two c) + 1 + calls.length) →
        Sim.runSpec spec ⟨max 2 (Mpmc.next_power_of_two c), []⟩ calls = some (q, replies) →
          ∃ s', Sim.runImpl (step bd) s calls = .ok (s', replies)) ∧
    ∀ (T : Type) (a a' : Allocator) (s : SeqRing.State (Option T)),
      (Mpmc.Queue.with_capacity bd c).run a = .ok (.ok s, a') →
      ∀ (calls : List (Mpmc.Call T)) (q : Memory.Queue T) (replies : List (Mpmc.Reply T)),
        Fits bd USIZE_BITS (max 2 (Mpmc.next_power_of_two c) + 1 + calls.length) →
        Sim.runSpec Mpmc.spec ⟨max 2 (Mpmc.next_power_of_two c), []⟩ calls = some (q, replies) →
          ∃ s', Sim.runImpl (Mpmc.step bd) s calls = .ok (s', replies) := by
  refine ⟨fun a a' s h calls q replies hfit hspec => ?_,
    fun T a a' s h calls q replies hfit hspec => ?_⟩
  · obtain ⟨s', hrun, -⟩ := run_simulates hc h calls hfit hspec
    exact ⟨s', hrun⟩
  · obtain ⟨s', hrun, -⟩ := Mpmc.run_simulates hc h calls hfit hspec
    exact ⟨s', hrun⟩

theorem queues_are_bounded_fifos_two_slots :
    (∃ s', Sim.runImpl (step .debug) (SeqRing.init USIZE_BITS 2 Entry.zero)
        [.enqueue [[1, 2], [3]], .enqueue [[4]], .enqueue [[5]], .dequeue [[0, 0], [0, 0]]] =
      .ok (s', [.enqueue true, .enqueue true, .enqueue false, .dequeue (.ok 3) [[1, 2], [3, 0]]])) ∧
    ∃ s', Sim.runImpl (Mpmc.step .debug) (SeqRing.init USIZE_BITS 2 none) [.push 7, .pop, .pop] =
      .ok (s', [.push (.ok ()), .pop (some 7), .pop none]) :=
  ⟨(queues_are_bounded_fifos .debug 2 (by norm_num)).1 Allocator.unlimited Allocator.unlimited _
      rfl _ ⟨2, [[4]]⟩ _ (Or.inr (by decide)) (by decide),
    (queues_are_bounded_fifos .debug 2 (by norm_num)).2 ℕ Allocator.unlimited Allocator.unlimited
      _ rfl _ ⟨2, []⟩ _ (Or.inr (by decide)) (by decide)⟩

/-- Above `2 ^ 63` a debug build panics making either queue, and a release build makes both
with no slots, where the first enqueue or push panics. -/
theorem queues_without_slots_above_half_word :
    ((∃ s, (State.with_capacity .release (2 ^ 63 + 1)).run Allocator.unlimited =
        .ok (.ok s, Allocator.unlimited) ∧ step .release s (.enqueue [[1]]) = .panic) ∧
      ∃ s, (Mpmc.Queue.with_capacity (T := ℕ) .release (2 ^ 63 + 1)).run Allocator.unlimited =
        .ok (.ok s, Allocator.unlimited) ∧ Mpmc.step .release s (.push 1) = .panic) ∧
    (State.with_capacity .debug (2 ^ 63 + 1)).run Allocator.unlimited = .panic ∧
    (Mpmc.Queue.with_capacity (T := ℕ) .debug (2 ^ 63 + 1)).run Allocator.unlimited = .panic := by
  refine ⟨⟨enqueue_on_no_slots, ?_⟩, with_capacity_above_half _,
    Mpmc.with_capacity_above_half _⟩
  obtain ⟨s, hs, hpush⟩ := Mpmc.push_on_no_slots (1 : ℕ)
  exact ⟨s, hs, by simp [Mpmc.step, hpush]⟩

/-! ## `len` -/

section Len

variable {γ : Type} {e D : ℕ} {stores : Entry → γ → Prop} {s : SeqRing.State Entry} {xs : List γ}

/-- While the two positions lie on the same side of the wrap of the words, `len` is the number
of entries. -/
theorem len_eq (h : Holds USIZE_BITS e stores s D xs)
    (hwrap : D % 2 ^ USIZE_BITS + xs.length < 2 ^ USIZE_BITS) : State.len s = xs.length := by
  have hlt : xs.length < 2 ^ USIZE_BITS :=
    h.length_le.trans_lt (Nat.pow_lt_pow_right (by norm_num) h.e_lt)
  have henq : s.enqueue_pos = D % 2 ^ USIZE_BITS + xs.length := by
    rw [h.enqueue_pos_eq, Nat.add_mod, Nat.mod_eq_of_lt hlt, Nat.mod_eq_of_lt hwrap]
  unfold State.len
  rw [henq, h.dequeue_pos_eq]
  split_ifs <;> omega

/-- Once the enqueue position has wrapped and the dequeue position has not, `len` is the number
of free words rather than the number of entries. -/
theorem len_across_wrap (h : Holds USIZE_BITS e stores s D xs)
    (hwrap : 2 ^ USIZE_BITS ≤ D % 2 ^ USIZE_BITS + xs.length) :
    State.len s = 2 ^ USIZE_BITS - xs.length := by
  have hlt : xs.length < 2 ^ USIZE_BITS :=
    h.length_le.trans_lt (Nat.pow_lt_pow_right (by norm_num) h.e_lt)
  have hD : D % 2 ^ USIZE_BITS < 2 ^ USIZE_BITS := Nat.mod_lt _ (Nat.two_pow_pos _)
  have henq : s.enqueue_pos = D % 2 ^ USIZE_BITS + xs.length - 2 ^ USIZE_BITS := by
    rw [h.enqueue_pos_eq, Nat.add_mod, Nat.mod_eq_of_lt hlt, Nat.mod_eq_sub_mod hwrap,
      Nat.mod_eq_of_lt (by omega)]
  unfold State.len
  rw [henq, h.dequeue_pos_eq]
  split_ifs <;> omega

end Len

end Nrk.Rpc
