import Nrk.Lib.Simulation
import Nrk.Vmxnet3.Tx

/-! # What the transmit queue is for: a FIFO of packets

The queue and the device as a bounded FIFO of chains, in descriptors, with the chains in flight
in their three stages. -/

namespace Nrk.Vmxnet3

/-- The descriptors a list of chains takes: one per segment. -/
def descs (cs : List IOBufChain) : ℕ := (cs.map fun c => c.segments.length).sum

@[simp] theorem descs_nil : descs [] = 0 := rfl

@[simp] theorem descs_cons (c : IOBufChain) (cs : List IOBufChain) :
    descs (c :: cs) = c.segments.length + descs cs := by
  simp [descs]

@[simp] theorem descs_append (cs cs' : List IOBufChain) :
    descs (cs ++ cs') = descs cs + descs cs' := by
  simp [descs]

theorem descs_drop_le (r : ℕ) (cs : List IOBufChain) : descs (cs.drop r) ≤ descs cs := by
  conv_rhs => rw [← List.take_append_drop r cs]
  rw [descs_append]
  omega

/-- A chain the transmit queue is written for: one to `VMXNET3_TX_MAXSEGS` segments, each of
at most `VMXNET3_TX_MAXSEGSIZE` bytes. -/
def IOBufChain.WellFormed (c : IOBufChain) : Prop :=
  c.segments ≠ [] ∧ c.segments.length ≤ VMXNET3_TX_MAXSEGS ∧
    ∀ seg ∈ c.segments, seg.len ≤ VMXNET3_TX_MAXSEGSIZE

instance IOBufChain.decidableWellFormed (c : IOBufChain) : Decidable c.WellFormed :=
  inferInstanceAs (Decidable (_ ∧ _ ∧ _))

theorem length_le_descs : ∀ {cs : List IOBufChain}, (∀ c ∈ cs, c.WellFormed) →
    cs.length ≤ descs cs
  | [], _ => by simp
  | c :: cs, h => by
      have hc : 0 < c.segments.length := List.length_pos_iff.mpr (h c List.mem_cons_self).1
      have ih := length_le_descs fun c' hc' => h c' (List.mem_cons_of_mem c hc')
      simp only [List.length_cons, descs_cons]
      omega

/-- The transmit FIFO on a ring of `capacity` descriptors: the chains reported as sent and
waiting for `dequeue`, those sent and not yet reported, those posted and not yet sent, and the
packets the device has put on the wire. The chains in flight are well formed and leave a
descriptor free. -/
@[ext]
structure TxFifo where
  capacity : ℕ
  processed : List IOBufChain
  sent : List IOBufChain
  posted : List IOBufChain
  wire : List (List IOBuf)
  wf : ∀ c ∈ sent ++ posted, c.WellFormed
  room : descs (sent ++ posted) < capacity

namespace TxFifo

/-- The descriptors the chains in flight take. -/
def used (t : TxFifo) : ℕ := descs (t.sent ++ t.posted)

/-- The FIFO of a new queue. -/
def empty (n : ℕ) (hn : 0 < n) : TxFifo := ⟨n, [], [], [], [], by simp, by simpa using hn⟩

/-- A chain accepted behind the chains posted. -/
def post (t : TxFifo) (c : IOBufChain) (hc : c.WellFormed)
    (h : t.used + c.segments.length < t.capacity) : TxFifo where
  capacity := t.capacity
  processed := t.processed
  sent := t.sent
  posted := t.posted ++ [c]
  wire := t.wire
  wf := by
    intro c' hc'
    rw [← List.append_assoc, List.mem_append, List.mem_singleton] at hc'
    rcases hc' with hc' | rfl
    · exact t.wf c' hc'
    · exact hc
  room := by
    rw [← List.append_assoc, descs_append]
    simpa [used] using h

/-- The device sends the first chain posted and puts its segments on the wire. -/
def send (t : TxFifo) (c : IOBufChain) (posted : List IOBufChain) (h : t.posted = c :: posted) :
    TxFifo where
  capacity := t.capacity
  processed := t.processed
  sent := t.sent ++ [c]
  posted := posted
  wire := t.wire ++ [c.segments]
  wf := by
    rw [List.append_assoc, List.singleton_append, ← h]
    exact t.wf
  room := by
    rw [List.append_assoc, List.singleton_append, ← h]
    exact t.room

/-- The first `r` chains sent are reported back and wait for `dequeue`. -/
def retire (t : TxFifo) (r : ℕ) : TxFifo where
  capacity := t.capacity
  processed := t.processed ++ t.sent.take r
  sent := t.sent.drop r
  posted := t.posted
  wire := t.wire
  wf := fun c hc => t.wf c (by
    rw [List.mem_append] at hc ⊢
    exact hc.imp List.mem_of_mem_drop id)
  room := by
    have h := descs_drop_le r t.sent
    have h' := t.room
    simp only [descs_append] at h' ⊢
    omega

/-- One call on the FIFO, or one step of the device. `can_dequeue` reports every chain sent, or
at most one; `dequeue` first has one reported when none waits. -/
def step (t : TxFifo) : TxCall → Option (TxFifo × TxReply)
  | .enqueue c =>
      if hc : c.WellFormed then
        if h : t.used + c.segments.length < t.capacity then some (t.post c hc h, .enqueued (.ok ()))
        else some (t, .enqueued (.error c))
      else none
  | .can_enqueue how_many_seg => some (t, .room (decide (how_many_seg < t.capacity - t.used)))
  | .flush => some (t, .flushed (.ok 0))
  | .can_dequeue exact =>
      let r := if exact then t.sent.length else min 1 t.sent.length
      some (t.retire r, .processed r)
  | .dequeue =>
      let t := if t.processed.isEmpty then t.retire 1 else t
      match t.processed with
      | [] => some (t, .dequeued (.error .QueueEmpty))
      | c :: processed => some ({ t with processed := processed }, .dequeued (.ok c))
  | .device =>
      match h : t.posted with
      | [] => some (t, .sent false)
      | c :: posted => some (t.send c posted h, .sent true)

@[simp] theorem post_capacity (t : TxFifo) (c hc h) : (t.post c hc h).capacity = t.capacity := rfl
@[simp] theorem post_processed (t : TxFifo) (c hc h) : (t.post c hc h).processed = t.processed := rfl
@[simp] theorem post_sent (t : TxFifo) (c hc h) : (t.post c hc h).sent = t.sent := rfl
@[simp] theorem post_posted (t : TxFifo) (c hc h) : (t.post c hc h).posted = t.posted ++ [c] := rfl
@[simp] theorem post_wire (t : TxFifo) (c hc h) : (t.post c hc h).wire = t.wire := rfl

@[simp] theorem send_capacity (t : TxFifo) (c posted h) :
    (t.send c posted h).capacity = t.capacity := rfl
@[simp] theorem send_processed (t : TxFifo) (c posted h) :
    (t.send c posted h).processed = t.processed := rfl
@[simp] theorem send_sent (t : TxFifo) (c posted h) : (t.send c posted h).sent = t.sent ++ [c] :=
  rfl
@[simp] theorem send_posted (t : TxFifo) (c posted h) : (t.send c posted h).posted = posted := rfl
@[simp] theorem send_wire (t : TxFifo) (c posted h) :
    (t.send c posted h).wire = t.wire ++ [c.segments] := rfl

@[simp] theorem retire_capacity (t : TxFifo) (r : ℕ) : (t.retire r).capacity = t.capacity := rfl
@[simp] theorem retire_processed (t : TxFifo) (r : ℕ) :
    (t.retire r).processed = t.processed ++ t.sent.take r := rfl
@[simp] theorem retire_sent (t : TxFifo) (r : ℕ) : (t.retire r).sent = t.sent.drop r := rfl
@[simp] theorem retire_posted (t : TxFifo) (r : ℕ) : (t.retire r).posted = t.posted := rfl
@[simp] theorem retire_wire (t : TxFifo) (r : ℕ) : (t.retire r).wire = t.wire := rfl

@[simp] theorem post_used (t : TxFifo) (c hc h) :
    (t.post c hc h).used = t.used + c.segments.length := by
  simp [used, Nat.add_assoc]

theorem send_sent_append_posted (t : TxFifo) (c posted h) :
    (t.send c posted h).sent ++ (t.send c posted h).posted = t.sent ++ t.posted := by
  simp [h]

@[simp] theorem send_used (t : TxFifo) (c posted h) : (t.send c posted h).used = t.used := by
  rw [used, send_sent_append_posted, used]

theorem retire_retire (t : TxFifo) (a b : ℕ) : (t.retire a).retire b = t.retire (a + b) := by
  ext1
  · rfl
  · simp [List.take_add]
  · simp [List.drop_drop]
  · rfl
  · rfl

theorem retire_of_sent_nil {t : TxFifo} (h : t.sent = []) (r : ℕ) : t.retire r = t := by
  ext1 <;> simp [h]

theorem retire_min_one (t : TxFifo) : t.retire (min 1 t.sent.length) = t.retire 1 := by
  cases h : t.sent with
  | nil => rw [retire_of_sent_nil h, retire_of_sent_nil h]
  | cons c cs => simp

/-! ## What goes through the FIFO -/

/-- The chain that a call put in, read off the call and its reply. -/
def accepted_one : TxCall → TxReply → List IOBufChain
  | .enqueue c, .enqueued (.ok ()) => [c]
  | _, _ => []

/-- The chains a run's calls put in. -/
def accepted : List TxCall → List TxReply → List IOBufChain
  | i :: is, o :: os => accepted_one i o ++ accepted is os
  | _, _ => []

/-- The chain a reply handed back. -/
def dequeued_one : TxReply → List IOBufChain
  | .dequeued (.ok c) => [c]
  | _ => []

/-- The chains a run's replies handed back, in order. -/
def dequeued (os : List TxReply) : List IOBufChain := os.flatMap dequeued_one

/-- The FIFO loses, reorders and duplicates nothing: the chains handed back and then those
still in the FIFO, stage by stage, are the chains accepted; the wire carries the segments of
every chain that left the posted stage, in the same order. -/
structure Conserves (t : TxFifo) (acc deq : List IOBufChain) : Prop where
  order : deq ++ t.processed ++ t.sent ++ t.posted = acc
  wire : t.wire = (deq ++ t.processed ++ t.sent).map IOBufChain.segments

theorem conserves_empty (n : ℕ) (hn : 0 < n) : Conserves (empty n hn) [] [] :=
  ⟨rfl, rfl⟩

theorem conserves_retire {t : TxFifo} {acc deq : List IOBufChain} (h : Conserves t acc deq)
    (r : ℕ) : Conserves (t.retire r) acc deq := by
  constructor
  · rw [← h.order]
    simp
  · simp [h.wire]

theorem conserves_step {t t' : TxFifo} {acc deq : List IOBufChain} {i : TxCall} {o : TxReply}
    (h : Conserves t acc deq) (hstep : t.step i = some (t', o)) :
    Conserves t' (acc ++ accepted_one i o) (deq ++ dequeued_one o) := by
  cases i with
  | enqueue c =>
      simp only [step] at hstep
      split_ifs at hstep with hc hfit
      · obtain ⟨rfl, rfl⟩ := Option.some.inj hstep |> Prod.mk.inj
        constructor
        · rw [← h.order]
          simp [accepted_one, dequeued_one]
        · simp [h.wire, dequeued_one]
      · obtain ⟨rfl, rfl⟩ := Option.some.inj hstep |> Prod.mk.inj
        simpa [accepted_one, dequeued_one] using h
  | can_enqueue n =>
      obtain ⟨rfl, rfl⟩ := Option.some.inj hstep |> Prod.mk.inj
      simpa [accepted_one, dequeued_one] using h
  | flush =>
      obtain ⟨rfl, rfl⟩ := Option.some.inj hstep |> Prod.mk.inj
      simpa [accepted_one, dequeued_one] using h
  | can_dequeue exact =>
      obtain ⟨rfl, rfl⟩ := Option.some.inj hstep |> Prod.mk.inj
      simpa [accepted_one, dequeued_one] using conserves_retire h _
  | dequeue =>
      -- whether a chain was reported first, the handed-back one is the first processed
      have hr : Conserves (if t.processed.isEmpty then t.retire 1 else t) acc deq := by
        split_ifs
        · exact conserves_retire h 1
        · exact h
      simp only [step] at hstep
      revert hstep
      generalize (if t.processed.isEmpty then t.retire 1 else t) = t₁ at hr
      intro hstep
      cases hp : t₁.processed with
      | nil =>
          simp only [hp, Option.some.injEq, Prod.mk.injEq] at hstep
          obtain ⟨rfl, rfl⟩ := hstep
          simpa [accepted_one, dequeued_one] using hr
      | cons c cs =>
          simp only [hp, Option.some.injEq, Prod.mk.injEq] at hstep
          obtain ⟨rfl, rfl⟩ := hstep
          have ho := hr.order
          have hw := hr.wire
          rw [hp] at ho hw
          constructor
          · simpa [accepted_one, dequeued_one] using ho
          · simpa [dequeued_one] using hw
  | device =>
      simp only [step] at hstep
      split at hstep
      · obtain ⟨rfl, rfl⟩ := Option.some.inj hstep |> Prod.mk.inj
        simpa [accepted_one, dequeued_one] using h
      · rename_i c posted hposted
        obtain ⟨rfl, rfl⟩ := Option.some.inj hstep |> Prod.mk.inj
        have ho := h.order
        rw [hposted] at ho
        constructor
        · rw [← ho]
          simp [accepted_one, dequeued_one]
        · simp [h.wire, dequeued_one]

/-- Over a whole run the account holds for the run's calls and replies. -/
theorem conserves_run : ∀ (is : List TxCall) {t t' : TxFifo} {acc deq : List IOBufChain}
    {os : List TxReply}, Conserves t acc deq → Sim.runSpec step t is = some (t', os) →
      Conserves t' (acc ++ accepted is os) (deq ++ dequeued os)
  | [], t, t', acc, deq, os, h, hrun => by
      simp only [Sim.runSpec, Option.some.injEq, Prod.mk.injEq] at hrun
      obtain ⟨rfl, rfl⟩ := hrun
      simpa [accepted, dequeued] using h
  | i :: is, t, t', acc, deq, os, h, hrun => by
      obtain ⟨t₁, o, os', hstep, hrest, rfl⟩ := Sim.runSpec_cons hrun
      have h' := conserves_run is (conserves_step h hstep) hrest
      simpa [accepted, dequeued, List.append_assoc] using h'

theorem runSpec_isSome : ∀ (is : List TxCall) (t : TxFifo),
    (∀ c, TxCall.enqueue c ∈ is → c.WellFormed) → ∃ t' os, Sim.runSpec step t is = some (t', os)
  | [], t, _ => ⟨t, [], rfl⟩
  | i :: is, t, hwf => by
      have hstep : ∃ t₁ o, t.step i = some (t₁, o) := by
        cases i with
        | enqueue c =>
            have hc := hwf c List.mem_cons_self
            simp only [step, dif_pos hc]
            split_ifs <;> exact ⟨_, _, rfl⟩
        | dequeue =>
            simp only [step]
            split <;> exact ⟨_, _, rfl⟩
        | device =>
            simp only [step]
            split <;> exact ⟨_, _, rfl⟩
        | can_enqueue n => exact ⟨_, _, rfl⟩
        | flush => exact ⟨_, _, rfl⟩
        | can_dequeue exact => exact ⟨_, _, rfl⟩
      obtain ⟨t₁, o, ht₁⟩ := hstep
      obtain ⟨t', os, hrest⟩ :=
        runSpec_isSome is t₁ fun c hc => hwf c (List.mem_cons_of_mem _ hc)
      exact ⟨t', o :: os, by simp [Sim.runSpec, ht₁, hrest]⟩

end TxFifo

end Nrk.Vmxnet3
