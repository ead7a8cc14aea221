import Nrk.Memory.MapAction

/-! # The frames a process registered (`kernel/src/process.rs`)

`ProcessFrames`, a table of `MAX_FRAMES_PER_PROCESS` optional frames with their mapping counts. -/

namespace Nrk.Process

open Memory

/-- `MAX_FRAMES_PER_PROCESS` is `MAX_CORES`. -/
def MAX_FRAMES_PER_PROCESS : ℕ := 192

/-- `ProcessFrames`. -/
structure ProcessFrames where
  frames : List (Option Frame × ℕ)
  length_frames : frames.length = MAX_FRAMES_PER_PROCESS

namespace ProcessFrames

/-- `ProcessFrames::default`: every slot empty. -/
def default : ProcessFrames :=
  ⟨List.replicate MAX_FRAMES_PER_PROCESS (none, 0), List.length_replicate⟩

/-- `self.frames[fid] = entry`; an index past the end changes nothing. -/
def set (pf : ProcessFrames) (fid : ℕ) (entry : Option Frame × ℕ) : ProcessFrames :=
  ⟨pf.frames.set fid entry, by rw [List.length_set, pf.length_frames]⟩

/-- `add_frame`: the first empty slot receives the frame with count zero. -/
def add_frame (pf : ProcessFrames) (frame : Frame) : ProcessFrames × Except KError ℕ :=
  match pf.frames.findIdx? (fun entry => entry.1.isNone) with
  | some fid => (pf.set fid (some frame, 0), .ok fid)
  | none => (pf, .error .TooManyRegisteredFrames)

/-- `get_frame`. -/
def get_frame (pf : ProcessFrames) (frame_id : ℕ) : Except KError (Frame × ℕ) :=
  match pf.frames[frame_id]? with
  | some (some frame, metadata) => .ok (frame, metadata)
  | _ => .error .InvalidFrameId

/-- `add_frame_mapping`. -/
def add_frame_mapping (pf : ProcessFrames) (frame_id : ℕ) : ProcessFrames × Except KError Unit :=
  match pf.frames[frame_id]? with
  | some (some frame, refcnt) => (pf.set frame_id (some frame, refcnt + 1), .ok ())
  | _ => (pf, .error .InvalidFrameId)

/-- The loop of `remove_frame_mapping` from slot `fid` on: the first slot that holds a frame,
with its index and count. -/
def first_frame (fid : ℕ) : List (Option Frame × ℕ) → Option (ℕ × Frame × ℕ)
  | [] => none
  | (none, _) :: rest => first_frame (fid + 1) rest
  | (some frame, refcnt) :: _ => some (fid, frame, refcnt)

/-- `remove_frame_mapping`: only the first slot that holds a frame is looked at. -/
def remove_frame_mapping (pf : ProcessFrames) (paddr : ℕ) :
    Outcome (ProcessFrames × Except KError Unit) :=
  match first_frame 0 pf.frames with
  | some (fid, frame, refcnt) =>
      if frame.base = paddr ∧ 0 < refcnt then .ok (pf.set fid (some frame, refcnt - 1), .ok ())
      else .panic
  | none => .ok (pf, .error .InvalidFrameId)

/-- `deallocate_frame`: `frame.take()` empties the slot and keeps its count, which is zero. -/
def deallocate_frame (pf : ProcessFrames) (fid : ℕ) : ProcessFrames × Except KError Frame :=
  match pf.frames[fid]? with
  | none => (pf, .error .InvalidFrameId)
  | some (frame, refcnt) =>
      if refcnt = 0 then
        match frame with
        | some frame => (pf.set fid (none, refcnt), .ok frame)
        | none => (pf, .error .InvalidFrameId)
      else (pf, .error .FrameStillMapped)

/-! ## The table as a partial function -/

/-- The frame registered under `fid` and its count. -/
def lookup (pf : ProcessFrames) (fid : ℕ) : Option (Frame × ℕ) :=
  match pf.frames[fid]? with
  | some (some frame, refcnt) => some (frame, refcnt)
  | _ => none

/-- What a slot holds, as `lookup` reads it. -/
def entryView : Option Frame × ℕ → Option (Frame × ℕ)
  | (some frame, refcnt) => some (frame, refcnt)
  | (none, _) => none

theorem lookup_eq (pf : ProcessFrames) (fid : ℕ) :
    pf.lookup fid = (pf.frames[fid]?).bind entryView := by
  unfold lookup
  rcases pf.frames[fid]? with _ | ⟨_ | _, _⟩ <;> rfl

theorem lookup_set (pf : ProcessFrames) {fid : ℕ} (hfid : fid < MAX_FRAMES_PER_PROCESS)
    (entry : Option Frame × ℕ) (j : ℕ) :
    (pf.set fid entry).lookup j = if j = fid then entryView entry else pf.lookup j := by
  have hlen : fid < pf.frames.length := pf.length_frames ▸ hfid
  simp only [lookup_eq, set, List.getElem?_set, hlen]
  by_cases h : j = fid
  · simp [h]
  · simp [Ne.symm h, h]

@[simp] theorem lookup_default (fid : ℕ) : default.lookup fid = none := by
  simp only [lookup_eq, default, List.getElem?_replicate]
  split <;> rfl

theorem get_frame_eq (pf : ProcessFrames) (fid : ℕ) :
    pf.get_frame fid = (pf.lookup fid).elim (.error .InvalidFrameId) .ok := by
  unfold get_frame lookup
  rcases pf.frames[fid]? with _ | ⟨_ | _, _⟩ <;> rfl

theorem lt_of_lookup {pf : ProcessFrames} {fid : ℕ} {e : Frame × ℕ}
    (h : pf.lookup fid = some e) : fid < MAX_FRAMES_PER_PROCESS := by
  rw [← pf.length_frames]
  by_contra hge
  rw [lookup_eq, List.getElem?_eq_none (Nat.le_of_not_lt hge)] at h
  cases h

/-! ## One lemma per operation -/

/-- `add_frame_mapping` adds one to the count of a registered frame and fails on any other id,
changing nothing. -/
theorem add_frame_mapping_eq (pf : ProcessFrames) (fid : ℕ) :
    pf.add_frame_mapping fid = match pf.lookup fid with
      | some (frame, refcnt) => (pf.set fid (some frame, refcnt + 1), .ok ())
      | none => (pf, .error .InvalidFrameId) := by
  unfold add_frame_mapping lookup
  rcases pf.frames[fid]? with _ | ⟨_ | _, _⟩ <;> rfl

theorem lookup_add_frame_mapping (pf : ProcessFrames) (fid j : ℕ) :
    (pf.add_frame_mapping fid).1.lookup j =
      if j = fid then (pf.lookup fid).map fun e => (e.1, e.2 + 1) else pf.lookup j := by
  rw [add_frame_mapping_eq]
  rcases h : pf.lookup fid with _ | ⟨frame, refcnt⟩
  · by_cases hj : j = fid
    · simp [hj, h]
    · simp [hj]
  · simp only [lookup_set pf (lt_of_lookup h)]
    rfl

/-- The first slot holding a frame, found from slot `fid` on, is at or after `fid`, holds
that frame, and every slot before it is empty. -/
theorem first_frame_spec {fid : ℕ} {l : List (Option Frame × ℕ)} {k : ℕ} {frame : Frame}
    {refcnt : ℕ} (h : first_frame fid l = some (k, frame, refcnt)) :
    fid ≤ k ∧ l[k - fid]? = some (some frame, refcnt) ∧
      ∀ j < k - fid, ∃ c, l[j]? = some (none, c) := by
  induction l generalizing fid with
  | nil => cases h
  | cons e rest ih =>
      obtain ⟨_ | f, c⟩ := e
      · -- an empty slot: the loop goes on from the next one
        obtain ⟨hle, hk, hbefore⟩ := ih h
        refine ⟨by omega, ?_, ?_⟩
        · rw [show k - fid = (k - (fid + 1)) + 1 by omega]
          simpa using hk
        · intro j hj
          cases j with
          | zero => exact ⟨c, rfl⟩
          | succ j => simpa using hbefore j (by omega)
      · simp only [first_frame, Option.some.injEq, Prod.mk.injEq] at h
        obtain ⟨rfl, rfl, rfl⟩ := h
        exact ⟨le_rfl, by simp, fun j hj => absurd hj (by omega)⟩

theorem first_frame_eq_none {fid : ℕ} {l : List (Option Frame × ℕ)}
    (h : first_frame fid l = none) : ∀ e ∈ l, e.1 = none := by
  induction l generalizing fid with
  | nil => simp
  | cons e rest ih =>
      obtain ⟨_ | f, c⟩ := e
      · intro e he
        rcases List.mem_cons.mp he with rfl | he
        · rfl
        · exact ih h e he
      · cases h

/-- `remove_frame_mapping` succeeds only on the first registered frame, when `paddr` is its
base and its count is positive, and then takes one from that count. -/
theorem remove_frame_mapping_eq_ok {pf pf' : ProcessFrames} {paddr : ℕ} {r : Except KError Unit}
    (h : pf.remove_frame_mapping paddr = .ok (pf', r)) :
    (∃ fid frame refcnt, first_frame 0 pf.frames = some (fid, frame, refcnt) ∧
      frame.base = paddr ∧ 0 < refcnt ∧ pf' = pf.set fid (some frame, refcnt - 1) ∧
      r = .ok ()) ∨
    (first_frame 0 pf.frames = none ∧ pf' = pf ∧ r = .error .InvalidFrameId) := by
  unfold remove_frame_mapping at h
  split at h
  · rename_i fid frame refcnt hfirst
    split at h
    · rename_i hok
      simp only [Outcome.ok.injEq, Prod.mk.injEq] at h
      exact .inl ⟨fid, frame, refcnt, hfirst, hok.1, hok.2, h.1.symm, h.2.symm⟩
    · cases h
  · rename_i hfirst
    simp only [Outcome.ok.injEq, Prod.mk.injEq] at h
    exact .inr ⟨hfirst, h.1.symm, h.2.symm⟩

/-- `deallocate_frame` empties the slot of a registered frame whose count is zero, and refuses
one that is still mapped. -/
theorem deallocate_frame_of_lookup {pf : ProcessFrames} {fid : ℕ} {frame : Frame} {refcnt : ℕ}
    (h : pf.lookup fid = some (frame, refcnt)) :
    pf.deallocate_frame fid =
      if refcnt = 0 then (pf.set fid (none, 0), .ok frame) else (pf, .error .FrameStillMapped) := by
  unfold deallocate_frame
  unfold lookup at h
  split at h
  · rename_i f c hslot
    simp only [Option.some.injEq, Prod.mk.injEq] at h
    obtain ⟨rfl, rfl⟩ := h
    simp only [hslot]
    split <;> simp_all
  · cases h

theorem deallocate_frame_of_lookup_none {pf : ProcessFrames} {fid : ℕ}
    (h : pf.lookup fid = none) :
    (pf.deallocate_frame fid).1 = pf ∧ ∃ e, (pf.deallocate_frame fid).2 = .error e := by
  unfold deallocate_frame
  unfold lookup at h
  rcases hslot : pf.frames[fid]? with _ | ⟨_ | f, c⟩
  · simp
  · simp only
    split <;> simp
  · simp [hslot] at h

end ProcessFrames

end Nrk.Process
