import Nrk.Process.Frames
import Nrk.Lib.Simulation

/-! # The frame registry as a reference-counted table -/

namespace Nrk.Process

open Memory

/-- A reference-counted table of frames: frame ids to a frame and its count. -/
abbrev FrameTable : Type := ℕ → Option (Frame × ℕ)

/-- The operations of `FrameManagement`. -/
inductive FrameOp where
  | add_frame (frame : Frame)
  | get_frame (frame_id : ℕ)
  | add_frame_mapping (frame_id : ℕ)
  | remove_frame_mapping (paddr : ℕ)
  | deallocate_frame (fid : ℕ)
  deriving DecidableEq, Repr

/-- What the operations of `FrameManagement` return on success. -/
inductive FrameReply where
  | FrameId (fid : ℕ)
  | Registered (frame : Frame) (refcnt : ℕ)
  | Done
  | Released (frame : Frame)
  deriving DecidableEq, Repr

namespace FrameTable

/-- The lowest id below `MAX_FRAMES_PER_PROCESS` that satisfies `p`. -/
def lowest (p : ℕ → Bool) : Option ℕ := (List.range MAX_FRAMES_PER_PROCESS).find? p

def add_frame (t : FrameTable) (frame : Frame) : FrameTable × Except KError ℕ :=
  match lowest fun fid => (t fid).isNone with
  | some fid => (Function.update t fid (some (frame, 0)), .ok fid)
  | none => (t, .error .TooManyRegisteredFrames)

def get_frame (t : FrameTable) (frame_id : ℕ) : Except KError (Frame × ℕ) :=
  (t frame_id).elim (.error .InvalidFrameId) .ok

def add_frame_mapping (t : FrameTable) (frame_id : ℕ) : FrameTable × Except KError Unit :=
  match t frame_id with
  | some (frame, refcnt) => (Function.update t frame_id (some (frame, refcnt + 1)), .ok ())
  | none => (t, .error .InvalidFrameId)

/-- The registered frame at `paddr` whose count is positive loses one mapping; the lowest such
id is taken. -/
def remove_frame_mapping (t : FrameTable) (paddr : ℕ) : FrameTable × Except KError Unit :=
  match lowest fun fid => (t fid).any fun e => e.1.base = paddr ∧ 0 < e.2 with
  | some fid => (Function.update t fid ((t fid).map fun e => (e.1, e.2 - 1)), .ok ())
  | none => (t, .error .InvalidFrameId)

def deallocate_frame (t : FrameTable) (fid : ℕ) : FrameTable × Except KError Frame :=
  match t fid with
  | some (frame, 0) => (Function.update t fid none, .ok frame)
  | some (_, _ + 1) => (t, .error .FrameStillMapped)
  | none => (t, .error .InvalidFrameId)

def step (t : FrameTable) : FrameOp → FrameTable × Except KError FrameReply
  | .add_frame frame => let (t, r) := t.add_frame frame; (t, r.map .FrameId)
  | .get_frame frame_id => (t, (t.get_frame frame_id).map fun (frame, refcnt) => .Registered frame refcnt)
  | .add_frame_mapping frame_id => let (t, r) := t.add_frame_mapping frame_id; (t, r.map fun () => .Done)
  | .remove_frame_mapping paddr => let (t, r) := t.remove_frame_mapping paddr; (t, r.map fun () => .Done)
  | .deallocate_frame fid => let (t, r) := t.deallocate_frame fid; (t, r.map .Released)

/-- The lowest registered frame, with its id and count. -/
def first (t : FrameTable) : Option (ℕ × Frame × ℕ) :=
  (lowest fun fid => (t fid).isSome).bind fun fid => (t fid).map fun e => (fid, e)

/-- The operations on which the registry keeps to the table: all but a `remove_frame_mapping`
whose frame is not the lowest registered one. -/
def Follows (t : FrameTable) : FrameOp → Prop
  | .remove_frame_mapping paddr => ∀ fid frame refcnt, t.first = some (fid, frame, refcnt) →
      frame.base = paddr ∧ 0 < refcnt
  | _ => True

instance (t : FrameTable) (op : FrameOp) : Decidable (t.Follows op) :=
  match op with
  | .remove_frame_mapping paddr =>
      match h : t.first with
      | some (fid, frame, refcnt) =>
          if hp : frame.base = paddr ∧ 0 < refcnt then
            isTrue fun _ _ _ he => by cases h.symm.trans he; exact hp
          else isFalse fun hf => hp (hf fid frame refcnt h)
      | none => isTrue fun _ _ _ he => by cases h.symm.trans he
  | .add_frame _ | .get_frame _ | .add_frame_mapping _ | .deallocate_frame _ => isTrue trivial

/-- The table's step where the registry keeps to it, and nothing promised elsewhere. -/
def followed_step (t : FrameTable) (op : FrameOp) : Option (FrameTable × Except KError FrameReply) :=
  if t.Follows op then some (t.step op) else none

theorem lowest_eq_some {p : ℕ → Bool} {fid : ℕ} :
    lowest p = some fid ↔ fid < MAX_FRAMES_PER_PROCESS ∧ p fid ∧ ∀ j < fid, p j = false := by
  simp only [lowest, List.find?_range_eq_some, List.mem_range, Bool.not_eq_true']
  tauto

theorem lowest_eq_none {p : ℕ → Bool} :
    lowest p = none ↔ ∀ fid < MAX_FRAMES_PER_PROCESS, p fid = false := by
  simp only [lowest, List.find?_range_eq_none, Bool.not_eq_true']

theorem first_eq_some {t : FrameTable} {fid : ℕ} {frame : Frame} {refcnt : ℕ} :
    t.first = some (fid, frame, refcnt) ↔
      fid < MAX_FRAMES_PER_PROCESS ∧ t fid = some (frame, refcnt) ∧ ∀ j < fid, t j = none := by
  simp only [first, Option.bind_eq_some_iff, Option.map_eq_some_iff, lowest_eq_some,
    Option.isSome_iff_ne_none, ne_eq, Prod.mk.injEq]
  constructor
  · rintro ⟨k, ⟨hk, -, hbefore⟩, e, he, rfl, rfl⟩
    exact ⟨hk, he, fun j hj => by simpa using hbefore j hj⟩
  · rintro ⟨hk, he, hbefore⟩
    exact ⟨fid, ⟨hk, by simp [he], fun j hj => by simp [hbefore j hj]⟩, _, he, rfl, rfl⟩

theorem first_eq_none {t : FrameTable} :
    t.first = none ↔ ∀ fid < MAX_FRAMES_PER_PROCESS, t fid = none := by
  rw [first, Option.bind_eq_none_iff]
  constructor
  · intro h fid hfid
    cases hl : lowest fun fid => (t fid).isSome with
    | none => simpa using lowest_eq_none.mp hl fid hfid
    | some k =>
        -- the lowest registered id has a frame, so the map cannot be empty
        obtain ⟨-, hk, -⟩ := lowest_eq_some.mp hl
        rw [Option.map_eq_none_iff.mp (h k hl)] at hk
        cases hk
  · intro h k hk
    rw [h k (lowest_eq_some.mp hk).1]
    rfl

end FrameTable

namespace ProcessFrames

/-- One operation of `FrameManagement` on the registry. -/
def step (pf : ProcessFrames) : FrameOp → Outcome (ProcessFrames × Except KError FrameReply)
  | .add_frame frame => let (pf, r) := pf.add_frame frame; .ok (pf, r.map .FrameId)
  | .get_frame frame_id =>
      .ok (pf, (pf.get_frame frame_id).map fun (frame, refcnt) => .Registered frame refcnt)
  | .add_frame_mapping frame_id =>
      let (pf, r) := pf.add_frame_mapping frame_id; .ok (pf, r.map fun () => .Done)
  | .remove_frame_mapping paddr => do
      let (pf, r) ← pf.remove_frame_mapping paddr
      .ok (pf, r.map fun () => .Done)
  | .deallocate_frame fid => let (pf, r) := pf.deallocate_frame fid; .ok (pf, r.map .Released)

/-! ## Reading slots through `lookup` -/

theorem lookup_of_lt (pf : ProcessFrames) {fid : ℕ} (h : fid < pf.frames.length) :
    pf.lookup fid = entryView pf.frames[fid] := by
  rw [lookup_eq, List.getElem?_eq_getElem h]
  rfl

@[simp] theorem entryView_isNone (e : Option Frame × ℕ) : (entryView e).isNone = e.1.isNone := by
  obtain ⟨_ | _, _⟩ := e <;> rfl

theorem lookup_set_eq_update (pf : ProcessFrames) {fid : ℕ} (hfid : fid < MAX_FRAMES_PER_PROCESS)
    (entry : Option Frame × ℕ) :
    (pf.set fid entry).lookup = Function.update pf.lookup fid (entryView entry) := by
  funext j
  rw [lookup_set pf hfid, Function.update_apply]

/-! ## One refinement lemma per operation -/

theorem findIdx?_free (pf : ProcessFrames) :
    pf.frames.findIdx? (fun entry => entry.1.isNone) =
      FrameTable.lowest fun fid => (pf.lookup fid).isNone := by
  have hlen := pf.length_frames
  ext fid
  rw [List.findIdx?_eq_some_iff_getElem, FrameTable.lowest, List.find?_range_eq_some]
  constructor
  · rintro ⟨hfid, hfree, hbefore⟩
    refine ⟨by rw [lookup_of_lt pf hfid, entryView_isNone]; exact hfree,
      List.mem_range.mpr (hlen ▸ hfid), fun j hj => ?_⟩
    rw [lookup_of_lt pf (by omega), entryView_isNone]
    simpa [Option.isSome_iff_ne_none] using hbefore j hj
  · rintro ⟨hfree, hmem, hbefore⟩
    have hfid : fid < pf.frames.length := hlen ▸ List.mem_range.mp hmem
    refine ⟨hfid, by rwa [lookup_of_lt pf hfid, entryView_isNone] at hfree, fun j hj => ?_⟩
    have := hbefore j hj
    rw [lookup_of_lt pf (by omega), entryView_isNone] at this
    simpa [Option.isSome_iff_ne_none] using this

theorem lookup_add_frame (pf : ProcessFrames) (frame : Frame) :
    Prod.map lookup id (pf.add_frame frame) = FrameTable.add_frame pf.lookup frame := by
  unfold add_frame FrameTable.add_frame
  rw [findIdx?_free]
  rcases h : FrameTable.lowest fun fid => (pf.lookup fid).isNone with _ | fid
  · rfl
  · simp only [Prod.map, lookup_set_eq_update pf (FrameTable.lowest_eq_some.mp h).1]
    rfl

theorem lookup_add_frame_mapping_eq (pf : ProcessFrames) (frame_id : ℕ) :
    Prod.map lookup id (pf.add_frame_mapping frame_id) =
      FrameTable.add_frame_mapping pf.lookup frame_id := by
  rw [add_frame_mapping_eq]
  unfold FrameTable.add_frame_mapping
  rcases h : pf.lookup frame_id with _ | ⟨frame, refcnt⟩
  · rfl
  · simp only [Prod.map, lookup_set_eq_update pf (lt_of_lookup h)]
    rfl

theorem first_frame_eq_first (pf : ProcessFrames) :
    first_frame 0 pf.frames = FrameTable.first pf.lookup := by
  have hlen := pf.length_frames
  cases hff : first_frame 0 pf.frames with
  | some r =>
      obtain ⟨k, frame, refcnt⟩ := r
      obtain ⟨-, hk, hbefore⟩ := first_frame_spec hff
      rw [Nat.sub_zero] at hk hbefore
      have hlt : k < pf.frames.length := (List.getElem?_eq_some_iff.mp hk).1
      refine (FrameTable.first_eq_some.mpr ⟨hlen ▸ hlt, by rw [lookup_eq, hk]; rfl, ?_⟩).symm
      intro j hj
      obtain ⟨c, hc⟩ := hbefore j hj
      rw [lookup_eq, hc]
      rfl
  | none =>
      have hnone := first_frame_eq_none hff
      refine (FrameTable.first_eq_none.mpr fun fid hfid => ?_).symm
      have hlt : fid < pf.frames.length := hlen ▸ hfid
      rw [lookup_of_lt pf hlt, ← Option.isNone_iff_eq_none, entryView_isNone,
        hnone _ (List.getElem_mem hlt)]
      rfl

/-- Where the lowest registered frame is the one being unmapped, or there is none,
`remove_frame_mapping` returns and is the table's operation. -/
theorem lookup_remove_frame_mapping (pf : ProcessFrames) (paddr : ℕ)
    (hf : FrameTable.Follows pf.lookup (.remove_frame_mapping paddr)) :
    ∃ pf' r, pf.remove_frame_mapping paddr = .ok (pf', r) ∧
      (pf'.lookup, r) = FrameTable.remove_frame_mapping pf.lookup paddr := by
  unfold remove_frame_mapping FrameTable.remove_frame_mapping
  rw [first_frame_eq_first]
  cases hfirst : FrameTable.first pf.lookup with
  | some r =>
      obtain ⟨k, frame, refcnt⟩ := r
      obtain ⟨hbase, hpos⟩ := hf k frame refcnt hfirst
      obtain ⟨hk, hslot, hbefore⟩ := FrameTable.first_eq_some.mp hfirst
      -- the lowest registered frame is also the lowest one at `paddr` with a mapping
      have hlowest : (FrameTable.lowest fun fid =>
          (pf.lookup fid).any fun e => e.1.base = paddr ∧ 0 < e.2) = some k :=
        FrameTable.lowest_eq_some.mpr ⟨hk, by simp [hslot, hbase, hpos],
          fun j hj => by simp [hbefore j hj]⟩
      refine ⟨_, _, if_pos ⟨hbase, hpos⟩, ?_⟩
      rw [hlowest, lookup_set_eq_update pf hk]
      dsimp only
      rw [hslot]
      rfl
  | none =>
      have hall := FrameTable.first_eq_none.mp hfirst
      have hlowest : (FrameTable.lowest fun fid =>
          (pf.lookup fid).any fun e => e.1.base = paddr ∧ 0 < e.2) = none :=
        FrameTable.lowest_eq_none.mpr fun fid hfid => by simp [hall fid hfid]
      exact ⟨_, _, rfl, by rw [hlowest]⟩

/-- Every empty slot has count zero. `default` starts so, and nothing writes a count into an
empty slot; `deallocate_frame` relies on it to answer `InvalidFrameId` on an empty slot. -/
def Wf (pf : ProcessFrames) : Prop := ∀ e ∈ pf.frames, e.1 = none → e.2 = 0

theorem wf_default : default.Wf := by
  intro e he _
  rw [default, List.mem_replicate] at he
  rw [he.2]

theorem Wf.set {pf : ProcessFrames} (hwf : pf.Wf) (fid : ℕ) {entry : Option Frame × ℕ}
    (hentry : entry.1 = none → entry.2 = 0) : (pf.set fid entry).Wf := by
  intro e he
  rcases List.mem_or_eq_of_mem_set he with he | rfl
  · exact hwf e he
  · exact hentry

theorem deallocate_frame_of_free {pf : ProcessFrames} (hwf : pf.Wf) {fid : ℕ}
    (h : pf.lookup fid = none) : pf.deallocate_frame fid = (pf, .error .InvalidFrameId) := by
  unfold deallocate_frame
  rcases hslot : pf.frames[fid]? with _ | ⟨_ | f, c⟩
  · rfl
  · -- an empty slot: its count is zero by `Wf`
    obtain rfl : c = 0 := hwf _ (List.mem_of_getElem? hslot) rfl
    rfl
  · rw [lookup_eq, hslot] at h
    cases h

theorem lookup_deallocate_frame {pf : ProcessFrames} (hwf : pf.Wf) (fid : ℕ) :
    Prod.map lookup id (pf.deallocate_frame fid) = FrameTable.deallocate_frame pf.lookup fid := by
  unfold FrameTable.deallocate_frame
  rcases h : pf.lookup fid with _ | ⟨frame, _ | refcnt⟩
  · rw [deallocate_frame_of_free hwf h]
    rfl
  · rw [deallocate_frame_of_lookup h, if_pos rfl]
    simp only [Prod.map, lookup_set_eq_update pf (lt_of_lookup h)]
    rfl
  · rw [deallocate_frame_of_lookup h, if_neg (Nat.succ_ne_zero refcnt)]
    rfl

theorem Wf.add_frame {pf : ProcessFrames} (hwf : pf.Wf) (frame : Frame) :
    (pf.add_frame frame).1.Wf := by
  unfold ProcessFrames.add_frame
  split
  · exact hwf.set _ nofun
  · exact hwf

theorem Wf.add_frame_mapping {pf : ProcessFrames} (hwf : pf.Wf) (frame_id : ℕ) :
    (pf.add_frame_mapping frame_id).1.Wf := by
  rw [add_frame_mapping_eq]
  split
  · exact hwf.set _ nofun
  · exact hwf

theorem Wf.remove_frame_mapping {pf pf' : ProcessFrames} (hwf : pf.Wf) {paddr : ℕ}
    {r : Except KError Unit} (h : pf.remove_frame_mapping paddr = .ok (pf', r)) : pf'.Wf := by
  rcases remove_frame_mapping_eq_ok h with ⟨fid, frame, refcnt, -, -, -, rfl, -⟩ | ⟨-, rfl, -⟩
  · exact hwf.set _ nofun
  · exact hwf

theorem Wf.deallocate_frame {pf : ProcessFrames} (hwf : pf.Wf) (fid : ℕ) :
    (pf.deallocate_frame fid).1.Wf := by
  rcases h : pf.lookup fid with _ | ⟨frame, refcnt⟩
  · rw [deallocate_frame_of_free hwf h]
    exact hwf
  · rw [deallocate_frame_of_lookup h]
    split
    · exact hwf.set _ fun _ => rfl
    · exact hwf

/-- One operation of the registry, where it keeps to the table, returns the table's reply and
leaves the table's state. -/
theorem step_refines {pf : ProcessFrames} (hwf : pf.Wf) {op : FrameOp}
    (hf : FrameTable.Follows pf.lookup op) :
    ∃ pf', pf.step op = .ok (pf', (FrameTable.step pf.lookup op).2) ∧
      pf'.Wf ∧ pf'.lookup = (FrameTable.step pf.lookup op).1 := by
  cases op with
  | add_frame frame =>
      refine ⟨_, ?_, hwf.add_frame frame, congrArg Prod.fst (lookup_add_frame pf frame)⟩
      simp only [step, FrameTable.step, ← lookup_add_frame pf frame]
      rfl
  | get_frame frame_id =>
      refine ⟨pf, ?_, hwf, rfl⟩
      simp only [step, FrameTable.step, get_frame_eq, FrameTable.get_frame]
  | add_frame_mapping frame_id =>
      refine ⟨_, ?_, hwf.add_frame_mapping frame_id,
        congrArg Prod.fst (lookup_add_frame_mapping_eq pf frame_id)⟩
      simp only [step, FrameTable.step, ← lookup_add_frame_mapping_eq pf frame_id]
      rfl
  | remove_frame_mapping paddr =>
      obtain ⟨pf', r, hrem, hview⟩ := lookup_remove_frame_mapping pf paddr hf
      refine ⟨pf', ?_, hwf.remove_frame_mapping hrem, by simp only [FrameTable.step, ← hview]⟩
      simp only [step, FrameTable.step, hrem, ← hview, Outcome.ok_bind]
  | deallocate_frame fid =>
      refine ⟨_, ?_, hwf.deallocate_frame fid,
        congrArg Prod.fst (lookup_deallocate_frame hwf fid)⟩
      simp only [step, FrameTable.step, ← lookup_deallocate_frame hwf fid]
      rfl

/-- The registry, read through `lookup`, simulates the table on the operations it keeps to. -/
theorem simulates :
    Sim.Simulates step FrameTable.followed_step fun pf t => pf.Wf ∧ pf.lookup = t := by
  rintro pf _ op t' o ⟨hwf, rfl⟩ h
  unfold FrameTable.followed_step at h
  split at h
  · rename_i hf
    obtain ⟨rfl, rfl⟩ := Prod.mk.inj (Option.some.inj h).symm
    exact step_refines hwf hf
  · cases h

/-- Over every run from `default`, wherever each `remove_frame_mapping` unmaps the lowest
registered frame, the registry returns what the table returns and ends in the table's state. -/
theorem lookup_runImpl (ops : List FrameOp) {t' : FrameTable}
    {os : List (Except KError FrameReply)}
    (h : Sim.runSpec FrameTable.followed_step default.lookup ops = some (t', os)) :
    ∃ pf', Sim.runImpl step default ops = .ok (pf', os) ∧ pf'.lookup = t' := by
  obtain ⟨pf', hrun, -, hview⟩ := simulates.runs ops default _ t' os ⟨wf_default, rfl⟩ h
  exact ⟨pf', hrun, hview⟩

/-- `remove_frame_mapping` against the table: when the lowest registered frame is not at `paddr`
with a mapping, unmapping a mapped frame registered at a higher id panics, where the table
takes one from its count. -/
theorem remove_frame_mapping_behind_first (pf : ProcessFrames) {j fid : ℕ} {g frame : Frame}
    {c refcnt : ℕ} (hbefore : ∀ i < j, pf.lookup i = none) (hj : pf.lookup j = some (g, c))
    (hg : ¬ (g.base = frame.base ∧ 0 < c)) (hfid : pf.lookup fid = some (frame, refcnt))
    (hpos : 0 < refcnt) :
    pf.remove_frame_mapping frame.base = .panic ∧
      (FrameTable.remove_frame_mapping pf.lookup frame.base).2 = .ok () := by
  constructor
  · -- the loop stops at slot `j`
    have hfirst : FrameTable.first pf.lookup = some (j, g, c) :=
      FrameTable.first_eq_some.mpr ⟨lt_of_lookup hj, hj, hbefore⟩
    rw [remove_frame_mapping, first_frame_eq_first, hfirst]
    exact if_neg hg
  · -- the table finds slot `fid` or a lower one with a mapping of the same base
    unfold FrameTable.remove_frame_mapping
    cases hl : FrameTable.lowest fun fid =>
        (pf.lookup fid).any fun e => e.1.base = frame.base ∧ 0 < e.2 with
    | some k => rfl
    | none =>
        have := FrameTable.lowest_eq_none.mp hl fid (lt_of_lookup hfid)
        simp [hfid, hpos] at this

theorem remove_frame_mapping_second_frame :
    (((default.add_frame ⟨0, BASE_PAGE_SIZE, 0⟩).1.add_frame ⟨BASE_PAGE_SIZE, BASE_PAGE_SIZE, 0⟩).1.add_frame_mapping
        1).1.remove_frame_mapping BASE_PAGE_SIZE = .panic ∧
      (FrameTable.remove_frame_mapping (((default.add_frame ⟨0, BASE_PAGE_SIZE, 0⟩).1.add_frame
        ⟨BASE_PAGE_SIZE, BASE_PAGE_SIZE, 0⟩).1.add_frame_mapping 1).1.lookup BASE_PAGE_SIZE).2 = .ok () :=
  remove_frame_mapping_behind_first _ (fun _ h => absurd h (Nat.not_lt_zero _))
    (show (((default.add_frame ⟨0, BASE_PAGE_SIZE, 0⟩).1.add_frame
        ⟨BASE_PAGE_SIZE, BASE_PAGE_SIZE, 0⟩).1.add_frame_mapping 1).1.lookup 0 =
      some (⟨0, BASE_PAGE_SIZE, 0⟩, 0) by decide)
    (by decide)
    (show (((default.add_frame ⟨0, BASE_PAGE_SIZE, 0⟩).1.add_frame
        ⟨BASE_PAGE_SIZE, BASE_PAGE_SIZE, 0⟩).1.add_frame_mapping 1).1.lookup 1 =
      some (⟨BASE_PAGE_SIZE, BASE_PAGE_SIZE, 0⟩, 1) by decide)
    (by decide)

end ProcessFrames

end Nrk.Process
