import Nrk.Fs.Cnrfs
import Nrk.Lib.Simulation

/-! # What replicas of the file-system node do

The log mapping and the two dispatch functions of `cnrfs.rs`, operation by operation. -/

namespace Nrk.Fs
namespace MlnrKernelNode

@[simp] theorem setTable_fs (n : MlnrKernelNode) (pid : Pid) (p : FileDescriptorTable) :
    (n.setTable pid p).fs = n.fs := rfl

theorem node_of_ok {β : Type} {n n' : MlnrKernelNode} {r r' : β}
    (h : (Outcome.ok (n, r) : Outcome (MlnrKernelNode × β)) = .ok (n', r')) : n' = n :=
  (Prod.mk.inj (Outcome.ok.inj h)).1.symm

theorem unchanged {n n' : MlnrKernelNode} {P : Prop} (h : n' = n) : n'.fs = n.fs ∧ (P → n' = n) :=
  ⟨h ▸ rfl, fun _ => h⟩

/-! ## Log mapping -/

theorem mnode_log_of_lt {mnode : ℕ} (h : mnode < MNODE_OFFSET) (nlogs : ℕ) :
    mnode_log mnode nlogs = .panic := by
  simp [mnode_log, Outcome.checkedSub_of_lt h]

theorem mnode_log_of_le {mnode nlogs : ℕ} (h : MNODE_OFFSET ≤ mnode) (hn : 0 < nlogs) :
    ∃ i, mnode_log mnode nlogs = .ok i ∧ i < nlogs :=
  ⟨(mnode - MNODE_OFFSET) % nlogs,
    by simp [mnode_log, Outcome.checkedSub_of_le h, Outcome.checkedRem_of_pos hn],
    Nat.mod_lt _ hn⟩

/-- The root directory is mnode `1`, and the log of an access to mnode `1` underflows. -/
theorem root_mnode_log_underflows :
    MlnrFS.default.lookup "/" = some 1 ∧
      ∀ (nlogs : ℕ) (pid : Pid) (fd : FileDescriptor) (userslice : List UInt8) (offset : ℤ),
        (Access.FileRead pid fd 1 userslice offset).hash nlogs = .panic := by
  refine ⟨rfl, fun nlogs pid fd userslice offset => ?_⟩
  simp [Access.hash, mnode_log_of_lt (show 1 < MNODE_OFFSET by decide)]

/-! ## `dispatch` -/

/-- A `FileRead` leaves the file system alone; with an explicit offset it leaves the whole
node alone. -/
theorem file_read_node {n n' : MlnrKernelNode} {pid : Pid} {fd : FileDescriptor}
    {u : List UInt8} {offset : ℤ} {r : Except KError (List UInt8 × ℕ)}
    (h : n.file_read pid fd u offset = .ok (n', r)) :
    n'.fs = n.fs ∧ (offset ≠ -1 → n' = n) := by
  unfold file_read at h
  rcases hp : n.process_map pid with _ | p
  · simp only [hp] at h
    exact unchanged (node_of_ok h)
  rcases he : p.get_fd fd with _ | e
  · simp only [hp, he] at h
    exact unchanged (node_of_ok h)
  simp only [hp, he] at h
  split at h
  · exact unchanged (node_of_ok h)
  obtain ⟨res, -, hrest⟩ := Outcome.bind_eq_ok.mp h
  rcases res with err | ⟨u', len⟩
  · exact unchanged (node_of_ok hrest)
  · dsimp only at hrest
    split at hrest
    · -- no offset given: only the descriptor's offset moves
      obtain ⟨_, -, hret⟩ := Outcome.bind_eq_ok.mp hrest
      rw [node_of_ok hret]
      exact ⟨rfl, fun hne => absurd ‹offset = -1› hne⟩
    · exact unchanged (node_of_ok hrest)

/-- What `dispatch` does to the node: the file system never changes, and only a `FileRead`
without an offset changes anything. -/
theorem dispatch_node {n n' : MlnrKernelNode} {op : Access}
    {r : Except KError MlnrNodeResult} {u : Option (List UInt8)}
    (h : n.dispatch op = .ok (n', r, u)) :
    n'.fs = n.fs ∧
      ((∀ pid fd mnode userslice, op ≠ .FileRead pid fd mnode userslice (-1)) → n' = n) := by
  cases op with
  | FileRead pid fd mnode userslice offset =>
      obtain ⟨⟨n₁, r₁⟩, hread, hret⟩ := Outcome.bind_eq_ok.mp h
      have hn : n' = n₁ := by
        rcases r₁ with _ | _ <;> exact node_of_ok hret
      obtain ⟨hfs, hsame⟩ := file_read_node hread
      subst hn
      exact ⟨hfs, fun hne => hsame fun hoff => hne pid fd mnode userslice (hoff ▸ rfl)⟩
  | FileInfo pid name mnode =>
      apply unchanged
      simp only [dispatch] at h
      split at h
      · exact node_of_ok h
      split at h
      · exact node_of_ok h
      obtain ⟨_, -, hret⟩ := Outcome.bind_eq_ok.mp h
      exact node_of_ok hret
  | FdToMnode pid fd =>
      apply unchanged
      simp only [dispatch] at h
      split at h
      · exact node_of_ok h
      split at h <;> exact node_of_ok h
  | FileNameToMnode pid filename =>
      apply unchanged
      simp only [dispatch] at h
      split at h
      · exact node_of_ok h
      split at h <;> exact node_of_ok h
  | Synchronize log_id =>
      exact unchanged (node_of_ok h)

/-! ## `dispatch_mut` -/

/-- A `FileWrite` without an offset on an `O_APPEND` descriptor whose node is gone reaches the
`unreachable!` of `file_info`. -/
theorem file_write_append_panics {n : MlnrKernelNode} {pid : Pid} {fd : FileDescriptor}
    {p : FileDescriptorTable} {e : FileDescriptorEntry} (hp : n.process_map pid = some p)
    (he : p.get_fd fd = some e) (hw : e.flags.is_write = true) (ha : e.flags.is_append = true)
    (hm : n.fs.mnodes e.mnode = none) (mnode : MnodeNum) (kernslice : List UInt8)
    (a : Allocator) : (n.dispatch_mut (.FileWrite pid fd mnode kernslice (-1))).run a = .panic := by
  simp [dispatch_mut, file_write, hp, he, hw, write_offset, ha, MlnrFS.file_info, hm]

end MlnrKernelNode

open MlnrKernelNode

/-- Open a file with `O_RDWR | O_CREAT | O_APPEND`, delete it, then write without an offset:
the replica panics. -/
theorem append_write_after_delete_panics :
    Sim.runImpl step (MlnrKernelNode.default, Allocator.unlimited)
      [.modify (.ProcessAdd 0), .modify (.FileOpen 0 "f" ⟨0x2203⟩ FileModes.S_IRWXU),
        .modify (.FileDelete 0 "f"), .modify (.FileWrite 0 ⟨0, by decide⟩ 2 [1] (-1))] =
      .panic := rfl

/-- Two replicas apply the same `Modify` operations; one of them also serves a `FileRead`
without an offset. The final read at offset `0` then returns different bytes on the two. -/
theorem read_cursor_diverges :
    (∃ sA, Sim.runImpl step (MlnrKernelNode.default, Allocator.unlimited)
      [.modify (.ProcessAdd 0), .modify (.FileOpen 0 "f" ⟨0x203⟩ FileModes.S_IRWXU),
        .modify (.FileWrite 0 ⟨0, by decide⟩ 2 [1, 2] 0),
        .access (.FileRead 0 ⟨0, by decide⟩ 2 [0, 0] (-1)),
        .modify (.FileWrite 0 ⟨0, by decide⟩ 2 [3] (-1)),
        .access (.FileRead 0 ⟨0, by decide⟩ 2 [0, 0, 0] 0)] =
      .ok (sA, [(.ok (.ProcessAdded 0), none), (.ok (.FileOpened ⟨0, by decide⟩), none),
        (.ok (.FileAccessed 2), none), (.ok (.FileAccessed 2), some [1, 2]),
        (.ok (.FileAccessed 1), none), (.ok (.FileAccessed 3), some [1, 2, 3])])) ∧
    (∃ sB, Sim.runImpl step (MlnrKernelNode.default, Allocator.unlimited)
      [.modify (.ProcessAdd 0), .modify (.FileOpen 0 "f" ⟨0x203⟩ FileModes.S_IRWXU),
        .modify (.FileWrite 0 ⟨0, by decide⟩ 2 [1, 2] 0),
        .modify (.FileWrite 0 ⟨0, by decide⟩ 2 [3] (-1)),
        .access (.FileRead 0 ⟨0, by decide⟩ 2 [0, 0, 0] 0)] =
      .ok (sB, [(.ok (.ProcessAdded 0), none), (.ok (.FileOpened ⟨0, by decide⟩), none),
        (.ok (.FileAccessed 2), none), (.ok (.FileAccessed 1), none),
        (.ok (.FileAccessed 2), some [3, 2, 0])])) :=
  ⟨⟨_, rfl⟩, ⟨_, rfl⟩⟩

end Nrk.Fs
