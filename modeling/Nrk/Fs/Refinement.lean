import Nrk.Fs.MemNodeSpec
import Nrk.Lib.Simulation

/-! # The in-memory file system refines the flat file system -/

namespace Nrk.Fs
open Function

structure Refines (fs : MlnrFS) (s : FlatFS) : Prop where
  files : fs.files = s.paths
  next : fs.nextmemnode = s.next
  nodes : ∀ m, Option.Rel MemNode.Represents (fs.mnodes m) (s.nodes m)

/-! ## Node maps -/

section NodeMaps

variable {α β γ : Type*} [DecidableEq α] {R : β → γ → Prop}

theorem rel_update {f : α → Option β} {g : α → Option γ} (h : ∀ x, Option.Rel R (f x) (g x))
    (k : α) {a : Option β} {b : Option γ} (hab : Option.Rel R a b) :
    ∀ x, Option.Rel R (update f k a x) (update g k b x) := by
  intro x
  by_cases hx : x = k
  · subst hx
    simpa using hab
  · simpa [hx] using h x

theorem rel_some_right {a : Option β} {c : γ} (h : Option.Rel R a (some c)) :
    ∃ b, a = some b ∧ R b c := by
  cases h with
  | some hr => exact ⟨_, rfl, hr⟩

theorem rel_none_right {a : Option β} (h : Option.Rel R a (none : Option γ)) : a = none := by
  cases h
  rfl

end NodeMaps

namespace Refines

variable {fs : MlnrFS} {s : FlatFS}

theorem node_some (h : Refines fs s) {m : MnodeNum} {n : FlatNode} (hn : s.nodes m = some n) :
    ∃ mn, fs.mnodes m = some mn ∧ MemNode.Represents mn n :=
  rel_some_right (hn ▸ h.nodes m)

theorem node_none (h : Refines fs s) {m : MnodeNum} (hn : s.nodes m = none) :
    fs.mnodes m = none :=
  rel_none_right (hn ▸ h.nodes m)

theorem setNode (h : Refines fs s) {m : MnodeNum} {mn : MemNode} {n : FlatNode}
    (hrep : MemNode.Represents mn n) :
    Refines { fs with mnodes := update fs.mnodes m (some mn) } (s.setNode m n) :=
  ⟨h.files, h.next, rel_update h.nodes m (.some hrep)⟩

end Refines

theorem refines_default : Refines MlnrFS.default FlatFS.init := by
  refine ⟨rfl, rfl, ?_⟩
  intro m
  by_cases hm : m = 1
  · subst hm
    exact .some (.dir _ rfl rfl)
  · simp only [MlnrFS.default, FlatFS.init, hm, if_false]
    exact .none

/-! ## One lemma per call -/

section Calls

variable {fs : MlnrFS} {s : FlatFS}

theorem create_node_refines (h : Refines fs s) (p : String) (modes : FileModes) (t : FileType) :
    ∃ fs', (fs.create_node p modes t).run Allocator.unlimited =
        .ok ((fs', (s.create p modes t).2), Allocator.unlimited) ∧
      Refines fs' (s.create p modes t).1 := by
  by_cases hp : (s.paths p).isSome
  · refine ⟨fs, ?_, ?_⟩
    · simp [MlnrFS.create_node, FlatFS.create, h.files, hp]
    · simpa [FlatFS.create, hp] using h
  · obtain ⟨mn, hnew, hrep⟩ := MemNode.new_unlimited s.next p modes t
    refine ⟨{ mnodes := update fs.mnodes s.next (some mn)
              files := update fs.files p (some s.next)
              nextmemnode := s.next + 1 }, ?_, ?_⟩
    · simp [MlnrFS.create_node, MlnrFS.get_next_mno, FlatFS.create, h.files, h.next, hp, hnew]
    · simp only [FlatFS.create, hp, Bool.false_eq_true, if_false]
      exact ⟨by rw [h.files], rfl, rel_update h.nodes _ (.some hrep)⟩

theorem write_refines (h : Refines fs s) {m : MnodeNum} {buf : List UInt8} {off : ℕ}
    {s' : FlatFS} {r : Except KError ℕ} (hw : s.write m buf off = some (s', r)) :
    ∃ fs', (fs.write m buf off).run Allocator.unlimited = .ok ((fs', r), Allocator.unlimited) ∧
      Refines fs' s' := by
  cases hn : s.nodes m with
  | none =>
      simp only [FlatFS.write, hn, Option.some.injEq, Prod.mk.injEq] at hw
      obtain ⟨rfl, rfl⟩ := hw
      exact ⟨fs, by simp [MlnrFS.write, h.node_none hn], h⟩
  | some n =>
      simp only [FlatFS.write, hn, Option.map_eq_some_iff, Prod.exists] at hw
      obtain ⟨n', r', hnw, hret⟩ := hw
      simp only [Prod.mk.injEq] at hret
      obtain ⟨rfl, rfl⟩ := hret
      obtain ⟨mn, hmn, hrep⟩ := h.node_some hn
      obtain ⟨mn', hrun, hrep'⟩ := MemNode.write_refines hrep hnw
      exact ⟨_, by simp [MlnrFS.write, hmn, hrun], h.setNode hrep'⟩

theorem read_refines (h : Refines fs s) (m : MnodeNum) (dst : List UInt8) (off : ℕ) :
    fs.read m dst off = .ok (s.read m dst off) := by
  cases hn : s.nodes m with
  | none => simp [MlnrFS.read, FlatFS.read, hn, h.node_none hn]
  | some n =>
      obtain ⟨mn, hmn, hrep⟩ := h.node_some hn
      simp [MlnrFS.read, FlatFS.read, hn, hmn, MemNode.read_refines hrep]

theorem file_info_refines (h : Refines fs s) {m : MnodeNum} {i : FileInfo}
    (hi : s.file_info m = some i) : fs.file_info m = .ok i := by
  simp only [FlatFS.file_info, Option.map_eq_some_iff] at hi
  obtain ⟨n, hn, rfl⟩ := hi
  obtain ⟨mn, hmn, hrep⟩ := h.node_some hn
  cases hrep with
  | dir modes ht hf => simp [MlnrFS.file_info, hmn, MemNode.get_mnode_type, ht, FlatNode.info]
  | @file f ht hf hwf =>
      simp [MlnrFS.file_info, hmn, MemNode.get_mnode_type, ht, MemNode.get_file_size, hf,
        FlatNode.info, File.get_size_eq hwf]

theorem delete_refines (h : Refines fs s) (p : String) :
    (fs.delete p).2 = (s.delete p).2 ∧ Refines (fs.delete p).1 (s.delete p).1 := by
  cases hp : s.paths p with
  | none => simpa [MlnrFS.delete, FlatFS.delete, h.files, hp] using h
  | some m =>
      simp only [MlnrFS.delete, FlatFS.delete, h.files, hp, true_and]
      exact ⟨rfl, h.next, rel_update h.nodes m .none⟩

theorem truncate_refines (h : Refines fs s) (p : String) :
    ∃ fs', fs.truncate p = .ok (fs', (s.truncate p).2) ∧ Refines fs' (s.truncate p).1 := by
  cases hp : s.paths p with
  | none => exact ⟨fs, by simp [MlnrFS.truncate, FlatFS.truncate, h.files, hp], by
      simpa [FlatFS.truncate, hp] using h⟩
  | some m =>
      cases hn : s.nodes m with
      | none => exact ⟨fs, by simp [MlnrFS.truncate, FlatFS.truncate, h.files, hp, hn,
          h.node_none hn], by simpa [FlatFS.truncate, hp, hn] using h⟩
      | some n =>
          obtain ⟨mn, hmn, hrep⟩ := h.node_some hn
          obtain ⟨mn', htr, hrep'⟩ := MemNode.file_truncate_refines hrep
          refine ⟨{ fs with mnodes := update fs.mnodes m (some mn') }, ?_, ?_⟩
          · simp [MlnrFS.truncate, FlatFS.truncate, h.files, hp, hn, hmn, htr]
          · simpa [FlatFS.truncate, hp, hn] using h.setNode hrep'

theorem delete_files_of_ne {old new : String} (hne : old ≠ new) :
    (fs.delete new).1.files old = fs.files old := by
  unfold MlnrFS.delete
  cases fs.files new <;> simp [hne]

theorem delete_existing_refines (h : Refines fs s) (new : String) :
    ∃ fs₁, fs.delete_existing new = .ok fs₁ ∧ fs₁.files new = none ∧
      (∀ old, old ≠ new → fs₁.files old = fs.files old) ∧
      Refines fs₁ (if (s.paths new).isSome then (s.delete new).1 else s) := by
  cases hnew : s.paths new with
  | none =>
      refine ⟨fs, ?_, by rw [h.files, hnew], fun _ _ => rfl, by simpa using h⟩
      simp [MlnrFS.delete_existing, h.files, hnew]
  | some m' =>
      obtain ⟨hres, hdel⟩ := delete_refines h new
      refine ⟨(fs.delete new).1, ?_, ?_, fun old hne => delete_files_of_ne hne, by simpa using hdel⟩
      · simp [MlnrFS.delete_existing, MlnrFS.delete, h.files, hnew]
      · simp [MlnrFS.delete, h.files, hnew]

theorem rename_refines (h : Refines fs s) {old new : String} {s' : FlatFS}
    {r : Except KError Unit} (hr : s.rename old new = some (s', r)) :
    ∃ fs', fs.rename old new = .ok (fs', r) ∧ Refines fs' s' := by
  cases hold : s.paths old with
  | none =>
      simp only [FlatFS.rename, hold, Option.some.injEq, Prod.mk.injEq] at hr
      obtain ⟨rfl, rfl⟩ := hr
      exact ⟨fs, by simp [MlnrFS.rename, h.files, hold], h⟩
  | some m =>
      by_cases hne : old = new
      · subst hne
        simp [FlatFS.rename, hold] at hr
      simp only [FlatFS.rename, hold, hne, if_false, Option.some.injEq, Prod.mk.injEq] at hr
      obtain ⟨rfl, rfl⟩ := hr
      obtain ⟨fs₁, hdel, hnew₁, hkeep, h₁⟩ := delete_existing_refines h new
      have hold₁ : fs₁.files old = some m := by rw [hkeep old hne, h.files, hold]
      have hfresh : update fs₁.files old none new = none := by simp [Ne.symm hne, hnew₁]
      refine ⟨{ fs₁ with files := update (update fs₁.files old none) new (some m) }, ?_, ?_⟩
      · simp [MlnrFS.rename, h.files, hold, hdel, MlnrFS.move_entry, hold₁, hfresh]
      · exact ⟨by rw [h₁.files], h₁.next, h₁.nodes⟩

/-- `rename(p, p)` of a bound name deletes the name and its node, then fails to find the
name it is moving. -/
theorem rename_same_name_deletes (fs : MlnrFS) (p : String) (m : MnodeNum)
    (hp : fs.files p = some m) :
    fs.rename p p = .ok ({ fs with
      mnodes := update fs.mnodes m none
      files := update fs.files p none }, .error .InvalidFile) := by
  simp [MlnrFS.rename, MlnrFS.delete_existing, MlnrFS.delete, MlnrFS.move_entry, hp]

theorem rename_root_onto_itself :
    MlnrFS.default.files "/" = some 1 ∧
      MlnrFS.default.rename "/" "/" = .ok ({ MlnrFS.default with
        mnodes := update MlnrFS.default.mnodes 1 none
        files := update MlnrFS.default.files "/" none }, .error .InvalidFile) :=
  ⟨rfl, rename_same_name_deletes MlnrFS.default "/" 1 rfl⟩

end Calls

/-! ## Runs -/

/-- Every call that the flat file system defines is simulated by the in-memory file system
with an allocator that grants every request. -/
theorem step_simulates :
    Sim.Simulates MlnrFS.step FlatFS.call
      (fun st s => st.2 = Allocator.unlimited ∧ Refines st.1 s) := by
  rintro ⟨fs, a⟩ s c s' o ⟨rfl, h⟩ hc
  dsimp only at h
  cases c with
  | create p modes =>
      simp only [FlatFS.call, Option.some.injEq, Prod.mk.injEq] at hc
      obtain ⟨rfl, rfl⟩ := hc
      obtain ⟨fs', hrun, h'⟩ := create_node_refines h p modes .File
      exact ⟨(fs', Allocator.unlimited), by simp [MlnrFS.step, MlnrFS.call, MlnrFS.create, hrun], rfl, h'⟩
  | write m buf off =>
      simp only [FlatFS.call, Option.map_eq_some_iff, Prod.exists] at hc
      obtain ⟨s₁, r, hw, hret⟩ := hc
      simp only [Prod.mk.injEq] at hret
      obtain ⟨rfl, rfl⟩ := hret
      obtain ⟨fs', hrun, h'⟩ := write_refines h hw
      exact ⟨(fs', Allocator.unlimited), by simp [MlnrFS.step, MlnrFS.call, hrun], rfl, h'⟩
  | read m dst off =>
      simp only [FlatFS.call, Option.some.injEq, Prod.mk.injEq] at hc
      obtain ⟨rfl, rfl⟩ := hc
      exact ⟨(fs, Allocator.unlimited), by simp [MlnrFS.step, MlnrFS.call, read_refines h], rfl, h⟩
  | lookup p =>
      simp only [FlatFS.call, Option.some.injEq, Prod.mk.injEq] at hc
      obtain ⟨rfl, rfl⟩ := hc
      exact ⟨(fs, Allocator.unlimited), by simp [MlnrFS.step, MlnrFS.call, MlnrFS.lookup, h.files], rfl, h⟩
  | file_info m =>
      simp only [FlatFS.call, Option.map_eq_some_iff] at hc
      obtain ⟨i, hi, hret⟩ := hc
      simp only [Prod.mk.injEq] at hret
      obtain ⟨rfl, rfl⟩ := hret
      exact ⟨(fs, Allocator.unlimited), by simp [MlnrFS.step, MlnrFS.call, file_info_refines h hi], rfl, h⟩
  | delete p =>
      simp only [FlatFS.call, Option.some.injEq, Prod.mk.injEq] at hc
      obtain ⟨rfl, rfl⟩ := hc
      obtain ⟨hres, h'⟩ := delete_refines h p
      exact ⟨((fs.delete p).1, Allocator.unlimited), by simp [MlnrFS.step, MlnrFS.call, ← hres], rfl, h'⟩
  | truncate p =>
      simp only [FlatFS.call, Option.some.injEq, Prod.mk.injEq] at hc
      obtain ⟨rfl, rfl⟩ := hc
      obtain ⟨fs', htr, h'⟩ := truncate_refines h p
      exact ⟨(fs', Allocator.unlimited), by simp [MlnrFS.step, MlnrFS.call, htr], rfl, h'⟩
  | rename old new =>
      simp only [FlatFS.call, Option.map_eq_some_iff, Prod.exists] at hc
      obtain ⟨s₁, r, hr, hret⟩ := hc
      simp only [Prod.mk.injEq] at hret
      obtain ⟨rfl, rfl⟩ := hret
      obtain ⟨fs', hrun, h'⟩ := rename_refines h hr
      exact ⟨(fs', Allocator.unlimited), by simp [MlnrFS.step, MlnrFS.call, hrun], rfl, h'⟩
  | mkdir p modes =>
      simp only [FlatFS.call, Option.some.injEq, Prod.mk.injEq] at hc
      obtain ⟨rfl, rfl⟩ := hc
      obtain ⟨fs', hrun, h'⟩ := create_node_refines h p modes .Directory
      exact ⟨(fs', Allocator.unlimited), by simp [MlnrFS.step, MlnrFS.call, MlnrFS.mkdir, hrun], rfl, h'⟩

theorem mlnrfs_refines_flatfs (calls : List FsCall) (s : FlatFS) (replies : List FsReply)
    (h : Sim.runSpec FlatFS.call FlatFS.init calls = some (s, replies)) :
    ∃ fs, Sim.runImpl MlnrFS.step (MlnrFS.default, Allocator.unlimited) calls =
        .ok ((fs, Allocator.unlimited), replies) ∧ Refines fs s := by
  obtain ⟨⟨fs, a⟩, hrun, rfl, hR⟩ :=
    step_simulates.runs calls (MlnrFS.default, Allocator.unlimited) FlatFS.init s replies
      ⟨rfl, refines_default⟩ h
  exact ⟨fs, hrun, hR⟩

theorem mlnrfs_refines_flatfs_run :
    ∃ s fs, Sim.runSpec FlatFS.call FlatFS.init
        [.create "a" FileModes.S_IRWXU, .write 2 [7, 7] 3, .read 2 [0, 0, 0, 0, 0, 0] 1,
          .file_info 2, .rename "a" "b", .lookup "b"] =
        some (s, [.create (.ok 2), .write (.ok 2), .read (.ok ([0, 0, 7, 7, 0, 0], 4)),
          .file_info ⟨FileType.File.toU64, 5⟩, .rename (.ok ()), .lookup (some 2)]) ∧
      Sim.runImpl MlnrFS.step (MlnrFS.default, Allocator.unlimited)
        [.create "a" FileModes.S_IRWXU, .write 2 [7, 7] 3, .read 2 [0, 0, 0, 0, 0, 0] 1,
          .file_info 2, .rename "a" "b", .lookup "b"] =
        .ok ((fs, Allocator.unlimited), [.create (.ok 2), .write (.ok 2),
          .read (.ok ([0, 0, 7, 7, 0, 0], 4)), .file_info ⟨FileType.File.toU64, 5⟩,
          .rename (.ok ()), .lookup (some 2)]) ∧
      Refines fs s := by
  obtain ⟨fs, hrun, hR⟩ := mlnrfs_refines_flatfs
    [.create "a" FileModes.S_IRWXU, .write 2 [7, 7] 3, .read 2 [0, 0, 0, 0, 0, 0] 1,
      .file_info 2, .rename "a" "b", .lookup "b"] _
    [.create (.ok 2), .write (.ok 2), .read (.ok ([0, 0, 7, 7, 0, 0], 4)),
      .file_info ⟨FileType.File.toU64, 5⟩, .rename (.ok ()), .lookup (some 2)] rfl
  exact ⟨_, fs, rfl, hrun, hR⟩

/-- An empty write past the end of a file zero-fills it up to the offset: after
`write(m, [], 5)` on a new file, `file_info` reports five bytes. -/
theorem empty_write_extends_file :
    ∃ fs, Sim.runImpl MlnrFS.step (MlnrFS.default, Allocator.unlimited)
        [.create "a" FileModes.S_IRWXU, .write 2 [] 5, .file_info 2] =
      .ok ((fs, Allocator.unlimited),
        [.create (.ok 2), .write (.ok 0), .file_info ⟨FileType.File.toU64, 5⟩]) :=
  ⟨_, rfl⟩

end Nrk.Fs
