import Nrk.Fs.FileSpec
import Nrk.Fs.FlatFS

/-! # Memory nodes against flat nodes -/

namespace Nrk.Fs
open List

namespace MemNode

inductive Represents : MemNode → FlatNode → Prop
  | dir {mn : MemNode} (modes : FileModes) (ht : mn.node_type = .Directory) (hf : mn.file = none) :
      Represents mn ⟨.Directory, modes, []⟩
  | file {mn : MemNode} {f : File} (ht : mn.node_type = .File) (hf : mn.file = some f)
      (hwf : f.Wf) : Represents mn ⟨.File, f.modes, f.contents⟩

theorem new_unlimited (mnode_num : MnodeNum) (pathname : String) (modes : FileModes)
    (t : FileType) :
    ∃ mn, (new mnode_num pathname modes t).run Allocator.unlimited =
      .ok (.ok mn, Allocator.unlimited) ∧ Represents mn ⟨t, modes, []⟩ := by
  cases t with
  | Directory =>
      exact ⟨⟨mnode_num, pathname, .Directory, none⟩, rfl, .dir modes rfl rfl⟩
  | File =>
      exact ⟨⟨mnode_num, pathname, .File, some ⟨[], modes⟩⟩, rfl,
        @Represents.file ⟨mnode_num, pathname, .File, some ⟨[], modes⟩⟩ ⟨[], modes⟩ rfl rfl
          (chunked_nil _)⟩

theorem write_refines {mn : MemNode} {n n' : FlatNode} (h : Represents mn n) {buf : List UInt8}
    {off : ℕ} {r : Except KError ℕ} (hw : n.write buf off = some (n', r)) :
    ∃ mn', (mn.write buf off).run Allocator.unlimited = .ok ((mn', r), Allocator.unlimited) ∧
      Represents mn' n' := by
  cases h with
  | dir modes ht hf =>
      have hn : ¬ (FlatNode.mk .Directory modes []).Writable := fun hw => nomatch hw.1
      simp only [FlatNode.write, hn, not_false_eq_true, if_true, Option.some.injEq,
        Prod.mk.injEq] at hw
      obtain ⟨rfl, rfl⟩ := hw
      refine ⟨mn, ?_, .dir modes ht hf⟩
      simp [write, ht]
  | @file f ht hf hwf =>
      by_cases hwr : f.modes.is_writable = true
      · have hn : (FlatNode.mk .File f.modes f.contents).Writable := ⟨rfl, hwr⟩
        by_cases hov : 2 ^ USIZE_BITS ≤ off + buf.length
        · simp [FlatNode.write, hn, hov] at hw
        · simp only [FlatNode.write, hn, not_true_eq_false, if_false, hov, Option.some.injEq,
            Prod.mk.injEq] at hw
          obtain ⟨rfl, rfl⟩ := hw
          obtain ⟨f', hrun, hwf', hmodes, hcontents⟩ :=
            File.write_file_unlimited hwf buf off (by omega)
          refine ⟨{ mn with file := some f' }, ?_, ?_⟩
          · simp [write, ht, hf, File.get_mode, hwr, hrun]
          · have hrep := @Represents.file { mn with file := some f' } f' ht rfl hwf'
            rwa [hmodes, hcontents] at hrep
      · have hn : ¬ (FlatNode.mk .File f.modes f.contents).Writable := fun hw => hwr hw.2
        simp only [FlatNode.write, hn, not_false_eq_true, if_true, Option.some.injEq,
          Prod.mk.injEq] at hw
        obtain ⟨rfl, rfl⟩ := hw
        refine ⟨mn, ?_, .file ht hf hwf⟩
        simp [write, ht, hf, File.get_mode, hwr]

theorem read_refines {mn : MemNode} {n : FlatNode} (h : Represents mn n) (dst : List UInt8)
    (off : ℕ) : mn.read dst off = .ok (n.read dst off) := by
  cases h with
  | dir modes ht hf =>
      have hn : ¬ (FlatNode.mk .Directory modes []).Readable := fun hr => nomatch hr.1
      simp [read, ht, FlatNode.read, hn]
  | @file f ht hf hwf =>
      by_cases hrd : f.modes.is_readable = true
      · have hn : (FlatNode.mk .File f.modes f.contents).Readable := ⟨rfl, hrd⟩
        have hsize : mn.get_file_size = .ok f.contents.length := by
          simp only [get_file_size, hf, File.get_size_eq hwf]
        simp only [read, ht, hf, File.get_mode, hrd, hsize, FlatNode.read, hn, ne_eq,
          not_true_eq_false, if_false, Bool.not_true, Bool.false_eq_true, Outcome.ok_bind,
          Outcome.pure_eq]
        -- the number of bytes both sides read
        generalize hk : min (f.contents.length - off) dst.length = k
        split_ifs with hend hk0 hrange
        · have hk0 : k = 0 := by omega
          simp [hk0]
        · simp [hk0]
        · omega
        · have hfile := File.read_file_eq hwf dst (show off < off + k by omega)
            (show off + k ≤ f.contents.length by omega) (by omega)
          rwa [Nat.add_sub_cancel_left] at hfile
      · have hn : ¬ (FlatNode.mk .File f.modes f.contents).Readable := fun hr => hrd hr.2
        simp [read, ht, hf, File.get_mode, hrd, FlatNode.read, hn]

theorem file_truncate_refines {mn : MemNode} {n : FlatNode} (h : Represents mn n) :
    ∃ mn', mn.file_truncate = .ok (mn', n.truncate.2) ∧ Represents mn' n.truncate.1 := by
  cases h with
  | dir modes ht hf =>
      have hn : ¬ (FlatNode.mk .Directory modes []).Writable := fun hw => nomatch hw.1
      refine ⟨mn, ?_, ?_⟩
      · simp [file_truncate, ht, FlatNode.truncate, hn]
      · simpa [FlatNode.truncate, hn] using Represents.dir modes ht hf
  | @file f ht hf hwf =>
      by_cases hwr : f.modes.is_writable = true
      · have hn : (FlatNode.mk .File f.modes f.contents).Writable := ⟨rfl, hwr⟩
        refine ⟨{ mn with file := some f.file_truncate }, ?_, ?_⟩
        · simp [file_truncate, ht, hf, File.get_mode, hwr, FlatNode.truncate, hn]
        · simpa [FlatNode.truncate, hn] using
            @Represents.file { mn with file := some f.file_truncate } f.file_truncate ht rfl
              (File.wf_file_truncate f)
      · have hn : ¬ (FlatNode.mk .File f.modes f.contents).Writable := fun hw => hwr hw.2
        refine ⟨mn, ?_, ?_⟩
        · simp [file_truncate, ht, hf, File.get_mode, hwr, FlatNode.truncate, hn]
        · simpa [FlatNode.truncate, hn] using Represents.file ht hf hwf

end MemNode

end Nrk.Fs
