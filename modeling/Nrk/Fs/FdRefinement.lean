import Nrk.Fs.FdModel
import Nrk.Fs.Refinement
import Nrk.Fs.CnrfsSpec

/-! # The descriptor layer refines the descriptor model -/

namespace Nrk.Fs
open Function

/-! ## Descriptor tables as the model sees them -/

namespace FileDescriptorEntry

/-- The open file that an entry describes. -/
def view (e : FileDescriptorEntry) : OpenFile := ⟨e.mnode, e.flags, e.offset⟩

@[simp] theorem view_flags (e : FileDescriptorEntry) : e.view.flags = e.flags := rfl

@[simp] theorem view_node (e : FileDescriptorEntry) : e.view.node = e.mnode := rfl

@[simp] theorem view_cursor (e : FileDescriptorEntry) : e.view.cursor = e.offset := rfl

@[simp] theorem view_update_offset (e : FileDescriptorEntry) (k : ℕ) :
    (e.update_offset k).view = ⟨e.mnode, e.flags, k⟩ := rfl

end FileDescriptorEntry

namespace FileDescriptorTable

/-- The open files of a table, by descriptor. -/
def view (p : FileDescriptorTable) : Descriptors := fun fd => (p.get_fd fd).map FileDescriptorEntry.view

theorem get_fd_set (p : FileDescriptorTable) (fd fd' : FileDescriptor)
    (e : Option FileDescriptorEntry) :
    (p.set fd e).get_fd fd' = if fd' = fd then e else p.get_fd fd' := by
  simp only [get_fd, set, List.get_eq_getElem, List.getElem_set]
  by_cases h : fd' = fd
  · simp [h]
  · simp [h, Fin.val_ne_of_ne (Ne.symm h)]

theorem view_set (p : FileDescriptorTable) (fd : FileDescriptor) (e : Option FileDescriptorEntry) :
    (p.set fd e).view = update p.view fd (e.map FileDescriptorEntry.view) := by
  funext fd'
  by_cases h : fd' = fd
  · subst h
    simp [view, get_fd_set]
  · simp [view, get_fd_set, h]

theorem view_default : FileDescriptorTable.default.view = fun _ => none := by
  funext fd
  simp only [view, get_fd, FileDescriptorTable.default, List.get_eq_getElem,
    List.getElem_replicate, Option.map_none]

theorem allocate_fd_eq (p : FileDescriptorTable) :
    p.allocate_fd =
      (lowest_free p.view).map fun fd => (fd, p.set fd (some FileDescriptorEntry.default)) := by
  have hlow : p.table.findIdx? Option.isNone = (lowest_free p.view).map Fin.val := by
    rw [Slots.findIdx?_eq_lowest p.table p.length_table, lowest_free]
    congr 2
    funext fd
    simp only [view, get_fd, Option.isNone_map]
    rfl
  unfold allocate_fd
  split
  · rename_i fid h
    rw [hlow] at h
    obtain ⟨fd, hfd, rfl⟩ := Option.map_eq_some_iff.mp h
    rw [hfd]
    rfl
  · rename_i h
    rw [hlow, Option.map_eq_none_iff] at h
    rw [h]
    rfl

end FileDescriptorTable

/-! ## Offsets -/

theorem offset_as_usize_of_position {offset : ℤ} {k : ℕ} (h : FdModel.position offset = some k) :
    offset_as_usize offset = k := by
  obtain ⟨hk, hlt⟩ := FdModel.position_eq_some h
  subst hk
  have hmod : (k : ℤ) % 2 ^ USIZE_BITS = k :=
    Int.emod_eq_of_lt (Int.natCast_nonneg k) (by simp only [USIZE_BITS]; omega)
  rw [offset_as_usize, hmod, Int.toNat_natCast]

/-! ## The relation -/

/-- A replica's node and the model agree: the file system refines the flat one, and every
process's table shows the model's open files. -/
structure Related (n : MlnrKernelNode) (d : FdModel) : Prop where
  fs : Refines n.fs d.fs
  procs : ∀ pid, (n.process_map pid).map FileDescriptorTable.view = d.procs pid

namespace Related

variable {n : MlnrKernelNode} {d : FdModel}

theorem init : Related MlnrKernelNode.default FdModel.init :=
  ⟨refines_default, fun _ => rfl⟩

theorem table (h : Related n d) {pid : Pid} {t : Descriptors} (ht : d.procs pid = some t) :
    ∃ p, n.process_map pid = some p ∧ p.view = t := by
  have hp := h.procs pid
  rw [ht] at hp
  exact Option.map_eq_some_iff.mp hp

theorem setTable (h : Related n d) (pid : Pid) (p : FileDescriptorTable) :
    Related (n.setTable pid p) (d.setProc pid p.view) := by
  refine ⟨h.fs, fun pid' => ?_⟩
  by_cases hp : pid' = pid
  · subst hp
    simp [MlnrKernelNode.setTable, FdModel.setProc]
  · simpa [MlnrKernelNode.setTable, FdModel.setProc, hp] using h.procs pid'

theorem with_fs (h : Related n d) {fs : MlnrFS} {s : FlatFS} (hfs : Refines fs s) :
    Related { n with fs := fs } { d with fs := s } :=
  ⟨hfs, h.procs⟩

theorem setTable_of_view (h : Related n d) {pid : Pid} {p p' : FileDescriptorTable}
    (hp : n.process_map pid = some p) (hv : p'.view = p.view) : Related (n.setTable pid p') d := by
  refine ⟨h.fs, fun pid' => ?_⟩
  by_cases hq : pid' = pid
  · subst hq
    simp [MlnrKernelNode.setTable, hv, ← h.procs, hp]
  · simpa [MlnrKernelNode.setTable, hq] using h.procs pid'

end Related

/-! ## One lemma per operation -/

section Operations

open MlnrKernelNode

variable {n : MlnrKernelNode} {d : FdModel}

theorem read_offset_eq {e : FileDescriptorEntry} {offset : ℤ} {pos : ℕ}
    (hpos : FdModel.read_position e.view offset = some pos) :
    (if offset = -1 then e.offset else offset_as_usize offset) = pos := by
  unfold FdModel.read_position at hpos
  split_ifs at hpos ⊢
  · cases hpos
    rfl
  · exact offset_as_usize_of_position hpos

theorem write_offset_eq (h : Related n d) {e : FileDescriptorEntry} {offset : ℤ} {pos : ℕ}
    (hpos : FdModel.write_position d.fs e.view offset = some pos) :
    n.write_offset e offset = .ok pos := by
  unfold FdModel.write_position at hpos
  unfold write_offset
  by_cases hoff : offset = -1
  · by_cases happ : e.flags.is_append
    · -- under `O_APPEND` both ask for the size of the file
      simp only [hoff, happ, FileDescriptorEntry.view_flags, if_true] at hpos
      obtain ⟨i, hi, rfl⟩ := Option.map_eq_some_iff.mp hpos
      simp [hoff, happ, file_info_refines h.fs (e.view_node ▸ hi)]
    · simp only [hoff, happ, FileDescriptorEntry.view_flags, if_true, Bool.false_eq_true,
        if_false, Option.some.injEq] at hpos
      simp [hoff, happ, ← hpos]
  · simp only [hoff, if_false] at hpos ⊢
    rw [offset_as_usize_of_position hpos]

theorem process_add_simulates (h : Related n d) (pid : Pid) :
    ∃ n', (n.dispatch_mut (.ProcessAdd pid)).run Allocator.unlimited =
        .ok ((n', (d.process_add pid).2), Allocator.unlimited) ∧
      Related n' (d.process_add pid).1 := by
  have hproc := h.procs pid
  cases hp : n.process_map pid with
  | some p =>
      rw [hp] at hproc
      refine ⟨n, ?_, ?_⟩
      · simp [dispatch_mut, hp, FdModel.process_add, ← hproc]
      · simpa [FdModel.process_add, ← hproc] using h
  | none =>
      rw [hp] at hproc
      refine ⟨n.setTable pid FileDescriptorTable.default, ?_, ?_⟩
      · simp [dispatch_mut, hp, FdModel.process_add, ← hproc]
      · simpa [FdModel.process_add, ← hproc, FileDescriptorTable.view_default] using
          h.setTable pid FileDescriptorTable.default

theorem open_node_refines {fs : MlnrFS} {s : FlatFS} (h : Refines fs s) (filename : String)
    (flags : FileFlags) (modes : FileModes) :
    ∃ fs', (open_node fs filename flags modes (fs.lookup filename)).run Allocator.unlimited =
        .ok ((fs', (FdModel.open_node s filename flags modes).2), Allocator.unlimited) ∧
      Refines fs' (FdModel.open_node s filename flags modes).1 := by
  rw [MlnrFS.lookup, h.files]
  cases hp : s.paths filename with
  | none =>
      obtain ⟨fs', hrun, h'⟩ := create_node_refines h filename modes .File
      exact ⟨fs', by simpa [open_node, FdModel.open_node, hp, MlnrFS.create] using hrun,
        by simpa [FdModel.open_node, hp] using h'⟩
  | some m =>
      by_cases htr : flags.is_truncate
      · obtain ⟨fs', htrunc, h'⟩ := truncate_refines h filename
        exact ⟨fs', by simp [open_node, FdModel.open_node, hp, htr, htrunc],
          by simpa [FdModel.open_node, hp, htr] using h'⟩
      · exact ⟨fs, by simp [open_node, FdModel.open_node, hp, htr],
          by simpa [FdModel.open_node, hp, htr] using h⟩

theorem file_open_simulates (h : Related n d) {pid : Pid} {p : FileDescriptorTable}
    (hp : n.process_map pid = some p) (filename : String) (flags : FileFlags)
    (modes : FileModes) :
    ∃ n', (n.dispatch_mut (.FileOpen pid filename flags modes)).run Allocator.unlimited =
        .ok ((n', (d.file_open pid p.view filename flags modes).2), Allocator.unlimited) ∧
      Related n' (d.file_open pid p.view filename flags modes).1 := by
  have hlook : n.fs.lookup filename = d.fs.paths filename := by rw [MlnrFS.lookup, h.fs.files]
  by_cases hperm : (d.fs.paths filename).isNone ∧ !flags.is_create
  · -- a missing path without `O_CREAT`
    rw [FdModel.file_open, if_pos hperm]
    exact ⟨n, by simp only [dispatch_mut, file_open, hlook, if_pos hperm]; rfl, h⟩
  rw [FdModel.file_open, if_neg hperm]
  simp only [dispatch_mut, file_open, hlook, if_neg hperm]
  cases hfd : lowest_free p.view with
  | none => exact ⟨n, by simp [hp, FileDescriptorTable.allocate_fd_eq, hfd], h⟩
  | some fd =>
      have hfree : p.view fd = none := by
        simpa using (Slots.lowest_eq_some.mp hfd).1
      obtain ⟨fs', hrun, hfs'⟩ := open_node_refines h.fs filename flags modes
      rw [hlook] at hrun
      rcases hon : FdModel.open_node d.fs filename flags modes with ⟨s', _ | m⟩
      all_goals rw [hon] at hrun hfs'
      · -- the open failed: `deallocate_fd` frees the descriptor again
        have hview : ((p.set fd (some .default)).set fd none).view = p.view := by
          rw [FileDescriptorTable.view_set, FileDescriptorTable.view_set, update_idem,
            Option.map_none, update_eq_self_iff.mpr hfree.symm]
        refine ⟨{ n with fs := fs' }.setTable pid ((p.set fd (some .default)).set fd none), ?_,
          (h.with_fs hfs').setTable_of_view hp hview⟩
        simp [hp, FileDescriptorTable.allocate_fd_eq, hfd, hrun, open_failed,
          FileDescriptorTable.deallocate_fd, FileDescriptorTable.get_fd_set]
      · -- the new entry names the node, with the open flags and offset `0`
        have := (h.with_fs hfs').setTable pid ((p.set fd (some .default)).set fd
          (some (FileDescriptorEntry.default.update m flags)))
        rw [FileDescriptorTable.view_set, FileDescriptorTable.view_set, update_idem] at this
        exact ⟨_, by simp [hp, FileDescriptorTable.allocate_fd_eq, hfd, hrun], this⟩

theorem file_close_simulates (h : Related n d) {pid : Pid} {p : FileDescriptorTable}
    (hp : n.process_map pid = some p) (fd : FileDescriptor) :
    ∃ n', (n.dispatch_mut (.FileClose pid fd)).run Allocator.unlimited =
        .ok ((n', (d.file_close pid p.view fd).2), Allocator.unlimited) ∧
      Related n' (d.file_close pid p.view fd).1 := by
  rcases he : p.get_fd fd with _ | e
  · have hv : p.view fd = none := by simp [FileDescriptorTable.view, he]
    exact ⟨n, by simp [dispatch_mut, hp, FileDescriptorTable.deallocate_fd, he, FdModel.file_close, hv],
      by simpa [FdModel.file_close, hv] using h⟩
  · have hv : p.view fd = some e.view := by simp [FileDescriptorTable.view, he]
    have := h.setTable pid (p.set fd none)
    rw [FileDescriptorTable.view_set, Option.map_none] at this
    exact ⟨n.setTable pid (p.set fd none),
      by simp [dispatch_mut, hp, FileDescriptorTable.deallocate_fd, he, FdModel.file_close, hv],
      by simpa [FdModel.file_close, hv] using this⟩

theorem file_write_simulates (h : Related n d) {pid : Pid} {p : FileDescriptorTable}
    (hp : n.process_map pid = some p) {fd : FileDescriptor} {data : List UInt8} {offset : ℤ}
    {d' : FdModel} {r : Except KError MlnrNodeResult} {u : Option (List UInt8)}
    (hw : d.file_write pid p.view fd data offset = some (d', r, u)) :
    ∃ n', (n.file_write pid fd data offset).run Allocator.unlimited =
        .ok ((n', r), Allocator.unlimited) ∧ u = none ∧ Related n' d' := by
  unfold FdModel.file_write at hw
  rcases he : p.get_fd fd with _ | e
  · simp only [FileDescriptorTable.view, he, Option.map_none, Option.some.injEq,
      Prod.mk.injEq] at hw
    obtain ⟨rfl, rfl, rfl⟩ := hw
    exact ⟨n, by simp [file_write, hp, he], rfl, h⟩
  simp only [FileDescriptorTable.view, he, Option.map_some, FileDescriptorEntry.view_flags,
    FileDescriptorEntry.view_node] at hw
  rcases hwr : e.flags.is_write with _ | _
  · simp only [hwr, Bool.not_false, if_true, Option.some.injEq, Prod.mk.injEq] at hw
    obtain ⟨rfl, rfl, rfl⟩ := hw
    exact ⟨n, by simp [file_write, hp, he, hwr], rfl, h⟩
  simp only [hwr, Bool.not_true, Bool.false_eq_true, if_false, Option.bind_eq_bind] at hw
  obtain ⟨pos, hpos, hw⟩ := Option.bind_eq_some_iff.mp hw
  obtain ⟨⟨s', w⟩, hwrite, hw⟩ := Option.bind_eq_some_iff.mp hw
  obtain ⟨fs', hrun, hfs'⟩ := write_refines h.fs hwrite
  have hoff := write_offset_eq h hpos
  rcases w with err | len
  · simp only [Option.pure_def, Option.some.injEq, Prod.mk.injEq] at hw
    obtain ⟨rfl, rfl, rfl⟩ := hw
    exact ⟨{ n with fs := fs' }, by simp [file_write, hp, he, hwr, hoff, hrun], rfl,
      h.with_fs hfs'⟩
  simp only [Option.pure_def, Option.some.injEq, Prod.mk.injEq] at hw
  obtain ⟨rfl, rfl, rfl⟩ := hw
  by_cases hoff1 : offset = -1
  · -- the cursor moves past the bytes written, and the checked addition cannot overflow
    subst hoff1
    have hend := (FlatFS.write_eq_ok hwrite).2
    have := (h.with_fs hfs').setTable pid (p.set fd (some (e.update_offset (pos + len))))
    rw [FileDescriptorTable.view_set] at this
    exact ⟨{ n with fs := fs' }.setTable pid (p.set fd (some (e.update_offset (pos + len)))),
      by simp [file_write, hp, he, hwr, hoff, hrun, Outcome.checkedAdd_of_lt hend],
      rfl, by simpa using this⟩
  · exact ⟨{ n with fs := fs' }, by simp [file_write, hp, he, hwr, hoff, hrun, hoff1], rfl,
      by simpa [hoff1] using h.with_fs hfs'⟩

theorem file_read_simulates (h : Related n d) (hi : d.Inv) {pid : Pid}
    {p : FileDescriptorTable} (hp : n.process_map pid = some p) {fd : FileDescriptor}
    (mnode : MnodeNum) {dst : List UInt8} {offset : ℤ} {d' : FdModel}
    {r : Except KError MlnrNodeResult} {u : Option (List UInt8)}
    (hrd : d.file_read pid p.view fd dst offset = some (d', r, u)) :
    ∃ n', n.dispatch (.FileRead pid fd mnode dst offset) = .ok (n', r, u) ∧ Related n' d' := by
  have ht : d.procs pid = some p.view := by rw [← h.procs pid, hp, Option.map_some]
  unfold FdModel.file_read at hrd
  rcases he : p.get_fd fd with _ | e
  · simp only [FileDescriptorTable.view, he, Option.map_none, Option.some.injEq,
      Prod.mk.injEq] at hrd
    obtain ⟨rfl, rfl, rfl⟩ := hrd
    exact ⟨n, by simp [dispatch, file_read, hp, he], h⟩
  have hv : p.view fd = some e.view := by simp [FileDescriptorTable.view, he]
  simp only [hv, FileDescriptorEntry.view_flags, FileDescriptorEntry.view_node] at hrd
  rcases hr : e.flags.is_read with _ | _
  · simp only [hr, Bool.not_false, if_true, Option.some.injEq, Prod.mk.injEq] at hrd
    obtain ⟨rfl, rfl, rfl⟩ := hrd
    exact ⟨n, by simp [dispatch, file_read, hp, he, hr], h⟩
  simp only [hr, Bool.not_true, Bool.false_eq_true, if_false, Option.bind_eq_bind] at hrd
  obtain ⟨pos, hpos, hrd⟩ := Option.bind_eq_some_iff.mp hrd
  have hread : n.fs.read e.mnode dst (if offset = -1 then e.offset else offset_as_usize offset) =
      .ok (d.fs.read e.mnode dst pos) := by
    rw [read_offset_eq hpos]
    exact read_refines h.fs e.mnode dst pos
  rcases hres : d.fs.read e.mnode dst pos with err | ⟨dst', len⟩
  · simp only [hres, Option.pure_def, Option.some.injEq, Prod.mk.injEq] at hrd
    obtain ⟨rfl, rfl, rfl⟩ := hrd
    exact ⟨n, by simp [dispatch, file_read, hp, he, hr, hread, hres], h⟩
  simp only [hres, Option.pure_def, Option.some.injEq, Prod.mk.injEq] at hrd
  obtain ⟨rfl, rfl, rfl⟩ := hrd
  by_cases hoff1 : offset = -1
  · -- the read starts at the cursor, which a `usize` holds, so the new offset fits too
    subst hoff1
    have hpos' : e.offset = pos := read_offset_eq hpos
    subst hpos'
    rw [if_pos rfl] at hread
    have hend : e.offset + len < 2 ^ USIZE_BITS :=
      hi.fs.read_end_lt (hi.cursors pid _ ht fd e.view hv) hres
    have := h.setTable pid (p.set fd (some (e.update_offset (e.offset + len))))
    rw [FileDescriptorTable.view_set] at this
    exact ⟨n.setTable pid (p.set fd (some (e.update_offset (e.offset + len)))),
      by simp [dispatch, file_read, hp, he, hr, hread, hres, Outcome.checkedAdd_of_lt hend],
      by simpa using this⟩
  · rw [if_neg hoff1] at hread
    exact ⟨n, by simp [dispatch, file_read, hp, he, hr, hread, hres, hoff1],
      by simpa [hoff1] using h⟩

end Operations

/-! ## Runs -/

/-- What the simulation keeps: every allocation granted, the states related, and the model's
invariant. -/
def Simulated (st : MlnrKernelNode × Allocator) (d : FdModel) : Prop :=
  st.2 = Allocator.unlimited ∧ Related st.1 d ∧ d.Inv

/-- Every operation that the descriptor model defines is simulated by a replica's node. -/
theorem node_step_simulates : Sim.Simulates MlnrKernelNode.step FdModel.step Simulated := by
  rintro ⟨n, a⟩ d op d' out ⟨rfl, h, hi⟩ hstep
  have hi' := FdModel.step_inv hi hstep
  dsimp only at h
  match op, hstep with
  | .modify (.ProcessAdd pid), hstep =>
      simp only [FdModel.step, Option.some.injEq] at hstep
      obtain ⟨n', hrun, hR⟩ := process_add_simulates h pid
      rcases hpa : d.process_add pid with ⟨d₁, r₁⟩
      rw [hpa] at hstep hrun hR
      obtain ⟨rfl, rfl⟩ := Prod.mk.inj hstep
      exact ⟨(n', Allocator.unlimited), by simp [MlnrKernelNode.step, hrun], rfl, hR, hi'⟩
  | .modify (.FileOpen pid filename flags modes), hstep =>
      obtain ⟨t, ht, hstep⟩ := Option.map_eq_some_iff.mp hstep
      obtain ⟨p, hp, rfl⟩ := h.table ht
      obtain ⟨n', hrun, hR⟩ := file_open_simulates h hp filename flags modes
      rcases hfo : d.file_open pid p.view filename flags modes with ⟨d₁, r₁⟩
      rw [hfo] at hstep hrun hR
      obtain ⟨rfl, rfl⟩ := Prod.mk.inj hstep
      exact ⟨(n', Allocator.unlimited), by simp [MlnrKernelNode.step, hrun], rfl, hR, hi'⟩
  | .modify (.FileClose pid fd), hstep =>
      obtain ⟨t, ht, hstep⟩ := Option.map_eq_some_iff.mp hstep
      obtain ⟨p, hp, rfl⟩ := h.table ht
      obtain ⟨n', hrun, hR⟩ := file_close_simulates h hp fd
      rcases hfc : d.file_close pid p.view fd with ⟨d₁, r₁⟩
      rw [hfc] at hstep hrun hR
      obtain ⟨rfl, rfl⟩ := Prod.mk.inj hstep
      exact ⟨(n', Allocator.unlimited), by simp [MlnrKernelNode.step, hrun], rfl, hR, hi'⟩
  | .modify (.FileWrite pid fd mnode data offset), hstep =>
      obtain ⟨t, ht, hstep⟩ := Option.bind_eq_some_iff.mp hstep
      obtain ⟨p, hp, rfl⟩ := h.table ht
      obtain ⟨r, u⟩ := out
      obtain ⟨n', hrun, rfl, hR⟩ := file_write_simulates h hp hstep
      exact ⟨(n', Allocator.unlimited),
        by simp [MlnrKernelNode.step, MlnrKernelNode.dispatch_mut, hrun], rfl, hR, hi'⟩
  | .access (.FileRead pid fd mnode dst offset), hstep =>
      obtain ⟨t, ht, hstep⟩ := Option.bind_eq_some_iff.mp hstep
      obtain ⟨p, hp, rfl⟩ := h.table ht
      obtain ⟨r, u⟩ := out
      obtain ⟨n', hrun, hR⟩ := file_read_simulates h hi hp mnode hstep
      exact ⟨(n', Allocator.unlimited), by simp [MlnrKernelNode.step, hrun], rfl, hR, hi'⟩

/-- From `MlnrKernelNode::default()`, every run of `ProcessAdd`, `FileOpen`, `FileClose`,
`FileWrite` and `FileRead` that the descriptor model defines returns on the replica the
model's replies and user slices, and ends in a state related to the model's. -/
theorem fd_layer_refines_model (ops : List NodeOp) (d : FdModel)
    (outs : List (Except KError MlnrNodeResult × Option (List UInt8)))
    (h : Sim.runSpec FdModel.step FdModel.init ops = some (d, outs)) :
    ∃ n, Sim.runImpl MlnrKernelNode.step (MlnrKernelNode.default, Allocator.unlimited) ops =
        .ok ((n, Allocator.unlimited), outs) ∧ Related n d := by
  obtain ⟨⟨n, a⟩, hrun, rfl, hR, -⟩ :=
    node_step_simulates.runs ops (MlnrKernelNode.default, Allocator.unlimited) FdModel.init d outs
      ⟨rfl, Related.init, FdModel.inv_init⟩ h
  exact ⟨n, hrun, hR⟩

set_option maxRecDepth 10000 in
/-- Register a process, open a new file for reading and writing, write two bytes at the
cursor, read from offset `0` into three bytes, and close. The model's search for the lowest
free descriptor runs over all `4096` descriptors. -/
theorem fd_layer_refines_model_open_write_read :
    ∃ d n, Sim.runSpec FdModel.step FdModel.init
        [.modify (.ProcessAdd 0), .modify (.FileOpen 0 "f" ⟨0x203⟩ FileModes.S_IRWXU),
          .modify (.FileWrite 0 ⟨0, by decide⟩ 2 [1, 2] (-1)),
          .access (.FileRead 0 ⟨0, by decide⟩ 2 [0, 0, 0] 0),
          .modify (.FileClose 0 ⟨0, by decide⟩)] =
        some (d, [(.ok (.ProcessAdded 0), none), (.ok (.FileOpened ⟨0, by decide⟩), none),
          (.ok (.FileAccessed 2), none), (.ok (.FileAccessed 2), some [1, 2, 0]),
          (.ok (.FileClosed ⟨0, by decide⟩), none)]) ∧
      Sim.runImpl MlnrKernelNode.step (MlnrKernelNode.default, Allocator.unlimited)
        [.modify (.ProcessAdd 0), .modify (.FileOpen 0 "f" ⟨0x203⟩ FileModes.S_IRWXU),
          .modify (.FileWrite 0 ⟨0, by decide⟩ 2 [1, 2] (-1)),
          .access (.FileRead 0 ⟨0, by decide⟩ 2 [0, 0, 0] 0),
          .modify (.FileClose 0 ⟨0, by decide⟩)] =
        .ok ((n, Allocator.unlimited), [(.ok (.ProcessAdded 0), none),
          (.ok (.FileOpened ⟨0, by decide⟩), none), (.ok (.FileAccessed 2), none),
          (.ok (.FileAccessed 2), some [1, 2, 0]), (.ok (.FileClosed ⟨0, by decide⟩), none)]) ∧
      Related n d := by
  obtain ⟨n, hrun, hR⟩ := fd_layer_refines_model
    [.modify (.ProcessAdd 0), .modify (.FileOpen 0 "f" ⟨0x203⟩ FileModes.S_IRWXU),
      .modify (.FileWrite 0 ⟨0, by decide⟩ 2 [1, 2] (-1)),
      .access (.FileRead 0 ⟨0, by decide⟩ 2 [0, 0, 0] 0),
      .modify (.FileClose 0 ⟨0, by decide⟩)] _
    [(.ok (.ProcessAdded 0), none), (.ok (.FileOpened ⟨0, by decide⟩), none),
      (.ok (.FileAccessed 2), none), (.ok (.FileAccessed 2), some [1, 2, 0]),
      (.ok (.FileClosed ⟨0, by decide⟩), none)] rfl
  exact ⟨_, n, rfl, hrun, hR⟩

end Nrk.Fs
