import Nrk.Fs.File

/-! # What a file's buffers store

`File.Wf`, the chunking invariant of `file.rs`, and the operations read through the bytes the
buffers store. -/

namespace Nrk.Fs
open List
theorem base_page_size_pos : 0 < BASE_PAGE_SIZE := by decide
@[simp] theorem try_resize_unlimited (data : List UInt8) (n : ℕ) :
    (try_resize data n).run Allocator.unlimited =
      .ok (.ok ((data.take n).rightpad n 0), Allocator.unlimited) := by
  simp [try_resize]
@[simp] theorem try_alloc_buffer_unlimited :
    try_alloc_buffer.run Allocator.unlimited = .ok (.ok [], Allocator.unlimited) := by
  simp [try_alloc_buffer]
@[simp] theorem length_take_rightpad (data : List UInt8) (n : ℕ) :
    ((data.take n).rightpad n 0).length = n := by
  rw [length_rightpad, length_take]
  omega
theorem take_rightpad_of_le {data : List UInt8} {n : ℕ} (h : data.length ≤ n) :
    (data.take n).rightpad n 0 = data ++ replicate (n - data.length) 0 := by
  rw [take_of_length_le h, rightpad]
@[simp] theorem take_rightpad_replicate (n m : ℕ) :
    ((replicate m (0 : UInt8)).take n).rightpad n 0 = replicate n 0 := by
  rw [take_replicate, rightpad, length_replicate, ← replicate_add]
  congr 1
  omega
theorem ceil_of_mod_ne_zero {r B : ℕ} (h : r % B ≠ 0) : ceil r B = r / B + 1 := by
  have hlt : r / B * B < r := by
    have := Nat.div_add_mod' r B
    omega
  simp [ceil, hlt]
theorem ceil_of_mod_eq_zero {r B : ℕ} (h : r % B = 0) : ceil r B = r / B := by
  have heq : r / B * B = r := by
    have := Nat.div_add_mod' r B
    omega
  simp [ceil, heq]
namespace File
def Wf (f : File) : Prop := Chunked BASE_PAGE_SIZE f.mcache
def contents (f : File) : List UInt8 := f.mcache.flatten
theorem get_size_eq {f : File} (hf : f.Wf) : f.get_size = f.contents.length := by
  rcases f with ⟨mcache, modes⟩
  unfold get_size contents Wf at *
  dsimp only at hf ⊢
  match mcache, hf with
  | [], _ => simp
  | [b], _ => simp
  | b :: c :: rest, hf =>
      have hpos := Chunked.getLast_pos hf (cons_ne_nil b (c :: rest))
      have hflat := Chunked.length_flatten hf (cons_ne_nil b (c :: rest))
      simp only [length_cons]
      split
      · omega
      · rw [hflat]
        simp
theorem alloc_buffers_unlimited (n : ℕ) :
    (alloc_buffers n).run Allocator.unlimited =
      .ok (.ok (replicate n (replicate BASE_PAGE_SIZE 0)), Allocator.unlimited) := by
  induction n with
  | zero => rfl
  | succ n ih => simp [alloc_buffers, ih, replicate_succ, rightpad]

theorem length_contents_add_room {f : File} (hf : f.Wf) :
    f.contents.length + f.free_in_last_buffer = f.mcache.length * BASE_PAGE_SIZE := by
  unfold free_in_last_buffer contents
  cases hlast : f.mcache.getLast? with
  | none =>
      rw [getLast?_eq_none_iff] at hlast
      simp [hlast]
  | some last =>
      have hne : f.mcache ≠ [] := by
        rintro h
        simp [h] at hlast
      have hlastEq : f.mcache.getLastD [] = last := by
        simp [getLastD_eq_getLast?, hlast]
      have hle : last.length ≤ BASE_PAGE_SIZE :=
        Chunked.length_le hf last (mem_of_getLast? hlast)
      have hk : 0 < f.mcache.length := length_pos_iff.mpr hne
      dsimp only
      rw [Chunked.length_flatten hf hne, hlastEq]
      obtain ⟨k, hk'⟩ : ∃ k, f.mcache.length = k + 1 := ⟨_, (Nat.succ_pred_eq_of_pos hk).symm⟩
      rw [hk', Nat.add_sub_cancel, Nat.succ_mul]
      omega

/-- The file after `fill_last_buffer` is granted its request. -/
def filled (f : File) : File :=
  match f.mcache.getLast? with
  | none => f
  | some last => ⟨f.mcache.dropLast ++ [(last.take BASE_PAGE_SIZE).rightpad BASE_PAGE_SIZE 0], f.modes⟩

theorem fill_last_buffer_unlimited (f : File) :
    f.fill_last_buffer.run Allocator.unlimited = .ok (.ok f.filled, Allocator.unlimited) := by
  unfold fill_last_buffer filled
  cases f.mcache.getLast? <;> simp

theorem filled_full {f : File} (hf : f.Wf) : ∀ b ∈ f.filled.mcache, b.length = BASE_PAGE_SIZE := by
  unfold filled
  cases hlast : f.mcache.getLast? with
  | none =>
      rw [getLast?_eq_none_iff] at hlast
      simp [hlast]
  | some last =>
      intro b hb
      rcases mem_append.mp hb with hb | hb
      · exact Chunked.dropLast_full hf b hb
      · rw [mem_singleton] at hb
        rw [hb, length_take_rightpad]

theorem filled_contents {f : File} (hf : f.Wf) :
    f.filled.contents = f.contents ++ replicate f.free_in_last_buffer 0 := by
  unfold filled contents free_in_last_buffer
  cases hlast : f.mcache.getLast? with
  | none => simp
  | some last =>
      have hle : last.length ≤ BASE_PAGE_SIZE :=
        Chunked.length_le hf last (mem_of_getLast? hlast)
      have hsplit := dropLast_append_getLast? last hlast
      dsimp only
      rw [take_rightpad_of_le hle]
      conv_rhs => rw [← hsplit]
      simp

@[simp] theorem filled_modes (f : File) : f.filled.modes = f.modes := by
  unfold filled
  cases f.mcache.getLast? <;> rfl

@[simp] theorem filled_length (f : File) : f.filled.mcache.length = f.mcache.length := by
  unfold filled
  cases hlast : f.mcache.getLast? with
  | none => rfl
  | some last =>
      have hne : f.mcache ≠ [] := by
        rintro h
        simp [h] at hlast
      simp only [length_append, length_dropLast, length_singleton]
      have := length_pos_iff.mpr hne
      omega

theorem trim_new_buffers_unlimited (f : File) (new_len nb : ℕ) (hnb : 0 < nb) :
    (f.trim_new_buffers new_len nb (replicate nb (replicate BASE_PAGE_SIZE 0))).run
        Allocator.unlimited =
      .ok (.ok (if new_len % BASE_PAGE_SIZE ≠ 0 then
          replicate (nb - 1) (replicate BASE_PAGE_SIZE 0) ++
            [replicate (new_len - (f.get_size + (nb - 1) * BASE_PAGE_SIZE)) 0]
        else replicate nb (replicate BASE_PAGE_SIZE 0)), Allocator.unlimited) := by
  unfold trim_new_buffers
  by_cases hmod : new_len % BASE_PAGE_SIZE ≠ 0
  · have hne : nb ≠ 0 := by omega
    simp [hmod, getLast?_replicate, hne]
  · simp [hmod]

/-- `f'` is `f` zero-filled up to `n` bytes, still well formed and with the same modes. -/
structure PaddedTo (f f' : File) (n : ℕ) : Prop where
  wf : f'.Wf
  modes : f'.modes = f.modes
  contents : f'.contents = f.contents.rightpad n 0

theorem increase_file_size_of_le_free {f : File} (hf : f.Wf) {new_len : ℕ}
    (hlt : f.contents.length < new_len)
    (hsmall : new_len - f.contents.length ≤ f.free_in_last_buffer) :
    ∃ f', (f.increase_file_size f.contents.length new_len).run Allocator.unlimited =
        .ok ((f', .ok ()), Allocator.unlimited) ∧
      f.PaddedTo f' new_len := by
  have hne : f.mcache ≠ [] := by
    rintro h
    simp [free_in_last_buffer, h] at hsmall
    omega
  set last := f.mcache.getLast hne with hlast
  have hget : f.mcache.getLast? = some last := getLast?_eq_some_getLast hne
  have hfree : f.free_in_last_buffer = BASE_PAGE_SIZE - last.length := by
    simp [free_in_last_buffer, hget]
  have hle : last.length ≤ BASE_PAGE_SIZE := Chunked.length_le hf last (getLast_mem hne)
  have hnew : new_len ≠ 0 := by omega
  refine ⟨⟨f.mcache.dropLast ++ [last ++ replicate (new_len - f.contents.length) 0], f.modes⟩,
    ?_, ?_, rfl, ?_⟩
  · simp [increase_file_size, hnew, hsmall, hget]
  · apply chunked_append (Chunked.dropLast_full hf) _ (cons_ne_nil _ _)
    simp only [chunked_singleton, length_append, length_replicate]
    omega
  · rw [rightpad]
    generalize new_len - f.contents.length = n
    have hsplit : f.mcache.flatten = f.mcache.dropLast.flatten ++ last := by
      conv_lhs => rw [← dropLast_append_getLast hne]
      simp [hlast]
    simp [contents, hsplit]

theorem increase_file_size_of_free_lt {f : File} (hf : f.Wf) {new_len : ℕ}
    (hlt : f.contents.length < new_len)
    (hbig : f.free_in_last_buffer < new_len - f.contents.length) :
    ∃ f', (f.increase_file_size f.contents.length new_len).run Allocator.unlimited =
        .ok ((f', .ok ()), Allocator.unlimited) ∧
      f.PaddedTo f' new_len := by
  have hsum := length_contents_add_room hf
  have hB := base_page_size_pos
  set remaining := new_len - f.contents.length - f.free_in_last_buffer with hrem
  set nb := ceil remaining BASE_PAGE_SIZE with hnbDef
  have hnew : new_len ≠ 0 := by omega
  have hnotSmall : ¬ new_len - f.contents.length ≤ f.free_in_last_buffer := by omega
  have hfilledWf : f.filled.Wf := chunked_of_full hB (filled_full hf)
  have hsize : f.filled.get_size = f.mcache.length * BASE_PAGE_SIZE := by
    rw [get_size_eq hfilledWf, filled_contents hf, length_append, length_replicate, hsum]
  -- the new length is the full buffers plus `remaining`
  have hsplit : new_len = f.mcache.length * BASE_PAGE_SIZE + remaining := by omega
  have hmod : new_len % BASE_PAGE_SIZE = remaining % BASE_PAGE_SIZE := by
    rw [hsplit, Nat.mul_add_mod_self_right]
  have hdiv := Nat.div_add_mod' remaining BASE_PAGE_SIZE
  have hzeros : f.contents.rightpad new_len 0 = f.filled.contents ++ replicate remaining 0 := by
    rw [rightpad, filled_contents hf, append_assoc, ← replicate_add]
    congr 2
    omega
  by_cases hm : new_len % BASE_PAGE_SIZE ≠ 0
  · have hrm : remaining % BASE_PAGE_SIZE ≠ 0 := hmod ▸ hm
    have hnb : nb = remaining / BASE_PAGE_SIZE + 1 := ceil_of_mod_ne_zero hrm
    have hbytes : new_len - (f.filled.get_size + (nb - 1) * BASE_PAGE_SIZE) =
        remaining % BASE_PAGE_SIZE := by
      rw [hsize, hnb, Nat.add_sub_cancel]
      omega
    have hnbPos : 0 < nb := by
      rw [hnb]
      exact Nat.succ_pos _
    refine ⟨⟨f.filled.mcache ++ (replicate (nb - 1) (replicate BASE_PAGE_SIZE 0) ++
      [replicate (remaining % BASE_PAGE_SIZE) 0]), f.modes⟩, ?_, ?_, rfl, ?_⟩
    · simp [increase_file_size, hnew, hnotSmall, fill_last_buffer_unlimited,
        alloc_buffers_unlimited, trim_new_buffers_unlimited f.filled new_len nb hnbPos, hm,
        hbytes, ← hnbDef, ← hrem]
    · refine chunked_append (filled_full hf) ?_ (by simp)
      refine chunked_append (fun b hb => (eq_of_mem_replicate hb) ▸ length_replicate) ?_
        (cons_ne_nil _ _)
      simp only [chunked_singleton, length_replicate]
      exact ⟨Nat.pos_of_ne_zero hrm, (Nat.mod_lt _ hB).le⟩
    · rw [hzeros]
      unfold contents
      rw [flatten_append, flatten_append, flatten_replicate_replicate, flatten_singleton,
        ← replicate_add, hnb, Nat.add_sub_cancel, hdiv]
  · have hrm : remaining % BASE_PAGE_SIZE = 0 := by omega
    have hnb : nb = remaining / BASE_PAGE_SIZE := ceil_of_mod_eq_zero hrm
    have hnbPos : 0 < nb := by
      rw [hnb]
      exact Nat.div_pos (Nat.le_of_dvd (by omega) (Nat.dvd_of_mod_eq_zero hrm)) hB
    refine ⟨⟨f.filled.mcache ++ replicate nb (replicate BASE_PAGE_SIZE 0), f.modes⟩, ?_, ?_, rfl,
      ?_⟩
    · simp [increase_file_size, hnew, hnotSmall, fill_last_buffer_unlimited,
        alloc_buffers_unlimited, trim_new_buffers_unlimited f.filled new_len nb hnbPos, hm,
        ← hnbDef, ← hrem]
    · refine chunked_append (filled_full hf) ?_ (by simp; omega)
      exact chunked_of_full hB (fun b hb => (eq_of_mem_replicate hb) ▸ length_replicate)
    · rw [hzeros]
      unfold contents
      rw [flatten_append, flatten_replicate_replicate, hnb, Nat.div_mul_cancel
        (Nat.dvd_of_mod_eq_zero hrm)]


theorem increase_file_size_unlimited {f : File} (hf : f.Wf) {new_len : ℕ}
    (hlt : f.contents.length < new_len) :
    ∃ f', (f.increase_file_size f.contents.length new_len).run Allocator.unlimited =
        .ok ((f', .ok ()), Allocator.unlimited) ∧
      f.PaddedTo f' new_len := by
  by_cases hsmall : new_len - f.contents.length ≤ f.free_in_last_buffer
  · exact increase_file_size_of_le_free hf hlt hsmall
  · exact increase_file_size_of_free_lt hf hlt (by omega)

theorem write_buffers_of_le (src : List UInt8) {len copied : ℕ} (h : len ≤ copied)
    (bufs : List (List UInt8)) (o ds : ℕ) : write_buffers src len bufs o copied ds = .ok bufs := by
  cases bufs with
  | nil => simp [write_buffers, Nat.not_lt.mpr h]
  | cons b rest => simp [write_buffers, Nat.not_lt.mpr h]

theorem write_buffers_eq (src : List UInt8) (len : ℕ) :
    ∀ (bufs : List (List UInt8)) (o copied ds : ℕ), Chunked BASE_PAGE_SIZE bufs →
      o < BASE_PAGE_SIZE → copied ≤ len → o + (len - copied) ≤ bufs.flatten.length →
      ds + (len - copied) ≤ src.length →
      ∃ bufs', write_buffers src len bufs o copied ds = .ok bufs' ∧
        bufs'.map length = bufs.map length ∧
        bufs'.flatten = bufs.flatten.overwrite o ((src.drop ds).take (len - copied))
  | [], o, copied, ds, _, _, hcl, hfit, _ => by
      have hdone : len - copied = 0 := by
        simp at hfit
        omega
      refine ⟨[], ?_, rfl, by simp [hdone]⟩
      simp [write_buffers]
      omega
  | b :: rest, o, copied, ds, hc, ho, hcl, hfit, hsrc => by
      by_cases hlt : copied < len
      · have hbLe : b.length ≤ BASE_PAGE_SIZE := Chunked.length_le hc b mem_cons_self
        have hfull : rest ≠ [] → b.length = BASE_PAGE_SIZE := by
          intro hne
          cases rest with
          | nil => exact absurd rfl hne
          | cons c rest => exact hc.1
        have hfit' : o + (len - copied) ≤ b.length + rest.flatten.length := by simpa using hfit
        have hrestNil : rest = [] → rest.flatten.length = 0 := by
          rintro rfl
          rfl
        -- `n` is the number of bytes that go into buffer `b`
        obtain ⟨n, hnDef, hnm, hnr, hn⟩ : ∃ n, (if len - copied ≥ BASE_PAGE_SIZE - o then
            BASE_PAGE_SIZE - o else len - copied) = n ∧ n ≤ len - copied ∧
            n ≤ BASE_PAGE_SIZE - o ∧ (n = len - copied ∨ n = BASE_PAGE_SIZE - o) :=
          ⟨_, rfl, by split <;> omega⟩
        -- the chunk either ends the write or fills `b` up
        have hcases : n = len - copied ∨ o + n = b.length := by
          by_cases hr : rest = []
          · have := hrestNil hr
            omega
          · have := hfull hr
            omega
        have hnb : o + n ≤ b.length := by
          rcases hcases with h | h
          · by_cases hr : rest = []
            · have := hrestNil hr
              omega
            · have := hfull hr
              omega
          · omega
        have hchunk : ((src.drop ds).take n).length = n := by
          simp only [length_take, length_drop]
          omega
        have hnb' : o + ((src.drop ds).take n).length ≤ b.length := by
          rw [hchunk]
          exact hnb
        obtain ⟨rest', hrun, hlens, hrest⟩ :=
          write_buffers_eq src len rest 0 (copied + n) (ds + n) hc.tail base_page_size_pos
            (by omega) (by rcases hcases with h | h <;> omega) (by omega)
        refine ⟨b.overwrite o ((src.drop ds).take n) :: rest', ?_, ?_, ?_⟩
        · simp only [write_buffers, hlt, if_true, Nat.not_lt.mpr ho.le, if_false, hnDef]
          rw [if_neg (by omega), hrun]
          rfl
        · simp [hlens, length_overwrite hnb']
        · have hrem : len - (copied + n) = len - copied - n := by omega
          rw [flatten_cons, hrest, hrem, flatten_cons, take_drop_split src hnm]
          rcases hcases with h | h
          · rw [← h, Nat.sub_self, take_zero, overwrite_nil, append_nil,
              overwrite_append_left hnb']
          · have hfitAll : o + ((src.drop ds).take n).length ≤ (b ++ rest.flatten).length := by
              rw [length_append]
              omega
            rw [← overwrite_overwrite hfitAll, overwrite_append_left hnb', hchunk,
              overwrite_append_right (by rw [length_overwrite hnb']; omega),
              length_overwrite hnb', h, Nat.sub_self]
      · have hdone : len - copied = 0 := by omega
        refine ⟨b :: rest, ?_, rfl, by simp [hdone]⟩
        simp [write_buffers, hlt]

theorem read_buffers_of_le {len copied : ℕ} (h : len ≤ copied) (bufs : List (List UInt8))
    (o ds : ℕ) (dst : List UInt8) : read_buffers len bufs o copied ds dst = .ok (.ok (dst, copied)) := by
  cases bufs with
  | nil => simp [read_buffers, Nat.not_lt.mpr h]
  | cons b rest => simp [read_buffers, Nat.not_lt.mpr h]

theorem read_buffers_eq (len : ℕ) :
    ∀ (bufs : List (List UInt8)) (o copied ds : ℕ) (dst : List UInt8),
      o ≤ (bufs.headD []).length → copied ≤ len → o + (len - copied) ≤ bufs.flatten.length →
      ds + (len - copied) ≤ dst.length →
      read_buffers len bufs o copied ds dst =
        .ok (.ok (dst.overwrite ds ((bufs.flatten.drop o).take (len - copied)), len))
  | [], o, copied, ds, dst, _, hcl, hfit, _ => by
      have hdone : len - copied = 0 := by
        simp at hfit
        omega
      have hc : copied = len := by omega
      subst hc
      simp [read_buffers]
  | b :: rest, o, copied, ds, dst, ho, hcl, hfit, hdst => by
      have ho' : o ≤ b.length := by simpa using ho
      by_cases hlt : copied < len
      · have hfit' : o + (len - copied) ≤ b.length + rest.flatten.length := by simpa using hfit
        -- `n` is the number of bytes taken from buffer `b`
        obtain ⟨n, hnDef, hnm, hnu, hn⟩ : ∃ n, (if len - copied ≥ b.length - o then
            b.length - o else len - copied) = n ∧ n ≤ len - copied ∧ n ≤ b.length - o ∧
            (n = len - copied ∨ n = b.length - o) :=
          ⟨_, rfl, by split <;> omega⟩
        have hchunk : ((b.drop o).take n).length = n := by
          simp only [length_take, length_drop]
          omega
        have hsub : write_subslice dst ((b.drop o).take n) ds =
            .ok (dst.overwrite ds ((b.drop o).take n)) := by
          rw [write_subslice, if_neg (by omega)]
        have hrest := read_buffers_eq len rest 0 (copied + n) (ds + n)
          (dst.overwrite ds ((b.drop o).take n)) (Nat.zero_le _) (by omega)
          (by rcases hn with h | h <;> omega)
          (by rw [length_overwrite (by omega)]; omega)
        simp only [read_buffers, hlt, if_true, Nat.not_lt.mpr ho', if_false, hnDef, hsub]
        rw [hrest]
        have hwin : ((b ++ rest.flatten).drop o).take (len - copied) =
            (b.drop o).take n ++ rest.flatten.take (len - copied - n) := by
          rw [take_drop_append ho']
          rcases hn with h | h
          · have h1 : len - copied - (b.length - o) = 0 := by omega
            have h2 : len - copied - n = 0 := by omega
            rw [h1, h2, ← h]
          · rw [h]
            congr 1
            rw [take_of_length_le (by simp only [length_drop]; omega),
              take_of_length_le (by simp only [length_drop]; omega)]
        have hcomb : (dst.overwrite ds ((b.drop o).take n)).overwrite (ds + n)
            (rest.flatten.take (len - copied - n)) =
            dst.overwrite ds ((b.drop o).take n ++ rest.flatten.take (len - copied - n)) := by
          calc _ = (dst.overwrite ds ((b.drop o).take n)).overwrite
                (ds + ((b.drop o).take n).length) (rest.flatten.take (len - copied - n)) := by
                rw [hchunk]
            _ = _ := overwrite_overwrite (by omega)
        rw [drop_zero, ← Nat.sub_sub, hcomb, flatten_cons, hwin]
      · have hdone : len - copied = 0 := by omega
        simp [read_buffers, hlt, hdone]
        omega



/-- A read inside the file copies the window `[start, end_)` of the contents to the front of
the destination. -/
theorem read_file_eq {f : File} (hf : f.Wf) (dst : List UInt8) {start end_ : ℕ}
    (hse : start < end_) (hend : end_ ≤ f.contents.length) (hdst : end_ - start ≤ dst.length) :
    f.read_file dst start end_ =
      .ok (.ok (dst.overwrite 0 ((f.contents.drop start).take (end_ - start)), end_ - start)) := by
  have hB := base_page_size_pos
  obtain ⟨hbn, ho⟩ := Chunked.mod_lt_of_lt hB hf
    (show start < f.mcache.flatten.length by unfold contents at hend; omega)
  have hdiv := Nat.div_add_mod' start BASE_PAGE_SIZE
  have hoff : start - start / BASE_PAGE_SIZE * BASE_PAGE_SIZE = start % BASE_PAGE_SIZE := by
    omega
  have hflat := Chunked.flatten_drop hf hbn
  have hlen : (f.mcache.drop (start / BASE_PAGE_SIZE)).flatten.length =
      f.contents.length - start / BASE_PAGE_SIZE * BASE_PAGE_SIZE := by
    rw [hflat, length_drop]
    rfl
  unfold read_file offset_to_buffernum
  dsimp only
  rw [hoff, read_buffers_eq _ _ _ _ _ _ ho.le (Nat.zero_le _) (by omega) (by omega), hflat,
    drop_drop, Nat.sub_zero, hdiv]
  rfl


theorem rightpad_of_le {l : List UInt8} {n : ℕ} (h : n ≤ l.length) : l.rightpad n 0 = l := by
  simp [rightpad, Nat.sub_eq_zero_of_le h]

/-- The copy loop of `write_file` on a well-formed file that already holds the window
`[start, start + |src|)`: the buffers stay chunked and now store the window overwritten. -/
theorem write_buffers_window {g : File} (hg : g.Wf) (src : List UInt8) {start : ℕ}
    (hfit : start + src.length ≤ g.contents.length) :
    ∃ bufs', write_buffers src src.length (g.mcache.drop (start / BASE_PAGE_SIZE))
        (start % BASE_PAGE_SIZE) 0 0 = .ok bufs' ∧
      Chunked BASE_PAGE_SIZE (g.mcache.take (start / BASE_PAGE_SIZE) ++ bufs') ∧
      (g.mcache.take (start / BASE_PAGE_SIZE) ++ bufs').flatten = g.contents.overwrite start src := by
  have hB := base_page_size_pos
  rcases Nat.eq_zero_or_pos src.length with hnil | hpos
  · -- nothing to copy: the loop stops at once
    refine ⟨g.mcache.drop (start / BASE_PAGE_SIZE), write_buffers_of_le src (by omega) _ _ _, ?_, ?_⟩
    · rw [take_append_drop]
      exact hg
    · rw [take_append_drop, length_eq_zero_iff.mp hnil, overwrite_nil]
      rfl
  · have hlt : start < g.mcache.flatten.length := by
      unfold contents at hfit
      omega
    obtain ⟨hbn, _⟩ := Chunked.mod_lt_of_lt hB hg hlt
    have hdiv := Nat.div_add_mod' start BASE_PAGE_SIZE
    have htake := Chunked.flatten_take hg hbn
    have hdrop := Chunked.flatten_drop hg hbn
    have hsplit : g.mcache.flatten = (g.mcache.take (start / BASE_PAGE_SIZE)).flatten ++ (g.mcache.drop (start / BASE_PAGE_SIZE)).flatten := by
      rw [← flatten_append, take_append_drop]
    obtain ⟨bufs', hrun, hlens, hflat⟩ := write_buffers_eq src src.length (g.mcache.drop (start / BASE_PAGE_SIZE))
      (start % BASE_PAGE_SIZE) 0 0 (hg.drop _) (Nat.mod_lt _ hB) (Nat.zero_le _)
      (by rw [hdrop, length_drop]; unfold contents at hfit; omega) (by omega)
    refine ⟨bufs', hrun, ?_, ?_⟩
    · apply Chunked.of_map_length _ hg
      rw [map_append, hlens, ← map_append, take_append_drop]
    · rw [flatten_append, hflat, drop_zero, Nat.sub_zero, take_length, contents, hsplit,
        overwrite_append_right (by omega), htake]
      congr 2
      omega

/-- `write_file` zero-fills the file up to `start + |src|` and then overwrites the window
`[start, start + |src|)` with `src`. -/
theorem write_file_unlimited {f : File} (hf : f.Wf) (src : List UInt8) (start : ℕ)
    (hov : start + src.length < 2 ^ USIZE_BITS) :
    ∃ f', (f.write_file src src.length start).run Allocator.unlimited =
        .ok ((f', .ok src.length), Allocator.unlimited) ∧
      f'.Wf ∧ f'.modes = f.modes ∧
      f'.contents = (f.contents.rightpad (start + src.length) 0).overwrite start src := by
  -- the file after the growth step
  obtain ⟨g, hgrow, hg⟩ : ∃ g, (if start + src.length > 0 ∧ start + src.length > f.get_size then
      f.increase_file_size f.get_size (start + src.length) else pure (f, .ok ())).run
        Allocator.unlimited = .ok ((g, .ok ()), Allocator.unlimited) ∧
      f.PaddedTo g (start + src.length) := by
    rw [get_size_eq hf]
    split
    · exact increase_file_size_unlimited hf (by omega)
    · exact ⟨f, rfl, hf, rfl, (rightpad_of_le (by omega)).symm⟩
  have hdiv := Nat.div_add_mod' start BASE_PAGE_SIZE
  have hoff : start - start / BASE_PAGE_SIZE * BASE_PAGE_SIZE = start % BASE_PAGE_SIZE := by
    omega
  have hfit : start + src.length ≤ g.contents.length := by
    rw [hg.contents, length_rightpad]
    omega
  obtain ⟨bufs', hrun, hwf, hflat⟩ := write_buffers_window hg.wf src hfit
  refine ⟨⟨g.mcache.take (start / BASE_PAGE_SIZE) ++ bufs', g.modes⟩, ?_, hwf, hg.modes, ?_⟩
  · simp only [write_file, StateT.run_bind, liftM, Outcome.checkedAdd_of_lt hov,
      StateT.run_monadLift, monadLift_self, Outcome.ok_bind, Outcome.pure_eq]
    rw [hgrow, Outcome.ok_bind]
    simp only [Except.isOk, Except.toBool, Bool.true_eq_false, if_false, offset_to_buffernum, hoff,
      StateT.run_bind, StateT.run_monadLift, monadLift_self, hrun, Outcome.ok_bind]
    rfl
  · rw [← hg.contents]
    exact hflat

@[simp] theorem wf_file_truncate (f : File) : f.file_truncate.Wf := trivial

@[simp] theorem modes_file_truncate (f : File) : f.file_truncate.modes = f.modes := rfl

@[simp] theorem contents_file_truncate (f : File) : f.file_truncate.contents = [] := rfl

end File

/-! ## Runs under any answers to the allocation requests

Every allocation that `file.rs` makes answers a refusal with an error, so a call that returns
`Ok` got every request it made and did what it does when every request is granted. -/

open AllocM

theorem try_resize_okWhenGranted (data : List UInt8) (n : ℕ) :
    OkWhenGranted (try_resize data n) (fun r => r.isOk = true) := by
  unfold try_resize
  refine OkWhenGranted.request_bind (.pure _) fun a w a' h => ?_
  cases run_pure_eq h
  simp [Except.isOk, Except.toBool]

theorem try_alloc_buffer_okWhenGranted :
    OkWhenGranted try_alloc_buffer (fun r => r.isOk = true) := by
  unfold try_alloc_buffer
  refine OkWhenGranted.request_bind (.pure _) fun a w a' h => ?_
  cases run_pure_eq h
  simp [Except.isOk, Except.toBool]

namespace File

theorem alloc_buffers_okWhenGranted (n : ℕ) :
    OkWhenGranted (alloc_buffers n) (fun r => r.isOk = true) := by
  induction n with
  | zero => exact .pure _
  | succ n ih =>
      unfold alloc_buffers
      refine OkWhenGranted.bind_isOk try_alloc_buffer_okWhenGranted (fun r => ?_)
        fun e a w a' h hw => by cases run_pure_eq h; cases hw
      cases r with
      | error e => exact .pure _
      | ok buffer =>
          refine OkWhenGranted.bind_isOk (try_resize_okWhenGranted _ _) (fun r => ?_)
            fun e a w a' h hw => by cases run_pure_eq h; cases hw
          cases r with
          | error e => exact .pure _
          | ok buffer =>
              exact OkWhenGranted.bind_isOk ih (fun r => by cases r <;> exact .pure _)
                fun e a w a' h hw => by cases run_pure_eq h; cases hw

theorem fill_last_buffer_okWhenGranted (f : File) :
    OkWhenGranted f.fill_last_buffer (fun r => r.isOk = true) := by
  unfold fill_last_buffer
  split
  · exact .pure _
  · exact OkWhenGranted.bind_isOk (try_resize_okWhenGranted _ _)
      (fun r => by cases r <;> exact .pure _) fun e a w a' h hw => by cases run_pure_eq h; cases hw

theorem trim_new_buffers_okWhenGranted (f : File) (new_len nb : ℕ) (vec : List (List UInt8)) :
    OkWhenGranted (f.trim_new_buffers new_len nb vec) (fun r => r.isOk = true) := by
  unfold trim_new_buffers
  split_ifs
  · split
    · exact OkWhenGranted.bind_isOk (try_resize_okWhenGranted _ _)
        (fun r => by cases r <;> exact .pure _) fun e a w a' h hw => by cases run_pure_eq h; cases hw
    · exact .panic
  · exact .pure _

theorem increase_file_size_okWhenGranted (f : File) (c n : ℕ) :
    OkWhenGranted (f.increase_file_size c n) (fun r => r.2.isOk = true) := by
  unfold increase_file_size
  split_ifs with h0
  · exact .pure _
  dsimp only
  split_ifs with hsmall
  · -- the last buffer has room for the new bytes
    split
    · exact OkWhenGranted.bind_isOk (try_resize_okWhenGranted _ _)
        (fun r => by cases r <;> exact .pure _) fun e a w a' h hw => by cases run_pure_eq h; cases hw
    · exact .panic
  · refine OkWhenGranted.bind_isOk (fill_last_buffer_okWhenGranted f) (fun r => ?_)
      fun e a w a' h hw => by cases run_pure_eq h; cases hw
    cases r with
    | error e => exact .pure _
    | ok g =>
        dsimp only
        refine OkWhenGranted.request_bind ?_ fun a w a' h hw => by cases run_pure_eq h; cases hw
        simp only [Bool.not_true, Bool.false_eq_true, if_false]
        refine OkWhenGranted.bind_isOk (alloc_buffers_okWhenGranted _) (fun r => ?_)
          fun e a w a' h hw => by cases run_pure_eq h; cases hw
        cases r with
        | error e => exact .pure _
        | ok vec =>
            refine OkWhenGranted.bind_isOk (trim_new_buffers_okWhenGranted _ _ _ _) (fun r => ?_)
              fun e a w a' h hw => by cases run_pure_eq h; cases hw
            cases r with
            | error e => exact .pure _
            | ok vec =>
                exact OkWhenGranted.request_bind (.pure _)
                  fun a w a' h hw => by cases run_pure_eq h; cases hw

theorem write_file_okWhenGranted (f : File) (src : List UInt8) (len start : ℕ) :
    OkWhenGranted (f.write_file src len start) (fun r => r.2.isOk = true) := by
  unfold write_file
  refine OkWhenGranted.bind (show OkWhenGranted _ fun _ => True from .lift _)
    (fun new_len => ?_) fun _ _ _ _ _ _ => trivial
  refine OkWhenGranted.bind
    (show OkWhenGranted _ fun r : File × Except KError Unit => r.2.isOk = true from
      .ite (increase_file_size_okWhenGranted _ _ _) (.pure _)) (fun r => ?_) ?_
  · obtain ⟨g, grown⟩ := r
    dsimp only
    split_ifs
    · exact .pure _
    · exact OkWhenGranted.bind (show OkWhenGranted _ fun _ => True from .lift _)
        (fun _ => .pure _) fun _ _ _ _ _ _ => trivial
  · -- a failed growth is answered with `OutOfMemory`
    rintro ⟨g, grown⟩ a w a' h hw
    dsimp only at h
    split_ifs at h with hg
    · cases run_pure_eq h
      cases hw
    · simpa using hg

theorem write_file_end_lt {f : File} {src : List UInt8} {len start : ℕ} {a a' : Allocator}
    {v : File × Except KError ℕ} (h : (f.write_file src len start).run a = .ok (v, a')) :
    start + len < 2 ^ USIZE_BITS := by
  by_contra hle
  simp [write_file, Outcome.checkedAdd_of_le (Nat.not_lt.mp hle)] at h

theorem increase_file_size_same {f : File} (hf : f.Wf) :
    (f.increase_file_size f.contents.length f.contents.length).run Allocator.unlimited =
      .ok ((f, .ok ()), Allocator.unlimited) := by
  by_cases h0 : f.contents.length = 0
  · simp [increase_file_size, h0]
  have hne : f.mcache ≠ [] := by
    rintro h
    simp [contents, h] at h0
  have hget : f.mcache.getLast? = some (f.mcache.getLast hne) := getLast?_eq_some_getLast hne
  have hle : (f.mcache.getLast hne).length ≤ BASE_PAGE_SIZE :=
    Chunked.length_le hf _ (getLast_mem hne)
  simp [increase_file_size, h0, hget, rightpad, dropLast_append_getLast hne]

theorem read_file_empty (f : File) (dst : List UInt8) (s : ℕ) :
    f.read_file dst s s = .ok (.ok (dst, 0)) := by
  unfold read_file
  dsimp only
  rw [Nat.sub_self]
  cases f.mcache.drop (offset_to_buffernum s BASE_PAGE_SIZE) <;> simp [read_buffers]

/-- The buffers of a file keep the representation invariant and store a flat byte list. A
`write_file` or `increase_file_size` call that returns `Ok`, whatever the answers to its
allocation requests, and `file_truncate` keep `Wf`; after them `get_size` is the number of
bytes the buffers store, and the bytes are the old ones zero-padded, then overwritten by the
write. `read_file` of a window inside the file copies that window. -/
theorem file_buffers_denote_bytes (f : File) (hf : f.Wf) :
    (∀ (a a' : Allocator) (buf : List UInt8) (off len : ℕ) (f' : File),
        (f.write_file buf buf.length off).run a = .ok ((f', .ok len), a') →
        len = buf.length ∧ f'.Wf ∧ f'.get_size = f'.contents.length ∧
          f'.contents = (f.contents.rightpad (off + buf.length) 0).overwrite off buf) ∧
    (∀ (a a' : Allocator) (n : ℕ) (f' : File), f.get_size ≤ n →
        (f.increase_file_size f.get_size n).run a = .ok ((f', .ok ()), a') →
        f'.Wf ∧ f'.get_size = f'.contents.length ∧ f'.contents = f.contents.rightpad n 0) ∧
    (f.file_truncate.Wf ∧ f.file_truncate.get_size = f.file_truncate.contents.length ∧
      f.file_truncate.contents = []) ∧
    (∀ (dst : List UInt8) (s e : ℕ), s ≤ e → e ≤ f.get_size → e - s ≤ dst.length →
        f.read_file dst s e =
          .ok (.ok (dst.overwrite 0 ((f.contents.drop s).take (e - s)), e - s))) := by
  refine ⟨?_, ?_, ⟨trivial, rfl, rfl⟩, ?_⟩
  · intro a a' buf off len f' h
    -- the run that returned `Ok` is the run with every request granted
    have hu := write_file_okWhenGranted f buf buf.length off a _ a' h rfl
    obtain ⟨f'', hrun, hwf, -, hcontents⟩ := write_file_unlimited hf buf off (write_file_end_lt h)
    rw [hrun] at hu
    simp only [Outcome.ok.injEq, Prod.mk.injEq, Except.ok.injEq] at hu
    obtain ⟨⟨rfl, rfl⟩, -⟩ := hu
    exact ⟨rfl, hwf, get_size_eq hwf, hcontents⟩
  · intro a a' n f' hn h
    have hu := increase_file_size_okWhenGranted f _ _ a _ a' h rfl
    rw [get_size_eq hf] at hn hu
    rcases Nat.lt_or_eq_of_le hn with hlt | rfl
    · obtain ⟨f'', hrun, hpad⟩ := increase_file_size_unlimited hf hlt
      rw [hrun] at hu
      simp only [Outcome.ok.injEq, Prod.mk.injEq] at hu
      obtain ⟨⟨rfl, -⟩, -⟩ := hu
      exact ⟨hpad.wf, get_size_eq hpad.wf, hpad.contents⟩
    · rw [increase_file_size_same hf] at hu
      simp only [Outcome.ok.injEq, Prod.mk.injEq] at hu
      obtain ⟨⟨rfl, -⟩, -⟩ := hu
      exact ⟨hf, get_size_eq hf, (rightpad_of_le le_rfl).symm⟩
  · intro dst s e hse he hdst
    rw [get_size_eq hf] at he
    rcases Nat.lt_or_eq_of_le hse with hlt | rfl
    · exact read_file_eq hf dst hlt he hdst
    · simp [read_file_empty]

/-- A file of one buffer holding two bytes. -/
theorem file_buffers_denote_bytes_two_bytes :
    ∃ f : File, f.mcache = [[1, 2]] ∧ f.Wf ∧
    (∀ (a a' : Allocator) (buf : List UInt8) (off len : ℕ) (f' : File),
        (f.write_file buf buf.length off).run a = .ok ((f', .ok len), a') →
        len = buf.length ∧ f'.Wf ∧ f'.get_size = f'.contents.length ∧
          f'.contents = (f.contents.rightpad (off + buf.length) 0).overwrite off buf) ∧
    (∀ (a a' : Allocator) (n : ℕ) (f' : File), f.get_size ≤ n →
        (f.increase_file_size f.get_size n).run a = .ok ((f', .ok ()), a') →
        f'.Wf ∧ f'.get_size = f'.contents.length ∧ f'.contents = f.contents.rightpad n 0) ∧
    (f.file_truncate.Wf ∧ f.file_truncate.get_size = f.file_truncate.contents.length ∧
      f.file_truncate.contents = []) ∧
    (∀ (dst : List UInt8) (s e : ℕ), s ≤ e → e ≤ f.get_size → e - s ≤ dst.length →
        f.read_file dst s e =
          .ok (.ok (dst.overwrite 0 ((f.contents.drop s).take (e - s)), e - s))) := by
  have hwf : (File.mk [[1, 2]] FileModes.S_IRWXU).Wf := chunked_singleton.mpr ⟨by decide, by decide⟩
  exact ⟨_, rfl, hwf, file_buffers_denote_bytes _ hwf⟩

end File

end Nrk.Fs
