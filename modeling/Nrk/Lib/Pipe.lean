import Mathlib.Logic.Relation
import Mathlib.Data.List.Infix
import Mathlib.Order.RelClasses

/-! # Programs at the two ends of a pipe

A reliable in-order pipe that may move any prefix at each call, and the programs that write and
read it, over every interleaving. -/

namespace Pipe

/-- A program at one end of a pipe of `T`s that ends with an `α`, or panics. -/
inductive Prog (T α : Type) : Type where
  | done (a : α)
  | panic
  /-- Offers `buf`; the pipe takes a prefix of it, of at least one value with `block`. -/
  | send (block : Bool) (buf : List T)
      (next : {k : ℕ // k ≤ buf.length ∧ (block → 0 < k)} → Prog T α)
  /-- Asks for at most `n` values; the pipe gives a prefix of what is in flight, of at least one
  value with `block`. -/
  | recv (block : Bool) (n : ℕ)
      (next : {xs : List T // xs.length ≤ n ∧ (block → 0 < xs.length)} → Prog T α)

namespace Prog

variable {T α β : Type}

def bind : Prog T α → (α → Prog T β) → Prog T β
  | done a, f => f a
  | panic, _ => panic
  | send block buf next, f => send block buf fun k => (next k).bind f
  | recv block n next, f => recv block n fun xs => (next xs).bind f

instance : Monad (Prog T) where
  pure := done
  bind := bind

@[simp] theorem pure_eq (a : α) : (pure a : Prog T α) = done a := rfl

@[simp] theorem bind_eq (p : Prog T α) (f : α → Prog T β) : p >>= f = p.bind f := rfl

@[simp] theorem done_bind (a : α) (f : α → Prog T β) : (done a).bind f = f a := rfl

/-- `p'` is where `p` goes from its first node. -/
inductive Next : Prog T α → Prog T α → Prop
  | send {block buf next} (k) : Next (next k) (send block buf next)
  | recv {block n next} (xs) : Next (next xs) (recv block n next)

theorem next_wf : WellFounded (@Next T α) := by
  refine ⟨fun p => ?_⟩
  induction p with
  | done a => exact ⟨_, fun _ h => nomatch h⟩
  | panic => exact ⟨_, fun _ h => nomatch h⟩
  | send block buf next ih =>
      refine ⟨_, fun _ h => ?_⟩
      cases h with
      | send k => exact ih k
  | recv block n next ih =>
      refine ⟨_, fun _ h => ?_⟩
      cases h with
      | recv xs => exact ih xs

end Prog

open Prog

variable {T α β γ : Type}

/-! ## What a program puts into the pipe and takes from it -/

/-- Whatever the pipe takes at each `send`, `p` puts exactly `w` into it and ends with `a`. A
blocking `send` offers one value at least, or it would wait for ever. -/
inductive Writes : Prog T α → List T → α → Prop
  | done (a : α) : Writes (.done a) [] a
  | send {block : Bool} {buf w : List T} {next} {a : α} (hbuf : block → buf ≠ [])
      (hpre : buf <+: w) (hnext : ∀ k, Writes (next k) (w.drop k.1) a) :
      Writes (.send block buf next) w a

/-- Whatever the pipe gives at each `recv`, `q` takes exactly `v` from it and ends with `b`. It
never asks for more than is left of `v`, so nothing that follows `v` in the pipe reaches it. -/
inductive Reads : Prog T β → List T → β → Prop
  | done (b : β) : Reads (.done b) [] b
  | recv {block : Bool} {n : ℕ} {v : List T} {next} {b : β} (hn : block → 0 < n)
      (hv : n ≤ v.length) (hnext : ∀ xs, xs.1 <+: v → Reads (next xs) (v.drop xs.1.length) b) :
      Reads (.recv block n next) v b

theorem Writes.bind {p : Prog T α} {f : α → Prog T β} {u w : List T} {a : α} {b : β}
    (hp : Writes p u a) (hf : Writes (f a) w b) : Writes (p.bind f) (u ++ w) b := by
  induction hp with
  | done a => exact hf
  | send hbuf hpre hnext ih =>
      refine .send hbuf (hpre.trans (List.prefix_append _ _)) fun k => ?_
      rw [List.drop_append_of_le_length (k.2.1.trans hpre.length_le)]
      exact ih k hf

theorem Reads.bind {q : Prog T β} {f : β → Prog T γ} {v w : List T} {b : β} {c : γ}
    (hq : Reads q v b) (hf : Reads (f b) w c) : Reads (q.bind f) (v ++ w) c := by
  induction hq with
  | done b => exact hf
  | @recv block n v next b hn hv hnext ih =>
      refine .recv hn (hv.trans (by simp)) fun xs hxs => ?_
      -- the reader asks for no more than is left of `v`, so what it gets comes from `v`
      have hlen : xs.1.length ≤ v.length := xs.2.1.trans hv
      have hxv : xs.1 <+: v := List.prefix_of_prefix_length_le hxs (List.prefix_append _ _) hlen
      rw [List.drop_append_of_le_length hlen]
      exact ih xs hxv hf

theorem Writes.bind_done {p : Prog T α} {f : α → Prog T β} {u : List T} {a : α} {b : β}
    (hp : Writes p u a) (hf : f a = .done b) : Writes (p.bind f) u b := by
  have h := hp.bind (f := f) (hf ▸ Writes.done b)
  rwa [List.append_nil] at h

theorem Reads.bind_done {q : Prog T β} {f : β → Prog T γ} {v : List T} {b : β} {c : γ}
    (hq : Reads q v b) (hf : f b = .done c) : Reads (q.bind f) v c := by
  have h := hq.bind (f := f) (hf ▸ Reads.done c)
  rwa [List.append_nil] at h

/-- A `for` loop whose body writes `g x` for each `x` and goes on writes them one after the
other. -/
theorem Writes.forIn {xs : List γ} {body : γ → PUnit → Prog T (ForInStep PUnit)}
    {g : γ → List T} (h : ∀ x ∈ xs, Writes (body x ⟨⟩) (g x) (.yield ⟨⟩)) :
    Writes (forIn xs ⟨⟩ body) (xs.flatMap g) ⟨⟩ := by
  induction xs with
  | nil => exact .done _
  | cons x xs ih =>
      rw [List.forIn_cons, List.flatMap_cons]
      exact (h x List.mem_cons_self).bind (ih fun y hy => h y (List.mem_cons_of_mem x hy))

theorem Reads.of_done {b b' : β} {v : List T} (h : Reads (.done b') v b) : b' = b ∧ v = [] := by
  cases h
  exact ⟨rfl, rfl⟩

/-! ## The writer and the reader together -/

/-- A writer and a reader at the two ends of a pipe, and the values in flight between them. -/
structure Sys (T α β : Type) where
  writer : Prog T α
  reader : Prog T β
  flight : List T

/-- One move of the pipe: the writer's `send` puts a prefix of its buffer behind what is in
flight, or the reader's `recv` takes a prefix of what is in flight. -/
inductive Step : Sys T α β → Sys T α β → Prop
  | send {block : Bool} {buf : List T} {next} {q : Prog T β} {s : List T}
      (k : {k : ℕ // k ≤ buf.length ∧ (block → 0 < k)}) :
      Step ⟨.send block buf next, q, s⟩ ⟨next k, q, s ++ buf.take k.1⟩
  | recv {p : Prog T α} {block : Bool} {n : ℕ} {next} {s : List T}
      (xs : {xs : List T // xs.length ≤ n ∧ (block → 0 < xs.length)}) (hxs : xs.1 <+: s) :
      Step ⟨p, .recv block n next, s⟩ ⟨p, next xs, s.drop xs.1.length⟩

theorem step_wf : WellFounded (Function.swap (@Step T α β)) := by
  refine Subrelation.wf ?_ (InvImage.wf (fun st : Sys T α β => (st.writer, st.reader))
    (WellFounded.prod_lex next_wf next_wf))
  intro st' st h
  cases h with
  | send k => exact Prod.Lex.left _ _ (Next.send k)
  | recv xs hxs => exact Prod.Lex.right _ (Next.recv xs)

/-- The writer still writes `u` and ends with `a`, the reader still reads `v` and ends with `b`,
and `v` comes next: it is in flight, or written after what is. -/
def Inv (a : α) (b : β) (st : Sys T α β) : Prop :=
  ∃ u v, Writes st.writer u a ∧ Reads st.reader v b ∧ v <+: st.flight ++ u

section Inv

variable {a : α} {b : β}

theorem take_eq_take_of_le {l₁ l₂ : List T} {k : ℕ} (h : l₁ <+: l₂) (hk : k ≤ l₁.length) :
    l₁.take k = l₂.take k := by
  obtain ⟨t, rfl⟩ := h
  exact (List.take_append_of_le_length hk).symm

/-- The writer's move puts the front of what it still writes in flight; the reader's move takes
the front of what is in flight, which is the front of what it still reads. -/
theorem Inv.step {st st' : Sys T α β} (h : Inv a b st) (hs : Step st st') : Inv a b st' := by
  obtain ⟨u, v, hw, hr, hv⟩ := h
  cases hs with
  | @send block buf next q s k =>
      cases hw with
      | send hbuf hpre hnext =>
          refine ⟨u.drop k.1, v, hnext k, hr, ?_⟩
          rwa [take_eq_take_of_le hpre k.2.1, List.append_assoc, List.take_append_drop]
  | @recv p block n next s xs hxs =>
      cases hr with
      | recv hn hlen hnext =>
          have hk : xs.1.length ≤ s.length := hxs.length_le
          have hxv : xs.1 <+: v :=
            List.prefix_of_prefix_length_le (hxs.trans (List.prefix_append _ _)) hv
              (xs.2.1.trans hlen)
          refine ⟨u, v.drop xs.1.length, hw, hnext xs hxv, ?_⟩
          rw [← List.drop_append_of_le_length hk]
          exact hv.drop _

theorem Inv.run {st st' : Sys T α β} (h : Inv a b st) (hrun : Relation.ReflTransGen Step st st') :
    Inv a b st' := by
  induction hrun with
  | refl => exact h
  | tail _ hs ih => exact ih.step hs

theorem Inv.reader_done {st : Sys T α β} {b' : β} (h : Inv a b st) (hdone : st.reader = .done b') :
    b' = b := by
  obtain ⟨u, v, -, hr, -⟩ := h
  rw [hdone] at hr
  exact hr.of_done.1

theorem Writes.can_send {p : Prog T α} {u : List T} {q : Prog T β} {s : List T}
    (hw : Writes p u a) (hu : u ≠ []) : ∃ st', Step ⟨p, q, s⟩ st' := by
  cases hw with
  | done a => exact absurd rfl hu
  | @send block buf w next a hbuf hpre hnext =>
      cases block with
      | false => exact ⟨_, .send ⟨0, Nat.zero_le _, fun h => absurd h Bool.false_ne_true⟩⟩
      | true =>
          have hlen : 0 < buf.length := List.length_pos_iff.mpr (hbuf rfl)
          exact ⟨_, .send ⟨1, hlen, fun _ => Nat.one_pos⟩⟩

/-- No reachable state is stuck before the reader is done: a reader that waits on an empty pipe
has something left to read, which the writer has yet to write. -/
theorem Inv.progress {st : Sys T α β} (h : Inv a b st) (hnot : ∀ b', st.reader ≠ .done b') :
    ∃ st', Step st st' := by
  obtain ⟨p, q, s⟩ := st
  obtain ⟨u, v, hw, hr, hv⟩ := h
  cases hr with
  | done => exact absurd rfl (hnot _)
  | @recv block n v next b hn hlen hnext =>
      cases block with
      | false =>
          exact ⟨_, .recv ⟨[], Nat.zero_le _, fun h => absurd h Bool.false_ne_true⟩ List.nil_prefix⟩
      | true =>
          cases s with
          | cons x s => exact ⟨_, .recv ⟨[x], hn rfl, fun _ => Nat.one_pos⟩ (by simp)⟩
          | nil =>
              have hv0 : v ≠ [] := List.ne_nil_of_length_pos ((hn rfl).trans_le hlen)
              exact hw.can_send (hv.ne_nil hv0)

end Inv

/-- A writer that writes `w` and a reader that reads a prefix of it, from an empty pipe. In every
state that a run reaches, a reader that is done ends with `b`, and one that is not can move; no
run is infinite. -/
theorem delivers {p : Prog T α} {q : Prog T β} {w v : List T} {a : α} {b : β}
    (hw : Writes p w a) (hr : Reads q v b) (hv : v <+: w) :
    (∀ st, Relation.ReflTransGen Step ⟨p, q, []⟩ st →
      (∀ b', st.reader = .done b' → b' = b) ∧ ((∀ b', st.reader ≠ .done b') → ∃ st', Step st st')) ∧
    Acc (Function.swap Step) (⟨p, q, []⟩ : Sys T α β) := by
  have h0 : Inv a b (⟨p, q, []⟩ : Sys T α β) := ⟨w, v, hw, hr, hv⟩
  refine ⟨fun st hrun => ?_, step_wf.apply _⟩
  have hst := h0.run hrun
  exact ⟨fun b' hdone => hst.reader_done hdone, hst.progress⟩

end Pipe
