import Mathlib

/-! # Carving pieces out of regions

Pieces whose ranges are disjoint and each inside an input of the same tag; the relation composes. -/

namespace Carve

variable {α β γ : Type*} (rng : α → Set β) (tag : α → γ)

/-- The ranges of the pieces are pairwise disjoint. -/
def Apart (ps : List α) : Prop := ps.Pairwise fun p q => Disjoint (rng p) (rng q)

/-- `q` is empty, or it lies inside one of `inputs` and carries its tag. -/
def Within (inputs : List α) (q : α) : Prop :=
  rng q = ∅ ∨ ∃ p ∈ inputs, tag q = tag p ∧ rng q ⊆ rng p

/-- `ps` is carved out of `inputs`. -/
structure Carved (inputs ps : List α) : Prop where
  within : ∀ q ∈ ps, Within rng tag inputs q
  apart : Apart rng ps

variable {rng tag}
variable {I I₁ I₂ P P₁ P₂ Q : List α} {p q : α}

/-! ## Lying within the inputs -/

theorem Within.mono (h : Within rng tag I q) (hI : ∀ p ∈ I, p ∈ I₂) : Within rng tag I₂ q := by
  rcases h with h | ⟨p, hp, htag, hsub⟩
  · exact Or.inl h
  · exact Or.inr ⟨p, hI p hp, htag, hsub⟩

theorem Within.trans (h : Within rng tag P q) (hP : ∀ p ∈ P, Within rng tag I p) :
    Within rng tag I q := by
  rcases h with h | ⟨p, hp, htag, hsub⟩
  · exact Or.inl h
  · rcases hP p hp with hp' | ⟨i, hi, htag', hsub'⟩
    · -- a piece of an empty piece is empty
      exact Or.inl (Set.subset_empty_iff.mp (hp' ▸ hsub))
    · exact Or.inr ⟨i, hi, htag.trans htag', hsub.trans hsub'⟩

theorem Within.disjoint {q₁ q₂ : α} (h₁ : Within rng tag I₁ q₁) (h₂ : Within rng tag I₂ q₂)
    (hI : ∀ p₁ ∈ I₁, ∀ p₂ ∈ I₂, Disjoint (rng p₁) (rng p₂)) : Disjoint (rng q₁) (rng q₂) := by
  rcases h₁ with h₁ | ⟨p₁, hp₁, -, hsub₁⟩
  · rw [h₁]
    exact Set.empty_disjoint _
  rcases h₂ with h₂ | ⟨p₂, hp₂, -, hsub₂⟩
  · rw [h₂]
    exact Set.disjoint_empty _
  exact (hI p₁ hp₁ p₂ hp₂).mono hsub₁ hsub₂

theorem Within.of_nonempty (h : Within rng tag I q) (hne : (rng q).Nonempty) :
    ∃ p ∈ I, tag q = tag p ∧ rng q ⊆ rng p :=
  h.resolve_left hne.ne_empty

/-! ## Disjoint ranges -/

instance disjoint_rng_symm : Std.Symm fun p q : α => Disjoint (rng p) (rng q) := ⟨fun _ _ h => h.symm⟩

theorem apart_pair {a b : α} : Apart rng [a, b] ↔ Disjoint (rng a) (rng b) := by
  simp [Apart]

theorem Apart.perm (h : Apart rng P) (hp : P.Perm Q) : Apart rng Q :=
  (hp.pairwise_iff fun h => h.symm).mp h

theorem Apart.sublist (h : Apart rng P) (hs : Q.Sublist P) : Apart rng Q :=
  List.Pairwise.sublist hs h

theorem Apart.disjoint (h : Apart rng P) {p₁ p₂ : α} (hp₁ : p₁ ∈ P) (hp₂ : p₂ ∈ P) (hne : p₁ ≠ p₂) :
    Disjoint (rng p₁) (rng p₂) :=
  List.Pairwise.forall h hp₁ hp₂ hne

/-! ## Carvings -/

theorem Carved.nil : Carved rng tag I [] :=
  ⟨fun _ h => (nomatch h), List.Pairwise.nil⟩

theorem Carved.refl (h : Apart rng P) : Carved rng tag P P :=
  ⟨fun q hq => Or.inr ⟨q, hq, rfl, subset_rfl⟩, h⟩

theorem Carved.single (hw : ∀ q ∈ P, rng q = ∅ ∨ tag q = tag p ∧ rng q ⊆ rng p)
    (h : Apart rng P) : Carved rng tag [p] P :=
  ⟨fun q hq => (hw q hq).imp_right fun hq' => ⟨p, List.mem_singleton_self p, hq'⟩, h⟩

theorem Carved.pair {a b : α} (ha : rng a = ∅ ∨ tag a = tag p ∧ rng a ⊆ rng p)
    (hb : rng b = ∅ ∨ tag b = tag p ∧ rng b ⊆ rng p) (hab : Disjoint (rng a) (rng b)) :
    Carved rng tag [p] [a, b] := by
  refine Carved.single (fun q hq => ?_) ?_
  · simp only [List.mem_cons, List.not_mem_nil, or_false] at hq
    rcases hq with rfl | rfl
    · exact ha
    · exact hb
  · exact apart_pair.mpr hab

theorem Carved.perm (h : Carved rng tag I P) (hp : P.Perm Q) : Carved rng tag I Q :=
  ⟨fun q hq => h.within q (hp.mem_iff.mpr hq), h.apart.perm hp⟩

theorem Carved.sublist (h : Carved rng tag I P) (hs : Q.Sublist P) : Carved rng tag I Q :=
  ⟨fun q hq => h.within q (hs.subset hq), h.apart.sublist hs⟩

theorem Carved.mono (h : Carved rng tag I P) (hI : ∀ p ∈ I, p ∈ I₂) : Carved rng tag I₂ P :=
  ⟨fun q hq => (h.within q hq).mono hI, h.apart⟩

/-- A carving of a carving is a carving. -/
theorem Carved.trans (h₁ : Carved rng tag I P) (h₂ : Carved rng tag P Q) : Carved rng tag I Q :=
  ⟨fun q hq => (h₂.within q hq).trans h₁.within, h₂.apart⟩

theorem Carved.append (h₁ : Carved rng tag I₁ P₁) (h₂ : Carved rng tag I₂ P₂)
    (hI : ∀ p₁ ∈ I₁, ∀ p₂ ∈ I₂, Disjoint (rng p₁) (rng p₂)) :
    Carved rng tag (I₁ ++ I₂) (P₁ ++ P₂) := by
  refine ⟨fun q hq => ?_, ?_⟩
  · rcases List.mem_append.mp hq with hq | hq
    · exact (h₁.within q hq).mono fun p hp => List.mem_append_left I₂ hp
    · exact (h₂.within q hq).mono fun p hp => List.mem_append_right I₁ hp
  · refine List.pairwise_append.mpr ⟨h₁.apart, h₂.apart, ?_⟩
    intro q₁ hq₁ q₂ hq₂
    exact (h₁.within q₁ hq₁).disjoint (h₂.within q₂ hq₂) hI

theorem Carved.cons (h : Carved rng tag P Q) (hp : ∀ r ∈ P, Disjoint (rng p) (rng r)) :
    Carved rng tag (p :: P) (p :: Q) := by
  refine (Carved.refl (List.pairwise_singleton _ p)).append h ?_
  intro p₁ hp₁ p₂ hp₂
  rw [List.mem_singleton.mp hp₁]
  exact hp p₂ hp₂

theorem Carved.refine (h : Carved rng tag I (p :: P)) (hp : Carved rng tag [p] Q) :
    Carved rng tag I (Q ++ P) := by
  have hhead : ∀ r ∈ P, Disjoint (rng p) (rng r) := (List.pairwise_cons.mp h.apart).1
  have hsplit : Carved rng tag ([p] ++ P) (Q ++ P) := by
    refine hp.append (Carved.refl (List.pairwise_cons.mp h.apart).2) ?_
    intro p₁ hp₁ p₂ hp₂
    rw [List.mem_singleton.mp hp₁]
    exact hhead p₂ hp₂
  exact h.trans hsplit

end Carve
