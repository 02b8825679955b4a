/-
# Exclusive holdings of a pool

A pool hands out resources that are pairwise `apart` (distinct, or not
overlapping), and each of a family of holders has at most one of them.  `Owns` says
that everything held is live and that nothing is held twice.  The lemmas follow the
life of a resource: it is granted, moves between holders, is forgotten by its
holder, and is released to the pool.
-/
import Mathlib

namespace Ownership

variable {ι α : Type*}

/-- Every holding is live, no two holders share one, and the live resources are apart. -/
structure Owns (apart : α → α → Prop) (held : ι → Option α) (live : List α) : Prop where
  apart : live.Pairwise apart
  live : ∀ i a, held i = some a → a ∈ live
  unique : ∀ i j a, held i = some a → held j = some a → i = j

variable {apart : α → α → Prop} {held held' : ι → Option α} {live : List α}

/-- Nothing is held at the start. -/
theorem Owns.empty (apart : α → α → Prop) (h : ∀ i, held i = none) : Owns apart held [] where
  apart := List.Pairwise.nil
  live := by
    intro i a ha
    rw [h i] at ha
    cases ha
  unique := by
    intro i j a ha
    rw [h i] at ha
    cases ha

/-- Holdings may be forgotten, and may move along an injection of holders. -/
theorem Owns.move (h : Owns apart held live) (e : ι → ι) (he : Function.Injective e)
    (hmove : ∀ i a, held' i = some a → held (e i) = some a) : Owns apart held' live where
  apart := h.apart
  live := fun i a ha => h.live _ a (hmove i a ha)
  unique := fun i j a hi hj => he (h.unique _ _ a (hmove i a hi) (hmove j a hj))

/-- Holdings may be forgotten. -/
theorem Owns.forget (h : Owns apart held live)
    (hsub : ∀ i a, held' i = some a → held i = some a) : Owns apart held' live :=
  h.move id Function.injective_id hsub

/-- A resource apart from all live ones may be granted to one holder. -/
theorem Owns.grant [DecidableEq ι] (h : Owns apart held live) (hirr : ∀ a, ¬ apart a a)
    {a : α} {i : ι} (hfresh : ∀ b ∈ live, apart a b)
    (hheld : ∀ j b, held' j = some b → j ≠ i → held j = some b)
    (hi : ∀ b, held' i = some b → b = a) : Owns apart held' (a :: live) where
  apart := List.pairwise_cons.mpr ⟨hfresh, h.apart⟩
  live := by
    intro j b hb
    by_cases hj : j = i
    · subst hj
      rw [hi b hb]
      exact List.mem_cons_self
    · exact List.mem_cons_of_mem _ (h.live j b (hheld j b hb hj))
  unique := by
    -- another holder of `a` would make it live before the grant
    have hnot : ∀ j, j ≠ i → held' j ≠ some a := by
      intro j hj hb
      exact hirr a (hfresh a (h.live j a (hheld j a hb hj)))
    intro j l b hj hl
    by_cases hji : j = i
    · by_cases hli : l = i
      · rw [hji, hli]
      · subst hji
        rw [hi b hj] at hl
        exact absurd hl (hnot l hli)
    · by_cases hli : l = i
      · subst hli
        rw [hi b hl] at hj
        exact absurd hj (hnot j hji)
      · exact h.unique j l b (hheld j b hj hji) (hheld l b hl hli)

/-- A holder may give its resource back. -/
theorem Owns.release [DecidableEq α] (h : Owns apart held live) {a : α} {i : ι}
    (hi : held i = some a)
    (hheld : ∀ j b, held' j = some b → j ≠ i ∧ held j = some b) :
    Owns apart held' (live.erase a) where
  apart := h.apart.sublist List.erase_sublist
  live := by
    intro j b hb
    obtain ⟨hne, hj⟩ := hheld j b hb
    refine (List.mem_erase_of_ne ?_).mpr (h.live j b hj)
    rintro rfl
    exact hne (h.unique j i b hj hi)
  unique := fun j l b hj hl => h.unique j l b (hheld j b hj).2 (hheld l b hl).2

/-- **Different holders hold resources that are apart.** -/
theorem Owns.apart_of_ne [Std.Symm apart] (h : Owns apart held live) {i j : ι} {a b : α}
    (hi : held i = some a) (hj : held j = some b) (hne : i ≠ j) : apart a b := by
  refine h.apart.forall (h.live i a hi) (h.live j b hj) ?_
  rintro rfl
  exact hne (h.unique i j a hi hj)

end Ownership
