import Mathlib.Data.List.Perm.Basic

/-! Reordering a list by exchanging neighbours that may pass each other, one pair at a time. -/

namespace Reordering

universe u v

variable {ι : Type u} {τ : Type v}

/-- The second list comes from the first one by exchanging neighbours that may pass. -/
inductive Swaps (passes : ι → ι → Prop) (labels : List ι) : List ι → Prop
  | refl : Swaps passes labels labels
  | swap {before after : List ι} {first second : ι}
    (earlier : Swaps passes labels (before ++ first :: second :: after))
    (allowed : passes first second)
    : Swaps passes labels (before ++ second :: first :: after)

namespace Swaps

variable {passes : ι → ι → Prop} {labels middle others : List ι}

theorem trans (first : Swaps passes labels middle) (second : Swaps passes middle others)
    : Swaps passes labels others := by
  induction second with
  | refl => exact first
  | swap _ allowed ih => exact ih.swap allowed

theorem append_left (swaps : Swaps passes labels others) (more : List ι)
    : Swaps passes (more ++ labels) (more ++ others) := by
  induction swaps with
  | refl => exact .refl
  | swap _ allowed ih =>
      rw [← List.append_assoc] at ih ⊢
      exact ih.swap allowed

theorem append_right (swaps : Swaps passes labels others) (more : List ι)
    : Swaps passes (labels ++ more) (others ++ more) := by
  induction swaps with
  | refl => exact .refl
  | swap _ allowed ih =>
      rw [List.append_assoc] at ih ⊢
      exact ih.swap allowed

/-- A label goes ahead of those it may pass. -/
theorem ahead {label : ι} (allowed : ∀ earlier ∈ labels, passes earlier label)
    : Swaps passes (labels ++ [label]) (label :: labels) := by
  induction labels with
  | nil => exact .refl
  | cons earlier rest ih =>
      have inner := ih (fun other member => allowed other (List.mem_cons_of_mem _ member))
      have moved : Swaps passes (earlier :: rest ++ [label]) ([] ++ earlier :: label :: rest) :=
        inner.append_left [earlier]
      exact moved.swap (allowed earlier List.mem_cons_self)

/-- A stretch is put off until after those that may pass all of it. -/
theorem behind {block : List ι}
    (allowed : ∀ earlier ∈ block, ∀ later ∈ labels, passes earlier later)
    : Swaps passes (block ++ labels) (labels ++ block) := by
  induction labels with
  | nil =>
      rw [List.append_nil]
      exact .refl
  | cons label rest ih =>
      have first : Swaps passes (block ++ [label] ++ rest) (label :: block ++ rest) :=
        (ahead (fun earlier member => allowed earlier member label List.mem_cons_self)).append_right
          rest
      rw [List.append_assoc] at first
      exact first.trans ((ih (fun earlier member later inRest =>
        allowed earlier member later (List.mem_cons_of_mem _ inRest))).append_left [label])

theorem perm (swaps : Swaps passes labels others) : others.Perm labels := by
  induction swaps with
  | refl => exact .refl _
  | swap _ _ ih => exact (List.Perm.append_left _ (.swap ..)).trans ih

/-- Each owner's labels stay in order if only labels of different owners pass. -/
theorem filter_owner [DecidableEq τ] {owner : ι → τ} (swaps : Swaps passes labels others)
    (different : ∀ first second, passes first second → owner first ≠ owner second) (t : τ)
    : others.filter (fun label => owner label = t)
      = labels.filter (fun label => owner label = t) := by
  induction swaps with
  | refl => rfl
  | @swap before after first second _ allowed ih =>
      rw [← ih, List.filter_append, List.filter_append]
      by_cases mine : owner first = t
      · have other : owner second ≠ t := fun same => different first second allowed (mine.trans same.symm)
        simp [mine, other]
      · simp [List.filter_cons, mine]

end Swaps

end Reordering
