import Mathlib.Data.List.Basic

/-!
# Sorting

Sorting keeps the order of items that are level with each other.  So sorting a list and picking
some of its items can be done in either order, and items that are all level stay as they stand.

## Main definitions

* `IsSortedBy` — a list holds the items of another one, sorted by a number.

## Main results

* `mergeSort_filter` — **some items of a sorted list are these items sorted.**
* `filter_mergeSort_of_level` — items that are level with each other stay as they stand.
* `isSortedBy_mergeSort`, `mergeSort_eq_self` — what sorting by a number gives.
* `IsSortedBy.eq_filter_append` — items with the least number stand in front.
-/

namespace TrustFramework

variable {α : Type}

/-- A list can be divided in one way only into items of a kind and others behind them. -/
theorem eq_of_append_eq {p : α → Bool} {xs ys xs' ys' : List α} (h : xs ++ ys = xs' ++ ys')
    (hxs : ∀ x ∈ xs, p x = true) (hys : ∀ y ∈ ys, p y = false) (hxs' : ∀ x ∈ xs', p x = true)
    (hys' : ∀ y ∈ ys', p y = false) : xs = xs' ∧ ys = ys' := by
  have hleft : ∀ {xs ys : List α}, (∀ x ∈ xs, p x = true) → (∀ y ∈ ys, p y = false) →
      (xs ++ ys).filter p = xs := fun {xs ys} hxs hys => by
    rw [List.filter_append, List.filter_eq_self.mpr hxs,
      List.filter_eq_nil_iff.mpr fun y hy => by simp [hys y hy], List.append_nil]
  have heq : xs = xs' := by rw [← hleft hxs hys, h, hleft hxs' hys']
  subst heq
  exact ⟨rfl, List.append_cancel_left h⟩

section

variable {le : α → α → Bool}

/-- **Some items of a sorted list are these items sorted**: sorting keeps the order of items that
are level with each other. -/
theorem mergeSort_filter (htrans : ∀ a b c, le a b = true → le b c = true → le a c = true)
    (htotal : ∀ a b, (le a b || le b a) = true) (p : α → Bool) (items : List α) :
    (items.filter p).mergeSort le = (items.mergeSort le).filter p := by
  induction items with
  | nil => simp
  | cons a items ih =>
    obtain ⟨before, after, hall, hitems, hbefore⟩ := List.mergeSort_cons htrans htotal a items
    cases hp : p a with
    | false => rw [List.filter_cons_of_neg (by simp [hp]), ih, hall, hitems]; simp [hp]
    | true =>
      rw [List.filter_cons_of_pos hp, hall]
      obtain ⟨before', after', hsome, hrest, hbefore'⟩ :=
        List.mergeSort_cons htrans htotal a (items.filter p)
      -- in both lists the first item stands in front of those that it is not behind
      have hafter : ∀ b ∈ after, le a b = true := by
        have hsorted := List.pairwise_mergeSort htrans htotal (a :: items)
        rw [hall] at hsorted
        exact (List.pairwise_cons.mp (List.pairwise_append.mp hsorted).2.1).1
      have hafter' : ∀ b ∈ after', le a b = true := by
        have hsorted := List.pairwise_mergeSort htrans htotal (a :: items.filter p)
        rw [hsome] at hsorted
        exact (List.pairwise_cons.mp (List.pairwise_append.mp hsorted).2.1).1
      have hsplit : before' ++ after' = before.filter p ++ after.filter p := by
        rw [← hrest, ih, hitems, List.filter_append]
      obtain ⟨rfl, rfl⟩ := eq_of_append_eq (p := fun b => !le a b) hsplit hbefore'
        (fun b hb => by simp [hafter' b hb])
        (fun b hb => hbefore b (List.mem_of_mem_filter hb))
        (fun b hb => by simp [hafter b (List.mem_of_mem_filter hb)])
      simp [hsome, hp]

/-- Items that are level with each other stay as they stand. -/
theorem filter_mergeSort_of_level
    (htrans : ∀ a b c, le a b = true → le b c = true → le a c = true)
    (htotal : ∀ a b, (le a b || le b a) = true) {p : α → Bool}
    (hlevel : ∀ a b, p a = true → p b = true → le a b = true) (items : List α) :
    (items.mergeSort le).filter p = items.filter p := by
  rw [← mergeSort_filter htrans htotal]
  exact List.mergeSort_of_pairwise (List.pairwise_of_forall_mem_list fun a ha b hb =>
    hlevel a b (List.mem_filter.mp ha).2 (List.mem_filter.mp hb).2)

end

/-! ### By a number -/

section

variable (f : α → Int)

theorem decide_le_trans (a b c : α) (hab : decide (f a ≤ f b) = true)
    (hbc : decide (f b ≤ f c) = true) : decide (f a ≤ f c) = true :=
  decide_eq_true (Int.le_trans (of_decide_eq_true hab) (of_decide_eq_true hbc))

theorem decide_le_total (a b : α) : (decide (f a ≤ f b) || decide (f b ≤ f a)) = true := by
  simpa using Int.le_total (f a) (f b)

/-- A list holds the items of another one sorted by a number: those of one number stand in it as
they do in the other. -/
structure IsSortedBy (items sorted : List α) : Prop where
  perm : sorted.Perm items
  ascends : sorted.Pairwise fun a b => f a ≤ f b
  stable : ∀ n, (sorted.filter fun a => f a == n) = items.filter fun a => f a == n

theorem pairwise_le_mergeSort (items : List α) :
    (items.mergeSort fun a b => f a ≤ f b).Pairwise fun a b => f a ≤ f b :=
  (List.pairwise_mergeSort (decide_le_trans f) (decide_le_total f) items).imp
    fun h => of_decide_eq_true h

/-- Items in the order of their numbers stay as they stand. -/
theorem mergeSort_eq_self {items : List α} (h : items.Pairwise fun a b => f a ≤ f b) :
    (items.mergeSort fun a b => f a ≤ f b) = items :=
  List.mergeSort_of_pairwise (h.imp fun hle => decide_eq_true hle)

/-- Items with one number stay as they stand. -/
theorem filter_mergeSort_of_eq {p : α → Bool} {n : Int} (hp : ∀ a, p a = true → f a = n)
    (items : List α) : (items.mergeSort fun a b => f a ≤ f b).filter p = items.filter p := by
  refine filter_mergeSort_of_level (decide_le_trans f) (decide_le_total f) (fun a b ha hb => ?_) _
  rw [hp a ha, hp b hb]
  exact decide_eq_true (Int.le_refl n)

/-- What sorting by a number gives. -/
theorem isSortedBy_mergeSort (items : List α) :
    IsSortedBy f items (items.mergeSort fun a b => f a ≤ f b) where
  perm := List.mergeSort_perm _ _
  ascends := pairwise_le_mergeSort f items
  stable n := filter_mergeSort_of_eq f (fun a ha => by simpa using ha) items

variable {f}

/-- Items with the least number stand in front, as they stand in the other list. -/
theorem IsSortedBy.eq_filter_append {items sorted : List α} (h : IsSortedBy f items sorted)
    {n : Int} (hleast : ∀ a ∈ items, n ≤ f a) :
    ∃ later, sorted = (items.filter fun a => f a == n) ++ later ∧ ∀ a ∈ later, n < f a := by
  rw [← h.stable]
  have hleast : ∀ a ∈ sorted, n ≤ f a := fun a ha => hleast a (h.perm.mem_iff.mp ha)
  have hascends := h.ascends
  clear h
  induction sorted with
  | nil => exact ⟨[], by simp⟩
  | cons a sorted ih =>
    rw [List.forall_mem_cons] at hleast
    rw [List.pairwise_cons] at hascends
    by_cases ha : f a = n
    · obtain ⟨later, heq, hlater⟩ := ih hleast.2 hascends.2
      have hfront : ((a :: sorted).filter fun a => f a == n) =
          a :: sorted.filter fun a => f a == n := List.filter_cons_of_pos (beq_iff_eq.mpr ha)
      exact ⟨later, by rw [hfront, List.cons_append, ← heq], hlater⟩
    · -- no item behind has a lesser number
      have hlater : ∀ b ∈ a :: sorted, n < f b := List.forall_mem_cons.mpr
        ⟨by omega, fun b hb => by have := hascends.1 b hb; omega⟩
      refine ⟨a :: sorted, ?_, hlater⟩
      have hnone : ((a :: sorted).filter fun a => f a == n) = [] :=
        List.filter_eq_nil_iff.mpr fun b hb => by have := hlater b hb; simp; omega
      rw [hnone, List.nil_append]

end

end TrustFramework
