import Mathlib.Data.List.Sort

/-!
# Stable sorting by a key, and sorting without repetitions

`sortByKey` is the stable sort of a list by a key. A stable sort is determined by three facts:
the result is a rearrangement of the list, its keys increase, and the elements of any one key
keep their order.

`sortDedup` sorts a list and then drops repeated neighbours: the strictly increasing list of its
elements.

## Main definitions

* `sortByKey`, `dedupAdjacent`, `sortDedup`.

## Main results

* `sortByKey_perm`, `sortByKey_pairwise`, `filter_sortByKey`, `sortByKey_eq_of_perm`.
* `mem_sortDedup`, `sortDedup_pairwise`, `sortDedup_eq_self`.
-/

namespace Buzz.Library

section SortByKey

variable {α β : Type*} [LinearOrder β] (f : α → β) (l : List α)

/-- The stable sort of a list by a key: `slice::sort_by_key`. -/
def sortByKey : List α := l.insertionSort fun a b => f a ≤ f b

theorem sortByKey_perm : (sortByKey f l).Perm l := List.perm_insertionSort _ l

private theorem total_key : Std.Total fun a b : α => f a ≤ f b :=
  ⟨fun a b => le_total (f a) (f b)⟩

private theorem trans_key : IsTrans α fun a b => f a ≤ f b :=
  ⟨fun _ _ _ => le_trans⟩

theorem sortByKey_pairwise : (sortByKey f l).Pairwise fun a b => f a ≤ f b :=
  have := total_key f
  have := trans_key f
  List.pairwise_insertionSort _ l

@[simp]
theorem length_sortByKey : (sortByKey f l).length = l.length := (sortByKey_perm f l).length_eq

/-- Elements of equal keys keep their order. -/
theorem filter_sortByKey (k : β) :
    (sortByKey f l).filter (fun a => f a = k) = l.filter fun a => f a = k := by
  have := total_key f
  have := trans_key f
  have hpair : (l.filter fun a => f a = k).Pairwise fun a b => f a ≤ f b := by
    refine List.pairwise_of_forall_mem_list fun a ha b hb => ?_
    have hka : f a = k := by simpa using (List.mem_filter.mp ha).2
    have hkb : f b = k := by simpa using (List.mem_filter.mp hb).2
    rw [hka, hkb]
  have hsub : (l.filter fun a => f a = k).Sublist ((sortByKey f l).filter fun a => f a = k) := by
    have h := (List.sublist_insertionSort hpair List.filter_sublist).filter fun a => f a = k
    rwa [List.filter_filter, show (fun a => decide (f a = k) && decide (f a = k)) =
      fun a => decide (f a = k) from funext fun a => Bool.and_self _] at h
  have hlen := ((sortByKey_perm f l).filter fun a => f a = k).length_eq
  exact (hsub.eq_of_length hlen.symm).symm

variable {f} in
/-- The order of elements with distinct keys does not depend on how they were listed. -/
theorem sortByKey_eq_of_perm {l l' : List α} (h : l.Perm l') (hkeys : (l.map f).Nodup) :
    sortByKey f l = sortByKey f l' := by
  have hperm : (sortByKey f l).Perm (sortByKey f l') :=
    ((sortByKey_perm f l).trans h).trans (sortByKey_perm f l').symm
  refine hperm.eq_of_pairwise ?_ (sortByKey_pairwise f l) (sortByKey_pairwise f l')
  intro a b ha hb hab hba
  have ha' : a ∈ l := (sortByKey_perm f l).mem_iff.mp ha
  have hb' : b ∈ l := h.mem_iff.mpr ((sortByKey_perm f l').mem_iff.mp hb)
  exact List.inj_on_of_nodup_map hkeys ha' hb' (le_antisymm hab hba)

end SortByKey

section SortDedup

variable {α : Type*}

/-- Drop every element that equals its successor: `Vec::dedup`. -/
def dedupAdjacent [DecidableEq α] : List α → List α
  | [] => []
  | [a] => [a]
  | a :: b :: l => if a = b then dedupAdjacent (b :: l) else a :: dedupAdjacent (b :: l)

theorem mem_dedupAdjacent [DecidableEq α] {x : α} : ∀ {l : List α}, x ∈ dedupAdjacent l ↔ x ∈ l
  | [] => Iff.rfl
  | [_] => Iff.rfl
  | a :: b :: l => by
    rw [dedupAdjacent]
    split_ifs with hab
    · rw [mem_dedupAdjacent, hab]
      simp
    · rw [List.mem_cons, mem_dedupAdjacent, ← List.mem_cons]

theorem dedupAdjacent_pairwise [LinearOrder α] :
    ∀ {l : List α}, l.Pairwise (· ≤ ·) → (dedupAdjacent l).Pairwise (· < ·)
  | [], _ => List.Pairwise.nil
  | [a], _ => List.pairwise_singleton _ a
  | a :: b :: l, h => by
    obtain ⟨ha, hbl⟩ := List.pairwise_cons.mp h
    have hrest := dedupAdjacent_pairwise hbl
    rw [dedupAdjacent]
    split_ifs with hab
    · exact hrest
    · refine List.pairwise_cons.mpr ⟨fun x hx => ?_, hrest⟩
      have hblt : a < b := lt_of_le_of_ne (ha b List.mem_cons_self) hab
      rcases List.mem_cons.mp (mem_dedupAdjacent.mp hx) with rfl | hxl
      · exact hblt
      · exact lt_of_lt_of_le hblt ((List.pairwise_cons.mp hbl).1 x hxl)

theorem dedupAdjacent_eq_self [LinearOrder α] :
    ∀ {l : List α}, l.Pairwise (· < ·) → dedupAdjacent l = l
  | [], _ => rfl
  | [_], _ => rfl
  | a :: b :: l, h => by
    obtain ⟨ha, hbl⟩ := List.pairwise_cons.mp h
    rw [dedupAdjacent, if_neg (ha b List.mem_cons_self).ne, dedupAdjacent_eq_self hbl]

/-- Sort and drop repetitions: `sort` and then `dedup`. -/
def sortDedup [LinearOrder α] (l : List α) : List α := dedupAdjacent (l.insertionSort (· ≤ ·))

theorem mem_sortDedup [LinearOrder α] {x : α} {l : List α} : x ∈ sortDedup l ↔ x ∈ l := by
  rw [sortDedup, mem_dedupAdjacent, List.mem_insertionSort]

theorem sortDedup_pairwise [LinearOrder α] (l : List α) : (sortDedup l).Pairwise (· < ·) :=
  dedupAdjacent_pairwise (List.pairwise_insertionSort _ l)

theorem sortDedup_eq_self [LinearOrder α] {l : List α} (h : l.Pairwise (· < ·)) :
    sortDedup l = l := by
  rw [sortDedup, List.Pairwise.insertionSort_eq (h.imp fun hab => hab.le), dedupAdjacent_eq_self h]

end SortDedup

end Buzz.Library
