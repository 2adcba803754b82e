import Mathlib.Data.List.Basic
import Mathlib.Data.List.Nodup
import Mathlib.Logic.Relation
import Mathlib.Tactic.Common

/-!
# Linked histories

A history is a list of records, newest first. It is linked when every record names the key of the
record before it, and the oldest names none: a chain of hashes. When records with one key have one
link, the keys of a linked history are distinct and no two of its records have the same link, so
the history has no fork.

## Main definitions

* `Linked`.

## Main results

* `Linked.nodup_keys`, `Linked.eq_of_link_eq`: a linked history has no cycle and no fork.
* `Linked.reaches`: the newest record reaches every other through the links.
* `eq_of_suffix_of_key_eq`: an earlier history with the newest key of the present one is it.
-/

namespace Buzz.Library

variable {α δ : Type*} (key : α → δ) (link : α → Option δ)

/-- Every record links to the key of the record before it, and the oldest to none. -/
def Linked : List α → Prop
  | [] => True
  | a :: l => link a = l.head?.map key ∧ Linked l

variable {key link}

/-- A record that is not the newest links strictly below the newest. -/
theorem Linked.exists_suffix {l : List α} (h : Linked key link l) {b : α} (hb : b ∈ l) :
    ∃ rest, b :: rest <:+ l ∧ link b = rest.head?.map key := by
  induction l with
  | nil => exact absurd hb List.not_mem_nil
  | cons a l ih =>
    rcases List.mem_cons.mp hb with rfl | hb
    · exact ⟨l, List.suffix_refl _, h.1⟩
    · obtain ⟨rest, hsuffix, hlink⟩ := ih h.2 hb
      exact ⟨rest, hsuffix.trans (List.suffix_cons a l), hlink⟩

/-- No record links to the newest one. -/
theorem Linked.link_ne_head {l : List α} (h : Linked key link l) (hnodup : (l.map key).Nodup)
    {b : α} (hb : b ∈ l) : link b ≠ l.head?.map key := by
  obtain ⟨rest, hsuffix, hlink⟩ := h.exists_suffix hb
  intro heq
  cases l with
  | nil => exact absurd hb List.not_mem_nil
  | cons a l =>
    rw [hlink, List.head?_cons, Option.map_some, Option.map_eq_some_iff] at heq
    obtain ⟨d, hd, hkey⟩ := heq
    -- The record that `b` links to lies below the newest one and has its key.
    have hrest : rest <:+ l := by
      rcases List.suffix_cons_iff.mp hsuffix with hall | hsuffix
      · exact (List.cons.inj hall).2 ▸ List.suffix_refl _
      · exact (List.suffix_cons b rest).trans hsuffix
    have hmem : d ∈ l := hrest.subset (List.mem_of_mem_head? hd)
    rw [List.map_cons, List.nodup_cons] at hnodup
    exact hnodup.1 (hkey ▸ List.mem_map_of_mem hmem)

/-- The keys of a linked history are distinct. -/
theorem Linked.nodup_keys {l : List α} (h : Linked key link l)
    (hdet : ∀ a ∈ l, ∀ b ∈ l, key a = key b → link a = link b) : (l.map key).Nodup := by
  induction l with
  | nil => exact List.nodup_nil
  | cons a l ih =>
    have hnodup := ih h.2 fun x hx y hy =>
      hdet x (List.mem_cons_of_mem _ hx) y (List.mem_cons_of_mem _ hy)
    rw [List.map_cons, List.nodup_cons]
    refine ⟨fun hmem => ?_, hnodup⟩
    obtain ⟨b, hb, hkey⟩ := List.mem_map.mp hmem
    have hlink := hdet b (List.mem_cons_of_mem _ hb) a List.mem_cons_self hkey
    exact h.2.link_ne_head hnodup hb (hlink.trans h.1)

/-- No two records of a linked history have the same link. -/
theorem Linked.eq_of_link_eq {l : List α} (h : Linked key link l) (hnodup : (l.map key).Nodup)
    {a b : α} (ha : a ∈ l) (hb : b ∈ l) (heq : link a = link b) : a = b := by
  induction l with
  | nil => exact absurd ha List.not_mem_nil
  | cons c l ih =>
    have htail : (l.map key).Nodup := by
      rw [List.map_cons] at hnodup
      exact hnodup.of_cons
    rcases List.mem_cons.mp ha with rfl | hal <;> rcases List.mem_cons.mp hb with rfl | hbl
    · rfl
    · exact absurd (heq.symm.trans h.1) (h.2.link_ne_head htail hbl)
    · exact absurd (heq.trans h.1) (h.2.link_ne_head htail hal)
    · exact ih h.2 htail hal hbl

/-- The newest record reaches every record through the links. -/
theorem Linked.reaches {a b : α} {l : List α} (h : Linked key link (a :: l)) (hb : b ∈ a :: l) :
    Relation.ReflTransGen
      (fun x y => x ∈ a :: l ∧ y ∈ a :: l ∧ link x = some (key y)) a b := by
  induction l generalizing a with
  | nil =>
    obtain rfl := List.mem_singleton.mp hb
    exact .refl
  | cons c l ih =>
    rcases List.mem_cons.mp hb with rfl | hb
    · exact .refl
    · have hstep : link a = some (key c) := h.1
      refine .head ⟨List.mem_cons_self, List.mem_cons_of_mem _ List.mem_cons_self, hstep⟩ ?_
      refine Relation.ReflTransGen.mono ?_ _ _ (ih h.2 hb)
      exact fun x y hxy => ⟨List.mem_cons_of_mem _ hxy.1, List.mem_cons_of_mem _ hxy.2.1, hxy.2.2⟩

/-- An earlier history whose newest record has the newest key of the present one is the present
one. -/
theorem eq_of_suffix_of_key_eq {κ : Type*} {version : α → κ} {a b : α} {l l' : List α}
    (hnodup : ((b :: l').map version).Nodup) (hsuffix : a :: l <:+ b :: l')
    (heq : version a = version b) : a :: l = b :: l' := by
  rcases List.suffix_cons_iff.mp hsuffix with hall | hsuffix
  · exact hall
  · rw [List.map_cons, List.nodup_cons] at hnodup
    exact absurd (heq ▸ List.mem_map_of_mem (hsuffix.subset List.mem_cons_self)) hnodup.1

end Buzz.Library
