import Mathlib.Data.Finset.Sort
import Mathlib.Data.List.Destutter

set_option autoImplicit false

namespace FandheBackend.SortedDistinct

theorem mem_destutter' {α : Type} [DecidableEq α] {a b : α} {l : List α} :
    b ∈ l.destutter' (· ≠ ·) a ↔ b = a ∨ b ∈ l := by
  induction l generalizing a with
  | nil => simp
  | cons c l ih =>
    by_cases h : a = c
    · subst h
      rw [List.destutter'_cons_neg _ (not_not.mpr rfl), ih]
      simp
    · rw [List.destutter'_cons_pos _ h, List.mem_cons, ih, List.mem_cons]

theorem lt_of_distinct {α : Type} [LE α] [LT α] [Std.IsLinearOrder α] [Std.LawfulOrderLT α]
    {a b : α} (hle : a ≤ b) (hne : a ≠ b) : a < b := by
  rw [Std.LawfulOrderLT.lt_iff]
  exact ⟨hle, fun hge => hne (Std.le_antisymm hle hge)⟩

section
variable {α : Type} [LE α] [DecidableEq α] [DecidableLE α]

/-- `Vec::sort`, then `Vec::dedup`. -/
def sortDedup (l : List α) : List α := (l.insertionSort (· ≤ ·)).destutter (· ≠ ·)

theorem mem_sortDedup {a : α} {l : List α} : a ∈ sortDedup l ↔ a ∈ l := by
  rw [← List.mem_insertionSort (· ≤ ·) (l := l), sortDedup]
  cases l.insertionSort (· ≤ ·) with
  | nil => simp
  | cons b l => rw [List.destutter_cons', mem_destutter', List.mem_cons]

variable [LT α] [Std.IsLinearOrder α] [Std.LawfulOrderLT α]

theorem pairwise_sortDedup (l : List α) : (sortDedup l).Pairwise (· < ·) := by
  have hle : (sortDedup l).Pairwise (· ≤ ·) :=
    (List.pairwise_insertionSort (· ≤ ·) l).sublist (List.destutter_sublist _ _)
  have hne : (sortDedup l).IsChain (· ≠ ·) := List.isChain_destutter _ _
  have hlt : (sortDedup l).IsChain (· < ·) := by
    rw [List.isChain_iff_getElem] at hne ⊢
    intro i hi
    exact lt_of_distinct (List.pairwise_iff_getElem.mp hle i (i + 1) _ hi (by omega)) (hne i hi)
  exact hlt.pairwise

theorem sortDedup_eq_iff {l s : List α} :
    sortDedup l = s ↔ s.Pairwise (· < ·) ∧ ∀ a, a ∈ s ↔ a ∈ l := by
  constructor
  · rintro rfl
    exact ⟨pairwise_sortDedup l, fun _ => mem_sortDedup⟩
  · rintro ⟨hs, hmem⟩
    exact (pairwise_sortDedup l).eq_of_mem_iff hs fun a => mem_sortDedup.trans (hmem a).symm

theorem sort_eq_sortDedup {S : Finset α} {l : List α} (h : ∀ a, a ∈ l ↔ a ∈ S) :
    S.sort (· ≤ ·) = sortDedup l := by
  have hlt : (S.sort (· ≤ ·)).Pairwise (· < ·) :=
    ((Finset.pairwise_sort S (· ≤ ·)).and (Finset.sort_nodup S (· ≤ ·))).imp
      fun hab => lt_of_distinct hab.1 hab.2
  exact (sortDedup_eq_iff.mpr ⟨hlt, fun a => (Finset.mem_sort _).trans (h a).symm⟩).symm

end

end FandheBackend.SortedDistinct
