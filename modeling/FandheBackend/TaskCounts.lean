import Mathlib.Data.Finset.Card
import Mathlib.Logic.Function.Basic

set_option autoImplicit false

namespace FandheBackend.TaskCounts

section
variable {C : Type} (counts : C → Bool)

/-- Exactly `n` tasks are in a state that counts. -/
def Counted (table : ℕ → C) (n : ℕ) : Prop :=
  ∃ tasks : Finset ℕ, (∀ i, i ∈ tasks ↔ counts (table i) = true) ∧ tasks.card = n

variable {counts} {table : ℕ → C} {n : ℕ}

theorem counted_zero (h : ∀ i, counts (table i) = false) : Counted counts table 0 :=
  ⟨∅, by simp [h], rfl⟩

theorem Counted.pos {i : ℕ} (h : Counted counts table n) (hi : counts (table i) = true) : 0 < n := by
  obtain ⟨tasks, htasks, rfl⟩ := h
  exact Finset.card_pos.mpr ⟨i, (htasks i).mpr hi⟩

theorem Counted.none_of_zero (h : Counted counts table 0) (i : ℕ) : counts (table i) = false := by
  by_contra hi
  exact Nat.lt_irrefl 0 (h.pos (by simpa using hi))

/-- One entry changes, and the counter with it. -/
theorem Counted.update {i n' : ℕ} {c : C} (h : Counted counts table n)
    (hn : n + (counts c).toNat = n' + (counts (table i)).toNat) :
    Counted counts (Function.update table i c) n' := by
  obtain ⟨tasks, htasks, rfl⟩ := h
  have hother : ∀ j, j ≠ i → (counts (Function.update table i c j) = true ↔ j ∈ tasks) := by
    intro j hj
    rw [Function.update_of_ne hj, htasks j]
  cases hnew : counts c with
  | true =>
    refine ⟨insert i tasks, fun j => ?_, ?_⟩
    · by_cases hj : j = i
      · subst hj
        simp [hnew]
      · rw [hother j hj, Finset.mem_insert]
        simp [hj]
    · cases hold : counts (table i) with
      | true =>
        rw [hnew, hold] at hn
        rw [Finset.insert_eq_of_mem ((htasks i).mpr hold)]
        simpa using hn
      | false =>
        rw [hnew, hold] at hn
        have hmem : i ∉ tasks := by simp [htasks, hold]
        rw [Finset.card_insert_of_notMem hmem]
        simpa using hn
  | false =>
    refine ⟨tasks.erase i, fun j => ?_, ?_⟩
    · by_cases hj : j = i
      · subst hj
        simp [hnew]
      · rw [hother j hj, Finset.mem_erase]
        simp [hj]
    · cases hold : counts (table i) with
      | true =>
        rw [hnew, hold] at hn
        have hmem : i ∈ tasks := (htasks i).mpr hold
        have hcard := Finset.card_erase_add_one hmem
        simp only [Bool.toNat_false, Bool.toNat_true] at hn
        omega
      | false =>
        rw [hnew, hold] at hn
        have hmem : i ∉ tasks := by simp [htasks, hold]
        rw [Finset.erase_eq_of_notMem hmem]
        simpa using hn

theorem Counted.exists_update (h : Counted counts table n) (i : ℕ) (c : C) :
    ∃ n', Counted counts (Function.update table i c) n' ∧
      n' + (counts (table i)).toNat = n + (counts c).toNat := by
  have hle : (counts (table i)).toNat ≤ n := by
    cases hi : counts (table i) with
    | true => exact h.pos hi
    | false => exact Nat.zero_le n
  exact ⟨n + (counts c).toNat - (counts (table i)).toNat, h.update (by omega), by omega⟩

end

end FandheBackend.TaskCounts
