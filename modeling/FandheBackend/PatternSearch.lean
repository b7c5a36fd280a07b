import Mathlib.Data.List.Infix
import Mathlib.Tactic.Common

set_option autoImplicit false

namespace FandheBackend.PatternSearch

section
variable {α : Type} [DecidableEq α]

def findFirst (needle : List α) : List α → Option ℕ
  | [] => if needle = [] then some 0 else none
  | x :: xs => if needle <+: x :: xs then some 0 else (findFirst needle xs).map (· + 1)

theorem findFirst_eq_some_iff (needle xs : List α) (i : ℕ) :
    findFirst needle xs = some i ↔
      needle <+: xs.drop i ∧ i ≤ xs.length ∧ ∀ j < i, ¬ needle <+: xs.drop j := by
  induction xs generalizing i with
  | nil =>
    simp only [findFirst, List.drop_nil, List.length_nil, List.prefix_nil]
    split_ifs with h
    · simp only [Option.some.injEq, h, true_and, not_true_eq_false]
      constructor
      · rintro rfl
        exact ⟨le_refl _, fun j hj => absurd hj (Nat.not_lt_zero j)⟩
      · exact fun hi => (Nat.le_zero.mp hi.1).symm
    · simp [h]
  | cons x xs ih =>
    by_cases hx : needle <+: x :: xs
    · simp only [findFirst, hx, ↓reduceIte, Option.some.injEq]
      constructor
      · rintro rfl
        exact ⟨hx, Nat.zero_le _, fun j hj => absurd hj (Nat.not_lt_zero j)⟩
      · rintro ⟨_, _, hmin⟩
        by_contra hne
        exact hmin 0 (by omega) hx
    · simp only [findFirst, hx, ↓reduceIte, Option.map_eq_some_iff]
      constructor
      · rintro ⟨k, hk, rfl⟩
        obtain ⟨hp, hl, hmin⟩ := (ih k).mp hk
        refine ⟨hp, by simpa using hl, ?_⟩
        intro j hj
        cases j with
        | zero => simpa using hx
        | succ j => simpa using hmin j (by omega)
      · rintro ⟨hp, hl, hmin⟩
        cases i with
        | zero => exact absurd hp (by simpa using hx)
        | succ i =>
          refine ⟨i, (ih i).mpr ⟨by simpa using hp, by simpa using hl, ?_⟩, rfl⟩
          intro j hj
          simpa using hmin (j + 1) (by omega)

theorem findFirst_eq_none_iff (needle xs : List α) :
    findFirst needle xs = none ↔ ∀ j, ¬ needle <+: xs.drop j := by
  induction xs with
  | nil => simp [findFirst]
  | cons x xs ih =>
    by_cases hx : needle <+: x :: xs
    · simp only [findFirst, hx, ↓reduceIte, reduceCtorEq, false_iff, not_forall, not_not]
      exact ⟨0, hx⟩
    · simp only [findFirst, hx, ↓reduceIte, Option.map_eq_none_iff, ih]
      constructor
      · intro h j
        cases j with
        | zero => simpa using hx
        | succ j => simpa using h j
      · intro h j
        simpa using h (j + 1)

omit [DecidableEq α] in
theorem prefix_drop_append {needle p : List α} {j : ℕ} (q : List α)
    (hj : j + needle.length ≤ p.length) :
    needle <+: (p ++ q).drop j ↔ needle <+: p.drop j := by
  rw [List.drop_append_of_le_length (by omega)]
  constructor
  · intro h
    exact List.prefix_of_prefix_length_le h (List.prefix_append _ _)
      (by rw [List.length_drop]; omega)
  · exact fun h => h.trans (List.prefix_append _ _)

theorem findFirst_length_le {needle xs : List α} {i : ℕ}
    (h : findFirst needle xs = some i) : i + needle.length ≤ xs.length := by
  obtain ⟨hp, hl, _⟩ := (findFirst_eq_some_iff needle xs i).mp h
  have := hp.length_le
  rw [List.length_drop] at this
  omega

/-- An occurrence once found stays the first one, whatever is appended. -/
theorem findFirst_append_of_some {needle p : List α} {i : ℕ} (q : List α)
    (h : findFirst needle p = some i) : findFirst needle (p ++ q) = some i := by
  have hlen := findFirst_length_le h
  obtain ⟨hp, hl, hmin⟩ := (findFirst_eq_some_iff needle p i).mp h
  rw [findFirst_eq_some_iff]
  refine ⟨(prefix_drop_append q hlen).mpr hp, by rw [List.length_append]; omega, ?_⟩
  intro j hj
  rw [prefix_drop_append q (by omega)]
  exact hmin j hj

/-- A first occurrence that appears only after appending ends beyond the old end. -/
theorem findFirst_append_of_none {needle p q : List α} {i : ℕ}
    (h : findFirst needle p = none) (hq : findFirst needle (p ++ q) = some i) :
    p.length < i + needle.length := by
  by_contra hle
  obtain ⟨hp, _, _⟩ := (findFirst_eq_some_iff needle (p ++ q) i).mp hq
  rw [prefix_drop_append q (by omega)] at hp
  exact (findFirst_eq_none_iff needle p).mp h i hp

end

end FandheBackend.PatternSearch
