import Mathlib.Data.List.Nodup

set_option autoImplicit false

namespace FandheBackend.KeyedList

section
variable {K V : Type} [DecidableEq K]

def find : List (K × V) → K → Option V
  | [], _ => none
  | e :: rest, k => if e.1 = k then some e.2 else find rest k

/-- `iter_mut().find(..)` with an assignment. -/
def set (k : K) (v : V) : List (K × V) → List (K × V)
  | [] => []
  | e :: rest => if e.1 = k then (k, v) :: rest else e :: set k v rest

/-- `position(..)` with a `remove`. -/
def erase (k : K) : List (K × V) → List (K × V)
  | [] => []
  | e :: rest => if e.1 = k then rest else e :: erase k rest

def keys (l : List (K × V)) : List K := l.map Prod.fst

theorem mem_of_find {l : List (K × V)} {k : K} {v : V} (h : find l k = some v) : (k, v) ∈ l := by
  induction l with
  | nil => cases h
  | cons e rest ih =>
    rw [find] at h
    split_ifs at h with he
    · cases h
      subst he
      exact List.mem_cons_self
    · exact List.mem_cons_of_mem _ (ih h)

theorem find_eq_some {l : List (K × V)} {k : K} {v : V} (hl : (keys l).Nodup) (h : (k, v) ∈ l) :
    find l k = some v := by
  induction l with
  | nil => cases h
  | cons e rest ih =>
    obtain ⟨hnot, hrest⟩ := List.nodup_cons.mp hl
    rw [find]
    rcases List.mem_cons.mp h with rfl | h
    · rw [if_pos rfl]
    · have hne : e.1 ≠ k := fun heq => hnot (List.mem_map.mpr ⟨(k, v), h, heq.symm⟩)
      rw [if_neg hne]
      exact ih hrest h

theorem find_eq_none {l : List (K × V)} {k : K} (h : k ∉ keys l) : find l k = none := by
  cases hfind : find l k with
  | none => rfl
  | some v => exact absurd (List.mem_map.mpr ⟨(k, v), mem_of_find hfind, rfl⟩) h

theorem not_mem_of_find {l : List (K × V)} {k : K} (h : find l k = none) : k ∉ keys l := by
  induction l with
  | nil => exact List.not_mem_nil
  | cons e rest ih =>
    rw [find] at h
    split_ifs at h with he
    exact List.not_mem_cons_of_ne_of_not_mem (Ne.symm he) (ih h)

theorem find_append (l l' : List (K × V)) (k : K) :
    find (l ++ l') k = (find l k).or (find l' k) := by
  induction l with
  | nil => rfl
  | cons e rest ih =>
    rw [List.cons_append, find, find]
    split_ifs
    · rfl
    · exact ih

theorem find_set (l : List (K × V)) (k j : K) (v : V) :
    find (set k v l) j = if j = k then (find l k).map (fun _ => v) else find l j := by
  induction l with
  | nil => simp [find, set]
  | cons e rest ih =>
    by_cases he : e.1 = k
    · by_cases hj : j = k
      · simp [set, find, he, hj]
      · simp [set, find, he, hj, Ne.symm hj]
    · by_cases hj : j = k
      · subst hj
        simpa [set, find, he] using ih
      · by_cases hej : e.1 = j
        · simp [set, find, hej, hj]
        · simpa [set, find, he, hej, hj] using ih

theorem keys_set (l : List (K × V)) (k : K) (v : V) : keys (set k v l) = keys l := by
  induction l with
  | nil => rfl
  | cons e rest ih =>
    rw [set]
    split_ifs with he
    · subst he
      rfl
    · exact congrArg (e.1 :: ·) ih

theorem erase_sublist (l : List (K × V)) (k : K) : (erase k l).Sublist l := by
  induction l with
  | nil => exact .slnil
  | cons e rest ih =>
    rw [erase]
    split_ifs
    · exact List.sublist_cons_self e rest
    · exact ih.cons_cons e

theorem erase_eq_self {l : List (K × V)} {k : K} (h : find l k = none) : erase k l = l := by
  induction l with
  | nil => rfl
  | cons e rest ih =>
    rw [find] at h
    split_ifs at h with he
    rw [erase, if_neg he, ih h]

theorem find_erase {l : List (K × V)} (hl : (keys l).Nodup) (k j : K) :
    find (erase k l) j = if j = k then none else find l j := by
  induction l with
  | nil => simp [find, erase]
  | cons e rest ih =>
    obtain ⟨hnot, hrest⟩ := List.nodup_cons.mp hl
    rw [erase]
    by_cases he : e.1 = k
    · rw [if_pos he]
      by_cases hj : j = k
      · subst hj
        rw [if_pos rfl, find_eq_none (he ▸ hnot)]
      · rw [if_neg hj, find, if_neg (fun h => hj (h.symm.trans he))]
    · rw [if_neg he, find, find, ih hrest]
      by_cases hej : e.1 = j
      · rw [if_pos hej, if_pos hej, if_neg (fun h => he (hej.trans h))]
      · rw [if_neg hej, if_neg hej]

theorem find_filter_key (l : List (K × V)) (k j : K) :
    find (l.filter fun e => e.1 ≠ k) j = if j = k then none else find l j := by
  induction l with
  | nil => simp [find]
  | cons e rest ih =>
    by_cases he : e.1 = k
    · rw [List.filter_cons_of_neg (by simpa using he), ih, find]
      by_cases hj : j = k
      · rw [if_pos hj, if_pos hj]
      · rw [if_neg hj, if_neg hj, if_neg (fun h => hj (h.symm.trans he))]
    · rw [List.filter_cons_of_pos (by simpa using he), find, find, ih]
      by_cases hej : e.1 = j
      · rw [if_pos hej, if_pos hej, if_neg (fun h => he (hej.trans h))]
      · rw [if_neg hej, if_neg hej]

theorem find_filter {l : List (K × V)} (hl : (keys l).Nodup) (p : V → Bool) (k : K) :
    find (l.filter fun e => p e.2) k = (find l k).filter p := by
  induction l with
  | nil => rfl
  | cons e rest ih =>
    obtain ⟨hnot, hrest⟩ := List.nodup_cons.mp hl
    by_cases hp : p e.2 = true
    · rw [List.filter_cons_of_pos (by exact hp), find, find, ih hrest]
      split_ifs
      · rw [Option.filter_some, if_pos hp]
      · rfl
    · rw [List.filter_cons_of_neg (by exact hp), ih hrest, find]
      split_ifs with he
      · have hnone : find rest k = none := find_eq_none (he ▸ hnot)
        rw [hnone, Option.filter_none, Option.filter_some, if_neg hp]
      · rfl

end

end FandheBackend.KeyedList
