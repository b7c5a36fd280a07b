import Mathlib.Data.List.Nodup
import Mathlib.Data.List.Perm.Basic

set_option autoImplicit false

namespace FandheBackend.FirstAnswer

variable {α β : Type} {f : α → Option β} {l l' : List α}

def Before (a b : α) (l : List α) : Prop := [a, b].Sublist l

theorem before_append {a b : α} {pre post : List α} (h : b ∈ post) :
    Before a b (pre ++ a :: post) :=
  ((List.singleton_sublist.mpr h).cons_cons a).trans (List.sublist_append_right pre _)

theorem not_before_swap {a b : α} (h : Before a b l) (hnodup : l.Nodup) : ¬ Before b a l := by
  intro hswap
  induction l with
  | nil => cases h
  | cons c l ih =>
    rw [List.nodup_cons] at hnodup
    cases h with
    | cons _ h =>
      cases hswap with
      | cons _ hswap => exact ih h hnodup.2 hswap
      | cons_cons _ hswap => exact hnodup.1 (h.subset (by simp))
    | cons_cons _ h =>
      cases hswap with
      | cons _ hswap => exact hnodup.1 (hswap.subset (by simp))
      | cons_cons _ hswap => exact hnodup.1 (List.singleton_sublist.mp hswap)

/-- Who answers is before all the others that would. -/
theorem findSome?_eq_some_of_before (hnodup : l.Nodup) {a : α} {r : β} (ha : a ∈ l) (hr : f a = some r)
    (h : ∀ b ∈ l, (f b).isSome → b ≠ a → Before a b l) : l.findSome? f = some r := by
  obtain ⟨pre, post, rfl⟩ := List.append_of_mem ha
  refine List.findSome?_eq_some_iff.mpr ⟨pre, a, post, rfl, hr, fun b hb => ?_⟩
  cases hsome : f b with
  | none => rfl
  | some r' =>
    have hmem : b ∈ pre ++ a :: post := List.mem_append_left _ hb
    have hne : b ≠ a := by
      rintro rfl
      have := (List.nodup_append.mp hnodup).2.2 b hb
      exact this b List.mem_cons_self rfl
    have hswap : Before b a (pre ++ a :: post) := by
      obtain ⟨s, t, rfl⟩ := List.append_of_mem hb
      rw [List.append_assoc, List.cons_append]
      exact before_append (by simp)
    exact absurd (h b hmem (by rw [hsome]; rfl) hne) (not_before_swap hswap hnodup)

/-- Two arrangements that agree on the order of any two with an answer. -/
theorem findSome?_of_perm (hperm : l.Perm l') (hnodup : l.Nodup)
    (h : ∀ a b, (f a).isSome → (f b).isSome → Before a b l → Before a b l') :
    l.findSome? f = l'.findSome? f := by
  cases hfirst : l.findSome? f with
  | none =>
    rw [List.findSome?_eq_none_iff] at hfirst
    exact (List.findSome?_eq_none_iff.mpr fun a ha => hfirst a (hperm.mem_iff.mpr ha)).symm
  | some r =>
    obtain ⟨pre, a, post, rfl, hr, hpre⟩ := List.findSome?_eq_some_iff.mp hfirst
    refine (findSome?_eq_some_of_before (hperm.nodup_iff.mp hnodup)
      (hperm.subset (by simp)) hr fun b hb hsome hne => ?_).symm
    refine h a b (by rw [hr]; rfl) hsome (before_append ?_)
    have hmem := hperm.mem_iff.mpr hb
    rw [List.mem_append, List.mem_cons] at hmem
    rcases hmem with hmem | rfl | hmem
    · rw [hpre b hmem] at hsome
      cases hsome
    · exact absurd rfl hne
    · exact hmem

end FandheBackend.FirstAnswer
