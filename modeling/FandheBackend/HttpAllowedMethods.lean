import FandheBackend.HttpResponse
import FandheBackend.SortedDistinct

set_option autoImplicit false

namespace FandheBackend.HttpResponse
open StdBytes HttpRequestHead SortedDistinct

theorem isToken_eq_false {m : Bytes} : isToken m = false ↔ (m.isEmpty || !m.all isTchar) = true := by
  cases hempty : m.isEmpty <;> cases hall : m.all isTchar <;> simp [isToken, hempty, hall]

/-- One invalid method is enough for `none`. -/
def AllowedMethods.fromMethods (methods : List Bytes) : Option AllowedMethods :=
  if hempty : methods = [] then none
  else if hinvalid : methods.any (fun m => m.isEmpty || !m.all isTchar) = true then none
  else some {
    methods := sortDedup methods
    ne_nil := by
      obtain ⟨m, hm⟩ := List.exists_mem_of_ne_nil methods hempty
      exact List.ne_nil_of_mem (mem_sortDedup.mpr hm)
    tokens := fun m hm => by
      by_contra hnot
      rw [Bool.not_eq_true, isToken_eq_false] at hnot
      exact hinvalid (List.any_eq_true.mpr ⟨m, mem_sortDedup.mp hm, hnot⟩) }

theorem AllowedMethods.ext {a b : AllowedMethods} (h : a.methods = b.methods) : a = b := by
  cases a
  cases b
  cases h
  rfl

theorem AllowedMethods.fromMethods_eq_some_iff {methods : List Bytes} {a : AllowedMethods} :
    fromMethods methods = some a ↔ methods ≠ [] ∧ (∀ m ∈ methods, isToken m = true) ∧
      a.methods = sortDedup methods := by
  unfold fromMethods
  split_ifs with hempty hinvalid
  · simp [hempty]
  · obtain ⟨m, hm, hnot⟩ := List.any_eq_true.mp hinvalid
    rw [← isToken_eq_false] at hnot
    refine ⟨(fun h => nomatch h), fun h => ?_⟩
    rw [h.2.1 m hm] at hnot
    cases hnot
  · constructor
    · rintro ⟨⟩
      refine ⟨hempty, fun m hm => ?_, rfl⟩
      by_contra hnot
      rw [Bool.not_eq_true, isToken_eq_false] at hnot
      exact hinvalid (List.any_eq_true.mpr ⟨m, hm, hnot⟩)
    · rintro ⟨-, -, h⟩
      exact congrArg some (ext h.symm)

end FandheBackend.HttpResponse
