import Mathlib.Data.List.Forall2
import Mathlib.Logic.Basic

set_option autoImplicit false

namespace FandheBackend.Unwinding

section
variable {S A R V : Type} (step : S → A → R × S)

def finish (as : List A) (s : S) : S := as.foldl (fun s a => (step s a).2) s

def observed (mine : A → Bool) : List A → S → List R
  | [], _ => []
  | a :: as, s =>
    if mine a then (step s a).1 :: observed mine as (step s a).2
    else observed mine as (step s a).2

/-- `alike` relates actions of the observer that it cannot tell apart. -/
structure Unwinds (mine : A → Bool) (alike : A → A → Prop) (view : S → V) : Prop where
  hidden : ∀ s a, mine a = false → view (step s a).2 = view s
  result : ∀ s s' a a', mine a = true → mine a' = true → alike a a' → view s = view s' →
    (step s a).1 = (step s' a').1
  next : ∀ s s' a a', mine a = true → mine a' = true → alike a a' → view s = view s' →
    view (step s a).2 = view (step s' a').2

variable {step}

theorem Unwinds.observed_filter {mine : A → Bool} {alike : A → A → Prop} {view : S → V}
    (h : Unwinds step mine alike view) {as bs : List A}
    (halike : List.Forall₂ alike (as.filter mine) bs) (hbs : ∀ b ∈ bs, mine b = true) {s s' : S}
    (hview : view s = view s') : observed step mine as s = observed step mine bs s' := by
  induction as generalizing bs s s' with
  | nil =>
    cases halike
    rfl
  | cons a as ih =>
    cases hmine : mine a with
    | false =>
      rw [List.filter_cons_of_neg (by simp [hmine])] at halike
      rw [observed, if_neg (by simp [hmine])]
      exact ih halike hbs ((h.hidden s a hmine).trans hview)
    | true =>
      rw [List.filter_cons_of_pos hmine] at halike
      cases halike with
      | cons hab hrest =>
        obtain ⟨hb, hbs⟩ := List.forall_mem_cons.mp hbs
        rw [observed, if_pos hmine, observed, if_pos hb, h.result s s' _ _ hmine hb hab hview,
          ih hrest hbs (h.next s s' _ _ hmine hb hab hview)]

/-- Two runs in which the observer does alike look the same to it, whatever the others do. -/
theorem Unwinds.observed_eq {mine : A → Bool} {alike : A → A → Prop} {view : S → V}
    (h : Unwinds step mine alike view) (hrefl : ∀ a, alike a a) {as as' : List A}
    (halike : List.Forall₂ alike (as.filter mine) (as'.filter mine)) {s s' : S}
    (hview : view s = view s') : observed step mine as s = observed step mine as' s' := by
  have hmine : ∀ b ∈ as'.filter mine, mine b = true := fun b hb => (List.mem_filter.mp hb).2
  have hself := List.forall₂_same.mpr fun a (_ : a ∈ as'.filter mine) => hrefl a
  exact (h.observed_filter halike hmine hview).trans (h.observed_filter hself hmine rfl).symm

end

end FandheBackend.Unwinding
