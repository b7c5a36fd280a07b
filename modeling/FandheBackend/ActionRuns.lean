import Mathlib.Logic.Basic
import Mathlib.Data.Nat.Notation

set_option autoImplicit false

namespace FandheBackend.ActionRuns

section
variable {S A : Type} (step : S → A → Option S)

def run : List A → S → Option S
  | [], s => some s
  | a :: as, s => (step s a).bind (run as)

/-- Every action of a run meets a condition on the state it starts from. -/
def Along (ok : S → A → Prop) : List A → S → Prop
  | [], _ => True
  | a :: as, s => ok s a ∧ ∀ s', step s a = some s' → Along ok as s'

def checkAlong (check : S → A → Bool) : List A → S → Bool
  | [], _ => true
  | a :: as, s => check s a && (step s a).all (checkAlong check as)

def Visited (as : List A) (s t : S) : Prop :=
  ∃ before after, as = before ++ after ∧ run step before s = some t

variable {step}

theorem visited_last {as : List A} {s t : S} (h : run step as s = some t) : Visited step as s t :=
  ⟨as, [], (List.append_nil as).symm, h⟩

theorem Visited.concat {as : List A} {s t : S} (h : Visited step as s t) (a : A) :
    Visited step (as ++ [a]) s t := by
  obtain ⟨before, after, rfl, hrun⟩ := h
  exact ⟨before, after ++ [a], List.append_assoc before after [a], hrun⟩

theorem along_of_checkAlong {ok : S → A → Prop} {check : S → A → Bool}
    (hcheck : ∀ {s a}, check s a = true → ok s a) {as : List A} {s : S}
    (h : checkAlong step check as s = true) : Along step ok as s := by
  induction as generalizing s with
  | nil => trivial
  | cons a as ih =>
    rw [checkAlong, Bool.and_eq_true] at h
    refine ⟨hcheck h.1, fun s' hs' => ih ?_⟩
    rw [hs'] at h
    exact h.2

theorem run_cons {a : A} {as : List A} {s s' : S} (h : run step (a :: as) s = some s') :
    ∃ t, step s a = some t ∧ run step as t = some s' := by
  rw [run, Option.bind_eq_some_iff] at h
  exact h

theorem along_cons {ok : S → A → Prop} {a : A} {as : List A} {s t : S} (h : step s a = some t) :
    Along step ok (a :: as) s ↔ ok s a ∧ Along step ok as t := by
  refine and_congr_right fun _ => ⟨fun hall => hall t h, fun hall t' ht' => ?_⟩
  rw [h, Option.some.injEq] at ht'
  exact ht' ▸ hall

theorem Along.and {ok ok' : S → A → Prop} {as : List A} {s : S} (h : Along step ok as s)
    (h' : Along step ok' as s) : Along step (fun s a => ok s a ∧ ok' s a) as s := by
  induction as generalizing s with
  | nil => trivial
  | cons a as ih => exact ⟨⟨h.1, h'.1⟩, fun t ht => ih (h.2 t ht) (h'.2 t ht)⟩

theorem run_append (as bs : List A) (s : S) :
    run step (as ++ bs) s = (run step as s).bind (run step bs) := by
  induction as generalizing s with
  | nil => rfl
  | cons a as ih =>
    simp only [List.cons_append, run]
    cases step s a with
    | none => rfl
    | some t => exact ih t

theorem run_concat {a : A} {as : List A} {s s' : S} (h : run step (as ++ [a]) s = some s') :
    ∃ t, run step as s = some t ∧ step t a = some s' := by
  rw [run_append, Option.bind_eq_some_iff] at h
  obtain ⟨t, ht, h⟩ := h
  obtain ⟨u, hu, h⟩ := run_cons h
  cases h
  exact ⟨t, ht, hu⟩

/-- What every action of a run preserves holds at its end. -/
theorem run_invariant (inv : S → Prop) {as : List A}
    (hstep : ∀ a ∈ as, ∀ {s s'}, inv s → step s a = some s' → inv s') {s s' : S}
    (hs : inv s) (h : run step as s = some s') : inv s' := by
  induction as generalizing s with
  | nil =>
    cases h
    exact hs
  | cons a as ih =>
    obtain ⟨t, ht, hrun⟩ := run_cons h
    exact ih (fun b hb => hstep b (List.mem_cons_of_mem a hb)) (hstep a List.mem_cons_self hs ht) hrun

theorem run_invariant_along (inv : S → Prop) (ok : S → A → Prop)
    (hstep : ∀ {s a s'}, inv s → ok s a → step s a = some s' → inv s') {as : List A} {s s' : S}
    (hs : inv s) (hok : Along step ok as s) (h : run step as s = some s') : inv s' := by
  induction as generalizing s with
  | nil =>
    cases h
    exact hs
  | cons a as ih =>
    obtain ⟨t, ht, hrun⟩ := run_cons h
    exact ih (hstep hs hok.1 ht) (hok.2 t ht) hrun

/-- A property that an action keeps exactly when it meets a condition is kept by a run exactly
when all its actions do. -/
theorem run_iff_along (inv p : S → Prop) (ok : S → A → Prop)
    (hinv : ∀ {s a s'}, inv s → step s a = some s' → inv s')
    (hstep : ∀ {s a s'}, inv s → step s a = some s' → (p s' ↔ p s ∧ ok s a))
    {as : List A} {s s' : S} (hs : inv s) (h : run step as s = some s') :
    p s' ↔ p s ∧ Along step ok as s := by
  induction as generalizing s with
  | nil =>
    cases h
    exact (and_iff_left trivial).symm
  | cons a as ih =>
    obtain ⟨t, ht, hrun⟩ := run_cons h
    rw [ih (hinv hs ht) hrun, hstep hs ht, along_cons ht, and_assoc]

end

end FandheBackend.ActionRuns
