import Mathlib.Data.List.Forall2
import Mathlib.Logic.Basic

set_option autoImplicit false

namespace FandheBackend.ExceptChecks

section
variable {ε α β : Type}

/-- `if p { return Err(e) }`. -/
def rejectIf (p : Prop) [Decidable p] (e : ε) : Except ε Unit := if p then .error e else .ok ()

/-- `Option::ok_or`. -/
def orError (e : ε) : Option α → Except ε α
  | some a => .ok a
  | none => .error e

theorem rejectIf_eq_ok {p : Prop} [Decidable p] {e : ε} {u : Unit} :
    rejectIf p e = .ok u ↔ ¬p := by
  unfold rejectIf
  by_cases h : p <;> simp [h]

theorem orError_eq_ok {e : ε} {o : Option α} {a : α} : orError e o = .ok a ↔ o = some a := by
  cases o <;> simp [orError]

theorem bind_eq_ok {m : Except ε α} {f : α → Except ε β} {b : β} :
    (m >>= f) = .ok b ↔ ∃ a, m = .ok a ∧ f a = .ok b := by
  cases m with
  | ok a =>
    constructor
    · exact fun h => ⟨a, rfl, h⟩
    · rintro ⟨_, ⟨⟩, h⟩
      exact h
  | error e =>
    constructor
    · exact fun h => nomatch h
    · rintro ⟨_, ⟨⟩, _⟩

theorem ite_bind_eq_ok {c : Prop} [Decidable c] {m m' : Except ε α} {f : α → Except ε β} {b : β} :
    (if c then m >>= f else m' >>= f) = .ok b ↔
      ∃ a, (if c then m else m') = .ok a ∧ f a = .ok b := by
  by_cases hc : c
  · rw [if_pos hc, if_pos hc]
    exact bind_eq_ok
  · rw [if_neg hc, if_neg hc]
    exact bind_eq_ok

theorem mapM_eq_ok {f : α → Except ε β} {xs : List α} {ys : List β} :
    xs.mapM f = .ok ys ↔ List.Forall₂ (fun x y => f x = .ok y) xs ys := by
  induction xs generalizing ys with
  | nil =>
    rw [List.mapM_nil, List.forall₂_nil_left_iff]
    exact ⟨fun h => (Except.ok.inj h).symm, fun h => congrArg Except.ok h.symm⟩
  | cons x xs ih =>
    rw [List.mapM_cons, bind_eq_ok, List.forall₂_cons_left_iff]
    refine exists_congr fun y => ?_
    rw [bind_eq_ok]
    constructor
    · rintro ⟨hx, rest, hrest, ⟨⟩⟩
      exact ⟨rest, hx, ih.mp hrest, rfl⟩
    · rintro ⟨rest, hx, hrest, rfl⟩
      exact ⟨hx, rest, ih.mpr hrest, rfl⟩

theorem eq_ok_of_toOption {m : Except ε α} {a : α} (h : m.toOption = some a) : m = .ok a := by
  cases m with
  | ok b =>
    cases h
    rfl
  | error e => cases h

theorem rejectIf_bind {p : Prop} [Decidable p] {e : ε} {f : Unit → Except ε β} :
    (rejectIf p e >>= f) = if p then .error e else f () := by
  unfold rejectIf
  by_cases hp : p
  · rw [if_pos hp, if_pos hp]
    rfl
  · rw [if_neg hp, if_neg hp]
    rfl

theorem rejectIf_bind_eq_ok {p : Prop} [Decidable p] {e : ε} {f : Unit → Except ε β} {b : β} :
    (rejectIf p e >>= f) = .ok b ↔ ¬p ∧ f () = .ok b := by
  rw [bind_eq_ok]
  constructor
  · rintro ⟨u, hu, h⟩
    exact ⟨rejectIf_eq_ok.mp hu, h⟩
  · rintro ⟨hp, h⟩
    exact ⟨(), rejectIf_eq_ok.mpr hp, h⟩

theorem orError_bind_eq_ok {e : ε} {o : Option α} {f : α → Except ε β} {b : β} :
    (orError e o >>= f) = .ok b ↔ ∃ a, o = some a ∧ f a = .ok b := by
  simp only [bind_eq_ok, orError_eq_ok]

/-- Whatever error comes out meets a condition. -/
def Fails (p : ε → Prop) (m : Except ε α) : Prop := ∀ e, m = .error e → p e

theorem fails_ok (p : ε → Prop) (a : α) : Fails p (.ok a) := fun _ h => nomatch h

theorem fails_error {p : ε → Prop} {e : ε} (h : p e) : Fails p (.error e : Except ε α) := by
  rintro _ ⟨⟩
  exact h

theorem fails_rejectIf {p : ε → Prop} {c : Prop} [Decidable c] {e : ε} (h : p e) :
    Fails p (rejectIf c e) := by
  unfold rejectIf
  split_ifs
  · exact fails_error h
  · exact fails_ok p ()

theorem fails_orError {p : ε → Prop} {e : ε} (h : p e) (o : Option α) : Fails p (orError e o) := by
  cases o with
  | none => exact fails_error h
  | some a => exact fails_ok p a

theorem Fails.bind {p : ε → Prop} {m : Except ε α} {f : α → Except ε β} (hm : Fails p m)
    (hf : ∀ a, Fails p (f a)) : Fails p (m >>= f) := by
  cases m with
  | error e => exact fails_error (hm e rfl)
  | ok a => exact hf a

end

end FandheBackend.ExceptChecks
