import Mathlib.Data.List.Basic
import Mathlib.Tactic.Common

set_option autoImplicit false

namespace FandheBackend.FedMachine

structure Machine (σ β ε : Type) where
  step : σ → β → Except ε σ
  done : σ → Bool

/-- `complete` keeps the symbols the machine did not read. -/
inductive Fed (σ β ε : Type) where
  | more (s : σ)
  | complete (s : σ) (rest : List β)
  | failed (e : ε)

section
variable {σ β ε : Type} (m : Machine σ β ε)

def feed : σ → List β → Fed σ β ε
  | s, [] => if m.done s then .complete s [] else .more s
  | s, b :: bs =>
    if m.done s then .complete s (b :: bs)
    else match m.step s b with
      | .error e => .failed e
      | .ok t => feed t bs

def Fed.andThen : Fed σ β ε → List β → Fed σ β ε
  | .more s, ys => feed m s ys
  | .complete s rest, ys => .complete s (rest ++ ys)
  | .failed e, _ => .failed e

theorem feed_done {s : σ} (h : m.done s = true) (xs : List β) :
    feed m s xs = .complete s xs := by
  cases xs <;> simp [feed, h]

theorem feed_cons {s t : σ} {b : β} (hd : m.done s = false) (hs : m.step s b = .ok t)
    (bs : List β) : feed m s (b :: bs) = feed m t bs := by
  simp [feed, hd, hs]

theorem feed_append (s : σ) (xs ys : List β) :
    feed m s (xs ++ ys) = (feed m s xs).andThen m ys := by
  induction xs generalizing s with
  | nil =>
    cases hd : m.done s with
    | true => simp [feed, feed_done m hd, hd, Fed.andThen]
    | false => simp [feed, hd, Fed.andThen]
  | cons x xs ih =>
    cases hd : m.done s with
    | true => simp [feed_done m hd, Fed.andThen]
    | false =>
      cases hs : m.step s x with
      | error e => simp [feed, hd, hs, Fed.andThen]
      | ok t => simpa [feed, hd, hs] using ih t

theorem feed_append_of_more {s t : σ} {xs : List β} (h : feed m s xs = .more t)
    (ys : List β) : feed m s (xs ++ ys) = feed m t ys := by
  rw [feed_append, h]
  rfl

theorem feed_more_not_done {s t : σ} {xs : List β} (h : feed m s xs = .more t) :
    m.done t = false := by
  induction xs generalizing s with
  | nil =>
    simp only [feed] at h
    split_ifs at h with hd
    cases h
    simpa using hd
  | cons x xs ih =>
    simp only [feed] at h
    split_ifs at h
    split at h
    · cases h
    · exact ih h

theorem feed_complete_suffix {s t : σ} {xs rest : List β}
    (h : feed m s xs = .complete t rest) : rest <:+ xs := by
  induction xs generalizing s with
  | nil =>
    simp only [feed] at h
    split_ifs at h
    cases h
    exact List.suffix_refl _
  | cons x xs ih =>
    simp only [feed] at h
    split_ifs at h
    · cases h
      exact List.suffix_refl _
    · split at h
      · cases h
      · exact (ih h).trans (List.suffix_cons x xs)

/-- An invariant of the steps holds wherever a feed stops, and what each failing step leaves
holds where it fails. -/
theorem feed_invariant {I : σ → Prop} {F : ε → Prop}
    (hok : ∀ s b t, I s → m.step s b = .ok t → I t) (herr : ∀ s b e, I s → m.step s b = .error e → F e)
    {s : σ} (hs : I s) (xs : List β) :
    (∀ t, feed m s xs = .more t → I t) ∧
      (∀ t rest, feed m s xs = .complete t rest → I t ∧ m.done t = true) ∧
      ∀ e, feed m s xs = .failed e → F e := by
  induction xs generalizing s with
  | nil =>
    rw [feed]
    split_ifs with hd
    · exact ⟨by simp, by rintro t rest ⟨⟩; exact ⟨hs, hd⟩, by simp⟩
    · exact ⟨by rintro t ⟨⟩; exact hs, by simp, by simp⟩
  | cons x xs ih =>
    rw [feed]
    split_ifs with hd
    · exact ⟨by simp, by rintro t rest ⟨⟩; exact ⟨hs, hd⟩, by simp⟩
    · cases hx : m.step s x with
      | error e => exact ⟨by simp, by simp, by rintro _ ⟨⟩; exact herr s x e hs hx⟩
      | ok t => exact ih (hok s x t hs hx)

theorem feed_more_invariant {I : σ → Prop}
    (hstep : ∀ s b t, I s → m.step s b = .ok t → I t)
    {s t : σ} {xs : List β} (hs : I s) (h : feed m s xs = .more t) : I t := by
  induction xs generalizing s with
  | nil =>
    simp only [feed] at h
    split_ifs at h
    cases h
    exact hs
  | cons x xs ih =>
    simp only [feed] at h
    split_ifs at h
    split at h
    · cases h
    · rename_i u hu
      exact ih (hstep s x u hs hu) h

end

end FandheBackend.FedMachine
