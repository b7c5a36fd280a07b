import Mathlib.Data.List.Basic
import Mathlib.Tactic.Common

set_option autoImplicit false

namespace FandheBackend.HttpExtensions

structure RequestExtensions {TypeId : Type} (E : TypeId → Type) where
  entries : List (Σ t, E t)

namespace RequestExtensions
variable {TypeId : Type} {E : TypeId → Type}

def new : RequestExtensions E := ⟨[]⟩

variable [DecidableEq TypeId]

/-- `insert` hands the value back when the type is taken. -/
def insert (e : RequestExtensions E) {id : TypeId} (value : E id) :
    Except (E id) Unit × RequestExtensions E :=
  if e.entries.any fun entry => entry.1 = id then (.error value, e)
  else (.ok (), ⟨e.entries ++ [⟨id, value⟩]⟩)

def getFrom (id : TypeId) : List (Σ t, E t) → Option (E id)
  | [] => none
  | ⟨t, v⟩ :: rest => if h : t = id then some (h ▸ v) else getFrom id rest

/-- `get`; the stored value has the type of its `TypeId`, so the downcast succeeds. -/
def get (e : RequestExtensions E) (id : TypeId) : Option (E id) := getFrom id e.entries

theorem getFrom_append (id : TypeId) (xs ys : List (Σ t, E t)) :
    getFrom id (xs ++ ys) = (getFrom id xs).or (getFrom id ys) := by
  induction xs with
  | nil => rfl
  | cons x xs ih =>
    obtain ⟨t, v⟩ := x
    by_cases h : t = id
    · simp [getFrom, h]
    · simpa [getFrom, h] using ih

theorem getFrom_isSome (id : TypeId) (xs : List (Σ t, E t)) :
    (getFrom id xs).isSome = xs.any fun entry => entry.1 = id := by
  induction xs with
  | nil => rfl
  | cons x xs ih =>
    obtain ⟨t, v⟩ := x
    by_cases h : t = id
    · simp [getFrom, h]
    · simpa [getFrom, h] using ih

end RequestExtensions

end FandheBackend.HttpExtensions
