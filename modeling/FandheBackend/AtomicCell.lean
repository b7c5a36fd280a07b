import Mathlib.Data.List.Basic
import Mathlib.Data.Nat.Notation
import Mathlib.Tactic.Common

set_option autoImplicit false

/-!
# Atomic locations

A location is the list of its values in modification order. A read-modify-write acts on the
latest value; a plain load may still return one that was replaced.
-/
namespace FandheBackend

structure AtomicCell (α : Type) where
  latest : α
  earlier : List α

namespace AtomicCell
variable {α : Type}

def new (value : α) : AtomicCell α := ⟨value, []⟩

def history (c : AtomicCell α) : List α := c.latest :: c.earlier

/-- A load, by how many times its value was replaced since. -/
def load (c : AtomicCell α) (age : ℕ) : Option α := c.history[age]?

/-- `store`, `swap`, `fetch_add` and `fetch_sub`; the value before is what they return. -/
def modify (f : α → α) (c : AtomicCell α) : α × AtomicCell α := (c.latest, ⟨f c.latest, c.history⟩)

/-- `compare_exchange`. -/
def compareExchange [DecidableEq α] (expected value : α) (c : AtomicCell α) : Bool × AtomicCell α :=
  if c.latest = expected then (true, ⟨value, c.history⟩) else (false, c)

@[simp] theorem load_zero (c : AtomicCell α) : c.load 0 = some c.latest := rfl

theorem mem_of_load {c : AtomicCell α} {age : ℕ} {v : α} (h : c.load age = some v) :
    v ∈ c.history :=
  List.mem_of_getElem? h

theorem compareExchange_latest [DecidableEq α] (c : AtomicCell α) (value : α) :
    c.compareExchange c.latest value = (true, ⟨value, c.history⟩) :=
  if_pos rfl

theorem compareExchange_other [DecidableEq α] {c : AtomicCell α} {expected : α}
    (h : c.latest ≠ expected) (value : α) : c.compareExchange expected value = (false, c) :=
  if_neg h

end AtomicCell

end FandheBackend
