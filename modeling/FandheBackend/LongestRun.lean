import Mathlib.Tactic.Common

set_option autoImplicit false

namespace FandheBackend.LongestRun

structure Span where
  start : ℕ
  len : ℕ
  deriving DecidableEq, Repr

/-- The run that ends at position `i`, when the one before it is `current`. -/
def grown (i : ℕ) (current : Span) : Span :=
  ⟨if current.len = 0 then i else current.start, current.len + 1⟩

section
variable {α : Type} (p : α → Bool)

def IsRun (xs : List α) (start len : ℕ) : Prop :=
  ∀ i, start ≤ i → i < start + len → ∃ a, xs[i]? = some a ∧ p a = true

/-- A longest run that begins before every other one of its length. -/
structure Longest (xs : List α) (span : Span) : Prop where
  run : IsRun p xs span.start span.len
  longest : ∀ start len, IsRun p xs start len → len ≤ span.len
  first : ∀ start, 0 < span.len → IsRun p xs start span.len → span.start ≤ start

def scan (i : ℕ) (current longest : Span) : List α → Span
  | [] => longest
  | x :: xs =>
    if p x then
      let current := grown i current
      scan (i + 1) current (if current.len > longest.len then current else longest) xs
    else scan (i + 1) ⟨0, 0⟩ longest xs

structure Scanned (done : List α) (current longest : Span) : Prop where
  ends : 0 < current.len → current.start + current.len = done.length
  run : IsRun p done current.start current.len
  maximal : ∀ start len, 0 < len → start + len = done.length → IsRun p done start len →
    len ≤ current.len
  longest : Longest p done longest

variable {p} {done xs : List α} {x : α} {start len : ℕ} {current longest : Span}

theorem IsRun.le_length (h : IsRun p xs start len) (hpos : 0 < len) : start + len ≤ xs.length := by
  obtain ⟨a, ha, -⟩ := h (start + len - 1) (by omega) (by omega)
  have := (List.getElem?_eq_some_iff.mp ha).1
  omega

theorem IsRun.append (h : IsRun p done start len) (xs : List α) : IsRun p (done ++ xs) start len := by
  intro i hi hlt
  obtain ⟨a, ha, hp⟩ := h i hi hlt
  exact ⟨a, List.getElem?_append_left (List.getElem?_eq_some_iff.mp ha).1 ▸ ha, hp⟩

theorem IsRun.of_append {xs : List α} (h : IsRun p (done ++ xs) start len)
    (hle : start + len ≤ done.length) : IsRun p done start len := by
  intro i hi hlt
  obtain ⟨a, ha, hp⟩ := h i hi hlt
  rw [List.getElem?_append_left (by omega)] at ha
  exact ⟨a, ha, hp⟩

/-- A run after one more element ended before it, or goes on from where it ended. -/
theorem IsRun.snoc (h : IsRun p (done ++ [x]) start len) (hpos : 0 < len) :
    IsRun p done start len ∨
      p x = true ∧ start + len = done.length + 1 ∧ IsRun p done start (len - 1) := by
  have hle := h.le_length hpos
  rw [List.length_append, List.length_singleton] at hle
  rcases Nat.lt_or_ge done.length (start + len) with hlt | hge
  · obtain ⟨a, ha, hp⟩ := h done.length (by omega) hlt
    rw [List.getElem?_concat_length] at ha
    obtain rfl := Option.some.inj ha
    have hinit : IsRun p (done ++ [x]) start (len - 1) := fun i hi hlt => h i hi (by omega)
    exact .inr ⟨hp, by omega, hinit.of_append (by omega)⟩
  · exact .inl (h.of_append hge)

theorem Scanned.skip (h : Scanned p done current longest) (hx : p x = false) :
    Scanned p (done ++ [x]) ⟨0, 0⟩ longest := by
  have hold {start len : ℕ} (hrun : IsRun p (done ++ [x]) start len) (hpos : 0 < len) :
      IsRun p done start len := by
    rcases hrun.snoc hpos with hrun | ⟨htrue, -⟩
    · exact hrun
    · exact absurd (hx.symm.trans htrue) (by decide)
  refine ⟨fun hpos => absurd hpos (Nat.lt_irrefl 0), fun i _ hlt => absurd hlt (Nat.not_lt_zero i),
    ?_, ?_⟩
  · intro start len hpos hend hrun
    have := (hold hrun hpos).le_length hpos
    rw [List.length_append, List.length_singleton] at hend
    omega
  · refine ⟨h.longest.run.append [x], fun start len hrun => ?_, fun start hpos hrun => ?_⟩
    · rcases Nat.eq_zero_or_pos len with rfl | hpos
      · exact Nat.zero_le _
      · exact h.longest.longest start len (hold hrun hpos)
    · exact h.longest.first start hpos (hold hrun hpos)

theorem Scanned.grown_start (h : Scanned p done current longest) :
    (grown done.length current).start + current.len = done.length := by
  unfold grown
  split_ifs with hzero
  · simp only
    omega
  · exact h.ends (Nat.pos_of_ne_zero hzero)

theorem Scanned.grown_run (h : Scanned p done current longest) (hx : p x = true) :
    IsRun p (done ++ [x]) (grown done.length current).start (current.len + 1) := by
  have hstart := h.grown_start
  intro i hi hlt
  rcases Nat.lt_or_ge i done.length with hold | hnew
  · have hrun := h.run
    have heq : (grown done.length current).start = current.start := by
      unfold grown at hstart hi ⊢
      split_ifs at hstart hi ⊢ with hzero
      · simp only at hi
        omega
      · rfl
    rw [heq] at hi hstart
    exact hrun.append [x] i hi (by omega)
  · obtain rfl : i = done.length := by omega
    exact ⟨x, List.getElem?_concat_length, hx⟩

theorem Scanned.extend (h : Scanned p done current longest) (hx : p x = true) :
    Scanned p (done ++ [x]) (grown done.length current)
      (if (grown done.length current).len > longest.len then grown done.length current
        else longest) := by
  have hstart := h.grown_start
  have hrun := h.grown_run hx
  have hlen : (grown done.length current).len = current.len + 1 := rfl
  have hmaximal {start len : ℕ} (hend : start + len = done.length + 1)
      (hrun : IsRun p done start (len - 1)) : len ≤ current.len + 1 := by
    rcases Nat.eq_zero_or_pos (len - 1) with hzero | hpos
    · omega
    · have := h.maximal start (len - 1) hpos (by omega) hrun
      omega
  have hcases {start len : ℕ} (hpos : 0 < len) (hrun : IsRun p (done ++ [x]) start len) :
      IsRun p done start len ∨ start + len = done.length + 1 ∧ len ≤ current.len + 1 := by
    rcases hrun.snoc hpos with hold | ⟨-, hend, hold⟩
    · exact .inl hold
    · exact .inr ⟨hend, hmaximal hend hold⟩
  refine ⟨fun _ => ?_, hrun, fun start len hpos hend hrun => ?_, ?_⟩
  · rw [hlen, List.length_append, List.length_singleton]
    omega
  · rw [List.length_append, List.length_singleton] at hend
    rcases hcases hpos hrun with hold | ⟨-, hle⟩
    · have := hold.le_length hpos
      omega
    · exact hle
  · split_ifs with hlonger
    · refine ⟨hrun, fun start len hrun => ?_, fun start hpos hrun => ?_⟩
      · rcases Nat.eq_zero_or_pos len with rfl | hpos
        · exact Nat.zero_le _
        · rcases hcases hpos hrun with hold | ⟨-, hle⟩
          · exact Nat.le_of_lt (Nat.lt_of_le_of_lt (h.longest.longest start len hold) hlonger)
          · exact hle
      · rcases hcases hpos hrun with hold | ⟨hend, -⟩
        · exact absurd (h.longest.longest start _ hold) (Nat.not_le.mpr hlonger)
        · omega
    · refine ⟨h.longest.run.append [x], fun start len hrun => ?_, fun start hpos hrun => ?_⟩
      · rcases Nat.eq_zero_or_pos len with rfl | hpos
        · exact Nat.zero_le _
        · rcases hcases hpos hrun with hold | ⟨-, hle⟩
          · exact h.longest.longest start len hold
          · omega
      · rcases hcases hpos hrun with hold | ⟨hend, -⟩
        · exact h.longest.first start hpos hold
        · have := h.longest.run.le_length hpos
          omega

theorem scan_scanned (h : Scanned p done current longest) (xs : List α) :
    Longest p (done ++ xs) (scan p done.length current longest xs) := by
  induction xs generalizing done current longest with
  | nil =>
    rw [List.append_nil]
    exact h.longest
  | cons x xs ih =>
    have hdone : done ++ x :: xs = done ++ [x] ++ xs := List.append_cons done x xs
    have hlen : done.length + 1 = (done ++ [x]).length := by simp
    rw [scan, hdone, hlen]
    by_cases hx : p x = true
    · rw [if_pos hx]
      exact ih (h.extend hx)
    · rw [if_neg hx]
      exact ih (h.skip (Bool.not_eq_true _ ▸ hx))

theorem scan_longest (xs : List α) : Longest p xs (scan p 0 ⟨0, 0⟩ ⟨0, 0⟩ xs) := by
  have hempty : IsRun p ([] : List α) 0 0 := fun i _ hlt => absurd hlt (Nat.not_lt_zero i)
  refine @scan_scanned α p [] ⟨0, 0⟩ ⟨0, 0⟩ ⟨fun hpos => absurd hpos (Nat.lt_irrefl 0), hempty,
    fun start len hpos hend _ => ?_, hempty, fun start len hrun => ?_, fun _ _ _ => Nat.zero_le _⟩ xs
  · rw [List.length_nil] at hend
    omega
  · rcases Nat.eq_zero_or_pos len with rfl | hpos
    · exact Nat.le_refl _
    · have := hrun.le_length hpos
      rw [List.length_nil] at this
      omega

theorem Longest.unique {span span' : Span} (h : Longest p xs span) (h' : Longest p xs span')
    (hpos : 0 < span.len) : span = span' := by
  obtain ⟨start, len⟩ := span
  obtain ⟨start', len'⟩ := span'
  obtain rfl : len = len' :=
    Nat.le_antisymm (h'.longest start len h.run) (h.longest start' len' h'.run)
  obtain rfl : start = start' :=
    Nat.le_antisymm (h.first start' hpos h'.run) (h'.first start hpos h.run)
  rfl

end

end FandheBackend.LongestRun
