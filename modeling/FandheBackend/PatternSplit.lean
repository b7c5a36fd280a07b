import FandheBackend.PatternSearch

set_option autoImplicit false

namespace FandheBackend.PatternSplit
open PatternSearch

section
variable {α : Type} [DecidableEq α]

def splitLoop (needle : List α) : ℕ → List α → List (List α)
  | 0, xs => [xs]
  | fuel + 1, xs =>
    match findFirst needle xs with
    | none => [xs]
    | some i => xs.take i :: splitLoop needle fuel (xs.drop (i + needle.length))

/-- Every turn drops the pattern, so the length is enough fuel for one that is not empty. -/
def split (needle xs : List α) : List (List α) := splitLoop needle xs.length xs

theorem findFirst_skip {c : α} {pre : List α} (h : c ∉ pre) (needle xs : List α) :
    findFirst (c :: needle) (pre ++ xs) =
      (findFirst (c :: needle) xs).map (· + pre.length) := by
  induction pre with
  | nil => simp
  | cons b pre ih =>
    rw [List.mem_cons, not_or] at h
    have hstart : ¬ c :: needle <+: b :: (pre ++ xs) := by
      rw [List.cons_prefix_cons]
      exact fun hp => h.1 hp.1
    rw [List.cons_append, findFirst, if_neg hstart, ih h.2, Option.map_map]
    congr 1

theorem findFirst_self {c : α} (needle xs : List α) :
    findFirst (c :: needle) (c :: needle ++ xs) = some 0 := by
  rw [List.cons_append, findFirst, if_pos]
  exact List.prefix_append (c :: needle) xs

theorem findFirst_piece {c : α} {piece : List α} (h : c ∉ piece) (needle xs : List α) :
    findFirst (c :: needle) (piece ++ (c :: needle ++ xs)) = some piece.length := by
  rw [findFirst_skip h, findFirst_self, Option.map_some, Nat.zero_add]

theorem findFirst_none {c : α} {piece : List α} (h : c ∉ piece) (needle : List α) :
    findFirst (c :: needle) piece = none := by
  have hskip := findFirst_skip h needle []
  rwa [List.append_nil] at hskip

theorem splitLoop_cuts {needle piece : List α} {pieces : List (List α)}
    (h : ∀ p ∈ piece :: pieces, findFirst needle p = none ∧
      ∀ xs, findFirst needle (p ++ (needle ++ xs)) = some p.length)
    (fuel : ℕ) (hfuel : pieces.length ≤ fuel) :
    splitLoop needle fuel (piece ++ pieces.flatMap (needle ++ ·)) = piece :: pieces := by
  induction pieces generalizing piece fuel with
  | nil =>
    have hnone := (h piece List.mem_cons_self).1
    cases fuel <;> simp [splitLoop, hnone]
  | cons next pieces ih =>
    rw [List.length_cons] at hfuel
    rw [List.forall_mem_cons] at h
    obtain ⟨fuel, rfl⟩ : ∃ m, fuel = m + 1 := ⟨fuel - 1, by omega⟩
    have hfirst := h.1.2 (next ++ pieces.flatMap (needle ++ ·))
    rw [List.flatMap_cons, List.append_assoc, splitLoop, hfirst]
    simp only [List.take_left]
    rw [← List.drop_drop, List.drop_left, List.drop_left, ih h.2 fuel (by omega)]

theorem splitLoop_pieces {c : α} {needle piece : List α} {pieces : List (List α)}
    (h : ∀ p ∈ piece :: pieces, c ∉ p) (fuel : ℕ) (hfuel : pieces.length ≤ fuel) :
    splitLoop (c :: needle) fuel (piece ++ pieces.flatMap (c :: needle ++ ·)) =
      piece :: pieces :=
  splitLoop_cuts (fun p hp => ⟨findFirst_none (h p hp) needle, findFirst_piece (h p hp) needle⟩)
    fuel hfuel

/-- What is cut gives the list back, with the separator between the pieces. -/
theorem splitLoop_eq (needle : List α) (fuel : ℕ) (xs : List α) :
    ∃ piece pieces, splitLoop needle fuel xs = piece :: pieces ∧
      xs = piece ++ pieces.flatMap (needle ++ ·) := by
  induction fuel generalizing xs with
  | zero => exact ⟨xs, [], rfl, by simp⟩
  | succ fuel ih =>
    rw [splitLoop]
    cases hfirst : findFirst needle xs with
    | none => exact ⟨xs, [], rfl, by simp⟩
    | some i =>
      obtain ⟨piece, pieces, hrest, hjoin⟩ := ih (xs.drop (i + needle.length))
      obtain ⟨hneedle, -, -⟩ := (findFirst_eq_some_iff needle xs i).mp hfirst
      refine ⟨xs.take i, piece :: pieces, by rw [← hrest], ?_⟩
      rw [List.flatMap_cons, List.append_assoc, ← hjoin, ← List.drop_drop]
      obtain ⟨tail, htail⟩ := hneedle
      rw [← htail, List.drop_left, htail, List.take_append_drop]

omit [DecidableEq α] in
theorem length_le_flatMap {β : Type} {f : β → List α} (h : ∀ x, f x ≠ []) (xs : List β) :
    xs.length ≤ (xs.flatMap f).length := by
  induction xs with
  | nil => exact le_refl _
  | cons x xs ih =>
    have hpos := List.length_pos_iff.mpr (h x)
    rw [List.flatMap_cons, List.length_append, List.length_cons]
    omega

theorem split_pieces {c : α} {needle piece : List α} {pieces : List (List α)}
    (h : ∀ p ∈ piece :: pieces, c ∉ p) :
    split (c :: needle) (piece ++ pieces.flatMap (c :: needle ++ ·)) = piece :: pieces := by
  have hlen := length_le_flatMap (f := (c :: needle ++ ·)) (by simp) pieces
  apply splitLoop_pieces h
  rw [List.length_append]
  omega

theorem findFirst_mem_splitLoop {needle : List α} (hne : needle ≠ []) (fuel : ℕ) (xs : List α)
    (hfuel : xs.length ≤ fuel) : ∀ p ∈ splitLoop needle fuel xs, findFirst needle p = none := by
  have hpos := List.length_pos_iff.mpr hne
  induction fuel generalizing xs with
  | zero =>
    obtain rfl := List.eq_nil_of_length_eq_zero (Nat.le_zero.mp hfuel)
    simp [splitLoop, findFirst, hne]
  | succ fuel ih =>
    rw [splitLoop]
    cases hfirst : findFirst needle xs with
    | none => simpa using hfirst
    | some i =>
      have hle := findFirst_length_le hfirst
      refine List.forall_mem_cons.mpr ⟨?_, ih _ (by rw [List.length_drop]; omega)⟩
      cases htake : findFirst needle (xs.take i) with
      | none => rfl
      | some j =>
        have hj := findFirst_append_of_some (xs.drop i) htake
        have hlen := findFirst_length_le htake
        rw [List.take_append_drop] at hj
        rw [Option.some.inj (hfirst.symm.trans hj), List.length_take] at hlen
        omega

theorem findFirst_pair {c d : α} (hne : d ≠ c) {piece : List α}
    (h : findFirst [c, d] piece = none) (xs : List α) :
    findFirst [c, d] (piece ++ ([c, d] ++ xs)) = some piece.length := by
  induction piece with
  | nil => exact findFirst_self [d] xs
  | cons b piece ih =>
    rw [findFirst] at h
    split_ifs at h with hstart
    have hnot : ¬ [c, d] <+: b :: (piece ++ ([c, d] ++ xs)) := by
      cases piece with
      | nil => simp [List.cons_prefix_cons, hne]
      | cons b' piece => simpa [List.cons_prefix_cons] using hstart
    rw [List.cons_append, findFirst, if_neg hnot, ih (Option.map_eq_none_iff.mp h)]
    rfl

/-- The one way to cut a list at a separator of two different elements. -/
theorem split_pair_eq_iff {c d : α} (hne : d ≠ c) {xs piece : List α} {pieces : List (List α)} :
    split [c, d] xs = piece :: pieces ↔
      xs = piece ++ pieces.flatMap ([c, d] ++ ·) ∧
        ∀ p ∈ piece :: pieces, findFirst [c, d] p = none := by
  constructor
  · intro h
    obtain ⟨piece', pieces', hloop, hxs⟩ := splitLoop_eq [c, d] xs.length xs
    obtain ⟨rfl, rfl⟩ := List.cons.inj (h.symm.trans hloop)
    have hnone := findFirst_mem_splitLoop (List.cons_ne_nil c [d]) xs.length xs le_rfl
    exact ⟨hxs, fun p hp => hnone p (hloop ▸ hp)⟩
  · rintro ⟨rfl, h⟩
    have hlen := length_le_flatMap (f := ([c, d] ++ ·)) (by simp) pieces
    apply splitLoop_cuts fun p hp => ⟨h p hp, findFirst_pair hne (h p hp)⟩
    rw [List.length_append]
    omega

/-- Between two pieces the separator stands once, so its double is met at the end only. -/
theorem findFirst_double {c d : α} (hne : d ≠ c) {piece : List α} {pieces : List (List α)}
    (hpiece : c ∉ piece) (h : ∀ p ∈ pieces, p ≠ [] ∧ c ∉ p) (xs : List α) :
    findFirst [c, d, c, d]
        (piece ++ pieces.flatMap ([c, d] ++ ·) ++ ([c, d, c, d] ++ xs)) =
      some (piece ++ pieces.flatMap ([c, d] ++ ·)).length := by
  induction pieces generalizing piece with
  | nil =>
    rw [List.flatMap_nil, List.append_nil]
    exact findFirst_piece hpiece [d, c, d] xs
  | cons next pieces ih =>
    rw [List.forall_mem_cons] at h
    have hrest := ih h.1.2 h.2
    rw [List.append_assoc] at hrest ⊢
    rw [List.flatMap_cons, findFirst_skip hpiece]
    obtain ⟨b, next, rfl⟩ := List.exists_cons_of_ne_nil h.1.1
    have hb : b ≠ c := fun heq => h.1.2 (heq ▸ List.mem_cons_self)
    simp only [List.cons_append, List.nil_append, List.append_assoc] at hrest ⊢
    have hfirst : ∀ ys : List α, ¬ [c, d, c, d] <+: c :: d :: b :: ys := by
      intro ys
      simp [List.cons_prefix_cons, hb.symm]
    have hsecond : ∀ ys : List α, ¬ [c, d, c, d] <+: d :: ys := by
      intro ys
      simp [List.cons_prefix_cons, hne.symm]
    rw [findFirst, if_neg (hfirst _), findFirst, if_neg (hsecond _), hrest]
    simp only [Option.map_some, Option.some.injEq, List.length_append, List.length_cons]
    omega

end

end FandheBackend.PatternSplit
