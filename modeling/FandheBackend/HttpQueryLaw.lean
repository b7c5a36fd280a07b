import FandheBackend.HttpFormLaw

set_option autoImplicit false

namespace FandheBackend.HttpQueryLaw
open StdBytes HttpForm HttpFormLaw

/-- The calls of `next` up to and with the first `None`, and the items they gave. -/
inductive Yields : QueryPairs → List (Bytes × Bytes) → Prop
  | done {q : QueryPairs} : q.next = none → Yields q []
  | item {q q' : QueryPairs} {pair : Bytes × Bytes} {items : List (Bytes × Bytes)} :
      q.next = some (pair, q') → Yields q' items → Yields q (pair :: items)

/-- The segment cut at its first `=`; without one it is a key with an empty value. -/
inductive SplitsAtEquals (segment : Bytes) : Bytes × Bytes → Prop
  | pair {key value : Bytes} : segment = key ++ 61 :: value → (61 : UInt8) ∉ key →
      SplitsAtEquals segment (key, value)
  | bare : (61 : UInt8) ∉ segment → SplitsAtEquals segment (segment, [])

theorem Yields.unique {q : QueryPairs} {items items' : List (Bytes × Bytes)} (h : Yields q items)
    (h' : Yields q items') : items = items' := by
  induction h generalizing items' with
  | done hnone =>
    cases h' with
    | done => rfl
    | item hsome => exact absurd (hnone.symm.trans hsome) (by simp)
  | item hsome _ ih =>
    cases h' with
    | done hnone => exact absurd (hnone.symm.trans hsome) (by simp)
    | item hsome' hrest =>
      obtain ⟨rfl, rfl⟩ := Prod.ext_iff.mp (Option.some.inj (hsome.symm.trans hsome'))
      rw [ih hrest]

/-- Every item takes at least one byte off the remainder, so the calls come to an end. -/
theorem yields_toList (q : QueryPairs) : Yields q q.toList := by
  induction hn : q.remainder.length using Nat.strong_induction_on generalizing q with
  | _ n ih =>
    cases hnext : q.next with
    | none =>
      rw [toList_none hnext]
      exact .done hnext
    | some step =>
      obtain ⟨pair, q'⟩ := step
      have hlt := QueryPairs.next_length hnext
      rw [toList_some hnext]
      exact .item hnext (ih _ (hn ▸ hlt) q' rfl)

theorem yields_iff {q : QueryPairs} {items : List (Bytes × Bytes)} :
    Yields q items ↔ items = q.toList :=
  ⟨fun h => h.unique (yields_toList q), fun h => h ▸ yields_toList q⟩

theorem splitsAtEquals_keyValue (segment : Bytes) :
    SplitsAtEquals segment (QueryPairs.keyValue segment) := by
  by_cases hmem : (61 : UInt8) ∈ segment
  · obtain ⟨key, value, hsegment, hkey⟩ := List.eq_append_cons_of_mem hmem
    have hpair : QueryPairs.keyValue segment = (key, value) := by
      rw [QueryPairs.keyValue, hsegment, splitOnce_append hkey]
      rfl
    rw [hpair]
    exact .pair hsegment hkey
  · have hbare : QueryPairs.keyValue segment = (segment, []) := by
      rw [QueryPairs.keyValue, splitOnce_none hmem]
      rfl
    rw [hbare]
    exact .bare hmem

theorem toList_forall₂ (query : Bytes) :
    List.Forall₂ SplitsAtEquals ((query.splitOn 38).filter fun seg => !seg.isEmpty)
      (QueryPairs.mk query).toList := by
  rw [toList_eq_rawPairs, rawPairs, List.forall₂_map_right_iff]
  exact List.forall₂_same.mpr fun segment _ => splitsAtEquals_keyValue segment

theorem parseQueryWithLimits_eq_ok {query : Bytes} {maxBytes maxPairs : ℕ} {q : QueryPairs} :
    parseQueryWithLimits query maxBytes maxPairs = .ok q ↔
      query.length ≤ maxBytes ∧ (rawPairs query).length ≤ maxPairs ∧ q = ⟨query⟩ := by
  rw [parseQueryWithLimits, ← rawPairs_length]
  by_cases hlength : query.length > maxBytes
  · simp [hlength]
  · by_cases hpairs : (rawPairs query).length > maxPairs
    · simp [if_neg hlength, if_pos hpairs, Nat.not_le.mpr hpairs]
    · rw [if_neg hlength, if_neg hpairs]
      simp only [Except.ok.injEq, Nat.not_lt.mp hlength, Nat.not_lt.mp hpairs, true_and, eq_comm]

/-- What was counted is what the iterator gives, and the iterator gives every segment once. -/
theorem parseQueryWithLimits_yields (query : Bytes) (maxBytes maxPairs : ℕ) :
    ∃ items : List (Bytes × Bytes),
      (∀ l, Yields ⟨query⟩ l ↔ l = items) ∧
      List.Forall₂ SplitsAtEquals ((query.splitOn 38).filter fun seg => !seg.isEmpty) items ∧
      ((∃ q, parseQueryWithLimits query maxBytes maxPairs = .ok q) ↔
        query.length ≤ maxBytes ∧ items.length ≤ maxPairs) ∧
      ∀ q, parseQueryWithLimits query maxBytes maxPairs = .ok q → Yields q items := by
  refine ⟨(QueryPairs.mk query).toList, fun l => yields_iff, toList_forall₂ query, ?_, ?_⟩
  · rw [toList_eq_rawPairs]
    constructor
    · rintro ⟨q, hq⟩
      obtain ⟨hlength, hpairs, -⟩ := parseQueryWithLimits_eq_ok.mp hq
      exact ⟨hlength, hpairs⟩
    · rintro ⟨hlength, hpairs⟩
      exact ⟨⟨query⟩, parseQueryWithLimits_eq_ok.mpr ⟨hlength, hpairs, rfl⟩⟩
  · intro q hq
    obtain ⟨-, -, rfl⟩ := parseQueryWithLimits_eq_ok.mp hq
    exact yields_toList _

end FandheBackend.HttpQueryLaw
