import FandheBackend.JwtDpopReplay
import Mathlib.Data.Finset.Card

set_option autoImplicit false

namespace FandheBackend.JwtDpopReplay
open StdBytes JwtVerify JwtDpopProof

structure Registration where
  key : Key
  iat : UInt64
  now : UInt64

abbrev Unexpired := Finset (ℕ × Key)

namespace Unexpired

def live (s : Unexpired) (now : ℕ) : Unexpired := s.filter (now ≤ ·.1)

/-- A set of at most `capacity` pairs that keeps each one up to its expiry. -/
def register (pastSecs capacity : ℕ) (s : Unexpired) (r : Registration) :
    Except DpopError Unit × Unexpired :=
  let rest := s.live r.now.toNat
  if r.key ∈ rest.image Prod.snd then (.error .replayed, rest)
  else if rest.card = capacity then (.error .replayStoreFull, rest)
  else (.ok (), insert (u64SaturatingAdd r.iat.toNat pastSecs, r.key) rest)

def registerAll (pastSecs capacity : ℕ) :
    Unexpired → List Registration → List (Except DpopError Unit) × Unexpired
  | s, [] => ([], s)
  | s, r :: rs =>
    let (result, s') := s.register pastSecs capacity r
    let (results, s'') := registerAll pastSecs capacity s' rs
    (result :: results, s'')

end Unexpired

namespace ReplayState

def entries (st : ReplayState) : Unexpired := st.heap.toFinset

section
variable {st : ReplayState} (h : st.Consistent)
include h

theorem mem_entries {exp : ℕ} {key : Key} : (exp, key) ∈ st.entries ↔ (key, exp) ∈ st.map := by
  rw [entries, List.mem_toFinset, ← h.same.mem_iff]
  constructor
  · exact fun hmem => List.mem_map.mpr ⟨_, hmem, rfl⟩
  · intro hmem
    obtain ⟨p, hp, heq⟩ := List.mem_map.mp hmem
    rwa [← Prod.swap_swap p, heq] at hp

theorem mem_keys {key : Key} : key ∈ st.entries.image Prod.snd ↔ key ∈ st.map.map Prod.fst := by
  rw [Finset.mem_image, List.mem_map]
  constructor
  · rintro ⟨⟨exp, _⟩, hmem, rfl⟩
    exact ⟨(_, exp), (mem_entries h).mp hmem, rfl⟩
  · rintro ⟨⟨_, exp⟩, hmem, rfl⟩
    exact ⟨(exp, _), (mem_entries h).mpr hmem, rfl⟩

theorem card_entries : st.entries.card = st.map.length := by
  have hmap : st.map.Nodup := h.keys.of_map _
  have hheap : st.heap.Nodup := (h.same.nodup_iff.mpr hmap).of_map _
  rw [entries, List.toFinset_card_of_nodup hheap, ← h.same.length_eq, List.length_map]

theorem entries_purge (now : ℕ) : (purge now st.map st.heap).entries = st.entries.live now := by
  rw [purge_eq h]
  ext p
  rw [entries, Unexpired.live, entries, Finset.mem_filter, List.mem_toFinset, List.mem_toFinset,
    List.mem_filter, decide_eq_true_eq]

end

theorem entries_push (entry : ℕ × Key) (map : List (Key × ℕ)) (st : ReplayState) :
    entries ⟨map, push entry st.heap⟩ = insert entry st.entries := by
  rw [entries, entries, ← List.toFinset_cons]
  exact List.toFinset_eq_of_perm _ _ (push_perm entry st.heap)

end ReplayState

namespace ReplayStore

def registerAll : ReplayStore → List Registration → List (Except DpopError Unit) × ReplayStore
  | store, [] => ([], store)
  | store, r :: rs =>
    let (result, store') := store.registerKey r.key r.iat.toNat r.now.toNat
    let (results, store'') := registerAll store' rs
    (result :: results, store'')

section
variable {store : ReplayStore}

theorem registerKey_capacity (store : ReplayStore) (key : Key) (iat now : ℕ) :
    (store.registerKey key iat now).2.capacity = store.capacity := by
  unfold registerKey
  split_ifs <;> rfl

theorem purged_length_le (store : ReplayStore) (now : ℕ) :
    (store.purged now).map.length ≤ store.state.map.length := by
  rw [purged, ReplayState.purge_eq store.consistent]
  exact List.length_filter_le _ _

theorem registerKey_length_le (hsize : store.state.map.length ≤ store.capacity) (key : Key)
    (iat now : ℕ) :
    (store.registerKey key iat now).2.state.map.length ≤ store.capacity := by
  have hpurged := Nat.le_trans (store.purged_length_le now) hsize
  unfold registerKey
  split_ifs with hkey hfull
  · exact hpurged
  · exact hpurged
  · exact Nat.lt_of_not_le hfull

theorem registerKey_refines (hsize : store.state.map.length ≤ store.capacity) (r : Registration) :
    let out := store.registerKey r.key r.iat.toNat r.now.toNat
    (out.1, out.2.state.entries) =
      store.state.entries.register store.pastSecs store.capacity r := by
  have hconsistent := store.purged_consistent r.now.toNat
  have hlive : (store.purged r.now.toNat).entries = store.state.entries.live r.now.toNat :=
    ReplayState.entries_purge store.consistent _
  have hle := Nat.le_trans (store.purged_length_le r.now.toNat) hsize
  dsimp only [Unexpired.register]
  rw [← hlive, ReplayState.card_entries hconsistent]
  unfold registerKey
  by_cases hkey : r.key ∈ (store.purged r.now.toNat).map.map Prod.fst
  · rw [dif_pos hkey, if_pos ((ReplayState.mem_keys hconsistent).mpr hkey)]
  · rw [dif_neg hkey, if_neg fun h => hkey ((ReplayState.mem_keys hconsistent).mp h)]
    by_cases hfull : store.capacity ≤ (store.purged r.now.toNat).map.length
    · rw [if_pos hfull, if_pos (Nat.le_antisymm hle hfull)]
    · rw [if_neg hfull, if_neg fun h => hfull (Nat.le_of_eq h.symm)]
      exact congrArg (Prod.mk _) (ReplayState.entries_push _ _ _)

theorem registerAll_refines (store : ReplayStore) (hsize : store.state.map.length ≤ store.capacity)
    (rs : List Registration) :
    ((store.registerAll rs).1, (store.registerAll rs).2.state.entries) =
        store.state.entries.registerAll store.pastSecs store.capacity rs ∧
      (store.registerAll rs).2.state.map.length ≤ store.capacity := by
  induction rs generalizing store with
  | nil => exact ⟨rfl, hsize⟩
  | cons r rs ih =>
    have hstep := registerKey_refines hsize r
    have hpast := store.registerKey_pastSecs r.key r.iat.toNat r.now.toNat
    have hcapacity := store.registerKey_capacity r.key r.iat.toNat r.now.toNat
    have hnext := registerKey_length_le hsize r.key r.iat.toNat r.now.toNat
    obtain ⟨hrest, hlength⟩ := ih _ (hcapacity.symm ▸ hnext)
    rw [hpast, hcapacity] at hrest
    rw [hcapacity] at hlength
    refine ⟨?_, hlength⟩
    rw [Unexpired.registerAll, ← hstep]
    dsimp only
    rw [← hrest]
    rfl

theorem registerAll_cons (r : Registration) (rs : List Registration) :
    (store.registerAll (r :: rs)).1 =
      (store.registerKey r.key r.iat.toNat r.now.toNat).1 ::
        ((store.registerKey r.key r.iat.toNat r.now.toNat).2.registerAll rs).1 := rfl

/-- While an entry has not expired, the calls that come in order do not accept its key. -/
theorem expired_of_registered {key : Key} {exp : ℕ} {rs : List Registration}
    (hmem : (key, exp) ∈ store.state.map) (hsorted : rs.Pairwise fun a b => a.now ≤ b.now)
    {p : Registration × Except DpopError Unit} (hp : p ∈ rs.zip (store.registerAll rs).1)
    (hok : p.2 = .ok ()) (hkey : p.1.key = key) : exp < p.1.now.toNat := by
  induction rs generalizing store with
  | nil => cases hp
  | cons r rs ih =>
    obtain ⟨hlater, hrest⟩ := List.pairwise_cons.mp hsorted
    rw [registerAll_cons, List.zip_cons_cons] at hp
    by_cases hnow : r.now.toNat ≤ exp
    · rcases List.mem_cons.mp hp with rfl | hp
      · exact absurd (hkey ▸ hmem) (not_mem_of_registerKey hok hnow)
      · exact ih (mem_registerKey hmem hnow) hrest hp
    · rcases List.mem_cons.mp hp with rfl | hp
      · exact Nat.lt_of_not_le hnow
      · have hle : r.now.toNat ≤ p.1.now.toNat := hlater p.1 (List.of_mem_zip hp).1
        omega

/-- The saturated expiry is as good as the sum for the times of a clock. -/
theorem lt_of_expiry_lt {iat : ℕ} {now : UInt64} (h : store.expiry iat < now.toNat) :
    iat + store.pastSecs < now.toNat := by
  have hnow := now.toNat_lt
  rw [expiry, u64SaturatingAdd] at h
  omega

theorem registered_once (store : ReplayStore) {rs : List Registration}
    (hsorted : rs.Pairwise fun a b => a.now ≤ b.now) :
    (rs.zip (store.registerAll rs).1).Pairwise fun a b =>
      a.2 = .ok () → b.2 = .ok () → b.1.key = a.1.key →
        a.1.iat.toNat + store.pastSecs < b.1.now.toNat := by
  induction rs generalizing store with
  | nil => exact .nil
  | cons r rs ih =>
    obtain ⟨-, hrest⟩ := List.pairwise_cons.mp hsorted
    have hpast := store.registerKey_pastSecs r.key r.iat.toNat r.now.toNat
    rw [registerAll_cons, List.zip_cons_cons]
    refine List.pairwise_cons.mpr ⟨fun b hb hfirst hsecond hkey => ?_, ?_⟩
    · rcases store.registerKey_cases r.key r.iat.toNat r.now.toNat with ⟨⟨e, he⟩, -⟩ | ⟨-, -, hmap⟩
      · cases he.symm.trans hfirst
      · exact lt_of_expiry_lt
          (expired_of_registered (hmap.symm ▸ List.mem_cons_self) hrest hb hsecond hkey)
    · rw [← hpast]
      exact ih _ hrest

end

/-- The store is a bounded set of unexpired keys: whatever the calls and their times, both
containers hold the pairs of the set and the results are its results. When the times do not
decrease, a key is accepted again only after its expiry. -/
theorem registerAll_new (window : IatWindow) (capacity : ℕ) (rs : List Registration) :
    let out := (new window capacity).registerAll rs
    (out.1, out.2.state.entries) = Unexpired.registerAll window.past capacity ∅ rs ∧
    (∀ exp key, (exp, key) ∈ out.2.state.heap ↔ (key, exp) ∈ out.2.state.map) ∧
    out.2.state.heap.length = out.2.state.map.length ∧
    (out.2.state.map.map Prod.fst).Nodup ∧
    out.2.state.map.length ≤ capacity ∧
    ((rs.Pairwise fun a b => a.now ≤ b.now) → (rs.zip out.1).Pairwise fun a b =>
      a.2 = .ok () → b.2 = .ok () → b.1.key = a.1.key →
        a.1.iat.toNat + window.past < b.1.now.toNat) := by
  intro out
  have hconsistent := out.2.consistent
  obtain ⟨hrefines, hsize⟩ := registerAll_refines (new window capacity) (Nat.zero_le capacity) rs
  refine ⟨hrefines, fun exp key => ?_, ?_, hconsistent.keys, hsize, fun hsorted => ?_⟩
  · rw [← ReplayState.mem_entries hconsistent, ReplayState.entries, List.mem_toFinset]
  · rw [← hconsistent.same.length_eq, List.length_map]
  · exact registered_once (new window capacity) hsorted

end ReplayStore

end FandheBackend.JwtDpopReplay
