import Mathlib.Data.List.Nodup
import Mathlib.Logic.Function.Basic
import FandheBackend.ActionRuns
import FandheBackend.JwtDpopProof

set_option autoImplicit false

/-!
# The replay store (`crates/plugin-jwt/src/dpop/replay.rs`)

The store keeps the proofs that were accepted until their time is over, and requests that run
side by side share it. A request reads the clock once, at its start; the store drops what has
expired at the time of the request that happens to hold the lock.
-/
namespace FandheBackend.JwtDpopReplay
open StdBytes ActionRuns ExceptChecks JwtVerify JwtDpopProof

abbrev Key := Bytes

/-- The map from a key to its expiry, and the heap in the order in which it gives its entries. -/
structure ReplayState where
  map : List (Key × ℕ)
  heap : List (ℕ × Key)

namespace ReplayState

def find (st : ReplayState) (key : Key) : Option ℕ := (st.map.find? (·.1 = key)).map Prod.snd

/-- `BinaryHeap::push`. -/
def push (entry : ℕ × Key) : List (ℕ × Key) → List (ℕ × Key)
  | [] => [entry]
  | head :: heap =>
    if head.1 < entry.1 ∨ (head.1 = entry.1 ∧ head.2 < entry.2) then head :: push entry heap
    else entry :: head :: heap

def purge (now : ℕ) (map : List (Key × ℕ)) : List (ℕ × Key) → ReplayState
  | [] => ⟨map, []⟩
  | (exp, k) :: heap =>
    if now ≤ exp then ⟨map, (exp, k) :: heap⟩
    else purge now
      (if find ⟨map, []⟩ k = some exp then map.filter (·.1 ≠ k) else map) heap

/-- Map and heap hold the same entries, and a key has one. -/
structure Consistent (st : ReplayState) : Prop where
  keys : (st.map.map Prod.fst).Nodup
  sorted : st.heap.Pairwise fun a b => a.1 ≤ b.1
  same : (st.heap.map Prod.swap).Perm st.map

theorem push_perm (entry : ℕ × Key) (heap : List (ℕ × Key)) :
    (push entry heap).Perm (entry :: heap) := by
  induction heap with
  | nil => exact .refl _
  | cons head heap ih =>
    rw [push]
    split_ifs
    · exact (ih.cons head).trans (.swap entry head heap)
    · exact .refl _

theorem push_sorted {entry : ℕ × Key} {heap : List (ℕ × Key)}
    (h : heap.Pairwise fun a b => a.1 ≤ b.1) :
    (push entry heap).Pairwise fun a b => a.1 ≤ b.1 := by
  induction heap with
  | nil => exact List.pairwise_singleton _ _
  | cons head heap ih =>
    obtain ⟨hhead, hheap⟩ := List.pairwise_cons.mp h
    rw [push]
    split_ifs with hlt
    · refine List.pairwise_cons.mpr ⟨fun a ha => ?_, ih hheap⟩
      rcases List.mem_cons.mp ((push_perm entry heap).mem_iff.mp ha) with rfl | ha
      · omega
      · exact hhead a ha
    · refine List.pairwise_cons.mpr ⟨fun a ha => ?_, h⟩
      have hle : entry.1 ≤ head.1 := by omega
      rcases List.mem_cons.mp ha with rfl | ha
      · exact hle
      · exact Nat.le_trans hle (hhead a ha)

theorem find_eq_some (heap : List (ℕ × Key)) {map : List (Key × ℕ)} {key : Key} {exp : ℕ}
    (hkeys : (map.map Prod.fst).Nodup) (h : (key, exp) ∈ map) :
    find ⟨map, heap⟩ key = some exp := by
  induction map with
  | nil => cases h
  | cons p map ih =>
    obtain ⟨hnot, hrest⟩ := List.nodup_cons.mp hkeys
    rcases List.mem_cons.mp h with rfl | h
    · simp [find]
    · have hne : p.1 ≠ key := fun heq => hnot (heq ▸ List.mem_map_of_mem h)
      simpa [find, hne] using ih hrest h

theorem filter_key_perm {map : List (Key × ℕ)} {rest : List (Key × ℕ)} {key : Key} {exp : ℕ}
    (hkeys : (map.map Prod.fst).Nodup) (h : ((key, exp) :: rest).Perm map) :
    rest.Perm (map.filter (·.1 ≠ key)) := by
  have hnodup : (((key, exp) :: rest).map Prod.fst).Nodup := (h.map _).nodup_iff.mpr hkeys
  have hnot : ∀ p ∈ rest, p.1 ≠ key := fun p hp heq =>
    (List.nodup_cons.mp hnodup).1 (List.mem_map.mpr ⟨p, hp, heq⟩)
  have hfilter := h.filter (fun p => decide (p.1 ≠ key))
  have hrest : rest.filter (fun p => decide (p.1 ≠ key)) = rest :=
    List.filter_eq_self.mpr fun p hp => decide_eq_true (hnot p hp)
  rw [List.filter_cons_of_neg (by simp), hrest] at hfilter
  exact hfilter

theorem purge_eq {now : ℕ} {map : List (Key × ℕ)} {heap : List (ℕ × Key)}
    (h : Consistent ⟨map, heap⟩) :
    purge now map heap = ⟨map.filter (now ≤ ·.2), heap.filter (now ≤ ·.1)⟩ := by
  induction heap generalizing map with
  | nil =>
    have hnil : map = [] := h.same.symm.eq_nil
    rw [purge, hnil]
    rfl
  | cons head heap ih =>
    obtain ⟨exp, k⟩ := head
    obtain ⟨hhead, hheap⟩ := List.pairwise_cons.mp h.sorted
    rw [purge]
    split_ifs with hexp hfind
    · -- the entries of the heap are in order, so all of them are later
      have hall : ∀ p ∈ (exp, k) :: heap, now ≤ p.1 := by
        intro p hp
        rcases List.mem_cons.mp hp with rfl | hp
        · exact hexp
        · exact Nat.le_trans hexp (hhead p hp)
      have hmap : ∀ p ∈ map, now ≤ p.2 := by
        intro p hp
        obtain ⟨q, hq, rfl⟩ := List.mem_map.mp (h.same.mem_iff.mpr hp)
        exact hall q hq
      rw [List.filter_eq_self.mpr fun p hp => decide_eq_true (hmap p hp),
        List.filter_eq_self.mpr fun p hp => decide_eq_true (hall p hp)]
    · have hperm : (heap.map Prod.swap).Perm (map.filter (·.1 ≠ k)) :=
        filter_key_perm h.keys h.same
      have hrest : Consistent ⟨map.filter (·.1 ≠ k), heap⟩ :=
        ⟨h.keys.sublist (List.filter_sublist.map _), hheap, hperm⟩
      rw [ih hrest, List.filter_cons_of_neg (by simpa using hexp), List.filter_filter]
      congr 1
      apply List.filter_congr
      intro p hp
      by_cases hk : p.1 = k
      · have hpexp : (p.1, p.2) ∈ map := hp
        have heq := (find_eq_some [] h.keys hpexp).symm.trans (hk ▸ hfind)
        have hlt : ¬now ≤ p.2 := by
          rw [Option.some.inj heq]
          exact hexp
        simp [hlt]
      · simp [hk]
    · exact absurd (find_eq_some _ h.keys (h.same.mem_iff.mp List.mem_cons_self)) hfind

theorem filter_consistent {st : ReplayState} (h : st.Consistent) (now : ℕ) :
    Consistent ⟨st.map.filter (now ≤ ·.2), st.heap.filter (now ≤ ·.1)⟩ := by
  refine ⟨h.keys.sublist (List.filter_sublist.map _), h.sorted.filter _, ?_⟩
  have hmap : (st.heap.filter (now ≤ ·.1)).map Prod.swap =
      (st.heap.map Prod.swap).filter (now ≤ ·.2) := by
    rw [List.filter_map]
    rfl
  change ((st.heap.filter (now ≤ ·.1)).map Prod.swap).Perm _
  rw [hmap]
  exact h.same.filter _

theorem push_consistent {st : ReplayState} (h : st.Consistent) {key : Key} (exp : ℕ)
    (hkey : key ∉ st.map.map Prod.fst) :
    Consistent ⟨(key, exp) :: st.map, push (exp, key) st.heap⟩ :=
  ⟨List.nodup_cons.mpr ⟨hkey, h.keys⟩, push_sorted h.sorted,
    ((push_perm _ _).map _).trans (h.same.cons _)⟩

end ReplayState

/-- The store of a gate; `capacity` and `past_secs` are given when it is built. -/
structure ReplayStore where
  state : ReplayState
  pastSecs : ℕ
  capacity : ℕ
  consistent : state.Consistent

namespace ReplayStore

def new (window : IatWindow) (capacity : ℕ) : ReplayStore :=
  ⟨⟨[], []⟩, window.past, capacity, List.nodup_nil, .nil, .refl _⟩

/-- The second at which a proof may still be used, and not later. -/
def expiry (store : ReplayStore) (iat : ℕ) : ℕ := u64SaturatingAdd iat store.pastSecs

def purged (store : ReplayStore) (now : ℕ) : ReplayState :=
  ReplayState.purge now store.state.map store.state.heap

theorem purged_consistent (store : ReplayStore) (now : ℕ) : (store.purged now).Consistent := by
  rw [purged, ReplayState.purge_eq store.consistent]
  exact ReplayState.filter_consistent store.consistent now

theorem mem_purged {store : ReplayStore} {now : ℕ} {p : Key × ℕ} :
    p ∈ (store.purged now).map ↔ p ∈ store.state.map ∧ now ≤ p.2 := by
  rw [purged, ReplayState.purge_eq store.consistent, List.mem_filter, decide_eq_true_eq]

def registerKey (store : ReplayStore) (key : Key) (iat now : ℕ) :
    Except DpopError Unit × ReplayStore :=
  if hkey : key ∈ (store.purged now).map.map Prod.fst then
    (.error .replayed,
      ⟨store.purged now, store.pastSecs, store.capacity, store.purged_consistent now⟩)
  else if store.capacity ≤ (store.purged now).map.length then
    (.error .replayStoreFull,
      ⟨store.purged now, store.pastSecs, store.capacity, store.purged_consistent now⟩)
  else
    (.ok (), ⟨⟨(key, store.expiry iat) :: (store.purged now).map,
        ReplayState.push (store.expiry iat, key) (store.purged now).heap⟩,
      store.pastSecs, store.capacity,
      ReplayState.push_consistent (store.purged_consistent now) _ hkey⟩)

theorem registerKey_cases (store : ReplayStore) (key : Key) (iat now : ℕ) :
    ((∃ e, (store.registerKey key iat now).1 = .error e) ∧
        (store.registerKey key iat now).2.state = store.purged now) ∨
      (key ∉ (store.purged now).map.map Prod.fst ∧
        (store.registerKey key iat now).1 = .ok () ∧
        (store.registerKey key iat now).2.state.map =
          (key, store.expiry iat) :: (store.purged now).map) := by
  unfold registerKey
  split_ifs with hkey hfull
  · exact .inl ⟨⟨_, rfl⟩, rfl⟩
  · exact .inl ⟨⟨_, rfl⟩, rfl⟩
  · exact .inr ⟨hkey, rfl, rfl⟩

theorem registerKey_pastSecs (store : ReplayStore) (key : Key) (iat now : ℕ) :
    (store.registerKey key iat now).2.pastSecs = store.pastSecs := by
  unfold registerKey
  split_ifs <;> rfl

/-- No call removes an entry before it has expired. -/
theorem mem_registerKey {store : ReplayStore} {key : Key} {iat now : ℕ} {p : Key × ℕ}
    (hp : p ∈ store.state.map) (hnow : now ≤ p.2) :
    p ∈ (store.registerKey key iat now).2.state.map := by
  have hkept := mem_purged.mpr ⟨hp, hnow⟩
  rcases registerKey_cases store key iat now with ⟨-, hstate⟩ | ⟨-, -, hmap⟩
  · rw [hstate]
    exact hkept
  · rw [hmap]
    exact List.mem_cons_of_mem _ hkept

/-- A key is not accepted while an entry of it has not expired. -/
theorem not_mem_of_registerKey {store : ReplayStore} {key : Key} {iat now exp : ℕ}
    (h : (store.registerKey key iat now).1 = .ok ()) (hnow : now ≤ exp) :
    (key, exp) ∉ store.state.map := by
  intro hmem
  rcases registerKey_cases store key iat now with ⟨⟨e, he⟩, -⟩ | ⟨hkey, -, -⟩
  · rw [he] at h
    cases h
  · exact hkey (List.mem_map_of_mem (mem_purged.mpr ⟨hmem, hnow⟩))

end ReplayStore

section
variable (x : Externals)

def replayKey (thumbprint jti : Bytes) : Key := x.sha256 (thumbprint ++ jti)

/-- `ReplayStore::register`. -/
def ReplayStore.register (store : ReplayStore) (proof : VerifiedProof) (now : ℕ) :
    Except DpopError Unit × ReplayStore :=
  store.registerKey (replayKey x proof.thumbprint proof.jti) proof.iat now

inductive Request where
  | idle
  | started (proof : Bytes) (ctx : ProofContext) (now : ℕ)
  | refused (e : DpopError)
  | verified (proof : VerifiedProof) (now : ℕ)
  | registered (proof : VerifiedProof) (result : Except DpopError Unit)

def Request.accepted : Request → Option VerifiedProof
  | .registered proof (.ok _) => some proof
  | _ => none

structure Gate where
  clock : ℕ
  store : ReplayStore
  requests : ℕ → Request
  -- The accepted proofs, with the latest time that a `register` was called with since then.
  accepted : List (VerifiedProof × ℕ)

inductive Action where
  | tick (time : ℕ)
  | start (request : ℕ) (proof method htu accessToken : Bytes)
  | verify (request : ℕ)
  | register (request : ℕ)

namespace Gate

def new (window : IatWindow) (capacity : ℕ) : Gate := ⟨0, .new window capacity, fun _ => .idle, []⟩

def setRequest (s : Gate) (i : ℕ) (r : Request) : Gate :=
  { s with requests := Function.update s.requests i r }

def noted (accepted : List (VerifiedProof × ℕ)) (proof : VerifiedProof) (now : ℕ) :
    Except DpopError Unit → List (VerifiedProof × ℕ)
  | .ok _ => (proof, now) :: accepted.map fun p => (p.1, max p.2 now)
  | .error _ => accepted.map fun p => (p.1, max p.2 now)

/-- The clock does not go backwards; the lock makes a `register` one step. -/
def step (algs : List Algorithm) (window : IatWindow) (s : Gate) : Action → Option Gate
  | .tick time => if s.clock ≤ time ∧ time < 2 ^ 64 then some { s with clock := time } else none
  | .start i proof method htu accessToken =>
    match s.requests i with
    | .idle =>
      some (s.setRequest i (.started proof ⟨method, htu, accessToken, algs, window⟩ s.clock))
    | _ => none
  | .verify i =>
    match s.requests i with
    | .started proof ctx now =>
      some (s.setRequest i (match verifyProof x proof ctx now with
        | .ok verified => .verified verified now
        | .error e => .refused e))
    | _ => none
  | .register i =>
    match s.requests i with
    | .verified proof now =>
      let (result, store) := s.store.register x proof now
      some { s.setRequest i (.registered proof result) with
        store := store, accepted := noted s.accepted proof now result }
    | _ => none

/-- A request that brings a proof which was accepted before comes while, since then, no `register`
was called with a time after the expiry of the proof. -/
def InTime (s : Gate) : Action → Prop
  | .register i => ∀ proof now, s.requests i = .verified proof now →
      ∀ p ∈ s.accepted, p.1 = proof → p.2 ≤ s.store.expiry proof.iat
  | _ => True

structure Invariant (window : IatWindow) (s : Gate) : Prop where
  clock : s.clock < 2 ^ 64
  past : s.store.pastSecs = window.past
  started : ∀ i proof ctx now, s.requests i = .started proof ctx now →
    now ≤ s.clock ∧ ctx.window = window
  verified : ∀ i proof now, s.requests i = .verified proof now → now ≤ s.store.expiry proof.iat
  held : ∀ p ∈ s.accepted, p.2 ≤ s.store.expiry p.1.iat →
    (replayKey x p.1.thumbprint p.1.jti, s.store.expiry p.1.iat) ∈ s.store.state.map
  listed : ∀ i proof, s.requests i = .registered proof (.ok ()) → ∃ p ∈ s.accepted, p.1 = proof
  once : ∀ i j proof, s.requests i = .registered proof (.ok ()) →
    s.requests j = .registered proof (.ok ()) → i = j

end Gate

variable {x}

theorem le_expiry_of_inWindow {window : IatWindow} {store : ReplayStore} {iat now : ℕ}
    (hpast : store.pastSecs = window.past) (hnow : now < 2 ^ 64) (h : inWindow window iat now) :
    now ≤ store.expiry iat := by
  have hlo : now - window.past ≤ iat := h.1
  unfold ReplayStore.expiry u64SaturatingAdd
  rw [hpast]
  omega

theorem registered_of_accepted {r : Request} {proof : VerifiedProof}
    (h : r.accepted = some proof) : r = .registered proof (.ok ()) := by
  unfold Request.accepted at h
  split at h
  · cases h
    rfl
  · cases h

theorem invariant_new (window : IatWindow) (capacity : ℕ) :
    (Gate.new window capacity).Invariant x window :=
  ⟨Nat.two_pow_pos 64, rfl, (fun _ _ _ _ h => nomatch h), (fun _ _ _ h => nomatch h),
    (fun _ h => nomatch h), (fun _ _ h => nomatch h), (fun _ _ _ h => nomatch h)⟩

section
variable {algs : List Algorithm} {window : IatWindow} {s s' : Gate}

theorem invariant_setRequest (hs : s.Invariant x window) (i : ℕ) (r : Request)
    (hstarted : ∀ proof ctx now, r = .started proof ctx now → now ≤ s.clock ∧ ctx.window = window)
    (hverified : ∀ proof now, r = .verified proof now → now ≤ s.store.expiry proof.iat)
    (hregistered : ∀ proof, r ≠ .registered proof (.ok ())) :
    (s.setRequest i r).Invariant x window := by
  have hat : ∀ {j r'}, (s.setRequest i r).requests j = r' →
      j = i ∧ r = r' ∨ s.requests j = r' := by
    intro j r' hj
    by_cases hji : j = i
    · subst hji
      exact .inl ⟨rfl, by simpa [Gate.setRequest] using hj⟩
    · exact .inr (by simpa [Gate.setRequest, Function.update_of_ne hji] using hj)
  have hkept : ∀ {j proof}, (s.setRequest i r).requests j = .registered proof (.ok ()) →
      s.requests j = .registered proof (.ok ()) := by
    intro j proof hj
    rcases hat hj with ⟨-, hr⟩ | hj
    · exact absurd hr (hregistered proof)
    · exact hj
  refine ⟨hs.clock, hs.past, ?_, ?_, hs.held, fun j proof hj => hs.listed j proof (hkept hj),
    fun j k proof hj hk => hs.once j k proof (hkept hj) (hkept hk)⟩
  · intro j proof ctx now hj
    rcases hat hj with ⟨-, hr⟩ | hj
    · exact hstarted proof ctx now hr
    · exact hs.started j proof ctx now hj
  · intro j proof now hj
    rcases hat hj with ⟨-, hr⟩ | hj
    · exact hverified proof now hr
    · exact hs.verified j proof now hj

theorem mem_noted {accepted : List (VerifiedProof × ℕ)} {proof : VerifiedProof} {now : ℕ}
    {result : Except DpopError Unit} {p : VerifiedProof × ℕ} :
    p ∈ Gate.noted accepted proof now result ↔ p = (proof, now) ∧ result = .ok () ∨
      ∃ q ∈ accepted, (q.1, max q.2 now) = p := by
  cases result with
  | ok _ => simp [Gate.noted]
  | error e => simp [Gate.noted]

theorem invariant_register {i now : ℕ} {proof : VerifiedProof} (hs : s.Invariant x window)
    (hi : s.requests i = .verified proof now) (hok : s.InTime (.register i)) :
    Gate.Invariant x window
      { s.setRequest i (.registered proof (s.store.register x proof now).1) with
        store := (s.store.register x proof now).2
        accepted := Gate.noted s.accepted proof now (s.store.register x proof now).1 } := by
  set key := replayKey x proof.thumbprint proof.jti
  have hpast : (s.store.register x proof now).2.pastSecs = s.store.pastSecs :=
    s.store.registerKey_pastSecs _ _ _
  have hexpiry : ∀ iat, (s.store.register x proof now).2.expiry iat = s.store.expiry iat := by
    intro iat
    unfold ReplayStore.expiry
    rw [hpast]
  -- no other request had this proof accepted, if this one has
  have hfirst : (s.store.register x proof now).1 = .ok () →
      ∀ j, s.requests j ≠ .registered proof (.ok ()) := by
    intro hresult j hj
    obtain ⟨p, hp, rfl⟩ := hs.listed j proof hj
    exact ReplayStore.not_mem_of_registerKey hresult (hs.verified i p.1 now hi)
      (hs.held p hp (hok p.1 now hi p hp rfl))
  have hat : ∀ {j r'}, Function.update s.requests i
      (.registered proof (s.store.register x proof now).1) j = r' →
      j = i ∧ .registered proof (s.store.register x proof now).1 = r' ∨
        j ≠ i ∧ s.requests j = r' := by
    intro j r' hj
    by_cases hji : j = i
    · subst hji
      exact .inl ⟨rfl, by simpa using hj⟩
    · exact .inr ⟨hji, by simpa [Function.update_of_ne hji] using hj⟩
  constructor
  case clock => exact hs.clock
  case past => exact hpast.trans hs.past
  case started =>
    intro j proof' ctx now' hj
    rcases hat hj with ⟨-, hr⟩ | ⟨-, hj⟩
    · cases hr
    · exact hs.started j proof' ctx now' hj
  case verified =>
    intro j proof' now' hj
    rcases hat hj with ⟨-, hr⟩ | ⟨-, hj⟩
    · cases hr
    · exact (hexpiry proof'.iat).symm ▸ hs.verified j proof' now' hj
  case held =>
    intro p hp hlatest
    change (_, (s.store.register x proof now).2.expiry p.1.iat) ∈ _
    rw [hexpiry] at hlatest ⊢
    rcases mem_noted.mp hp with ⟨rfl, hresult⟩ | ⟨q, hq, rfl⟩
    · rcases s.store.registerKey_cases key proof.iat now with ⟨⟨e, he⟩, -⟩ | ⟨-, -, hmap⟩
      · exact absurd (he.symm.trans hresult) (by simp)
      · change _ ∈ (s.store.registerKey key proof.iat now).2.state.map
        rw [hmap]
        exact List.mem_cons_self
    · obtain ⟨hbefore, hnow⟩ := max_le_iff.mp hlatest
      exact ReplayStore.mem_registerKey (hs.held q hq hbefore) hnow
  case listed =>
    intro j proof' hj
    rcases hat hj with ⟨-, hr⟩ | ⟨-, hj⟩
    · obtain ⟨rfl, hresult⟩ := Request.registered.inj hr
      exact ⟨_, mem_noted.mpr (.inl ⟨rfl, hresult⟩), rfl⟩
    · obtain ⟨q, hq, hproof⟩ := hs.listed j proof' hj
      exact ⟨_, mem_noted.mpr (.inr ⟨q, hq, rfl⟩), hproof⟩
  case once =>
    intro j k proof' hj hk
    rcases hat hj with ⟨hji, hr⟩ | ⟨-, hj'⟩ <;> rcases hat hk with ⟨hki, hr'⟩ | ⟨-, hk'⟩
    · exact hji.trans hki.symm
    · obtain ⟨rfl, hresult⟩ := Request.registered.inj hr
      exact absurd hk' (hfirst hresult k)
    · obtain ⟨rfl, hresult⟩ := Request.registered.inj hr'
      exact absurd hj' (hfirst hresult j)
    · exact hs.once j k proof' hj' hk'

theorem invariant_step {a : Action} (hs : s.Invariant x window) (hok : s.InTime a)
    (h : s.step x algs window a = some s') : s'.Invariant x window := by
  cases a with
  | tick time =>
    simp only [Gate.step] at h
    split_ifs at h with htime
    cases h
    exact ⟨htime.2, hs.past, fun i proof ctx now hi =>
      ⟨Nat.le_trans (hs.started i proof ctx now hi).1 htime.1, (hs.started i proof ctx now hi).2⟩,
      hs.verified, hs.held, hs.listed, hs.once⟩
  | start i proof method htu accessToken =>
    simp only [Gate.step] at h
    cases hi : s.requests i <;> simp only [hi] at h <;> cases h
    refine invariant_setRequest hs i _ ?_ (fun _ _ hr => nomatch hr) (fun _ hr => nomatch hr)
    intro proof ctx now hr
    cases hr
    exact ⟨Nat.le_refl _, rfl⟩
  | verify i =>
    simp only [Gate.step] at h
    cases hi : s.requests i <;> simp only [hi] at h <;> cases h
    rename_i proof ctx now
    obtain ⟨hnow, hwindow⟩ := hs.started i proof ctx now hi
    cases hverify : verifyProof x proof ctx now with
    | error e =>
      exact invariant_setRequest hs i _ (fun _ _ _ hr => nomatch hr) (fun _ _ hr => nomatch hr)
        (fun _ hr => nomatch hr)
    | ok verified =>
      refine invariant_setRequest hs i _ (fun _ _ _ hr => nomatch hr) ?_ (fun _ hr => nomatch hr)
      intro proof' now' hr
      cases hr
      obtain ⟨-, -, -, -, -, hin⟩ := verifyProof_eq_ok hverify
      exact le_expiry_of_inWindow hs.past (Nat.lt_of_le_of_lt hnow hs.clock) (hwindow ▸ hin)
  | register i =>
    simp only [Gate.step] at h
    cases hi : s.requests i <;> simp only [hi] at h <;> cases h
    exact invariant_register hs hi hok

end

/-- A proof is accepted at most once in a run whose requests all come in time. -/
theorem proof_accepted_once {algs : List Algorithm} {window : IatWindow} {capacity : ℕ}
    {actions : List Action} {s : Gate}
    (hok : Along (Gate.step x algs window) Gate.InTime actions (.new window capacity))
    (h : run (Gate.step x algs window) actions (.new window capacity) = some s) {i j : ℕ}
    {proof : VerifiedProof} (hi : s.requests i = .registered proof (.ok ()))
    (hj : s.requests j = .registered proof (.ok ())) : i = j :=
  (run_invariant_along (Gate.Invariant x window) Gate.InTime invariant_step
    (invariant_new window capacity) hok h).once i j proof hi hj

end

namespace Sample

/-- `{"alg":"ES256","typ":"at+jwt","kid":"k"}` in base64. -/
def tokenHeader : Bytes :=
  [101, 121, 74, 104, 98, 71, 99, 105, 79, 105, 74, 70, 85, 122, 73, 49, 78, 105, 73, 115, 73,
   110, 82, 53, 99, 67, 73, 54, 73, 109, 70, 48, 75, 50, 112, 51, 100, 67, 73, 115, 73, 109, 116,
   112, 90, 67, 73, 54, 73, 109, 115, 105, 102, 81]

/-- `{"iss":"i","aud":"a","exp":200,"cnf":{"jkt":..}}`, bound to the key of the proofs. -/
def tokenPayload : Bytes :=
  [101, 121, 74, 112, 99, 51, 77, 105, 79, 105, 74, 112, 73, 105, 119, 105, 89, 88, 86, 107, 73,
   106, 111, 105, 89, 83, 73, 115, 73, 109, 86, 52, 99, 67, 73, 54, 77, 106, 65, 119, 76, 67, 74,
   106, 98, 109, 89, 105, 79, 110, 115, 105, 97, 109, 116, 48, 73, 106, 111, 105, 101, 110, 66,
   107, 82, 109, 86, 50, 82, 69, 48, 121, 79, 87, 120, 72, 101, 71, 78, 108, 101, 110, 112, 82,
   87, 110, 85, 52, 88, 50, 86, 48, 86, 122, 104, 68, 82, 48, 100, 52, 82, 69, 90, 72, 99, 49,
   77, 121, 99, 122, 108, 77, 79, 69, 112, 85, 99, 121, 74, 57, 102, 81]

def tokenSignature : Bytes :=
  [95, 110, 51, 101, 108, 110, 97, 86, 120, 49, 104, 71, 48, 49, 104, 97, 76, 68, 95, 107, 80,
   103, 73, 76, 87, 56, 74, 74, 99, 113, 100, 81, 102, 108, 116, 103, 107, 105, 99, 57, 76, 55,
   90, 122, 89, 82, 68, 81, 68, 102, 113, 51, 105, 83, 113, 122, 65, 45, 70, 102, 72, 76, 105,
   104, 99, 55, 71, 90, 74, 45, 119, 106, 88, 102, 76, 110, 95, 88, 50, 99, 98, 45, 85, 113, 50,
   103]

def token : Bytes := tokenHeader ++ 46 :: tokenPayload ++ 46 :: tokenSignature

/-- `{"typ":"dpop+jwt","alg":"ES256","jwk":{"kty":"EC","crv":"P-256","x":..,"y":..}}`. -/
def proofHeader : Bytes :=
  [101, 121, 74, 48, 101, 88, 65, 105, 79, 105, 74, 107, 99, 71, 57, 119, 75, 50, 112, 51, 100,
   67, 73, 115, 73, 109, 70, 115, 90, 121, 73, 54, 73, 107, 86, 84, 77, 106, 85, 50, 73, 105,
   119, 105, 97, 110, 100, 114, 73, 106, 112, 55, 73, 109, 116, 48, 101, 83, 73, 54, 73, 107, 86,
   68, 73, 105, 119, 105, 89, 51, 74, 50, 73, 106, 111, 105, 85, 67, 48, 121, 78, 84, 89, 105,
   76, 67, 74, 52, 73, 106, 111, 105, 98, 88, 74, 104, 99, 50, 86, 80, 86, 49, 65, 116, 101, 86,
   103, 122, 89, 48, 49, 69, 90, 85, 70, 54, 89, 51, 74, 116, 86, 106, 89, 49, 79, 88, 108, 72,
   97, 72, 100, 67, 83, 107, 116, 50, 100, 68, 70, 108, 79, 69, 78, 90, 86, 108, 82, 51, 77, 67,
   73, 115, 73, 110, 107, 105, 79, 105, 73, 52, 99, 50, 78, 88, 87, 87, 70, 106, 98, 85, 70, 104,
   89, 109, 57, 111, 100, 50, 82, 105, 100, 86, 70, 90, 99, 51, 78, 122, 83, 50, 49, 50, 86, 87,
   116, 121, 86, 71, 115, 50, 86, 51, 86, 115, 90, 48, 100, 85, 76, 87, 90, 79, 99, 71, 115, 48,
   73, 110, 49, 57]

/-- `{"jti":"j","htm":"GET","htu":"https://a/r","iat":100,"ath":..}`. -/
def firstPayload : Bytes :=
  [101, 121, 74, 113, 100, 71, 107, 105, 79, 105, 74, 113, 73, 105, 119, 105, 97, 72, 82, 116,
   73, 106, 111, 105, 82, 48, 86, 85, 73, 105, 119, 105, 97, 72, 82, 49, 73, 106, 111, 105, 97,
   72, 82, 48, 99, 72, 77, 54, 76, 121, 57, 104, 76, 51, 73, 105, 76, 67, 74, 112, 89, 88, 81,
   105, 79, 106, 69, 119, 77, 67, 119, 105, 89, 88, 82, 111, 73, 106, 111, 105, 98, 87, 86, 118,
   83, 108, 66, 50, 97, 49, 69, 48, 99, 106, 70, 74, 86, 68, 100, 120, 88, 50, 74, 54, 99, 51,
   90, 90, 82, 50, 78, 112, 81, 49, 112, 109, 90, 70, 85, 51, 78, 109, 115, 119, 98, 106, 74, 51,
   86, 87, 74, 105, 87, 68, 70, 67, 81, 83, 74, 57]

def firstSignature : Bytes :=
  [49, 108, 113, 111, 104, 79, 90, 95, 56, 66, 89, 100, 115, 101, 100, 99, 115, 112, 101, 53, 83,
   79, 106, 115, 108, 55, 77, 83, 76, 67, 115, 99, 84, 122, 98, 51, 67, 100, 111, 113, 45, 106,
   66, 90, 70, 79, 121, 89, 105, 81, 118, 98, 119, 104, 76, 107, 90, 73, 77, 51, 103, 115, 113,
   57, 108, 110, 53, 100, 118, 98, 75, 120, 55, 73, 49, 108, 69, 106, 109, 107, 118, 49, 97, 121,
   50, 119]

def firstProof : Bytes := proofHeader ++ 46 :: firstPayload ++ 46 :: firstSignature

/-- `{"jti":"k","htm":"GET","htu":"https://a/r","iat":170,"ath":..}`. -/
def secondPayload : Bytes :=
  [101, 121, 74, 113, 100, 71, 107, 105, 79, 105, 74, 114, 73, 105, 119, 105, 97, 72, 82, 116,
   73, 106, 111, 105, 82, 48, 86, 85, 73, 105, 119, 105, 97, 72, 82, 49, 73, 106, 111, 105, 97,
   72, 82, 48, 99, 72, 77, 54, 76, 121, 57, 104, 76, 51, 73, 105, 76, 67, 74, 112, 89, 88, 81,
   105, 79, 106, 69, 51, 77, 67, 119, 105, 89, 88, 82, 111, 73, 106, 111, 105, 98, 87, 86, 118,
   83, 108, 66, 50, 97, 49, 69, 48, 99, 106, 70, 74, 86, 68, 100, 120, 88, 50, 74, 54, 99, 51,
   90, 90, 82, 50, 78, 112, 81, 49, 112, 109, 90, 70, 85, 51, 78, 109, 115, 119, 98, 106, 74, 51,
   86, 87, 74, 105, 87, 68, 70, 67, 81, 83, 74, 57]

def secondSignature : Bytes :=
  [120, 119, 107, 111, 102, 52, 75, 71, 83, 116, 54, 120, 76, 45, 105, 56, 45, 55, 57, 49, 99,
   67, 88, 103, 100, 110, 115, 95, 107, 87, 86, 110, 89, 117, 88, 95, 97, 72, 78, 50, 95, 86,
   109, 98, 108, 121, 54, 81, 48, 112, 97, 54, 45, 105, 103, 109, 51, 85, 108, 82, 95, 107, 107,
   76, 69, 56, 57, 85, 108, 122, 111, 78, 67, 121, 80, 90, 55, 114, 119, 85, 76, 86, 51, 101, 90,
   103]

def secondProof : Bytes := proofHeader ++ 46 :: secondPayload ++ 46 :: secondSignature

def keyX : Bytes :=
  [109, 114, 97, 115, 101, 79, 87, 80, 45, 121, 88, 51, 99, 77, 68, 101, 65, 122, 99, 114, 109,
   86, 54, 53, 57, 121, 71, 104, 119, 66, 74, 75, 118, 116, 49, 101, 56, 67, 89, 86, 84, 119, 48]

def keyY : Bytes :=
  [56, 115, 99, 87, 89, 97, 99, 109, 65, 97, 98, 111, 104, 119, 100, 98, 117, 81, 89, 115, 115,
   115, 75, 109, 118, 85, 107, 114, 84, 107, 54, 87, 117, 108, 103, 71, 84, 45, 102, 78, 112,
   107, 52]

def thumbprint : Bytes :=
  [122, 112, 100, 70, 101, 118, 68, 77, 50, 57, 108, 71, 120, 99, 101, 122, 122, 81, 90, 117, 56,
   95, 101, 116, 87, 56, 67, 71, 71, 120, 68, 70, 71, 115, 83, 50, 115, 57, 76, 56, 74, 84, 115]

def tokenHash : Bytes :=
  [109, 101, 111, 74, 80, 118, 107, 81, 52, 114, 49, 73, 84, 55, 113, 95, 98, 122, 115, 118, 89,
   71, 99, 105, 67, 90, 102, 100, 85, 55, 54, 107, 48, 110, 50, 119, 85, 98, 98, 88, 49, 66, 65]

def issuerPoint : Bytes :=
  [4, 152, 182, 201, 170, 23, 149, 120, 104, 120, 213, 249, 114, 164, 195, 111, 226, 98, 125,
   154, 126, 5, 183, 179, 130, 22, 216, 214, 230, 47, 55, 71, 216, 202, 158, 95, 35, 166, 202,
   188, 109, 31, 225, 98, 32, 36, 59, 69, 138, 223, 11, 223, 100, 53, 166, 181, 243, 219, 97, 23,
   198, 147, 192, 210, 224]

def firstKey : Bytes :=
  [234, 55, 45, 231, 197, 194, 245, 20, 1, 145, 67, 104, 148, 226, 225, 254, 92, 181, 253, 210,
   75, 69, 136, 172, 106, 167, 22, 134, 23, 108, 11, 198]

def secondKey : Bytes :=
  [32, 83, 138, 140, 53, 84, 215, 3, 9, 110, 44, 61, 229, 42, 197, 69, 180, 197, 21, 226, 122,
   16, 218, 50, 140, 78, 0, 233, 247, 185, 37, 85]

def sixBits (b : UInt8) : Option ℕ :=
  if isAsciiUppercase b then some (b.toNat - 65)
  else if isAsciiLowercase b then some (b.toNat - 71)
  else if isAsciiDigit b then some (b.toNat + 4)
  else if b = 45 then some 62
  else if b = 95 then some 63
  else none

/-- `URL_SAFE_NO_PAD.decode`: the bits that are left over must be zero. -/
def base64Decode : Bytes → Option Bytes
  | [] => some []
  | [_] => none
  | [a, b] => do
    let n := (← sixBits a) * 64 + (← sixBits b)
    guard (n % 16 = 0)
    return [UInt8.ofNat (n / 16)]
  | [a, b, c] => do
    let n := ((← sixBits a) * 64 + (← sixBits b)) * 64 + (← sixBits c)
    guard (n % 4 = 0)
    return [UInt8.ofNat (n / 1024), UInt8.ofNat (n / 4)]
  | a :: b :: c :: d :: rest => do
    let n := (((← sixBits a) * 64 + (← sixBits b)) * 64 + (← sixBits c)) * 64 + (← sixBits d)
    return UInt8.ofNat (n / 65536) :: UInt8.ofNat (n / 256) :: UInt8.ofNat n ::
      (← base64Decode rest)

def lookup {β : Type} (table : List (Bytes × β)) (key : Bytes) : Option β :=
  (table.find? (·.1 = key)).map Prod.snd

def raw (text : Bytes) : Bytes := (base64Decode text).getD []

def crates : Externals where
  encode := fun s => (([keyX, keyY, thumbprint, tokenHash].find? (raw · = s))).getD []
  decode := base64Decode
  sha256 := fun s => (lookup [
    (ascii "\x7b\"crv\":\"P-256\",\"kty\":\"EC\",\"x\":\"" ++ keyX ++ ascii "\",\"y\":\"" ++ keyY ++
      ascii "\"\x7d", raw thumbprint), (token, raw tokenHash),
    (thumbprint ++ ascii "j", firstKey), (thumbprint ++ ascii "k", secondKey)] s).getD []
  rsaVerify := fun _ _ _ _ => false
  ecdsaVerify := fun point msg sig =>
    decide ((point, msg, sig) ∈ [
      (issuerPoint, tokenHeader ++ 46 :: tokenPayload, raw tokenSignature),
      (4 :: raw keyX ++ raw keyY, proofHeader ++ 46 :: firstPayload, raw firstSignature),
      (4 :: raw keyX ++ raw keyY, proofHeader ++ 46 :: secondPayload, raw secondSignature)])
  json := lookup [
    (raw tokenHeader, .object [(ascii "alg", .string (ascii "ES256")),
      (ascii "typ", .string (ascii "at+jwt")), (ascii "kid", .string (ascii "k"))]),
    (raw tokenPayload, .object [(ascii "iss", .string (ascii "i")),
      (ascii "aud", .string (ascii "a")), (ascii "exp", .natural 200),
      (ascii "cnf", .object [(ascii "jkt", .string thumbprint)])]),
    (raw proofHeader, .object [(ascii "typ", .string (ascii "dpop+jwt")),
      (ascii "alg", .string (ascii "ES256")), (ascii "jwk", .object [
        (ascii "kty", .string (ascii "EC")), (ascii "crv", .string (ascii "P-256")),
        (ascii "x", .string keyX), (ascii "y", .string keyY)])]),
    (raw firstPayload, .object [(ascii "jti", .string (ascii "j")),
      (ascii "htm", .string (ascii "GET")), (ascii "htu", .string (ascii "https://a/r")),
      (ascii "iat", .natural 100), (ascii "ath", .string tokenHash)]),
    (raw secondPayload, .object [(ascii "jti", .string (ascii "k")),
      (ascii "htm", .string (ascii "GET")), (ascii "htu", .string (ascii "https://a/r")),
      (ascii "iat", .natural 170), (ascii "ath", .string tokenHash)])]

def window : IatWindow := ⟨60, 5, by decide, by decide, by decide⟩

def first : VerifiedProof := ⟨thumbprint, ascii "j", 100⟩

def start (i : ℕ) (proof : Bytes) : Action :=
  .start i proof (ascii "GET") (ascii "https://a/r") token

/-- The second request comes before the proof has expired. -/
def replay : List Action :=
  [.tick 100, start 0 firstProof, .verify 0, .register 0, .tick 150, start 1 firstProof, .verify 1,
    .register 1]

/-- The second request reads the clock in time and comes late; another one was faster. -/
def lateReplay : List Action :=
  [.tick 100, start 0 firstProof, .verify 0, .register 0, .tick 150, start 1 firstProof, .verify 1,
    .tick 170, start 2 secondProof, .verify 2, .register 2, .register 1]

def inTime (s : Gate) : Action → Bool
  | .register i =>
    match s.requests i with
    | .verified proof _ =>
      decide (∀ p ∈ s.accepted, p.1 = proof → p.2 ≤ s.store.expiry proof.iat)
    | _ => true
  | _ => true

theorem inTime_of_check {s : Gate} {a : Action} (h : inTime s a = true) : s.InTime a := by
  cases a with
  | register i =>
    intro proof now hi
    simpa only [inTime, hi, decide_eq_true_eq] using h
  | tick time => trivial
  | start i proof method htu accessToken => trivial
  | verify i => trivial

end Sample

open Sample in
theorem proof_accepted_once_replay :
    ∃ s, run (Gate.step crates [.es256] window) replay (.new window 131072) = some s ∧
      s.requests 0 = .registered first (.ok ()) ∧ (s.requests 1).accepted = none ∧
      ∀ j, s.requests j = .registered first (.ok ()) → 0 = j := by
  have hresults : (run (Gate.step crates [.es256] window) replay (.new window 131072)).map
      (fun s => ((s.requests 0).accepted, (s.requests 1).accepted)) = some (some first, none) := by
    decide +kernel
  have hcheck : checkAlong (Gate.step crates [.es256] window) inTime replay
      (.new window 131072) = true := by
    decide +kernel
  obtain ⟨s, hs, hresult⟩ := Option.map_eq_some_iff.mp hresults
  obtain ⟨hfirst, hsecond⟩ := Prod.mk.inj hresult
  have hzero := registered_of_accepted hfirst
  exact ⟨s, hs, hzero, hsecond, fun j hj =>
    proof_accepted_once (along_of_checkAlong inTime_of_check hcheck) hs hzero hj⟩

open Sample in
/-- Two requests with one proof are both accepted when the second one is overtaken. -/
theorem proof_accepted_twice :
    ∃ s, run (Gate.step crates [.es256] window) lateReplay (.new window 131072) = some s ∧
      s.requests 0 = .registered first (.ok ()) ∧ s.requests 1 = .registered first (.ok ()) := by
  have hresults : (run (Gate.step crates [.es256] window) lateReplay (.new window 131072)).map
      (fun s => ((s.requests 0).accepted, (s.requests 1).accepted)) =
        some (some first, some first) := by
    decide +kernel
  obtain ⟨s, hs, hresult⟩ := Option.map_eq_some_iff.mp hresults
  obtain ⟨hfirst, hsecond⟩ := Prod.mk.inj hresult
  exact ⟨s, hs, registered_of_accepted hfirst, registered_of_accepted hsecond⟩

end FandheBackend.JwtDpopReplay
