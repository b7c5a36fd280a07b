import Mathlib.Data.List.Nodup
import Mathlib.Logic.Function.Basic
import FandheBackend.ActionRuns
import FandheBackend.JwtVerify

set_option autoImplicit false

/-!
# The token cache (`crates/plugin-jwt/src/auth.rs`)

`TokenCache` and the calls of `verify_token_cached` that share it. An `Arc<KeySet>` is the
number of its allocation: an entry and a call keep theirs alive, so two live ones are the same
pointer exactly when the numbers agree. The unknown-key notification does not change a result
and is left out.
-/
namespace FandheBackend.JwtTokenCache
open StdBytes ActionRuns ExceptChecks JwtVerify

def cacheCapacity : ℕ := 1024

structure Entry (E : Type) where
  claims : Claims E
  verifiedAgainst : ℕ

structure CacheState (E : Type) where
  map : List (Bytes × Entry E)
  order : List Bytes

inductive Lookup (E : Type) where
  | hit (claims : Claims E)
  | invalid (e : TokenError)
  | miss

namespace CacheState
variable {E : Type}

def keys (c : CacheState E) : List Bytes := c.map.map Prod.fst

def find (c : CacheState E) (key : Bytes) : Option (Entry E) :=
  (c.map.find? (·.1 = key)).map Prod.snd

def get (c : CacheState E) (key : Bytes) (current now leeway : ℕ) : Lookup E :=
  match c.find key with
  | none => .miss
  | some entry =>
    if entry.verifiedAgainst ≠ current then .miss
    else match checkTime entry.claims.exp entry.claims.nbf now leeway with
      | .error e => .invalid e
      | .ok _ => .hit entry.claims

def remove (c : CacheState E) (key : Bytes) : CacheState E :=
  if key ∈ c.keys then ⟨c.map.filter (·.1 ≠ key), c.order.filter (· ≠ key)⟩ else c

/-- The loop that drops the oldest entries until there is room. -/
def evict (map : List (Bytes × Entry E)) : List Bytes → CacheState E
  | [] => ⟨map, []⟩
  | oldest :: rest =>
    if cacheCapacity ≤ map.length then evict (map.filter (·.1 ≠ oldest)) rest
    else ⟨map, oldest :: rest⟩

/-- The entries that have not expired, and their places in the order. -/
def retain (c : CacheState E) (now leeway : ℕ) : CacheState E :=
  let map := c.map.filter fun p => now - leeway < p.2.claims.exp
  ⟨map, c.order.filter (· ∈ map.map Prod.fst)⟩

def makeRoom (c : CacheState E) (now leeway : ℕ) : CacheState E :=
  if cacheCapacity ≤ c.map.length then
    evict (c.retain now leeway).map (c.retain now leeway).order
  else c

def insert (c : CacheState E) (key : Bytes) (entry : Entry E) (now leeway : ℕ) : CacheState E :=
  if key ∈ c.keys then
    { c with map := c.map.map fun p => if p.1 = key then (key, entry) else p }
  else
    let c := c.makeRoom now leeway
    ⟨c.map ++ [(key, entry)], c.order ++ [key]⟩

/-- Map and order hold the same keys, each once, and not too many. -/
structure Consistent (c : CacheState E) : Prop where
  keys : c.keys.Nodup
  order : c.order.Nodup
  same : ∀ key, key ∈ c.order ↔ key ∈ c.keys
  size : c.map.length ≤ cacheCapacity

theorem keys_filter (c : CacheState E) (p : Bytes → Bool) :
    (c.map.filter fun e => p e.1).map Prod.fst = c.keys.filter p := by
  rw [keys, List.filter_map]
  rfl

theorem remove_consistent {c : CacheState E} (h : c.Consistent) (key : Bytes) :
    (c.remove key).Consistent := by
  unfold remove
  split_ifs with hkey
  · have hkeys : (CacheState.mk (c.map.filter (·.1 ≠ key)) (c.order.filter (· ≠ key))).keys =
        c.keys.filter (· ≠ key) := c.keys_filter (fun k => decide (k ≠ key))
    refine ⟨?_, h.order.filter _, ?_, ?_⟩
    · rw [hkeys]
      exact h.keys.filter _
    · intro k
      rw [hkeys, List.mem_filter, List.mem_filter, h.same]
    · exact Nat.le_trans (List.length_filter_le _ _) h.size
  · exact h

theorem evict_consistent {map : List (Bytes × Entry E)} {order : List Bytes}
    (hkeys : (map.map Prod.fst).Nodup) (horder : order.Nodup)
    (hsame : ∀ key, key ∈ order ↔ key ∈ map.map Prod.fst) :
    (evict map order).Consistent ∧ (evict map order).map.length < cacheCapacity ∧
      ∀ p ∈ (evict map order).map, p ∈ map := by
  induction order generalizing map with
  | nil =>
    have hnil : map = [] := by
      cases map with
      | nil => rfl
      | cons p rest =>
        have := (hsame p.1).mpr List.mem_cons_self
        cases this
    subst hnil
    exact ⟨⟨List.nodup_nil, List.nodup_nil, hsame, Nat.zero_le _⟩, Nat.succ_pos _, fun p hp => hp⟩
  | cons oldest rest ih =>
    rw [evict]
    split_ifs with hfull
    · have hfilter : (map.filter (·.1 ≠ oldest)).map Prod.fst =
          (map.map Prod.fst).filter (· ≠ oldest) :=
        (CacheState.mk map []).keys_filter (fun k => decide (k ≠ oldest))
      obtain ⟨hnot, hrest⟩ := List.nodup_cons.mp horder
      have hsame' : ∀ key, key ∈ rest ↔ key ∈ (map.filter (·.1 ≠ oldest)).map Prod.fst := by
        intro key
        rw [hfilter, List.mem_filter, ← hsame, List.mem_cons]
        by_cases hold : key = oldest
        · subst hold
          simpa using hnot
        · simp [hold]
      obtain ⟨hcons, hlt, hsub⟩ := ih (hfilter ▸ hkeys.filter _) hrest hsame'
      exact ⟨hcons, hlt, fun p hp => (List.mem_filter.mp (hsub p hp)).1⟩
    · exact ⟨⟨hkeys, horder, hsame, Nat.le_of_not_le hfull⟩, Nat.lt_of_not_le hfull, fun p hp => hp⟩

theorem makeRoom_consistent {c : CacheState E} (h : c.Consistent) (now leeway : ℕ) :
    (c.makeRoom now leeway).Consistent ∧ (c.makeRoom now leeway).map.length < cacheCapacity ∧
      ∀ p ∈ (c.makeRoom now leeway).map, p ∈ c.map := by
  unfold makeRoom
  split_ifs with hfull
  · have hsub : (c.retain now leeway).map.Sublist c.map := List.filter_sublist
    have hkeys : ((c.retain now leeway).map.map Prod.fst).Nodup := h.keys.sublist (hsub.map _)
    have hsame : ∀ key, key ∈ (c.retain now leeway).order ↔
        key ∈ (c.retain now leeway).map.map Prod.fst := by
      intro key
      have hmem : key ∈ (c.retain now leeway).map.map Prod.fst → key ∈ c.order := fun hmem =>
        (h.same key).mpr ((hsub.map _).subset hmem)
      change key ∈ c.order.filter (· ∈ (c.retain now leeway).map.map Prod.fst) ↔ _
      rw [List.mem_filter, decide_eq_true_eq]
      exact ⟨fun hk => hk.2, fun hk => ⟨hmem hk, hk⟩⟩
    obtain ⟨hcons, hlt, hmem⟩ := evict_consistent hkeys (h.order.filter _) hsame
    exact ⟨hcons, hlt, fun p hp => hsub.subset (hmem p hp)⟩
  · exact ⟨h, Nat.lt_of_not_le hfull, fun p hp => hp⟩

theorem insert_consistent {c : CacheState E} (h : c.Consistent) (key : Bytes) (entry : Entry E)
    (now leeway : ℕ) : (c.insert key entry now leeway).Consistent := by
  unfold insert
  split_ifs with hkey
  · have hkeys : (CacheState.mk (c.map.map fun p => if p.1 = key then (key, entry) else p)
        c.order).keys = c.keys := by
      rw [keys, keys, List.map_map]
      apply List.map_congr_left
      intro p hp
      by_cases hp : p.1 = key <;> simp [hp]
    exact ⟨hkeys ▸ h.keys, h.order, fun k => hkeys ▸ h.same k, by simpa using h.size⟩
  · obtain ⟨hroom, hlt, hmem⟩ := makeRoom_consistent h now leeway
    have hfresh : key ∉ (c.makeRoom now leeway).keys := by
      intro hk
      obtain ⟨p, hp, rfl⟩ := List.mem_map.mp hk
      exact hkey (List.mem_map_of_mem (hmem p hp))
    have hkeys : (CacheState.mk ((c.makeRoom now leeway).map ++ [(key, entry)])
        ((c.makeRoom now leeway).order ++ [key])).keys = (c.makeRoom now leeway).keys ++ [key] := by
      rw [keys, List.map_append]
      rfl
    refine ⟨?_, ?_, ?_, ?_⟩
    · rw [hkeys]
      exact List.nodup_append.mpr ⟨hroom.keys, List.nodup_singleton key, by
        rintro a ha b hb rfl
        exact hfresh (List.mem_singleton.mp hb ▸ ha)⟩
    · refine List.nodup_append.mpr ⟨hroom.order, List.nodup_singleton key, ?_⟩
      rintro a ha b hb rfl
      exact hfresh ((hroom.same key).mp (List.mem_singleton.mp hb ▸ ha))
    · intro k
      rw [hkeys, List.mem_append, List.mem_append, hroom.same]
    · change ((c.makeRoom now leeway).map ++ [(key, entry)]).length ≤ cacheCapacity
      rw [List.length_append, List.length_singleton]
      exact hlt

theorem mem_insert {c : CacheState E} (h : c.Consistent) {key : Bytes} {entry : Entry E}
    {now leeway : ℕ} {p : Bytes × Entry E} (hp : p ∈ (c.insert key entry now leeway).map) :
    p ∈ c.map ∨ p = (key, entry) := by
  unfold insert at hp
  split_ifs at hp with hkey
  · obtain ⟨q, hq, rfl⟩ := List.mem_map.mp hp
    by_cases hqk : q.1 = key
    · simp [hqk]
    · simp [hqk, hq]
  · rcases List.mem_append.mp hp with hp | hp
    · exact .inl ((makeRoom_consistent h now leeway).2.2 p hp)
    · exact .inr (List.mem_singleton.mp hp)

theorem mem_remove {c : CacheState E} {key : Bytes} {p : Bytes × Entry E}
    (hp : p ∈ (c.remove key).map) : p ∈ c.map := by
  unfold remove at hp
  split_ifs at hp
  · exact (List.mem_filter.mp hp).1
  · exact hp

theorem mem_of_find {c : CacheState E} {key : Bytes} {entry : Entry E}
    (h : c.find key = some entry) : (key, entry) ∈ c.map := by
  obtain ⟨p, hp, rfl⟩ := Option.map_eq_some_iff.mp h
  have hkey : p.1 = key := by simpa using List.find?_some hp
  rw [← hkey]
  exact List.mem_of_find?_eq_some hp

end CacheState

inductive Call (E : Type) where
  | idle
  | snapshot (token : Bytes) (now arc : ℕ)
  | invalid (token : Bytes) (now arc : ℕ) (e : TokenError)
  | miss (token : Bytes) (now arc : ℕ)
  | removed (token : Bytes) (now arc : ℕ)
  | verified (token : Bytes) (now arc : ℕ) (claims : Claims E)
  | returned (token : Bytes) (now arc : ℕ) (result : Except TokenError (Claims E))

structure Authenticator (E : Type) where
  cache : CacheState E
  -- Every key set that was ever allocated.
  arcs : ℕ → KeySet
  -- The one that `SharedKeySet` holds.
  current : ℕ
  calls : ℕ → Call E

inductive Action where
  | set (keys : KeySet)
  | start (call : ℕ) (token : Bytes) (now : ℕ)
  | lookup (call : ℕ)
  | remove (call : ℕ)
  | verify (call : ℕ)
  | insert (call : ℕ)

section
variable {E : Type} (x : Externals) (extra : Bytes → Option E) (policy : JwtPolicy)

namespace Authenticator

def new (keys : KeySet) : Authenticator E := ⟨⟨[], []⟩, fun _ => keys, 0, fun _ => .idle⟩

def setCall (s : Authenticator E) (i : ℕ) (c : Call E) : Authenticator E :=
  { s with calls := Function.update s.calls i c }

def step (s : Authenticator E) : Action → Option (Authenticator E)
  | .set keys =>
    some { s with arcs := Function.update s.arcs (s.current + 1) keys, current := s.current + 1 }
  | .start i token now =>
    match s.calls i with
    | .idle => some (s.setCall i (.snapshot token now s.current))
    | _ => none
  | .lookup i =>
    match s.calls i with
    | .snapshot token now arc =>
      some (s.setCall i (match s.cache.get (x.sha256 token) arc now policy.clockSkew with
        | .hit claims => .returned token now arc (.ok claims)
        | .invalid e => .invalid token now arc e
        | .miss => .miss token now arc))
    | _ => none
  | .remove i =>
    match s.calls i with
    | .invalid token now arc e =>
      some { s.setCall i (.returned token now arc (.error e)) with
        cache := s.cache.remove (x.sha256 token) }
    | .miss token now arc =>
      some { s.setCall i (.removed token now arc) with cache := s.cache.remove (x.sha256 token) }
    | _ => none
  | .verify i =>
    match s.calls i with
    | .removed token now arc =>
      some (s.setCall i (match JwtVerify.verify x extra token (s.arcs arc) policy now with
        | .ok claims => .verified token now arc claims
        | .error e => .returned token now arc (.error e)))
    | _ => none
  | .insert i =>
    match s.calls i with
    | .verified token now arc claims =>
      some { s.setCall i (.returned token now arc (.ok claims)) with
        cache := s.cache.insert (x.sha256 token) ⟨claims, arc⟩ now policy.clockSkew }
    | _ => none

end Authenticator

def Call.args : Call E → Option (Bytes × ℕ × ℕ)
  | .idle => none
  | .snapshot token now arc | .invalid token now arc _ | .miss token now arc
  | .removed token now arc | .verified token now arc _ | .returned token now arc _ =>
    some (token, now, arc)

def Call.knows : Call E → Option (Except TokenError (Claims E))
  | .invalid _ _ _ e => some (.error e)
  | .verified _ _ _ claims => some (.ok claims)
  | .returned _ _ _ result => some result
  | _ => none

def tokens (actions : List Action) : List Bytes :=
  actions.filterMap fun a => match a with
    | .start _ token _ => some token
    | _ => none

structure Authenticator.Invariant (known : List Bytes) (s : Authenticator E) : Prop where
  cache : s.cache.Consistent
  entries : ∀ p ∈ s.cache.map, p.2.verifiedAgainst ≤ s.current ∧ ∃ token ∈ known, ∃ now,
    p.1 = x.sha256 token ∧
      verify x extra token (s.arcs p.2.verifiedAgainst) policy now = .ok p.2.claims
  calls : ∀ i token now arc, (s.calls i).args = some (token, now, arc) →
    token ∈ known ∧ arc ≤ s.current ∧ ∀ result, (s.calls i).knows = some result →
      verify x extra token (s.arcs arc) policy now = result

variable {x extra policy}

theorem invariant_new (known : List Bytes) (keys : KeySet) :
    (Authenticator.new keys : Authenticator E).Invariant x extra policy known := by
  refine ⟨⟨List.nodup_nil, List.nodup_nil, fun _ => Iff.rfl, Nat.zero_le _⟩, ?_, ?_⟩
  · intro p hp
    cases hp
  · intro i token now arc h
    cases h

theorem Authenticator.Invariant.setCall {known : List Bytes} {s : Authenticator E}
    (h : s.Invariant x extra policy known) {i : ℕ} {c : Call E} {cache : CacheState E}
    (hcall : ∀ token now arc, c.args = some (token, now, arc) →
      token ∈ known ∧ arc ≤ s.current ∧ ∀ result, c.knows = some result →
        verify x extra token (s.arcs arc) policy now = result)
    (hcache : cache.Consistent)
    (hentries : ∀ p ∈ cache.map, p ∈ s.cache.map ∨ p.2.verifiedAgainst ≤ s.current ∧
      ∃ token ∈ known, ∃ now, p.1 = x.sha256 token ∧
        verify x extra token (s.arcs p.2.verifiedAgainst) policy now = .ok p.2.claims) :
    Authenticator.Invariant x extra policy known { s.setCall i c with cache := cache } := by
  refine ⟨hcache, ?_, ?_⟩
  · intro p hp
    rcases hentries p hp with hp | hp
    · exact h.entries p hp
    · exact hp
  · intro j token now arc hargs
    by_cases hj : j = i
    · subst hj
      have hc : ({ s.setCall j c with cache := cache } : Authenticator E).calls j = c := by
        simp [Authenticator.setCall]
      rw [hc] at hargs ⊢
      exact hcall token now arc hargs
    · have hc : ({ s.setCall i c with cache := cache } : Authenticator E).calls j = s.calls j := by
        simp [Authenticator.setCall, hj]
      rw [hc] at hargs ⊢
      exact h.calls j token now arc hargs

theorem get_eq {known : List Bytes} {s : Authenticator E} (h : s.Invariant x extra policy known)
    (hsha : ∀ a ∈ known, ∀ b ∈ known, x.sha256 a = x.sha256 b → a = b) {token : Bytes}
    (htoken : token ∈ known) (now arc : ℕ) :
    s.cache.get (x.sha256 token) arc now policy.clockSkew = .miss ∨
      ∃ claims, verify x extra token (s.arcs arc) policy now =
          (checkTime claims.exp claims.nbf now policy.clockSkew).map (fun _ => claims) ∧
        s.cache.get (x.sha256 token) arc now policy.clockSkew =
          match checkTime claims.exp claims.nbf now policy.clockSkew with
          | .error e => .invalid e
          | .ok _ => .hit claims := by
  unfold CacheState.get
  cases hfind : s.cache.find (x.sha256 token) with
  | none => exact .inl rfl
  | some entry =>
    by_cases harc : entry.verifiedAgainst ≠ arc
    · simp [harc]
    · obtain ⟨-, token', htoken', now', hkey, hverify⟩ :=
        h.entries _ (CacheState.mem_of_find hfind)
      rw [ne_eq, not_not] at harc
      subst harc
      cases hsha token htoken token' htoken' hkey
      exact .inr ⟨entry.claims, verify_at hverify now, by simp⟩

theorem invariant_lookup {known : List Bytes} {s : Authenticator E}
    (h : s.Invariant x extra policy known)
    (hsha : ∀ a ∈ known, ∀ b ∈ known, x.sha256 a = x.sha256 b → a = b) {i : ℕ} {token : Bytes}
    {now arc : ℕ} (hcall : s.calls i = .snapshot token now arc) :
    (s.setCall i (match s.cache.get (x.sha256 token) arc now policy.clockSkew with
      | .hit claims => .returned token now arc (.ok claims)
      | .invalid e => .invalid token now arc e
      | .miss => .miss token now arc)).Invariant x extra policy known := by
  obtain ⟨htoken, harc, -⟩ := h.calls i token now arc (by rw [hcall]; rfl)
  refine h.setCall ?_ h.cache (fun p hp => .inl hp)
  rcases get_eq h hsha htoken now arc with hmiss | ⟨claims, hverify, hget⟩
  · rw [hmiss]
    rintro _ _ _ ⟨⟩
    exact ⟨htoken, harc, fun _ hknows => by cases hknows⟩
  · rw [hget]
    cases hcheck : checkTime claims.exp claims.nbf now policy.clockSkew <;>
    · rw [hcheck] at hverify
      rintro _ _ _ ⟨⟩
      refine ⟨htoken, harc, ?_⟩
      rintro _ ⟨⟩
      exact hverify

theorem invariant_step {known : List Bytes} {s s' : Authenticator E} {a : Action}
    (hsha : ∀ a ∈ known, ∀ b ∈ known, x.sha256 a = x.sha256 b → a = b)
    (hknown : ∀ i token now, a = .start i token now → token ∈ known)
    (hs : s.Invariant x extra policy known) (h : s.step x extra policy a = some s') :
    s'.Invariant x extra policy known := by
  cases a with
  | set keys =>
    cases h
    have harcs : ∀ arc ≤ s.current,
        Function.update s.arcs (s.current + 1) keys arc = s.arcs arc := fun arc harc =>
      Function.update_of_ne (by omega) _ _
    refine ⟨hs.cache, ?_, ?_⟩
    · intro p hp
      obtain ⟨hle, hentry⟩ := hs.entries p hp
      refine ⟨Nat.le_succ_of_le hle, ?_⟩
      simpa only [harcs _ hle] using hentry
    · intro i token now arc hargs
      obtain ⟨htoken, hle, hresult⟩ := hs.calls i token now arc hargs
      refine ⟨htoken, Nat.le_succ_of_le hle, ?_⟩
      simpa only [harcs _ hle] using hresult
  | start i token now =>
    simp only [Authenticator.step] at h
    cases hcall : s.calls i <;> simp only [hcall] at h <;> cases h
    refine hs.setCall ?_ hs.cache (fun p hp => .inl hp)
    rintro _ _ _ ⟨⟩
    exact ⟨hknown i token now rfl, Nat.le_refl _, fun _ hknows => by cases hknows⟩
  | lookup i =>
    simp only [Authenticator.step] at h
    cases hcall : s.calls i <;> simp only [hcall] at h <;> cases h
    exact invariant_lookup hs hsha hcall
  | remove i =>
    simp only [Authenticator.step] at h
    cases hcall : s.calls i <;> simp only [hcall] at h <;> cases h <;>
      refine hs.setCall ?_ (CacheState.remove_consistent hs.cache _)
        (fun p hp => .inl (CacheState.mem_remove hp)) <;>
      have hold := hs.calls i _ _ _ (by rw [hcall]; rfl) <;>
      rintro _ _ _ ⟨⟩
    · refine ⟨hold.1, hold.2.1, ?_⟩
      rintro _ ⟨⟩
      exact hold.2.2 _ (by rw [hcall]; rfl)
    · exact ⟨hold.1, hold.2.1, fun _ hknows => by cases hknows⟩
  | verify i =>
    simp only [Authenticator.step] at h
    cases hcall : s.calls i <;> simp only [hcall] at h <;> cases h
    rename_i token now arc
    have hold := hs.calls i _ _ _ (by rw [hcall]; rfl)
    refine hs.setCall ?_ hs.cache (fun p hp => .inl hp)
    cases hverify : verify x extra token (s.arcs arc) policy now <;>
    · rintro _ _ _ ⟨⟩
      refine ⟨hold.1, hold.2.1, ?_⟩
      rintro _ ⟨⟩
      exact hverify
  | insert i =>
    simp only [Authenticator.step] at h
    cases hcall : s.calls i <;> simp only [hcall] at h <;> cases h
    rename_i token now arc claims
    obtain ⟨htoken, harc, hresult⟩ := hs.calls i _ _ _ (by rw [hcall]; rfl)
    have hverify : verify x extra token (s.arcs arc) policy now = .ok claims :=
      hresult _ (by rw [hcall]; rfl)
    refine hs.setCall ?_ (CacheState.insert_consistent hs.cache _ _ _ _) ?_
    · rintro _ _ _ ⟨⟩
      refine ⟨htoken, harc, ?_⟩
      rintro _ ⟨⟩
      exact hverify
    · intro p hp
      rcases CacheState.mem_insert hs.cache hp with hp | rfl
      · exact .inl hp
      · exact .inr ⟨harc, token, htoken, now, rfl, hverify⟩

theorem args_step {s s' : Authenticator E} {a : Action} (h : s.step x extra policy a = some s') :
    (s.current ≤ s'.current ∧ ∀ arc ≤ s.current, s'.arcs arc = s.arcs arc) ∧
      ∀ i, (s.calls i).args ≠ none → (s'.calls i).args = (s.calls i).args := by
  have hset : ∀ {i : ℕ} {c : Call E}, c.args = (s.calls i).args ∨ (s.calls i).args = none →
      ∀ j, (s.calls j).args ≠ none → (Function.update s.calls i c j).args = (s.calls j).args := by
    intro i c hc j hj
    by_cases hij : j = i
    · subst hij
      rw [Function.update_self]
      exact hc.resolve_right hj
    · rw [Function.update_of_ne hij]
  have hkeep : s.current ≤ s.current ∧ ∀ arc ≤ s.current, s.arcs arc = s.arcs arc :=
    ⟨Nat.le_refl _, fun _ _ => rfl⟩
  cases a with
  | set keys =>
    cases h
    exact ⟨⟨Nat.le_succ _, fun arc harc => Function.update_of_ne (by omega) _ _⟩, fun _ _ => rfl⟩
  | start i token now =>
    simp only [Authenticator.step] at h
    cases hcall : s.calls i <;> simp only [hcall] at h <;> cases h
    exact ⟨hkeep, hset (.inr (by rw [hcall]; rfl))⟩
  | lookup i =>
    simp only [Authenticator.step] at h
    cases hcall : s.calls i <;> simp only [hcall] at h <;> cases h
    refine ⟨hkeep, hset (.inl ?_)⟩
    rw [hcall]
    split <;> rfl
  | remove i =>
    simp only [Authenticator.step] at h
    cases hcall : s.calls i <;> simp only [hcall] at h <;> cases h <;>
      exact ⟨hkeep, hset (.inl (by rw [hcall]; rfl))⟩
  | verify i =>
    simp only [Authenticator.step] at h
    cases hcall : s.calls i <;> simp only [hcall] at h <;> cases h
    refine ⟨hkeep, hset (.inl ?_)⟩
    rw [hcall]
    split <;> rfl
  | insert i =>
    simp only [Authenticator.step] at h
    cases hcall : s.calls i <;> simp only [hcall] at h <;> cases h
    exact ⟨hkeep, hset (.inl (by rw [hcall]; rfl))⟩

theorem args_run {s s' : Authenticator E} {actions : List Action} {i : ℕ}
    (h : run (Authenticator.step x extra policy) actions s = some s')
    (hargs : (s.calls i).args ≠ none) :
    (s.current ≤ s'.current ∧ ∀ arc ≤ s.current, s'.arcs arc = s.arcs arc) ∧
      (s'.calls i).args = (s.calls i).args := by
  refine run_invariant (fun t : Authenticator E =>
    (s.current ≤ t.current ∧ ∀ arc ≤ s.current, t.arcs arc = s.arcs arc) ∧
      (t.calls i).args = (s.calls i).args) ?_ ⟨⟨Nat.le_refl _, fun _ _ => rfl⟩, rfl⟩ h
  rintro _ - t t' ⟨⟨hcurrent, harcs⟩, hargs'⟩ hstep
  obtain ⟨⟨hle, hkeep⟩, hcalls⟩ := args_step hstep
  refine ⟨⟨Nat.le_trans hcurrent hle, fun arc harc => ?_⟩, ?_⟩
  · rw [hkeep arc (Nat.le_trans harc hcurrent), harcs arc harc]
  · rw [hcalls i (hargs' ▸ hargs), hargs']

theorem mem_tokens {actions : List Action} {i : ℕ} {token : Bytes} {now : ℕ}
    (h : Action.start i token now ∈ actions) : token ∈ tokens actions :=
  List.mem_filterMap.mpr ⟨_, h, rfl⟩

theorem invariant_run {known : List Bytes} {s s' : Authenticator E} {actions : List Action}
    (hsha : ∀ a ∈ known, ∀ b ∈ known, x.sha256 a = x.sha256 b → a = b)
    (hknown : tokens actions ⊆ known) (hs : s.Invariant x extra policy known)
    (h : run (Authenticator.step x extra policy) actions s = some s') :
    s'.Invariant x extra policy known :=
  run_invariant (fun t : Authenticator E => t.Invariant x extra policy known)
    (fun _ ha _ _ hinv hstep => invariant_step hsha
      (fun _ _ _ heq => hknown (mem_tokens (heq ▸ ha))) hinv hstep) hs h

/-- A call gives what `verify` gives for its own time and for the key set in force when it
started, whatever the cache holds and whatever the other calls do. -/
theorem verify_token_cached_eq_verify {keys : KeySet} {before after : List Action}
    {s s' : Authenticator E} {i : ℕ} {token : Bytes} {now : ℕ}
    (hsha : ∀ a ∈ tokens (before ++ .start i token now :: after),
      ∀ b ∈ tokens (before ++ .start i token now :: after), x.sha256 a = x.sha256 b → a = b)
    (hbefore : run (Authenticator.step x extra policy) before (.new keys) = some s)
    (hafter : run (Authenticator.step x extra policy) (.start i token now :: after) s = some s') :
    (∀ token' now' arc result, s'.calls i = .returned token' now' arc result →
        result = verify x extra token (s.arcs s.current) policy now) ∧
      s'.cache.map.length ≤ cacheCapacity ∧ s'.cache.keys.Nodup ∧ s'.cache.order.Nodup ∧
      ∀ key, key ∈ s'.cache.order ↔ key ∈ s'.cache.keys := by
  have hsplit : tokens (before ++ .start i token now :: after) =
      tokens before ++ tokens (.start i token now :: after) := List.filterMap_append
  have hs := invariant_run hsha (hsplit ▸ List.subset_append_left _ _)
    (invariant_new _ keys) hbefore
  have hs' := invariant_run hsha (hsplit ▸ List.subset_append_right _ _) hs hafter
  obtain ⟨t, hstart, hrest⟩ := run_cons hafter
  refine ⟨?_, hs'.cache.size, hs'.cache.keys, hs'.cache.order, hs'.cache.same⟩
  intro token' now' arc result hreturned
  -- the call still has the arguments and the key set that it started with
  have hargs : (t.calls i).args = some (token, now, s.current) ∧ t.arcs = s.arcs ∧
      t.current = s.current := by
    simp only [Authenticator.step] at hstart
    cases hcall : s.calls i <;> simp only [hcall] at hstart <;> cases hstart
    simp [Authenticator.setCall, Call.args]
  obtain ⟨⟨-, harcs⟩, hkept⟩ := args_run hrest (by rw [hargs.1]; simp)
  rw [hreturned, hargs.1] at hkept
  cases hkept
  have hresult := (hs'.calls i token now s.current (by rw [hreturned]; rfl)).2.2 result
    (by rw [hreturned]; rfl)
  rw [harcs _ (Nat.le_of_eq hargs.2.2.symm), hargs.2.1] at hresult
  exact hresult.symm

end

/-- A token signed with ES256: header, payload and signature as they are sent. -/
def sampleToken : Bytes :=
  ascii "eyJhbGciOiJFUzI1NiIsInR5cCI6ImF0K2p3dCIsImtpZCI6ImsifQ" ++ 46 ::
    ascii "eyJpc3MiOiJpIiwiYXVkIjoiYSIsImV4cCI6MjAwfQ" ++ 46 ::
    ascii "bWnKhzneKY2T_KvkX5_u3TH-8K8iFfYufEZ1kiV-ishZMCGUjJ7ptfEAEhKlnMBn2IT4ImO-eN8g8WQjIerhFw"

def samplePoint : Bytes :=
  [4, 152, 182, 201, 170, 23, 149, 120, 104, 120, 213, 249, 114, 164, 195, 111, 226, 98, 125,
   154, 126, 5, 183, 179, 130, 22, 216, 214, 230, 47, 55, 71, 216, 202, 158, 95, 35, 166,
   202, 188, 109, 31, 225, 98, 32, 36, 59, 69, 138, 223, 11, 223, 100, 53, 166, 181, 243,
   219, 97, 23, 198, 147, 192, 210, 224]

def sampleSignature : Bytes :=
  [109, 105, 202, 135, 57, 222, 41, 141, 147, 252, 171, 228, 95, 159, 238, 221, 49, 254, 240,
   175, 34, 21, 246, 46, 124, 70, 117, 146, 37, 126, 138, 200, 89, 48, 33, 148, 140, 158,
   233, 181, 241, 0, 18, 18, 165, 156, 192, 103, 216, 132, 248, 34, 99, 190, 120, 223, 32,
   241, 100, 35, 33, 234, 225, 23]

def sampleHeader : Bytes := ascii "\x7b\"alg\":\"ES256\",\"typ\":\"at+jwt\",\"kid\":\"k\"\x7d"

def samplePayload : Bytes := ascii "\x7b\"iss\":\"i\",\"aud\":\"a\",\"exp\":200\x7d"

def sampleExternals : Externals where
  encode := fun _ => []
  decode := fun s =>
    if s = ascii "eyJhbGciOiJFUzI1NiIsInR5cCI6ImF0K2p3dCIsImtpZCI6ImsifQ" then some sampleHeader
    else if s = ascii "eyJpc3MiOiJpIiwiYXVkIjoiYSIsImV4cCI6MjAwfQ" then some samplePayload
    else if s = ascii
      "bWnKhzneKY2T_KvkX5_u3TH-8K8iFfYufEZ1kiV-ishZMCGUjJ7ptfEAEhKlnMBn2IT4ImO-eN8g8WQjIerhFw" then
      some sampleSignature
    else none
  sha256 := fun s =>
    if s = sampleToken then
      [139, 220, 202, 170, 210, 30, 210, 24, 12, 67, 22, 195, 15, 44, 86, 76, 139, 95, 60, 109,
       237, 218, 116, 6, 32, 199, 101, 45, 21, 138, 180, 252]
    else []
  rsaVerify := fun _ _ _ _ => false
  ecdsaVerify := fun point msg sig =>
    decide (point = samplePoint ∧ msg = sampleToken.take 97 ∧ sig = sampleSignature)
  json := fun s =>
    if s = sampleHeader then
      some (.object [(ascii "alg", .string (ascii "ES256")), (ascii "typ", .string (ascii "at+jwt")),
        (ascii "kid", .string (ascii "k"))])
    else if s = samplePayload then
      some (.object [(ascii "iss", .string (ascii "i")), (ascii "aud", .string (ascii "a")),
        (ascii "exp", .natural 200)])
    else none

def samplePolicy : JwtPolicy := ⟨ascii "i", [ascii "a"], [.es256], .accessToken, 0⟩

def sampleKeys : KeySet := [⟨ascii "k", .es256, .ecP256 samplePoint⟩]

def sampleClaims : Claims Unit :=
  ⟨ascii "i", none, [ascii "a"], 200, none, none, none, none, none, .absent, ()⟩

set_option maxRecDepth 20000 in
/-- The first call fills the cache and the keys are replaced; the second call, started before,
hits the entry of the old keys. -/
theorem verify_token_cached_eq_verify_hit :
    ∃ s s', run (Authenticator.step sampleExternals (fun _ => some ()) samplePolicy)
        [.start 0 sampleToken 100, .lookup 0, .remove 0, .verify 0, .insert 0]
        (.new sampleKeys) = some s ∧
      run (Authenticator.step sampleExternals (fun _ => some ()) samplePolicy)
        [.start 1 sampleToken 150, .set [], .lookup 1] s = some s' ∧
      s'.calls 1 = .returned sampleToken 150 0 (.ok sampleClaims) ∧ s'.cache.keys.length = 1 ∧
      .ok sampleClaims = verify sampleExternals (fun _ => some ()) sampleToken (s.arcs s.current)
        samplePolicy 150 := by
  refine ⟨_, _, rfl, rfl, rfl, rfl, ?_⟩
  refine (verify_token_cached_eq_verify ?_
    (show run (Authenticator.step sampleExternals (fun _ => some ()) samplePolicy)
      [.start 0 sampleToken 100, .lookup 0, .remove 0, .verify 0, .insert 0]
      (.new sampleKeys) = some _ from rfl)
    (show run (Authenticator.step sampleExternals (fun _ => some ()) samplePolicy)
      [.start 1 sampleToken 150, .set [], .lookup 1] _ = some _ from rfl)).1 _ _ _ _ rfl
  intro a ha b hb _
  simp only [tokens] at ha hb
  simp_all

end FandheBackend.JwtTokenCache
