import FandheBackend.HttpRequestHead
import FandheBackend.JwtDpopReplay
import FandheBackend.JwtTokenCache

set_option autoImplicit false

/-!
# The authenticator with DPoP (`crates/plugin-jwt/src/auth.rs`)

`authenticate_dpop` from the headers of a request to its claims. The checks run in a fixed
order, and the replay store is touched by the last one only.
-/
namespace FandheBackend.JwtAuthenticator
open StdBytes ActionRuns ExceptChecks HttpRequestHead JwtVerify JwtTokenCache JwtDpopOrigin
open JwtDpopProof JwtDpopReplay

inductive Scheme where
  | bearer
  | dpop
  deriving DecidableEq, Repr

def Scheme.name : Scheme → Bytes
  | .bearer => ascii "bearer"
  | .dpop => ascii "dpop"

inductive DpopMode where
  | required
  | allowUnboundBearer
  deriving DecidableEq, Repr

structure DpopConfig where
  mode : DpopMode
  origin : PublicOrigin
  algs : List Algorithm
  window : IatWindow

inductive VerifyError where
  | token (e : TokenError)
  | dpop (e : DpopError)
  deriving DecidableEq, Repr

def headersNamed {TypeId : Type} {Ext : TypeId → Type} (head : RequestHead Ext) (name : String) :
    List (Bytes × Bytes) :=
  head.headers.filter fun h => eqIgnoreAsciiCase h.1 (ascii name)

section
variable {TypeId : Type} {Ext : TypeId → Type}

/-- The scheme and the credentials of the only `Authorization` header. -/
def authorization (head : RequestHead Ext) : Option (Bytes × Bytes) :=
  match headersNamed head "authorization" with
  | [(_, value)] => do
    let schemeEnd ← value.findIdx? (· == 32)
    let token := (value.drop schemeEnd).dropWhile (· == 32)
    if token = [] then none else some (value.take schemeEnd, token)
  | _ => none

def credentials (head : RequestHead Ext) : Option (Scheme × Bytes) := do
  let (scheme, token) ← authorization head
  if eqIgnoreAsciiCase scheme Scheme.bearer.name then some (.bearer, token)
  else if eqIgnoreAsciiCase scheme Scheme.dpop.name then some (.dpop, token)
  else none

def proofHeader (head : RequestHead Ext) : Except DpopError Bytes :=
  match headersNamed head "dpop" with
  | [] => .error .missingProof
  | [(_, proof)] => .ok proof
  | _ => .error .multipleProofs

end

def isThumbprintShape (s : Bytes) : Bool :=
  s.length == 43 && s.all fun b => isAsciiAlphanumeric b || b == 45 || b == 95

def confirmedKey {E : Type} (claims : Claims E) : Except VerifyError (Option Bytes) :=
  match claims.cnf with
  | .absent => .ok none
  | .jkt j => if isThumbprintShape j then .ok (some j) else .error (.token .malformed)
  | .unusable => .error (.token .malformed)

section
variable {TypeId : Type} {Ext : TypeId → Type} {E : Type}
variable (x : Externals) (extra : Bytes → Option E) (policy : JwtPolicy)

/-- A call of `verify_token_cached` that no other call comes between. -/
def verifyTokenCached (auth : Authenticator E) (token : Bytes) (now : ℕ) :
    Except TokenError (Claims E) × Authenticator E :=
  let key := x.sha256 token
  match auth.cache.get key auth.current now policy.clockSkew with
  | .hit claims => (.ok claims, auth)
  | .invalid e => (.error e, { auth with cache := auth.cache.remove key })
  | .miss =>
    let cache := auth.cache.remove key
    match verify x extra token (auth.arcs auth.current) policy now with
    | .error e => (.error e, { auth with cache := cache })
    | .ok claims => (.ok claims,
        { auth with cache := cache.insert key ⟨claims, auth.current⟩ now policy.clockSkew })

def verifyRequestProof (d : DpopConfig) (head : RequestHead Ext) (token jkt : Bytes) (now : ℕ) :
    Except DpopError VerifiedProof := do
  let proof ← proofHeader head
  let htu ← orError .invalidRequestTarget (d.origin.expectedHtu head.path)
  let verified ← verifyProof x proof ⟨head.method, htu, token, d.algs, d.window⟩ now
  rejectIf (verified.thumbprint ≠ jkt) .thumbprintMismatch
  return verified

/-- What follows the verification of the token: the proof to register, or `none` for a token
that needs no proof. -/
def proofToRegister (d : DpopConfig) (head : RequestHead Ext) (scheme : Scheme) (token : Bytes)
    (claims : Claims E) (now : ℕ) : Except VerifyError (Option VerifiedProof) := do
  let jkt ← confirmedKey claims
  match scheme, jkt, d.mode with
  | .bearer, some _, _ => .error (.dpop .boundTokenAsBearer)
  | .bearer, none, .allowUnboundBearer => .ok none
  | .bearer, none, .required => .error (.dpop .unboundToken)
  | .dpop, none, _ => .error (.dpop .unboundToken)
  | .dpop, some jkt, _ =>
    match verifyRequestProof x d head token jkt now with
    | .ok verified => .ok (some verified)
    | .error e => .error (.dpop e)

structure Outcome (E : Type) where
  result : Except VerifyError (Claims E)
  auth : Authenticator E
  replay : ReplayStore

def authenticateDpop (d : DpopConfig) (auth : Authenticator E) (replay : ReplayStore)
    (head : RequestHead Ext) (now : ℕ) : Outcome E :=
  match credentials head with
  | none => ⟨.error (.token .missingToken), auth, replay⟩
  | some (scheme, token) =>
    match verifyTokenCached x extra policy auth token now with
    | (.error e, auth) => ⟨.error (.token e), auth, replay⟩
    | (.ok claims, auth) =>
      match proofToRegister x d head scheme token claims now with
      | .error e => ⟨.error e, auth, replay⟩
      | .ok none => ⟨.ok claims, auth, replay⟩
      | .ok (some verified) =>
        match replay.register x verified now with
        | (.error e, replay) => ⟨.error (.dpop e), auth, replay⟩
        | (.ok _, replay) => ⟨.ok claims, auth, replay⟩

def presented (head : RequestHead Ext) : List Bytes := (credentials head).toList.map Prod.snd

def Authorized (head : RequestHead Ext) (scheme token : Bytes) : Prop :=
  ∃ name n, headersNamed head "authorization" =
      [(name, scheme ++ (List.replicate (n + 1) 32 ++ token))] ∧ 32 ∉ scheme ∧ token ≠ []

/-- A request with a token that is not bound to a key, where the mode lets it through. -/
def UnboundBearer (d : DpopConfig) (keys : KeySet) (head : RequestHead Ext) (now : ℕ)
    (claims : Claims E) : Prop :=
  d.mode = .allowUnboundBearer ∧ ∃ scheme token, Authorized head scheme token ∧
    eqIgnoreAsciiCase scheme Scheme.bearer.name = true ∧
    verify x extra token keys policy now = .ok claims ∧ NoCnf x token

/-- A request with a bound token and a fresh proof with the key of the token. -/
structure BoundRequest (d : DpopConfig) (keys : KeySet) (store : ReplayStore)
    (head : RequestHead Ext) (now : ℕ) (claims : Claims E) (token proof jkt : Bytes)
    (v : VerifiedProof) : Prop where
  authorized : ∃ scheme, Authorized head scheme token ∧
    eqIgnoreAsciiCase scheme Scheme.dpop.name = true
  verified : verify x extra token keys policy now = .ok claims
  bound : CnfJkt x token jkt
  shape : isThumbprintShape jkt = true
  header : ∃ name, headersNamed head "dpop" = [(name, proof)]
  signed : ∃ key proofClaims htu uri, SignedProof x d.algs proof key proofClaims ∧
    rfc7638Thumbprint x key = jkt ∧
    proofClaims.all = some (v.jti, head.method, htu, v.iat, x.encode (x.sha256 token)) ∧
    d.origin.expectedHtu head.path = some uri ∧ normalizeProofHtu htu = some uri
  window : inWindow d.window v.iat now
  fresh : ∀ exp, (replayKey x jkt v.jti, exp) ∈ store.state.map → exp < now

variable {x extra policy}

theorem takeWhile_eq_replicate (b : UInt8) (s : Bytes) :
    s.takeWhile (· == b) = List.replicate (s.takeWhile (· == b)).length b := by
  apply List.eq_replicate_iff.mpr
  refine ⟨rfl, fun c hc => ?_⟩
  simpa using List.mem_takeWhile_imp hc

theorem authorized_of_authorization {head : RequestHead Ext} {scheme token : Bytes}
    (h : authorization head = some (scheme, token)) : Authorized head scheme token := by
  unfold authorization at h
  split at h
  · next name value hone =>
    obtain ⟨i, hi, h⟩ := Option.bind_eq_some_iff.mp h
    dsimp only at h
    split_ifs at h with htoken
    cases h
    obtain ⟨hlt, hspace, hbefore⟩ := List.findIdx?_eq_some_iff_getElem.mp hi
    -- the value is the scheme, at least one space, and the rest
    have hdrop : value.drop i = 32 :: value.drop (i + 1) := by
      rw [List.drop_eq_getElem_cons hlt, beq_iff_eq.mp hspace]
    have hsplit : value.drop i =
        List.replicate (((value.drop (i + 1)).takeWhile (· == 32)).length + 1) 32 ++
          (value.drop i).dropWhile (· == 32) := by
      conv_lhs => rw [← List.takeWhile_append_dropWhile (p := (· == 32)) (l := value.drop i)]
      rw [hdrop, List.takeWhile_cons_of_pos (by simp), takeWhile_eq_replicate]
      simp [List.replicate_succ]
    refine ⟨name, ((value.drop (i + 1)).takeWhile (· == 32)).length, ?_, ?_, htoken⟩
    · rw [← hsplit, List.take_append_drop]
      exact hone
    · intro hmem
      obtain ⟨j, hj, heq⟩ := List.mem_take_iff_getElem.mp hmem
      have hji : j < i := by omega
      exact absurd (beq_iff_eq.mpr heq) (hbefore j hji)
  · cases h

theorem credentials_eq_some {head : RequestHead Ext} {scheme : Scheme} {token : Bytes}
    (h : credentials head = some (scheme, token)) :
    ∃ text, Authorized head text token ∧ eqIgnoreAsciiCase text scheme.name = true := by
  unfold credentials at h
  obtain ⟨⟨text, token'⟩, hauth, h⟩ := Option.bind_eq_some_iff.mp h
  dsimp only at h
  split_ifs at h with hbearer hdpop <;> cases h
  · exact ⟨text, authorized_of_authorization hauth, hbearer⟩
  · exact ⟨text, authorized_of_authorization hauth, hdpop⟩

/-- The cache does not change what the token is worth. -/
theorem verifyTokenCached_eq {known : List Bytes} {auth : Authenticator E}
    (h : auth.Invariant x extra policy known)
    (hsha : ∀ a ∈ known, ∀ b ∈ known, x.sha256 a = x.sha256 b → a = b) {token : Bytes}
    (htoken : token ∈ known) (now : ℕ) :
    (verifyTokenCached x extra policy auth token now).1 =
      verify x extra token (auth.arcs auth.current) policy now := by
  unfold verifyTokenCached
  rcases get_eq h hsha htoken now auth.current with hmiss | ⟨claims, hverify, hget⟩
  · dsimp only
    rw [hmiss]
    cases hresult : verify x extra token (auth.arcs auth.current) policy now <;> simp
  · dsimp only
    rw [hget, hverify]
    cases checkTime claims.exp claims.nbf now policy.clockSkew <;> rfl

theorem verifyRequestProof_eq_ok {d : DpopConfig} {head : RequestHead Ext} {token jkt : Bytes}
    {now : ℕ} {v : VerifiedProof} (h : verifyRequestProof x d head token jkt now = .ok v) :
    v.thumbprint = jkt ∧ inWindow d.window v.iat now ∧
      ∃ proof, (∃ name, headersNamed head "dpop" = [(name, proof)]) ∧
        ∃ key proofClaims htu uri, SignedProof x d.algs proof key proofClaims ∧
          rfc7638Thumbprint x key = jkt ∧
          proofClaims.all = some (v.jti, head.method, htu, v.iat, x.encode (x.sha256 token)) ∧
          d.origin.expectedHtu head.path = some uri ∧ normalizeProofHtu htu = some uri := by
  unfold verifyRequestProof at h
  obtain ⟨proof, hproof, h⟩ := bind_eq_ok.mp h
  obtain ⟨uri, huri, h⟩ := orError_bind_eq_ok.mp h
  obtain ⟨verified, hverified, h⟩ := bind_eq_ok.mp h
  obtain ⟨hthumbprint, h⟩ := rejectIf_bind_eq_ok.mp h
  cases h
  rw [not_not] at hthumbprint
  obtain ⟨claims, htu, hsignature, hall, hnormal, hwindow⟩ := verifyProof_eq_ok hverified
  obtain ⟨key, hsigned, hkey⟩ := verifyProofSignature_eq_ok hsignature
  have hheader : ∃ name, headersNamed head "dpop" = [(name, proof)] := by
    unfold proofHeader at hproof
    split at hproof
    · cases hproof
    · next name proof' hone =>
      cases hproof
      exact ⟨name, hone⟩
    · cases hproof
  exact ⟨hthumbprint, hwindow, proof, hheader, key, claims, htu, uri, hsigned,
    hkey.trans hthumbprint, hall, huri, hnormal⟩

theorem proofToRegister_eq_ok {d : DpopConfig} {head : RequestHead Ext} {scheme : Scheme}
    {token : Bytes} {claims : Claims E} {now : ℕ} {o : Option VerifiedProof}
    (h : proofToRegister x d head scheme token claims now = .ok o) :
    (scheme = .bearer ∧ claims.cnf = .absent ∧ d.mode = .allowUnboundBearer ∧ o = none) ∨
      ∃ jkt v, scheme = .dpop ∧ claims.cnf = .jkt jkt ∧ isThumbprintShape jkt = true ∧ o = some v ∧
        verifyRequestProof x d head token jkt now = .ok v := by
  unfold proofToRegister at h
  obtain ⟨jkt, hjkt, h⟩ := bind_eq_ok.mp h
  unfold confirmedKey at hjkt
  split at hjkt
  · next hcnf =>
    cases hjkt
    cases scheme <;> cases hmode : d.mode <;> simp only [hmode] at h <;> cases h
    exact .inl ⟨rfl, hcnf, rfl, rfl⟩
  · next j hcnf =>
    split_ifs at hjkt with hshape
    cases hjkt
    cases scheme with
    | bearer => cases h
    | dpop =>
      dsimp only at h
      cases hproof : verifyRequestProof x d head token j now with
      | error e =>
        rw [hproof] at h
        cases h
      | ok v =>
        rw [hproof] at h
        cases h
        exact .inr ⟨j, v, rfl, hcnf, hshape, rfl, hproof⟩
  · cases hjkt

theorem register_eq (store : ReplayStore) (v : VerifiedProof) (now : ℕ) :
    ((store.register x v now).1 = .ok () ∧
        (∀ exp, (replayKey x v.thumbprint v.jti, exp) ∈ store.state.map → exp < now) ∧
        (store.register x v now).2.state.map = (replayKey x v.thumbprint v.jti, store.expiry v.iat) ::
          store.state.map.filter (now ≤ ·.2)) ∨
      (((store.register x v now).1 = .error .replayed ∨
          (store.register x v now).1 = .error .replayStoreFull) ∧
        (store.register x v now).2.state.map = store.state.map.filter (now ≤ ·.2)) := by
  have hpurged : (store.purged now).map = store.state.map.filter (now ≤ ·.2) := by
    rw [ReplayStore.purged, ReplayState.purge_eq store.consistent]
  unfold ReplayStore.register ReplayStore.registerKey
  split_ifs with hkey hfull
  · exact .inr ⟨.inl rfl, hpurged⟩
  · exact .inr ⟨.inr rfl, hpurged⟩
  · refine .inl ⟨rfl, fun exp hmem => ?_, congrArg _ hpurged⟩
    by_contra hexp
    exact hkey (List.mem_map_of_mem (ReplayStore.mem_purged.mpr ⟨hmem, Nat.le_of_not_lt hexp⟩))

/-- A request is accepted with an unbound token where the mode allows it, or with a bound token
and a fresh proof. The second case adds the entry of the proof; nothing else adds one, and a
request that does not reach the store leaves it as it is. -/
theorem authenticate_dpop_law {keys : KeySet} {actions : List JwtTokenCache.Action}
    {auth : Authenticator E} (d : DpopConfig) (store : ReplayStore) (head : RequestHead Ext)
    (now : ℕ)
    (hauth : run (Authenticator.step x extra policy) actions (.new keys) = some auth)
    (hsha : ∀ a ∈ tokens actions ++ presented head, ∀ b ∈ tokens actions ++ presented head,
      x.sha256 a = x.sha256 b → a = b) :
    (∀ claims, (authenticateDpop x extra policy d auth store head now).result = .ok claims →
      (UnboundBearer x extra policy d (auth.arcs auth.current) head now claims ∧
        (authenticateDpop x extra policy d auth store head now).replay = store) ∨
      ∃ token proof jkt v,
        BoundRequest x extra policy d (auth.arcs auth.current) store head now claims token proof
          jkt v ∧
        (authenticateDpop x extra policy d auth store head now).replay.state.map =
          (replayKey x jkt v.jti, store.expiry v.iat) :: store.state.map.filter (now ≤ ·.2)) ∧
    (∀ e, (authenticateDpop x extra policy d auth store head now).result = .error e →
      (authenticateDpop x extra policy d auth store head now).replay = store ∨
      (e = .dpop .replayed ∨ e = .dpop .replayStoreFull) ∧
        (authenticateDpop x extra policy d auth store head now).replay.state.map =
          store.state.map.filter (now ≤ ·.2)) := by
  have hinv := invariant_run hsha (List.subset_append_left _ _) (invariant_new _ keys) hauth
  cases hcredentials : credentials head with
  | none => simp [authenticateDpop, hcredentials]
  | some c =>
    obtain ⟨scheme, token⟩ := c
    have htoken : token ∈ tokens actions ++ presented head :=
      List.mem_append_right _ (by simp [presented, hcredentials])
    have hverify := verifyTokenCached_eq hinv hsha htoken now
    obtain ⟨text, hauthorized, hscheme⟩ := credentials_eq_some hcredentials
    cases hcached : verifyTokenCached x extra policy auth token now with
    | mk result auth' =>
    rw [hcached] at hverify
    cases result with
    | error e => simp [authenticateDpop, hcredentials, hcached]
    | ok claims =>
      cases hproof : proofToRegister x d head scheme token claims now with
      | error e => simp [authenticateDpop, hcredentials, hcached, hproof]
      | ok o =>
        rcases proofToRegister_eq_ok hproof with ⟨rfl, hcnf, hmode, rfl⟩ |
          ⟨jkt, v, rfl, hcnf, hshape, rfl, hv⟩
        · simp only [authenticateDpop, hcredentials, hcached, hproof]
          refine ⟨?_, (fun _ he => nomatch he)⟩
          rintro _ ⟨⟩
          exact .inl ⟨⟨hmode, text, token, hauthorized, hscheme, hverify.symm,
            noCnf_of_verify hverify.symm hcnf⟩, trivial⟩
        · obtain ⟨rfl, hwindow, proof, hheader, hsigned⟩ := verifyRequestProof_eq_ok hv
          cases hregister : store.register x v now with
          | mk registered store' =>
          have hstore := register_eq (x := x) store v now
          rw [hregister] at hstore
          simp only [authenticateDpop, hcredentials, hcached, hproof, hregister]
          rcases hstore with ⟨hok, hfresh, hmap⟩ | ⟨herror, hmap⟩
          · cases hok
            refine ⟨?_, (fun _ he => nomatch he)⟩
            rintro _ ⟨⟩
            exact .inr ⟨token, proof, v.thumbprint, v, ⟨⟨text, hauthorized, hscheme⟩,
              hverify.symm, cnfJkt_of_verify hverify.symm hcnf, hshape, hheader, hsigned, hwindow,
              hfresh⟩, hmap⟩
          · rcases herror with herror | herror <;> cases herror
            · refine ⟨(fun _ he => nomatch he), ?_⟩
              rintro _ ⟨⟩
              exact .inr ⟨.inl rfl, hmap⟩
            · refine ⟨(fun _ he => nomatch he), ?_⟩
              rintro _ ⟨⟩
              exact .inr ⟨.inr rfl, hmap⟩

end

namespace Sample
open JwtDpopReplay.Sample

def keys : KeySet := [⟨ascii "k", .es256, .ecP256 issuerPoint⟩]

def policy : JwtPolicy := ⟨ascii "i", [ascii "a"], [.es256], .accessToken, 0⟩

def origin : PublicOrigin :=
  ⟨ascii "https://a", ascii "https://a/", eq_ok_of_toOption (by decide +kernel)⟩

def config : DpopConfig := ⟨.required, origin, [.es256], window⟩

def request (proof : Bytes) : RequestHead fun _ : Empty => Unit where
  buf := ascii "GET /r HTTP/1.1\r\nauthorization: DPoP " ++ token ++ ascii "\r\ndpop: " ++ proof ++
    ascii "\r\n\r\n"
  methodRange := ⟨0, 3⟩
  targetRange := ⟨4, 6⟩
  version := .http11
  headerRanges := [(⟨17, 30⟩, ⟨32, 301⟩), (⟨303, 307⟩, ⟨309, 757⟩)]
  extensions := .new

def claims : Claims Unit :=
  ⟨ascii "i", none, [ascii "a"], 200, none, none, none, none, none, .jkt thumbprint, ()⟩

def authenticate (store : ReplayStore) (proof : Bytes) (now : ℕ) : Outcome Unit :=
  authenticateDpop crates (fun _ => some ()) policy config (.new keys) store (request proof) now

/-- A store that holds the second proof's identifier from an earlier use. -/
def usedStore : ReplayStore :=
  ((ReplayStore.new window 131072).register crates ⟨thumbprint, ascii "k", 100⟩ 100).2

end Sample

open JwtDpopReplay.Sample Sample in
theorem authenticate_dpop_law_first :
    (authenticate (.new window 131072) firstProof 150).result = .ok claims ∧
      ∃ token proof jkt v, BoundRequest crates (fun _ => some ()) Sample.policy config Sample.keys
        (.new window 131072) (request firstProof) 150 claims token proof jkt v ∧
        (authenticate (.new window 131072) firstProof 150).replay.state.map =
          (replayKey crates jkt v.jti, (ReplayStore.new window 131072).expiry v.iat) ::
            (ReplayStore.new window 131072).state.map.filter (150 ≤ ·.2) := by
  have hresult : (authenticate (.new window 131072) firstProof 150).result = .ok claims :=
    eq_ok_of_toOption (by decide +kernel)
  have hpresented : presented (request firstProof) = [token] := by decide +kernel
  unfold authenticate at hresult ⊢
  have hlaw := authenticate_dpop_law config (.new window 131072) (request firstProof) 150
    (show run (Authenticator.step crates (fun _ => some ()) Sample.policy) [] (.new Sample.keys) =
      some _ from rfl)
    (by
      intro a ha b hb _
      rw [hpresented] at ha hb
      exact (List.mem_singleton.mp ha).trans (List.mem_singleton.mp hb).symm)
  rcases hlaw.1 claims hresult with ⟨⟨hmode, -⟩, -⟩ | ⟨token, proof, jkt, v, hbound, hmap⟩
  · cases hmode
  · exact ⟨hresult, token, proof, jkt, v, hbound, hmap⟩

open JwtDpopReplay.Sample Sample in
/-- A proof whose identifier was registered before is accepted once that entry has expired. -/
theorem authenticate_dpop_registered_before :
    (replayKey crates thumbprint (ascii "k"), 160) ∈ usedStore.state.map ∧
      verifyProof crates secondProof ⟨ascii "GET", ascii "https://a/r", token, [.es256], window⟩
        170 = .ok ⟨thumbprint, ascii "k", 170⟩ ∧
      (authenticate usedStore secondProof 170).result = .ok claims := by
  refine ⟨?_, eq_ok_of_toOption (by decide +kernel), eq_ok_of_toOption (by decide +kernel)⟩
  have hmap : usedStore.state.map = [(replayKey crates thumbprint (ascii "k"), 160)] := by
    decide +kernel
  rw [hmap]
  exact List.mem_singleton_self _

end FandheBackend.JwtAuthenticator
