import FandheBackend.HttpResponseBuilder
import FandheBackend.JwtAuthenticator

set_option autoImplicit false

namespace FandheBackend.JwtChallenge
open StdBytes HttpRequestHead HttpResponse JwtVerify JwtTokenCache JwtDpopProof JwtDpopReplay
open JwtAuthenticator ExceptChecks

def bodyInvalidToken : Bytes := ascii "\x7b\"error\":\"invalid_token\"\x7d"

def bodyInvalidDpopProof : Bytes := ascii "\x7b\"error\":\"invalid_dpop_proof\"\x7d"

def challengeBearerNoToken : Bytes := ascii "Bearer"

def challengeBearerInvalid : Bytes := ascii "Bearer error=\"invalid_token\""

def wwwAuthenticate : Bytes := ascii "WWW-Authenticate"

/-- `unauthorized`: a challenge that cannot be added leaves none of them. -/
def unauthorized (body : Bytes) (challenges : List Bytes) : Response :=
  let base := (Response.new 401 body).withContentType applicationJson
  (challenges.foldlM (fun (r : Response) c => r.withHeader wwwAuthenticate c) base).toOption.getD base

/-- `DpopError::is_token_side`. -/
def isTokenSide : DpopError → Bool
  | .boundTokenAsBearer | .unboundToken => true
  | _ => false

/-- The `algs` of a challenge, in the canonical order. -/
def challengeAlgs (algs : List Algorithm) : Bytes :=
  join (ascii " ") (([.es256, .rs256].filter algs.contains).map Algorithm.asJoseName)

def allowsBearer (d : DpopConfig) : Bool := d.mode == .allowUnboundBearer

section
variable {TypeId : Type} {Ext : TypeId → Type}

/-- The error code, and whether it goes on the DPoP line. -/
def errorCode (d : DpopConfig) (head : RequestHead Ext) : VerifyError → Option Bytes × Bool
  | .token .missingToken => (none, true)
  | .dpop e =>
    if isTokenSide e then (some (ascii "invalid_token"), true)
    else (some (ascii "invalid_dpop_proof"), true)
  | .token _ =>
    let bearer := (credentials head).any fun c => c.1 == .bearer
    (some (ascii "invalid_token"), !(bearer && allowsBearer d))

def dpopLine (algs : Bytes) : Option Bytes × Bool → Bytes
  | (some code, true) => ascii "DPoP error=\"" ++ code ++ ascii "\", algs=\"" ++ algs ++ ascii "\""
  | _ => ascii "DPoP algs=\"" ++ algs ++ ascii "\""

def bearerLine : Option Bytes × Bool → Bytes
  | (some code, false) => ascii "Bearer error=\"" ++ code ++ ascii "\""
  | _ => ascii "Bearer"

def rejectionBody : VerifyError → Bytes
  | .dpop e => if !isTokenSide e then bodyInvalidDpopProof else bodyInvalidToken
  | .token _ => bodyInvalidToken

def dpopUnauthorized (d : DpopConfig) (head : RequestHead Ext) (err : VerifyError) : Response :=
  let code := errorCode d head err
  let line := dpopLine (challengeAlgs d.algs) code
  if allowsBearer d then unauthorized (rejectionBody err) [line, bearerLine code]
  else unauthorized (rejectionBody err) [line]

/-- `none` is an authenticator without DPoP. -/
def unauthorizedResponse (dpop : Option DpopConfig) (head : RequestHead Ext) (err : VerifyError) :
    Response :=
  match dpop with
  | some d => dpopUnauthorized d head err
  | none =>
    unauthorized bodyInvalidToken
      [match err with
        | .token .missingToken => challengeBearerNoToken
        | _ => challengeBearerInvalid]

end

structure Challenged (r : Response) (body : Bytes) (challenges : List Bytes) : Prop where
  status : r.status = 401
  body : r.body = body
  fields : r.fields = (ascii "Content-Type", ascii "application/json") ::
    challenges.map fun c => (wwwAuthenticate, c)

theorem withHeader_challenge (r : Response) {c : Bytes} (hc : c.any isForbiddenInValue = false) :
    ∃ h : ExtraHeader, h.name = wwwAuthenticate ∧ h.value = c ∧
      r.withHeader wwwAuthenticate c = .ok { r with extraHeaders := r.extraHeaders ++ [h] } := by
  have hname : isToken wwwAuthenticate = true := by decide
  have hreserved : isReserved wwwAuthenticate = false := by decide
  refine ⟨⟨wwwAuthenticate, c, hname, hc, hreserved⟩, rfl, rfl, ?_⟩
  rw [Response.withHeader, dif_neg (by simp [hname]), dif_neg (by simp [hc]),
    dif_neg (by simp [hreserved])]

theorem foldlM_challenges {challenges : List Bytes}
    (h : ∀ c ∈ challenges, c.any isForbiddenInValue = false) (r : Response) :
    ∃ hs : List ExtraHeader, hs.map (fun h => (h.name, h.value)) =
        challenges.map (fun c => (wwwAuthenticate, c)) ∧
      challenges.foldlM (fun (r : Response) c => r.withHeader wwwAuthenticate c) r =
        .ok { r with extraHeaders := r.extraHeaders ++ hs } := by
  induction challenges generalizing r with
  | nil => exact ⟨[], rfl, by simp [pure, Except.pure]⟩
  | cons c challenges ih =>
    obtain ⟨hc, hrest⟩ := List.forall_mem_cons.mp h
    obtain ⟨e, hname, hvalue, hadded⟩ := withHeader_challenge r hc
    obtain ⟨hs, hmap, hfold⟩ := ih hrest { r with extraHeaders := r.extraHeaders ++ [e] }
    refine ⟨e :: hs, by rw [List.map_cons, List.map_cons, hmap, hname, hvalue], ?_⟩
    rw [List.foldlM_cons, hadded]
    show challenges.foldlM _ _ = _
    rw [hfold, List.append_assoc, List.singleton_append]

theorem unauthorized_challenged {body : Bytes} {challenges : List Bytes}
    (h : ∀ c ∈ challenges, c.any isForbiddenInValue = false) :
    Challenged (unauthorized body challenges) body challenges := by
  obtain ⟨hs, hmap, hfold⟩ :=
    foldlM_challenges h ((Response.new 401 body).withContentType applicationJson)
  have hother : ∀ e ∈ hs, eqIgnoreAsciiCase e.name (ascii "content-type") = false := by
    intro e he
    have hmem : (e.name, e.value) ∈ challenges.map fun c => (wwwAuthenticate, c) :=
      hmap ▸ List.mem_map_of_mem he
    obtain ⟨c, -, hc⟩ := List.mem_map.mp hmem
    rw [← (Prod.mk.inj hc).1]
    decide
  unfold unauthorized
  dsimp only
  rw [hfold]
  refine ⟨rfl, rfl, ?_⟩
  simp only [Response.fields, Response.withContentType, Response.new, Except.toOption,
    Option.getD_some, List.nil_append, Option.isSome_some, Bool.true_and, Option.isSome_none,
    Bool.false_and, Bool.not_false, Bool.and_true, List.append_nil]
  rw [List.filter_eq_self.mpr fun e he => by rw [hother e he]; rfl, hmap]
  rfl

/-- The configuration decides which of four lists it is. -/
theorem challengeAlgs_mem (algs : List Algorithm) :
    challengeAlgs algs ∈ [[], ascii "ES256", ascii "RS256", ascii "ES256 RS256"] := by
  have hfilter : [Algorithm.es256, .rs256].filter algs.contains ∈
      [[], [Algorithm.es256], [.rs256], [.es256, .rs256]] := by
    simp only [List.filter_cons, List.filter_nil]
    cases algs.contains .es256 <;> cases algs.contains .rs256 <;> decide
  unfold challengeAlgs
  generalize [Algorithm.es256, .rs256].filter algs.contains = kept at hfilter ⊢
  simp only [List.mem_cons, List.not_mem_nil, or_false] at hfilter
  rcases hfilter with rfl | rfl | rfl | rfl <;> decide

inductive Refusal where
  | missing
  -- The token failed; the request named the Bearer scheme, or not.
  | token (bearer : Bool)
  | binding
  | proof
  deriving DecidableEq, Repr

def Refusal.code (both : Bool) : Refusal → Option Bytes × Bool
  | .missing => (none, true)
  | .token bearer => (some (ascii "invalid_token"), !(bearer && both))
  | .binding => (some (ascii "invalid_token"), true)
  | .proof => (some (ascii "invalid_dpop_proof"), true)

/-- The lines of an authenticator with DPoP, one for each scheme that it accepts. -/
def dpopChallenges (algs : Bytes) (both : Bool) (r : Refusal) : List Bytes :=
  dpopLine algs (r.code both) :: if both then [bearerLine (r.code both)] else []

def challenges (dpop : Option DpopConfig) (r : Refusal) : List Bytes :=
  match dpop with
  | none => [if r = .missing then challengeBearerNoToken else challengeBearerInvalid]
  | some d => dpopChallenges (challengeAlgs d.algs) (allowsBearer d) r

def refusalBody (dpop : Option DpopConfig) (r : Refusal) : Bytes :=
  if dpop.isSome = true ∧ r = .proof then bodyInvalidDpopProof else bodyInvalidToken

def namesError (c : Bytes) : Bool := c.tails.any ((ascii "error=").isPrefixOf ·)

theorem dpopChallenges_checked {algs : Bytes}
    (h : algs ∈ [[], ascii "ES256", ascii "RS256", ascii "ES256 RS256"]) (both : Bool)
    (r : Refusal) : (∀ c ∈ dpopChallenges algs both r, c.any isForbiddenInValue = false) ∧
      (dpopChallenges algs both r).countP namesError = if r = .missing then 0 else 1 := by
  simp only [List.mem_cons, List.not_mem_nil, or_false] at h
  rcases h with rfl | rfl | rfl | rfl <;> cases both <;>
    rcases r with _ | (_ | _) | _ | _ <;> decide

theorem challenges_checked (dpop : Option DpopConfig) (r : Refusal) :
    (∀ c ∈ challenges dpop r, c.any isForbiddenInValue = false) ∧
      (challenges dpop r).countP namesError = if r = .missing then 0 else 1 := by
  cases dpop with
  | none => rcases r with _ | (_ | _) | _ | _ <;> decide
  | some d => exact dpopChallenges_checked (challengeAlgs_mem d.algs) (allowsBearer d) r

section
variable {TypeId : Type} {Ext : TypeId → Type}

def refusal (head : RequestHead Ext) : VerifyError → Refusal
  | .token .missingToken => .missing
  | .dpop e => if isTokenSide e then .binding else .proof
  | .token _ => .token ((credentials head).any fun c => c.1 == .bearer)

theorem errorCode_eq (d : DpopConfig) (head : RequestHead Ext) (err : VerifyError) :
    errorCode d head err = (refusal head err).code (allowsBearer d) := by
  cases err with
  | token e => cases e <;> rfl
  | dpop e => cases e <;> rfl

theorem unauthorizedResponse_eq (dpop : Option DpopConfig) (head : RequestHead Ext)
    (err : VerifyError) : unauthorizedResponse dpop head err =
      unauthorized (refusalBody dpop (refusal head err)) (challenges dpop (refusal head err)) := by
  cases dpop with
  | none =>
    cases err with
    | token e => cases e <;> rfl
    | dpop e => cases e <;> rfl
  | some d =>
    have hbody : rejectionBody err = refusalBody (some d) (refusal head err) := by
      cases err with
      | token e => cases e <;> rfl
      | dpop e => cases e <;> rfl
    unfold unauthorizedResponse dpopUnauthorized
    dsimp only
    rw [errorCode_eq, hbody]
    show _ = unauthorized _ (dpopChallenges _ _ _)
    unfold dpopChallenges
    cases allowsBearer d <;> rfl

/-- `bearer_token`. -/
def bearerToken (head : RequestHead Ext) : Option Bytes := do
  let (scheme, token) ← authorization head
  if eqIgnoreAsciiCase scheme Scheme.bearer.name then some token else none

section
variable {E : Type} (x : Externals) (extra : Bytes → Option E) (policy : JwtPolicy)

/-- `authenticate_at`. -/
def authenticate (dpop : Option DpopConfig) (auth : Authenticator E) (replay : ReplayStore)
    (head : RequestHead Ext) (now : ℕ) : Outcome E :=
  match dpop with
  | some d => authenticateDpop x extra policy d auth replay head now
  | none =>
    match bearerToken head with
    | none => ⟨.error (.token .missingToken), auth, replay⟩
    | some token =>
      let (result, auth) := verifyTokenCached x extra policy auth token now
      ⟨result.mapError .token, auth, replay⟩

def accepted (dpop : Option DpopConfig) (head : RequestHead Ext) : Option (Scheme × Bytes) :=
  match dpop with
  | some _ => credentials head
  | none => (bearerToken head).map (Prod.mk .bearer)

def requiredKey (dpop : Option DpopConfig) (claims : Claims E) :
    Except VerifyError (Option Bytes) :=
  match dpop with
  | some _ => confirmedKey claims
  | none => .ok none

def stage (dpop : Option DpopConfig) (auth : Authenticator E) (head : RequestHead Ext) (now : ℕ) :
    Refusal :=
  match accepted dpop head with
  | none => .missing
  | some (scheme, token) =>
    match (verifyTokenCached x extra policy auth token now).1 with
    | .error _ => .token (scheme == .bearer)
    | .ok claims =>
      match requiredKey dpop claims with
      | .error _ => .token (scheme == .bearer)
      | .ok none => .binding
      | .ok (some _) => if scheme = .bearer then .binding else .proof

variable {x extra policy}

theorem credentials_of_bearerToken {head : RequestHead Ext} {token : Bytes}
    (h : bearerToken head = some token) : credentials head = some (.bearer, token) := by
  unfold bearerToken at h
  obtain ⟨⟨scheme, token'⟩, hauth, h⟩ := Option.bind_eq_some_iff.mp h
  dsimp only at h
  split_ifs at h with hscheme
  cases h
  rw [credentials, hauth]
  show (if _ then _ else _) = _
  rw [if_pos hscheme]

theorem authorization_token_ne_nil {head : RequestHead Ext} {scheme : Scheme} {token : Bytes}
    (h : credentials head = some (scheme, token)) : token ≠ [] := by
  obtain ⟨text, ⟨_, _, _, _, htoken⟩, -⟩ := credentials_eq_some h
  exact htoken

end

end

section
variable {x : Externals}

theorem keyId_fails (kid : Option Bytes) : Fails (· ≠ .missingToken) (keyId kid) := by
  unfold keyId
  split
  · exact fails_error nofun
  · exact fails_error nofun
  · split_ifs
    · exact fails_error nofun
    · exact fails_ok _ _

theorem candidates_fails (keys : KeySet) (kid : Bytes) (alg : Algorithm) :
    Fails (· ≠ .missingToken) (candidates keys kid alg) := by
  unfold candidates
  dsimp only
  split
  · split_ifs <;> exact fails_error nofun
  · exact fails_ok _ _

theorem checkTime_fails (exp : ℕ) (nbf : Option ℕ) (now leeway : ℕ) :
    Fails (· ≠ .missingToken) (checkTime exp nbf now leeway) :=
  .bind (fails_rejectIf nofun) fun _ => fails_rejectIf nofun

theorem verify_fails {E : Type} {extra : Bytes → Option E} {policy : JwtPolicy} {token : Bytes}
    (h : token ≠ []) (keys : KeySet) (now : ℕ) :
    Fails (· ≠ .missingToken) (verify x extra token keys policy now) := by
  unfold verify
  refine .bind ?_ fun _ => .bind ?_ fun _ => .bind (checkTime_fails _ _ _ _) fun _ =>
    .bind (fails_orError nofun _) fun _ => fails_ok _ _
  · unfold verifySignature
    rw [rejectIf_bind, if_neg h]
    exact .bind (fails_rejectIf nofun) fun _ => .bind (fails_orError nofun _) fun _ =>
      .bind (fails_orError nofun _) fun _ => .bind (fails_rejectIf nofun) fun _ =>
      .bind (fails_orError nofun _) fun _ => .bind (keyId_fails _) fun _ =>
      .bind (candidates_fails _ _ _) fun _ => .bind (fails_orError nofun _) fun _ =>
      .bind (fails_rejectIf nofun) fun _ => .bind (fails_rejectIf nofun) fun _ =>
      fails_orError nofun _
  · exact .bind (fails_orError nofun _) fun _ => .bind (fails_rejectIf nofun) fun _ =>
      .bind (fails_orError nofun _) fun _ => .bind (fails_rejectIf nofun) fun _ =>
      .bind (fails_orError nofun _) fun _ => fails_ok _ _

theorem get_eq_invalid {E : Type} {c : CacheState E} {key : Bytes} {current now leeway : ℕ}
    {e : TokenError} (h : c.get key current now leeway = .invalid e) :
    ∃ exp nbf, checkTime exp nbf now leeway = .error e := by
  unfold CacheState.get at h
  split at h
  · cases h
  · next entry _ =>
    split_ifs at h
    split at h
    · next htime =>
      cases h
      exact ⟨_, _, htime⟩
    · cases h

theorem verifyTokenCached_fails {E : Type} {extra : Bytes → Option E} {policy : JwtPolicy}
    {token : Bytes} (h : token ≠ []) (auth : Authenticator E) (now : ℕ) :
    Fails (· ≠ .missingToken) (verifyTokenCached x extra policy auth token now).1 := by
  have hverify : Fails (· ≠ .missingToken)
      (verify x extra token (auth.arcs auth.current) policy now) := verify_fails h _ _
  unfold verifyTokenCached
  dsimp only
  cases hget : auth.cache.get (x.sha256 token) auth.current now policy.clockSkew with
  | hit claims => exact fails_ok _ _
  | invalid e =>
    obtain ⟨exp, nbf, htime⟩ := get_eq_invalid hget
    exact fails_error (checkTime_fails exp nbf now policy.clockSkew e htime)
  | miss =>
    dsimp only
    cases hresult : verify x extra token (auth.arcs auth.current) policy now with
    | error e => exact fails_error (hverify e hresult)
    | ok claims => exact fails_ok _ _

theorem canonicalInt_fails (s : Option Bytes) (min max : ℕ) :
    Fails (isTokenSide · ≠ true) (canonicalInt x s min max) :=
  .bind (fails_orError nofun _) fun _ => .bind (fails_rejectIf nofun) fun _ =>
    .bind (fails_orError nofun _) fun _ => .bind (fails_rejectIf nofun) fun _ => fails_ok _ _

theorem fixedCoord_fails (s : Option Bytes) : Fails (isTokenSide · ≠ true) (fixedCoord x s) :=
  .bind (fails_orError nofun _) fun _ => .bind (fails_rejectIf nofun) fun _ =>
    .bind (fails_orError nofun _) fun _ => .bind (fails_rejectIf nofun) fun _ => fails_ok _ _

theorem keyAlgorithm_fails (kty : Bytes) : Fails (isTokenSide · ≠ true) (keyAlgorithm kty) := by
  unfold keyAlgorithm
  split_ifs
  · exact fails_ok _ _
  · exact fails_ok _ _
  · exact fails_error nofun

theorem buildProofKey_fails (j : JwkFields) (alg : Option Algorithm) :
    Fails (isTokenSide · ≠ true) (buildProofKey x j alg) := by
  refine .bind (fails_rejectIf nofun) fun _ => .bind (fails_orError nofun _) fun _ =>
    .bind (keyAlgorithm_fails _) fun keyAlg => .bind (fails_rejectIf nofun) fun _ =>
    .bind (fails_rejectIf nofun) fun _ => .bind (fails_rejectIf nofun) fun _ => ?_
  cases keyAlg with
  | rs256 =>
    exact .bind (canonicalInt_fails _ _ _) fun _ => .bind (canonicalInt_fails _ _ _) fun _ =>
      fails_ok _ _
  | es256 =>
    exact .bind (fails_rejectIf nofun) fun _ => .bind (fixedCoord_fails _) fun _ =>
      .bind (fixedCoord_fails _) fun _ => fails_ok _ _

theorem verifyProof_fails (proof : Bytes) (ctx : ProofContext) (now : ℕ) :
    Fails (isTokenSide · ≠ true) (verifyProof x proof ctx now) := by
  refine .bind ?_ fun _ => .bind (fails_orError nofun _) fun _ => .bind (fails_rejectIf nofun) fun _ =>
    .bind (fails_rejectIf nofun) fun _ => .bind (fails_rejectIf nofun) fun _ =>
    .bind (fails_rejectIf nofun) fun _ => .bind (fails_rejectIf nofun) fun _ => fails_ok _ _
  exact .bind (fails_rejectIf nofun) fun _ => .bind (fails_rejectIf nofun) fun _ =>
    .bind (fails_orError nofun _) fun _ => .bind (fails_orError nofun _) fun _ =>
    .bind (fails_rejectIf nofun) fun _ => .bind (fails_rejectIf nofun) fun _ =>
    .bind (fails_orError nofun _) fun _ => .bind (fails_orError nofun _) fun _ =>
    .bind (buildProofKey_fails _ _) fun _ => .bind (fails_orError nofun _) fun _ =>
    .bind (fails_rejectIf nofun) fun _ => .bind (fails_orError nofun _) fun _ => fails_ok _ _

theorem verifyRequestProof_fails {TypeId : Type} {Ext : TypeId → Type} (d : DpopConfig)
    (head : RequestHead Ext) (token jkt : Bytes) (now : ℕ) :
    Fails (isTokenSide · ≠ true) (verifyRequestProof x d head token jkt now) := by
  refine .bind ?_ fun _ => .bind (fails_orError nofun _) fun _ =>
    .bind (verifyProof_fails _ _ _) fun _ => .bind (fails_rejectIf nofun) fun _ => fails_ok _ _
  unfold proofHeader
  split
  · exact fails_error nofun
  · exact fails_ok _ _
  · exact fails_error nofun

theorem register_fails (store : ReplayStore) (v : VerifiedProof) (now : ℕ) :
    Fails (isTokenSide · ≠ true) (store.register x v now).1 := by
  rcases register_eq (x := x) store v now with ⟨hok, -⟩ | ⟨herror | herror, -⟩
  · rw [hok]
    exact fails_ok _ _
  · rw [herror]
    exact fails_error nofun
  · rw [herror]
    exact fails_error nofun

end

section
variable {TypeId : Type} {Ext : TypeId → Type} {E : Type} {x : Externals}
  {extra : Bytes → Option E} {policy : JwtPolicy}

theorem refusal_token {head : RequestHead Ext} {e : TokenError} {scheme : Scheme} {token : Bytes}
    (hc : credentials head = some (scheme, token)) (he : e ≠ .missingToken) :
    refusal head (.token e) = .token (scheme == .bearer) := by
  have hother : refusal head (.token e) = .token ((credentials head).any fun c => c.1 == .bearer) := by
    cases e <;> first | exact absurd rfl he | rfl
  rw [hother, hc]
  rfl

theorem confirmedKey_fails (claims : Claims E) :
    Fails (· = .token .malformed) (confirmedKey claims) := by
  unfold confirmedKey
  split
  · exact fails_ok _ _
  · split_ifs
    · exact fails_ok _ _
    · exact fails_error rfl
  · exact fails_error rfl

theorem refusal_proofToRegister {d : DpopConfig} {head : RequestHead Ext} {scheme : Scheme}
    {token : Bytes} {claims : Claims E} {now : ℕ} {e : VerifyError}
    (hc : credentials head = some (scheme, token))
    (h : proofToRegister x d head scheme token claims now = .error e) :
    refusal head e = match confirmedKey claims with
      | .error _ => .token (scheme == .bearer)
      | .ok none => .binding
      | .ok (some _) => if scheme = .bearer then .binding else .proof := by
  unfold proofToRegister at h
  cases hkey : confirmedKey claims with
  | error e' =>
    rw [hkey] at h
    cases h
    rw [confirmedKey_fails claims _ hkey]
    exact refusal_token hc nofun
  | ok jkt =>
    rw [hkey] at h
    cases scheme with
    | bearer => cases jkt <;> cases hmode : d.mode <;> simp only [hmode] at h <;> cases h <;> rfl
    | dpop =>
      cases jkt with
      | none =>
        cases h
        rfl
      | some jkt =>
        have hproof := verifyRequestProof_fails (x := x) d head token jkt now
        cases hresult : verifyRequestProof x d head token jkt now with
        | ok v =>
          simp only [bind, Except.bind, hresult] at h
          cases h
        | error e' =>
          simp only [bind, Except.bind, hresult] at h
          cases h
          exact if_neg (hproof e' hresult)

/-- The error of a refused request says how far the request got, and nothing else. -/
theorem refusal_eq_stage {dpop : Option DpopConfig} {auth : Authenticator E} {replay : ReplayStore}
    {head : RequestHead Ext} {now : ℕ} {e : VerifyError}
    (h : (authenticate x extra policy dpop auth replay head now).result = .error e) :
    refusal head e = stage x extra policy dpop auth head now := by
  cases dpop with
  | none =>
    unfold authenticate at h
    unfold stage accepted
    cases htoken : bearerToken head with
    | none =>
      simp only [htoken] at h
      cases h
      rfl
    | some token =>
      have hc := credentials_of_bearerToken htoken
      have hfails : Fails (· ≠ .missingToken) (verifyTokenCached x extra policy auth token now).1 :=
        verifyTokenCached_fails (authorization_token_ne_nil hc) auth now
      simp only [htoken] at h
      simp only [Option.map_some]
      cases hresult : (verifyTokenCached x extra policy auth token now).1 with
      | ok claims =>
        rw [hresult] at h
        cases h
      | error e' =>
        rw [hresult] at h
        cases h
        exact refusal_token hc (hfails e' hresult)
  | some d =>
    unfold authenticate authenticateDpop at h
    unfold stage accepted
    cases hc : credentials head with
    | none =>
      simp only [hc] at h
      cases h
      rfl
    | some c =>
      obtain ⟨scheme, token⟩ := c
      have hfails : Fails (· ≠ .missingToken) (verifyTokenCached x extra policy auth token now).1 :=
        verifyTokenCached_fails (authorization_token_ne_nil hc) auth now
      simp only [hc] at h ⊢
      cases hcached : verifyTokenCached x extra policy auth token now with
      | mk result auth' =>
      rw [hcached] at hfails
      simp only [hcached] at h ⊢
      cases result with
      | error e' =>
        cases h
        exact refusal_token hc (hfails e' rfl)
      | ok claims =>
        cases hproof : proofToRegister x d head scheme token claims now with
        | error e' =>
          simp only [hproof] at h
          cases h
          exact refusal_proofToRegister hc hproof
        | ok o =>
          simp only [hproof] at h
          rcases proofToRegister_eq_ok hproof with ⟨rfl, hcnf, -, rfl⟩ |
            ⟨jkt, v, rfl, hcnf, hshape, rfl, -⟩
          · cases h
          · have hkey : confirmedKey claims = .ok (some jkt) := by
              rw [confirmedKey, hcnf]
              exact if_pos hshape
            have hregister := register_fails (x := x) replay v now
            simp only [requiredKey, hkey]
            cases hstore : replay.register x v now with
            | mk registered store' =>
            rw [hstore] at hregister
            simp only [hstore] at h
            cases registered with
            | ok u => cases h
            | error e' =>
              cases h
              exact if_neg (hregister e' rfl)

/-- A refused request gets an answer that tells nothing about it but how far it got: the
configuration decides the rest. The answer is a 401 with a fixed body and one challenge for
each accepted scheme, of which exactly one names an error once there are credentials. -/
theorem unauthorized_response_law {dpop : Option DpopConfig} {auth : Authenticator E}
    {replay : ReplayStore} {head : RequestHead Ext} {now : ℕ} {e : VerifyError}
    (h : (authenticate x extra policy dpop auth replay head now).result = .error e) :
    unauthorizedResponse dpop head e =
        unauthorized (refusalBody dpop (stage x extra policy dpop auth head now))
          (challenges dpop (stage x extra policy dpop auth head now)) ∧
      Challenged (unauthorizedResponse dpop head e)
        (refusalBody dpop (stage x extra policy dpop auth head now))
        (challenges dpop (stage x extra policy dpop auth head now)) ∧
      (challenges dpop (stage x extra policy dpop auth head now)).countP namesError =
        if accepted dpop head = none then 0 else 1 := by
  have hstage := refusal_eq_stage h
  obtain ⟨hallowed, hcount⟩ := challenges_checked dpop (stage x extra policy dpop auth head now)
  have hanswer := unauthorizedResponse_eq dpop head e
  rw [hstage] at hanswer
  refine ⟨hanswer, hanswer ▸ unauthorized_challenged hallowed, hcount.trans ?_⟩
  have hmissing : stage x extra policy dpop auth head now = .missing ↔ accepted dpop head = none := by
    unfold stage
    cases accepted dpop head with
    | none => simp
    | some c =>
      dsimp only
      split
      · simp
      · split
        · simp
        · simp
        · split_ifs <;> simp
  rw [if_congr hmissing rfl rfl]

end

open JwtDpopReplay.Sample JwtAuthenticator.Sample in
theorem unauthorized_response_law_replayed :
    ∃ e, (JwtChallenge.authenticate crates (fun _ => some ()) JwtAuthenticator.Sample.policy
        (some config) (.new JwtAuthenticator.Sample.keys) usedStore (request secondProof)
        160).result = .error e ∧
      Challenged (unauthorizedResponse (some config) (request secondProof) e)
        bodyInvalidDpopProof
        [ascii "DPoP error=\"invalid_dpop_proof\", algs=\"ES256\""] := by
  have hrejected : (JwtChallenge.authenticate crates (fun _ => some ())
      JwtAuthenticator.Sample.policy (some config) (.new JwtAuthenticator.Sample.keys) usedStore
      (request secondProof) 160).result.toOption.isNone = true := by decide +kernel
  have hstage : stage crates (fun _ => some ()) JwtAuthenticator.Sample.policy (some config)
      (.new JwtAuthenticator.Sample.keys) (request secondProof) 160 = .proof := by decide +kernel
  have hlines : challenges (some config) .proof =
      [ascii "DPoP error=\"invalid_dpop_proof\", algs=\"ES256\""] := by decide +kernel
  cases hresult : (JwtChallenge.authenticate crates (fun _ => some ())
      JwtAuthenticator.Sample.policy (some config) (.new JwtAuthenticator.Sample.keys) usedStore
      (request secondProof) 160).result with
  | ok claims =>
    rw [hresult] at hrejected
    cases hrejected
  | error e =>
    obtain ⟨-, hchallenged, -⟩ := unauthorized_response_law hresult
    rw [hstage, hlines] at hchallenged
    exact ⟨e, rfl, hchallenged⟩

end FandheBackend.JwtChallenge
