import FandheBackend.HttpBodyLength
import FandheBackend.JwtGate

set_option autoImplicit false

namespace FandheBackend.HubTenantGate
open StdBytes ExceptChecks HttpRequestHead HttpResponse HttpBodyLength HttpConnection CoreGates
open CoreConnection CoreConnectionTurns CoreConnectionGates CoreAdmission JwtVerify JwtTokenCache
open JwtDpopReplay JwtAuthenticator JwtChallenge JwtGate

structure HubClaims where
  orgId : Option Bytes
  deriving DecidableEq

def HubClaims.ofJson : Json → Option HubClaims
  | .object members => (stringMember members "org_id").map HubClaims.mk
  | _ => none

inductive AuthError where
  | jwt (e : VerifyError)
  | missingOrgId
  deriving DecidableEq, Repr

structure TenantClaims where
  orgId : Bytes
  claims : Claims HubClaims
  deriving DecidableEq

def unauthorizedBody : Bytes := ascii "\x7b\"error\":\"invalid_token\"\x7d"

def forbiddenBody : Bytes := ascii "\x7b\"error\":\"tenant_scope_required\"\x7d"

def rejectJson (status : UInt16) (body : Bytes) : Response :=
  (Response.new status body).withContentType applicationJson

section
variable {TypeId : Type} {Ext : TypeId → Type} (x : Externals) (policy : JwtPolicy)
  (dpop : Option DpopConfig)

def hubClaims (payload : Bytes) : Option HubClaims := (x.json payload).bind HubClaims.ofJson

def tenantOf (claims : Claims HubClaims) : Except AuthError TenantClaims :=
  match (claims.extra.orgId.map strTrim).filter (· ≠ []) with
  | none => .error .missingOrgId
  | some orgId => .ok ⟨orgId, claims⟩

/-- `Authenticator::authenticate`. -/
def authenticate (m : Moment HubClaims) (head : RequestHead Ext) : Except AuthError TenantClaims :=
  match (JwtChallenge.authenticate x (hubClaims x) policy dpop m.auth m.replay head m.now).result with
  | .error e => .error (.jwt e)
  | .ok claims => tenantOf claims

/-- The arms of `TenantGate::check` for the errors. -/
def rejection (head : RequestHead Ext) : AuthError → Response
  | .missingOrgId => rejectJson 403 forbiddenBody
  | .jwt e =>
    match dpop with
    | some d => unauthorizedResponse (some d) head e
    | none => rejectJson 401 unauthorizedBody

def decision (m : Moment HubClaims) (head : RequestHead Ext) : Except Response TenantClaims :=
  (authenticate x policy dpop m head).mapError (rejection dpop head)

/-- `TenantGate::check`. -/
def check [DecidableEq TypeId] (b : Badge Ext TenantClaims) (m : Moment HubClaims)
    (head : RequestHead Ext) : Check Ext :=
  admissionGate b (decision x policy dpop m) head

def OrgId (token text : Bytes) : Prop :=
  ∃ members, TokenPayload x token members ∧ (ascii "org_id", .string text) ∈ members

variable {x policy dpop}

theorem verify_extra {E : Type} {extra : Bytes → Option E} {token : Bytes} {keys : KeySet}
    {now : ℕ} {claims : Claims E} (h : verify x extra token keys policy now = .ok claims) :
    ∃ hd p s payload, token = hd ++ 46 :: (p ++ 46 :: s) ∧ x.decode p = some payload ∧
      extra payload = some claims.extra := by
  unfold verify at h
  obtain ⟨⟨payload, raw⟩, hsignature, h⟩ := bind_eq_ok.mp h
  obtain ⟨⟨iss, aud, exp⟩, -, h⟩ := bind_eq_ok.mp h
  obtain ⟨-, -, h⟩ := bind_eq_ok.mp h
  obtain ⟨e, hextra, h⟩ := orError_bind_eq_ok.mp h
  cases h
  obtain ⟨hd, p, s, json, htoken, hdecode, -, -⟩ := verifySignature_payload hsignature
  exact ⟨hd, p, s, payload, htoken, hdecode, hextra⟩

theorem optString_eq_some {o : Option Json} {text : Bytes} (h : optString o = some (some text)) :
    o = some (.string text) := by
  unfold optString at h
  split at h
  · cases h
  · cases h
  · cases h
    rfl
  · cases h

theorem orgId_of_verify {token : Bytes} {keys : KeySet} {now : ℕ} {claims : Claims HubClaims}
    (h : verify x (hubClaims x) token keys policy now = .ok claims) {text : Bytes}
    (htext : claims.extra.orgId = some text) : OrgId x token text := by
  obtain ⟨hd, p, s, payload, htoken, hdecode, hextra⟩ := verify_extra h
  obtain ⟨json, hjson, hextra⟩ := Option.bind_eq_some_iff.mp hextra
  unfold HubClaims.ofJson at hextra
  split at hextra
  · next members =>
    obtain ⟨orgId, horgId, heq⟩ := Option.map_eq_some_iff.mp hextra
    rw [← heq] at htext
    obtain rfl : orgId = some text := htext
    obtain ⟨o, ho, hstring⟩ := Option.bind_eq_some_iff.mp horgId
    rw [optString_eq_some hstring] at ho
    exact ⟨members, ⟨hd, p, s, payload, htoken, hdecode, hjson⟩, mem_of_member_eq_some ho⟩
  · cases hextra

theorem tenantOf_eq_ok {claims : Claims HubClaims} {tenant : TenantClaims}
    (h : tenantOf claims = .ok tenant) : tenant.claims = claims ∧ tenant.orgId ≠ [] ∧
      ∃ text, claims.extra.orgId = some text ∧ tenant.orgId = strTrim text := by
  unfold tenantOf at h
  split at h
  · cases h
  · next orgId hfilter =>
    cases h
    obtain ⟨hmap, hne⟩ := Option.filter_eq_some_iff.mp hfilter
    obtain ⟨text, htext, rfl⟩ := Option.map_eq_some_iff.mp hmap
    exact ⟨rfl, of_decide_eq_true hne, text, htext, rfl⟩

/-- A request with a token that the authenticator accepts, in the name of an organisation. -/
structure Admits (x : Externals) (policy : JwtPolicy) (dpop : Option DpopConfig)
    (m : Moment HubClaims) (head : RequestHead Ext) (tenant : TenantClaims) : Prop where
  accepts : Accepts x (hubClaims x) policy dpop m head tenant.claims
  orgId : ∃ scheme token text, accepted dpop head = some (scheme, token) ∧ OrgId x token text ∧
    tenant.orgId = strTrim text
  named : tenant.orgId ≠ []

theorem admits_of_decision {m : Moment HubClaims} {keys : KeySet} {head : RequestHead Ext}
    (hm : m.Reachable x (hubClaims x) policy keys head) {tenant : TenantClaims}
    (h : decision x policy dpop m head = .ok tenant) : Admits x policy dpop m head tenant := by
  unfold decision HubTenantGate.authenticate at h
  cases hr : (JwtChallenge.authenticate x (hubClaims x) policy dpop m.auth m.replay head
      m.now).result with
  | error e =>
    rw [hr] at h
    cases h
  | ok claims =>
    rw [hr] at h
    simp only at h
    cases htenant : tenantOf claims with
    | error e =>
      rw [htenant] at h
      cases h
    | ok tenant' =>
      rw [htenant] at h
      cases h
      obtain ⟨rfl, hne, text, htext, htrim⟩ := tenantOf_eq_ok htenant
      obtain ⟨scheme, token, haccepted, hverify⟩ := verify_of_authenticate hm hr
      exact ⟨⟨hr, scheme, token, haccepted, hverify⟩,
        ⟨scheme, token, text, haccepted, orgId_of_verify hverify htext, htrim⟩, hne⟩

variable [DecidableEq TypeId]

/-- On every connection: but for the middlewares, code runs on requests of a tenant, whose name
is in the verified token and is not blank, and the tenant that it reads is this one; if the later
gates leave the tenant in place, it does read it. A token without a name is answered by 403, and
one that is not accepted by 401. -/
theorem tenant_gate_law {server : Server Ext} {env : Env} {b : Badge Ext TenantClaims}
    {pre post : List (ℕ → RequestHead Ext → Check Ext)} {moments : ℕ → Moment HubClaims}
    {keys : KeySet}
    (hgates : server.gates = pre ++ (fun n => check x policy dpop b (moments n)) :: post)
    (hpost : ∀ gate ∈ post, ∀ n head, MakesNone b.id (gate n head)) {turns k : ℕ}
    {reads : List Read} {es : List (Event Ext)} {t : ℕ} {request : Request Ext}
    (hturn : (handleConnection server env turns (.start reads)).turns[k]? = some es)
    (hread : .read t request ∈ es)
    (hmoment : (moments (k + 1)).Reachable x (hubClaims x) policy keys request.head) :
    (∀ hook ext, .ran hook ext ∈ es → isMiddleware hook = false → ∃ tenant,
      Admits x policy dpop (moments (k + 1)) request.head tenant ∧
      (∀ t, b.verified ext = some t → t = tenant) ∧
      ((∀ gate ∈ post, ∀ n head, Leaves b.id (gate n head)) → b.verified ext = some tenant)) ∧
    (.delegated ∈ es → ∃ tenant,
      Admits x policy dpop (moments (k + 1)) request.head tenant) ∧
    (∀ claims, Accepts x (hubClaims x) policy dpop (moments (k + 1)) request.head claims →
      (claims.extra.orgId.map strTrim).getD [] = [] → ∃ keepAlive done,
        es.filter isWrite = [.responded (.whole ((earlier pre (k + 1) request.head).getD
          (rejectJson 403 forbiddenBody))) keepAlive done]) ∧
    ∀ e, (JwtChallenge.authenticate x (hubClaims x) policy dpop (moments (k + 1)).auth
        (moments (k + 1)).replay request.head (moments (k + 1)).now).result = .error e →
      ∃ keepAlive done, es.filter isWrite = [.responded (.whole
        ((earlier pre (k + 1) request.head).getD (rejection dpop request.head (.jwt e))))
        keepAlive done] := by
  have hlaw := gateLaw_of_turn hturn hread
  have hadmitted := gateLaw_admitted hgates hlaw fun gate hgate => hpost gate hgate _ _
  refine ⟨fun hook ext hran hnot => ?_, fun hdelegated => ?_, fun claims haccepts hblank => ?_,
    fun e he => ?_⟩
  · obtain ⟨tenant, hdecision, hread⟩ := hadmitted.reached hook ext hran hnot
    refine ⟨tenant, admits_of_decision hmoment hdecision, hread, fun hleaves => ?_⟩
    obtain ⟨tenant', hdecision', hverified⟩ :=
      gateLaw_verified hgates hlaw (fun gate hgate => hleaves gate hgate _ _) hran hnot
    rw [hverified, hread tenant' hverified]
  · obtain ⟨tenant, hdecision⟩ := hadmitted.handed hdelegated
    exact ⟨tenant, admits_of_decision hmoment hdecision⟩
  · apply hadmitted.refused
    have hmissing : tenantOf claims = .error .missingOrgId := by
      unfold tenantOf
      cases hmap : claims.extra.orgId.map strTrim with
      | none => rfl
      | some orgId =>
        rw [hmap] at hblank
        obtain rfl : orgId = [] := hblank
        rfl
    rw [decision, HubTenantGate.authenticate, haccepts.result]
    simp only [hmissing]
    rfl
  · apply hadmitted.refused
    rw [decision, HubTenantGate.authenticate, he]
    rfl

end

namespace TenantSample

/-- `TenantVerified`. -/
abbrev Ext : Unit → Type := fun _ => TenantClaims

def badge : Badge Ext TenantClaims := ⟨(), id, id, fun _ => rfl⟩

def externals (orgId : Bytes) : Externals :=
  { sampleExternals with
    json := fun s =>
      if s = samplePayload then
        some (.object [(ascii "iss", .string (ascii "i")), (ascii "aud", .string (ascii "a")),
          (ascii "exp", .natural 200), (ascii "org_id", .string orgId)])
      else sampleExternals.json s }

def moment : Moment HubClaims := ⟨.new sampleKeys, .new JwtDpopReplay.Sample.window 1, 150⟩

def server (orgId : Bytes) : Server Ext where
  middlewares := 1
  gates := [fun _ => check (externals orgId) samplePolicy none badge moment]
  upgradeHandlers := []
  tryHandleUpgrade _ _ := false
  interceptors := []
  tryIntercept _ _ _ := none
  handler := none
  finalizeResponse _ _ response := response
  finalizeStreamingHead _ _ response := response
  prepareStreamingCompression _ _ response := (response, .identity)
  keepAliveEnabled := true
  maxRequestsPerConnection := 100
  maxConnectionLifetime := 1
  maxBodyBytes := 0

def finalized (orgId : Bytes) (es : List (Event Ext)) : Bool :=
  es.any isRead && es.any fun
    | .ran .finalizeResponse ext => (badge.verified ext).any (·.orgId = orgId)
    | _ => false

end TenantSample

set_option maxRecDepth 20000 in
open TenantSample in
theorem tenant_gate_law_trimmed :
    ∃ es t request ext tenant,
      (handleConnection (server (ascii " o ")) .calm 1 (.start JwtGate.Sample.reads)).turns[0]? =
        some es ∧ .read t request ∈ es ∧ .ran .finalizeResponse ext ∈ es ∧
      badge.verified ext = some tenant ∧ tenant.orgId = ascii "o" ∧
      Admits (externals (ascii " o ")) samplePolicy none moment request.head tenant := by
  have hturn : ((handleConnection (server (ascii " o ")) .calm 1
      (.start JwtGate.Sample.reads)).turns[0]?).any (finalized (ascii "o")) = true := by
    decide +kernel
  obtain ⟨es, hes, hany⟩ := (Option.any_eq_true _ _).mp hturn
  obtain ⟨hread, hfinal⟩ := Bool.and_eq_true_iff.mp hany
  obtain ⟨r, hr, hread⟩ := List.any_eq_true.mp hread
  obtain ⟨f, hf, hfinal⟩ := List.any_eq_true.mp hfinal
  cases r <;> try cases hread
  rename_i t request
  cases f <;> try cases hfinal
  rename_i hook ext
  cases hook <;> try cases hfinal
  obtain ⟨tenant, hverified, horg⟩ := (Option.any_eq_true _ _).mp hfinal
  have hgates : (server (ascii " o ")).gates = [] ++ (fun _ => check (externals (ascii " o "))
      samplePolicy none badge moment) :: [] := rfl
  obtain ⟨tenant', hadmits, -, hleft⟩ := (tenant_gate_law hgates (fun _ h => nomatch h) hes hr
    (reachable_new sampleKeys _ _ request.head)).1 .finalizeResponse ext hf rfl
  obtain rfl := Option.some.inj (hverified.symm.trans (hleft fun _ h => nomatch h))
  exact ⟨es, t, request, ext, tenant, hes, hr, hf, hverified, of_decide_eq_true horg, hadmits⟩

end FandheBackend.HubTenantGate
