import FandheBackend.CoreAdmission
import FandheBackend.JwtChallenge

set_option autoImplicit false

namespace FandheBackend.JwtGate
open StdBytes ActionRuns HttpRequestHead HttpResponse HttpConnection CoreGates CoreConnection
open CoreConnectionTurns CoreConnectionGates CoreAdmission JwtVerify JwtTokenCache JwtDpopReplay
open JwtAuthenticator JwtChallenge

structure Moment (E : Type) where
  auth : Authenticator E
  replay : ReplayStore
  now : ℕ

section
variable {TypeId : Type} {Ext : TypeId → Type} {E : Type} (x : Externals)
  (extra : Bytes → Option E) (policy : JwtPolicy) (dpop : Option DpopConfig)

/-- `self.auth.authenticate(head)` and the rejection for its errors. -/
def decision (m : Moment E) (head : RequestHead Ext) : Except Response (Claims E) :=
  (JwtChallenge.authenticate x extra policy dpop m.auth m.replay head m.now).result.mapError
    (unauthorizedResponse dpop head)

/-- `JwtGate::check`. -/
def check [DecidableEq TypeId] (b : Badge Ext (Claims E)) (m : Moment E) (head : RequestHead Ext) :
    Check Ext :=
  admissionGate b (decision x extra policy dpop m) head

/-- The authenticator was used and its keys were set in some way before, and SHA-256 tells the
tokens apart that it saw. -/
def Moment.Reachable (m : Moment E) (keys : KeySet) (head : RequestHead Ext) : Prop :=
  ∃ actions, run (Authenticator.step x extra policy) actions (.new keys) = some m.auth ∧
    ∀ a ∈ tokens actions ++ presented head, ∀ b ∈ tokens actions ++ presented head,
      x.sha256 a = x.sha256 b → a = b

variable {x extra policy dpop}

theorem reachable_new (keys : KeySet) (replay : ReplayStore) (now : ℕ) (head : RequestHead Ext) :
    (⟨.new keys, replay, now⟩ : Moment E).Reachable x extra policy keys head := by
  refine ⟨[], rfl, fun a ha b hb _ => ?_⟩
  simp only [tokens, presented, List.filterMap_nil, List.nil_append, List.mem_map,
    Option.mem_toList] at ha hb
  obtain ⟨c, hc, rfl⟩ := ha
  obtain ⟨c', hc', rfl⟩ := hb
  rw [Option.mem_unique hc hc']

/-- The claims of an accepted request are those that the cache or the verification gave. -/
theorem cached_of_authenticateDpop {d : DpopConfig} {auth : Authenticator E} {replay : ReplayStore}
    {head : RequestHead Ext} {now : ℕ} {claims : Claims E}
    (h : (authenticateDpop x extra policy d auth replay head now).result = .ok claims) :
    ∃ scheme token, credentials head = some (scheme, token) ∧
      (verifyTokenCached x extra policy auth token now).1 = .ok claims := by
  unfold authenticateDpop at h
  cases hc : credentials head with
  | none =>
    simp only [hc] at h
    cases h
  | some c =>
    obtain ⟨scheme, token⟩ := c
    refine ⟨scheme, token, rfl, ?_⟩
    simp only [hc] at h
    cases hcached : verifyTokenCached x extra policy auth token now with
    | mk result auth' =>
    simp only [hcached] at h
    cases result with
    | error e => cases h
    | ok claims' =>
      cases hproof : proofToRegister x d head scheme token claims' now with
      | error e =>
        simp only [hproof] at h
        cases h
      | ok o =>
        simp only [hproof] at h
        cases o with
        | none =>
          cases h
          rfl
        | some v =>
          cases hregister : replay.register x v now with
          | mk registered store =>
          simp only [hregister] at h
          cases registered <;> cases h
          rfl

theorem cached_of_authenticate {auth : Authenticator E} {replay : ReplayStore}
    {head : RequestHead Ext} {now : ℕ} {claims : Claims E}
    (h : (JwtChallenge.authenticate x extra policy dpop auth replay head now).result =
      .ok claims) :
    ∃ scheme token, accepted dpop head = some (scheme, token) ∧
      (verifyTokenCached x extra policy auth token now).1 = .ok claims := by
  cases dpop with
  | some d => exact cached_of_authenticateDpop h
  | none =>
    unfold JwtChallenge.authenticate at h
    cases htoken : bearerToken head with
    | none =>
      simp only [htoken] at h
      cases h
    | some token =>
      simp only [htoken] at h
      refine ⟨.bearer, token, by rw [accepted, htoken]; rfl, ?_⟩
      cases hresult : (verifyTokenCached x extra policy auth token now).1 with
      | error e =>
        rw [hresult] at h
        cases h
      | ok claims' =>
        rw [hresult] at h
        cases h
        rfl

theorem credentials_of_accepted {head : RequestHead Ext} {scheme : Scheme} {token : Bytes}
    (h : accepted dpop head = some (scheme, token)) : credentials head = some (scheme, token) := by
  cases dpop with
  | some d => exact h
  | none =>
    obtain ⟨token', htoken, heq⟩ := Option.map_eq_some_iff.mp h
    cases heq
    exact credentials_of_bearerToken htoken

/-- Whoever is accepted presents a token that verifies at that moment. -/
theorem verify_of_authenticate {m : Moment E} {keys : KeySet} {head : RequestHead Ext}
    (hm : m.Reachable x extra policy keys head) {claims : Claims E}
    (h : (JwtChallenge.authenticate x extra policy dpop m.auth m.replay head m.now).result =
      .ok claims) :
    ∃ scheme token, accepted dpop head = some (scheme, token) ∧
      verify x extra token (m.auth.arcs m.auth.current) policy m.now = .ok claims := by
  obtain ⟨actions, hrun, hsha⟩ := hm
  have hinv := invariant_run hsha (List.subset_append_left _ _) (invariant_new _ keys) hrun
  obtain ⟨scheme, token, haccepted, hcached⟩ := cached_of_authenticate h
  have hknown : token ∈ tokens actions ++ presented head :=
    List.mem_append_right _ (by simp [presented, credentials_of_accepted haccepted])
  refine ⟨scheme, token, haccepted, ?_⟩
  rw [← verifyTokenCached_eq hinv hsha hknown m.now]
  exact hcached

structure Accepts (x : Externals) (extra : Bytes → Option E) (policy : JwtPolicy)
    (dpop : Option DpopConfig) (m : Moment E) (head : RequestHead Ext) (claims : Claims E) :
    Prop where
  result : (JwtChallenge.authenticate x extra policy dpop m.auth m.replay head m.now).result =
    .ok claims
  token : ∃ scheme token, accepted dpop head = some (scheme, token) ∧
    verify x extra token (m.auth.arcs m.auth.current) policy m.now = .ok claims

theorem accepts_of_decision {m : Moment E} {keys : KeySet} {head : RequestHead Ext}
    (hm : m.Reachable x extra policy keys head) {claims : Claims E}
    (h : decision x extra policy dpop m head = .ok claims) :
    Accepts x extra policy dpop m head claims := by
  have hresult : (JwtChallenge.authenticate x extra policy dpop m.auth m.replay head m.now).result =
      .ok claims := by
    unfold decision at h
    cases hr : (JwtChallenge.authenticate x extra policy dpop m.auth m.replay head m.now).result with
    | error e =>
      rw [hr] at h
      cases h
    | ok claims' =>
      rw [hr] at h
      cases h
      rfl
  exact ⟨hresult, verify_of_authenticate hm hresult⟩

variable [DecidableEq TypeId]

/-- On every connection: but for the middlewares, code runs on requests that the authenticator
accepts, and what it reads there are the claims of this request. Another request is answered by
the first gate that rejects it, and by nothing else. -/
theorem jwt_gate_law {server : Server Ext} {env : Env} {b : Badge Ext (Claims E)}
    {pre post : List (ℕ → RequestHead Ext → Check Ext)} {moments : ℕ → Moment E} {keys : KeySet}
    (hgates : server.gates = pre ++ (fun n => check x extra policy dpop b (moments n)) :: post)
    (hpost : ∀ gate ∈ post, ∀ n head, MakesNone b.id (gate n head)) {turns k : ℕ}
    {reads : List Read} {es : List (Event Ext)} {t : ℕ} {request : Request Ext}
    (hturn : (handleConnection server env turns (.start reads)).turns[k]? = some es)
    (hread : .read t request ∈ es)
    (hmoment : (moments (k + 1)).Reachable x extra policy keys request.head) :
    (∀ hook ext, .ran hook ext ∈ es → isMiddleware hook = false → ∃ claims,
      Accepts x extra policy dpop (moments (k + 1)) request.head claims ∧
      (∀ c, b.verified ext = some c → c = claims) ∧
      ((∀ gate ∈ post, ∀ n head, Leaves b.id (gate n head)) → b.verified ext = some claims)) ∧
    (.delegated ∈ es → ∃ claims,
      Accepts x extra policy dpop (moments (k + 1)) request.head claims) ∧
    ∀ e, (JwtChallenge.authenticate x extra policy dpop (moments (k + 1)).auth
        (moments (k + 1)).replay request.head (moments (k + 1)).now).result = .error e →
      ∃ keepAlive done, es.filter isWrite = [.responded (.whole
        ((earlier pre (k + 1) request.head).getD (unauthorizedResponse dpop request.head e)))
        keepAlive done] := by
  have hlaw := gateLaw_of_turn hturn hread
  have hadmitted := gateLaw_admitted hgates hlaw fun gate hgate => hpost gate hgate _ _
  refine ⟨fun hook ext hran hnot => ?_, fun hdelegated => ?_, fun e he => ?_⟩
  · obtain ⟨claims, hdecision, hread⟩ := hadmitted.reached hook ext hran hnot
    refine ⟨claims, accepts_of_decision hmoment hdecision, hread, fun hleaves => ?_⟩
    obtain ⟨claims', hdecision', hverified⟩ :=
      gateLaw_verified hgates hlaw (fun gate hgate => hleaves gate hgate _ _) hran hnot
    rw [hverified, hread claims' hverified]
  · obtain ⟨claims, hdecision⟩ := hadmitted.handed hdelegated
    exact ⟨claims, accepts_of_decision hmoment hdecision⟩
  · exact hadmitted.refused _ (by rw [decision, he]; rfl)

/-- With a second gate for the same claims no request of any connection gets through. One that
both accept is an internal error, and the claims of the first gate are not replaced. -/
theorem registered_twice_law {x' : Externals} {extra' : Bytes → Option E} {policy' : JwtPolicy}
    {dpop' : Option DpopConfig} {server : Server Ext} {env : Env} {b : Badge Ext (Claims E)}
    {pre mid post : List (ℕ → RequestHead Ext → Check Ext)} {moments moments' : ℕ → Moment E}
    (hgates : server.gates = pre ++ (fun n => check x extra policy dpop b (moments n)) ::
      (mid ++ (fun n => check x' extra' policy' dpop' b (moments' n)) :: post))
    (hmid : ∀ gate ∈ mid, ∀ n head, Leaves b.id (gate n head)) {turns k : ℕ}
    {reads : List Read} {es : List (Event Ext)} {t : ℕ} {request : Request Ext}
    (hturn : (handleConnection server env turns (.start reads)).turns[k]? = some es)
    (hread : .read t request ∈ es) :
    (∀ hook ext, .ran hook ext ∈ es → isMiddleware hook = true) ∧ .delegated ∉ es ∧
      ∃ keepAlive done, es.filter isWrite = [.responded (.whole
        ((earlier (pre ++ (fun n => check x extra policy dpop b (moments n)) :: mid) (k + 1)
            request.head).getD
          (secondRejection (decision x' extra' policy' dpop' (moments' (k + 1)) request.head))))
        keepAlive done] :=
  gateLaw_twice hgates (gateLaw_of_turn hturn hread) fun gate hgate => hmid gate hgate _ _

end

namespace Sample

abbrev Ext : Bool → Type
  | true => Claims Unit
  | false => ℕ

def badge : Badge Ext (Claims Unit) := ⟨true, id, id, fun _ => rfl⟩

def moment : Moment Unit := ⟨.new sampleKeys, .new JwtDpopReplay.Sample.window 1, 150⟩

def numbered (n : ℕ) (_ : RequestHead Ext) : Check Ext :=
  @Check.insert Bool Ext false n fun _ => .done .allow

def server : Server Ext where
  middlewares := 1
  gates := [numbered, fun _ => check sampleExternals (fun _ => some ()) samplePolicy none badge moment,
    numbered]
  upgradeHandlers := []
  tryHandleUpgrade _ _ := false
  interceptors := []
  tryIntercept _ _ _ := none
  handler := none
  finalizeResponse _ _ response := response
  finalizeStreamingHead _ _ response := response
  prepareStreamingCompression _ _ response := (response, .identity)
  keepAliveEnabled := true
  maxRequestsPerConnection := 100
  maxConnectionLifetime := 1
  maxBodyBytes := 0

def reads : List Read :=
  [.data (ascii "GET / HTTP/1.1\r\nauthorization: Bearer " ++ sampleToken ++ ascii "\r\n\r\n")]

def finalized (es : List (Event Ext)) : Bool :=
  es.any isRead && es.any fun
    | .ran .finalizeResponse ext => badge.verified ext = some sampleClaims
    | _ => false

def twice : Server Ext where
  __ := server
  gates := server.gates ++ server.gates

def isInternalError : Event Ext → Bool
  | .responded (.whole response) _ _ =>
    response = HttpResponse.errorResponse 500 "internal_error".toList
  | _ => false

end Sample

set_option maxRecDepth 20000 in
open Sample in
theorem jwt_gate_law_bearer :
    ∃ es t request ext, (handleConnection Sample.server .calm 1 (.start Sample.reads)).turns[0]? =
        some es ∧ .read t request ∈ es ∧ .ran .finalizeResponse ext ∈ es ∧
      badge.verified ext = some sampleClaims ∧
      Accepts sampleExternals (fun _ => some ()) samplePolicy none moment request.head
        sampleClaims := by
  have hturn : ((handleConnection Sample.server .calm 1 (.start Sample.reads)).turns[0]?).any
      finalized = true := by decide +kernel
  obtain ⟨es, hes, hany⟩ := (Option.any_eq_true _ _).mp hturn
  obtain ⟨hread, hfinal⟩ := Bool.and_eq_true_iff.mp hany
  obtain ⟨r, hr, hread⟩ := List.any_eq_true.mp hread
  obtain ⟨f, hf, hfinal⟩ := List.any_eq_true.mp hfinal
  cases r <;> try cases hread
  rename_i t request
  cases f <;> try cases hfinal
  rename_i hook ext
  cases hook <;> try cases hfinal
  have hgates : Sample.server.gates = [numbered] ++ (fun _ => check sampleExternals
      (fun _ => some ()) samplePolicy none badge moment) :: [numbered] := rfl
  have hpost : ∀ gate ∈ [numbered], ∀ n head, MakesNone badge.id (gate n head) := by
    intro gate hgate n head
    obtain rfl := List.mem_singleton.mp hgate
    exact (Foreign.insert (by decide) fun _ => .done _).makesNone
  obtain ⟨claims, haccepts, hclaims, -⟩ := (jwt_gate_law hgates hpost hes hr
    (reachable_new sampleKeys _ _ request.head)).1 .finalizeResponse ext hf rfl
  obtain rfl := hclaims sampleClaims (of_decide_eq_true hfinal)
  exact ⟨es, t, request, ext, hes, hr, hf, of_decide_eq_true hfinal, haccepts⟩

set_option maxRecDepth 20000 in
open Sample in
theorem registered_twice_law_bearer :
    ∃ es t request, (handleConnection Sample.twice .calm 1 (.start Sample.reads)).turns[0]? =
        some es ∧ .read t request ∈ es ∧ es.any isInternalError = true ∧
      (∀ hook ext, .ran hook ext ∈ es → isMiddleware hook = true) ∧ .delegated ∉ es := by
  have hturn : ((handleConnection Sample.twice .calm 1 (.start Sample.reads)).turns[0]?).any
      (fun es => es.any isRead && es.any isInternalError) = true := by decide +kernel
  obtain ⟨es, hes, hany⟩ := (Option.any_eq_true _ _).mp hturn
  obtain ⟨hread, herror⟩ := Bool.and_eq_true_iff.mp hany
  obtain ⟨r, hr, hread⟩ := List.any_eq_true.mp hread
  cases r <;> try cases hread
  rename_i t request
  have hgates : Sample.twice.gates = [numbered] ++ (fun _ => check sampleExternals
      (fun _ => some ()) samplePolicy none badge moment) :: ([numbered, numbered] ++
        (fun _ => check sampleExternals (fun _ => some ()) samplePolicy none badge moment) ::
          [numbered]) := rfl
  have hmid : ∀ gate ∈ [numbered, numbered], ∀ n head, Leaves badge.id (gate n head) := by
    intro gate hgate n head ext
    obtain rfl : gate = numbered := by simpa using hgate
    exact get_insert_of_ne (E := Ext) Bool.false_ne_true n
  obtain ⟨hhooks, hdelegated, -⟩ := registered_twice_law hgates hmid hes hr
  exact ⟨es, t, request, hes, hr, herror, hhooks, hdelegated⟩

end FandheBackend.JwtGate
