import FandheBackend.CoreDialogue
import FandheBackend.WsSessionWire
import FandheBackend.WsUpgrade

set_option autoImplicit false

/-!
# WebSocket routes of a server (`Server::websocket`, `plugin::try_handle_upgrade`)

A configuration that is registered is kept twice: an adapter among the upgrade handlers asks
whether a request is meant for it, and `try_handle_upgrade` looks for the configuration again.
The session gets the bytes that the connection read too far.
-/
namespace FandheBackend.CoreWebSockets
open StdBytes HttpRequestHead HttpConnection HttpConnectionStream HttpConnectionRuns HttpResponse
open HttpSentRequest CoreGates CoreConnection CoreConnectionTurns CoreConnectionPlan
open CoreConnectionObservations CoreConnectionSpoken CoreDialogue WsHandshake
open CorePlugins (textServer)

section Registration
variable {TypeId Addr : Type} {E : TypeId → Type}

/-- `handshake::matches`. -/
def matchesUpgrade (head : RequestHead E) (config : WebSocketConfig E Addr) : Bool :=
  (matchConfigPath head config).isSome && head.method == ascii "GET" &&
    (head.header (ascii "upgrade")).any fun v => eqIgnoreAsciiCase v (ascii "websocket")

structure Upgrades (E : TypeId → Type) (Addr : Type) where
  upgradeHandlers : List (ℕ → RequestHead E → Bool)
  websocketConfigs : List (WebSocketConfig E Addr)

/-- `Server::upgrade_handler` or `Server::websocket`. -/
inductive Registration (E : TypeId → Type) (Addr : Type) where
  | upgradeHandler (isMatch : ℕ → RequestHead E → Bool)
  | websocket (config : WebSocketConfig E Addr)

namespace Upgrades

def new : Upgrades E Addr := ⟨[], []⟩

def upgradeHandler (u : Upgrades E Addr) (isMatch : ℕ → RequestHead E → Bool) : Upgrades E Addr :=
  { u with upgradeHandlers := u.upgradeHandlers ++ [isMatch] }

def websocket (u : Upgrades E Addr) (config : WebSocketConfig E Addr) : Upgrades E Addr where
  upgradeHandlers := u.upgradeHandlers ++ [fun _ head => matchesUpgrade head config]
  websocketConfigs := u.websocketConfigs ++ [config]

def register (u : Upgrades E Addr) : Registration E Addr → Upgrades E Addr
  | .upgradeHandler isMatch => u.upgradeHandler isMatch
  | .websocket config => u.websocket config

def build (calls : List (Registration E Addr)) : Upgrades E Addr := calls.foldl register new

end Upgrades

/-- The task that `try_handle_upgrade` spawns: the session of a configuration, with the bytes that
were read behind the request. -/
structure Spawned (E : TypeId → Type) (Addr : Type) where
  config : WebSocketConfig E Addr
  head : RequestHead E
  leftover : Bytes

def tryHandleUpgrade (u : Upgrades E Addr) (head : RequestHead E) (leftover : Bytes) :
    Option (Spawned E Addr) :=
  (u.websocketConfigs.find? (matchesUpgrade head)).map fun config => ⟨config, head, leftover⟩

/-- A server with these upgrade handlers and configurations in place of its own. -/
def Upgrades.onServer (u : Upgrades E Addr) (server : Server E) : Server E :=
  { server with
    upgradeHandlers := u.upgradeHandlers
    tryHandleUpgrade := fun _ head => (tryHandleUpgrade u head []).isSome }

def websocket? : Registration E Addr → Option (WebSocketConfig E Addr)
  | .upgradeHandler _ => none
  | .websocket config => some config

def takes (n : ℕ) (head : RequestHead E) : Registration E Addr → Bool
  | .upgradeHandler isMatch => isMatch n head
  | .websocket config => matchesUpgrade head config

theorem build_concat (calls : List (Registration E Addr)) (call : Registration E Addr) :
    Upgrades.build (calls ++ [call]) = (Upgrades.build calls).register call := by
  rw [Upgrades.build, List.foldl_append]
  rfl

theorem build_configs (calls : List (Registration E Addr)) :
    (Upgrades.build calls).websocketConfigs = calls.filterMap websocket? := by
  induction calls using List.reverseRecOn with
  | nil => rfl
  | append_singleton calls call ih =>
    rw [build_concat, List.filterMap_append, ← ih]
    cases call with
    | upgradeHandler isMatch => exact (List.append_nil _).symm
    | websocket config => rfl

theorem build_any (calls : List (Registration E Addr)) (n : ℕ) (head : RequestHead E) :
    (Upgrades.build calls).upgradeHandlers.any (fun handler => handler n head) =
      calls.any (takes n head) := by
  induction calls using List.reverseRecOn with
  | nil => rfl
  | append_singleton calls call ih =>
    rw [build_concat, List.any_append, ← ih]
    cases call with
    | upgradeHandler isMatch =>
      exact (List.any_append).trans rfl
    | websocket config =>
      exact (List.any_append).trans rfl

end Registration

section Runs
variable {TypeId : Type} {E : TypeId → Type} [DecidableEq TypeId]
variable {server : Server E} {env : Env} (h : Undisturbed server env)

def Reaches (server : Server E) (env : Env) (k : ℕ) (s s' : State E) : Prop :=
  ∀ turns, ∃ earlier, handleConnection server env (k + turns) s =
    { handleConnection server env turns s' with
      turns := earlier ++ (handleConnection server env turns s').turns }

include h

/-- One request after the other is answered, and the bytes behind them stay. -/
theorem reaches_after {sents : List Sent} {requests : List (Request E)}
    (hread : ReadAll env.usizeMax server.maxBodyBytes sents requests) {s : State E}
    (hclean : Clean s.reads) {rest : Bytes}
    (hpending : pending s.reads s.conn = sents.flatMap Sent.text ++ rest)
    (halive : ∀ k request, requests[k]? = some request →
      (said server (s.requestsServed + 1 + k) request).alive = true) :
    ∃ s', Reaches server env sents.length s s' ∧
      s'.out = s.out ++ dialogue server (s.requestsServed + 1) requests ∧ Clean s'.reads ∧
      pending s'.reads s'.conn = rest ∧ s'.requestsServed = s.requestsServed + sents.length := by
  induction hread generalizing s with
  | nil =>
    refine ⟨s, fun turns => ⟨[], ?_⟩, (List.append_nil _).symm, hclean, hpending, rfl⟩
    rw [List.length_nil, Nat.zero_add]
    rfl
  | @cons sent request sents requests hsent _ ih =>
    rw [List.flatMap_cons, List.append_assoc] at hpending
    have hnext := hsent.next (sents.flatMap Sent.text ++ rest)
    rw [← hpending] at hnext
    cases iteration_spoken h hclean with
    | ended _ _ _ hnothing _ => exact absurd hnext (hnothing request _)
    | served request' rest' hnext' _ halive' hout hclean' hpending' hserved =>
      rw [hnext] at hnext'
      obtain ⟨hrequest, rfl⟩ := Prod.mk.inj (Except.ok.inj hnext')
      obtain rfl := Option.some.inj hrequest
      obtain ⟨s', hreaches, hout', hclean'', hrest, hserved'⟩ := ih hclean' hpending' (by
        intro k later hlater
        rw [hserved, Nat.add_right_comm _ 1 k]
        exact halive (k + 1) later hlater)
      refine ⟨s', fun turns => ?_, ?_, hclean'', hrest, ?_⟩
      · obtain ⟨earlier, hrun⟩ := hreaches turns
        refine ⟨(iteration server env s).2.events :: earlier, ?_⟩
        have hagain : (iteration server env s).1 = true := halive'.trans (halive 0 request rfl)
        rw [List.length_cons, Nat.add_right_comm, handleConnection]
        simp only [hagain, if_true, hrun]
        rfl
      · rw [hout', hout, hserved, dialogue, List.append_assoc]
      · rw [hserved', hserved, List.length_cons]
        omega

omit h [DecidableEq TypeId] in
theorem answerPlan_ne_upgrade (n : ℕ) (head : RequestHead E) (body : Bytes) :
    answerPlan server n head body ≠ .upgrade := by
  rw [answerPlan]
  cases chosen server n head body with
  | inl response => exact Plan.noConfusion
  | inr streaming =>
    simp only [streamingPlan]
    cases head.version <;> exact Plan.noConfusion

omit h [DecidableEq TypeId] in
/-- Only an upgrade handler takes a request away from HTTP. -/
theorem allowedPlan_eq_upgrade (n : ℕ) (head : RequestHead E) (body : Bytes) :
    allowedPlan server n head body = .upgrade ↔
      server.upgradeHandlers.any (fun handler => handler n head) = true := by
  rw [allowedPlan]
  cases server.upgradeHandlers.any fun handler => handler n head with
  | true => exact ⟨fun _ => rfl, fun _ => rfl⟩
  | false => exact ⟨fun heq => absurd heq (answerPlan_ne_upgrade n head body),
    fun heq => absurd heq Bool.false_ne_true⟩

omit h in
theorem serve_delegated {request : Request E} {s : State E}
    (hrunning : ∀ t, env.shutdownFlag t = false)
    (hplan : planOf server s.requestsServed request = .upgrade)
    (htaken : server.tryHandleUpgrade s.requestsServed
      (answeredHead server s.requestsServed request.head) = true) :
    Event.delegated ∈ (serve server env request s).2.events := by
  rw [planOf] at hplan
  rw [answeredHead] at htaken
  rw [serve]
  cases hrejection : (runGates server s.requestsServed request.head).rejection with
  | some response =>
    rw [hrejection] at hplan
    cases hplan
  | none =>
    simp only [hrejection] at hplan htaken ⊢
    have hany := (allowedPlan_eq_upgrade _ _ _).mp hplan
    rw [← (CoreConnectionMiddleware.upgradeMatches_wrote _ _ server.upgradeHandlers 0 _).1] at hany
    rw [serveAllowed, if_pos hany, answerUpgrade]
    simp only [hrunning, htaken, Bool.false_eq_true, if_false, if_true]
    exact List.mem_append_right _ List.mem_cons_self

end Runs

section Law
variable {TypeId Addr : Type} {E : TypeId → Type} [DecidableEq TypeId]

/-- A connection was handed to the session of a configuration, with `tail` still to be read. -/
structure HandedOver (u : Upgrades E Addr) (config : WebSocketConfig E Addr) (head : RequestHead E)
    (tail : Bytes) (run : Served E) : Prop where
  ended : run.alive = false
  delegated : Event.delegated ∈ run.turns.flatten
  spawned : ∃ leftover, tryHandleUpgrade u head run.state.conn.buf.unread =
    some ⟨config, head, leftover⟩ ∧ leftover ++ stream run.state.reads = tail
  params : ∀ peerAddr deriveAcceptKey latest, matchConfigPath head config =
    some (WsUpgrade.Env.matchedParams ⟨head, config, peerAddr, deriveAcceptKey, latest⟩)

omit [DecidableEq TypeId] in
theorem onServer_tryHandleUpgrade (server : Server E) (calls : List (Registration E Addr)) (n : ℕ)
    (head : RequestHead E) :
    ((Upgrades.build calls).onServer server).tryHandleUpgrade n head =
      ((calls.filterMap websocket?).find? (matchesUpgrade head)).isSome := by
  rw [← build_configs]
  exact Option.isSome_map

omit [DecidableEq TypeId] in
/-- The adapters and the configurations agree: what has a configuration is taken from HTTP. -/
theorem any_takes_of_found {calls : List (Registration E Addr)} {n : ℕ} {head : RequestHead E}
    {config : WebSocketConfig E Addr}
    (h : (calls.filterMap websocket?).find? (matchesUpgrade head) = some config) :
    calls.any (takes n head) = true := by
  obtain ⟨call, hcall, hconfig⟩ := List.mem_filterMap.mp (List.mem_of_find?_eq_some h)
  refine List.any_eq_true.mpr ⟨call, hcall, ?_⟩
  cases call with
  | upgradeHandler isMatch => cases hconfig
  | websocket config' =>
    obtain rfl := Option.some.inj hconfig
    have hmatches : matchesUpgrade head config' = true := List.find?_some h
    exact hmatches

omit [DecidableEq TypeId] in
theorem matchConfigPath_of_matches {head : RequestHead E} {config : WebSocketConfig E Addr}
    (h : matchesUpgrade head config = true) (peerAddr : Option Addr)
    (deriveAcceptKey : Bytes → Bytes) (latest : ℕ) :
    matchConfigPath head config =
      some (WsUpgrade.Env.matchedParams ⟨head, config, peerAddr, deriveAcceptKey, latest⟩) := by
  rw [matchesUpgrade, Bool.and_eq_true, Bool.and_eq_true] at h
  obtain ⟨params, hparams⟩ := Option.isSome_iff_exists.mp h.1.1
  rw [WsUpgrade.Env.matchedParams, hparams]
  rfl

variable {server : Server E} {calls : List (Registration E Addr)} {env : Env}

theorem planOf_onServer {n : ℕ} {request : Request E}
    (hallowed : (runGates ((Upgrades.build calls).onServer server) n request.head).rejection = none) :
    let served := (Upgrades.build calls).onServer server
    let head := answeredHead served n request.head
    planOf served n request =
      if calls.any (takes n head) then .upgrade else answerPlan served n head request.body := by
  intro served head
  have hhead : head = headWithExtensions request.head (runGates served n request.head).extensions := by
    simp only [head, answeredHead, show (runGates served n request.head).rejection = none from hallowed]
  rw [planOf, show (runGates served n request.head).rejection = none from hallowed, ← hhead,
    ← build_any]
  rfl

theorem handleConnection_upgrade {upgrade : Sent} {request : Request E} {s : State E}
    (hundisturbed : Undisturbed ((Upgrades.build calls).onServer server) env)
    (hread : upgrade.ReadBy env.usizeMax server.maxBodyBytes request) (hclean : Clean s.reads)
    {tail : Bytes} (hpending : pending s.reads s.conn = upgrade.text ++ tail)
    (hplan : planOf ((Upgrades.build calls).onServer server) (s.requestsServed + 1) request = .upgrade)
    (turns : ℕ) :
    let served := (Upgrades.build calls).onServer server
    let head := answeredHead served (s.requestsServed + 1) request.head
    let found := (calls.filterMap websocket?).find? (matchesUpgrade head)
    let run := handleConnection served env (turns + 1) s
    (∀ config, found = some config →
      HandedOver (Upgrades.build calls) config head tail run ∧ run.state.out = s.out) ∧
    (found = none → run.alive = false ∧
      run.state.out = s.out ++ (Response.empty 501).serialize false) := by
  intro served head found run
  have hnext := hread.next tail
  rw [← hpending] at hnext
  have htaken : served.tryHandleUpgrade (s.requestsServed + 1) head = found.isSome :=
    onServer_tryHandleUpgrade server calls _ head
  have hsaid : said served (s.requestsServed + 1) request =
      ⟨if found.isSome then [] else (Response.empty 501).serialize false, false⟩ := by
    rw [said, hplan, planSaid, htaken]
  cases iteration_spoken hundisturbed hclean with
  | ended _ _ _ hnothing _ => exact absurd hnext (hnothing request tail)
  | served request' rest hnext' hserve halive hout _ hrest hserved =>
    obtain ⟨hrequest, rfl⟩ := Prod.mk.inj (Except.ok.inj (hnext.symm.trans hnext'))
    obtain rfl := Option.some.inj hrequest
    rw [hsaid] at halive hout
    have hrun : run = ⟨[(iteration served env s).2.events], false, (iteration served env s).2⟩ := by
      simp only [run, handleConnection]
      rw [if_neg (by rw [halive]; exact Bool.false_ne_true)]
    rw [hrun]
    refine ⟨fun config hfound => ?_, fun hfound => ?_⟩
    · rw [hfound] at hout htaken
      refine ⟨⟨rfl, ?_, ⟨(iteration served env s).2.conn.buf.unread, ?_, hrest⟩,
        matchConfigPath_of_matches (List.find?_some hfound)⟩, hout.trans (List.append_nil _)⟩
      · obtain ⟨s', hs', heq⟩ := hserve
        rw [List.flatten_singleton, heq]
        exact serve_delegated hundisturbed.running (by rw [hs']; exact hplan)
          (by rw [hs']; exact htaken)
      · rw [tryHandleUpgrade, build_configs]
        exact congrArg _ hfound
    · rw [hfound] at hout
      exact ⟨rfl, hout⟩

/-- A request that a client sends last on a connection is answered like the others, unless one of
the registrations is meant for it. Then it is handed to the first configuration that is, with every
byte behind it, after all the answers before it; without such a configuration it is refused. -/
theorem upgrade_law (server : Server E) (calls : List (Registration E Addr)) {env : Env}
    (hundisturbed : Undisturbed ((Upgrades.build calls).onServer server) env) {sents : List Sent}
    {upgrade : Sent}
    (hsend : ∀ sent ∈ upgrade :: sents, sent.Sendable env.usizeMax server.maxBodyBytes) :
    ∃ (requests : List (Request E)) (request : Request E),
      ReadAll env.usizeMax server.maxBodyBytes sents requests ∧
      upgrade.ReadBy env.usizeMax server.maxBodyBytes request ∧
      let served := (Upgrades.build calls).onServer server
      let n := sents.length + 1
      let head := answeredHead served n request.head
      let found := (calls.filterMap websocket?).find? (matchesUpgrade head)
      (∀ k earlier, requests[k]? = some earlier → (said served (1 + k) earlier).alive = true) →
      (runGates served n request.head).rejection = none →
      (calls.any (takes n head) = false →
        planOf served n request = answerPlan served n head request.body) ∧
      ∀ (tail : Bytes) (cuts : List Bytes), (∀ c ∈ cuts, c ≠ []) →
        cuts.flatten = sents.flatMap Sent.text ++ (upgrade.text ++ tail) →
        ∀ turns, sents.length < turns →
          let run := handleConnection served env turns (.start (cuts.map .data))
          (∀ config, found = some config →
            HandedOver (Upgrades.build calls) config head tail run ∧
              run.state.out = dialogue served 1 requests) ∧
          (found = none → calls.any (takes n head) = true → run.alive = false ∧
            run.state.out = dialogue served 1 requests ++ (Response.empty 501).serialize false) := by
  rw [List.forall_mem_cons] at hsend
  obtain ⟨requests, hrequests⟩ := exists_readAll (E := E) hsend.2
  obtain ⟨request, hrequest⟩ := Sent.exists_readBy (E := E) hsend.1
  refine ⟨requests, request, hrequests, hrequest, ?_⟩
  intro served n head found halive hallowed
  have hplan : planOf served n request =
      if calls.any (takes n head) then .upgrade else answerPlan served n head request.body :=
    planOf_onServer hallowed
  refine ⟨fun hnone => ?_, fun tail cuts hcuts hflatten turns hturns => ?_⟩
  · rw [hplan, hnone, if_neg Bool.false_ne_true]
  · intro run
    obtain ⟨s', hreaches, hout, hclean, hrest, hserved⟩ := reaches_after hundisturbed hrequests
      (s := .start (cuts.map .data)) (clean_map_data hcuts)
      ((pending_new cuts).trans hflatten) halive
    obtain ⟨later, rfl⟩ : ∃ later, turns = sents.length + (later + 1) :=
      ⟨turns - sents.length - 1, by omega⟩
    obtain ⟨earlier, hrun⟩ := hreaches (later + 1)
    have hn : s'.requestsServed + 1 = n := by
      rw [hserved]
      exact congrArg (· + 1) (Nat.zero_add _)
    have hlast := fun htakes => handleConnection_upgrade (s := s') hundisturbed hrequest hclean hrest
      (by rw [hn]; exact hplan.trans (if_pos htakes)) later
    rw [hn] at hlast
    have hbefore : s'.out = dialogue served 1 requests := hout
    rw [hbefore] at hlast
    have hend : run = _ := hrun
    rw [hend]
    refine ⟨fun config hfound => ?_, fun hnone htakes => (hlast htakes).2 hnone⟩
    obtain ⟨⟨hended, hdelegated, hspawned, hparams⟩, hsaid⟩ :=
      (hlast (any_takes_of_found hfound)).1 config hfound
    refine ⟨⟨hended, ?_, hspawned, hparams⟩, hsaid⟩
    rw [List.flatten_append]
    exact List.mem_append_right _ hdelegated

def chat : WebSocketConfig (fun _ : Unit => Unit) Unit :=
  ⟨WsSession.sampleConfig, ascii "/ws", none, none⟩

def opening : Sent :=
  ⟨ascii "GET", ascii "/ws", .http11, [(ascii "Upgrade", ascii "WebSocket")], .none⟩

theorem sendable_opening : opening.Sendable (2 ^ 64 - 1) textServer.maxBodyBytes where
  method := by decide
  target := visible_of_all (by decide)
  target_ne_nil := by decide
  fields := List.forall_mem_singleton.mpr
    ⟨by decide, (visible_of_all (by decide)).fieldValue⟩
  count := by decide
  fits := by decide
  framed := ⟨rfl, rfl⟩
  body := trivial

theorem upgrade_law_chat :
    let served := (Upgrades.build [.upgradeHandler fun _ _ => false, .websocket chat]).onServer
      textServer
    ∃ head : RequestHead (fun _ : Unit => Unit), opening.ReadAs head ∧
      ∀ (tail : Bytes) (cuts : List Bytes), (∀ c ∈ cuts, c ≠ []) →
        cuts.flatten = opening.text ++ tail →
        ∀ turns, 0 < turns →
          let run := handleConnection served .calm turns (.start (cuts.map .data))
          HandedOver (Upgrades.build [.upgradeHandler fun _ _ => false, .websocket chat]) chat head
            tail run ∧ run.state.out = [] := by
  intro served
  have hcalm : Undisturbed served .calm :=
    ⟨fun _ => rfl, fun _ => rfl, fun _ => Nat.zero_lt_one, fun _ => rfl⟩
  obtain ⟨requests, request, hrequests, hrequest, hlaw⟩ := upgrade_law textServer _ hcalm
    (List.forall_mem_singleton.mpr sendable_opening)
  cases hrequests
  let head := headWithExtensions request.head (runGates served 1 request.head).extensions
  have hread : opening.ReadAs head := hrequest.head
  have hmatches : matchesUpgrade head chat = true := by
    rw [matchesUpgrade, hread.header, hread.method]
    have hpath : head.path = ascii "/ws" := by
      rw [RequestHead.path, hread.target]
      decide
    rw [matchConfigPath, hpath]
    decide
  refine ⟨head, hread, fun tail cuts hcuts hflatten turns hturns => ?_⟩
  refine ((hlaw nofun rfl).2 tail cuts hcuts hflatten turns hturns).1 chat ?_
  exact List.find?_cons_of_pos hmatches

end Law

end FandheBackend.CoreWebSockets
