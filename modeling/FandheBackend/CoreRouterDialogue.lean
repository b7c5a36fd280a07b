import FandheBackend.CoreDialogue
import FandheBackend.RoutesRouterDispatch

set_option autoImplicit false

namespace FandheBackend.CoreRouterDialogue
open StdBytes HttpRequestHead HttpConnection HttpConnectionRuns HttpResponse HttpClient
open HttpSentRequest RoutesRouter CoreGates CoreConnection CoreConnectionPlan
open CoreConnectionObservations CoreConnectionSpoken CorePlugins CoreDialogue

section Handler
variable {TypeId : Type} {E : TypeId → Type}

/-- The router as a handler: what is awaited may answer each request of a connection differently. -/
def routerHandler (order : IterationOrder) (r : Router E (ℕ → Response)) : Handler E where
  handleStreaming _ _ _ := none
  handle n head body := r.dispatch order (fun response _ => response) head body n

/-- `Server::handler`. -/
def withHandler (server : Server E) (handler : Handler E) : Server E :=
  { server with handler := some handler }

/-- What the first interceptor or plugin answers, or else the router. -/
def answered (server : Server E) (p : Plugins) (calls : List (Registration E (ℕ → Response)))
    (n : ℕ) (head : RequestHead E) (body : Bytes) : Response :=
  ((server.interceptors.findSome? fun interceptor => interceptor.intercept n head body).or
    (p.tryIntercept n head body)).getD (reference (fun response _ => response) calls head body n)

variable {order : IterationOrder} {calls : List (Registration E (ℕ → Response))}
  {r : Router E (ℕ → Response)} {server : Server E} {p : Plugins}

theorem chosen_routed (h : Represents (fun response _ => response) calls r) (n : ℕ)
    (head : RequestHead E) (body : Bytes) :
    chosen (p.register (withHandler server (routerHandler order r))) n head body =
      .inl (answered server p calls n head body) := by
  have hrouted : (routerHandler order r).handle n head body =
      reference (fun response _ => response) calls head body n :=
    congrFun (h.dispatch order head body) n
  have htried : (p.register (withHandler server (routerHandler order r))).tryIntercept n head body =
      p.tryIntercept n head body := rfl
  have hinterceptors : (p.register (withHandler server (routerHandler order r))).interceptors =
      server.interceptors := rfl
  have hhandler : (p.register (withHandler server (routerHandler order r))).handler =
      some (routerHandler order r) := rfl
  rw [chosen, answered, htried, hinterceptors, hhandler]
  cases server.interceptors.findSome? fun interceptor => interceptor.intercept n head body with
  | some response => rfl
  | none =>
    cases p.tryIntercept n head body with
    | some response => rfl
    | none => exact congrArg Sum.inl hrouted

variable [DecidableEq TypeId]

def routed (server : Server E) (p : Plugins) (calls : List (Registration E (ℕ → Response))) (n : ℕ)
    (request : Request E) : Response :=
  match (runGates server n request.head).rejection with
  | some response => response
  | none =>
    let head := answeredHead server n request.head
    mapped server n head (answered server p calls n head request.body)

theorem handed_routed (h : Represents (fun response _ => response) calls r) (n : ℕ)
    (request : Request E) :
    handed (p.register (withHandler server (routerHandler order r))) n request =
      some ⟨routed server p calls n request, (routed server p calls n request).body, false⟩ := by
  have hgates : runGates (p.register (withHandler server (routerHandler order r))) n request.head =
      runGates server n request.head := rfl
  rw [handed, routed, answeredHead, hgates]
  cases (runGates server n request.head).rejection with
  | some response => rfl
  | none =>
    dsimp only
    rw [handedAnswer, chosen_routed h]
    rfl

end Handler

section Law
variable {TypeId : Type} {E : TypeId → Type} [DecidableEq TypeId]
variable {order : IterationOrder} {calls : List (Registration E (ℕ → Response))}
  {r : Router E (ℕ → Response)} {server : Server E} {p : Plugins}

/-- A router does not stream, so that all its answers say where they end. -/
theorem complete_routed (h : Represents (fun response _ => response) calls r) {n : ℕ}
    {request : Request E} (hupgrade : server.upgradeHandlers.any (fun handler =>
      handler n (answeredHead server n request.head)) = false) :
    ∃ answer body, (planOf (p.register (withHandler server (routerHandler order r))) n
      request).delivery = some (answer, body) ∧ isFramed answer = true := by
  have hgates : runGates (p.register (withHandler server (routerHandler order r))) n request.head =
      runGates server n request.head := rfl
  have hhandlers : (p.register (withHandler server (routerHandler order r))).upgradeHandlers =
      server.upgradeHandlers := rfl
  rw [answeredHead] at hupgrade
  rw [planOf, hgates]
  cases hrejection : (runGates server n request.head).rejection with
  | some response => exact ⟨.whole response, [], rfl, rfl⟩
  | none =>
    simp only [hrejection] at hupgrade ⊢
    rw [allowedPlan, hhandlers, hupgrade, if_neg Bool.false_ne_true, answerPlan, chosen_routed h]
    exact ⟨_, [], rfl, rfl⟩

theorem Answered.getElem {gunzip : Bytes → Option Bytes} {served : Server E} {n : ℕ}
    {requests : List (Request E)} {answers : List ClientResponse}
    (h : Answered served gunzip n requests answers) :
    answers.length = requests.length ∧ ∀ k request answer, requests[k]? = some request →
      answers[k]? = some answer →
        ∃ given, handed served (n + k) request = some given ∧ Understood gunzip given answer := by
  induction h with
  | nil n => exact ⟨rfl, nofun⟩
  | cons hhanded hunderstood _ ih =>
    refine ⟨congrArg (· + 1) ih.1, fun k request answer hrequest hanswer => ?_⟩
    cases k with
    | zero =>
      obtain rfl := Option.some.inj hrequest
      obtain rfl := Option.some.inj hanswer
      exact ⟨_, hhanded, hunderstood⟩
    | succ k =>
      rw [← Nat.add_assoc, Nat.add_right_comm]
      exact ih.2 k request answer hrequest hanswer

/-- A client that sends its requests ahead reads for each of them what the calls that made the
router, or a gate, an interceptor or a plugin before it, answer to that request. -/
theorem router_law {gunzip : Bytes → Option Bytes} (h : Gunzips p gunzip)
    (hbuild : Router.build (fun response _ => response) calls = .ok r) {env : Env}
    (hundisturbed : Undisturbed (p.register (withHandler server (routerHandler order r))) env)
    (hkeep : server.keepAliveEnabled = true) {sents : List Sent}
    (hsend : ∀ sent ∈ sents, sent.Sendable env.usizeMax server.maxBodyBytes)
    (hcount : sents.length ≤ max server.maxRequestsPerConnection 1) :
    ∃ requests : List (Request E), ReadAll env.usizeMax server.maxBodyBytes sents requests ∧
      ((∀ k request, requests[k]? = some request →
          server.upgradeHandlers.any (fun handler =>
            handler (1 + k) (answeredHead server (1 + k) request.head)) = false ∧
          (hasNoBody request.head.method (routed server p calls (1 + k) request).status.toNat = true →
            (routed server p calls (1 + k) request).body = []) ∧
          (k + 1 < requests.length → shouldKeepAlive request.head = true)) →
        ∀ cuts : List Bytes, (∀ c ∈ cuts, c ≠ []) → cuts.flatten = sents.flatMap Sent.text →
          ∀ turns, sents.length < turns →
            ∃ answers, takeResponses (sents.map Sent.method)
                (handleConnection (p.register (withHandler server (routerHandler order r))) env turns
                  (.start (cuts.map .data))).state.out = some (answers, []) ∧
              answers.length = requests.length ∧
              ∀ k request answer, requests[k]? = some request → answers[k]? = some answer →
                Understood gunzip ⟨routed server p calls (1 + k) request,
                  (routed server p calls (1 + k) request).body, false⟩ answer) := by
  have hrepresents := represents_build hbuild
  obtain ⟨requests, hrequests⟩ := exists_readAll (E := E) hsend
  refine ⟨requests, hrequests, fun hall cuts hcuts hflatten turns hturns => ?_⟩
  obtain ⟨answers, hread, hanswered⟩ := answered_of_readAll h hundisturbed hkeep hrequests hcount
    (fun k request hrequest => by
      obtain ⟨hupgrade, hpolite, hpersists⟩ := hall k request hrequest
      refine ⟨⟨complete_routed hrepresents hupgrade, fun given hgiven hnone => ?_⟩, hpersists⟩
      rw [handed_routed hrepresents] at hgiven
      obtain rfl := Option.some.inj hgiven
      exact ⟨hpolite hnone, nofun⟩) hcuts hflatten hturns
  obtain ⟨hlength, hunderstood⟩ := Answered.getElem hanswered
  refine ⟨answers, hread, hlength, fun k request answer hrequest hanswer => ?_⟩
  obtain ⟨given, hgiven, hgood⟩ := hunderstood k request answer hrequest hanswer
  rw [handed_routed hrepresents] at hgiven
  obtain rfl := Option.some.inj hgiven
  exact hgood

end Law

section Samples

def pages : List (Registration (fun _ : Unit => Unit) (ℕ → Response)) :=
  [.route (ascii "GET") (ascii "/") fun _ _ => PluginCompression.textResponse,
    .routeParam (ascii "GET") (ascii "/users/{id}") fun _ _ _ => PluginCompression.textResponse]

def asStored : IterationOrder := ⟨id, fun _ => .refl _⟩

def missing : Sent :=
  ⟨ascii "GET", ascii "/nowhere", .http11, [(ascii "Connection", ascii "close")], .none⟩

theorem sendable_missing : missing.Sendable (2 ^ 64 - 1) textServer.maxBodyBytes where
  method := by decide
  target := visible_of_all (by decide)
  target_ne_nil := by decide
  fields := List.forall_mem_singleton.mpr ⟨by decide, (visible_of_all (by decide)).fieldValue⟩
  count := by decide
  fits := by decide
  framed := ⟨rfl, rfl⟩
  body := trivial

theorem build_pages : ∃ r, Router.build (fun response _ => response) pages = .ok r := ⟨_, rfl⟩

theorem routed_pages (n : ℕ) (request : Request (fun _ : Unit => Unit)) :
    routed textServer compressing pages n request =
      reference (fun response _ => response) pages (answeredHead textServer n request.head)
        request.body n := by
  have hanswered : routed textServer compressing pages n request =
      answered textServer compressing pages n (answeredHead textServer n request.head)
        request.body := rfl
  rw [hanswered, answered, tryIntercept_compressing]
  rfl

theorem routed_page {n : ℕ} {request : Request (fun _ : Unit => Unit)}
    (h : asking.ReadAs request.head) :
    routed textServer compressing pages n request = PluginCompression.textResponse := by
  have hread : asking.ReadAs (answeredHead textServer n request.head) := h
  have hpath : (answeredHead textServer n request.head).path = ascii "/" := by
    rw [RequestHead.path, hread.target]
    decide
  rw [routed_pages, reference, hpath, hread.method]
  rfl

theorem routed_missing {n : ℕ} {request : Request (fun _ : Unit => Unit)}
    (h : missing.ReadAs request.head) :
    routed textServer compressing pages n request = .empty 404 := by
  have hread : missing.ReadAs (answeredHead textServer n request.head) := h
  have hpath : (answeredHead textServer n request.head).path = ascii "/nowhere" := by
    rw [RequestHead.path, hread.target]
    decide
  rw [routed_pages, reference, hpath, hread.method]
  rfl

theorem router_law_pages :
    ∃ r, Router.build (fun response _ => response) pages = .ok r ∧
      ∀ cuts : List Bytes, (∀ c ∈ cuts, c ≠ []) →
        cuts.flatten = [asking, missing].flatMap Sent.text → ∀ turns, 2 < turns →
          ∃ first second, takeResponses [ascii "GET", ascii "GET"] (handleConnection
              (compressing.register (withHandler textServer (routerHandler asStored r))) .calm turns
              (.start (cuts.map .data))).state.out = some ([first, second], []) ∧
            first.head.status = 200 ∧ second.head.status = 404 := by
  obtain ⟨r, hr⟩ := build_pages
  refine ⟨r, hr, fun cuts hcuts hflatten turns hturns => ?_⟩
  have hcalm : Undisturbed (compressing.register (withHandler textServer (routerHandler asStored r)))
      .calm :=
    ⟨fun _ => rfl, fun _ => rfl, fun _ => Nat.zero_lt_one, fun _ => rfl⟩
  have hsend : ∀ sent ∈ [asking, missing], sent.Sendable (2 ^ 64 - 1) textServer.maxBodyBytes :=
    List.forall_mem_cons.mpr ⟨sendable_samples asking List.mem_cons_self,
      List.forall_mem_singleton.mpr sendable_missing⟩
  obtain ⟨requests, hread, hlaw⟩ := router_law gunzips_compressing hr hcalm rfl
    hsend (by decide)
  have hread' : List.Forall₂ (Sent.ReadBy (2 ^ 64 - 1) 0) [asking, missing] requests := hread
  obtain _ | @⟨_, first, _, _, hfirst, _ | @⟨_, second, _, _, hsecond, _ | _⟩⟩ := hread'
  obtain ⟨answers, htake, hlength, hunderstood⟩ := hlaw (fun k request hrequest => by
    rcases k with _ | _ | k
    · obtain rfl := Option.some.inj (show some first = some request from hrequest)
      rw [routed_page hfirst.head, hfirst.head.method]
      refine ⟨rfl, fun hnone => absurd hnone (by decide), fun _ => ?_⟩
      simp only [shouldKeepAlive, connectionTokens, hfirst.head.version, hfirst.head.headers]
      decide
    · obtain rfl := Option.some.inj (show some second = some request from hrequest)
      rw [routed_missing hsecond.head]
      exact ⟨rfl, fun _ => rfl, fun hk => absurd hk (lt_irrefl 2)⟩
    · cases hrequest) cuts hcuts hflatten turns hturns
  obtain ⟨a, b, rfl⟩ : ∃ a b, answers = [a, b] := List.length_eq_two.mp hlength
  refine ⟨a, b, htake, ?_, ?_⟩
  · rw [(hunderstood 0 first a rfl rfl).status, routed_page hfirst.head]
    rfl
  · rw [(hunderstood 1 second b rfl rfl).status, routed_missing hsecond.head]
    rfl

end Samples

end FandheBackend.CoreRouterDialogue
