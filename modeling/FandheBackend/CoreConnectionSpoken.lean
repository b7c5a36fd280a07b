import FandheBackend.CoreConnectionObservations
import FandheBackend.HttpConnectionRuns

set_option autoImplicit false

/-!
# What a connection says

An undisturbed connection is a function of the bytes that come in: `spoken` reads request
after request off them and writes the answer that `planOf` plans for each. The loop over
reads, buffers, ticks and writes refines it, however the bytes are cut into reads.
-/
namespace FandheBackend.CoreConnectionSpoken
open StdBytes HttpRequestHead HttpChunked HttpConnection HttpConnectionStream HttpConnectionRuns
open HttpResponse CoreGates CoreConnection CoreConnectionTurns CoreConnectionGates
open CoreConnectionPlan CoreConnectionObservations

section Spec

def untilCloseWire : List Recv → Bytes
  | some (.chunk data) :: recvs => data ++ untilCloseWire recvs
  | _ => []

def chunkedWire (encoder : StreamingBodyEncoder) : List Bytes → List Recv → Bytes × Bool
  | given, some .finished :: _ =>
    match encoder.finish given with
    | some residual => (encodeTerminator (encodeChunk residual []), true)
    | none => ([], false)
  | given, some (.chunk data) :: recvs =>
    match encoder.transform given data with
    | some piece =>
      let rest := chunkedWire encoder (given ++ [data]) recvs
      (encodeChunk piece [] ++ rest.1, rest.2)
    | none => ([], false)
  | _, _ => ([], false)

structure Said where
  bytes : Bytes
  alive : Bool

def planSaid (keepAlive upgraded : Bool) : Plan → Said
  | .rejected response => ⟨response.serialize keepAlive, keepAlive⟩
  | .upgrade => ⟨if upgraded then [] else (Response.empty 501).serialize false, false⟩
  | .whole response => ⟨response.serialize keepAlive, keepAlive⟩
  | .untilClose response recvs =>
    let body := if Response.isBodylessStatus response.status then [] else untilCloseWire recvs
    ⟨response.serializeStreamingHeadHttp10 ++ body, false⟩
  | .chunked response encoder recvs =>
    let body := if Response.isBodylessStatus response.status then ([], true)
      else chunkedWire encoder [] recvs
    ⟨response.serializeChunkedHead keepAlive ++ body.1, keepAlive && body.2⟩

variable {TypeId : Type} {E : TypeId → Type}

def keptAlive (server : Server E) (n : ℕ) (request : Request E) : Bool :=
  server.keepAliveEnabled && shouldKeepAlive request.head &&
    decide (n < max server.maxRequestsPerConnection 1)

variable [DecidableEq TypeId] (server : Server E)

def said (n : ℕ) (request : Request E) : Said :=
  planSaid (keptAlive server n request)
    (server.tryHandleUpgrade n (answeredHead server n request.head)) (planOf server n request)

/-- What is written for the bytes that come in, from request `n` on and for at most so many
requests, and whether the connection reads on. -/
def spoken (usizeMax : ℕ) : ℕ → ℕ → Bytes → Bytes × Bool
  | 0, _, _ => ([], true)
  | turns + 1, n, s =>
    match nextRequest usizeMax server.maxBodyBytes s with
    | .error e => (((errorResponse e).map (·.serialize false)).getD [], false)
    | .ok (none, _) => ([], false)
    | .ok (some request, rest) =>
      let answer := said server n request
      if answer.alive then
        let later := spoken usizeMax turns (n + 1) rest
        (answer.bytes ++ later.1, later.2)
      else (answer.bytes, false)

theorem untilCloseWire_of_body {recvs : List Recv} {body : List Bytes}
    (h : untilCloseBody recvs = some body) : untilCloseWire recvs = body.flatten := by
  induction recvs generalizing body with
  | nil => cases h
  | cons recv recvs ih =>
    cases recv with
    | none => cases h
    | some outcome =>
      cases outcome with
      | aborted => cases h
      | finished =>
        obtain rfl := Option.some.inj (show some [] = some body from h)
        rfl
      | chunk data =>
        rw [untilCloseBody_chunk] at h
        obtain ⟨later, hlater, rfl⟩ := Option.map_eq_some_iff.mp h
        rw [untilCloseWire, ih hlater]
        cases data <;> rfl

theorem chunkedWire_of_body {encoder : StreamingBodyEncoder} {given : List Bytes}
    {recvs : List Recv} {body : List Bytes} (h : chunkedBody encoder given recvs = some body) :
    chunkedWire encoder given recvs = (body.flatten, true) := by
  induction recvs generalizing given body with
  | nil => cases h
  | cons recv recvs ih =>
    cases recv with
    | none => cases h
    | some outcome =>
      cases outcome with
      | aborted => cases h
      | finished =>
        simp only [chunkedBody, finishedData, Option.bind_some, encodedPieces,
          List.append_nil] at h
        obtain ⟨residual, hresidual, rfl⟩ := Option.map_eq_some_iff.mp h
        rw [chunkedWire, hresidual]
        simp only [List.filter_nil, List.map_nil, List.nil_append, List.flatten_singleton]
      | chunk data =>
        rw [chunkedBody_chunk] at h
        obtain ⟨piece, hpiece, hrest⟩ := Option.bind_eq_some_iff.mp h
        obtain ⟨later, hlater, rfl⟩ := Option.map_eq_some_iff.mp hrest
        rw [chunkedWire, hpiece]
        simp only [ih hlater]
        cases piece <;> rfl

/-- What an answer that can be completed puts on the wire. -/
theorem planSaid_of_delivery {plan : Plan} {answer : Answer} {body : List Bytes}
    (h : plan.delivery = some (answer, body)) (keepAlive upgraded : Bool) :
    (planSaid keepAlive upgraded plan).bytes = answer.bytes keepAlive ++ body.flatten ∧
      ((planSaid keepAlive upgraded plan).alive = keepAlive ∨ ∃ r, answer = .untilClose r) := by
  cases plan with
  | rejected response =>
    obtain ⟨rfl, rfl⟩ := Prod.mk.inj (Option.some.inj h)
    exact ⟨(List.append_nil _).symm, .inl rfl⟩
  | upgrade => cases h
  | whole response =>
    obtain ⟨rfl, rfl⟩ := Prod.mk.inj (Option.some.inj h)
    exact ⟨(List.append_nil _).symm, .inl rfl⟩
  | untilClose response recvs =>
    obtain ⟨_, hbody, heq⟩ := Option.map_eq_some_iff.mp h
    obtain ⟨rfl, rfl⟩ := Prod.mk.inj heq
    refine ⟨?_, .inr ⟨response, rfl⟩⟩
    rw [streamed] at hbody
    simp only [planSaid]
    split_ifs at hbody ⊢
    · obtain rfl := Option.some.inj hbody
      rfl
    · rw [untilCloseWire_of_body hbody]
      rfl
  | chunked response encoder recvs =>
    obtain ⟨_, hbody, heq⟩ := Option.map_eq_some_iff.mp h
    obtain ⟨rfl, rfl⟩ := Prod.mk.inj heq
    rw [streamed] at hbody
    simp only [planSaid]
    split_ifs at hbody ⊢
    · obtain rfl := Option.some.inj hbody
      exact ⟨rfl, .inl (Bool.and_true _)⟩
    · rw [chunkedWire_of_body hbody]
      exact ⟨rfl, .inl (Bool.and_true _)⟩

end Spec

/-- No write fails, no read times out, and neither the age of the connection nor a shutdown
ends it. -/
structure Undisturbed {TypeId : Type} {E : TypeId → Type} (server : Server E) (env : Env) :
    Prop where
  writes : ∀ n, env.writeFails n = none
  reads : ∀ n, env.readTimesOut n = false
  young : ∀ t, env.elapsed t < server.maxConnectionLifetime
  running : ∀ t, env.shutdownFlag t = false

section Steps
variable {TypeId : Type} {E : TypeId → Type}

/-- From one state to the next these bytes were written, and nothing was read. -/
structure Spoke (s s' : State E) (bytes : Bytes) : Prop where
  out : s'.out = s.out ++ bytes
  conn : s'.conn = s.conn
  reads : s'.reads = s.reads
  requestsServed : s'.requestsServed = s.requestsServed

theorem Spoke.refl (s : State E) : Spoke s s [] := ⟨(List.append_nil _).symm, rfl, rfl, rfl⟩

theorem spoke_log (s : State E) (es : List (Event E)) : Spoke s (s.log es) [] :=
  ⟨(List.append_nil _).symm, rfl, rfl, rfl⟩

theorem Spoke.trans {s s' s'' : State E} {bytes bytes' : Bytes} (h : Spoke s s' bytes)
    (h' : Spoke s' s'' bytes') : Spoke s s'' (bytes ++ bytes') where
  out := by rw [h'.out, h.out, List.append_assoc]
  conn := h'.conn.trans h.conn
  reads := h'.reads.trans h.reads
  requestsServed := h'.requestsServed.trans h.requestsServed

theorem Spoke.after_silence {s s' s'' : State E} {bytes : Bytes} (h : Spoke s s' [])
    (h' : Spoke s' s'' bytes) : Spoke s s'' bytes := h.trans h'

theorem Spoke.then_silence {s s' s'' : State E} {bytes : Bytes} (h : Spoke s s' bytes)
    (h' : Spoke s' s'' []) : Spoke s s'' bytes := by
  have hboth := h.trans h'
  rwa [List.append_nil] at hboth

structure Says (s : State E) (r : Bool × State E) (said : Said) : Prop where
  alive : r.1 = said.alive
  spoke : Spoke s r.2 said.bytes

theorem Says.after_silence {s s' : State E} {r : Bool × State E} {said : Said}
    (h : Spoke s s' []) (h' : Says s' r said) : Says s r said :=
  ⟨h'.alive, h.after_silence h'.spoke⟩

variable {server : Server E} {env : Env} (h : Undisturbed server env)

include h

theorem write_speaks (event : Bool → Event E) (bytes : Bytes) (s : State E) :
    Says s (s.write env event bytes) ⟨bytes, true⟩ := by
  simp only [State.write, h.writes]
  exact ⟨rfl, rfl, rfl, rfl, rfl⟩

theorem send_speaks (bytes : Bytes) (s : State E) : Says s (s.send env bytes) ⟨bytes, true⟩ :=
  write_speaks h (.sent bytes) bytes s

theorem startResponse_speaks (answer : Answer) (keepAlive : Bool) (s : State E) :
    Says s (s.startResponse env answer keepAlive) ⟨answer.bytes keepAlive, true⟩ :=
  write_speaks h (.responded answer keepAlive) _ s

theorem stillAlive_spoke (keepAlive : Bool) (s : State E) :
    (stillAlive server env keepAlive s).1 = keepAlive ∧
      Spoke s (stillAlive server env keepAlive s).2 [] := by
  refine ⟨?_, (List.append_nil _).symm, rfl, rfl, rfl⟩
  rw [stillAlive, decide_eq_true (h.young _), h.running, Bool.and_true, Bool.not_false,
    Bool.and_true]

theorem sendUntilClose_spoke (recvs : List Recv) (s : State E) :
    Spoke s (sendUntilClose env recvs s).2 (untilCloseWire recvs) := by
  induction recvs generalizing s with
  | nil => exact .refl s
  | cons recv recvs ih =>
    cases recv with
    | none => exact .refl s
    | some outcome =>
      cases outcome with
      | finished => exact .refl s
      | aborted => exact .refl s
      | chunk data =>
        obtain ⟨hsend, hspoke⟩ := send_speaks h data s
        rw [sendUntilClose, untilCloseWire]
        cases data with
        | nil => exact ih s
        | cons b bs =>
          rw [if_neg (by simp)]
          simp only [hsend, if_true]
          exact hspoke.trans (ih (s.send env (b :: bs)).2)

theorem sendChunks_speaks (encoder : StreamingBodyEncoder) (given : List Bytes)
    (recvs : List Recv) (s : State E) :
    Says s (sendChunks env encoder given recvs s)
      ⟨(chunkedWire encoder given recvs).1, (chunkedWire encoder given recvs).2⟩ := by
  induction recvs generalizing given s with
  | nil => exact ⟨rfl, .refl s⟩
  | cons recv recvs ih =>
    cases recv with
    | none => exact ⟨rfl, .refl s⟩
    | some outcome =>
      cases outcome with
      | aborted => exact ⟨rfl, .refl s⟩
      | finished =>
        rw [sendChunks, chunkedWire]
        cases encoder.finish given with
        | none => exact ⟨rfl, .refl s⟩
        | some residual =>
          simp only [CoreConnectionMiddleware.last_chunk]
          exact send_speaks h _ s
      | chunk data =>
        rw [sendChunks, chunkedWire]
        cases encoder.transform given data with
        | none => exact ⟨rfl, .refl s⟩
        | some piece =>
          simp only [CoreConnectionMiddleware.encodeChunk_isEmpty]
          cases piece with
          | nil => exact ih (given ++ [data]) s
          | cons b bs =>
            obtain ⟨hsend, hspoke⟩ := send_speaks h (encodeChunk (b :: bs) []) s
            have hrest := ih (given ++ [data]) (s.send env (encodeChunk (b :: bs) [])).2
            rw [if_neg (by simp)]
            simp only [hsend, if_true]
            exact ⟨hrest.alive, hspoke.trans hrest.spoke⟩

theorem respond_speaks (head : RequestHead E) (response : Response) (keepAlive : Bool)
    (s : State E) :
    Says s (respond server env head response keepAlive s)
      ⟨response.serialize keepAlive, keepAlive⟩ := by
  obtain ⟨hdone, hspoke⟩ := startResponse_speaks h (.whole response) keepAlive s
  simp only [respond, hdone, if_true]
  exact ⟨rfl, hspoke.then_silence (spoke_log _ _)⟩

theorem respondAndClose_speaks (response : Response) (s : State E) :
    Says s (respondAndClose env response s) ⟨response.serialize false, false⟩ :=
  ⟨rfl, (startResponse_speaks h (.whole response) false s).spoke⟩

omit h in
theorem spoke_ran {head : RequestHead E} {s s' : State E}
    (h : ∃ hooks, s' = s.log (ran head.extensions hooks)) : Spoke s s' [] := by
  obtain ⟨hooks, rfl⟩ := h
  exact spoke_log s _

theorem answerWhole_speaks (n : ℕ) (head : RequestHead E) (response : Response) (keepAlive : Bool)
    (s : State E) :
    Says s (answerWhole server env n head response keepAlive s)
      ⟨(server.finalizeResponse n head (mapped server n head response)).serialize keepAlive,
        keepAlive⟩ := by
  obtain ⟨hmapped, -⟩ :=
    CoreConnectionMiddleware.mapResponses_wrote n head server.interceptors 0 response s
  have hmap := spoke_ran (mapResponses_ran n head server.interceptors 0 response s)
  have hlog := hmap.after_silence (spoke_log _ [.ran .finalizeResponse head.extensions])
  obtain ⟨halive, hstill⟩ := stillAlive_spoke h keepAlive
    ((mapResponses n head 0 server.interceptors response s).2.log
      [.ran .finalizeResponse head.extensions])
  rw [answerWhole]
  simp only [hmapped, halive]
  exact .after_silence (hlog.after_silence hstill) (respond_speaks h head _ keepAlive _)

theorem writeStreamingHttp10_speaks (head : RequestHead E) (response : Response)
    (recvs : List Recv) (keepAlive upgraded : Bool) (s : State E) :
    Says s (finishStreaming server head (writeStreamingHttp10 env response recvs s))
      (planSaid keepAlive upgraded (.untilClose response recvs)) := by
  obtain ⟨hdone, hspoke⟩ := startResponse_speaks h (.untilClose response) false s
  simp only [writeStreamingHttp10, hdone, if_true, planSaid]
  cases Response.isBodylessStatus response.status with
  | true =>
    simp only [if_true, List.append_nil]
    exact ⟨rfl, hspoke.then_silence (spoke_log _ _)⟩
  | false =>
    have hbody := hspoke.trans
      (sendUntilClose_spoke h recvs (s.startResponse env (.untilClose response) false).2)
    rw [if_neg Bool.false_ne_true, if_neg Bool.false_ne_true]
    cases (sendUntilClose env recvs (s.startResponse env (.untilClose response) false).2).1 with
    | true => exact ⟨rfl, hbody.then_silence (spoke_log _ _)⟩
    | false => exact ⟨rfl, hbody⟩

theorem writeStreamingHttp11_speaks (n : ℕ) (head : RequestHead E) (response : Response)
    (recvs : List Recv) (keepAlive upgraded : Bool) (s : State E) :
    let prepared := server.prepareStreamingCompression n head response
    Says s (finishStreaming server head
        (writeStreamingHttp11 server env n head response recvs keepAlive s))
      (planSaid keepAlive upgraded (.chunked prepared.1 prepared.2 recvs)) := by
  intro prepared
  obtain ⟨halive, hstill⟩ := stillAlive_spoke h keepAlive s
  let s' := (stillAlive server env keepAlive s).2.log
    [.ran .prepareStreamingCompression head.extensions]
  have hopen : Spoke s s' [] := hstill.after_silence (spoke_log _ _)
  obtain ⟨hdone, hspoke⟩ := startResponse_speaks h (.chunked prepared.1) keepAlive s'
  have hhead := hopen.after_silence hspoke
  have hstart : (s'.startResponse env (.chunked prepared.1) keepAlive).1 = true := hdone
  simp only [writeStreamingHttp11, halive, planSaid]
  rw [if_pos hstart]
  cases Response.isBodylessStatus prepared.1.status with
  | true =>
    obtain ⟨hafter, hquiet⟩ := stillAlive_spoke h keepAlive
      (s'.startResponse env (.chunked prepared.1) keepAlive).2
    simp only [finishStreaming, if_true, List.append_nil, Bool.and_true]
    exact ⟨hafter, (hhead.then_silence hquiet).then_silence (spoke_log _ _)⟩
  | false =>
    obtain ⟨hlast, hchunks⟩ := sendChunks_speaks h prepared.2 [] recvs
      (s'.startResponse env (.chunked prepared.1) keepAlive).2
    have hbody := hhead.trans hchunks
    rw [if_neg Bool.false_ne_true, if_neg Bool.false_ne_true,
      ← show _ = (chunkedWire prepared.2 [] recvs).2 from hlast]
    cases (sendChunks env prepared.2 [] recvs
        (s'.startResponse env (.chunked prepared.1) keepAlive).2).1 with
    | true =>
      obtain ⟨hafter, hquiet⟩ := stillAlive_spoke h keepAlive (sendChunks env prepared.2 [] recvs
        (s'.startResponse env (.chunked prepared.1) keepAlive).2).2
      simp only [finishStreaming, if_true, Bool.and_true]
      exact ⟨hafter, (hbody.then_silence hquiet).then_silence (spoke_log _ _)⟩
    | false =>
      rw [if_neg Bool.false_ne_true]
      simp only [finishStreaming, Bool.and_false]
      exact ⟨rfl, hbody⟩

theorem answerStreaming_speaks (n : ℕ) (head : RequestHead E) (streaming : StreamingResponse)
    (keepAlive upgraded : Bool) (s : State E) :
    Says s (answerStreaming server env n head streaming keepAlive s)
      (planSaid keepAlive upgraded (streamingPlan server n head streaming)) := by
  obtain ⟨hhead, -⟩ := CoreConnectionMiddleware.streamingHead_wrote server n head streaming s
  have hquiet := spoke_ran (streamingHead_ran server n head streaming s)
  rw [answerStreaming, writeStreamingResponse, streamingPlan, hhead]
  cases head.version with
  | http10 => exact .after_silence hquiet (writeStreamingHttp10_speaks h head _ _ keepAlive _ _)
  | http11 => exact .after_silence hquiet (writeStreamingHttp11_speaks h n head _ _ keepAlive _ _)

theorem answer_speaks (n : ℕ) (head : RequestHead E) (body : Bytes) (keepAlive upgraded : Bool)
    (s : State E) :
    Says s (answer server env n head body keepAlive s)
      (planSaid keepAlive upgraded (answerPlan server n head body)) := by
  obtain ⟨hfound, -⟩ :=
    CoreConnectionMiddleware.intercept_wrote n head body server.interceptors 0 s
  have hquiet := spoke_ran (intercept_ran n head body server.interceptors 0 s)
  rw [answer, answerPlan, chosen, hfound]
  cases server.interceptors.findSome? fun interceptor => interceptor.intercept n head body with
  | some response => exact .after_silence hquiet (answerWhole_speaks h n head response keepAlive _)
  | none =>
    have hlog := hquiet.after_silence (spoke_log _ [.ran .tryIntercept head.extensions])
    cases server.tryIntercept n head body with
    | some response => exact .after_silence hlog (answerWhole_speaks h n head response keepAlive _)
    | none =>
      simp only [answerByHandler]
      cases server.handler with
      | none => exact .after_silence hlog (answerWhole_speaks h n head _ keepAlive _)
      | some handler =>
        have hasked := hlog.after_silence (spoke_log _ [.ran .handleStreaming head.extensions])
        cases hstreaming : handler.handleStreaming n head body with
        | some streaming =>
          simp only [hstreaming]
          exact .after_silence hasked (answerStreaming_speaks h n head streaming keepAlive upgraded _)
        | none =>
          simp only [hstreaming]
          exact .after_silence (hasked.after_silence (spoke_log _ [.ran .handle head.extensions]))
            (answerWhole_speaks h n head _ keepAlive _)

theorem serveAllowed_speaks (n : ℕ) (head : RequestHead E) (body : Bytes) (keepAlive : Bool)
    (s : State E) :
    Says s (serveAllowed server env n head body keepAlive s)
      (planSaid keepAlive (server.tryHandleUpgrade n head) (allowedPlan server n head body)) := by
  obtain ⟨hany, -⟩ :=
    CoreConnectionMiddleware.upgradeMatches_wrote n head server.upgradeHandlers 0 s
  have hquiet : Spoke s (upgradeMatches n head 0 server.upgradeHandlers s).2 [] := by
    obtain ⟨hooks, -, heq⟩ := upgradeMatches_ran n head server.upgradeHandlers 0 s
    exact spoke_ran ⟨hooks, heq⟩
  rw [serveAllowed, allowedPlan, hany]
  cases server.upgradeHandlers.any fun handler => handler n head with
  | false => exact .after_silence hquiet (answer_speaks h n head body keepAlive _ _)
  | true =>
    refine .after_silence hquiet ?_
    simp only [if_true, answerUpgrade, h.running, planSaid]
    cases server.tryHandleUpgrade n head with
    | true => exact ⟨rfl, (List.append_nil _).symm, rfl, rfl, rfl⟩
    | false =>
      simp only [Bool.false_eq_true, if_false]
      obtain ⟨halive, hspoke⟩ := respondAndClose_speaks h (.empty 501)
        (({ (upgradeMatches n head 0 server.upgradeHandlers s).2.log [.upgradeCheck
            (upgradeMatches n head 0 server.upgradeHandlers s).2.tick] with
          tick := (upgradeMatches n head 0 server.upgradeHandlers s).2.tick + 1 } : State E).log
          [.ran .tryHandleUpgrade head.extensions])
      exact ⟨halive, hspoke.out, hspoke.conn, hspoke.reads, hspoke.requestsServed⟩

variable [DecidableEq TypeId]

theorem serve_speaks (request : Request E) (s : State E) :
    Says s (serve server env request s) (said server s.requestsServed request) := by
  obtain ⟨halive, hstill⟩ := stillAlive_spoke h (keptAlive server s.requestsServed request) s
  have hgates := hstill.after_silence (spoke_log _
    ((runGates server s.requestsServed request.head).consulted.map .gate))
  rw [serve, said, planOf, answeredHead]
  rw [show (stillAlive server env (server.keepAliveEnabled && shouldKeepAlive request.head &&
    decide (s.requestsServed < max server.maxRequestsPerConnection 1)) s).1 = _ from halive]
  cases (runGates server s.requestsServed request.head).rejection with
  | some response => exact .after_silence hgates (respond_speaks h request.head response _ _)
  | none => exact .after_silence hgates (serveAllowed_speaks h _ _ request.body _ _)

end Steps

section Runs
variable {TypeId : Type} {E : TypeId → Type} [DecidableEq TypeId]
variable {server : Server E} {env : Env} (h : Undisturbed server env)

inductive TurnSpoken (server : Server E) (env : Env) (s : State E) (r : Bool × State E) : Prop
  | ended (bytes : Bytes) (alive : r.1 = false) (out : r.2.out = s.out ++ bytes)
      (nothing : ∀ (request : Request E) rest, nextRequest env.usizeMax server.maxBodyBytes
        (pending s.reads s.conn) ≠ .ok (some request, rest))
      (spec : ∀ turns, spoken server env.usizeMax (turns + 1) (s.requestsServed + 1)
        (pending s.reads s.conn) = (bytes, false))
  | served (request : Request E) (rest : Bytes)
      (next : nextRequest env.usizeMax server.maxBodyBytes (pending s.reads s.conn) =
        .ok (some request, rest))
      (serve_eq : ∃ s', s'.requestsServed = s.requestsServed + 1 ∧ r = serve server env request s')
      (alive : r.1 = (said server (s.requestsServed + 1) request).alive)
      (out : r.2.out = s.out ++ (said server (s.requestsServed + 1) request).bytes)
      (clean : Clean r.2.reads) (pending_eq : pending r.2.reads r.2.conn = rest)
      (requestsServed : r.2.requestsServed = s.requestsServed + 1)

include h

theorem iteration_spoken {s : State E} (hclean : Clean s.reads) :
    TurnSpoken server env s (iteration server env s) := by
  obtain ⟨o, ho, hfaith⟩ := readRequestWithLimit_faithful (E := E) env.alloc env.usizeMax
    server.maxBodyBytes s.reads s.conn
  have hspec := hfaith.result (.inl hclean)
  rw [iteration, if_neg (Nat.not_le.mpr (h.young _)), h.reads, if_neg Bool.false_ne_true]
  simp only [ho]
  cases hresult : o.result with
  | error e =>
    rw [hresult] at hspec
    have hnothing : ∀ (request : Request E) rest, nextRequest env.usizeMax server.maxBodyBytes
        (pending s.reads s.conn) ≠ .ok (some request, rest) := by
      intro request rest heq
      rw [hspec] at heq
      cases heq
    cases herror : errorResponse e with
    | none =>
      simp only [herror]
      refine .ended [] rfl (List.append_nil _).symm hnothing fun turns => ?_
      simp only [spoken, hspec, Except.map, herror]
      rfl
    | some response =>
      simp only [herror]
      obtain ⟨halive, hspoke⟩ := respondAndClose_speaks h response
        { s with tick := s.tick + 1, events := [], reads := o.reads, conn := o.conn }
      refine .ended _ halive hspoke.out hnothing fun turns => ?_
      simp only [spoken, hspec, Except.map, herror]
      rfl
  | ok found =>
    rw [hresult] at hspec
    cases found with
    | none =>
      refine .ended [] rfl (List.append_nil _).symm (fun _ _ heq => by rw [hspec] at heq; cases heq)
        fun turns => ?_
      simp only [spoken, hspec, Except.map]
    | some request =>
      obtain ⟨halive, hspoke⟩ := serve_speaks h request (received server request
        { s with tick := s.tick + 1, events := [], reads := o.reads, conn := o.conn })
      refine .served request (pending o.reads o.conn) hspec ⟨_, rfl, rfl⟩ halive hspoke.out ?_ ?_
        hspoke.requestsServed
      · rw [hspoke.reads]
        exact hfaith.clean hclean
      · rw [hspoke.reads, hspoke.conn]
        rfl

theorem handleConnection_spoken (turns : ℕ) {s : State E} (hclean : Clean s.reads) :
    let run := handleConnection server env turns s
    let spec := spoken server env.usizeMax turns (s.requestsServed + 1) (pending s.reads s.conn)
    run.state.out = s.out ++ spec.1 ∧ run.alive = spec.2 := by
  induction turns generalizing s with
  | zero => exact ⟨(List.append_nil _).symm, rfl⟩
  | succ turns ih =>
    simp only [handleConnection]
    cases iteration_spoken h hclean with
    | ended bytes halive hout _ hspec =>
      rw [if_neg (by rw [halive]; exact Bool.false_ne_true), hspec turns]
      exact ⟨hout, rfl⟩
    | served request rest hnext _ halive hout hclean' hpending hserved =>
      simp only [spoken, hnext]
      rw [← halive]
      split
      · obtain ⟨hlater, hend⟩ := ih hclean'
        rw [hserved, hpending] at hlater hend
        refine ⟨?_, hend⟩
        rw [hlater, hout, List.append_assoc]
      · exact ⟨hout, rfl⟩

omit h in
/-- Every request takes bytes, so the connection ends. -/
theorem spoken_ends (usizeMax : ℕ) {turns : ℕ} (n : ℕ) {s : Bytes} (hturns : s.length < turns) :
    (spoken server usizeMax turns n s).2 = false := by
  induction turns generalizing n s with
  | zero => exact absurd hturns (Nat.not_lt_zero _)
  | succ turns ih =>
    rw [spoken]
    cases hnext : nextRequest (E := E) usizeMax server.maxBodyBytes s with
    | error e => rfl
    | ok found =>
      obtain ⟨request, rest⟩ := found
      cases request with
      | none => rfl
      | some request =>
        have hshorter := nextRequest_shorter hnext
        dsimp only
        split
        · exact ih (n + 1) (by omega)
        · rfl

/-- However the bytes of a client are cut into reads and whatever the buffers do, an undisturbed
connection writes what the pure reading of the whole stream writes, and it comes to its end. -/
theorem connection_law {env' : Env} (h' : Undisturbed server env')
    (husize : env'.usizeMax = env.usizeMax) {cuts cuts' : List Bytes}
    (hcuts : ∀ c ∈ cuts, c ≠ []) (hcuts' : ∀ c ∈ cuts', c ≠ [])
    (hsame : cuts'.flatten = cuts.flatten) (turns : ℕ) :
    let run := handleConnection server env turns (.start (cuts.map .data))
    let run' := handleConnection server env' turns (.start (cuts'.map .data))
    (run.state.out, run.alive) = spoken server env.usizeMax turns 1 cuts.flatten ∧
      (run'.state.out, run'.alive) = (run.state.out, run.alive) ∧
      (cuts.flatten.length < turns → run.alive = false) := by
  have hrefines : ∀ {env : Env}, Undisturbed server env → ∀ {cuts : List Bytes},
      (∀ c ∈ cuts, c ≠ []) →
      let run := handleConnection server env turns (.start (cuts.map .data))
      (run.state.out, run.alive) = spoken server env.usizeMax turns 1 cuts.flatten := by
    intro env h cuts hcuts run
    obtain ⟨hout, halive⟩ := handleConnection_spoken (s := .start (cuts.map .data)) h turns
      (clean_map_data hcuts)
    have hpending : pending (cuts.map Read.data) Conn.new = cuts.flatten := pending_new cuts
    refine Prod.ext ?_ ?_
    · exact hout.trans (by rw [← hpending]; rfl)
    · exact halive.trans (by rw [← hpending]; rfl)
  intro run run'
  have hrun := hrefines h hcuts
  have hrun' := hrefines h' hcuts'
  refine ⟨hrun, ?_, fun hturns => ?_⟩
  · rw [hrun, hrun', hsame, husize]
  · exact (congrArg Prod.snd hrun).trans (spoken_ends env.usizeMax 1 hturns)

end Runs

def doubling : Env :=
  { Env.calm with alloc := ⟨fun _ len additional => 2 * (len + additional), fun _ cap _ => cap⟩ }

theorem connection_law_pipelined :
    let server := streamingOnly ⟨[ascii "text/"], true⟩
    let run := handleConnection server .calm 3 (.start ([pipelined].map .data))
    let run' := handleConnection server doubling 3 (.start ((pipelined.map fun b => [b]).map .data))
    (run.state.out, run.alive) = spoken server (2 ^ 64 - 1) 3 1 [pipelined].flatten ∧
      (run'.state.out, run'.alive) = (run.state.out, run.alive) ∧
      ([pipelined].flatten.length < 3 → run.alive = false) := by
  have hcalm : Undisturbed (streamingOnly ⟨[ascii "text/"], true⟩) .calm :=
    ⟨fun _ => rfl, fun _ => rfl, fun _ => Nat.zero_lt_one, fun _ => rfl⟩
  have hdoubling : Undisturbed (streamingOnly ⟨[ascii "text/"], true⟩) doubling :=
    ⟨fun _ => rfl, fun _ => rfl, fun _ => Nat.zero_lt_one, fun _ => rfl⟩
  exact connection_law hcalm hdoubling rfl (by decide) (by decide) (by decide) 3

end FandheBackend.CoreConnectionSpoken
