import FandheBackend.CoreConnectionMiddleware

set_option autoImplicit false

namespace FandheBackend.CoreConnectionObservations
open StdBytes HttpExtensions HttpRequestHead HttpConnection HttpResponse HttpClient
open CoreGates CoreConnection CoreConnectionTurns CoreConnectionGates PluginCompression
open CoreConnectionPlan CoreConnectionMiddleware

def wireStatus (wire : Bytes) : Option ℕ := (takeHead wire).map fun r => r.1.status

section
variable {TypeId : Type} {E : TypeId → Type}

structure Observation {TypeId : Type} (E : TypeId → Type) where
  tick : ℕ
  request : Request E
  writes : List (Event E)
  wire : Bytes
  -- What `on_response_with_status` was told, if it was called.
  status : Option UInt16

variable [DecidableEq TypeId] (server : Server E)

def answeredHead (n : ℕ) (head : RequestHead E) : RequestHead E :=
  match (runGates server n head).rejection with
  | some _ => head
  | none => headWithExtensions head (runGates server n head).extensions

/-- The request `n` of the connection: its read, `on_request` of every middleware in the order
of registration, the gates, the writes, `on_response_with_status` in the same order. -/
def Observation.trace (n : ℕ) (o : Observation E) : List (Event E) :=
  .read o.tick o.request ::
    (ran o.request.head.extensions ((List.range server.middlewares).map .onRequest) ++
      (runGates server n o.request.head).consulted.map .gate ++
      (o.writes ++ responses server (answeredHead server n o.request.head).extensions o.status))

def traceFrom : ℕ → List (Observation E) → List (Event E)
  | _, [] => []
  | n, o :: obs => o.trace server n ++ traceFrom (n + 1) obs

/-- The middlewares are told of a response exactly if it was written completely, and what they
are told is the status on the wire. -/
structure Observation.Lawful (n : ℕ) (o : Observation E) : Prop where
  all_writes : ∀ e ∈ o.writes, isWrite e = true
  status_iff : ∀ st, o.status = some st ↔
    Complete (planOf server n o.request).delivery o.writes st
  on_the_wire : ∀ st, o.status = some st →
    o.wire = o.writes.flatMap eventBytes ∧ wireStatus o.wire = some st.toNat

theorem wireStatus_headBytes (status : UInt16) {fields : List (Bytes × Bytes)}
    (h : ∀ f ∈ fields, FieldReadable f) (rest : Bytes) :
    wireStatus (Response.headBytes status fields ++ rest) = some status.toNat := by
  rw [wireStatus, takeHead_headBytes status h]
  rfl

theorem wireStatus_answer (answer : Answer) (keepAlive : Bool) (rest : Bytes) :
    wireStatus (answer.bytes keepAlive ++ rest) =
      some (answerResponse answer).status.toNat := by
  cases answer with
  | whole response =>
    rw [Answer.bytes, Response.serialize, List.append_assoc]
    exact wireStatus_headBytes _ (fixedFields_readable response keepAlive) _
  | chunked response => exact wireStatus_headBytes _ (chunkedFields_readable response keepAlive) _
  | untilClose response =>
    have hreadable : ∀ f ∈ response.fields ++ Response.connectionField false, FieldReadable f := by
      intro f hf
      rw [List.mem_append] at hf
      rcases hf with hf | hf
      · exact (fields_facts response f hf).1
      · exact connectionField_facts false f hf
    exact wireStatus_headBytes _ hreadable _

omit [DecidableEq TypeId] in
theorem Complete.wireStatus {delivery : Option (Answer × List Bytes)}
    {writes : List (Event E)} {status : UInt16} (h : Complete delivery writes status) :
    wireStatus (writes.flatMap eventBytes) = some status.toNat := by
  obtain ⟨answer, body, keepAlive, _, rfl, rfl⟩ := h
  exact wireStatus_answer answer keepAlive _

variable (env : Env)

theorem serve_answers (hkeeps : KeepsStatus server) (request : Request E) (s : State E) :
    ∃ s', s'.events = s.events ++
        (runGates server s.requestsServed request.head).consulted.map .gate ∧
      s'.out = s.out ∧ s'.requestsServed = s.requestsServed ∧
      Answers server (answeredHead server s.requestsServed request.head).extensions
        (planOf server s.requestsServed request).delivery s' (serve server env request s) := by
  let alive := stillAlive server env (server.keepAliveEnabled && shouldKeepAlive request.head &&
    decide (s.requestsServed < max server.maxRequestsPerConnection 1)) s
  refine ⟨alive.2.log ((runGates server s.requestsServed request.head).consulted.map .gate),
    rfl, rfl, rfl, ?_⟩
  rw [serve, answeredHead, planOf]
  cases (runGates server s.requestsServed request.head).rejection with
  | some response => exact respond_answers server env request.head response _ _
  | none => exact serveAllowed_answers server env hkeeps _ _ _ _ _

/-- What a turn that read no request leaves: an error response at most. -/
def Ending (es : List (Event E)) (wire : Bytes) : Prop :=
  es = [] ∧ wire = [] ∨ ∃ response done, es = [.responded (.whole response) false done]

inductive TurnObserved (s : State E) (r : Bool × State E) : Prop
  | ended (es : List (Event E)) (wire : Bytes) (alive : r.1 = false)
      (observed : observed r.2 = es) (out : r.2.out = s.out ++ wire) (ending : Ending es wire)
  | served (o : Observation E) (observed : observed r.2 = o.trace server (s.requestsServed + 1))
      (out : r.2.out = s.out ++ o.wire) (requestsServed : r.2.requestsServed = s.requestsServed + 1)
      (lawful : o.Lawful server (s.requestsServed + 1))

variable {server}

omit [DecidableEq TypeId] in
theorem opened_observed (tick : ℕ) (request : Request E) (ext : RequestExtensions E) (m : ℕ)
    (consulted : List (Consulted E)) :
    (Event.read tick request :: (ran ext ((List.range m).map .onRequest) ++
      consulted.map .gate)).filter isObserved =
    .read tick request :: (ran ext ((List.range m).map .onRequest) ++ consulted.map .gate) := by
  rw [List.filter_eq_self]
  intro e he
  simp only [ran, List.map_map, List.mem_cons, List.mem_append, List.mem_map] at he
  rcases he with rfl | ⟨i, _, rfl⟩ | ⟨c, _, rfl⟩
  · rfl
  · rfl
  · rfl

theorem serve_observed (hkeeps : KeepsStatus server) (request : Request E) {s₀ s : State E}
    (hevents : s.events = []) (hserved : s.requestsServed = s₀.requestsServed)
    (hout : s.out = s₀.out) :
    TurnObserved server s₀ (serve server env request (received server request s)) := by
  obtain ⟨s', hs', hout', hserved', writes, wire, status, h⟩ :=
    serve_answers server env hkeeps request (received server request s)
  have hn : (received server request s).requestsServed = s₀.requestsServed + 1 := by
    rw [received, hserved]
  rw [hn] at hs' hserved' h
  have hopened : observed s' = .read s.tick request ::
      (ran request.head.extensions ((List.range server.middlewares).map .onRequest) ++
        (runGates server (s₀.requestsServed + 1) request.head).consulted.map .gate) := by
    have hreceived : (received server request s).events = .read s.tick request ::
        ran request.head.extensions ((List.range server.middlewares).map .onRequest) := by
      rw [received, log_events, hevents, ran, List.map_map]
      rfl
    rw [observed, hs', hreceived, List.cons_append]
    exact opened_observed _ _ _ _ _
  refine .served ⟨s.tick, request, writes, wire, status⟩ ?_ ?_ (h.requestsServed.trans hserved') ?_
  · rw [h.observed, hopened, Observation.trace]
    simp only [List.cons_append, List.append_assoc]
  · rw [h.out, hout', ← hout]
    rfl
  · refine ⟨h.all_writes, h.status_iff, fun st hst => ?_⟩
    have hwire := h.wire_eq (Option.isSome_iff_exists.mpr ⟨st, hst⟩)
    exact ⟨hwire, hwire ▸ Complete.wireStatus ((h.status_iff st).mp hst)⟩

theorem iteration_observed (hkeeps : KeepsStatus server) (s : State E) :
    TurnObserved server s (iteration server env s) := by
  have hquiet : ∀ s' : State E, observed s' = [] → s'.out = s.out →
      TurnObserved server s (false, s') :=
    fun s' hevents hout => .ended [] [] rfl hevents (by rw [hout, List.append_nil]) (.inl ⟨rfl, rfl⟩)
  rw [iteration]
  split
  · exact hquiet _ rfl rfl
  · split
    · exact hquiet _ rfl rfl
    · split
      · exact hquiet _ rfl rfl
      · rename_i o _
        dsimp only
        split
        · split
          · rename_i response _
            obtain ⟨wire, h⟩ := wrote_startResponse env (.whole response) false
              { s with tick := s.tick + 1, events := [], reads := o.reads, conn := o.conn }
            exact .ended _ wire rfl h.observed h.out (.inr ⟨response, _, rfl⟩)
          · exact hquiet _ rfl rfl
        · exact hquiet _ rfl rfl
        · exact serve_observed env hkeeps _ rfl rfl rfl

/-- The law of a run: its observations in the order of the requests, and an error response at
the end if a request could not be parsed. -/
structure RunObserved (server : Server E) (n : ℕ) (s : State E) (run : Served E)
    (obs : List (Observation E)) (es : List (Event E)) (wire : Bytes) : Prop where
  trace : run.turns.flatten.filter isObserved = traceFrom server n obs ++ es
  out : run.state.out = s.out ++ (obs.flatMap Observation.wire ++ wire)
  lawful : ∀ k (o : Observation E), obs[k]? = some o → o.Lawful server (n + k)
  ending : Ending es wire

theorem runObserved_last {n : ℕ} {s s' : State E} {o : Observation E}
    (htrace : observed s' = o.trace server n) (hout : s'.out = s.out ++ o.wire)
    (hlawful : o.Lawful server n) :
    RunObserved server n s ⟨[s'.events], false, s'⟩ [o] [] [] where
  trace := by
    rw [List.flatten_singleton, List.append_nil, traceFrom, traceFrom, List.append_nil]
    exact htrace
  out := by
    rw [List.flatMap_singleton, List.append_nil]
    exact hout
  lawful k o' h := by
    cases k with
    | zero =>
      cases h
      exact hlawful
    | succ k => cases h
  ending := .inl ⟨rfl, rfl⟩

theorem RunObserved.cons {n : ℕ} {s s' : State E} {o : Observation E} {run : Served E}
    {obs : List (Observation E)} {es : List (Event E)} {wire : Bytes}
    (htrace : observed s' = o.trace server n) (hout : s'.out = s.out ++ o.wire)
    (hlawful : o.Lawful server n) (h : RunObserved server (n + 1) s' run obs es wire) :
    RunObserved server n s { run with turns := s'.events :: run.turns } (o :: obs) es wire where
  trace := by
    have hfirst : s'.events.filter isObserved = o.trace server n := htrace
    rw [List.flatten_cons, List.filter_append, hfirst, h.trace, traceFrom, List.append_assoc]
  out := by
    rw [List.flatMap_cons, h.out, hout]
    simp only [List.append_assoc]
  lawful k o' hk := by
    cases k with
    | zero =>
      cases hk
      exact hlawful
    | succ k =>
      have hlater := h.lawful k o' hk
      rwa [Nat.add_right_comm] at hlater
  ending := h.ending

theorem handleConnection_run (hkeeps : KeepsStatus server) (turns : ℕ) (s : State E) :
    ∃ obs es wire, RunObserved server (s.requestsServed + 1) s
      (handleConnection server env turns s) obs es wire := by
  induction turns generalizing s with
  | zero =>
    have hout : s.out = s.out ++ (([] : List (Observation E)).flatMap Observation.wire ++ []) :=
      (List.append_nil _).symm
    exact ⟨[], [], [], rfl, hout, by simp, .inl ⟨rfl, rfl⟩⟩
  | succ turns ih =>
    rw [handleConnection]
    cases iteration_observed env hkeeps s with
    | ended es wire halive hobserved hout hending =>
      rw [if_neg (by rw [halive]; exact Bool.false_ne_true)]
      refine ⟨[], es, wire, ?_, hout, by simp, hending⟩
      rw [List.flatten_singleton]
      exact hobserved
    | served o hobserved hout hserved hlawful =>
      split
      · obtain ⟨obs, es, wire, h⟩ := ih (iteration server env s).2
        rw [hserved] at h
        exact ⟨o :: obs, es, wire, h.cons hobserved hout hlawful⟩
      · exact ⟨[o], [], [], runObserved_last hobserved hout hlawful⟩

/-- For every server whose streaming compression is the plugin's, every run of a connection. -/
theorem handleConnection_observed (parseQ : Bytes → Option Bool) (gzip : StreamingBodyEncoder)
    (config : Option CompressionConfig)
    (hplugin : server.prepareStreamingCompression =
      fun _ head response => prepareStreamingCompression parseQ gzip config head response)
    (turns : ℕ) (reads : List Read) :
    ∃ obs es wire, RunObserved server 1 (.start reads)
      (handleConnection server env turns (.start reads)) obs es wire := by
  have hkeeps : KeepsStatus server := by
    intro n head response
    rw [hplugin]
    exact prepareStreamingCompression_status parseQ gzip config head response
  exact handleConnection_run env hkeeps turns (.start reads)

end

def streamingOnly (config : CompressionConfig) : Server (fun _ : Unit => ℕ) where
  middlewares := 2
  gates := []
  upgradeHandlers := []
  tryHandleUpgrade _ _ := false
  interceptors := []
  tryIntercept _ _ _ := none
  handler := some {
    handleStreaming := fun _ _ _ =>
      some ⟨203, none, [some (.chunk (ascii "hi")), some .finished]⟩
    handle := fun _ _ _ => .empty 500 }
  finalizeResponse _ _ response := response
  finalizeStreamingHead _ _ response := response
  prepareStreamingCompression _ head response :=
    prepareStreamingCompression (fun _ => none) .identity (some config) head response
  keepAliveEnabled := true
  maxRequestsPerConnection := 100
  maxConnectionLifetime := 1
  maxBodyBytes := 0

def middlewareCall {TypeId : Type} {E : TypeId → Type} : Event E → Option Hook
  | .ran hook _ => if isMiddleware hook then some hook else none
  | _ => none

theorem handleConnection_observed_streaming :
    let server := streamingOnly ⟨[ascii "text/"], true⟩
    let run := handleConnection server .calm 2 (.start [.data (ascii "GET / HTTP/1.1\r\n\r\n")])
    (∃ obs es wire, RunObserved server 1
      (.start [.data (ascii "GET / HTTP/1.1\r\n\r\n")]) run obs es wire) ∧
    run.turns.flatten.filterMap middlewareCall =
      [.onRequest 0, .onRequest 1, .onResponse 0 203, .onResponse 1 203] := by
  intro server run
  refine ⟨?_, by decide +kernel⟩
  exact handleConnection_observed .calm (fun _ => none) .identity (some ⟨[ascii "text/"], true⟩)
    rfl 2 [.data (ascii "GET / HTTP/1.1\r\n\r\n")]

end FandheBackend.CoreConnectionObservations
