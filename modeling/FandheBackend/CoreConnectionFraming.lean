import FandheBackend.CoreConnectionTurns

set_option autoImplicit false

namespace FandheBackend.CoreConnectionFraming
open StdBytes HttpRequestHead HttpExtensions HttpConnection HttpResponse HttpClient
open CoreGates CoreConnection CoreConnectionTurns

section
variable {TypeId : Type} {E : TypeId → Type}

def methodOf : Event E → Option Bytes
  | .read _ request => some request.head.method
  | _ => none

def answerOf : Event E → Option Answer
  | .responded answer _ _ => some answer
  | _ => none

def succeeded : Event E → Bool
  | .responded _ _ done => done
  | .sent _ done => done
  | _ => true

def Answer.response : Answer → Response
  | .whole response => response
  | .chunked response => response
  | .untilClose response => response

/-- No byte of a body where a client expects none. -/
def Respects (method : Bytes) : Answer → Prop
  | .whole response => hasNoBody method response.status.toNat = true → response.body = []
  | .chunked response =>
    method = ascii "HEAD" → Response.isBodylessStatus response.status = true
  | .untilClose _ => True

instance (method : Bytes) (answer : Answer) : Decidable (Respects method answer) :=
  match answer with
  | .whole response =>
    inferInstanceAs (Decidable (hasNoBody method response.status.toNat = true → response.body = []))
  | .chunked response => inferInstanceAs (Decidable (method = ascii "HEAD" →
      Response.isBodylessStatus response.status = true))
  | .untilClose _ => inferInstanceAs (Decidable True)

structure Matches (answer : Answer) (response : ClientResponse) : Prop where
  status : response.head.status = (Answer.response answer).status.toNat
  body : ∀ r, answer = .whole r → response.body = r.body

theorem takeResponse_answer {method : Bytes} {answer : Answer} {body : Bytes} (keepAlive : Bool)
    (hcomplete : Answer.Complete body answer) (hrespects : Respects method answer) :
    ∃ response, Matches answer response ∧ ∀ rest,
      takeResponse method (answer.bytes keepAlive ++ body ++ rest) = some (response, rest) := by
  cases answer with
  | whole r =>
    have hbody : body = [] := hcomplete
    subst hbody
    refine ⟨⟨fixedHead r keepAlive, r.body⟩, ⟨rfl, ?_⟩, fun rest => ?_⟩
    · intro r' h
      cases h
      rfl
    · rw [List.append_nil]
      exact takeResponse_serialize method r keepAlive rest (by
        rw [← hasNoBody_status]
        exact hrespects)
  | untilClose r => exact absurd hcomplete id
  | chunked r =>
    have hwhole : ∀ r', Answer.chunked r = .whole r' → ∀ {P : Prop}, P :=
      fun r' h => nomatch h
    rw [Answer.Complete] at hcomplete
    by_cases hstatus : Response.isBodylessStatus r.status = true
    · rw [if_pos hstatus] at hcomplete
      subst hcomplete
      refine ⟨⟨chunkedHead r keepAlive, []⟩, ⟨rfl, fun r' h => hwhole r' h⟩, fun rest => ?_⟩
      rw [List.append_nil]
      exact takeResponse_bodyless method r keepAlive rest hstatus
    · rw [if_neg hstatus] at hcomplete
      obtain ⟨ds, rfl⟩ := hcomplete
      have hmethod : method ≠ ascii "HEAD" := fun h => hstatus (hrespects h)
      rw [Bool.not_eq_true] at hstatus
      exact ⟨⟨chunkedHead r keepAlive, ds.flatten⟩, ⟨rfl, fun r' h => hwhole r' h⟩,
        fun rest => takeResponse_streamed method r keepAlive ds rest hmethod hstatus⟩

def TurnRespects (es : List (Event E)) : Prop :=
  ∀ method ∈ es.filterMap methodOf, ∀ answer ∈ es.filterMap answerOf, Respects method answer

instance (es : List (Event E)) : Decidable (TurnRespects es) :=
  inferInstanceAs (Decidable (∀ method ∈ es.filterMap methodOf,
    ∀ answer ∈ es.filterMap answerOf, Respects method answer))

variable [DecidableEq TypeId] {server : Server E} {env : Env}

/-- A turn that keeps the connection appends one whole response. -/
theorem replied_appends {s s' : State E} {r : Bool × State E} {tick : ℕ} {request : Request E}
    {k : Bool} {ext : RequestExtensions E} {reply : Reply}
    (hopened : Opened server env s s' tick request k) (hreplied : Replied ext k s' r reply)
    (halive : r.1 = true) (hdone : ∀ e ∈ r.2.events, succeeded e = true)
    (hrespects : TurnRespects r.2.events) :
    ∃ wire response, r.2.out = s.out ++ wire ∧
      r.2.events.filterMap methodOf = [request.head.method] ∧
      r.2.events.filterMap answerOf = [reply.answer] ∧ Matches reply.answer response ∧
      ∀ rest, takeResponse request.head.method (wire ++ rest) = some (response, rest) := by
  have hmethods : r.2.events.filterMap methodOf = [request.head.method] := by
    have hf : Unheard (methodOf (E := E)) := ⟨fun _ _ => rfl, fun _ => rfl⟩
    rw [hreplied.events, hopened.filterMap hf, Reply.filterMap hf, filterMap_sent fun _ _ => rfl]
    rfl
  have hanswers : r.2.events.filterMap answerOf = [reply.answer] := by
    have hf : Unheard (answerOf (E := E)) := ⟨fun _ _ => rfl, fun _ => rfl⟩
    rw [hreplied.events, hopened.filterMap hf, Reply.filterMap hf, filterMap_sent fun _ _ => rfl]
    rfl
  have hstarted : reply.done = true := by
    apply hdone (.responded reply.answer reply.keepAlive reply.done)
    rw [hreplied.events]
    simp [Reply.events]
  have hsent : ∀ x ∈ reply.sends, x.2 = true := by
    intro x hx
    apply hdone (.sent x.1 x.2)
    rw [hreplied.events]
    simp only [Reply.events, List.mem_append, List.mem_cons]
    exact .inr (.inr (.inr (.inl (List.mem_map.mpr ⟨x, hx, rfl⟩))))
  have hanswer : Respects request.head.method reply.answer := by
    apply hrespects
    · rw [hmethods]
      exact List.mem_singleton_self _
    · rw [hanswers]
      exact List.mem_singleton_self _
  obtain ⟨response, hmatches, htake⟩ := takeResponse_answer reply.keepAlive
    (hreplied.complete halive) hanswer
  refine ⟨_, response, ?_, hmethods, hanswers, hmatches, htake⟩
  rw [hreplied.out hstarted hsent, hopened.out, List.append_assoc]

theorem iteration_appends {s : State E} (halive : (iteration server env s).1 = true)
    (hdone : ∀ e ∈ (iteration server env s).2.events, succeeded e = true)
    (hrespects : TurnRespects (iteration server env s).2.events) :
    ∃ method answer wire response, (iteration server env s).2.out = s.out ++ wire ∧
      (iteration server env s).2.events.filterMap methodOf = [method] ∧
      (iteration server env s).2.events.filterMap answerOf = [answer] ∧
      Matches answer response ∧
      ∀ rest, takeResponse method (wire ++ rest) = some (response, rest) := by
  cases iteration_cases server env s with
  | ended hdead _ _ =>
    rw [halive] at hdead
    cases hdead
  | rejected s' tick request k hopened _ _ _ _ hreplied _ =>
    obtain ⟨wire, response, h⟩ := replied_appends hopened hreplied halive hdone hrespects
    exact ⟨_, _, wire, response, h⟩
  | allowed s' tick request k hopened _ hserved =>
    cases hserved with
    | replied reply hreplied =>
      obtain ⟨wire, response, h⟩ := replied_appends hopened hreplied halive hdone hrespects
      exact ⟨_, _, wire, response, h⟩
    | upgrade _ _ _ _ hdead _ _ _ _ =>
      rw [halive] at hdead
      cases hdead

variable (server) (env)

theorem handleConnection_wire (turns : ℕ) (s : State E)
    (halive : (handleConnection server env turns s).alive = true)
    (hdone : ∀ e ∈ (handleConnection server env turns s).turns.flatten, succeeded e = true)
    (hrespects : ∀ es ∈ (handleConnection server env turns s).turns, TurnRespects es) :
    ∃ wire responses, (handleConnection server env turns s).state.out = s.out ++ wire ∧
      List.Forall₂ Matches
        ((handleConnection server env turns s).turns.flatten.filterMap answerOf) responses ∧
      ∀ rest, takeResponses
        ((handleConnection server env turns s).turns.flatten.filterMap methodOf) (wire ++ rest) =
          some (responses, rest) := by
  induction turns generalizing s with
  | zero => exact ⟨[], [], by simp [handleConnection], .nil, fun rest => rfl⟩
  | succ turns ih =>
    obtain ⟨hturns, halive', hstate⟩ := handleConnection_succ server env turns s
    rw [halive', Bool.and_eq_true] at halive
    rw [hturns, if_pos halive.1] at hdone hrespects ⊢
    rw [hstate halive.1]
    rw [List.flatten_cons, List.forall_mem_append] at hdone
    rw [List.forall_mem_cons] at hrespects
    obtain ⟨method, answer, wire, response, hout, hmethod, hanswer, hmatches, htake⟩ :=
      iteration_appends halive.1 hdone.1 hrespects.1
    obtain ⟨wire', responses, hout', hall, htakes⟩ := ih _ halive.2 hdone.2 hrespects.2
    refine ⟨wire ++ wire', response :: responses, ?_, ?_, fun rest => ?_⟩
    · rw [hout', hout, List.append_assoc]
    · rw [List.flatten_cons, List.filterMap_append, hanswer, List.singleton_append]
      exact .cons hmatches hall
    · rw [List.flatten_cons, List.filterMap_append, hmethod, List.singleton_append,
        List.append_assoc, takeResponses, htake]
      simp only [htakes rest, Option.map_some]

/-- As long as a connection is kept, no write fails and its responses respect the methods, the
bytes written so far are one response for each request, in order, and nothing else. -/
theorem handleConnection_aligned (turns : ℕ) (reads : List Read)
    (halive : (handleConnection server env turns (.start reads)).alive = true)
    (hdone : ∀ e ∈ (handleConnection server env turns (.start reads)).turns.flatten,
      succeeded e = true)
    (hrespects : ∀ es ∈ (handleConnection server env turns (.start reads)).turns,
      TurnRespects es) :
    ∃ responses, takeResponses
        ((handleConnection server env turns (.start reads)).turns.flatten.filterMap methodOf)
        (handleConnection server env turns (.start reads)).state.out = some (responses, []) ∧
      List.Forall₂ Matches
        ((handleConnection server env turns (.start reads)).turns.flatten.filterMap answerOf)
        responses := by
  obtain ⟨wire, responses, hout, hall, htakes⟩ :=
    handleConnection_wire server env turns (.start reads) halive hdone hrespects
  refine ⟨responses, ?_, hall⟩
  have hempty : (State.start (E := E) reads).out = [] := rfl
  have hwire := htakes []
  rw [List.append_nil] at hwire
  rw [hout, hempty, List.nil_append, hwire]

end

def constantly (response : Response) : Server (fun _ : Unit => Unit) where
  middlewares := 0
  gates := []
  upgradeHandlers := []
  tryHandleUpgrade _ _ := false
  interceptors := []
  tryIntercept _ _ _ := none
  handler := some ⟨fun _ _ _ => none, fun _ _ _ => response⟩
  finalizeResponse _ _ response := response
  finalizeStreamingHead _ _ response := response
  prepareStreamingCompression _ _ response := (response, .identity)
  keepAliveEnabled := true
  maxRequestsPerConnection := 100
  maxConnectionLifetime := 1
  maxBodyBytes := 0

def twoGets : List Read := [.data (ascii "GET / HTTP/1.1\r\n\r\nGET / HTTP/1.1\r\n\r\n")]

theorem handleConnection_aligned_twoGets :
    ∃ responses, takeResponses
        ((handleConnection (constantly (.new 200 (ascii "x"))) .calm 2
          (.start twoGets)).turns.flatten.filterMap methodOf)
        (handleConnection (constantly (.new 200 (ascii "x"))) .calm 2 (.start twoGets)).state.out =
          some (responses, []) ∧
      List.Forall₂ Matches
        ((handleConnection (constantly (.new 200 (ascii "x"))) .calm 2
          (.start twoGets)).turns.flatten.filterMap answerOf) responses :=
  handleConnection_aligned (constantly (.new 200 (ascii "x"))) .calm 2 twoGets (by decide +kernel)
    (List.all_eq_true.mp (by decide +kernel)) (by decide +kernel)

/-- A connection that is kept, on which no write fails, and whose client is left with bytes
that belong to no response. -/
def Desynchronised (server : Server (fun _ : Unit => Unit)) (reads : List Read) : Prop :=
  (handleConnection server .calm 1 (.start reads)).alive = true ∧
  (∀ e ∈ (handleConnection server .calm 1 (.start reads)).turns.flatten, succeeded e = true) ∧
  ¬ ∃ responses, takeResponses
    ((handleConnection server .calm 1 (.start reads)).turns.flatten.filterMap methodOf)
    (handleConnection server .calm 1 (.start reads)).state.out = some (responses, [])

theorem desynchronised_of_leftover {server : Server (fun _ : Unit => Unit)} {reads : List Read}
    (halive : (handleConnection server .calm 1 (.start reads)).alive = true)
    (hdone : (handleConnection server .calm 1 (.start reads)).turns.flatten.all succeeded = true)
    (hleft : (takeResponses
      ((handleConnection server .calm 1 (.start reads)).turns.flatten.filterMap methodOf)
      (handleConnection server .calm 1 (.start reads)).state.out).all
        (fun r => !r.2.isEmpty) = true) :
    Desynchronised server reads := by
  refine ⟨halive, List.all_eq_true.mp hdone, ?_⟩
  rintro ⟨responses, h⟩
  rw [h] at hleft
  simp at hleft

/-- A body in answer to `HEAD`, and a body under status 204. -/
theorem desynchronised_head_noContent :
    Desynchronised (constantly (.new 200 (ascii "x"))) [.data (ascii "HEAD / HTTP/1.1\r\n\r\n")] ∧
    Desynchronised (constantly (.new 204 (ascii "x"))) [.data (ascii "GET / HTTP/1.1\r\n\r\n")] := by
  constructor
  · exact desynchronised_of_leftover (by decide +kernel) (by decide +kernel) (by decide +kernel)
  · exact desynchronised_of_leftover (by decide +kernel) (by decide +kernel) (by decide +kernel)

end FandheBackend.CoreConnectionFraming
