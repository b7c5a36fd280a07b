import FandheBackend.CoreConnectionPlan

set_option autoImplicit false

namespace FandheBackend.CoreConnectionMiddleware
open StdBytes HttpExtensions HttpRequestHead HttpChunked HttpConnection HttpResponse HttpClient
open CoreGates CoreConnection CoreConnectionTurns CoreConnectionGates PluginCompression
open CoreConnectionPlan

section Observed
variable {TypeId : Type} {E : TypeId → Type}

def isObserved : Event E → Bool
  | .read _ _ => true
  | .gate _ => true
  | .ran hook _ => isMiddleware hook
  | .responded _ _ _ => true
  | .sent _ _ => true
  | _ => false

def observed (s : State E) : List (Event E) := s.events.filter isObserved

def eventBytes : Event E → Bytes
  | .responded answer keepAlive _ => answer.bytes keepAlive
  | .sent bytes _ => bytes
  | _ => []

def isDone : Event E → Bool
  | .responded _ _ done => done
  | .sent _ done => done
  | _ => true

/-- From one state to the next there are these writes, with these bytes on the wire. -/
structure Wrote (s s' : State E) (es : List (Event E)) (wire : Bytes) : Prop where
  all_writes : ∀ e ∈ es, isWrite e = true
  observed : observed s' = observed s ++ es
  out : s'.out = s.out ++ wire
  requestsServed : s'.requestsServed = s.requestsServed
  wire_eq : (∀ e ∈ es, isDone e = true) → wire = es.flatMap eventBytes

theorem Wrote.refl (s : State E) : Wrote s s [] [] :=
  ⟨by simp, (List.append_nil _).symm, (List.append_nil _).symm, rfl, fun _ => rfl⟩

theorem Wrote.trans {s s' s'' : State E} {es es' : List (Event E)} {wire wire' : Bytes}
    (h : Wrote s s' es wire) (h' : Wrote s' s'' es' wire') :
    Wrote s s'' (es ++ es') (wire ++ wire') where
  all_writes e he := (List.mem_append.mp he).elim (h.all_writes e) (h'.all_writes e)
  observed := by rw [h'.observed, h.observed, List.append_assoc]
  out := by rw [h'.out, h.out, List.append_assoc]
  requestsServed := h'.requestsServed.trans h.requestsServed
  wire_eq hdone := by
    rw [h.wire_eq fun e he => hdone e (List.mem_append_left _ he),
      h'.wire_eq fun e he => hdone e (List.mem_append_right _ he), List.flatMap_append]

theorem wrote_log {s : State E} {es : List (Event E)} (h : es.filter isObserved = []) :
    Wrote s (s.log es) [] [] where
  all_writes e he := by cases he
  observed := by
    rw [observed, log_events, List.filter_append, h]
    rfl
  out := (List.append_nil _).symm
  requestsServed := rfl
  wire_eq _ := rfl

theorem Wrote.after_quiet {s s' s'' : State E} {es : List (Event E)} {wire : Bytes}
    (h : Wrote s s' [] []) (h' : Wrote s' s'' es wire) : Wrote s s'' es wire := h.trans h'

theorem wrote_write (env : Env) {event : Bool → Event E} {bytes : Bytes} (s : State E)
    (hwrite : ∀ done, isWrite (event done) = true)
    (hobserved : ∀ done, isObserved (event done) = true)
    (hdone : ∀ done, isDone (event done) = done) (hbytes : eventBytes (event true) = bytes) :
    ∃ wire, Wrote s (s.write env event bytes).2 [event (s.write env event bytes).1] wire := by
  refine ⟨_, ?_, ?_, rfl, rfl, fun h => ?_⟩
  · intro e he
    rw [List.mem_singleton.mp he]
    exact hwrite _
  · simp [State.write, observed, List.filter_append, hobserved]
  · have hwritten := h _ (List.mem_singleton.mpr rfl)
    rw [hdone] at hwritten
    rw [hwritten, List.flatMap_singleton, hbytes]
    unfold State.write at hwritten
    cases hw : env.writeFails s.writeCalls with
    | none => rfl
    | some n => simp [hw] at hwritten

theorem wrote_startResponse (env : Env) (answer : Answer) (keepAlive : Bool) (s : State E) :
    ∃ wire, Wrote s (s.startResponse env answer keepAlive).2
      [.responded answer keepAlive (s.startResponse env answer keepAlive).1] wire :=
  wrote_write env s (fun _ => rfl) (fun _ => rfl) (fun _ => rfl) rfl

theorem wrote_send (env : Env) (bytes : Bytes) (s : State E) :
    ∃ wire, Wrote s (s.send env bytes).2 [.sent bytes (s.send env bytes).1] wire :=
  wrote_write env s (fun _ => rfl) (fun _ => rfl) (fun _ => rfl) rfl

end Observed

section Calls
variable {TypeId : Type} {E : TypeId → Type} (server : Server E) (env : Env)

theorem stillAlive_wrote (keepAlive : Bool) (s : State E) :
    Wrote s (stillAlive server env keepAlive s).2 [] [] :=
  ⟨by simp, (List.append_nil _).symm, (List.append_nil _).symm, rfl, fun _ => rfl⟩

theorem upgradeMatches_wrote (n : ℕ) (head : RequestHead E)
    (handlers : List (ℕ → RequestHead E → Bool)) (i : ℕ) (s : State E) :
    (upgradeMatches n head i handlers s).1 = handlers.any (fun handler => handler n head) ∧
    Wrote s (upgradeMatches n head i handlers s).2 [] [] := by
  induction handlers generalizing i s with
  | nil => exact ⟨rfl, .refl s⟩
  | cons handler handlers ih =>
    obtain ⟨hany, hwrote⟩ := ih (i + 1) (s.log [.ran (.upgradeMatches i) head.extensions])
    have hlog : Wrote s (s.log [.ran (.upgradeMatches i) head.extensions]) [] [] := wrote_log rfl
    rw [upgradeMatches, List.any_cons]
    cases hmatch : handler n head with
    | true => exact ⟨rfl, hlog⟩
    | false => exact ⟨hany, hlog.after_quiet hwrote⟩

theorem intercept_wrote (n : ℕ) (head : RequestHead E) (body : Bytes)
    (interceptors : List (Interceptor E)) (i : ℕ) (s : State E) :
    (intercept n head body i interceptors s).1 =
      interceptors.findSome? (fun interceptor => interceptor.intercept n head body) ∧
    Wrote s (intercept n head body i interceptors s).2 [] [] := by
  induction interceptors generalizing i s with
  | nil => exact ⟨rfl, .refl s⟩
  | cons interceptor interceptors ih =>
    obtain ⟨hfind, hwrote⟩ := ih (i + 1) (s.log [.ran (.intercept i) head.extensions])
    have hlog : Wrote s (s.log [.ran (.intercept i) head.extensions]) [] [] := wrote_log rfl
    rw [intercept, List.findSome?_cons]
    cases hresponse : interceptor.intercept n head body with
    | some response => exact ⟨rfl, hlog⟩
    | none => exact ⟨hfind, hlog.after_quiet hwrote⟩

theorem mapResponses_wrote (n : ℕ) (head : RequestHead E) (interceptors : List (Interceptor E))
    (i : ℕ) (response : Response) (s : State E) :
    (mapResponses n head i interceptors response s).1 = interceptors.foldl
      (fun acc interceptor => interceptor.mapResponse n head acc) response ∧
    Wrote s (mapResponses n head i interceptors response s).2 [] [] := by
  induction interceptors generalizing i response s with
  | nil => exact ⟨rfl, .refl s⟩
  | cons interceptor interceptors ih =>
    obtain ⟨hfold, hwrote⟩ := ih (i + 1) (interceptor.mapResponse n head response)
      (s.log [.ran (.mapResponse i) head.extensions])
    have hlog : Wrote s (s.log [.ran (.mapResponse i) head.extensions]) [] [] := wrote_log rfl
    exact ⟨hfold, hlog.after_quiet hwrote⟩

theorem streamingHead_wrote (n : ℕ) (head : RequestHead E) (streaming : StreamingResponse)
    (s : State E) :
    (streamingHead server n head streaming s).1 = { server.finalizeStreamingHead n head
      (mapped server n head streaming.initialHead) with body := [] } ∧
    Wrote s (streamingHead server n head streaming s).2 [] [] := by
  obtain ⟨hmapped, hwrote⟩ := mapResponses_wrote n head server.interceptors 0
    streaming.initialHead s
  refine ⟨?_, hwrote.after_quiet (wrote_log rfl)⟩
  rw [streamingHead, hmapped]
  rfl

end Calls

section Bodies
variable {TypeId : Type} {E : TypeId → Type} (env : Env)

theorem map_sent_cons {bytes : Bytes} {done : Bool} {es : List (Event E)} {body : List Bytes} :
    Event.sent bytes done :: es = body.map (.sent · true) ↔
      ∃ body', body = bytes :: body' ∧ done = true ∧ es = body'.map (.sent · true) := by
  cases body with
  | nil => simp
  | cons b body =>
    simp only [List.map_cons, List.cons.injEq, Event.sent.injEq]
    constructor
    · rintro ⟨⟨rfl, rfl⟩, rfl⟩
      exact ⟨body, ⟨rfl, rfl⟩, rfl, rfl⟩
    · rintro ⟨body', ⟨rfl, rfl⟩, rfl, rfl⟩
      exact ⟨⟨rfl, rfl⟩, rfl⟩

/-- A loop over a body: it ends well exactly if it made all the writes of `body`. -/
def BodyLoop (s : State E) (r : Bool × State E) (body : Option (List Bytes)) : Prop :=
  ∃ es wire, Wrote s r.2 es wire ∧
    (r.1 = true ↔ ∃ writes, body = some writes ∧ es = writes.map (.sent · true))

theorem bodyLoop_none (s : State E) : BodyLoop s (false, s) none :=
  ⟨[], [], .refl s, by simp⟩

theorem BodyLoop.then_quiet {s s' s'' : State E} {ok : Bool} {body : Option (List Bytes)}
    (h : BodyLoop s (ok, s') body) (hquiet : Wrote s' s'' [] []) : BodyLoop s (ok, s'') body := by
  obtain ⟨es, wire, hwrote, hok⟩ := h
  have hthen := hwrote.trans hquiet
  rw [List.append_nil, List.append_nil] at hthen
  exact ⟨es, wire, hthen, hok⟩

theorem bodyLoop_send {s : State E} {bytes : Bytes} {r : Bool × State E}
    {body : Option (List Bytes)} (h : BodyLoop (s.send env bytes).2 r body) :
    BodyLoop s (if (s.send env bytes).1 then r else (false, (s.send env bytes).2))
      (body.map (bytes :: ·)) := by
  obtain ⟨wire, hsend⟩ := wrote_send env bytes s
  cases hdone : (s.send env bytes).1 with
  | false =>
    rw [hdone] at hsend
    refine ⟨_, _, hsend, ?_⟩
    simp only [Bool.false_eq_true, ↓reduceIte, false_iff, not_exists, not_and]
    intro writes _ heq
    obtain ⟨_, _, hfalse, _⟩ := map_sent_cons.mp heq
    cases hfalse
  | true =>
    rw [hdone] at hsend
    obtain ⟨es, wire', hwrote, hiff⟩ := h
    refine ⟨_, _, hsend.trans hwrote, ?_⟩
    simp only [↓reduceIte, hiff, List.singleton_append]
    constructor
    · rintro ⟨writes, hbody, rfl⟩
      exact ⟨bytes :: writes, by rw [hbody]; rfl, rfl⟩
    · rintro ⟨writes, hbody, heq⟩
      obtain ⟨writes', rfl, _, rfl⟩ := map_sent_cons.mp heq
      obtain ⟨writes'', hbody, hcons⟩ := Option.map_eq_some_iff.mp hbody
      rw [List.cons.injEq] at hcons
      exact ⟨writes'', hbody, by rw [hcons.2]⟩

theorem bodyLoop_last (bytes : Bytes) (s : State E) :
    BodyLoop s (s.send env bytes) (some [bytes]) := by
  have hnil : BodyLoop (s.send env bytes).2 (true, (s.send env bytes).2) (some []) :=
    ⟨[], [], .refl _, by simp⟩
  have hsend := bodyLoop_send env hnil
  rcases hw : s.send env bytes with ⟨done, s'⟩
  rw [hw] at hsend
  cases done <;> exact hsend

theorem sendUntilClose_loop (recvs : List Recv) (s : State E) :
    BodyLoop s (sendUntilClose env recvs s) (untilCloseBody recvs) := by
  induction recvs generalizing s with
  | nil => exact bodyLoop_none s
  | cons recv recvs ih =>
    cases recv with
    | none => exact bodyLoop_none s
    | some outcome =>
      cases outcome with
      | finished => exact ⟨[], [], .refl s, by simp [sendUntilClose, untilCloseBody, finishedData]⟩
      | aborted => exact bodyLoop_none s
      | chunk data =>
        rw [sendUntilClose, untilCloseBody_chunk]
        cases hempty : data.isEmpty with
        | true => simpa using ih s
        | false => exact bodyLoop_send env (ih (s.send env data).2)

theorem encodeChunk_isEmpty (piece : Bytes) :
    (encodeChunk piece []).isEmpty = piece.isEmpty := by
  cases piece with
  | nil => rfl
  | cons b bs => simp [encodeChunk]

theorem last_chunk (residual : Bytes) :
    encodeTerminator (if residual.isEmpty then [] else encodeChunk residual []) =
      encodeTerminator (encodeChunk residual []) := by
  cases residual with
  | nil => rfl
  | cons b bs => rfl

theorem sendChunks_loop (encoder : StreamingBodyEncoder) (recvs : List Recv)
    (given : List Bytes) (s : State E) :
    BodyLoop s (sendChunks env encoder given recvs s) (chunkedBody encoder given recvs) := by
  induction recvs generalizing given s with
  | nil => exact bodyLoop_none s
  | cons recv recvs ih =>
    cases recv with
    | none => exact bodyLoop_none s
    | some outcome =>
      cases outcome with
      | aborted => exact bodyLoop_none s
      | finished =>
        rw [sendChunks, chunkedBody]
        simp only [finishedData, Option.bind_some, encodedPieces, List.append_nil]
        cases encoder.finish given with
        | none => exact bodyLoop_none s
        | some residual =>
          simp only [last_chunk, Option.map_some, List.filter_nil, List.map_nil, List.nil_append]
          exact bodyLoop_last env _ s
      | chunk data =>
        rw [sendChunks, chunkedBody_chunk]
        cases encoder.transform given data with
        | none => exact bodyLoop_none s
        | some piece =>
          simp only [encodeChunk_isEmpty, Option.bind_some]
          cases hempty : piece.isEmpty with
          | true => simpa using ih (given ++ [data]) s
          | false =>
            exact bodyLoop_send env (ih (given ++ [data]) (s.send env (encodeChunk piece [])).2)

end Bodies

section Answers
variable {TypeId : Type} {E : TypeId → Type} (server : Server E) (env : Env)

def responses (ext : RequestExtensions E) : Option UInt16 → List (Event E)
  | some status => (List.range server.middlewares).map fun i => .ran (.onResponse i status) ext
  | none => []

def notify (head : RequestHead E) : Option UInt16 → State E → State E
  | some status, s => onResponse server head status s
  | none, s => s

theorem observed_notify (head : RequestHead E) (status : Option UInt16) (s : State E) :
    observed (notify server head status s) =
      observed s ++ responses server head.extensions status := by
  cases status with
  | none => exact (List.append_nil _).symm
  | some status =>
    have hall : (responses server head.extensions (some status)).filter isObserved =
        responses server head.extensions (some status) := by
      rw [List.filter_eq_self]
      intro e he
      obtain ⟨i, _, rfl⟩ := List.mem_map.mp he
      rfl
    rw [notify, observed, onResponse, log_events, List.filter_append]
    exact congrArg (observed s ++ ·) hall

/-- A function that answers, from the state `s` to the result `r`, and what it observably did. -/
structure Answered (ext : RequestExtensions E) (delivery : Option (Answer × List Bytes))
    (s : State E) (r : Bool × State E) (writes : List (Event E)) (wire : Bytes)
    (status : Option UInt16) : Prop where
  all_writes : ∀ e ∈ writes, isWrite e = true
  observed : observed r.2 = observed s ++ (writes ++ responses server ext status)
  out : r.2.out = s.out ++ wire
  requestsServed : r.2.requestsServed = s.requestsServed
  status_iff : ∀ st, status = some st ↔ Complete delivery writes st
  wire_eq : status.isSome = true → wire = writes.flatMap eventBytes
  alive : r.1 = true → status.isSome = true

def Answers (ext : RequestExtensions E) (delivery : Option (Answer × List Bytes)) (s : State E)
    (r : Bool × State E) : Prop :=
  ∃ writes wire status, Answered server ext delivery s r writes wire status

theorem complete_done {delivery : Option (Answer × List Bytes)} {writes : List (Event E)}
    {status : UInt16} (h : Complete delivery writes status) : ∀ e ∈ writes, isDone e = true := by
  obtain ⟨answer, body, keepAlive, _, rfl, _⟩ := h
  rw [List.forall_mem_cons]
  refine ⟨rfl, fun e he => ?_⟩
  obtain ⟨b, _, rfl⟩ := List.mem_map.mp he
  rfl

variable {server}

theorem answered_of_wrote {head : RequestHead E} {delivery : Option (Answer × List Bytes)}
    {s s' : State E} {writes : List (Event E)} {wire : Bytes} {status : Option UInt16}
    {alive : Bool} (h : Wrote s s' writes wire)
    (hiff : ∀ st, status = some st ↔ Complete delivery writes st)
    (halive : alive = true → status.isSome = true) :
    Answered server head.extensions delivery s (alive, notify server head status s') writes wire
      status where
  all_writes := h.all_writes
  observed := by rw [observed_notify, h.observed, List.append_assoc]
  out := by
    rw [← h.out]
    cases status <;> rfl
  requestsServed := by
    rw [← h.requestsServed]
    cases status <;> rfl
  status_iff := hiff
  wire_eq hsome := by
    obtain ⟨st, hst⟩ := Option.isSome_iff_exists.mp hsome
    exact h.wire_eq (complete_done ((hiff st).mp hst))
  alive := halive

theorem Answered.after_quiet {ext : RequestExtensions E}
    {delivery : Option (Answer × List Bytes)} {s s' : State E} {r : Bool × State E}
    {writes : List (Event E)} {wire : Bytes} {status : Option UInt16}
    (hquiet : Wrote s s' [] []) (h : Answered server ext delivery s' r writes wire status) :
    Answered server ext delivery s r writes wire status where
  all_writes := h.all_writes
  observed := by rw [h.observed, hquiet.observed, List.append_nil]
  out := by rw [h.out, hquiet.out, List.append_nil]
  requestsServed := h.requestsServed.trans hquiet.requestsServed
  status_iff := h.status_iff
  wire_eq := h.wire_eq
  alive := h.alive

variable (server)

theorem answers_incomplete {head : RequestHead E} {delivery : Option (Answer × List Bytes)}
    {s s' : State E} {writes : List (Event E)} {wire : Bytes} (h : Wrote s s' writes wire)
    (hnever : ∀ st, ¬ Complete delivery writes st) :
    Answers server head.extensions delivery s (false, s') := by
  have hiff : ∀ st, none = some st ↔ Complete delivery writes st := by
    intro st
    simpa using hnever st
  have hanswered : Answered server head.extensions delivery s
      (false, notify server head none s') writes wire none :=
    answered_of_wrote h hiff Bool.noConfusion
  exact ⟨writes, wire, none, hanswered⟩

theorem answered_failed {head : RequestHead E} {answer : Answer} {keepAlive : Bool}
    {s : State E} (body : Option (List Bytes))
    (h : (s.startResponse env answer keepAlive).1 = false) :
    Answers server head.extensions (body.map fun b => (answer, b)) s
      (false, (s.startResponse env answer keepAlive).2) := by
  obtain ⟨wire, hwrote⟩ := wrote_startResponse env answer keepAlive s
  rw [h] at hwrote
  apply answers_incomplete server hwrote
  rintro st ⟨answer', body', keepAlive', _, hwrites, _⟩
  cases hwrites

theorem answered_started {head : RequestHead E} {answer : Answer} {keepAlive ok alive : Bool}
    {s s' : State E} {body : Option (List Bytes)}
    (h : (s.startResponse env answer keepAlive).1 = true)
    (hloop : BodyLoop (s.startResponse env answer keepAlive).2 (ok, s') body)
    (halive : alive = true → ok = true) :
    Answers server head.extensions (body.map fun b => (answer, b)) s
      (alive, notify server head (if ok then some (answerResponse answer).status else none) s') := by
  obtain ⟨wire, hwrote⟩ := wrote_startResponse env answer keepAlive s
  rw [h] at hwrote
  obtain ⟨es, wire', hbody, hok⟩ := hloop
  refine ⟨_, _, _, answered_of_wrote (hwrote.trans hbody) ?_ ?_⟩
  · intro st
    constructor
    · intro hst
      obtain ⟨hdone, hst⟩ := Option.ite_none_right_eq_some.mp hst
      obtain ⟨writes, rfl, rfl⟩ := hok.mp hdone
      exact ⟨answer, writes, keepAlive, rfl, rfl, (Option.some.inj hst).symm⟩
    · rintro ⟨answer', writes, keepAlive', hdelivery, hwrites, rfl⟩
      obtain ⟨writes', rfl, heq⟩ := Option.map_eq_some_iff.mp hdelivery
      cases heq
      rw [List.singleton_append, List.cons.injEq] at hwrites
      rw [if_pos (hok.mpr ⟨_, rfl, hwrites.2⟩)]
  · intro hk
    rw [if_pos (halive hk)]
    rfl

variable {server} in
theorem Answers.after_quiet {ext : RequestExtensions E}
    {delivery : Option (Answer × List Bytes)} {s s' : State E} {r : Bool × State E}
    (hquiet : Wrote s s' [] []) (h : Answers server ext delivery s' r) :
    Answers server ext delivery s r := by
  obtain ⟨writes, wire, status, h⟩ := h
  exact ⟨writes, wire, status, h.after_quiet hquiet⟩

theorem bodyLoop_nil (s : State E) : BodyLoop s (true, s) (some []) :=
  ⟨[], [], .refl s, by simp⟩

theorem respond_answers (head : RequestHead E) (response : Response) (keepAlive : Bool)
    (s : State E) :
    Answers server head.extensions (some (.whole response, [])) s
      (respond server env head response keepAlive s) := by
  rw [respond]
  cases h : (s.startResponse env (.whole response) keepAlive).1 with
  | false => exact answered_failed server env (some []) h
  | true => exact answered_started server env h (bodyLoop_nil _) fun _ => rfl

theorem writeStreamingHttp10_answers (head : RequestHead E) (response : Response)
    (recvs : List Recv) (s : State E) :
    Answers server head.extensions (Plan.untilClose response recvs).delivery s
      (finishStreaming server head (writeStreamingHttp10 env response recvs s)) := by
  rw [writeStreamingHttp10, Plan.delivery]
  cases h : (s.startResponse env (.untilClose response) false).1 with
  | false => exact answered_failed server env _ h
  | true =>
    cases hbodyless : Response.isBodylessStatus response.status with
    | true =>
      rw [streamed, if_pos hbodyless]
      exact answered_started server env h (bodyLoop_nil _) fun _ => rfl
    | false =>
      rw [streamed, hbodyless]
      have hloop := sendUntilClose_loop env recvs
        (s.startResponse env (.untilClose response) false).2
      rcases hr : sendUntilClose env recvs
        (s.startResponse env (.untilClose response) false).2 with ⟨ok, s'⟩
      rw [hr] at hloop
      simp only [↓reduceIte, Bool.false_eq_true]
      cases ok with
      | true => exact answered_started server env h hloop Bool.noConfusion
      | false => exact answered_started server env h hloop Bool.noConfusion

theorem writeStreamingHttp11_answers (n : ℕ) (head : RequestHead E) (response : Response)
    (recvs : List Recv) (keepAlive : Bool) (s : State E)
    (hstatus : (server.prepareStreamingCompression n head response).1.status = response.status) :
    let prepared := server.prepareStreamingCompression n head response
    Answers server head.extensions (Plan.chunked prepared.1 prepared.2 recvs).delivery s
      (finishStreaming server head
        (writeStreamingHttp11 server env n head response recvs keepAlive s)) := by
  intro prepared
  let alive := stillAlive server env keepAlive s
  let s₁ := alive.2.log [.ran .prepareStreamingCompression head.extensions]
  have hquiet : Wrote s s₁ [] [] := (stillAlive_wrote server env keepAlive s).trans (wrote_log rfl)
  suffices h : Answers server head.extensions
      (Plan.chunked prepared.1 prepared.2 recvs).delivery s₁ (finishStreaming server head
        (writeStreamingHttp11 server env n head response recvs keepAlive s)) from
    h.after_quiet hquiet
  have hnotify : ∀ s' : State E, onResponse server head response.status s' =
      notify server head (some (answerResponse (.chunked prepared.1)).status) s' := by
    intro s'
    rw [notify, answerResponse, hstatus]
  rw [writeStreamingHttp11, Plan.delivery]
  cases h : (s₁.startResponse env (.chunked prepared.1) alive.1).1 with
  | false => exact answered_failed server env _ h
  | true =>
    let w := (s₁.startResponse env (.chunked prepared.1) alive.1).2
    cases hbodyless : Response.isBodylessStatus prepared.1.status with
    | true =>
      have hloop := (bodyLoop_nil w).then_quiet (stillAlive_wrote server env alive.1 w)
      rw [streamed, if_pos hbodyless]
      simp only [↓reduceIte, finishStreaming, hnotify]
      exact answered_started server env h hloop fun _ => rfl
    | false =>
      have hloop := sendChunks_loop env prepared.2 recvs [] w
      rw [streamed, hbodyless]
      simp only [↓reduceIte, Bool.false_eq_true]
      rcases hr : sendChunks env prepared.2 [] recvs w with ⟨ok, s'⟩
      rw [hr] at hloop
      cases ok with
      | true =>
        have hafter := hloop.then_quiet (stillAlive_wrote server env alive.1 s')
        simp only [↓reduceIte, finishStreaming, hnotify]
        exact answered_started server env h hafter fun _ => rfl
      | false => exact answered_started server env h hloop Bool.noConfusion

theorem answerWhole_answers (n : ℕ) (head : RequestHead E) (response : Response)
    (keepAlive : Bool) (s : State E) :
    Answers server head.extensions
      (Plan.whole (server.finalizeResponse n head (mapped server n head response))).delivery s
      (answerWhole server env n head response keepAlive s) := by
  obtain ⟨hmapped, hwrote⟩ := mapResponses_wrote n head server.interceptors 0 response s
  rw [answerWhole, hmapped]
  exact (respond_answers server env head _ _ _).after_quiet
    ((hwrote.trans (wrote_log rfl)).trans (stillAlive_wrote server env keepAlive _))

/-- The plugin that prepares the compression of a stream leaves the status alone. -/
def KeepsStatus : Prop :=
  ∀ n head response, (server.prepareStreamingCompression n head response).1.status =
    response.status

variable {server}

theorem answerStreaming_answers (hkeeps : KeepsStatus server) (n : ℕ) (head : RequestHead E)
    (streaming : StreamingResponse) (keepAlive : Bool) (s : State E) :
    Answers server head.extensions (streamingPlan server n head streaming).delivery s
      (answerStreaming server env n head streaming keepAlive s) := by
  obtain ⟨hhead, hwrote⟩ := streamingHead_wrote server n head streaming s
  rw [answerStreaming, writeStreamingResponse, streamingPlan, ← hhead]
  cases head.version with
  | http10 => exact (writeStreamingHttp10_answers server env head _ _ _).after_quiet hwrote
  | http11 =>
    exact (writeStreamingHttp11_answers server env n head _ _ _ _ (hkeeps n head _)).after_quiet
      hwrote

theorem answer_answers (hkeeps : KeepsStatus server) (n : ℕ) (head : RequestHead E)
    (body : Bytes) (keepAlive : Bool) (s : State E) :
    Answers server head.extensions (answerPlan server n head body).delivery s
      (answer server env n head body keepAlive s) := by
  obtain ⟨hfind, hwrote⟩ := intercept_wrote n head body server.interceptors 0 s
  have hplugin : Wrote s ((intercept n head body 0 server.interceptors s).2.log
      [.ran .tryIntercept head.extensions]) [] [] := hwrote.trans (wrote_log rfl)
  rw [answer, answerPlan, chosen, ← hfind]
  cases (intercept n head body 0 server.interceptors s).1 with
  | some response => exact (answerWhole_answers server env n head _ _ _).after_quiet hwrote
  | none =>
    cases server.tryIntercept n head body with
    | some response => exact (answerWhole_answers server env n head _ _ _).after_quiet hplugin
    | none =>
      refine Answers.after_quiet hplugin ?_
      dsimp only
      rw [answerByHandler]
      cases server.handler with
      | none => exact answerWhole_answers server env n head _ _ _
      | some handler =>
        dsimp only
        cases handler.handleStreaming n head body with
        | some streaming =>
          exact (answerStreaming_answers env hkeeps n head _ _ _).after_quiet (wrote_log rfl)
        | none =>
          exact (answerWhole_answers server env n head _ _ _).after_quiet
            ((wrote_log rfl).trans (wrote_log rfl))

variable (server)

/-- An upgrade has no complete answer, whatever is written. -/
theorem answers_upgrade {head : RequestHead E} {s s' : State E} {writes : List (Event E)}
    {wire : Bytes} (h : Wrote s s' writes wire) :
    Answers server head.extensions Plan.upgrade.delivery s (false, s') := by
  apply answers_incomplete server h
  rintro st ⟨answer, body, keepAlive, hdelivery, _⟩
  cases hdelivery

theorem respondAndClose_upgrade {head : RequestHead E} {s s' : State E} (response : Response)
    (h : Wrote s s' [] []) :
    Answers server head.extensions Plan.upgrade.delivery s (respondAndClose env response s') := by
  obtain ⟨wire, hstart⟩ := wrote_startResponse env (.whole response) false s'
  exact answers_upgrade server (h.trans hstart)

theorem answerUpgrade_answers (n : ℕ) (head : RequestHead E) (s : State E) :
    Answers server head.extensions Plan.upgrade.delivery s
      (answerUpgrade server env n head s) := by
  have hcheck : Wrote s { s.log [.upgradeCheck s.tick] with tick := s.tick + 1 } [] [] :=
    { wrote_log (s := s) rfl with }
  rw [answerUpgrade]
  split
  · exact respondAndClose_upgrade server env _ hcheck
  · dsimp only
    split
    · exact answers_upgrade server (hcheck.trans ((wrote_log rfl).trans (wrote_log rfl)))
    · exact respondAndClose_upgrade server env _ (hcheck.trans (wrote_log rfl))

theorem serveAllowed_answers (hkeeps : KeepsStatus server) (n : ℕ) (head : RequestHead E)
    (body : Bytes) (keepAlive : Bool) (s : State E) :
    Answers server head.extensions (allowedPlan server n head body).delivery s
      (serveAllowed server env n head body keepAlive s) := by
  obtain ⟨hany, hwrote⟩ := upgradeMatches_wrote n head server.upgradeHandlers 0 s
  rw [serveAllowed, allowedPlan, ← hany]
  split
  · exact (answerUpgrade_answers server env n head _).after_quiet hwrote
  · exact (answer_answers env hkeeps n head body keepAlive _).after_quiet hwrote

end Answers

end FandheBackend.CoreConnectionMiddleware
