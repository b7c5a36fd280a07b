import FandheBackend.CoreConnection
import FandheBackend.HttpClient
import FandheBackend.HttpConnectionStream

set_option autoImplicit false

/-!
# What one turn of the connection loop can do

A turn that answers its request does so in one way, whichever path it takes: calls to user
code, one write that starts the response, writes that carry it on, more calls. `Replied`
says how such a `Reply` is tied to the state, and `iteration_cases` says that nothing else
can happen.
-/
namespace FandheBackend.CoreConnectionTurns
open StdBytes HttpExtensions HttpRequestHead HttpChunked HttpChunkedRoundTrip
open HttpConnection HttpResponse HttpClient CoreGates CoreConnection

section Pieces
variable {TypeId : Type} {E : TypeId → Type}

def ran (ext : RequestExtensions E) (hooks : List Hook) : List (Event E) :=
  hooks.map fun hook => .ran hook ext

theorem ran_append (ext : RequestExtensions E) (xs ys : List Hook) :
    ran ext (xs ++ ys) = ran ext xs ++ ran ext ys := List.map_append

@[simp] theorem log_events (s : State E) (es : List (Event E)) :
    (s.log es).events = s.events ++ es := rfl

@[simp] theorem log_tick (s : State E) (es : List (Event E)) : (s.log es).tick = s.tick := rfl

@[simp] theorem log_out (s : State E) (es : List (Event E)) : (s.log es).out = s.out := rfl

@[simp] theorem log_log (s : State E) (xs ys : List (Event E)) :
    (s.log xs).log ys = s.log (xs ++ ys) := by
  simp [State.log]

theorem log_nil (s : State E) : s.log [] = s := by
  simp [State.log]

theorem upgradeMatches_ran (n : ℕ) (head : RequestHead E)
    (handlers : List (ℕ → RequestHead E → Bool)) (i : ℕ) (s : State E) :
    ∃ hooks, Hook.tryHandleUpgrade ∉ hooks ∧
      (upgradeMatches n head i handlers s).2 = s.log (ran head.extensions hooks) := by
  induction handlers generalizing i s with
  | nil => exact ⟨[], List.not_mem_nil, (log_nil s).symm⟩
  | cons handler handlers ih =>
    rw [upgradeMatches]
    split
    · exact ⟨[.upgradeMatches i], by simp, rfl⟩
    · obtain ⟨hooks, hnot, h⟩ := ih (i + 1) (s.log [.ran (.upgradeMatches i) head.extensions])
      exact ⟨.upgradeMatches i :: hooks, by simp [hnot], by rw [h, log_log]; rfl⟩

theorem intercept_ran (n : ℕ) (head : RequestHead E) (body : Bytes)
    (interceptors : List (Interceptor E)) (i : ℕ) (s : State E) :
    ∃ hooks, (intercept n head body i interceptors s).2 = s.log (ran head.extensions hooks) := by
  induction interceptors generalizing i s with
  | nil => exact ⟨[], (log_nil s).symm⟩
  | cons interceptor interceptors ih =>
    rw [intercept]
    split
    · exact ⟨[.intercept i], rfl⟩
    · obtain ⟨hooks, h⟩ := ih (i + 1) (s.log [.ran (.intercept i) head.extensions])
      exact ⟨.intercept i :: hooks, by rw [h, log_log]; rfl⟩

theorem mapResponses_ran (n : ℕ) (head : RequestHead E) (interceptors : List (Interceptor E))
    (i : ℕ) (response : Response) (s : State E) :
    ∃ hooks, (mapResponses n head i interceptors response s).2 =
      s.log (ran head.extensions hooks) := by
  induction interceptors generalizing i response s with
  | nil => exact ⟨[], (log_nil s).symm⟩
  | cons interceptor interceptors ih =>
    obtain ⟨hooks, h⟩ := ih (i + 1) (interceptor.mapResponse n head response)
      (s.log [.ran (.mapResponse i) head.extensions])
    exact ⟨.mapResponse i :: hooks, by rw [mapResponses, h, log_log]; rfl⟩

theorem streamingHead_ran (server : Server E) (n : ℕ) (head : RequestHead E)
    (streaming : StreamingResponse) (s : State E) :
    ∃ hooks, (streamingHead server n head streaming s).2 =
      s.log (ran head.extensions hooks) := by
  obtain ⟨hooks, h⟩ := mapResponses_ran n head server.interceptors 0
    streaming.initialHead s
  exact ⟨hooks ++ [.finalizeStreamingHead], by rw [streamingHead, h, log_log, ran_append]; rfl⟩

theorem onResponse_ran (server : Server E) (head : RequestHead E) (status : UInt16)
    (s : State E) : onResponse server head status s =
      s.log (ran head.extensions ((List.range server.middlewares).map (.onResponse · status))) := by
  rw [onResponse, ran, List.map_map]
  rfl

end Pieces

section Sending
variable {TypeId : Type} {E : TypeId → Type} (env : Env)

def sentEvents (sends : List (Bytes × Bool)) : List (Event E) :=
  sends.map fun x => .sent x.1 x.2

structure Sends (s s' : State E) (sends : List (Bytes × Bool)) : Prop where
  events : s'.events = s.events ++ sentEvents sends
  tick : s'.tick = s.tick
  requestsServed : s'.requestsServed = s.requestsServed
  out : (∀ x ∈ sends, x.2 = true) → s'.out = s.out ++ sends.flatMap Prod.fst

theorem Sends.nil (s : State E) : Sends s s [] :=
  ⟨by simp [sentEvents], rfl, rfl, fun _ => by simp⟩

theorem write_out {event : Bool → Event E} {bytes : Bytes} {s : State E}
    (h : (s.write env event bytes).1 = true) :
    (s.write env event bytes).2.out = s.out ++ bytes := by
  unfold State.write at h ⊢
  cases hw : env.writeFails s.writeCalls with
  | none => simp
  | some n => simp [hw] at h

theorem send_sends (bytes : Bytes) (s : State E) :
    Sends s (s.send env bytes).2 [(bytes, (s.send env bytes).1)] := by
  refine ⟨rfl, rfl, rfl, fun h => ?_⟩
  have hdone := h _ (List.mem_singleton.mpr rfl)
  rw [State.send, write_out env hdone]
  simp

theorem Sends.cons {bytes : Bytes} {s s' : State E} {sends : List (Bytes × Bool)}
    (h : Sends (s.send env bytes).2 s' sends) :
    Sends s s' ((bytes, (s.send env bytes).1) :: sends) := by
  have hfirst := send_sends env bytes s
  refine ⟨?_, h.tick.trans hfirst.tick, h.requestsServed.trans hfirst.requestsServed, ?_⟩
  · rw [h.events, hfirst.events]
    simp [sentEvents]
  · intro hall
    rw [List.forall_mem_cons] at hall
    rw [h.out hall.2, hfirst.out (by simpa using hall.1)]
    simp

theorem sendUntilClose_sends (recvs : List Recv) (s : State E) :
    ∃ sends, Sends s (sendUntilClose env recvs s).2 sends := by
  induction recvs generalizing s with
  | nil => exact ⟨[], .nil s⟩
  | cons recv recvs ih =>
    cases recv with
    | none => exact ⟨[], .nil s⟩
    | some outcome =>
      cases outcome with
      | finished => exact ⟨[], .nil s⟩
      | aborted => exact ⟨[], .nil s⟩
      | chunk data =>
        rw [sendUntilClose]
        split
        · exact ih s
        · dsimp only
          split
          · obtain ⟨sends, h⟩ := ih (s.send env data).2
            exact ⟨_, h.cons env⟩
          · exact ⟨_, send_sends env data s⟩

theorem sendChunks_sends (encoder : StreamingBodyEncoder) (recvs : List Recv)
    (given : List Bytes) (s : State E) :
    ∃ sends, Sends s (sendChunks env encoder given recvs s).2 sends ∧
      ((sendChunks env encoder given recvs s).1 = true →
        ∃ ds, sends.flatMap Prod.fst = encodeBody ds) := by
  induction recvs generalizing given s with
  | nil => exact ⟨[], .nil s, fun h => by cases h⟩
  | cons recv recvs ih =>
    cases recv with
    | none => exact ⟨[], .nil s, fun h => by cases h⟩
    | some outcome =>
      cases outcome with
      | aborted => exact ⟨[], .nil s, fun h => by cases h⟩
      | finished =>
        rw [sendChunks]
        cases hfin : encoder.finish given with
        | none => exact ⟨[], .nil s, fun h => by cases h⟩
        | some residual =>
          refine ⟨_, send_sends env _ s, fun _ => ⟨[residual], ?_⟩⟩
          cases residual with
          | nil => rfl
          | cons b bs => simp [encodeBody]
      | chunk data =>
        rw [sendChunks]
        cases htr : encoder.transform given data with
        | none => exact ⟨[], .nil s, fun h => by cases h⟩
        | some encoded =>
          dsimp only
          split
          · exact ih (given ++ [data]) s
          · split
            · obtain ⟨sends, h, hbody⟩ := ih (given ++ [data]) (s.send env (encodeChunk encoded [])).2
              refine ⟨_, h.cons env, fun hdone => ?_⟩
              obtain ⟨ds, hds⟩ := hbody hdone
              exact ⟨encoded :: ds, by rw [List.flatMap_cons, hds, encodeBody_cons]⟩
            · exact ⟨_, send_sends env _ s, fun h => by cases h⟩

end Sending

section Replies
variable {TypeId : Type} {E : TypeId → Type}

structure Reply where
  before : List Hook
  answer : Answer
  keepAlive : Bool
  done : Bool
  sends : List (Bytes × Bool)
  after : List Hook

def Reply.events (r : Reply) (ext : RequestExtensions E) : List (Event E) :=
  ran ext r.before ++ .responded r.answer r.keepAlive r.done ::
    (sentEvents r.sends ++ ran ext r.after)

def isRead : Event E → Bool
  | .read _ _ => true
  | _ => false

/-- An event after the gates: no read, no gate, and every call sees the same container. -/
def Follows (ext : RequestExtensions E) : Event E → Prop
  | .read _ _ => False
  | .gate _ => False
  | .ran _ seen => seen = ext
  | _ => True

theorem ran_follows {ext : RequestExtensions E} {hooks : List Hook} :
    ∀ e ∈ ran ext hooks, Follows ext e := by
  intro e he
  obtain ⟨hook, _, rfl⟩ := List.mem_map.mp he
  rfl

theorem Reply.follows (reply : Reply) (ext : RequestExtensions E) :
    ∀ e ∈ reply.events ext, Follows ext e := by
  intro e he
  simp only [Reply.events, List.mem_append, List.mem_cons] at he
  rcases he with he | rfl | he | he
  · exact ran_follows e he
  · trivial
  · obtain ⟨x, _, rfl⟩ := List.mem_map.mp he
    trivial
  · exact ran_follows e he

/-- What a selection of events leaves out: calls and gates. -/
structure Unheard {β : Type} (f : Event E → Option β) : Prop where
  ran : ∀ hook ext, f (.ran hook ext) = none
  gate : ∀ consulted, f (.gate consulted) = none

theorem filterMap_ran {β : Type} {f : Event E → Option β} (hf : Unheard f)
    (ext : RequestExtensions E) (hooks : List Hook) : (ran ext hooks).filterMap f = [] := by
  rw [List.filterMap_eq_nil_iff]
  intro e he
  obtain ⟨hook, _, rfl⟩ := List.mem_map.mp he
  exact hf.ran hook ext

theorem filterMap_sent {β : Type} {f : Event E → Option β}
    (hf : ∀ bytes done, f (.sent bytes done) = none) (sends : List (Bytes × Bool)) :
    (sentEvents sends).filterMap f = [] := by
  rw [List.filterMap_eq_nil_iff]
  intro e he
  obtain ⟨x, _, rfl⟩ := List.mem_map.mp he
  exact hf x.1 x.2

theorem Reply.filterMap {β : Type} {f : Event E → Option β} (hf : Unheard f) (reply : Reply)
    (ext : RequestExtensions E) :
    (reply.events ext).filterMap f =
      [.responded reply.answer reply.keepAlive reply.done].filterMap f ++
        (sentEvents reply.sends).filterMap f := by
  rw [Reply.events, List.filterMap_append, filterMap_ran hf, ← List.singleton_append,
    List.filterMap_append, List.filterMap_append, filterMap_ran hf]
  simp only [List.nil_append, List.append_nil]

def Answer.Complete (body : Bytes) : Answer → Prop
  | .whole _ => body = []
  | .chunked response =>
    if Response.isBodylessStatus response.status then body = [] else ∃ ds, body = encodeBody ds
  | .untilClose _ => False

/-- The state `s` and the result `r` of a function that answers, offered `keepAlive`, with `reply`. -/
structure Replied (ext : RequestExtensions E) (keepAlive : Bool) (s : State E)
    (r : Bool × State E) (reply : Reply) : Prop where
  events : r.2.events = s.events ++ reply.events ext
  tick_le : s.tick ≤ r.2.tick
  requestsServed : r.2.requestsServed = s.requestsServed
  alive : r.1 = true → reply.keepAlive = true
  keepAlive : reply.keepAlive = true → keepAlive = true
  announced : announcesClose (reply.answer.bytes reply.keepAlive) = !reply.keepAlive
  complete : r.1 = true → Answer.Complete (reply.sends.flatMap Prod.fst) reply.answer
  out : reply.done = true → (∀ x ∈ reply.sends, x.2 = true) →
    r.2.out = s.out ++ reply.answer.bytes reply.keepAlive ++ reply.sends.flatMap Prod.fst

theorem Replied.after_ran {ext : RequestExtensions E} {keepAlive : Bool} {s : State E}
    {hooks : List Hook} {r : Bool × State E} {reply : Reply}
    (h : Replied ext keepAlive (s.log (ran ext hooks)) r reply) :
    Replied ext keepAlive s r { reply with before := hooks ++ reply.before } where
  events := by
    rw [h.events, log_events]
    simp [Reply.events, ran_append]
  tick_le := h.tick_le
  requestsServed := h.requestsServed
  alive := h.alive
  keepAlive := h.keepAlive
  announced := h.announced
  complete := h.complete
  out := h.out

variable (server : Server E) (env : Env)

theorem Replied.after_stillAlive {ext : RequestExtensions E} {keepAlive : Bool} {s : State E}
    {r : Bool × State E} {reply : Reply}
    (h : Replied ext (stillAlive server env keepAlive s).1 (stillAlive server env keepAlive s).2
      r reply) :
    Replied ext keepAlive s r reply where
  events := h.events
  tick_le := le_trans (Nat.le_add_right _ _) h.tick_le
  requestsServed := h.requestsServed
  alive := h.alive
  keepAlive hk := by
    have hstill := h.keepAlive hk
    simp only [stillAlive, Bool.and_eq_true] at hstill
    exact hstill.1.1
  announced := h.announced
  complete := h.complete
  out := h.out

theorem replied_of_started {ext : RequestExtensions E} {answer : Answer} {keepAlive : Bool}
    {s s' : State E} {sends : List (Bytes × Bool)} {alive : Bool} (after : List Hook) (tick : ℕ)
    (hsends : Sends (s.startResponse env answer keepAlive).2 s' sends)
    (hannounced : announcesClose (answer.bytes keepAlive) = !keepAlive)
    (halive : alive = true → keepAlive = true ∧ Answer.Complete (sends.flatMap Prod.fst) answer)
    (htick : s'.tick ≤ tick) :
    Replied ext keepAlive s (alive, { s'.log (ran ext after) with tick := tick })
      ⟨[], answer, keepAlive, (s.startResponse env answer keepAlive).1, sends, after⟩ where
  events := by
    have hstart : (s.startResponse env answer keepAlive).2.events = s.events ++
      [.responded answer keepAlive (s.startResponse env answer keepAlive).1] := rfl
    simp only [log_events, hsends.events, hstart, Reply.events, ran, List.map_nil,
      List.nil_append, List.append_assoc, List.cons_append]
  tick_le := by
    have hstart : (s.startResponse env answer keepAlive).2.tick = s.tick := rfl
    rw [hsends.tick, hstart] at htick
    exact htick
  requestsServed := hsends.requestsServed
  alive h := (halive h).1
  keepAlive h := h
  announced := hannounced
  complete h := (halive h).2
  out hdone hall := by
    have hstart : (s.startResponse env answer keepAlive).2.out =
        s.out ++ answer.bytes keepAlive := write_out env hdone
    rw [log_out, hsends.out hall, hstart]

theorem respond_replied (head : RequestHead E) (response : Response) (keepAlive : Bool)
    (s : State E) :
    ∃ done after, Replied head.extensions keepAlive s
      (respond server env head response keepAlive s)
      ⟨[], .whole response, keepAlive, done, [], after⟩ ∧
      ∀ hook ∈ after, ∃ i status, hook = .onResponse i status := by
  have hclose := announcesClose_serialize response keepAlive
  have hnone := Sends.nil (s.startResponse env (.whole response) keepAlive).2
  rw [respond]
  split
  · refine ⟨(s.startResponse env (.whole response) keepAlive).1,
      (List.range server.middlewares).map (.onResponse · response.status), ?_, by simp⟩
    rw [onResponse_ran]
    exact replied_of_started env _ _ hnone hclose (fun h => ⟨h, rfl⟩) (le_refl _)
  · refine ⟨(s.startResponse env (.whole response) keepAlive).1, [], ?_, by simp⟩
    rw [← log_nil (s.startResponse env (.whole response) keepAlive).2]
    exact replied_of_started env [] _ hnone hclose
      (fun h => absurd h Bool.false_ne_true) (le_refl _)

theorem answerWhole_replied (n : ℕ) (head : RequestHead E) (response : Response)
    (keepAlive : Bool) (s : State E) :
    ∃ reply, Replied head.extensions keepAlive s
      (answerWhole server env n head response keepAlive s) reply := by
  obtain ⟨hooks, hmap⟩ := mapResponses_ran n head server.interceptors 0 response s
  have hlog : (mapResponses n head 0 server.interceptors response s).2.log
      [.ran .finalizeResponse head.extensions] =
      s.log (ran head.extensions (hooks ++ [.finalizeResponse])) := by
    rw [hmap, log_log, ran_append]
    rfl
  rw [answerWhole, hlog]
  obtain ⟨done, after, h, _⟩ := respond_replied server env head
    (server.finalizeResponse n head
      (mapResponses n head 0 server.interceptors response s).1)
    (stillAlive server env keepAlive
      (s.log (ran head.extensions (hooks ++ [.finalizeResponse])))).1
    (stillAlive server env keepAlive
      (s.log (ran head.extensions (hooks ++ [.finalizeResponse])))).2
  exact ⟨_, (h.after_stillAlive server env).after_ran⟩

theorem writeStreamingHttp10_replied (head : RequestHead E) (response : Response)
    (recvs : List Recv) (keepAlive : Bool) (s : State E) :
    ∃ reply, Replied head.extensions keepAlive s
      (finishStreaming server head (writeStreamingHttp10 env response recvs s)) reply := by
  have hclose : announcesClose ((Answer.untilClose response).bytes false) = !false :=
    announcesClose_serializeStreamingHeadHttp10 response
  have hnever : ∀ {sends : List (Bytes × Bool)}, false = true →
      false = true ∧ Answer.Complete (sends.flatMap Prod.fst) (.untilClose response) :=
    fun h => absurd h Bool.false_ne_true
  have hnone := Sends.nil (s.startResponse env (.untilClose response) false).2
  suffices h : ∃ reply, Replied head.extensions false s
      (finishStreaming server head (writeStreamingHttp10 env response recvs s)) reply by
    obtain ⟨reply, h⟩ := h
    exact ⟨reply, { h with keepAlive := fun hk => absurd (h.keepAlive hk) Bool.false_ne_true }⟩
  rw [writeStreamingHttp10]
  split
  · split
    · rw [finishStreaming, onResponse_ran]
      exact ⟨_, replied_of_started env _ _ hnone hclose hnever (le_refl _)⟩
    · obtain ⟨sends, hsends⟩ := sendUntilClose_sends env recvs
        (s.startResponse env (.untilClose response) false).2
      dsimp only
      split
      · rw [finishStreaming, onResponse_ran]
        exact ⟨_, replied_of_started env _ _ hsends hclose hnever (le_refl _)⟩
      · rw [finishStreaming, ← log_nil (sendUntilClose env recvs _).2]
        exact ⟨_, replied_of_started env [] _ hsends hclose hnever (le_refl _)⟩
  · rw [finishStreaming, ← log_nil (s.startResponse env (.untilClose response) false).2]
    exact ⟨_, replied_of_started env [] _ hnone hclose hnever (le_refl _)⟩

theorem writeStreamingHttp11_replied (n : ℕ) (head : RequestHead E) (response : Response)
    (recvs : List Recv) (keepAlive : Bool) (s : State E) :
    ∃ reply, Replied head.extensions keepAlive s
      (finishStreaming server head
        (writeStreamingHttp11 server env n head response recvs keepAlive s)) reply := by
  let alive := stillAlive server env keepAlive s
  let prepared := server.prepareStreamingCompression n head response
  let s' := alive.2.log (ran head.extensions [.prepareStreamingCompression])
  have hclose : announcesClose ((Answer.chunked prepared.1).bytes alive.1) = !alive.1 :=
    announcesClose_serializeChunkedHead prepared.1 alive.1
  have hnone := Sends.nil (s'.startResponse env (.chunked prepared.1) alive.1).2
  have hstill : ∀ s'' : State E, (stillAlive server env alive.1 s'').1 = true → alive.1 = true := by
    intro s'' h
    simp only [stillAlive, Bool.and_eq_true] at h
    exact h.1.1
  suffices h : ∃ reply, Replied head.extensions alive.1 s'
      (finishStreaming server head
        (writeStreamingHttp11 server env n head response recvs keepAlive s)) reply by
    obtain ⟨reply, h⟩ := h
    exact ⟨_, h.after_ran.after_stillAlive server env⟩
  rw [writeStreamingHttp11]
  split
  · split
    · rename_i hbodyless
      rw [finishStreaming, onResponse_ran]
      refine ⟨_, replied_of_started env _ _ hnone hclose (fun h => ⟨hstill _ h, ?_⟩)
        (Nat.le_add_right _ _)⟩
      exact (if_pos hbodyless).mpr rfl
    · rename_i hbody
      obtain ⟨sends, hsends, hcomplete⟩ := sendChunks_sends env prepared.2 recvs []
        (s'.startResponse env (.chunked prepared.1) alive.1).2
      dsimp only
      split
      · rename_i hdone
        rw [finishStreaming, onResponse_ran]
        refine ⟨_, replied_of_started env _ _ hsends hclose (fun h => ⟨hstill _ h, ?_⟩)
          (Nat.le_add_right _ _)⟩
        exact (if_neg hbody).mpr (hcomplete hdone)
      · rw [finishStreaming, ← log_nil (sendChunks env prepared.2 [] recvs _).2]
        exact ⟨_, replied_of_started env [] _ hsends hclose
          (fun h => absurd h Bool.false_ne_true) (le_refl _)⟩
  · rw [finishStreaming, ← log_nil (State.startResponse env _ _ _).2]
    exact ⟨_, replied_of_started env [] _ hnone hclose
      (fun h => absurd h Bool.false_ne_true) (le_refl _)⟩

theorem answerStreaming_replied (n : ℕ) (head : RequestHead E) (streaming : StreamingResponse)
    (keepAlive : Bool) (s : State E) :
    ∃ reply, Replied head.extensions keepAlive s
      (answerStreaming server env n head streaming keepAlive s) reply := by
  obtain ⟨hooks, hran⟩ := streamingHead_ran server n head streaming s
  rw [answerStreaming, writeStreamingResponse, hran]
  cases head.version with
  | http10 =>
    obtain ⟨reply, h⟩ := writeStreamingHttp10_replied server env head
      (streamingHead server n head streaming s).1 streaming.recvs keepAlive
      (s.log (ran head.extensions hooks))
    exact ⟨_, h.after_ran⟩
  | http11 =>
    obtain ⟨reply, h⟩ := writeStreamingHttp11_replied server env n head
      (streamingHead server n head streaming s).1 streaming.recvs keepAlive
      (s.log (ran head.extensions hooks))
    exact ⟨_, h.after_ran⟩

theorem answerByHandler_replied (n : ℕ) (head : RequestHead E) (body : Bytes)
    (keepAlive : Bool) (s : State E) :
    ∃ reply, Replied head.extensions keepAlive s
      (answerByHandler server env n head body keepAlive s) reply := by
  unfold answerByHandler
  cases server.handler with
  | none => exact answerWhole_replied server env n head (.empty 404) keepAlive s
  | some handler =>
    have hlog : s.log [.ran .handleStreaming head.extensions] =
        s.log (ran head.extensions [.handleStreaming]) := rfl
    have hlog' : (s.log [.ran .handleStreaming head.extensions]).log
        [.ran .handle head.extensions] = s.log (ran head.extensions [.handleStreaming, .handle]) := by
      rw [log_log]
      rfl
    cases hstream : handler.handleStreaming n head body with
    | some streaming =>
      obtain ⟨reply, h⟩ := answerStreaming_replied server env n head streaming keepAlive
        (s.log (ran head.extensions [.handleStreaming]))
      simp only [hstream, hlog]
      exact ⟨_, h.after_ran⟩
    | none =>
      obtain ⟨reply, h⟩ := answerWhole_replied server env n head (handler.handle n head body)
        keepAlive (s.log (ran head.extensions [.handleStreaming, .handle]))
      simp only [hstream, hlog']
      exact ⟨_, h.after_ran⟩

theorem answer_replied (n : ℕ) (head : RequestHead E) (body : Bytes) (keepAlive : Bool)
    (s : State E) :
    ∃ reply, Replied head.extensions keepAlive s
      (answer server env n head body keepAlive s) reply := by
  obtain ⟨hooks, hran⟩ := intercept_ran n head body server.interceptors 0 s
  have hlog : (s.log (ran head.extensions hooks)).log [.ran .tryIntercept head.extensions] =
      s.log (ran head.extensions (hooks ++ [.tryIntercept])) := by
    rw [log_log, ran_append]
    rfl
  rw [answer, hran, hlog]
  cases (intercept n head body 0 server.interceptors s).1 with
  | some response =>
    obtain ⟨reply, h⟩ := answerWhole_replied server env n head response keepAlive
      (s.log (ran head.extensions hooks))
    exact ⟨_, h.after_ran⟩
  | none =>
    cases server.tryIntercept n head body with
    | some response =>
      obtain ⟨reply, h⟩ := answerWhole_replied server env n head response keepAlive
        (s.log (ran head.extensions (hooks ++ [.tryIntercept])))
      exact ⟨_, h.after_ran⟩
    | none =>
      obtain ⟨reply, h⟩ := answerByHandler_replied server env n head body keepAlive
        (s.log (ran head.extensions (hooks ++ [.tryIntercept])))
      exact ⟨_, h.after_ran⟩

inductive Allowed (ext : RequestExtensions E) (keepAlive : Bool) (s : State E)
    (r : Bool × State E) : Prop
  | replied (reply : Reply) (h : Replied ext keepAlive s r reply)
  | upgrade (hooks : List Hook) (tick : ℕ) (tail : List (Event E))
      (unasked : Hook.tryHandleUpgrade ∉ hooks) (ended : r.1 = false)
      (requestsServed : r.2.requestsServed = s.requestsServed)
      (events : r.2.events = s.events ++ (ran ext hooks ++ .upgradeCheck tick :: tail))
      (tick_le : s.tick ≤ tick)
      (tail_eq : if env.shutdownFlag tick then
          ∃ done, tail = [.responded (.whole (.empty 503)) false done]
        else tail = [.ran .tryHandleUpgrade ext, .delegated] ∨
          ∃ done, tail = [.ran .tryHandleUpgrade ext, .responded (.whole (.empty 501)) false done])

theorem respondAndClose_events (response : Response) (s : State E) :
    ∃ done, (respondAndClose env response s).2.events =
      s.events ++ [.responded (.whole response) false done] := ⟨_, rfl⟩

theorem serveAllowed_cases (n : ℕ) (head : RequestHead E) (body : Bytes) (keepAlive : Bool)
    (s : State E) :
    Allowed env head.extensions keepAlive s (serveAllowed server env n head body keepAlive s) := by
  obtain ⟨hooks, hnot, hran⟩ := upgradeMatches_ran n head server.upgradeHandlers 0 s
  rw [serveAllowed, hran]
  split
  · rw [answerUpgrade]
    by_cases hflag : env.shutdownFlag s.tick = true
    · obtain ⟨done, hdone⟩ := respondAndClose_events env (.empty 503)
        { (s.log (ran head.extensions hooks)).log [.upgradeCheck s.tick] with tick := s.tick + 1 }
      simp only [log_tick, hflag, ↓reduceIte]
      refine .upgrade hooks s.tick [.responded (.whole (.empty 503)) false done] hnot rfl rfl ?_
        (le_refl _) (by rw [if_pos hflag]; exact ⟨done, rfl⟩)
      rw [hdone]
      simp
    · simp only [log_tick, hflag, Bool.false_eq_true, ↓reduceIte]
      split
      · refine .upgrade hooks s.tick [.ran .tryHandleUpgrade head.extensions, .delegated] hnot rfl
          rfl ?_ (le_refl _) (by rw [if_neg hflag]; exact .inl rfl)
        simp [State.log]
      · obtain ⟨done, hdone⟩ := respondAndClose_events env (.empty 501)
          (State.log { (s.log (ran head.extensions hooks)).log [.upgradeCheck s.tick] with
            tick := s.tick + 1 } [.ran .tryHandleUpgrade head.extensions])
        refine .upgrade hooks s.tick [.ran .tryHandleUpgrade head.extensions,
          .responded (.whole (.empty 501)) false done] hnot rfl rfl ?_ (le_refl _)
          (by rw [if_neg hflag]; exact .inr ⟨done, rfl⟩)
        rw [hdone]
        simp
  · obtain ⟨reply, h⟩ := answer_replied server env n head body keepAlive
      (s.log (ran head.extensions hooks))
    exact .replied _ h.after_ran

theorem Allowed.follows {ext : RequestExtensions E} {keepAlive : Bool} {s : State E}
    {r : Bool × State E} (h : Allowed env ext keepAlive s r) :
    ∃ tail, r.2.events = s.events ++ tail ∧ ∀ e ∈ tail, Follows ext e := by
  cases h with
  | replied reply h => exact ⟨_, h.events, reply.follows ext⟩
  | upgrade hooks tick tail _ _ _ hevents _ htail =>
    refine ⟨_, hevents, fun e he => ?_⟩
    rw [List.mem_append, List.mem_cons] at he
    rcases he with he | rfl | he
    · exact ran_follows e he
    · trivial
    · split at htail
      · obtain ⟨done, rfl⟩ := htail
        rw [List.mem_singleton] at he
        subst he
        trivial
      · rcases htail with rfl | ⟨done, rfl⟩
        all_goals
          rw [List.mem_cons, List.mem_singleton] at he
          rcases he with rfl | rfl
          · rfl
          · trivial

variable [DecidableEq TypeId]

/-- A turn up to the gates: its request, the gates' run and whether the connection may be kept. -/
structure Opened (s s' : State E) (tick : ℕ) (request : Request E) (keepAlive : Bool) :
    Prop where
  extensions : request.head.extensions = .new
  events : s'.events = .read tick request ::
    (ran .new ((List.range server.middlewares).map .onRequest) ++
      (runGates server (s.requestsServed + 1) request.head).consulted.map .gate)
  tick_le : tick ≤ s'.tick
  requestsServed : s'.requestsServed = s.requestsServed + 1
  out : s'.out = s.out
  bounded : keepAlive = true → s.requestsServed + 1 < max server.maxRequestsPerConnection 1
  unflagged : keepAlive = true → env.shutdownFlag tick = false

theorem Opened.filterMap {server : Server E} {env : Env} {s s' : State E} {tick : ℕ}
    {request : Request E} {keepAlive : Bool} (h : Opened server env s s' tick request keepAlive)
    {β : Type} {f : Event E → Option β} (hf : Unheard f) (tail : List (Event E)) :
    (s'.events ++ tail).filterMap f = [.read tick request].filterMap f ++ tail.filterMap f := by
  have hgates : ((runGates server (s.requestsServed + 1) request.head).consulted.map
      Event.gate).filterMap f = [] := by
    rw [List.filterMap_eq_nil_iff]
    intro e he
    obtain ⟨consulted, _, rfl⟩ := List.mem_map.mp he
    exact hf.gate consulted
  rw [List.filterMap_append, h.events, ← List.singleton_append, List.filterMap_append,
    List.filterMap_append, filterMap_ran hf, hgates]
  simp only [List.append_nil]

inductive Turn (s : State E) (r : Bool × State E) : Prop
  | ended (alive : r.1 = false) (requestsServed : r.2.requestsServed = s.requestsServed)
      (events : r.2.events = [] ∨
        ∃ response done, r.2.events = [.responded (.whole response) false done])
  | rejected (s' : State E) (tick : ℕ) (request : Request E) (keepAlive : Bool)
      (opened : Opened server env s s' tick request keepAlive) (response : Response) (done : Bool)
      (after : List Hook)
      (rejection : (runGates server (s.requestsServed + 1) request.head).rejection = some response)
      (replied : Replied .new keepAlive s' r ⟨[], .whole response, keepAlive, done, [], after⟩)
      (observers : ∀ hook ∈ after, ∃ i status, hook = .onResponse i status)
  | allowed (s' : State E) (tick : ℕ) (request : Request E) (keepAlive : Bool)
      (opened : Opened server env s s' tick request keepAlive)
      (rejection : (runGates server (s.requestsServed + 1) request.head).rejection = none)
      (served : Allowed env (headWithExtensions request.head
        (runGates server (s.requestsServed + 1) request.head).extensions).extensions keepAlive s' r)

theorem serve_turn (request : Request E) (s s' : State E)
    (hext : request.head.extensions = .new)
    (hevents : s'.events = []) (hserved : s'.requestsServed = s.requestsServed)
    (hout : s'.out = s.out) :
    Turn server env s (serve server env request (received server request s')) := by
  let keepAlive := (stillAlive server env (server.keepAliveEnabled &&
    shouldKeepAlive request.head && decide (s.requestsServed + 1 <
      max server.maxRequestsPerConnection 1)) (received server request s'))
  let gates := runGates server (s.requestsServed + 1) request.head
  have hn : (received server request s').requestsServed = s.requestsServed + 1 := by
    rw [received, hserved]
  have hopened : Opened server env s (keepAlive.2.log (gates.consulted.map .gate)) s'.tick request
      keepAlive.1 := by
    refine ⟨hext, ?_, ?_, hn, hout, ?_, ?_⟩
    · simp [keepAlive, gates, stillAlive, received, State.log, hevents, hext, ran]
    · simp only [log_tick, keepAlive, stillAlive, received]
      omega
    · intro h
      simp only [keepAlive, stillAlive, Bool.and_eq_true, decide_eq_true_eq] at h
      exact h.1.1.2
    · intro h
      simp only [keepAlive, stillAlive, received, Bool.and_eq_true, Bool.not_eq_true'] at h
      by_contra hset
      rw [Bool.not_eq_false] at hset
      have hset' := env.shutdownFlag_stays _ (env.shutdownFlag_stays _ hset)
      rw [h.2] at hset'
      cases hset'
  rw [serve, hn]
  cases hrej : gates.rejection with
  | some response =>
    obtain ⟨done, after, hreplied, hafter⟩ := respond_replied server env request.head response
      keepAlive.1 (keepAlive.2.log (gates.consulted.map .gate))
    rw [hext] at hreplied
    exact .rejected _ _ _ _ hopened response done after hrej hreplied hafter
  | none =>
    have hserve := serveAllowed_cases server env (s.requestsServed + 1)
      (headWithExtensions request.head gates.extensions) request.body keepAlive.1
      (keepAlive.2.log (gates.consulted.map .gate))
    exact .allowed _ _ _ _ hopened hrej hserve

theorem iteration_cases (s : State E) : Turn server env s (iteration server env s) := by
  rw [iteration]
  split
  · exact .ended rfl rfl (.inl rfl)
  · split
    · exact .ended rfl rfl (.inl rfl)
    · split
      · exact .ended rfl rfl (.inl rfl)
      · rename_i o ho
        split
        · split
          · exact .ended rfl rfl (.inr ⟨_, _, rfl⟩)
          · exact .ended rfl rfl (.inl rfl)
        · exact .ended rfl rfl (.inl rfl)
        · rename_i request hr
          exact serve_turn server env request s _
            (HttpConnectionStream.readRequestWithLimit_extensions env.alloc ho hr) rfl rfl rfl

/-- Only a turn that served a request is followed by another one. -/
theorem iteration_requestsServed {s : State E} (h : (iteration server env s).1 = true) :
    (iteration server env s).2.requestsServed = s.requestsServed + 1 := by
  cases iteration_cases server env s with
  | ended halive _ _ =>
    rw [h] at halive
    cases halive
  | rejected s' _ _ _ hopened _ _ _ _ hreplied _ =>
    exact hreplied.requestsServed.trans hopened.requestsServed
  | allowed s' _ _ _ hopened _ hserved =>
    cases hserved with
    | replied reply hreplied => exact hreplied.requestsServed.trans hopened.requestsServed
    | upgrade _ _ _ _ halive _ _ _ _ =>
      rw [h] at halive
      cases halive

theorem handleConnection_succ (turns : ℕ) (s : State E) :
    (handleConnection server env (turns + 1) s).turns = (iteration server env s).2.events ::
      (if (iteration server env s).1 then
        (handleConnection server env turns (iteration server env s).2).turns else []) ∧
    (handleConnection server env (turns + 1) s).alive = ((iteration server env s).1 &&
      (handleConnection server env turns (iteration server env s).2).alive) ∧
    ((iteration server env s).1 = true → (handleConnection server env (turns + 1) s).state =
      (handleConnection server env turns (iteration server env s).2).state) := by
  rw [handleConnection]
  cases (iteration server env s).1 <;> simp

/-- Turn `k` of a connection is a turn of the loop with `k` requests served before it. -/
theorem handleConnection_turn {turns k : ℕ} {s : State E} {es : List (Event E)}
    (h : (handleConnection server env turns s).turns[k]? = some es) :
    ∃ s' : State E, s'.requestsServed = s.requestsServed + k ∧
      es = (iteration server env s').2.events := by
  induction turns generalizing k s with
  | zero => simp [handleConnection] at h
  | succ turns ih =>
    rw [(handleConnection_succ server env turns s).1] at h
    cases k with
    | zero =>
      rw [List.getElem?_cons_zero, Option.some.injEq] at h
      exact ⟨s, rfl, h.symm⟩
    | succ k =>
      rw [List.getElem?_cons_succ] at h
      by_cases halive : (iteration server env s).1 = true
      · rw [if_pos halive] at h
        obtain ⟨s', hserved, hes⟩ := ih h
        refine ⟨s', ?_, hes⟩
        rw [hserved, iteration_requestsServed server env halive]
        omega
      · simp [halive] at h

end Replies

end FandheBackend.CoreConnectionTurns
