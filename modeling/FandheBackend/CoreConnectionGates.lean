import FandheBackend.CoreConnectionTurns

set_option autoImplicit false

namespace FandheBackend.CoreConnectionGates
open HttpExtensions HttpRequestHead HttpConnection HttpResponse CoreGates
open CoreConnection CoreConnectionTurns

def isMiddleware : Hook → Bool
  | .onRequest _ => true
  | .onResponse _ _ => true
  | _ => false

section
variable {TypeId : Type} {E : TypeId → Type}

def gateOf : Event E → Option (Consulted E)
  | .gate consulted => some consulted
  | _ => none

def isWrite : Event E → Bool
  | .responded _ _ _ => true
  | .sent _ _ => true
  | _ => false

def insertedBy : Write E → Option (Σ t, E t)
  | .insert entry _ => some entry
  | .replace _ => none

theorem foldl_contribute {writes : List (Write E)} (h : ∀ c, .replace c ∉ writes)
    (held : List (Σ t, E t)) :
    writes.foldl contribute held = held ++ writes.filterMap insertedBy := by
  induction writes generalizing held with
  | nil => simp
  | cons w writes ih =>
    have htail : ∀ c, .replace c ∉ writes := fun c hc => h c (List.mem_cons_of_mem w hc)
    cases w with
    | insert entry accepted =>
      rw [List.foldl_cons, ih htail]
      simp [contribute, insertedBy]
    | replace c => exact absurd List.mem_cons_self (h c)

theorem gateOf_follows {ext : RequestExtensions E} {tail : List (Event E)}
    (h : ∀ e ∈ tail, Follows ext e) : tail.filterMap gateOf = [] := by
  rw [List.filterMap_eq_nil_iff]
  intro e he
  cases e with
  | gate consulted => exact absurd (h _ he) id
  | _ => rfl

theorem gateOf_gates (consulted : List (Consulted E)) :
    (consulted.map Event.gate).filterMap gateOf = consulted := by
  simp [List.filterMap_map, Function.comp_def, gateOf]

theorem mem_ran {hook : Hook} {ext ext' : RequestExtensions E} {hooks : List Hook} :
    Event.ran hook ext' ∈ ran ext hooks ↔ hook ∈ hooks ∧ ext' = ext := by
  simp only [ran, List.mem_map, Event.ran.injEq]
  constructor
  · rintro ⟨hook', hmem, rfl, rfl⟩
    exact ⟨hmem, rfl⟩
  · rintro ⟨hmem, rfl⟩
    exact ⟨hook, hmem, rfl, rfl⟩

variable [DecidableEq TypeId] (server : Server E) (env : Env)

/-- What a turn owes to the gates, for its request as the `n`th of the connection. -/
structure GateLaw (n : ℕ) (request : Request E) (es : List (Event E)) : Prop where
  consulted : es.filterMap gateOf = (runGates server n request.head).consulted
  firstWins : FirstWins [] (runGates server n request.head).writes
  rejected : ∀ response, (runGates server n request.head).rejection = some response →
    (∃ i < server.gates.length, (runGates server n request.head).decisions =
      (List.range i).map (fun j => (j, .allow)) ++ [(i, .reject response)]) ∧
    (∀ hook ext, .ran hook ext ∈ es → isMiddleware hook = true ∧ ext = .new) ∧
    .delegated ∉ es ∧
    ∃ keepAlive done, es.filter isWrite = [.responded (.whole response) keepAlive done]
  allowed : (runGates server n request.head).rejection = none →
    (runGates server n request.head).decisions =
      (List.range server.gates.length).map (fun j => (j, .allow)) ∧
    ∀ hook ext, .ran hook ext ∈ es → (∀ i, hook ≠ .onRequest i) →
      Shows ext (contributed (runGates server n request.head).writes)
  inserted : (∀ c, .replace c ∉ (runGates server n request.head).writes) →
    contributed (runGates server n request.head).writes =
      (runGates server n request.head).writes.filterMap insertedBy

theorem shows_new : Shows (.new : RequestExtensions E) [] := fun _ => rfl

theorem runGates_decisions (n : ℕ) (head : RequestHead E) :
    ((runGates server n head).rejection = none → (runGates server n head).decisions =
      (List.range server.gates.length).map fun j => (j, .allow)) ∧
    ∀ response, (runGates server n head).rejection = some response →
      ∃ i < server.gates.length, (runGates server n head).decisions =
        (List.range i).map (fun j => (j, .allow)) ++ [(i, .reject response)] := by
  have h := firstRejection_decisions head (server.gates.map fun gate => gate n) 0 .new
  simpa only [runGates, List.length_map, List.range_eq_range', Nat.zero_add] using h

/-- The head after the gates shows what they put in, moved or not. -/
theorem headWithExtensions_shows {head : RequestHead E} {ext : RequestExtensions E}
    {held : List (Σ t, E t)} (hhead : head.extensions = .new) (h : Shows ext held) :
    Shows (headWithExtensions head ext).extensions held := by
  unfold headWithExtensions
  split
  · rename_i hempty
    have hext : ext = .new := by
      cases ext
      simp only [List.isEmpty_iff] at hempty
      rw [hempty]
      rfl
    rw [hhead, ← hext]
    exact h
  · exact h

variable {server} {env}

section Opened
variable {s s' : State E} {tick : ℕ} {request : Request E} {k : Bool}
  (h : Opened server env s s' tick request k)
include h

theorem opened_read {t : ℕ} {request' : Request E} {ext : RequestExtensions E}
    {tail : List (Event E)} (htail : ∀ e ∈ tail, Follows ext e)
    (hmem : .read t request' ∈ s'.events ++ tail) : request' = request := by
  rw [h.events] at hmem
  simp only [ran, List.cons_append, List.mem_cons, List.mem_append, List.mem_map,
    Event.read.injEq, reduceCtorEq, and_false, exists_false, false_or] at hmem
  rcases hmem with hmem | hmem
  · exact hmem.2
  · exact absurd (htail _ hmem) id

theorem opened_gates {ext : RequestExtensions E} {tail : List (Event E)}
    (htail : ∀ e ∈ tail, Follows ext e) :
    (s'.events ++ tail).filterMap gateOf =
      (runGates server (s.requestsServed + 1) request.head).consulted := by
  have hread : gateOf (E := E) (.read tick request) = none := rfl
  rw [List.filterMap_append, gateOf_follows htail, h.events, List.filterMap_cons, hread,
    List.filterMap_append, gateOf_follows ran_follows, gateOf_gates]
  simp

theorem opened_ran {tail : List (Event E)} {hook : Hook} {ext : RequestExtensions E}
    (hmem : .ran hook ext ∈ s'.events ++ tail) :
    ((∃ i, hook = .onRequest i) ∧ ext = .new) ∨ .ran hook ext ∈ tail := by
  rw [h.events] at hmem
  simp only [List.cons_append, List.mem_cons, List.mem_append, mem_ran, List.mem_map,
    reduceCtorEq, and_false, exists_false, or_false, false_or] at hmem
  rcases hmem with ⟨⟨i, _, rfl⟩, rfl⟩ | hmem
  · exact .inl ⟨⟨i, rfl⟩, rfl⟩
  · exact .inr hmem

theorem gateLaw_of_rejected {done : Bool} {response : Response} {after : List Hook}
    (hrej : (runGates server (s.requestsServed + 1) request.head).rejection = some response)
    (hafter : ∀ hook ∈ after, ∃ i status, hook = .onResponse i status) :
    GateLaw server (s.requestsServed + 1) request
      (s'.events ++ Reply.events ⟨[], .whole response, k, done, [], after⟩ .new) where
  consulted := opened_gates h (Reply.follows _ _)
  firstWins := (firstRejection_shows _ _ 0 shows_new).2
  rejected response' hrej' := by
    rw [hrej, Option.some.injEq] at hrej'
    subst hrej'
    refine ⟨(runGates_decisions server _ _).2 response hrej, fun hook ext hmem => ?_, ?_, k, done, ?_⟩
    · rcases opened_ran h hmem with ⟨⟨i, rfl⟩, rfl⟩ | hmem
      · exact ⟨rfl, rfl⟩
      · simp only [Reply.events, sentEvents, ran, List.map_nil, List.nil_append, List.mem_cons,
          reduceCtorEq, false_or, List.mem_map, Event.ran.injEq] at hmem
        obtain ⟨hook', hhook, rfl, rfl⟩ := hmem
        obtain ⟨i, status, rfl⟩ := hafter hook' hhook
        exact ⟨rfl, rfl⟩
    · rw [h.events]
      simp [Reply.events, ran, sentEvents]
    · have hwrite : Unheard (Option.guard (isWrite (E := E))) := ⟨fun _ _ => rfl, fun _ => rfl⟩
      rw [← List.filterMap_eq_filter, h.filterMap hwrite, Reply.filterMap hwrite]
      rfl
  allowed hnone := by
    rw [hrej] at hnone
    cases hnone
  inserted hno := by
    rw [contributed, foldl_contribute hno, List.nil_append]

theorem gateLaw_of_allowed {tail : List (Event E)}
    (hrej : (runGates server (s.requestsServed + 1) request.head).rejection = none)
    (htail : ∀ e ∈ tail, Follows (headWithExtensions request.head
      (runGates server (s.requestsServed + 1) request.head).extensions).extensions e) :
    GateLaw server (s.requestsServed + 1) request (s'.events ++ tail) where
  consulted := opened_gates h htail
  firstWins := (firstRejection_shows _ _ 0 shows_new).2
  rejected response hsome := by
    rw [hrej] at hsome
    cases hsome
  allowed _ := by
    refine ⟨(runGates_decisions server _ _).1 hrej, fun hook ext hmem hnot => ?_⟩
    rcases opened_ran h hmem with ⟨⟨i, rfl⟩, _⟩ | hmem
    · exact absurd rfl (hnot i)
    · have hseen : ext = _ := htail _ hmem
      rw [hseen]
      exact headWithExtensions_shows h.extensions (firstRejection_shows _ _ 0 shows_new).1
  inserted hno := by
    rw [contributed, foldl_contribute hno, List.nil_append]

end Opened

theorem iteration_gateLaw (s : State E) {t : ℕ} {request : Request E}
    (hmem : .read t request ∈ (iteration server env s).2.events) :
    GateLaw server (s.requestsServed + 1) request (iteration server env s).2.events := by
  cases iteration_cases server env s with
  | ended _ _ hevents =>
    rcases hevents with hevents | ⟨response, done, hevents⟩ <;> rw [hevents] at hmem
    · cases hmem
    · simp at hmem
  | rejected s' tick request' k hopened response done after hrej hreplied hafter =>
    rw [hreplied.events] at hmem ⊢
    obtain rfl := opened_read hopened (Reply.follows _ _) hmem
    exact gateLaw_of_rejected hopened hrej hafter
  | allowed s' tick request' k hopened hrej hserved =>
    obtain ⟨tail, hevents, htail⟩ := hserved.follows
    rw [hevents] at hmem ⊢
    obtain rfl := opened_read hopened htail hmem
    exact gateLaw_of_allowed hopened hrej htail

theorem gateLaw_of_turn {turns k : ℕ} {reads : List Read} {es : List (Event E)} {t : ℕ}
    {request : Request E}
    (hturn : (handleConnection server env turns (.start reads)).turns[k]? = some es)
    (hread : .read t request ∈ es) : GateLaw server (k + 1) request es := by
  obtain ⟨s, hserved, rfl⟩ := handleConnection_turn server env hturn
  have hk : s.requestsServed + 1 = k + 1 := by
    rw [hserved]
    simp [State.start]
  rw [← hk]
  exact iteration_gateLaw s hread

/-- Every request of every connection, with its number on the connection. -/
theorem handleConnection_gateLaw (turns : ℕ) (reads : List Read) (k : ℕ) (es : List (Event E))
    (hturn : (handleConnection server env turns (.start reads)).turns[k]? = some es) (t : ℕ)
    (request : Request E) (hread : .read t request ∈ es) :
    GateLaw server (k + 1) request es :=
  gateLaw_of_turn hturn hread

end

def firstOnly : Server (fun _ : Unit => ℕ) where
  middlewares := 1
  gates := [fun n _ => @Check.insert Unit (fun _ => ℕ) () n fun _ =>
    .done (if n = 1 then .allow else .reject (.empty 403))]
  upgradeHandlers := []
  tryHandleUpgrade _ _ := false
  interceptors := []
  tryIntercept _ _ _ := none
  handler := none
  finalizeResponse _ _ response := response
  finalizeStreamingHead _ _ response := response
  prepareStreamingCompression _ _ response := (response, .identity)
  keepAliveEnabled := true
  maxRequestsPerConnection := 100
  maxConnectionLifetime := 1
  maxBodyBytes := 0

def twoRequests : List Read :=
  [.data (StdBytes.ascii "GET / HTTP/1.1\r\n\r\nGET / HTTP/1.1\r\n\r\n")]

theorem handleConnection_gateLaw_firstOnly :
    ∃ es t request, (handleConnection firstOnly .calm 2 (.start twoRequests)).turns[1]? = some es ∧
      .read t request ∈ es ∧ GateLaw firstOnly 2 request es := by
  have hturn : ((handleConnection firstOnly .calm 2 (.start twoRequests)).turns[1]?).any
      (fun es => es.any isRead) = true := by decide +kernel
  obtain ⟨es, hes, hany⟩ := (Option.any_eq_true _ _).mp hturn
  obtain ⟨e, he, hread⟩ := List.any_eq_true.mp hany
  cases e with
  | read t request =>
    exact ⟨es, t, request, hes, he,
      handleConnection_gateLaw 2 twoRequests 1 es hes t request he⟩
  | _ => cases hread

end FandheBackend.CoreConnectionGates
