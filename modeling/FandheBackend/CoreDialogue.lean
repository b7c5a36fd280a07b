import FandheBackend.CoreConnectionSpoken
import FandheBackend.CorePluginsLaw
import FandheBackend.HttpSentRequest

set_option autoImplicit false

namespace FandheBackend.CoreDialogue
open StdBytes HttpRequestHead HttpConnection HttpConnectionStream HttpConnectionRuns HttpClient
open HttpSentRequest CoreGates CoreConnection CoreConnectionPlan CoreConnectionObservations
open CoreConnectionSpoken CorePlugins HttpChunked HttpResponse
open PluginCompression (textBody textBodyGzip textResponse)

section Dialogue
variable {TypeId : Type} {E : TypeId → Type} [DecidableEq TypeId] (server : Server E)

def dialogue : ℕ → List (Request E) → Bytes
  | _, [] => []
  | n, request :: requests => (said server n request).bytes ++ dialogue (n + 1) requests

def ReadAll (usizeMax : ℕ) (limit : UInt64) (sents : List Sent) (requests : List (Request E)) :
    Prop :=
  List.Forall₂ (Sent.ReadBy usizeMax limit) sents requests

omit [DecidableEq TypeId] in
theorem exists_readAll {usizeMax : ℕ} {limit : UInt64} {sents : List Sent}
    (h : ∀ sent ∈ sents, sent.Sendable usizeMax limit) :
    ∃ requests : List (Request E), ReadAll usizeMax limit sents requests := by
  induction sents with
  | nil => exact ⟨[], .nil⟩
  | cons sent sents ih =>
    rw [List.forall_mem_cons] at h
    obtain ⟨request, hrequest⟩ := Sent.exists_readBy (E := E) h.1
    obtain ⟨requests, hrequests⟩ := ih h.2
    exact ⟨request :: requests, .cons hrequest hrequests⟩

omit [DecidableEq TypeId] in
theorem methods_of_readAll {usizeMax : ℕ} {limit : UInt64} {sents : List Sent}
    {requests : List (Request E)} (h : ReadAll usizeMax limit sents requests) :
    requests.map (fun request => request.head.method) = sents.map Sent.method := by
  induction h with
  | nil => rfl
  | cons hread _ ih => rw [List.map_cons, List.map_cons, ih, hread.head.method]

/-- A connection that no answer but the last one closes answers every request. -/
theorem spoken_dialogue {usizeMax : ℕ} {sents : List Sent} {requests : List (Request E)}
    (h : ReadAll usizeMax server.maxBodyBytes sents requests) {n turns : ℕ}
    (hturns : sents.length < turns)
    (halive : ∀ k request, k + 1 < requests.length → requests[k]? = some request →
      (said server (n + k) request).alive = true) :
    (spoken server usizeMax turns n (sents.flatMap Sent.text)).1 = dialogue server n requests := by
  induction h generalizing n turns with
  | nil =>
    obtain ⟨turns, rfl⟩ : ∃ m, turns = m + 1 := ⟨turns - 1, by omega⟩
    rfl
  | @cons sent request sents requests hread _ ih =>
    obtain ⟨turns, rfl⟩ : ∃ m, turns = m + 1 := ⟨turns - 1, by omega⟩
    rw [List.flatMap_cons, spoken, hread.next]
    have hlater := @ih (n + 1) turns (by simpa using hturns) (by
      intro k request' hk hrequest'
      have hnext := halive (k + 1) request' (by simpa using hk) (by simpa using hrequest')
      rwa [Nat.add_comm k 1, ← Nat.add_assoc] at hnext)
    dsimp only
    split
    · rw [hlater]
      rfl
    · rename_i hclosed
      cases requests with
      | nil => exact (List.append_nil _).symm
      | cons later requests =>
        exact absurd (halive 0 request (by simp) rfl) hclosed

end Dialogue

section Law
variable {TypeId : Type} {E : TypeId → Type} [DecidableEq TypeId]

/-- A request whose answer is complete, says where it ends, and has a body only if the client
expects one. -/
structure Answerable (server : Server E) (n : ℕ) (request : Request E) : Prop where
  complete : ∃ answer body, (planOf server n request).delivery = some (answer, body) ∧
    isFramed answer = true
  polite : ∀ given, handed server n request = some given → given.Polite request.head.method

inductive Answered (server : Server E) (gunzip : Bytes → Option Bytes) :
    ℕ → List (Request E) → List ClientResponse → Prop
  | nil (n : ℕ) : Answered server gunzip n [] []
  | cons {n : ℕ} {request : Request E} {given : Handed} {answer : ClientResponse}
      {requests : List (Request E)} {answers : List ClientResponse}
      (handed_eq : handed server n request = some given)
      (understood : Understood gunzip given answer)
      (later : Answered server gunzip (n + 1) requests answers) :
      Answered server gunzip n (request :: requests) (answer :: answers)

variable {p : Plugins} {gunzip : Bytes → Option Bytes} {server : Server E}

theorem said_alive {n : ℕ} {request : Request E} (h : Answerable server n request) :
    (said server n request).alive = keptAlive server n request := by
  obtain ⟨answer, body, hdelivery, hframed⟩ := h.complete
  obtain halive | ⟨r, rfl⟩ := (planSaid_of_delivery hdelivery (keptAlive server n request)
    (server.tryHandleUpgrade n (answeredHead server n request.head))).2
  · exact halive
  · cases hframed

theorem takeResponse_said (h : Gunzips p gunzip) {n : ℕ} {request : Request E}
    (hanswerable : Answerable (p.register server) n request) :
    ∃ given answer, handed (p.register server) n request = some given ∧
      Understood gunzip given answer ∧ ∀ rest, takeResponse request.head.method
        ((said (p.register server) n request).bytes ++ rest) = some (answer, rest) := by
  obtain ⟨answer, body, hdelivery, hframed⟩ := hanswerable.complete
  obtain ⟨given, hgiven, hread⟩ :=
    understood_plan h server n request hdelivery (keptAlive (p.register server) n request)
  obtain ⟨r, hreads, hunderstood⟩ :=
    hread request.head.method (hanswerable.polite given hgiven)
  refine ⟨given, r, hgiven, hunderstood, fun rest => ?_⟩
  have hbytes := (planSaid_of_delivery hdelivery (keptAlive (p.register server) n request)
    ((p.register server).tryHandleUpgrade n
      (answeredHead (p.register server) n request.head))).1
  rw [said, hbytes]
  exact hreads.ahead hframed rest

theorem takeResponses_dialogue (h : Gunzips p gunzip) {n : ℕ} {requests : List (Request E)}
    (hanswerable : ∀ k request, requests[k]? = some request →
      Answerable (p.register server) (n + k) request) :
    ∃ answers, takeResponses (requests.map fun request => request.head.method)
        (dialogue (p.register server) n requests) = some (answers, []) ∧
      Answered (p.register server) gunzip n requests answers := by
  induction requests generalizing n with
  | nil => exact ⟨[], rfl, .nil n⟩
  | cons request requests ih =>
    obtain ⟨given, answer, hgiven, hunderstood, htake⟩ :=
      takeResponse_said h (hanswerable 0 request rfl)
    obtain ⟨answers, hanswers, hlater⟩ := ih (n := n + 1) fun k request' hrequest' => by
      have hnext := hanswerable (k + 1) request' hrequest'
      rwa [Nat.add_comm k 1, ← Nat.add_assoc] at hnext
    refine ⟨answer :: answers, ?_, .cons hgiven hunderstood hlater⟩
    rw [List.map_cons, takeResponses, dialogue]
    rw [show n + 0 = n from rfl] at htake
    simp only [htake, hanswers, Option.map_some]

theorem answered_of_readAll (h : Gunzips p gunzip) {env : Env}
    (hundisturbed : Undisturbed (p.register server) env) (hkeep : server.keepAliveEnabled = true)
    {sents : List Sent} {requests : List (Request E)}
    (hrequests : ReadAll env.usizeMax server.maxBodyBytes sents requests)
    (hcount : sents.length ≤ max server.maxRequestsPerConnection 1)
    (hall : ∀ k request, requests[k]? = some request →
      Answerable (p.register server) (1 + k) request ∧
        (k + 1 < requests.length → shouldKeepAlive request.head = true))
    {cuts : List Bytes} (hcuts : ∀ c ∈ cuts, c ≠ [])
    (hflatten : cuts.flatten = sents.flatMap Sent.text) {turns : ℕ} (hturns : sents.length < turns) :
    ∃ answers, takeResponses (sents.map Sent.method) (handleConnection (p.register server)
        env turns (.start (cuts.map .data))).state.out = some (answers, []) ∧
      Answered (p.register server) gunzip 1 requests answers := by
  obtain ⟨answers, hanswers, hanswered⟩ :=
    takeResponses_dialogue h fun k request hrequest => (hall k request hrequest).1
  refine ⟨answers, ?_, hanswered⟩
  obtain ⟨hout, -⟩ := handleConnection_spoken (s := .start (cuts.map .data)) hundisturbed turns
    (clean_map_data hcuts)
  have hpending : pending (cuts.map Read.data) Conn.new = sents.flatMap Sent.text :=
    (pending_new cuts).trans hflatten
  have hspoken := spoken_dialogue (p.register server) hrequests hturns (n := 1)
    fun k request hk hrequest => by
      obtain ⟨hanswerable, hpersists⟩ := hall k request hrequest
      have hlength : requests.length = sents.length := hrequests.length_eq.symm
      rw [said_alive hanswerable, keptAlive, hpersists hk, Bool.and_true, Bool.and_eq_true,
        decide_eq_true_iff]
      exact ⟨hkeep, show 1 + k < max server.maxRequestsPerConnection 1 by omega⟩
  rw [methods_of_readAll hrequests] at hanswers
  rw [← hanswers, ← hspoken, ← hpending]
  exact congrArg _ hout

/-- A client that sends its requests ahead, however they are cut on the way, reads one answer for
each of them and nothing else: what the gates, the interceptors, the plugins and the handler made
of that request, with the encodings of the plugins undone. -/
theorem dialogue_law (h : Gunzips p gunzip) {env : Env}
    (hundisturbed : Undisturbed (p.register server) env) (hkeep : server.keepAliveEnabled = true)
    {sents : List Sent}
    (hsend : ∀ sent ∈ sents, sent.Sendable env.usizeMax server.maxBodyBytes)
    (hcount : sents.length ≤ max server.maxRequestsPerConnection 1) :
    ∃ requests : List (Request E), ReadAll env.usizeMax server.maxBodyBytes sents requests ∧
      ((∀ k request, requests[k]? = some request →
          Answerable (p.register server) (1 + k) request ∧
            (k + 1 < requests.length → shouldKeepAlive request.head = true)) →
        ∀ cuts : List Bytes, (∀ c ∈ cuts, c ≠ []) → cuts.flatten = sents.flatMap Sent.text →
          ∀ turns, sents.length < turns →
            ∃ answers, takeResponses (sents.map Sent.method) (handleConnection (p.register server)
                env turns (.start (cuts.map .data))).state.out = some (answers, []) ∧
              Answered (p.register server) gunzip 1 requests answers) := by
  obtain ⟨requests, hrequests⟩ := exists_readAll (E := E) hsend
  exact ⟨requests, hrequests, fun hall cuts hcuts hflatten turns hturns =>
    answered_of_readAll h hundisturbed hkeep hrequests hcount hall hcuts hflatten hturns⟩

end Law

section Samples

def asking : Sent := ⟨ascii "GET", ascii "/", .http11, [(ascii "Accept-Encoding", ascii "gzip")], .none⟩

def closing : Sent := ⟨ascii "GET", ascii "/", .http11, [(ascii "Connection", ascii "close")], .none⟩

theorem sendable_samples : ∀ sent ∈ [asking, closing],
    sent.Sendable (2 ^ 64 - 1) textServer.maxBodyBytes := by
  have htarget : Visible (ascii "/") := visible_of_all (by decide)
  have hvalue : ∀ value ∈ [ascii "gzip", ascii "close"], FieldValue value := by
    simp only [List.forall_mem_cons, List.not_mem_nil, false_implies, implies_true, and_true]
    exact ⟨(visible_of_all (by decide)).fieldValue, (visible_of_all (by decide)).fieldValue⟩
  intro sent hsent
  simp only [List.mem_cons, List.not_mem_nil, or_false] at hsent
  rcases hsent with rfl | rfl
  · refine ⟨by decide, htarget, by decide, ?_, by decide, by decide, ⟨rfl, rfl⟩, trivial⟩
    exact List.forall_mem_singleton.mpr ⟨by decide, hvalue _ (by decide)⟩
  · refine ⟨by decide, htarget, by decide, ?_, by decide, by decide, ⟨rfl, rfl⟩, trivial⟩
    exact List.forall_mem_singleton.mpr ⟨by decide, hvalue _ (by decide)⟩

theorem tryIntercept_compressing (n : ℕ) (head : RequestHead (fun _ : Unit => Unit)) (body : Bytes) :
    compressing.tryIntercept n head body = none := by
  rw [tryIntercept_eq, List.findSome?_eq_none_iff]
  intro plugin _
  cases plugin with
  | openapi =>
    change interceptOpenapi compressing.embedded .disabled head = none
    rw [interceptOpenapi]
    split_ifs <;> rfl
  | _ => rfl

theorem chosen_text (n : ℕ) (head : RequestHead (fun _ : Unit => Unit)) (body : Bytes) :
    chosen (compressing.register textServer) n head body = .inr ⟨200, textResponse.contentType,
      [some (.chunk (textBody.take 32)), some (.chunk (textBody.drop 32)), some .finished]⟩ := by
  have hintercept : (compressing.register textServer).tryIntercept n head body = none :=
    tryIntercept_compressing n head body
  simp only [chosen, hintercept]
  rfl

theorem answerable_text (n : ℕ) {request : Request (fun _ : Unit => Unit)}
    (hmethod : request.head.method = ascii "GET") (hversion : request.head.version = .http11) :
    Answerable (compressing.register textServer) n request where
  complete := by
    let server := compressing.register textServer
    let recvs : List Recv := [some (.chunk (textBody.take 32)), some (.chunk (textBody.drop 32)),
      some .finished]
    let response : Response := { textResponse with body := [] }
    let prepared := server.prepareStreamingCompression n request.head response
    have hplan : planOf server n request = .chunked prepared.1 prepared.2 recvs := by
      have hanswer : planOf server n request = answerPlan server n request.head request.body := rfl
      rw [hanswer, answerPlan, chosen_text]
      simp only [streamingPlan, hversion]
      rfl
    have hstatus : prepared.1.status = 200 :=
      PluginCompression.prepareStreamingCompression_status _ _ _ request.head response
    have hbody : ∃ body, chunkedBody prepared.2 [] recvs = some body := by
      obtain heq | heq | ⟨-, -, heq⟩ := prepareStreaming_cases compressing textServer n request.head
        response
      · rw [show prepared = _ from heq]
        exact ⟨_, rfl⟩
      · rw [show prepared = _ from heq]
        exact ⟨_, rfl⟩
      · rw [show prepared = _ from heq]
        exact ⟨[encodeTerminator (encodeChunk textBodyGzip [])], by decide⟩
    obtain ⟨body, hbody⟩ := hbody
    refine ⟨.chunked prepared.1, body, ?_, rfl⟩
    rw [show planOf (compressing.register textServer) n request = _ from hplan, Plan.delivery,
      streamed, hstatus, hbody]
    rfl
  polite given hgiven hnone := by
    have hhanded : handed (compressing.register textServer) n request =
        handedAnswer (compressing.register textServer) n request.head request.body := rfl
    rw [hhanded, handedAnswer, chosen_text] at hgiven
    obtain rfl := Option.some.inj hgiven
    rw [hmethod] at hnone
    have hbodyless : hasNoBody (ascii "GET") 200 = true := hnone
    exact absurd hbodyless (by decide)

/-- The first answer is compressed, the second one is not; both are read. -/
theorem dialogue_law_text :
    ∃ requests : List (Request (fun _ : Unit => Unit)),
      ReadAll (2 ^ 64 - 1) 0 [asking, closing] requests ∧
        ∀ cuts : List Bytes, (∀ c ∈ cuts, c ≠ []) →
          cuts.flatten = [asking, closing].flatMap Sent.text → ∀ turns, 2 < turns →
            ∃ answers, takeResponses [ascii "GET", ascii "GET"]
                (handleConnection (compressing.register textServer) .calm turns
                  (.start (cuts.map .data))).state.out = some (answers, []) ∧
              Answered (compressing.register textServer) undone 1 requests answers := by
  have hcalm : Undisturbed (compressing.register textServer) .calm :=
    ⟨fun _ => rfl, fun _ => rfl, fun _ => Nat.zero_lt_one, fun _ => rfl⟩
  obtain ⟨requests, hread, hlaw⟩ :=
    dialogue_law gunzips_compressing hcalm rfl sendable_samples (by decide)
  refine ⟨requests, hread, hlaw fun k request hrequest => ?_⟩
  have hread' : List.Forall₂ (Sent.ReadBy (2 ^ 64 - 1) 0) [asking, closing] requests := hread
  obtain _ | @⟨_, first, _, _, hfirst, _ | @⟨_, second, _, _, hsecond, _ | _⟩⟩ := hread'
  rcases k with _ | _ | k
  · obtain rfl := Option.some.inj (show some first = some request from hrequest)
    refine ⟨answerable_text _ hfirst.head.method hfirst.head.version, fun _ => ?_⟩
    simp only [shouldKeepAlive, connectionTokens, hfirst.head.version, hfirst.head.headers]
    decide
  · obtain rfl := Option.some.inj (show some second = some request from hrequest)
    exact ⟨answerable_text _ hsecond.head.method hsecond.head.version,
      fun hk => absurd hk (lt_irrefl 2)⟩
  · cases hrequest

end Samples

end FandheBackend.CoreDialogue
