import FandheBackend.CoreConnectionTurns

set_option autoImplicit false

namespace FandheBackend.CoreConnectionKeepAlive
open StdBytes HttpExtensions HttpConnection HttpResponse HttpClient CoreConnection
open CoreConnectionTurns

section
variable {TypeId : Type} {E : TypeId → Type}

def isResponse : Event E → Bool
  | .responded _ _ _ => true
  | _ => false

/-- A response whose head, as a client reads it, announces the end of the connection. -/
def announces : Event E → Bool
  | .responded answer keepAlive _ => announcesClose (answer.bytes keepAlive)
  | _ => false

def readInShutdown (env : Env) : Event E → Bool
  | .read tick _ => env.shutdownFlag tick
  | _ => false

def isUpgradeCheck : Event E → Bool
  | .upgradeCheck _ => true
  | _ => false

def isDelegated : Event E → Bool
  | .delegated => true
  | _ => false

def ClosesOnce (es : List (Event E)) : Prop :=
  ∃ answer keepAlive done, es.filter isResponse = [.responded answer keepAlive done] ∧
    announcesClose (answer.bytes keepAlive) = true

def Refused (es : List (Event E)) : Prop :=
  (∀ ext, .ran .tryHandleUpgrade ext ∉ es) ∧ .delegated ∉ es ∧
    ∃ done, es.filter isResponse = [.responded (.whole (.empty 503)) false done]

variable (server : Server E) (env : Env)

structure TurnLaw (s : State E) (r : Bool × State E) : Prop where
  bounded : r.1 = true → s.requestsServed + 1 < max server.maxRequestsPerConnection 1
  reads : r.2.events.countP isRead ≤ 1
  answers : r.2.events.countP isResponse ≤ 1
  first : ∀ e ∈ r.2.events.tail, isRead e = false
  kept : r.1 = true → ∀ e ∈ r.2.events, announces e = false
  shutdown : ∀ e ∈ r.2.events, readInShutdown env e = true → r.1 = false ∧ ClosesOnce r.2.events
  upgrade : ∀ t, .upgradeCheck t ∈ r.2.events → env.shutdownFlag t = true → Refused r.2.events

theorem shutdownFlag_mono {t t' : ℕ} (hle : t ≤ t') (h : env.shutdownFlag t = true) :
    env.shutdownFlag t' = true := by
  induction t', hle using Nat.le_induction with
  | base => exact h
  | succ t' _ ih => exact env.shutdownFlag_stays t' ih

theorem unheard_isRead : Unheard (Option.guard (isRead (E := E))) := ⟨fun _ _ => rfl, fun _ => rfl⟩

theorem unheard_isResponse : Unheard (Option.guard (isResponse (E := E))) :=
  ⟨fun _ _ => rfl, fun _ => rfl⟩

theorem unheard_isUpgradeCheck : Unheard (Option.guard (isUpgradeCheck (E := E))) :=
  ⟨fun _ _ => rfl, fun _ => rfl⟩

theorem unheard_isDelegated : Unheard (Option.guard (isDelegated (E := E))) :=
  ⟨fun _ _ => rfl, fun _ => rfl⟩

theorem turnLaw_of_ended {s : State E} {r : Bool × State E} (halive : r.1 = false)
    (hevents : r.2.events = [] ∨
      ∃ response done, r.2.events = [.responded (.whole response) false done]) :
    TurnLaw server env s r := by
  have hdead : ∀ {P : Prop}, r.1 = true → P := by
    intro P h
    rw [halive] at h
    cases h
  rcases hevents with hevents | ⟨response, done, hevents⟩
  · refine ⟨hdead, ?_, ?_, ?_, hdead, ?_, ?_⟩ <;> simp [hevents]
  · refine ⟨hdead, ?_, ?_, ?_, hdead, ?_, ?_⟩ <;>
      simp [hevents, isRead, isResponse, readInShutdown]

section Opened
variable [DecidableEq TypeId] {server} {env}
variable {s s' : State E} {r : Bool × State E} {tick : ℕ} {request : Request E} {k : Bool}
  (hopened : Opened server env s s' tick request k)
include hopened

theorem opened_reads {ext : RequestExtensions E} {tail : List (Event E)}
    (htail : ∀ e ∈ tail, Follows ext e) :
    (s'.events ++ tail).filter isRead = [.read tick request] := by
  have hnone : tail.filter isRead = [] := by
    rw [List.filter_eq_nil_iff]
    intro e he
    cases e with
    | read t request => exact absurd (htail _ he) id
    | _ => exact Bool.false_ne_true
  rw [← List.filterMap_eq_filter] at hnone ⊢
  rw [hopened.filterMap unheard_isRead, hnone]
  rfl

theorem opened_first {ext : RequestExtensions E} {tail : List (Event E)}
    (htail : ∀ e ∈ tail, Follows ext e) :
    ∀ e ∈ (s'.events ++ tail).tail, isRead e = false := by
  have hreads := opened_reads hopened htail
  have hread : isRead (E := E) (.read tick request) = true := rfl
  rw [hopened.events, List.cons_append, List.filter_cons_of_pos hread, List.cons_eq_cons] at hreads
  rw [hopened.events, List.cons_append, List.tail_cons]
  intro e he
  simpa using List.filter_eq_nil_iff.mp hreads.2 e he

theorem opened_shutdown {ext : RequestExtensions E} {tail : List (Event E)}
    (htail : ∀ e ∈ tail, Follows ext e) {e : Event E} (he : e ∈ s'.events ++ tail)
    (hflag : readInShutdown env e = true) : env.shutdownFlag tick = true ∧ k = false := by
  have hread : isRead e = true := by
    cases e with
    | read t request => rfl
    | _ => cases hflag
  have hmem := List.mem_filter.mpr ⟨he, hread⟩
  rw [opened_reads hopened htail, List.mem_singleton] at hmem
  subst hmem
  refine ⟨hflag, ?_⟩
  by_contra hk
  rw [Bool.not_eq_false] at hk
  have hunflagged := hopened.unflagged hk
  rw [readInShutdown, hunflagged] at hflag
  cases hflag

theorem turnLaw_of_replied {ext : RequestExtensions E} {reply : Reply}
    (hreplied : Replied ext k s' r reply) : TurnLaw server env s r := by
  have hresponse : r.2.events.filter isResponse =
      [.responded reply.answer reply.keepAlive reply.done] := by
    rw [← List.filterMap_eq_filter, hreplied.events, hopened.filterMap unheard_isResponse,
      Reply.filterMap unheard_isResponse, filterMap_sent fun _ _ => rfl]
    rfl
  have hcheck : r.2.events.filter isUpgradeCheck = [] := by
    rw [← List.filterMap_eq_filter, hreplied.events, hopened.filterMap unheard_isUpgradeCheck,
      Reply.filterMap unheard_isUpgradeCheck, filterMap_sent fun _ _ => rfl]
    rfl
  refine ⟨fun h => hopened.bounded (hreplied.keepAlive (hreplied.alive h)), ?_, ?_, ?_,
    fun h => ?_, fun e he hflag => ?_, fun t hmem _ => ?_⟩
  · rw [List.countP_eq_length_filter, hreplied.events,
      opened_reads hopened (reply.follows ext)]
    exact le_refl _
  · rw [List.countP_eq_length_filter, hresponse]
    exact le_refl _
  · rw [hreplied.events]
    exact opened_first hopened (reply.follows ext)
  · -- the only response is the one that keeps the connection
    have hannounced := hreplied.announced
    rw [hreplied.alive h] at hannounced
    intro e he
    cases e with
    | responded answer keepAlive done =>
      have hmem := List.mem_filter.mpr ⟨he, (rfl : isResponse _ = true)⟩
      rw [hresponse, List.mem_singleton, hreplied.alive h] at hmem
      rw [hmem]
      exact hannounced
    | _ => rfl
  · rw [hreplied.events] at he
    obtain ⟨_, hk⟩ := opened_shutdown hopened (reply.follows ext) he hflag
    have hreply : reply.keepAlive = false := by
      by_contra hne
      rw [Bool.not_eq_false] at hne
      rw [hreplied.keepAlive hne] at hk
      cases hk
    refine ⟨?_, reply.answer, reply.keepAlive, reply.done, hresponse, ?_⟩
    · by_contra hne
      rw [Bool.not_eq_false] at hne
      rw [hreplied.alive hne] at hreply
      cases hreply
    · rw [hreplied.announced, hreply]
      rfl
  · have hmem' := List.mem_filter.mpr ⟨hmem, (rfl : isUpgradeCheck (E := E) (.upgradeCheck t) = true)⟩
    rw [hcheck] at hmem'
    cases hmem'

theorem opened_upgrade_filter {p : Event E → Bool} (hp : Unheard (Option.guard p))
    (ext : RequestExtensions E) (hooks : List Hook) (t : ℕ) (tail : List (Event E)) :
    (s'.events ++ (ran ext hooks ++ .upgradeCheck t :: tail)).filter p =
      [.read tick request].filter p ++ ([.upgradeCheck t].filter p ++ tail.filter p) := by
  have hcons : Event.upgradeCheck t :: tail = [.upgradeCheck t] ++ tail := rfl
  simp only [← List.filterMap_eq_filter]
  rw [hopened.filterMap hp, List.filterMap_append, filterMap_ran hp, List.nil_append, hcons,
    List.filterMap_append]

theorem opened_unasked {hooks : List Hook} (hnot : Hook.tryHandleUpgrade ∉ hooks)
    {ext : RequestExtensions E} (t : ℕ) (done : Bool) (seen : RequestExtensions E) :
    .ran .tryHandleUpgrade seen ∉ s'.events ++ (ran ext hooks ++ .upgradeCheck t ::
      [.responded (.whole (.empty 503)) false done]) := by
  intro hmem
  rw [hopened.events] at hmem
  simp only [ran, List.mem_append, List.mem_cons, List.mem_map, reduceCtorEq, Event.ran.injEq,
    List.not_mem_nil, and_false, exists_false, false_or, or_false] at hmem
  rcases hmem with ⟨hook, ⟨i, _, rfl⟩, heq, _⟩ | ⟨hook, hhook, rfl, _⟩
  · cases heq
  · exact hnot hhook

theorem turnLaw_of_upgrade {ext : RequestExtensions E} {hooks : List Hook} {t : ℕ}
    {tail : List (Event E)} (halive : r.1 = false)
    (hevents : r.2.events = s'.events ++ (ran ext hooks ++ .upgradeCheck t :: tail))
    (hfollows : ∀ e ∈ ran ext hooks ++ .upgradeCheck t :: tail, Follows ext e)
    (hnot : Hook.tryHandleUpgrade ∉ hooks) (htick : s'.tick ≤ t)
    (hcheck : tail.filter isUpgradeCheck = []) (hanswers : tail.countP isResponse ≤ 1)
    (hrefused : env.shutdownFlag t = true →
      ∃ done, tail = [.responded (.whole (.empty 503)) false done]) :
    TurnLaw server env s r := by
  have hdead : ∀ {P : Prop}, r.1 = true → P := by
    intro P h
    rw [halive] at h
    cases h
  have hresponse : env.shutdownFlag t = true → ∃ done, r.2.events.filter isResponse =
      [.responded (.whole (.empty 503)) false done] := by
    intro hflag
    obtain ⟨done, htail⟩ := hrefused hflag
    refine ⟨done, ?_⟩
    rw [hevents, opened_upgrade_filter hopened unheard_isResponse, htail]
    rfl
  have hcheck' : ∀ t', .upgradeCheck t' ∈ r.2.events → t' = t := by
    intro t' hmem
    have hmem' := List.mem_filter.mpr
      ⟨hmem, (rfl : isUpgradeCheck (E := E) (.upgradeCheck t') = true)⟩
    rw [hevents, opened_upgrade_filter hopened unheard_isUpgradeCheck, hcheck] at hmem'
    simpa [isUpgradeCheck] using hmem'
  refine ⟨hdead, ?_, ?_, ?_, hdead, fun e he hflag => ⟨halive, ?_⟩,
    fun t' hmem hflag => ⟨?_, ?_, ?_⟩⟩
  · rw [List.countP_eq_length_filter, hevents, opened_reads hopened hfollows]
    exact le_refl _
  · rw [List.countP_eq_length_filter, hevents, opened_upgrade_filter hopened unheard_isResponse]
    rw [List.countP_eq_length_filter] at hanswers
    exact hanswers
  · rw [hevents]
    exact opened_first hopened hfollows
  · rw [hevents] at he
    obtain ⟨hset, _⟩ := opened_shutdown hopened hfollows he hflag
    obtain ⟨done, hdone⟩ := hresponse (shutdownFlag_mono env (hopened.tick_le.trans htick) hset)
    exact ⟨_, _, done, hdone, announcesClose_serialize (.empty 503) false⟩
  · rw [hcheck' t' hmem] at hflag
    obtain ⟨done, htail⟩ := hrefused hflag
    rw [hevents, htail]
    exact opened_unasked hopened hnot t done
  · rw [hcheck' t' hmem] at hflag
    obtain ⟨done, htail⟩ := hrefused hflag
    intro hdelegated
    have hmem' := List.mem_filter.mpr ⟨hdelegated, (rfl : isDelegated (E := E) .delegated = true)⟩
    rw [hevents, opened_upgrade_filter hopened unheard_isDelegated, htail] at hmem'
    cases hmem'
  · rw [hcheck' t' hmem] at hflag
    exact hresponse hflag

end Opened

variable [DecidableEq TypeId]

theorem iteration_turnLaw (s : State E) : TurnLaw server env s (iteration server env s) := by
  cases iteration_cases server env s with
  | ended halive _ hevents => exact turnLaw_of_ended server env halive hevents
  | rejected s' tick request k hopened response done after _ hreplied _ =>
    exact turnLaw_of_replied hopened hreplied
  | allowed s' tick request k hopened _ hserved =>
    obtain ⟨tail', hevents', hfollows⟩ := hserved.follows
    cases hserved with
    | replied reply hreplied => exact turnLaw_of_replied hopened hreplied
    | upgrade hooks t tail hnot halive _ hevents htick htail =>
      rw [hevents, List.append_cancel_left_eq] at hevents'
      rw [← hevents'] at hfollows
      have htails : tail.filter isUpgradeCheck = [] ∧ tail.countP isResponse ≤ 1 := by
        split at htail
        · obtain ⟨done, rfl⟩ := htail
          exact ⟨rfl, le_refl _⟩
        · rcases htail with rfl | ⟨done, rfl⟩
          · exact ⟨rfl, Nat.zero_le _⟩
          · exact ⟨rfl, le_refl _⟩
      refine turnLaw_of_upgrade hopened halive hevents hfollows hnot htick htails.1 htails.2
        fun hflag => ?_
      rw [if_pos hflag] at htail
      exact htail

theorem countP_turns_le {p : Event E → Bool}
    (hp : ∀ s : State E, (iteration server env s).2.events.countP p ≤ 1) (turns : ℕ) (s : State E)
    (h : s.requestsServed < max server.maxRequestsPerConnection 1) :
    s.requestsServed + (handleConnection server env turns s).turns.flatten.countP p ≤
      max server.maxRequestsPerConnection 1 := by
  induction turns generalizing s with
  | zero =>
    simp only [handleConnection, List.flatten_nil, List.countP_nil]
    omega
  | succ turns ih =>
    have hone := hp s
    rw [(handleConnection_succ server env turns s).1, List.flatten_cons, List.countP_append]
    by_cases halive : (iteration server env s).1 = true
    · have hserved := iteration_requestsServed server env halive
      have hrest := ih (iteration server env s).2 (by
        rw [hserved]
        exact (iteration_turnLaw server env s).bounded halive)
      rw [if_pos halive]
      omega
    · rw [if_neg halive, List.flatten_nil, List.countP_nil]
      omega

theorem closed_before_reads (turns : ℕ) (s : State E) :
    (handleConnection server env turns s).turns.flatten.Pairwise
      fun e e' => announces e = true → isRead e' = false := by
  induction turns generalizing s with
  | zero => exact List.Pairwise.nil
  | succ turns ih =>
    have hlaw := iteration_turnLaw server env s
    rw [(handleConnection_succ server env turns s).1, List.flatten_cons, List.pairwise_append]
    refine ⟨?_, ?_, fun e he e' he' hclose => ?_⟩
    · exact List.pairwise_of_forall_sublist fun hsub _ =>
        hlaw.first _ (hsub.tail.subset List.mem_cons_self)
    · split
      · exact ih _
      · exact List.Pairwise.nil
    · split at he'
      · rename_i halive
        rw [hlaw.kept halive e he] at hclose
        cases hclose
      · cases he'

theorem shutdown_reads_le (turns : ℕ) (s : State E) :
    (handleConnection server env turns s).turns.flatten.countP (readInShutdown env) ≤ 1 := by
  induction turns generalizing s with
  | zero => simp [handleConnection]
  | succ turns ih =>
    have hlaw := iteration_turnLaw server env s
    rw [(handleConnection_succ server env turns s).1, List.flatten_cons, List.countP_append]
    by_cases halive : (iteration server env s).1 = true
    · -- a turn that is followed by another one has not read in shutdown
      have hnone : (iteration server env s).2.events.countP (readInShutdown env) = 0 := by
        rw [List.countP_eq_zero]
        intro e he hflag
        rw [(hlaw.shutdown e he hflag).1] at halive
        cases halive
      rw [if_pos halive, hnone, Nat.zero_add]
      exact ih _
    · have hle : (iteration server env s).2.events.countP (readInShutdown env) ≤
          (iteration server env s).2.events.countP isRead := by
        apply List.countP_mono_left
        intro e _ hflag
        cases e with
        | read t request => rfl
        | _ => cases hflag
      have hone := hlaw.reads
      rw [if_neg halive, List.flatten_nil, List.countP_nil]
      omega

theorem shutdown_last (turns : ℕ) (s : State E) (k : ℕ) (es : List (Event E))
    (hturn : (handleConnection server env turns s).turns[k]? = some es)
    (hread : ∃ e ∈ es, readInShutdown env e = true) :
    ClosesOnce es ∧ (handleConnection server env turns s).turns.length = k + 1 ∧
      (handleConnection server env turns s).alive = false := by
  induction turns generalizing s k with
  | zero => simp [handleConnection] at hturn
  | succ turns ih =>
    have hlaw := iteration_turnLaw server env s
    obtain ⟨hturns, halive, _⟩ := handleConnection_succ server env turns s
    rw [hturns] at hturn ⊢
    rw [halive]
    cases k with
    | zero =>
      rw [List.getElem?_cons_zero, Option.some.injEq] at hturn
      subst hturn
      obtain ⟨e, he, hflag⟩ := hread
      obtain ⟨hdead, hcloses⟩ := hlaw.shutdown e he hflag
      simp [hdead, hcloses]
    | succ k =>
      rw [List.getElem?_cons_succ] at hturn
      cases hit : (iteration server env s).1 with
      | false => simp [hit] at hturn
      | true =>
        rw [hit, if_pos rfl] at hturn
        obtain ⟨hcloses, hlen, hdead⟩ := ih _ k hturn
        exact ⟨hcloses, by simp [hlen], by simp [hdead]⟩

/-- The keep-alive law of a connection, however long it is watched. -/
theorem handleConnection_keepAlive (turns : ℕ) (reads : List Read) :
    ((handleConnection server env turns (.start reads)).turns.flatten.countP isRead ≤
        max 1 server.maxRequestsPerConnection ∧
      (handleConnection server env turns (.start reads)).turns.flatten.countP isResponse ≤
        max 1 server.maxRequestsPerConnection) ∧
    (handleConnection server env turns (.start reads)).turns.flatten.Pairwise
      (fun e e' => announces e = true → isRead e' = false) ∧
    ((handleConnection server env turns (.start reads)).turns.flatten.countP
        (readInShutdown env) ≤ 1 ∧
      ∀ k es, (handleConnection server env turns (.start reads)).turns[k]? = some es →
        (∃ e ∈ es, readInShutdown env e = true) →
        ClosesOnce es ∧ (handleConnection server env turns (.start reads)).turns.length = k + 1 ∧
          (handleConnection server env turns (.start reads)).alive = false) ∧
    ∀ es ∈ (handleConnection server env turns (.start reads)).turns, ∀ t,
      .upgradeCheck t ∈ es → env.shutdownFlag t = true → Refused es := by
  refine ⟨?_, closed_before_reads server env turns _,
    ⟨shutdown_reads_le server env turns _, shutdown_last server env turns _⟩, ?_⟩
  · have hstart : (State.start (E := E) reads).requestsServed <
        max server.maxRequestsPerConnection 1 := by
      have hzero : (State.start (E := E) reads).requestsServed = 0 := rfl
      omega
    have hreads := countP_turns_le server env
      (fun s => (iteration_turnLaw server env s).reads) turns (.start reads) hstart
    have hanswers := countP_turns_le server env
      (fun s => (iteration_turnLaw server env s).answers) turns (.start reads) hstart
    rw [max_comm]
    exact ⟨by omega, by omega⟩
  · intro es hes t hcheck hflag
    obtain ⟨k, hk⟩ := List.mem_iff_getElem?.mp hes
    obtain ⟨s, _, rfl⟩ := handleConnection_turn server env hk
    exact (iteration_turnLaw server env s).upgrade t hcheck hflag

end

end FandheBackend.CoreConnectionKeepAlive
