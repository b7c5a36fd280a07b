import Mathlib.Logic.Function.Basic
import FandheBackend.HttpFormLaw
import FandheBackend.Unwinding

set_option autoImplicit false

/-!
# The stores of the tenants (`outbox.rs`, `consent.rs` and `audit.rs` of `crates/plugin-hub-wiring`)

The in-memory outbox and consent stores and the audit log, which all tenants share. Each
operation holds the lock of its store, so a run is a list of operations in some order.
-/
namespace FandheBackend.HubStores
open StdBytes HttpForm HttpFormLaw Unwinding

structure OutboxEvent where
  id : Bytes
  orgId : Bytes
  eventType : Bytes
  payload : Bytes
  deriving DecidableEq

inductive AuditCategory where
  | crossTenantAttempt
  deriving DecidableEq, Repr

/-- The path is private, and `new` is the only way to make one. -/
structure AuditContext where
  orgId : Bytes
  method : Bytes
  path : Bytes
  source : Bytes
  path_no_query : 63 ∉ path

/-- `split_once('?')` and the part before. -/
def withoutQuery (path : Bytes) : Bytes := ((splitOnce 63 path).map Prod.fst).getD path

theorem withoutQuery_no_query (path : Bytes) : 63 ∉ withoutQuery path := by
  unfold withoutQuery
  cases h : splitOnce 63 path with
  | none => exact splitOnce_eq_none_iff.mp h
  | some parts => exact (splitOnce_eq_some_iff.mp h).2

def AuditContext.new (orgId method path source : Bytes) : AuditContext :=
  ⟨orgId, method, withoutQuery path, source, withoutQuery_no_query path⟩

theorem AuditContext.new_self (ctx : AuditContext) :
    new ctx.orgId ctx.method ctx.path ctx.source = ctx := by
  obtain ⟨orgId, method, path, source, hpath⟩ := ctx
  have hsame : withoutQuery path = path := by
    rw [withoutQuery, splitOnce_eq_none_iff.mpr hpath]
    rfl
  simp only [new, hsame]

structure AuditEvent where
  category : AuditCategory
  occurredAtUnix : ℕ
  orgId : Bytes
  method : Bytes
  path : Bytes
  source : Bytes
  deriving DecidableEq

def AuditEvent.crossTenantAttempt (ctx : AuditContext) (occurredAtUnix : ℕ) : AuditEvent :=
  ⟨.crossTenantAttempt, occurredAtUnix, ctx.orgId, ctx.method, ctx.path, ctx.source⟩

inductive TenantLookupOutcome (T : Type) where
  | found (value : T)
  | notFound
  | crossTenantAttempt

structure Stores where
  -- `InMemoryOutboxStore`.
  events : List OutboxEvent
  -- `InMemoryConsentStore`, by organisation, service and kind of information.
  grants : Bytes × Bytes × Bytes → Option Bool
  -- `MemoryAuditSink`.
  audit : List AuditEvent

def Stores.new : Stores := ⟨[], fun _ => none, []⟩

section
variable {T : Type}

/-- `TenantLookupOutcome::resolve`. -/
def TenantLookupOutcome.resolve (sink : List AuditEvent) (ctx : AuditContext) (occurredAtUnix : ℕ) :
    TenantLookupOutcome T → Option T × List AuditEvent
  | .found value => (some value, sink)
  | .notFound => (none, sink)
  | .crossTenantAttempt => (none, sink ++ [.crossTenantAttempt ctx occurredAtUnix])

namespace Stores

def enqueue (s : Stores) (event : OutboxEvent) : Stores := { s with events := s.events ++ [event] }

def listForOrg (s : Stores) (orgId : Option Bytes) : List OutboxEvent :=
  match orgId.filter (· ≠ []) with
  | none => []
  | some orgId => s.events.filter (·.orgId = orgId)

def grant (s : Stores) (orgId service infoType : Bytes) : Stores :=
  { s with grants := Function.update s.grants (orgId, service, infoType) (some true) }

def revoke (s : Stores) (orgId service infoType : Bytes) : Stores :=
  { s with grants := Function.update s.grants (orgId, service, infoType) (some false) }

def isGranted (s : Stores) (orgId service infoType : Bytes) : Bool :=
  if orgId = [] then false else (s.grants (orgId, service, infoType)).getD false

end Stores

inductive Action (T : Type) where
  | enqueue (event : OutboxEvent)
  | listForOrg (orgId : Option Bytes)
  | grant (orgId service infoType : Bytes)
  | revoke (orgId service infoType : Bytes)
  | isGranted (orgId service infoType : Bytes)
  | resolve (outcome : TenantLookupOutcome T) (ctx : AuditContext) (occurredAtUnix : ℕ)

inductive Reply (T : Type) where
  | done
  | events (events : List OutboxEvent)
  | granted (granted : Bool)
  | found (value : Option T)

def step (s : Stores) : Action T → Reply T × Stores
  | .enqueue event => (.done, s.enqueue event)
  | .listForOrg orgId => (.events (s.listForOrg orgId), s)
  | .grant orgId service infoType => (.done, s.grant orgId service infoType)
  | .revoke orgId service infoType => (.done, s.revoke orgId service infoType)
  | .isGranted orgId service infoType => (.granted (s.isGranted orgId service infoType), s)
  | .resolve outcome ctx occurredAtUnix =>
    let resolved := outcome.resolve s.audit ctx occurredAtUnix
    (.found resolved.1, { s with audit := resolved.2 })

def Action.orgId : Action T → Option Bytes
  | .enqueue event => some event.orgId
  | .listForOrg orgId => orgId
  | .grant orgId _ _ | .revoke orgId _ _ | .isGranted orgId _ _ => some orgId
  | .resolve _ ctx _ => some ctx.orgId

def of (orgId : Bytes) (a : Action T) : Bool := a.orgId = some orgId

/-- What a lookup would be if the resource of the other tenant did not exist. -/
def Action.hidden : Action T → Action T
  | .resolve .crossTenantAttempt ctx occurredAtUnix => .resolve .notFound ctx occurredAtUnix
  | a => a

def view (orgId : Bytes) (s : Stores) : List OutboxEvent × (Bytes → Bytes → Option Bool) :=
  (s.events.filter (·.orgId = orgId), fun service infoType => s.grants (orgId, service, infoType))

def enqueued : Action T → Option OutboxEvent
  | .enqueue event => some event
  | _ => none

def decided (key : Bytes × Bytes × Bytes) : Action T → Option Bool
  | .grant orgId service infoType => if (orgId, service, infoType) = key then some true else none
  | .revoke orgId service infoType => if (orgId, service, infoType) = key then some false else none
  | _ => none

def attempted : Action T → Option AuditEvent
  | .resolve .crossTenantAttempt ctx occurredAtUnix => some (.crossTenantAttempt ctx occurredAtUnix)
  | _ => none

theorem listForOrg_eq (s : Stores) (orgId : Option Bytes) : s.listForOrg orgId =
    if orgId = none ∨ orgId = some [] then [] else s.events.filter (some ·.orgId = orgId) := by
  unfold Stores.listForOrg
  cases orgId with
  | none => rfl
  | some orgId =>
    by_cases h : orgId = []
    · subst h
      rfl
    · have hkept : (some orgId).filter (· ≠ []) = some orgId := Option.filter_some_pos (by simp [h])
      rw [hkept, if_neg (by simp [h])]
      simp only [Option.some.injEq]

theorem step_eq (s : Stores) (a : Action T) : (step s a).2 =
    ⟨s.events ++ (enqueued a).toList, fun key => (decided key a).or (s.grants key),
      s.audit ++ (attempted a).toList⟩ := by
  have hgrants : ∀ (key : Bytes × Bytes × Bytes) (b : Bool),
      Function.update s.grants key (some b) =
        fun k => (if key = k then some b else none).or (s.grants k) := by
    intro key b
    funext k
    by_cases hk : key = k
    · subst hk
      simp
    · simp [hk, Function.update_of_ne (Ne.symm hk)]
  cases a with
  | enqueue event => simp [step, Stores.enqueue, enqueued, decided, attempted]
  | listForOrg orgId => simp [step, enqueued, decided, attempted]
  | grant orgId service infoType =>
    simp [step, Stores.grant, enqueued, decided, attempted, hgrants]
  | revoke orgId service infoType =>
    simp [step, Stores.revoke, enqueued, decided, attempted, hgrants]
  | isGranted orgId service infoType => simp [step, enqueued, decided, attempted]
  | resolve outcome ctx occurredAtUnix =>
    cases outcome <;> simp [step, TenantLookupOutcome.resolve, enqueued, decided, attempted]

/-- A whole run on everything that is kept. The last decision on a consent counts. -/
theorem finish_eq (as : List (Action T)) (s : Stores) : finish step as s =
    ⟨s.events ++ as.filterMap enqueued,
      fun key => ((as.filterMap (decided key)).getLast?).or (s.grants key),
      s.audit ++ as.filterMap attempted⟩ := by
  induction as generalizing s with
  | nil => simp [finish]
  | cons a as ih =>
    have hcons : finish step (a :: as) s = finish step as (step s a).2 := rfl
    rw [hcons, ih, step_eq]
    simp only [List.append_assoc, List.filterMap_cons]
    congr 1
    · cases enqueued a <;> rfl
    · funext key
      cases decided key a with
      | none => rfl
      | some b => cases h : (as.filterMap (decided key)).getLast? <;> simp [List.getLast?_cons, h]
    · cases attempted a <;> rfl

theorem step_hidden (s : Stores) (a : Action T) : (step s a.hidden).1 = (step s a).1 := by
  cases a with
  | resolve outcome ctx occurredAtUnix => cases outcome <;> rfl
  | _ => rfl

theorem view_hidden (orgId : Bytes) (s : Stores) (a : Action T) :
    view orgId (step s a.hidden).2 = view orgId (step s a).2 := by
  cases a with
  | resolve outcome ctx occurredAtUnix => cases outcome <;> rfl
  | _ => rfl

/-- The organisation's own part of the stores decides what its operations return. -/
theorem view_step {orgId : Bytes} {s s' : Stores} (hview : view orgId s = view orgId s')
    {a : Action T} (ha : of orgId a = true) :
    (step s a).1 = (step s' a).1 ∧ view orgId (step s a).2 = view orgId (step s' a).2 := by
  obtain ⟨hevents, hgrants⟩ := Prod.mk.inj hview
  have horg := of_decide_eq_true ha
  constructor
  · cases a with
    | listForOrg o =>
      cases horg
      simp only [step, listForOrg_eq, Option.some.injEq]
      rw [hevents]
    | isGranted o service infoType =>
      cases horg
      simp only [step, Stores.isGranted]
      rw [congrFun (congrFun hgrants service) infoType]
    | resolve outcome ctx occurredAtUnix => cases outcome <;> rfl
    | _ => rfl
  · simp only [view, step_eq, List.filter_append, hevents, Prod.mk.injEq, true_and]
    funext service infoType
    rw [congrFun (congrFun hgrants service) infoType]

theorem view_step_of_not {orgId : Bytes} (s : Stores) {a : Action T} (ha : of orgId a = false) :
    view orgId (step s a).2 = view orgId s := by
  have horg : a.orgId ≠ some orgId := of_decide_eq_false ha
  have hevents : (enqueued a).toList.filter (·.orgId = orgId) = [] := by
    cases a with
    | enqueue event =>
      have hne : event.orgId ≠ orgId := fun heq => horg (congrArg some heq)
      simp [enqueued, hne]
    | _ => rfl
  have hgrants : ∀ service infoType, decided (orgId, service, infoType) a = none := by
    intro service infoType
    cases a with
    | grant o service' infoType' =>
      have hne : o ≠ orgId := fun heq => horg (congrArg some heq)
      simp [decided, hne]
    | revoke o service' infoType' =>
      have hne : o ≠ orgId := fun heq => horg (congrArg some heq)
      simp [decided, hne]
    | _ => rfl
  simp only [view, step_eq, List.filter_append, hevents, List.append_nil, hgrants, Option.none_or]

theorem unwinds (orgId : Bytes) : Unwinds (step (T := T)) (of orgId)
    (fun a a' => a.hidden = a'.hidden) (view orgId) where
  hidden s a ha := view_step_of_not s ha
  result s s' a a' ha ha' halike hview := by
    rw [(view_step hview ha).1, ← step_hidden, halike, step_hidden]
  next s s' a a' ha ha' halike hview := by
    rw [(view_step hview ha).2, ← view_hidden, halike, view_hidden]

/-- What an organisation sees of the stores is decided by its own operations, and a lookup of
what belongs to another one is to it a lookup of what does not exist. What it lists, and
whether it gave its consent, follow from what was done in its name; without a name nothing
is listed and nothing granted. The audit log has exactly the lookups across organisations, in
their order and without the query of a path. -/
theorem hub_stores_law (as : List (Action T)) :
    (∀ orgId (as' : List (Action T)),
      (as.filter (of orgId)).map Action.hidden = (as'.filter (of orgId)).map Action.hidden →
      observed step (of orgId) as .new = observed step (of orgId) as' .new) ∧
    (∀ orgId, (finish step as .new).listForOrg orgId = if orgId = none ∨ orgId = some [] then [] else
      (as.filterMap enqueued).filter (some ·.orgId = orgId)) ∧
    (∀ orgId service infoType, (finish step as .new).isGranted orgId service infoType = true ↔
      orgId ≠ [] ∧ (as.filterMap (decided (orgId, service, infoType))).getLast? = some true) ∧
    (finish step as .new).audit = as.filterMap attempted ∧
    ∀ e ∈ (finish step as .new).audit, 63 ∉ e.path := by
  have hfinish := finish_eq as .new
  refine ⟨fun orgId as' halike => ?_, fun orgId => ?_, fun orgId service infoType => ?_, ?_, ?_⟩
  · refine (unwinds orgId).observed_eq (fun _ => rfl) ?_ rfl
    rw [← List.forall₂_eq_eq_eq, List.forall₂_map_left_iff, List.forall₂_map_right_iff] at halike
    exact halike
  · rw [hfinish, listForOrg_eq]
    rfl
  · rw [hfinish]
    by_cases h : orgId = []
    · simp [Stores.isGranted, h]
    · simp only [Stores.isGranted, Stores.new, Option.or_none, ne_eq, h, not_false_eq_true,
        true_and]
      cases (as.filterMap (decided (orgId, service, infoType))).getLast? <;> simp
  · rw [hfinish]
    rfl
  · rw [hfinish]
    intro e he
    obtain ⟨a, -, ha⟩ := List.mem_filterMap.mp he
    unfold attempted at ha
    split at ha
    · cases ha
      rename_i ctx _
      exact ctx.path_no_query
    · cases ha

end

end FandheBackend.HubStores
