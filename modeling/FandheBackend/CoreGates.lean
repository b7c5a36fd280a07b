import FandheBackend.HttpResponse

set_option autoImplicit false

/-!
# Request gates (`crates/core/src/extension.rs`, `first_rejection` of `server.rs`)

A gate is user code with a mutable reference to the container of one request. It is a
program that reads the container, inserts into it, or puts another container in its
place, and in the end allows or rejects. The record of its writes is for the statements
only.
-/
namespace FandheBackend.CoreGates
open HttpExtensions HttpRequestHead HttpResponse

inductive GateOutcome where
  | allow
  | reject (response : Response)
  deriving DecidableEq

/-- The calls that the body of a `RequestGate::check` makes on the container. -/
inductive Check {TypeId : Type} (E : TypeId → Type) where
  | done (outcome : GateOutcome)
  | read (next : RequestExtensions E → Check E)
  | insert {id : TypeId} (value : E id) (next : Except (E id) Unit → Check E)
  | replace (container : RequestExtensions E) (next : Check E)

inductive Write {TypeId : Type} (E : TypeId → Type) where
  | insert (entry : Σ t, E t) (accepted : Bool)
  | replace (container : RequestExtensions E)

structure Checked {TypeId : Type} (E : TypeId → Type) where
  outcome : GateOutcome
  extensions : RequestExtensions E
  writes : List (Write E)

/-- A gate that was consulted, by its place in the order of registration. -/
structure Consulted {TypeId : Type} (E : TypeId → Type) where
  index : ℕ
  outcome : GateOutcome
  writes : List (Write E)

structure GateRun {TypeId : Type} (E : TypeId → Type) where
  rejection : Option Response
  extensions : RequestExtensions E
  consulted : List (Consulted E)

section
variable {TypeId : Type} {E : TypeId → Type} [DecidableEq TypeId]

def Check.run : Check E → RequestExtensions E → Checked E
  | .done outcome, ext => ⟨outcome, ext, []⟩
  | .read next, ext => (next ext).run ext
  | .insert value next, ext =>
    let inserted := ext.insert value
    let rest := (next inserted.1).run inserted.2
    { rest with writes := .insert ⟨_, value⟩ inserted.1.isOk :: rest.writes }
  | .replace container next, _ =>
    let rest := next.run container
    { rest with writes := .replace container :: rest.writes }

/-- `first_rejection` from the gate with index `i` on. -/
def firstRejection (head : RequestHead E) :
    ℕ → List (RequestHead E → Check E) → RequestExtensions E → GateRun E
  | _, [], ext => ⟨none, ext, []⟩
  | i, check :: gates, ext =>
    let checked := (check head).run ext
    let consulted := ⟨i, checked.outcome, checked.writes⟩
    match checked.outcome with
    | .allow =>
      let rest := firstRejection head (i + 1) gates checked.extensions
      { rest with consulted := consulted :: rest.consulted }
    | .reject response => ⟨some response, checked.extensions, [consulted]⟩

/-- What the writes so far put in, in their order: every insertion, taken or not, since the
container was last replaced. -/
def contribute : List (Σ t, E t) → Write E → List (Σ t, E t)
  | held, .insert entry _ => held ++ [entry]
  | _, .replace container => container.entries

def contributed (writes : List (Write E)) : List (Σ t, E t) := writes.foldl contribute []

/-- The container shows, for every type, the first value put in. -/
def Shows (ext : RequestExtensions E) (held : List (Σ t, E t)) : Prop :=
  ∀ id, ext.get id = RequestExtensions.getFrom id held

/-- An insertion is taken if and only if its type was free. -/
def FirstWins (held : List (Σ t, E t)) (writes : List (Write E)) : Prop :=
  ∀ pre entry accepted post, writes = pre ++ .insert entry accepted :: post →
    accepted = (RequestExtensions.getFrom entry.1 (pre.foldl contribute held)).isNone

theorem shows_insert {ext : RequestExtensions E} {held : List (Σ t, E t)} (h : Shows ext held)
    {id : TypeId} (value : E id) :
    Shows (ext.insert value).2 (held ++ [⟨id, value⟩]) ∧
      (ext.insert value).1.isOk = (RequestExtensions.getFrom id held).isNone := by
  have hid := h id
  have htaken := RequestExtensions.getFrom_isSome id ext.entries
  rw [RequestExtensions.get] at hid
  rw [hid] at htaken
  unfold RequestExtensions.insert
  rw [← htaken]
  cases hheld : RequestExtensions.getFrom id held with
  | none =>
    refine ⟨fun t => ?_, rfl⟩
    have ht := h t
    rw [RequestExtensions.get] at ht
    simp only [Option.isSome_none, Bool.false_eq_true, ↓reduceIte, RequestExtensions.get]
    rw [RequestExtensions.getFrom_append, RequestExtensions.getFrom_append, ht]
  | some v =>
    refine ⟨fun t => ?_, rfl⟩
    simp only [Option.isSome_some, ↓reduceIte]
    rw [h t, RequestExtensions.getFrom_append]
    by_cases heq : id = t
    · subst heq
      rw [hheld]
      rfl
    · simp [RequestExtensions.getFrom, heq]

theorem firstWins_nil (held : List (Σ t, E t)) : FirstWins held [] := by
  intro pre entry accepted post h
  simp at h

theorem firstWins_cons {held : List (Σ t, E t)} {w : Write E} {writes : List (Write E)}
    (hw : ∀ entry accepted, w = .insert entry accepted →
      accepted = (RequestExtensions.getFrom entry.1 held).isNone)
    (h : FirstWins (contribute held w) writes) : FirstWins held (w :: writes) := by
  intro pre entry accepted post heq
  cases pre with
  | nil =>
    rw [List.nil_append, List.cons_eq_cons] at heq
    exact hw entry accepted heq.1
  | cons p pre =>
    rw [List.cons_append, List.cons_eq_cons] at heq
    obtain ⟨rfl, heq⟩ := heq
    exact h pre entry accepted post heq

theorem firstWins_append {held : List (Σ t, E t)} {xs ys : List (Write E)}
    (hx : FirstWins held xs) (hy : FirstWins (xs.foldl contribute held) ys) :
    FirstWins held (xs ++ ys) := by
  induction xs generalizing held with
  | nil => exact hy
  | cons w xs ih =>
    rw [List.cons_append]
    apply firstWins_cons
    · intro entry accepted heq
      exact hx [] entry accepted xs (by rw [heq, List.nil_append])
    · apply ih _ hy
      intro pre entry accepted post heq
      exact hx (w :: pre) entry accepted post (by rw [heq, List.cons_append])

/-- A gate's writes, of whatever program, keep the container and its record in step. -/
theorem run_shows (check : Check E) {ext : RequestExtensions E} {held : List (Σ t, E t)}
    (h : Shows ext held) :
    Shows (check.run ext).extensions ((check.run ext).writes.foldl contribute held) ∧
      FirstWins held (check.run ext).writes := by
  induction check generalizing ext held with
  | done outcome => exact ⟨h, firstWins_nil held⟩
  | read next ih => exact ih ext h
  | insert value next ih =>
    obtain ⟨hshows, hok⟩ := shows_insert h value
    obtain ⟨hrest, hfirst⟩ := ih (ext.insert value).1 hshows
    refine ⟨hrest, firstWins_cons ?_ hfirst⟩
    intro entry accepted heq
    injection heq with hentry haccepted
    subst hentry
    rw [← haccepted, hok]
  | replace container next ih =>
    have hc : Shows container container.entries := fun _ => rfl
    obtain ⟨hrest, hfirst⟩ := ih hc
    refine ⟨hrest, firstWins_cons ?_ hfirst⟩
    intro entry accepted heq
    cases heq

def GateRun.writes (g : GateRun E) : List (Write E) := g.consulted.flatMap Consulted.writes

theorem firstRejection_shows (head : RequestHead E) (gates : List (RequestHead E → Check E))
    (i : ℕ) {ext : RequestExtensions E} {held : List (Σ t, E t)} (h : Shows ext held) :
    Shows (firstRejection head i gates ext).extensions
        ((firstRejection head i gates ext).writes.foldl contribute held) ∧
      FirstWins held (firstRejection head i gates ext).writes := by
  induction gates generalizing i ext held with
  | nil => exact ⟨h, firstWins_nil held⟩
  | cons check gates ih =>
    obtain ⟨hshows, hfirst⟩ := run_shows (check head) h
    rw [firstRejection]
    cases hout : ((check head).run ext).outcome with
    | allow =>
      obtain ⟨hrest, hrestFirst⟩ := ih (i + 1) hshows
      simp only [GateRun.writes, List.flatMap_cons, List.foldl_append]
      exact ⟨hrest, firstWins_append hfirst hrestFirst⟩
    | reject response =>
      simp only [GateRun.writes, List.flatMap_cons, List.flatMap_nil, List.append_nil]
      exact ⟨hshows, hfirst⟩

def GateRun.decisions (g : GateRun E) : List (ℕ × GateOutcome) :=
  g.consulted.map fun c => (c.index, c.outcome)

theorem firstRejection_decisions (head : RequestHead E)
    (gates : List (RequestHead E → Check E)) (i : ℕ) (ext : RequestExtensions E) :
    ((firstRejection head i gates ext).rejection = none →
      (firstRejection head i gates ext).decisions =
        (List.range' i gates.length).map fun k => (k, .allow)) ∧
    ∀ response, (firstRejection head i gates ext).rejection = some response →
      ∃ m < gates.length, (firstRejection head i gates ext).decisions =
        (List.range' i m).map (fun k => (k, .allow)) ++ [(i + m, .reject response)] := by
  induction gates generalizing i ext with
  | nil => exact ⟨fun _ => rfl, fun response h => by cases h⟩
  | cons check gates ih =>
    obtain ⟨hnone, hsome⟩ := ih (i + 1) ((check head).run ext).extensions
    rw [firstRejection]
    cases hout : ((check head).run ext).outcome with
    | allow =>
      refine ⟨fun h => ?_, fun response h => ?_⟩
      · have hrest := hnone h
        simp only [GateRun.decisions, List.map_cons] at hrest ⊢
        rw [hrest, List.length_cons, List.range'_succ, List.map_cons]
      · obtain ⟨m, hm, hrest⟩ := hsome response h
        have hidx : i + 1 + m = i + (m + 1) := by omega
        refine ⟨m + 1, by simpa using hm, ?_⟩
        simp only [GateRun.decisions, List.map_cons] at hrest ⊢
        rw [hrest, List.range'_succ, List.map_cons, List.cons_append, hidx]
    | reject response =>
      refine ⟨fun h => (nomatch h), fun response' h => ?_⟩
      cases h
      exact ⟨0, by simp, by simp [GateRun.decisions]⟩

end

end FandheBackend.CoreGates
