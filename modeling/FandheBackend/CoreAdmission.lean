import FandheBackend.CoreConnectionGates
import FandheBackend.HttpResponseBuilder

set_option autoImplicit false

/-!
# Gates that leave a proof of admission in the request

`JwtGate` and `TenantGate` decide on the head alone, and leave what they found under a type
that nobody else can make values of. A handler reads it back and does not decide again. The
laws are for every turn of every connection, with any gates registered before and after.
-/
namespace FandheBackend.CoreAdmission
open StdBytes HttpExtensions HttpRequestHead HttpResponse HttpConnection CoreGates CoreConnection
open CoreConnectionTurns CoreConnectionGates

section
variable {TypeId : Type} (E : TypeId → Type) (V : Type)

/-- A type with a private constructor, and what its values hold. -/
structure Badge where
  id : TypeId
  make : V → E id
  held : E id → V
  held_make : ∀ v, held (make v) = v

end

section
variable {TypeId : Type} {E : TypeId → Type} {V : Type} [DecidableEq TypeId]

/-- `extensions.insert(..)` and what its result is mapped to. -/
def admissionGate (b : Badge E V) (decision : RequestHead E → Except Response V)
    (head : RequestHead E) : Check E :=
  match decision head with
  | .ok v => .insert (b.make v) fun
    | .ok () => .done .allow
    | .error _ => .done (.reject (HttpResponse.errorResponse 500 "internal_error".toList))
  | .error response => .done (.reject response)

def Badge.verified (b : Badge E V) (ext : RequestExtensions E) : Option V :=
  (ext.get b.id).map b.held

/-- A gate that makes no value of a type: what is there after it was there before. -/
def MakesNone (id : TypeId) (check : Check E) : Prop :=
  ∀ ext v, (check.run ext).extensions.get id = some v → ext.get id = some v

/-- A gate that also leaves the value of the type in place. -/
def Leaves (id : TypeId) (check : Check E) : Prop :=
  ∀ ext, (check.run ext).extensions.get id = ext.get id

/-- A program that cannot name the type: it inserts other types only, and the containers that
it makes are without it. -/
inductive Foreign (id : TypeId) : Check E → Prop
  | done (outcome : GateOutcome) : Foreign id (.done outcome)
  | read {next : RequestExtensions E → Check E} (h : ∀ ext, Foreign id (next ext)) :
    Foreign id (.read next)
  | insert {t : TypeId} {value : E t} {next : Except (E t) Unit → Check E} (ht : t ≠ id)
    (h : ∀ r, Foreign id (next r)) : Foreign id (.insert value next)
  | replace {container : RequestExtensions E} {next : Check E} (hc : container.get id = none)
    (h : Foreign id next) : Foreign id (.replace container next)

theorem get_insert_of_ne {ext : RequestExtensions E} {t id : TypeId} (ht : t ≠ id) (value : E t) :
    (ext.insert value).2.get id = ext.get id := by
  unfold RequestExtensions.insert
  split
  · rfl
  · simp only [RequestExtensions.get]
    rw [RequestExtensions.getFrom_append]
    simp [RequestExtensions.getFrom, ht]

theorem Foreign.makesNone {id : TypeId} {check : Check E} (h : Foreign id check) :
    MakesNone id check := by
  induction h with
  | done outcome => exact fun _ _ hv => hv
  | read h ih => exact fun ext => ih ext ext
  | insert ht h ih =>
    intro ext v hv
    rw [← get_insert_of_ne ht]
    exact ih _ _ v hv
  | replace hc h ih =>
    intro ext v hv
    have hcontainer := ih _ v hv
    rw [hc] at hcontainer
    cases hcontainer

theorem firstRejection_append (head : RequestHead E) (xs ys : List (RequestHead E → Check E))
    (i : ℕ) (ext : RequestExtensions E) :
    firstRejection head i (xs ++ ys) ext =
      match (firstRejection head i xs ext).rejection with
      | some _ => firstRejection head i xs ext
      | none =>
        let rest := firstRejection head (i + xs.length) ys (firstRejection head i xs ext).extensions
        { rest with consulted := (firstRejection head i xs ext).consulted ++ rest.consulted } := by
  induction xs generalizing i ext with
  | nil => rfl
  | cons check xs ih =>
    rw [List.cons_append, firstRejection, firstRejection]
    have hindex : i + (check :: xs).length = i + 1 + xs.length := by
      rw [List.length_cons]
      omega
    rw [hindex]
    cases ((check head).run ext).outcome with
    | reject response => rfl
    | allow =>
      simp only
      rw [ih]
      cases hrej : (firstRejection head (i + 1) xs ((check head).run ext).extensions).rejection with
      | none => rfl
      | some response => simp only [hrej]

theorem firstRejection_makesNone {id : TypeId} {head : RequestHead E}
    {gates : List (RequestHead E → Check E)} (h : ∀ gate ∈ gates, MakesNone id (gate head)) (i : ℕ)
    {ext : RequestExtensions E} {v : E id}
    (hv : (firstRejection head i gates ext).extensions.get id = some v) : ext.get id = some v := by
  induction gates generalizing i ext with
  | nil => exact hv
  | cons check gates ih =>
    obtain ⟨hcheck, hgates⟩ := List.forall_mem_cons.mp h
    rw [firstRejection] at hv
    cases hout : ((check head).run ext).outcome with
    | allow =>
      simp only [hout] at hv
      exact hcheck ext v (ih hgates (i + 1) hv)
    | reject response =>
      simp only [hout] at hv
      exact hcheck ext v hv

theorem firstRejection_leaves {id : TypeId} {head : RequestHead E}
    {gates : List (RequestHead E → Check E)} (h : ∀ gate ∈ gates, Leaves id (gate head)) (i : ℕ)
    (ext : RequestExtensions E) :
    (firstRejection head i gates ext).extensions.get id = ext.get id := by
  induction gates generalizing i ext with
  | nil => rfl
  | cons check gates ih =>
    obtain ⟨hcheck, hgates⟩ := List.forall_mem_cons.mp h
    rw [firstRejection]
    cases ((check head).run ext).outcome with
    | allow => exact (ih hgates (i + 1) _).trans (hcheck ext)
    | reject response => exact hcheck ext

variable {b : Badge E V} {decision : RequestHead E → Except Response V}

theorem run_admissionGate_ok {head : RequestHead E} {v : V} (h : decision head = .ok v)
    (ext : RequestExtensions E) :
    (ext.get b.id = none ∧ ((admissionGate b decision head).run ext).outcome = .allow ∧
        ((admissionGate b decision head).run ext).extensions.get b.id = some (b.make v)) ∨
      ((ext.get b.id).isSome = true ∧ ((admissionGate b decision head).run ext).outcome =
        .reject (HttpResponse.errorResponse 500 "internal_error".toList)) := by
  have hself : Shows ext ext.entries := fun _ => rfl
  obtain ⟨hshows, hok⟩ := shows_insert hself (b.make v)
  unfold admissionGate
  rw [h]
  simp only [Check.run]
  cases hinserted : (ext.insert (b.make v)).1 with
  | ok u =>
    rw [hinserted] at hok
    have hnone : ext.get b.id = none := Option.isNone_iff_eq_none.mp hok.symm
    refine .inl ⟨hnone, rfl, ?_⟩
    show (ext.insert (b.make v)).2.get b.id = _
    rw [hshows b.id, RequestExtensions.getFrom_append]
    rw [RequestExtensions.get] at hnone
    rw [hnone, Option.none_or, RequestExtensions.getFrom, dif_pos rfl]
  | error e =>
    rw [hinserted] at hok
    refine .inr ⟨?_, rfl⟩
    cases hget : ext.get b.id with
    | none =>
      rw [RequestExtensions.get] at hget
      rw [hget] at hok
      cases hok
    | some v => rfl

theorem run_admissionGate_error {head : RequestHead E} {response : Response}
    (h : decision head = .error response) (ext : RequestExtensions E) :
    ((admissionGate b decision head).run ext).outcome = .reject response := by
  unfold admissionGate
  rw [h]
  rfl

def earlier (gates : List (ℕ → RequestHead E → Check E)) (n : ℕ) (head : RequestHead E) :
    Option Response :=
  (firstRejection head 0 (gates.map fun gate => gate n) .new).rejection

section
variable {server : Server E} {pre post : List (ℕ → RequestHead E → Check E)}
  {decide : ℕ → RequestHead E → Except Response V}
  (hgates : server.gates = pre ++ (fun n => admissionGate b (decide n)) :: post)
include hgates

theorem runGates_eq (n : ℕ) (head : RequestHead E) :
    runGates server n head =
      match earlier pre n head with
      | some _ => firstRejection head 0 (pre.map fun gate => gate n) .new
      | none =>
        let before := firstRejection head 0 (pre.map fun gate => gate n) .new
        let rest := firstRejection head pre.length
          (admissionGate b (decide n) :: post.map fun gate => gate n) before.extensions
        { rest with consulted := before.consulted ++ rest.consulted } := by
  rw [runGates, hgates, List.map_append, firstRejection_append, List.length_map, Nat.zero_add]
  rfl

/-- A request is let through with the gate's finding in its container, and the later gates. -/
theorem runGates_allowed {n : ℕ} {head : RequestHead E}
    (h : (runGates server n head).rejection = none) :
    ∃ v ext, decide n head = .ok v ∧ ext.get b.id = some (b.make v) ∧
      (firstRejection head (pre.length + 1) (post.map fun gate => gate n) ext).rejection = none ∧
      (runGates server n head).extensions =
        (firstRejection head (pre.length + 1) (post.map fun gate => gate n) ext).extensions := by
  have heq := runGates_eq hgates n head
  cases hearlier : earlier pre n head with
  | some response =>
    rw [hearlier] at heq
    rw [heq] at h
    rw [earlier, h] at hearlier
    cases hearlier
  | none =>
    rw [hearlier] at heq
    simp only at heq
    generalize (firstRejection head 0 (pre.map fun gate => gate n) .new) = before at heq
    rw [heq] at h ⊢
    cases hdecide : decide n head with
    | error response =>
      have hout := run_admissionGate_error (b := b) hdecide before.extensions
      simp only [firstRejection, hout] at h
      cases h
    | ok v =>
      rcases run_admissionGate_ok (b := b) hdecide before.extensions with
        ⟨-, hout, hget⟩ | ⟨-, hout⟩
      · simp only [firstRejection, hout] at h ⊢
        exact ⟨v, _, rfl, hget, h, rfl⟩
      · simp only [firstRejection, hout] at h
        cases h

theorem runGates_refused {n : ℕ} {head : RequestHead E} {response : Response}
    (h : decide n head = .error response) :
    (runGates server n head).rejection = some ((earlier pre n head).getD response) := by
  have heq := runGates_eq hgates n head
  cases hearlier : earlier pre n head with
  | some response' =>
    rw [hearlier] at heq
    rw [heq]
    exact hearlier
  | none =>
    rw [hearlier] at heq
    have hout := run_admissionGate_error (b := b) h
      (firstRejection head 0 (pre.map fun gate => gate n) .new).extensions
    rw [heq]
    simp only [firstRejection, hout]
    rfl

end

structure Admitted (b : Badge E V) (decision : Except Response V) (earlier : Option Response)
    (es : List (Event E)) : Prop where
  reached : ∀ hook ext, .ran hook ext ∈ es → isMiddleware hook = false →
    ∃ v, decision = .ok v ∧ ∀ v', b.verified ext = some v' → v' = v
  handed : .delegated ∈ es → ∃ v, decision = .ok v
  refused : ∀ response, decision = .error response → ∃ keepAlive done,
    es.filter isWrite = [.responded (.whole (earlier.getD response)) keepAlive done]

section
variable {server : Server E} {pre post : List (ℕ → RequestHead E → Check E)}
  {decide : ℕ → RequestHead E → Except Response V}
  (hgates : server.gates = pre ++ (fun n => admissionGate b (decide n)) :: post)
  {n : ℕ} {request : Request E} {es : List (Event E)} (hlaw : GateLaw server n request es)
include hgates hlaw

theorem gateLaw_admitted (hpost : ∀ gate ∈ post, MakesNone b.id (gate n request.head)) :
    Admitted b (decide n request.head) (earlier pre n request.head) es := by
  cases hrej : (runGates server n request.head).rejection with
  | some response =>
    obtain ⟨-, hmiddleware, hdelegated, keepAlive, done, hwrites⟩ := hlaw.rejected response hrej
    refine ⟨fun hook ext hran hnot => ?_, fun h => absurd h hdelegated, fun response' h => ?_⟩
    · rw [(hmiddleware hook ext hran).1] at hnot
      cases hnot
    · rw [runGates_refused hgates h, Option.some.injEq] at hrej
      rw [hrej]
      exact ⟨keepAlive, done, hwrites⟩
  | none =>
    obtain ⟨v, after, hdecide, hget, -, hext⟩ := runGates_allowed hgates hrej
    refine ⟨fun hook ext hran hnot => ⟨v, hdecide, fun v' hv' => ?_⟩, fun _ => ⟨v, hdecide⟩,
      fun response h => ?_⟩
    · have hshows := (hlaw.allowed hrej).2 hook ext hran (by
        rintro i rfl
        cases hnot)
      have hsame : ext.get b.id = (runGates server n request.head).extensions.get b.id :=
        (hshows b.id).trans ((firstRejection_shows _ _ 0 shows_new).1 b.id).symm
      obtain ⟨w, hw, hheld⟩ := Option.map_eq_some_iff.mp hv'
      rw [hsame, hext] at hw
      have hkept := firstRejection_makesNone (by simpa using hpost) _ hw
      rw [hget, Option.some.injEq] at hkept
      rw [← hheld, ← hkept, b.held_make]
    · rw [h] at hdecide
      cases hdecide

/-- With later gates that leave the finding where it is, it is there. -/
theorem gateLaw_verified (hpost : ∀ gate ∈ post, Leaves b.id (gate n request.head)) {hook : Hook}
    {ext : RequestExtensions E} (hran : .ran hook ext ∈ es) (hnot : isMiddleware hook = false) :
    ∃ v, decide n request.head = .ok v ∧ b.verified ext = some v := by
  cases hrej : (runGates server n request.head).rejection with
  | some response =>
    obtain ⟨-, hmiddleware, -⟩ := hlaw.rejected response hrej
    rw [(hmiddleware hook ext hran).1] at hnot
    cases hnot
  | none =>
    obtain ⟨v, after, hdecide, hget, -, hext⟩ := runGates_allowed hgates hrej
    have hshows := (hlaw.allowed hrej).2 hook ext hran (by
      rintro i rfl
      cases hnot)
    have hsame : ext.get b.id = (runGates server n request.head).extensions.get b.id :=
      (hshows b.id).trans ((firstRejection_shows _ _ 0 shows_new).1 b.id).symm
    have hleaves : ∀ gate ∈ post.map fun gate => gate n, Leaves b.id (gate request.head) := by
      simpa using hpost
    have hleft := firstRejection_leaves hleaves (pre.length + 1) after
    refine ⟨v, hdecide, ?_⟩
    rw [Badge.verified, hsame, hext, hleft, hget, Option.map_some, b.held_make]

end

def secondRejection : Except Response V → Response
  | .ok _ => HttpResponse.errorResponse 500 "internal_error".toList
  | .error response => response

section
variable {server : Server E} {pre mid post : List (ℕ → RequestHead E → Check E)}
  {decide decide' : ℕ → RequestHead E → Except Response V}
  (hgates : server.gates = pre ++ (fun n => admissionGate b (decide n)) ::
    (mid ++ (fun n => admissionGate b (decide' n)) :: post))
include hgates

/-- Whoever passes the first gate finds the place taken at the second one. -/
theorem runGates_twice {n : ℕ} {head : RequestHead E}
    (hmid : ∀ gate ∈ mid, Leaves b.id (gate n head)) :
    (runGates server n head).rejection =
      some ((earlier (pre ++ (fun n => admissionGate b (decide n)) :: mid) n head).getD
        (secondRejection (decide' n head))) := by
  have hsecond : server.gates = (pre ++ (fun n => admissionGate b (decide n)) :: mid) ++
      (fun n => admissionGate b (decide' n)) :: post := by
    rw [hgates, List.append_assoc, List.cons_append]
  have heq := runGates_eq hsecond n head
  cases hearlier : earlier (pre ++ (fun n => admissionGate b (decide n)) :: mid) n head with
  | some response =>
    rw [hearlier] at heq
    rw [heq]
    exact hearlier
  | none =>
    rw [hearlier] at heq
    have hfirst : ({ server with gates := pre ++ (fun n => admissionGate b (decide n)) :: mid } :
      Server E).gates = pre ++ (fun n => admissionGate b (decide n)) :: mid := rfl
    obtain ⟨v, after, -, hget, -, hext⟩ := runGates_allowed hfirst hearlier
    have hleaves : ∀ gate ∈ mid.map fun gate => gate n, Leaves b.id (gate head) := by
      simpa using hmid
    have htaken := (firstRejection_leaves hleaves (pre.length + 1) after).trans hget
    rw [← hext] at htaken
    rw [heq]
    cases hdecide : decide' n head with
    | error response =>
      have hout := run_admissionGate_error (b := b) hdecide (firstRejection head 0
        ((pre ++ (fun n => admissionGate b (decide n)) :: mid).map fun gate => gate n)
        .new).extensions
      simp only [firstRejection, hout]
      rfl
    | ok v' =>
      rcases run_admissionGate_ok (b := b) hdecide (firstRejection head 0
        ((pre ++ (fun n => admissionGate b (decide n)) :: mid).map fun gate => gate n)
        .new).extensions with ⟨hfree, -⟩ | ⟨-, hout⟩
      · cases hfree.symm.trans htaken
      · simp only [firstRejection, hout]
        rfl

theorem gateLaw_twice {n : ℕ} {request : Request E} {es : List (Event E)}
    (hlaw : GateLaw server n request es)
    (hmid : ∀ gate ∈ mid, Leaves b.id (gate n request.head)) :
    (∀ hook ext, .ran hook ext ∈ es → isMiddleware hook = true) ∧ .delegated ∉ es ∧
      ∃ keepAlive done, es.filter isWrite = [.responded (.whole
        ((earlier (pre ++ (fun n => admissionGate b (decide n)) :: mid) n request.head).getD
          (secondRejection (decide' n request.head)))) keepAlive done] := by
  obtain ⟨-, hmiddleware, hdelegated, hwrites⟩ := hlaw.rejected _ (runGates_twice hgates hmid)
  exact ⟨fun hook ext hran => (hmiddleware hook ext hran).1, hdelegated, hwrites⟩

end

end

end FandheBackend.CoreAdmission
