import FandheBackend.WebRtcRegistryLaw
import Mathlib.Data.Finset.Card

set_option autoImplicit false

namespace FandheBackend.WebRtcRegistry
open ActionRuns KeyedList

/-- The connection is being built, or it is built and its close was not started. -/
def Request.Live (r : Request) : Prop :=
  r.build = .running ∨ (r.built = true ∧ r.closing = false)

instance (r : Request) : Decidable r.Live := inferInstanceAs (Decidable (_ ∨ _))

/-- The connection needs a slot now, or the request may start to build it. -/
def Request.Claims (r : Request) : Prop := r.guard = .working ∨ r.Live

theorem Request.claims_of_guard {r r' : Request} (hg : r'.guard ≠ .working)
    (hbuild : r'.build = r.build) (hbuilt : r'.built = r.built)
    (hclosing : r.closing = true → r'.closing = true) (h : r'.Claims) : r.Claims := by
  rcases h with hworking | hrun | ⟨hthere, hopen⟩
  · exact absurd hworking hg
  · exact .inr (.inl (hbuild ▸ hrun))
  · refine .inr (.inr ⟨hbuilt ▸ hthere, Bool.eq_false_iff.mpr fun hclosed => ?_⟩)
    exact absurd (hclosing hclosed) (Bool.eq_false_iff.mp hopen)

namespace Good

section
variable {i : ℕ} {r : Request} {e : Option RegistrySlot}

theorem build_of_working (h : Good i r e) (hg : r.guard = .working) : r.build = .notStarted := by
  cases h with
  | before => rfl
  | failed hg' | failedEnded hg' | held hg' => simp_all
  | _ => cases hg

theorem not_claims_of_task (h : Good i r e) (hb : r.build = .failed ∨ r.build = .closing) :
    ¬ r.Claims := by
  cases h with
  | failed hg => rcases hg with rfl | rfl | rfl <;> simp [Request.Claims, Request.Live]
  | abandonedFailed | abandonedClosing => simp [Request.Claims, Request.Live]
  | _ => simp [Request.idle] at hb

theorem not_live_of_finishing (h : Good i r e) (hg : r.guard = .finishing) : ¬ r.Live := by
  cases h with
  | before | failedEnded | heldFinishing => simp [Request.Live]
  | failed hg' | held hg' => simp_all
  | _ => cases hg

theorem not_live_of_dropping {pc : Bool} (h : Good i r e) (hg : r.guard = .dropping pc) :
    ¬ { r with closing := r.closing || pc }.Live := by
  cases h with
  | before | failed | failedEnded => simp [Request.Live]
  | dropping =>
    cases hg
    simp [Request.Live]
  | held hg' => simp_all
  | _ => cases hg

theorem build_of_activating (h : Good i r e) (hg : r.guard = .activating) : r.build = .ended := by
  cases h with
  | activating => rfl
  | before hg' | failed hg' | failedEnded hg' | held hg' => simp_all
  | _ => cases hg

theorem not_claims_of_over (h : Good i r none) (hg : r.guard = .ended) (hb : r.build = .ended) :
    ¬ r.Claims := by
  rintro (hworking | hrun | ⟨hbuilt, hclosing⟩)
  · exact Guard.noConfusion (hg.symm.trans hworking)
  · exact Build.noConfusion (hb.symm.trans hrun)
  · have hclosed := h.closing_of_over hg (.inr hb) hbuilt
    exact Bool.noConfusion (hclosed.symm.trans hclosing)

theorem not_claims_of_active {pc : ℕ} (h : Good i r (some (.active pc))) :
    ¬ { r with closing := true }.Claims := by
  cases h with
  | active => simp [Request.Claims, Request.Live]
  | _ => simp_all [Unused]

end

end Good

namespace World

/-- A `Closed` or `Failed` of the peer does not come while the slot is still reserved and its
connection lives. -/
def Spares (w : World) : Action → Prop
  | .peerEvent i => find w.registry i = some .reserved → ¬ (w.requests i).Live
  | _ => True

instance (w : World) : (a : Action) → Decidable (w.Spares a)
  | .peerEvent _ => inferInstanceAs (Decidable (_ → _))
  | .reserve | .spawnBuild _ | .buildOk _ | .buildFailed _ | .publish _ | .closeAbandoned _
  | .buildRelease _ | .receive _ | .finish _ | .finishRelease _ | .activate _ | .activateSlot _
  | .drop _ | .dropRelease _ | .takeActive | .beginTerminalDrain => isTrue trivial

def Covered (w : World) : Prop := ∀ i, (w.requests i).Claims → find w.registry i ≠ none

section
variable {max : ℕ} {w w' : World} {i : ℕ}

theorem Covered.of_local (hw : w.Covered) (h : Local i w w')
    (hown : (w'.requests i).Claims → find w'.registry i ≠ none) : w'.Covered := by
  intro j
  by_cases hj : j = i
  · exact hj ▸ hown
  · rw [(h.others j hj).1, (h.others j hj).2]
    exact hw j

theorem Covered.modify (hw : w.Covered) {f : Request → Request}
    (hf : (f (w.requests i)).Claims → (w.requests i).Claims) : (w.modify i f).Covered := by
  intro j
  by_cases hj : j = i
  · rw [hj, modify_requests_self]
    exact fun h => hw i (hf h)
  · rw [modify_requests_ne w f hj]
    exact hw j

theorem releaseSlot_requests (hw : w.Invariant max) (i : ℕ) :
    (w.releaseSlot i).requests i = (w.requests i).released (find w.registry i) := by
  rw [releaseSlot_eq (hw.good i), modify_requests_self]

theorem Covered.release_modify (hcov : w.Covered) (hw : w.Invariant max) {f : Request → Request}
    (hlocal : Local i w ((w.releaseSlot i).modify i f))
    (hf : ¬ (f ((w.requests i).released (find w.registry i))).Claims) :
    ((w.releaseSlot i).modify i f).Covered := by
  refine hcov.of_local hlocal fun h => absurd h ?_
  rw [modify_requests_self, releaseSlot_requests hw]
  exact hf

theorem activateSlot_build (w : World) (i : ℕ) :
    ((w.activateSlot i i).requests i).build = (w.requests i).build := by
  rw [activateSlot]
  split
  · rw [startClose, modify_requests_self]
  · split
    · rfl
    · rw [startClose, modify_requests_self]

theorem Covered.activateSlot (hcov : w.Covered) (hw : w.Invariant max)
    (hg : (w.requests i).guard = .activating) :
    ((w.activateSlot i i).modify i fun r => { r with guard := .ended }).Covered := by
  have hlocal := local_activateSlot hw hg
  refine hcov.of_local hlocal fun hclaims hnone => ?_
  have hgood := hlocal.own.good
  rw [hnone, modify_requests_self] at hgood
  rw [modify_requests_self] at hclaims
  refine hgood.not_claims_of_over rfl ?_ hclaims
  exact (activateSlot_build w i).trans ((hw.good i).build_of_activating hg)

theorem Covered.peerEvent (hcov : w.Covered) (hw : w.Invariant max) (hok : w.Spares (.peerEvent i))
    (hb : (w.requests i).build ≠ .notStarted) : (w.releaseSlot i).Covered := by
  refine hcov.of_local (local_releaseSlot hw i) fun hclaims => ?_
  have hgood := hw.good i
  rw [releaseSlot_requests hw] at hclaims
  cases hfind : find w.registry i with
  | none =>
    rw [hfind] at hclaims
    exact absurd hfind (hcov i hclaims)
  | some slot =>
    rw [hfind] at hclaims hgood
    cases slot with
    | reserved =>
      rcases hclaims with hg | hlive
      · exact absurd (hgood.build_of_working hg) hb
      · exact absurd hlive (hok hfind)
    | active pc => exact absurd hclaims hgood.not_claims_of_active

theorem Covered.takeActivePeers (hcov : w.Covered) (hw : w.Invariant max) :
    w.takeActivePeers.Covered := by
  intro j hclaims
  have hgood := hw.good j
  have hfilter := find_filter hw.ids (fun slot => !slot.isActive) j
  rw [takeActivePeers_requests hw] at hclaims
  rw [show find w.takeActivePeers.registry j = _ from hfilter]
  cases hfind : find w.registry j with
  | none =>
    rw [hfind] at hclaims
    exact absurd hfind (hcov j hclaims)
  | some slot =>
    rw [hfind] at hclaims hgood
    cases slot with
    | reserved => exact Option.some_ne_none _
    | active pc => exact absurd hclaims hgood.not_claims_of_active

theorem Covered.reserveSlot (hcov : w.Covered) (hw : w.Invariant max) : w.reserveSlot.Covered := by
  rcases reserveSlot_eq hw rfl with heq | ⟨-, heq⟩
  · rw [heq]
    exact hcov
  · intro j
    rw [heq]
    dsimp only
    rw [find_reserved hw]
    by_cases hj : j = w.nextSlotId
    · rw [if_pos hj]
      exact fun _ => Option.some_ne_none _
    · rw [if_neg hj, Function.update_of_ne hj]
      exact hcov j

theorem Covered.step (hcov : w.Covered) (hw : w.Invariant max) {a : Action} (hok : w.Spares a)
    (h : w.step a = some w') : w'.Covered := by
  cases a with
  | spawnBuild i =>
    obtain ⟨hg, ⟨⟩⟩ := Option.ite_none_right_eq_some.mp h
    exact hcov.modify fun _ => .inl hg
  | buildOk i | buildFailed i =>
    obtain ⟨hb, ⟨⟩⟩ := Option.ite_none_right_eq_some.mp h
    exact hcov.modify fun _ => .inr (.inl hb)
  | publish i =>
    obtain ⟨hb, ⟨⟩⟩ := Option.ite_none_right_eq_some.mp h
    refine hcov.modify ?_
    split <;> rintro (hg | hrun | hlive)
    all_goals first | exact .inl hg | cases hrun | exact .inr (.inr hlive)
  | closeAbandoned i =>
    obtain ⟨hb, ⟨⟩⟩ := Option.ite_none_right_eq_some.mp h
    rw [startClose, modify_modify]
    refine hcov.modify ?_
    rintro (hg | hrun | ⟨-, hclosing⟩)
    · exact .inl hg
    · cases hrun
    · cases hclosing
  | receive i =>
    obtain ⟨-, ⟨⟩⟩ := Option.ite_none_right_eq_some.mp h
    exact hcov.modify (Request.claims_of_guard Guard.noConfusion rfl rfl id)
  | activate i =>
    obtain ⟨-, ⟨⟩⟩ := Option.ite_none_right_eq_some.mp h
    refine hcov.modify ?_
    split <;> exact Request.claims_of_guard Guard.noConfusion rfl rfl id
  | finish i =>
    obtain ⟨-, ⟨⟩⟩ := Option.ite_none_right_eq_some.mp h
    refine hcov.modify (Request.claims_of_guard Guard.noConfusion rfl rfl fun hclosing => ?_)
    exact (Bool.or_eq_true _ _).mpr (.inl hclosing)
  | drop i =>
    rw [World.step] at h
    split at h
    case h_6 => cases h
    all_goals
      cases h
      refine hcov.modify ?_
      split <;> exact Request.claims_of_guard Guard.noConfusion rfl rfl id
  | buildRelease i =>
    have hlocal := local_step hw (i := i) rfl h
    obtain ⟨hb, ⟨⟩⟩ := Option.ite_none_right_eq_some.mp h
    refine hcov.release_modify hw hlocal ?_
    have hnot := ((hw.good i).release).not_claims_of_task (by rwa [Request.released_build])
    rintro (hg | hrun | hlive)
    · exact hnot (.inl hg)
    · cases hrun
    · exact hnot (.inr (.inr hlive))
  | finishRelease i =>
    have hlocal := local_step hw (i := i) rfl h
    obtain ⟨hg, ⟨⟩⟩ := Option.ite_none_right_eq_some.mp h
    refine hcov.release_modify hw hlocal ?_
    have hnot := ((hw.good i).release).not_live_of_finishing ((Request.released_guard _ _).trans hg)
    exact fun hclaims => hclaims.elim Guard.noConfusion hnot
  | dropRelease i =>
    have hlocal := local_step hw (i := i) rfl h
    rw [World.step] at h
    split at h
    · next pc hg =>
      cases h
      refine hcov.release_modify hw hlocal ?_
      have hnot := ((hw.good i).release).not_live_of_dropping ((Request.released_guard _ _).trans hg)
      exact fun hclaims => hclaims.elim Guard.noConfusion hnot
    · cases h
  | activateSlot i =>
    obtain ⟨hg, ⟨⟩⟩ := Option.ite_none_right_eq_some.mp h
    exact hcov.activateSlot hw hg
  | peerEvent i =>
    obtain ⟨hb, ⟨⟩⟩ := Option.ite_none_left_eq_some.mp h
    exact hcov.peerEvent hw hok hb
  | reserve =>
    cases h
    exact hcov.reserveSlot hw
  | takeActive =>
    cases h
    exact hcov.takeActivePeers hw
  | beginTerminalDrain =>
    cases h
    exact hcov

theorem Covered.card_le (hcov : w.Covered) (hw : w.Invariant max) (s : Finset ℕ)
    (hs : ∀ i ∈ s, (w.requests i).Live) : s.card ≤ max := by
  have hsub : s ⊆ (keys w.registry).toFinset := by
    intro i hi
    rw [List.mem_toFinset]
    by_contra hnot
    exact hcov i (.inr (hs i hi)) (find_eq_none hnot)
  calc
    s.card ≤ (keys w.registry).toFinset.card := Finset.card_le_card hsub
    _ ≤ (keys w.registry).length := List.toFinset_card_le _
    _ = w.registry.length := List.length_map _
    _ ≤ max := hw.size

/-- As long as no `Closed` or `Failed` takes the reserved slot of a connection that lives, the
connections that live are no more than the limit. -/
theorem live_le_max (max : ℕ) {as : List Action} {w : World}
    (h : run step as (new max) = some w) (hok : Along step Spares as (new max))
    (s : Finset ℕ) (hs : ∀ i ∈ s, (w.requests i).Live) : s.card ≤ max := by
  obtain ⟨hw, hcov⟩ : w.Invariant max ∧ w.Covered := by
    refine run_invariant_along (fun u => u.Invariant max ∧ u.Covered) Spares
      (fun hu hok hstep => ⟨hu.1.step hstep, hu.2.step hu.1 hok hstep⟩) ⟨?_, ?_⟩ hok h
    · exact invariant_run (show run step [] (new max) = some _ from rfl)
    · rintro i (hg | hrun | ⟨hbuilt, -⟩)
      · cases hg
      · cases hrun
      · cases hbuilt
  exact hcov.card_le hw s hs

def spareActions : List Action :=
  [.reserve, .spawnBuild 0, .reserve, .buildOk 0, .publish 0, .receive 0, .activate 0,
    .activateSlot 0, .spawnBuild 1, .peerEvent 0, .reserve, .spawnBuild 2]

theorem live_le_max_spare :
    ∃ w, run step spareActions (new 2) = some w ∧ Along step Spares spareActions (new 2) ∧
      (w.requests 1).Live ∧ (w.requests 2).Live ∧
      ∀ s : Finset ℕ, (∀ i ∈ s, (w.requests i).Live) → s.card ≤ 2 := by
  have halong : Along step Spares spareActions (new 2) :=
    along_of_checkAlong (fun {w a} (h : decide (w.Spares a) = true) => of_decide_eq_true h) rfl
  refine ⟨_, rfl, halong, .inl rfl, .inl rfl, fun s hs => ?_⟩
  exact live_le_max 2 (show run step spareActions (new 2) = some _ from rfl) halong s hs

/-- `Failed` comes between the build and the answer: the slot is free while the request still
holds the connection, and the next offer gets it. -/
theorem two_live_of_one :
    ∃ (as : List Action) (w : World), run step as (new 1) = some w ∧
      ∃ s : Finset ℕ, (∀ i ∈ s, (w.requests i).Live) ∧ 1 < s.card := by
  refine ⟨[.reserve, .spawnBuild 0, .buildOk 0, .publish 0, .peerEvent 0, .reserve, .spawnBuild 1],
    _, rfl, {0, 1}, fun i hi => ?_, by decide⟩
  rcases Finset.mem_insert.mp hi with rfl | hi
  · exact .inr ⟨rfl, rfl⟩
  · obtain rfl := Finset.mem_singleton.mp hi
    exact .inl rfl

end

end World

end FandheBackend.WebRtcRegistry
