import FandheBackend.WebRtcRegistry

set_option autoImplicit false

namespace FandheBackend.WebRtcRegistry
open ActionRuns KeyedList

def Unused (e : Option RegistrySlot) : Prop := e = none ∨ e = some .reserved

/-- What a request can be, with the entry of its slot. -/
inductive Good (i : ℕ) : Request → Option RegistrySlot → Prop
  | absent : Good i .idle none
  | before {g : Guard} {e : Option RegistrySlot}
      (hg : g = .working ∨ g = .finishing ∨ g = .dropping false) (he : Unused e) :
      Good i ⟨.empty, g, .notStarted, false, false⟩ e
  | gone : Good i ⟨.empty, .ended, .notStarted, false, false⟩ none
  | building {e : Option RegistrySlot} (he : Unused e) :
      Good i ⟨.building, .waiting, .running, false, false⟩ e
  | built {e : Option RegistrySlot} (he : Unused e) :
      Good i ⟨.building, .waiting, .built, true, false⟩ e
  | abandonedBuilding {e : Option RegistrySlot} (he : Unused e) :
      Good i ⟨.abandoned, .ended, .running, false, false⟩ e
  | abandonedBuilt {e : Option RegistrySlot} (he : Unused e) :
      Good i ⟨.abandoned, .ended, .built, true, false⟩ e
  | abandoned {e : Option RegistrySlot} (he : Unused e) :
      Good i ⟨.abandoned, .ended, .abandoned, true, false⟩ e
  | abandonedClosing {e : Option RegistrySlot} (he : Unused e) :
      Good i ⟨.abandoned, .ended, .closing, true, true⟩ e
  | failed {g : Guard} {e : Option RegistrySlot}
      (hg : g = .waiting ∨ g = .dropping false ∨ g = .ended) (he : Unused e) :
      Good i ⟨.empty, g, .failed, false, false⟩ e
  | abandonedFailed {e : Option RegistrySlot} (he : Unused e) :
      Good i ⟨.abandoned, .ended, .failed, false, false⟩ e
  | failedEnded {g : Guard}
      (hg : g = .waiting ∨ g = .finishing ∨ g = .dropping false ∨ g = .ended) :
      Good i ⟨.empty, g, .ended, false, false⟩ none
  | abandonedEnded {b : Bool} : Good i ⟨.abandoned, .ended, .ended, b, b⟩ none
  | held {g : Guard} {e : Option RegistrySlot} (hg : g = .waiting ∨ g = .signaling) (he : Unused e) :
      Good i ⟨.held, g, .ended, true, false⟩ e
  | heldFinishing {e : Option RegistrySlot} (he : Unused e) :
      Good i ⟨.held, .finishing, .ended, true, true⟩ e
  | heldEnded : Good i ⟨.held, .ended, .ended, true, true⟩ none
  | activating {e : Option RegistrySlot} (he : Unused e) :
      Good i ⟨.empty, .activating, .ended, true, false⟩ e
  | dropping {c : Bool} {e : Option RegistrySlot} (he : Unused e) :
      Good i ⟨.empty, .dropping true, .ended, true, c⟩ e
  | active : Good i ⟨.empty, .ended, .ended, true, false⟩ (some (.active i))
  | closed : Good i ⟨.empty, .ended, .ended, true, true⟩ none

/-- What `release_slot` does to the request of the slot. -/
def Request.released (r : Request) : Option RegistrySlot → Request
  | some (.active _) => { r with closing := true }
  | _ => r

theorem Request.released_build (r : Request) (e : Option RegistrySlot) :
    (r.released e).build = r.build := by
  unfold released
  split <;> rfl

theorem Request.released_guard (r : Request) (e : Option RegistrySlot) :
    (r.released e).guard = r.guard := by
  unfold released
  split <;> rfl

theorem Request.released_built (r : Request) (e : Option RegistrySlot) :
    (r.released e).built = r.built := by
  unfold released
  split <;> rfl

theorem Request.released_closing {r : Request} (e : Option RegistrySlot) (h : r.closing = true) :
    (r.released e).closing = true := by
  unfold released
  split
  · rfl
  · exact h

structure Next (i : ℕ) (r r' : Request) (e e' : Option RegistrySlot) : Prop where
  good : Good i r' e'
  built : r.built = true → r'.built = true
  closing : r.closing = true → r'.closing = true
  removed : ∀ pc, e = some (.active pc) → e' = e ∨ r'.closing = true

namespace Good

section
variable {i : ℕ} {r : Request} {e : Option RegistrySlot}

theorem unchanged (h : Good i r e) : Next i r r e e := ⟨h, id, id, fun _ _ => .inl rfl⟩

theorem moved {r' : Request} (h : Good i r' e) (hbuilt : r.built = true → r'.built = true)
    (hclosing : r.closing = true → r'.closing = true) : Next i r r' e e :=
  ⟨h, hbuilt, hclosing, fun _ _ => .inl rfl⟩

theorem spawnBuild (h : Good i r e) (hg : r.guard = .working) :
    Good i { r with pc := .building, guard := .waiting, build := .running } e := by
  cases h with
  | before _ he => exact .building he
  | failed hg' _ | failedEnded hg' | held hg' _ => simp_all
  | _ => cases hg

theorem buildOk (h : Good i r e) (hb : r.build = .running) :
    Good i { r with build := .built, built := true } e := by
  cases h with
  | building he => exact .built he
  | abandonedBuilding he => exact .abandonedBuilt he
  | _ => cases hb

theorem buildFailed (h : Good i r e) (hb : r.build = .running) :
    Good i { r with pc := if r.pc = .building then .empty else r.pc, build := .failed } e := by
  cases h with
  | building he => exact .failed (.inl rfl) he
  | abandonedBuilding he => exact .abandonedFailed he
  | _ => cases hb

theorem publish (h : Good i r e) (hb : r.build = .built) :
    Good i (if r.pc = .building then { r with pc := .held, build := .ended }
      else { r with build := .abandoned }) e := by
  cases h with
  | built he => exact .held (.inl rfl) he
  | abandonedBuilt he => exact .abandoned he
  | _ => cases hb

theorem closeAbandoned (h : Good i r e) (hb : r.build = .abandoned) :
    Good i { r with closing := true, build := .closing } e := by
  cases h with
  | abandoned he => exact .abandonedClosing he
  | _ => cases hb

theorem receive (h : Good i r e) (hb : r.build = .ended) (hpc : r.pc = .held)
    (hg : r.guard = .waiting) : Good i { r with guard := .signaling } e := by
  cases h with
  | held _ he => exact .held (.inr rfl) he
  | heldFinishing | heldEnded => cases hg
  | _ => cases hpc

theorem finish (h : Good i r e)
    (hg : r.guard = .working ∨ r.guard = .signaling ∨
      (r.guard = .waiting ∧ r.build = .ended ∧ r.pc ≠ .held)) :
    Good i { r with guard := .finishing, closing := r.closing || r.pc == .held } e := by
  cases h with
  | before _ he => exact .before (.inr (.inl rfl)) he
  | failedEnded _ => exact .failedEnded (.inr (.inl rfl))
  | held _ he => exact .heldFinishing he
  | failed hg' _ => rcases hg' with rfl | rfl | rfl <;> simp at hg
  | _ => simp [Request.idle] at hg

theorem activate (h : Good i r e) (hg : r.guard = .signaling) :
    Good i (if r.pc = .held then { r with pc := .empty, guard := .activating }
      else { r with guard := .returning }) e := by
  cases h with
  | held _ he => exact .activating he
  | before hg' _ | failed hg' _ | failedEnded hg' => simp_all
  | _ => cases hg

theorem drop (h : Good i r e) (hg : r.guard ≠ .absent) (hended : r.guard ≠ .ended)
    (hactivating : r.guard ≠ .activating) (hdropping : ∀ pc, r.guard ≠ .dropping pc) :
    Good i (match r.pc with
      | .building => { r with pc := .abandoned, guard := .ended }
      | .held => { r with pc := .empty, guard := .dropping true }
      | .empty | .abandoned => { r with pc := .empty, guard := .dropping false }) e := by
  cases h with
  | absent => exact absurd rfl hg
  | before _ he => exact .before (.inr (.inr rfl)) he
  | building he => exact .abandonedBuilding he
  | built he => exact .abandonedBuilt he
  | failed _ he => exact .failed (.inr (.inl rfl)) he
  | failedEnded _ => exact .failedEnded (.inr (.inr (.inl rfl)))
  | held _ he | heldFinishing he => exact .dropping he
  | activating => exact absurd rfl hactivating
  | dropping => exact absurd rfl (hdropping true)
  | _ => exact absurd rfl hended

theorem release (h : Good i r e) : Good i (r.released e) none := by
  cases h with
  | absent => exact .absent
  | gone => exact .gone
  | failedEnded hg => exact .failedEnded hg
  | abandonedEnded => exact .abandonedEnded
  | heldEnded => exact .heldEnded
  | active | closed => exact .closed
  | before hg he => rcases he with rfl | rfl <;> exact .before hg (.inl rfl)
  | failed hg he => rcases he with rfl | rfl <;> exact .failed hg (.inl rfl)
  | held hg he => rcases he with rfl | rfl <;> exact .held hg (.inl rfl)
  | building he | built he | abandonedBuilding he | abandonedBuilt he | abandoned he
  | abandonedClosing he | abandonedFailed he | heldFinishing he | activating he | dropping he =>
    rcases he with rfl | rfl <;> constructor <;> exact .inl rfl

theorem buildRelease (h : Good i r none) (hb : r.build = .failed ∨ r.build = .closing) :
    Good i { r with build := .ended } none := by
  cases h with
  | failed hg _ => exact .failedEnded (hg.elim .inl fun hg => .inr (.inr hg))
  | abandonedFailed | abandonedClosing => exact .abandonedEnded
  | _ => simp [Request.idle] at hb

theorem finishRelease (h : Good i r none) (hg : r.guard = .finishing) :
    Good i { r with guard := .ended } none := by
  cases h with
  | before => exact .gone
  | failedEnded => exact .failedEnded (.inr (.inr (.inr rfl)))
  | heldFinishing => exact .heldEnded
  | failed hg' _ | held hg' _ => simp_all
  | _ => cases hg

theorem dropRelease {pc : Bool} (h : Good i r none) (hg : r.guard = .dropping pc) :
    Good i { r with guard := .ended, closing := r.closing || pc } none := by
  cases h with
  | before hg' _ =>
    obtain rfl : pc = false := by simp_all
    exact .gone
  | failed hg' he =>
    obtain rfl : pc = false := by simp_all
    exact .failed (.inr (.inr rfl)) he
  | failedEnded hg' =>
    obtain rfl : pc = false := by simp_all
    exact .failedEnded (.inr (.inr (.inr rfl)))
  | dropping =>
    cases hg
    rw [Bool.or_true]
    exact .closed
  | held hg' _ => simp_all
  | _ => cases hg

theorem activated (h : Good i r e) (hg : r.guard = .activating) :
    Good i { r with guard := .ended } (some (.active i)) := by
  cases h with
  | activating => exact .active
  | before hg' _ | failed hg' _ | failedEnded hg' | held hg' _ => simp_all
  | _ => cases hg

theorem rejected (h : Good i r e) (hg : r.guard = .activating) :
    Good i { r with closing := true, guard := .ended } none := by
  cases h with
  | activating => exact .closed
  | before hg' _ | failed hg' _ | failedEnded hg' | held hg' _ => simp_all
  | _ => cases hg

theorem eq_of_active {pc : ℕ} (h : Good i r (some (.active pc))) : pc = i := by
  cases h with
  | active => rfl
  | _ => simp_all [Unused]

theorem entry_of_idle (h : Good i .idle e) : e = none := by
  cases h with
  | absent => rfl
  | before hg => exact hg.elim (fun h => nomatch h) (·.elim (fun h => nomatch h) fun h => nomatch h)

theorem not_active_of_guard (h : Good i r e) (hg : r.guard ≠ .ended) (pc : ℕ) :
    e ≠ some (.active pc) := by
  intro heq
  subst heq
  cases h with
  | active => exact hg rfl
  | _ => simp_all [Unused]

end

end Good

def Action.request : Action → Option ℕ
  | .spawnBuild i | .buildOk i | .buildFailed i | .publish i | .closeAbandoned i | .buildRelease i
  | .receive i | .finish i | .finishRelease i | .activate i | .activateSlot i | .drop i
  | .dropRelease i | .peerEvent i => some i
  | .reserve | .takeActive | .beginTerminalDrain => none

namespace World

structure Invariant (max : ℕ) (w : World) : Prop where
  limit : w.maxPeerConnections = max
  size : w.registry.length ≤ max
  ids : (keys w.registry).Nodup
  fresh : ∀ i, w.nextSlotId ≤ i → w.requests i = .idle
  good : ∀ i, Good i (w.requests i) (find w.registry i)
  drained : w.drained = true →
    w.terminalDraining = true ∧ ∀ i pc, find w.registry i ≠ some (.active pc)

/-- A step of one request, which leaves the others and their entries as they are. -/
structure Local (i : ℕ) (w w' : World) : Prop where
  limit : w'.maxPeerConnections = w.maxPeerConnections
  next : w'.nextSlotId = w.nextSlotId
  draining : w'.terminalDraining = w.terminalDraining
  drained : w'.drained = w.drained
  sublist : (keys w'.registry).Sublist (keys w.registry)
  others : ∀ j, j ≠ i → w'.requests j = w.requests j ∧ find w'.registry j = find w.registry j
  own : Next i (w.requests i) (w'.requests i) (find w.registry i) (find w'.registry i)
  filled : ∀ pc, find w'.registry i = some (.active pc) →
    w.terminalDraining = false ∨ find w.registry i = some (.active pc)

section
variable {max : ℕ} {w w' w'' : World} {i : ℕ}

theorem Local.next_all (h : Local i w w') (hw : w.Invariant max) (j : ℕ) :
    Next j (w.requests j) (w'.requests j) (find w.registry j) (find w'.registry j) := by
  by_cases hj : j = i
  · exact hj ▸ h.own
  · rw [(h.others j hj).1, (h.others j hj).2]
    exact (hw.good j).unchanged

theorem Local.invariant (h : Local i w w') (hw : w.Invariant max) (hi : w.requests i ≠ .idle) :
    w'.Invariant max where
  limit := h.limit.trans hw.limit
  size := by
    have hlength := h.sublist.length_le
    rw [keys, keys, List.length_map, List.length_map] at hlength
    exact Nat.le_trans hlength hw.size
  ids := h.sublist.nodup hw.ids
  fresh j hj := by
    rw [h.next] at hj
    have hne : j ≠ i := fun heq => hi (heq ▸ hw.fresh j hj)
    rw [(h.others j hne).1]
    exact hw.fresh j hj
  good j := (h.next_all hw j).good
  drained hdrained := by
    obtain ⟨hdraining, hnone⟩ := hw.drained (h.drained ▸ hdrained)
    refine ⟨h.draining ▸ hdraining, fun j pc => ?_⟩
    by_cases hj : j = i
    · subst hj
      intro hactive
      rcases h.filled pc hactive with hfalse | hbefore
      · rw [hdraining] at hfalse
        cases hfalse
      · exact hnone j pc hbefore
    · rw [(h.others j hj).2]
      exact hnone j pc

theorem Local.trans (h : Local i w w') (h' : Local i w' w'') : Local i w w'' where
  limit := h'.limit.trans h.limit
  next := h'.next.trans h.next
  draining := h'.draining.trans h.draining
  drained := h'.drained.trans h.drained
  sublist := h'.sublist.trans h.sublist
  others j hj := ⟨(h'.others j hj).1.trans (h.others j hj).1,
    (h'.others j hj).2.trans (h.others j hj).2⟩
  own :=
    { good := h'.own.good
      built := h'.own.built ∘ h.own.built
      closing := h'.own.closing ∘ h.own.closing
      removed := fun pc hpc => by
        rcases h.own.removed pc hpc with heq | hclosing
        · rcases h'.own.removed pc (heq.trans hpc) with heq' | hclosing
          · exact .inl (heq'.trans heq)
          · exact .inr hclosing
        · exact .inr (h'.own.closing hclosing) }
  filled pc hpc := by
    rcases h'.filled pc hpc with hdraining | hbefore
    · exact .inl (h.draining ▸ hdraining)
    · exact h.filled pc hbefore

theorem modify_requests_self (w : World) (i : ℕ) (f : Request → Request) :
    (w.modify i f).requests i = f (w.requests i) := Function.update_self ..

theorem modify_requests_ne (w : World) (f : Request → Request) {j : ℕ} (hj : j ≠ i) :
    (w.modify i f).requests j = w.requests j := Function.update_of_ne hj ..

theorem local_modify {f : Request → Request}
    (hgood : Good i (f (w.requests i)) (find w.registry i))
    (hbuilt : (w.requests i).built = true → (f (w.requests i)).built = true)
    (hclosing : (w.requests i).closing = true → (f (w.requests i)).closing = true) :
    Local i w (w.modify i f) where
  limit := rfl
  next := rfl
  draining := rfl
  drained := rfl
  sublist := List.Sublist.refl _
  others _ hj := ⟨modify_requests_ne w f hj, rfl⟩
  own := by
    rw [modify_requests_self]
    exact hgood.moved hbuilt hclosing
  filled _ hpc := .inr hpc

/-- `release_slot` in one line, where the entry of a slot has no connection but its own. -/
theorem releaseSlot_eq (hgood : Good i (w.requests i) (find w.registry i)) :
    w.releaseSlot i =
      { w with registry := erase i w.registry }.modify i (·.released (find w.registry i)) := by
  rw [releaseSlot]
  split
  · next hnone =>
    rw [modify, erase_eq_self hnone, hnone]
    exact congrArg (fun q => { w with requests := q }) (Function.update_eq_self i _).symm
  · next hreserved =>
    rw [hreserved]
    exact congrArg (fun q => { w with registry := erase i w.registry, requests := q })
      (Function.update_eq_self i _).symm
  · next pc hactive =>
    rw [hactive] at hgood ⊢
    rw [hgood.eq_of_active]
    rfl

theorem local_releaseSlot (hw : w.Invariant max) (i : ℕ) : Local i w (w.releaseSlot i) := by
  rw [releaseSlot_eq (hw.good i)]
  have herase : find (erase i w.registry) i = none := by rw [find_erase hw.ids, if_pos rfl]
  exact
    { limit := rfl
      next := rfl
      draining := rfl
      drained := rfl
      sublist := (erase_sublist w.registry i).map Prod.fst
      others := fun j hj => by
        refine ⟨modify_requests_ne _ _ hj, ?_⟩
        exact (find_erase hw.ids i j).trans (if_neg hj)
      own := by
        rw [modify_requests_self]
        refine ⟨?_, ?_, Request.released_closing _, fun pc hpc => .inr ?_⟩
        · exact herase ▸ (hw.good i).release
        · rw [Request.released_built]
          exact id
        · rw [hpc]
          rfl
      filled := fun pc hpc => by
        exact nomatch herase.symm.trans hpc }

theorem local_release_modify (hw : w.Invariant max) {f : Request → Request}
    (hgood : Good i ((w.requests i).released (find w.registry i)) none →
      Good i (f ((w.requests i).released (find w.registry i))) none)
    (hbuilt : ∀ r : Request, r.built = true → (f r).built = true)
    (hclosing : ∀ r : Request, r.closing = true → (f r).closing = true) :
    Local i w ((w.releaseSlot i).modify i f) := by
  have hrelease := local_releaseSlot hw i
  refine hrelease.trans (local_modify ?_ (hbuilt _) (hclosing _))
  rw [releaseSlot_eq (hw.good i), modify_requests_self]
  have hnone : find (erase i w.registry) i = none := by rw [find_erase hw.ids, if_pos rfl]
  exact hnone.symm ▸ hgood (hw.good i).release

theorem local_activateSlot (hw : w.Invariant max) (hg : (w.requests i).guard = .activating) :
    Local i w ((w.activateSlot i i).modify i fun r => { r with guard := .ended }) := by
  have hgood := hw.good i
  have hunused := hgood.not_active_of_guard (by rw [hg]; exact Guard.noConfusion)
  have hrejected : ∀ l, (keys l).Sublist (keys w.registry) → find l i = none →
      (∀ j, j ≠ i → find l j = find w.registry j) →
      Local i w (({ w with registry := l }.startClose i).modify i
        fun r => { r with guard := .ended }) := by
    intro l hsub hnone hothers
    refine ⟨rfl, rfl, rfl, rfl, hsub, fun j hj => ⟨?_, hothers j hj⟩, ?_, fun pc hpc => ?_⟩
    · rw [modify_requests_ne _ _ hj, startClose, modify_requests_ne _ _ hj]
    · rw [modify_requests_self, startClose, modify_requests_self]
      exact ⟨hnone.symm ▸ hgood.rejected hg, id, fun _ => rfl, fun _ _ => .inr rfl⟩
    · exact nomatch hnone.symm.trans hpc
  rw [activateSlot]
  split
  · have hfilter := find_filter_key w.registry i
    exact hrejected _ (List.filter_sublist.map Prod.fst) ((hfilter i).trans (if_pos rfl))
      fun j hj => (hfilter j).trans (if_neg hj)
  · next hdraining =>
    split
    · next slot hslot =>
      have hset : find (set i (RegistrySlot.active i) w.registry) i = some (.active i) := by
        rw [find_set, if_pos rfl, hslot, Option.map_some]
      refine ⟨rfl, rfl, rfl, rfl, ?_, fun j hj => ⟨modify_requests_ne _ _ hj, ?_⟩, ?_,
        fun _ _ => .inl (Bool.eq_false_iff.mpr hdraining)⟩
      · exact (keys_set w.registry i _).symm ▸ List.Sublist.refl _
      · exact (find_set w.registry i j _).trans (if_neg hj)
      · rw [modify_requests_self]
        exact ⟨hset.symm ▸ hgood.activated hg, id, id, fun pc hpc => absurd hpc (hunused pc)⟩
    · next hnone => exact hrejected w.registry (List.Sublist.refl _) hnone fun _ _ => rfl

theorem modify_modify (w : World) (i : ℕ) (f g : Request → Request) :
    (w.modify i f).modify i g = w.modify i (g ∘ f) := by
  simp [modify]

/-- What a step of a request can do, one case for each action. -/
theorem local_step (hw : w.Invariant max) {a : Action} (ha : a.request = some i)
    (h : w.step a = some w') : Local i w w' := by
  have hgood := hw.good i
  cases a with
  | reserve | takeActive | beginTerminalDrain => cases ha
  | spawnBuild j =>
    cases ha
    obtain ⟨hg, ⟨⟩⟩ := Option.ite_none_right_eq_some.mp h
    exact local_modify (hgood.spawnBuild hg) id id
  | buildOk j =>
    cases ha
    obtain ⟨hb, ⟨⟩⟩ := Option.ite_none_right_eq_some.mp h
    exact local_modify (hgood.buildOk hb) (fun _ => rfl) id
  | buildFailed j =>
    cases ha
    obtain ⟨hb, ⟨⟩⟩ := Option.ite_none_right_eq_some.mp h
    exact local_modify (hgood.buildFailed hb) id id
  | publish j =>
    cases ha
    obtain ⟨hb, ⟨⟩⟩ := Option.ite_none_right_eq_some.mp h
    refine local_modify (hgood.publish hb) ?_ ?_ <;> split <;> exact id
  | closeAbandoned j =>
    cases ha
    obtain ⟨hb, ⟨⟩⟩ := Option.ite_none_right_eq_some.mp h
    rw [startClose, modify_modify]
    exact local_modify (hgood.closeAbandoned hb) id fun _ => rfl
  | buildRelease j =>
    cases ha
    obtain ⟨hb, ⟨⟩⟩ := Option.ite_none_right_eq_some.mp h
    refine local_release_modify hw (fun hfree => hfree.buildRelease ?_) (fun _ => id) fun _ => id
    rw [Request.released_build]
    exact hb
  | receive j =>
    cases ha
    obtain ⟨⟨hg, hb, hpc⟩, ⟨⟩⟩ := Option.ite_none_right_eq_some.mp h
    exact local_modify (hgood.receive hb hpc hg) id id
  | finish j =>
    cases ha
    obtain ⟨hg, ⟨⟩⟩ := Option.ite_none_right_eq_some.mp h
    exact local_modify (hgood.finish hg) id fun hclosing => by rw [hclosing, Bool.true_or]
  | finishRelease j =>
    cases ha
    obtain ⟨hg, ⟨⟩⟩ := Option.ite_none_right_eq_some.mp h
    refine local_release_modify hw (fun hfree => hfree.finishRelease ?_) (fun _ => id) fun _ => id
    rw [Request.released_guard]
    exact hg
  | activate j =>
    cases ha
    obtain ⟨hg, ⟨⟩⟩ := Option.ite_none_right_eq_some.mp h
    refine local_modify (hgood.activate hg) ?_ ?_ <;> split <;> exact id
  | activateSlot j =>
    cases ha
    obtain ⟨hg, ⟨⟩⟩ := Option.ite_none_right_eq_some.mp h
    exact local_activateSlot hw hg
  | drop j =>
    cases ha
    rw [World.step] at h
    split at h
    case h_6 => cases h
    all_goals
      next hg =>
      cases h
      refine local_modify (hgood.drop ?_ ?_ ?_ fun pc => ?_) ?_ ?_
      iterate 4 rw [hg]; exact Guard.noConfusion
      iterate 2 split <;> exact id
  | dropRelease j =>
    cases ha
    rw [World.step] at h
    split at h
    · next pc hg =>
      cases h
      refine local_release_modify hw (fun hfree => hfree.dropRelease ?_) (fun _ => id)
        fun _ hclosing => by rw [hclosing, Bool.true_or]
      rw [Request.released_guard]
      exact hg
    · cases h
  | peerEvent j =>
    cases ha
    obtain ⟨-, ⟨⟩⟩ := Option.ite_none_left_eq_some.mp h
    exact local_releaseSlot hw i

theorem started_of_step {a : Action} (ha : a.request = some i) (h : w.step a = some w') :
    w.requests i ≠ .idle := by
  intro hidle
  cases a <;> cases ha <;> simp [World.step, hidle, Request.idle] at h

section Reserve
variable (hw : w.Invariant max) (hroom : w.registry.length < max)
include hw

theorem find_reserved (j : ℕ) :
    find (w.registry ++ [(w.nextSlotId, RegistrySlot.reserved)]) j =
      if j = w.nextSlotId then some .reserved else find w.registry j := by
  have hnone : find w.registry w.nextSlotId = none := by
    have hgood := hw.good w.nextSlotId
    rw [hw.fresh _ (Nat.le_refl _)] at hgood
    exact hgood.entry_of_idle
  rw [find_append]
  by_cases hj : j = w.nextSlotId
  · rw [hj, hnone, if_pos rfl]
    simp [find]
  · rw [if_neg hj]
    simp [find, Ne.symm hj]

theorem reserveSlot_eq (h : w.reserveSlot = w') :
    w' = w ∨ (w.registry.length < max ∧ w' = { w with
      registry := w.registry ++ [(w.nextSlotId, .reserved)], nextSlotId := w.nextSlotId + 1,
      requests := Function.update w.requests w.nextSlotId
        ⟨.empty, .working, .notStarted, false, false⟩ }) := by
  subst h
  rw [World.reserveSlot, hw.limit]
  split
  · exact .inl rfl
  · next hroom => exact .inr ⟨Nat.lt_of_not_le hroom, rfl⟩

theorem next_reserveSlot (j : ℕ) :
    Next j (w.requests j) (w.reserveSlot.requests j) (find w.registry j)
      (find w.reserveSlot.registry j) := by
  rcases reserveSlot_eq hw rfl with heq | ⟨-, heq⟩
  · rw [heq]
    exact (hw.good j).unchanged
  · rw [heq]
    dsimp only
    rw [find_reserved hw]
    by_cases hj : j = w.nextSlotId
    · have hidle := hw.fresh j (Nat.le_of_eq hj.symm)
      have hnone : find w.registry j = none := (hidle ▸ hw.good j).entry_of_idle
      rw [if_pos hj, hidle, hnone, hj, Function.update_self]
      exact ⟨.before (.inl rfl) (.inr rfl), id, id, fun _ h => nomatch h⟩
    · rw [if_neg hj, Function.update_of_ne hj]
      exact (hw.good j).unchanged

theorem Invariant.reserveSlot : w.reserveSlot.Invariant max := by
  have hnext := next_reserveSlot hw
  rcases reserveSlot_eq hw rfl with heq | ⟨hroom, heq⟩
  · rw [heq]
    exact hw
  · have hkeys : keys (w.registry ++ [(w.nextSlotId, RegistrySlot.reserved)]) =
        keys w.registry ++ [w.nextSlotId] := List.map_append
    have hnew : w.nextSlotId ∉ keys w.registry :=
      not_mem_of_find (hw.fresh _ (Nat.le_refl _) ▸ hw.good w.nextSlotId).entry_of_idle
    rw [heq] at hnext ⊢
    refine ⟨hw.limit, ?_, ?_, ?_, fun j => (hnext j).good, fun hdrained => ?_⟩
    · rw [List.length_append, List.length_singleton]
      exact hroom
    · rw [hkeys, List.nodup_append]
      refine ⟨hw.ids, List.nodup_singleton _, fun j hj k hk heq => ?_⟩
      rw [List.mem_singleton] at hk
      exact hnew (hk ▸ heq ▸ hj)
    · intro j hj
      have hlt : w.nextSlotId < j := hj
      refine (Function.update_of_ne (Nat.ne_of_gt hlt) _ _).trans ?_
      exact hw.fresh j (Nat.le_of_lt hlt)
    · obtain ⟨hdraining, hnone⟩ := hw.drained hdrained
      refine ⟨hdraining, fun j pc => ?_⟩
      rw [find_reserved hw]
      split
      · simp
      · exact hnone j pc

end Reserve

theorem takeActivePeers_requests (hw : w.Invariant max) (j : ℕ) :
    w.takeActivePeers.requests j = (w.requests j).released (find w.registry j) := by
  have hown : w.registry.any (·.2 = .active j) = true ↔ find w.registry j = some (.active j) := by
    rw [List.any_eq_true]
    constructor
    · rintro ⟨⟨k, slot⟩, hmem, hslot⟩
      obtain rfl : slot = .active j := of_decide_eq_true hslot
      have hfind := find_eq_some hw.ids hmem
      obtain rfl : j = k := (hfind ▸ hw.good k).eq_of_active
      exact hfind
    · intro hfind
      exact ⟨_, mem_of_find hfind, decide_eq_true rfl⟩
  rw [takeActivePeers]
  dsimp only
  split
  · next hany => rw [hown.mp hany, Request.released]
  · next hany =>
    rw [hown] at hany
    cases hfind : find w.registry j with
    | none => rfl
    | some slot =>
      cases slot with
      | reserved => rfl
      | active pc => exact absurd ((hfind ▸ hw.good j).eq_of_active ▸ hfind) hany

theorem next_takeActivePeers (hw : w.Invariant max) (j : ℕ) :
    Next j (w.requests j) (w.takeActivePeers.requests j) (find w.registry j)
      (find w.takeActivePeers.registry j) := by
  have hgood := hw.good j
  have hfilter := find_filter hw.ids (fun slot => !slot.isActive) j
  rw [takeActivePeers_requests hw, show find w.takeActivePeers.registry j = _ from hfilter]
  cases hfind : find w.registry j with
  | none => exact (hfind ▸ hgood).unchanged
  | some slot =>
    rw [hfind] at hgood
    cases slot with
    | reserved => exact hgood.unchanged
    | active pc => exact ⟨hgood.release, id, fun _ => rfl, fun _ _ => .inr rfl⟩

theorem Invariant.takeActivePeers (hw : w.Invariant max) : w.takeActivePeers.Invariant max := by
  have hsub : w.takeActivePeers.registry.Sublist w.registry := List.filter_sublist
  refine ⟨hw.limit, Nat.le_trans hsub.length_le hw.size, (hsub.map Prod.fst).nodup hw.ids, ?_,
    fun j => (next_takeActivePeers hw j).good, fun hdrained => ⟨?_, fun j pc hactive => ?_⟩⟩
  · intro j hj
    have hidle := hw.fresh j hj
    have hnone : find w.registry j = none := (hidle ▸ hw.good j).entry_of_idle
    rw [takeActivePeers_requests hw, hidle, hnone]
    rfl
  · rcases (Bool.or_eq_true w.drained w.terminalDraining).mp hdrained with hdrained | hdraining
    · exact (hw.drained hdrained).1
    · exact hdraining
  · have hmem := (List.mem_filter.mp (mem_of_find hactive)).2
    exact absurd hmem Bool.false_ne_true

theorem next_step (hw : w.Invariant max) {a : Action} (h : w.step a = some w') (j : ℕ) :
    Next j (w.requests j) (w'.requests j) (find w.registry j) (find w'.registry j) := by
  cases ha : a.request with
  | some i => exact (local_step hw ha h).next_all hw j
  | none =>
    cases a with
    | reserve =>
      cases h
      exact next_reserveSlot hw j
    | takeActive =>
      cases h
      exact next_takeActivePeers hw j
    | beginTerminalDrain =>
      cases h
      exact (hw.good j).unchanged
    | _ => cases ha

theorem Invariant.step (hw : w.Invariant max) {a : Action} (h : w.step a = some w') :
    w'.Invariant max := by
  cases ha : a.request with
  | some i => exact (local_step hw ha h).invariant hw (started_of_step ha h)
  | none =>
    cases a with
    | reserve =>
      cases h
      exact hw.reserveSlot
    | takeActive =>
      cases h
      exact hw.takeActivePeers
    | beginTerminalDrain =>
      cases h
      exact { hw with drained := fun hdrained => ⟨rfl, (hw.drained hdrained).2⟩ }
    | _ => cases ha

theorem invariant_run {as : List Action} (h : run step as (new max) = some w) :
    w.Invariant max := by
  refine run_invariant (Invariant max) (fun _ _ _ _ hw hstep => hw.step hstep) ?_ h
  exact ⟨rfl, Nat.zero_le _, List.nodup_nil, fun _ _ => rfl, fun _ => .absent,
    fun h => nomatch h⟩

end

end World

/-- Who has to see to it that a connection is closed. -/
inductive Owner where
  | buildTask
  | guard
  | entry (id : ℕ)
  deriving DecidableEq, Repr

def Request.AtTask (r : Request) : Prop := r.build = .built ∨ r.build = .abandoned

/-- The guard has the connection, in the shared state or on its stack. -/
def Request.AtGuard (r : Request) : Prop :=
  r.pc = .held ∨ r.guard = .activating ∨ r.guard = .dropping true

namespace Good

section
variable {i : ℕ} {r : Request} {e : Option RegistrySlot}

theorem built_of_atTask (h : Good i r e) (ht : r.AtTask) : r.built = true := by
  rw [Request.AtTask] at ht
  cases h <;> simp_all [Request.idle]

theorem built_of_atGuard (h : Good i r e) (hg : r.AtGuard) : r.built = true := by
  rw [Request.AtGuard] at hg
  cases h with
  | before hg' | failed hg' => rcases hg' with rfl | rfl | rfl <;> simp_all
  | failedEnded hg' => rcases hg' with rfl | rfl | rfl | rfl <;> simp_all
  | _ => simp_all [Request.idle]

theorem built_of_active {pc : ℕ} (h : Good i r (some (.active pc))) : r.built = true := by
  cases h with
  | active => rfl
  | _ => simp_all [Unused]

theorem one_owner (h : Good i r e) (hbuilt : r.built = true) (hclosing : r.closing = false) :
    (r.AtTask ∧ ¬ r.AtGuard ∧ e ≠ some (.active i)) ∨
    (¬ r.AtTask ∧ r.AtGuard ∧ e ≠ some (.active i)) ∨
    (¬ r.AtTask ∧ ¬ r.AtGuard ∧ e = some (.active i)) := by
  have hunused : Unused e → e ≠ some (.active i) := by
    rintro (rfl | rfl) <;> exact fun h => nomatch h
  cases h with
  | built he | abandonedBuilt he | abandoned he =>
    exact .inl ⟨by simp [Request.AtTask], by simp [Request.AtGuard], hunused he⟩
  | held hg he =>
    exact .inr (.inl ⟨by simp [Request.AtTask], .inl rfl, hunused he⟩)
  | activating he | dropping he =>
    exact .inr (.inl ⟨by simp [Request.AtTask], by simp [Request.AtGuard], hunused he⟩)
  | active => exact .inr (.inr ⟨by simp [Request.AtTask], by simp [Request.AtGuard], rfl⟩)
  | abandonedClosing | heldFinishing | heldEnded | closed => cases hclosing
  | abandonedEnded => exact absurd (hbuilt.symm.trans hclosing) Bool.noConfusion
  | _ => cases hbuilt

theorem slot_of_over (h : Good i r e) (hg : r.guard = .ended)
    (hb : r.build = .notStarted ∨ r.build = .ended) :
    e = none ∨ e = some (.active i) := by
  cases h with
  | before hg' he => simp_all
  | held hg' he => simp_all
  | active => exact .inr rfl
  | gone | failedEnded | abandonedEnded | heldEnded | closed => exact .inl rfl
  | _ => simp_all [Request.idle]

theorem closing_of_over (h : Good i r none) (hg : r.guard = .ended)
    (hb : r.build = .notStarted ∨ r.build = .ended) (hbuilt : r.built = true) :
    r.closing = true := by
  cases h with
  | abandonedEnded | heldEnded | closed => first | rfl | exact hbuilt
  | _ => simp_all [Request.idle]

end

end Good

namespace World

def Owns (w : World) (c : ℕ) : Owner → Prop
  | .buildTask => (w.requests c).AtTask
  | .guard => (w.requests c).AtGuard
  | .entry id => (id, .active c) ∈ w.registry

def Over (w : World) (i : ℕ) : Prop :=
  (w.requests i).guard = .ended ∧
    ((w.requests i).build = .notStarted ∨ (w.requests i).build = .ended)

section
variable {max : ℕ} {w w' : World}

theorem owns_entry_iff (hw : w.Invariant max) (c id : ℕ) :
    w.Owns c (.entry id) ↔ id = c ∧ find w.registry c = some (.active c) := by
  constructor
  · intro hmem
    have hfind := find_eq_some hw.ids hmem
    obtain rfl : c = id := (hfind ▸ hw.good id).eq_of_active
    exact ⟨rfl, hfind⟩
  · rintro ⟨rfl, hfind⟩
    exact mem_of_find hfind

theorem built_of_owns (hw : w.Invariant max) {c : ℕ} {o : Owner} (h : w.Owns c o) :
    (w.requests c).built = true := by
  cases o with
  | buildTask => exact (hw.good c).built_of_atTask h
  | guard => exact (hw.good c).built_of_atGuard h
  | entry id => exact (((owns_entry_iff hw c id).mp h).2 ▸ hw.good c).built_of_active

theorem owner_unique (hw : w.Invariant max) {c : ℕ} (hbuilt : (w.requests c).built = true)
    (hclosing : (w.requests c).closing = false) : ∃! o, w.Owns c o := by
  have hentry := owns_entry_iff hw c
  rcases (hw.good c).one_owner hbuilt hclosing with ⟨ht, hg, he⟩ | ⟨ht, hg, he⟩ | ⟨ht, hg, he⟩
  · refine ⟨.buildTask, ht, fun o ho => ?_⟩
    cases o with
    | buildTask => rfl
    | guard => exact absurd ho hg
    | entry id => exact absurd ((hentry id).mp ho).2 he
  · refine ⟨.guard, hg, fun o ho => ?_⟩
    cases o with
    | buildTask => exact absurd ho ht
    | guard => rfl
    | entry id => exact absurd ((hentry id).mp ho).2 he
  · refine ⟨.entry c, (hentry c).mpr ⟨rfl, he⟩, fun o ho => ?_⟩
    cases o with
    | buildTask => exact absurd ho ht
    | guard => exact absurd ho hg
    | entry id => rw [((hentry id).mp ho).1]

/-- The entries that a step removes or changes are those of its own request, or the active ones
that a drain takes. -/
theorem frame_step (hw : w.Invariant max) {a : Action} (h : w.step a = some w') {j : ℕ}
    {slot : RegistrySlot} (hmem : (j, slot) ∈ w.registry) (hgone : (j, slot) ∉ w'.registry) :
    a.request = some j ∨ (slot.isActive = true ∧ w' = w.takeActivePeers) := by
  cases ha : a.request with
  | some i =>
    by_cases hj : j = i
    · exact .inl (hj ▸ rfl)
    · have hfind := ((local_step hw ha h).others j hj).2.trans (find_eq_some hw.ids hmem)
      exact absurd (mem_of_find hfind) hgone
  | none =>
    cases a with
    | reserve =>
      cases h
      rcases reserveSlot_eq hw rfl with heq | ⟨-, heq⟩
      · rw [heq] at hgone
        exact absurd hmem hgone
      · rw [heq] at hgone
        exact absurd (List.mem_append_left _ hmem) hgone
    | takeActive =>
      cases h
      refine .inr ⟨?_, rfl⟩
      by_contra hactive
      exact hgone (List.mem_filter.mpr ⟨hmem, by simpa using hactive⟩)
    | beginTerminalDrain =>
      cases h
      exact absurd hmem hgone
    | _ => cases ha

theorem drained_step (hw : w.Invariant max) {a : Action} (h : w.step a = some w')
    (hdrained : w.drained = true) : w'.drained = true := by
  cases ha : a.request with
  | some i => exact (local_step hw ha h).drained.trans hdrained
  | none =>
    cases a with
    | reserve =>
      cases h
      rcases reserveSlot_eq hw rfl with heq | ⟨-, heq⟩ <;> rw [heq] <;> exact hdrained
    | takeActive =>
      cases h
      exact (Bool.or_eq_true w.drained w.terminalDraining).mpr (.inl hdrained)
    | beginTerminalDrain =>
      cases h
      exact hdrained
    | _ => cases ha

theorem closing_of_drained (hw : w.Invariant max) (hdrained : w.drained = true) {i : ℕ}
    (hover : w.Over i) (hbuilt : (w.requests i).built = true) :
    (w.requests i).closing = true := by
  rcases (hw.good i).slot_of_over hover.1 hover.2 with hfree | hactive
  · exact (hfree ▸ hw.good i).closing_of_over hover.1 hover.2 hbuilt
  · exact absurd hactive ((hw.drained hdrained).2 i i)

theorem not_orphaned (max : ℕ) {as : List Action} {w : World}
    (h : run step as (new max) = some w) :
    (∀ c, (w.requests c).built = true → (w.requests c).closing = false → ∃! o, w.Owns c o) ∧
    (∀ a w', w.step a = some w' →
      (∀ c o, w.Owns c o → ¬ w'.Owns c o →
        (∃ o', w'.Owns c o') ∨ (w'.requests c).closing = true) ∧
      (∀ id c, (id, .active c) ∈ w.registry → (id, .active c) ∉ w'.registry →
        (w'.requests c).closing = true)) ∧
    (w.registry.length ≤ max ∧ (keys w.registry).Nodup ∧
      ∀ a w', w.step a = some w' → ∀ id slot, (id, slot) ∈ w.registry → (id, slot) ∉ w'.registry →
        a.request = some id ∨ (slot.isActive = true ∧ w' = w.takeActivePeers)) ∧
    (∀ i slot, w.Over i → (i, slot) ∈ w.registry → slot = .active i) ∧
    (w.drained = true → ∀ bs w', run step bs w = some w' →
      (∀ i pc, (i, .active pc) ∉ w'.registry) ∧
      ∀ i, w'.Over i → (w'.requests i).built = true → (w'.requests i).closing = true) := by
  have hw := invariant_run h
  refine ⟨fun c => owner_unique hw, fun a w' hstep => ⟨fun c o ho _ => ?_, ?_⟩,
    ⟨hw.size, hw.ids, fun a w' hstep _ _ => frame_step hw hstep⟩, ?_,
    fun hdrained bs w' hrun => ?_⟩
  · have hbuilt := (next_step hw hstep c).built (built_of_owns hw ho)
    by_cases hclosing : (w'.requests c).closing = true
    · exact .inr hclosing
    · exact .inl (owner_unique (hw.step hstep) hbuilt (Bool.eq_false_iff.mpr hclosing)).exists
  · intro id c hmem hgone
    have hfind := find_eq_some hw.ids hmem
    obtain rfl : c = id := (hfind ▸ hw.good id).eq_of_active
    rcases (next_step hw hstep c).removed c hfind with hsame | hclosing
    · exact absurd (mem_of_find (hsame.trans hfind)) hgone
    · exact hclosing
  · rintro i slot ⟨hg, hb⟩ hmem
    have hfind := find_eq_some hw.ids hmem
    rcases (hw.good i).slot_of_over hg hb with hnone | hactive
    · exact nomatch hfind.symm.trans hnone
    · exact Option.some.inj (hfind.symm.trans hactive)
  · obtain ⟨hw', hdrained'⟩ : w'.Invariant max ∧ w'.drained = true :=
      run_invariant (fun u => u.Invariant max ∧ u.drained = true)
        (fun _ _ _ _ hu hstep => ⟨hu.1.step hstep, drained_step hu.1 hstep hu.2⟩)
        ⟨hw, hdrained⟩ hrun
    exact ⟨fun i pc hmem => (hw'.drained hdrained').2 i pc (find_eq_some hw'.ids hmem),
      fun i => closing_of_drained hw' hdrained'⟩

/-- One connection is taken by the last drain; the other is built for a request that is gone. -/
def drainActions : List Action :=
  [.reserve, .spawnBuild 0, .reserve, .buildOk 0, .spawnBuild 1, .publish 0, .receive 0,
    .activate 0, .activateSlot 0, .drop 1, .beginTerminalDrain, .takeActive, .buildOk 1]

theorem not_orphaned_drain :
    ∃ w, run step drainActions (new 2) = some w ∧ (w.requests 0).closing = true ∧
      (∃! o, w.Owns 1 o) ∧ w.registry.length ≤ 2 ∧ ∀ i pc, (i, .active pc) ∉ w.registry := by
  refine ⟨_, rfl, ?_⟩
  have hlaw := not_orphaned 2 (show run step drainActions (new 2) = some _ from rfl)
  have hdrained := hlaw.2.2.2.2 rfl [] _ rfl
  exact ⟨hdrained.2 0 ⟨rfl, .inr rfl⟩ rfl, hlaw.1 1 rfl rfl, hlaw.2.2.1.1, hdrained.1⟩

end

end World

end FandheBackend.WebRtcRegistry
