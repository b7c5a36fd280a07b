import FandheBackend.WsSessionWire
import FandheBackend.WsUpgrade

set_option autoImplicit false

namespace FandheBackend.WsUpgrade
open StdBytes ActionRuns HttpRequestHead WsSender WsHandshake WsSession

section Refused
variable {o o' : Outbound} {i : ℕ}

/-- A call that began after the session, or has not begun. -/
def Refused : Call → Prop
  | .idle | .requested _ _ | .releasing _ _ (some .closed) => True
  | .returned _ result => result ≠ .ok
  | _ => False

theorem setCall_self (o : Outbound) (i : ℕ) (c : Call) : (o.setCall i c).calls i = c := by
  simp [Outbound.setCall]

theorem calls_step {a : WsSender.Action} {j : ℕ} (h : Stepped o a o') (hcall : a.call = some j)
    (hne : i ≠ j) : o'.calls i = o.calls i := by
  cases h with
  | moved k _ _ hk | requested k _ _ hk | announced k _ _ hk | withdrawn k _ hk =>
    cases hk.symm.trans hcall
    exact Function.update_of_ne hne _ _
  | committed k op hk _ hrunning =>
    cases hk.symm.trans hcall
    rw [commit_running hrunning]
    exact Function.update_of_ne hne _ _
  | received | sealed | announcedSeal | closedReceiver | droppedReceiver => cases hcall

theorem refused_returned (o : Outbound) (i : ℕ) (op : Op) {result : Outcome} (h : result ≠ .ok) :
    Refused ((o.setCall i (.returned op result)).calls i) := by
  rw [setCall_self]
  exact h

theorem refused_start (hshut : Shut o) (op : Op) : Refused ((o.start i op).calls i) := by
  cases op with
  | send msg =>
    simp only [Outbound.start, hshut.signal, ↓reduceIte]
    exact refused_returned o i _ (by decide)
  | trySend msg =>
    have hreceiver : o.receiver ≠ .attached := by simp [hshut.receiver]
    simp only [Outbound.start, if_pos hreceiver]
    exact refused_returned o i _ (by decide)
  | close code reason =>
    simp only [Outbound.start]
    split
    · exact refused_returned o i _ (by decide)
    · split
      · exact refused_returned o i _ (by decide)
      · rw [setCall_self]
        trivial

theorem result_of_refused {code : UInt16} {reason : String} {result : Option Outcome}
    (h : Refused (.releasing code reason result)) : result = some .closed := by
  unfold Refused at h
  split at h
  · next heq => cases heq
  · next heq => cases heq
  · next heq =>
    cases heq
    rfl
  · next heq => cases heq
  · exact h.elim

theorem refused_go (hshut : Shut o) (hcall : Refused (o.calls i))
    (h : o.go i (o.calls i) = some o') : Refused (o'.calls i) := by
  cases hc : o.calls i with
  | idle | returned =>
    rw [hc] at h
    cases h
  | requested code reason =>
    rw [hc, Outbound.go, hshut.signal] at h
    cases h
    rw [setCall_self]
    trivial
  | releasing code reason result =>
    rw [hc] at h hcall
    cases result_of_refused hcall
    cases h
    exact refused_returned _ i _ (by decide)
  | waiting | granted | refused | reserved | announcing | dropped =>
    rw [hc] at hcall
    exact hcall.elim

theorem refused_step {a : WsSender.Action} {j : ℕ} (hshut : Shut o) (hj : a.call = some j)
    (hcall : Refused (o.calls i)) (h : o.step a = some o') : Refused (o'.calls i) := by
  by_cases hne : i = j
  · subst hne
    cases a with
    | start k op =>
      cases hj
      obtain ⟨-, ⟨⟩⟩ := Option.ite_none_right_eq_some.mp h
      exact refused_start hshut op
    | go k =>
      cases hj
      exact refused_go hshut hcall h
    | grant k =>
      cases hj
      rw [Outbound.step] at h
      split at h
      · next hc =>
        rw [hc] at hcall
        exact hcall.elim
      · cases h
    | drop k =>
      cases hj
      rw [Outbound.step, Outbound.drop.eq_def] at h
      split at h
      · next hc =>
        rw [hc] at hcall
        exact hcall.elim
      · next hc =>
        rw [hc] at hcall
        exact hcall.elim
      · cases h
    | recv | sealForSession | announceSeal | closeReceiver | dropReceiver => cases hj
  · rw [calls_step (step_cases h) hj hne]
    exact hcall

/-- Call `i` has not begun, or it returns an error after at most two steps of its own. -/
def Fails (o : Outbound) (i : ℕ) : Prop :=
  o.calls i = .idle ∨ ∃ n ≤ 2, ∃ o' op result,
    run Outbound.step (List.replicate n (.go i)) o = some o' ∧ (o.calls i).op = some op ∧
      o'.calls i = .returned op result ∧ result ≠ .ok

theorem release_step {code : UInt16} {reason : String}
    (hc : o.calls i = .releasing code reason (some .closed)) :
    ∃ o', o.step (.go i) = some o' ∧ o'.calls i = .returned (.close code reason) .closed := by
  rw [Outbound.step, hc]
  exact ⟨_, rfl, setCall_self _ _ _⟩

theorem fails_of_refused (hshut : Shut o) (hcall : Refused (o.calls i)) : Fails o i := by
  cases hc : o.calls i with
  | idle => exact .inl hc
  | returned op result =>
    rw [hc] at hcall
    exact .inr ⟨0, Nat.zero_le 2, o, op, result, rfl, by rw [hc]; rfl, hc, hcall⟩
  | requested code reason =>
    have hfirst : o.step (.go i) = some (o.setCall i (.releasing code reason (some .closed))) := by
      rw [Outbound.step, hc, Outbound.go, hshut.signal]
      rfl
    obtain ⟨o', hsecond, hreturned⟩ := release_step (setCall_self o i _)
    refine .inr ⟨2, Nat.le_refl 2, o', _, .closed, ?_, by rw [hc]; rfl, hreturned, by decide⟩
    simp only [List.replicate, run, hfirst, hsecond, Option.bind_some]
  | releasing code reason result =>
    rw [hc] at hcall
    cases result_of_refused hcall
    obtain ⟨o', hstep, hreturned⟩ := release_step hc
    refine .inr ⟨1, Nat.le_succ 1, o', _, .closed, ?_, by rw [hc]; rfl, hreturned, by decide⟩
    simp only [List.replicate, run, hstep, Option.bind_some]
  | waiting | granted | refused | reserved | announcing | dropped =>
    rw [hc] at hcall
    exact hcall.elim

end Refused

section Law
variable {TypeId Addr : Type} {E : TypeId → Type} {env : Env E Addr} {u u' : Upgrade E Addr}

def Env.Switched (env : Env E Addr) (written : List Bytes) : Prop :=
  ∃ acceptKey, validate env.deriveAcceptKey env.head = .ok acceptKey ∧ env.check = .ok () ∧
    written = [serialize101 acceptKey]

/-- Calls of `on_message_with_ctx`, each of which ends before the next one begins. -/
def messageCalls (ctx : WsConnContext E Addr) (n : ℕ) : List (Callback E Addr) :=
  (List.replicate n [.onMessage ctx .start, .onMessage ctx .stop]).flatten

def Stage.Fits (env : Env E Addr) (written : List Bytes) (callbacks : List (Callback E Addr)) :
    Stage E Addr → Prop
  | .entered => written = [] ∧ callbacks = []
  | .writing bytes ending => (written = [] ∧ callbacks = []) ∧
      ending.elim (env.Switched [bytes]) fun _ => ¬ Switches bytes
  | .returned _ => (∀ bytes ∈ written, ¬ Switches bytes) ∧ callbacks = []
  | .established => env.Switched written ∧ callbacks = []
  | .session ctx s => env.Switched written ∧ s.Invariant env.config.session ∧
      ∃ connId, ctx = env.connContext connId ∧
        callbacks = .onOpen (env.openContext connId) :: s.record.log.map (.onMessage ctx)
  | .closed ctx s result => env.Switched written ∧ s.Invariant env.config.session ∧
      ∃ connId reason, ctx = env.connContext connId ∧ s.phase = .done reason result ∧
        callbacks = .onOpen (env.openContext connId) :: s.record.log.map (.onMessage ctx) ++
          [.onClose ctx reason]

def Upgrade.Invariant (env : Env E Addr) (u : Upgrade E Addr) : Prop :=
  u.stage.Fits env u.written u.callbacks

theorem respond_fits (env : Env E Addr) : env.respond.Fits env [] [] := by
  unfold Env.respond
  split
  · exact ⟨⟨rfl, rfl⟩, not_switches_serialize426⟩
  · exact ⟨⟨rfl, rfl⟩, not_switches_serialize400⟩
  · exact ⟨List.forall_mem_nil _, rfl⟩
  · next acceptKey hvalidate =>
    split
    · exact ⟨⟨rfl, rfl⟩, not_switches_rejection _⟩
    · next hcheck => exact ⟨⟨rfl, rfl⟩, acceptKey, hvalidate, hcheck, rfl⟩

theorem prefix_drop {α : Type} {l l' : List α} (h : l <+: l') : l ++ l'.drop l.length = l' := by
  obtain ⟨rest, rfl⟩ := h
  rw [List.drop_left]

theorem log_step {latest : ℕ} {config : Config} {s s' : Session} {a : WsSession.Action}
    (h : s.step latest config a = some s') : s.record.log <+: s'.record.log := by
  by_cases hphase : s.phase.Panics
  · rw [(panics_step hphase h).2]
  · exact (told_step hphase h).log

theorem Upgrade.Invariant.step {a : UpgradeAction} (hu : u.Invariant env)
    (h : u.step env a = some u') : u'.Invariant env := by
  obtain ⟨stage, written, callbacks⟩ := u
  unfold Upgrade.Invariant at hu
  dsimp only at hu
  cases a with
  | enter cancelled =>
    cases stage with
    | entered =>
      cases h
      obtain ⟨rfl, rfl⟩ := hu
      cases cancelled with
      | true => exact ⟨List.forall_mem_nil _, rfl⟩
      | false => exact respond_fits env
    | _ => cases h
  | wrote ok =>
    cases stage with
    | writing bytes ending =>
      obtain ⟨⟨rfl, rfl⟩, hbytes⟩ := hu
      cases ok with
      | false =>
        cases h
        exact ⟨List.forall_mem_nil _, rfl⟩
      | true =>
        cases h
        cases ending with
        | none => exact ⟨hbytes, rfl⟩
        | some result =>
          refine ⟨?_, rfl⟩
          simpa using hbytes
    | _ => cases h
  | cancel =>
    cases stage with
    | writing bytes ending =>
      cases h
      obtain ⟨⟨rfl, rfl⟩, -⟩ := hu
      exact ⟨List.forall_mem_nil _, rfl⟩
    | _ => cases h
  | onOpen connId now =>
    cases stage with
    | established =>
      obtain ⟨-, ⟨⟩⟩ := Option.ite_none_right_eq_some.mp h
      obtain ⟨hswitched, rfl⟩ := hu
      exact ⟨hswitched, invariant_new now, connId, rfl, rfl⟩
    | _ => cases h
  | session action =>
    cases stage with
    | session ctx s =>
      obtain ⟨s', hs', rfl⟩ := Option.map_eq_some_iff.mp h
      obtain ⟨hswitched, hs, connId, hctx, rfl⟩ := hu
      refine ⟨hswitched, hs.step hs', connId, hctx, ?_⟩
      rw [List.cons_append, ← List.map_append, prefix_drop (log_step hs')]
    | closed ctx s result =>
      obtain ⟨s', hs', rfl⟩ := Option.map_eq_some_iff.mp h
      obtain ⟨hswitched, hs, connId, reason, hctx, hphase, hcallbacks⟩ := hu
      obtain ⟨⟨hphase', hrecord⟩, -⟩ := done_step hphase hs'
      exact ⟨hswitched, hs.step hs', connId, reason, hctx, hphase', hrecord ▸ hcallbacks⟩
    | _ => cases h
  | onClose =>
    cases stage with
    | session ctx s =>
      rw [Upgrade.step] at h
      dsimp only at h
      split at h
      · next reason result hphase =>
        cases h
        obtain ⟨hswitched, hs, connId, hctx, rfl⟩ := hu
        exact ⟨hswitched, hs, connId, reason, hctx, hphase, rfl⟩
      · cases h
    | _ => cases h

/-- The task unwinds from an addition of instants, and `on_close` is never called. -/
def Upgrade.Panics (u : Upgrade E Addr) : Prop :=
  match u.stage with
  | .session _ s => s.phase.Panics
  | _ => False

def Upgrade.AdditionsFit (env : Env E Addr) (u : Upgrade E Addr) (a : UpgradeAction) : Prop :=
  match u.stage, a with
  | .session _ s, .session action => s.Fits env.config.session env.latest action
  | _, _ => True

instance decidableAdditionsFit (env : Env E Addr) :
    (u : Upgrade E Addr) → (a : UpgradeAction) → Decidable (u.AdditionsFit env a)
  | ⟨.session _ s, _, _⟩, .session action =>
    inferInstanceAs (Decidable (∀ d ∈ s.additions env.config.session action,
      s.timers.now + d ≤ env.latest))
  | ⟨.session _ _, _, _⟩, .enter _ | ⟨.session _ _, _, _⟩, .wrote _ | ⟨.session _ _, _, _⟩, .cancel
  | ⟨.session _ _, _, _⟩, .onOpen _ _ | ⟨.session _ _, _, _⟩, .onClose
  | ⟨.entered, _, _⟩, _ | ⟨.writing _ _, _, _⟩, _ | ⟨.established, _, _⟩, _
  | ⟨.closed _ _ _, _, _⟩, _ | ⟨.returned _, _, _⟩, _ => .isTrue trivial

theorem not_panics_respond (env : Env E Addr) {written : List Bytes}
    {callbacks : List (Callback E Addr)} : ¬ Upgrade.Panics ⟨env.respond, written, callbacks⟩ := by
  unfold Upgrade.Panics Env.respond
  cases validate env.deriveAcceptKey env.head with
  | error error => cases error <;> exact not_false
  | ok acceptKey => cases env.check <;> exact not_false

theorem panics_iff {a : UpgradeAction} (h : u.step env a = some u') :
    ¬ u'.Panics ↔ ¬ u.Panics ∧ u.AdditionsFit env a := by
  obtain ⟨stage, written, callbacks⟩ := u
  cases a with
  | enter cancelled =>
    cases stage with
    | entered =>
      cases h
      refine iff_of_true ?_ ⟨not_false, trivial⟩
      cases cancelled with
      | true => exact not_false
      | false => exact not_panics_respond env
    | _ => cases h
  | wrote ok =>
    cases stage with
    | writing bytes ending =>
      refine iff_of_true ?_ ⟨not_false, trivial⟩
      cases ok with
      | false =>
        cases h
        exact not_false
      | true =>
        cases h
        cases ending <;> exact not_false
    | _ => cases h
  | cancel =>
    cases stage with
    | writing bytes ending =>
      cases h
      exact iff_of_true not_false ⟨not_false, trivial⟩
    | _ => cases h
  | onOpen connId now =>
    cases stage with
    | established =>
      obtain ⟨-, ⟨⟩⟩ := Option.ite_none_right_eq_some.mp h
      exact iff_of_true not_false ⟨not_false, trivial⟩
    | _ => cases h
  | session action =>
    cases stage with
    | session ctx s =>
      obtain ⟨s', hs', rfl⟩ := Option.map_eq_some_iff.mp h
      by_cases hphase : s.phase.Panics
      · exact iff_of_false (not_not_intro (panics_step hphase hs').1) fun hnot => hnot.1 hphase
      · have htold := (told_step hphase hs').panics
        exact (not_congr htold).trans (not_not.trans (and_iff_right hphase).symm)
    | closed ctx s result =>
      obtain ⟨s', hs', rfl⟩ := Option.map_eq_some_iff.mp h
      exact iff_of_true not_false ⟨not_false, trivial⟩
    | _ => cases h
  | onClose =>
    cases stage with
    | session ctx s =>
      rw [Upgrade.step] at h
      dsimp only at h
      split at h
      · next reason result hphase =>
        cases h
        refine iff_of_true not_false ⟨?_, trivial⟩
        unfold Upgrade.Panics
        dsimp only
        rw [hphase]
        exact not_false
      · cases h
    | _ => cases h


theorem panicked_run (hu : u.Panics) {as : List UpgradeAction}
    (h : run (Upgrade.step env) as u = some u') : u'.Panics ∧ u'.callbacks = u.callbacks := by
  refine run_invariant (fun t : Upgrade E Addr => t.Panics ∧ t.callbacks = u.callbacks) ?_
    ⟨hu, rfl⟩ h
  rintro a - t t' ⟨ht, hcallbacks⟩ hstep
  obtain ⟨stage, written, callbacks⟩ := t
  cases stage with
  | session ctx s =>
    cases a with
    | session action =>
      obtain ⟨s', hs', rfl⟩ := Option.map_eq_some_iff.mp hstep
      obtain ⟨hphase, hrecord⟩ := panics_step ht hs'
      refine ⟨hphase, ?_⟩
      rw [hrecord, List.drop_length, List.map_nil, List.append_nil]
      exact hcallbacks
    | onClose =>
      rw [Upgrade.step] at hstep
      dsimp only at hstep
      split at hstep
      · next hphase =>
        unfold Upgrade.Panics at ht
        dsimp only at ht
        rw [hphase] at ht
        exact ht.elim
      · cases hstep
    | _ => cases hstep
  | _ => exact ht.elim

theorem closed_step {a : UpgradeAction} {ctx : WsConnContext E Addr} {s : Session}
    {reason : CloseReason} {result : Except WsError Unit} (hstage : u.stage = .closed ctx s result)
    (hphase : s.phase = .done reason result) (h : u.step env a = some u') :
    ∃ s', u'.stage = .closed ctx s' result ∧ s'.phase = .done reason result ∧
      (s'.outbound = s.outbound ∨ ∃ action i, action.call = some i ∧
        s.outbound.step action = some s'.outbound) := by
  obtain ⟨stage, written, callbacks⟩ := u
  subst hstage
  cases a with
  | session action =>
    obtain ⟨s', hs', rfl⟩ := Option.map_eq_some_iff.mp h
    obtain ⟨⟨hphase', -⟩, houtbound⟩ := done_step hphase hs'
    exact ⟨s', rfl, hphase', houtbound⟩
  | _ => cases h

/-- After `on_close` a call that has not begun fails whatever else happens. -/
theorem fails_run {ctx : WsConnContext E Addr} {s : Session} {reason : CloseReason}
    {result : Except WsError Unit} (hshut : Shut s.outbound)
    (hphase : s.phase = .done reason result) (hstage : u.stage = .closed ctx s result) {i : ℕ}
    (hidle : s.outbound.calls i = .idle) {as : List UpgradeAction}
    (h : run (Upgrade.step env) as u = some u') :
    ∃ s', u'.stage = .closed ctx s' result ∧ Fails s'.outbound i := by
  have hrefused : Refused (s.outbound.calls i) := by
    rw [hidle]
    trivial
  let inv (t : Upgrade E Addr) : Prop := ∃ s', t.stage = .closed ctx s' result ∧
    s'.phase = .done reason result ∧ Shut s'.outbound ∧ Refused (s'.outbound.calls i)
  have hstep : ∀ a ∈ as, ∀ {t t'}, inv t → t.step env a = some t' → inv t' := by
    rintro a - t t' ⟨s, hstage, hphase, hshut, hrefused⟩ hstep
    obtain ⟨s', hstage', hphase', houtbound⟩ := closed_step hstage hphase hstep
    rcases houtbound with heq | ⟨action, j, hj, hcall⟩
    · exact ⟨s', hstage', hphase', heq ▸ hshut, heq ▸ hrefused⟩
    · exact ⟨s', hstage', hphase', hshut.called (called_step hj (step_cases hcall)),
        refused_step hshut hj hrefused hcall⟩
  obtain ⟨s', hstage', -, hshut', hrefused'⟩ :=
    run_invariant inv hstep ⟨s, hstage, hphase, hshut, hrefused⟩ h
  exact ⟨s', hstage', fails_of_refused hshut' hrefused'⟩

def Upgrade.Lawful (env : Env E Addr) (u : Upgrade E Addr) : Prop :=
  match u.stage with
  | .entered | .writing _ _ | .returned _ =>
    u.callbacks = [] ∧ ∀ bytes ∈ u.written, ¬ Switches bytes
  | .established => u.callbacks = [] ∧ env.Switched u.written
  | .session ctx s => ¬ s.phase.Panics ∧ env.Switched u.written ∧
      ∃ connId n, ctx = env.connContext connId ∧
        u.callbacks = .onOpen (env.openContext connId) :: messageCalls ctx n ++
          if s.record.running then [.onMessage ctx .start] else []
  | .closed ctx s result => env.Switched u.written ∧
      ∃ connId n reason, ctx = env.connContext connId ∧
        u.callbacks = .onOpen (env.openContext connId) :: messageCalls ctx n ++
          [.onClose ctx reason] ∧
        reason.Agrees result s.record.troubles.closeFailed ∧
        ∀ i, s.outbound.calls i = .idle → ∀ as u', run (Upgrade.step env) as u = some u' →
          ∃ s', u'.stage = .closed ctx s' result ∧ Fails s'.outbound i

theorem log_map {r : Record} (h : r.LogFits) (ctx : WsConnContext E Addr) :
    ∃ n, r.log.map (.onMessage ctx) = messageCalls ctx n ++
      if r.running then [.onMessage ctx .start] else [] := by
  obtain ⟨n, hlog⟩ := h
  refine ⟨n, ?_⟩
  rw [hlog, List.map_append, List.map_flatten, List.map_replicate]
  congr 1
  split <;> rfl

theorem Upgrade.Invariant.lawful_iff (hu : u.Invariant env) : u.Lawful env ↔ ¬ u.Panics := by
  obtain ⟨stage, written, callbacks⟩ := u
  cases stage with
  | entered =>
    obtain ⟨rfl, rfl⟩ := hu
    exact iff_of_true ⟨rfl, List.forall_mem_nil _⟩ not_false
  | writing bytes ending =>
    obtain ⟨⟨rfl, rfl⟩, -⟩ := hu
    exact iff_of_true ⟨rfl, List.forall_mem_nil _⟩ not_false
  | returned result => exact iff_of_true ⟨hu.2, hu.1⟩ not_false
  | established => exact iff_of_true ⟨hu.2, hu.1⟩ not_false
  | session ctx s =>
    obtain ⟨hswitched, hs, connId, hctx, hcallbacks⟩ := hu
    obtain ⟨n, hn⟩ := log_map hs.base.log ctx
    refine and_iff_left ⟨hswitched, connId, n, hctx, ?_⟩
    rw [hcallbacks, hn, List.cons_append]
  | closed ctx s result =>
    obtain ⟨hswitched, hs, connId, reason, hctx, hphase, hcallbacks⟩ := hu
    have hfits := hs.fits
    rw [hphase] at hfits
    obtain ⟨n, hn⟩ := log_map hs.base.log ctx
    rw [hfits.1.idle] at hn
    refine iff_of_true ⟨hswitched, connId, n, reason, hctx, ?_, hfits.1.agrees, ?_⟩ not_false
    · rw [hcallbacks, hn]
      simp
    · intro i hidle as u' h
      exact fails_run hfits.2 hphase rfl hidle h

/-- The callbacks of an upgrade follow the law for as long as no addition overflows. -/
theorem lifecycle_iff {as : List UpgradeAction} (h : run (Upgrade.step env) as .new = some u) :
    u.Lawful env ↔ Along (Upgrade.step env) (Upgrade.AdditionsFit env) as .new := by
  have hnew : (Upgrade.new : Upgrade E Addr).Invariant env := ⟨rfl, rfl⟩
  have hu : u.Invariant env :=
    run_invariant (Upgrade.Invariant env) (fun _ _ _ _ hu h => hu.step h) hnew h
  rw [hu.lawful_iff, run_iff_along (Upgrade.Invariant env) (fun u => ¬ u.Panics)
    (Upgrade.AdditionsFit env) Upgrade.Invariant.step (fun _ h => panics_iff h) hnew h]
  exact and_iff_right not_false

/-- A handshake as RFC 6455 has it in its example. -/
def upgradeHead : RequestHead (fun _ : Unit => Unit) where
  buf := ascii "GET /ws HTTP/1.1\r\nUpgrade: websocket\r\nConnection: Upgrade\r\n" ++
    ascii "Sec-WebSocket-Key: dGhlIHNhbXBsZSBub25jZQ==\r\nSec-WebSocket-Version: 13"
  methodRange := ⟨0, 3⟩
  targetRange := ⟨4, 7⟩
  version := .http11
  headerRanges := [(⟨18, 25⟩, ⟨27, 36⟩), (⟨38, 48⟩, ⟨50, 57⟩), (⟨59, 76⟩, ⟨78, 102⟩),
    (⟨104, 125⟩, ⟨127, 129⟩)]
  extensions := .new

def upgradeAcceptKey : Bytes := ascii "s3pPLMBiTxaQ9kYGzzhZRbK+xOo="

def upgradeEnv (config : Config) : Env (fun _ : Unit => Unit) Unit where
  head := upgradeHead
  config := ⟨config, ascii "/ws", none, none⟩
  peerAddr := none
  deriveAcceptKey _ := upgradeAcceptKey
  latest := 9223372036854775807999999999

theorem validate_upgradeHead :
    validate (fun _ => upgradeAcceptKey) upgradeHead = .ok upgradeAcceptKey := by
  rfl

theorem step_enter_upgradeHead (config : Config) :
    Upgrade.new.step (upgradeEnv config) (.enter false) =
      some ⟨.writing (serialize101 upgradeAcceptKey) none, [], []⟩ := by
  have hrespond : (upgradeEnv config).respond =
      .writing (serialize101 upgradeAcceptKey) none := by
    rw [Env.respond, show (upgradeEnv config).head = upgradeHead from rfl,
      show (upgradeEnv config).deriveAcceptKey = fun _ => upgradeAcceptKey from rfl,
      validate_upgradeHead]
    rfl
  rw [← hrespond]
  rfl

def answerActions : List UpgradeAction :=
  [.wrote true, .onOpen 7 0, .session .go, .session .go,
    .session (.inbound (some (.ok (.text "q")))), .session (.handled (.ok (.reply [.text "r"]))),
    .session .go, .session .go, .session .go, .session (.sendDone (.ok ())), .session .go,
    .session (.inbound (some (.ok (.close none)))), .session .go, .session .go, .session .go,
    .onClose]

def minuteConfig : Config := { sampleConfig with idleTimeout := some 60000000000 }

theorem lifecycle_iff_answer :
    ∃ u, run (Upgrade.step (upgradeEnv minuteConfig)) (.enter false :: answerActions) .new = some u ∧
      u.callbacks = [.onOpen ((upgradeEnv minuteConfig).openContext 7),
        .onMessage ((upgradeEnv minuteConfig).connContext 7) .start,
        .onMessage ((upgradeEnv minuteConfig).connContext 7) .stop,
        .onClose ((upgradeEnv minuteConfig).connContext 7) .clientClose] ∧
      u.Lawful (upgradeEnv minuteConfig) := by
  have hrun : ∃ u, run (Upgrade.step (upgradeEnv minuteConfig)) (.enter false :: answerActions)
      .new = some u ∧ u.callbacks = [.onOpen ((upgradeEnv minuteConfig).openContext 7),
        .onMessage ((upgradeEnv minuteConfig).connContext 7) .start,
        .onMessage ((upgradeEnv minuteConfig).connContext 7) .stop,
        .onClose ((upgradeEnv minuteConfig).connContext 7) .clientClose] := by
    rw [run, step_enter_upgradeHead]
    exact ⟨_, rfl, rfl⟩
  obtain ⟨u, hu, hcallbacks⟩ := hrun
  refine ⟨u, hu, hcallbacks, (lifecycle_iff hu).mpr ?_⟩
  have hcheck : checkAlong (Upgrade.step (upgradeEnv minuteConfig))
      (fun u a => decide (u.AdditionsFit (upgradeEnv minuteConfig) a)) answerActions
      ⟨.writing (serialize101 upgradeAcceptKey) none, [], []⟩ = true := by
    decide
  rw [along_cons (step_enter_upgradeHead minuteConfig)]
  exact ⟨trivial, along_of_checkAlong of_decide_eq_true hcheck⟩

/-- `with_idle_timeout(Duration::MAX)`. -/
def maxIdleConfig : Config :=
  { sampleConfig with idleTimeout := some 18446744073709551615999999999 }

/-- The first addition of the session panics: `on_open` was called, and `on_close` never is. -/
theorem max_idle_unwinds :
    ∃ u ctx s, run (Upgrade.step (upgradeEnv maxIdleConfig))
        [.enter false, .wrote true, .onOpen 7 0, .session .go, .session .go, .session .go,
          .session .go] .new = some u ∧
      u.stage = .session ctx s ∧ s.phase = .unwound ∧
      ¬ u.Lawful (upgradeEnv maxIdleConfig) ∧
      ∀ as u', run (Upgrade.step (upgradeEnv maxIdleConfig)) as u = some u' →
        u'.callbacks = [.onOpen ((upgradeEnv maxIdleConfig).openContext 7)] := by
  have hrun : ∃ u ctx s, run (Upgrade.step (upgradeEnv maxIdleConfig))
      [.enter false, .wrote true, .onOpen 7 0, .session .go, .session .go, .session .go,
        .session .go] .new = some u ∧ u.stage = .session ctx s ∧ s.phase = .unwound ∧
      u.callbacks = [.onOpen ((upgradeEnv maxIdleConfig).openContext 7)] := by
    rw [run, step_enter_upgradeHead]
    exact ⟨_, _, _, rfl, rfl, rfl, rfl⟩
  obtain ⟨u, ctx, s, hu, hstage, hphase, hcallbacks⟩ := hrun
  have hpanics : u.Panics := by
    rw [Upgrade.Panics, hstage]
    dsimp only
    rw [hphase]
    trivial
  refine ⟨u, ctx, s, hu, hstage, hphase, ?_, fun as u' h => ?_⟩
  · rw [Upgrade.Lawful, hstage]
    exact fun hlawful => hlawful.1 (hphase ▸ trivial)
  · exact (panicked_run hpanics h).2.trans hcallbacks

end Law

end FandheBackend.WsUpgrade
