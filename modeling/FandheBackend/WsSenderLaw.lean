import FandheBackend.ActionRuns
import FandheBackend.TaskCounts
import FandheBackend.WsSender

set_option autoImplicit false

namespace FandheBackend.WsSender
open ActionRuns TaskCounts

inductive Stepped (s : Outbound) : Action → Outbound → Prop
  | moved {a : Action} (i : ℕ) (c : Call) (free : ℕ) (action : a.call = some i)
      (permits : free + c.holdsPermit.toNat = s.free + (s.calls i).holdsPermit.toNat)
      (requests : c.holdsRequest = (s.calls i).holdsRequest)
      (uncommitted : c.hasCommitted = false) (before : (s.calls i).hasCommitted = false) :
      Stepped s a { s.setCall i c with free := free }
  | requested {a : Action} (i : ℕ) (code : UInt16) (reason : String) (action : a.call = some i)
      (idle : s.calls i = .idle) : Stepped s a (s.request.setCall i (.requested code reason))
  | committed {a : Action} (i : ℕ) (op : Op) (action : a.call = some i)
      (reserved : s.calls i = .reserved op) (running : s.closing = false) :
      Stepped s a (s.commit i op)
  | announced {a : Action} (i : ℕ) (code : UInt16) (reason : String) (action : a.call = some i)
      (announcing : s.calls i = .announcing code reason) :
      Stepped s a { s.setCall i (.releasing code reason (some .ok)) with closedSignal := true }
  | withdrawn {a : Action} (i : ℕ) {code : UInt16} {reason : String} {result : Option Outcome}
      (c : Call) (action : a.call = some i) (releasing : s.calls i = .releasing code reason result)
      (next : c = result.elim (.dropped (.close code reason)) (.returned (.close code reason))) :
      Stepped s a (s.withdraw.setCall i c)
  | received (item : ℕ × OutboundItem) (rest : List (ℕ × OutboundItem))
      (queue : s.queue = item :: rest) :
      Stepped s .recv
        { s with queue := rest, free := s.free + 1, received := s.received ++ [item] }
  | sealed : Stepped s .sealForSession { s with closing := true, sealed := true }
  | announcedSeal (sealed : s.sealed = true) : Stepped s .announceSeal { s with closedSignal := true }
  | closedReceiver (sealed : s.sealed = true) (attached : s.receiver = .attached) :
      Stepped s .closeReceiver { s with receiver := .closed }
  | droppedReceiver (sealed : s.sealed = true) :
      Stepped s .dropReceiver
        { s with receiver := .dropped, queue := [], free := s.free + s.queue.length }

@[simp] theorem leave_holdsPermit (op : Op) (result : Option Outcome) :
    (Outbound.leave op result).holdsPermit = false := by
  cases op <;> cases result <;> rfl

@[simp] theorem leave_holdsRequest (op : Op) (result : Option Outcome) :
    (Outbound.leave op result).holdsRequest = op.isClose := by
  cases op <;> cases result <;> rfl

theorem leave_hasCommitted {op : Op} {result : Option Outcome} (h : result ≠ some .ok) :
    (Outbound.leave op result).hasCommitted = false := by
  cases result with
  | none => cases op <;> rfl
  | some r => cases r <;> cases op <;> first | rfl | exact absurd rfl h

theorem stepped_from_idle {s : Outbound} {i : ℕ} {op : Op} (hidle : s.calls i = .idle) {c : Call}
    {free : ℕ} (hpermits : free + c.holdsPermit.toNat = s.free) (hrequests : c.holdsRequest = false)
    (huncommitted : c.hasCommitted = false) :
    Stepped s (.start i op) { s.setCall i c with free := free } := by
  refine .moved i c free rfl ?_ ?_ huncommitted ?_ <;> rw [hidle]
  · exact hpermits
  · exact hrequests
  · rfl

theorem stepped_start {s : Outbound} {i : ℕ} {op : Op} (hidle : s.calls i = .idle) :
    Stepped s (.start i op) (s.start i op) := by
  cases op with
  | send msg =>
    simp only [Outbound.start]
    split_ifs
    · exact stepped_from_idle hidle rfl rfl rfl
    · exact stepped_from_idle hidle rfl rfl rfl
  | trySend msg =>
    simp only [Outbound.start]
    split_ifs with hreceiver hfree
    · exact stepped_from_idle hidle rfl rfl rfl
    · exact stepped_from_idle hidle rfl rfl rfl
    · exact stepped_from_idle hidle (Nat.sub_add_cancel (Nat.pos_of_ne_zero hfree)) rfl rfl
  | close code reason =>
    simp only [Outbound.start]
    split_ifs
    · exact stepped_from_idle hidle rfl rfl rfl
    · exact stepped_from_idle hidle rfl rfl rfl
    · exact .requested i _ _ rfl hidle

theorem stepped_leave {s : Outbound} {a : Action} {i : ℕ} {op : Op} {result : Option Outcome}
    (haction : a.call = some i) (hresult : result ≠ some .ok)
    (hrequests : (s.calls i).holdsRequest = op.isClose) (hbefore : (s.calls i).hasCommitted = false) :
    Stepped s a { s.setCall i (Outbound.leave op result) with
      free := s.free + (s.calls i).holdsPermit.toNat } := by
  refine .moved i _ _ haction ?_ ?_ (leave_hasCommitted hresult) hbefore
  · rw [leave_holdsPermit]
    rfl
  · rw [leave_holdsRequest, hrequests]

theorem stepped_go {s s' : Outbound} {i : ℕ} (h : s.go i (s.calls i) = some s') :
    Stepped s (.go i) s' := by
  have hok : (some Outcome.closed) ≠ some .ok := by simp
  cases hc : s.calls i with
  | idle => simp [hc, Outbound.go] at h
  | returned op result => simp [hc, Outbound.go] at h
  | dropped op => simp [hc, Outbound.go] at h
  | requested code reason =>
    simp only [hc, Outbound.go] at h
    cases h
    split_ifs <;> exact .moved i _ s.free rfl (by rw [hc]; rfl) (by rw [hc]; rfl) rfl (by rw [hc]; rfl)
  | waiting op =>
    simp only [hc, Outbound.go] at h
    split_ifs at h
    cases h
    have hleave : Stepped s (.go i) _ := stepped_leave rfl hok (by rw [hc]; rfl) (by rw [hc]; rfl)
    rwa [hc] at hleave
  | granted op =>
    simp only [hc, Outbound.go] at h
    split_ifs at h <;> cases h
    · have hleave : Stepped s (.go i) _ := stepped_leave rfl hok (by rw [hc]; rfl) (by rw [hc]; rfl)
      rwa [hc] at hleave
    · exact .moved i _ s.free rfl (by rw [hc]; rfl) (by rw [hc]; rfl) rfl (by rw [hc]; rfl)
  | refused msg =>
    simp only [hc, Outbound.go] at h
    cases h
    split_ifs <;> exact .moved i _ s.free rfl (by rw [hc]; rfl) (by rw [hc]; rfl) rfl (by rw [hc]; rfl)
  | reserved op =>
    simp only [hc, Outbound.go] at h
    cases h
    cases hclosing : s.closing with
    | false => exact .committed i op rfl hc hclosing
    | true =>
      have hleave : Stepped s (.go i) _ := stepped_leave rfl hok (by rw [hc]; rfl) (by rw [hc]; rfl)
      rw [hc] at hleave
      rw [Outbound.commit, if_pos hclosing]
      exact hleave
  | announcing code reason =>
    simp only [hc, Outbound.go] at h
    cases h
    exact .announced i code reason rfl hc
  | releasing code reason result =>
    cases result <;> simp only [hc, Outbound.go] at h <;> cases h <;>
      exact .withdrawn i _ rfl hc rfl

theorem stepped_drop {s s' : Outbound} {i : ℕ} (h : s.drop i (s.calls i) = some s') :
    Stepped s (.drop i) s' := by
  have hok : (none : Option Outcome) ≠ some .ok := by simp
  cases hc : s.calls i <;> simp only [hc, Outbound.drop] at h <;> cases h <;>
    (have hleave : Stepped s (.drop i) _ := stepped_leave rfl hok (by rw [hc]; rfl) (by rw [hc]; rfl)
     rwa [hc] at hleave)

theorem step_cases {s s' : Outbound} {a : Action} (h : s.step a = some s') : Stepped s a s' := by
  cases a with
  | start i op =>
    simp only [Outbound.step] at h
    split_ifs at h with hidle
    cases h
    exact stepped_start hidle
  | grant i =>
    simp only [Outbound.step] at h
    cases hc : s.calls i <;> simp only [hc] at h <;> try cases h
    split_ifs at h with hfree
    cases h
    refine .moved i _ _ rfl ?_ ?_ rfl ?_ <;> rw [hc]
    · exact Nat.sub_add_cancel hfree.2
    · rfl
    · rfl
  | go i => exact stepped_go h
  | drop i => exact stepped_drop h
  | recv =>
    simp only [Outbound.step, Outbound.recv] at h
    cases hq : s.queue <;> simp only [hq] at h <;> cases h
    exact .received _ _ hq
  | sealForSession =>
    cases h
    exact .sealed
  | announceSeal =>
    simp only [Outbound.step] at h
    split_ifs at h with hsealed
    cases h
    exact .announcedSeal hsealed
  | closeReceiver =>
    simp only [Outbound.step] at h
    split_ifs at h with hsealed
    cases h
    exact .closedReceiver hsealed.1 hsealed.2
  | dropReceiver =>
    simp only [Outbound.step] at h
    split_ifs at h with hsealed
    cases h
    exact .droppedReceiver hsealed.1

/-- Permits and close requests are where the calls say they are. -/
structure Outbound.Balanced (s : Outbound) (capacity : ℕ) : Prop where
  permits : ∃ n, Counted Call.holdsPermit s.calls n ∧ s.free + n + s.queue.length = capacity
  requests : Counted Call.holdsRequest s.calls s.pending
  signal : 0 < s.pending → s.closeRequestSignal = true

theorem balanced_channel (capacity : ℕ) :
    (Outbound.channel capacity).Balanced (max capacity 1) :=
  ⟨⟨0, counted_zero (fun _ => rfl), rfl⟩, counted_zero (fun _ => rfl),
    fun h => absurd h (Nat.lt_irrefl 0)⟩

theorem commit_running {s : Outbound} {i : ℕ} {op : Op} (h : s.closing = false) :
    s.commit i op = { s.setCall i (Outbound.accepted op) with
      closing := op.isClose
      queue := s.queue ++ [(i, op.item)]
      committed := s.committed ++ [(i, op.item)] } := by
  simp [Outbound.commit, h]

theorem balanced_step {s s' : Outbound} {a : Action} {capacity : ℕ} (h : Stepped s a s')
    (hs : s.Balanced capacity) : s'.Balanced capacity := by
  obtain ⟨n, hn, hsum⟩ := hs.permits
  cases h with
  | moved i c free _ hpermits hrequests _ _ =>
    obtain ⟨n', hn', heq⟩ := hn.exists_update i c
    refine ⟨⟨n', hn', ?_⟩, hs.requests.update ?_, hs.signal⟩
    · change free + n' + s.queue.length = capacity
      omega
    · change s.pending + _ = s.pending + _
      rw [hrequests]
  | requested i code reason _ hidle =>
    refine ⟨⟨n, hn.update ?_, hsum⟩, hs.requests.update ?_, fun _ => rfl⟩
    · rw [hidle]
      rfl
    · rw [hidle]
      rfl
  | committed i op _ hreserved hrunning =>
    obtain ⟨n', hn', heq⟩ := hn.exists_update i (Outbound.accepted op)
    have haccepted : (Outbound.accepted op).holdsPermit = false := by cases op <;> rfl
    rw [haccepted, hreserved] at heq
    rw [commit_running hrunning]
    refine ⟨⟨n', hn', ?_⟩, hs.requests.update ?_, hs.signal⟩
    · simp only [Call.holdsPermit, Bool.toNat_true, Bool.toNat_false] at heq
      change s.free + n' + (s.queue ++ [(i, op.item)]).length = capacity
      rw [List.length_append, List.length_singleton]
      omega
    · rw [hreserved]
      cases op <;> rfl
  | announced i code reason _ hannouncing =>
    refine ⟨⟨n, hn.update ?_, hsum⟩, hs.requests.update ?_, hs.signal⟩ <;> rw [hannouncing] <;> rfl
  | @withdrawn _ i code reason result c _ hreleasing hnext =>
    have hpermit : c.holdsPermit = false := by cases result <;> rw [hnext] <;> rfl
    have hrequest : c.holdsRequest = false := by cases result <;> rw [hnext] <;> rfl
    have hpos : 0 < s.pending := hs.requests.pos (i := i) (by rw [hreleasing]; rfl)
    refine ⟨⟨n, hn.update ?_, hsum⟩, hs.requests.update ?_, ?_⟩
    · rw [hpermit, hreleasing]
      rfl
    · rw [hrequest, hreleasing]
      change s.pending + 0 = s.pending - 1 + 1
      omega
    · intro hpending
      change (decide (0 < s.pending - 1) || s.closing) = true
      have hpending' : 0 < s.pending - 1 := hpending
      simp [hpending']
  | received item rest hqueue =>
    refine ⟨⟨n, hn, ?_⟩, hs.requests, hs.signal⟩
    rw [hqueue, List.length_cons] at hsum
    change s.free + 1 + n + rest.length = capacity
    omega
  | sealed => exact ⟨⟨n, hn, hsum⟩, hs.requests, hs.signal⟩
  | announcedSeal => exact ⟨⟨n, hn, hsum⟩, hs.requests, hs.signal⟩
  | closedReceiver => exact ⟨⟨n, hn, hsum⟩, hs.requests, hs.signal⟩
  | droppedReceiver =>
    refine ⟨⟨n, hn, ?_⟩, hs.requests, hs.signal⟩
    change s.free + s.queue.length + n + 0 = capacity
    omega

/-- Commits, calls and receives tell the same story. -/
structure Outbound.Ordered (s : Outbound) : Prop where
  closing : s.closing = true ↔ s.sealed = true ∨ ∃ x ∈ s.committed, x.2.isClose = true
  receiver : s.receiver ≠ .attached → s.sealed = true
  last : ∀ x ∈ s.committed.dropLast, x.2.isClose = false
  received : s.received <+: s.committed
  queued : s.receiver ≠ .dropped → s.committed = s.received ++ s.queue
  dropped : s.receiver = .dropped → s.queue = []
  once : (s.committed.map Prod.fst).Nodup
  comes : ∀ i, i ∈ s.committed.map Prod.fst ↔ (s.calls i).hasCommitted = true
  item : ∀ x ∈ s.committed, ∃ op, (s.calls x.1).op = some op ∧ op.item = x.2

theorem ordered_channel (capacity : ℕ) : (Outbound.channel capacity).Ordered := by
  constructor <;> simp [Outbound.channel, Call.hasCommitted]

namespace Outbound.Ordered
variable {s : Outbound}

theorem setCall (h : s.Ordered) {i : ℕ} {c : Call}
    (hcommitted : c.hasCommitted = (s.calls i).hasCommitted)
    (hop : c.hasCommitted = true → c.op = (s.calls i).op) : (s.setCall i c).Ordered := by
  refine ⟨h.closing, h.receiver, h.last, h.received, h.queued, h.dropped, h.once, ?_, ?_⟩
  · intro j
    refine (h.comes j).trans ?_
    by_cases hj : j = i
    · subst hj
      simp [Outbound.setCall, hcommitted]
    · simp [Outbound.setCall, hj]
  · intro x hx
    obtain ⟨op, hxop, hitem⟩ := h.item x hx
    refine ⟨op, ?_, hitem⟩
    by_cases hj : x.1 = i
    · have hcom : (s.calls i).hasCommitted = true :=
        (h.comes i).mp (hj ▸ List.mem_map_of_mem hx)
      rw [hj] at hxop ⊢
      simpa [Outbound.setCall] using (hop (hcommitted.trans hcom)).trans hxop
    · simpa [Outbound.setCall, hj] using hxop

theorem keep (h : s.Ordered) (free pending : ℕ) (closeRequestSignal closedSignal : Bool) :
    Outbound.Ordered { s with
      free := free
      pending := pending
      closeRequestSignal := closeRequestSignal
      closedSignal := closedSignal } :=
  ⟨h.closing, h.receiver, h.last, h.received, h.queued, h.dropped, h.once, h.comes, h.item⟩

theorem commit (h : s.Ordered) {i : ℕ} {op : Op} (hreserved : s.calls i = .reserved op)
    (hrunning : s.closing = false) : (s.commit i op).Ordered := by
  have hfresh : i ∉ s.committed.map Prod.fst := by
    rw [h.comes i, hreserved]
    simp [Call.hasCommitted]
  have hopen : ∀ x ∈ s.committed, x.2.isClose = false := by
    intro x hx
    by_contra hclose
    have := h.closing.mpr (.inr ⟨x, hx, by simpa using hclose⟩)
    simp [hrunning] at this
  have hunsealed : s.sealed = false := by
    by_contra hsealed
    have := h.closing.mpr (.inl (by simpa using hsealed))
    simp [hrunning] at this
  have hattached : s.receiver = .attached := by
    by_contra hreceiver
    have := h.receiver hreceiver
    simp [hunsealed] at this
  have hclose : op.item.isClose = op.isClose := by cases op <;> rfl
  have hqueued : s.committed = s.received ++ s.queue := h.queued (by simp [hattached])
  rw [commit_running hrunning]
  refine ⟨?_, h.receiver, ?_, ?_, ?_, ?_, ?_, ?_, ?_⟩
  · change op.isClose = true ↔ s.sealed = true ∨ ∃ x ∈ s.committed ++ [(i, op.item)], _
    rw [hunsealed, ← hclose]
    constructor
    · exact fun hop => .inr ⟨(i, op.item), by simp, hop⟩
    · rintro (hsealed | ⟨x, hx, hop⟩)
      · cases hsealed
      · rcases List.mem_append.mp hx with hx | hx
        · rw [hopen x hx] at hop
          cases hop
        · rwa [List.mem_singleton.mp hx] at hop
  · change ∀ x ∈ (s.committed ++ [(i, op.item)]).dropLast, x.2.isClose = false
    rw [List.dropLast_concat]
    exact hopen
  · exact h.received.trans (List.prefix_append _ _)
  · intro _
    change s.committed ++ [(i, op.item)] = s.received ++ (s.queue ++ [(i, op.item)])
    rw [hqueued, List.append_assoc]
  · intro hdropped
    change s.receiver = .dropped at hdropped
    rw [hattached] at hdropped
    cases hdropped
  · change ((s.committed ++ [(i, op.item)]).map Prod.fst).Nodup
    rw [List.map_append, List.nodup_append]
    refine ⟨h.once, by simp, ?_⟩
    intro j hj k hk hjk
    rw [List.map_singleton, List.mem_singleton] at hk
    rw [hjk, hk] at hj
    exact hfresh hj
  · intro j
    change j ∈ (s.committed ++ [(i, op.item)]).map Prod.fst ↔
      (Function.update s.calls i (Outbound.accepted op) j).hasCommitted = true
    rw [List.map_append, List.mem_append, h.comes j]
    by_cases hj : j = i
    · subst hj
      have haccepted : (Outbound.accepted op).hasCommitted = true := by cases op <;> rfl
      simp [haccepted]
    · simp [hj]
  · intro x hx
    change ∃ op', (Function.update s.calls i (Outbound.accepted op) x.1).op = some op' ∧ _
    rcases List.mem_append.mp hx with hx | hx
    · have hne : x.1 ≠ i := fun heq => hfresh (heq ▸ List.mem_map_of_mem hx)
      rw [Function.update_of_ne hne]
      exact h.item x hx
    · rw [List.mem_singleton.mp hx, Function.update_self]
      cases op <;> exact ⟨_, rfl, rfl⟩

theorem recv (h : s.Ordered) {item : ℕ × OutboundItem} {rest : List (ℕ × OutboundItem)}
    (hqueue : s.queue = item :: rest) :
    Outbound.Ordered { s with
      queue := rest
      free := s.free + 1
      received := s.received ++ [item] } := by
  have hnot : s.receiver ≠ .dropped := by
    intro hdropped
    rw [h.dropped hdropped] at hqueue
    cases hqueue
  have hcommitted : s.committed = s.received ++ [item] ++ rest := by
    rw [h.queued hnot, hqueue, List.append_assoc, List.singleton_append]
  exact ⟨h.closing, h.receiver, h.last, ⟨rest, hcommitted.symm⟩, fun _ => hcommitted,
    fun hdropped => absurd hdropped hnot, h.once, h.comes, h.item⟩

end Outbound.Ordered

theorem ordered_step {s s' : Outbound} {a : Action} (h : Stepped s a s') (hs : s.Ordered) :
    s'.Ordered := by
  cases h with
  | moved i c free _ _ _ hafter hbefore =>
    exact (hs.setCall (hafter.trans hbefore.symm) (by simp [hafter])).keep free _ _ _
  | requested i code reason _ hidle =>
    have hset : (s.setCall i (.requested code reason)).Ordered :=
      hs.setCall (by rw [hidle]; rfl) (by simp [Call.hasCommitted])
    exact hset.keep _ _ _ _
  | committed i op _ hreserved hrunning => exact hs.commit hreserved hrunning
  | announced i code reason _ hannouncing =>
    have hset : (s.setCall i (.releasing code reason (some .ok))).Ordered :=
      hs.setCall (by rw [hannouncing]; rfl) (fun _ => by rw [hannouncing]; rfl)
    exact hset.keep _ _ _ _
  | @withdrawn _ i code reason result c _ hreleasing hnext =>
    have hset : (s.setCall i c).Ordered := by
      refine hs.setCall ?_ ?_ <;> rw [hreleasing, hnext]
      · cases result with
        | none => rfl
        | some r => cases r <;> rfl
      · cases result <;> exact fun _ => rfl
    exact hset.keep _ _ _ _
  | received item rest hqueue => exact hs.recv hqueue
  | sealed =>
    exact ⟨⟨fun _ => .inl rfl, fun _ => rfl⟩, fun _ => rfl, hs.last, hs.received, hs.queued, hs.dropped,
      hs.once, hs.comes, hs.item⟩
  | announcedSeal => exact hs.keep _ _ _ _
  | closedReceiver hsealed hattached =>
    exact ⟨hs.closing, fun _ => hsealed, hs.last, hs.received,
      fun _ => hs.queued (by simp [hattached]), (by simp), hs.once, hs.comes, hs.item⟩
  | droppedReceiver hsealed =>
    exact ⟨hs.closing, fun _ => hsealed, hs.last, hs.received, fun h => absurd rfl h, fun _ => rfl,
      hs.once, hs.comes, hs.item⟩

/-- What the channel offers to the calls other than `i`. -/
structure Offer where
  free : ℕ
  queue : List (ℕ × OutboundItem)
  receiver : ReceiverState
  closing : Bool
  closedSignal : Bool
  sealed : Bool

def Outbound.offer (s : Outbound) (i : ℕ) : Offer where
  free := s.free + (s.calls i).holdsPermit.toNat
  queue := s.queue
  receiver := s.receiver
  closing := s.closing
  closedSignal := s.closedSignal
  sealed := s.sealed

/-- A call that has put nothing into the channel is invisible to the others. -/
theorem offer_step {s s' : Outbound} {a : Action} {i : ℕ} (h : Stepped s a s')
    (hcall : a.call = some i) (huncommitted : (s'.calls i).hasCommitted = false) :
    s'.offer i = s.offer i ∧ ∀ j ≠ i, s'.calls j = s.calls j := by
  cases h with
  | moved k c free haction hpermits _ _ _ =>
    cases hcall.symm.trans haction
    refine ⟨?_, fun j hj => Function.update_of_ne hj _ _⟩
    simp [Outbound.offer, Outbound.setCall, hpermits]
  | requested k code reason haction hidle =>
    cases hcall.symm.trans haction
    refine ⟨?_, fun j hj => Function.update_of_ne hj _ _⟩
    simp [Outbound.offer, Outbound.setCall, Outbound.request, hidle, Call.holdsPermit]
  | committed k op haction hreserved hrunning =>
    cases hcall.symm.trans haction
    have haccepted : (Outbound.accepted op).hasCommitted = true := by cases op <;> rfl
    simp [commit_running hrunning, Outbound.setCall, haccepted] at huncommitted
  | announced k code reason haction _ =>
    cases hcall.symm.trans haction
    simp [Outbound.setCall, Call.hasCommitted] at huncommitted
  | @withdrawn _ k code reason result c haction hreleasing hnext =>
    cases hcall.symm.trans haction
    have hpermit : c.holdsPermit = (s.calls i).holdsPermit := by
      rw [hreleasing]
      cases result <;> rw [hnext] <;> rfl
    refine ⟨?_, fun j hj => Function.update_of_ne hj _ _⟩
    simp [Outbound.offer, Outbound.setCall, Outbound.withdraw, hpermit]
  | received => cases hcall
  | sealed => cases hcall
  | announcedSeal => cases hcall
  | closedReceiver => cases hcall
  | droppedReceiver => cases hcall

theorem committed_step {s s' : Outbound} {a : Action} (h : Stepped s a s') :
    s.committed <+: s'.committed ∧
      (s.closing = true → s'.closing = true ∧ s'.committed = s.committed) := by
  cases h with
  | committed i op _ _ hrunning =>
    rw [commit_running hrunning]
    exact ⟨List.prefix_append _ _, by simp [hrunning]⟩
  | sealed => exact ⟨List.prefix_rfl, fun _ => ⟨rfl, rfl⟩⟩
  | _ => exact ⟨List.prefix_rfl, fun h => ⟨h, rfl⟩⟩

structure Outbound.Called (s s' : Outbound) : Prop where
  received : s'.received = s.received
  receiver : s'.receiver = s.receiver
  sealed : s'.sealed = s.sealed
  queue : s.queue <+: s'.queue
  committed : s.committed <+: s'.committed
  closing : s.closing = true → s'.committed = s.committed
  signal : s.closedSignal = true → s'.closedSignal = true

theorem called_step {s s' : Outbound} {a : Action} {i : ℕ} (hcall : a.call = some i)
    (h : Stepped s a s') : s.Called s' := by
  have hcommitted := committed_step h
  cases h with
  | moved | requested | withdrawn =>
    exact ⟨rfl, rfl, rfl, List.prefix_rfl, hcommitted.1, fun _ => rfl, id⟩
  | announced => exact ⟨rfl, rfl, rfl, List.prefix_rfl, hcommitted.1, fun _ => rfl, fun _ => rfl⟩
  | committed i op _ _ hrunning =>
    rw [commit_running hrunning] at hcommitted ⊢
    exact ⟨rfl, rfl, rfl, List.prefix_append _ _, hcommitted.1,
      fun hclosing => (hcommitted.2 hclosing).2, id⟩
  | received | sealed | announcedSeal | closedReceiver | droppedReceiver => cases hcall

/-- The request signal is taken back only with the last request, and never when closing. -/
theorem signal_step {s s' : Outbound} {a : Action} (h : Stepped s a s')
    (hbefore : s.closeRequestSignal = true) (hafter : s'.closeRequestSignal = false) :
    s'.pending = 0 ∧ s'.closing = false := by
  have hsame : s'.closeRequestSignal = s.closeRequestSignal → s'.pending = 0 ∧ s'.closing = false := by
    intro heq
    rw [heq, hbefore] at hafter
    cases hafter
  cases h with
  | requested => cases hafter
  | committed i op _ _ hrunning => exact hsame (by rw [commit_running hrunning]; rfl)
  | withdrawn i c _ _ _ =>
    change (decide (0 < s.pending - 1) || s.closing) = false at hafter
    simp only [Bool.or_eq_false_iff, decide_eq_false_iff_not] at hafter
    exact ⟨Nat.eq_zero_of_not_pos hafter.1, hafter.2⟩
  | _ => exact hsame rfl

structure Outbound.Invariant (s : Outbound) (capacity : ℕ) : Prop where
  balanced : s.Balanced capacity
  ordered : s.Ordered

theorem invariant_channel (capacity : ℕ) : (Outbound.channel capacity).Invariant (max capacity 1) :=
  ⟨balanced_channel capacity, ordered_channel capacity⟩

theorem invariant_step {s s' : Outbound} {a : Action} {capacity : ℕ} (hs : s.Invariant capacity)
    (h : s.step a = some s') : s'.Invariant capacity :=
  ⟨balanced_step (step_cases h) hs.balanced, ordered_step (step_cases h) hs.ordered⟩

theorem invariant_run {capacity : ℕ} {actions : List Action} {s s' : Outbound}
    (hs : s.Invariant capacity) (h : run Outbound.step actions s = some s') :
    s'.Invariant capacity :=
  run_invariant (fun s : Outbound => s.Invariant capacity)
    (fun _ _ _ _ hs ht => invariant_step hs ht) hs h

theorem committed_run {actions : List Action} {s s' : Outbound}
    (h : run Outbound.step actions s = some s') :
    s.committed <+: s'.committed ∧
      (s.closing = true → s'.closing = true ∧ s'.committed = s.committed) := by
  refine run_invariant (fun t : Outbound => s.committed <+: t.committed ∧
    (s.closing = true → t.closing = true ∧ t.committed = s.committed)) ?_
    ⟨List.prefix_rfl, fun h => ⟨h, rfl⟩⟩ h
  intro a _ t t' ht hstep
  obtain ⟨hgrown, hclosing⟩ := committed_step (step_cases hstep)
  refine ⟨ht.1.trans hgrown, fun h => ?_⟩
  have hclosing' := hclosing (ht.2 h).1
  exact ⟨hclosing'.1, hclosing'.2.trans (ht.2 h).2⟩

theorem hasCommitted_returned {op : Op} {r : Outcome} :
    (Call.returned op r).hasCommitted = true ↔ r = .ok := by
  cases r <;> simp [Call.hasCommitted]

theorem Outbound.Ordered.mem_committed {s : Outbound} (h : s.Ordered) {i : ℕ} {op : Op}
    (hop : (s.calls i).op = some op) :
    (i, op.item) ∈ s.committed ↔ (s.calls i).hasCommitted = true := by
  rw [← h.comes i]
  constructor
  · exact fun hmem => List.mem_map_of_mem hmem
  · intro hmem
    obtain ⟨x, hx, rfl⟩ := List.mem_map.mp hmem
    obtain ⟨op', hop', hitem⟩ := h.item x hx
    cases hop.symm.trans hop'
    rw [hitem]
    exact hx

theorem Outbound.Ordered.queue_dropLast {s : Outbound} (h : s.Ordered) :
    ∀ x ∈ s.queue.dropLast, x.2.isClose = false := by
  intro x hx
  by_cases hdropped : s.receiver = .dropped
  · simp [h.dropped hdropped] at hx
  · refine h.last x ?_
    have hne : s.queue ≠ [] := by
      rintro hnil
      simp [hnil] at hx
    rw [h.queued hdropped, List.dropLast_append_of_ne_nil hne]
    exact List.mem_append_right _ hx

/-- The law of the queue, in every reachable state and after any further run. -/
theorem sender_law {capacity : ℕ} {before after : List Action} {s s' : Outbound}
    (hbefore : run Outbound.step before (.channel capacity) = some s)
    (hafter : run Outbound.step after s = some s') :
    (s.queue.length ≤ max capacity 1 ∧ (∀ x ∈ s.queue.dropLast, x.2.isClose = false) ∧
        ∀ x ∈ s.committed.dropLast, x.2.isClose = false) ∧
      ((∀ i op r, s.calls i = .returned op r → (r = .ok ↔ (i, op.item) ∈ s.committed)) ∧
        (s.committed.map Prod.fst).Nodup ∧
        (∀ i item, (i, item) ∈ s.committed → (s'.calls i).hasCommitted = true ∧
          ∃ op, (s'.calls i).op = some op ∧ op.item = item) ∧
        s.received <+: s.committed ∧
        (s.receiver ≠ .dropped → s.committed = s.received ++ s.queue)) ∧
      ((s.sealed = true ∨ ∃ x ∈ s.committed, x.2.isClose = true) →
        ∀ i op, s'.calls i = .returned op .ok → (i, op.item) ∈ s.committed) ∧
      ((∀ i a t, a.call = some i → s.step a = some t → (t.calls i).hasCommitted = false →
          t.offer i = s.offer i ∧ ∀ j ≠ i, t.calls j = s.calls j) ∧
        ∀ i op r, s.calls i = .returned op r ∨ s.calls i = .dropped op →
          (s.calls i).holdsPermit = false ∧ (s.calls i).holdsRequest = false) ∧
      ((∃ i, (s.calls i).holdsRequest = true) → s.closeRequestSignal = true) ∧
      ∀ a t, s.step a = some t → s.closeRequestSignal = true → t.closeRequestSignal = false →
        (∀ i, (t.calls i).holdsRequest = false) ∧ t.sealed = false ∧
          ∀ x ∈ t.committed, x.2.isClose = false := by
  have hinvariant := invariant_run (invariant_channel capacity) hbefore
  have hbalanced := hinvariant.balanced
  have hordered := hinvariant.ordered
  have hordered' := (invariant_run hinvariant hafter).ordered
  obtain ⟨hgrown, hclosing⟩ := committed_run hafter
  refine ⟨⟨?_, hordered.queue_dropLast, hordered.last⟩,
    ⟨?_, hordered.once, ?_, hordered.received, hordered.queued⟩, ?_, ⟨?_, ?_⟩, ?_, ?_⟩
  · obtain ⟨n, -, hsum⟩ := hbalanced.permits
    omega
  · intro i op r hreturned
    have hop : (s.calls i).op = some op := by
      rw [hreturned]
      rfl
    rw [hordered.mem_committed hop, hreturned, hasCommitted_returned]
  · intro i item hmem
    have hmem' := hgrown.subset hmem
    obtain ⟨op, hop, hitem⟩ := hordered'.item _ hmem'
    exact ⟨(hordered'.comes i).mp (List.mem_map_of_mem hmem'), op, hop, hitem⟩
  · intro hclosed i op hreturned
    have hop : (s'.calls i).op = some op := by
      rw [hreturned]
      rfl
    rw [← (hclosing (hordered.closing.mpr hclosed)).2, hordered'.mem_committed hop, hreturned]
    rfl
  · exact fun i a t hcall ht hun => offer_step (step_cases ht) hcall hun
  · rintro i op r (hended | hended) <;> rw [hended] <;> exact ⟨rfl, rfl⟩
  · rintro ⟨i, hi⟩
    exact hbalanced.signal (hbalanced.requests.pos hi)
  · intro a t ht hon hoff
    have hstepped := step_cases ht
    obtain ⟨hpending, hrunning⟩ := signal_step hstepped hon hoff
    have hrequests := (balanced_step hstepped hbalanced).requests
    have hnone := mt (ordered_step hstepped hordered).closing.mpr (by simp [hrunning])
    rw [hpending] at hrequests
    refine ⟨hrequests.none_of_zero, ?_, ?_⟩
    · by_contra hsealed
      exact hnone (.inl (by simpa using hsealed))
    · intro x hx
      by_contra hclose
      exact hnone (.inr ⟨x, hx, by simpa using hclose⟩)

/-- A queue of one place: a push, a `close` that waits for room and is dropped, a second `close`
that commits, and a `try_send` that finds the queue full. -/
def sendAndClose : List Action :=
  [.start 0 (.send (.text "a")), .grant 0, .go 0, .go 0,
    .start 1 (.close 1000 "bye"), .go 1, .drop 1, .go 1,
    .start 2 (.close 1000 "bye"), .go 2, .recv, .grant 2, .go 2, .start 3 (.trySend (.text "b")),
    .go 2, .go 3]

theorem sender_law_sendAndClose :
    ∃ s s', run Outbound.step sendAndClose (.channel 1) = some s ∧
      run Outbound.step [.go 2, .go 2, .recv] s = some s' ∧
      s.committed = [(0, .message (.text "a")), (2, .close 1000 "bye")] ∧
      s.calls 1 = .dropped (.close 1000 "bye") ∧
      s.calls 3 = .returned (.trySend (.text "b")) .closed ∧
      s'.calls 2 = .returned (.close 1000 "bye") .ok ∧ s'.received = s.committed ∧
      s.received <+: s.committed :=
  ⟨_, _, rfl, rfl, rfl, rfl, rfl, rfl, rfl,
    (sender_law (show run Outbound.step sendAndClose (.channel 1) = some _ from rfl)
      (show run Outbound.step [.go 2, .go 2, .recv] _ = some _ from rfl)).2.1.2.2.2.1⟩

end FandheBackend.WsSender
