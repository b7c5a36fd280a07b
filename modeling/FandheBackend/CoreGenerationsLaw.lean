import FandheBackend.ActionRuns
import FandheBackend.CoreGenerations

set_option autoImplicit false

namespace FandheBackend.CoreGenerations
open ActionRuns WatchChannel

/-- How far a swap is, at a statement of `run_until`. -/
structure Stage where
  -- One while the new listener is in force and the new flag is not there yet.
  listener : ℕ
  joinSet : ℕ
  cancel : ℕ
  -- The command whose generation has no flag yet.
  command : Option ℕ
  stored : Bool
  deriving DecidableEq, Repr

namespace Point

def stage : Point → Stage
  | .pollShutdown | .pollRebind | .pollAccept | .spawnAccepted _ | .reply _
  | .dropRebind | .storeLastFlag => ⟨0, 0, 0, none, false⟩
  | .storeFlag call => ⟨0, 0, 0, some call, false⟩
  | .drainBacklog call _ | .spawnDrained call _ | .swapListener call => ⟨0, 0, 0, some call, true⟩
  | .swapJoinSet call => ⟨1, 0, 0, some call, true⟩
  | .swapCancel call => ⟨1, 1, 0, some call, true⟩
  | .spawnDrain call _ | .renewFlag call => ⟨1, 1, 1, some call, true⟩
  | .fireLast | .awaitDrain | .ended => ⟨0, 0, 0, none, true⟩

def stopping : Point → Bool
  | .dropRebind | .storeLastFlag | .fireLast | .awaitDrain | .ended => true
  | _ => false

def streams : Point → List Listener
  | .spawnAccepted stream => [stream]
  | .drainBacklog _ drained | .spawnDrained _ drained => drained
  | _ => []

end Point

/-- The numbers of what `run_until` holds when a swap is at a stage. -/
structure Loop.Numbered (l : Loop) (stage : Stage) : Prop where
  installed : l.installed = .bound :: (l.taken.take (l.flag + stage.listener)).map Listener.rebound
  taken : l.taken.length = l.flag + stage.command.toList.length
  command : ∀ call, stage.command = some call → l.taken[l.flag]? = some call
  listener : l.installed[l.flag + stage.listener]? = some l.listener
  joinSet : l.joinSet = l.flag + stage.joinSet
  cancel : l.cancel = l.flag + stage.cancel
  older : ∀ j < l.flag, l.flags j = true
  own : l.flags l.flag = stage.stored
  newer : ∀ j, l.flag < j → l.flags j = false

structure Loop.Placed (l : Loop) : Prop where
  streams : ∀ stream ∈ l.point.streams, stream = l.listener
  reply : ∀ call, l.point = .reply call → l.listener = .rebound call
  oldCancel : ∀ call source, l.point = .spawnDrain call source → source = l.flag

namespace Loop.Numbered
variable {l : Loop} {stage : Stage}

theorem goto (h : l.Numbered stage) (point : Point) : Numbered { l with point := point } stage :=
  ⟨h.installed, h.taken, h.command, h.listener, h.joinSet, h.cancel, h.older, h.own, h.newer⟩

theorem spawn (h : l.Numbered stage) (point : Point) (connections : List Connection) :
    Numbered { l with point := point, connections := connections } stage :=
  ⟨h.installed, h.taken, h.command, h.listener, h.joinSet, h.cancel, h.older, h.own, h.newer⟩

theorem take (h : l.Numbered ⟨0, 0, 0, none, false⟩) (point : Point) (call : ℕ) :
    Numbered { l with point := point, taken := l.taken ++ [call] } ⟨0, 0, 0, some call, false⟩ := by
  have htaken : l.taken.length = l.flag := h.taken
  refine ⟨?_, ?_, ?_, h.listener, h.joinSet, h.cancel, h.older, h.own, h.newer⟩
  · have htake : (l.taken ++ [call]).take l.flag = l.taken.take l.flag := by
      rw [List.take_append_of_le_length (Nat.le_of_eq htaken.symm)]
    change l.installed = .bound :: ((l.taken ++ [call]).take l.flag).map Listener.rebound
    rw [htake]
    exact h.installed
  · simp [htaken]
  · intro i hi
    cases hi
    simp [← htaken]

theorem store (h : l.Numbered stage) (point : Point) :
    Numbered { l with point := point, flags := Function.update l.flags l.flag true }
      { stage with stored := true } := by
  refine ⟨h.installed, h.taken, h.command, h.listener, h.joinSet, h.cancel, ?_, ?_, ?_⟩
  · exact fun j hj => (Function.update_of_ne (Nat.ne_of_lt hj) ..).trans (h.older j hj)
  · exact Function.update_self ..
  · exact fun j hj => (Function.update_of_ne (Nat.ne_of_gt hj) ..).trans (h.newer j hj)

theorem swapListener {call : ℕ} (h : l.Numbered ⟨0, 0, 0, some call, true⟩) (point : Point) :
    Numbered { l with
      point := point
      listener := .rebound call
      installed := l.installed ++ [.rebound call] } ⟨1, 0, 0, some call, true⟩ := by
  have htaken : l.taken.length = l.flag + 1 := h.taken
  have hcall : l.taken[l.flag]? = some call := h.command call rfl
  have hinstalled : l.installed ++ [.rebound call] =
      .bound :: (l.taken.take (l.flag + 1)).map Listener.rebound := by
    rw [h.installed, List.take_add_one, hcall]
    simp
  refine ⟨hinstalled, h.taken, h.command, ?_, h.joinSet, h.cancel, h.older, h.own, h.newer⟩
  change (l.installed ++ [.rebound call])[l.flag + 1]? = some (.rebound call)
  rw [hinstalled]
  simp [hcall]

theorem swapJoinSet {command : Option ℕ} (h : l.Numbered ⟨1, 0, 0, command, true⟩) (point : Point) :
    Numbered { l with point := point, joinSet := l.joinSet + 1 } ⟨1, 1, 0, command, true⟩ :=
  ⟨h.installed, h.taken, h.command, h.listener, congrArg (· + 1) h.joinSet, h.cancel, h.older,
    h.own, h.newer⟩

theorem swapCancel {command : Option ℕ} (h : l.Numbered ⟨1, 1, 0, command, true⟩) (point : Point) :
    Numbered { l with point := point, cancel := l.cancel + 1 } ⟨1, 1, 1, command, true⟩ :=
  ⟨h.installed, h.taken, h.command, h.listener, h.joinSet, congrArg (· + 1) h.cancel, h.older,
    h.own, h.newer⟩

theorem renewFlag {call : ℕ} (h : l.Numbered ⟨1, 1, 1, some call, true⟩) (point : Point) :
    Numbered { l with point := point, flag := l.flag + 1 } ⟨0, 0, 0, none, false⟩ := by
  refine ⟨h.installed, h.taken, ?_, h.listener, h.joinSet, h.cancel, ?_, ?_, ?_⟩
  · intro i hi
    cases hi
  · intro j hj
    rcases Nat.lt_or_eq_of_le (Nat.le_of_lt_succ hj) with hj | rfl
    · exact h.older j hj
    · exact h.own
  · exact h.newer _ (Nat.lt_succ_self _)
  · exact fun j hj => h.newer j (Nat.lt_of_succ_lt hj)

end Loop.Numbered

/-- Where a statement may lead that takes no new connection and ends no swap. -/
structure Server.Goes (s : Server) (p : Point) : Prop where
  streams : ∀ stream ∈ p.streams, stream = s.listener ∨ stream ∈ s.point.streams
  reply : ∀ call, p ≠ .reply call
  oldCancel : ∀ call source, p ≠ .spawnDrain call source
  stopping : s.point.stopping = true → p.stopping = true

inductive Server.Turned (s : Server) : Server → Prop
  | goto {p : Point} (stage : p.stage = s.point.stage) (goes : s.Goes p) : Turned s (s.goto p)
  | take {call : ℕ} {rest : List ℕ} (point : s.point = .pollRebind)
      (queue : s.queue = call :: rest) :
      Turned s { s with
        queue := rest
        permits := s.permits + 1
        taken := s.taken ++ [call]
        point := .storeFlag call }
  | spawn {p : Point} {stream : Listener} {command : Option ℕ} {stored : Bool}
      (between : s.point.stage = ⟨0, 0, 0, command, stored⟩) (mem : stream ∈ s.point.streams)
      (stage : p.stage = s.point.stage) (goes : s.Goes p) : Turned s ((s.spawn stream).goto p)
  | store {p : Point} (stage : p.stage = { s.point.stage with stored := true }) (goes : s.Goes p) :
      Turned s ((s.store s.flag).goto p)
  | swapListener {call : ℕ} (point : s.point = .swapListener call) :
      Turned s { s with
        listener := .rebound call
        installed := s.installed ++ [.rebound call]
        point := .swapJoinSet call }
  | swapJoinSet {call : ℕ} (point : s.point = .swapJoinSet call) :
      Turned s { s with joinSet := s.joinSet + 1, point := .swapCancel call }
  | swapCancel {call : ℕ} (point : s.point = .swapCancel call) :
      Turned s { s with cancel := s.cancel + 1, point := .spawnDrain call s.cancel }
  | spawnDrain {call source : ℕ} (point : s.point = .spawnDrain call source) :
      Turned s { s with spawned := s.spawned ++ [source], point := .renewFlag call }
  | renewFlag {call : ℕ} (point : s.point = .renewFlag call) :
      Turned s { s with flag := s.flag + 1, point := .reply call }
  | reply {call : ℕ} (point : s.point = .reply call) :
      Turned s { s with
        replies := Function.update s.replies call .sent
        point := .pollShutdown }
  | dropRebind (point : s.point = .dropRebind) : Turned s (s.dropReceiver.goto .storeLastFlag)
  | fireLast (point : s.point = .fireLast) : Turned s ((s.fire s.cancel).goto .awaitDrain)
  | awaitDrain (point : s.point = .awaitDrain) : Turned s ((s.dropCancel s.cancel).goto .ended)

theorem turn_cases {s s' : Server} {accept : Accept} (h : s.turn accept = some s') :
    s.Turned s' := by
  cases hp : s.point with
  | pollShutdown =>
    simp only [Server.turn, hp] at h
    cases h
    cases hsignal : s.signalled <;>
      exact .goto (hp ▸ rfl)
        ⟨by simp [Point.streams], by simp, by simp, by simp [hp, Point.stopping]⟩
  | pollRebind =>
    simp only [Server.turn, hp] at h
    cases hq : s.queue with
    | nil =>
      simp only [hq] at h
      cases h
      exact .goto (hp ▸ rfl)
        ⟨by simp [Point.streams], by simp, by simp, by simp [hp, Point.stopping]⟩
    | cons call rest =>
      simp only [hq] at h
      cases h
      exact .take hp hq
  | pollAccept =>
    simp only [Server.turn, hp] at h
    cases accept <;> cases h <;>
      exact .goto (hp ▸ rfl)
        ⟨by simp [Point.streams], by simp, by simp, by simp [hp, Point.stopping]⟩
  | spawnAccepted stream =>
    simp only [Server.turn, hp] at h
    cases h
    exact .spawn (congrArg Point.stage hp) (by simp [hp, Point.streams]) (hp ▸ rfl)
      ⟨by simp [Point.streams], by simp, by simp, by simp [hp, Point.stopping]⟩
  | storeFlag call =>
    simp only [Server.turn, hp] at h
    cases h
    exact .store (hp ▸ rfl)
      ⟨by simp [Point.streams], by simp, by simp, by simp [hp, Point.stopping]⟩
  | drainBacklog call drained =>
    simp only [Server.turn, hp] at h
    split_ifs at h <;> cases h <;>
      exact .goto (hp ▸ rfl)
        ⟨by simp +contextual [hp, Point.streams, or_comm], by simp, by simp,
          by simp [hp, Point.stopping]⟩
  | spawnDrained call drained =>
    cases drained <;> simp only [Server.turn, hp] at h <;> cases h
    · exact .goto (hp ▸ rfl)
        ⟨by simp [Point.streams], by simp, by simp, by simp [hp, Point.stopping]⟩
    · exact .spawn (congrArg Point.stage hp) (by simp [hp, Point.streams]) (hp ▸ rfl)
        ⟨by simp +contextual [hp, Point.streams], by simp, by simp, by simp [hp, Point.stopping]⟩
  | storeLastFlag =>
    simp only [Server.turn, hp] at h
    cases h
    exact .store (hp ▸ rfl) ⟨by simp [Point.streams], by simp, by simp, by simp [Point.stopping]⟩
  | ended =>
    simp only [Server.turn, hp] at h
    cases h
  | swapListener | swapJoinSet | swapCancel | spawnDrain | renewFlag | reply | dropRebind
    | fireLast | awaitDrain =>
    simp only [Server.turn, hp] at h
    cases h
    constructor
    exact hp

theorem numbered_turn {s s' : Server} (h : s.Turned s') (hs : s.Numbered s.point.stage) :
    s'.Numbered s'.point.stage := by
  cases h with
  | goto stage => exact stage ▸ hs.goto _
  | spawn between mem stage => exact stage ▸ hs.spawn _ _
  | store stage => exact stage ▸ hs.store _
  | take point queue =>
    rw [point] at hs
    exact hs.take _ _
  | swapListener point =>
    rw [point] at hs
    exact hs.swapListener _
  | swapJoinSet point =>
    rw [point] at hs
    exact hs.swapJoinSet _
  | swapCancel point =>
    rw [point] at hs
    exact hs.swapCancel _
  | renewFlag point =>
    rw [point] at hs
    exact hs.renewFlag _
  | spawnDrain point | reply point | dropRebind point | fireLast point | awaitDrain point =>
    rw [point] at hs
    exact hs.goto _

theorem Loop.Numbered.listener_eq {l : Loop} {call : ℕ}
    (h : l.Numbered ⟨1, 1, 1, some call, true⟩) : l.listener = .rebound call := by
  have hlistener := h.listener
  have hcall : l.taken[l.flag]? = some call := h.command call rfl
  have hlength : l.taken.length = l.flag + 1 := h.taken
  rw [h.installed] at hlistener
  simpa [hcall, eq_comm] using hlistener

theorem placed_of_goes {s t : Server} {p : Point} (hs : s.Placed) (goes : s.Goes p)
    (hlistener : t.listener = s.listener) : (t.goto p).Placed := by
  refine ⟨?_, fun call hp => absurd hp (goes.reply call),
    fun call source hp => absurd hp (goes.oldCancel call source)⟩
  intro stream hmem
  rcases goes.streams stream hmem with hstream | hold
  · exact hstream.trans hlistener.symm
  · exact (hs.streams stream hold).trans hlistener.symm

theorem placed_turn {s s' : Server} (h : s.Turned s') (hnum : s.Numbered s.point.stage)
    (hs : s.Placed) : s'.Placed := by
  cases h with
  | goto stage goes | store stage goes => exact placed_of_goes hs goes rfl
  | spawn between mem stage goes => exact placed_of_goes hs goes rfl
  | swapCancel point =>
    rw [point] at hnum
    refine ⟨by simp [Point.streams], by simp, ?_⟩
    rintro _ _ ⟨⟩
    exact hnum.cancel
  | renewFlag point =>
    rw [point] at hnum
    refine ⟨by simp [Point.streams], ?_, by simp⟩
    rintro _ ⟨⟩
    exact hnum.listener_eq
  | take | swapListener | swapJoinSet | spawnDrain | reply | dropRebind | fireLast | awaitDrain =>
    exact ⟨by simp [Server.goto, Point.streams], by simp [Server.goto], by simp [Server.goto]⟩

structure Loop.Grows (l l' : Loop) : Prop where
  flag : l.flag ≤ l'.flag
  cancel : l.cancel ≤ l'.cancel
  flags : ∀ j, l.flags j = true → l'.flags j = true
  installed : l.installed <+: l'.installed
  stopping : l.point.stopping = true → l'.point.stopping = true ∧ l'.taken = l.taken

theorem Loop.Grows.refl (l : Loop) : l.Grows l :=
  ⟨Nat.le_refl _, Nat.le_refl _, fun _ h => h, List.prefix_rfl, fun h => ⟨h, rfl⟩⟩

theorem Loop.Grows.trans {l l' l'' : Loop} (h : l.Grows l') (h' : l'.Grows l'') : l.Grows l'' :=
  ⟨Nat.le_trans h.flag h'.flag, Nat.le_trans h.cancel h'.cancel,
    fun j hj => h'.flags j (h.flags j hj), h.installed.trans h'.installed,
    fun hs => ⟨(h'.stopping (h.stopping hs).1).1,
      (h'.stopping (h.stopping hs).1).2.trans (h.stopping hs).2⟩⟩

theorem store_grows (flags : ℕ → Bool) (flag : ℕ) :
    ∀ j, flags j = true → Function.update flags flag true j = true := by
  intro j hj
  by_cases hflag : j = flag
  · subst hflag
    exact Function.update_self ..
  · rw [Function.update_of_ne hflag]
    exact hj

theorem grows_turn {s s' : Server} (h : s.Turned s') : s.Grows s'.toLoop := by
  have hnot : ∀ {p : Point} {q : Prop}, s.point = p → p.stopping = false →
      s.point.stopping = true → q := by
    intro p q hp hf ht
    rw [hp, hf] at ht
    cases ht
  cases h with
  | goto stage goes =>
    exact ⟨Nat.le_refl _, Nat.le_refl _, fun _ h => h, List.prefix_rfl,
      fun h => ⟨goes.stopping h, rfl⟩⟩
  | spawn between mem stage goes =>
    exact ⟨Nat.le_refl _, Nat.le_refl _, fun _ h => h, List.prefix_rfl,
      fun h => ⟨goes.stopping h, rfl⟩⟩
  | store stage goes =>
    exact ⟨Nat.le_refl _, Nat.le_refl _, store_grows _ _, List.prefix_rfl,
      fun h => ⟨goes.stopping h, rfl⟩⟩
  | swapListener point =>
    exact ⟨Nat.le_refl _, Nat.le_refl _, fun _ h => h, List.prefix_append _ _, hnot point rfl⟩
  | swapCancel point =>
    exact ⟨Nat.le_refl _, Nat.le_succ _, fun _ h => h, List.prefix_rfl, hnot point rfl⟩
  | renewFlag point =>
    exact ⟨Nat.le_succ _, Nat.le_refl _, fun _ h => h, List.prefix_rfl, hnot point rfl⟩
  | take point | swapJoinSet point | spawnDrain point | reply point =>
    exact ⟨Nat.le_refl _, Nat.le_refl _, fun _ h => h, List.prefix_rfl, hnot point rfl⟩
  | dropRebind | fireLast | awaitDrain =>
    exact ⟨Nat.le_refl _, Nat.le_refl _, fun _ h => h, List.prefix_rfl, fun _ => ⟨rfl, rfl⟩⟩

def Call.pushed : Call → Bool
  | .waiting | .returned _ | .gone => true
  | .idle | .sending | .reserved => false

inductive Server.Aside (s : Server) : Server → Prop
  | signal : Aside s { s with signalled := true }
  | fire {task source : ℕ} (spawned : s.spawned[task]? = some source) :
      Aside s { s.fire source with
        spawned := s.spawned.eraseIdx task
        draining := s.draining ++ [source] }
  | drained {task source : ℕ} :
      Aside s { s.dropCancel source with draining := s.draining.eraseIdx task }
  | subscribe {source : ℕ} : Aside s (s.handle source)
  | poll {handle : ℕ} {r : Receiver} (handles : s.handles[handle]? = some r) :
      Aside s { s with handles := s.handles.set handle (r.poll (s.cancels r.channel) id) }
  | call {call permits : ℕ} {c : Call} (pushed : (s.calls call).pushed = true → c.pushed = true)
      (returned : c = .returned true → s.replies call = .sent) :
      Aside s { s.setCall call c with permits := permits }
  | push {call : ℕ} (reserved : s.calls call = .reserved) :
      Aside s { s.setCall call .waiting with queue := s.queue ++ [call] }

theorem stepOther_cases {s s' : Server} {a : Action} (h : s.stepOther a = some s') :
    s.Aside s' := by
  cases a with
  | turn accept => cases h
  | signal =>
    cases h
    exact .signal
  | fire task =>
    obtain ⟨source, hsource, rfl⟩ := Option.map_eq_some_iff.mp h
    exact .fire hsource
  | drained task =>
    obtain ⟨source, -, rfl⟩ := Option.map_eq_some_iff.mp h
    exact .drained
  | poll handle =>
    obtain ⟨r, hr, rfl⟩ := Option.map_eq_some_iff.mp h
    exact .poll hr
  | subscribe source =>
    simp only [Server.stepOther] at h
    split_ifs at h
    cases h
    exact .subscribe
  | bind call ok =>
    simp only [Server.stepOther] at h
    split_ifs at h with hcall hok <;> cases h
    · exact .call (by simp [hcall, Call.pushed]) (by simp)
    · exact .call (by simp [hcall, Call.pushed]) (by simp)
  | reserve call =>
    simp only [Server.stepOther] at h
    split_ifs at h with hcall hreceiving hpermits <;> cases h
    · exact .call (by simp [Call.pushed]) (by simp)
    · rw [ne_eq, Decidable.not_not] at hcall
      exact .call (by simp [hcall, Call.pushed]) (by simp)
  | push call =>
    simp only [Server.stepOther] at h
    split_ifs at h with hcall
    cases h
    rw [ne_eq, Decidable.not_not] at hcall
    exact .push hcall
  | receive call =>
    simp only [Server.stepOther] at h
    split_ifs at h
    cases hreply : s.replies call <;> simp only [hreply] at h <;> cases h
    · exact .call (fun _ => rfl) (fun _ => hreply)
    · exact .call (fun _ => rfl) (by simp)
  | cancel call =>
    simp only [Server.stepOther] at h
    split at h <;> cases h <;> exact .call (fun _ => rfl) (by simp)

/-- The other tasks write nothing of what `run_until` holds. -/
theorem stepOther_toLoop {s s' : Server} {a : Action} (h : s.stepOther a = some s') :
    s'.toLoop = s.toLoop := by
  cases stepOther_cases h <;> rfl

/-- A connection has what belongs to the listener it was accepted from. -/
structure Loop.Carried (l : Loop) (c : Connection) : Prop where
  flag : c.flag ≤ l.flag
  cancel : c.cancel = c.flag
  joinSet : c.joinSet = c.flag
  listener : l.installed[c.flag]? = some c.listener

theorem Loop.Carried.grows {l l' : Loop} {c : Connection} (h : l.Carried c) (hg : l.Grows l') :
    l'.Carried c := by
  refine ⟨Nat.le_trans h.flag hg.flag, h.cancel, h.joinSet, ?_⟩
  obtain ⟨rest, hrest⟩ := hg.installed
  rw [← hrest]
  exact (List.getElem?_append_left (List.getElem?_eq_some_iff.mp h.listener).1).trans h.listener

/-- A connection is spawned only between two swaps. -/
theorem carried_spawn {l : Loop} {command : Option ℕ} {stored : Bool} {stream : Listener}
    (hnum : l.Numbered ⟨0, 0, 0, command, stored⟩) (hstream : stream = l.listener) :
    l.Carried ⟨stream, l.flag, l.cancel, l.joinSet⟩ := by
  refine ⟨Nat.le_refl _, hnum.cancel, hnum.joinSet, ?_⟩
  rw [hstream]
  exact hnum.listener

theorem connections_turn {s s' : Server} (h : s.Turned s') (hnum : s.Numbered s.point.stage)
    (hplaced : s.Placed) : ∀ c ∈ s'.connections, c ∈ s.connections ∨ s.Carried c := by
  cases h with
  | spawn between mem =>
    rw [between] at hnum
    intro c hc
    rcases List.mem_append.mp hc with hc | hc
    · exact .inl hc
    · rw [List.mem_singleton.mp hc]
      exact .inr (carried_spawn hnum (hplaced.streams _ mem))
  | _ => exact fun c hc => .inl hc

/-- What a cancel source and the waits on it can rely on. -/
structure Server.Signals (s : Server) : Prop where
  spawned : ∀ source ∈ s.spawned, s.flags source = true
  fired : ∀ j, (s.cancels j).value = true → s.flags j = true
  attentive : ∀ r ∈ s.handles, Attentive id (s.cancels r.channel) r

namespace Server.Signals
variable {s s' : Server}

theorem keep (h : s.Signals) (hflags : ∀ j, s.flags j = true → s'.flags j = true)
    (hspawned : s'.spawned = s.spawned) (hcancels : s'.cancels = s.cancels)
    (hhandles : s'.handles = s.handles) : s'.Signals := by
  refine ⟨?_, ?_, ?_⟩
  · rw [hspawned]
    exact fun source hsource => hflags source (h.spawned source hsource)
  · rw [hcancels]
    exact fun j hj => hflags j (h.fired j hj)
  · rw [hcancels, hhandles]
    exact h.attentive

theorem handle (h : s.Signals) (source : ℕ) : (s.handle source).Signals := by
  refine ⟨h.spawned, h.fired, ?_⟩
  intro r hr
  rcases List.mem_append.mp hr with hr | hr
  · exact h.attentive r hr
  · rw [List.mem_singleton.mp hr]
    exact attentive_subscribe source

theorem change (h : s.Signals) {source : ℕ} {c : Channel Bool}
    (hfired : c.value = true → s.flags source = true)
    (hattentive : ∀ {r : Receiver}, Attentive id (s.cancels source) r →
      Attentive id c (r.wake r.channel)) :
    Server.Signals { s with
      cancels := Function.update s.cancels source c
      handles := s.handles.map (Receiver.wake source) } := by
  refine ⟨h.spawned, ?_, ?_⟩
  · intro j hj
    by_cases hsource : j = source
    · subst hsource
      exact hfired (by simpa using hj)
    · exact h.fired j (by simpa [hsource] using hj)
  · intro r' hr'
    obtain ⟨r, hr, rfl⟩ := List.mem_map.mp hr'
    have hold := h.attentive r hr
    by_cases hsource : r.channel = source
    · subst hsource
      simpa using hattentive hold
    · simpa [Receiver.wake, hsource] using hold

theorem fire (h : s.Signals) {source : ℕ} (hflag : s.flags source = true) :
    (s.fire source).Signals :=
  h.change (fun _ => hflag) (fun hr => attentive_sendReplace true hr)

theorem dropCancel (h : s.Signals) (source : ℕ) : (s.dropCancel source).Signals :=
  h.change (fun hv => h.fired source hv) (fun hr => attentive_close hr)

theorem poll (h : s.Signals) {handle : ℕ} {r : Receiver} (hr : s.handles[handle]? = some r) :
    Server.Signals { s with
      handles := s.handles.set handle (r.poll (s.cancels r.channel) id) } := by
  refine ⟨h.spawned, h.fired, ?_⟩
  intro r' hr'
  rcases List.mem_or_eq_of_mem_set hr' with hr' | rfl
  · exact h.attentive r' hr'
  · exact attentive_poll (h.attentive r (List.mem_of_getElem? hr))

end Server.Signals

theorem signals_turn {s s' : Server} (h : s.Turned s') (hnum : s.Numbered s.point.stage)
    (hplaced : s.Placed) (hs : s.Signals) : s'.Signals := by
  have hflags := (grows_turn h).flags
  cases h with
  | spawn => exact (hs.handle s.cancel).keep hflags rfl rfl rfl
  | @spawnDrain call source point =>
    have hsource : source = s.flag := hplaced.oldCancel call source point
    have hown : s.flags s.flag = true := by simpa [point, Point.stage] using hnum.own
    refine ⟨?_, hs.fired, hs.attentive⟩
    intro j hj
    rcases List.mem_append.mp hj with hj | hj
    · exact hs.spawned j hj
    · rw [List.mem_singleton.mp hj, hsource]
      exact hown
  | fireLast point =>
    have hcancel : s.cancel = s.flag := by simpa [point, Point.stage] using hnum.cancel
    have hown : s.flags s.flag = true := by simpa [point, Point.stage] using hnum.own
    exact (hs.fire (hcancel ▸ hown)).keep hflags rfl rfl rfl
  | awaitDrain => exact (hs.dropCancel s.cancel).keep hflags rfl rfl rfl
  | goto | take | store | swapListener | swapJoinSet | swapCancel | renewFlag | reply
    | dropRebind => exact hs.keep hflags rfl rfl rfl

theorem signals_stepOther {s s' : Server} {a : Action} (h : s.stepOther a = some s')
    (hs : s.Signals) : s'.Signals := by
  cases stepOther_cases h with
  | fire hspawned =>
    have hfire := hs.fire (hs.spawned _ (List.mem_of_getElem? hspawned))
    refine ⟨?_, hfire.fired, hfire.attentive⟩
    exact fun j hj => hs.spawned j (List.mem_of_mem_eraseIdx hj)
  | drained => exact (hs.dropCancel _).keep (fun _ h => h) rfl rfl rfl
  | subscribe => exact hs.handle _
  | poll hr => exact hs.poll hr
  | signal | call | push => exact hs.keep (fun _ h => h) rfl rfl rfl

/-- The listener of a call is in force, or was, and has its own flag and cancel source. -/
def Loop.Swapped (l : Loop) (call : ℕ) : Prop :=
  ∃ k, 0 < k ∧ k ≤ l.flag ∧ k ≤ l.cancel ∧ l.installed[k]? = some (.rebound call)

structure Server.Answered (s : Server) : Prop where
  sent : ∀ i, s.replies i = .sent → s.Swapped i
  returned : ∀ i, s.calls i = .returned true → s.replies i = .sent
  once : (s.taken ++ s.queue).Nodup
  pushed : ∀ i ∈ s.taken ++ s.queue, (s.calls i).pushed = true

theorem Loop.Swapped.taken {l : Loop} {stage : Stage} {call : ℕ} (hnum : l.Numbered stage)
    (h : l.Swapped call) : call ∈ l.taken := by
  obtain ⟨k, hk, -, -, hcall⟩ := h
  have hmem := List.mem_of_getElem? hcall
  rw [hnum.installed, List.mem_cons] at hmem
  rcases hmem with hmem | hmem
  · cases hmem
  · obtain ⟨i, hi, hcalls⟩ := List.mem_map.mp hmem
    cases hcalls
    exact List.mem_of_mem_take hi

theorem Loop.Swapped.grows {l l' : Loop} {call : ℕ} (h : l.Swapped call) (hg : l.Grows l') :
    l'.Swapped call := by
  obtain ⟨k, hk, hflag, hcancel, hcall⟩ := h
  refine ⟨k, hk, Nat.le_trans hflag hg.flag, Nat.le_trans hcancel hg.cancel, ?_⟩
  obtain ⟨rest, hrest⟩ := hg.installed
  rw [← hrest]
  exact (List.getElem?_append_left (List.getElem?_eq_some_iff.mp hcall).1).trans hcall

theorem swapped_reply {l : Loop} {command : Option ℕ} {stored : Bool} {call : ℕ}
    (hnum : l.Numbered ⟨0, 0, 0, command, stored⟩) (hlistener : l.listener = .rebound call) :
    l.Swapped call := by
  have hinstalled : l.installed[l.flag]? = some (.rebound call) := hlistener ▸ hnum.listener
  refine ⟨l.flag, ?_, Nat.le_refl _, Nat.le_of_eq hnum.cancel.symm, hinstalled⟩
  rw [hnum.installed] at hinstalled
  rcases Nat.eq_zero_or_pos l.flag with hzero | hpos
  · simp [hzero] at hinstalled
  · exact hpos

namespace Server.Answered
variable {s s' : Server}

theorem keep (h : s.Answered) (hg : s.Grows s'.toLoop) (htaken : s'.taken = s.taken)
    (hqueue : s'.queue = s.queue) (hcalls : s'.calls = s.calls)
    (hreplies : s'.replies = s.replies) : s'.Answered := by
  refine ⟨?_, ?_, ?_, ?_⟩
  · rw [hreplies]
    exact fun i hi => (h.sent i hi).grows hg
  · rw [hcalls, hreplies]
    exact h.returned
  · rw [htaken, hqueue]
    exact h.once
  · rw [htaken, hqueue, hcalls]
    exact h.pushed

theorem setCall (h : s.Answered) {call : ℕ} {c : Call}
    (hpushed : (s.calls call).pushed = true → c.pushed = true)
    (hok : c = .returned true → s.replies call = .sent) : (s.setCall call c).Answered := by
  refine ⟨h.sent, ?_, h.once, ?_⟩
  · intro i hi
    by_cases hcall : i = call
    · subst hcall
      exact hok (by simpa [Server.setCall] using hi)
    · exact h.returned i (by simpa [Server.setCall, hcall] using hi)
  · intro i hi
    by_cases hcall : i = call
    · subst hcall
      simpa [Server.setCall] using hpushed (h.pushed i hi)
    · simpa [Server.setCall, hcall] using h.pushed i hi

theorem push (h : s.Answered) {call : ℕ} (hcall : s.calls call = .reserved) :
    Server.Answered { s.setCall call .waiting with queue := s.queue ++ [call] } := by
  have hfresh : call ∉ s.taken ++ s.queue := by
    intro hmem
    have hpushed := h.pushed call hmem
    rw [hcall] at hpushed
    cases hpushed
  have hset : (s.setCall call .waiting).Answered := by
    refine h.setCall (fun _ => rfl) ?_
    rintro ⟨⟩
  refine ⟨hset.sent, hset.returned, ?_, ?_⟩
  · change (s.taken ++ (s.queue ++ [call])).Nodup
    rw [← List.append_assoc, List.nodup_append]
    refine ⟨h.once, List.pairwise_singleton _ call, ?_⟩
    intro i hi j hj hij
    rw [List.mem_singleton.mp hj] at hij
    exact hfresh (hij ▸ hi)
  · intro i hi
    rw [← List.append_assoc, List.mem_append] at hi
    rcases hi with hi | hi
    · exact hset.pushed i hi
    · rw [List.mem_singleton.mp hi]
      simp [Server.setCall, Call.pushed]

end Server.Answered

theorem answered_turn {s s' : Server} (h : s.Turned s') (hnum : s.Numbered s.point.stage)
    (hplaced : s.Placed) (hs : s.Answered) : s'.Answered := by
  have hg := grows_turn h
  cases h with
  | @take call rest point queue =>
    have hsame : s.taken ++ s.queue = (s.taken ++ [call]) ++ rest := by
      rw [queue, List.append_assoc, List.singleton_append]
    exact ⟨fun i hi => (hs.sent i hi).grows hg, hs.returned, hsame ▸ hs.once, hsame ▸ hs.pushed⟩
  | @reply call point =>
    rw [point] at hnum
    have hswapped : s.Swapped call := swapped_reply hnum (hplaced.reply call point)
    refine ⟨?_, ?_, hs.once, hs.pushed⟩
    · intro i hi
      by_cases hcall : i = call
      · exact hcall ▸ hswapped
      · exact hs.sent i (by simpa [hcall] using hi)
    · intro i hi
      by_cases hcall : i = call
      · simp [hcall]
      · simpa [hcall] using hs.returned i hi
  | dropRebind =>
    -- the commands still in the channel lose their reply, and none of them had one
    have hqueue : ∀ i ∈ s.queue, s.replies i ≠ .sent := by
      intro i hi hsent
      exact (List.nodup_append.mp hs.once).2.2 i ((hs.sent i hsent).taken hnum) i hi rfl
    refine ⟨?_, ?_, ?_, ?_⟩
    · intro i hi
      by_cases hmem : i ∈ s.queue
      · simp [Server.goto, Server.dropReceiver, hmem] at hi
      · exact hs.sent i (by simpa [Server.goto, Server.dropReceiver, hmem] using hi)
    · intro i hi
      have hsent := hs.returned i hi
      have hmem : i ∉ s.queue := fun hmem => hqueue i hmem hsent
      simpa [Server.goto, Server.dropReceiver, hmem] using hsent
    · simpa [Server.goto, Server.dropReceiver] using (List.nodup_append.mp hs.once).1
    · exact fun i hi => hs.pushed i (List.mem_append_left _ (by
        simpa [Server.goto, Server.dropReceiver] using hi))
  | goto | spawn | store | swapListener | swapJoinSet | swapCancel | spawnDrain | renewFlag
    | fireLast | awaitDrain => exact hs.keep hg rfl rfl rfl rfl

theorem answered_stepOther {s s' : Server} {a : Action} (h : s.stepOther a = some s')
    (hs : s.Answered) : s'.Answered := by
  have hg : s.Grows s'.toLoop := stepOther_toLoop h ▸ .refl _
  cases stepOther_cases h with
  | call hpushed hreturned => exact (hs.setCall hpushed hreturned).keep hg rfl rfl rfl rfl
  | push hcall => exact hs.push hcall
  | signal | fire | drained | subscribe | poll => exact hs.keep hg rfl rfl rfl rfl

structure Server.Invariant (s : Server) : Prop where
  numbered : s.Numbered s.point.stage
  placed : s.Placed
  carried : ∀ c ∈ s.connections, s.Carried c
  signals : s.Signals
  answered : s.Answered

theorem invariant_new : Server.new.Invariant := by
  refine ⟨⟨rfl, rfl, ?_, rfl, rfl, rfl, ?_, rfl, fun _ _ => rfl⟩, ⟨?_, ?_, ?_⟩, ?_, ⟨?_, ?_, ?_⟩,
    ⟨?_, ?_, ?_, ?_⟩⟩ <;>
    simp [Server.new, Point.stage, Point.streams, Channel.new]

theorem step_cases {s s' : Server} {a : Action} (h : s.step a = some s') :
    s.Turned s' ∨ s.stepOther a = some s' := by
  cases a with
  | turn accept => exact .inl (turn_cases h)
  | _ =>
    right
    exact h

theorem grows_step {s s' : Server} {a : Action} (h : s.step a = some s') : s.Grows s'.toLoop := by
  rcases step_cases h with h | h
  · exact grows_turn h
  · exact stepOther_toLoop h ▸ .refl _

/-- A connection has its flag and its cancel source before it is accepted. -/
theorem carried_step {s s' : Server} {a : Action} (hnum : s.Numbered s.point.stage)
    (hplaced : s.Placed) (hcarried : ∀ c ∈ s.connections, s.Carried c)
    (h : s.step a = some s') : ∀ c ∈ s'.connections, s.Carried c := by
  intro c hc
  rcases step_cases h with h | h
  · rcases connections_turn h hnum hplaced c hc with hc | hc
    · exact hcarried c hc
    · exact hc
  · rw [stepOther_toLoop h] at hc
    exact hcarried c hc

theorem invariant_step {s s' : Server} {a : Action} (hs : s.Invariant)
    (h : s.step a = some s') : s'.Invariant := by
  have hcarried : ∀ c ∈ s'.connections, s'.Carried c := fun c hc =>
    (carried_step hs.numbered hs.placed hs.carried h c hc).grows (grows_step h)
  rcases step_cases h with h | h
  · exact ⟨numbered_turn h hs.numbered, placed_turn h hs.numbered hs.placed, hcarried,
      signals_turn h hs.numbered hs.placed hs.signals,
      answered_turn h hs.numbered hs.placed hs.answered⟩
  · have hloop := stepOther_toLoop h
    refine ⟨?_, ?_, hcarried, signals_stepOther h hs.signals, answered_stepOther h hs.answered⟩
    · rw [hloop]
      exact hs.numbered
    · rw [hloop]
      exact hs.placed

theorem invariant_run {actions : List Action} {s s' : Server} (hs : s.Invariant)
    (h : run Server.step actions s = some s') : s'.Invariant :=
  run_invariant Server.Invariant (fun _ _ _ _ hinv ht => invariant_step hinv ht) hs h

end FandheBackend.CoreGenerations
