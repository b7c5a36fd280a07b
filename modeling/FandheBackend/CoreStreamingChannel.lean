import FandheBackend.ActionRuns
import FandheBackend.CoreConnection
import FandheBackend.HttpClient

set_option autoImplicit false

/-!
# Streaming bodies (`crates/core/src/streaming.rs`)

A bounded channel between the clones of a `BodyWriter` and the body loop of
`write_streaming_response`, for HTTP/1.1, the identity encoding and a socket that takes every
byte it is given. A call takes a place in the channel first and puts its event there later; the
loop receives an event and then writes its bytes one by one. `none` means that an action waits.
-/
namespace FandheBackend.CoreStreamingChannel
open StdBytes HttpChunked HttpChunkedRoundTrip HttpClient ActionRuns CoreConnection

/-- `finish` is `StreamEvent::End`. -/
inductive StreamEvent where
  | chunk (data : Bytes)
  | finish
  deriving DecidableEq, Repr

/-- The body loop. While it writes, `last` tells the terminator from a chunk. -/
inductive Loop where
  | receiving
  | writing (left : Bytes) (last : Bool)
  | returned (complete : Bool)
  deriving DecidableEq, Repr

/-- `reserved` are the events of the calls that have a place and have not used it, `writers` the
clones that have neither finished nor been dropped, `accepted` the chunks whose `send` is `Ok`. -/
structure Channel where
  queue : List StreamEvent
  reserved : List StreamEvent
  writers : ℕ
  loop : Loop
  written : Bytes
  accepted : List Bytes
  received : List RecvOutcome
  deriving DecidableEq, Repr

inductive Action where
  | clone
  | send (data : Bytes)
  | finish
  | push (i : ℕ)
  | drop
  | loop
  deriving DecidableEq, Repr

def chunkOf : StreamEvent → Option Bytes
  | .chunk data => some data
  | .finish => none

namespace Loop

def left : Loop → Bytes
  | .writing left _ => left
  | _ => []

def ended : Loop → Bool
  | .writing _ last => last
  | .returned complete => complete
  | .receiving => false

def hasReturned : Loop → Bool
  | .returned _ => true
  | _ => false

def lastRecv : Loop → List RecvOutcome
  | .returned false => [.aborted]
  | loop => if loop.ended then [.finished] else []

/-- A chunk without bytes is not written. -/
def ofFramed (framed : Bytes) : Loop := if framed.isEmpty then .receiving else .writing framed false

@[simp] theorem left_receiving : receiving.left = [] := rfl

@[simp] theorem ended_receiving : receiving.ended = false := rfl

@[simp] theorem ended_writing (left : Bytes) (last : Bool) : (writing left last).ended = last := rfl

@[simp] theorem ended_returned (complete : Bool) : (returned complete).ended = complete := rfl

@[simp] theorem lastRecv_receiving : receiving.lastRecv = [] := rfl

@[simp] theorem left_ofFramed (framed : Bytes) : (ofFramed framed).left = framed := by
  cases framed <;> rfl

@[simp] theorem ended_ofFramed (framed : Bytes) : (ofFramed framed).ended = false := by
  cases framed <;> rfl

@[simp] theorem lastRecv_ofFramed (framed : Bytes) : (ofFramed framed).lastRecv = [] := by
  cases framed <;> rfl

theorem lastRecv_of_ended {loop : Loop} (h : loop.ended = true) : loop.lastRecv = [.finished] := by
  rcases loop with _ | ⟨left, _ | _⟩ | _ | _
  · cases h
  · cases h
  · rfl
  · cases h
  · rfl

theorem lastRecv_of_running {loop : Loop} (h : loop.ended = false) :
    loop.lastRecv = [] ∨ loop.lastRecv = [.aborted] := by
  rcases loop with _ | ⟨left, _ | _⟩ | _ | _
  · exact .inl rfl
  · exact .inl rfl
  · cases h
  · exact .inr rfl
  · cases h

end Loop

namespace Channel

def new : Channel := ⟨[], [], 1, .receiving, [], [], []⟩

def finishing (c : Channel) : ℕ := c.reserved.count .finish

/-- The clones that no call uses may be dropped. -/
def busy (c : Channel) : ℕ :=
  c.finishing + if (c.reserved.filterMap chunkOf).isEmpty then 0 else 1

/-- The first half of `tx.send(event)`: an error when the loop has returned, else it waits for
a place. -/
def reserve (capacity : ℕ) (event : StreamEvent) (c : Channel) : Option (Bool × Channel) :=
  if c.loop.hasReturned then some (false, c)
  else if c.queue.length + c.reserved.length < max capacity 1 then
    some (true, { c with reserved := c.reserved ++ [event] })
  else none

/-- The second half of `tx.send(event)`: it succeeds, also after the loop has returned. -/
def push (i : ℕ) (c : Channel) : Option Channel :=
  c.reserved[i]?.map fun event =>
    let c := { c with queue := c.queue ++ [event], reserved := c.reserved.eraseIdx i }
    match event with
    | .chunk data => { c with accepted := c.accepted ++ [data] }
    | .finish => { c with writers := c.writers - 1 }

/-- `StreamingResponse::recv`; it waits while the channel is empty and has writers. -/
def recv (c : Channel) : Option (RecvOutcome × Channel) :=
  match c.queue with
  | .chunk data :: rest => some (.chunk data, { c with queue := rest })
  | .finish :: rest => some (.finished, { c with queue := rest })
  | [] => if c.writers = 0 then some (.aborted, c) else none

def loopTurn (c : Channel) : Option Channel :=
  match c.loop with
  | .returned _ => none
  | .writing (b :: left) last =>
    some { c with loop := .writing left last, written := c.written ++ [b] }
  | .writing [] last => some { c with loop := if last then .returned true else .receiving }
  | .receiving =>
    c.recv.map fun r =>
      let c := { r.2 with received := c.received ++ [r.1] }
      match r.1 with
      | .chunk data => { c with loop := .ofFramed (encodeChunk data []) }
      | .finished => { c with loop := .writing (encodeTerminator []) true }
      | .aborted => { c with loop := .returned false }

def step (capacity : ℕ) (c : Channel) : Action → Option Channel
  | .clone => if c.finishing < c.writers then some { c with writers := c.writers + 1 } else none
  | .send data =>
    if c.finishing < c.writers then (c.reserve capacity (.chunk data)).map Prod.snd else none
  | .finish =>
    if c.busy < c.writers then
      (c.reserve capacity .finish).map fun r =>
        if r.1 then r.2 else { r.2 with writers := r.2.writers - 1 }
    else none
  | .push i => c.push i
  | .drop => if c.busy < c.writers then some { c with writers := c.writers - 1 } else none
  | .loop => c.loopTurn

end Channel

def behindFinish : List StreamEvent → List Bytes
  | [] => []
  | .chunk _ :: rest => behindFinish rest
  | .finish :: rest => rest.filterMap chunkOf

def lost (c : Channel) : List Bytes :=
  if c.loop.ended then c.queue.filterMap chunkOf else behindFinish c.queue

/-- No data is put behind an end marker, whether it waits in the channel or the loop has taken
it. -/
def Orderly (c : Channel) : Action → Prop
  | .push i =>
    ∀ data, c.reserved[i]? = some (.chunk data) →
      .finish ∈ c.queue ∨ c.loop.ended = true → data = []
  | _ => True

/-- What holds between the calls so far, the chunks delivered and the bytes on the wire. -/
structure Delivered (c : Channel) (ds : List Bytes) : Prop where
  received : c.received = ds.map .chunk ++ c.loop.lastRecv
  accepted : c.accepted = ds ++ c.queue.filterMap chunkOf
  written : c.written ++ c.loop.left = ds.flatMap (encodeChunk · []) ++
    if c.loop.ended then encodeTerminator [] else []

inductive Stepped (c : Channel) (a : Action) : Channel → Prop
  | quiet (writers : ℕ) (reserved : List StreamEvent) (other : ∀ i, a ≠ .push i)
      (finishes : .finish ∈ reserved → .finish ∈ c.reserved ∨ a = .finish)
      (held : c.busy ≤ c.writers →
        Channel.busy { c with writers := writers, reserved := reserved } ≤ writers) :
      Stepped c a { c with writers := writers, reserved := reserved }
  | sent (i : ℕ) (data : Bytes) (action : a = .push i)
      (event : c.reserved[i]? = some (.chunk data)) :
      Stepped c a { c with
        queue := c.queue ++ [.chunk data]
        reserved := c.reserved.eraseIdx i
        accepted := c.accepted ++ [data] }
  | finished (i : ℕ) (action : a = .push i) (event : c.reserved[i]? = some .finish) :
      Stepped c a { c with
        queue := c.queue ++ [.finish]
        reserved := c.reserved.eraseIdx i
        writers := c.writers - 1 }
  | wrote (b : UInt8) (left : Bytes) (last : Bool) (action : a = .loop)
      (loop : c.loop = .writing (b :: left) last) :
      Stepped c a { c with loop := .writing left last, written := c.written ++ [b] }
  | flushed (last : Bool) (action : a = .loop) (loop : c.loop = .writing [] last) :
      Stepped c a { c with loop := if last then .returned true else .receiving }
  | chunk (data : Bytes) (rest : List StreamEvent) (action : a = .loop)
      (loop : c.loop = .receiving) (queue : c.queue = .chunk data :: rest) :
      Stepped c a { c with
        queue := rest
        received := c.received ++ [.chunk data]
        loop := .ofFramed (encodeChunk data []) }
  | ended (rest : List StreamEvent) (action : a = .loop) (loop : c.loop = .receiving)
      (queue : c.queue = .finish :: rest) :
      Stepped c a { c with
        queue := rest
        received := c.received ++ [.finished]
        loop := .writing (encodeTerminator []) true }
  | aborted (action : a = .loop) (loop : c.loop = .receiving) (queue : c.queue = []) :
      Stepped c a { c with received := c.received ++ [.aborted], loop := .returned false }

theorem stepped_reserve {capacity : ℕ} {c : Channel} {event : StreamEvent} {r : Bool × Channel}
    (h : c.reserve capacity event = some r) :
    r = (false, c) ∧ c.loop.hasReturned = true ∨
      r = (true, { c with reserved := c.reserved ++ [event] }) ∧ c.loop.hasReturned = false := by
  rw [Channel.reserve] at h
  split_ifs at h with hreturned hroom
  · cases h
    exact .inl ⟨rfl, hreturned⟩
  · cases h
    exact .inr ⟨rfl, by simpa using hreturned⟩

theorem stepped_push {c c' : Channel} {i : ℕ} (h : c.push i = some c') : Stepped c (.push i) c' := by
  rw [Channel.push] at h
  obtain ⟨event, hevent, rfl⟩ := Option.map_eq_some_iff.mp h
  cases event with
  | chunk data => exact .sent i data rfl hevent
  | finish => exact .finished i rfl hevent

theorem stepped_loop {c c' : Channel} (h : c.loopTurn = some c') : Stepped c .loop c' := by
  rw [Channel.loopTurn] at h
  cases hloop : c.loop with
  | returned complete =>
    rw [hloop] at h
    cases h
  | writing left last =>
    rw [hloop] at h
    cases left with
    | nil =>
      cases h
      exact .flushed last rfl hloop
    | cons b left =>
      cases h
      exact .wrote b left last rfl hloop
  | receiving =>
    rw [hloop] at h
    obtain ⟨r, hrecv, rfl⟩ := Option.map_eq_some_iff.mp h
    rw [Channel.recv] at hrecv
    cases hqueue : c.queue with
    | nil =>
      simp only [hqueue] at hrecv
      split_ifs at hrecv
      cases hrecv
      exact .aborted rfl hloop hqueue
    | cons event rest =>
      cases event with
      | chunk data =>
        simp only [hqueue] at hrecv
        cases hrecv
        exact .chunk data rest rfl hloop hqueue
      | finish =>
        simp only [hqueue] at hrecv
        cases hrecv
        exact .ended rest rfl hloop hqueue

theorem step_cases {capacity : ℕ} {c c' : Channel} {a : Action}
    (h : c.step capacity a = some c') : Stepped c a c' := by
  cases a with
  | clone =>
    simp only [Channel.step] at h
    split_ifs at h
    cases h
    exact .quiet _ c.reserved (by simp) Or.inl Nat.le_succ_of_le
  | drop =>
    simp only [Channel.step] at h
    split_ifs at h with hfree
    cases h
    exact .quiet _ c.reserved (by simp) Or.inl fun _ => Nat.le_sub_one_of_lt hfree
  | send data =>
    simp only [Channel.step] at h
    split_ifs at h with hfree
    obtain ⟨r, hr, rfl⟩ := Option.map_eq_some_iff.mp h
    rcases stepped_reserve hr with ⟨rfl, _⟩ | ⟨rfl, _⟩
    · exact .quiet c.writers c.reserved (by simp) Or.inl id
    · refine .quiet c.writers _ (by simp) (by simp) fun _ => ?_
      simpa [Channel.busy, Channel.finishing, chunkOf] using hfree
  | finish =>
    simp only [Channel.step] at h
    split_ifs at h with hfree
    obtain ⟨r, hr, rfl⟩ := Option.map_eq_some_iff.mp h
    rcases stepped_reserve hr with ⟨rfl, _⟩ | ⟨rfl, _⟩
    · exact .quiet _ c.reserved (by simp) Or.inl fun _ => Nat.le_sub_one_of_lt hfree
    · refine .quiet c.writers _ (by simp) (by simp) fun _ => ?_
      have hnone : List.filterMap chunkOf [.finish] = [] := rfl
      simp only [Channel.busy, Channel.finishing] at hfree
      simp only [Channel.busy, Channel.finishing, List.count_append, List.count_singleton_self,
        List.filterMap_append, hnone, List.append_nil]
      omega
  | push i => exact stepped_push h
  | loop => exact stepped_loop h

theorem perm_of_getElem? {reserved : List StreamEvent} {i : ℕ} {event : StreamEvent}
    (h : reserved[i]? = some event) : (event :: reserved.eraseIdx i).Perm reserved := by
  obtain ⟨hi, rfl⟩ := List.getElem?_eq_some_iff.mp h
  exact List.getElem_cons_eraseIdx_perm hi

theorem busy_step {c c' : Channel} {a : Action} (hstep : Stepped c a c')
    (hbusy : c.busy ≤ c.writers) : c'.busy ≤ c'.writers := by
  cases hstep with
  | quiet _ _ _ _ hheld => exact hheld hbusy
  | sent i data _ hevent =>
    have hperm := perm_of_getElem? hevent
    have hcount := hperm.count_eq .finish
    have hchunks := (hperm.filterMap chunkOf).length_eq
    rw [List.count_cons_of_ne (by simp)] at hcount
    simp only [List.filterMap_cons, chunkOf, List.length_cons] at hchunks
    simp only [Channel.busy, Channel.finishing, List.isEmpty_iff_length_eq_zero] at hbusy ⊢
    split_ifs at hbusy ⊢ <;> omega
  | finished i _ hevent =>
    have hperm := perm_of_getElem? hevent
    have hcount := hperm.count_eq .finish
    have hchunks := (hperm.filterMap chunkOf).length_eq
    rw [List.count_cons_self] at hcount
    simp only [List.filterMap_cons, chunkOf] at hchunks
    simp only [Channel.busy, Channel.finishing, List.isEmpty_iff_length_eq_zero] at hbusy ⊢
    split_ifs at hbusy ⊢ <;> omega
  | _ => exact hbusy

theorem delivered_new : Delivered .new [] := ⟨rfl, rfl, rfl⟩

theorem delivered_step {c c' : Channel} {a : Action} (hstep : Stepped c a c')
    (h : ∃ ds, Delivered c ds) : ∃ ds, Delivered c' ds := by
  obtain ⟨ds, h⟩ := h
  have hreceived := h.received
  have haccepted := h.accepted
  have hwritten := h.written
  cases hstep with
  | quiet writers reserved => exact ⟨ds, hreceived, haccepted, hwritten⟩
  | sent i data _ _ =>
    refine ⟨ds, hreceived, ?_, hwritten⟩
    simp [haccepted, chunkOf]
  | finished i _ _ =>
    refine ⟨ds, hreceived, ?_, hwritten⟩
    simp [haccepted, chunkOf]
  | wrote b left last _ hloop =>
    rw [hloop] at hreceived hwritten
    refine ⟨ds, hreceived, haccepted, ?_⟩
    rw [List.append_assoc]
    exact hwritten
  | flushed last _ hloop =>
    rw [hloop] at hreceived hwritten
    cases last with
    | false => exact ⟨ds, hreceived, haccepted, hwritten⟩
    | true => exact ⟨ds, hreceived, haccepted, hwritten⟩
  | chunk data rest _ hloop hqueue =>
    rw [hloop] at hreceived hwritten
    simp only [Loop.left_receiving, Loop.ended_receiving, List.append_nil, Bool.false_eq_true,
      ↓reduceIte] at hwritten
    refine ⟨ds ++ [data], ?_, ?_, ?_⟩
    · simp [hreceived]
    · simp [haccepted, hqueue, chunkOf]
    · simp [hwritten]
  | ended rest _ hloop hqueue =>
    rw [hloop] at hreceived hwritten
    simp only [Loop.left_receiving, Loop.ended_receiving, List.append_nil, Bool.false_eq_true,
      ↓reduceIte] at hwritten
    refine ⟨ds, ?_, ?_, ?_⟩
    · simp [hreceived, Loop.lastRecv]
    · rw [haccepted, hqueue]
      rfl
    · simp [hwritten, Loop.left]
  | aborted _ hloop hqueue =>
    rw [hloop] at hreceived hwritten
    refine ⟨ds, ?_, haccepted, hwritten⟩
    simp [hreceived, Loop.lastRecv]

theorem behindFinish_append_chunk (queue : List StreamEvent) (data : Bytes) :
    behindFinish (queue ++ [.chunk data]) =
      behindFinish queue ++ if .finish ∈ queue then [data] else [] := by
  induction queue with
  | nil => simp [behindFinish]
  | cons e queue ih =>
    cases e with
    | chunk d => simpa [behindFinish] using ih
    | finish => simp [behindFinish, chunkOf]

theorem behindFinish_append_finish (queue : List StreamEvent) :
    behindFinish (queue ++ [.finish]) = behindFinish queue := by
  induction queue with
  | nil => rfl
  | cons e queue ih =>
    cases e with
    | chunk d => simpa [behindFinish] using ih
    | finish => simp [behindFinish, chunkOf]

theorem lost_append_chunk (c : Channel) (reserved : List StreamEvent) (data : Bytes)
    (accepted : List Bytes) :
    lost { c with queue := c.queue ++ [.chunk data], reserved := reserved, accepted := accepted } =
      lost c ++ if .finish ∈ c.queue ∨ c.loop.ended = true then [data] else [] := by
  cases hended : c.loop.ended with
  | true => simp [lost, hended, chunkOf]
  | false => simp [lost, hended, behindFinish_append_chunk]

theorem lost_step {c c' : Channel} {a : Action} (hstep : Stepped c a c') :
    (∀ d ∈ lost c', d = []) ↔ (∀ d ∈ lost c, d = []) ∧ Orderly c a := by
  cases hstep with
  | quiet writers reserved hother =>
    refine ⟨fun h => ⟨h, ?_⟩, fun h => h.1⟩
    cases a with
    | push i => exact absurd rfl (hother i)
    | _ => trivial
  | sent i data haction hevent =>
    subst haction
    rw [lost_append_chunk, List.forall_mem_append]
    refine and_congr_right fun _ => ?_
    simp only [Orderly, hevent, Option.some.injEq, StreamEvent.chunk.injEq, forall_eq']
    split_ifs with hbehind
    · simp [hbehind]
    · simp [hbehind]
  | finished i haction hevent =>
    subst haction
    have hlost : lost { c with
        queue := c.queue ++ [.finish]
        reserved := c.reserved.eraseIdx i
        writers := c.writers - 1 } = lost c := by
      simp [lost, behindFinish_append_finish, List.filterMap_append, List.filterMap_cons, chunkOf]
    rw [hlost]
    exact (and_iff_left (fun data h => by simp [hevent] at h)).symm
  | wrote b left last haction hloop =>
    subst haction
    cases last <;> simp [lost, hloop, Orderly]
  | flushed last haction hloop =>
    subst haction
    cases last <;> simp [lost, hloop, Orderly]
  | chunk data rest haction hloop hqueue =>
    subst haction
    simp [lost, hloop, hqueue, behindFinish, Orderly]
  | ended rest haction hloop hqueue =>
    subst haction
    simp [lost, hloop, hqueue, behindFinish, Orderly]
  | aborted haction hloop hqueue =>
    subst haction
    simp [lost, hloop, hqueue, behindFinish, Orderly]

theorem encodeBody_flatMap (ds : List Bytes) :
    encodeBody ds = ds.flatMap (encodeChunk · []) ++ encodeTerminator [] := by
  induction ds with
  | nil => rfl
  | cons d ds ih => rw [encodeBody_cons, ih, List.flatMap_cons, List.append_assoc]

theorem takeChunks_unterminated (ds : List Bytes) (fuel : ℕ) :
    takeChunks fuel (ds.flatMap (encodeChunk · [])) = none := by
  induction ds generalizing fuel with
  | nil => cases fuel <;> rfl
  | cons d ds ih =>
    cases d with
    | nil => exact ih fuel
    | cons b bs =>
      cases fuel with
      | zero => rfl
      | succ fuel =>
        have hwire : ((b :: bs) :: ds).flatMap (encodeChunk · []) =
            numeral 16 (b :: bs).length ++ crlf ++
              ((b :: bs) ++ (crlf ++ ds.flatMap (encodeChunk · []))) := by
          simp [encodeChunk]
        rw [hwire, takeChunks_chunk _ _ (by simp), ih]
        rfl

def decoded (c : Channel) : Option (Bytes × Bytes) := takeChunks (c.written.length + 1) c.written

theorem decoded_eq {c : Channel} {ds : List Bytes} (h : Delivered c ds) :
    decoded c = if c.loop.ended = true ∧ c.loop.left = [] then some (ds.flatten, []) else none := by
  have hwritten := h.written
  cases hdecoded : decoded c with
  | none =>
    rw [if_neg]
    rintro ⟨hended, hleft⟩
    rw [hended, hleft, List.append_nil, if_pos rfl, ← encodeBody_flatMap] at hwritten
    have hle := encodedChunks_length_le ds
    have hbody := takeChunks_encodeBody ds [] ((encodeBody ds).length + 1) (by omega)
    rw [List.append_nil, ← hwritten] at hbody
    rw [decoded, hbody] at hdecoded
    cases hdecoded
  | some r =>
    obtain ⟨body, rest⟩ := r
    -- what was decoded is decoded from all bytes of the answer too
    have hextend := takeChunks_extend hdecoded c.loop.left (encodeBody ds).length
    rw [hwritten] at hextend
    cases hended : c.loop.ended with
    | false =>
      rw [hended, if_neg Bool.false_ne_true, List.append_nil, takeChunks_unterminated] at hextend
      cases hextend
    | true =>
      have hle := encodedChunks_length_le ds
      have hbody := takeChunks_encodeBody ds [] (c.written.length + 1 + (encodeBody ds).length)
        (by omega)
      rw [List.append_nil, encodeBody_flatMap] at hbody
      rw [hended, if_pos rfl, ← encodeBody_flatMap ds, encodeBody_flatMap, hbody] at hextend
      obtain ⟨rfl, hrest⟩ := Prod.mk.inj (Option.some.inj hextend)
      obtain ⟨rfl, hleft⟩ := List.append_eq_nil_iff.mp hrest.symm
      rw [if_pos ⟨rfl, hleft⟩]

theorem run_delivered {capacity : ℕ} {actions : List Action} {c : Channel}
    (h : run (Channel.step capacity) actions .new = some c) : ∃ ds, Delivered c ds :=
  run_invariant (fun c => ∃ ds, Delivered c ds)
    (fun _ _ _ _ hinv hstep => delivered_step (step_cases hstep) hinv) ⟨[], delivered_new⟩ h

/-- When the last clone is gone, no call is left in flight. -/
theorem run_idle {capacity : ℕ} {actions : List Action} {c : Channel}
    (h : run (Channel.step capacity) actions .new = some c) (hwriters : c.writers = 0) :
    c.reserved = [] := by
  have hbusy : c.busy ≤ c.writers := run_invariant (fun c => c.busy ≤ c.writers)
    (fun _ _ _ _ hinv hstep => busy_step (step_cases hstep) hinv) (by decide) h
  rw [hwriters, Nat.le_zero, Channel.busy, Channel.finishing, Nat.add_eq_zero_iff,
    List.count_eq_zero] at hbusy
  refine List.eq_nil_iff_forall_not_mem.mpr fun event hmem => ?_
  cases event with
  | finish => exact hbusy.1 hmem
  | chunk data =>
    have hchunk : data ∈ c.reserved.filterMap chunkOf := List.mem_filterMap.mpr ⟨_, hmem, rfl⟩
    have hempty : (c.reserved.filterMap chunkOf).isEmpty = true := by simpa using hbusy.2
    rw [List.isEmpty_iff.mp hempty] at hchunk
    cases hchunk

/-- Nothing is lost if and only if no data was put behind an end marker. -/
theorem run_lost {capacity : ℕ} {actions : List Action} {c : Channel}
    (h : run (Channel.step capacity) actions .new = some c) :
    (∀ d ∈ lost c, d = []) ↔ Along (Channel.step capacity) Orderly actions .new := by
  have hiff := run_iff_along (fun _ => True) (fun c => ∀ d ∈ lost c, d = []) Orderly
    (fun _ _ => trivial) (fun _ hstep => lost_step (step_cases hstep)) trivial h
  have hnew : ∀ d ∈ lost .new, d = [] := by simp [lost, Channel.new, behindFinish]
  rw [hiff]
  exact and_iff_right hnew

structure Unfinished (c : Channel) : Prop where
  queue : .finish ∉ c.queue
  reserved : .finish ∉ c.reserved
  running : c.loop.ended = false

theorem unfinished_step {c c' : Channel} {a : Action} (hstep : Stepped c a c') (ha : a ≠ .finish)
    (h : Unfinished c) : Unfinished c' := by
  have hreserved := h.reserved
  cases hstep with
  | quiet writers reserved _ hfinishes _ =>
    refine ⟨h.queue, fun hmem => ?_, h.running⟩
    rcases hfinishes hmem with hmem | haction
    · exact hreserved hmem
    · exact ha haction
  | sent i data _ _ =>
    exact ⟨by simpa using h.queue, fun hmem => hreserved (List.mem_of_mem_eraseIdx hmem), h.running⟩
  | finished i _ hevent => exact absurd (List.mem_of_getElem? hevent) hreserved
  | wrote b left last _ hloop =>
    have hrunning := h.running
    rw [hloop] at hrunning
    exact ⟨h.queue, hreserved, hrunning⟩
  | flushed last _ hloop =>
    have hrunning := h.running
    rw [hloop] at hrunning
    obtain rfl : last = false := hrunning
    exact ⟨h.queue, hreserved, rfl⟩
  | chunk data rest _ _ hqueue =>
    have hmem := h.queue
    rw [hqueue] at hmem
    exact ⟨fun h => hmem (List.mem_cons_of_mem _ h), hreserved, Loop.ended_ofFramed _⟩
  | ended rest _ _ hqueue =>
    have hmem := h.queue
    rw [hqueue] at hmem
    exact absurd List.mem_cons_self hmem
  | aborted => exact ⟨h.queue, hreserved, rfl⟩

theorem run_unfinished {capacity : ℕ} {actions : List Action} {c : Channel}
    (h : run (Channel.step capacity) actions .new = some c) (hno : .finish ∉ actions) :
    Unfinished c := by
  refine run_invariant Unfinished (fun a ha c c' hinv hstep => ?_) ⟨by simp [Channel.new],
    by simp [Channel.new], rfl⟩ h
  exact unfinished_step (step_cases hstep) (fun heq => hno (heq ▸ ha)) hinv

theorem run_replicate_add {capacity : ℕ} {c c' : Channel} {j : ℕ}
    (h : run (Channel.step capacity) (List.replicate j .loop) c = some c') (k : ℕ) :
    run (Channel.step capacity) (List.replicate (j + k) .loop) c =
      run (Channel.step capacity) (List.replicate k .loop) c' := by
  rw [List.replicate_add, run_append, h]
  rfl

theorem run_flush {capacity : ℕ} (left : Bytes) {c : Channel} (h : c.loop = .writing left false) :
    run (Channel.step capacity) (List.replicate (left.length + 1) .loop) c =
      some { c with loop := .receiving, written := c.written ++ left } := by
  induction left generalizing c with
  | nil =>
    rw [List.append_nil]
    simp [List.replicate, run, Channel.step, Channel.loopTurn, h]
  | cons b left ih =>
    have hstep : c.step capacity .loop =
        some { c with loop := .writing left false, written := c.written ++ [b] } := by
      simp [Channel.step, Channel.loopTurn, h]
    rw [List.length_cons, List.replicate_succ, run, hstep, Option.bind_some, ih rfl]
    simp

theorem abort_of_receiving (capacity : ℕ) (queue : List StreamEvent) {c : Channel}
    (hqueue : c.queue = queue) (hloop : c.loop = .receiving) (hwriters : c.writers = 0)
    (hno : .finish ∉ queue) :
    ∃ k c', run (Channel.step capacity) (List.replicate k .loop) c = some c' ∧
      c'.loop = .returned false := by
  induction queue generalizing c with
  | nil =>
    refine ⟨1, { c with received := c.received ++ [.aborted], loop := .returned false }, ?_, rfl⟩
    simp [run, Channel.step, Channel.loopTurn, Channel.recv, hloop, hqueue, hwriters]
  | cons e queue ih =>
    rw [List.mem_cons, not_or] at hno
    cases e with
    | finish => exact absurd rfl hno.1
    | chunk data =>
      have hturn : run (Channel.step capacity) (List.replicate 1 .loop) c = some { c with
          queue := queue
          received := c.received ++ [.chunk data]
          loop := .ofFramed (encodeChunk data []) } := by
        simp [run, Channel.step, Channel.loopTurn, Channel.recv, hloop, hqueue]
      cases hframed : encodeChunk data [] with
      | nil =>
        rw [hframed] at hturn
        obtain ⟨k, c', hrun, hreturned⟩ := ih (c := { c with
          queue := queue
          received := c.received ++ [.chunk data]
          loop := .receiving }) rfl rfl hwriters hno.2
        exact ⟨1 + k, c', (run_replicate_add hturn k).trans hrun, hreturned⟩
      | cons b bs =>
        rw [hframed] at hturn
        have hflush := (run_replicate_add hturn ((b :: bs).length + 1)).trans (run_flush (b :: bs) rfl)
        obtain ⟨k, c', hrun, hreturned⟩ := ih (c := { c with
          queue := queue
          received := c.received ++ [.chunk data]
          loop := .receiving
          written := c.written ++ (b :: bs) }) rfl rfl hwriters hno.2
        exact ⟨_, c', (run_replicate_add hflush k).trans hrun, hreturned⟩

/-- Once the last writer is gone the loop comes to its end and reports an incomplete response. -/
theorem abort_after_drops {capacity : ℕ} {c : Channel} (hwriters : c.writers = 0)
    (h : Unfinished c) :
    ∃ k c', run (Channel.step capacity) (List.replicate k .loop) c = some c' ∧
      c'.loop = .returned false := by
  have hrunning := h.running
  cases hloop : c.loop with
  | receiving => exact abort_of_receiving capacity c.queue rfl hloop hwriters h.queue
  | returned complete =>
    rw [hloop] at hrunning
    obtain rfl : complete = false := hrunning
    exact ⟨0, c, rfl, hloop⟩
  | writing left last =>
    rw [hloop] at hrunning
    obtain rfl : last = false := hrunning
    obtain ⟨k, c', hrun, hreturned⟩ := abort_of_receiving capacity c.queue
      (c := { c with loop := .receiving, written := c.written ++ left }) rfl rfl hwriters h.queue
    exact ⟨_, c', (run_replicate_add (run_flush left hloop) k).trans hrun, hreturned⟩

/-- Complete or visibly truncated, in any interleaving: a last chunk means that a `finish` was
received; what was accepted was then delivered if and only if no data was put behind an end
marker; and without a `finish` the loop ends in an incomplete response. -/
theorem run_complete_iff_orderly (capacity : ℕ) (actions : List Action) (c : Channel)
    (h : run (Channel.step capacity) actions .new = some c) :
    ((decoded c).isSome = true → .finished ∈ c.received ∧ .finish ∈ actions) ∧
    ((decoded c).isSome = true → (decoded c = some (c.accepted.flatten, []) ↔
      Along (Channel.step capacity) Orderly actions .new)) ∧
    (.finish ∉ actions → decoded c = none ∧ c.loop ≠ .returned true ∧
      (c.writers = 0 → c.reserved = [] ∧ ∃ k c',
        run (Channel.step capacity) (List.replicate k .loop) c = some c' ∧
          c'.loop = .returned false)) := by
  obtain ⟨ds, hdelivered⟩ := run_delivered h
  have hdecoded := decoded_eq hdelivered
  have hterminated : (decoded c).isSome = true → c.loop.ended = true ∧ c.loop.left = [] := by
    intro hsome
    by_contra hne
    rw [hdecoded, if_neg hne] at hsome
    cases hsome
  refine ⟨fun hsome => ⟨?_, ?_⟩, fun hsome => ?_, fun hno => ?_⟩
  · have hended := (hterminated hsome).1
    rw [hdelivered.received, Loop.lastRecv_of_ended hended]
    simp
  · by_contra hno
    have hrunning := (run_unfinished h hno).running
    rw [(hterminated hsome).1] at hrunning
    cases hrunning
  · have hended := hterminated hsome
    have hleft : lost c = c.queue.filterMap chunkOf := by rw [lost, if_pos hended.1]
    rw [hdecoded, if_pos hended, hdelivered.accepted, ← run_lost h, hleft, List.flatten_append,
      Option.some.injEq, Prod.mk.injEq, List.self_eq_append_right, List.flatten_eq_nil_iff]
    exact and_iff_left rfl
  · have hunfinished := run_unfinished h hno
    have hrunning := hunfinished.running
    refine ⟨?_, fun hloop => ?_, fun hwriters =>
      ⟨run_idle h hwriters, abort_after_drops hwriters hunfinished⟩⟩
    · rw [hdecoded, if_neg (by simp [hrunning])]
    · rw [hloop] at hrunning
      cases hrunning

/-- Two writers, of which one finishes after the other has sent and gone. -/
def inTurn : List Action :=
  [.clone, .send (ascii "a"), .push 0] ++ List.replicate 8 .loop ++
    [.send (ascii "b"), .push 0, .drop] ++ List.replicate 8 .loop ++
    [.finish, .push 0] ++ List.replicate 7 .loop

theorem run_complete_iff_orderly_inTurn :
    ∃ c, run (Channel.step 1) inTurn .new = some c ∧ (decoded c).isSome = true ∧
      (decoded c = some (c.accepted.flatten, []) ↔
        Along (Channel.step 1) Orderly inTurn .new) := by
  have hrun : (run (Channel.step 1) inTurn .new).any (fun c => (decoded c).isSome) = true := by
    decide +kernel
  obtain ⟨c, hc, hsome⟩ := (Option.any_eq_true _ _).mp hrun
  exact ⟨c, hc, hsome, (run_complete_iff_orderly 1 inTurn c hc).2.1 hsome⟩

/-- One writer finishes, and while the loop writes the last chunk the other one sends. -/
def overtaken : List Action :=
  [.clone, .finish, .push 0, .loop, .send (ascii "x"), .push 0] ++ List.replicate 6 .loop

theorem run_overtaken :
    ∃ c, run (Channel.step 2) overtaken .new = some c ∧ c.accepted = [ascii "x"] ∧
      c.loop = .returned true ∧ decoded c = some ([], []) :=
  ⟨⟨[.chunk (ascii "x")], [], 1, .returned true, encodeTerminator [], [ascii "x"], [.finished]⟩,
    by decide +kernel, rfl, rfl, by decide +kernel⟩

section Loop
variable {TypeId : Type} {E : TypeId → Type} {env : Env}

theorem send_ok (hok : ∀ n, env.writeFails n = none) (bytes : Bytes) (s : State E) :
    (s.send env bytes).1 = true ∧ (s.send env bytes).2.out = s.out ++ bytes := by
  simp [State.send, State.write, hok]

theorem sendChunks_lastRecv (hok : ∀ n, env.writeFails n = none) (loop : Loop)
    (ds given : List Bytes) (s : State E) :
    (sendChunks env .identity given ((ds.map RecvOutcome.chunk ++ loop.lastRecv).map some) s).1 =
        loop.ended ∧
      (sendChunks env .identity given ((ds.map RecvOutcome.chunk ++ loop.lastRecv).map some) s).2.out =
        s.out ++ (ds.flatMap (encodeChunk · []) ++
          if loop.ended then encodeTerminator [] else []) := by
  induction ds generalizing given s with
  | nil =>
    cases hended : loop.ended with
    | true =>
      obtain ⟨hsent, hout⟩ := send_ok hok (encodeTerminator []) s
      simp [Loop.lastRecv_of_ended hended, sendChunks, StreamingBodyEncoder.identity, hsent, hout]
    | false =>
      rcases Loop.lastRecv_of_running hended with hlast | hlast
      · simp [hlast, sendChunks]
      · simp [hlast, sendChunks]
  | cons d ds ih =>
    obtain ⟨hsent, hout⟩ := send_ok hok (encodeChunk d []) s
    cases d with
    | nil =>
      obtain ⟨hresult, hrest⟩ := ih (given ++ [[]]) s
      exact ⟨hresult, hrest⟩
    | cons b bs =>
      obtain ⟨hresult, hrest⟩ := ih (given ++ [b :: bs]) (s.send env (encodeChunk (b :: bs) [])).2
      have hframed : (encodeChunk (b :: bs) []).isEmpty = false := by simp [encodeChunk, crlf]
      have hloop : sendChunks env .identity given
          ((((b :: bs) :: ds).map RecvOutcome.chunk ++ loop.lastRecv).map some) s =
          sendChunks env .identity (given ++ [b :: bs])
            ((ds.map RecvOutcome.chunk ++ loop.lastRecv).map some)
            (s.send env (encodeChunk (b :: bs) [])).2 := by
        rw [List.map_cons, List.cons_append, List.map_cons, sendChunks]
        simp only [StreamingBodyEncoder.identity, hframed, Bool.false_eq_true, ↓reduceIte, hsent]
      rw [hloop]
      refine ⟨hresult, ?_⟩
      rw [hrest, hout, List.flatMap_cons, List.append_assoc, List.append_assoc]

/-- The channel is a refinement of the body loop: with what it received, the loop of the
connection writes the bytes that were written and are still to be written, and comes to the same
result. -/
theorem run_sendChunks {capacity : ℕ} {actions : List Action} {c : Channel}
    (h : run (Channel.step capacity) actions .new = some c)
    (hok : ∀ n, env.writeFails n = none) (s : State E) :
    (sendChunks env .identity [] (c.received.map some) s).1 = c.loop.ended ∧
      (sendChunks env .identity [] (c.received.map some) s).2.out =
        s.out ++ (c.written ++ c.loop.left) := by
  obtain ⟨ds, hdelivered⟩ := run_delivered h
  rw [hdelivered.received, hdelivered.written]
  exact sendChunks_lastRecv hok c.loop ds [] s

end Loop

end FandheBackend.CoreStreamingChannel
