import FandheBackend.HttpFormLaw
import FandheBackend.HttpRequestHead
import Mathlib.Algebra.Order.Ring.Nat

set_option autoImplicit false

/-!
# Sampled request traces (`crates/plugin-tracing/src/layer.rs`, `sampler.rs`, `config.rs`)

A call of `record_response` has at most one operation on shared memory, the `fetch_add` of the
sampler. Calls of any number of threads are therefore taken in the order of these operations.
-/
namespace FandheBackend.PluginTracing
open StdBytes HttpRequestHead HttpForm HttpFormLaw

structure Sampler where
  interval : ℕ
  positive : 0 < interval
  counter : ℕ

namespace Sampler

def new (interval : ℕ) (positive : 0 < interval) : Sampler := ⟨interval, positive, 0⟩

def shouldSample (s : Sampler) : Bool × Sampler :=
  (s.counter % s.interval == 0, { s with counter := (s.counter + 1) % 2 ^ 64 })

end Sampler

structure TracingConfig where
  sampleInterval : ℕ
  positive : 0 < sampleInterval
  excludePaths : List Bytes

structure TracingLayer where
  sampler : Sampler
  excludePaths : List Bytes

structure TraceEvent (Duration : Type) where
  method : Bytes
  path : Bytes
  elapsed : Duration
  deriving DecidableEq, Repr

section
variable {TypeId : Type} {E : TypeId → Type} {Duration : Type}

/-- `split_once('?')`, with the whole target where there is no query. -/
def tracedPath (head : RequestHead E) : Bytes :=
  ((splitOnce 63 head.target).map Prod.fst).getD head.target

namespace TracingLayer

def new (config : TracingConfig) : TracingLayer :=
  ⟨.new config.sampleInterval config.positive, config.excludePaths⟩

def recordResponse (layer : TracingLayer) (head : RequestHead E) (elapsed : Duration) :
    Option (TraceEvent Duration) × TracingLayer :=
  let path := tracedPath head
  if layer.excludePaths.any (· == path) then (none, layer)
  else
    let (sampled, sampler) := layer.sampler.shouldSample
    let layer := { layer with sampler := sampler }
    if !sampled then (none, layer) else (some ⟨head.method, path, elapsed⟩, layer)

def recordAll : TracingLayer → List (RequestHead E × Duration) →
    List (TraceEvent Duration) × TracingLayer
  | layer, [] => ([], layer)
  | layer, (head, elapsed) :: calls =>
    let recorded := layer.recordResponse head elapsed
    let rest := recordAll recorded.2 calls
    (recorded.1.toList ++ rest.1, rest.2)

end TracingLayer

def traceEvent (call : RequestHead E × Duration) : TraceEvent Duration :=
  ⟨call.1.method, tracedPath call.1, call.2⟩

def traced (excludePaths : List Bytes) (calls : List (RequestHead E × Duration)) :
    List (RequestHead E × Duration) :=
  calls.filter fun call => !(excludePaths.any (· == tracedPath call.1))

/-- The call that takes the `n`th value of the counter is recorded. -/
def samples (interval n : ℕ) : Bool := n % 2 ^ 64 % interval == 0

theorem tracedPath_eq (head : RequestHead E) : tracedPath head = head.path := by
  unfold tracedPath RequestHead.path
  by_cases hmem : 63 ∈ head.target
  · obtain ⟨path, query, htarget, hpath⟩ := List.eq_append_cons_of_mem hmem
    rw [htarget, splitOnce_append hpath, Option.map_some, Option.getD_some,
      List.takeWhile_append_of_pos fun b hb => bne_iff_ne.mpr fun heq : b = 63 => hpath (heq ▸ hb)]
    simp
  · rw [splitOnce_none hmem, Option.map_none, Option.getD_none, eq_comm, List.takeWhile_eq_self_iff]
    exact fun b hb => bne_iff_ne.mpr fun heq : b = 63 => hmem (heq ▸ hb)

theorem tracedPath_no_query (head : RequestHead E) : 63 ∉ tracedPath head := by
  rw [tracedPath_eq]
  intro hmem
  simpa using List.mem_takeWhile_imp hmem

/-- The counter gives its values in turn, to the calls that reach it. -/
theorem recordAll_eq (layer : TracingLayer) (calls : List (RequestHead E × Duration)) (n : ℕ)
    (hcounter : layer.sampler.counter = n % 2 ^ 64) :
    (layer.recordAll calls).1 = (((traced layer.excludePaths calls).zipIdx n).filter fun call =>
      samples layer.sampler.interval call.2).map fun call => traceEvent call.1 := by
  induction calls generalizing layer n with
  | nil => rfl
  | cons call calls ih =>
    obtain ⟨head, elapsed⟩ := call
    simp only [TracingLayer.recordAll, TracingLayer.recordResponse, Sampler.shouldSample, hcounter]
    cases hexcluded : layer.excludePaths.any (· == tracedPath head) with
    | true =>
      rw [if_pos rfl, traced, List.filter_cons_of_neg (by simp [hexcluded])]
      exact ih layer n hcounter
    | false =>
      have hrest := ih { layer with
        sampler := { layer.sampler with counter := (n % 2 ^ 64 + 1) % 2 ^ 64 } }
        (n + 1) (Nat.mod_add_mod n (2 ^ 64) 1)
      rw [if_neg (by simp), traced, List.filter_cons_of_pos (by simp [hexcluded]), List.zipIdx_cons,
        List.filter_cons]
      cases hsampled : samples layer.sampler.interval n with
      | true =>
        rw [samples] at hsampled
        simp only [hsampled, Bool.not_true, Bool.false_eq_true, ↓reduceIte, Option.toList_some,
          List.singleton_append, List.map_cons, traceEvent]
        rw [hrest]
        rfl
      | false =>
        rw [samples] at hsampled
        simp only [hsampled, Bool.not_false, Bool.false_eq_true, ↓reduceIte, Option.toList_none,
          List.nil_append]
        exact hrest

end

theorem ceilDiv_succ {interval : ℕ} (hinterval : 0 < interval) (n : ℕ) :
    (n + 1 + interval - 1) / interval =
      (n + interval - 1) / interval + if n % interval = 0 then 1 else 0 := by
  have hsucc : n + 1 + interval - 1 = (n + interval - 1) + 1 := by omega
  have hback : n + interval - 1 + 1 = n + interval := by omega
  rw [hsucc, Nat.succ_div, hback]
  simp only [Nat.dvd_add_left (Nat.dvd_refl interval), Nat.dvd_iff_mod_eq_zero]

/-- How many of the first `n` values are sampled; the counter starts again after `2 ^ 64`. -/
theorem countP_samples {interval : ℕ} (hinterval : 0 < interval) (n : ℕ) :
    (List.range n).countP (samples interval) =
      n / 2 ^ 64 * ((2 ^ 64 + interval - 1) / interval) + (n % 2 ^ 64 + interval - 1) / interval := by
  induction n with
  | zero =>
    have hzero : (interval - 1) / interval = 0 := Nat.div_eq_of_lt (by omega)
    simp [hzero]
  | succ n ih =>
    have hlast : (List.range (n + 1)).countP (samples interval) =
        (List.range n).countP (samples interval) + if n % 2 ^ 64 % interval = 0 then 1 else 0 := by
      rw [List.range_succ, List.countP_append, List.countP_singleton]
      simp [samples]
    rw [hlast, ih]
    by_cases hwrap : n % 2 ^ 64 = 2 ^ 64 - 1
    · -- the counter starts again
      have hdiv : (n + 1) / 2 ^ 64 = n / 2 ^ 64 + 1 := by omega
      have hmod : (n + 1) % 2 ^ 64 = 0 := by omega
      have hzero : (0 + interval - 1) / interval = 0 := Nat.div_eq_of_lt (by omega)
      have hturn := ceilDiv_succ hinterval (2 ^ 64 - 1)
      rw [hdiv, hmod, hwrap, hzero, Nat.add_mul, Nat.one_mul, Nat.add_zero, Nat.add_assoc, ← hturn,
        Nat.sub_add_cancel (by decide)]
    · have hdiv : (n + 1) / 2 ^ 64 = n / 2 ^ 64 := by omega
      have hmod : (n + 1) % 2 ^ 64 = n % 2 ^ 64 + 1 := by omega
      rw [hdiv, hmod, ceilDiv_succ hinterval, Nat.add_assoc]

section
variable {TypeId : Type} {E : TypeId → Type} {Duration : Type}

theorem length_sampled (interval : ℕ) (calls : List (RequestHead E × Duration)) :
    ((calls.zipIdx 0).filter fun call => samples interval call.2).length =
      (List.range calls.length).countP (samples interval) := by
  rw [← List.countP_eq_length_filter, List.range_eq_range', ← List.zipIdx_map_snd 0 calls,
    List.countP_map]
  rfl

/-- Of the calls whose path is not excluded, those are recorded that take a multiple of the
interval, whatever the excluded ones are and wherever they come between. Their number is exact,
over the wrap of the counter too, and rounded up. An event has the method and the path of its
request and nothing of its query. -/
theorem sampling_law (config : TracingConfig) (calls : List (RequestHead E × Duration)) :
    let events := ((TracingLayer.new config).recordAll calls).1
    let reached := traced config.excludePaths calls
    events = ((reached.zipIdx 0).filter fun call => samples config.sampleInterval call.2).map
        (fun call => traceEvent call.1) ∧
      events.length = reached.length / 2 ^ 64 *
          ((2 ^ 64 + config.sampleInterval - 1) / config.sampleInterval) +
        (reached.length % 2 ^ 64 + config.sampleInterval - 1) / config.sampleInterval ∧
      ∀ event ∈ events, 63 ∉ event.path ∧ event.path ∉ config.excludePaths ∧
        ∃ call ∈ calls, event = ⟨call.1.method, call.1.path, call.2⟩ := by
  intro events reached
  have hevents : events = ((reached.zipIdx 0).filter fun call =>
      samples config.sampleInterval call.2).map fun call => traceEvent call.1 :=
    recordAll_eq (.new config) calls 0 rfl
  refine ⟨hevents, ?_, fun event hevent => ?_⟩
  · rw [hevents, List.length_map, length_sampled]
    exact countP_samples config.positive reached.length
  · rw [hevents] at hevent
    obtain ⟨⟨call, k⟩, hcall, rfl⟩ := List.mem_map.mp hevent
    have hreached : call ∈ reached := List.fst_mem_of_mem_zipIdx (List.mem_of_mem_filter hcall)
    obtain ⟨hmem, hexcluded⟩ := List.mem_filter.mp hreached
    refine ⟨tracedPath_no_query call.1, ?_, call, hmem, ?_⟩
    · have hother : ∀ path ∈ config.excludePaths, ¬path = tracedPath call.1 := by
        simpa using hexcluded
      exact fun hpath => hother _ hpath rfl
    · rw [traceEvent, tracedPath_eq]

end

end FandheBackend.PluginTracing
