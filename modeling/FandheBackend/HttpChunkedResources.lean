import FandheBackend.HttpChunkedMachine

set_option autoImplicit false

namespace FandheBackend.HttpChunkedResources
open StdBytes HttpChunked HttpChunkedMachine FedMachine

def remaining : State → ℕ
  | .chunkData r => r
  | _ => 0

/-- After calls of which `failed` failed, the first of them with the body `out`. -/
structure Within (maxBodyBytes : UInt64) (out : Bytes) (failed : ℕ) (c : Cell) : Prop where
  wf : Wf c.1
  limit : c.1.maxBodyBytes = maxBodyBytes
  appended : ∃ body, c.2 = out ++ body ∧ c.1.totalDecoded = body.length
  bounded : c.1.totalDecoded + remaining c.1.state ≤ maxBodyBytes.toNat
  line : c.1.lineBuf.length ≤ maxChunkLineBytes + failed
  count : c.1.chunkCount ≤ maxChunkCount + failed

variable {maxBodyBytes : UInt64} {out : Bytes} {failed : ℕ}

theorem Within.mono {c : Cell} (h : Within maxBodyBytes out failed c) :
    Within maxBodyBytes out (failed + 1) c :=
  { h with
    line := h.line.trans (by omega)
    count := h.count.trans (by omega) }

theorem withMaxBodyBytes_within (maxBodyBytes : UInt64) (out : Bytes) :
    Within maxBodyBytes out 0 (.withMaxBodyBytes maxBodyBytes, out) :=
  { wf := withMaxBodyBytes_wf maxBodyBytes
    limit := rfl
    appended := ⟨[], by simp, rfl⟩
    bounded := Nat.zero_le _
    line := Nat.zero_le _
    count := Nat.zero_le _ }

def Kept (maxBodyBytes : UInt64) (out : Bytes) (failed : ℕ) :
    Except (ChunkedError × Cell) Cell → Prop
  | .ok c => Within maxBodyBytes out failed c
  | .error (_, c) => Within maxBodyBytes out (failed + 1) c

theorem afterLine_size {d : ChunkedDecoder} {body : Bytes}
    (h : Within maxBodyBytes out failed (d, body)) (line : Bytes) :
    Kept maxBodyBytes out failed (afterLine acceptSizeLine d line body) := by
  have hcounted : Within maxBodyBytes out (failed + 1)
      ({ d with chunkCount := d.chunkCount + 1 }, body) :=
    { h.mono with count := Nat.add_le_add_right h.count 1 }
  unfold afterLine acceptSizeLine
  cases parseChunkSize line with
  | error e => exact h.mono
  | ok size =>
    simp only
    by_cases hcount : d.chunkCount + 1 > maxChunkCount
    · simp only [hcount, ↓reduceIte]
      exact hcounted
    · have hfew : d.chunkCount + 1 ≤ maxChunkCount + failed := by omega
      simp only [hcount, ↓reduceIte]
      by_cases hsize : size = 0
      · simp only [hsize, ↓reduceIte]
        exact { h with
          wf := fun _ h => nomatch h
          bounded := (Nat.le_add_right _ _).trans h.bounded
          count := hfew }
      · simp only [hsize, ↓reduceIte]
        cases hadd : u64CheckedAdd d.totalDecoded size with
        | none => exact hcounted
        | some newTotal =>
          simp only
          by_cases hlarge : newTotal > d.maxBodyBytes.toNat
          · simp only [hlarge, ↓reduceIte]
            exact hcounted
          · simp only [hlarge, ↓reduceIte]
            have hnew : newTotal = d.totalDecoded + size := by
              unfold u64CheckedAdd at hadd
              split_ifs at hadd
              exact (Option.some.inj hadd).symm
            have hlimit : d.maxBodyBytes = maxBodyBytes := h.limit
            refine { h with wf := ?_, bounded := ?_, count := hfew }
            · intro r hr
              cases hr
              exact Nat.pos_of_ne_zero hsize
            · change d.totalDecoded + size ≤ maxBodyBytes.toNat
              rw [← hnew, ← hlimit]
              exact Nat.not_lt.mp hlarge

theorem afterLine_blank {accept : Accept} {d : ChunkedDecoder} {body : Bytes} {next : State}
    (hnext : ∀ r, next ≠ .chunkData r) {e : ChunkedError}
    (haccept : ∀ line, accept d line =
      if !line.isEmpty then (.error e, d) else (.ok (), { d with state := next }))
    (h : Within maxBodyBytes out failed (d, body)) (line : Bytes) :
    Kept maxBodyBytes out failed (afterLine accept d line body) := by
  have hremaining : remaining next = 0 := by
    cases next with
    | chunkData r => exact absurd rfl (hnext r)
    | _ => rfl
  unfold afterLine
  rw [haccept line]
  split_ifs
  · exact h.mono
  · exact { h with
      wf := fun r hr => absurd hr (hnext r)
      bounded := by
        change d.totalDecoded + remaining next ≤ maxBodyBytes.toNat
        rw [hremaining]
        exact (Nat.le_add_right _ _).trans h.bounded }

theorem lineByte_within {st : State} {accept : Accept} (harm : LineArm st accept)
    {d : ChunkedDecoder} {body : Bytes} (h : Within maxBodyBytes out failed (d, body)) (b : UInt8) :
    Kept maxBodyBytes out failed (lineByte accept d body b) := by
  unfold lineByte
  by_cases hlf : b = lf
  · rw [if_pos hlf]
    by_cases hcr : d.lineBuf.getLast? ≠ some cr
    · rw [if_pos hcr]
      exact h.mono
    · rw [if_neg hcr]
      have hempty : Within maxBodyBytes out failed ({ d with lineBuf := [] }, body) :=
        { h with line := Nat.zero_le _ }
      cases harm with
      | size => exact afterLine_size hempty _
      | dataCrlf => exact afterLine_blank (by simp) (fun _ => rfl) hempty _
      | trailer => exact afterLine_blank (by simp) (fun _ => rfl) hempty _
  · rw [if_neg hlf]
    have hline : d.lineBuf.length ≤ maxChunkLineBytes + failed := h.line
    have hpushed : (d.lineBuf ++ [b]).length = d.lineBuf.length + 1 := by simp
    by_cases hlong : (d.lineBuf ++ [b]).length > maxChunkLineBytes
    · simp only [hlong, ↓reduceIte]
      exact { h.mono with line := by change (d.lineBuf ++ [b]).length ≤ _; omega }
    · simp only [hlong, ↓reduceIte]
      exact { h with line := by change (d.lineBuf ++ [b]).length ≤ _; omega }

theorem dataByte_within {d : ChunkedDecoder} {body : Bytes} {r : ℕ}
    (h : Within maxBodyBytes out failed (d, body)) (hst : d.state = .chunkData r) (b : UInt8) :
    Within maxBodyBytes out failed (dataByte d r body b) := by
  have hpos : 0 < r := h.wf r hst
  have hbounded : d.totalDecoded + r ≤ maxBodyBytes.toNat := by
    have := h.bounded
    rwa [hst] at this
  obtain ⟨sofar, hbody, htotal⟩ := h.appended
  refine { h with wf := ?_, appended := ?_, bounded := ?_ }
  · intro n hn
    simp only [dataByte] at hn
    split_ifs at hn
    cases hn
    omega
  · refine ⟨sofar ++ [b], ?_, ?_⟩
    · change body ++ [b] = _
      rw [show body = out ++ sofar from hbody, List.append_assoc]
    · change d.totalDecoded + 1 = _
      rw [show d.totalDecoded = sofar.length from htotal, List.length_append,
        List.length_singleton]
  · simp only [dataByte]
    split_ifs
    · simp only [remaining]
      omega
    · simp only [remaining]
      omega

theorem byteStep_within {c : Cell} (h : Within maxBodyBytes out failed c) (b : UInt8) :
    Kept maxBodyBytes out failed (byteStep c b) := by
  obtain ⟨d, body⟩ := c
  cases hst : d.state with
  | done =>
    simp only [byteStep, hst]
    exact h
  | chunkSizeLine =>
    rw [LineArm.step .size hst]
    exact lineByte_within .size h b
  | chunkDataCrlf =>
    rw [LineArm.step .dataCrlf hst]
    exact lineByte_within .dataCrlf h b
  | trailerLine =>
    rw [LineArm.step .trailer hst]
    exact lineByte_within .trailer h b
  | chunkData r =>
    simp only [byteStep, hst]
    exact dataByte_within h hst b

/-- The results of calls made one after the other, whatever the calls before returned. -/
def decodeEach : ChunkedDecoder → Bytes → List Bytes → List DecodeResult
  | _, _, [] => []
  | d, out, input :: inputs =>
    let r := d.decode input out
    r :: decodeEach r.decoder r.out inputs

def isFailure (r : DecodeResult) : Bool :=
  match r.result with
  | .error _ => true
  | .ok _ => false

def failures (results : List DecodeResult) : ℕ := results.countP isFailure

theorem decode_within {d : ChunkedDecoder} {body : Bytes}
    (h : Within maxBodyBytes out failed (d, body)) (input : Bytes) :
    Within maxBodyBytes out (failed + failures [d.decode input body])
        ((d.decode input body).decoder, (d.decode input body).out) ∧
      ∀ n, (d.decode input body).result = .ok (.complete n) →
        (d.decode input body).decoder.state = .done := by
  have hstep : ∀ c b, Within maxBodyBytes out failed c →
      Kept maxBodyBytes out failed (byteStep c b) := fun c b hc => byteStep_within hc b
  obtain ⟨hmore, hcomplete, hfailed⟩ := feed_invariant byteMachine
    (fun c b t hc ht => by have := hstep c b hc; rwa [show byteStep c b = .ok t from ht] at this)
    (fun c b e hc he => by have := hstep c b hc; rwa [show byteStep c b = .error e from he] at this)
    h input
  rw [decode_eq_feed d h.wf input body]
  cases hfeed : feed byteMachine (d, body) input with
  | more c => exact ⟨hmore c hfeed, fun n hn => by cases hn⟩
  | complete c rest =>
    obtain ⟨hc, hdone⟩ := hcomplete c rest hfeed
    exact ⟨hc, fun _ _ => beq_iff_eq.mp hdone⟩
  | failed e =>
    obtain ⟨e, c⟩ := e
    exact ⟨hfailed (e, c) hfeed, fun n hn => by cases hn⟩

theorem decodeEach_within {d : ChunkedDecoder} {body : Bytes}
    (h : Within maxBodyBytes out failed (d, body)) {inputs : List Bytes} {k : ℕ} {r : DecodeResult}
    (hk : (decodeEach d body inputs)[k]? = some r) :
    Within maxBodyBytes out (failed + failures ((decodeEach d body inputs).take (k + 1)))
      (r.decoder, r.out) := by
  induction inputs generalizing d body failed k with
  | nil => cases hk
  | cons input inputs ih =>
    have hcall := (decode_within h input).1
    rw [decodeEach] at hk ⊢
    cases k with
    | zero =>
      cases hk
      exact hcall
    | succ k =>
      have hrest := ih hcall hk
      rw [List.take_succ_cons, ← List.singleton_append, failures, List.countP_append, ← Nat.add_assoc]
      exact hrest

theorem decodeEach_drop {d : ChunkedDecoder} {body : Bytes} {inputs : List Bytes} {j : ℕ}
    {q : DecodeResult} (hj : (decodeEach d body inputs)[j]? = some q) :
    (decodeEach d body inputs).drop (j + 1) = decodeEach q.decoder q.out (inputs.drop (j + 1)) := by
  induction inputs generalizing d body j with
  | nil => cases hj
  | cons input inputs ih =>
    rw [decodeEach] at hj ⊢
    cases j with
    | zero =>
      cases hj
      rfl
    | succ j => exact ih hj

theorem decodeEach_done {d : ChunkedDecoder} (hd : d.state = .done) (body : Bytes)
    (inputs : List Bytes) :
    ∀ r ∈ decodeEach d body inputs, r.result = .ok (.complete 0) ∧ r.out = body := by
  induction inputs with
  | nil => simp [decodeEach]
  | cons input inputs ih =>
    have hwf : Wf d := fun r hr => by rw [hd] at hr; cases hr
    have hcall : d.decode input body = ⟨.ok (.complete 0), d, body⟩ := by
      rw [decode_eq_feed d hwf, feed_done byteMachine (by simp [byteMachine, hd])]
      simp [asResult]
    rw [decodeEach, hcall, List.forall_mem_cons]
    exact ⟨⟨rfl, rfl⟩, ih⟩

theorem decodeEach_complete {d : ChunkedDecoder} {body : Bytes}
    (h : Within maxBodyBytes out failed (d, body)) {inputs : List Bytes} {j : ℕ} {q : DecodeResult}
    (hj : (decodeEach d body inputs)[j]? = some q) {n : ℕ}
    (hq : q.result = .ok (.complete n)) : q.decoder.state = .done := by
  induction inputs generalizing d body failed j with
  | nil => cases hj
  | cons input inputs ih =>
    obtain ⟨hcall, hdone⟩ := decode_within h input
    rw [decodeEach] at hj
    cases j with
    | zero =>
      cases hj
      exact hdone n hq
    | succ j => exact ih hcall hj

theorem failures_take {results : List DecodeResult} {k : ℕ}
    (h : ∀ j < k, ∀ q, results[j]? = some q → isFailure q = false) :
    failures (results.take (k + 1)) ≤ 1 := by
  have hbefore : failures (results.take k) = 0 := by
    rw [failures, List.countP_eq_zero]
    intro q hq
    obtain ⟨j, hj⟩ := List.mem_iff_getElem?.mp hq
    rw [List.getElem?_take] at hj
    split_ifs at hj with hlt
    simp [h j hlt q hj]
  have hlast : failures (results[k]?.toList) ≤ 1 := by
    refine (List.countP_le_length).trans ?_
    cases results[k]? <;> simp
  rw [failures] at hbefore hlast ⊢
  rw [List.take_add_one, List.countP_append, hbefore]
  omega

/-- Whatever is fed to a decoder, it delivers what it counts and no more than its limit; its two
counters pass their limits by the calls that failed. -/
theorem decodeEach_resources (maxBodyBytes : UInt64) (out : Bytes) (inputs : List Bytes) :
    let results : List DecodeResult := decodeEach (.withMaxBodyBytes maxBodyBytes) out inputs
    (∀ (k : ℕ) (r : DecodeResult), results[k]? = some r →
      (∃ body, r.out = out ++ body ∧ r.decoder.totalDecoded = body.length) ∧
      r.decoder.totalDecoded + remaining r.decoder.state ≤ maxBodyBytes.toNat ∧
      r.decoder.lineBuf.length ≤ maxChunkLineBytes + failures (results.take (k + 1)) ∧
      r.decoder.chunkCount ≤ maxChunkCount + failures (results.take (k + 1))) ∧
    (∀ (k : ℕ) (r : DecodeResult), results[k]? = some r →
      (∀ j < k, ∀ q : DecodeResult, results[j]? = some q → isFailure q = false) →
      r.decoder.lineBuf.length ≤ maxChunkLineBytes + 1 ∧
      r.decoder.chunkCount ≤ maxChunkCount + 1 ∧ r.decoder.chunkCount + 1 < 2 ^ 64 ∧
      r.decoder.totalDecoded + remaining r.decoder.state < 2 ^ 64) ∧
    ∀ (j : ℕ) (q : DecodeResult) (n : ℕ), results[j]? = some q → q.result = .ok (.complete n) →
      ∀ (k : ℕ) (r : DecodeResult), j < k → results[k]? = some r →
        r.result = .ok (.complete 0) ∧ r.out = q.out := by
  intro results
  have hstart := withMaxBodyBytes_within maxBodyBytes out
  have hwithin : ∀ k r, results[k]? = some r →
      Within maxBodyBytes out (failures (results.take (k + 1))) (r.decoder, r.out) := by
    intro k r hk
    have h := decodeEach_within hstart hk
    rwa [Nat.zero_add] at h
  refine ⟨?_, ?_, ?_⟩
  · intro k r hk
    have h := hwithin k r hk
    exact ⟨h.appended, h.bounded, h.line, h.count⟩
  · intro k r hk hbefore
    have h := hwithin k r hk
    have hfailed := failures_take hbefore
    have hline : r.decoder.lineBuf.length ≤ _ := h.line
    have hcount : r.decoder.chunkCount ≤ _ := h.count
    have hmax : maxChunkCount + 2 < 2 ^ 64 := by decide
    exact ⟨by omega, by omega, by omega, h.bounded.trans_lt maxBodyBytes.toNat_lt⟩
  · intro j q n hj hq k r hlt hk
    have hdone := decodeEach_complete hstart hj hq
    have hdrop := decodeEach_drop hj
    have hmem : r ∈ decodeEach q.decoder q.out (inputs.drop (j + 1)) := by
      rw [← hdrop, List.mem_iff_getElem?]
      refine ⟨k - (j + 1), ?_⟩
      rw [List.getElem?_drop, show j + 1 + (k - (j + 1)) = k by omega]
      exact hk
    exact decodeEach_done hdone q.out _ r hmem

/-- A caller that goes on after an error can make the line buffer longer still. -/
theorem lineBuf_after_error :
    ¬ ∀ (maxBodyBytes : UInt64) (out : Bytes) (inputs : List Bytes) (k : ℕ) (r : DecodeResult),
      (decodeEach (.withMaxBodyBytes maxBodyBytes) out inputs)[k]? = some r →
        r.decoder.lineBuf.length ≤ maxChunkLineBytes + 1 := by
  intro h
  have hlength : ((decodeEach (.withMaxBodyBytes 0) [] [List.replicate 257 97, [97]])[1]?.map
      fun r => r.decoder.lineBuf.length) = some 258 := by decide +kernel
  obtain ⟨r, hr, hr258⟩ := Option.map_eq_some_iff.mp hlength
  have hle := h 0 [] _ 1 r hr
  rw [hr258] at hle
  exact absurd hle (by decide)

end FandheBackend.HttpChunkedResources
