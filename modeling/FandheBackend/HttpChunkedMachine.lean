import FandheBackend.FedMachine
import FandheBackend.HttpChunked

set_option autoImplicit false

/-!
# The chunked decoder as a machine on bytes

`decode` reads lines and runs of data. Read byte by byte it is the machine
`byteMachine`, and one call is one feed of it (`decode_eq_feed`). Everything that
concerns the cutting of the input then follows from `FedMachine`.
-/
namespace FandheBackend.HttpChunkedMachine
open StdBytes HttpChunked FedMachine

abbrev Cell := ChunkedDecoder × Bytes

abbrev Accept := ChunkedDecoder → Bytes → Except ChunkedError Unit × ChunkedDecoder

/-- The chunk being read has bytes left; `decode` enters no other data state. -/
def Wf (d : ChunkedDecoder) : Prop := ∀ r, d.state = .chunkData r → 0 < r

def afterLine (accept : Accept) (d : ChunkedDecoder) (line out : Bytes) :
    Except (ChunkedError × Cell) Cell :=
  match accept d line with
  | (.error e, d) => .error (e, d, out)
  | (.ok (), d) => .ok (d, out)

def lineByte (accept : Accept) (d : ChunkedDecoder) (out : Bytes) (b : UInt8) :
    Except (ChunkedError × Cell) Cell :=
  if b = lf then
    if d.lineBuf.getLast? ≠ some cr then .error (.invalidLineTerminator, d, out)
    else afterLine accept { d with lineBuf := [] } d.lineBuf.dropLast out
  else
    let d := { d with lineBuf := d.lineBuf ++ [b] }
    if d.lineBuf.length > maxChunkLineBytes then .error (.chunkLineTooLong, d, out)
    else .ok (d, out)

def dataByte (d : ChunkedDecoder) (remaining : ℕ) (out : Bytes) (b : UInt8) : Cell :=
  ({ d with
      totalDecoded := d.totalDecoded + 1
      state := if remaining - 1 = 0 then .chunkDataCrlf else .chunkData (remaining - 1) },
    out ++ [b])

def byteStep (c : Cell) (b : UInt8) : Except (ChunkedError × Cell) Cell :=
  match c.1.state with
  | .done => .ok c
  | .chunkSizeLine => lineByte acceptSizeLine c.1 c.2 b
  | .chunkData remaining => .ok (dataByte c.1 remaining c.2 b)
  | .chunkDataCrlf => lineByte acceptDataCrlf c.1 c.2 b
  | .trailerLine => lineByte acceptTrailer c.1 c.2 b

def byteMachine : Machine Cell UInt8 (ChunkedError × Cell) :=
  ⟨byteStep, fun c => c.1.state == .done⟩

inductive LineArm : State → Accept → Prop where
  | size : LineArm .chunkSizeLine acceptSizeLine
  | dataCrlf : LineArm .chunkDataCrlf acceptDataCrlf
  | trailer : LineArm .trailerLine acceptTrailer

theorem LineArm.step {st : State} {accept : Accept} (h : LineArm st accept)
    {d : ChunkedDecoder} (hd : d.state = st) (out : Bytes) (b : UInt8) :
    byteStep (d, out) b = lineByte accept d out b := by
  cases h <;> simp [byteStep, hd]

theorem LineArm.not_done {st : State} {accept : Accept} (h : LineArm st accept)
    {d : ChunkedDecoder} (hd : d.state = st) (out : Bytes) :
    byteMachine.done (d, out) = false := by
  cases h <;> simp [byteMachine, hd]

theorem takeLine_none_rest {lineBuf rest : Bytes}
    (h : (takeLine lineBuf rest).result = .ok none) : (takeLine lineBuf rest).rest = [] := by
  induction rest generalizing lineBuf with
  | nil => rfl
  | cons b bs ih =>
    simp only [takeLine] at h ⊢
    split_ifs at h ⊢
    · cases h
    · exact ih h

theorem takeLine_rest_length (lineBuf rest : Bytes) :
    (takeLine lineBuf rest).rest.length ≤ rest.length ∧
      (rest ≠ [] → (takeLine lineBuf rest).rest.length < rest.length) := by
  induction rest generalizing lineBuf with
  | nil => exact ⟨le_refl _, fun h => absurd rfl h⟩
  | cons b bs ih =>
    have htail := (ih (lineBuf ++ [b])).1
    have hlt : (takeLine lineBuf (b :: bs)).rest.length < bs.length + 1 := by
      simp only [takeLine]
      split_ifs
      · exact Nat.lt_succ_self _
      · exact Nat.lt_succ_self _
      · exact Nat.lt_succ_self _
      · omega
    exact ⟨hlt.le, fun _ => hlt⟩

theorem feed_line {st : State} {accept : Accept} (h : LineArm st accept)
    (d : ChunkedDecoder) (hd : d.state = st) (rest out : Bytes) :
    feed byteMachine (d, out) rest =
      match (takeLine d.lineBuf rest).result with
      | .error e => .failed (e, { d with lineBuf := (takeLine d.lineBuf rest).lineBuf }, out)
      | .ok none => .more ({ d with lineBuf := (takeLine d.lineBuf rest).lineBuf }, out)
      | .ok (some line) =>
        match afterLine accept { d with lineBuf := (takeLine d.lineBuf rest).lineBuf } line out with
        | .error e => .failed e
        | .ok c => feed byteMachine c (takeLine d.lineBuf rest).rest := by
  induction rest generalizing d with
  | nil => simp [feed, takeLine, h.not_done hd out]
  | cons b bs ih =>
    have hstep : byteMachine.step (d, out) b = lineByte accept d out b := h.step hd out b
    simp only [feed, h.not_done hd out, Bool.false_eq_true, ↓reduceIte, hstep, lineByte, takeLine]
    by_cases hb : b = lf
    · by_cases hcr : d.lineBuf.getLast? = some cr
      · simp only [hb, hcr, ne_eq, not_true_eq_false, ↓reduceIte]
        cases afterLine accept { d with lineBuf := [] } d.lineBuf.dropLast out <;> rfl
      · simp [hb, hcr]
    · by_cases hlen : (d.lineBuf ++ [b]).length > maxChunkLineBytes
      · simp only [hb, hlen, ↓reduceIte]
      · simp only [hb, hlen, ↓reduceIte]
        exact ih { d with lineBuf := d.lineBuf ++ [b] } hd

theorem feed_data_short (d : ChunkedDecoder) (r : ℕ) (hd : d.state = .chunkData r)
    (data out : Bytes) (hlen : data.length < r) :
    feed byteMachine (d, out) data =
      .more ({ d with totalDecoded := d.totalDecoded + data.length,
                      state := .chunkData (r - data.length) }, out ++ data) := by
  induction data generalizing d r out with
  | nil =>
    cases d
    simp only at hd
    simp [feed, byteMachine, hd]
  | cons b bs ih =>
    rw [List.length_cons] at hlen
    have hr : ¬ r - 1 = 0 := by omega
    rw [feed_cons (t := dataByte d r out b) byteMachine (by simp [byteMachine, hd])
      (by simp [byteMachine, byteStep, hd])]
    simp only [dataByte, hr, ↓reduceIte]
    rw [ih _ (r - 1) rfl _ (by omega)]
    have hleft : r - 1 - bs.length = r - (bs.length + 1) := by omega
    have htotal : d.totalDecoded + 1 + bs.length = d.totalDecoded + (bs.length + 1) := by omega
    simp only [List.length_cons, List.append_assoc, List.singleton_append, hleft, htotal]

theorem feed_data_full (d : ChunkedDecoder) (r : ℕ) (hd : d.state = .chunkData r)
    (data rest out : Bytes) (hlen : data.length = r) (hr : 0 < r) :
    feed byteMachine (d, out) (data ++ rest) =
      feed byteMachine ({ d with totalDecoded := d.totalDecoded + r,
                                 state := .chunkDataCrlf }, out ++ data) rest := by
  induction data generalizing d r out with
  | nil =>
    rw [List.length_nil] at hlen
    omega
  | cons b bs ih =>
    rw [List.length_cons] at hlen
    rw [List.cons_append, feed_cons (t := dataByte d r out b) byteMachine
      (by simp [byteMachine, hd]) (by simp [byteMachine, byteStep, hd])]
    by_cases hlast : r - 1 = 0
    · have hbs : bs = [] := List.eq_nil_of_length_eq_zero (by omega)
      have hone : r = 1 := by omega
      subst hbs
      simp [dataByte, hone]
    · simp only [dataByte, hlast, ↓reduceIte]
      rw [ih _ (r - 1) rfl _ (by omega) (by omega)]
      have htotal : d.totalDecoded + 1 + (r - 1) = d.totalDecoded + r := by omega
      simp only [List.append_assoc, List.singleton_append, htotal]

theorem acceptSizeLine_wf (d : ChunkedDecoder) (hd : Wf d) (line : Bytes) :
    Wf (acceptSizeLine d line).2 := by
  unfold acceptSizeLine
  cases parseChunkSize line with
  | error e => exact hd
  | ok size =>
    simp only
    split_ifs with hc hz
    · exact hd
    · intro r hr
      cases hr
    · cases u64CheckedAdd d.totalDecoded size with
      | none => exact hd
      | some n =>
        simp only
        split_ifs
        · exact hd
        · intro r hr
          cases hr
          omega

theorem LineArm.wf {st : State} {accept : Accept} (h : LineArm st accept)
    (d : ChunkedDecoder) (hd : Wf d) (line : Bytes) : Wf (accept d line).2 := by
  cases h with
  | size => exact acceptSizeLine_wf d hd line
  | dataCrlf =>
    unfold acceptDataCrlf
    split_ifs
    · exact hd
    · intro r hr
      cases hr
  | trailer =>
    unfold acceptTrailer
    split_ifs
    · exact hd
    · intro r hr
      cases hr

def asResult (len : ℕ) : Fed Cell UInt8 (ChunkedError × Cell) → DecodeResult
  | .more c => ⟨.ok (.incomplete len), c.1, c.2⟩
  | .complete c rest => ⟨.ok (.complete (len - rest.length)), c.1, c.2⟩
  | .failed (e, c) => ⟨.error e, c.1, c.2⟩

theorem lineState_eq_feed {st : State} {accept : Accept} (h : LineArm st accept)
    (k : ChunkedDecoder → Bytes → DecodeResult) (len : ℕ) (d : ChunkedDecoder)
    (hd : d.state = st) (rest out : Bytes)
    (hk : ∀ d', (∃ line, (accept { d with lineBuf := (takeLine d.lineBuf rest).lineBuf } line).2
        = d' ∧ (accept { d with lineBuf := (takeLine d.lineBuf rest).lineBuf } line).1 = .ok ()) →
      rest ≠ [] → k d' (takeLine d.lineBuf rest).rest =
        asResult len (feed byteMachine (d', out) (takeLine d.lineBuf rest).rest)) :
    lineState accept k len d rest out = asResult len (feed byteMachine (d, out) rest) := by
  rw [feed_line h d hd, lineState]
  cases ht : (takeLine d.lineBuf rest).result with
  | error e => simp [asResult]
  | ok line =>
    cases line with
    | none => simp [asResult, takeLine_none_rest ht]
    | some line =>
      have hne : rest ≠ [] := by
        rintro rfl
        simp [takeLine] at ht
      simp only [afterLine]
      cases ha : accept { d with lineBuf := (takeLine d.lineBuf rest).lineBuf } line with
      | mk res d' =>
        cases res with
        | error e => simp [asResult]
        | ok u => exact hk d' ⟨line, by rw [ha], by rw [ha]⟩ hne

theorem decodeLoop_eq_feed (len fuel : ℕ) (d : ChunkedDecoder) (hd : Wf d)
    (rest out : Bytes) (hfuel : rest.length < fuel) :
    decodeLoop len fuel d rest out = asResult len (feed byteMachine (d, out) rest) := by
  induction fuel generalizing d rest out with
  | zero => omega
  | succ fuel ih =>
    have harm : ∀ {st : State} {accept : Accept}, LineArm st accept → d.state = st →
        lineState accept (fun d rest => decodeLoop len fuel d rest out) len d rest out =
          asResult len (feed byteMachine (d, out) rest) := by
      intro st accept h hst
      apply lineState_eq_feed h _ len d hst
      rintro d' ⟨line, rfl, _⟩ hne
      have hlt := (takeLine_rest_length d.lineBuf rest).2 hne
      apply ih
      · apply h.wf
        exact hd
      · omega
    rw [decodeLoop]
    cases hst : d.state with
    | done => simp [feed_done byteMachine (s := (d, out)) (by simp [byteMachine, hst]), asResult]
    | chunkSizeLine => exact harm .size hst
    | chunkDataCrlf => exact harm .dataCrlf hst
    | trailerLine =>
      apply lineState_eq_feed .trailer _ len d hst
      rintro d' ⟨line, rfl, hok⟩ _
      have hdone : (acceptTrailer { d with lineBuf := (takeLine d.lineBuf rest).lineBuf }
          line).2.state = .done := by
        unfold acceptTrailer at hok ⊢
        split_ifs at hok ⊢
        rfl
      rw [feed_done byteMachine (by simp [byteMachine, hdone])]
      rfl
    | chunkData r =>
      have hr := hd r hst
      by_cases hlt : rest.length < r
      · rw [feed_data_short d r hst rest out hlt]
        have hmin : min rest.length r = rest.length := by omega
        by_cases hz : rest.length = 0
        · have hnil := List.eq_nil_of_length_eq_zero hz
          subst hnil
          cases d
          simp only at hst
          simp [asResult, hst]
        · have hsub : ¬ r - rest.length = 0 := by omega
          simp [asResult, hmin, hz, hsub]
      · have hmin : min rest.length r = r := by omega
        have hz : ¬ rest.length = 0 := by omega
        have hfull := feed_data_full d r hst (rest.take r) (rest.drop r) out
          (by rw [List.length_take]; omega) hr
        rw [List.take_append_drop] at hfull
        simp only [hz, ↓reduceIte, hmin, Nat.sub_self]
        rw [hfull]
        apply ih
        · intro n hn
          cases hn
        · rw [List.length_drop]
          omega

/-- One call of `decode` is one feed of the machine. -/
theorem decode_eq_feed (d : ChunkedDecoder) (hd : Wf d) (input out : Bytes) :
    d.decode input out = asResult input.length (feed byteMachine (d, out) input) :=
  decodeLoop_eq_feed input.length (input.length + 1) d hd input out (Nat.lt_succ_self _)

theorem withMaxBodyBytes_wf (maxBodyBytes : UInt64) :
    Wf (.withMaxBodyBytes maxBodyBytes) := by
  intro r hr
  cases hr

theorem byteStep_wf (c : Cell) (b : UInt8) (t : Cell) (hc : Wf c.1)
    (h : byteStep c b = .ok t) : Wf t.1 := by
  obtain ⟨d, out⟩ := c
  have hline : ∀ {st : State} {accept : Accept}, LineArm st accept → d.state = st → Wf t.1 := by
    intro st accept harm hst
    rw [harm.step hst] at h
    simp only [lineByte] at h
    split_ifs at h
    · unfold afterLine at h
      cases ha : accept { d with lineBuf := [] } d.lineBuf.dropLast with
      | mk res d' =>
        have hw := harm.wf { d with lineBuf := [] } hc d.lineBuf.dropLast
        rw [ha] at h hw
        cases res with
        | error e => cases h
        | ok u =>
          cases h
          exact hw
    · cases h
      exact hc
  cases hst : d.state with
  | done =>
    simp only [byteStep, hst, Except.ok.injEq] at h
    subst h
    exact hc
  | chunkSizeLine => exact hline .size hst
  | chunkDataCrlf => exact hline .dataCrlf hst
  | trailerLine => exact hline .trailer hst
  | chunkData r =>
    simp only [byteStep, hst, Except.ok.injEq] at h
    subst h
    intro n hn
    simp only [dataByte] at hn
    split_ifs at hn
    cases hn
    omega

end FandheBackend.HttpChunkedMachine
