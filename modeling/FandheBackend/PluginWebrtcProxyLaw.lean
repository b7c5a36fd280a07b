import FandheBackend.PluginWebrtcProxyHead

set_option autoImplicit false

namespace FandheBackend.PluginWebrtcProxyLaw
open StdBytes ExceptChecks HttpRequestHead HttpBodyLength Utf8Text
open PatternSearch PatternSplit PluginWebrtcProxy PluginWebrtcProxyHead
open HttpConnection (Read stream)

/-- Reads of at least one byte, none of more than `k`. -/
def Chunks (k : ℕ) (reads : List Read) : Prop :=
  ∀ r ∈ reads, ∃ bytes, r = .data bytes ∧ 1 ≤ bytes.length ∧ bytes.length ≤ k

def Cut (s : Bytes) (reads : List Read) : Prop := stream reads = s ∧ Chunks readChunkBytes reads

/-- The bodies of a stream: a head within the limit, as HTTP reads it, and enough bytes. -/
def Accepts (s : Bytes) (maxAnswerBytes : UInt64) (body : Bytes) : Prop :=
  ∃ head rest status n, s = head ++ rest ∧ EndsFirst head ∧ head.length ≤ responseHeadLimit ∧
    Announces httpReading head status n ∧ 200 ≤ status ∧ status ≤ 299 ∧ n ≤ maxAnswerBytes.toNat ∧
    n ≤ rest.length ∧ body = rest.take n

/-- A stream is read alike however it is cut, and as HTTP says. -/
structure Faithful (s : Bytes) (maxAnswerBytes : UInt64) : Prop where
  alike : ∀ reads reads', Cut s reads → Cut s reads' →
    readResponseBody reads maxAnswerBytes = readResponseBody reads' maxAnswerBytes
  accepts : ∀ reads, Cut s reads → ∀ body,
    readResponseBody reads maxAnswerBytes = .ok body ↔ Accepts s maxAnswerBytes body

/-- The streams without the defects. A head within the limit that is taken, or should be, is
plain; a head that ends in the read across the limit is followed by too short a body. -/
structure Unaffected (s : Bytes) (maxAnswerBytes : UInt64) : Prop where
  plain : ∀ (p : HeadParts) rest status n, s = headText p.lines ++ rest →
    IsText (headText p.lines) → EndsFirst (headText p.lines) →
    (headText p.lines).length ≤ responseHeadLimit →
    p.Announces clientReading status n ∨ p.Announces httpReading status n →
    200 ≤ status → status ≤ 299 → n ≤ maxAnswerBytes.toNat → n ≤ rest.length → p.Plain
  late : ∀ head rest status n, s = head ++ rest → EndsFirst head →
    Announces clientReading head status n → status < 2 ^ 16 → n < 2 ^ 64 →
    responseHeadLimit < head.length → head.length < responseHeadLimit + readChunkBytes →
    200 ≤ status ∧ status ≤ 299 ∧ n ≤ maxAnswerBytes.toNat ∧ rest.length < n

section Reads

theorem Chunks.cons {k : ℕ} {r : Read} {reads : List Read} (h : Chunks k (r :: reads)) :
    (∃ bytes, r = .data bytes ∧ 1 ≤ bytes.length ∧ bytes.length ≤ k) ∧ Chunks k reads :=
  List.forall_mem_cons.mp h

theorem stream_data (bytes : Bytes) (reads : List Read) :
    stream (.data bytes :: reads) = bytes ++ stream reads := rfl

theorem isEmpty_of_length {bytes : Bytes} (h : 1 ≤ bytes.length) : bytes.isEmpty = false := by
  cases bytes with
  | nil => cases h
  | cons b bytes => rfl

theorem readBody_eq {k n max : ℕ} (hmax : n ≤ max) {body : Bytes} {reads : List Read}
    (h : Chunks k reads) :
    readBody n max body reads =
      if (body ++ stream reads).length < n then .error .upstreamProtocol
      else .ok ((body ++ stream reads).take n) := by
  induction reads generalizing body with
  | nil =>
    have hstream : body ++ stream [] = body := List.append_nil body
    rw [readBody, hstream]
    split_ifs with hlt hge
    · exact absurd hge (by omega)
    · rfl
    · rfl
  | cons r reads ih =>
    obtain ⟨⟨bytes, rfl, hpos, -⟩, hreads⟩ := h.cons
    rw [readBody]
    by_cases hlt : body.length < n
    · rw [if_pos hlt, if_neg (show ¬ body.length ≥ max by omega)]
      simp only [isEmpty_of_length hpos, Bool.false_eq_true, if_false]
      rw [ih hreads, List.append_assoc, ← stream_data]
    · have hlong : ¬ (body ++ stream (.data bytes :: reads)).length < n := by
        rw [List.length_append]
        omega
      rw [if_neg hlt, if_neg hlong, List.take_append_of_le_length (by omega)]

end Reads

section HeadLoop
variable {head rest buf : Bytes} {reads : List Read}

theorem findSubslice_of_length (hends : EndsFirst head) (hs : buf ++ stream reads = head ++ rest)
    (hlen : head.length ≤ buf.length) :
    findSubslice buf terminator = some (head.length - 4) := by
  have hstarts : head <+: buf := by
    refine List.prefix_of_prefix_length_le ?_ (List.prefix_append buf (stream reads)) hlen
    rw [hs]
    exact List.prefix_append _ _
  obtain ⟨tail, rfl⟩ := hstarts
  rw [findSubslice_terminator]
  exact hends.findFirst tail

theorem findSubslice_of_lt (hends : EndsFirst head) (hs : buf ++ stream reads = head ++ rest)
    (hlen : buf.length < head.length) : findSubslice buf terminator = none := by
  rw [findSubslice_terminator]
  cases hfirst : findFirst terminator buf with
  | none => rfl
  | some i =>
    have happend := findFirst_append_of_some (stream reads) hfirst
    have hle : i + 4 ≤ buf.length := findFirst_length_le hfirst
    rw [hs, hends.findFirst rest] at happend
    have := Option.some.inj happend
    omega

theorem readHead_step (hends : EndsFirst head) {bytes : Bytes} {reads : List Read}
    (hs : buf ++ stream (.data bytes :: reads) = head ++ rest) (hlen : buf.length < head.length)
    (hlimit : buf.length < responseHeadLimit) (hpos : 1 ≤ bytes.length) :
    readHead buf (.data bytes :: reads) = readHead (buf ++ bytes) reads := by
  rw [readHead, findSubslice_of_lt hends hs hlen]
  simp only [isEmpty_of_length hpos, Bool.false_eq_true, if_false]
  exact if_neg (by omega)

theorem readHead_done (hends : EndsFirst head) (hs : buf ++ stream reads = head ++ rest)
    (hlen : head.length ≤ buf.length) : readHead buf reads = .ok (head.length, buf, reads) := by
  have hge := hends.length_ge
  rw [readHead.eq_def, findSubslice_of_length hends hs hlen]
  simp only [show head.length - 4 + 4 = head.length by omega]

theorem readHead_limit (hends : EndsFirst head) (hs : buf ++ stream reads = head ++ rest)
    (hlen : buf.length < head.length) (hlimit : responseHeadLimit ≤ buf.length) :
    readHead buf reads = .error .upstreamProtocol := by
  rw [readHead.eq_def, findSubslice_of_lt hends hs hlen]
  exact if_pos hlimit

theorem readHead_cases {k : ℕ} (hends : EndsFirst head) (h : Chunks k reads)
    (hs : buf ++ stream reads = head ++ rest) :
    (∃ buf' reads', readHead buf reads = .ok (head.length, buf', reads') ∧
      buf' ++ stream reads' = head ++ rest ∧ head.length ≤ buf'.length ∧ Chunks k reads') ∨
    responseHeadLimit < head.length ∧ readHead buf reads = .error .upstreamProtocol := by
  induction reads generalizing buf with
  | nil =>
    have hlen : head.length ≤ buf.length := by
      have := congrArg List.length hs
      rw [List.length_append, List.length_append] at this
      change buf.length + 0 = _ at this
      omega
    exact .inl ⟨buf, [], readHead_done hends hs hlen, hs, hlen, h⟩
  | cons r reads ih =>
    rcases Nat.lt_or_ge buf.length head.length with hlen | hlen
    · rcases Nat.lt_or_ge buf.length responseHeadLimit with hlimit | hlimit
      · obtain ⟨⟨bytes, rfl, hpos, -⟩, hreads⟩ := h.cons
        rw [readHead_step hends hs hlen hlimit hpos]
        exact ih hreads (by rw [List.append_assoc, ← stream_data, hs])
      · exact .inr ⟨by omega, readHead_limit hends hs hlen hlimit⟩
    · exact .inl ⟨buf, _, readHead_done hends hs hlen, hs, hlen, h⟩

/-- Reads of at most `k` bytes cannot pass over the limit by `k` bytes. -/
theorem readHead_late {k : ℕ} (hends : EndsFirst head) (h : Chunks k reads)
    (hs : buf ++ stream reads = head ++ rest) (hlong : responseHeadLimit + k ≤ head.length)
    (hbuf : buf.length < responseHeadLimit + k) :
    readHead buf reads = .error .upstreamProtocol := by
  induction reads generalizing buf with
  | nil =>
    have := congrArg List.length hs
    rw [List.length_append, List.length_append] at this
    change buf.length + 0 = _ at this
    omega
  | cons r reads ih =>
    rcases Nat.lt_or_ge buf.length responseHeadLimit with hlimit | hlimit
    · obtain ⟨⟨bytes, rfl, hpos, hle⟩, hreads⟩ := h.cons
      rw [readHead_step hends hs (by omega) hlimit hpos]
      exact ih hreads (by rw [List.append_assoc, ← stream_data, hs])
        (by rw [List.length_append]; omega)
    · exact readHead_limit hends hs (by omega) hlimit

theorem readHead_none {k : ℕ} (h : Chunks k reads)
    (hnone : findFirst terminator (buf ++ stream reads) = none) :
    readHead buf reads = .error .upstreamProtocol := by
  have hbuf {buf : Bytes} {reads : List Read}
      (hnone : findFirst terminator (buf ++ stream reads) = none) :
      findSubslice buf terminator = none := by
    rw [findSubslice_terminator]
    cases hfirst : findFirst terminator buf with
    | none => rfl
    | some i => rw [findFirst_append_of_some (stream reads) hfirst] at hnone; cases hnone
  induction reads generalizing buf with
  | nil =>
    rw [readHead, hbuf hnone]
    split_ifs <;> rfl
  | cons r reads ih =>
    obtain ⟨⟨bytes, rfl, hpos, -⟩, hreads⟩ := h.cons
    rw [readHead, hbuf hnone]
    simp only [isEmpty_of_length hpos, Bool.false_eq_true, if_false]
    split_ifs
    · rfl
    · exact ih hreads (by rwa [List.append_assoc, ← stream_data])

end HeadLoop

section Answers
variable {s head rest : Bytes} {reads : List Read} {maxAnswerBytes : UInt64}

def answer (head rest : Bytes) (maxAnswerBytes : UInt64) : Except ProxyError Bytes := do
  let (status, contentLength) ← parseResponseHead head
  rejectIf (¬(200 ≤ status ∧ status < 300)) .upstreamStatus
  rejectIf (contentLength > maxAnswerBytes.toNat) .answerTooLarge
  if rest.length < contentLength then .error .upstreamProtocol else .ok (rest.take contentLength)

theorem readResponseBody_of_head {k : ℕ} {buf : Bytes} {reads' : List Read}
    (hhead : readHead [] reads = .ok (head.length, buf, reads'))
    (hs : buf ++ stream reads' = head ++ rest) (hlen : head.length ≤ buf.length)
    (hreads : Chunks k reads') :
    readResponseBody reads maxAnswerBytes = answer head rest maxAnswerBytes := by
  have htake : buf.take head.length = head := by
    have := congrArg (List.take head.length) hs
    rwa [List.take_append_of_le_length hlen, List.take_left] at this
  have hdrop : buf.drop head.length ++ stream reads' = rest := by
    have := congrArg (List.drop head.length) hs
    rwa [List.drop_append_of_le_length hlen, List.drop_left] at this
  change (readHead [] reads >>= _) = _
  rw [hhead]
  change (parseResponseHead (buf.take head.length) >>= _) = (parseResponseHead head >>= _)
  rw [htake]
  refine congrArg (parseResponseHead head >>= ·) (funext fun ⟨status, n⟩ => ?_)
  refine congrArg (rejectIf _ _ >>= ·) (funext fun _ => ?_)
  by_cases hmax : n > maxAnswerBytes.toNat
  · simp only [rejectIf, if_pos hmax]
    rfl
  · simp only [rejectIf, if_neg hmax]
    change readBody n maxAnswerBytes.toNat (buf.drop head.length) reads' = _
    rw [readBody_eq (Nat.not_lt.mp hmax) hreads, hdrop]
    rfl

theorem readResponseBody_error {e : ProxyError} (h : readHead [] reads = .error e) :
    readResponseBody reads maxAnswerBytes = .error e := by
  change (readHead [] reads >>= _) = _
  rw [h]
  rfl

theorem readResponseBody_cases (hends : EndsFirst head) (hcut : Cut (head ++ rest) reads) :
    readResponseBody reads maxAnswerBytes = answer head rest maxAnswerBytes ∨
      responseHeadLimit < head.length ∧
        readResponseBody reads maxAnswerBytes = .error .upstreamProtocol := by
  obtain ⟨buf, reads', hhead, hs, hlen, hreads⟩ | ⟨hlong, hhead⟩ :=
    @readHead_cases head rest [] reads _ hends hcut.2 hcut.1
  · exact .inl (readResponseBody_of_head hhead hs hlen hreads)
  · exact .inr ⟨hlong, readResponseBody_error hhead⟩

theorem answer_of_head {status n : ℕ} (h : parseResponseHead head = .ok (status, n)) :
    answer head rest maxAnswerBytes =
      if ¬(200 ≤ status ∧ status < 300) then .error .upstreamStatus
      else if n > maxAnswerBytes.toNat then .error .answerTooLarge
      else if rest.length < n then .error .upstreamProtocol
      else .ok (rest.take n) := by
  unfold answer
  rw [h]
  change (rejectIf _ _ >>= fun _ => rejectIf _ _ >>= _) = _
  rw [rejectIf_bind, rejectIf_bind]

theorem answer_eq_ok_iff {body : Bytes} :
    answer head rest maxAnswerBytes = .ok body ↔
      ∃ status n, parseResponseHead head = .ok (status, n) ∧ 200 ≤ status ∧ status ≤ 299 ∧
        n ≤ maxAnswerBytes.toNat ∧ n ≤ rest.length ∧ body = rest.take n := by
  constructor
  · intro h
    obtain ⟨⟨status, n⟩, hparse, -⟩ := bind_eq_ok.mp h
    rw [answer_of_head hparse] at h
    split_ifs at h with hstatus hmax hshort
    exact ⟨status, n, hparse, by omega, by omega, by omega, by omega, (Except.ok.inj h).symm⟩
  · rintro ⟨status, n, hparse, hlow, hhigh, hmax, hlen, rfl⟩
    rw [answer_of_head hparse, if_neg (by omega), if_neg (by omega), if_neg (by omega)]

theorem answer_eq_protocol_iff {status n : ℕ} (h : parseResponseHead head = .ok (status, n)) :
    answer head rest maxAnswerBytes = .error .upstreamProtocol ↔
      200 ≤ status ∧ status ≤ 299 ∧ n ≤ maxAnswerBytes.toNat ∧ rest.length < n := by
  rw [answer_of_head h]
  by_cases hstatus : 200 ≤ status ∧ status < 300
  · rw [if_neg (not_not.mpr hstatus)]
    by_cases hmax : n > maxAnswerBytes.toNat
    · rw [if_pos hmax]
      simp only [Except.error.injEq, reduceCtorEq, false_iff]
      omega
    · rw [if_neg hmax]
      by_cases hshort : rest.length < n
      · rw [if_pos hshort]
        simp only [true_iff]
        omega
      · rw [if_neg hshort]
        simp only [reduceCtorEq, false_iff]
        omega
  · rw [if_pos hstatus]
    simp only [Except.error.injEq, reduceCtorEq, false_iff]
    omega

end Answers

section Cuts

def byteReads (s : Bytes) : List Read := s.map fun b => .data [b]

theorem stream_byteReads (s : Bytes) : stream (byteReads s) = s := by
  induction s with
  | nil => rfl
  | cons b s ih =>
    change [b] ++ stream (byteReads s) = _
    rw [ih]
    rfl

theorem chunks_byteReads {k : ℕ} (hk : 1 ≤ k) (s : Bytes) : Chunks k (byteReads s) := by
  intro r hr
  obtain ⟨b, -, rfl⟩ := List.mem_map.mp hr
  exact ⟨[b], rfl, le_rfl, hk⟩

theorem cut_byteReads (s : Bytes) : Cut s (byteReads s) :=
  ⟨stream_byteReads s, chunks_byteReads (by decide) s⟩

def lateReads (s : Bytes) : List Read :=
  .data (s.take 4096) :: .data ((s.drop 4096).take 4095) :: .data ((s.drop 8191).take 4096) ::
    byteReads (s.drop 12287)

theorem cut_lateReads {s : Bytes} (h : responseHeadLimit < s.length) : Cut s (lateReads s) := by
  have hlimit : responseHeadLimit = 8192 := rfl
  have hchunk : readChunkBytes = 4096 := rfl
  constructor
  · rw [lateReads, stream_data, stream_data, stream_data, stream_byteReads,
      show s.drop 8191 = (s.drop 4096).drop 4095 by rw [List.drop_drop],
      show s.drop 12287 = ((s.drop 4096).drop 4095).drop 4096 by rw [List.drop_drop, List.drop_drop],
      List.take_append_drop, List.take_append_drop, List.take_append_drop]
  · refine List.forall_mem_cons.mpr ⟨⟨_, rfl, ?_, ?_⟩, List.forall_mem_cons.mpr ⟨⟨_, rfl, ?_, ?_⟩,
      List.forall_mem_cons.mpr ⟨⟨_, rfl, ?_, ?_⟩, chunks_byteReads (by decide) _⟩⟩⟩
    all_goals
      simp only [List.length_take, List.length_drop]
      omega

/-- Cut in this way, a head that ends in the read across the limit is taken. -/
theorem readResponseBody_lateReads {head rest : Bytes} {maxAnswerBytes : UInt64}
    (hends : EndsFirst head) (hlong : responseHeadLimit < head.length)
    (hlt : head.length < responseHeadLimit + readChunkBytes) :
    readResponseBody (lateReads (head ++ rest)) maxAnswerBytes =
      answer head rest maxAnswerBytes := by
  have hlimit : responseHeadLimit = 8192 := rfl
  have hchunk : readChunkBytes = 4096 := rfl
  have hlen : head.length ≤ (head ++ rest).length := by
    rw [List.length_append]
    omega
  obtain ⟨hs, hchunks⟩ := cut_lateReads (hlong.trans_le hlen)
  rw [lateReads] at hs hchunks ⊢
  generalize hfirst : (head ++ rest).take 4096 = first at hs hchunks ⊢
  generalize hsecond : ((head ++ rest).drop 4096).take 4095 = second at hs hchunks ⊢
  generalize hthird : ((head ++ rest).drop 8191).take 4096 = third at hs hchunks ⊢
  generalize byteReads ((head ++ rest).drop 12287) = reads at hs hchunks ⊢
  have hlenFirst : first.length = 4096 := by
    rw [← hfirst, List.length_take]
    omega
  have hlenSecond : second.length = 4095 := by
    rw [← hsecond, List.length_take, List.length_drop]
    omega
  have hlenThird : head.length ≤ 8191 + third.length ∧ 1 ≤ third.length := by
    rw [← hthird, List.length_take, List.length_drop]
    omega
  have hs₁ : first ++ stream (.data second :: .data third :: reads) = head ++ rest := hs
  have hs₂ : first ++ second ++ stream (.data third :: reads) = head ++ rest := by
    rwa [List.append_assoc, ← stream_data]
  have hs₃ : first ++ second ++ third ++ stream reads = head ++ rest := by
    rwa [List.append_assoc, ← stream_data]
  have hlen₂ : (first ++ second).length = 8191 := by rw [List.length_append]; omega
  have hlen₃ : head.length ≤ (first ++ second ++ third).length := by
    rw [List.length_append]
    omega
  refine readResponseBody_of_head ?_ hs₃ hlen₃ hchunks.cons.2.cons.2.cons.2
  calc
    readHead [] (.data first :: .data second :: .data third :: reads)
    _ = readHead first (.data second :: .data third :: reads) :=
      readHead_step hends hs (show 0 < _ by omega) (by decide) (by omega)
    _ = readHead (first ++ second) (.data third :: reads) :=
      readHead_step hends hs₁ (by omega) (by omega) (by omega)
    _ = readHead (first ++ second ++ third) reads :=
      readHead_step hends hs₂ (by omega) (by omega) hlenThird.2
    _ = .ok (head.length, first ++ second ++ third, reads) := readHead_done hends hs₃ hlen₃

end Cuts

section Law
variable {s : Bytes} {maxAnswerBytes : UInt64}

theorem readResponseBody_none (hnone : findFirst terminator s = none) {reads : List Read}
    (hcut : Cut s reads) : readResponseBody reads maxAnswerBytes = .error .upstreamProtocol := by
  apply readResponseBody_error
  apply readHead_none hcut.2
  rw [hcut.1]
  exact hnone

theorem readResponseBody_late {k : ℕ} {head rest : Bytes} {reads : List Read}
    (hends : EndsFirst head) (hs : stream reads = head ++ rest) (h : Chunks k reads)
    (hlong : responseHeadLimit + k ≤ head.length) :
    readResponseBody reads maxAnswerBytes = .error .upstreamProtocol := by
  apply readResponseBody_error
  exact readHead_late hends h hs hlong (by simp [responseHeadLimit])

theorem readResponseBody_short {head rest : Bytes} {reads : List Read} (hends : EndsFirst head)
    (hcut : Cut (head ++ rest) reads) (hshort : head.length ≤ responseHeadLimit) :
    readResponseBody reads maxAnswerBytes = answer head rest maxAnswerBytes := by
  obtain heq | ⟨hlong, -⟩ := @readResponseBody_cases _ _ _ maxAnswerBytes hends hcut
  · exact heq
  · exact absurd hlong (Nat.not_lt.mpr hshort)

theorem Faithful.plain {p : HeadParts} {rest : Bytes} {status n : ℕ}
    (h : Faithful (headText p.lines ++ rest) maxAnswerBytes) (htext : IsText (headText p.lines))
    (hends : EndsFirst (headText p.lines)) (hshort : (headText p.lines).length ≤ responseHeadLimit)
    (hread : p.Announces clientReading status n ∨ p.Announces httpReading status n)
    (hlow : 200 ≤ status) (hhigh : status ≤ 299) (hmax : n ≤ maxAnswerBytes.toNat)
    (hlen : n ≤ rest.length) : p.Plain := by
  have hbytes := cut_byteReads (headText p.lines ++ rest)
  have hanswer : readResponseBody (byteReads (headText p.lines ++ rest)) maxAnswerBytes =
      answer (headText p.lines) rest maxAnswerBytes :=
    readResponseBody_short hends hbytes hshort
  rcases hread with hclient | hhttp
  · have hmax64 := maxAnswerBytes.toNat_lt
    have hparse := (parseResponseHead_eq_ok_iff hends).mpr
      ⟨⟨htext, p, rfl, hclient⟩, by omega, show n < 2 ^ 64 by omega⟩
    rw [answer_eq_ok_iff.mpr ⟨status, n, hparse, hlow, hhigh, hmax, hlen, rfl⟩] at hanswer
    obtain ⟨head', rest', status', n', heq, hends', -, ⟨-, p', hhead', hp'⟩, -⟩ :=
      (h.accepts _ hbytes _).mp hanswer
    obtain ⟨hhead, -⟩ := hends.unique hends' heq
    obtain rfl := hclient.toWellFormed.unique hp'.toWellFormed (hhead.trans hhead')
    exact HeadParts.plain_of_both hclient hp'
  · have haccepts : Accepts (headText p.lines ++ rest) maxAnswerBytes (rest.take n) :=
      ⟨_, rest, status, n, rfl, hends, hshort, ⟨htext, p, rfl, hhttp⟩, hlow, hhigh, hmax, hlen, rfl⟩
    rw [(h.accepts _ hbytes _).mpr haccepts] at hanswer
    obtain ⟨status', n', hparse, -⟩ := answer_eq_ok_iff.mp hanswer.symm
    obtain ⟨⟨-, p', hhead', hp'⟩, -⟩ := (parseResponseHead_eq_ok_iff hends).mp hparse
    obtain rfl := hhttp.toWellFormed.unique hp'.toWellFormed hhead'
    exact HeadParts.plain_of_both hp' hhttp

theorem Faithful.unaffected (h : Faithful s maxAnswerBytes) : Unaffected s maxAnswerBytes := by
  constructor
  · rintro p rest status n rfl htext hends hshort hread
    exact h.plain htext hends hshort hread
  · rintro head rest status n rfl hends hhead hstatus hn hlong hlt
    have hparse := (parseResponseHead_eq_ok_iff hends).mpr ⟨hhead, hstatus, hn⟩
    have hbytes := cut_byteReads (head ++ rest)
    have hlate := @readResponseBody_lateReads head rest maxAnswerBytes hends hlong hlt
    have hlen : head.length ≤ (head ++ rest).length := by
      rw [List.length_append]
      omega
    rw [h.alike _ (byteReads (head ++ rest)) (cut_lateReads (hlong.trans_le hlen)) hbytes,
      readResponseBody_late hends hbytes.1 (chunks_byteReads le_rfl _) hlong] at hlate
    exact (answer_eq_protocol_iff hparse).mp hlate.symm

theorem Unaffected.announces_iff {head rest : Bytes} {status n : ℕ}
    (h : Unaffected (head ++ rest) maxAnswerBytes) (hends : EndsFirst head)
    (hshort : head.length ≤ responseHeadLimit) (hlow : 200 ≤ status) (hhigh : status ≤ 299)
    (hmax : n ≤ maxAnswerBytes.toNat) (hlen : n ≤ rest.length) :
    Announces clientReading head status n ↔ Announces httpReading head status n := by
  refine and_congr_right fun htext => exists_congr fun p => and_congr_right fun hhead => ?_
  subst hhead
  have hplain := fun hread => h.plain p rest status n rfl htext hends hshort hread hlow hhigh hmax hlen
  exact ⟨fun hp => (hplain (.inl hp)).announces_iff.mp hp,
    fun hp => (hplain (.inr hp)).announces_iff.mpr hp⟩

theorem Unaffected.answer {head rest : Bytes} (h : Unaffected (head ++ rest) maxAnswerBytes)
    (hends : EndsFirst head) (hlong : responseHeadLimit < head.length)
    (hlt : head.length < responseHeadLimit + readChunkBytes) :
    PluginWebrtcProxyLaw.answer head rest maxAnswerBytes = .error .upstreamProtocol := by
  cases hparse : parseResponseHead head with
  | error e =>
    rw [PluginWebrtcProxyLaw.answer, hparse, parseResponseHead_error hparse]
    rfl
  | ok r =>
    obtain ⟨status, n⟩ := r
    obtain ⟨hhead, hstatus, hn⟩ := (parseResponseHead_eq_ok_iff hends).mp hparse
    exact (answer_eq_protocol_iff hparse).mpr
      (h.late head rest status n rfl hends hhead hstatus hn hlong hlt)

/-- What every way of cutting an unaffected stream gives. -/
theorem Unaffected.readResponseBody {head rest : Bytes}
    (h : Unaffected (head ++ rest) maxAnswerBytes) (hends : EndsFirst head) {reads : List Read}
    (hcut : Cut (head ++ rest) reads) :
    PluginWebrtcProxy.readResponseBody reads maxAnswerBytes =
      if head.length ≤ responseHeadLimit then PluginWebrtcProxyLaw.answer head rest maxAnswerBytes
      else .error .upstreamProtocol := by
  split_ifs with hshort
  · exact readResponseBody_short hends hcut hshort
  · have hlong := Nat.not_le.mp hshort
    rcases Nat.lt_or_ge head.length (responseHeadLimit + readChunkBytes) with hlt | hge
    · obtain heq | ⟨-, heq⟩ := @readResponseBody_cases _ _ _ maxAnswerBytes hends hcut
      · rw [heq, h.answer hends hlong hlt]
      · exact heq
    · exact readResponseBody_late hends hcut.1 hcut.2 hge

theorem accepts_iff {head rest body : Bytes} (h : Unaffected (head ++ rest) maxAnswerBytes)
    (hends : EndsFirst head) :
    Accepts (head ++ rest) maxAnswerBytes body ↔
      head.length ≤ responseHeadLimit ∧ answer head rest maxAnswerBytes = .ok body := by
  rw [answer_eq_ok_iff]
  constructor
  · rintro ⟨head', rest', status, n, heq, hends', hshort, hhead, hlow, hhigh, hmax, hlen, rfl⟩
    obtain ⟨rfl, rfl⟩ := hends.unique hends' heq
    have hmax64 := maxAnswerBytes.toNat_lt
    have hclient := (h.announces_iff hends hshort hlow hhigh hmax hlen).mpr hhead
    exact ⟨hshort, status, n, (parseResponseHead_eq_ok_iff hends).mpr
      ⟨hclient, by omega, show n < 2 ^ 64 by omega⟩, hlow, hhigh, hmax, hlen, rfl⟩
  · rintro ⟨hshort, status, n, hparse, hlow, hhigh, hmax, hlen, rfl⟩
    obtain ⟨hhead, -, -⟩ := (parseResponseHead_eq_ok_iff hends).mp hparse
    have hhttp := (h.announces_iff hends hshort hlow hhigh hmax hlen).mp hhead
    exact ⟨head, rest, status, n, rfl, hends, hshort, hhttp, hlow, hhigh, hmax, hlen, rfl⟩

theorem Unaffected.faithful (h : Unaffected s maxAnswerBytes) : Faithful s maxAnswerBytes := by
  cases hfirst : findFirst terminator s with
  | none =>
    have hnone {reads : List Read} (hcut : Cut s reads) :=
      @readResponseBody_none s maxAnswerBytes hfirst reads hcut
    refine ⟨fun reads reads' hcut hcut' => by rw [hnone hcut, hnone hcut'], ?_⟩
    intro reads hcut body
    rw [hnone hcut]
    simp only [reduceCtorEq, false_iff]
    rintro ⟨head, rest, -, -, rfl, hends, -⟩
    rw [hends.findFirst rest] at hfirst
    cases hfirst
  | some pos =>
    have hends := (endsFirst_take hfirst).1
    have hs : s = s.take (pos + 4) ++ s.drop (pos + 4) := (List.take_append_drop _ s).symm
    generalize s.take (pos + 4) = head at hends hs
    generalize s.drop (pos + 4) = rest at hs
    subst hs
    refine ⟨fun reads reads' hcut hcut' => ?_, fun reads hcut body => ?_⟩
    · rw [h.readResponseBody hends hcut, h.readResponseBody hends hcut']
    · rw [h.readResponseBody hends hcut, accepts_iff h hends]
      split_ifs with hshort
      · simp [hshort]
      · simp [hshort]

/-- A stream is read alike however it is cut, and as HTTP says, exactly when it is unaffected. -/
theorem faithful_iff_unaffected (s : Bytes) (maxAnswerBytes : UInt64) :
    Faithful s maxAnswerBytes ↔ Unaffected s maxAnswerBytes :=
  ⟨Faithful.unaffected, Unaffected.faithful⟩

end Law

section Defects

def longHead : HeadParts where
  version := ascii "1"
  code := ascii "200"
  reason := 32 :: List.replicate 8192 97
  fields := [(ascii "Content-Length", ascii " 0")]

def signedHead : HeadParts where
  version := ascii "1"
  code := ascii "200"
  reason := ascii " OK"
  fields := [(ascii "Content-Length", ascii " +1")]

def paddedHead : HeadParts where
  version := ascii "1"
  code := ascii "200"
  reason := ascii " OK"
  fields := [(ascii "Content-Length", 0xC2 :: 0xA0 :: ascii "1")]

theorem denotes_of_all {text : Bytes} (hne : text ≠ []) (h : text.all isAsciiDigit = true) :
    Denotes text (digitsValue 10 text) := ⟨hne, List.all_eq_true.mp h, rfl⟩

theorem cr_not_mem_longHead : ∀ line ∈ longHead.lines, cr ∉ line := by
  have hstatus : cr ∉ longHead.statusLine := by
    simp only [HeadParts.statusLine, longHead, List.mem_append, List.mem_cons, List.mem_replicate]
    decide
  exact List.forall_mem_cons.mpr ⟨hstatus, List.forall_mem_singleton.mpr (by decide)⟩

theorem cr_not_mem_signedHead : ∀ line ∈ signedHead.lines, cr ∉ line :=
  List.forall_mem_cons.mpr ⟨by decide, List.forall_mem_singleton.mpr (by decide)⟩

theorem cr_not_mem_paddedHead : ∀ line ∈ paddedHead.lines, cr ∉ line :=
  List.forall_mem_cons.mpr ⟨by decide, List.forall_mem_singleton.mpr (by decide)⟩

theorem announces_longHead : Announces clientReading (headText longHead.lines) 200 0 := by
  have hascii : (headText longHead.lines).all (· < 128) = true := by
    simp only [headText, HeadParts.lines, HeadParts.statusLine, longHead, List.all_append,
      List.all_flatMap, List.all_cons, List.all_nil, List.all_replicate, List.map_cons,
      List.map_nil]
    decide
  exact ⟨isText_of_all hascii, longHead, rfl, ⟨by decide, by decide, .inr rfl,
    List.forall_mem_singleton.mpr (by decide), not_crlf_of_cr cr_not_mem_longHead⟩,
    .inl (denotes_of_all (by decide) (by decide)), ascii "0", by decide,
    .inl (denotes_of_all (by decide) (by decide))⟩

theorem length_longHead : (headText longHead.lines).length = 8228 := by
  simp only [headText, HeadParts.lines, HeadParts.statusLine, longHead, List.length_append,
    List.length_flatMap, List.length_cons, List.length_replicate, List.map_cons, List.map_nil]
  decide

theorem announces_signedHead : signedHead.Announces clientReading 200 1 :=
  ⟨⟨by decide, by decide, .inr rfl, List.forall_mem_singleton.mpr (by decide),
    not_crlf_of_cr cr_not_mem_signedHead⟩, .inl (denotes_of_all (by decide) (by decide)),
    ascii "+1", by decide, .inr ⟨ascii "1", rfl, denotes_of_all (by decide) (by decide)⟩⟩

theorem announces_paddedHead : paddedHead.Announces clientReading 200 1 :=
  ⟨⟨by decide, by decide, .inr rfl, List.forall_mem_singleton.mpr (by decide),
    not_crlf_of_cr cr_not_mem_paddedHead⟩, .inl (denotes_of_all (by decide) (by decide)),
    ascii "1", by decide +kernel, .inl (denotes_of_all (by decide) (by decide))⟩

theorem not_plain_signedHead : ¬ signedHead.Plain := fun h =>
  absurd ((h.lengths _ List.mem_cons_self (by decide)).2 43 (by decide)) (by decide)

theorem not_plain_paddedHead : ¬ paddedHead.Plain := fun h =>
  absurd ((h.lengths _ List.mem_cons_self (by decide)).2 0xC2 (by decide)) (by decide)

/-- A head across the limit is taken or given up with the cut; a length with a sign, and one
behind white space that HTTP does not know, are taken. -/
theorem not_faithful_heads :
    ¬ Faithful (headText longHead.lines) 0 ∧
      ¬ Faithful (headText signedHead.lines ++ ascii "x") 1 ∧
      ¬ Faithful (headText paddedHead.lines ++ ascii "x") 1 := by
  refine ⟨fun h => ?_, fun h => ?_, fun h => ?_⟩
  · have hlong : responseHeadLimit < (headText longHead.lines).length := by
      rw [length_longHead]
      decide
    have hlt : (headText longHead.lines).length < responseHeadLimit + readChunkBytes := by
      rw [length_longHead]
      decide
    have hshort := h.unaffected.late (headText longHead.lines) [] 200 0 (List.append_nil _).symm
      (endsFirst_headText cr_not_mem_longHead) announces_longHead (by decide) (by decide) hlong hlt
    exact absurd hshort.2.2.2 (by decide)
  · exact not_plain_signedHead (h.plain (isText_of_all (by decide))
      (endsFirst_headText cr_not_mem_signedHead) (by decide) (.inl announces_signedHead) (by decide)
      (by decide) (by decide) (by decide))
  · have htext : IsText (headText paddedHead.lines) := (isSome_decode_iff _).mp (by decide +kernel)
    exact not_plain_paddedHead (h.plain htext (endsFirst_headText cr_not_mem_paddedHead) (by decide)
      (.inl announces_paddedHead) (by decide) (by decide) (by decide) (by decide))

end Defects

end FandheBackend.PluginWebrtcProxyLaw
