import FandheBackend.HttpChunkedGrammar
import FandheBackend.HttpConnection

set_option autoImplicit false

/-!
# A connection as a stream

`nextRequest` reads a request off the whole stream that is still to come, with no
buffer and no reads. The functions of `HttpConnection` are faithful to it wherever
the socket cuts the stream, and they account for every byte on the way.
-/
namespace FandheBackend.HttpConnectionStream
open StdBytes HttpRequestHead HttpBodyLength HttpBuffer HttpChunked HttpConnection
open PatternSearch FedMachine HttpChunkedMachine HttpChunkedGrammar

def Clean (reads : List Read) : Prop := ∀ r ∈ reads, ∃ bs, bs ≠ [] ∧ r = .data bs

def pending (reads : List Read) (conn : Conn) : Bytes := conn.buf.unread ++ stream reads

def PointSound (total : Bytes) (p : Point) : Prop :=
  p.consumed ++ p.buf.unread = p.received ∧ p.received <+: total

/-- No byte of `total` is lost, duplicated or moved, now and at every earlier point. -/
structure Sound (total : Bytes) (reads : List Read) (conn : Conn) : Prop where
  conserved : conn.consumed ++ conn.buf.unread = conn.received
  delivered : conn.received ++ stream reads = total
  points : ∀ p ∈ conn.points, PointSound total p

section Specs
variable {TypeId : Type} {E : TypeId → Type}

def headSpec (s : Bytes) : Except RequestError (Option (RequestHead E × ℕ) × Bytes) :=
  match parseRequestHead s with
  | .error e => .error (.parse e)
  | .ok (.complete head consumed) => .ok (some (head, consumed), s)
  | .ok .incomplete => if s.isEmpty then .ok (none, s) else .error .unexpectedEof

def fillSpec (n : ℕ) (s : Bytes) : Except RequestError (Unit × Bytes) :=
  if s.length < n then .error .unexpectedEof else .ok ((), s)

def bodySpec (usizeMax n : ℕ) (s : Bytes) : Except RequestError (Bytes × Bytes) :=
  if n > usizeMax then .error (.body .bodyTooLarge)
  else if s.length < n then .error .unexpectedEof
  else .ok (s.take n, s.drop n)

def chunkedSpec (decoder : ChunkedDecoder) (body s : Bytes) :
    Except RequestError (Bytes × Bytes) :=
  match feed byteMachine (decoder, body) s with
  | .failed (e, _) => .error (.chunked e)
  | .more _ => .error .unexpectedEof
  | .complete c rest => .ok (c.2, rest)

def framedSpec (usizeMax : ℕ) (maxBodyBytes : UInt64) (head : RequestHead E) (s : Bytes) :
    Except RequestError (Bytes × Bytes) :=
  match bodyLengthWithLimit head maxBodyBytes with
  | .error e => .error (.body e)
  | .ok .none => .ok ([], s)
  | .ok (.fixed n) => bodySpec usizeMax n s
  | .ok .chunked => chunkedSpec (.withMaxBodyBytes maxBodyBytes) [] s

def nextRequest (usizeMax : ℕ) (maxBodyBytes : UInt64) (s : Bytes) :
    Except RequestError (Option (Request E) × Bytes) :=
  match headSpec s with
  | .error e => .error e
  | .ok (none, s) => .ok (none, s)
  | .ok (some (head, consumed), s) =>
    match framedSpec usizeMax maxBodyBytes head (s.drop consumed) with
    | .error e => .error e
    | .ok (body, rest) => .ok (some ⟨head, body⟩, rest)

end Specs

section Operations
variable {total : Bytes} {reads : List Read} {conn : Conn} (alloc : Alloc)

theorem Sound.consumed_append_pending (h : Sound total reads conn) :
    conn.consumed ++ pending reads conn = total := by
  rw [pending, ← List.append_assoc, h.conserved, h.delivered]

theorem Sound.recorded {buf : RecvBuffer} {received consumed : Bytes}
    (h : Sound total reads conn) (hcons : consumed ++ buf.unread = received)
    {reads' : List Read} (hdeliv : received ++ stream reads' = total) :
    Sound total reads' (Conn.record { conn with buf, received, consumed }) := by
  refine ⟨hcons, hdeliv, ?_⟩
  intro p hp
  simp only [Conn.record, List.mem_append, List.mem_singleton] at hp
  obtain hp | rfl := hp
  · exact h.points p hp
  · exact ⟨hcons, stream reads', hdeliv⟩

theorem Sound.readChunk {bs : Bytes} {reads' : List Read} (h : Sound total reads conn)
    (hreads : stream reads = bs ++ stream reads') :
    Sound total reads' (conn.readChunk alloc bs) := by
  apply h.recorded
  · rw [RecvBuffer.readChunk_unread, ← List.append_assoc, h.conserved]
  · rw [List.append_assoc, ← hreads, h.delivered]

theorem Sound.shrink (h : Sound total reads conn) :
    Sound total reads (conn.shrinkIfOversized alloc) := by
  apply h.recorded
  · rw [RecvBuffer.shrinkIfOversized_unread]
    exact h.conserved
  · exact h.delivered

theorem consume_spec (reads : List Read) (conn : Conn) {n : ℕ}
    (hn : n ≤ conn.buf.unread.length) :
    ∃ conn', conn.consume n = some conn' ∧ conn'.buf.unread = conn.buf.unread.drop n ∧
      pending reads conn' = (pending reads conn).drop n ∧
      ∀ total, Sound total reads conn → Sound total reads conn' := by
  obtain ⟨buf, hbuf, hunread⟩ := conn.buf.consume_of_le hn
  refine ⟨_, by rw [Conn.consume, hbuf, Option.map_some], hunread, ?_, ?_⟩
  · simp only [pending, Conn.record]
    rw [hunread, List.drop_append_of_le_length hn]
  · intro total h
    apply h.recorded
    · rw [hunread, List.append_assoc, List.take_append_drop, h.conserved]
    · exact h.delivered

theorem takeExact_spec (reads : List Read) {conn conn' : Conn} {n : ℕ} {body : Bytes}
    (h : conn.takeExact n = some (body, conn')) :
    body = conn.buf.unread ∧ conn.buf.unread.length = n ∧ conn'.buf.unread = [] ∧
      ∀ total, Sound total reads conn → Sound total reads conn' := by
  obtain ⟨⟨body', buf⟩, hbuf, heq⟩ := Option.map_eq_some_iff.mp h
  obtain ⟨rfl, hlen, rfl⟩ := RecvBuffer.takeExact_eq_some hbuf
  simp only [Prod.mk.injEq] at heq
  obtain ⟨rfl, rfl⟩ := heq
  refine ⟨rfl, hlen, rfl, ?_⟩
  intro total hs
  apply hs.recorded
  · rw [RecvBuffer.unread_new, List.append_nil, hs.conserved]
  · exact hs.delivered

end Operations

/-- A function reads what `spec` says of the stream and keeps the account of the bytes. On
reads that fail or end the stream early, this is asked of successes only. -/
structure Faithful {α : Type} (success : α → Prop)
    (spec : Bytes → Except RequestError (α × Bytes)) (reads : List Read) (conn : Conn)
    (o : Outcome α) : Prop where
  sound : ∀ total, Sound total reads conn → Sound total o.reads o.conn
  clean : Clean reads → Clean o.reads
  result : (Clean reads ∨ ∃ a, o.result = .ok a ∧ success a) →
    spec (pending reads conn) = o.result.map fun a => (a, pending o.reads o.conn)

section Loops
variable {α : Type} {success : α → Prop} {spec : Bytes → Except RequestError (α × Bytes)}
  {reads : List Read} {conn : Conn} {o : Outcome α} (alloc : Alloc)

theorem stream_data (bs : Bytes) (reads : List Read) :
    stream (.data bs :: reads) = bs ++ stream reads := rfl

theorem Clean.tail {r : Read} (h : Clean (r :: reads)) : Clean reads :=
  fun x hx => h x (List.mem_cons_of_mem r hx)

theorem Clean.ne_nil {bs : Bytes} (h : Clean (.data bs :: reads)) : bs ≠ [] := by
  obtain ⟨bs', hne, heq⟩ := h _ List.mem_cons_self
  cases heq
  exact hne

theorem not_clean_failed : ¬ Clean (.failed :: reads) := by
  intro h
  obtain ⟨bs, _, heq⟩ := h _ List.mem_cons_self
  cases heq

theorem pending_readChunk (bs : Bytes) (reads : List Read) (conn : Conn) :
    pending reads (conn.readChunk alloc bs) = pending (.data bs :: reads) conn := by
  simp only [pending, Conn.readChunk, Conn.record, RecvBuffer.readChunk_unread, stream_data,
    List.append_assoc]

theorem Faithful.of_data {bs : Bytes}
    (h : Faithful success spec reads (conn.readChunk alloc bs) o) :
    Faithful success spec (.data bs :: reads) conn o := by
  refine ⟨fun total hs => h.sound total (hs.readChunk alloc (stream_data bs reads)),
    fun hc => h.clean hc.tail, ?_⟩
  rintro (hc | hok)
  · rw [← pending_readChunk alloc]
    exact h.result (.inl hc.tail)
  · rw [← pending_readChunk alloc]
    exact h.result (.inr hok)

theorem Faithful.of_failed :
    Faithful success spec (.failed :: reads) conn ⟨.error .io, reads, conn.readChunk alloc []⟩ := by
  refine ⟨fun total hs => hs.readChunk alloc rfl, fun hc => hc.tail, ?_⟩
  rintro (hc | ⟨a, ha, _⟩)
  · exact absurd hc not_clean_failed
  · cases ha

theorem Faithful.of_empty_data {result : Except RequestError α}
    (hresult : ∀ a, result = .ok a → ¬ success a) :
    Faithful success spec (.data [] :: reads) conn
      ⟨result, reads, conn.readChunk alloc []⟩ := by
  refine ⟨fun total hs => hs.readChunk alloc rfl, fun hc => hc.tail, ?_⟩
  rintro (hc | ⟨a, ha, hs⟩)
  · exact absurd rfl hc.ne_nil
  · exact absurd hs (hresult a ha)

theorem Faithful.of_end {result : Except RequestError α}
    (hresult : spec conn.buf.unread = result.map fun a => (a, conn.buf.unread)) :
    Faithful success spec [] conn ⟨result, [], conn.readChunk alloc []⟩ := by
  have hpend : pending [] (conn.readChunk alloc []) = conn.buf.unread := by
    rw [pending_readChunk alloc]
    simp [pending, stream, Read.bytes]
  refine ⟨fun total hs => hs.readChunk alloc rfl, fun hc => hc, fun _ => ?_⟩
  rw [show pending [] conn = conn.buf.unread by simp [pending, stream], hpend]
  exact hresult

theorem Faithful.of_now {result : Except RequestError α}
    (hresult : spec (pending reads conn) = result.map fun a => (a, pending reads conn)) :
    Faithful success spec reads conn ⟨result, reads, conn⟩ :=
  ⟨fun _ hs => hs, fun hc => hc, fun _ => hresult⟩

theorem Faithful.after {spec' : Bytes → Except RequestError (α × Bytes)} {conn' : Conn}
    (h : Faithful success spec' reads conn' o)
    (hsound : ∀ total, Sound total reads conn → Sound total reads conn')
    (hspec : spec (pending reads conn) = spec' (pending reads conn')) :
    Faithful success spec reads conn o :=
  ⟨fun total hs => h.sound total (hsound total hs), h.clean, fun hr => hspec.trans (h.result hr)⟩

end Loops

section Readers
variable {TypeId : Type} {E : TypeId → Type} (alloc : Alloc)

theorem headSpec_of_incomplete {s : Bytes}
    (h : parseRequestHead (E := E) s = .ok .incomplete) :
    headSpec (E := E) s =
      (if s.isEmpty then .ok none else .error .unexpectedEof :
        Except RequestError (Option (RequestHead E × ℕ))).map fun a => (a, s) := by
  simp only [headSpec, h]
  split_ifs <;> rfl

/-- Bytes that already make a head, or cannot make one, are not added to. -/
theorem readHead_faithful_decided {reads : List Read} {conn : Conn}
    (hp : parseRequestHead (E := E) conn.buf.unread ≠ .ok .incomplete) :
    Faithful (fun a => a.isSome) (headSpec (E := E)) reads conn
      (readHead alloc reads conn) := by
  unfold readHead
  cases hparse : parseRequestHead (E := E) conn.buf.unread with
  | error e =>
    apply Faithful.of_now
    simp [headSpec, pending, parseRequestHead_append_error hparse, Except.map]
  | ok outcome =>
    cases outcome with
    | complete head consumed =>
      apply Faithful.of_now
      simp [headSpec, pending, parseRequestHead_append_complete hparse, Except.map]
    | incomplete => exact absurd hparse hp

theorem readHead_faithful (reads : List Read) (conn : Conn) :
    Faithful (fun a => a.isSome) (headSpec (E := E)) reads conn
      (readHead alloc reads conn) := by
  induction reads generalizing conn with
  | nil =>
    by_cases hp : parseRequestHead (E := E) conn.buf.unread = .ok .incomplete
    · unfold readHead
      rw [hp]
      exact Faithful.of_end alloc (headSpec_of_incomplete hp)
    · exact readHead_faithful_decided alloc hp
  | cons r reads ih =>
    by_cases hp : parseRequestHead (E := E) conn.buf.unread = .ok .incomplete
    · unfold readHead
      rw [hp]
      cases r with
      | failed => exact Faithful.of_failed alloc
      | data bs =>
        by_cases hbs : bs.length = 0
        · obtain rfl := List.eq_nil_of_length_eq_zero hbs
          apply Faithful.of_empty_data alloc
          intro a ha
          split_ifs at ha
          cases ha
          simp
        · simp only [hbs, ↓reduceIte]
          exact Faithful.of_data alloc (ih (conn.readChunk alloc bs))
    · exact readHead_faithful_decided alloc hp

theorem readHead_parsed_decided {reads : List Read} {conn : Conn} {head : RequestHead E} {n : ℕ}
    (hp : parseRequestHead (E := E) conn.buf.unread ≠ .ok .incomplete)
    (h : (readHead alloc reads conn).result = .ok (some (head, n))) :
    parseRequestHead (readHead (E := E) alloc reads conn).conn.buf.unread =
      .ok (.complete head n) := by
  unfold readHead at h ⊢
  cases hparse : parseRequestHead (E := E) conn.buf.unread with
  | error e => simp [hparse] at h
  | ok outcome =>
    cases outcome with
    | complete head' consumed =>
      simp only [hparse, Except.ok.injEq, Option.some.injEq, Prod.mk.injEq] at h ⊢
      rw [h.1, h.2]
    | incomplete => exact absurd hparse hp

theorem readHead_parsed {reads : List Read} {conn : Conn} {head : RequestHead E} {n : ℕ}
    (h : (readHead alloc reads conn).result = .ok (some (head, n))) :
    parseRequestHead (readHead (E := E) alloc reads conn).conn.buf.unread =
      .ok (.complete head n) := by
  induction reads generalizing conn with
  | nil =>
    by_cases hp : parseRequestHead (E := E) conn.buf.unread = .ok .incomplete
    · unfold readHead at h
      simp only [hp] at h
      split_ifs at h
      cases h
    · exact readHead_parsed_decided alloc hp h
  | cons r reads ih =>
    by_cases hp : parseRequestHead (E := E) conn.buf.unread = .ok .incomplete
    · unfold readHead at h ⊢
      cases r with
      | failed => simp [hp] at h
      | data bs =>
        by_cases hbs : bs.length = 0
        · simp only [hp, hbs, ↓reduceIte] at h
          split_ifs at h
          cases h
        · simp only [hp, hbs, ↓reduceIte] at h ⊢
          exact ih h
    · exact readHead_parsed_decided alloc hp h

theorem fillBody_faithful (n : ℕ) (reads : List Read) (conn : Conn) :
    Faithful (fun _ => True) (fillSpec n) reads conn (fillBody alloc n reads conn) := by
  induction reads generalizing conn with
  | nil =>
    unfold fillBody
    by_cases hn : conn.buf.unread.length < n
    · simp only [hn, ↓reduceIte]
      apply Faithful.of_end
      simp [fillSpec, hn, Except.map]
    · simp only [hn, ↓reduceIte]
      apply Faithful.of_now
      simp [fillSpec, pending, stream, hn, Except.map]
  | cons r reads ih =>
    unfold fillBody
    by_cases hn : conn.buf.unread.length < n
    · simp only [hn, ↓reduceIte]
      cases r with
      | failed => exact Faithful.of_failed alloc
      | data bs =>
        by_cases hbs : bs.length = 0
        · obtain rfl := List.eq_nil_of_length_eq_zero hbs
          apply Faithful.of_empty_data alloc
          intro a ha
          cases ha
        · simp only [hbs, ↓reduceIte]
          exact Faithful.of_data alloc (ih (conn.readChunk alloc bs))
    · simp only [hn, ↓reduceIte]
      apply Faithful.of_now
      have hlen : ¬ (pending (r :: reads) conn).length < n := by
        rw [pending, List.length_append]
        omega
      simp [fillSpec, hlen, Except.map]

theorem fillBody_filled {n : ℕ} {reads : List Read} {conn : Conn}
    (h : (fillBody alloc n reads conn).result = .ok ()) :
    n ≤ (fillBody alloc n reads conn).conn.buf.unread.length := by
  induction reads generalizing conn with
  | nil =>
    unfold fillBody at h ⊢
    by_cases hn : conn.buf.unread.length < n
    · simp [hn] at h
    · simp only [hn, ↓reduceIte]
      omega
  | cons r reads ih =>
    unfold fillBody at h ⊢
    by_cases hn : conn.buf.unread.length < n
    · simp only [hn, ↓reduceIte] at h ⊢
      cases r with
      | failed => cases h
      | data bs =>
        by_cases hbs : bs.length = 0
        · simp [hbs] at h
        · simp only [hbs, ↓reduceIte] at h ⊢
          exact ih h
    · simp only [hn, ↓reduceIte]
      omega

/-- `read_body` does not panic. -/
theorem readBody_faithful (usizeMax n : ℕ) (reads : List Read) (conn : Conn) :
    ∃ o, readBody alloc usizeMax n reads conn = some o ∧
      Faithful (fun _ => True) (bodySpec usizeMax n) reads conn o := by
  unfold readBody
  by_cases hbig : n > usizeMax
  · simp only [hbig, ↓reduceIte]
    refine ⟨_, rfl, Faithful.of_now ?_⟩
    simp [bodySpec, hbig, Except.map]
  · simp only [hbig, ↓reduceIte]
    have hfill := fillBody_faithful alloc n reads conn
    cases hr : (fillBody alloc n reads conn).result with
    | error e =>
      refine ⟨_, rfl, hfill.sound, hfill.clean, ?_⟩
      rintro (hc | ⟨a, ha, _⟩)
      · have hspec := hfill.result (.inl hc)
        rw [hr] at hspec
        unfold fillSpec at hspec
        split_ifs at hspec with hn
        · cases hspec
          simp [bodySpec, hbig, hn, Except.map]
        · cases hspec
      · cases ha
    | ok u =>
      have hle := fillBody_filled alloc hr
      have hspec := hfill.result (.inr ⟨u, hr, trivial⟩)
      rw [hr] at hspec
      unfold fillSpec at hspec
      split_ifs at hspec with hn
      · cases hspec
      · simp only [Except.map, Except.ok.injEq, Prod.mk.injEq] at hspec
        have hbody : bodySpec usizeMax n (pending reads conn) =
            .ok ((pending reads conn).take n, (pending reads conn).drop n) := by
          simp [bodySpec, hbig, hn]
        rw [hspec.2] at hbody
        cases ht : (fillBody alloc n reads conn).conn.takeExact n with
        | some p =>
          obtain ⟨body, conn'⟩ := p
          obtain ⟨hb, hlen, hnil, hsound⟩ := takeExact_spec (fillBody alloc n reads conn).reads ht
          refine ⟨_, rfl, fun total hs => hsound total (hfill.sound total hs), hfill.clean, ?_⟩
          intro _
          rw [hspec.2, hbody]
          simp only [Except.map, pending, hnil, List.nil_append, Except.ok.injEq, Prod.mk.injEq]
          rw [hb]
          exact ⟨List.take_left' hlen, List.drop_left' hlen⟩
        | none =>
          obtain ⟨conn', hcons, _, hpend, hsound⟩ :=
            consume_spec (fillBody alloc n reads conn).reads (fillBody alloc n reads conn).conn hle
          simp only [hle, ↓reduceIte, hcons, Option.map_some]
          refine ⟨_, rfl, fun total hs => hsound total (hfill.sound total hs), hfill.clean, ?_⟩
          intro _
          rw [hspec.2, hbody]
          simp only [Except.map, hpend, Except.ok.injEq, Prod.mk.injEq, and_true]
          rw [pending, List.take_append_of_le_length hle]

theorem chunkedSpec_of_more {decoder : ChunkedDecoder} {body xs : Bytes} {c : Cell}
    (h : feed byteMachine (decoder, body) xs = .more c) (ys : Bytes) :
    chunkedSpec decoder body (xs ++ ys) = chunkedSpec c.1 c.2 ys := by
  unfold chunkedSpec
  rw [feed_append_of_more byteMachine h]

theorem chunkedLoop_decided {decoder : ChunkedDecoder} (hwf : Wf decoder) {body : Bytes}
    (reads : List Read) (conn : Conn)
    (h : ∀ c, feed byteMachine (decoder, body) conn.buf.unread ≠ .more c) :
    ∃ o, chunkedLoop alloc decoder body reads conn = some o ∧
      Faithful (fun _ => True) (chunkedSpec decoder body) reads conn o := by
  have hcall := decode_eq_feed decoder hwf conn.buf.unread body
  unfold chunkedLoop
  rw [hcall]
  cases hf : feed byteMachine (decoder, body) conn.buf.unread with
  | more c => exact absurd hf (h c)
  | failed e =>
    refine ⟨_, rfl, Faithful.of_now ?_⟩
    simp [chunkedSpec, pending, feed_append, hf, Fed.andThen, Except.map]
  | complete c rest =>
    obtain ⟨pre, hpre⟩ := feed_complete_suffix byteMachine hf
    have hlen : conn.buf.unread.length - rest.length = pre.length := by
      rw [← hpre, List.length_append]
      omega
    obtain ⟨conn', hcons, hunread, hpend, hsound⟩ := consume_spec reads conn (n := pre.length) (by
      rw [← hpre, List.length_append]
      omega)
    have hrest : conn'.buf.unread = rest := by
      rw [hunread, ← hpre, List.drop_left]
    simp only [asResult, hlen, hcons, Option.map_some]
    refine ⟨_, rfl, hsound, fun hc => hc, fun _ => ?_⟩
    simp [chunkedSpec, pending, feed_append, hf, Fed.andThen, Except.map, hrest]

theorem chunkedLoop_open {decoder : ChunkedDecoder} (hwf : Wf decoder) {body : Bytes} {c : Cell}
    (reads : List Read) (conn : Conn)
    (h : feed byteMachine (decoder, body) conn.buf.unread = .more c) :
    ∃ conn', (∀ total, Sound total reads conn → Sound total reads conn') ∧
      conn'.buf.unread = [] ∧
      chunkedSpec decoder body (pending reads conn) = chunkedSpec c.1 c.2 (pending reads conn') ∧
      chunkedLoop alloc decoder body reads conn =
        match reads with
        | [] => some ⟨.error .unexpectedEof, [], conn'.readChunk alloc []⟩
        | .failed :: reads => some ⟨.error .io, reads, conn'.readChunk alloc []⟩
        | .data bs :: reads =>
          if bs.length = 0 then some ⟨.error .unexpectedEof, reads, conn'.readChunk alloc bs⟩
          else chunkedLoop alloc c.1 c.2 reads (conn'.readChunk alloc bs) := by
  have hcall := decode_eq_feed decoder hwf conn.buf.unread body
  obtain ⟨conn', hcons, hunread, hpend, hsound⟩ := consume_spec reads conn (le_refl _)
  rw [List.drop_length] at hunread
  refine ⟨conn', hsound, hunread, ?_, ?_⟩
  · rw [pending, chunkedSpec_of_more h, pending, hunread, List.nil_append]
  · conv_lhs => unfold chunkedLoop
    rw [hcall, h]
    cases reads with
    | nil => simp only [asResult, hcons]
    | cons r reads =>
      cases r with
      | failed => simp only [asResult, hcons]
      | data bs => simp only [asResult, hcons]

theorem chunkedLoop_faithful (decoder : ChunkedDecoder) (hwf : Wf decoder) (body : Bytes)
    (reads : List Read) (conn : Conn) :
    ∃ o, chunkedLoop alloc decoder body reads conn = some o ∧
      Faithful (fun _ => True) (chunkedSpec decoder body) reads conn o := by
  induction reads generalizing decoder body conn with
  | nil =>
    cases hf : feed byteMachine (decoder, body) conn.buf.unread with
    | failed e => exact chunkedLoop_decided alloc hwf [] conn (by simp [hf])
    | complete c rest => exact chunkedLoop_decided alloc hwf [] conn (by simp [hf])
    | more c =>
      obtain ⟨conn', hsound, hunread, hspec, hloop⟩ := chunkedLoop_open alloc hwf [] conn hf
      have hdone := feed_more_not_done byteMachine hf
      refine ⟨_, hloop, Faithful.after (Faithful.of_end alloc ?_) hsound hspec⟩
      simp [chunkedSpec, hunread, feed, hdone, Except.map]
  | cons r reads ih =>
    cases hf : feed byteMachine (decoder, body) conn.buf.unread with
    | failed e => exact chunkedLoop_decided alloc hwf _ conn (by simp [hf])
    | complete c rest => exact chunkedLoop_decided alloc hwf _ conn (by simp [hf])
    | more c =>
      obtain ⟨conn', hsound, hunread, hspec, hloop⟩ := chunkedLoop_open alloc hwf (r :: reads) conn hf
      have hwf' : Wf c.1 := feed_more_invariant byteMachine (I := fun c => Wf c.1)
        (fun s b t => byteStep_wf s b t) hwf hf
      rw [hloop]
      cases r with
      | failed => exact ⟨_, rfl, Faithful.after (Faithful.of_failed alloc) hsound hspec⟩
      | data bs =>
        by_cases hbs : bs.length = 0
        · obtain rfl := List.eq_nil_of_length_eq_zero hbs
          refine ⟨_, rfl, Faithful.after (Faithful.of_empty_data alloc ?_) hsound hspec⟩
          intro a ha
          cases ha
        · obtain ⟨o, ho, hfaith⟩ := ih c.1 hwf' c.2 (conn'.readChunk alloc bs)
          simp only [hbs, ↓reduceIte]
          exact ⟨o, ho, Faithful.after (Faithful.of_data alloc hfaith) hsound hspec⟩

theorem readFramedBody_faithful (usizeMax : ℕ) (maxBodyBytes : UInt64) (head : RequestHead E)
    (reads : List Read) (conn : Conn) :
    ∃ o, readFramedBody alloc usizeMax maxBodyBytes head reads conn = some o ∧
      Faithful (fun _ => True) (framedSpec usizeMax maxBodyBytes head) reads conn o := by
  unfold readFramedBody framedSpec
  cases bodyLengthWithLimit head maxBodyBytes with
  | error e => exact ⟨_, rfl, Faithful.of_now rfl⟩
  | ok length =>
    cases length with
    | none => exact ⟨_, rfl, Faithful.of_now rfl⟩
    | fixed n => exact readBody_faithful alloc usizeMax n reads conn
    | chunked => exact chunkedLoop_faithful alloc _ (withMaxBodyBytes_wf maxBodyBytes) [] reads conn

/-- `read_request_with_limit` does not panic and reads the next request of the stream. -/
theorem readRequestWithLimit_faithful (usizeMax : ℕ) (maxBodyBytes : UInt64)
    (reads : List Read) (conn : Conn) :
    ∃ o, readRequestWithLimit (E := E) alloc usizeMax maxBodyBytes reads conn = some o ∧
      Faithful (fun a => a.isSome) (nextRequest usizeMax maxBodyBytes) reads conn o := by
  have hhead := readHead_faithful (E := E) alloc reads conn
  unfold readRequestWithLimit
  cases hr : (readHead (E := E) alloc reads conn).result with
  | error e =>
    simp only [hr]
    refine ⟨_, rfl, hhead.sound, hhead.clean, ?_⟩
    rintro (hc | ⟨a, ha, _⟩)
    · have hspec := hhead.result (.inl hc)
      rw [hr] at hspec
      simp [nextRequest, hspec, Except.map]
    · cases ha
  | ok found =>
    cases found with
    | none =>
      simp only [hr]
      refine ⟨_, rfl, hhead.sound, hhead.clean, ?_⟩
      rintro (hc | ⟨a, ha, hsome⟩)
      · have hspec := hhead.result (.inl hc)
        rw [hr] at hspec
        simp [nextRequest, hspec, Except.map]
      · cases ha
        cases hsome
    | some found =>
      obtain ⟨head, n⟩ := found
      have hspec := hhead.result (.inr ⟨_, hr, rfl⟩)
      rw [hr] at hspec
      have hle := (parseRequestHead_complete_bounds (readHead_parsed alloc hr)).2
      obtain ⟨conn', hcons, _, hpend, hsound⟩ :=
        consume_spec (readHead (E := E) alloc reads conn).reads _ hle
      obtain ⟨b, hb, hbody⟩ := readFramedBody_faithful alloc usizeMax maxBodyBytes head
        (readHead (E := E) alloc reads conn).reads conn'
      have hnext : nextRequest usizeMax maxBodyBytes (pending reads conn) =
          match framedSpec usizeMax maxBodyBytes head
            (pending (readHead (E := E) alloc reads conn).reads conn') with
          | .error e => .error e
          | .ok (body, rest) => .ok (some ⟨head, body⟩, rest) := by
        simp only [nextRequest, hspec, Except.map, hpend]
      simp only [hr, hcons, hb]
      cases hbr : b.result with
      | error e =>
        simp only
        refine ⟨_, rfl, fun total hs => hbody.sound total (hsound total (hhead.sound total hs)),
          fun hc => hbody.clean (hhead.clean hc), ?_⟩
        rintro (hc | ⟨a, ha, _⟩)
        · have hbspec := hbody.result (.inl (hhead.clean hc))
          rw [hbr] at hbspec
          rw [hnext, hbspec]
          rfl
        · cases ha
      | ok body =>
        have hbspec := hbody.result (.inr ⟨body, hbr, trivial⟩)
        rw [hbr] at hbspec
        simp only
        refine ⟨_, rfl, fun total hs =>
          (hbody.sound total (hsound total (hhead.sound total hs))).shrink alloc,
          fun hc => hbody.clean (hhead.clean hc), fun _ => ?_⟩
        rw [hnext, hbspec]
        simp [Except.map, pending, Conn.shrinkIfOversized, Conn.record]

theorem readRequestWithLimit_extensions {usizeMax : ℕ} {maxBodyBytes : UInt64}
    {reads : List Read} {conn : Conn} {o : Outcome (Option (Request E))} {request : Request E}
    (h : readRequestWithLimit alloc usizeMax maxBodyBytes reads conn = some o)
    (hr : o.result = .ok (some request)) : request.head.extensions = .new := by
  unfold readRequestWithLimit at h
  cases hhead : (readHead (E := E) alloc reads conn).result with
  | error e =>
    simp only [hhead, Option.some.injEq] at h
    subst h
    cases hr
  | ok found =>
    cases found with
    | none =>
      simp only [hhead, Option.some.injEq] at h
      subst h
      cases hr
    | some found =>
      obtain ⟨head, n⟩ := found
      have hext := parseRequestHead_extensions (readHead_parsed alloc hhead)
      simp only [hhead] at h
      split at h
      · cases h
      · split at h
        · cases h
        · split at h
          · cases h
            cases hr
          · cases h
            cases hr
            exact hext

end Readers

end FandheBackend.HttpConnectionStream
