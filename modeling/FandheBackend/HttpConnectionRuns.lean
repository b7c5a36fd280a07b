import FandheBackend.HttpConnectionStream

set_option autoImplicit false

namespace FandheBackend.HttpConnectionRuns
open StdBytes HttpRequestHead HttpBodyLength HttpBuffer HttpChunked HttpConnection
open PatternSearch FedMachine HttpChunkedMachine HttpChunkedGrammar HttpConnectionStream

section
variable {TypeId : Type} {E : TypeId → Type}

def streamRequests (usizeMax : ℕ) (maxBodyBytes : UInt64) :
    ℕ → Bytes → Option (List (Request E) × Ended)
  | 0, _ => none
  | fuel + 1, s =>
    match nextRequest usizeMax maxBodyBytes s with
    | .error e => some ([], .failed e)
    | .ok (none, _) => some ([], .closed)
    | .ok (some request, rest) =>
      (streamRequests usizeMax maxBodyBytes fuel rest).map fun r => (request :: r.1, r.2)

theorem readRequests_eq_streamRequests (alloc : Alloc) (usizeMax : ℕ) (maxBodyBytes : UInt64)
    (fuel : ℕ) (reads : List Read) (conn : Conn) (hclean : Clean reads) :
    readRequests (E := E) alloc usizeMax maxBodyBytes fuel reads conn =
      streamRequests usizeMax maxBodyBytes fuel (pending reads conn) := by
  induction fuel generalizing reads conn with
  | zero => rfl
  | succ fuel ih =>
    obtain ⟨o, ho, hfaith⟩ :=
      readRequestWithLimit_faithful (E := E) alloc usizeMax maxBodyBytes reads conn
    have hspec := hfaith.result (.inl hclean)
    rw [readRequests, streamRequests, ho, hspec]
    cases hr : o.result with
    | error e => simp only [hr, Except.map]
    | ok found =>
      cases found with
      | none => simp only [hr, Except.map]
      | some request => simp only [hr, Except.map, ih o.reads o.conn (hfaith.clean hclean)]

theorem nextRequest_eq_some {usizeMax : ℕ} {maxBodyBytes : UInt64} {s rest : Bytes}
    {request : Request E} (h : nextRequest usizeMax maxBodyBytes s = .ok (some request, rest)) :
    ∃ consumed, parseRequestHead s = .ok (.complete request.head consumed) ∧
      framedSpec usizeMax maxBodyBytes request.head (s.drop consumed) =
        .ok (request.body, rest) := by
  unfold nextRequest headSpec at h
  cases hp : parseRequestHead (E := E) s with
  | error e => simp [hp] at h
  | ok outcome =>
    cases outcome with
    | incomplete =>
      simp only [hp] at h
      split_ifs at h
      cases h
    | complete head consumed =>
      simp only [hp] at h
      cases hb : framedSpec usizeMax maxBodyBytes head (s.drop consumed) with
      | error e => simp [hb] at h
      | ok r =>
        simp only [hb, Except.ok.injEq, Prod.mk.injEq, Option.some.injEq] at h
        obtain ⟨rfl, rfl⟩ := h
        exact ⟨consumed, rfl, hb⟩

def BodyBytes (maxBodyBytes : UInt64) (request : Request E) (wire : Bytes) : Prop :=
  match bodyLengthWithLimit request.head maxBodyBytes with
  | .ok .none => wire = [] ∧ request.body = []
  | .ok (.fixed n) => wire = request.body ∧ request.body.length = n
  | .ok .chunked => Section maxBodyBytes wire request.body
  | .error _ => False

theorem framedSpec_eq_ok {usizeMax : ℕ} {maxBodyBytes : UInt64} {request : Request E}
    {s rest : Bytes}
    (h : framedSpec usizeMax maxBodyBytes request.head s = .ok (request.body, rest)) :
    ∃ wire, s = wire ++ rest ∧ BodyBytes maxBodyBytes request wire := by
  unfold framedSpec at h
  unfold BodyBytes
  cases hl : bodyLengthWithLimit request.head maxBodyBytes with
  | error e => simp [hl] at h
  | ok length =>
    cases length with
    | none =>
      simp only [hl, Except.ok.injEq, Prod.mk.injEq] at h
      exact ⟨[], h.2, rfl, h.1.symm⟩
    | fixed n =>
      simp only [hl, bodySpec] at h
      split_ifs at h with hbig hn
      simp only [Except.ok.injEq, Prod.mk.injEq] at h
      refine ⟨s.take n, ?_, h.1, ?_⟩
      · rw [← h.2, List.take_append_drop]
      · rw [← h.1, List.length_take]
        omega
    | chunked =>
      simp only [hl, chunkedSpec] at h
      cases hf : feed byteMachine (.withMaxBodyBytes maxBodyBytes, []) s with
      | failed e => simp [hf] at h
      | more c => simp [hf] at h
      | complete c r =>
        simp only [hf, Except.ok.injEq, Prod.mk.injEq] at h
        obtain ⟨wire, body, hsec, hs, hout⟩ := section_of_feed hf
        rw [List.nil_append] at hout
        refine ⟨wire, by rw [← h.2, hs], ?_⟩
        rw [← h.1, hout]
        exact hsec

theorem nextRequest_shorter {usizeMax : ℕ} {maxBodyBytes : UInt64} {s rest : Bytes}
    {request : Request E} (h : nextRequest usizeMax maxBodyBytes s = .ok (some request, rest)) :
    rest.length < s.length := by
  obtain ⟨consumed, hp, hb⟩ := nextRequest_eq_some h
  obtain ⟨wire, hwire, _⟩ := framedSpec_eq_ok hb
  have hbounds := parseRequestHead_complete_bounds hp
  have hlen := congrArg List.length hwire
  rw [List.length_append, List.length_drop] at hlen
  omega

/-- Every request takes bytes, so a run over a finite stream ends. -/
theorem streamRequests_total (usizeMax : ℕ) (maxBodyBytes : UInt64) (s : Bytes) :
    ∃ out, ∀ fuel, s.length < fuel →
      streamRequests (E := E) usizeMax maxBodyBytes fuel s = some out := by
  induction hn : s.length using Nat.strong_induction_on generalizing s with
  | _ n ih =>
    subst hn
    have hstep : ∀ out, (∀ fuel, s.length < fuel + 1 →
        streamRequests (E := E) usizeMax maxBodyBytes (fuel + 1) s = some out) →
        ∃ out, ∀ fuel, s.length < fuel →
          streamRequests (E := E) usizeMax maxBodyBytes fuel s = some out := by
      intro out h
      refine ⟨out, fun fuel hfuel => ?_⟩
      cases fuel with
      | zero => omega
      | succ fuel => exact h fuel hfuel
    cases hnext : nextRequest (E := E) usizeMax maxBodyBytes s with
    | error e => exact hstep ([], .failed e) fun fuel _ => by simp [streamRequests, hnext]
    | ok r =>
      obtain ⟨found, rest⟩ := r
      cases found with
      | none => exact hstep ([], .closed) fun fuel _ => by simp [streamRequests, hnext]
      | some request =>
        have hlt := nextRequest_shorter hnext
        obtain ⟨out, hout⟩ := ih rest.length hlt rest rfl
        apply hstep (request :: out.1, out.2)
        intro fuel hfuel
        simp [streamRequests, hnext, hout fuel (by omega)]

theorem clean_map_data {cuts : List Bytes} (h : ∀ c ∈ cuts, c ≠ []) :
    Clean (cuts.map Read.data) := by
  intro r hr
  obtain ⟨c, hc, rfl⟩ := List.mem_map.mp hr
  exact ⟨c, h c hc, rfl⟩

theorem pending_new (cuts : List Bytes) :
    pending (cuts.map Read.data) Conn.new = cuts.flatten := by
  have hstream : stream (cuts.map Read.data) = cuts.flatten := by
    induction cuts with
    | nil => rfl
    | cons c cs ih => rw [List.map_cons, stream_data, ih, List.flatten_cons]
  rw [pending, hstream]
  rfl

/-- Two ways to cut a stream into reads give the same requests and the same end. -/
theorem readRequests_cut_independent (alloc₁ alloc₂ : Alloc) (usizeMax : ℕ)
    (maxBodyBytes : UInt64) (s : Bytes) (cuts₁ cuts₂ : List Bytes)
    (hne₁ : ∀ c ∈ cuts₁, c ≠ []) (hne₂ : ∀ c ∈ cuts₂, c ≠ [])
    (hs₁ : cuts₁.flatten = s) (hs₂ : cuts₂.flatten = s) :
    ∃ out : List (Request E) × Ended, ∀ fuel, s.length < fuel →
      readRequests alloc₁ usizeMax maxBodyBytes fuel (cuts₁.map .data) .new = some out ∧
      readRequests alloc₂ usizeMax maxBodyBytes fuel (cuts₂.map .data) .new = some out := by
  obtain ⟨out, hout⟩ := streamRequests_total usizeMax maxBodyBytes s
  refine ⟨out, fun fuel hfuel => ?_⟩
  rw [readRequests_eq_streamRequests alloc₁ usizeMax maxBodyBytes fuel _ _ (clean_map_data hne₁),
    readRequests_eq_streamRequests alloc₂ usizeMax maxBodyBytes fuel _ _ (clean_map_data hne₂),
    pending_new, pending_new, hs₁, hs₂]
  exact ⟨hout fuel hfuel, hout fuel hfuel⟩

def pipelined : Bytes :=
  ascii "PUT / HTTP/1.1\r\ntransfer-encoding: chunked\r\n\r\n1\r\n0\r\n0\r\n\r\nGET / HTTP/1.0\r\n"

def exactAlloc : Alloc := ⟨fun _ len additional => len + additional, fun _ _ minCap => minCap⟩

theorem readRequests_cut_independent_pipelined :
    ∃ out : List (Request (fun _ : Unit => Unit)) × Ended, ∀ fuel, pipelined.length < fuel →
      readRequests exactAlloc (2 ^ 64 - 1) 8 fuel ([pipelined].map .data) .new = some out ∧
      readRequests exactAlloc (2 ^ 64 - 1) 8 fuel ((pipelined.map fun b => [b]).map .data) .new =
        some out :=
  readRequests_cut_independent exactAlloc exactAlloc (2 ^ 64 - 1) 8 pipelined [pipelined]
    (pipelined.map fun b => [b]) (by decide) (by decide) (by decide) (by decide)

inductive ReadRun (alloc : Alloc) (usizeMax : ℕ) (maxBodyBytes : UInt64) :
    List Read → Conn → List (Request E) → List Read → Conn → Prop where
  | refl (reads : List Read) (conn : Conn) :
      ReadRun alloc usizeMax maxBodyBytes reads conn [] reads conn
  | next {reads reads' : List Read} {conn conn' : Conn} {request : Request E}
      {requests : List (Request E)} {o : Outcome (Option (Request E))}
      (h : readRequestWithLimit alloc usizeMax maxBodyBytes reads conn = some o)
      (hok : o.result = .ok (some request))
      (tail : ReadRun alloc usizeMax maxBodyBytes o.reads o.conn requests reads' conn') :
      ReadRun alloc usizeMax maxBodyBytes reads conn (request :: requests) reads' conn'

theorem sound_new (reads : List Read) : Sound (stream reads) reads .new :=
  ⟨rfl, rfl, by simp [Conn.new]⟩

theorem ReadRun.sound {alloc : Alloc} {usizeMax : ℕ} {maxBodyBytes : UInt64}
    {reads reads' : List Read} {conn conn' : Conn} {requests : List (Request E)} {total : Bytes}
    (h : ReadRun alloc usizeMax maxBodyBytes reads conn requests reads' conn')
    (hs : Sound total reads conn) : Sound total reads' conn' := by
  induction h with
  | refl reads conn => exact hs
  | @next reads _ conn _ _ _ o h _ _ ih =>
    obtain ⟨o', ho, hfaith⟩ :=
      readRequestWithLimit_faithful (E := E) alloc usizeMax maxBodyBytes reads conn
    rw [h] at ho
    cases ho
    exact ih (hfaith.sound total hs)

/-- After any run of successful calls on a fresh connection the next call does not panic, and
at every point up to its return the bytes consumed and the bytes unread are the bytes received.
When it succeeds, it has consumed the head up to the first empty line of the stream and the
bytes of the body, and nothing else. -/
theorem readRequests_conserve_bytes (alloc : Alloc) (usizeMax : ℕ) (maxBodyBytes : UInt64)
    (reads reads' : List Read) (requests : List (Request E)) (conn : Conn)
    (h : ReadRun alloc usizeMax maxBodyBytes reads .new requests reads' conn) :
    ∃ o, readRequestWithLimit (E := E) alloc usizeMax maxBodyBytes reads' conn = some o ∧
      (o.conn.consumed ++ o.conn.buf.unread = o.conn.received ∧
        o.conn.received ++ stream o.reads = stream reads) ∧
      (∀ p ∈ o.conn.points, p.consumed ++ p.buf.unread = p.received ∧
        p.received <+: stream reads ∧ p.buf.pos ≤ p.buf.buf.length) ∧
      ∀ request, o.result = .ok (some request) →
        ∃ pos wire, findFirst terminator (conn.buf.unread ++ stream reads') = some pos ∧
          o.conn.consumed = conn.consumed ++
            (conn.buf.unread ++ stream reads').take (pos + terminator.length) ++ wire ∧
          BodyBytes maxBodyBytes request wire := by
  have hsound := h.sound (sound_new reads)
  obtain ⟨o, ho, hfaith⟩ :=
    readRequestWithLimit_faithful (E := E) alloc usizeMax maxBodyBytes reads' conn
  have hafter := hfaith.sound _ hsound
  refine ⟨o, ho, ⟨hafter.conserved, hafter.delivered⟩, ?_, ?_⟩
  · intro p hp
    obtain ⟨hcons, hpre⟩ := hafter.points p hp
    exact ⟨hcons, hpre, p.buf.pos_le⟩
  · intro request hok
    have hspec := hfaith.result (.inr ⟨_, hok, rfl⟩)
    rw [hok] at hspec
    obtain ⟨consumed, hp, hb⟩ := nextRequest_eq_some hspec
    obtain ⟨pos, hpos, rfl, _, _⟩ := parseRequestHead_complete hp
    obtain ⟨wire, hwire, hbytes⟩ := framedSpec_eq_ok hb
    refine ⟨pos, wire, hpos, ?_, hbytes⟩
    have hbefore := hsound.consumed_append_pending
    have hstream := hafter.consumed_append_pending
    rw [← hbefore] at hstream
    rw [← List.take_append_drop (pos + terminator.length) (pending reads' conn), hwire,
      ← List.append_assoc, ← List.append_assoc] at hstream
    exact List.append_cancel_right hstream

theorem readRequests_conserve_bytes_pipelined :
    ∃ (request : Request (fun _ : Unit => Unit)) (reads : List Read) (conn : Conn),
      ReadRun exactAlloc (2 ^ 64 - 1) 8 [.data (pipelined.take 30), .data (pipelined.drop 30)]
        .new [request] reads conn ∧
      ∃ o, readRequestWithLimit (E := fun _ : Unit => Unit) exactAlloc (2 ^ 64 - 1) 8 reads conn =
        some o ∧ o.conn.consumed ++ o.conn.buf.unread = o.conn.received := by
  have hcall : ∃ o, readRequestWithLimit (E := fun _ : Unit => Unit) exactAlloc (2 ^ 64 - 1) 8
      [.data (pipelined.take 30), .data (pipelined.drop 30)] .new = some o ∧
      ∃ request, o.result = .ok (some request) := by
    have hsome : (readRequestWithLimit (E := fun _ : Unit => Unit) exactAlloc (2 ^ 64 - 1) 8
        [.data (pipelined.take 30), .data (pipelined.drop 30)] .new).any
        (fun o => o.result.toOption.join.isSome) = true := by decide +kernel
    obtain ⟨o, ho, hjoin⟩ := (Option.any_eq_true _ _).mp hsome
    refine ⟨o, ho, ?_⟩
    cases hr : o.result with
    | error e => simp [hr, Except.toOption] at hjoin
    | ok found =>
      cases found with
      | none => simp [hr, Except.toOption] at hjoin
      | some request => exact ⟨request, rfl⟩
  obtain ⟨first, hfirst, request, hok⟩ := hcall
  have h := ReadRun.next hfirst hok (.refl first.reads first.conn)
  obtain ⟨o, ho, hcons, _⟩ := readRequests_conserve_bytes exactAlloc (2 ^ 64 - 1) 8
    [.data (pipelined.take 30), .data (pipelined.drop 30)] _ [request] _ h
  exact ⟨request, _, _, h, o, ho, hcons.1⟩

end

end FandheBackend.HttpConnectionRuns
