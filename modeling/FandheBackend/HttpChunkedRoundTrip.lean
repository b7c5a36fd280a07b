import FandheBackend.HttpChunkedGrammar

set_option autoImplicit false

namespace FandheBackend.HttpChunkedRoundTrip
open StdBytes HttpChunked HttpChunkedGrammar

def encodeBody (ds : List Bytes) : Bytes :=
  encodeTerminator (ds.foldl (fun out d => encodeChunk d out) [])

def encodedChunks (ds : List Bytes) : List Chunk :=
  (ds.filter fun d => !d.isEmpty).map fun d => ⟨numeral 16 d.length, d⟩

theorem encodeChunk_eq (data out : Bytes) :
    encodeChunk data out = out ++ chunksWire (encodedChunks [data]) := by
  cases data with
  | nil => simp [encodeChunk, encodedChunks, chunksWire]
  | cons b bs => simp [encodeChunk, encodedChunks, chunksWire, Chunk.wire, List.append_assoc]

theorem chunksWire_encodedChunks_cons (d : Bytes) (ds : List Bytes) :
    chunksWire (encodedChunks (d :: ds)) =
      chunksWire (encodedChunks [d]) ++ chunksWire (encodedChunks ds) := by
  cases d with
  | nil => simp [encodedChunks, chunksWire]
  | cons b bs => simp [encodedChunks, chunksWire]

theorem foldl_encodeChunk (ds : List Bytes) (out : Bytes) :
    ds.foldl (fun out d => encodeChunk d out) out = out ++ chunksWire (encodedChunks ds) := by
  induction ds generalizing out with
  | nil => simp [encodedChunks, chunksWire]
  | cons d ds ih =>
    rw [List.foldl_cons, ih, encodeChunk_eq, chunksWire_encodedChunks_cons d ds,
      List.append_assoc]

theorem encodeBody_eq (ds : List Bytes) :
    encodeBody ds = sectionWire (encodedChunks ds) (ascii "0") := by
  have hend : ascii "0\r\n\r\n" = ascii "0" ++ crlf ++ crlf := by decide
  rw [encodeBody, encodeTerminator, foldl_encodeChunk, hend]
  simp [sectionWire, List.append_assoc]

theorem encodeBody_cons (d : Bytes) (ds : List Bytes) :
    encodeBody (d :: ds) = encodeChunk d [] ++ encodeBody ds := by
  rw [encodeBody, encodeBody, encodeTerminator, encodeTerminator, foldl_encodeChunk,
    foldl_encodeChunk, chunksWire_encodedChunks_cons, encodeChunk_eq]
  simp only [List.nil_append, List.append_assoc]

theorem chunksData_encodedChunks (ds : List Bytes) :
    chunksData (encodedChunks ds) = ds.flatten := by
  induction ds with
  | nil => rfl
  | cons d ds ih =>
    rw [List.flatten_cons, ← ih]
    cases d with
    | nil => rfl
    | cons b bs => rfl

theorem sizeLine_numeral {n : ℕ} (h : n < 2 ^ 64) : SizeLine (numeral 16 n) n := by
  have hlen : (numeral 16 n).length ≤ 16 := numeral_length_le (by decide) (by omega) (by decide)
  refine ⟨⟨numeral 16 n, [], by simp, numeral_ne_nil 16 n, ?_, ?_, .inl rfl⟩, h, ?_⟩
  · exact numeral_hexdigits (by decide) (by decide) n
  · exact digitsValue_numeral (by decide) (by decide) n
  · unfold maxChunkLineBytes
    omega

theorem section_encodeBody {ds : List Bytes} {maxBodyBytes : UInt64}
    (hmax : ds.flatten.length ≤ maxBodyBytes.toNat)
    (hcount : (ds.filter fun d => !d.isEmpty).length ≤ maxChunkCount - 1) :
    Section maxBodyBytes (encodeBody ds) ds.flatten := by
  refine ⟨encodedChunks ds, ascii "0", ⟨⟨?_, ?_, ?_, ?_⟩, ?_⟩, encodeBody_eq ds,
    (chunksData_encodedChunks ds).symm⟩
  · intro c hc
    obtain ⟨d, hd, rfl⟩ := List.mem_map.mp hc
    have hsub : d.length ≤ ds.flatten.length :=
      (List.sublist_flatten_of_mem (List.mem_filter.mp hd).1).length_le
    exact sizeLine_numeral (hsub.trans_lt (hmax.trans_lt maxBodyBytes.toNat_lt))
  · exact sizeLine_numeral (n := 0) (by decide)
  · have hpos : 1 ≤ maxChunkCount := by decide
    rw [encodedChunks, List.length_map]
    omega
  · rw [chunksData_encodedChunks, Nat.zero_add]
    exact hmax
  · intro c hc
    obtain ⟨d, hd, rfl⟩ := List.mem_map.mp hc
    simpa using (List.mem_filter.mp hd).2

theorem encodeChunk_line (data out : Bytes) :
    encodeChunk data out = out ∨
      ∃ line, encodeChunk data out = out ++ line ++ crlf ++ data ++ crlf ∧ line ≠ [] ∧
        (∀ b ∈ line, isAsciiHexdigit b = true) ∧ digitsValue 16 line = data.length ∧
        digitsValue 16 line ≠ 0 := by
  cases data with
  | nil => exact .inl rfl
  | cons b bs =>
    have hval : digitsValue 16 (numeral 16 (b :: bs).length) = (b :: bs).length :=
      digitsValue_numeral (by decide) (by decide) _
    refine .inr ⟨numeral 16 (b :: bs).length, rfl, numeral_ne_nil _ _, ?_, hval, ?_⟩
    · exact numeral_hexdigits (by decide) (by decide) _
    · rw [hval]
      exact Nat.succ_ne_zero _

/-- Decoding an encoded body gives the body back and stops at its end, however the input
is cut into calls. -/
theorem decodeCalls_encodeBody (ds : List Bytes) (t : Bytes) (maxBodyBytes : UInt64)
    (inputs : List Bytes) (hmax : ds.flatten.length ≤ maxBodyBytes.toNat)
    (hcount : (ds.filter fun d => !d.isEmpty).length ≤ maxChunkCount - 1)
    (hinputs : inputs.flatten = encodeBody ds ++ t) :
    ((decodeCalls (.withMaxBodyBytes maxBodyBytes) [] inputs).completed ∧
      (decodeCalls (.withMaxBodyBytes maxBodyBytes) [] inputs).consumed = (encodeBody ds).length ∧
      (decodeCalls (.withMaxBodyBytes maxBodyBytes) [] inputs).out = ds.flatten) ∧
    ∀ data out : Bytes, encodeChunk data out = out ∨
      ∃ line, encodeChunk data out = out ++ line ++ crlf ++ data ++ crlf ∧ line ≠ [] ∧
        (∀ b ∈ line, isAsciiHexdigit b = true) ∧ digitsValue 16 line = data.length ∧
        digitsValue 16 line ≠ 0 := by
  obtain ⟨hcomplete, hout, hcons⟩ :=
    decodeCalls_section (section_encodeBody hmax hcount) hinputs.symm
  exact ⟨⟨hcomplete, hcons, hout⟩, encodeChunk_line⟩

theorem decodeCalls_encodeBody_split :
    (decodeCalls (.withMaxBodyBytes 3) []
      [ascii "1\r", ascii "\n0\r\n2\r\n\r\n\r", ascii "\n0\r\n\r", ascii "\nGET"]).out =
      ascii "0\r\n" :=
  (decodeCalls_encodeBody [ascii "0", [], ascii "\r\n"] (ascii "GET") 3
    [ascii "1\r", ascii "\n0\r\n2\r\n\r\n\r", ascii "\n0\r\n\r", ascii "\nGET"]
    (by decide) (by decide) (by decide)).1.2.2

end FandheBackend.HttpChunkedRoundTrip
