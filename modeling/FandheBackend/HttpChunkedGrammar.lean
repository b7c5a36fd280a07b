import FandheBackend.HttpChunkedMachine

set_option autoImplicit false

namespace FandheBackend.HttpChunkedGrammar
open StdBytes HttpChunked HttpChunkedMachine FedMachine

/-- A size line, without its line end, that denotes `size`. -/
structure SizeLine (line : Bytes) (size : ℕ) : Prop where
  parts : ∃ digits ext : Bytes, line = digits ++ ext ∧ digits ≠ [] ∧
    (∀ b ∈ digits, isAsciiHexdigit b = true) ∧ digitsValue 16 digits = size ∧
    (ext = [] ∨ ∃ text, ext = 59 :: text ∧ lf ∉ text)
  lt_two_pow : size < 2 ^ 64
  length_le : line.length + 1 ≤ maxChunkLineBytes

structure Chunk where
  line : Bytes
  data : Bytes

def Chunk.wire (c : Chunk) : Bytes := c.line ++ crlf ++ c.data ++ crlf

def chunksWire (chunks : List Chunk) : Bytes := (chunks.map Chunk.wire).flatten

def chunksData (chunks : List Chunk) : Bytes := (chunks.map Chunk.data).flatten

/-- The chunks and the last line of a body, after `count` size lines and `total`
bytes of data. A size line may denote zero although the next bytes are a chunk. -/
structure LooseParts (maxBodyBytes : UInt64) (count total : ℕ) (chunks : List Chunk)
    (last : Bytes) : Prop where
  line : ∀ c ∈ chunks, SizeLine c.line c.data.length
  last_line : SizeLine last 0
  count_le : count + chunks.length + 1 ≤ maxChunkCount
  total_le : total + (chunksData chunks).length ≤ maxBodyBytes.toNat

/-- The reading in which the first line that denotes zero is the last line. -/
structure Parts (maxBodyBytes : UInt64) (count total : ℕ) (chunks : List Chunk)
    (last : Bytes) : Prop extends LooseParts maxBodyBytes count total chunks last where
  data_ne : ∀ c ∈ chunks, c.data ≠ []

def sectionWire (chunks : List Chunk) (last : Bytes) : Bytes :=
  chunksWire chunks ++ last ++ crlf ++ crlf

/-- `wire` is a chunked body that carries `body`. -/
def Section (maxBodyBytes : UInt64) (wire body : Bytes) : Prop :=
  ∃ chunks last, Parts maxBodyBytes 0 0 chunks last ∧ wire = sectionWire chunks last ∧
    body = chunksData chunks

def LooseSection (maxBodyBytes : UInt64) (wire body : Bytes) : Prop :=
  ∃ chunks last, LooseParts maxBodyBytes 0 0 chunks last ∧ wire = sectionWire chunks last ∧
    body = chunksData chunks

@[simp] theorem chunksData_nil : chunksData [] = [] := rfl

@[simp] theorem chunksData_cons (c : Chunk) (cs : List Chunk) :
    chunksData (c :: cs) = c.data ++ chunksData cs := rfl

theorem sectionWire_nil (last : Bytes) : sectionWire [] last = last ++ crlf ++ crlf := rfl

theorem sectionWire_cons (c : Chunk) (cs : List Chunk) (last : Bytes) :
    sectionWire (c :: cs) last = c.line ++ crlf ++ (c.data ++ (crlf ++ sectionWire cs last)) := by
  simp [sectionWire, chunksWire, Chunk.wire, List.append_assoc]

theorem not_lf_of_hexdigit {b : UInt8} (h : isAsciiHexdigit b = true) : b ≠ lf := by
  rintro rfl
  exact absurd h (by decide)

theorem not_semicolon_of_hexdigit {b : UInt8} (h : isAsciiHexdigit b = true) : b ≠ 59 := by
  rintro rfl
  exact absurd h (by decide)

theorem SizeLine.lf_not_mem {line : Bytes} {size : ℕ} (h : SizeLine line size) :
    lf ∉ line := by
  obtain ⟨digits, ext, rfl, _, hhex, _, hext⟩ := h.parts
  rw [List.mem_append, not_or]
  refine ⟨fun hm => not_lf_of_hexdigit (hhex lf hm) rfl, ?_⟩
  obtain rfl | ⟨text, rfl, htext⟩ := hext
  · exact List.not_mem_nil
  · rw [List.mem_cons, not_or]
    exact ⟨by decide, htext⟩

theorem takeWhile_digits {digits ext : Bytes} (hhex : ∀ b ∈ digits, isAsciiHexdigit b = true)
    (hext : ext = [] ∨ ∃ text, ext = 59 :: text ∧ lf ∉ text) :
    (digits ++ ext).takeWhile (· != 59) = digits := by
  rw [List.takeWhile_append_of_pos]
  · obtain rfl | ⟨text, rfl, _⟩ := hext
    · simp
    · simp
  · intro b hb
    simpa using not_semicolon_of_hexdigit (hhex b hb)

theorem parseChunkSize_of_sizeLine {line : Bytes} {size : ℕ} (h : SizeLine line size) :
    parseChunkSize line = .ok size := by
  obtain ⟨digits, ext, rfl, hne, hhex, hval, hext⟩ := h.parts
  have hall : digits.all isAsciiHexdigit = true := List.all_eq_true.mpr hhex
  have hempty : digits.isEmpty = false := by simpa using hne
  have hradix : u64FromStrRadix digits 16 = some size := by
    rw [u64FromStrRadix, hval, if_pos h.lt_two_pow]
  simp [parseChunkSize, takeWhile_digits hhex hext, hall, hempty, hradix]

theorem sizeLine_of_parseChunkSize {line : Bytes} {size : ℕ} (h : parseChunkSize line = .ok size)
    (hlf : lf ∉ line) (hlen : line.length + 1 ≤ maxChunkLineBytes) : SizeLine line size := by
  simp only [parseChunkSize] at h
  split_ifs at h with hbad
  simp only [Bool.or_eq_true, List.isEmpty_iff, Bool.not_eq_true', not_or,
    Bool.not_eq_false] at hbad
  unfold u64FromStrRadix at h
  split_ifs at h with hlt
  cases h
  refine ⟨⟨_, line.dropWhile (· != 59), (List.takeWhile_append_dropWhile).symm, hbad.1,
    List.all_eq_true.mp hbad.2, rfl, ?_⟩, hlt, hlen⟩
  cases hd : line.dropWhile (· != 59) with
  | nil => exact .inl rfl
  | cons b text =>
    have hb : b = 59 := by
      have := List.head_dropWhile_not (· != (59 : UInt8)) (l := line) (by rw [hd]; simp)
      simpa [hd] using this
    refine .inr ⟨text, by rw [hb], fun hm => hlf ?_⟩
    apply (List.dropWhile_suffix (p := (· != (59 : UInt8))) (l := line)).subset
    rw [hd]
    exact List.mem_cons_of_mem b hm

theorem takeLine_line (buf line rest : Bytes) (hlf : lf ∉ line)
    (hlen : buf.length + line.length + 1 ≤ maxChunkLineBytes) :
    takeLine buf (line ++ crlf ++ rest) = ⟨.ok (some (buf ++ line)), [], rest⟩ := by
  induction line generalizing buf with
  | nil =>
    rw [List.length_nil] at hlen
    have hcr : ¬ cr = lf := by decide
    have hfit : ¬ buf.length + 1 > maxChunkLineBytes := by omega
    simp [crlf, takeLine, hcr, hfit]
  | cons b line ih =>
    rw [List.mem_cons, not_or] at hlf
    rw [List.length_cons] at hlen
    have hb : ¬ b = lf := fun h => hlf.1 h.symm
    have hfit : ¬ buf.length + 1 > maxChunkLineBytes := by omega
    have htail := ih (buf ++ [b]) hlf.2 (by rw [List.length_append, List.length_singleton]; omega)
    simpa [takeLine, hb, hfit] using htail

theorem takeLine_eq_some {buf xs line : Bytes} (hbuf : lf ∉ buf)
    (hlen : buf.length ≤ maxChunkLineBytes) (h : (takeLine buf xs).result = .ok (some line)) :
    buf ++ xs = line ++ crlf ++ (takeLine buf xs).rest ∧ lf ∉ line ∧
      line.length + 1 ≤ maxChunkLineBytes ∧ (takeLine buf xs).lineBuf = [] := by
  induction xs generalizing buf with
  | nil => simp [takeLine] at h
  | cons b xs ih =>
    simp only [takeLine] at h ⊢
    split_ifs at h ⊢ with hb hcr hfit
    · obtain ⟨front, rfl⟩ := List.getLast?_eq_some_iff.mp (not_not.mp hcr)
      simp only [List.dropLast_concat, Except.ok.injEq, Option.some.injEq] at h
      subst h
      rw [List.length_append, List.length_singleton] at hlen
      simp only [List.mem_append, not_or] at hbuf
      exact ⟨by simp [crlf, hb], hbuf.1, hlen, rfl⟩
    · have hbuf' : lf ∉ buf ++ [b] := by
        simp only [List.mem_append, List.mem_singleton, not_or]
        exact ⟨hbuf, fun hl => hb hl.symm⟩
      have := ih hbuf' (by omega) h
      rwa [List.append_assoc, List.singleton_append] at this

def atSizeLine (maxBodyBytes : UInt64) (count total : ℕ) : ChunkedDecoder :=
  { state := .chunkSizeLine, lineBuf := [], totalDecoded := total, chunkCount := count,
    maxBodyBytes }

def atEnd (maxBodyBytes : UInt64) (count total : ℕ) : ChunkedDecoder :=
  { state := .done, lineBuf := [], totalDecoded := total, chunkCount := count, maxBodyBytes }

/-- A line that its arm takes moves the machine over the line and its end. -/
theorem feed_accept {st : State} {accept : Accept} (h : LineArm st accept)
    {d d' : ChunkedDecoder} (hd : d.state = st) (hbuf : d.lineBuf = []) {line : Bytes}
    (hlf : lf ∉ line) (hlen : line.length + 1 ≤ maxChunkLineBytes)
    (hok : accept d line = (.ok (), d')) (rest out : Bytes) :
    feed byteMachine (d, out) (line ++ crlf ++ rest) = feed byteMachine (d', out) rest := by
  have hline := takeLine_line [] line rest hlf (by rw [List.length_nil]; omega)
  rw [List.nil_append] at hline
  have hsame : { d with lineBuf := [] } = d := by
    cases d
    simp only at hbuf
    rw [hbuf]
  rw [feed_line h d hd, hbuf, hline]
  simp only [afterLine, hsame, hok]

theorem acceptSizeLine_last {maxBodyBytes : UInt64} {count total : ℕ} {line : Bytes}
    (h : SizeLine line 0) (hc : count + 1 ≤ maxChunkCount) :
    acceptSizeLine (atSizeLine maxBodyBytes count total) line =
      (.ok (), { atSizeLine maxBodyBytes (count + 1) total with state := .trailerLine }) := by
  have hcount : ¬ count + 1 > maxChunkCount := by omega
  simp [acceptSizeLine, parseChunkSize_of_sizeLine h, atSizeLine, hcount]

theorem acceptSizeLine_chunk {maxBodyBytes : UInt64} {count total size : ℕ} {line : Bytes}
    (h : SizeLine line size) (hz : size ≠ 0) (hc : count + 1 ≤ maxChunkCount)
    (ht : total + size ≤ maxBodyBytes.toNat) :
    acceptSizeLine (atSizeLine maxBodyBytes count total) line =
      (.ok (), { atSizeLine maxBodyBytes (count + 1) total with state := .chunkData size }) := by
  have hcount : ¬ count + 1 > maxChunkCount := by omega
  have hadd : u64CheckedAdd total size = some (total + size) := by
    rw [u64CheckedAdd, if_pos (ht.trans_lt maxBodyBytes.toNat_lt)]
  have htotal : ¬ total + size > maxBodyBytes.toNat := by omega
  simp [acceptSizeLine, parseChunkSize_of_sizeLine h, atSizeLine, hcount, hz, hadd, htotal]

theorem feed_last (maxBodyBytes : UInt64) (count total : ℕ) {last : Bytes}
    (h : SizeLine last 0) (hc : count + 1 ≤ maxChunkCount) (rest out : Bytes) :
    feed byteMachine (atSizeLine maxBodyBytes count total, out) (last ++ crlf ++ (crlf ++ rest)) =
      .complete (atEnd maxBodyBytes (count + 1) total, out) rest := by
  rw [feed_accept .size rfl rfl h.lf_not_mem h.length_le (acceptSizeLine_last h hc)]
  rw [show crlf ++ rest = [] ++ crlf ++ rest from rfl]
  have hend : acceptTrailer { atSizeLine maxBodyBytes (count + 1) total with state := .trailerLine }
      [] = (.ok (), atEnd maxBodyBytes (count + 1) total) := rfl
  rw [feed_accept .trailer rfl rfl (List.not_mem_nil) (by decide) hend]
  exact feed_done byteMachine rfl rest

theorem feed_chunk (maxBodyBytes : UInt64) (count total : ℕ) {c : Chunk}
    (h : SizeLine c.line c.data.length) (hne : c.data ≠ []) (hc : count + 1 ≤ maxChunkCount)
    (ht : total + c.data.length ≤ maxBodyBytes.toNat) (rest out : Bytes) :
    feed byteMachine (atSizeLine maxBodyBytes count total, out)
        (c.line ++ crlf ++ (c.data ++ (crlf ++ rest))) =
      feed byteMachine (atSizeLine maxBodyBytes (count + 1) (total + c.data.length),
        out ++ c.data) rest := by
  have hpos : 0 < c.data.length := List.length_pos_iff.mpr hne
  rw [feed_accept .size rfl rfl h.lf_not_mem h.length_le
    (acceptSizeLine_chunk h hpos.ne' hc ht)]
  rw [feed_data_full _ c.data.length rfl c.data _ out rfl hpos]
  rw [show crlf ++ rest = [] ++ crlf ++ rest from rfl]
  exact feed_accept .dataCrlf rfl rfl (List.not_mem_nil) (by decide) rfl rest _

theorem feed_parts (maxBodyBytes : UInt64) (chunks : List Chunk) (last : Bytes)
    (count total : ℕ) (h : Parts maxBodyBytes count total chunks last) (rest out : Bytes) :
    feed byteMachine (atSizeLine maxBodyBytes count total, out)
        (sectionWire chunks last ++ rest) =
      .complete (atEnd maxBodyBytes (count + chunks.length + 1)
        (total + (chunksData chunks).length), out ++ chunksData chunks) rest := by
  induction chunks generalizing count total out with
  | nil =>
    have hwire : sectionWire [] last ++ rest = last ++ crlf ++ (crlf ++ rest) := by
      simp [sectionWire_nil, List.append_assoc]
    rw [hwire, feed_last maxBodyBytes count total h.last_line (by simpa using h.count_le)]
    simp
  | cons c cs ih =>
    have hcount := h.count_le
    have htotal := h.total_le
    rw [List.length_cons] at hcount
    rw [chunksData_cons, List.length_append] at htotal
    have hwire : sectionWire (c :: cs) last ++ rest =
        c.line ++ crlf ++ (c.data ++ (crlf ++ (sectionWire cs last ++ rest))) := by
      rw [sectionWire_cons]
      simp only [List.append_assoc]
    have htail : Parts maxBodyBytes (count + 1) (total + c.data.length) cs last := by
      refine ⟨⟨fun x hx => h.line x (List.mem_cons_of_mem c hx), h.last_line, by omega, by omega⟩,
        fun x hx => h.data_ne x (List.mem_cons_of_mem c hx)⟩
    rw [hwire, feed_chunk maxBodyBytes count total (h.line c List.mem_cons_self)
      (h.data_ne c List.mem_cons_self) (by omega) (by omega)]
    rw [ih (count + 1) (total + c.data.length) htail]
    have hlen : count + 1 + cs.length + 1 = count + (cs.length + 1) + 1 := by omega
    rw [hlen, chunksData_cons, List.length_cons, List.length_append, Nat.add_assoc total,
      List.append_assoc]

theorem acceptSizeLine_ok {maxBodyBytes : UInt64} {count total : ℕ} {line : Bytes}
    {d' : ChunkedDecoder}
    (h : acceptSizeLine (atSizeLine maxBodyBytes count total) line = (.ok (), d')) :
    ∃ size, parseChunkSize line = .ok size ∧ count + 1 ≤ maxChunkCount ∧
      (size = 0 ∧ d' = { atSizeLine maxBodyBytes (count + 1) total with state := .trailerLine } ∨
        size ≠ 0 ∧ total + size ≤ maxBodyBytes.toNat ∧
        d' = { atSizeLine maxBodyBytes (count + 1) total with state := .chunkData size }) := by
  unfold acceptSizeLine at h
  cases hp : parseChunkSize line with
  | error e => simp [hp] at h
  | ok size =>
    refine ⟨size, rfl, ?_⟩
    by_cases hc : count + 1 > maxChunkCount
    · simp [hp, atSizeLine, hc] at h
    by_cases hz : size = 0
    · simp only [hp, atSizeLine, hc, hz, ↓reduceIte, Prod.mk.injEq, true_and] at h
      exact ⟨by omega, .inl ⟨hz, h.symm⟩⟩
    cases hadd : u64CheckedAdd total size with
    | none => simp [hp, atSizeLine, hc, hz, hadd] at h
    | some newTotal =>
      have hnew : total + size = newTotal := by
        unfold u64CheckedAdd at hadd
        split_ifs at hadd
        exact Option.some.inj hadd
      by_cases ht : newTotal > maxBodyBytes.toNat
      · simp [hp, atSizeLine, hc, hz, hadd, ht] at h
      · simp only [hp, atSizeLine, hc, hz, hadd, ht, ↓reduceIte, Prod.mk.injEq, true_and] at h
        exact ⟨by omega, .inr ⟨hz, by omega, h.symm⟩⟩

theorem feed_line_complete {st : State} {accept : Accept} (h : LineArm st accept)
    {d : ChunkedDecoder} (hd : d.state = st) (hbuf : d.lineBuf = []) {xs out rest : Bytes}
    {c : Cell} (hf : feed byteMachine (d, out) xs = .complete c rest) :
    ∃ line tail d', xs = line ++ crlf ++ tail ∧ lf ∉ line ∧ line.length + 1 ≤ maxChunkLineBytes ∧
      accept d line = (.ok (), d') ∧ feed byteMachine (d', out) tail = .complete c rest := by
  rw [feed_line h d hd, hbuf] at hf
  cases ht : (takeLine [] xs).result with
  | error e => simp [ht] at hf
  | ok line =>
    cases line with
    | none => simp [ht] at hf
    | some line =>
      obtain ⟨hsplit, hlf, hlen, hline⟩ := takeLine_eq_some List.not_mem_nil (by decide) ht
      have hsame : { d with lineBuf := (takeLine [] xs).lineBuf } = d := by
        cases d
        simp only at hbuf
        rw [hline, hbuf]
      rw [ht, hsame] at hf
      simp only [afterLine] at hf
      cases ha : accept d line with
      | mk res d' =>
        cases res with
        | error e => simp [ha] at hf
        | ok u =>
          simp only [ha] at hf
          exact ⟨line, (takeLine [] xs).rest, d', hsplit, hlf, hlen, ha, hf⟩

theorem feed_data_complete {d : ChunkedDecoder} {r : ℕ} (hd : d.state = .chunkData r)
    (hr : 0 < r) {xs out rest : Bytes} {c : Cell}
    (hf : feed byteMachine (d, out) xs = .complete c rest) :
    ∃ data tail, xs = data ++ tail ∧ data.length = r ∧
      feed byteMachine ({ d with totalDecoded := d.totalDecoded + r
                                 state := .chunkDataCrlf }, out ++ data) tail =
        .complete c rest := by
  by_cases hlt : xs.length < r
  · rw [feed_data_short d r hd xs out hlt] at hf
    cases hf
  · have hlen : (xs.take r).length = r := by rw [List.length_take]; omega
    refine ⟨xs.take r, xs.drop r, (List.take_append_drop r xs).symm, hlen, ?_⟩
    rw [← feed_data_full d r hd (xs.take r) (xs.drop r) out hlen hr, List.take_append_drop]
    exact hf

theorem acceptDataCrlf_ok {d d' : ChunkedDecoder} {line : Bytes}
    (h : acceptDataCrlf d line = (.ok (), d')) :
    line = [] ∧ d' = { d with state := .chunkSizeLine } := by
  unfold acceptDataCrlf at h
  split_ifs at h with hne
  · simp at h
  · simp only [Prod.mk.injEq, true_and] at h
    exact ⟨by simpa using hne, h.symm⟩

theorem acceptTrailer_ok {d d' : ChunkedDecoder} {line : Bytes}
    (h : acceptTrailer d line = (.ok (), d')) :
    line = [] ∧ d' = { d with state := .done } := by
  unfold acceptTrailer at h
  split_ifs at h with hne
  · simp at h
  · simp only [Prod.mk.injEq, true_and] at h
    exact ⟨by simpa using hne, h.symm⟩

/-- The machine accepts nothing but chunked bodies within the limits. -/
theorem parts_of_feed (maxBodyBytes : UInt64) (n : ℕ) (count total : ℕ) (xs out rest : Bytes)
    (c : Cell) (hn : xs.length ≤ n) (htotal : total ≤ maxBodyBytes.toNat)
    (hf : feed byteMachine (atSizeLine maxBodyBytes count total, out) xs = .complete c rest) :
    ∃ chunks last, Parts maxBodyBytes count total chunks last ∧
      xs = sectionWire chunks last ++ rest ∧ c.2 = out ++ chunksData chunks := by
  -- one turn reads a size line, so the input that is left is shorter
  induction n generalizing count total xs out with
  | zero =>
    have hnil := List.eq_nil_of_length_eq_zero (Nat.le_zero.mp hn)
    subst hnil
    simp [feed, byteMachine, atSizeLine] at hf
  | succ n ih =>
    obtain ⟨line, tail, d, rfl, hlf, hlen, hacc, hf⟩ := feed_line_complete .size rfl rfl hf
    obtain ⟨size, hsize, hcount, hcase⟩ := acceptSizeLine_ok hacc
    have hline := sizeLine_of_parseChunkSize hsize hlf hlen
    obtain ⟨rfl, rfl⟩ | ⟨hz, hfit, rfl⟩ := hcase
    · obtain ⟨line', tail', d', rfl, -, -, hacc, hf⟩ := feed_line_complete .trailer rfl rfl hf
      obtain ⟨rfl, rfl⟩ := acceptTrailer_ok hacc
      rw [feed_done byteMachine rfl] at hf
      cases hf
      refine ⟨[], line, ⟨⟨by simp, hline, hcount, htotal⟩, by simp⟩, ?_, by simp⟩
      simp [sectionWire_nil, List.append_assoc]
    · obtain ⟨data, tail', rfl, hdata, hf⟩ := feed_data_complete rfl (Nat.pos_of_ne_zero hz) hf
      obtain ⟨line', tail, d', rfl, -, -, hacc, hf⟩ := feed_line_complete .dataCrlf rfl (by rfl) hf
      obtain ⟨rfl, rfl⟩ := acceptDataCrlf_ok hacc
      obtain ⟨chunks, last, hparts, htail, hout⟩ := ih (count + 1) (total + size) tail _ (by
        simp only [List.length_append] at hn
        omega) hfit hf
      subst hdata
      refine ⟨⟨line, data⟩ :: chunks, last, ⟨⟨?_, hparts.last_line, ?_, ?_⟩, ?_⟩, ?_, ?_⟩
      · exact List.forall_mem_cons.mpr ⟨hline, hparts.line⟩
      · have := hparts.count_le
        rw [List.length_cons]
        omega
      · have := hparts.total_le
        simp only [chunksData_cons, List.length_append]
        omega
      · exact List.forall_mem_cons.mpr ⟨by simpa using hz, hparts.data_ne⟩
      · rw [sectionWire_cons, htail]
        simp [List.append_assoc]
      · rw [hout, chunksData_cons, List.append_assoc]

theorem feed_section {maxBodyBytes : UInt64} {wire body : Bytes}
    (h : Section maxBodyBytes wire body) (rest out : Bytes) :
    ∃ d, feed byteMachine (.withMaxBodyBytes maxBodyBytes, out) (wire ++ rest) =
      .complete (d, out ++ body) rest := by
  obtain ⟨chunks, last, hparts, rfl, rfl⟩ := h
  exact ⟨_, feed_parts maxBodyBytes chunks last 0 0 hparts rest out⟩

theorem section_of_feed {maxBodyBytes : UInt64} {xs out rest : Bytes} {c : Cell}
    (hf : feed byteMachine (.withMaxBodyBytes maxBodyBytes, out) xs = .complete c rest) :
    ∃ wire body, Section maxBodyBytes wire body ∧ xs = wire ++ rest ∧ c.2 = out ++ body := by
  obtain ⟨chunks, last, hparts, hxs, hout⟩ :=
    parts_of_feed maxBodyBytes xs.length 0 0 xs out rest c (le_refl _) (Nat.zero_le _) hf
  exact ⟨_, _, ⟨chunks, last, hparts, rfl, rfl⟩, hxs, hout⟩

/-- An input that starts with a body in the loose reading starts with one in the strict
reading: it ends at the first line that denotes zero. -/
theorem parts_of_looseParts {maxBodyBytes : UInt64} {count total : ℕ} {chunks : List Chunk}
    {last : Bytes} (h : LooseParts maxBodyBytes count total chunks last) :
    ∃ chunks' last', Parts maxBodyBytes count total chunks' last' ∧
      sectionWire chunks' last' <+: sectionWire chunks last := by
  induction chunks generalizing count total with
  | nil => exact ⟨[], last, ⟨h, by simp⟩, List.prefix_refl _⟩
  | cons c cs ih =>
    have hline := h.line c List.mem_cons_self
    have hcount := h.count_le
    have htotal := h.total_le
    rw [List.length_cons] at hcount
    rw [chunksData_cons, List.length_append] at htotal
    rw [sectionWire_cons]
    by_cases hne : c.data = []
    · rw [hne] at hline ⊢
      refine ⟨[], c.line, ⟨⟨by simp, hline, ?_, ?_⟩, by simp⟩, ?_⟩
      · rw [List.length_nil]
        omega
      · rw [chunksData_nil, List.length_nil]
        omega
      · rw [sectionWire_nil, List.nil_append, ← List.append_assoc]
        exact List.prefix_append _ _
    · have htail : LooseParts maxBodyBytes (count + 1) (total + c.data.length) cs last :=
        ⟨fun x hx => h.line x (List.mem_cons_of_mem c hx), h.last_line, by omega, by omega⟩
      obtain ⟨chunks', last', hparts, hpre⟩ := ih htail
      have hcount' := hparts.count_le
      have htotal' := hparts.total_le
      refine ⟨c :: chunks', last', ⟨⟨?_, hparts.last_line, ?_, ?_⟩, ?_⟩, ?_⟩
      · exact List.forall_mem_cons.mpr ⟨hline, hparts.line⟩
      · rw [List.length_cons]
        omega
      · rw [chunksData_cons, List.length_append]
        omega
      · exact List.forall_mem_cons.mpr ⟨hne, hparts.data_ne⟩
      · rw [sectionWire_cons]
        simp only [List.prefix_append_right_inj]
        exact hpre

/-- A run of calls is one feed of the concatenated input. -/
theorem decodeCalls_eq_feed (d : ChunkedDecoder) (hd : Wf d) (hnd : d.state ≠ .done)
    (inputs : List Bytes) (out : Bytes) :
    match feed byteMachine (d, out) inputs.flatten with
    | .complete c rest => (decodeCalls d out inputs).completed ∧
        (decodeCalls d out inputs).out = c.2 ∧
        (decodeCalls d out inputs).consumed + rest.length = inputs.flatten.length
    | _ => ¬ (decodeCalls d out inputs).completed := by
  induction inputs generalizing d out with
  | nil => simp [feed, byteMachine, hnd, decodeCalls, DecodeRun.completed]
  | cons input inputs ih =>
    have hcall := decode_eq_feed d hd input out
    rw [List.flatten_cons, feed_append]
    cases hf : feed byteMachine (d, out) input with
    | failed e =>
      rw [hf] at hcall
      simp [Fed.andThen, decodeCalls, hcall, asResult, DecodeRun.completed]
    | complete c rest =>
      have hle := (feed_complete_suffix byteMachine hf).length_le
      rw [hf] at hcall
      simp only [Fed.andThen, decodeCalls, hcall, asResult, DecodeRun.completed,
        DecodeRun.consumed, DecodeOutcome.consumed, List.map_cons, List.map_nil, List.sum_cons,
        List.sum_nil, List.length_append]
      exact ⟨⟨_, List.mem_singleton_self _, _, rfl⟩, trivial, by omega⟩
    | more c =>
      rw [hf] at hcall
      have hwf : Wf c.1 := feed_more_invariant byteMachine (I := fun c => Wf c.1)
        (fun s b t => byteStep_wf s b t) hd hf
      have hdone : c.1.state ≠ .done := by
        simpa [byteMachine] using feed_more_not_done byteMachine hf
      have hrun : decodeCalls d out (input :: inputs) =
          { decodeCalls c.1 c.2 inputs with
            calls := (input, .ok (.incomplete input.length)) :: (decodeCalls c.1 c.2 inputs).calls }
          := by
        simp [decodeCalls, hcall, asResult]
      have htail := ih c.1 hwf hdone c.2
      rw [hrun]
      simp only [Fed.andThen]
      cases hg : feed byteMachine (c.1, c.2) inputs.flatten with
      | failed e =>
        rw [hg] at htail
        simpa [DecodeRun.completed] using htail
      | more c' =>
        rw [hg] at htail
        simpa [DecodeRun.completed] using htail
      | complete c' rest =>
        rw [hg] at htail
        obtain ⟨⟨call, hmem, n, hn⟩, hout, hcons⟩ := htail
        refine ⟨⟨call, List.mem_cons_of_mem _ hmem, n, hn⟩, hout, ?_⟩
        simp only [DecodeRun.consumed, List.map_cons, List.sum_cons, DecodeOutcome.consumed,
          List.length_append] at hcons ⊢
        omega

theorem decodeCalls_incomplete (d : ChunkedDecoder) (hd : Wf d) (inputs : List Bytes)
    (out : Bytes) : ∀ c ∈ (decodeCalls d out inputs).calls, ∀ n,
      c.2 = .ok (.incomplete n) → n = c.1.length := by
  induction inputs generalizing d out with
  | nil => simp [decodeCalls]
  | cons input inputs ih =>
    have hcall := decode_eq_feed d hd input out
    intro c hc n hn
    cases hf : feed byteMachine (d, out) input with
    | failed e =>
      rw [hf] at hcall
      simp only [decodeCalls, hcall, asResult, List.mem_singleton] at hc
      subst hc
      cases hn
    | complete s rest =>
      rw [hf] at hcall
      simp only [decodeCalls, hcall, asResult, List.mem_singleton] at hc
      subst hc
      cases hn
    | more s =>
      rw [hf] at hcall
      have hwf : Wf s.1 := feed_more_invariant byteMachine (I := fun c => Wf c.1)
        (fun s b t => byteStep_wf s b t) hd hf
      simp only [decodeCalls, hcall, asResult, List.mem_cons] at hc
      obtain rfl | hc := hc
      · cases hn
        rfl
      · exact ih s.1 hwf s.2 c hc n hn

theorem decodeCalls_section {maxBodyBytes : UInt64} {wire body : Bytes}
    (h : Section maxBodyBytes wire body) {inputs : List Bytes} {rest : Bytes}
    (hrest : wire ++ rest = inputs.flatten) :
    (decodeCalls (.withMaxBodyBytes maxBodyBytes) [] inputs).completed ∧
    (decodeCalls (.withMaxBodyBytes maxBodyBytes) [] inputs).out = body ∧
    (decodeCalls (.withMaxBodyBytes maxBodyBytes) [] inputs).consumed = wire.length := by
  have hrun := decodeCalls_eq_feed (.withMaxBodyBytes maxBodyBytes)
    (withMaxBodyBytes_wf maxBodyBytes) (by simp [ChunkedDecoder.withMaxBodyBytes]) inputs []
  obtain ⟨d, hf⟩ := feed_section h rest []
  rw [← hrest, hf] at hrun
  obtain ⟨hcomplete, hout, hcons⟩ := hrun
  rw [List.length_append] at hcons
  exact ⟨hcomplete, hout, by omega⟩

theorem section_of_decodeCalls {maxBodyBytes : UInt64} {inputs : List Bytes}
    (h : (decodeCalls (.withMaxBodyBytes maxBodyBytes) [] inputs).completed) :
    ∃ wire body, Section maxBodyBytes wire body ∧ wire <+: inputs.flatten := by
  have hrun := decodeCalls_eq_feed (.withMaxBodyBytes maxBodyBytes)
    (withMaxBodyBytes_wf maxBodyBytes) (by simp [ChunkedDecoder.withMaxBodyBytes]) inputs []
  cases hf : feed byteMachine (.withMaxBodyBytes maxBodyBytes, []) inputs.flatten with
  | failed e =>
    rw [hf] at hrun
    exact absurd h hrun
  | more c =>
    rw [hf] at hrun
    exact absurd h hrun
  | complete c rest =>
    obtain ⟨wire, body, hsec, hxs, _⟩ := section_of_feed hf
    exact ⟨wire, body, hsec, rest, hxs.symm⟩

/-- The decoder accepts exactly the grammar, however its input is cut into calls. -/
theorem decodeCalls_accepts_section (maxBodyBytes : UInt64) (inputs : List Bytes) :
    ((decodeCalls (.withMaxBodyBytes maxBodyBytes) [] inputs).completed ↔
      ∃ wire body, LooseSection maxBodyBytes wire body ∧ wire <+: inputs.flatten) ∧
    ((decodeCalls (.withMaxBodyBytes maxBodyBytes) [] inputs).completed ↔
      ∃ wire body, Section maxBodyBytes wire body ∧ wire <+: inputs.flatten) ∧
    (∀ wire body, Section maxBodyBytes wire body → wire <+: inputs.flatten →
      (decodeCalls (.withMaxBodyBytes maxBodyBytes) [] inputs).out = body ∧
      (decodeCalls (.withMaxBodyBytes maxBodyBytes) [] inputs).consumed = wire.length) ∧
    ∀ c ∈ (decodeCalls (.withMaxBodyBytes maxBodyBytes) [] inputs).calls, ∀ n,
      c.2 = .ok (.incomplete n) → n = c.1.length := by
  have hstrict : (decodeCalls (.withMaxBodyBytes maxBodyBytes) [] inputs).completed ↔
      ∃ wire body, Section maxBodyBytes wire body ∧ wire <+: inputs.flatten := by
    constructor
    · exact section_of_decodeCalls
    · rintro ⟨wire, body, hsec, rest, hrest⟩
      exact (decodeCalls_section hsec hrest).1
  refine ⟨?_, hstrict, ?_, decodeCalls_incomplete _ (withMaxBodyBytes_wf maxBodyBytes) inputs []⟩
  · rw [hstrict]
    constructor
    · rintro ⟨wire, body, ⟨chunks, last, hparts, hw, hb⟩, hpre⟩
      exact ⟨wire, body, ⟨chunks, last, hparts.toLooseParts, hw, hb⟩, hpre⟩
    · rintro ⟨wire, body, ⟨chunks, last, hparts, rfl, rfl⟩, hpre⟩
      obtain ⟨chunks', last', hparts', hpre'⟩ := parts_of_looseParts hparts
      exact ⟨_, _, ⟨chunks', last', hparts', rfl, rfl⟩, hpre'.trans hpre⟩
  · rintro wire body hsec ⟨rest, hrest⟩
    exact (decodeCalls_section hsec hrest).2

end FandheBackend.HttpChunkedGrammar
