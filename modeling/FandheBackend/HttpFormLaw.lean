import FandheBackend.ExceptChecks
import FandheBackend.HttpForm

set_option autoImplicit false

namespace FandheBackend.HttpFormLaw
open StdBytes ExceptChecks HttpForm Utf8Text

section Encoding

def isUnreserved (b : UInt8) : Bool :=
  isAsciiAlphanumeric b || b == 45 || b == 46 || b == 95 || b == 126

/-- The encoded texts of a text; the hexadecimal digits are of either case. -/
inductive Encodes : Bytes → Bytes → Prop
  | nil : Encodes [] []
  | unreserved {b : UInt8} {plain encoded : Bytes} : isUnreserved b = true →
      Encodes plain encoded → Encodes (b :: plain) (b :: encoded)
  | escape {b hi lo : UInt8} {plain encoded : Bytes} : isAsciiHexdigit hi = true →
      isAsciiHexdigit lo = true → b.toNat = 16 * digitValue hi + digitValue lo →
      Encodes plain encoded → Encodes (b :: plain) (37 :: hi :: lo :: encoded)
  | plus {plain encoded : Bytes} : Encodes plain encoded → Encodes (32 :: plain) (43 :: encoded)

def encodedPair (pair : Bytes × Bytes) : Bytes := pair.1 ++ ascii "=" ++ pair.2

/-- `k=v` for each pair, with `&` between two of them. -/
def EncodesForm (pairs : List (Bytes × Bytes)) (body : Bytes) : Prop :=
  ∃ encoded : List (Bytes × Bytes),
    List.Forall₂ (fun pair e => Encodes pair.1 e.1 ∧ Encodes pair.2 e.2) pairs encoded ∧
      body = join (ascii "&") (encoded.map encodedPair)

def isComponentByte (b : UInt8) : Bool := isUnreserved b || b == 37 || b == 43

theorem isUnreserved_of_hexdigit {b : UInt8} (h : isAsciiHexdigit b = true) :
    isUnreserved b = true := by
  revert b
  apply forall_byte
  decide +kernel

theorem Encodes.all_component {plain encoded : Bytes} (h : Encodes plain encoded) :
    ∀ b ∈ encoded, isComponentByte b = true := by
  induction h with
  | nil => simp
  | unreserved hb _ ih =>
    rw [List.forall_mem_cons]
    exact ⟨by simp [isComponentByte, hb], ih⟩
  | escape hhi hlo _ _ ih =>
    rw [List.forall_mem_cons, List.forall_mem_cons, List.forall_mem_cons]
    refine ⟨rfl, ?_, ?_, ih⟩
    · simp [isComponentByte, isUnreserved_of_hexdigit hhi]
    · simp [isComponentByte, isUnreserved_of_hexdigit hlo]
  | plus _ ih =>
    rw [List.forall_mem_cons]
    exact ⟨rfl, ih⟩

theorem component_byte {b : UInt8} (h : isComponentByte b = true) : b < 128 ∧ b ≠ 38 ∧ b ≠ 61 := by
  revert b
  apply forall_byte
  decide +kernel

theorem hexValue_hexdigit {b : UInt8} (h : isAsciiHexdigit b = true) :
    hexValue b = some (UInt8.ofNat (digitValue b)) ∧ digitValue b < 16 := by
  revert b
  apply forall_byte
  decide +kernel

theorem shiftLeft_or {hi lo : ℕ} (hhi : hi < 16) (hlo : lo < 16) :
    (UInt8.ofNat hi <<< 4 ||| UInt8.ofNat lo) = UInt8.ofNat (16 * hi + lo) := by
  have hall : ∀ hi lo : Fin 16,
      (UInt8.ofNat hi <<< 4 ||| UInt8.ofNat lo) = UInt8.ofNat (16 * hi + lo) := by
    decide +kernel
  exact hall ⟨hi, hhi⟩ ⟨lo, hlo⟩

def plusToSpace (component : Bytes) : Bytes := component.map fun b => if b = 43 then 32 else b

theorem plusToSpace_cons {b : UInt8} (h : b ≠ 43) (s : Bytes) :
    plusToSpace (b :: s) = b :: plusToSpace s := by
  rw [plusToSpace, List.map_cons, if_neg h]
  rfl

theorem unreserved_byte {b : UInt8} (h : isUnreserved b = true) : b ≠ 37 ∧ b ≠ 43 := by
  revert b
  apply forall_byte
  decide +kernel

theorem decodeBytesFrom_plain {b : UInt8} (h : b ≠ 37) (pos : ℕ) (rest : Bytes) :
    decodeBytesFrom pos (b :: rest) = (decodeBytesFrom (pos + 1) rest).map (b :: ·) := by
  rw [decodeBytesFrom.eq_def]
  exact if_neg h

/-- A `+` that stands for itself was escaped, and the escape holds no `+` to replace. -/
theorem Encodes.decodeBytesFrom {plain encoded : Bytes} (h : Encodes plain encoded) (pos : ℕ) :
    decodeBytesFrom pos (plusToSpace encoded) = .ok plain := by
  induction h generalizing pos with
  | nil => rfl
  | unreserved hb _ ih =>
    obtain ⟨hpercent, hplus⟩ := unreserved_byte hb
    rw [plusToSpace_cons hplus, decodeBytesFrom_plain hpercent, ih]
    rfl
  | @escape b hi lo plain encoded hhi hlo hb _ ih =>
    obtain ⟨hhiV, hhi16⟩ := hexValue_hexdigit hhi
    obtain ⟨hloV, hlo16⟩ := hexValue_hexdigit hlo
    have hbyte : b = UInt8.ofNat (16 * digitValue hi + digitValue lo) := by
      rw [← hb, UInt8.ofNat_toNat]
    rw [plusToSpace_cons (by decide), plusToSpace_cons (unreserved_byte (isUnreserved_of_hexdigit hhi)).2,
      plusToSpace_cons (unreserved_byte (isUnreserved_of_hexdigit hlo)).2, HttpForm.decodeBytesFrom,
      if_pos rfl]
    simp only [hhiV, hloV, ih, shiftLeft_or hhi16 hlo16, ← hbyte]
    rfl
  | plus _ ih =>
    change HttpForm.decodeBytesFrom pos (32 :: plusToSpace _) = _
    rw [decodeBytesFrom_plain (by decide), ih]
    rfl

theorem Encodes.decodeFormComponent {plain encoded : Bytes} (h : Encodes plain encoded)
    (htext : IsText plain) : decodeFormComponent encoded = .ok plain := by
  have hbytes : decodeBytes (plusToSpace encoded) = .ok plain := h.decodeBytesFrom 0
  change decodeStr (plusToSpace encoded) = _
  rw [decodeStr, hbytes]
  simp only [(isSome_decode_iff plain).mpr htext, if_true]

end Encoding

section Splitting

theorem splitOnce_append {b : UInt8} {xs : Bytes} (h : b ∉ xs) (ys : Bytes) :
    splitOnce b (xs ++ b :: ys) = some (xs, ys) := by
  have hnone : xs.findIdx? (· == b) = none := by
    rw [List.findIdx?_eq_none_iff]
    intro c hc
    rw [beq_eq_false_iff_ne]
    exact fun heq => h (heq ▸ hc)
  have hidx : (xs ++ b :: ys).findIdx? (· == b) = some xs.length := by
    rw [List.findIdx?_append, hnone, List.findIdx?_cons, if_pos (beq_self_eq_true b),
      Option.none_or, Option.map_some, Nat.zero_add]
  have hdrop : (xs ++ b :: ys).drop (xs.length + 1) = ys := by
    rw [← List.drop_drop, List.drop_left]
    rfl
  rw [splitOnce, hidx, Option.map_some, List.take_left, hdrop]

theorem splitOnce_none {b : UInt8} {s : Bytes} (h : b ∉ s) : splitOnce b s = none := by
  rw [splitOnce, Option.map_eq_none_iff, List.findIdx?_eq_none_iff]
  intro c hc
  rw [beq_eq_false_iff_ne]
  exact fun heq => h (heq ▸ hc)

theorem splitOnce_eq_some_iff {b : UInt8} {s xs ys : Bytes} :
    splitOnce b s = some (xs, ys) ↔ s = xs ++ b :: ys ∧ b ∉ xs := by
  constructor
  · intro h
    by_cases hmem : b ∈ s
    · obtain ⟨xs', ys', rfl, hxs⟩ := List.eq_append_cons_of_mem hmem
      rw [splitOnce_append hxs] at h
      obtain ⟨rfl, rfl⟩ := Prod.ext_iff.mp (Option.some.inj h)
      exact ⟨rfl, hxs⟩
    · rw [splitOnce_none hmem] at h
      cases h
  · rintro ⟨rfl, hxs⟩
    exact splitOnce_append hxs ys

theorem splitOnce_eq_none_iff {b : UInt8} {s : Bytes} : splitOnce b s = none ↔ b ∉ s := by
  constructor
  · intro h hmem
    obtain ⟨xs, ys, rfl, hxs⟩ := List.eq_append_cons_of_mem hmem
    rw [splitOnce_append hxs] at h
    cases h
  · exact splitOnce_none

theorem toList_none {q : QueryPairs} (h : q.next = none) : q.toList = [] := by
  rw [QueryPairs.toList]
  split
  · rfl
  · rename_i hsome
    rw [h] at hsome
    cases hsome

theorem toList_some {q q' : QueryPairs} {pair : Bytes × Bytes} (h : q.next = some (pair, q')) :
    q.toList = pair :: q'.toList := by
  rw [QueryPairs.toList]
  split
  · rename_i hnone
    rw [h] at hnone
    cases hnone
  · rename_i hsome
    rw [h] at hsome
    cases hsome
    rfl

theorem toList_congr {q q' : QueryPairs} (h : q.next = q'.next) : q.toList = q'.toList := by
  cases hn : q.next with
  | none => rw [toList_none hn, toList_none (h ▸ hn)]
  | some step => rw [@toList_some q step.2 step.1 hn, @toList_some q' step.2 step.1 (h ▸ hn)]

def rawPairs (query : Bytes) : List (Bytes × Bytes) :=
  ((query.splitOn 38).filter fun seg => !seg.isEmpty).map QueryPairs.keyValue

theorem toList_segment {remainder : Bytes} (h : remainder ≠ []) :
    (QueryPairs.mk remainder).toList =
      ([(QueryPairs.segment remainder).1].filter fun seg => !seg.isEmpty).map QueryPairs.keyValue ++
        (QueryPairs.mk (QueryPairs.segment remainder).2).toList := by
  by_cases hseg : (QueryPairs.segment remainder).1 = []
  · have hskip : (QueryPairs.mk remainder).next =
        (QueryPairs.mk (QueryPairs.segment remainder).2).next := by
      rw [QueryPairs.next, dif_neg h, if_pos hseg]
    rw [toList_congr hskip, hseg]
    rfl
  · have hsome : (QueryPairs.mk remainder).next = some
        (QueryPairs.keyValue (QueryPairs.segment remainder).1,
          ⟨(QueryPairs.segment remainder).2⟩) := by
      rw [QueryPairs.next, dif_neg h, if_neg hseg]
    rw [toList_some hsome, List.filter_cons_of_pos (by simp [hseg])]
    rfl

/-- The independent iterator and the segments that were counted are the same. -/
theorem toList_eq_rawPairs (query : Bytes) : (QueryPairs.mk query).toList = rawPairs query := by
  induction hn : query.length using Nat.strong_induction_on generalizing query with
  | _ n ih =>
    by_cases hnil : query = []
    · subst hnil
      rw [toList_none (by rw [QueryPairs.next]; rfl)]
      rfl
    · have hlt := QueryPairs.segment_length hnil
      rw [toList_segment hnil, ih _ (hn ▸ hlt) _ rfl]
      by_cases hmem : (38 : UInt8) ∈ query
      · obtain ⟨xs, ys, hquery, hxs⟩ := List.eq_append_cons_of_mem hmem
        have hseg : QueryPairs.segment query = (xs, ys) := by
          rw [QueryPairs.segment, hquery, splitOnce_append hxs]
          rfl
        rw [hseg, rawPairs, rawPairs, hquery, List.splitOn_append_cons_self_of_not_mem hxs,
          ← List.map_append, ← List.filter_append]
        rfl
      · have hseg : QueryPairs.segment query = (query, []) := by
          rw [QueryPairs.segment, splitOnce_none hmem]
          rfl
        rw [hseg, rawPairs, rawPairs, List.splitOn_eq_singleton hmem]
        exact List.append_nil _

theorem splitOn_join {parts : List Bytes} (hne : parts ≠ [])
    (h : ∀ part ∈ parts, (38 : UInt8) ∉ part) : (join (ascii "&") parts).splitOn 38 = parts := by
  induction parts with
  | nil => exact absurd rfl hne
  | cons part parts ih =>
    rw [List.forall_mem_cons] at h
    cases parts with
    | nil => exact List.splitOn_eq_singleton h.1
    | cons next parts =>
      have hjoin : join (ascii "&") (part :: next :: parts) =
          part ++ 38 :: join (ascii "&") (next :: parts) := List.append_assoc _ _ _
      rw [hjoin, List.splitOn_append_cons_self_of_not_mem h.1, ih (List.cons_ne_nil _ _) h.2]

theorem keyValue_encodedPair {pair : Bytes × Bytes} (h : (61 : UInt8) ∉ pair.1) :
    QueryPairs.keyValue (encodedPair pair) = pair := by
  have hsplit : splitOnce 61 (encodedPair pair) = some (pair.1, pair.2) := by
    rw [encodedPair, List.append_assoc]
    exact splitOnce_append h pair.2
  rw [QueryPairs.keyValue, hsplit]
  rfl

theorem rawPairs_join {encoded : List (Bytes × Bytes)}
    (h : ∀ e ∈ encoded, (38 : UInt8) ∉ encodedPair e ∧ (61 : UInt8) ∉ e.1) :
    rawPairs (join (ascii "&") (encoded.map encodedPair)) = encoded := by
  cases encoded with
  | nil => rfl
  | cons e encoded =>
    have hparts : ∀ part ∈ (e :: encoded).map encodedPair, (38 : UInt8) ∉ part := by
      intro part hpart
      obtain ⟨e', he', rfl⟩ := List.mem_map.mp hpart
      exact (h e' he').1
    have hnonempty : ∀ part ∈ (e :: encoded).map encodedPair, (!part.isEmpty) = true := by
      intro part hpart
      obtain ⟨e', _, rfl⟩ := List.mem_map.mp hpart
      simp [encodedPair, ascii]
    have hkeys : ((e :: encoded).map encodedPair).map QueryPairs.keyValue = e :: encoded := by
      rw [List.map_map]
      refine (List.map_congr_left fun e' he' => ?_).trans (List.map_id _)
      exact keyValue_encodedPair (h e' he').2
    have hne : (e :: encoded).map encodedPair ≠ [] := List.cons_ne_nil _ _
    rw [rawPairs, splitOn_join hne hparts, List.filter_eq_self.mpr hnonempty, hkeys]

theorem rawPairs_length (query : Bytes) :
    (rawPairs query).length = ((query.splitOn 38).filter fun seg => !seg.isEmpty).length :=
  List.length_map _

end Splitting

section Forms

theorem parseFormWithLimit_eq_ok {body : Bytes} {limits : FormLimits} {pairs : List (Bytes × Bytes)} :
    parseFormWithLimit body limits = .ok pairs ↔
      body.length ≤ limits.maxBytes ∧ IsText body ∧ (rawPairs body).length ≤ limits.maxPairs ∧
        List.Forall₂ (fun raw pair => decodePair raw = .ok pair) (rawPairs body) pairs := by
  rw [← mapM_eq_ok, ← isSome_decode_iff, parseFormWithLimit, parseQueryWithLimits,
    ← rawPairs_length]
  by_cases hlength : body.length > limits.maxBytes
  · simp [hlength]
  · have hle := Nat.not_lt.mp hlength
    simp only [if_neg hlength, hle, true_and]
    cases htext : decode body with
    | none => simp
    | some cs =>
      by_cases hpairs : (rawPairs body).length > limits.maxPairs
      · simp [if_pos hpairs, Nat.not_le.mpr hpairs]
      · simp [if_neg hpairs, Nat.not_lt.mp hpairs, toList_eq_rawPairs]

theorem decodePair_eq_ok {raw pair : Bytes × Bytes} :
    decodePair raw = .ok pair ↔
      decodeFormComponent raw.1 = .ok pair.1 ∧ decodeFormComponent raw.2 = .ok pair.2 := by
  unfold decodePair
  cases decodeFormComponent raw.1 with
  | error e => simp
  | ok key =>
    cases decodeFormComponent raw.2 with
    | error e => simp
    | ok value => simp [Prod.ext_iff]

theorem decodeBytesFrom_length {pos : ℕ} {input out : Bytes}
    (h : decodeBytesFrom pos input = .ok out) : out.length ≤ input.length := by
  fun_induction decodeBytesFrom pos input generalizing out with
  | case1 pos => cases h; exact le_rfl
  | case2 => cases h
  | case3 => cases h
  | case4 pos hi lo rest hiV hhi loV hlo ih =>
    cases hrest : decodeBytesFrom (pos + 3) rest with
    | error e => rw [hrest] at h; cases h
    | ok out' =>
      rw [hrest] at h
      cases h
      have := ih hrest
      simp only [List.length_cons]
      omega
  | case5 => cases h
  | case6 pos b rest hb ih =>
    cases hrest : decodeBytesFrom (pos + 1) rest with
    | error e => rw [hrest] at h; cases h
    | ok out' =>
      rw [hrest] at h
      cases h
      exact Nat.succ_le_succ (ih hrest)

theorem decodeFormComponent_length {component out : Bytes}
    (h : decodeFormComponent component = .ok out) : out.length ≤ component.length := by
  rw [decodeFormComponent, decodeStr] at h
  cases hbytes : decodeBytes (component.map fun b => if b = 43 then 32 else b) with
  | error e => rw [hbytes] at h; cases h
  | ok bytes =>
    simp only [hbytes] at h
    split_ifs at h with htext
    cases h
    have hlength := decodeBytesFrom_length hbytes
    rwa [List.length_map] at hlength

theorem not_mem_component {s : Bytes} (h : ∀ b ∈ s, isComponentByte b = true) :
    (38 : UInt8) ∉ s ∧ (61 : UInt8) ∉ s :=
  ⟨fun hmem => (component_byte (h 38 hmem)).2.1 rfl, fun hmem => (component_byte (h 61 hmem)).2.2 rfl⟩

theorem all_component {pairs encoded : List (Bytes × Bytes)}
    (h : List.Forall₂ (fun pair e => Encodes pair.1 e.1 ∧ Encodes pair.2 e.2) pairs encoded) :
    ∀ e ∈ encoded, (∀ b ∈ e.1, isComponentByte b = true) ∧ ∀ b ∈ e.2, isComponentByte b = true := by
  induction h with
  | nil => simp
  | cons he _ ih =>
    rw [List.forall_mem_cons]
    exact ⟨⟨he.1.all_component, he.2.all_component⟩, ih⟩

theorem not_mem_encodedPair {e : Bytes × Bytes} (hkey : ∀ b ∈ e.1, isComponentByte b = true)
    (hvalue : ∀ b ∈ e.2, isComponentByte b = true) : (38 : UInt8) ∉ encodedPair e := by
  rw [encodedPair, List.mem_append, List.mem_append, not_or, not_or]
  exact ⟨⟨(not_mem_component hkey).1, by decide⟩, (not_mem_component hvalue).1⟩

theorem isText_join {encoded : List (Bytes × Bytes)}
    (h : ∀ e ∈ encoded, (∀ b ∈ e.1, isComponentByte b = true) ∧ ∀ b ∈ e.2, isComponentByte b = true) :
    IsText (join (ascii "&") (encoded.map encodedPair)) := by
  apply isText_of_ascii
  intro b hb
  rcases mem_join hb with hsep | ⟨part, hpart, hb⟩
  · rw [List.mem_singleton.mp hsep]
    decide
  · obtain ⟨e, he, rfl⟩ := List.mem_map.mp hpart
    rw [encodedPair, List.mem_append, List.mem_append] at hb
    rcases hb with (hb | hb) | hb
    · exact (component_byte ((h e he).1 b hb)).1
    · rw [List.mem_singleton.mp hb]
      decide
    · exact (component_byte ((h e he).2 b hb)).1

theorem decodePair_encoded {pairs encoded : List (Bytes × Bytes)}
    (h : List.Forall₂ (fun pair e => Encodes pair.1 e.1 ∧ Encodes pair.2 e.2) pairs encoded)
    (htext : ∀ pair ∈ pairs, IsText pair.1 ∧ IsText pair.2) :
    List.Forall₂ (fun raw pair => decodePair raw = .ok pair) encoded pairs := by
  induction h with
  | nil => exact .nil
  | cons he _ ih =>
    rw [List.forall_mem_cons] at htext
    refine .cons (decodePair_eq_ok.mpr ⟨?_, ?_⟩) (ih htext.2)
    · exact he.1.decodeFormComponent htext.1.1
    · exact he.2.decodeFormComponent htext.1.2

/-- The pairs of a form survive every encoding of it, and no body gives more than the limits. -/
theorem parseFormWithLimit_encoded (limits : FormLimits) :
    (∀ (pairs : List (Bytes × Bytes)) (body : Bytes),
      (∀ pair ∈ pairs, IsText pair.1 ∧ IsText pair.2) → EncodesForm pairs body →
      body.length ≤ limits.maxBytes → pairs.length ≤ limits.maxPairs →
      parseFormWithLimit body limits = .ok pairs) ∧
    ∀ (body : Bytes) (pairs : List (Bytes × Bytes)), parseFormWithLimit body limits = .ok pairs →
      pairs.length ≤ limits.maxPairs ∧
      List.Forall₂ (fun raw pair => pair.1.length ≤ raw.1.length ∧ pair.2.length ≤ raw.2.length)
        (QueryPairs.mk body).toList pairs := by
  constructor
  · rintro pairs body htext ⟨encoded, hencoded, rfl⟩ hbytes hpairs
    have hcomponents := all_component hencoded
    have hraw : rawPairs (join (ascii "&") (encoded.map encodedPair)) = encoded := by
      apply rawPairs_join
      intro e he
      obtain ⟨hkey, hvalue⟩ := hcomponents e he
      exact ⟨not_mem_encodedPair hkey hvalue, (not_mem_component hkey).2⟩
    rw [parseFormWithLimit_eq_ok, hraw, ← hencoded.length_eq]
    exact ⟨hbytes, isText_join hcomponents, hpairs, decodePair_encoded hencoded htext⟩
  · intro body pairs h
    obtain ⟨-, -, hcount, hpairs⟩ := parseFormWithLimit_eq_ok.mp h
    rw [toList_eq_rawPairs]
    refine ⟨hpairs.length_eq ▸ hcount, hpairs.imp fun raw pair hpair => ?_⟩
    obtain ⟨hkey, hvalue⟩ := decodePair_eq_ok.mp hpair
    exact ⟨decodeFormComponent_length hkey, decodeFormComponent_length hvalue⟩

theorem parseFormWithLimit_encoded_plus :
    parseFormWithLimit (ascii "a%2bb=x+y&=") .default =
      .ok [([97, 43, 98], [120, 32, 121]), ([], [])] := by
  refine (parseFormWithLimit_encoded .default).1 _ _ ?_ ?_ (by decide) (by decide)
  · intro pair hpair
    have htext : IsText [97, 43, 98] ∧ IsText [120, 32, 121] :=
      ⟨isText_of_all (by decide), isText_of_all (by decide)⟩
    rcases List.mem_pair.mp hpair with rfl | rfl
    · exact htext
    · exact ⟨isText_nil, isText_nil⟩
  · have hkey : Encodes [97, 43, 98] [97, 37, 50, 98, 98] :=
      .unreserved rfl (.escape rfl rfl rfl (.unreserved rfl .nil))
    have hvalue : Encodes [120, 32, 121] [120, 43, 121] :=
      .unreserved rfl (.plus (.unreserved rfl .nil))
    exact ⟨[([97, 37, 50, 98, 98], [120, 43, 121]), ([], [])],
      .cons ⟨hkey, hvalue⟩ (.cons ⟨.nil, .nil⟩ .nil), rfl⟩

end Forms

end FandheBackend.HttpFormLaw
