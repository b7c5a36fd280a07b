import FandheBackend.HttpBodyLength
import FandheBackend.HttpFormLaw
import FandheBackend.PluginCsrf

set_option autoImplicit false

namespace FandheBackend.PluginCsrfOrigin
open StdBytes ExceptChecks HttpRequestHead HttpForm HttpFormLaw HttpBodyLength CoreGates Ipv6Text
  PluginCsrf

inductive Scheme where
  | http
  | https
  deriving DecidableEq, Repr

namespace Scheme

def text : Scheme → Bytes
  | http => ascii "http"
  | https => ascii "https"

def defaultPort : Scheme → ℕ
  | http => 80
  | https => 443

end Scheme

inductive Host where
  | ipv4 (a b c d : UInt8)
  | ipv6 (addr : Ipv6Addr)
  | domain (labels : List Bytes) (absolute : Bool)
  deriving DecidableEq

structure Origin where
  scheme : Scheme
  host : Host
  port : Option ℕ
  deriving DecidableEq

/-- All digits, or `0x` and hexadecimal digits, of which there may be none. -/
def IsNumber (label : Bytes) : Prop :=
  (∀ b ∈ label, isAsciiDigit b = true) ∨
    ∃ digits, label = ascii "0x" ++ digits ∧ ∀ b ∈ digits, isAsciiHexdigit b = true

def HasDigit (label : Bytes) : Prop :=
  (∀ b ∈ label, isAsciiDigit b = true) ∨
    ∃ digits, label = ascii "0x" ++ digits ∧ digits ≠ [] ∧ ∀ b ∈ digits, isAsciiHexdigit b = true

def dotted (labels : List Bytes) : Bytes := [46].intercalate labels

def octetTexts (octets : List UInt8) : List Bytes := octets.map fun o => numeral 10 o.toNat

def IsLabel (label : Bytes) : Prop := label ≠ [] ∧ ∀ b ∈ label, isLabelByte b = true

inductive HostText (Number : Bytes → Prop) : Host → Bytes → Prop
  | ipv4 (a b c d : UInt8) : HostText Number (.ipv4 a b c d) (dotted (octetTexts [a, b, c, d]))
  | ipv6 {addr : Ipv6Addr} {text : Bytes} : CanonicalText addr.segments text →
      HostText Number (.ipv6 addr) (91 :: (text ++ [93]))
  | domain {labels : List Bytes} {last : Bytes} (absolute : Bool) :
      (∀ label ∈ labels, IsLabel label) → labels.getLast? = some last → ¬Number last →
      HostText Number (.domain labels absolute) (dotted labels ++ if absolute then [46] else [])

inductive PortText (defaultPort : ℕ) : Option ℕ → Bytes → Prop
  | omitted : PortText defaultPort none []
  | given {n : ℕ} : 1 ≤ n → n ≤ 65535 → n ≠ defaultPort →
      PortText defaultPort (some n) (58 :: numeral 10 n)

inductive OriginText (Number : Bytes → Prop) : Origin → Bytes → Prop
  | mk {scheme : Scheme} {host : Host} {port : Option ℕ} {hostText portText : Bytes} :
      HostText Number host hostText → PortText scheme.defaultPort port portText →
      OriginText Number ⟨scheme, host, port⟩ (scheme.text ++ ascii "://" ++ hostText ++ portText)

section
variable {TypeId : Type} {E : TypeId → Type}

/-- What the gate lets through, with the origins compared by scheme, host and port. -/
def Allowed (Number : Bytes → Prop) (gate : CsrfGate) (head : RequestHead E) : Prop :=
  head.method ∈ [ascii "GET", ascii "HEAD", ascii "OPTIONS"] ∨ head.path ∈ gate.exemptPaths ∨
  namedValues head.headers (ascii "sec-fetch-site") = [ascii "same-origin"] ∨
  namedValues head.headers (ascii "sec-fetch-site") = [ascii "none"] ∨
  namedValues head.headers (ascii "sec-fetch-site") = [] ∧
    ∃ sent, namedValues head.headers (ascii "origin") = [sent] ∧
      ∃ allowed ∈ gate.allowedOrigins, ∃ o, OriginText Number o allowed ∧ OriginText Number o sent

end

structure OriginLaw (Number : Bytes → Prop) : Prop where
  accepts : ∀ s : Bytes, s.length ≤ maxEntryLen →
    (validOrigin s = true ↔ ∃ o, OriginText Number o s)
  unique : ∀ {s : Bytes} {o o' : Origin}, OriginText Number o s → OriginText Number o' s → o = o'
  check : ∀ {TypeId : Type} {E : TypeId → Type} {b : CsrfGateBuilder} {gate : CsrfGate},
    b.build = .ok gate → ∀ head : RequestHead E,
      (gate.check head = .allow ↔ Allowed Number gate head) ∧
        (gate.check head = .allow ∨ gate.check head = deny)

section Numbers

theorem parseUnsigned_numeral {bound n : ℕ} (h : n < bound) :
    parseUnsigned bound (numeral 10 n) = some n := by
  rw [parseUnsigned_of_digits (numeral_ne_nil 10 n) (numeral_digits n),
    digitsValue_numeral (by decide) (by decide), if_pos h]

theorem parseUnsigned_any {bound most : ℕ} {s : Bytes} (hne : s ≠ [])
    (hdigits : ∀ d ∈ s, isAsciiDigit d = true)
    (h : (parseUnsigned bound s).any (· ≤ most) = true) : digitsValue 10 s ≤ most := by
  rw [parseUnsigned_of_digits hne hdigits] at h
  split_ifs at h with hlt
  · exact of_decide_eq_true h
  · cases h

theorem isIpv4Part_numeral (o : UInt8) : isIpv4Part (numeral 10 o.toNat) = true := by
  have hall : ∀ n : Fin 256, isIpv4Part (numeral 10 n.val) = true := by decide +kernel
  exact hall o.toFin

theorem isIpv4Part_iff {part : Bytes} :
    isIpv4Part part = true ↔ ∃ o : UInt8, part = numeral 10 o.toNat := by
  constructor
  · intro h
    simp only [isIpv4Part, Bool.and_eq_true, Bool.not_eq_true', List.isEmpty_eq_false_iff,
      List.all_eq_true, Bool.or_eq_true, beq_iff_eq, bne_iff_ne] at h
    obtain ⟨⟨⟨⟨hne, -⟩, hdigits⟩, hzero⟩, hvalue⟩ := h
    have hle : digitsValue 10 part ≤ 255 := parseUnsigned_any hne hdigits hvalue
    have ho : (UInt8.ofNat (digitsValue 10 part)).toNat = digitsValue 10 part := by
      rw [UInt8.toNat_ofNat', Nat.mod_eq_of_lt (by omega)]
    refine ⟨UInt8.ofNat (digitsValue 10 part), ?_⟩
    rw [ho]
    rcases hzero with rfl | hhead
    · decide
    · exact (numeral_digitsValue hdigits hne hhead).symm
  · rintro ⟨o, rfl⟩
    exact isIpv4Part_numeral o

theorem validPort_iff {p : Bytes} {defaultPort : ℕ} :
    validPort p (numeral 10 defaultPort) = true ↔
      ∃ n, 1 ≤ n ∧ n ≤ 65535 ∧ n ≠ defaultPort ∧ p = numeral 10 n := by
  constructor
  · intro h
    unfold validPort at h
    split_ifs at h with hrefused
    simp only [Bool.or_eq_true, List.isEmpty_iff, decide_eq_true_eq, beq_iff_eq, not_or] at hrefused
    obtain ⟨⟨⟨hne, -⟩, hhead⟩, hdefault⟩ := hrefused
    rw [Bool.and_eq_true, List.all_eq_true] at h
    have hnumeral := numeral_digitsValue h.1 hne hhead
    refine ⟨digitsValue 10 p, ?_, parseUnsigned_any hne h.1 h.2, ?_, hnumeral.symm⟩
    · by_contra hzero
      rw [show digitsValue 10 p = 0 by omega] at hnumeral
      exact hhead (hnumeral ▸ rfl)
    · rintro rfl
      exact hdefault hnumeral.symm
  · rintro ⟨n, hpos, hle, hne, rfl⟩
    have hlen : (numeral 10 n).length ≤ 5 :=
      numeral_length_le (by decide) (show n < 10 ^ 5 by omega) (by decide)
    have hhead := @numeral_head_ne_zero 10 n (by decide) (by decide) hpos
    have hother : numeral 10 n ≠ numeral 10 defaultPort :=
      fun heq => hne (numeral_injective (by decide) (by decide) heq)
    have hrefused : ¬((numeral 10 n).isEmpty || decide ((numeral 10 n).length > 5) ||
        (numeral 10 n).head? == some 48 || numeral 10 n == numeral 10 defaultPort) = true := by
      simp [numeral_ne_nil, hlen, hhead, hother]
    rw [validPort, if_neg hrefused, Bool.and_eq_true, List.all_eq_true,
      parseUnsigned_numeral (show n < 2 ^ 32 by omega)]
    exact ⟨numeral_digits n, decide_eq_true hle⟩

end Numbers

section Labels

theorem IsLabel.no_dot {label : Bytes} (h : IsLabel label) : (46 : UInt8) ∉ label :=
  fun hmem => absurd (h.2 46 hmem) (by decide)

theorem octetTexts_labels (octets : List UInt8) : ∀ label ∈ octetTexts octets, IsLabel label := by
  intro label hlabel
  obtain ⟨o, -, rfl⟩ := List.mem_map.mp hlabel
  refine ⟨numeral_ne_nil 10 _, fun b hb => ?_⟩
  simp [isLabelByte, numeral_digits _ b hb]

theorem octetTexts_injective {octets octets' : List UInt8}
    (h : octetTexts octets = octetTexts octets') : octets = octets' :=
  List.map_injective_iff.mpr
    (fun _ _ heq => UInt8.toNat_inj.mp (numeral_injective (by decide) (by decide) heq)) h

theorem dotted_splitOn (s : Bytes) : dotted (s.splitOn 46) = s := List.intercalate_splitOn 46

theorem splitOn_dotted {labels : List Bytes} (hne : labels ≠ [])
    (h : ∀ label ∈ labels, IsLabel label) : (dotted labels).splitOn 46 = labels :=
  List.splitOn_intercalate 46 (fun label hlabel => (h label hlabel).no_dot) hne

theorem ne_nil_of_last {labels : List Bytes} {last : Bytes} (h : labels.getLast? = some last) :
    labels ≠ [] := by
  rintro rfl
  cases h

theorem splitOn_snoc (s : Bytes) : (s ++ [46]).splitOn 46 = s.splitOn 46 ++ [[]] := by
  rw [List.splitOn_append_cons_self, List.splitOn_nil]

theorem dotted_ne_snoc {labels : List Bytes} (hne : labels ≠ [])
    (h : ∀ label ∈ labels, IsLabel label) (s : Bytes) : dotted labels ≠ s ++ [46] := by
  intro heq
  have hsplit : labels = s.splitOn 46 ++ [[]] := by
    rw [← splitOn_snoc, ← heq, splitOn_dotted hne h]
  have hmem : [] ∈ labels := hsplit ▸ List.mem_append_right _ (List.mem_singleton_self [])
  exact (h [] hmem).1 rfl

theorem dotted_ne_nil {labels : List Bytes} (hne : labels ≠ [])
    (h : ∀ label ∈ labels, IsLabel label) : dotted labels ≠ [] := by
  intro heq
  have hsplit := splitOn_dotted hne h
  rw [heq, List.splitOn_nil] at hsplit
  exact (h [] (hsplit ▸ List.mem_singleton_self [])).1 rfl

theorem dotted_bytes {labels : List Bytes} (h : ∀ label ∈ labels, IsLabel label) :
    ∀ b ∈ dotted labels, isLabelByte b = true ∨ b = 46 := by
  intro b hb
  induction labels with
  | nil => cases hb
  | cons label labels ih =>
    rw [List.forall_mem_cons] at h
    cases labels with
    | nil =>
      rw [dotted, List.intercalate_singleton] at hb
      exact .inl (h.1.2 b hb)
    | cons next labels =>
      rw [dotted, List.intercalate_cons_cons, List.mem_append, List.mem_append] at hb
      rcases hb with (hb | hb) | hb
      · exact .inl (h.1.2 b hb)
      · exact .inr (List.mem_singleton.mp hb)
      · exact ih h.2 hb

end Labels

section Hosts

theorem canonicalIpv4Loop_iff {n : ℕ} {parts : List Bytes} :
    canonicalIpv4Loop n parts = true ↔
      (∀ part ∈ parts, isIpv4Part part = true) ∧ n + parts.length = 4 := by
  induction parts generalizing n with
  | nil => simp [canonicalIpv4Loop]
  | cons part parts ih =>
    rw [canonicalIpv4Loop, List.forall_mem_cons, List.length_cons]
    cases hpart : isIpv4Part part with
    | false => simp
    | true =>
      rw [Bool.not_true, if_neg Bool.false_ne_true, ih, Nat.add_right_comm, Nat.add_assoc,
        and_iff_right (rfl : true = true)]

theorem canonicalIpv4_iff {h : Bytes} :
    canonicalIpv4 h = true ↔ ∃ a b c d, h = dotted (octetTexts [a, b, c, d]) := by
  rw [canonicalIpv4, canonicalIpv4Loop_iff, Nat.zero_add]
  constructor
  · rintro ⟨hparts, hlen⟩
    obtain ⟨w, x, y, z, hsplit⟩ := List.length_eq_four.mp hlen
    rw [← dotted_splitOn h, hsplit]
    rw [hsplit] at hparts
    obtain ⟨a, rfl⟩ := isIpv4Part_iff.mp (hparts w (by simp))
    obtain ⟨b, rfl⟩ := isIpv4Part_iff.mp (hparts x (by simp))
    obtain ⟨c, rfl⟩ := isIpv4Part_iff.mp (hparts y (by simp))
    obtain ⟨d, rfl⟩ := isIpv4Part_iff.mp (hparts z (by simp))
    exact ⟨a, b, c, d, rfl⟩
  · rintro ⟨a, b, c, d, rfl⟩
    rw [splitOn_dotted (by exact List.cons_ne_nil _ _) (octetTexts_labels _)]
    refine ⟨fun part hpart => ?_, rfl⟩
    obtain ⟨o, -, rfl⟩ := List.mem_map.mp hpart
    exact isIpv4Part_numeral o

theorem endsInNumber_iff {h : Bytes} :
    endsInNumber h = true ↔ lastLabel h ≠ [] ∧ IsNumber (lastLabel h) := by
  unfold endsInNumber
  generalize lastLabel h = last
  by_cases hempty : last = []
  · simp [hempty]
  · have hhex : (stripPrefix (ascii "0x") last).any (fun r => r.all isAsciiHexdigit) = true ↔
        ∃ digits, last = ascii "0x" ++ digits ∧ ∀ b ∈ digits, isAsciiHexdigit b = true := by
      rw [Option.any_eq_true]
      simp only [stripPrefix_eq_some_iff, List.all_eq_true]
    by_cases hdigits : last.all isAsciiDigit = true
    · rw [if_neg (by simpa using hempty), if_pos hdigits]
      exact iff_of_true rfl ⟨hempty, .inl (List.all_eq_true.mp hdigits)⟩
    · have hnot : ¬∀ b ∈ last, isAsciiDigit b = true := mt List.all_eq_true.mpr hdigits
      rw [if_neg (by simpa using hempty), if_neg hdigits, hhex, IsNumber, or_iff_right hnot]
      exact (and_iff_right hempty).symm

theorem lastLabel_dotted {labels : List Bytes} {last : Bytes}
    (h : ∀ label ∈ labels, IsLabel label) (hlast : labels.getLast? = some last) :
    lastLabel (dotted labels) = last := by
  rw [lastLabel, splitOn_dotted (ne_nil_of_last hlast) h, hlast, Option.getD_some]

theorem endsInNumber_dotted {labels : List Bytes} {last : Bytes}
    (h : ∀ label ∈ labels, IsLabel label) (hlast : labels.getLast? = some last) :
    endsInNumber (dotted labels) = true ↔ IsNumber last := by
  rw [endsInNumber_iff, lastLabel_dotted h hlast]
  exact and_iff_right (h last (List.mem_of_getLast? hlast)).1

def areLabels (h : Bytes) : Bool :=
  !h.isEmpty && (h.splitOn 46).all fun label => !label.isEmpty && label.all isLabelByte

theorem areLabels_iff {h : Bytes} :
    areLabels h = true ↔ ∀ label ∈ h.splitOn 46, IsLabel label := by
  have hlabels : ((h.splitOn 46).all fun label => !label.isEmpty && label.all isLabelByte) = true ↔
      ∀ label ∈ h.splitOn 46, IsLabel label := by
    simp only [List.all_eq_true, Bool.and_eq_true, Bool.not_eq_true', List.isEmpty_eq_false_iff,
      IsLabel]
  rw [areLabels, Bool.and_eq_true, hlabels, and_iff_right_iff_imp]
  intro hall
  by_contra hempty
  obtain rfl : h = [] := by simpa using hempty
  exact (hall [] (by rw [List.splitOn_nil]; exact List.mem_singleton_self [])).1 rfl

theorem validHostname_snoc (h : Bytes) :
    validHostname (h ++ [46]) = (!endsInNumber h && areLabels h) := by
  have hdot : (h ++ [46]).getLast? = some 46 := List.getLast?_concat
  simp only [validHostname, hdot, beq_self_eq_true, if_true, List.dropLast_concat, areLabels,
    Bool.not_true, Bool.false_and]
  cases endsInNumber h <;> rfl

theorem validHostname_of_ne {h : Bytes} (hdot : h.getLast? ≠ some 46) :
    validHostname h = if endsInNumber h then canonicalIpv4 h else areLabels h := by
  have hfalse : (h.getLast? == some 46) = false := beq_false_of_ne hdot
  simp only [validHostname, hfalse, Bool.false_eq_true, if_false, areLabels, Bool.not_false,
    Bool.true_and]

theorem getLast?_dotted {labels : List Bytes} (hne : labels ≠ [])
    (h : ∀ label ∈ labels, IsLabel label) : (dotted labels).getLast? ≠ some 46 := by
  intro hdot
  obtain ⟨s, hs⟩ := List.getLast?_eq_some_iff.mp hdot
  exact dotted_ne_snoc hne h s hs

def Host.Bare (host : Host) : Prop := ∀ addr, host ≠ .ipv6 addr

theorem Host.Bare.ipv4 (a b c d : UInt8) : (Host.ipv4 a b c d).Bare := fun _ h => nomatch h

theorem Host.Bare.domain (labels : List Bytes) (absolute : Bool) :
    (Host.domain labels absolute).Bare :=
  fun _ h => nomatch h

theorem HostText.bytes {Number : Bytes → Prop} {host : Host} {text : Bytes}
    (h : HostText Number host text) (hbare : host.Bare) :
    ∀ b ∈ text, isLabelByte b = true ∨ b = 46 := by
  cases h with
  | ipv4 a b c d => exact dotted_bytes (octetTexts_labels _)
  | ipv6 => exact absurd rfl (hbare _)
  | domain absolute hlabels =>
    intro b hb
    rcases List.mem_append.mp hb with hb | hb
    · exact dotted_bytes hlabels b hb
    · cases absolute with
      | false => cases hb
      | true => exact .inr (List.mem_singleton.mp hb)

theorem HostText.ne_nil {Number : Bytes → Prop} {host : Host} {text : Bytes}
    (h : HostText Number host text) (hbare : host.Bare) : text ≠ [] := by
  cases h with
  | ipv4 a b c d => exact dotted_ne_nil (by exact List.cons_ne_nil _ _) (octetTexts_labels _)
  | ipv6 => exact absurd rfl (hbare _)
  | @domain labels last absolute hlabels hlast =>
    have hne := ne_nil_of_last hlast
    exact List.append_ne_nil_of_left_ne_nil (dotted_ne_nil hne hlabels) _

theorem hostText_domain {h : Bytes} (absolute : Bool) (hlabels : areLabels h = true)
    (hnumber : endsInNumber h ≠ true) :
    HostText IsNumber (.domain (h.splitOn 46) absolute) (h ++ if absolute then [46] else []) := by
  rw [areLabels_iff] at hlabels
  have hlast := List.getLast?_eq_some_getLast (List.splitOn_ne_nil 46 h)
  have hends := endsInNumber_dotted hlabels hlast
  rw [dotted_splitOn] at hends
  have htext := HostText.domain absolute hlabels hlast (mt hends.mpr hnumber)
  rwa [dotted_splitOn] at htext

theorem validHostname_iff {h : Bytes} :
    validHostname h = true ↔ ∃ host : Host, host.Bare ∧ HostText IsNumber host h := by
  constructor
  · intro hvalid
    by_cases hdot : h.getLast? = some 46
    · obtain ⟨x, rfl⟩ := List.getLast?_eq_some_iff.mp hdot
      rw [validHostname_snoc, Bool.and_eq_true, Bool.not_eq_true'] at hvalid
      exact ⟨_, .domain _ _, hostText_domain true hvalid.2 (by simp [hvalid.1])⟩
    · rw [validHostname_of_ne hdot] at hvalid
      split_ifs at hvalid with hnumber
      · obtain ⟨a, b, c, d, rfl⟩ := canonicalIpv4_iff.mp hvalid
        exact ⟨_, .ipv4 a b c d, .ipv4 a b c d⟩
      · have htext := hostText_domain false hvalid hnumber
        rw [if_neg Bool.false_ne_true, List.append_nil] at htext
        exact ⟨_, .domain _ _, htext⟩
  · rintro ⟨host, hbare, htext⟩
    cases htext with
    | ipv4 a b c d =>
      have hlabels := octetTexts_labels [a, b, c, d]
      have hnumber : endsInNumber (dotted (octetTexts [a, b, c, d])) = true :=
        (endsInNumber_dotted hlabels rfl).mpr (.inl (numeral_digits _))
      rw [validHostname_of_ne (getLast?_dotted (by exact List.cons_ne_nil _ _) hlabels),
        if_pos hnumber, canonicalIpv4_iff]
      exact ⟨a, b, c, d, rfl⟩
    | ipv6 => exact absurd rfl (hbare _)
    | @domain labels last absolute hlabels hlast hnumber =>
      have hne := ne_nil_of_last hlast
      have hends : endsInNumber (dotted labels) ≠ true :=
        mt (endsInNumber_dotted hlabels hlast).mp hnumber
      have hare : areLabels (dotted labels) = true := by
        rwa [areLabels_iff, splitOn_dotted hne hlabels]
      cases absolute with
      | false =>
        rw [if_neg Bool.false_ne_true, List.append_nil,
          validHostname_of_ne (getLast?_dotted hne hlabels), if_neg hends, hare]
      | true => rw [if_pos rfl, validHostname_snoc, hare, Bool.eq_false_of_not_eq_true hends]; rfl

theorem validIpv6Literal_iff {inner : Bytes} :
    validIpv6Literal inner = true ↔ ∃ addr : Ipv6Addr, CanonicalText addr.segments inner := by
  unfold validIpv6Literal
  constructor
  · intro h
    split_ifs at h
    split at h
    · cases h
    · rename_i addr _
      refine ⟨addr, ?_⟩
      rw [beq_iff_eq] at h
      split at h
      · rename_i hmapped
        exact h ▸ canonicalText_mapped hmapped
      · rename_i hmapped
        exact h ▸ canonicalText_display hmapped
  · rintro ⟨addr, htext⟩
    have hdot : inner.contains 46 ≠ true := by simpa using htext.no_dot
    rw [if_neg hdot, fromStr_canonical htext]
    simp only [beq_iff_eq]
    split
    · rename_i hmapped
      exact (canonicalText_mapped hmapped).unique htext
    · rename_i hmapped
      exact (canonicalText_display hmapped).unique htext

theorem HostText.eq_ipv4 {host : Host} {a b c d : UInt8}
    (h : HostText IsNumber host (dotted (octetTexts [a, b, c, d]))) : host = .ipv4 a b c d := by
  have hlabels := octetTexts_labels [a, b, c, d]
  have hne : octetTexts [a, b, c, d] ≠ [] := by exact List.cons_ne_nil _ _
  generalize htext : dotted (octetTexts [a, b, c, d]) = text at h
  have hbytes : ∀ b ∈ text, isLabelByte b = true ∨ b = 46 := htext ▸ dotted_bytes hlabels
  cases h with
  | ipv4 =>
    have hsplit := congrArg (List.splitOn 46) htext
    rw [splitOn_dotted hne hlabels,
      splitOn_dotted (by exact List.cons_ne_nil _ _) (octetTexts_labels _)] at hsplit
    obtain ⟨rfl, rfl, rfl, rfl⟩ := by simpa using octetTexts_injective hsplit
    rfl
  | ipv6 => exact absurd (hbytes 91 List.mem_cons_self) (by decide)
  | @domain labels last absolute hlabels' hlast hnumber =>
    cases absolute with
    | false =>
      rw [if_neg Bool.false_ne_true, List.append_nil] at htext
      have hlast' := lastLabel_dotted hlabels' hlast
      rw [← htext, lastLabel_dotted hlabels rfl] at hlast'
      exact absurd (.inl (hlast' ▸ numeral_digits _)) hnumber
    | true => exact absurd htext (dotted_ne_snoc hne hlabels _)

theorem HostText.eq_ipv6 {host : Host} {addr : Ipv6Addr} {text : Bytes}
    (htext : CanonicalText addr.segments text) (h : HostText IsNumber host (91 :: (text ++ [93]))) :
    host = .ipv6 addr := by
  by_cases hbare : host.Bare
  · exact absurd (h.bytes hbare 91 List.mem_cons_self) (by decide)
  · obtain ⟨addr', rfl⟩ : ∃ addr', host = .ipv6 addr' := by simpa [Host.Bare] using hbare
    generalize hbracket : 91 :: (text ++ [93]) = s at h
    cases h with
    | ipv6 htext' =>
      obtain rfl := List.append_cancel_right (List.cons.inj hbracket).2
      rw [canonicalText_injective htext htext']

theorem HostText.unique {host host' : Host} {text : Bytes} (h : HostText IsNumber host text)
    (h' : HostText IsNumber host' text) : host = host' := by
  cases h with
  | ipv4 => exact h'.eq_ipv4.symm
  | ipv6 htext => exact (h'.eq_ipv6 htext).symm
  | @domain labels last absolute hlabels hlast hnumber =>
    have h := HostText.domain absolute hlabels hlast hnumber
    generalize htext : (dotted labels ++ if absolute then [46] else []) = s at h h'
    have hne := ne_nil_of_last hlast
    cases h' with
    | ipv4 => exact h.eq_ipv4
    | ipv6 hcanonical => exact h.eq_ipv6 hcanonical
    | @domain labels' last' absolute' hlabels' hlast' =>
      have hne' := ne_nil_of_last hlast'
      have hsame : absolute = absolute' := by
        cases absolute <;> cases absolute'
        · rfl
        · rw [if_neg Bool.false_ne_true, List.append_nil] at htext
          exact absurd htext (dotted_ne_snoc hne hlabels _)
        · rw [if_neg Bool.false_ne_true, List.append_nil] at htext
          exact absurd htext.symm (dotted_ne_snoc hne' hlabels' _)
        · rfl
      subst hsame
      have hdotted : dotted labels = dotted labels' := List.append_cancel_right htext
      have hsplit := congrArg (List.splitOn 46) hdotted
      rw [splitOn_dotted hne hlabels, splitOn_dotted hne' hlabels'] at hsplit
      rw [hsplit]

end Hosts

section Origins

def portSuffix : Option Bytes → Bytes
  | none => []
  | some p => 58 :: p

theorem canonicalText_no_bracket {segments : List UInt16} {text : Bytes}
    (h : CanonicalText segments text) : (93 : UInt8) ∉ text :=
  fun hmem => absurd (h.bytes 93 hmem) (by decide)

theorem portOf_bracket {after : Bytes} {port : Option Bytes} :
    portOf (91 :: after) = some port ↔
      ∃ (addr : Ipv6Addr) (inner : Bytes), CanonicalText addr.segments inner ∧
        after = inner ++ 93 :: portSuffix port := by
  rw [portOf]
  constructor
  · intro h
    split at h
    · cases h
    · rename_i inner tail hsplit
      obtain ⟨rfl, -⟩ := splitOnce_eq_some_iff.mp hsplit
      split_ifs at h with hinvalid
      obtain ⟨addr, htext⟩ := validIpv6Literal_iff.mp (by simpa using hinvalid)
      refine ⟨addr, inner, htext, ?_⟩
      split at h
      · rw [← Option.some.inj h]
        rfl
      · rw [← Option.some.inj h]
        rfl
      · cases h
  · rintro ⟨addr, inner, htext, rfl⟩
    have hvalid : validIpv6Literal inner = true := validIpv6Literal_iff.mpr ⟨addr, htext⟩
    rw [splitOnce_append (canonicalText_no_bracket htext)]
    simp only [hvalid, Bool.not_true, Bool.false_eq_true, if_false]
    cases port <;> rfl

theorem portOf_bare {rest : Bytes} {port : Option Bytes} (hrest : rest.head? ≠ some 91) :
    portOf rest = some port ↔
      ∃ host hostText, host.Bare ∧ HostText IsNumber host hostText ∧
        rest = hostText ++ portSuffix port := by
  unfold portOf
  split
  · exact absurd rfl hrest
  · constructor
    · intro h
      cases hsplit : splitOnce 58 rest with
      | none =>
        simp only [hsplit] at h
        split_ifs at h with hinvalid
        obtain ⟨host, hbare, htext⟩ := validHostname_iff.mp (by simpa using hinvalid)
        obtain rfl := Option.some.inj h
        exact ⟨host, rest, hbare, htext, (List.append_nil rest).symm⟩
      | some parts =>
        obtain ⟨hostText, p⟩ := parts
        simp only [hsplit] at h
        split_ifs at h with hinvalid
        obtain ⟨host, hbare, htext⟩ := validHostname_iff.mp (by simpa using hinvalid)
        obtain rfl := Option.some.inj h
        exact ⟨host, hostText, hbare, htext, (splitOnce_eq_some_iff.mp hsplit).1⟩
    · rintro ⟨host, hostText, hbare, htext, rfl⟩
      have hcolon : (58 : UInt8) ∉ hostText :=
        fun hmem => absurd (htext.bytes hbare 58 hmem) (by decide)
      have hvalid : validHostname hostText = true := validHostname_iff.mpr ⟨host, hbare, htext⟩
      cases port with
      | none =>
        rw [portSuffix, List.append_nil, splitOnce_none hcolon]
        simp [hvalid]
      | some p =>
        rw [portSuffix, splitOnce_append hcolon]
        simp [hvalid]

theorem portOf_eq_some_iff {rest : Bytes} {port : Option Bytes} :
    portOf rest = some port ↔
      ∃ host hostText, HostText IsNumber host hostText ∧ rest = hostText ++ portSuffix port := by
  by_cases hrest : rest.head? = some 91
  · obtain ⟨after, rfl⟩ := List.head?_eq_some_iff.mp hrest
    rw [portOf_bracket]
    constructor
    · rintro ⟨addr, inner, htext, rfl⟩
      exact ⟨.ipv6 addr, _, .ipv6 htext, by simp⟩
    · rintro ⟨host, hostText, htext, heq⟩
      by_cases hbare : host.Bare
      · obtain ⟨b, text, rfl⟩ := List.exists_cons_of_ne_nil (htext.ne_nil hbare)
        obtain rfl : 91 = b := (List.cons.inj heq).1
        exact absurd (htext.bytes hbare 91 List.mem_cons_self) (by decide)
      · obtain ⟨addr, rfl⟩ : ∃ addr, host = .ipv6 addr := by simpa [Host.Bare] using hbare
        cases htext with
        | @ipv6 _ inner htext => exact ⟨addr, inner, htext, by simpa using heq⟩
  · rw [portOf_bare hrest]
    constructor
    · rintro ⟨host, hostText, -, htext, heq⟩
      exact ⟨host, hostText, htext, heq⟩
    · rintro ⟨host, hostText, htext, rfl⟩
      refine ⟨host, hostText, ?_, htext, rfl⟩
      rintro addr rfl
      cases htext with
      | ipv6 => exact hrest rfl

theorem splitScheme_eq_some_iff {s defaultPort rest : Bytes} :
    splitScheme s = some (defaultPort, rest) ↔
      ∃ scheme : Scheme, defaultPort = numeral 10 scheme.defaultPort ∧
        s = scheme.text ++ ascii "://" ++ rest := by
  have hhttps : Scheme.https.text ++ ascii "://" = ascii "https://" := by decide
  have hhttp : Scheme.http.text ++ ascii "://" = ascii "http://" := by decide
  have hport : ascii "443" = numeral 10 443 ∧ ascii "80" = numeral 10 80 := by decide
  unfold splitScheme
  constructor
  · intro h
    split at h
    · rename_i r hstrip
      obtain ⟨rfl, rfl⟩ := Prod.ext_iff.mp (Option.some.inj h)
      refine ⟨.https, hport.1, ?_⟩
      rw [hhttps]
      exact stripPrefix_eq_some_iff.mp hstrip
    · obtain ⟨r, hstrip, hr⟩ := Option.map_eq_some_iff.mp h
      obtain ⟨rfl, rfl⟩ := Prod.ext_iff.mp hr
      refine ⟨.http, hport.2, ?_⟩
      rw [hhttp]
      exact stripPrefix_eq_some_iff.mp hstrip
  · rintro ⟨scheme, rfl, rfl⟩
    cases scheme with
    | https =>
      rw [hhttps, stripPrefix_eq_some_iff.mpr rfl]
      exact congrArg some (Prod.ext hport.1 rfl)
    | http =>
      have hnone : stripPrefix (ascii "https://") (ascii "http://" ++ rest) = none := by
        rw [stripPrefix_eq_none_iff]
        simp [ascii, List.cons_prefix_cons]
      rw [hhttp, hnone, stripPrefix_eq_some_iff.mpr rfl]
      exact congrArg some (Prod.ext hport.2 rfl)

theorem validPort_portSuffix_iff {defaultPort : ℕ} {p : Option Bytes} :
    (p.all fun p => validPort p (numeral 10 defaultPort)) = true ↔
      ∃ port, PortText defaultPort port (portSuffix p) := by
  cases p with
  | none => exact iff_of_true rfl ⟨none, .omitted⟩
  | some p =>
    rw [Option.all_some, validPort_iff]
    constructor
    · rintro ⟨n, hpos, hle, hne, rfl⟩
      exact ⟨some n, .given hpos hle hne⟩
    · rintro ⟨port, htext⟩
      generalize hsuffix : portSuffix (some p) = text at htext
      cases htext with
      | omitted => cases hsuffix
      | given hpos hle hne => exact ⟨_, hpos, hle, hne, (List.cons.inj hsuffix).2⟩

theorem PortText.suffix {defaultPort : ℕ} {port : Option ℕ} {text : Bytes}
    (h : PortText defaultPort port text) : ∃ p, text = portSuffix p := by
  cases h with
  | omitted => exact ⟨none, rfl⟩
  | given => exact ⟨some _, rfl⟩

theorem PortText.unique {defaultPort : ℕ} {port port' : Option ℕ} {text : Bytes}
    (h : PortText defaultPort port text) (h' : PortText defaultPort port' text) : port = port' := by
  cases h with
  | omitted =>
    cases h' with
    | omitted => rfl
  | @given n hpos hle hne =>
    generalize htext : 58 :: numeral 10 n = s at h'
    cases h' with
    | omitted => cases htext
    | given => rw [numeral_injective (by decide) (by decide) (List.cons.inj htext).2]

theorem validOrigin_eq_true_iff {s : Bytes} (hlen : s.length ≤ maxEntryLen) :
    validOrigin s = true ↔ ∃ defaultPort rest p, splitScheme s = some (defaultPort, rest) ∧
      portOf rest = some p ∧ (p.all fun p => validPort p defaultPort) = true := by
  by_cases hempty : s = []
  · subst hempty
    exact iff_of_false (by decide) (fun ⟨_, _, _, h, _⟩ => nomatch h)
  · have hrefused : ¬(s.isEmpty || decide (s.length > maxEntryLen)) = true := by
      simp [hempty, hlen]
    rw [validOrigin, if_neg hrefused]
    cases hscheme : splitScheme s with
    | none => simp
    | some parts =>
      obtain ⟨defaultPort, rest⟩ := parts
      cases hport : portOf rest <;> simp [hport]

theorem validOrigin_iff {s : Bytes} (hlen : s.length ≤ maxEntryLen) :
    validOrigin s = true ↔ ∃ o, OriginText IsNumber o s := by
  rw [validOrigin_eq_true_iff hlen]
  constructor
  · rintro ⟨defaultPort, rest, p, hscheme, hport, hvalid⟩
    obtain ⟨scheme, rfl, rfl⟩ := splitScheme_eq_some_iff.mp hscheme
    obtain ⟨host, hostText, hhost, rfl⟩ := portOf_eq_some_iff.mp hport
    obtain ⟨port, hportText⟩ := validPort_portSuffix_iff.mp hvalid
    refine ⟨⟨scheme, host, port⟩, ?_⟩
    rw [← List.append_assoc]
    exact .mk hhost hportText
  · rintro ⟨o, @⟨scheme, host, port, hostText, portText, hhost, hport⟩⟩
    obtain ⟨p, rfl⟩ := hport.suffix
    exact ⟨_, hostText ++ portSuffix p, p,
      splitScheme_eq_some_iff.mpr ⟨scheme, rfl, List.append_assoc _ _ _⟩,
      portOf_eq_some_iff.mpr ⟨host, hostText, hhost, rfl⟩,
      validPort_portSuffix_iff.mpr ⟨port, hport⟩⟩

theorem OriginText.unique {s : Bytes} {o o' : Origin} (h : OriginText IsNumber o s)
    (h' : OriginText IsNumber o' s) : o = o' := by
  obtain @⟨scheme, host, port, hostText, portText, hhost, hport⟩ := h
  generalize hs : scheme.text ++ ascii "://" ++ hostText ++ portText = s at h'
  obtain @⟨scheme', host', port', hostText', portText', hhost', hport'⟩ := h'
  obtain ⟨p, rfl⟩ := hport.suffix
  obtain ⟨p', rfl⟩ := hport'.suffix
  have hscheme := splitScheme_eq_some_iff.mpr ⟨scheme, rfl, List.append_assoc _ hostText (portSuffix p)⟩
  rw [hs, splitScheme_eq_some_iff.mpr ⟨scheme', rfl, List.append_assoc _ _ _⟩] at hscheme
  obtain ⟨hdefault, hrest⟩ := Prod.ext_iff.mp (Option.some.inj hscheme)
  obtain rfl : scheme' = scheme := by
    have hport := numeral_injective (by decide) (by decide) hdefault
    revert hport
    cases scheme <;> cases scheme' <;> decide
  have hcut : portOf (hostText ++ portSuffix p) = some p :=
    portOf_eq_some_iff.mpr ⟨host, hostText, hhost, rfl⟩
  have hcut' : portOf (hostText' ++ portSuffix p') = some p' :=
    portOf_eq_some_iff.mpr ⟨host', hostText', hhost', rfl⟩
  replace hrest : hostText' ++ portSuffix p' = hostText ++ portSuffix p := hrest
  rw [hrest, hcut] at hcut'
  obtain rfl := Option.some.inj hcut'
  obtain rfl := List.append_cancel_right hrest
  rw [hhost.unique hhost', hport.unique hport']

theorem OriginText.text_unique {Number : Bytes → Prop} {s s' : Bytes} {o : Origin}
    (h : OriginText Number o s) (h' : OriginText Number o s') : s = s' := by
  obtain @⟨scheme, host, port, hostText, portText, hhost, hport⟩ := h
  obtain @⟨_, _, _, hostText', portText', hhost', hport'⟩ := h'
  have hhostText : hostText = hostText' := by
    cases hhost with
    | ipv4 => cases hhost' with | ipv4 => rfl
    | ipv6 htext => cases hhost' with | ipv6 htext' => rw [htext.unique htext']
    | domain => cases hhost' with | domain => rfl
  have hportText : portText = portText' := by
    cases hport with
    | omitted => cases hport' with | omitted => rfl
    | given => cases hport' with | given => rfl
  rw [hhostText, hportText]

end Origins

section Gate
variable {TypeId : Type} {E : TypeId → Type}

theorem count_snoc (seen : List Bytes) (value : Bytes) :
    (min (min seen.length 2 + 1) 2, if min seen.length 2 = 0 then some value else seen.head?) =
      (min (seen ++ [value]).length 2, (seen ++ [value]).head?) := by
  cases seen with
  | nil => rfl
  | cons first rest =>
    refine Prod.ext ?_ ?_
    · simp only [List.length_append, List.length_cons, List.length_nil]
      omega
    · rw [if_neg (by simp)]
      rfl

theorem countHeader_eq (head : RequestHead E) (name : Bytes) :
    countHeader head name =
      (min (namedValues head.headers name).length 2, (namedValues head.headers name).head?) := by
  have hfold : ∀ (headers : List (Bytes × Bytes)) (seen : List Bytes),
      headers.foldl (fun acc h => if eqIgnoreAsciiCase h.1 name then
          (min (acc.1 + 1) 2, if acc.1 = 0 then some h.2 else acc.2) else acc)
        (min seen.length 2, seen.head?) =
      (min (seen ++ namedValues headers name).length 2,
        (seen ++ namedValues headers name).head?) := by
    intro headers
    induction headers with
    | nil =>
      intro seen
      rw [namedValues, List.filter_nil, List.map_nil, List.append_nil]
      rfl
    | cons h headers ih =>
      intro seen
      rw [List.foldl_cons]
      by_cases hname : eqIgnoreAsciiCase h.1 name = true
      · rw [if_pos hname, count_snoc, ih, namedValues_cons_of_eq headers hname, List.append_assoc,
          List.singleton_append]
      · rw [if_neg hname, ih, namedValues_cons_of_ne headers (Bool.not_eq_true _ ▸ hname)]
  exact hfold head.headers []

theorem check_eq (gate : CsrfGate) (head : RequestHead E) :
    (gate.check head = .allow ∨ gate.check head = deny) ∧
      (gate.check head = .allow ↔
        head.method ∈ [ascii "GET", ascii "HEAD", ascii "OPTIONS"] ∨
        head.path ∈ gate.exemptPaths ∨
        namedValues head.headers (ascii "sec-fetch-site") = [ascii "same-origin"] ∨
        namedValues head.headers (ascii "sec-fetch-site") = [ascii "none"] ∨
        namedValues head.headers (ascii "sec-fetch-site") = [] ∧
          ∃ sent, namedValues head.headers (ascii "origin") = [sent] ∧
            sent ∈ gate.allowedOrigins) := by
  by_cases hmethod : head.method ∈ [ascii "GET", ascii "HEAD", ascii "OPTIONS"]
  · rw [CsrfGate.check, if_pos (by simpa using hmethod)]
    exact ⟨.inl rfl, iff_of_true rfl (.inl hmethod)⟩
  have hexempt : (gate.exemptPaths.any (· == head.path)) = true ↔ head.path ∈ gate.exemptPaths := by
    simp
  rw [or_iff_right hmethod, CsrfGate.check, if_neg (by simpa using hmethod)]
  by_cases hpath : head.path ∈ gate.exemptPaths
  · rw [if_pos (hexempt.mpr hpath)]
    exact ⟨.inl rfl, iff_of_true rfl (.inl hpath)⟩
  rw [or_iff_right hpath, if_neg (mt hexempt.mp hpath)]
  simp only [countHeader_eq]
  generalize namedValues head.headers (ascii "sec-fetch-site") = sites
  generalize namedValues head.headers (ascii "origin") = origins
  match sites with
  | [] =>
    match origins with
    | [] => simp [deny]
    | [sent] =>
      by_cases hsent : sent ∈ gate.allowedOrigins
      · simp [hsent]
      · simp [hsent, deny]
    | sent :: next :: rest => simp [deny]
  | [site] =>
    by_cases hsite : site = ascii "same-origin" ∨ site = ascii "none"
    · simp [hsite]
    · simp [not_or.mp hsite, deny]
  | site :: next :: rest => simp [deny]

theorem build_origins {b : CsrfGateBuilder} {gate : CsrfGate} (h : b.build = .ok gate) :
    ∀ o ∈ gate.allowedOrigins, validOrigin o = true := by
  rw [CsrfGateBuilder.build, rejectIf_bind_eq_ok, rejectIf_bind_eq_ok] at h
  obtain ⟨-, -, h⟩ := h
  split at h
  · cases h
  · rename_i hvalid
    split at h
    · cases h
    · obtain rfl := Except.ok.inj h
      simpa [List.findIdx?_eq_none_iff] using hvalid

theorem validOrigin_length {s : Bytes} (h : validOrigin s = true) : s.length ≤ maxEntryLen := by
  by_contra hlong
  have hrefused : (s.isEmpty || decide (s.length > maxEntryLen)) = true := by
    simp only [Bool.or_eq_true, decide_eq_true_eq]
    exact .inr (by omega)
  rw [validOrigin, if_pos hrefused] at h
  cases h

/-- An origin is one of the gate's bytes exactly when it is one of its triples. -/
theorem mem_allowedOrigins_iff {b : CsrfGateBuilder} {gate : CsrfGate} (h : b.build = .ok gate)
    {sent : Bytes} : sent ∈ gate.allowedOrigins ↔ ∃ allowed ∈ gate.allowedOrigins,
      ∃ o, OriginText IsNumber o allowed ∧ OriginText IsNumber o sent := by
  constructor
  · intro hmem
    have hvalid := build_origins h sent hmem
    obtain ⟨o, ho⟩ := (validOrigin_iff (validOrigin_length hvalid)).mp hvalid
    exact ⟨sent, hmem, o, ho, ho⟩
  · rintro ⟨allowed, hmem, o, hallowed, hsent⟩
    exact hsent.text_unique hallowed ▸ hmem

end Gate

theorem originLaw : OriginLaw IsNumber where
  accepts _ hlen := validOrigin_iff hlen
  unique h h' := h.unique h'
  check hbuild head := by
    obtain ⟨hcases, hallow⟩ := check_eq _ head
    refine ⟨?_, hcases⟩
    rw [hallow]
    exact or_congr_right (or_congr_right (or_congr_right (or_congr_right (and_congr_right fun _ =>
      exists_congr fun sent => and_congr_right fun _ => mem_allowedOrigins_iff hbuild))))

/-- `0x` alone is no number that has a digit, and the code takes it for one. -/
theorem not_accepts_hexMark :
    (ascii "http://0x").length ≤ maxEntryLen ∧
      ¬(validOrigin (ascii "http://0x") = true ↔
        ∃ o, OriginText HasDigit o (ascii "http://0x")) := by
  refine ⟨by decide, fun h => ?_⟩
  have hhost : HostText HasDigit (.domain [ascii "0x"] false) (ascii "0x") := by
    refine @HostText.domain HasDigit [ascii "0x"] (ascii "0x") false ?_ rfl ?_
    · rw [List.forall_mem_singleton]
      exact ⟨by decide, List.all_eq_true.mp (by decide)⟩
    · rintro (hdigits | ⟨digits, heq, hne, -⟩)
      · exact absurd (hdigits 120 (by decide)) (by decide)
      · exact hne (List.append_right_eq_self.mp heq.symm)
  have htext : OriginText HasDigit ⟨.http, .domain [ascii "0x"] false, none⟩ (ascii "http://0x") :=
    .mk hhost .omitted
  exact absurd (h.mpr ⟨_, htext⟩) (by decide)

end FandheBackend.PluginCsrfOrigin
