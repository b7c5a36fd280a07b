import Mathlib.Data.Nat.Digits.Lemmas
import Mathlib.Tactic.Common

set_option autoImplicit false

/-!
# Bytes and the standard library's operations on them

Text is its UTF-8 bytes. The functions are those of the standard library that
the crates call, under its names.
-/
namespace FandheBackend

abbrev Bytes := List UInt8

instance lawfulBEqBytes : LawfulBEq Bytes := inferInstance

namespace StdBytes

def ascii (s : String) : Bytes := s.toList.map fun c => UInt8.ofNat c.toNat

def cr : UInt8 := 13
def lf : UInt8 := 10
def crlf : Bytes := [cr, lf]

def isAsciiDigit (b : UInt8) : Bool := 48 ≤ b && b ≤ 57

def isAsciiUppercase (b : UInt8) : Bool := 65 ≤ b && b ≤ 90

def isAsciiLowercase (b : UInt8) : Bool := 97 ≤ b && b ≤ 122

def isAsciiAlphanumeric (b : UInt8) : Bool :=
  isAsciiDigit b || isAsciiUppercase b || isAsciiLowercase b

def isAsciiHexdigit (b : UInt8) : Bool :=
  isAsciiDigit b || (65 ≤ b && b ≤ 70) || (97 ≤ b && b ≤ 102)

def toAsciiLowercase (b : UInt8) : UInt8 := if isAsciiUppercase b then b + 32 else b

def toAsciiUppercase (b : UInt8) : UInt8 := if isAsciiLowercase b then b - 32 else b

def isAsciiWhitespace (b : UInt8) : Bool := b == 32 || b == 9 || b == 10 || b == 12 || b == 13

def eqIgnoreAsciiCase (a b : Bytes) : Bool :=
  a.map toAsciiLowercase == b.map toAsciiLowercase

/-- The value of a hexadecimal digit; decimal digits are the first ten of them. -/
def digitValue (b : UInt8) : ℕ :=
  if isAsciiDigit b then b.toNat - 48
  else if isAsciiUppercase b then b.toNat - 55
  else b.toNat - 87

def digitsValue (base : ℕ) (s : Bytes) : ℕ := Nat.ofDigits base (s.reverse.map digitValue)

/-- `u64::from_str_radix` on a non-empty string of digits of the radix. -/
def u64FromStrRadix (s : Bytes) (radix : ℕ) : Option ℕ :=
  if digitsValue radix s < 2 ^ 64 then some (digitsValue radix s) else none

/-- `str::parse` for an unsigned type below `bound`: one leading `+` is passed over. -/
def parseUnsigned (bound : ℕ) (s : Bytes) : Option ℕ :=
  let digits := match s with
    | 43 :: rest => rest
    | _ => s
  if digits.isEmpty || !digits.all isAsciiDigit then none
  else if digitsValue 10 digits < bound then some (digitsValue 10 digits) else none

/-- `u64::saturating_add`; `saturating_sub` is subtraction on `ℕ`. -/
def u64SaturatingAdd (a b : ℕ) : ℕ := min (a + b) (2 ^ 64 - 1)

/-- `u64::checked_add`. -/
def u64CheckedAdd (a b : ℕ) : Option ℕ := if a + b < 2 ^ 64 then some (a + b) else none

/-- `str::strip_prefix`. -/
def stripPrefix (start s : Bytes) : Option Bytes :=
  if start.isPrefixOf s then some (s.drop start.length) else none

def digitByte (d : ℕ) : UInt8 := if d < 10 then UInt8.ofNat (48 + d) else UInt8.ofNat (87 + d)

/-- The lower-case numeral of `n`, as `format!` prints it. -/
def numeral (base n : ℕ) : Bytes :=
  if n = 0 then [48] else (Nat.digits base n).reverse.map digitByte

/-- `[T]::join`. -/
def join (sep : Bytes) : List Bytes → Bytes
  | [] => []
  | [part] => part
  | part :: parts => part ++ sep ++ join sep parts

theorem digitValue_digitByte {d : ℕ} (h : d < 16) : digitValue (digitByte d) = d := by
  interval_cases d <;> decide

theorem isAsciiHexdigit_digitByte {d : ℕ} (h : d < 16) :
    isAsciiHexdigit (digitByte d) = true := by
  interval_cases d <;> decide

theorem isAsciiDigit_digitByte {d : ℕ} (h : d < 10) :
    isAsciiDigit (digitByte d) = true := by
  interval_cases d <;> decide

theorem numeral_ne_nil (base n : ℕ) : numeral base n ≠ [] := by
  unfold numeral
  split_ifs with h
  · exact List.cons_ne_nil _ _
  · simpa using Nat.digits_ne_nil_iff_ne_zero.mpr h

theorem mem_numeral {base n : ℕ} (hb : 1 < base) {b : UInt8} (h : b ∈ numeral base n) :
    ∃ d < base, b = digitByte d := by
  unfold numeral at h
  split_ifs at h with hn
  · exact ⟨0, by omega, List.mem_singleton.mp h⟩
  · obtain ⟨d, hd, rfl⟩ := List.mem_map.mp h
    exact ⟨d, Nat.digits_lt_base hb (List.mem_reverse.mp hd), rfl⟩

theorem numeral_digits (n : ℕ) : ∀ b ∈ numeral 10 n, isAsciiDigit b = true := by
  intro b hb
  obtain ⟨d, hd, rfl⟩ := mem_numeral (by decide) hb
  exact isAsciiDigit_digitByte hd

theorem numeral_hexdigits {base : ℕ} (hb : 1 < base) (hb' : base ≤ 16) (n : ℕ) :
    ∀ b ∈ numeral base n, isAsciiHexdigit b = true := by
  intro b hmem
  obtain ⟨d, hd, rfl⟩ := mem_numeral hb hmem
  exact isAsciiHexdigit_digitByte (hd.trans_le hb')

theorem digitsValue_numeral {base : ℕ} (hb : 1 < base) (hb' : base ≤ 16) (n : ℕ) :
    digitsValue base (numeral base n) = n := by
  unfold numeral digitsValue
  split_ifs with hn
  · subst hn
    rfl
  · rw [← List.map_reverse, List.reverse_reverse, List.map_map]
    have hid : (Nat.digits base n).map (digitValue ∘ digitByte) = Nat.digits base n := by
      conv_rhs => rw [← List.map_id (Nat.digits base n)]
      apply List.map_congr_left
      intro d hd
      exact digitValue_digitByte ((Nat.digits_lt_base hb hd).trans_le hb')
    rw [hid, Nat.ofDigits_digits]

theorem digitsValue_cons (base : ℕ) (d : UInt8) (ds : Bytes) :
    digitsValue base (d :: ds) = digitsValue base ds + base ^ ds.length * digitValue d := by
  rw [digitsValue, List.reverse_cons, List.map_append, Nat.ofDigits_append, List.length_map,
    List.length_reverse, List.map_singleton, Nat.ofDigits_singleton]
  rfl

/-- There are only 256 bytes to look at. -/
theorem forall_byte {p : UInt8 → Prop} (h : ∀ n : Fin 256, p (.ofFin n)) (b : UInt8) : p b :=
  h b.toFin

theorem digitValue_lt {d : UInt8} (h : isAsciiDigit d = true) : digitValue d < 10 := by
  revert d
  apply forall_byte
  decide +kernel

theorem digitsValue_lt {ds : Bytes} (h : ∀ d ∈ ds, isAsciiDigit d = true) :
    digitsValue 10 ds < 10 ^ ds.length := by
  induction ds with
  | nil => exact Nat.one_pos
  | cons d ds ih =>
    rw [List.forall_mem_cons] at h
    have hd := digitValue_lt h.1
    have hds := ih h.2
    rw [digitsValue_cons, List.length_cons, pow_succ]
    have hmul : 10 ^ ds.length * digitValue d ≤ 10 ^ ds.length * 9 := Nat.mul_le_mul_left _ (by omega)
    omega

theorem numeral_length_le {base n k : ℕ} (hb : 1 < base) (h : n < base ^ k) (hk : 0 < k) :
    (numeral base n).length ≤ k := by
  unfold numeral
  split_ifs with hn
  · exact hk
  · rw [List.length_map, List.length_reverse]
    exact (Nat.digits_length_le_iff hb n).mpr h

theorem digitByte_ne_zero {d : ℕ} (hpos : 0 < d) (h : d < 16) : digitByte d ≠ 48 := by
  interval_cases d <;> decide

theorem numeral_head_ne_zero {base n : ℕ} (hb : 1 < base) (hb' : base ≤ 16) (hn : 0 < n) :
    (numeral base n).head? ≠ some 48 := by
  have hne : Nat.digits base n ≠ [] := Nat.digits_ne_nil_iff_ne_zero.mpr (by omega)
  have hlast := Nat.getLast_digit_ne_zero base (show n ≠ 0 by omega)
  have hlt := Nat.digits_lt_base hb (List.getLast_mem hne)
  rw [numeral, if_neg (by omega), List.head?_map, List.head?_reverse,
    List.getLast?_eq_some_getLast hne, Option.map_some, ne_eq, Option.some.injEq]
  exact digitByte_ne_zero (Nat.pos_of_ne_zero hlast) (by omega)

theorem numeral_injective {base m n : ℕ} (hb : 1 < base) (hb' : base ≤ 16)
    (h : numeral base m = numeral base n) : m = n := by
  rw [← digitsValue_numeral hb hb' m, h, digitsValue_numeral hb hb' n]

theorem digitByte_digitValue {b : UInt8} (h : isAsciiDigit b = true) :
    digitByte (digitValue b) = b ∧ digitValue b < 10 := by
  unfold isAsciiDigit at h
  rw [Bool.and_eq_true, decide_eq_true_eq, decide_eq_true_eq, UInt8.le_iff_toNat_le,
    UInt8.le_iff_toNat_le] at h
  obtain ⟨hlo, hhi⟩ : 48 ≤ b.toNat ∧ b.toNat ≤ 57 := h
  have hvalue : digitValue b = b.toNat - 48 := by
    rw [digitValue, if_pos]
    unfold isAsciiDigit
    rw [Bool.and_eq_true, decide_eq_true_eq, decide_eq_true_eq, UInt8.le_iff_toNat_le,
      UInt8.le_iff_toNat_le]
    exact ⟨hlo, hhi⟩
  refine ⟨?_, by omega⟩
  rw [digitByte, hvalue, if_pos (by omega), show 48 + (b.toNat - 48) = b.toNat by omega]
  exact UInt8.ofNat_toNat

theorem numeral_digitsValue {q : Bytes} (hq : ∀ b ∈ q, isAsciiDigit b = true) (hne : q ≠ [])
    (hhead : q.head? ≠ some 48) : numeral 10 (digitsValue 10 q) = q := by
  have hlast : ∀ h : q.reverse.map digitValue ≠ [],
      (q.reverse.map digitValue).getLast h ≠ 0 := by
    intro h hzero
    rw [List.getLast_map, List.getLast_reverse] at hzero
    obtain ⟨hback, -⟩ := digitByte_digitValue (hq _ (List.head_mem hne))
    rw [hzero] at hback
    exact hhead (by rw [List.head?_eq_some_head hne, ← hback]; rfl)
  have hsmall : ∀ d ∈ q.reverse.map digitValue, d < 10 := by
    intro d hd
    obtain ⟨b, hb, rfl⟩ := List.mem_map.mp hd
    exact (digitByte_digitValue (hq b (List.mem_reverse.mp hb))).2
  have hdigits := Nat.digits_ofDigits 10 (by decide) _ hsmall hlast
  have hpos : digitsValue 10 q ≠ 0 := by
    intro hzero
    rw [digitsValue] at hzero
    rw [hzero, Nat.digits_zero, eq_comm, List.map_eq_nil_iff, List.reverse_eq_nil_iff] at hdigits
    exact hne hdigits
  rw [numeral, if_neg hpos, digitsValue, hdigits, ← List.map_reverse, List.reverse_reverse,
    List.map_map]
  conv_rhs => rw [← List.map_id q]
  exact List.map_congr_left fun b hb => (digitByte_digitValue (hq b hb)).1

theorem parseUnsigned_of_digits {bound : ℕ} {s : Bytes} (hne : s ≠ [])
    (hdigits : ∀ d ∈ s, isAsciiDigit d = true) :
    parseUnsigned bound s =
      if digitsValue 10 s < bound then some (digitsValue 10 s) else none := by
  have hall : s.all isAsciiDigit = true := List.all_eq_true.mpr hdigits
  have hplus : ∀ rest, s ≠ 43 :: rest := by
    rintro rest rfl
    exact absurd (hdigits 43 List.mem_cons_self) (by decide)
  unfold parseUnsigned
  split
  · exact absurd rfl (hplus _)
  · simp [hall, hne]

theorem stripPrefix_eq_some_iff {start s rest : Bytes} :
    stripPrefix start s = some rest ↔ s = start ++ rest := by
  unfold stripPrefix
  constructor
  · intro h
    split_ifs at h with hstart
    obtain ⟨tail, rfl⟩ := List.isPrefixOf_iff_prefix.mp hstart
    rw [List.drop_left] at h
    rw [Option.some.inj h]
  · rintro rfl
    rw [if_pos (List.isPrefixOf_iff_prefix.mpr (List.prefix_append start rest)), List.drop_left]

theorem stripPrefix_eq_none_iff {start s : Bytes} : stripPrefix start s = none ↔ ¬ start <+: s := by
  rw [stripPrefix, ite_eq_right_iff, ← List.isPrefixOf_iff_prefix]
  simp

theorem mem_join {sep : Bytes} {parts : List Bytes} {b : UInt8} (h : b ∈ join sep parts) :
    b ∈ sep ∨ ∃ part ∈ parts, b ∈ part := by
  induction parts with
  | nil => cases h
  | cons part parts ih =>
    cases parts with
    | nil => exact .inr ⟨part, List.mem_cons_self, h⟩
    | cons next parts =>
      simp only [join, List.mem_append] at h
      obtain (hpart | hsep) | hrest := h
      · exact .inr ⟨part, List.mem_cons_self, hpart⟩
      · exact .inl hsep
      · obtain hsep | ⟨q, hq, hb⟩ := ih hrest
        · exact .inl hsep
        · exact .inr ⟨q, List.mem_cons_of_mem part hq, hb⟩

theorem not_mem_splitOn {a : UInt8} {s : Bytes} : ∀ piece ∈ s.splitOn a, a ∉ piece := by
  induction s with
  | nil => simp
  | cons b s ih =>
    rw [List.splitOn_cons_eq_if_modifyHead]
    by_cases hb : b = a
    · rw [if_pos (beq_iff_eq.mpr hb)]
      intro piece hpiece
      rcases List.mem_cons.mp hpiece with rfl | hpiece
      · exact List.not_mem_nil
      · exact ih piece hpiece
    · rw [if_neg (mt beq_iff_eq.mp hb)]
      cases hsplit : s.splitOn a with
      | nil => simp
      | cons first rest =>
        rw [hsplit] at ih
        intro piece hpiece
        rcases List.mem_cons.mp hpiece with rfl | hpiece
        · simpa [Ne.symm hb] using ih first List.mem_cons_self
        · exact ih piece (List.mem_cons_of_mem _ hpiece)

end StdBytes

end FandheBackend
