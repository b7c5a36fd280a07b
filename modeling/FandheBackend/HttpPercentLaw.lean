import FandheBackend.HttpFormLaw

set_option autoImplicit false

namespace FandheBackend.HttpPercentLaw
open StdBytes HttpForm HttpFormLaw

/-- The texts of a byte string, each byte written as itself or as an escape. -/
inductive PercentEncodes : Bytes → Bytes → Prop
  | nil : PercentEncodes [] []
  | plain {b : UInt8} {bytes text : Bytes} : b ≠ 37 → PercentEncodes bytes text →
      PercentEncodes (b :: bytes) (b :: text)
  | escape {b hi lo : UInt8} {bytes text : Bytes} : isAsciiHexdigit hi = true →
      isAsciiHexdigit lo = true → b.toNat = 16 * digitValue hi + digitValue lo →
      PercentEncodes bytes text → PercentEncodes (b :: bytes) (37 :: hi :: lo :: text)

def HasDigits (text : Bytes) (i : ℕ) : Prop :=
  ∃ hi lo, text[i + 1]? = some hi ∧ text[i + 2]? = some lo ∧
    isAsciiHexdigit hi = true ∧ isAsciiHexdigit lo = true

/-- The positions of `%` that no two hexadecimal digits follow. -/
def malformed (text : Bytes) : Set ℕ := {i | text[i]? = some 37 ∧ ¬ HasDigits text i}

/-- What is wrong with the escape at `i`; its first digit comes before its second one. -/
inductive EscapeError (text : Bytes) (i : ℕ) : PercentDecodeError → Prop
  | truncated : text.length ≤ i + 2 → EscapeError text i (.truncatedEscape i)
  | firstDigit {hi lo : UInt8} : text[i + 1]? = some hi → text[i + 2]? = some lo →
      isAsciiHexdigit hi = false → EscapeError text i (.invalidHexDigit (i + 1))
  | secondDigit {hi lo : UInt8} : text[i + 1]? = some hi → text[i + 2]? = some lo →
      isAsciiHexdigit hi = true → isAsciiHexdigit lo = false →
      EscapeError text i (.invalidHexDigit (i + 2))

section Loop

theorem hexValue_isSome (b : UInt8) : (hexValue b).isSome = isAsciiHexdigit b := by
  revert b
  apply forall_byte
  decide +kernel

theorem hexValue_eq_none {b : UInt8} : hexValue b = none ↔ isAsciiHexdigit b = false := by
  rw [← hexValue_isSome, Option.isSome_eq_false_iff, Option.isNone_iff_eq_none]

theorem decodeBytesFrom_escape {hi lo : UInt8} (hhi : isAsciiHexdigit hi = true)
    (hlo : isAsciiHexdigit lo = true) (pos : ℕ) (rest : Bytes) :
    decodeBytesFrom pos (37 :: hi :: lo :: rest) =
      (decodeBytesFrom (pos + 3) rest).map
        (UInt8.ofNat (16 * digitValue hi + digitValue lo) :: ·) := by
  obtain ⟨hhiV, hhi16⟩ := hexValue_hexdigit hhi
  obtain ⟨hloV, hlo16⟩ := hexValue_hexdigit hlo
  rw [decodeBytesFrom, if_pos rfl]
  simp only [hhiV, hloV, shiftLeft_or hhi16 hlo16]

theorem escape_byte {hi lo : UInt8} (hhi : isAsciiHexdigit hi = true)
    (hlo : isAsciiHexdigit lo = true) :
    (UInt8.ofNat (16 * digitValue hi + digitValue lo)).toNat =
      16 * digitValue hi + digitValue lo := by
  have hhi16 := (hexValue_hexdigit hhi).2
  have hlo16 := (hexValue_hexdigit hlo).2
  exact UInt8.toNat_ofNat_of_lt (show _ < 256 by omega)

theorem PercentEncodes.decodeBytesFrom {bytes text : Bytes} (h : PercentEncodes bytes text)
    (pos : ℕ) : decodeBytesFrom pos text = .ok bytes := by
  induction h generalizing pos with
  | nil => rfl
  | plain hb _ ih =>
    rw [decodeBytesFrom_plain hb, ih]
    rfl
  | escape hhi hlo hb _ ih =>
    rw [decodeBytesFrom_escape hhi hlo, ih, ← hb, UInt8.ofNat_toNat]
    rfl

theorem percentEncodes_of_ok {pos : ℕ} {input bytes : Bytes}
    (h : decodeBytesFrom pos input = .ok bytes) : PercentEncodes bytes input := by
  fun_induction decodeBytesFrom pos input generalizing bytes with
  | case1 pos => cases h; exact .nil
  | case2 => cases h
  | case3 => cases h
  | case4 pos hi lo rest hiV hhiV loV hloV ih =>
    have hhi : isAsciiHexdigit hi = true := by rw [← hexValue_isSome, hhiV]; rfl
    have hlo : isAsciiHexdigit lo = true := by rw [← hexValue_isSome, hloV]; rfl
    obtain ⟨hhi', hhi16⟩ := hexValue_hexdigit hhi
    obtain ⟨hlo', hlo16⟩ := hexValue_hexdigit hlo
    cases hrest : decodeBytesFrom (pos + 3) rest with
    | error e => rw [hrest] at h; cases h
    | ok bytes' =>
      rw [hrest] at h
      cases h
      rw [Option.some.inj (hhiV.symm.trans hhi'), Option.some.inj (hloV.symm.trans hlo'),
        shiftLeft_or hhi16 hlo16]
      exact .escape hhi hlo (escape_byte hhi hlo) (ih hrest)
  | case5 => cases h
  | case6 pos b rest hb ih =>
    cases hrest : decodeBytesFrom (pos + 1) rest with
    | error e => rw [hrest] at h; cases h
    | ok bytes' =>
      rw [hrest] at h
      cases h
      exact .plain hb (ih hrest)

end Loop

section Positions

theorem getElem?_of_drop {text rest : Bytes} {pos : ℕ} {b : UInt8}
    (h : text.drop pos = b :: rest) : text[pos]? = some b ∧ text.drop (pos + 1) = rest := by
  have hget : (text.drop pos)[0]? = some b := by rw [h]; rfl
  rw [List.getElem?_drop] at hget
  exact ⟨hget, by rw [← List.drop_drop, h]; rfl⟩

theorem escape_of_drop {text rest : Bytes} {pos : ℕ} {hi lo : UInt8}
    (h : text.drop pos = 37 :: hi :: lo :: rest) :
    text[pos]? = some 37 ∧ text[pos + 1]? = some hi ∧ text[pos + 2]? = some lo ∧
      text.drop (pos + 3) = rest := by
  obtain ⟨hpercent, hrest⟩ := getElem?_of_drop h
  obtain ⟨hhi, hrest⟩ := getElem?_of_drop hrest
  obtain ⟨hlo, hrest⟩ := getElem?_of_drop hrest
  exact ⟨hpercent, hhi, hlo, hrest⟩

theorem hexdigit_ne_percent {b : UInt8} (h : isAsciiHexdigit b = true) : b ≠ 37 := by
  rintro rfl
  exact absurd h (by decide)

theorem malformed_ge_succ {text : Bytes} {pos : ℕ} {b : UInt8} (hb : text[pos]? = some b)
    (hne : b ≠ 37) (h : ∀ i ∈ malformed text, pos ≤ i) : ∀ i ∈ malformed text, pos + 1 ≤ i := by
  intro i hi
  rcases Nat.lt_or_eq_of_le (h i hi) with hlt | rfl
  · exact hlt
  · exact absurd (Option.some.inj (hb.symm.trans hi.1)) hne

theorem not_hasDigits_of_first {text : Bytes} {i : ℕ} {hi : UInt8} (h : text[i + 1]? = some hi)
    (hhex : isAsciiHexdigit hi = false) : ¬ HasDigits text i := by
  rintro ⟨hi', lo, hhi', -, hhex', -⟩
  rw [← Option.some.inj (h.symm.trans hhi'), hhex] at hhex'
  cases hhex'

theorem not_hasDigits_of_second {text : Bytes} {i : ℕ} {lo : UInt8} (h : text[i + 2]? = some lo)
    (hhex : isAsciiHexdigit lo = false) : ¬ HasDigits text i := by
  rintro ⟨hi, lo', -, hlo', -, hhex'⟩
  rw [← Option.some.inj (h.symm.trans hlo'), hhex] at hhex'
  cases hhex'

theorem not_hasDigits_of_length {text : Bytes} {i : ℕ} (h : text.length ≤ i + 2) :
    ¬ HasDigits text i := by
  rintro ⟨hi, lo, -, hlo, -⟩
  rw [List.getElem?_eq_none h] at hlo
  cases hlo

theorem EscapeError.unique {text : Bytes} {i : ℕ} {e e' : PercentDecodeError}
    (h : EscapeError text i e) (h' : EscapeError text i e') : e = e' := by
  have hlength : ∀ {lo : UInt8}, text[i + 2]? = some lo → ¬ text.length ≤ i + 2 := by
    intro lo hlo hle
    rw [List.getElem?_eq_none hle] at hlo
    cases hlo
  cases h with
  | truncated hle =>
    cases h' with
    | truncated => rfl
    | firstDigit _ hlo => exact absurd hle (hlength hlo)
    | secondDigit _ hlo => exact absurd hle (hlength hlo)
  | firstDigit hhi hlo hhex =>
    cases h' with
    | truncated hle => exact absurd hle (hlength hlo)
    | firstDigit => rfl
    | secondDigit hhi' _ hhex' =>
      rw [Option.some.inj (hhi.symm.trans hhi'), hhex'] at hhex
      cases hhex
  | secondDigit hhi hlo hhex =>
    cases h' with
    | truncated hle => exact absurd hle (hlength hlo)
    | firstDigit hhi' _ hhex' =>
      rw [Option.some.inj (hhi.symm.trans hhi'), hhex'] at hhex
      cases hhex
    | secondDigit => rfl

/-- The loop at `pos`, when every escape before `pos` was well formed. -/
theorem decodeBytesFrom_drop {text input : Bytes} {pos : ℕ} (hinput : text.drop pos = input)
    (h : ∀ i ∈ malformed text, pos ≤ i) :
    (∃ bytes, decodeBytesFrom pos input = .ok bytes ∧ malformed text = ∅) ∨
      ∃ e i, decodeBytesFrom pos input = .error e ∧ IsLeast (malformed text) i ∧
        EscapeError text i e := by
  fun_induction decodeBytesFrom pos input with
  | case1 pos =>
    refine .inl ⟨[], rfl, Set.eq_empty_of_forall_notMem fun i hi => ?_⟩
    have hnone : text[i]? = none :=
      List.getElem?_eq_none ((List.drop_eq_nil_iff.mp hinput).trans (h i hi))
    exact absurd (hnone.symm.trans hi.1) (by simp)
  | case2 pos hi lo rest hnone =>
    obtain ⟨hpercent, hhi, hlo, hrest⟩ := escape_of_drop hinput
    have hhex := hexValue_eq_none.mp hnone
    exact .inr ⟨_, pos, rfl, ⟨⟨hpercent, not_hasDigits_of_first hhi hhex⟩, h⟩,
      .firstDigit hhi hlo hhex⟩
  | case3 pos hi lo rest hiV hsome hnone =>
    obtain ⟨hpercent, hhi, hlo, hrest⟩ := escape_of_drop hinput
    have hhex := hexValue_eq_none.mp hnone
    have hhex' : isAsciiHexdigit hi = true := by rw [← hexValue_isSome, hsome]; rfl
    exact .inr ⟨_, pos, rfl, ⟨⟨hpercent, not_hasDigits_of_second hlo hhex⟩, h⟩,
      .secondDigit hhi hlo hhex' hhex⟩
  | case4 pos hi lo rest hiV hhiV loV hloV ih =>
    obtain ⟨hpercent, hhi, hlo, hrest⟩ := escape_of_drop hinput
    have hhex : isAsciiHexdigit hi = true := by rw [← hexValue_isSome, hhiV]; rfl
    have hhex' : isAsciiHexdigit lo = true := by rw [← hexValue_isSome, hloV]; rfl
    have hone : ∀ i ∈ malformed text, pos + 1 ≤ i := by
      intro i hi'
      rcases Nat.lt_or_eq_of_le (h i hi') with hlt | rfl
      · exact hlt
      · exact absurd ⟨hi, lo, hhi, hlo, hhex, hhex'⟩ hi'.2
    have htwo := malformed_ge_succ hhi (hexdigit_ne_percent hhex) hone
    have hthree := malformed_ge_succ hlo (hexdigit_ne_percent hhex') htwo
    rcases ih hrest hthree with ⟨bytes, hok, hempty⟩ | ⟨e, i, herror, hleast, he⟩
    · exact .inl ⟨_, by rw [hok]; rfl, hempty⟩
    · exact .inr ⟨e, i, by rw [herror]; rfl, hleast, he⟩
  | case5 pos rest hshort =>
    obtain ⟨hpercent, hrest⟩ := getElem?_of_drop hinput
    have hlength : text.length ≤ pos + 2 := by
      have hrest' := congrArg List.length hrest
      rw [List.length_drop] at hrest'
      rcases rest with _ | ⟨hi, _ | ⟨lo, rest⟩⟩
      · rw [List.length_nil] at hrest'
        omega
      · rw [List.length_singleton] at hrest'
        omega
      · exact absurd rfl (hshort hi lo rest)
    exact .inr ⟨_, pos, rfl, ⟨⟨hpercent, not_hasDigits_of_length hlength⟩, h⟩, .truncated hlength⟩
  | case6 pos b rest hb ih =>
    obtain ⟨hget, hrest⟩ := getElem?_of_drop hinput
    rcases ih hrest (malformed_ge_succ hget hb h) with ⟨bytes, hok, hempty⟩ | ⟨e, i, herror, hleast, he⟩
    · exact .inl ⟨_, by rw [hok]; rfl, hempty⟩
    · exact .inr ⟨e, i, by rw [herror]; rfl, hleast, he⟩

/-- `decode_bytes` inverts every encoding, takes nothing else, and otherwise names the leftmost
malformed escape. -/
theorem decodeBytes_percentEncodes (text : Bytes) :
    (∀ bytes, decodeBytes text = .ok bytes ↔ PercentEncodes bytes text) ∧
    ∀ e, decodeBytes text = .error e ↔
      ∃ i, IsLeast (malformed text) i ∧ EscapeError text i e := by
  refine ⟨fun bytes => ⟨percentEncodes_of_ok, fun h => h.decodeBytesFrom 0⟩, fun e => ?_⟩
  have hloop := @decodeBytesFrom_drop text text 0 List.drop_zero fun i _ => i.zero_le
  constructor
  · intro h
    rcases hloop with ⟨bytes, hok, -⟩ | ⟨e', i, herror, hleast, he⟩
    · exact absurd (hok.symm.trans h) (by simp)
    · rw [Except.error.inj (h.symm.trans herror)]
      exact ⟨i, hleast, he⟩
  · rintro ⟨i, hleast, he⟩
    rcases hloop with ⟨bytes, -, hempty⟩ | ⟨e', i', herror, hleast', he'⟩
    · exact absurd (hempty ▸ hleast.1) (Set.notMem_empty i)
    · rw [hleast'.unique hleast] at he'
      rw [he.unique he']
      exact herror

end Positions

end FandheBackend.HttpPercentLaw
