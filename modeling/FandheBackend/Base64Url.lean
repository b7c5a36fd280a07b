import Mathlib.Data.Nat.Notation
import Mathlib.Tactic.Common
import Mathlib.Tactic.IntervalCases

set_option autoImplicit false

namespace FandheBackend.Base64Url

def digit (d : ℕ) : UInt8 :=
  if d < 26 then UInt8.ofNat (d + 65)
  else if d < 52 then UInt8.ofNat (d + 71)
  else if d < 62 then UInt8.ofNat (d - 4)
  else if d = 62 then 45
  else 95

def value (b : UInt8) : Option ℕ :=
  if 65 ≤ b ∧ b ≤ 90 then some (b.toNat - 65)
  else if 97 ≤ b ∧ b ≤ 122 then some (b.toNat - 71)
  else if 48 ≤ b ∧ b ≤ 57 then some (b.toNat + 4)
  else if b = 45 then some 62
  else if b = 95 then some 63
  else none

def encode : List UInt8 → List UInt8
  | [] => []
  | [a] => [digit (a.toNat / 4), digit (a.toNat % 4 * 16)]
  | [a, b] =>
    [digit (a.toNat / 4), digit (a.toNat % 4 * 16 + b.toNat / 16), digit (b.toNat % 16 * 4)]
  | a :: b :: c :: rest =>
    digit (a.toNat / 4) :: digit (a.toNat % 4 * 16 + b.toNat / 16) ::
      digit (b.toNat % 16 * 4 + c.toNat / 64) :: digit (c.toNat % 64) :: encode rest

def decode : List UInt8 → Option (List UInt8)
  | [] => some []
  | [_] => none
  | [p, q] => do
    let u ← value p
    let v ← value q
    if v % 16 = 0 then some [UInt8.ofNat (u * 4 + v / 16)] else none
  | [p, q, r] => do
    let u ← value p
    let v ← value q
    let w ← value r
    if w % 4 = 0 then some [UInt8.ofNat (u * 4 + v / 16), UInt8.ofNat (v % 16 * 16 + w / 4)]
    else none
  | p :: q :: r :: s :: rest => do
    let u ← value p
    let v ← value q
    let w ← value r
    let z ← value s
    let bytes ← decode rest
    some (UInt8.ofNat (u * 4 + v / 16) :: UInt8.ofNat (v % 16 * 16 + w / 4) ::
      UInt8.ofNat (w % 4 * 64 + z) :: bytes)

theorem value_digit {d : ℕ} (h : d < 64) : value (digit d) = some d := by
  interval_cases d <;> rfl

theorem digit_of_value {b : UInt8} {d : ℕ} (h : value b = some d) : d < 64 ∧ digit d = b := by
  have hback : UInt8.ofNat b.toNat = b := UInt8.ofNat_toNat
  unfold value at h
  simp only [UInt8.le_iff_toNat_le] at h
  split_ifs at h with hupper hlower hnumber hminus hunder
  · obtain rfl := Option.some.inj h
    obtain ⟨hlo, hhi⟩ : 65 ≤ b.toNat ∧ b.toNat ≤ 90 := hupper
    refine ⟨by omega, ?_⟩
    rw [digit, if_pos (by omega), show b.toNat - 65 + 65 = b.toNat by omega, hback]
  · obtain rfl := Option.some.inj h
    obtain ⟨hlo, hhi⟩ : 97 ≤ b.toNat ∧ b.toNat ≤ 122 := hlower
    refine ⟨by omega, ?_⟩
    rw [digit, if_neg (by omega), if_pos (by omega), show b.toNat - 71 + 71 = b.toNat by omega,
      hback]
  · obtain rfl := Option.some.inj h
    obtain ⟨hlo, hhi⟩ : 48 ≤ b.toNat ∧ b.toNat ≤ 57 := hnumber
    refine ⟨by omega, ?_⟩
    rw [digit, if_neg (by omega), if_neg (by omega), if_pos (by omega),
      show b.toNat + 4 - 4 = b.toNat by omega, hback]
  · cases h
    exact ⟨by decide, hminus.symm⟩
  · cases h
    exact ⟨by decide, hunder.symm⟩

theorem ofNat_eq {a : UInt8} {n : ℕ} (h : n = a.toNat) : UInt8.ofNat n = a := by
  rw [h, UInt8.ofNat_toNat]

theorem toNat_ofNat {n : ℕ} (h : n < 256) : (UInt8.ofNat n).toNat = n := by
  rw [UInt8.toNat_ofNat', Nat.mod_eq_of_lt h]

theorem decode_encode (bytes : List UInt8) : decode (encode bytes) = some bytes := by
  fun_induction encode bytes with
  | case1 => rfl
  | case2 a =>
    have ha := a.toNat_lt
    rw [decode, value_digit (by omega), value_digit (by omega)]
    simp only [Option.bind_eq_bind, Option.bind_some]
    rw [if_pos (by omega), ofNat_eq (a := a) (by omega)]
  | case3 a b =>
    have ha := a.toNat_lt
    have hb := b.toNat_lt
    rw [decode, value_digit (by omega), value_digit (by omega), value_digit (by omega)]
    simp only [Option.bind_eq_bind, Option.bind_some]
    rw [if_pos (by omega), ofNat_eq (a := a) (by omega), ofNat_eq (a := b) (by omega)]
  | case4 a b c rest ih =>
    have ha := a.toNat_lt
    have hb := b.toNat_lt
    have hc := c.toNat_lt
    rw [decode, value_digit (by omega), value_digit (by omega), value_digit (by omega),
      value_digit (by omega), ih]
    simp only [Option.bind_eq_bind, Option.bind_some]
    rw [ofNat_eq (a := a) (by omega), ofNat_eq (a := b) (by omega), ofNat_eq (a := c) (by omega)]

theorem encode_of_decode {text bytes : List UInt8} (h : decode text = some bytes) :
    encode bytes = text := by
  fun_induction decode text generalizing bytes with
  | case1 =>
    cases h
    rfl
  | case2 => cases h
  | case3 p q =>
    simp only [Option.bind_eq_bind, Option.bind_eq_some_iff] at h
    obtain ⟨u, hu, v, hv, h⟩ := h
    split_ifs at h with hzero
    cases h
    obtain ⟨hu64, rfl⟩ := digit_of_value hu
    obtain ⟨hv64, rfl⟩ := digit_of_value hv
    rw [encode, toNat_ofNat (by omega), show (u * 4 + v / 16) / 4 = u by omega,
      show (u * 4 + v / 16) % 4 * 16 = v by omega]
  | case4 p q r =>
    simp only [Option.bind_eq_bind, Option.bind_eq_some_iff] at h
    obtain ⟨u, hu, v, hv, w, hw, h⟩ := h
    split_ifs at h with hzero
    cases h
    obtain ⟨hu64, rfl⟩ := digit_of_value hu
    obtain ⟨hv64, rfl⟩ := digit_of_value hv
    obtain ⟨hw64, rfl⟩ := digit_of_value hw
    rw [encode, toNat_ofNat (by omega), toNat_ofNat (by omega),
      show (u * 4 + v / 16) / 4 = u by omega,
      show (u * 4 + v / 16) % 4 * 16 + (v % 16 * 16 + w / 4) / 16 = v by omega,
      show (v % 16 * 16 + w / 4) % 16 * 4 = w by omega]
  | case5 p q r s rest ih =>
    simp only [Option.bind_eq_bind, Option.bind_eq_some_iff] at h
    obtain ⟨u, hu, v, hv, w, hw, z, hz, tail, htail, h⟩ := h
    cases h
    obtain ⟨hu64, rfl⟩ := digit_of_value hu
    obtain ⟨hv64, rfl⟩ := digit_of_value hv
    obtain ⟨hw64, rfl⟩ := digit_of_value hw
    obtain ⟨hz64, rfl⟩ := digit_of_value hz
    rw [encode, ih htail, toNat_ofNat (by omega), toNat_ofNat (by omega), toNat_ofNat (by omega),
      show (u * 4 + v / 16) / 4 = u by omega,
      show (u * 4 + v / 16) % 4 * 16 + (v % 16 * 16 + w / 4) / 16 = v by omega,
      show (v % 16 * 16 + w / 4) % 16 * 4 + (w % 4 * 64 + z) / 64 = w by omega,
      show (w % 4 * 64 + z) % 64 = z by omega]

theorem decode_eq_some_iff {text bytes : List UInt8} :
    decode text = some bytes ↔ text = encode bytes := by
  constructor
  · exact fun h => (encode_of_decode h).symm
  · rintro rfl
    exact decode_encode bytes

/-- Letters, digits, `-` and `_`. -/
def isDigit (b : UInt8) : Bool := (value b).isSome

theorem isDigit_digit {d : ℕ} (h : d < 64) : isDigit (digit d) = true := by
  rw [isDigit, value_digit h]
  rfl

theorem isDigit_encode (bytes : List UInt8) : ∀ b ∈ encode bytes, isDigit b = true := by
  fun_induction encode bytes with
  | case1 => exact fun _ h => nomatch h
  | case2 a =>
    have ha := a.toNat_lt
    simp only [List.forall_mem_cons]
    exact ⟨isDigit_digit (by omega), isDigit_digit (by omega), fun _ h => nomatch h⟩
  | case3 a b =>
    have ha := a.toNat_lt
    have hb := b.toNat_lt
    simp only [List.forall_mem_cons]
    exact ⟨isDigit_digit (by omega), isDigit_digit (by omega), isDigit_digit (by omega),
      fun _ h => nomatch h⟩
  | case4 a b c rest ih =>
    have ha := a.toNat_lt
    have hb := b.toNat_lt
    have hc := c.toNat_lt
    simp only [List.forall_mem_cons]
    exact ⟨isDigit_digit (by omega), isDigit_digit (by omega), isDigit_digit (by omega),
      isDigit_digit (by omega), ih⟩

end FandheBackend.Base64Url
