import FandheBackend.HttpCookie
import FandheBackend.Utf8Text

set_option autoImplicit false

/-!
# Locations within the origin (`crates/http/src/location.rs`)

A location is read character by character, so it is a list of characters here; the wire
carries its UTF-8 bytes.
-/
namespace FandheBackend.HttpLocation
open StdBytes HttpResponse HttpCookie

inductive SameOriginLocationError where
  | empty
  | notRootRelative
  | schemeRelative
  | backslash
  | controlCharacter
  deriving DecidableEq, Repr

/-- `char::is_control`. -/
def isControl (c : Char) : Bool := c.toNat < 32 || (127 ≤ c.toNat && c.toNat < 160)

def validateChars : List Char → Except SameOriginLocationError Unit
  | [] => .ok ()
  | c :: chars =>
    if c = '\\' then .error .backslash
    else if isControl c then .error .controlCharacter
    else validateChars chars

def validateSameOriginLocation (value : List Char) : Except SameOriginLocationError Unit :=
  match value with
  | [] => .error .empty
  | first :: chars =>
    if first ≠ '/' then .error .notRootRelative
    else if chars.head? = some '/' ∨ chars.head? = some '\\' then .error .schemeRelative
    else validateChars chars

structure SameOriginLocation where
  value : List Char
  valid : validateSameOriginLocation value = .ok ()

def SameOriginLocation.new (value : List Char) : Except SameOriginLocationError SameOriginLocation :=
  match h : validateSameOriginLocation value with
  | .error e => .error e
  | .ok () => .ok ⟨value, h⟩

theorem SameOriginLocation.new_value (l : SameOriginLocation) : new l.value = .ok l := by
  obtain ⟨value, valid⟩ := l
  unfold new
  split
  · next e he => rw [valid] at he; cases he
  · rfl

def SameOriginLocation.intoString (l : SameOriginLocation) : Bytes := Utf8Text.encode l.value

theorem validateChars_ok {chars : List Char} (h : validateChars chars = .ok ()) :
    ∀ c ∈ chars, isControl c = false := by
  induction chars with
  | nil => simp
  | cons c chars ih =>
    rw [validateChars] at h
    split_ifs at h with _ hc
    rw [List.forall_mem_cons]
    exact ⟨by simpa using hc, ih h⟩

theorem SameOriginLocation.no_control (l : SameOriginLocation) :
    ∀ c ∈ l.value, isControl c = false := by
  have h := l.valid
  rcases hv : l.value with _ | ⟨first, chars⟩
  · simp
  · simp only [hv, validateSameOriginLocation] at h
    split_ifs at h with hfirst
    rw [not_not] at hfirst
    rw [List.forall_mem_cons, hfirst]
    exact ⟨by decide, validateChars_ok h⟩

theorem utf8EncodeChar_allowed {c : Char} (h : isControl c = false) :
    (String.utf8EncodeChar c).any isForbiddenInValue = false := by
  rw [List.any_eq_false]
  intro b hb
  by_cases hc : c.toNat < 128
  · rw [Utf8Text.utf8EncodeChar_of_lt hc, List.mem_singleton] at hb
    subst hb
    have hascii : ∀ n : Fin 128, (n.val < 32 || (127 ≤ n.val && n.val < 160)) = false →
        isForbiddenInValue (UInt8.ofNat n.val) = false := by
      decide
    rw [Bool.not_eq_true]
    exact hascii ⟨c.toNat, hc⟩ h
  · have hge := Utf8Text.le_of_mem_utf8EncodeChar (Nat.not_lt.mp hc) b hb
    rw [isForbiddenInValue, Bool.or_eq_true, Bool.and_eq_true, decide_eq_true_eq, beq_iff_eq,
      UInt8.lt_iff_toNat_lt, ← UInt8.toNat_inj]
    simp only [UInt8.toNat_ofNat]
    omega

theorem SameOriginLocation.intoString_allowed (l : SameOriginLocation) :
    l.intoString.any isForbiddenInValue = false := by
  rw [intoString, Utf8Text.encode, List.any_flatMap, List.any_eq_false]
  intro c hc
  rw [Bool.not_eq_true]
  exact utf8EncodeChar_allowed (l.no_control c hc)

end FandheBackend.HttpLocation
