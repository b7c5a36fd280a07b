import FandheBackend.HttpBodyLength
import FandheBackend.SeparatedList

set_option autoImplicit false

namespace FandheBackend.HttpTrim
open StdBytes HttpRequestHead HttpBodyLength Utf8Text SeparatedList

def isAsciiSpace (b : UInt8) : Bool := isWhitespace (Char.ofNat b.toNat)

theorem trimBy_map {α β : Type} (p : β → Bool) (f : α → β) (xs : List α) :
    trimBy p (xs.map f) = (trimBy (p ∘ f) xs).map f := by
  rw [trimBy, trimBy, List.dropWhile_map, List.rdropWhile, List.rdropWhile, ← List.map_reverse,
    List.dropWhile_map, List.map_reverse]

theorem strTrim_ascii {s : Bytes} (h : ∀ b ∈ s, b < 128) : strTrim s = trimBy isAsciiSpace s := by
  have htrim : trimBy isWhitespace (ofAscii s) = ofAscii (trimBy isAsciiSpace s) := trimBy_map _ _ s
  obtain ⟨pre, post, hsplit, -, -⟩ := trimBy_split isAsciiSpace s
  have hmid : ∀ b ∈ trimBy isAsciiSpace s, b < 128 := by
    intro b hb
    apply h
    rw [hsplit]
    exact List.mem_append_left _ (List.mem_append_right _ hb)
  conv_lhs => rw [← encode_ofAscii h]
  rw [strTrim, decode_encode]
  simp only
  rw [htrim, encode_ofAscii hmid]

def isPlain (b : UInt8) : Bool := b < 128 && !isAsciiSpace b

theorem ows_space {b : UInt8} (h : isOws b = true) : b < 128 ∧ isAsciiSpace b = true := by
  revert b
  apply forall_byte
  decide +kernel

theorem strTrim_pad {pre mid post : Bytes} (hpre : ∀ b ∈ pre, isOws b = true)
    (hpost : ∀ b ∈ post, isOws b = true) (hmid : ∀ b ∈ mid, isPlain b = true) :
    strTrim (pre ++ mid ++ post) = mid := by
  have hplain : ∀ b ∈ mid, b < 128 ∧ isAsciiSpace b = false := by
    intro b hb
    have h := hmid b hb
    rwa [isPlain, Bool.and_eq_true, decide_eq_true_iff, Bool.not_eq_true'] at h
  have hascii : ∀ b ∈ pre ++ mid ++ post, b < 128 := by
    intro b hb
    rcases List.mem_append.mp hb with hb | hb
    · rcases List.mem_append.mp hb with hb | hb
      · exact (ows_space (hpre b hb)).1
      · exact (hplain b hb).1
    · exact (ows_space (hpost b hb)).1
  rw [strTrim_ascii hascii]
  have hpre := fun b hb => (ows_space (hpre b hb)).2
  have hpost := fun b hb => (ows_space (hpost b hb)).2
  cases mid with
  | nil =>
    apply trimBy_padding
    intro b hb
    rw [List.append_nil] at hb
    exact (List.mem_append.mp hb).elim (hpre b) (hpost b)
  | cons b mid =>
    exact trimBy_append isAsciiSpace hpre hpost (List.cons_ne_nil _ _)
      (fun c hc => (hplain c (List.mem_of_mem_head? hc)).2)
      (fun c hc => (hplain c (List.mem_of_getLast? hc)).2)

theorem strTrim_plain {text : Bytes} (h : ∀ b ∈ text, isPlain b = true) : strTrim text = text := by
  have hpad : strTrim ([] ++ text ++ []) = text :=
    strTrim_pad (List.forall_mem_nil _) (List.forall_mem_nil _) h
  rwa [List.nil_append, List.append_nil] at hpad

/-- Within blanks of HTTP there is nothing that `str::trim` would drop. -/
theorem strTrim_eq_trimBy {text : Bytes} (h : ∀ b ∈ trimBy isOws text, isPlain b = true) :
    strTrim text = trimBy isOws text := by
  obtain ⟨pre, post, htext, hpre, hpost⟩ := trimBy_split isOws text
  have htrim := strTrim_pad hpre hpost h
  rwa [← htext] at htrim

theorem plain_tchar {b : UInt8} (h : isTchar b = true) : isPlain b = true := by
  revert b
  apply forall_byte
  decide +kernel

theorem tchar_digit {b : UInt8} (h : isAsciiDigit b = true) : isTchar b = true := by
  rw [isTchar, isAsciiAlphanumeric, h]
  simp

theorem plain_lowercase {b : UInt8} (h : isPlain (toAsciiLowercase b) = true) : isPlain b = true := by
  revert b
  apply forall_byte
  decide +kernel

/-- A name has nothing to trim that is equal to one without white space, in any case. -/
theorem strTrim_of_eqIgnoreAsciiCase {name name' : Bytes} (h : eqIgnoreAsciiCase name name' = true)
    (hplain : ∀ b ∈ name'.map toAsciiLowercase, isPlain b = true) : strTrim name = name := by
  have heq : name.map toAsciiLowercase = name'.map toAsciiLowercase := by
    simpa [eqIgnoreAsciiCase] using h
  rw [← heq] at hplain
  exact strTrim_plain fun b hb => plain_lowercase (hplain _ (List.mem_map_of_mem hb))

end FandheBackend.HttpTrim
