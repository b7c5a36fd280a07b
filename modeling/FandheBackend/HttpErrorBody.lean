import FandheBackend.HttpResponseBuilder
import FandheBackend.JsonText

set_option autoImplicit false

namespace FandheBackend.HttpErrorBody
open StdBytes HttpResponse Utf8Text JsonText

section Escapes

def hexChar (d : ℕ) : Char := Char.ofNat (digitByte d).toNat

theorem hexDigit_hexChar {d : ℕ} (h : d < 16) : hexDigit (hexChar d) = some d := by
  interval_cases d <;> decide

theorem le_hexChar {d : ℕ} (h : d < 16) : 32 ≤ (hexChar d).toNat := by
  interval_cases d <;> decide

theorem controlEscape {n : ℕ} (h : n < 32) : ascii "\\u" ++ padZeros 4 (numeral 16 n) =
    encode ['\\', 'u', '0', '0', hexChar (n / 16), hexChar (n % 16)] := by
  have hall : ∀ n : Fin 32, ascii "\\u" ++ padZeros 4 (numeral 16 n.val) =
      encode ['\\', 'u', '0', '0', hexChar (n.val / 16), hexChar (n.val % 16)] := by
    decide +kernel
  exact hall ⟨n, h⟩

theorem charText_controlEscape {ch : Char} (h : ch.toNat < 32) (rest : List Char) :
    CharText ('\\' :: 'u' :: '0' :: '0' :: hexChar (ch.toNat / 16) :: hexChar (ch.toNat % 16) ::
      rest) ch rest := by
  have hhi := hexDigit_hexChar (show ch.toNat / 16 < 16 by omega)
  have hlo := hexDigit_hexChar (show ch.toNat % 16 < 16 by omega)
  have hunit : CodeUnit ('0' :: '0' :: hexChar (ch.toNat / 16) :: hexChar (ch.toNat % 16) :: rest)
      (((0 * 16 + 0) * 16 + ch.toNat / 16) * 16 + ch.toNat % 16) rest := .mk rfl rfl hhi hlo
  have hvalue : ((0 * 16 + 0) * 16 + ch.toNat / 16) * 16 + ch.toNat % 16 = ch.toNat := by omega
  rw [hvalue] at hunit
  exact .unit hunit

theorem forall_of_all {p : Char → Prop} [DecidablePred p] {t : List Char}
    (h : (t.all fun c => p c) = true) : ∀ c ∈ t, p c :=
  fun c hc => of_decide_eq_true (List.all_eq_true.mp h c hc)

theorem escapeJsonChar_text (ch : Char) : ∃ t : List Char, escapeJsonChar ch = encode t ∧
    (∀ rest, CharText (t ++ rest) ch rest) ∧ ∀ c ∈ t, 32 ≤ c.toNat := by
  unfold escapeJsonChar
  split_ifs with hquote hbackslash hb hf hn hr ht hcontrol
  · subst hquote
    exact ⟨['\\', '"'], rfl, fun rest => .short rfl, forall_of_all (by decide)⟩
  · subst hbackslash
    exact ⟨['\\', '\\'], rfl, fun rest => .short rfl, forall_of_all (by decide)⟩
  · obtain rfl : ch = '\x08' := Char.toNat_inj.mp hb
    exact ⟨['\\', 'b'], rfl, fun rest => .short rfl, forall_of_all (by decide)⟩
  · obtain rfl : ch = '\x0c' := Char.toNat_inj.mp hf
    exact ⟨['\\', 'f'], rfl, fun rest => .short rfl, forall_of_all (by decide)⟩
  · subst hn
    exact ⟨['\\', 'n'], rfl, fun rest => .short rfl, forall_of_all (by decide)⟩
  · subst hr
    exact ⟨['\\', 'r'], rfl, fun rest => .short rfl, forall_of_all (by decide)⟩
  · subst ht
    exact ⟨['\\', 't'], rfl, fun rest => .short rfl, forall_of_all (by decide)⟩
  · have hhi := le_hexChar (show ch.toNat / 16 < 16 by omega)
    have hlo := le_hexChar (show ch.toNat % 16 < 16 by omega)
    exact ⟨_, controlEscape hcontrol, charText_controlEscape hcontrol, by simp [hhi, hlo]⟩
  · have hle : 32 ≤ ch.toNat := Nat.not_lt.mp hcontrol
    refine ⟨[ch], (List.append_nil _).symm, fun rest => .unescaped hle hquote hbackslash, ?_⟩
    rwa [List.forall_mem_singleton]

theorem escapeJsonString_text (message : List Char) (out : Bytes) :
    ∃ t : List Char, escapeJsonString message out = out ++ encode t ∧
      (∀ rest, StringText (t ++ '"' :: rest) message rest) ∧ ∀ c ∈ t, 32 ≤ c.toNat := by
  induction message generalizing out with
  | nil => exact ⟨[], (List.append_nil _).symm, fun rest => .close, by simp⟩
  | cons ch message ih =>
    obtain ⟨t, hch, htext, hle⟩ := escapeJsonChar_text ch
    obtain ⟨t', hmessage, htext', hle'⟩ := ih (out ++ escapeJsonChar ch)
    refine ⟨t ++ t', ?_, fun rest => ?_, ?_⟩
    · rw [escapeJsonString, List.foldl_cons, ← escapeJsonString, hmessage, hch, encode_append,
        List.append_assoc]
    · rw [List.append_assoc]
      exact .char (htext _) (htext' rest)
    · intro c hc
      rcases List.mem_append.mp hc with hc | hc
      · exact hle c hc
      · exact hle' c hc

theorem le_of_mem_encode {t : List Char} (h : ∀ c ∈ t, 32 ≤ c.toNat) : ∀ b ∈ encode t, 32 ≤ b := by
  intro b hb
  obtain ⟨c, hc, hb⟩ := List.mem_flatMap.mp hb
  have hle := h c hc
  rw [UInt8.le_iff_toNat_le]
  rcases Nat.lt_or_ge c.toNat 128 with hlt | hge
  · rw [utf8EncodeChar_of_lt hlt] at hb
    have hbyte : (UInt8.ofNat c.toNat).toNat = c.toNat :=
      UInt8.toNat_ofNat_of_lt (show c.toNat < 256 by omega)
    rw [List.mem_singleton.mp hb, hbyte]
    exact hle
  · exact (show 32 ≤ 128 by decide).trans (le_of_mem_utf8EncodeChar hge b hb)

end Escapes

/-- The body is the JSON text of an object whose one member is the message. -/
theorem errorResponse_text (status : UInt16) (message : List Char) :
    (∃ text, decode (errorResponse status message).body = some text ∧
      ∀ v, Text text v ↔ v = .object [("error".toList, .string message)]) ∧
    ∀ b ∈ (errorResponse status message).body, 32 ≤ b := by
  obtain ⟨t, hmessage, htext, hle⟩ := escapeJsonString_text message (ascii "\x7b\"error\":\"")
  have hbody : (errorResponse status message).body =
      ascii "\x7b\"error\":\"" ++ encode t ++ ascii "\"\x7d" := by
    rw [← hmessage]
    rfl
  have hencode : (errorResponse status message).body =
      encode ('\x7b' :: '"' :: ("error".toList ++ '"' :: ':' :: '"' :: (t ++ ['"', '\x7d']))) := by
    have hopen : ascii "\x7b\"error\":\"" =
        encode ('\x7b' :: '"' :: ("error".toList ++ ['"', ':', '"'])) := by decide
    have hclose : ascii "\"\x7d" = encode ['"', '\x7d'] := by decide
    rw [hbody, hopen, hclose, ← encode_append, ← encode_append]
    simp only [List.cons_append, List.nil_append, List.append_assoc]
  refine ⟨⟨_, hencode ▸ decode_encode _, fun v => ?_⟩, fun b hb => ?_⟩
  · exact text_singleton_iff (stringText_plain (forall_of_all (by decide)) _) (htext _)
  · have hopen : (ascii "\x7b\"error\":\"").all (fun b => 32 ≤ b) = true := by decide
    have hclose : (ascii "\"\x7d").all (fun b => 32 ≤ b) = true := by decide
    rw [hbody, List.mem_append, List.mem_append] at hb
    rcases hb with (hb | hb) | hb
    · exact of_decide_eq_true (List.all_eq_true.mp hopen b hb)
    · exact le_of_mem_encode hle b hb
    · exact of_decide_eq_true (List.all_eq_true.mp hclose b hb)

end FandheBackend.HttpErrorBody
