import Mathlib.Data.List.DropRight
import Mathlib.Tactic.Common

set_option autoImplicit false

namespace FandheBackend.Utf8Text

section Encoding

def encode (cs : List Char) : List UInt8 := cs.flatMap String.utf8EncodeChar

def decodeChar (bs : List UInt8) : Option (Char × List UInt8) :=
  (bs.toByteArray.utf8DecodeChar? 0).map fun c => (c, bs.drop c.utf8Size)

/-- A character has at least one byte, so the length of the text is enough fuel. -/
def decodeFuel : ℕ → List UInt8 → Option (List Char)
  | _, [] => some []
  | 0, _ :: _ => none
  | fuel + 1, b :: bs =>
    match decodeChar (b :: bs) with
    | none => none
    | some (c, rest) => (decodeFuel fuel rest).map (c :: ·)

def decode (bs : List UInt8) : Option (List Char) := decodeFuel bs.length bs

@[simp] theorem encode_cons (c : Char) (cs : List Char) :
    encode (c :: cs) = String.utf8EncodeChar c ++ encode cs := rfl

@[simp] theorem encode_append (cs ds : List Char) :
    encode (cs ++ ds) = encode cs ++ encode ds := List.flatMap_append

theorem decodeChar_encode (c : Char) (bs : List UInt8) :
    decodeChar (String.utf8EncodeChar c ++ bs) = some (c, bs) := by
  rw [decodeChar, List.toByteArray_append, ByteArray.utf8DecodeChar?_utf8EncodeChar_append,
    Option.map_some, ← String.length_utf8EncodeChar, List.drop_left]

theorem decodeChar_eq_some {bs rest : List UInt8} {c : Char}
    (h : decodeChar bs = some (c, rest)) : bs = String.utf8EncodeChar c ++ rest := by
  obtain ⟨d, hd, heq⟩ := Option.map_eq_some_iff.mp h
  cases heq
  obtain ⟨tail, ht⟩ := ByteArray.exists_of_utf8DecodeChar?_eq_some hd
  have hbs : bs = String.utf8EncodeChar c ++ tail.data.toList := by
    have := congrArg (fun b : ByteArray => b.data.toList) ht
    simpa using this
  rw [← String.length_utf8EncodeChar c]
  conv_rhs => rw [hbs]
  rw [List.drop_left]
  exact hbs

theorem utf8EncodeChar_length_pos (c : Char) : 0 < (String.utf8EncodeChar c).length := by
  rw [String.length_utf8EncodeChar]
  exact Char.utf8Size_pos c

theorem decodeFuel_encode (cs : List Char) (fuel : ℕ) (h : (encode cs).length ≤ fuel) :
    decodeFuel fuel (encode cs) = some cs := by
  induction cs generalizing fuel with
  | nil => cases fuel <;> rfl
  | cons c cs ih =>
    have hpos := utf8EncodeChar_length_pos c
    rw [encode_cons, List.length_append] at h
    obtain ⟨b, bs, hb⟩ := List.exists_cons_of_length_pos hpos
    cases fuel with
    | zero => omega
    | succ fuel =>
      have hchar := decodeChar_encode c (encode cs)
      rw [encode_cons, hb, List.cons_append]
      rw [hb, List.cons_append] at hchar
      simp only [decodeFuel, hchar, ih fuel (by omega), Option.map_some]

theorem decodeFuel_eq_some {fuel : ℕ} {bs : List UInt8} {cs : List Char}
    (h : decodeFuel fuel bs = some cs) : bs = encode cs := by
  induction fuel generalizing bs cs with
  | zero =>
    cases bs with
    | nil =>
      cases h
      rfl
    | cons b bs => cases h
  | succ fuel ih =>
    cases bs with
    | nil =>
      cases h
      rfl
    | cons b bs =>
      simp only [decodeFuel] at h
      cases hc : decodeChar (b :: bs) with
      | none => simp [hc] at h
      | some p =>
        simp only [hc, Option.map_eq_some_iff] at h
        obtain ⟨ds, hds, rfl⟩ := h
        rw [decodeChar_eq_some hc, encode_cons, ih hds]

theorem decode_eq_some_iff (bs : List UInt8) (cs : List Char) :
    decode bs = some cs ↔ bs = encode cs := by
  constructor
  · exact decodeFuel_eq_some
  · rintro rfl
    exact decodeFuel_encode cs _ (le_refl _)

theorem decode_encode (cs : List Char) : decode (encode cs) = some cs :=
  (decode_eq_some_iff _ _).mpr rfl

theorem encode_injective : Function.Injective encode := by
  intro cs ds h
  have hcs := decode_encode cs
  rw [h, decode_encode] at hcs
  exact (Option.some.inj hcs).symm

def ofAscii (bs : List UInt8) : List Char := bs.map fun b => Char.ofNat b.toNat

theorem utf8EncodeChar_ofNat {b : UInt8} (h : b < 128) :
    String.utf8EncodeChar (Char.ofNat b.toNat) = [b] := by
  have hall : ∀ n : Fin 128, String.utf8EncodeChar (Char.ofNat n.val) = [UInt8.ofNat n.val] := by
    decide
  have hlt : b.toNat < 128 := UInt8.lt_iff_toNat_lt.mp h
  have := hall ⟨b.toNat, hlt⟩
  simpa using this

theorem encode_ofAscii {bs : List UInt8} (h : ∀ b ∈ bs, b < 128) : encode (ofAscii bs) = bs := by
  induction bs with
  | nil => rfl
  | cons b bs ih =>
    rw [List.forall_mem_cons] at h
    rw [ofAscii, List.map_cons, encode_cons, utf8EncodeChar_ofNat h.1, ← ofAscii, ih h.2]
    rfl

theorem utf8EncodeChar_of_lt {c : Char} (h : c.toNat < 128) :
    String.utf8EncodeChar c = [UInt8.ofNat c.toNat] := by
  have hle : c.val.toNat ≤ 127 := Nat.le_of_lt_succ h
  simp only [String.utf8EncodeChar, if_pos hle]
  rfl

theorem le_of_mem_utf8EncodeChar {c : Char} (h : 128 ≤ c.toNat) :
    ∀ b ∈ String.utf8EncodeChar c, 128 ≤ b.toNat := by
  have hmax : c.val.toNat < 1114112 := by
    rcases c.valid with hlow | hhigh <;> omega
  have hnot : ¬ c.val.toNat ≤ 127 := Nat.not_le.mpr h
  intro b hb
  simp only [String.utf8EncodeChar, if_neg hnot] at hb
  split_ifs at hb <;>
  · simp only [List.mem_cons, List.not_mem_nil, or_false] at hb
    rcases hb with rfl | rfl | rfl | rfl <;>
    · rw [UInt8.toNat_ofNat']
      omega

end Encoding

section Boundaries

/-- What `str::from_utf8` accepts. -/
def IsText (bs : List UInt8) : Prop := ∃ cs, bs = encode cs

def isContinuation (b : UInt8) : Bool := 128 ≤ b && b < 192

/-- `str::is_char_boundary`. -/
def isCharBoundary (bs : List UInt8) (i : ℕ) : Bool :=
  match bs[i]? with
  | some b => i == 0 || !isContinuation b
  | none => i == bs.length

theorem isSome_decode_iff (bs : List UInt8) : (decode bs).isSome = true ↔ IsText bs := by
  rw [Option.isSome_iff_exists]
  exact exists_congr fun cs => decode_eq_some_iff bs cs

theorem isText_nil : IsText [] := ⟨[], rfl⟩

theorem IsText.append {xs ys : List UInt8} (hxs : IsText xs) (hys : IsText ys) :
    IsText (xs ++ ys) := by
  obtain ⟨cs, rfl⟩ := hxs
  obtain ⟨ds, rfl⟩ := hys
  exact ⟨cs ++ ds, (encode_append cs ds).symm⟩

theorem isText_of_ascii {bs : List UInt8} (h : ∀ b ∈ bs, b < 128) : IsText bs :=
  ⟨ofAscii bs, (encode_ofAscii h).symm⟩

theorem isText_of_all {bs : List UInt8} (h : bs.all (· < 128) = true) : IsText bs :=
  isText_of_ascii fun b hb => of_decide_eq_true (List.all_eq_true.mp h b hb)

/-- An ASCII byte in a text is a character, so the text can be cut there. -/
theorem IsText.cut {xs ys : List UInt8} {b : UInt8} (hb : b < 128) (h : IsText (xs ++ b :: ys)) :
    IsText xs ∧ IsText ys := by
  obtain ⟨cs, hcs⟩ := h
  induction cs generalizing xs with
  | nil => exact absurd hcs (by simp [encode])
  | cons c cs ih =>
    rw [encode_cons] at hcs
    by_cases hc : c.toNat < 128
    · rw [utf8EncodeChar_of_lt hc, List.singleton_append] at hcs
      cases xs with
      | nil =>
        obtain ⟨rfl, rfl⟩ := List.cons.inj hcs
        exact ⟨isText_nil, cs, rfl⟩
      | cons x xs =>
        obtain ⟨rfl, htail⟩ := List.cons.inj hcs
        obtain ⟨hxs, hys⟩ := ih htail
        refine ⟨?_, hys⟩
        have hchar : IsText [UInt8.ofNat c.toNat] := ⟨[c], by simp [encode, utf8EncodeChar_of_lt hc]⟩
        exact hchar.append hxs
    · -- no byte of this character is the one of the cut
      have hhigh := le_of_mem_utf8EncodeChar (Nat.not_lt.mp hc)
      obtain ⟨mid, hxs, hmid⟩ | ⟨mid, hchar, hmid⟩ := List.append_eq_append_iff.mp hcs
      · cases mid with
        | nil =>
          rw [List.append_nil] at hxs
          rw [List.nil_append] at hmid
          subst hxs
          refine ⟨⟨[c], by simp [encode]⟩, ?_⟩
          exact (@ih [] hmid).2
        | cons d mid =>
          obtain ⟨rfl, _⟩ := List.cons.inj hmid
          have hle := hhigh b (hxs ▸ List.mem_append_right xs List.mem_cons_self)
          exact absurd (UInt8.lt_iff_toNat_lt.mp hb) (Nat.not_lt.mpr hle)
      · obtain ⟨hmid', hys⟩ := ih hmid.symm
        rw [hchar]
        exact ⟨IsText.append ⟨[c], by simp [encode]⟩ hmid', hys⟩

theorem isContinuation_eq_false {b : UInt8} :
    isContinuation b = false ↔ b.toNat < 128 ∨ 192 ≤ b.toNat := by
  have hlow : (128 : UInt8).toNat = 128 := rfl
  have hhigh : (192 : UInt8).toNat = 192 := rfl
  simp only [isContinuation, Bool.and_eq_false_iff, decide_eq_false_iff_not,
    UInt8.le_iff_toNat_le, UInt8.lt_iff_toNat_lt, hlow, hhigh, not_le, not_lt]

theorem IsText.head_not_continuation {b : UInt8} {bs : List UInt8} (h : IsText (b :: bs)) :
    isContinuation b = false := by
  obtain ⟨cs, hcs⟩ := h
  cases cs with
  | nil => cases hcs
  | cons c cs =>
    have hmax : c.val.toNat < 1114112 := by
      rcases c.valid with hlow | hhigh <;> omega
    rw [encode_cons] at hcs
    have hb : (String.utf8EncodeChar c).head? = some b := by
      obtain ⟨x, xs, hx⟩ := List.exists_cons_of_length_pos (utf8EncodeChar_length_pos c)
      rw [hx] at hcs ⊢
      rw [(List.cons.inj hcs).1]
      rfl
    rw [isContinuation_eq_false]
    simp only [String.utf8EncodeChar] at hb
    split_ifs at hb <;>
    · simp only [List.head?_cons, Option.some.injEq] at hb
      subst hb
      rw [UInt8.toNat_ofNat']
      omega

theorem isCharBoundary_length (bs : List UInt8) : isCharBoundary bs bs.length = true := by
  simp [isCharBoundary]

theorem isCharBoundary_append (xs : List UInt8) {ys : List UInt8} (h : IsText ys) :
    isCharBoundary (xs ++ ys) xs.length = true := by
  cases ys with
  | nil =>
    rw [List.append_nil]
    exact isCharBoundary_length xs
  | cons b ys =>
    simp [isCharBoundary, h.head_not_continuation]

theorem IsText.isCharBoundary_after {bs : List UInt8} {i : ℕ} {b : UInt8} (h : IsText bs)
    (hi : bs[i]? = some b) (hb : b < 128) : isCharBoundary bs (i + 1) = true := by
  obtain ⟨hlt, hget⟩ := List.getElem?_eq_some_iff.mp hi
  have hsplit : bs = bs.take i ++ b :: bs.drop (i + 1) := by
    rw [← hget, ← List.drop_eq_getElem_cons hlt, List.take_append_drop]
  have hrest : IsText (bs.drop (i + 1)) := by
    rw [hsplit] at h
    exact (h.cut hb).2
  have hlength : (bs.take (i + 1)).length = i + 1 := by
    rw [List.length_take]
    omega
  have hboundary := isCharBoundary_append (bs.take (i + 1)) hrest
  rwa [List.take_append_drop, hlength] at hboundary

end Boundaries

section Trimming
variable {α : Type} (p : α → Bool)

def trimBy (xs : List α) : List α := (xs.dropWhile p).rdropWhile p

theorem trimBy_split (xs : List α) :
    ∃ pre post, xs = pre ++ trimBy p xs ++ post ∧ (∀ a ∈ pre, p a = true) ∧
      ∀ a ∈ post, p a = true := by
  refine ⟨xs.takeWhile p, (xs.dropWhile p).rtakeWhile p, ?_, ?_, ?_⟩
  · rw [trimBy, List.append_assoc, List.rdropWhile_append_rtakeWhile,
      List.takeWhile_append_dropWhile]
  · exact fun a ha => List.mem_takeWhile_imp ha
  · intro a ha
    exact List.mem_rtakeWhile_imp ha

theorem trimBy_ends (xs : List α) :
    (∀ a ∈ (trimBy p xs).head?, p a = false) ∧ ∀ a ∈ (trimBy p xs).getLast?, p a = false := by
  constructor
  · intro a ha
    obtain ⟨tail, htail⟩ := List.rdropWhile_prefix p (xs.dropWhile p)
    have hhead : (xs.dropWhile p).head? = some a := by
      rw [← htail, List.head?_append, show ((xs.dropWhile p).rdropWhile p).head? = some a from ha]
      rfl
    have hnot := List.head?_dropWhile_not p xs
    rw [hhead] at hnot
    simpa using hnot
  · intro a ha
    obtain ⟨hne, rfl⟩ := List.mem_getLast?_eq_getLast ha
    exact Bool.not_eq_true _ ▸ List.rdropWhile_last_not p (xs.dropWhile p) hne

theorem dropWhile_append_of_head {pre xs : List α} (hpre : ∀ a ∈ pre, p a = true)
    (hxs : ∀ a ∈ xs.head?, p a = false) : (pre ++ xs).dropWhile p = xs := by
  rw [List.dropWhile_append_of_pos hpre]
  cases xs with
  | nil => rfl
  | cons x xs =>
    rw [List.dropWhile_cons_of_neg]
    simpa using hxs x rfl

theorem trimBy_append {pre mid post : List α} (hpre : ∀ a ∈ pre, p a = true)
    (hpost : ∀ a ∈ post, p a = true) (hne : mid ≠ []) (hhead : ∀ a ∈ mid.head?, p a = false)
    (hlast : ∀ a ∈ mid.getLast?, p a = false) : trimBy p (pre ++ mid ++ post) = mid := by
  obtain ⟨x, xs, rfl⟩ := List.exists_cons_of_ne_nil hne
  rw [trimBy, List.append_assoc, dropWhile_append_of_head p hpre (by simpa using hhead),
    List.rdropWhile, List.reverse_append]
  rw [dropWhile_append_of_head p (by simpa using hpost)
    (by rw [List.head?_reverse]; exact hlast), List.reverse_reverse]

theorem trimBy_eq_self {xs : List α} (h : ∀ a ∈ xs, p a = false) : trimBy p xs = xs := by
  cases xs with
  | nil => rfl
  | cons x xs =>
    have htrim : trimBy p ([] ++ (x :: xs) ++ []) = x :: xs :=
      trimBy_append p (by simp) (by simp) (by simp) (fun a ha => h a (List.mem_of_mem_head? ha))
        (fun a ha => h a (List.mem_of_getLast? ha))
    simpa using htrim

/-- Two ways to cut a list into padding, a core that has none at its ends, and padding. -/
theorem trimBy_unique {pre mid post pre' mid' post' : List α}
    (h : pre ++ mid ++ post = pre' ++ mid' ++ post')
    (hpre : ∀ a ∈ pre, p a = true) (hpost : ∀ a ∈ post, p a = true)
    (hpre' : ∀ a ∈ pre', p a = true) (hpost' : ∀ a ∈ post', p a = true)
    (hne : mid ≠ []) (hhead : ∀ a ∈ mid.head?, p a = false)
    (hlast : ∀ a ∈ mid.getLast?, p a = false)
    (hne' : mid' ≠ []) (hhead' : ∀ a ∈ mid'.head?, p a = false)
    (hlast' : ∀ a ∈ mid'.getLast?, p a = false) : pre = pre' ∧ post = post' := by
  have hmid : mid = mid' := by
    rw [← trimBy_append p hpre hpost hne hhead hlast, h,
      trimBy_append p hpre' hpost' hne' hhead' hlast']
  subst hmid
  have hdrop : ∀ {q r : List α}, (∀ a ∈ q, p a = true) →
      (q ++ mid ++ r).dropWhile p = mid ++ r := by
    intro q r hq
    obtain ⟨x, xs, rfl⟩ := List.exists_cons_of_ne_nil hne
    rw [List.append_assoc]
    exact dropWhile_append_of_head p hq (by simpa using hhead)
  have htail : mid ++ post = mid ++ post' := by
    rw [← hdrop hpre, h, hdrop hpre']
  have hpost_eq := List.append_cancel_left htail
  rw [hpost_eq, List.append_assoc, List.append_assoc] at h
  exact ⟨List.append_cancel_right h, hpost_eq⟩

end Trimming

end FandheBackend.Utf8Text
