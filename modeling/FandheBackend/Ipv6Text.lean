import FandheBackend.LongestRun
import FandheBackend.StdBytes

set_option autoImplicit false

namespace FandheBackend.Ipv6Text
open StdBytes LongestRun

structure Ipv6Addr where
  segments : List UInt16
  length_eq : segments.length = 8
  deriving DecidableEq

section Reading

def isDigitOf (radix : ℕ) (b : UInt8) : Bool := if radix = 10 then isAsciiDigit b else isAsciiHexdigit b

/-- `Parser::read_number`. All of the digits that follow one another belong to the number. -/
def readNumber (radix maxDigits bound : ℕ) (allowZeros : Bool) (s : Bytes) :
    Option (ℕ × Bytes) :=
  let digits := s.takeWhile (isDigitOf radix)
  if digits.isEmpty || digits.length > maxDigits then none
  else if !allowZeros && digits.head? == some 48 && digits.length > 1 then none
  else if digitsValue radix digits < bound then
    some (digitsValue radix digits, s.drop digits.length)
  else none

/-- `Parser::read_separator`: nothing stands in front of the first item. -/
def readSeparator {α : Type} (sep : UInt8) (index : ℕ) (inner : Bytes → Option (α × Bytes))
    (s : Bytes) : Option (α × Bytes) :=
  if index = 0 then inner s
  else match s with
    | [] => none
    | b :: rest => if b = sep then inner rest else none

def readOctets : ℕ → ℕ → Bytes → Option (List UInt8 × Bytes)
  | 0, _, s => some ([], s)
  | n + 1, i, s =>
    match readSeparator 46 i (readNumber 10 3 256 false) s with
    | none => none
    | some (octet, rest) =>
      (readOctets n (i + 1) rest).map fun r => (UInt8.ofNat octet :: r.1, r.2)

/-- `u16::from_be_bytes`. -/
def fromBeBytes (hi lo : UInt8) : UInt16 := UInt16.ofNat (256 * hi.toNat + lo.toNat)

/-- The loop of `read_groups` with `n` slots left, from slot `i` on. An embedded IPv4 address
fills two of them and ends the loop. -/
def readGroups : ℕ → ℕ → Bytes → List UInt16 × Bool × Bytes
  | 0, _, s => ([], false, s)
  | n + 1, i, s =>
    match (if 0 < n then readSeparator 58 i (readOctets 4 0) s else none) with
    | some ([a, b, c, d], rest) => ([fromBeBytes a b, fromBeBytes c d], true, rest)
    | _ =>
      match readSeparator 58 i (readNumber 16 4 (2 ^ 16) true) s with
      | none => ([], false, s)
      | some (group, rest) =>
        let r := readGroups n (i + 1) rest
        (UInt16.ofNat group :: r.1, r.2)

theorem readGroups_length (n i : ℕ) (s : Bytes) : (readGroups n i s).1.length ≤ n := by
  induction n generalizing i s with
  | zero => exact Nat.le_refl _
  | succ n ih =>
    rw [readGroups]
    split
    · rename_i hread
      have hn : 0 < n := by
        by_contra hzero
        rw [if_neg hzero] at hread
        cases hread
      exact Nat.succ_le_succ hn
    · split
      · exact Nat.zero_le _
      · exact Nat.succ_le_succ (ih _ _)

def fill (head tail : List UInt16) (h : head.length + tail.length ≤ 8) : Ipv6Addr where
  segments := head ++ List.replicate (8 - head.length - tail.length) 0 ++ tail
  length_eq := by
    rw [List.length_append, List.length_append, List.length_replicate]
    omega

def readIpv6Addr (s : Bytes) : Option (Ipv6Addr × Bytes) :=
  let head := readGroups 8 0 s
  if h : head.1.length = 8 then some (⟨head.1, h⟩, head.2.2)
  else if head.2.1 then none
  else match head.2.2 with
    | 58 :: 58 :: rest =>
      let tail := readGroups (8 - (head.1.length + 1)) 0 rest
      have hfill : head.1.length + tail.1.length ≤ 8 := by
        have hhead : head.1.length ≤ 8 := readGroups_length 8 0 s
        have htail : tail.1.length ≤ 8 - (head.1.length + 1) := readGroups_length _ 0 rest
        omega
      some (fill head.1 tail.1 hfill, tail.2.2)
    | _ => none

def fromStr (s : Bytes) : Option Ipv6Addr :=
  match readIpv6Addr s with
  | some (addr, []) => some addr
  | _ => none

end Reading

section Printing

/-- `{:x}`. -/
def hexGroup (group : UInt16) : Bytes := numeral 16 group.toNat

def groupsText (groups : List UInt16) : Bytes := [58].intercalate (groups.map hexGroup)

def toIpv4Mapped (addr : Ipv6Addr) : Option (UInt8 × UInt8 × UInt8 × UInt8) :=
  match addr.segments with
  | [0, 0, 0, 0, 0, 0xffff, x, y] =>
    some (UInt8.ofNat (x.toNat / 256), UInt8.ofNat (x.toNat % 256), UInt8.ofNat (y.toNat / 256),
      UInt8.ofNat (y.toNat % 256))
  | _ => none

/-- The zero groups that `fmt` leaves out. -/
def zeroes (segments : List UInt16) : Span := scan (· == 0) 0 ⟨0, 0⟩ ⟨0, 0⟩ segments

def display (addr : Ipv6Addr) : Bytes :=
  match toIpv4Mapped addr with
  | some (a, b, c, d) =>
    ascii "::ffff:" ++ [46].intercalate ([a, b, c, d].map fun o => numeral 10 o.toNat)
  | none =>
    let span := zeroes addr.segments
    if span.len > 1 then
      groupsText (addr.segments.take span.start) ++ ascii "::" ++
        groupsText (addr.segments.drop (span.start + span.len))
    else groupsText addr.segments

end Printing

/-- The canonical text of groups: the first longest run of two or more zeros is left out. -/
inductive CanonicalText (segments : List UInt16) : Bytes → Prop
  | plain : (∀ start len, IsRun (· == 0) segments start len → len ≤ 1) →
      CanonicalText segments (groupsText segments)
  | compressed {span : Span} : Longest (· == 0) segments span → 2 ≤ span.len →
      CanonicalText segments (groupsText (segments.take span.start) ++ ascii "::" ++
        groupsText (segments.drop (span.start + span.len)))

section Canonical

theorem CanonicalText.unique {segments : List UInt16} {text text' : Bytes}
    (h : CanonicalText segments text) (h' : CanonicalText segments text') : text = text' := by
  cases h with
  | plain hshort =>
    cases h' with
    | plain => rfl
    | compressed hlongest hlen => exact absurd (hshort _ _ hlongest.run) (by omega)
  | compressed hlongest hlen =>
    cases h' with
    | plain hshort => exact absurd (hshort _ _ hlongest.run) (by omega)
    | compressed hlongest' => rw [hlongest.unique hlongest' (by omega)]

/-- Apart from the mapped addresses, `display` is the canonical text. -/
theorem canonicalText_display {addr : Ipv6Addr} (h : toIpv4Mapped addr = none) :
    CanonicalText addr.segments (display addr) := by
  have hlongest : Longest (· == 0) addr.segments (zeroes addr.segments) := scan_longest _
  rw [display, h]
  simp only
  split_ifs with hlen
  · exact .compressed hlongest hlen
  · exact .plain fun start len hrun => (hlongest.longest start len hrun).trans (by omega)

theorem fromBeBytes_div_mod (x : UInt16) :
    fromBeBytes (UInt8.ofNat (x.toNat / 256)) (UInt8.ofNat (x.toNat % 256)) = x := by
  have hlt : x.toNat < 65536 := x.toNat_lt
  rw [fromBeBytes, UInt8.toNat_ofNat', UInt8.toNat_ofNat',
    Nat.mod_eq_of_lt (show x.toNat / 256 < 2 ^ 8 by omega),
    Nat.mod_eq_of_lt (show x.toNat % 256 < 2 ^ 8 by omega), Nat.div_add_mod, UInt16.ofNat_toNat]

theorem toIpv4Mapped_eq_some {addr : Ipv6Addr} {a b c d : UInt8}
    (h : toIpv4Mapped addr = some (a, b, c, d)) :
    addr.segments = [0, 0, 0, 0, 0, 0xffff, fromBeBytes a b, fromBeBytes c d] := by
  unfold toIpv4Mapped at h
  split at h
  · rename_i x y hsegments
    obtain ⟨rfl, rfl, rfl, rfl⟩ := by simpa using h
    rw [fromBeBytes_div_mod, fromBeBytes_div_mod, hsegments]
  · cases h

theorem canonicalText_mapped {addr : Ipv6Addr} {a b c d : UInt8}
    (h : toIpv4Mapped addr = some (a, b, c, d)) :
    CanonicalText addr.segments
      (ascii "::ffff:" ++ hexGroup (fromBeBytes a b) ++ [58] ++ hexGroup (fromBeBytes c d)) := by
  rw [toIpv4Mapped_eq_some h]
  generalize fromBeBytes a b = x
  generalize fromBeBytes c d = y
  have hlongest : Longest (· == 0) [0, 0, 0, 0, 0, 0xffff, x, y] ⟨0, 5⟩ := by
    refine ⟨fun i _ hi => ?_, fun start len hrun => ?_, fun start _ _ => Nat.zero_le start⟩
    · have hlt : i < 5 := hi
      interval_cases i <;> exact ⟨0, rfl, rfl⟩
    · by_contra hlong
      replace hlong : 5 < len := Nat.not_le.mp hlong
      have hlen : start + len ≤ 8 := hrun.le_length (by omega)
      obtain ⟨g, hget, hzero⟩ := hrun 5 (by omega) (by omega)
      obtain rfl : (0xffff : UInt16) = g := Option.some.inj hget
      exact absurd hzero (by decide)
  have htext : ascii "::ffff:" ++ hexGroup x ++ [58] ++ hexGroup y =
      groupsText [] ++ ascii "::" ++ groupsText [0xffff, x, y] := by
    have hffff : hexGroup 0xffff = ascii "ffff" := by decide
    simp [groupsText, hffff, ascii]
  rw [htext]
  exact .compressed hlongest (by decide)

end Canonical

section RoundTrip

theorem hexGroup_digits (group : UInt16) : ∀ b ∈ hexGroup group, isAsciiHexdigit b = true :=
  numeral_hexdigits (by decide) (by decide) _

theorem hexGroup_length (group : UInt16) : (hexGroup group).length ≤ 4 :=
  numeral_length_le (by decide) group.toNat_lt (by decide)

def Stops (rest : Bytes) : Prop := ∀ b, rest.head? = some b → isAsciiHexdigit b = false

theorem takeWhile_append_stops {digits rest : Bytes} (hdigits : ∀ b ∈ digits, isAsciiHexdigit b = true)
    (hrest : Stops rest) : (digits ++ rest).takeWhile (isDigitOf 16) = digits := by
  have hall : ∀ b ∈ digits, isDigitOf 16 b = true := hdigits
  rw [List.takeWhile_append_of_pos hall]
  cases rest with
  | nil => exact List.append_nil digits
  | cons b rest =>
    have hb : ¬ isDigitOf 16 b = true := Bool.eq_false_iff.mp (hrest b rfl)
    rw [List.takeWhile_cons_of_neg hb, List.append_nil]

theorem readNumber_hexGroup (group : UInt16) {rest : Bytes} (hrest : Stops rest) :
    readNumber 16 4 (2 ^ 16) true (hexGroup group ++ rest) = some (group.toNat, rest) := by
  have hne : (hexGroup group).isEmpty = false := by
    rw [List.isEmpty_eq_false_iff]
    exact numeral_ne_nil 16 _
  have hlen : ¬ (hexGroup group).length > 4 := Nat.not_lt.mpr (hexGroup_length group)
  have hvalue : digitsValue 16 (hexGroup group) = group.toNat :=
    digitsValue_numeral (by decide) (by decide) _
  have hlt : group.toNat < 2 ^ 16 := group.toNat_lt
  rw [readNumber, takeWhile_append_stops (hexGroup_digits group) hrest]
  simp only [hne, hlen, hvalue, if_pos hlt, List.drop_left]
  rfl

theorem readNumber_stops {s : Bytes} (h : Stops s) : readNumber 16 4 (2 ^ 16) true s = none := by
  have hnil : ([] ++ s).takeWhile (isDigitOf 16) = [] := takeWhile_append_stops (by simp) h
  rw [List.nil_append] at hnil
  rw [readNumber, hnil]
  rfl

theorem mem_of_readNumber {radix maxDigits bound n : ℕ} {allowZeros : Bool} {s rest : Bytes}
    (h : readNumber radix maxDigits bound allowZeros s = some (n, rest)) : ∀ b ∈ rest, b ∈ s := by
  simp only [readNumber] at h
  split_ifs at h
  obtain ⟨-, rfl⟩ := Prod.ext_iff.mp (Option.some.inj h)
  exact fun b hb => List.mem_of_mem_drop hb

theorem readOctets_none {s : Bytes} (h : (46 : UInt8) ∉ s) : readOctets 4 0 s = none := by
  rw [readOctets]
  cases hread : readSeparator 46 0 (readNumber 10 3 256 false) s with
  | none => rfl
  | some r =>
    obtain ⟨octet, rest⟩ := r
    have hrest : (46 : UInt8) ∉ rest := fun hmem => h (mem_of_readNumber hread 46 hmem)
    have hsep : readSeparator 46 1 (readNumber 10 3 256 false) rest = none := by
      rw [readSeparator.eq_def, if_neg (by decide)]
      cases rest with
      | nil => rfl
      | cons b rest =>
        have hb : b ≠ 46 := fun hb => hrest (hb ▸ List.mem_cons_self)
        exact if_neg hb
    simp only [readOctets, hsep, Option.map_none]

theorem readSeparator_octets_none {s : Bytes} (h : (46 : UInt8) ∉ s) (i : ℕ) :
    readSeparator 58 i (readOctets 4 0) s = none := by
  rw [readSeparator.eq_def]
  split_ifs with hi
  · exact readOctets_none h
  · cases s with
    | nil => rfl
    | cons b rest =>
      rw [List.mem_cons, not_or] at h
      simp only [readOctets_none h.2, ite_self]

theorem readGroups_succ {s : Bytes} (h : (46 : UInt8) ∉ s) (n i : ℕ) :
    readGroups (n + 1) i s =
      match readSeparator 58 i (readNumber 16 4 (2 ^ 16) true) s with
      | none => ([], false, s)
      | some (group, rest) =>
        (UInt16.ofNat group :: (readGroups n (i + 1) rest).1, (readGroups n (i + 1) rest).2) := by
  rw [readGroups, readSeparator_octets_none h, ite_self]

def groupsTail (groups : List UInt16) : Bytes := groups.flatMap fun group => 58 :: hexGroup group

theorem groupsText_cons (group : UInt16) (groups : List UInt16) :
    groupsText (group :: groups) = hexGroup group ++ groupsTail groups := by
  induction groups generalizing group with
  | nil => simp [groupsText, groupsTail]
  | cons next groups ih =>
    have hcons : groupsText (group :: next :: groups) =
        hexGroup group ++ 58 :: groupsText (next :: groups) := by
      simp [groupsText, List.intercalate_cons_cons]
    rw [hcons, ih]
    rfl

theorem stops_groupsTail (groups : List UInt16) {rest : Bytes} (h : Stops rest) :
    Stops (groupsTail groups ++ rest) := by
  cases groups with
  | nil => exact h
  | cons group groups =>
    rintro b ⟨⟩
    rfl

structure Ends (rest : Bytes) : Prop where
  stops : Stops rest
  colon : ∀ tail, rest = 58 :: tail → Stops tail

theorem ends_nil : Ends [] := by
  constructor
  · intro b hb
    cases hb
  · intro tail htail
    cases htail

theorem ends_colons (tail : Bytes) : Ends (58 :: 58 :: tail) := by
  constructor
  · rintro b ⟨⟩
    rfl
  · rintro tail' ⟨⟩ b ⟨⟩
    rfl

theorem Ends.readSeparator {rest : Bytes} (h : Ends rest) (i : ℕ) :
    readSeparator 58 i (readNumber 16 4 (2 ^ 16) true) rest = none := by
  rw [readSeparator.eq_def]
  split_ifs with hi
  · exact readNumber_stops h.stops
  · cases rest with
    | nil => rfl
    | cons b tail =>
      change (if b = 58 then readNumber 16 4 (2 ^ 16) true tail else none) = none
      split_ifs with hb
      · exact readNumber_stops (h.colon tail (hb ▸ rfl))
      · rfl

theorem readGroups_ends {rest : Bytes} (h : Ends rest) (hdot : (46 : UInt8) ∉ rest) (n i : ℕ) :
    readGroups n i rest = ([], false, rest) := by
  cases n with
  | zero => rfl
  | succ n => rw [readGroups_succ hdot, h.readSeparator]

theorem readGroups_tail {groups : List UInt16} {rest : Bytes} (hrest : Ends rest)
    (hdot : (46 : UInt8) ∉ groupsTail groups ++ rest) {n i : ℕ} (hlen : groups.length ≤ n)
    (hi : 0 < i) : readGroups n i (groupsTail groups ++ rest) = (groups, false, rest) := by
  induction groups generalizing n i with
  | nil => exact readGroups_ends hrest hdot n i
  | cons group groups ih =>
    rw [List.length_cons] at hlen
    obtain ⟨n, rfl⟩ : ∃ m, n = m + 1 := ⟨n - 1, by omega⟩
    have htext : groupsTail (group :: groups) ++ rest =
        58 :: (hexGroup group ++ (groupsTail groups ++ rest)) := by
      simp [groupsTail]
    have hread : readSeparator 58 i (readNumber 16 4 (2 ^ 16) true)
        (groupsTail (group :: groups) ++ rest) =
          some (group.toNat, groupsTail groups ++ rest) := by
      rw [htext, readSeparator.eq_def, if_neg (by omega)]
      exact readNumber_hexGroup group (stops_groupsTail groups hrest.stops)
    have hdot' : (46 : UInt8) ∉ groupsTail groups ++ rest := by
      rw [htext] at hdot
      exact fun hmem => hdot (List.mem_cons_of_mem _ (List.mem_append_right _ hmem))
    have hrec : readGroups n (i + 1) (groupsTail groups ++ rest) = (groups, false, rest) :=
      ih hdot' (Nat.le_of_succ_le_succ hlen) (Nat.succ_pos i)
    rw [readGroups_succ hdot, hread]
    simp only [hrec, UInt16.ofNat_toNat]

theorem readGroups_groupsText {groups : List UInt16} {rest : Bytes} (hrest : Ends rest)
    (hdot : (46 : UInt8) ∉ groupsText groups ++ rest) {n : ℕ} (hlen : groups.length ≤ n) :
    readGroups n 0 (groupsText groups ++ rest) = (groups, false, rest) := by
  cases groups with
  | nil => exact readGroups_ends hrest hdot n 0
  | cons group groups =>
    rw [List.length_cons] at hlen
    obtain ⟨n, rfl⟩ : ∃ m, n = m + 1 := ⟨n - 1, by omega⟩
    rw [groupsText_cons, List.append_assoc] at hdot ⊢
    have hread : readSeparator 58 0 (readNumber 16 4 (2 ^ 16) true)
        (hexGroup group ++ (groupsTail groups ++ rest)) =
          some (group.toNat, groupsTail groups ++ rest) :=
      readNumber_hexGroup group (stops_groupsTail groups hrest.stops)
    have hdot' : (46 : UInt8) ∉ groupsTail groups ++ rest :=
      fun hmem => hdot (List.mem_append_right _ hmem)
    have htail : readGroups n (0 + 1) (groupsTail groups ++ rest) = (groups, false, rest) :=
      readGroups_tail hrest hdot' (Nat.le_of_succ_le_succ hlen) (Nat.succ_pos 0)
    rw [readGroups_succ hdot, hread]
    simp only [htail, UInt16.ofNat_toNat]

def isHexColon (b : UInt8) : Bool := isAsciiHexdigit b || b == 58

theorem groupsText_bytes (groups : List UInt16) : ∀ b ∈ groupsText groups, isHexColon b = true := by
  cases groups with
  | nil => exact fun b hb => nomatch hb
  | cons group groups =>
    intro b hb
    rw [groupsText_cons, List.mem_append] at hb
    rcases hb with hb | hb
    · simp [isHexColon, hexGroup_digits group b hb]
    · obtain ⟨group', -, hb⟩ := List.mem_flatMap.mp hb
      rcases List.mem_cons.mp hb with rfl | hb
      · rfl
      · simp [isHexColon, hexGroup_digits group' b hb]

theorem CanonicalText.bytes {segments : List UInt16} {text : Bytes}
    (h : CanonicalText segments text) : ∀ b ∈ text, isHexColon b = true := by
  cases h with
  | plain => exact groupsText_bytes segments
  | compressed =>
    intro b hb
    rw [List.mem_append, List.mem_append] at hb
    rcases hb with (hb | hb) | hb
    · exact groupsText_bytes _ b hb
    · obtain rfl : b = 58 := by simpa [ascii] using hb
      rfl
    · exact groupsText_bytes _ b hb

theorem CanonicalText.no_dot {segments : List UInt16} {text : Bytes}
    (h : CanonicalText segments text) : (46 : UInt8) ∉ text :=
  fun hmem => absurd (h.bytes 46 hmem) (by decide)

theorem take_drop_of_run {segments : List UInt16} {start len : ℕ}
    (h : IsRun (· == 0) segments start len) :
    (segments.drop start).take len = List.replicate len 0 := by
  apply List.ext_getElem?
  intro i
  rw [List.getElem?_take, List.getElem?_replicate]
  split_ifs with hi
  · obtain ⟨g, hget, hzero⟩ := h (start + i) (by omega) (by omega)
    rw [List.getElem?_drop, hget, eq_of_beq hzero]
  · rfl

/-- A canonical text is read back as the address that it was written for. -/
theorem fromStr_canonical {addr : Ipv6Addr} {text : Bytes}
    (h : CanonicalText addr.segments text) : fromStr text = some addr := by
  have hdot := h.no_dot
  obtain ⟨segments, hlen⟩ := addr
  cases h with
  | plain =>
    have hread := readGroups_groupsText ends_nil (by rwa [List.append_nil]) hlen.le
    rw [List.append_nil] at hread
    have haddr : readIpv6Addr (groupsText segments) = some (⟨segments, hlen⟩, []) := by
      unfold readIpv6Addr
      simp only [hread, hlen, dite_true]
    rw [fromStr, haddr]
  | @compressed span hlongest htwo =>
    obtain ⟨start, len⟩ := span
    replace htwo : 2 ≤ len := htwo
    have hle : start + len ≤ 8 := hlen ▸ hlongest.run.le_length (show 0 < len by omega)
    have hpre : (segments.take start).length = start := by
      rw [List.length_take, hlen]
      omega
    have hpost : (segments.drop (start + len)).length = 8 - (start + len) := by
      rw [List.length_drop, hlen]
    have hsegments : segments.take start ++ List.replicate len 0 ++
        segments.drop (start + len) = segments := by
      rw [← take_drop_of_run hlongest.run, List.append_assoc, ← List.drop_drop,
        List.take_append_drop, List.take_append_drop]
    simp only at hdot ⊢
    generalize segments.take start = pre at hdot hpre hsegments ⊢
    generalize segments.drop (start + len) = post at hdot hpost hsegments ⊢
    have htext : groupsText pre ++ ascii "::" ++ groupsText post =
        groupsText pre ++ 58 :: 58 :: groupsText post := by
      rw [List.append_assoc]
      rfl
    rw [htext] at hdot ⊢
    have hhead : readGroups 8 0 (groupsText pre ++ 58 :: 58 :: groupsText post) =
        (pre, false, 58 :: 58 :: groupsText post) :=
      readGroups_groupsText (ends_colons _) hdot (by omega)
    have htail : readGroups (8 - (pre.length + 1)) 0 (groupsText post) = (post, false, []) := by
      have hdot' : (46 : UInt8) ∉ groupsText post ++ [] := by
        rw [List.append_nil]
        exact fun hmem => hdot (List.mem_append_right _ (List.mem_cons_of_mem _
          (List.mem_cons_of_mem _ hmem)))
      have hread := readGroups_groupsText ends_nil hdot'
        (show post.length ≤ 8 - (pre.length + 1) by omega)
      rwa [List.append_nil] at hread
    have hfill : pre.length + post.length ≤ 8 := by omega
    have haddr : readIpv6Addr (groupsText pre ++ 58 :: 58 :: groupsText post) =
        some (fill pre post hfill, []) := by
      unfold readIpv6Addr
      simp only [hhead, htail]
      rw [dif_neg (by omega)]
      rfl
    have hzeros : 8 - pre.length - post.length = len := by omega
    rw [fromStr, haddr]
    simp only [fill, hzeros, hsegments]

theorem canonicalText_injective {addr addr' : Ipv6Addr} {text : Bytes}
    (h : CanonicalText addr.segments text) (h' : CanonicalText addr'.segments text) :
    addr = addr' :=
  Option.some.inj ((fromStr_canonical h).symm.trans (fromStr_canonical h'))

end RoundTrip

end FandheBackend.Ipv6Text
