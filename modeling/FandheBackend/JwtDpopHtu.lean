import FandheBackend.JwtDpopPath
import FandheBackend.PatternSplit

set_option autoImplicit false

namespace FandheBackend.JwtDpopOrigin
open StdBytes ExceptChecks PatternSearch PatternSplit

section Splitting

theorem splitOnce_append {b : UInt8} {needle a : Bytes} (ha : b ∉ a) (t : Bytes) :
    splitOnce (b :: needle) (a ++ (b :: needle) ++ t) = some (a, t) := by
  rw [splitOnce, List.append_assoc, findFirst_piece ha, Option.map_some, List.take_left,
    ← List.append_assoc, ← List.length_append, List.drop_left]

theorem append_of_splitOnce {pattern s a t : Bytes} (h : splitOnce pattern s = some (a, t)) :
    s = a ++ pattern ++ t := by
  obtain ⟨i, hi, heq⟩ := Option.map_eq_some_iff.mp h
  obtain ⟨rfl, rfl⟩ := Prod.mk.inj heq
  obtain ⟨⟨rest, hrest⟩, -⟩ := (findFirst_eq_some_iff pattern s i).mp hi
  have hdrop : s.drop (i + pattern.length) = rest := by
    rw [← List.drop_drop, ← hrest, List.drop_left]
  rw [hdrop, List.append_assoc, hrest, List.take_append_drop]

theorem rsplitOnce_append {b : UInt8} {t : Bytes} (a : Bytes) (ht : b ∉ t) :
    rsplitOnce b (a ++ b :: t) = some (a, t) := by
  have hidx : (a ++ b :: t).reverse.findIdx? (· == b) = some t.length := by
    rw [List.reverse_append, List.reverse_cons, List.append_assoc, List.findIdx?_append]
    have hnone : t.reverse.findIdx? (· == b) = none := by
      rw [List.findIdx?_eq_none_iff]
      intro x hx
      rw [List.mem_reverse] at hx
      exact beq_eq_false_iff_ne.mpr fun h => ht (h ▸ hx)
    rw [hnone]
    simp [List.findIdx?_cons]
  rw [rsplitOnce, hidx, Option.map_some]
  have htake : (a ++ b :: t).length - 1 - t.length = a.length := by simp
  have hdrop : (a ++ b :: t).length - t.length = a.length + 1 := by simp; omega
  rw [htake, hdrop, List.take_left]
  simp

theorem rsplitOnce_none {b : UInt8} {s : Bytes} (hs : b ∉ s) : rsplitOnce b s = none := by
  rw [rsplitOnce, Option.map_eq_none_iff, List.findIdx?_eq_none_iff]
  intro x hx
  rw [List.mem_reverse] at hx
  exact beq_eq_false_iff_ne.mpr fun h => hs (h ▸ hx)

theorem append_of_rsplitOnce {b : UInt8} {s a t : Bytes} (h : rsplitOnce b s = some (a, t)) :
    s = a ++ b :: t ∧ b ∉ t := by
  by_cases hs : b ∈ s
  · -- the last occurrence is the first one from the end
    obtain ⟨l, r, heq, hl⟩ := List.eq_append_cons_of_mem (List.mem_reverse.mpr hs)
    have hs' : s = r.reverse ++ b :: l.reverse := by
      rw [← List.reverse_reverse s, heq]
      simp
    have hlast : b ∉ l.reverse := fun h => hl (List.mem_reverse.mp h)
    rw [hs', rsplitOnce_append _ hlast] at h
    obtain ⟨rfl, rfl⟩ := Prod.mk.inj (Option.some.inj h)
    exact ⟨hs', hlast⟩
  · rw [rsplitOnce_none hs] at h
    cases h

end Splitting

def portText : Option Bytes → Bytes
  | none => []
  | some p => 58 :: p

def isHostByte (b : UInt8) : Bool := isAsciiAlphanumeric b || b == 46 || b == 45

def isAddressByte (b : UInt8) : Bool := isAsciiHexdigit b || b == 58 || b == 46

def NamedHost (host : Bytes) : Prop :=
  host ≠ [] ∧ host.length ≤ 253 ∧ ∀ b ∈ host, isHostByte b = true

def BracketedHost (host : Bytes) : Prop :=
  ∃ inner, host = 91 :: inner ++ [93] ∧ 58 ∈ inner ∧ ∀ b ∈ inner, isAddressByte b = true

/-- A port that is not zero, in decimal with at most five digits. -/
structure PortDigits (p : Bytes) : Prop where
  nonempty : p ≠ []
  length : p.length ≤ 5
  digits : ∀ b ∈ p, isAsciiDigit b = true
  small : digitsValue 10 p ≤ 65535
  positive : digitsValue 10 p ≠ 0

section Authority
variable {authority host p : Bytes} {port : Option Bytes}

theorem not_mem_of_forall {c : UInt8} {s : Bytes} {f : UInt8 → Bool} (h : ∀ b ∈ s, f b = true)
    (hc : f c = false) : c ∉ s := fun hmem => Bool.noConfusion ((h c hmem).symm.trans hc)

theorem parseNamedAuthority_eq_ok_iff :
    parseNamedAuthority authority = .ok (host, port) ↔ ∃ h, authority = h ++ portText port ∧
      NamedHost h ∧ host = h.map toAsciiLowercase ∧ ∀ p, port = some p → 58 ∉ p := by
  have hcheck : ∀ h : Bytes, ¬ (h = [] ∨ 253 < h.length ∨
      h.all (fun b => isAsciiAlphanumeric b || b == 46 || b == 45) = false) ↔ NamedHost h := by
    intro h
    simp only [not_or, Nat.not_lt, Bool.not_eq_false, List.all_eq_true]
    exact Iff.rfl
  unfold parseNamedAuthority
  constructor
  · intro hparse
    cases hsplit : rsplitOnce 58 authority with
    | none =>
      rw [hsplit] at hparse
      obtain ⟨hok, hret⟩ := rejectIf_bind_eq_ok.mp hparse
      cases hret
      exact ⟨authority, (List.append_nil _).symm, (hcheck _).mp hok, rfl, fun _ h => nomatch h⟩
    | some pair =>
      obtain ⟨h, p⟩ := pair
      rw [hsplit] at hparse
      obtain ⟨hok, hret⟩ := rejectIf_bind_eq_ok.mp hparse
      cases hret
      obtain ⟨heq, hp⟩ := append_of_rsplitOnce hsplit
      refine ⟨h, heq, (hcheck _).mp hok, rfl, fun q hq => ?_⟩
      cases hq
      exact hp
  · rintro ⟨h, rfl, hnamed, rfl, hport⟩
    have hcolon : 58 ∉ h := not_mem_of_forall hnamed.2.2 (by decide)
    cases port with
    | none =>
      rw [portText, List.append_nil, rsplitOnce_none hcolon]
      exact rejectIf_bind_eq_ok.mpr ⟨(hcheck h).mpr hnamed, rfl⟩
    | some p =>
      rw [portText, rsplitOnce_append h (hport p rfl)]
      exact rejectIf_bind_eq_ok.mpr ⟨(hcheck h).mpr hnamed, rfl⟩

def afterBracket (host : Bytes) : Bytes → Except OriginError (Bytes × Option Bytes)
  | [] => .ok (host, none)
  | b :: port => if b = 58 then .ok (host, some port) else .error .invalidHost

def isInner (inner : Bytes) : Bool := inner.contains 58 && inner.all isAddressByte

theorem isInner_iff {inner : Bytes} :
    isInner inner = true ↔ 58 ∈ inner ∧ ∀ b ∈ inner, isAddressByte b = true := by
  simp [isInner]

theorem findIdx?_bracket {inner : Bytes} (hinner : 93 ∉ inner) (t : Bytes) :
    (91 :: inner ++ 93 :: t).findIdx? (· == 93) = some (91 :: inner).length := by
  have hnone : (91 :: inner).findIdx? (· == 93) = none := by
    rw [List.findIdx?_eq_none_iff]
    intro b hb
    refine beq_eq_false_iff_ne.mpr fun h => ?_
    rcases List.mem_cons.mp hb with rfl | hb
    · cases h
    · exact hinner (h ▸ hb)
  rw [List.findIdx?_append, hnone]
  simp [List.findIdx?_cons]

/-- The check of `parse_ipv6_authority` on what stands between the brackets. -/
theorem not_isInner_iff (inner : Bytes) : ¬ isInner inner = true ↔
    inner = [] ∨ inner.contains 58 = false ∨
      inner.all (fun b => isAsciiHexdigit b || b == 58 || b == 46) = false := by
  rw [← not_iff_not, not_not, isInner_iff]
  simp only [not_or, Bool.not_eq_false, List.all_eq_true, List.contains_iff_mem]
  exact (and_iff_right_of_imp fun h hnil => List.not_mem_nil (hnil ▸ h.1)).symm

theorem parseIpv6Authority_append {inner : Bytes} (hinner : 93 ∉ inner) (t : Bytes) :
    parseIpv6Authority (91 :: inner ++ 93 :: t) =
      if isInner inner then
        afterBracket ((91 :: inner ++ [93]).map toAsciiLowercase) t
      else .error .invalidHost := by
  have htake : (91 :: inner ++ 93 :: t).take ((91 :: inner).length + 1) = 91 :: inner ++ [93] := by
    rw [List.take_length_add_append]
    rfl
  have hdrop : (91 :: inner ++ 93 :: t).drop ((91 :: inner).length + 1) = t := by
    rw [List.drop_length_add_append]
    rfl
  unfold parseIpv6Authority
  rw [findIdx?_bracket hinner, orError]
  change (rejectIf _ _ >>= _) = _
  rw [List.take_left, htake, hdrop, List.drop_one, List.tail_cons]
  by_cases hok : isInner inner = true
  · rw [if_pos hok, rejectIf, if_neg fun h => (not_isInner_iff inner).mpr h hok]
    cases t with
    | nil => rfl
    | cons b port =>
      by_cases hb : b = 58
      · subst hb
        rfl
      · rw [afterBracket, if_neg hb]
        change (rejectIf (b ≠ 58) _ >>= _) = _
        rw [rejectIf, if_pos hb]
        rfl
  · rw [if_neg hok, rejectIf, if_pos ((not_isInner_iff inner).mp hok)]
    rfl

theorem afterBracket_eq_ok_iff {t h : Bytes} :
    afterBracket h t = .ok (host, port) ↔ t = portText port ∧ host = h := by
  cases t with
  | nil =>
    cases port with
    | none => simp [afterBracket, portText, eq_comm]
    | some p => simp [afterBracket, portText]
  | cons b t =>
    rw [afterBracket]
    split_ifs with hb
    · cases port with
      | none => simp [portText]
      | some p => simp [portText, hb, eq_comm, and_comm]
    · cases port with
      | none => simp [portText]
      | some p => simp [portText, hb]

theorem parseIpv6Authority_eq_ok_iff (hhead : authority.head? = some 91) :
    parseIpv6Authority authority = .ok (host, port) ↔ ∃ h, authority = h ++ portText port ∧
      BracketedHost h ∧ host = h.map toAsciiLowercase := by
  constructor
  · intro hparse
    have hmem : 93 ∈ authority := by
      by_contra hnot
      have hnone : authority.findIdx? (· == 93) = none := by
        rw [List.findIdx?_eq_none_iff]
        exact fun b hb => beq_eq_false_iff_ne.mpr fun h => hnot (h ▸ hb)
      rw [parseIpv6Authority, hnone] at hparse
      cases hparse
    obtain ⟨front, t, rfl, hfront⟩ := List.eq_append_cons_of_mem hmem
    cases front with
    | nil => cases hhead
    | cons b inner =>
      cases hhead
      have hinner : 93 ∉ inner := fun h => hfront (List.mem_cons_of_mem _ h)
      rw [parseIpv6Authority_append hinner] at hparse
      split_ifs at hparse with hok
      obtain ⟨rfl, rfl⟩ := afterBracket_eq_ok_iff.mp hparse
      obtain ⟨hcolon, haddress⟩ := isInner_iff.mp hok
      exact ⟨91 :: inner ++ [93], by simp, ⟨inner, rfl, hcolon, haddress⟩, rfl⟩
  · rintro ⟨h, rfl, ⟨inner, rfl, hcolon, hinner⟩, rfl⟩
    have hbracket : 93 ∉ inner := not_mem_of_forall hinner (by decide)
    rw [List.append_assoc, List.singleton_append, parseIpv6Authority_append hbracket,
      if_pos (isInner_iff.mpr ⟨hcolon, hinner⟩)]
    exact afterBracket_eq_ok_iff.mpr ⟨rfl, rfl⟩

theorem parsePort_eq_ok_iff {d : ℕ} {n : Option ℕ} :
    parsePort d (some p) = .ok n ↔ PortDigits p ∧
      n = if digitsValue 10 p = d then none else some (digitsValue 10 p) := by
  rw [parsePort, rejectIf_bind_eq_ok]
  dsimp only
  rw [rejectIf_bind_eq_ok, rejectIf_bind_eq_ok]
  simp only [not_or, Nat.not_lt, Bool.not_eq_false, List.all_eq_true]
  constructor
  · rintro ⟨⟨hne, hlength, hdigits⟩, hsmall, hpositive, hret⟩
    cases hret
    exact ⟨⟨hne, hlength, hdigits, hsmall, hpositive⟩, rfl⟩
  · rintro ⟨⟨hne, hlength, hdigits, hsmall, hpositive⟩, rfl⟩
    exact ⟨⟨hne, hlength, hdigits⟩, hsmall, hpositive, rfl⟩

end Authority

def isStop (b : UInt8) : Bool := b == 47 || b == 63 || b == 35

structure Pieces where
  scheme : Bytes
  host : Bytes
  port : Option Bytes
  rest : Bytes

namespace Pieces

def authority (u : Pieces) : Bytes := u.host ++ portText u.port

def text (u : Pieces) : Bytes := u.scheme ++ ascii "://" ++ (u.authority ++ u.rest)

def defaultPort (u : Pieces) : ℕ :=
  if u.scheme.map toAsciiLowercase = ascii "https" then 443 else 80

structure WellFormed (u : Pieces) : Prop where
  scheme : u.scheme.map toAsciiLowercase = ascii "https" ∨
    u.scheme.map toAsciiLowercase = ascii "http"
  host : NamedHost u.host ∨ BracketedHost u.host
  port : ∀ p, u.port = some p → PortDigits p
  rest : ∀ b, u.rest.head? = some b → isStop b = true

/-- The port in its shortest form, or none where it is the one of the scheme. -/
def canonicalPort (u : Pieces) : Option Bytes :=
  u.port.bind fun p => if digitsValue 10 p = u.defaultPort then none
    else some (numeral 10 (digitsValue 10 p))

def canonical (u : Pieces) : Pieces :=
  ⟨u.scheme.map toAsciiLowercase, u.host.map toAsciiLowercase, u.canonicalPort, u.rest⟩

def origin (u : Pieces) : Bytes := u.canonical.scheme ++ ascii "://" ++ u.canonical.authority

end Pieces

section
variable {u v : Pieces}

theorem not_stop_of_host {host : Bytes} (h : NamedHost host ∨ BracketedHost host) :
    ∀ b ∈ host, isStop b = false ∧ b ≠ 64 := by
  intro b hb
  rcases h with ⟨-, -, hbytes⟩ | ⟨inner, rfl, -, hbytes⟩
  · have := hbytes b hb
    unfold isHostByte isAsciiAlphanumeric isAsciiDigit isAsciiUppercase isAsciiLowercase at this
    unfold isStop
    grind
  · rw [List.mem_append, List.mem_cons, List.mem_singleton] at hb
    obtain (rfl | hb) | rfl := hb
    · decide
    · have := hbytes b hb
      unfold isAddressByte isAsciiHexdigit isAsciiDigit at this
      unfold isStop
      grind
    · decide

theorem not_stop_of_authority (hu : u.WellFormed) : ∀ b ∈ u.authority, isStop b = false ∧ b ≠ 64 := by
  intro b hb
  rcases List.mem_append.mp hb with hb | hb
  · exact not_stop_of_host hu.host b hb
  · cases hport : u.port with
    | none =>
      rw [hport] at hb
      cases hb
    | some p =>
      rw [hport] at hb
      rcases List.mem_cons.mp hb with rfl | hb
      · decide
      · have := (hu.port p hport).digits b hb
        unfold isAsciiDigit at this
        unfold isStop
        grind

theorem parseScheme_eq_ok_iff {scheme name : Bytes} {d : ℕ} :
    parseScheme scheme = .ok (name, d) ↔ scheme.map toAsciiLowercase = name ∧
      (name = ascii "https" ∧ d = 443 ∨ name = ascii "http" ∧ d = 80) := by
  have hlower : ∀ word, (ascii word).map toAsciiLowercase = ascii word →
      (eqIgnoreAsciiCase scheme (ascii word) = true ↔
        scheme.map toAsciiLowercase = ascii word) := by
    intro word hword
    rw [eqIgnoreAsciiCase, beq_iff_eq, hword]
  have hs := hlower "https" (by decide)
  have hp := hlower "http" (by decide)
  have hne : ascii "https" ≠ ascii "http" := by decide
  rw [parseScheme]
  split_ifs with h₁ h₂
  · simp only [Except.ok.injEq, Prod.mk.injEq, hs.mp h₁]
    grind
  · simp only [Except.ok.injEq, Prod.mk.injEq, hp.mp h₂]
    grind
  · rw [hs] at h₁
    rw [hp] at h₂
    simp only [false_iff]
    grind

theorem findIdx_append_stop {a rest : Bytes} (ha : ∀ b ∈ a, isStop b = false)
    (hrest : ∀ b, rest.head? = some b → isStop b = true) :
    (a ++ rest).findIdx isStop = a.length := by
  induction a with
  | nil =>
    cases rest with
    | nil => rfl
    | cons b rest => simp [List.findIdx_cons, hrest b rfl]
  | cons b a ih =>
    obtain ⟨hb, ha⟩ := List.forall_mem_cons.mp ha
    simp [List.findIdx_cons, hb, ih ha]

theorem head_drop_findIdx (s : Bytes) {b : UInt8}
    (h : (s.drop (s.findIdx isStop)).head? = some b) : isStop b = true := by
  have hdrop : s.drop (s.findIdx isStop) = s.dropWhile (fun b => !isStop b) := by
    rw [List.dropWhile_eq_drop_findIdx_not]
    simp
  have hnot := List.head?_dropWhile_not (fun b => !isStop b) s
  rw [hdrop] at h
  rw [h] at hnot
  simpa using hnot

theorem scheme_no_colon (hu : u.WellFormed) : 58 ∉ u.scheme := by
  intro hmem
  have hlower : toAsciiLowercase 58 ∈ u.scheme.map toAsciiLowercase := List.mem_map_of_mem hmem
  rcases hu.scheme with h | h <;> rw [h] at hlower <;> exact absurd hlower (by decide)

theorem authority_head (hu : u.WellFormed) :
    u.authority.head? = some 91 ↔ BracketedHost u.host := by
  constructor
  · intro hhead
    rcases hu.host with ⟨hne, -, hbytes⟩ | h
    · obtain ⟨b, host, hhost⟩ := List.exists_cons_of_ne_nil hne
      rw [Pieces.authority, hhost] at hhead
      have := hbytes b (hhost ▸ List.mem_cons_self)
      cases hhead
      cases this
    · exact h
  · rintro ⟨inner, hhost, -⟩
    rw [Pieces.authority, hhost]
    rfl

theorem parsePort_eq_ok_iff_canonical {n : Option ℕ} :
    parsePort u.defaultPort u.port = .ok n ↔ (∀ p, u.port = some p → PortDigits p) ∧
      n = u.port.bind fun p => if digitsValue 10 p = u.defaultPort then none
        else some (digitsValue 10 p) := by
  cases hport : u.port with
  | none => simp [parsePort, eq_comm]
  | some p =>
    rw [parsePort_eq_ok_iff]
    simp

theorem canonicalPort_eq (u : Pieces) :
    u.canonicalPort = (u.port.bind fun p => if digitsValue 10 p = u.defaultPort then none
      else some (digitsValue 10 p)).map (numeral 10) := by
  rw [Pieces.canonicalPort]
  cases u.port with
  | none => rfl
  | some p =>
    rw [Option.bind_some, Option.bind_some]
    split_ifs <;> rfl

theorem origin_eq (u : Pieces) :
    u.origin = u.canonical.scheme ++ ascii "://" ++ u.canonical.host ++
      portText ((u.port.bind fun p => if digitsValue 10 p = u.defaultPort then none
        else some (digitsValue 10 p)).map (numeral 10)) := by
  rw [← canonicalPort_eq, Pieces.origin, Pieces.authority, ← List.append_assoc]
  rfl

theorem defaultPort_of_scheme {name : Bytes} {d : ℕ} (hname : u.scheme.map toAsciiLowercase = name)
    (hd : name = ascii "https" ∧ d = 443 ∨ name = ascii "http" ∧ d = 80) : d = u.defaultPort := by
  rw [Pieces.defaultPort, hname]
  rcases hd with ⟨rfl, rfl⟩ | ⟨rfl, rfl⟩
  · rw [if_pos rfl]
  · rw [if_neg (by decide)]

theorem parseOrigin_text (hu : u.WellFormed) : parseOrigin u.text = .ok (u.origin, u.rest) := by
  have hstop : (u.authority ++ u.rest).findIdx isStop = u.authority.length :=
    findIdx_append_stop (fun b hb => (not_stop_of_authority hu b hb).1) hu.rest
  have hsplit : splitOnce (ascii "://") u.text = some (u.scheme, u.authority ++ u.rest) :=
    splitOnce_append (scheme_no_colon hu) _
  have hauthority : (if u.authority.head? = some 91 then parseIpv6Authority u.authority
      else parseNamedAuthority u.authority) = .ok (u.canonical.host, u.port) := by
    split_ifs with hhead
    · exact (parseIpv6Authority_eq_ok_iff hhead).mpr
        ⟨u.host, rfl, (authority_head hu).mp hhead, rfl⟩
    · rw [authority_head hu] at hhead
      refine parseNamedAuthority_eq_ok_iff.mpr
        ⟨u.host, rfl, hu.host.resolve_right hhead, rfl, fun p hp => ?_⟩
      exact not_mem_of_forall (hu.port p hp).digits (by decide)
  have hscheme : parseScheme u.scheme = .ok (u.canonical.scheme, u.defaultPort) := by
    rcases hu.scheme with h | h
    · rw [← defaultPort_of_scheme h (.inl ⟨rfl, rfl⟩)]
      exact parseScheme_eq_ok_iff.mpr ⟨rfl, .inl ⟨h, rfl⟩⟩
    · rw [← defaultPort_of_scheme h (.inr ⟨rfl, rfl⟩)]
      exact parseScheme_eq_ok_iff.mpr ⟨rfl, .inr ⟨h, rfl⟩⟩
  refine orError_bind_eq_ok.mpr ⟨_, hsplit, bind_eq_ok.mpr ⟨_, hscheme, ?_⟩⟩
  dsimp only
  rw [show (fun b : UInt8 => b == 47 || b == 63 || b == 35) = isStop from rfl, hstop,
    List.take_left, List.drop_left]
  refine rejectIf_bind_eq_ok.mpr ⟨?_, ite_bind_eq_ok.mpr ⟨_, hauthority, bind_eq_ok.mpr
    ⟨_, parsePort_eq_ok_iff_canonical.mpr ⟨hu.port, rfl⟩, ?_⟩⟩⟩
  · rw [List.contains_iff_mem]
    exact fun hmem => (not_stop_of_authority hu 64 hmem).2 rfl
  · rw [origin_eq]
    cases u.port.bind fun p => if digitsValue 10 p = u.defaultPort then none
      else some (digitsValue 10 p) <;> rfl

theorem parseOrigin_eq_ok_iff {s o rest : Bytes} :
    parseOrigin s = .ok (o, rest) ↔
      ∃ u : Pieces, u.WellFormed ∧ s = u.text ∧ o = u.origin ∧ rest = u.rest := by
  constructor
  · intro h
    obtain ⟨⟨scheme, after⟩, hsplit, h⟩ := orError_bind_eq_ok.mp h
    obtain ⟨⟨name, d⟩, hscheme, h⟩ := bind_eq_ok.mp h
    obtain ⟨-, h⟩ := rejectIf_bind_eq_ok.mp h
    obtain ⟨⟨host, port⟩, hauthority, h⟩ := ite_bind_eq_ok.mp h
    obtain ⟨n, hport, h⟩ := bind_eq_ok.mp h
    cases h
    obtain ⟨rfl, hd⟩ := parseScheme_eq_ok_iff.mp hscheme
    rw [show (fun b : UInt8 => b == 47 || b == 63 || b == 35) = isStop from rfl] at hauthority ⊢
    obtain ⟨hst, htake, hhost, rfl⟩ : ∃ hst, after.take (after.findIdx isStop) =
        hst ++ portText port ∧ (NamedHost hst ∨ BracketedHost hst) ∧
        host = hst.map toAsciiLowercase := by
      split_ifs at hauthority with hhead
      · obtain ⟨hst, htake, hhost, rfl⟩ := (parseIpv6Authority_eq_ok_iff hhead).mp hauthority
        exact ⟨hst, htake, .inr hhost, rfl⟩
      · obtain ⟨hst, htake, hhost, rfl, -⟩ := parseNamedAuthority_eq_ok_iff.mp hauthority
        exact ⟨hst, htake, .inl hhost, rfl⟩
    let u : Pieces := ⟨scheme, hst, port, after.drop (after.findIdx isStop)⟩
    obtain rfl : d = u.defaultPort := defaultPort_of_scheme rfl hd
    obtain ⟨hdigits, rfl⟩ := (parsePort_eq_ok_iff_canonical (u := u)).mp hport
    refine ⟨u, ⟨?_, hhost, hdigits, fun b => head_drop_findIdx after⟩, ?_, ?_, rfl⟩
    · exact hd.imp And.left And.left
    · rw [append_of_splitOnce hsplit, Pieces.text, Pieces.authority, ← htake,
        List.take_append_drop]
    · rw [origin_eq]
      cases u.port.bind fun p => if digitsValue 10 p = u.defaultPort then none
        else some (digitsValue 10 p) <;> rfl
  · rintro ⟨u, hu, rfl, rfl, rfl⟩
    exact parseOrigin_text hu

end

section Ports

theorem digitsValue_zero_cons (q : Bytes) : digitsValue 10 (48 :: q) = digitsValue 10 q := by
  have hzero : digitValue 48 = 0 := by decide
  rw [digitsValue_cons, hzero, Nat.mul_zero, Nat.add_zero]

theorem port_eq_zeros_append {p : Bytes} (hp : ∀ b ∈ p, isAsciiDigit b = true)
    (hpos : digitsValue 10 p ≠ 0) :
    ∃ zeros : Bytes, (∀ b ∈ zeros, b = 48) ∧ p = zeros ++ numeral 10 (digitsValue 10 p) := by
  induction p with
  | nil => exact absurd rfl hpos
  | cons b p ih =>
    by_cases hb : b = 48
    · subst hb
      rw [digitsValue_zero_cons] at hpos ⊢
      obtain ⟨zeros, hzeros, heq⟩ := ih (List.forall_mem_cons.mp hp).2 hpos
      exact ⟨48 :: zeros, List.forall_mem_cons.mpr ⟨rfl, hzeros⟩, congrArg (48 :: ·) heq⟩
    · refine ⟨[], (fun _ h => nomatch h), ?_⟩
      rw [List.nil_append, numeral_digitsValue hp (List.cons_ne_nil b p)]
      exact fun h => hb (Option.some.inj h)

theorem portDigits_numeral {p : Bytes} (hp : PortDigits p) :
    PortDigits (numeral 10 (digitsValue 10 p)) := by
  obtain ⟨zeros, -, heq⟩ := port_eq_zeros_append hp.digits hp.positive
  have hvalue := digitsValue_numeral (show 1 < 10 by decide) (by decide) (digitsValue 10 p)
  refine ⟨numeral_ne_nil _ _, ?_, fun b hb => ?_, ?_, ?_⟩
  · have hlength := congrArg List.length heq
    rw [List.length_append] at hlength
    have := hp.length
    omega
  · exact hp.digits b (heq ▸ List.mem_append_right zeros hb)
  · exact hvalue.symm ▸ hp.small
  · exact hvalue.symm ▸ hp.positive

end Ports

section
variable {u v : Pieces}

theorem toAsciiLowercase_toAsciiLowercase (b : UInt8) :
    toAsciiLowercase (toAsciiLowercase b) = toAsciiLowercase b := by
  unfold toAsciiLowercase isAsciiUppercase
  grind

theorem lower_lower (s : Bytes) :
    (s.map toAsciiLowercase).map toAsciiLowercase = s.map toAsciiLowercase := by
  rw [List.map_map]
  exact List.map_congr_left fun b _ => toAsciiLowercase_toAsciiLowercase b

theorem isHostByte_lower {b : UInt8} (h : isHostByte b = true) :
    isHostByte (toAsciiLowercase b) = true := by
  rw [toAsciiLowercase]
  split_ifs with hupper
  · simp only [isHostByte, isAsciiAlphanumeric, isAsciiLowercase, isAsciiUppercase,
      isAsciiDigit, Bool.or_eq_true, Bool.and_eq_true, decide_eq_true_eq, beq_iff_eq] at *
    grind
  · exact h

theorem isAddressByte_lower {b : UInt8} (h : isAddressByte b = true) :
    isAddressByte (toAsciiLowercase b) = true := by
  rw [toAsciiLowercase]
  split_ifs with hupper
  · simp only [isAddressByte, isAsciiHexdigit, isAsciiUppercase, isAsciiDigit, Bool.or_eq_true,
      Bool.and_eq_true, decide_eq_true_eq, beq_iff_eq] at *
    grind
  · exact h

theorem namedHost_lower {host : Bytes} (h : NamedHost host) :
    NamedHost (host.map toAsciiLowercase) := by
  refine ⟨?_, ?_, fun b hb => ?_⟩
  · rw [Ne, List.map_eq_nil_iff]
    exact h.1
  · rw [List.length_map]
    exact h.2.1
  · obtain ⟨c, hc, rfl⟩ := List.mem_map.mp hb
    exact isHostByte_lower (h.2.2 c hc)

theorem bracketedHost_lower {host : Bytes} (h : BracketedHost host) :
    BracketedHost (host.map toAsciiLowercase) := by
  obtain ⟨inner, rfl, hcolon, hinner⟩ := h
  refine ⟨inner.map toAsciiLowercase, ?_, List.mem_map.mpr ⟨58, hcolon, rfl⟩, fun b hb => ?_⟩
  · rw [List.map_append]
    rfl
  · obtain ⟨c, hc, rfl⟩ := List.mem_map.mp hb
    exact isAddressByte_lower (hinner c hc)

def Pieces.withRest (u : Pieces) (rest : Bytes) : Pieces := { u.canonical with rest := rest }

theorem withRest_text (u : Pieces) (rest : Bytes) : (u.withRest rest).text = u.origin ++ rest := by
  rw [Pieces.text, Pieces.origin, List.append_assoc, List.append_assoc, List.append_assoc]
  rfl

theorem withRest_wellFormed (hu : u.WellFormed) {rest : Bytes}
    (hrest : ∀ b, rest.head? = some b → isStop b = true) : (u.withRest rest).WellFormed := by
  refine ⟨?_, ?_, fun p hp => ?_, hrest⟩
  · exact (lower_lower u.scheme).symm ▸ hu.scheme
  · exact hu.host.imp namedHost_lower bracketedHost_lower
  · obtain ⟨q, hq, hsome⟩ := Option.bind_eq_some_iff.mp hp
    split_ifs at hsome
    cases hsome
    exact portDigits_numeral (hu.port q hq)

theorem withRest_defaultPort (u : Pieces) (rest : Bytes) :
    (u.withRest rest).defaultPort = u.defaultPort := by
  have hscheme : (u.withRest rest).scheme.map toAsciiLowercase = u.scheme.map toAsciiLowercase :=
    lower_lower u.scheme
  simp only [Pieces.defaultPort, hscheme]

theorem withRest_origin (u : Pieces) (rest : Bytes) : (u.withRest rest).origin = u.origin := by
  have hport : (u.withRest rest).canonicalPort = u.canonicalPort := by
    rw [Pieces.canonicalPort, withRest_defaultPort]
    change u.canonicalPort.bind _ = _
    rw [Pieces.canonicalPort]
    cases u.port with
    | none => rfl
    | some p =>
      rw [Option.bind_some]
      split_ifs with hdefault
      · rfl
      · rw [Option.bind_some, digitsValue_numeral (by decide) (by decide), if_neg hdefault]
  rw [Pieces.origin, Pieces.origin, Pieces.authority, Pieces.authority]
  change (u.scheme.map toAsciiLowercase).map toAsciiLowercase ++ _ ++
    ((u.host.map toAsciiLowercase).map toAsciiLowercase ++ portText (u.withRest rest).canonicalPort) =
      _
  rw [lower_lower, lower_lower, hport]
  rfl

theorem portText_injective {p q : Option Bytes} (h : portText p = portText q) : p = q := by
  cases p <;> cases q <;> simp_all [portText]

theorem bracketed_split {host : Bytes} (h : BracketedHost host) (t : Bytes) :
    ∃ a, host = a ++ [93] ∧ splitOnce [93] (host ++ t) = some (a, t) := by
  obtain ⟨inner, rfl, -, hinner⟩ := h
  have hbracket : 93 ∉ 91 :: inner := by
    refine List.not_mem_cons_of_ne_of_not_mem (by decide) ?_
    exact not_mem_of_forall hinner (by decide)
  exact ⟨91 :: inner, rfl, splitOnce_append hbracket t⟩

theorem named_split (hu : u.WellFormed) (hhost : NamedHost u.host) :
    rsplitOnce 58 u.authority = u.port.map (u.host, ·) := by
  rw [Pieces.authority]
  cases hport : u.port with
  | none =>
    rw [portText, List.append_nil]
    exact rsplitOnce_none (not_mem_of_forall hhost.2.2 (by decide))
  | some p => exact rsplitOnce_append _ (not_mem_of_forall (hu.port p hport).digits (by decide))

/-- A text has one authority, and an authority one host and one port. -/
theorem authority_injective (hu : u.WellFormed) (hv : v.WellFormed)
    (h : u.authority = v.authority) : u.host = v.host ∧ u.port = v.port := by
  by_cases hhead : u.authority.head? = some 91
  · obtain ⟨a, ha, hsplit⟩ := bracketed_split ((authority_head hu).mp hhead) (portText u.port)
    obtain ⟨b, hb, hsplit'⟩ :=
      bracketed_split ((authority_head hv).mp (h ▸ hhead)) (portText v.port)
    have hsame : (a, portText u.port) = (b, portText v.port) :=
      Option.some.inj (hsplit.symm.trans ((congrArg (splitOnce [93]) h).trans hsplit'))
    obtain ⟨rfl, hport⟩ := Prod.mk.inj hsame
    exact ⟨ha.trans hb.symm, portText_injective hport⟩
  · have hhost := hu.host.resolve_right fun hb => hhead ((authority_head hu).mpr hb)
    have hhost' := hv.host.resolve_right fun hb => hhead (h ▸ (authority_head hv).mpr hb)
    have hsplit := (named_split hu hhost).symm.trans
      ((congrArg (rsplitOnce 58) h).trans (named_split hv hhost'))
    cases hport : u.port <;> cases hport' : v.port <;> rw [hport, hport'] at hsplit
    · rw [Pieces.authority, Pieces.authority, hport, hport'] at h
      exact ⟨by simpa [portText] using h, rfl⟩
    · cases hsplit
    · cases hsplit
    · obtain ⟨hsame, hp⟩ := Prod.mk.inj (Option.some.inj hsplit)
      exact ⟨hsame, congrArg some hp⟩

theorem text_injective (hu : u.WellFormed) (hv : v.WellFormed) (h : u.text = v.text) : u = v := by
  have hsplit : splitOnce (ascii "://") u.text = some (u.scheme, u.authority ++ u.rest) :=
    splitOnce_append (scheme_no_colon hu) _
  have hsplit' : splitOnce (ascii "://") v.text = some (v.scheme, v.authority ++ v.rest) :=
    splitOnce_append (scheme_no_colon hv) _
  obtain ⟨hscheme, hafter⟩ := Prod.mk.inj (Option.some.inj (hsplit.symm.trans (h ▸ hsplit')))
  have hstop := findIdx_append_stop (fun b hb => (not_stop_of_authority hu b hb).1) hu.rest
  have hstop' := findIdx_append_stop (fun b hb => (not_stop_of_authority hv b hb).1) hv.rest
  obtain ⟨hauthority, hrest⟩ :=
    List.append_inj hafter (hstop.symm.trans (hafter ▸ hstop'))
  obtain ⟨hhost, hport⟩ := authority_injective hu hv hauthority
  cases u
  cases v
  simp_all

end

end FandheBackend.JwtDpopOrigin
