import FandheBackend.JwtDpopHtu
import Mathlib.Data.List.TakeWhile

set_option autoImplicit false

namespace FandheBackend.JwtDpopOrigin
open StdBytes ExceptChecks

def pathOf (rest : Bytes) : Bytes := (rest.takeWhile (· != 35)).takeWhile (· != 63)

theorem takeWhile_ne_self {c : UInt8} {s : Bytes} (h : c ∉ s) : s.takeWhile (· != c) = s := by
  refine List.takeWhile_eq_self_iff.mpr fun b hb => ?_
  exact bne_iff_ne.mpr fun heq => h (heq ▸ hb)

theorem not_mem_takeWhile_ne (c : UInt8) (s : Bytes) : c ∉ s.takeWhile (· != c) := by
  intro hmem
  have hne := List.mem_takeWhile_imp hmem
  simp at hne

theorem head_dropWhile_ne {c b : UInt8} {s : Bytes}
    (h : (s.dropWhile (· != c)).head? = some b) : b = c := by
  have hnot := List.head?_dropWhile_not (· != c) s
  rw [h] at hnot
  simpa using hnot

theorem pathOf_self {p : Bytes} (h35 : 35 ∉ p) (h63 : 63 ∉ p) : pathOf p = p := by
  rw [pathOf, takeWhile_ne_self h35, takeWhile_ne_self h63]

theorem not_mem_pathOf (rest : Bytes) : 35 ∉ pathOf rest ∧ 63 ∉ pathOf rest := by
  refine ⟨fun h => ?_, not_mem_takeWhile_ne 63 _⟩
  exact not_mem_takeWhile_ne 35 rest ((List.takeWhile_sublist _).subset h)

theorem eq_pathOf_append (rest : Bytes) :
    ∃ tail, rest = pathOf rest ++ tail ∧
      (tail = [] ∨ tail.head? = some 63 ∨ tail.head? = some 35) := by
  have hquery := List.takeWhile_append_dropWhile (p := (· != 63)) (l := rest.takeWhile (· != 35))
  have hfragment := List.takeWhile_append_dropWhile (p := (· != 35)) (l := rest)
  refine ⟨(rest.takeWhile (· != 35)).dropWhile (· != 63) ++ rest.dropWhile (· != 35), ?_, ?_⟩
  · rw [← List.append_assoc, pathOf, hquery, hfragment]
  · cases hq : (rest.takeWhile (· != 35)).dropWhile (· != 63) with
    | cons b q =>
      have hb := head_dropWhile_ne (c := 63) (by rw [hq]; rfl)
      exact .inr (.inl (congrArg some hb))
    | nil =>
      cases hf : rest.dropWhile (· != 35) with
      | nil => exact .inl rfl
      | cons b f =>
        have hb := head_dropWhile_ne (c := 35) (by rw [hf]; rfl)
        exact .inr (.inr (congrArg some hb))

theorem normalizeProofHtu_eq_some_iff {x y : Bytes} :
    normalizeProofHtu x = some y ↔ x.length ≤ maxHtuLen ∧ ∃ (u : Pieces) (path : Bytes),
      u.WellFormed ∧ x = u.text ∧ normalizePath (pathOf u.rest) = some path ∧
      y = u.origin ++ path := by
  rw [normalizeProofHtu]
  split_ifs with hlength
  · simp [Nat.not_le.mpr hlength]
  · rw [and_iff_right (Nat.le_of_not_lt hlength)]
    constructor
    · intro h
      split at h
      · cases h
      · next origin rest hparse =>
        obtain ⟨path, hpath, rfl⟩ := Option.map_eq_some_iff.mp h
        obtain ⟨u, hu, hx, rfl, rfl⟩ := parseOrigin_eq_ok_iff.mp hparse
        exact ⟨u, path, hu, hx, hpath, rfl⟩
    · rintro ⟨u, path, hu, rfl, hpath, rfl⟩
      rw [parseOrigin_text hu]
      exact Option.map_eq_some_iff.mpr ⟨path, hpath, rfl⟩

theorem expectedHtu_eq_some_iff {o : PublicOrigin} {p h : Bytes} :
    o.expectedHtu p = some h ↔ (p.head? = some 47 ∧ 63 ∉ p ∧ 35 ∉ p) ∧
      ∃ path, normalizePath p = some path ∧ h = o.text ++ path ∧ h.length ≤ maxHtuLen := by
  have hmem : ∀ b, p.contains b = false ↔ b ∉ p := by
    intro b
    rw [Bool.eq_false_iff, Ne, List.contains_iff_mem]
  rw [← hmem, ← hmem, PublicOrigin.expectedHtu]
  by_cases hguard : p.head? = some 47 ∧ p.contains 63 = false ∧ p.contains 35 = false
  · rw [guard, if_pos hguard, and_iff_right hguard]
    cases hpath : normalizePath p with
    | none =>
      constructor
      · exact fun hnone => nomatch hnone
      · rintro ⟨path, hsome, -⟩
        cases hsome
    | some path =>
      change (guard ((o.text ++ path).length ≤ maxHtuLen) >>= fun _ => some (o.text ++ path)) = _ ↔
        _
      rw [guard]
      by_cases hlength : (o.text ++ path).length ≤ maxHtuLen
      · rw [if_pos hlength]
        constructor
        · rintro ⟨⟩
          exact ⟨path, rfl, rfl, hlength⟩
        · rintro ⟨path', hsome, rfl, -⟩
          cases hsome
          rfl
      · rw [if_neg hlength]
        constructor
        · exact fun hnone => nomatch hnone
        · rintro ⟨path', hsome, rfl, hle⟩
          cases hsome
          exact absurd hle hlength
  · rw [guard, if_neg hguard]
    constructor
    · exact fun hnone => nomatch hnone
    · exact fun h => absurd h.1 hguard

section
variable {u : Pieces} {p path : Bytes}

theorem isStop_of_head (h : p.head? = some 47) (b : UInt8) (hb : p.head? = some b) :
    isStop b = true := by
  cases h.symm.trans hb
  rfl

theorem not_mem_normalizePath {b : UInt8} (hb : isAsciiHexdigit b = false) (hslash : b ≠ 47)
    (h : normalizePath p = some path) (hp : b ∉ p) : b ∉ path := by
  rcases normalizePath_eq_some_iff.mp h with ⟨-, rfl⟩ | ⟨-, hbytes, -⟩
  · exact fun hmem => hslash (List.mem_singleton.mp hmem)
  · exact fun hmem => hp ((escapeCase_normalizeBytes hbytes).symm.mem hb hmem)

theorem normalizeProofHtu_origin (hu : u.WellFormed) (hp : p.head? = some 47) (h35 : 35 ∉ p)
    (h63 : 63 ∉ p) (hpath : normalizePath p = some path)
    (hlength : (u.origin ++ p).length ≤ maxHtuLen) :
    normalizeProofHtu (u.origin ++ p) = some (u.origin ++ path) := by
  refine normalizeProofHtu_eq_some_iff.mpr ⟨hlength, u.withRest p, path,
    withRest_wellFormed hu (isStop_of_head hp), (withRest_text u p).symm, ?_, ?_⟩
  · change normalizePath (pathOf p) = some path
    rw [pathOf_self h35 h63]
    exact hpath
  · rw [withRest_origin]

theorem PublicOrigin.pieces (o : PublicOrigin) : ∃ u : Pieces, u.WellFormed ∧ o.text = u.origin := by
  obtain ⟨text, origin, hbuilt⟩ := o
  obtain ⟨-, h⟩ := rejectIf_bind_eq_ok.mp hbuilt
  obtain ⟨⟨normalized, rest⟩, hparse, h⟩ := bind_eq_ok.mp h
  obtain ⟨u, hu, -, rfl, -⟩ := parseOrigin_eq_ok_iff.mp hparse
  dsimp only at h
  split_ifs at h
  cases h
  exact ⟨u, hu, rfl⟩

theorem canonicalPort_length_le (hu : u.WellFormed) :
    (portText u.canonicalPort).length ≤ (portText u.port).length := by
  rw [Pieces.canonicalPort]
  cases hport : u.port with
  | none => exact Nat.le_refl _
  | some p =>
    obtain ⟨zeros, -, heq⟩ :=
      port_eq_zeros_append (hu.port p hport).digits (hu.port p hport).positive
    have hlength := congrArg List.length heq
    rw [List.length_append] at hlength
    rw [Option.bind_some]
    split_ifs
    · exact Nat.zero_le _
    · rw [portText, portText, List.length_cons, List.length_cons]
      omega

theorem pathOf_length_le (rest : Bytes) : (pathOf rest).length ≤ rest.length :=
  ((List.takeWhile_sublist _).trans (List.takeWhile_sublist _)).length_le

/-- The normal form is longer only where it writes a path for an empty one. -/
theorem normalizeProofHtu_length_le {x y : Bytes} (h : normalizeProofHtu x = some y) :
    y.length ≤ x.length + 1 := by
  obtain ⟨-, u, path, hu, rfl, hpath, rfl⟩ := normalizeProofHtu_eq_some_iff.mp h
  have hport := canonicalPort_length_le hu
  have hpathOf := pathOf_length_le u.rest
  have hle : path.length ≤ u.rest.length + 1 := by
    rcases normalizePath_length_le hpath with hle | ⟨-, rfl⟩
    · omega
    · exact Nat.le_add_left 1 _
  simp only [Pieces.text, Pieces.origin, Pieces.authority, Pieces.canonical, List.length_append,
    List.length_map]
  omega

end

/-- Two ways to write one port: not at all, the port of the scheme, or with zeros in front. -/
inductive SamePort (defaultPort : ℕ) : Option Bytes → Option Bytes → Prop
  | absent : SamePort defaultPort none none
  | written {p : Bytes} (h : digitsValue 10 p = defaultPort) : SamePort defaultPort (some p) none
  | padded {zeros p : Bytes} (h : ∀ b ∈ zeros, b = 48) :
      SamePort defaultPort (some (zeros ++ p)) (some p)

theorem samePort_canonicalPort {u : Pieces} (hu : u.WellFormed) :
    SamePort u.defaultPort u.port u.canonicalPort := by
  rw [Pieces.canonicalPort]
  cases hport : u.port with
  | none => exact .absent
  | some p =>
    obtain ⟨zeros, hzeros, heq⟩ :=
      port_eq_zeros_append (hu.port p hport).digits (hu.port p hport).positive
    rw [Option.bind_some]
    split_ifs with hdefault
    · exact .written hdefault
    · have hpadded : SamePort u.defaultPort (some (zeros ++ numeral 10 (digitsValue 10 p)))
          (some (numeral 10 (digitsValue 10 p))) := .padded hzeros
      rwa [← heq] at hpadded

/-- `x` without its query and fragment is `origin` followed by `path`, but for the case of scheme,
host and escapes, the way the port is written, and an empty path. -/
def SameTarget (x origin path : Bytes) : Prop :=
  ∃ (u : Pieces) (p tail : Bytes) (port : Option Bytes), u.WellFormed ∧ x = u.text ∧
    u.rest = p ++ tail ∧ 63 ∉ p ∧ 35 ∉ p ∧
    (tail = [] ∨ tail.head? = some 63 ∨ tail.head? = some 35) ∧
    origin = u.scheme.map toAsciiLowercase ++ ascii "://" ++
      (u.host.map toAsciiLowercase ++ portText port) ∧
    SamePort u.defaultPort u.port port ∧ (EscapeCase path p ∨ (p = [] ∧ path = [47]))

section
variable {o : PublicOrigin} {x y p h : Bytes}

theorem normalizeProofHtu_self (hx : normalizeProofHtu x = some y) :
    normalizeProofHtu y = some y ∨
      (x.length = maxHtuLen ∧ y.length = maxHtuLen + 1 ∧ normalizeProofHtu y = none) := by
  have hgrown := normalizeProofHtu_length_le hx
  obtain ⟨hlength, u, path, hu, -, hpath, rfl⟩ := normalizeProofHtu_eq_some_iff.mp hx
  obtain ⟨h35, h63⟩ := not_mem_pathOf u.rest
  by_cases hle : (u.origin ++ path).length ≤ maxHtuLen
  · refine .inl (normalizeProofHtu_origin hu (normalizePath_head hpath) ?_ ?_
      (normalizePath_self hpath) hle)
    · exact not_mem_normalizePath (by decide) (by decide) hpath h35
    · exact not_mem_normalizePath (by decide) (by decide) hpath h63
  · refine .inr ⟨by omega, by omega, ?_⟩
    rw [normalizeProofHtu, if_pos (Nat.lt_of_not_le hle)]

theorem normalizeProofHtu_of_expectedHtu (hp : o.expectedHtu p = some h) :
    normalizeProofHtu (o.text ++ p) = some h := by
  obtain ⟨⟨hhead, h63, h35⟩, path, hpath, rfl, hlength⟩ := expectedHtu_eq_some_iff.mp hp
  obtain ⟨u, hu, htext⟩ := o.pieces
  rw [htext] at hlength ⊢
  refine normalizeProofHtu_origin hu hhead h35 h63 hpath ?_
  rcases normalizePath_eq_some_iff.mp hpath with ⟨rfl, -⟩ | ⟨-, hbytes, -⟩
  · cases hhead
  · rw [List.length_append, (escapeCase_normalizeBytes hbytes).length_eq, ← List.length_append]
    exact hlength

theorem sameTarget_of_normalizeProofHtu (hp : o.expectedHtu p = some h)
    (hx : normalizeProofHtu x = some h) : SameTarget x o.text p := by
  obtain ⟨⟨hhead, h63, h35⟩, path, hpath, rfl, -⟩ := expectedHtu_eq_some_iff.mp hp
  obtain ⟨-, v, path', hv, rfl, hpath', heq⟩ := normalizeProofHtu_eq_some_iff.mp hx
  obtain ⟨u, hu, htext⟩ := o.pieces
  rw [htext, ← withRest_text, ← withRest_text] at heq
  have hsame := text_injective
    (withRest_wellFormed hu (isStop_of_head (normalizePath_head hpath)))
    (withRest_wellFormed hv (isStop_of_head (normalizePath_head hpath'))) heq
  obtain ⟨hscheme, hhost, hport, hrest⟩ := Pieces.mk.inj hsame
  obtain ⟨tail, htail, hhead'⟩ := eq_pathOf_append v.rest
  obtain ⟨h35', h63'⟩ := not_mem_pathOf v.rest
  refine ⟨v, pathOf v.rest, tail, v.canonicalPort, hv, rfl, htail, h63', h35', hhead', ?_,
    samePort_canonicalPort hv, ?_⟩
  · rw [htext, Pieces.origin, Pieces.authority]
    rw [hscheme, hhost, hport]
    rfl
  · exact (normalizePath_eq_iff hpath hhead).mp (hrest ▸ hpath')

theorem expectedHtu_eq_iff {q : Bytes} (hp : o.expectedHtu p = some h) :
    o.expectedHtu q = some h ↔ EscapeCase p q := by
  obtain ⟨⟨hhead, h63, h35⟩, path, hpath, rfl, hlength⟩ := expectedHtu_eq_some_iff.mp hp
  rw [expectedHtu_eq_some_iff]
  constructor
  · rintro ⟨⟨hhead', -⟩, path', hpath', heq, -⟩
    obtain rfl := List.append_cancel_left heq
    rcases (normalizePath_eq_iff hpath hhead).mp hpath' with hcase | ⟨rfl, -⟩
    · exact hcase
    · cases hhead'
  · intro hcase
    refine ⟨⟨hcase.head_eq ▸ hhead, fun hmem => h63 (hcase.symm.mem (by decide) hmem),
      fun hmem => h35 (hcase.symm.mem (by decide) hmem)⟩, path, ?_, rfl, hlength⟩
    exact (normalizePath_eq_iff hpath hhead).mpr (.inl hcase)

theorem pathByte_of_host {host : Bytes} (hhost : NamedHost host ∨ BracketedHost host) :
    ∀ b ∈ host, PathByte b := by
  have haddress : ∀ b, isAddressByte b = true → PathByte b := by
    intro b hb
    simp only [isAddressByte, isAsciiHexdigit, isAsciiDigit, Bool.or_eq_true, Bool.and_eq_true,
      decide_eq_true_eq, beq_iff_eq] at hb
    unfold PathByte
    grind
  rcases hhost with ⟨-, -, hbytes⟩ | ⟨inner, rfl, -, hbytes⟩
  · intro b hb
    have hbyte := hbytes b hb
    simp only [isHostByte, isAsciiAlphanumeric, isAsciiLowercase, isAsciiUppercase, isAsciiDigit,
      Bool.or_eq_true, Bool.and_eq_true, decide_eq_true_eq, beq_iff_eq] at hbyte
    unfold PathByte
    grind
  · refine List.forall_mem_append.mpr ⟨List.forall_mem_cons.mpr ⟨?_, ?_⟩, ?_⟩
    · exact ⟨by decide, by decide, by decide⟩
    · exact fun b hb => haddress b (hbytes b hb)
    · exact List.forall_mem_singleton.mpr ⟨by decide, by decide, by decide⟩

theorem pathByte_of_port {port : Option Bytes} (hport : ∀ p, port = some p → PortDigits p) :
    ∀ b ∈ portText port, PathByte b := by
  cases port with
  | none => exact fun _ hb => nomatch hb
  | some p =>
    refine List.forall_mem_cons.mpr ⟨⟨by decide, by decide, by decide⟩, fun b hb => ?_⟩
    have hdigit := (hport p rfl).digits b hb
    simp only [isAsciiDigit, Bool.and_eq_true, decide_eq_true_eq] at hdigit
    unfold PathByte
    grind

theorem pathByte_of_origin {u : Pieces} (hu : u.WellFormed) : ∀ b ∈ u.origin, PathByte b := by
  have hcanonical : (u.withRest []).WellFormed := withRest_wellFormed hu fun _ hb => nomatch hb
  have hscheme : ∀ b ∈ u.canonical.scheme ++ ascii "://", PathByte b := by
    have hhttps : (ascii "https" ++ ascii "://").any
        (fun b => b < 0x21 || 0x7E < b || b == 92) = false := by decide
    have hhttp : (ascii "http" ++ ascii "://").any
        (fun b => b < 0x21 || 0x7E < b || b == 92) = false := by decide
    intro b hb
    rw [pathByte_iff, ← Bool.not_eq_true]
    rcases hu.scheme with hname | hname
    · exact List.any_eq_false.mp hhttps b (hname ▸ hb)
    · exact List.any_eq_false.mp hhttp b (hname ▸ hb)
  refine List.forall_mem_append.mpr ⟨hscheme, List.forall_mem_append.mpr ⟨?_, ?_⟩⟩
  · exact pathByte_of_host hcanonical.host
  · exact pathByte_of_port hcanonical.port

theorem normalForm_bytes (hx : normalizeProofHtu x = some h) :
    (∀ b ∈ h, PathByte b) ∧ ∃ origin path, parseOrigin h = .ok (origin, path) ∧
      h = origin ++ path ∧ ∀ seg ∈ path.splitOn 47, ¬ DotSegment seg := by
  obtain ⟨-, u, path, hu, -, hpath, rfl⟩ := normalizeProofHtu_eq_some_iff.mp hx
  refine ⟨List.forall_mem_append.mpr ⟨pathByte_of_origin hu, normalizePath_pathByte hpath⟩,
    u.origin, path, ?_, rfl, normalizePath_not_dotSegment hpath⟩
  have hparse := parseOrigin_text
    (withRest_wellFormed hu (isStop_of_head (normalizePath_head hpath)))
  rwa [withRest_text, withRest_origin] at hparse

end

/-- One normal form on both sides. It leaves out what the text of a URI may vary in, and only
that, and it lets no dot segment and no unusual byte through. -/
theorem htu_normal_form :
    (∀ x y, normalizeProofHtu x = some y → normalizeProofHtu y = some y ∨
      (x.length = maxHtuLen ∧ y.length = maxHtuLen + 1 ∧ normalizeProofHtu y = none)) ∧
    (∀ (o : PublicOrigin) (p h : Bytes), o.expectedHtu p = some h →
      normalizeProofHtu (o.text ++ p) = some h ∧
      (∀ x, normalizeProofHtu x = some h → SameTarget x o.text p) ∧
      ∀ q, o.expectedHtu q = some h ↔ EscapeCase p q) ∧
    (∀ h, (∃ x, normalizeProofHtu x = some h) ∨
        (∃ (o : PublicOrigin) (p : Bytes), o.expectedHtu p = some h) →
      (∀ b ∈ h, PathByte b) ∧ ∃ origin path, parseOrigin h = .ok (origin, path) ∧
        h = origin ++ path ∧ ∀ seg ∈ path.splitOn 47, ¬ DotSegment seg) := by
  refine ⟨fun x y => normalizeProofHtu_self, fun o p h hp => ⟨?_, ?_, ?_⟩, fun h hh => ?_⟩
  · exact normalizeProofHtu_of_expectedHtu hp
  · exact fun x => sameTarget_of_normalizeProofHtu hp
  · exact fun q => expectedHtu_eq_iff hp
  · rcases hh with ⟨x, hx⟩ | ⟨o, p, hp⟩
    · exact normalForm_bytes hx
    · exact normalForm_bytes (normalizeProofHtu_of_expectedHtu hp)

def longHost : Bytes := 91 :: List.replicate 4086 58 ++ [93]

def longHtu : Bytes := ascii "https" ++ ascii "://" ++ longHost

/-- The path that the normal form adds makes it too long to be normalised again. -/
theorem longHtu_not_fixed :
    ∃ y, normalizeProofHtu longHtu = some y ∧ normalizeProofHtu y ≠ some y := by
  let u : Pieces := ⟨ascii "https", longHost, none, []⟩
  have hhost : longHost.length = 4088 := by
    rw [longHost, List.length_append, List.length_cons, List.length_replicate]
    rfl
  have hu : u.WellFormed := by
    refine ⟨.inl (by decide), .inr ⟨List.replicate 4086 58, rfl, ?_, fun b hb => ?_⟩,
      (fun _ h => nomatch h), (fun _ h => nomatch h)⟩
    · exact List.mem_replicate.mpr ⟨by decide, rfl⟩
    · rw [(List.mem_replicate.mp hb).2]
      rfl
  have htext : longHtu = u.text := by
    rw [Pieces.text, Pieces.authority, longHtu]
    simp [u, portText]
  have hlength : longHtu.length = 4096 := by
    rw [longHtu, List.length_append, hhost]
    rfl
  have horigin : u.origin.length = 4096 := by
    simp only [Pieces.origin, Pieces.authority, Pieces.canonical, List.length_append,
      List.length_map]
    rw [show u.host.length = 4088 from hhost]
    rfl
  refine ⟨u.origin ++ [47], ?_, ?_⟩
  · exact normalizeProofHtu_eq_some_iff.mpr ⟨Nat.le_of_eq hlength, u, [47], hu, htext, rfl, rfl⟩
  · rw [normalizeProofHtu, if_pos]
    · exact (Option.some_ne_none _).symm
    · rw [List.length_append, horigin]
      decide

end FandheBackend.JwtDpopOrigin
