import FandheBackend.Base64Url
import FandheBackend.JwtJwks
import Mathlib.Data.List.Nodup

set_option autoImplicit false

namespace FandheBackend.JwtJwks
open StdBytes ExceptChecks JwtVerify

def hmacAlgs : List Bytes := [ascii "HS256", ascii "HS384", ascii "HS512"]

namespace RawJwk

def IsPrivate (raw : RawJwk) : Prop :=
  (raw.d || raw.p || raw.q || raw.dp || raw.dq || raw.qi || raw.oth || raw.k) = true

/-- What makes one entry enough to refuse the document. -/
structure Clean (raw : RawJwk) (kty : Bytes) : Prop where
  notSymmetric : kty ≠ ascii "oct"
  allowed : ∀ alg, raw.alg = some alg → eqIgnoreAsciiCase alg (ascii "none") = false ∧ alg ∉ hmacAlgs
  notPrivate : ¬ raw.IsPrivate
  keyType : ∀ alg req, raw.alg = some alg → requiredKty alg = some req → kty ∈ req
  curve : ∀ alg rc, raw.alg = some alg → requiredCrv alg = some rc → kty = ascii "EC" →
    raw.crv = some rc

def ForSigning (raw : RawJwk) : Prop := ∀ use, raw.use = some use → use = ascii "sig"

end RawJwk

section
variable (x : Externals)

structure Acceptable (raw : RawJwk) (key : Jwk) : Prop where
  clean : ∃ kty, raw.kty = some kty ∧ raw.Clean kty
  forSigning : raw.ForSigning
  kind : (raw.kty = some (ascii "RSA") ∧ key.alg = .rs256) ∨
    (raw.kty = some (ascii "EC") ∧ raw.crv = some (ascii "P-256") ∧ key.alg = .es256)
  alg : raw.alg = some key.alg.asJoseName
  kid : raw.kid = some key.kid ∧ key.kid ≠ [] ∧ key.kid.length ≤ maxKidLen
  material : keyMaterial x raw key.alg = .ok key.material

end

/-- An entry that is passed over: not for signing, of another type or curve, or for an algorithm
of its type that is not supported. -/
structure Skippable (raw : RawJwk) : Prop where
  clean : ∃ kty, raw.kty = some kty ∧ raw.Clean kty
  reason : ¬ raw.ForSigning ∨
    (raw.kty ≠ some (ascii "RSA") ∧ raw.kty ≠ some (ascii "EC")) ∨
    (raw.kty = some (ascii "EC") ∧ raw.crv ≠ none ∧ raw.crv ≠ some (ascii "P-256")) ∨
    (raw.kty = some (ascii "RSA") ∧ ∃ alg ∈ skippableRsaAlgs, raw.alg = some alg) ∨
    (raw.kty = some (ascii "EC") ∧ raw.crv = some (ascii "P-256") ∧
      ∃ alg ∈ skippableEcAlgs, raw.alg = some alg)

theorem isForbidden_eq_false_iff {alg : Bytes} :
    isForbidden alg = false ↔ eqIgnoreAsciiCase alg (ascii "none") = false ∧ alg ∉ hmacAlgs := by
  simp [isForbidden, hmacAlgs, and_assoc]

theorem checkEntry_eq_ok_iff {raw : RawJwk} {kty : Bytes} :
    checkEntry raw kty = .ok () ↔ raw.Clean kty := by
  rw [checkEntry, rejectIf_bind_eq_ok, rejectIf_bind_eq_ok, rejectIf_bind_eq_ok]
  cases halg : raw.alg with
  | none =>
    rw [checkAlg]
    constructor
    · rintro ⟨hoct, -, hprivate, -⟩
      exact ⟨hoct, by simp [halg], hprivate, by simp [halg], by simp [halg]⟩
    · exact fun h => ⟨h.notSymmetric, by simp, h.notPrivate, rfl⟩
  | some alg =>
    rw [checkAlg, rejectIf_bind_eq_ok, rejectIf_eq_ok]
    constructor
    · rintro ⟨hoct, hforbidden, hprivate, hkty, hcrv⟩
      refine ⟨hoct, ?_, hprivate, ?_, ?_⟩
      · rintro alg' halg'
        cases halg.symm.trans halg'
        exact isForbidden_eq_false_iff.mp (by simpa using hforbidden)
      · rintro alg' req halg' hreq
        cases halg.symm.trans halg'
        by_contra hnot
        exact hkty ⟨req, hreq, hnot⟩
      · rintro alg' rc halg' hrc hec
        cases halg.symm.trans halg'
        by_contra hnot
        exact hcrv ⟨hec, rc, hrc, hnot⟩
    · intro h
      refine ⟨h.notSymmetric, ?_, h.notPrivate, ?_, ?_⟩
      · simpa using isForbidden_eq_false_iff.mpr (h.allowed alg halg)
      · rintro ⟨req, hreq, hnot⟩
        exact hnot (h.keyType alg req halg hreq)
      · rintro ⟨hec, rc, hrc, hnot⟩
        exact hnot (h.curve alg rc halg hrc hec)

section
variable {x : Externals} {raw : RawJwk} {kty : Bytes}

theorem classify_eq_ok_iff {r : Option Jwk} :
    classify x raw = .ok r ↔
      ∃ kty, raw.kty = some kty ∧ raw.Clean kty ∧ classifyChecked x raw kty = .ok r := by
  rw [classify, orError_bind_eq_ok]
  refine exists_congr fun kty => and_congr_right fun _ => ?_
  rw [bind_eq_ok]
  constructor
  · rintro ⟨_, hcheck, hrest⟩
    exact ⟨checkEntry_eq_ok_iff.mp hcheck, hrest⟩
  · rintro ⟨hclean, hrest⟩
    exact ⟨(), checkEntry_eq_ok_iff.mpr hclean, hrest⟩

theorem adopt_eq_ok_iff {algorithm : Algorithm} {key : Jwk} :
    adopt x raw algorithm = .ok key ↔ key.alg = algorithm ∧
      raw.alg = some algorithm.asJoseName ∧
      (raw.kid = some key.kid ∧ key.kid ≠ [] ∧ key.kid.length ≤ maxKidLen) ∧
      keyMaterial x raw algorithm = .ok key.material := by
  rw [adopt, orError_bind_eq_ok]
  constructor
  · rintro ⟨kid, hkid, h⟩
    obtain ⟨hkid, hne⟩ := Option.filter_eq_some_iff.mp hkid
    obtain ⟨hlength, h⟩ := rejectIf_bind_eq_ok.mp h
    obtain ⟨alg, halg, h⟩ := orError_bind_eq_ok.mp h
    obtain ⟨hname, h⟩ := rejectIf_bind_eq_ok.mp h
    obtain ⟨material, hmaterial, h⟩ := bind_eq_ok.mp h
    cases h
    exact ⟨rfl, not_not.mp hname ▸ halg, ⟨hkid, of_decide_eq_true hne, Nat.le_of_not_lt hlength⟩,
      hmaterial⟩
  · rintro ⟨rfl, halg, ⟨hkid, hne, hlength⟩, hmaterial⟩
    refine ⟨key.kid, Option.filter_eq_some_iff.mpr ⟨hkid, decide_eq_true hne⟩, ?_⟩
    refine rejectIf_bind_eq_ok.mpr ⟨Nat.not_lt_of_le hlength, ?_⟩
    refine orError_bind_eq_ok.mpr ⟨_, halg, rejectIf_bind_eq_ok.mpr ⟨fun h => h rfl, ?_⟩⟩
    exact bind_eq_ok.mpr ⟨_, hmaterial, rfl⟩

theorem forSigning_iff : ¬ raw.use.any (· ≠ ascii "sig") = true ↔ raw.ForSigning := by
  unfold RawJwk.ForSigning
  cases raw.use <;> simp

theorem supported_cases (raw : RawJwk) (kty : Bytes) :
    (kty = ascii "RSA" ∧ supported raw kty = some (.rs256, skippableRsaAlgs)) ∨
    (kty = ascii "EC" ∧ raw.crv = some (ascii "P-256") ∧
      supported raw kty = some (.es256, skippableEcAlgs)) ∨
    (kty ≠ ascii "RSA" ∧ ¬ (kty = ascii "EC" ∧ raw.crv = some (ascii "P-256")) ∧
      supported raw kty = none) := by
  unfold supported
  by_cases hrsa : kty = ascii "RSA"
  · exact .inl ⟨hrsa, if_pos hrsa⟩
  · by_cases hec : kty = ascii "EC" ∧ raw.crv = some (ascii "P-256")
    · exact .inr (.inl ⟨hec.1, hec.2, (if_neg hrsa).trans (if_pos hec)⟩)
    · exact .inr (.inr ⟨hrsa, hec, (if_neg hrsa).trans (if_neg hec)⟩)

section Candidate
variable {algorithm : Algorithm} {skippable : List Bytes}

theorem candidate_eq_some_iff {key : Jwk} :
    (if raw.alg.any (fun alg => alg ≠ algorithm.asJoseName ∧ alg ∈ skippable) = true then .ok none
      else (adopt x raw algorithm).map some) = Except.ok (some key) ↔
        adopt x raw algorithm = .ok key := by
  constructor
  · intro h
    split at h
    · cases h
    · cases hadopt : adopt x raw algorithm with
      | error e =>
        rw [hadopt] at h
        cases h
      | ok key' =>
        rw [hadopt] at h
        cases h
        rfl
  · intro h
    obtain ⟨-, halg, -⟩ := adopt_eq_ok_iff.mp h
    rw [if_neg, h]
    · rfl
    · simp [halg]

theorem candidate_eq_none_iff (hname : algorithm.asJoseName ∉ skippable) :
    (if raw.alg.any (fun alg => alg ≠ algorithm.asJoseName ∧ alg ∈ skippable) = true then .ok none
      else (adopt x raw algorithm).map some) = Except.ok none ↔
        ∃ alg ∈ skippable, raw.alg = some alg := by
  have hany : raw.alg.any (fun alg => alg ≠ algorithm.asJoseName ∧ alg ∈ skippable) = true ↔
      ∃ alg ∈ skippable, raw.alg = some alg := by
    cases raw.alg with
    | none => simp
    | some alg =>
      simp only [Option.any_some, decide_eq_true_eq, Option.some.injEq, exists_eq_right']
      exact and_iff_right_of_imp fun hmem heq => hname (heq ▸ hmem)
  rw [← hany]
  constructor
  · intro h
    by_contra hnot
    rw [if_neg hnot] at h
    cases hadopt : adopt x raw algorithm <;> rw [hadopt] at h <;> cases h
  · exact fun h => if_pos h

end Candidate

theorem classifyChecked_eq_some_iff {key : Jwk} :
    classifyChecked x raw kty = .ok (some key) ↔ raw.ForSigning ∧
      ((kty = ascii "RSA" ∧ adopt x raw .rs256 = .ok key) ∨
        (kty = ascii "EC" ∧ raw.crv = some (ascii "P-256") ∧ adopt x raw .es256 = .ok key)) := by
  rw [classifyChecked, ← forSigning_iff]
  by_cases huse : raw.use.any (· ≠ ascii "sig") = true
  · rw [if_pos huse]
    constructor
    · exact fun h => nomatch h
    · exact fun h => absurd huse h.1
  rw [if_neg huse, rejectIf_bind_eq_ok, and_iff_right huse]
  have hne : ascii "RSA" ≠ ascii "EC" := by decide
  rcases supported_cases raw kty with ⟨rfl, hsup⟩ | ⟨rfl, hcrv, hsup⟩ | ⟨hrsa, hec, hsup⟩
  · rw [hsup]
    simp only [hne, false_and, not_false_eq_true, true_and, or_false]
    exact candidate_eq_some_iff
  · rw [hsup]
    simp only [hcrv, hne.symm, reduceCtorEq, and_false, not_false_eq_true, true_and, false_and,
      false_or]
    exact candidate_eq_some_iff
  · rw [hsup]
    constructor
    · rintro ⟨-, h⟩
      cases h
    · rintro (⟨hkty, -⟩ | ⟨hkty, hcrv, -⟩)
      · exact absurd hkty hrsa
      · exact absurd ⟨hkty, hcrv⟩ hec

theorem classifyChecked_eq_none_iff :
    classifyChecked x raw kty = .ok none ↔ ¬ raw.ForSigning ∨
      (kty ≠ ascii "RSA" ∧ kty ≠ ascii "EC") ∨
      (kty = ascii "EC" ∧ raw.crv ≠ none ∧ raw.crv ≠ some (ascii "P-256")) ∨
      (kty = ascii "RSA" ∧ ∃ alg ∈ skippableRsaAlgs, raw.alg = some alg) ∨
      (kty = ascii "EC" ∧ raw.crv = some (ascii "P-256") ∧
        ∃ alg ∈ skippableEcAlgs, raw.alg = some alg) := by
  rw [classifyChecked, ← forSigning_iff]
  by_cases huse : raw.use.any (· ≠ ascii "sig") = true
  · rw [if_pos huse]
    exact iff_of_true rfl (.inl (not_not_intro huse))
  rw [if_neg huse, rejectIf_bind_eq_ok]
  have hne : ascii "RSA" ≠ ascii "EC" := by decide
  rcases supported_cases raw kty with ⟨rfl, hsup⟩ | ⟨rfl, hcrv, hsup⟩ | ⟨hrsa, hec, hsup⟩
  · rw [hsup]
    have hname : Algorithm.rs256.asJoseName ∉ skippableRsaAlgs := by decide
    constructor
    · exact fun h => .inr (.inr (.inr (.inl ⟨rfl, (candidate_eq_none_iff hname).mp h.2⟩)))
    · rintro (hnot | ⟨hrsa, -⟩ | ⟨hec, -⟩ | ⟨-, hskip⟩ | ⟨hec, -⟩)
      · exact absurd huse hnot
      · exact absurd rfl hrsa
      · exact absurd hec hne
      · exact ⟨fun h => hne h.1, (candidate_eq_none_iff hname).mpr hskip⟩
      · exact absurd hec hne
  · rw [hsup, hcrv]
    have hname : Algorithm.es256.asJoseName ∉ skippableEcAlgs := by decide
    constructor
    · exact fun h => .inr (.inr (.inr (.inr ⟨rfl, rfl, (candidate_eq_none_iff hname).mp h.2⟩)))
    · rintro (hnot | ⟨-, hec⟩ | ⟨-, -, hp256⟩ | ⟨hrsa, -⟩ | ⟨-, -, hskip⟩)
      · exact absurd huse hnot
      · exact absurd rfl hec
      · exact absurd rfl hp256
      · exact absurd hrsa.symm hne
      · exact ⟨fun h => Option.some_ne_none _ h.2, (candidate_eq_none_iff hname).mpr hskip⟩
  · rw [hsup]
    constructor
    · rintro ⟨hcurve, -⟩
      by_cases hkty : kty = ascii "EC"
      · exact .inr (.inr (.inl ⟨hkty, fun h => hcurve ⟨hkty, h⟩, fun h => hec ⟨hkty, h⟩⟩))
      · exact .inr (.inl ⟨hrsa, hkty⟩)
    · rintro (hnot | ⟨-, hkty⟩ | ⟨-, hcrv, -⟩ | ⟨hkty, -⟩ | ⟨hkty, hcrv, -⟩)
      · exact absurd huse hnot
      · exact ⟨fun h => hkty h.1, rfl⟩
      · exact ⟨fun h => hcrv h.2, rfl⟩
      · exact absurd hkty hrsa
      · exact absurd ⟨hkty, hcrv⟩ hec

theorem classify_eq_some_iff {key : Jwk} :
    classify x raw = .ok (some key) ↔ Acceptable x raw key := by
  rw [classify_eq_ok_iff]
  constructor
  · rintro ⟨kty, hkty, hclean, h⟩
    obtain ⟨hsigning, ⟨rfl, hadopt⟩ | ⟨rfl, hcrv, hadopt⟩⟩ := classifyChecked_eq_some_iff.mp h
    · obtain ⟨hkey, halg, hkid, hmaterial⟩ := adopt_eq_ok_iff.mp hadopt
      exact ⟨⟨_, hkty, hclean⟩, hsigning, .inl ⟨hkty, hkey⟩, hkey ▸ halg, hkid, hkey ▸ hmaterial⟩
    · obtain ⟨hkey, halg, hkid, hmaterial⟩ := adopt_eq_ok_iff.mp hadopt
      exact ⟨⟨_, hkty, hclean⟩, hsigning, .inr ⟨hkty, hcrv, hkey⟩, hkey ▸ halg, hkid,
        hkey ▸ hmaterial⟩
  · rintro ⟨⟨kty, hkty, hclean⟩, hsigning, hkind, halg, hkid, hmaterial⟩
    have hadopt : adopt x raw key.alg = .ok key :=
      adopt_eq_ok_iff.mpr ⟨rfl, halg, hkid, hmaterial⟩
    refine ⟨kty, hkty, hclean, classifyChecked_eq_some_iff.mpr ⟨hsigning, ?_⟩⟩
    rcases hkind with ⟨hrsa, hkey⟩ | ⟨hec, hcrv, hkey⟩
    · exact .inl ⟨Option.some.inj (hkty.symm.trans hrsa), hkey ▸ hadopt⟩
    · exact .inr ⟨Option.some.inj (hkty.symm.trans hec), hcrv, hkey ▸ hadopt⟩

theorem classify_eq_none_iff : classify x raw = .ok none ↔ Skippable raw := by
  rw [classify_eq_ok_iff]
  constructor
  · rintro ⟨kty, hkty, hclean, h⟩
    refine ⟨⟨kty, hkty, hclean⟩, ?_⟩
    simpa only [hkty, ne_eq, Option.some.injEq] using classifyChecked_eq_none_iff.mp h
  · rintro ⟨⟨kty, hkty, hclean⟩, hreason⟩
    refine ⟨kty, hkty, hclean, classifyChecked_eq_none_iff.mpr ?_⟩
    simpa only [hkty, ne_eq, Option.some.injEq] using hreason

end

inductive Classified (x : Externals) : List RawJwk → KeySet → ℕ → Prop
  | nil : Classified x [] [] 0
  | keep {raw : RawJwk} {key : Jwk} {entries : List RawJwk} {keys : KeySet} {n : ℕ}
      (h : Acceptable x raw key) (hrest : Classified x entries keys n) :
      Classified x (raw :: entries) (key :: keys) n
  | skip {raw : RawJwk} {entries : List RawJwk} {keys : KeySet} {n : ℕ} (h : Skippable raw)
      (hrest : Classified x entries keys n) : Classified x (raw :: entries) keys (n + 1)

namespace Classified

section
variable {x : Externals} {entries : List RawJwk} {keys : KeySet} {n : ℕ}

theorem length_eq (h : Classified x entries keys n) : n + keys.length = entries.length := by
  induction h with
  | nil => rfl
  | keep _ _ ih => exact congrArg (· + 1) ih
  | skip _ _ ih =>
    rw [List.length_cons, ← ih]
    omega

theorem each (h : Classified x entries keys n) :
    ∀ raw ∈ entries, (∃ key, Acceptable x raw key) ∨ Skippable raw := by
  induction h with
  | nil => exact fun _ h => nomatch h
  | keep h _ ih => exact List.forall_mem_cons.mpr ⟨.inl ⟨_, h⟩, ih⟩
  | skip h _ ih => exact List.forall_mem_cons.mpr ⟨.inr h, ih⟩

theorem of_each (h : ∀ raw ∈ entries, (∃ key, Acceptable x raw key) ∨ Skippable raw) :
    ∃ keys n, Classified x entries keys n := by
  induction entries with
  | nil => exact ⟨[], 0, .nil⟩
  | cons raw entries ih =>
    obtain ⟨hraw, hrest⟩ := List.forall_mem_cons.mp h
    obtain ⟨keys, n, hkeys⟩ := ih hrest
    rcases hraw with ⟨key, hkey⟩ | hskip
    · exact ⟨key :: keys, n, .keep hkey hkeys⟩
    · exact ⟨keys, n + 1, .skip hskip hkeys⟩

theorem mem_keys (h : Classified x entries keys n) {key : Jwk} (hkey : key ∈ keys) :
    ∃ raw ∈ entries, Acceptable x raw key := by
  induction h with
  | nil => cases hkey
  | keep h _ ih =>
    rcases List.mem_cons.mp hkey with rfl | hkey
    · exact ⟨_, List.mem_cons_self, h⟩
    · obtain ⟨raw, hraw, hacc⟩ := ih hkey
      exact ⟨raw, List.mem_cons_of_mem _ hraw, hacc⟩
  | skip _ _ ih =>
    obtain ⟨raw, hraw, hacc⟩ := ih hkey
    exact ⟨raw, List.mem_cons_of_mem _ hraw, hacc⟩

end

end Classified

section
variable {x : Externals}

theorem classifyAll_eq_ok_iff {entries : List RawJwk} {keys : KeySet} {n : ℕ}
    {out : KeySet × ℕ} :
    classifyAll x entries keys n = .ok out ↔
      ∃ keys' n', Classified x entries keys' n' ∧ out = (keys ++ keys', n + n') := by
  induction entries generalizing keys n with
  | nil =>
    rw [classifyAll]
    constructor
    · rintro ⟨⟩
      exact ⟨[], 0, .nil, by simp⟩
    · rintro ⟨_, _, ⟨⟩, rfl⟩
      simp
  | cons raw entries ih =>
    rw [classifyAll, bind_eq_ok]
    constructor
    · rintro ⟨r, hraw, hrest⟩
      cases r with
      | some key =>
        obtain ⟨keys', n', hkeys, rfl⟩ := ih.mp hrest
        exact ⟨key :: keys', n', .keep (classify_eq_some_iff.mp hraw) hkeys, by simp⟩
      | none =>
        obtain ⟨keys', n', hkeys, rfl⟩ := ih.mp hrest
        refine ⟨keys', n' + 1, .skip (classify_eq_none_iff.mp hraw) hkeys, ?_⟩
        rw [Nat.add_assoc, Nat.add_comm 1]
    · rintro ⟨_, _, hall, rfl⟩
      cases hall with
      | keep hraw hrest =>
        exact ⟨_, classify_eq_some_iff.mpr hraw, ih.mpr ⟨_, _, hrest, by simp⟩⟩
      | skip hraw hrest =>
        refine ⟨_, classify_eq_none_iff.mpr hraw, ih.mpr ⟨_, _, hrest, ?_⟩⟩
        rw [Nat.add_assoc, Nat.add_comm 1]

theorem checkKeys_eq_ok_iff {keys before rest : KeySet} :
    checkKeys keys before rest = .ok () ↔
      (∀ a ∈ rest, (keys.filter (·.kid = a.kid)).length ≤ maxKeysPerKid) ∧
      (∀ a ∈ rest, a ∉ before) ∧ rest.Nodup := by
  induction rest generalizing before with
  | nil => simp [checkKeys]
  | cons a rest ih =>
    rw [checkKeys, rejectIf_bind_eq_ok, rejectIf_bind_eq_ok, ih, List.nodup_cons]
    simp only [List.forall_mem_cons, List.mem_append, List.mem_singleton, not_or, Nat.not_lt]
    constructor
    · rintro ⟨hcount, hbefore, hrest, hnew, hnodup⟩
      exact ⟨⟨hcount, hrest⟩, ⟨hbefore, fun b hb => (hnew b hb).1⟩,
        fun ha => (hnew a ha).2 rfl, hnodup⟩
    · rintro ⟨⟨hcount, hrest⟩, ⟨hbefore, hnew⟩, hnot, hnodup⟩
      exact ⟨hcount, hbefore, hrest, fun b hb => ⟨hnew b hb, fun heq => hnot (heq ▸ hb)⟩, hnodup⟩

theorem count_kid_iff (keys : KeySet) :
    (∀ a ∈ keys, (keys.filter (·.kid = a.kid)).length ≤ maxKeysPerKid) ↔
      ∀ kid, (keys.filter (·.kid = kid)).length ≤ maxKeysPerKid := by
  constructor
  · intro h kid
    by_cases hkid : ∃ a ∈ keys, a.kid = kid
    · obtain ⟨a, ha, rfl⟩ := hkid
      exact h a ha
    · have hnil : keys.filter (·.kid = kid) = [] := by
        refine List.filter_eq_nil_iff.mpr fun a ha => ?_
        rw [decide_eq_true_eq]
        exact fun heq => hkid ⟨a, ha, heq⟩
      rw [hnil]
      exact Nat.zero_le _
  · exact fun h a _ => h a.kid

structure Usable (x : Externals) (entries : List RawJwk) (out : KeyDocument) : Prop where
  classified : Classified x entries out.keys out.skipped
  count : out.keys.length ≤ maxKeys
  perKid : ∀ kid, (out.keys.filter (·.kid = kid)).length ≤ maxKeysPerKid
  distinct : out.keys.Nodup
  some_kept : entries ≠ [] → out.keys ≠ []

theorem fromJson_eq_ok_iff {json : Bytes} {out : KeyDocument} :
    fromJson x json = .ok out ↔ json.length ≤ maxJwksDocLen ∧
      ∃ entries, (x.json json).bind rawSet = some entries ∧ Usable x entries out := by
  rw [fromJson, rejectIf_bind_eq_ok, orError_bind_eq_ok, Nat.not_lt]
  refine and_congr_right fun _ => exists_congr fun entries => and_congr_right fun _ => ?_
  constructor
  · intro h
    obtain ⟨⟨keys, skipped⟩, hall, h⟩ := bind_eq_ok.mp h
    obtain ⟨hcount, h⟩ := rejectIf_bind_eq_ok.mp h
    obtain ⟨_, hkeys, h⟩ := bind_eq_ok.mp h
    obtain ⟨hsome, h⟩ := rejectIf_bind_eq_ok.mp h
    cases h
    obtain ⟨keys', n', hclassified, heq⟩ := classifyAll_eq_ok_iff.mp hall
    rw [List.nil_append, Nat.zero_add] at heq
    obtain ⟨rfl, rfl⟩ := Prod.mk.inj heq
    obtain ⟨hperKid, -, hnodup⟩ := checkKeys_eq_ok_iff.mp hkeys
    exact ⟨hclassified, Nat.le_of_not_lt hcount, (count_kid_iff _).mp hperKid, hnodup,
      fun hne hnil => hsome ⟨hne, hnil⟩⟩
  · rintro ⟨hclassified, hcount, hperKid, hnodup, hsome⟩
    have hall : classifyAll x entries [] 0 = .ok (out.keys, out.skipped) :=
      classifyAll_eq_ok_iff.mpr ⟨_, _, hclassified, by simp⟩
    have hkeys : checkKeys out.keys [] out.keys = .ok () :=
      checkKeys_eq_ok_iff.mpr ⟨(count_kid_iff _).mpr hperKid, (fun _ _ h => nomatch h), hnodup⟩
    refine bind_eq_ok.mpr ⟨_, hall, rejectIf_bind_eq_ok.mpr ⟨Nat.not_lt_of_le hcount, ?_⟩⟩
    refine bind_eq_ok.mpr ⟨_, hkeys, rejectIf_bind_eq_ok.mpr ⟨fun h => hsome h.1 h.2, rfl⟩⟩

end

structure KeyKind where
  kty : Bytes
  curves : Option (List Bytes)
  deriving DecidableEq

def KeyKind.Fits (kind : KeyKind) (kty : Bytes) (crv : Option Bytes) : Prop :=
  kind.kty = kty ∧ ∀ curves ∈ kind.curves, ∃ c ∈ curves, crv = some c

def rsaAlgs : List Bytes :=
  [ascii "RS1", ascii "RS256", ascii "RS384", ascii "RS512", ascii "PS256", ascii "PS384",
    ascii "PS512", ascii "RSA1_5", ascii "RSA-OAEP", ascii "RSA-OAEP-256", ascii "RSA-OAEP-384",
    ascii "RSA-OAEP-512"]

def symmetricAlgs : List Bytes :=
  [ascii "HS1", ascii "HS256", ascii "HS384", ascii "HS512", ascii "dir", ascii "A128KW",
    ascii "A192KW", ascii "A256KW", ascii "A128GCMKW", ascii "A192GCMKW", ascii "A256GCMKW",
    ascii "PBES2-HS256+A128KW", ascii "PBES2-HS384+A192KW", ascii "PBES2-HS512+A256KW",
    ascii "A128CBC-HS256", ascii "A192CBC-HS384", ascii "A256CBC-HS512", ascii "A128GCM",
    ascii "A192GCM", ascii "A256GCM", ascii "A128CBC", ascii "A192CBC", ascii "A256CBC",
    ascii "A128CTR", ascii "A192CTR", ascii "A256CTR"]

def ecdhAlgs : List Bytes :=
  [ascii "ECDH-ES", ascii "ECDH-ES+A128KW", ascii "ECDH-ES+A192KW", ascii "ECDH-ES+A256KW"]

def mlDsaAlgs : List Bytes := [ascii "ML-DSA-44", ascii "ML-DSA-65", ascii "ML-DSA-87"]

/-- The algorithms that have been registered for JSON web keys, with the keys they are for. -/
def keyTable : List (List Bytes × List KeyKind) :=
  [(rsaAlgs, [⟨ascii "RSA", none⟩]),
    ([ascii "ES256"], [⟨ascii "EC", some [ascii "P-256"]⟩]),
    ([ascii "ES384"], [⟨ascii "EC", some [ascii "P-384"]⟩]),
    ([ascii "ES512"], [⟨ascii "EC", some [ascii "P-521"]⟩]),
    ([ascii "ES256K"], [⟨ascii "EC", some [ascii "secp256k1"]⟩]),
    (ecdhAlgs, [⟨ascii "EC", some [ascii "P-256", ascii "P-384", ascii "P-521"]⟩,
      ⟨ascii "OKP", some [ascii "X25519", ascii "X448"]⟩]),
    ([ascii "EdDSA"], [⟨ascii "OKP", some [ascii "Ed25519", ascii "Ed448"]⟩]),
    ([ascii "Ed25519"], [⟨ascii "OKP", some [ascii "Ed25519"]⟩]),
    ([ascii "Ed448"], [⟨ascii "OKP", some [ascii "Ed448"]⟩]),
    (mlDsaAlgs, [⟨ascii "AKP", none⟩]),
    (symmetricAlgs, [⟨ascii "oct", none⟩])]

def keyKinds (alg : Bytes) : Option (List KeyKind) :=
  (keyTable.find? fun row => alg ∈ row.1).map Prod.snd

/-- The `alg` of an entry is for keys of another type or curve. -/
def RawJwk.Contradicts (kinds : Bytes → Option (List KeyKind)) (raw : RawJwk) : Prop :=
  ∃ kty alg ks, raw.kty = some kty ∧ raw.alg = some alg ∧ kinds alg = some ks ∧
    ∀ kind ∈ ks, ¬ kind.Fits kty raw.crv

def ecdsaCurves : List (Bytes × Bytes) :=
  [(ascii "ES256", ascii "P-256"), (ascii "ES384", ascii "P-384"), (ascii "ES512", ascii "P-521")]

/-- The algorithms that are checked in full: those of RSA, and ECDSA on the curves of NIST. -/
def Checked (alg : Bytes) : Prop :=
  ascii "RS" <+: alg ∨ ascii "PS" <+: alg ∨ ∃ crv, (alg, crv) ∈ ecdsaCurves

/-- A table of algorithms, of any others too, that says of the checked ones what the source says. -/
structure Agrees (kinds : Bytes → Option (List KeyKind)) : Prop where
  rsa : ∀ alg ks, ascii "RS" <+: alg ∨ ascii "PS" <+: alg → kinds alg = some ks →
    ⟨ascii "RSA", none⟩ ∈ ks
  ecdsa : ∀ alg crv ks, (alg, crv) ∈ ecdsaCurves → kinds alg = some ks →
    ⟨ascii "EC", some [crv]⟩ ∈ ks

/-- The type and the curve of an entry for the algorithms that the checks do not know in full. -/
structure RawJwk.Coherent (raw : RawJwk) : Prop where
  hmac : ∀ alg, raw.alg = some alg → ¬ ascii "HS" <+: alg
  symmetric : ∀ alg ∈ symmetricAlgs, raw.alg ≠ some alg
  koblitz : raw.alg = some (ascii "ES256K") →
    raw.kty = some (ascii "EC") ∧ raw.crv = some (ascii "secp256k1")
  ecdh : ∀ alg ∈ ecdhAlgs, raw.alg = some alg →
    raw.kty = some (ascii "EC") ∧
        raw.crv ∈ [some (ascii "P-256"), some (ascii "P-384"), some (ascii "P-521")] ∨
      raw.kty = some (ascii "OKP") ∧ raw.crv ∈ [some (ascii "X25519"), some (ascii "X448")]
  eddsa : raw.alg = some (ascii "EdDSA") →
    raw.kty = some (ascii "OKP") ∧ raw.crv ∈ [some (ascii "Ed25519"), some (ascii "Ed448")]
  ed25519 : raw.alg = some (ascii "Ed25519") →
    raw.kty = some (ascii "OKP") ∧ raw.crv = some (ascii "Ed25519")
  ed448 : raw.alg = some (ascii "Ed448") →
    raw.kty = some (ascii "OKP") ∧ raw.crv = some (ascii "Ed448")
  mlDsa : ∀ alg ∈ mlDsaAlgs, raw.alg = some alg → raw.kty = some (ascii "AKP")

section
variable {raw : RawJwk} {kty alg : Bytes} {ks : List KeyKind}

theorem mem_keyTable (h : keyKinds alg = some ks) : ∃ row ∈ keyTable, alg ∈ row.1 ∧ ks = row.2 := by
  obtain ⟨row, hfind, rfl⟩ := Option.map_eq_some_iff.mp h
  exact ⟨row, List.mem_of_find?_eq_some hfind, by simpa using List.find?_some hfind, rfl⟩

theorem keyKinds_agrees : Agrees keyKinds where
  rsa := by
    intro alg ks hname hks
    obtain ⟨row, hrow, halg, rfl⟩ := mem_keyTable hks
    have hrows : ∀ row ∈ keyTable, ∀ alg ∈ row.1, ascii "RS" <+: alg ∨ ascii "PS" <+: alg →
        ⟨ascii "RSA", none⟩ ∈ row.2 := by decide
    exact hrows row hrow alg halg hname
  ecdsa := by
    intro alg crv ks hmem hks
    have hrows : ∀ p ∈ ecdsaCurves, keyKinds p.1 = some [⟨ascii "EC", some [p.2]⟩] := by decide
    cases (hrows (alg, crv) hmem).symm.trans hks
    exact List.mem_cons_self

theorem requiredKty_rsa (h : ascii "RS" <+: alg ∨ ascii "PS" <+: alg) :
    requiredKty alg = some [ascii "RSA"] := by
  rw [requiredKty, if_pos]
  rcases h with h | h <;> simp [List.isPrefixOf_iff_prefix, h]

theorem required_ecdsa {crv : Bytes} (h : (alg, crv) ∈ ecdsaCurves) :
    requiredKty alg = some [ascii "EC"] ∧ requiredCrv alg = some crv := by
  have hall : ∀ p ∈ ecdsaCurves,
      requiredKty p.1 = some [ascii "EC"] ∧ requiredCrv p.1 = some p.2 := by decide
  exact hall (alg, crv) h

/-- The algorithms that are checked do not contradict their keys, whatever else a table holds. -/
theorem RawJwk.Clean.not_contradicts (hclean : raw.Clean kty) (hkty : raw.kty = some kty)
    {kinds : Bytes → Option (List KeyKind)} (hagrees : Agrees kinds) (halg : raw.alg = some alg)
    (hchecked : Checked alg) : ¬ raw.Contradicts kinds := by
  rintro ⟨kty', alg', ks, hkty', halg', hks, hnot⟩
  cases hkty.symm.trans hkty'
  cases halg.symm.trans halg'
  have hrsa : ascii "RS" <+: alg ∨ ascii "PS" <+: alg → False := by
    intro hname
    have hmem := hclean.keyType alg _ halg (requiredKty_rsa hname)
    refine hnot _ (hagrees.rsa alg ks hname hks) ⟨(List.mem_singleton.mp hmem).symm, ?_⟩
    exact fun _ h => nomatch h
  rcases hchecked with hname | hname | ⟨crv, hcrv⟩
  · exact hrsa (.inl hname)
  · exact hrsa (.inr hname)
  · obtain ⟨hreq, hrc⟩ := required_ecdsa hcrv
    have hec : kty = ascii "EC" := List.mem_singleton.mp (hclean.keyType alg _ halg hreq)
    refine hnot _ (hagrees.ecdsa alg crv ks hcrv hks) ⟨hec.symm, fun curves hcurves => ?_⟩
    cases hcurves
    exact ⟨crv, List.mem_cons_self, hclean.curve alg crv halg hrc hec⟩

theorem fits_of_not_contradicts (h : ¬ raw.Contradicts keyKinds) (hkty : raw.kty = some kty)
    (halg : raw.alg = some alg) (hks : keyKinds alg = some ks) :
    ∃ kind ∈ ks, kind.Fits kty raw.crv := by
  by_contra hnone
  exact h ⟨kty, alg, ks, hkty, halg, hks, fun kind hkind hfits => hnone ⟨kind, hkind, hfits⟩⟩

theorem RawJwk.Clean.coherent (hclean : raw.Clean kty) (hkty : raw.kty = some kty)
    (hhmac : ∀ alg, raw.alg = some alg → ¬ ascii "HS" <+: alg) (h : ¬ raw.Contradicts keyKinds) :
    raw.Coherent where
  hmac := hhmac
  symmetric := by
    intro alg hmem halg
    have hrow : ∀ alg ∈ symmetricAlgs, keyKinds alg = some [⟨ascii "oct", none⟩] := by decide
    obtain ⟨kind, hkind, hfits⟩ := fits_of_not_contradicts h hkty halg (hrow alg hmem)
    cases List.mem_singleton.mp hkind
    exact hclean.notSymmetric hfits.1.symm
  koblitz := by
    intro halg
    obtain ⟨kind, hkind, rfl, hcurve⟩ := fits_of_not_contradicts h hkty halg rfl
    cases List.mem_singleton.mp hkind
    exact ⟨hkty, by simpa using hcurve⟩
  ecdh := by
    intro alg hmem halg
    have hrow : ∀ alg ∈ ecdhAlgs, keyKinds alg =
        some [⟨ascii "EC", some [ascii "P-256", ascii "P-384", ascii "P-521"]⟩,
          ⟨ascii "OKP", some [ascii "X25519", ascii "X448"]⟩] := by decide
    obtain ⟨kind, hkind, rfl, hcurve⟩ := fits_of_not_contradicts h hkty halg (hrow alg hmem)
    rcases List.mem_pair.mp hkind with rfl | rfl
    · exact .inl ⟨hkty, by simpa using hcurve⟩
    · exact .inr ⟨hkty, by simpa using hcurve⟩
  eddsa := by
    intro halg
    obtain ⟨kind, hkind, rfl, hcurve⟩ := fits_of_not_contradicts h hkty halg rfl
    cases List.mem_singleton.mp hkind
    exact ⟨hkty, by simpa using hcurve⟩
  ed25519 := by
    intro halg
    obtain ⟨kind, hkind, rfl, hcurve⟩ := fits_of_not_contradicts h hkty halg rfl
    cases List.mem_singleton.mp hkind
    exact ⟨hkty, by simpa using hcurve⟩
  ed448 := by
    intro halg
    obtain ⟨kind, hkind, rfl, hcurve⟩ := fits_of_not_contradicts h hkty halg rfl
    cases List.mem_singleton.mp hkind
    exact ⟨hkty, by simpa using hcurve⟩
  mlDsa := by
    intro alg hmem halg
    have hrow : ∀ alg ∈ mlDsaAlgs, keyKinds alg = some [⟨ascii "AKP", none⟩] := by decide
    obtain ⟨kind, hkind, rfl, -⟩ := fits_of_not_contradicts h hkty halg (hrow alg hmem)
    cases List.mem_singleton.mp hkind
    exact hkty

theorem fits_curve {c : Bytes} {crv : Option Bytes} {curves : List Bytes} (hmem : c ∈ curves)
    (hcrv : crv = some c) (hkty : some kty = some alg) :
    KeyKind.Fits ⟨alg, some curves⟩ kty crv := by
  refine ⟨(Option.some.inj hkty).symm, fun cs hcs => ?_⟩
  cases hcs
  exact ⟨c, hmem, hcrv⟩

theorem RawJwk.Coherent.not_contradicts (hcoherent : raw.Coherent) (hclean : raw.Clean kty)
    (hkty : raw.kty = some kty) : ¬ raw.Contradicts keyKinds := by
  intro hcontra
  have hchecked : ∀ alg, raw.alg = some alg → ¬ Checked alg := fun alg halg h =>
    hclean.not_contradicts hkty keyKinds_agrees halg h hcontra
  obtain ⟨kty', alg, ks, hkty', halg, hks, hnot⟩ := hcontra
  cases hkty.symm.trans hkty'
  obtain ⟨row, hrow, hmem, rfl⟩ := mem_keyTable hks
  simp only [keyTable, List.mem_cons, List.not_mem_nil, or_false] at hrow
  rcases hrow with rfl | rfl | rfl | rfl | rfl | rfl | rfl | rfl | rfl | rfl | rfl
  · have hnames : ∀ alg ∈ rsaAlgs, ascii "RS" <+: alg ∨ ascii "PS" <+: alg := by decide
    exact hchecked alg halg ((hnames alg hmem).elim .inl fun h => .inr (.inl h))
  · obtain rfl := List.mem_singleton.mp hmem
    exact hchecked _ halg (.inr (.inr ⟨ascii "P-256", by decide⟩))
  · obtain rfl := List.mem_singleton.mp hmem
    exact hchecked _ halg (.inr (.inr ⟨ascii "P-384", by decide⟩))
  · obtain rfl := List.mem_singleton.mp hmem
    exact hchecked _ halg (.inr (.inr ⟨ascii "P-521", by decide⟩))
  · obtain rfl := List.mem_singleton.mp hmem
    obtain ⟨hec, hcrv⟩ := hcoherent.koblitz halg
    exact hnot _ List.mem_cons_self (fits_curve List.mem_cons_self hcrv (hkty.symm.trans hec))
  · rcases hcoherent.ecdh alg hmem halg with ⟨hec, hcrv⟩ | ⟨hokp, hcrv⟩
    · obtain ⟨c, hc, hcrv⟩ : ∃ c ∈ [ascii "P-256", ascii "P-384", ascii "P-521"],
          raw.crv = some c := by simpa using hcrv
      exact hnot _ List.mem_cons_self (fits_curve hc hcrv (hkty.symm.trans hec))
    · obtain ⟨c, hc, hcrv⟩ : ∃ c ∈ [ascii "X25519", ascii "X448"], raw.crv = some c := by
        simpa using hcrv
      exact hnot _ (List.mem_cons_of_mem _ List.mem_cons_self)
        (fits_curve hc hcrv (hkty.symm.trans hokp))
  · obtain rfl := List.mem_singleton.mp hmem
    obtain ⟨hokp, hcrv⟩ := hcoherent.eddsa halg
    obtain ⟨c, hc, hcrv⟩ : ∃ c ∈ [ascii "Ed25519", ascii "Ed448"], raw.crv = some c := by
      simpa using hcrv
    exact hnot _ List.mem_cons_self (fits_curve hc hcrv (hkty.symm.trans hokp))
  · obtain rfl := List.mem_singleton.mp hmem
    obtain ⟨hokp, hcrv⟩ := hcoherent.ed25519 halg
    exact hnot _ List.mem_cons_self (fits_curve List.mem_cons_self hcrv (hkty.symm.trans hokp))
  · obtain rfl := List.mem_singleton.mp hmem
    obtain ⟨hokp, hcrv⟩ := hcoherent.ed448 halg
    exact hnot _ List.mem_cons_self (fits_curve List.mem_cons_self hcrv (hkty.symm.trans hokp))
  · have hakp := Option.some.inj (hkty.symm.trans (hcoherent.mlDsa alg hmem halg))
    exact hnot _ List.mem_cons_self ⟨hakp.symm, fun _ h => nomatch h⟩
  · exact hcoherent.symmetric alg hmem halg

def MaterialFor : Algorithm → KeyMaterial → Prop
  | .rs256, .rsa _ _ => True
  | .es256, .ecP256 _ => True
  | _, _ => False

theorem Acceptable.materialFor {x : Externals} {key : Jwk} (h : Acceptable x raw key) :
    MaterialFor key.alg key.material := by
  have hmaterial := h.material
  cases halg : key.alg with
  | rs256 =>
    rw [halg] at hmaterial
    obtain ⟨n, -, hmaterial⟩ := bind_eq_ok.mp hmaterial
    obtain ⟨e, -, hmaterial⟩ := bind_eq_ok.mp hmaterial
    rw [← Except.ok.inj hmaterial]
    trivial
  | es256 =>
    rw [halg] at hmaterial
    obtain ⟨px, -, hmaterial⟩ := bind_eq_ok.mp hmaterial
    obtain ⟨py, -, hmaterial⟩ := bind_eq_ok.mp hmaterial
    rw [← Except.ok.inj hmaterial]
    trivial

theorem Classified.clean {x : Externals} {entries : List RawJwk} {keys : KeySet} {n : ℕ}
    (h : Classified x entries keys n) (hraw : raw ∈ entries) :
    ∃ kty, raw.kty = some kty ∧ raw.Clean kty := by
  rcases h.each raw hraw with ⟨key, hkey⟩ | hskip
  · exact hkey.clean
  · exact hskip.clean

end

/-- All or nothing: a document is used exactly when every entry is a key or one to skip, within
the limits. No entry of it is symmetric, private, or for `none` or an HMAC algorithm of the
standards; none has a checked `alg` that contradicts its type or curve; and none is for another
HMAC algorithm or contradicts itself exactly when they are all coherent. -/
theorem fromJson_all_or_nothing (x : Externals) (json : Bytes) :
    (∀ out, fromJson x json = .ok out ↔ json.length ≤ maxJwksDocLen ∧
      ∃ entries, (x.json json).bind rawSet = some entries ∧ Usable x entries out) ∧
    (∀ entries, (∃ keys n, Classified x entries keys n) ↔
      ∀ raw ∈ entries, (∃ key, Acceptable x raw key) ∨ Skippable raw) ∧
    ∀ out entries, fromJson x json = .ok out → (x.json json).bind rawSet = some entries →
      out.skipped + out.keys.length = entries.length ∧
      (∀ key ∈ out.keys, MaterialFor key.alg key.material) ∧
      (∀ raw ∈ entries, raw.kty ≠ some (ascii "oct") ∧ ¬ raw.IsPrivate ∧
        ∀ alg, raw.alg = some alg →
          eqIgnoreAsciiCase alg (ascii "none") = false ∧ alg ∉ hmacAlgs) ∧
      (∀ kinds, Agrees kinds → ∀ raw ∈ entries, ∀ alg, raw.alg = some alg → Checked alg →
        ¬ raw.Contradicts kinds) ∧
      ((∀ raw ∈ entries, (∀ alg, raw.alg = some alg → ¬ ascii "HS" <+: alg) ∧
          ¬ raw.Contradicts keyKinds) ↔ ∀ raw ∈ entries, raw.Coherent) := by
  refine ⟨fun out => fromJson_eq_ok_iff, fun entries => ⟨?_, Classified.of_each⟩,
    fun out entries hok hentries => ?_⟩
  · rintro ⟨keys, n, h⟩
    exact h.each
  obtain ⟨-, entries', hentries', husable⟩ := fromJson_eq_ok_iff.mp hok
  obtain rfl := Option.some.inj (hentries.symm.trans hentries')
  have hclassified := husable.classified
  refine ⟨hclassified.length_eq, fun key hkey => ?_, fun raw hraw => ?_,
    fun kinds hagrees raw hraw alg halg hchecked => ?_, ?_⟩
  · obtain ⟨raw, -, hacc⟩ := hclassified.mem_keys hkey
    exact hacc.materialFor
  · obtain ⟨kty, hkty, hclean⟩ := hclassified.clean hraw
    refine ⟨fun hoct => ?_, hclean.notPrivate, hclean.allowed⟩
    exact hclean.notSymmetric (Option.some.inj (hkty.symm.trans hoct))
  · obtain ⟨kty, hkty, hclean⟩ := hclassified.clean hraw
    exact hclean.not_contradicts hkty hagrees halg hchecked
  · refine forall₂_congr fun raw hraw => ?_
    obtain ⟨kty, hkty, hclean⟩ := hclassified.clean hraw
    exact ⟨fun h => hclean.coherent hkty h.1 h.2,
      fun h => ⟨h.hmac, h.not_contradicts hclean hkty⟩⟩

namespace Sample

def coordinate : Bytes := List.replicate 43 65

/-- A key for ES256, and one for EdDSA that says it is on the curve P-384. -/
def document : Bytes :=
  ascii "\x7b\"keys\":[\x7b\"kty\":\"EC\",\"crv\":\"P-256\",\"kid\":\"k1\",\"alg\":\"ES256\",\"x\":\"" ++
    coordinate ++ ascii "\",\"y\":\"" ++ coordinate ++
    ascii "\"\x7d,\x7b\"kty\":\"EC\",\"crv\":\"P-384\",\"alg\":\"EdDSA\"\x7d]\x7d"

def entries : List Json :=
  [.object [(ascii "kty", .string (ascii "EC")), (ascii "crv", .string (ascii "P-256")),
      (ascii "kid", .string (ascii "k1")), (ascii "alg", .string (ascii "ES256")),
      (ascii "x", .string coordinate), (ascii "y", .string coordinate)],
    .object [(ascii "kty", .string (ascii "EC")), (ascii "crv", .string (ascii "P-384")),
      (ascii "alg", .string (ascii "EdDSA"))]]

def crates : Externals where
  encode := Base64Url.encode
  decode := Base64Url.decode
  sha256 := fun _ => []
  rsaVerify := fun _ _ _ _ => false
  ecdsaVerify := fun _ _ _ => false
  json := fun s => if s = document then some (.object [(ascii "keys", .array entries)]) else none

def key : Jwk := ⟨ascii "k1", .es256, .ecP256 (4 :: List.replicate 64 0)⟩

/-- The second entry: a curve of its own type, and an algorithm of another one. -/
def edwards : RawJwk :=
  ⟨some (ascii "EC"), none, some (ascii "EdDSA"), none, some (ascii "P-384"), none, none, none,
    none, false, false, false, false, false, false, false, false⟩

end Sample

open Sample in
/-- The document is used although its second entry contradicts itself. -/
theorem fromJson_contradiction :
    fromJson crates document = .ok ⟨[key], 1⟩ ∧
      ∃ first, (crates.json document).bind rawSet = some [first, edwards] ∧
        edwards.Contradicts keyKinds := by
  have hok : fromJson crates document = .ok ⟨[key], 1⟩ := by decide +kernel
  have hjson : crates.json document = some (.object [(ascii "keys", .array entries)]) := by
    simp only [crates, ↓reduceIte]
  refine ⟨hok, _, by rw [hjson]; rfl, _, _, _, rfl, rfl, rfl, fun kind hkind => ?_⟩
  obtain rfl := List.mem_singleton.mp hkind
  exact fun hfits => absurd hfits.1 (by decide)

end FandheBackend.JwtJwks
