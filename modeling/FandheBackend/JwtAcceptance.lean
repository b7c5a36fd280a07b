import FandheBackend.JwtVerify
import FandheBackend.Base64Url

set_option autoImplicit false

namespace FandheBackend.JwtAcceptance
open StdBytes ExceptChecks JwtVerify

section Members
variable {members : List (Bytes × Json)} {name : String}

def Once (members : List (Bytes × Json)) (name : String) : Prop :=
  (members.filter (·.1 = ascii name)).length ≤ 1

def Has (members : List (Bytes × Json)) (name : String) (value : Json) : Prop :=
  (ascii name, value) ∈ members

theorem member_eq_some_iff {o : Option Json} :
    member members name = some o ↔
      Once members name ∧ ∀ value, o = some value ↔ Has members name value := by
  have hhas : ∀ value, Has members name value ↔
      (ascii name, value) ∈ members.filter (·.1 = ascii name) := fun value => by
    simp [Has]
  have hname : ∀ m ∈ members.filter (·.1 = ascii name), m.1 = ascii name := by simp
  simp only [hhas]
  unfold member Once
  generalize members.filter (·.1 = ascii name) = found at hname
  cases found with
  | nil => cases o <;> simp
  | cons m found =>
    cases found with
    | nil =>
      obtain ⟨name', value'⟩ := m
      obtain rfl : name' = ascii name := hname _ List.mem_cons_self
      have hone : ∀ value, Has [(ascii name, value')] name value ↔ some value' = some value := by
        simp [Has, eq_comm]
      constructor
      · rintro ⟨⟩
        exact ⟨Nat.le_refl 1, fun value => (hone value).symm⟩
      · rintro ⟨-, h⟩
        exact congrArg some (Option.ext fun value => ((h value).trans (hone value)).symm)
    | cons _ _ => simp

theorem exists_member (h : Once members name) : ∃ o, member members name = some o := by
  unfold member
  unfold Once at h
  generalize members.filter (·.1 = ascii name) = found at h
  cases found with
  | nil => exact ⟨_, rfl⟩
  | cons m found =>
    cases found with
    | nil => exact ⟨_, rfl⟩
    | cons _ _ => exact absurd h (by simp)

theorem present_eq_some {flag : Bool} (h : present members name = some flag) :
    Once members name ∧ (flag = false ↔ ∀ value, ¬ Has members name value) := by
  obtain ⟨o, hmember, rfl⟩ := Option.map_eq_some_iff.mp h
  obtain ⟨honce, hhas⟩ := member_eq_some_iff.mp hmember
  refine ⟨honce, ?_⟩
  cases o with
  | none => simpa using fun value => (hhas value).not.mp (Option.some_ne_none value).symm
  | some value => simpa using ⟨value, (hhas value).mp rfl⟩

def NullOr (members : List (Bytes × Json)) (name : String) {α : Type} (form : α → Json) : Prop :=
  ∀ value, Has members name value → value = .null ∨ ∃ a, value = form a

section Typed
variable {α : Type} {form : α → Json} {read : Option Json → Option (Option α)}

/-- `Option<T>` with the JSON form of a `T`. -/
structure Reads (read : Option Json → Option (Option α)) (form : α → Json) : Prop where
  absent : read none = some none
  null : read (some .null) = some none
  value : ∀ a, read (some (form a)) = some (some a)
  form_of : ∀ {value o}, read (some value) = some o → value = .null ∨ ∃ a, value = form a

theorem Reads.form_ne_null (hr : Reads read form) (a : α) : form a ≠ .null := by
  intro hnull
  have hvalue := hr.value a
  rw [hnull, hr.null] at hvalue
  cases hvalue

theorem Reads.form_inj (hr : Reads read form) : Function.Injective form := by
  intro a b hab
  have hvalue := hr.value a
  rw [hab, hr.value] at hvalue
  exact (Option.some.inj (Option.some.inj hvalue)).symm

theorem Reads.eq_some (hr : Reads read form) {o : Option α}
    (h : (member members name).bind read = some o) :
    Once members name ∧ NullOr members name form ∧ ∀ a, o = some a ↔ Has members name (form a) := by
  obtain ⟨found, hfound, hread⟩ := Option.bind_eq_some_iff.mp h
  obtain ⟨honce, hhas⟩ := member_eq_some_iff.mp hfound
  refine ⟨honce, fun value hvalue => ?_, fun a => ?_⟩
  · rw [← hhas] at hvalue
    exact hr.form_of (hvalue ▸ hread)
  · rw [← hhas]
    cases found with
    | none =>
      rw [hr.absent] at hread
      cases hread
      simp
    | some value =>
      rcases hr.form_of hread with rfl | ⟨b, rfl⟩
      · rw [hr.null] at hread
        cases hread
        simp [(hr.form_ne_null a).symm]
      · rw [hr.value] at hread
        cases hread
        simp [hr.form_inj.eq_iff]

theorem Reads.exists (hr : Reads read form) (honce : Once members name)
    (hnull : NullOr members name form) : ∃ o, (member members name).bind read = some o := by
  obtain ⟨found, hfound⟩ := exists_member honce
  rw [hfound, Option.bind_some]
  cases found with
  | none => exact ⟨_, hr.absent⟩
  | some value =>
    rcases hnull value (((member_eq_some_iff.mp hfound).2 value).mp rfl) with rfl | ⟨a, rfl⟩
    · exact ⟨_, hr.null⟩
    · exact ⟨_, hr.value a⟩

end Typed

theorem reads_string : Reads optString Json.string :=
  ⟨rfl, rfl, fun _ => rfl, fun {value _} h => by cases value <;> simp_all [optString]⟩

theorem reads_natural : Reads optU64 Json.natural :=
  ⟨rfl, rfl, fun _ => rfl, fun {value _} h => by cases value <;> simp_all [optU64]⟩

def AudForm (value : Json) (aud : List Bytes) : Prop :=
  (∃ a, value = .string a ∧ aud = [a]) ∨
    (value = .array (aud.map Json.string) ∧ aud.length ≤ maxTokenAudiences)

theorem mapM_string {elements : List Json} {aud : List Bytes} :
    (elements.mapM fun element => match element with
      | Json.string value => some value
      | _ => none) = some aud ↔ elements = aud.map Json.string := by
  induction elements generalizing aud with
  | nil => cases aud <;> simp
  | cons element elements ih =>
    rw [List.mapM_cons]
    cases element with
    | string s =>
      cases aud with
      | nil => simp [Option.bind_eq_some_iff]
      | cons a aud => simp [Option.bind_eq_some_iff, ih, and_comm]
    | null | bool | natural | number | array | object => cases aud <;> simp

theorem audClaim_eq_some {value : Json} {o : Option (List Bytes)} :
    audClaim (some value) = some o ↔
      (value = .null ∧ o = none) ∨ ∃ aud, AudForm value aud ∧ o = some aud := by
  cases value with
  | null =>
    constructor
    · rintro ⟨⟩
      exact .inl ⟨rfl, rfl⟩
    · rintro (⟨-, rfl⟩ | ⟨aud, (⟨_, ⟨⟩, -⟩ | ⟨⟨⟩, -⟩), -⟩)
      rfl
  | string s =>
    constructor
    · rintro ⟨⟩
      exact .inr ⟨[s], .inl ⟨s, rfl, rfl⟩, rfl⟩
    · rintro (⟨⟨⟩, -⟩ | ⟨aud, (⟨_, ⟨⟩, rfl⟩ | ⟨⟨⟩, -⟩), rfl⟩)
      rfl
  | array elements =>
    rw [audClaim]
    constructor
    · intro h
      split_ifs at h with hlength
      obtain ⟨aud, haud, rfl⟩ := Option.map_eq_some_iff.mp h
      obtain rfl := mapM_string.mp haud
      exact .inr ⟨aud, .inr ⟨rfl, by simpa using hlength⟩, rfl⟩
    · rintro (⟨⟨⟩, -⟩ | ⟨aud, (⟨_, ⟨⟩, -⟩ | ⟨⟨⟩, hlength⟩), rfl⟩)
      rw [if_pos (by simpa using hlength)]
      exact Option.map_eq_some_iff.mpr ⟨aud, mapM_string.mpr rfl, rfl⟩
  | bool | natural | number | object =>
    constructor
    · rintro ⟨⟩
    · rintro (⟨⟨⟩, -⟩ | ⟨aud, (⟨_, ⟨⟩, -⟩ | ⟨⟨⟩, -⟩), -⟩)

end Members

theorem parts_eq_some_iff {token h p s : Bytes} :
    parts token = some (h, p, s) ↔ token = h ++ 46 :: (p ++ 46 :: s) ∧
      (h ≠ [] ∧ p ≠ [] ∧ s ≠ []) ∧ 46 ∉ h ∧ 46 ∉ p ∧ 46 ∉ s := by
  constructor
  · intro hparts
    refine ⟨parts_eq_some hparts, ?_⟩
    have hdots := not_mem_splitOn (a := 46) (s := token)
    unfold parts at hparts
    split at hparts
    · next h' p' s' hsplit =>
      rw [hsplit] at hdots
      split_ifs at hparts with hempty
      cases hparts
      rw [not_or, not_or] at hempty
      exact ⟨hempty, hdots h (by simp), hdots p (by simp), hdots s (by simp)⟩
    · cases hparts
  · rintro ⟨rfl, ⟨hh, hp, hs⟩, hdh, hdp, hds⟩
    have hsplit : (h ++ 46 :: (p ++ 46 :: s)).splitOn 46 = [h, p, s] := by
      rw [List.splitOn_append_cons_self_of_not_mem hdh,
        List.splitOn_append_cons_self_of_not_mem hdp, List.splitOn_eq_singleton hds]
    simp [parts, hsplit, hh, hp, hs]

/-- What is relied on: base64 decodes only what it encodes; an object starts with a brace; an
integer that was read as a `u64` is one. -/
structure Documented (x : Externals) : Prop where
  decode_iff : ∀ text bytes, x.decode text = some bytes ↔ text = x.encode bytes
  object : ∀ bytes members, x.json bytes = some (.object members) → isJsonObject bytes = true
  u64 : ∀ bytes members name n, x.json bytes = some (.object members) →
    Has members name (.natural n) → n < 2 ^ 64

/-- The text of a token: the objects in its first two parts, with the bytes of the second one, the
text before the last dot, and the signature. -/
structure Wire (x : Externals) (token : Bytes) (header payload : List (Bytes × Json))
    (payloadBytes message sig : Bytes) : Prop where
  length : 1 ≤ token.length ∧ token.length ≤ maxTokenLen
  parts : ∃ h p s, token = message ++ 46 :: s ∧ message = h ++ 46 :: p ∧
    (h ≠ [] ∧ p ≠ [] ∧ s ≠ []) ∧ (46 ∉ h ∧ 46 ∉ p ∧ 46 ∉ s) ∧
    (∃ headerBytes, h = x.encode headerBytes ∧ x.json headerBytes = some (.object header)) ∧
    (p = x.encode payloadBytes ∧ x.json payloadBytes = some (.object payload)) ∧ s = x.encode sig

def headerNames : List String := ["alg", "kid", "typ", "crit"]

structure HeaderFits (policy : JwtPolicy) (header : List (Bytes × Json)) (alg : Algorithm)
    (kid : Bytes) : Prop where
  once : ∀ name ∈ headerNames, Once header name
  noCrit : ∀ value, ¬ Has header "crit" value
  alg : Has header "alg" (.string alg.asJoseName) ∧ alg ∈ policy.algorithms
  kid : Has header "kid" (.string kid) ∧ 1 ≤ kid.length ∧ kid.length ≤ maxKidLen
  typ : ∃ typ, Has header "typ" (.string typ) ∧ policy.tokenType.matchesHeader typ = true

/-- A key with this id and this algorithm that verifies the signature. -/
def Signed (x : Externals) (keys : KeySet) (kid : Bytes) (alg : Algorithm) (message sig : Bytes) :
    Prop :=
  ∃ key ∈ keys, key.kid = kid ∧ key.alg = alg ∧ signatureOk x alg key.material message sig = true

def stringClaims : List String := ["iss", "sub", "jti", "client_id", "scope"]
def timeClaims : List String := ["exp", "nbf", "iat"]

def Unrepeated (payload : List (Bytes × Json)) : Prop :=
  ∀ name ∈ stringClaims ++ timeClaims ++ ["aud", "cnf"], Once payload name

structure PayloadFits (policy : JwtPolicy) (now : ℕ) (payload : List (Bytes × Json)) : Prop where
  once : Unrepeated payload
  iss : Has payload "iss" (.string policy.issuer)
  aud : ∃ a ∈ policy.audiences, Has payload "aud" (.string a) ∨
    ∃ elements, Has payload "aud" (.array elements) ∧ elements.length ≤ maxTokenAudiences ∧
      .string a ∈ elements
  exp : ∃ exp, Has payload "exp" (.natural exp) ∧ 0 < exp ∧ now < exp + policy.clockSkew
  nbf : ∀ nbf, Has payload "nbf" (.natural nbf) → nbf ≤ now + policy.clockSkew

/-- The known claims are absent, null or of their type; `cnf` has any value. -/
structure WellTyped (payload : List (Bytes × Json)) : Prop where
  strings : ∀ name ∈ stringClaims, NullOr payload name Json.string
  times : ∀ name ∈ timeClaims, NullOr payload name Json.natural
  aud : ∀ value, Has payload "aud" value → value = .null ∨ ∃ aud, AudForm value aud

structure ClaimsOf {E : Type} (payload : List (Bytes × Json)) (claims : Claims E) : Prop where
  iss : Has payload "iss" (.string claims.iss)
  sub : ∀ s, claims.sub = some s ↔ Has payload "sub" (.string s)
  aud : ∃ value, Has payload "aud" value ∧ AudForm value claims.aud
  exp : Has payload "exp" (.natural claims.exp)
  nbf : ∀ n, claims.nbf = some n ↔ Has payload "nbf" (.natural n)
  iat : ∀ n, claims.iat = some n ↔ Has payload "iat" (.natural n)
  jti : ∀ s, claims.jti = some s ↔ Has payload "jti" (.string s)
  clientId : ∀ s, claims.clientId = some s ↔ Has payload "client_id" (.string s)
  scope : ∀ s, claims.scope = some s ↔ Has payload "scope" (.string s)
  cnf : (claims.cnf = .absent ∧ ∀ value, ¬ Has payload "cnf" value) ∨
    ∃ value, Has payload "cnf" value ∧ claims.cnf = lenientCnf value

section Signature
variable {x : Externals} {policy : JwtPolicy}

theorem fromJoseName_eq_some {name : Bytes} {alg : Algorithm} :
    Algorithm.fromJoseName name = some alg ↔ name = alg.asJoseName := by
  unfold Algorithm.fromJoseName
  split_ifs with hrsa hec
  · rw [hrsa]
    cases alg <;> decide
  · rw [hec]
    cases alg <;> decide
  · cases alg
    · simpa [Algorithm.asJoseName] using hrsa
    · simpa [Algorithm.asJoseName] using hec

theorem keyId_eq_ok {o : Option Bytes} {kid : Bytes} :
    keyId o = .ok kid ↔ o = some kid ∧ 1 ≤ kid.length ∧ kid.length ≤ maxKidLen := by
  cases o with
  | none => simp [keyId]
  | some text =>
    cases text with
    | nil =>
      constructor
      · rintro ⟨⟩
      · rintro ⟨⟨⟩, hlength, -⟩
        exact absurd hlength (by decide)
    | cons b text =>
      simp only [keyId]
      constructor
      · intro h
        split_ifs at h with hlength
        cases h
        exact ⟨rfl, by simp, Nat.le_of_not_lt hlength⟩
      · rintro ⟨⟨⟩, -, hlength⟩
        rw [if_neg (Nat.not_lt_of_le hlength)]

theorem candidates_eq_ok {keys : KeySet} {kid : Bytes} {alg : Algorithm} {found : List Jwk} :
    candidates keys kid alg = .ok found ↔
      found = (keys.filter (·.kid = kid)).filter (·.alg = alg) ∧ found ≠ [] := by
  unfold candidates
  dsimp only
  cases (keys.filter (·.kid = kid)).filter (·.alg = alg) with
  | nil =>
    constructor
    · rintro ⟨⟩
    · rintro ⟨rfl, hne⟩
      exact absurd rfl hne
  | cons key rest =>
    constructor
    · rintro ⟨⟩
      exact ⟨rfl, List.cons_ne_nil _ _⟩
    · rintro ⟨rfl, -⟩
      rfl

theorem candidates_signed {keys : KeySet} {kid : Bytes} {alg : Algorithm} {message sig : Bytes} :
    (∃ found, candidates keys kid alg = .ok found ∧
      found.any (fun key => signatureOk x alg key.material message sig) = true) ↔
      Signed x keys kid alg message sig := by
  constructor
  · rintro ⟨found, hfound, hany⟩
    obtain ⟨rfl, -⟩ := candidates_eq_ok.mp hfound
    obtain ⟨key, hkey, hsig⟩ := List.any_eq_true.mp hany
    simp only [List.mem_filter, decide_eq_true_eq] at hkey
    exact ⟨key, hkey.1.1, hkey.1.2, hkey.2, hsig⟩
  · rintro ⟨key, hkey, hkid, halg, hsig⟩
    have hmem : key ∈ (keys.filter (·.kid = kid)).filter (·.alg = alg) := by
      simp [List.mem_filter, hkey, hkid, halg]
    exact ⟨_, candidates_eq_ok.mpr ⟨rfl, List.ne_nil_of_mem hmem⟩,
      List.any_eq_true.mpr ⟨key, hmem, hsig⟩⟩

theorem RawHeader.ofJson_eq_some {header : List (Bytes × Json)} {raw : RawHeader}
    (h : RawHeader.ofJson (.object header) = some raw) :
    (∀ name ∈ headerNames, Once header name) ∧ Has header "alg" (.string raw.alg) ∧
      (∀ s, raw.kid = some s ↔ Has header "kid" (.string s)) ∧
      (∀ s, raw.typ = some s ↔ Has header "typ" (.string s)) ∧
      (raw.crit = false ↔ ∀ value, ¬ Has header "crit" value) := by
  obtain ⟨alg?, halg?, h⟩ := Option.bind_eq_some_iff.mp h
  obtain ⟨alg, halg, h⟩ := Option.bind_eq_some_iff.mp h
  obtain ⟨kid, hkid, h⟩ := Option.bind_eq_some_iff.mp h
  obtain ⟨typ, htyp, h⟩ := Option.bind_eq_some_iff.mp h
  obtain ⟨crit, hcrit, h⟩ := Option.bind_eq_some_iff.mp h
  cases h
  obtain ⟨halg1, -, halg2⟩ := reads_string.eq_some halg?
  obtain ⟨hkid1, -, hkid2⟩ := reads_string.eq_some hkid
  obtain ⟨htyp1, -, htyp2⟩ := reads_string.eq_some htyp
  obtain ⟨hcrit1, hcrit2⟩ := present_eq_some hcrit
  refine ⟨?_, (halg2 alg).mp halg, hkid2, htyp2, hcrit2⟩
  simpa [headerNames] using ⟨halg1, hkid1, htyp1, hcrit1⟩

def HeaderReads (policy : JwtPolicy) (header : List (Bytes × Json)) (alg : Algorithm)
    (kid : Bytes) : Prop :=
  ∃ raw, RawHeader.ofJson (.object header) = some raw ∧ raw.crit = false ∧
    raw.alg = alg.asJoseName ∧ alg ∈ policy.algorithms ∧ keyId raw.kid = .ok kid ∧
    raw.typ.any policy.tokenType.matchesHeader = true

section Header
variable {header : List (Bytes × Json)} {alg : Algorithm} {kid : Bytes}

theorem HeaderReads.fits (h : HeaderReads policy header alg kid) :
    HeaderFits policy header alg kid := by
  obtain ⟨raw, hraw, hcrit, halg, hallowed, hkid, htyp⟩ := h
  obtain ⟨honce, hhasAlg, hhasKid, hhasTyp, hhasCrit⟩ := RawHeader.ofJson_eq_some hraw
  obtain ⟨hkid, hlength⟩ := keyId_eq_ok.mp hkid
  obtain ⟨typ, htyp, hmatches⟩ := (Option.any_eq_true _ _).mp htyp
  exact ⟨honce, hhasCrit.mp hcrit, ⟨halg ▸ hhasAlg, hallowed⟩, ⟨(hhasKid kid).mp hkid, hlength⟩,
    typ, (hhasTyp typ).mp htyp, hmatches⟩

theorem Once.eq_of_has {members : List (Bytes × Json)} {name : String} {v w : Json}
    (h : Once members name) (hv : Has members name v) (hw : Has members name w) : v = w := by
  obtain ⟨o, ho⟩ := exists_member h
  have hhas := (member_eq_some_iff.mp ho).2
  exact Option.some.inj (((hhas v).mpr hv).symm.trans ((hhas w).mpr hw))

theorem Once.nullOr {members : List (Bytes × Json)} {name : String} {α : Type} {form : α → Json}
    {a : α} (h : Once members name) (ha : Has members name (form a)) : NullOr members name form :=
  fun _ hvalue => .inr ⟨a, h.eq_of_has hvalue ha⟩

theorem HeaderFits.reads (h : HeaderFits policy header alg kid) :
    HeaderReads policy header alg kid := by
  have honce : ∀ name ∈ headerNames, Once header name := h.once
  simp only [headerNames, List.forall_mem_cons, List.not_mem_nil, false_imp_iff, implies_true,
    and_true] at honce
  obtain ⟨halg1, hkid1, htyp1, hcrit1⟩ := honce
  obtain ⟨typ, htyp, hmatches⟩ := h.typ
  obtain ⟨alg?, halg⟩ := reads_string.exists halg1 (halg1.nullOr h.alg.1)
  obtain ⟨kid?, hkid⟩ := reads_string.exists hkid1 (hkid1.nullOr h.kid.1)
  obtain ⟨typ?, htyp?⟩ := reads_string.exists htyp1 (htyp1.nullOr htyp)
  obtain ⟨crit, hcrit⟩ := exists_member hcrit1
  have hcritNone : crit = none := by
    rw [Option.eq_none_iff_forall_ne_some]
    exact fun value hvalue => h.noCrit value (((member_eq_some_iff.mp hcrit).2 value).mp hvalue)
  obtain rfl := ((reads_string.eq_some halg).2.2 _).mpr h.alg.1
  obtain rfl := ((reads_string.eq_some hkid).2.2 _).mpr h.kid.1
  obtain rfl := ((reads_string.eq_some htyp?).2.2 _).mpr htyp
  subst hcritNone
  refine ⟨⟨alg.asJoseName, some kid, some typ, false⟩, ?_, rfl, rfl, h.alg.2,
    keyId_eq_ok.mpr ⟨rfl, h.kid.2⟩, hmatches⟩
  refine Option.bind_eq_some_iff.mpr ⟨_, halg, Option.bind_eq_some_iff.mpr ⟨_, rfl, ?_⟩⟩
  refine Option.bind_eq_some_iff.mpr ⟨_, hkid, Option.bind_eq_some_iff.mpr ⟨_, htyp?, ?_⟩⟩
  exact Option.bind_eq_some_iff.mpr ⟨_, Option.map_eq_some_iff.mpr ⟨_, hcrit, rfl⟩, rfl⟩

end Header

theorem readObject_eq_some (hx : Documented x) {R : Type} {ofJson : Json → Option R}
    (hobject : ∀ {value r}, ofJson value = some r → ∃ members, value = .object members)
    {part bytes : Bytes} {r : R} :
    readObject x ofJson part = some (bytes, r) ↔ part = x.encode bytes ∧
      ∃ members, x.json bytes = some (.object members) ∧ ofJson (.object members) = some r := by
  constructor
  · intro h
    obtain ⟨bytes', hdecode, h⟩ := Option.bind_eq_some_iff.mp h
    split_ifs at h
    obtain ⟨json, hjson, h⟩ := Option.bind_eq_some_iff.mp h
    obtain ⟨raw, hraw, h⟩ := Option.bind_eq_some_iff.mp h
    cases h
    obtain ⟨members, rfl⟩ := hobject hraw
    exact ⟨(hx.decode_iff _ _).mp hdecode, members, hjson, hraw⟩
  · rintro ⟨hpart, members, hjson, hread⟩
    refine Option.bind_eq_some_iff.mpr ⟨bytes, (hx.decode_iff _ _).mpr hpart, ?_⟩
    rw [if_pos (hx.object _ _ hjson)]
    refine Option.bind_eq_some_iff.mpr ⟨_, hjson, ?_⟩
    exact Option.bind_eq_some_iff.mpr ⟨r, hread, rfl⟩

theorem header_object {value : Json} {raw : RawHeader} (h : RawHeader.ofJson value = some raw) :
    ∃ members, value = .object members := by
  cases value with
  | object members => exact ⟨members, rfl⟩
  | null | bool | natural | number | string | array => cases h

theorem claims_object {value : Json} {raw : RawClaims} (h : RawClaims.ofJson value = some raw) :
    ∃ members, value = .object members := by
  obtain ⟨members, _, rfl, -⟩ := RawClaims.ofJson_eq_some h
  exact ⟨members, rfl⟩

/-- The part of `verify` that does not look at the claims. -/
theorem verifySignature_eq_ok_iff (hx : Documented x) {token bytes : Bytes} {keys : KeySet}
    {raw : RawClaims} :
    verifySignature x token keys policy = .ok (bytes, raw) ↔
      ∃ header payload message sig alg kid, Wire x token header payload bytes message sig ∧
        HeaderFits policy header alg kid ∧ Signed x keys kid alg message sig ∧
        RawClaims.ofJson (.object payload) = some raw := by
  constructor
  · intro h
    obtain ⟨hne, h⟩ := rejectIf_bind_eq_ok.mp h
    obtain ⟨hlength, h⟩ := rejectIf_bind_eq_ok.mp h
    obtain ⟨⟨hd, p, s⟩, hparts, h⟩ := orError_bind_eq_ok.mp h
    obtain ⟨⟨headerBytes, rawHeader⟩, hheader, h⟩ := orError_bind_eq_ok.mp h
    obtain ⟨hcrit, h⟩ := rejectIf_bind_eq_ok.mp h
    obtain ⟨alg, halg, h⟩ := orError_bind_eq_ok.mp h
    obtain ⟨kid, hkid, h⟩ := bind_eq_ok.mp h
    obtain ⟨found, hfound, h⟩ := bind_eq_ok.mp h
    obtain ⟨sig, hsig, h⟩ := orError_bind_eq_ok.mp h
    obtain ⟨hsigned, h⟩ := rejectIf_bind_eq_ok.mp h
    obtain ⟨htyp, h⟩ := rejectIf_bind_eq_ok.mp h
    obtain ⟨htoken, hnonempty, hdots⟩ := parts_eq_some_iff.mp hparts
    obtain ⟨hhd, header, hjson, hraw⟩ := (readObject_eq_some hx header_object).mp hheader
    obtain ⟨hp, payload, hjson', hclaims⟩ :=
      (readObject_eq_some hx claims_object).mp (orError_eq_ok.mp h)
    obtain ⟨halg, hallowed⟩ := Option.filter_eq_some_iff.mp halg
    rw [take_parts htoken, Bool.not_eq_false] at hsigned
    rw [Bool.not_eq_true] at hcrit
    rw [Bool.not_eq_false] at htyp
    refine ⟨header, payload, hd ++ 46 :: p, sig, alg, kid, ⟨⟨?_, Nat.le_of_not_lt hlength⟩, ?_⟩, ?_,
      candidates_signed.mp ⟨found, hfound, hsigned⟩, hclaims⟩
    · exact List.length_pos_iff.mpr hne
    · exact ⟨hd, p, s, by simp [htoken], rfl, hnonempty, hdots, ⟨headerBytes, hhd, hjson⟩,
        ⟨hp, hjson'⟩, (hx.decode_iff _ _).mp hsig⟩
    · exact HeaderReads.fits ⟨rawHeader, hraw, hcrit, fromJoseName_eq_some.mp halg,
        by simpa using hallowed, hkid, htyp⟩
  · rintro ⟨header, payload, message, sig, alg, kid, hwire, hfits, hsigned, hclaims⟩
    obtain ⟨⟨hpos, hlength⟩, h, p, s, htoken, rfl, hnonempty, hdots, ⟨headerBytes, hh, hjson⟩,
      ⟨hp, hjson'⟩, hs⟩ := hwire
    obtain ⟨rawHeader, hraw, hcrit, halg, hallowed, hkid, htyp⟩ := hfits.reads
    obtain ⟨found, hfound, hany⟩ := candidates_signed.mpr hsigned
    have htoken' : token = h ++ 46 :: (p ++ 46 :: s) := by simp [htoken]
    refine rejectIf_bind_eq_ok.mpr ⟨List.length_pos_iff.mp hpos, ?_⟩
    refine rejectIf_bind_eq_ok.mpr ⟨Nat.not_lt_of_le hlength, ?_⟩
    refine orError_bind_eq_ok.mpr ⟨(h, p, s), parts_eq_some_iff.mpr ⟨htoken', hnonempty, hdots⟩, ?_⟩
    refine orError_bind_eq_ok.mpr ⟨(headerBytes, rawHeader),
      (readObject_eq_some hx header_object).mpr ⟨hh, header, hjson, hraw⟩, ?_⟩
    refine rejectIf_bind_eq_ok.mpr ⟨by simp [hcrit], ?_⟩
    refine orError_bind_eq_ok.mpr ⟨alg, Option.filter_eq_some_iff.mpr
      ⟨fromJoseName_eq_some.mpr halg, by simpa using hallowed⟩, ?_⟩
    refine bind_eq_ok.mpr ⟨kid, hkid, bind_eq_ok.mpr ⟨found, hfound, ?_⟩⟩
    refine orError_bind_eq_ok.mpr ⟨sig, (hx.decode_iff _ _).mpr hs, ?_⟩
    refine rejectIf_bind_eq_ok.mpr ⟨?_, rejectIf_bind_eq_ok.mpr ⟨by simp [htyp], ?_⟩⟩
    · rw [take_parts htoken', Bool.not_eq_false]
      exact hany
    · exact orError_eq_ok.mpr ((readObject_eq_some hx claims_object).mpr ⟨hp, payload, hjson', hclaims⟩)

end Signature

section Payload
variable {payload : List (Bytes × Json)}

structure RawOf (payload : List (Bytes × Json)) (raw : RawClaims) : Prop where
  iss : ∀ s, raw.iss = some s ↔ Has payload "iss" (.string s)
  sub : ∀ s, raw.sub = some s ↔ Has payload "sub" (.string s)
  aud : ∀ aud, raw.aud = some aud ↔ ∃ value, Has payload "aud" value ∧ AudForm value aud
  exp : ∀ n, raw.exp = some n ↔ Has payload "exp" (.natural n)
  nbf : ∀ n, raw.nbf = some n ↔ Has payload "nbf" (.natural n)
  iat : ∀ n, raw.iat = some n ↔ Has payload "iat" (.natural n)
  jti : ∀ s, raw.jti = some s ↔ Has payload "jti" (.string s)
  clientId : ∀ s, raw.clientId = some s ↔ Has payload "client_id" (.string s)
  scope : ∀ s, raw.scope = some s ↔ Has payload "scope" (.string s)
  cnf : (raw.cnf = .absent ∧ ∀ value, ¬ Has payload "cnf" value) ∨
    ∃ value, Has payload "cnf" value ∧ raw.cnf = lenientCnf value

theorem AudForm.unique {value : Json} {aud aud' : List Bytes} (h : AudForm value aud)
    (h' : AudForm value aud') : aud = aud' := by
  rcases h with ⟨a, rfl, rfl⟩ | ⟨rfl, -⟩
  · rcases h' with ⟨b, hb, rfl⟩ | ⟨hb, -⟩
    · rw [Json.string.inj hb]
    · cases hb
  · rcases h' with ⟨b, hb, -⟩ | ⟨hb, -⟩
    · cases hb
    · exact List.map_injective_iff.mpr (fun _ _ h => Json.string.inj h) (Json.array.inj hb)

theorem aud_eq_some {o : Option (List Bytes)}
    (h : (member payload "aud").bind audClaim = some o) :
    Once payload "aud" ∧
      (∀ value, Has payload "aud" value → value = .null ∨ ∃ aud, AudForm value aud) ∧
      ∀ aud, o = some aud ↔ ∃ value, Has payload "aud" value ∧ AudForm value aud := by
  obtain ⟨found, hfound, hread⟩ := Option.bind_eq_some_iff.mp h
  obtain ⟨honce, hhas⟩ := member_eq_some_iff.mp hfound
  simp only [← hhas]
  cases found with
  | none =>
    cases hread
    simpa using honce
  | some value =>
    refine ⟨honce, fun value' hvalue' => ?_, fun aud => ?_⟩
    · cases hvalue'
      rcases audClaim_eq_some.mp hread with ⟨hnull, -⟩ | ⟨aud, haud, -⟩
      · exact .inl hnull
      · exact .inr ⟨aud, haud⟩
    · rcases audClaim_eq_some.mp hread with ⟨rfl, rfl⟩ | ⟨aud', haud', rfl⟩
      · constructor
        · rintro ⟨⟩
        · rintro ⟨_, ⟨⟩, ⟨_, ⟨⟩, -⟩ | ⟨⟨⟩, -⟩⟩
      · constructor
        · rintro ⟨⟩
          exact ⟨value, rfl, haud'⟩
        · rintro ⟨_, ⟨⟩, haud⟩
          rw [haud'.unique haud]

theorem exists_aud (honce : Once payload "aud")
    (htyped : ∀ value, Has payload "aud" value → value = .null ∨ ∃ aud, AudForm value aud) :
    ∃ o, (member payload "aud").bind audClaim = some o := by
  obtain ⟨found, hfound⟩ := exists_member honce
  rw [hfound, Option.bind_some]
  cases found with
  | none => exact ⟨_, rfl⟩
  | some value =>
    rcases htyped value (((member_eq_some_iff.mp hfound).2 value).mp rfl) with rfl | ⟨aud, haud⟩
    · exact ⟨_, rfl⟩
    · exact ⟨_, audClaim_eq_some.mpr (.inr ⟨aud, haud, rfl⟩)⟩

theorem RawClaims.reads {raw : RawClaims} (h : RawClaims.ofJson (.object payload) = some raw) :
    Unrepeated payload ∧ WellTyped payload ∧ RawOf payload raw := by
  obtain ⟨iss, hiss, h⟩ := Option.bind_eq_some_iff.mp h
  obtain ⟨sub, hsub, h⟩ := Option.bind_eq_some_iff.mp h
  obtain ⟨aud, haud, h⟩ := Option.bind_eq_some_iff.mp h
  obtain ⟨exp, hexp, h⟩ := Option.bind_eq_some_iff.mp h
  obtain ⟨nbf, hnbf, h⟩ := Option.bind_eq_some_iff.mp h
  obtain ⟨iat, hiat, h⟩ := Option.bind_eq_some_iff.mp h
  obtain ⟨jti, hjti, h⟩ := Option.bind_eq_some_iff.mp h
  obtain ⟨clientId, hclientId, h⟩ := Option.bind_eq_some_iff.mp h
  obtain ⟨scope, hscope, h⟩ := Option.bind_eq_some_iff.mp h
  obtain ⟨cnf, hcnf, h⟩ := Option.bind_eq_some_iff.mp h
  cases h
  obtain ⟨hiss1, hiss2, hiss3⟩ := reads_string.eq_some hiss
  obtain ⟨hsub1, hsub2, hsub3⟩ := reads_string.eq_some hsub
  obtain ⟨haud1, haud2, haud3⟩ := aud_eq_some haud
  obtain ⟨hexp1, hexp2, hexp3⟩ := reads_natural.eq_some hexp
  obtain ⟨hnbf1, hnbf2, hnbf3⟩ := reads_natural.eq_some hnbf
  obtain ⟨hiat1, hiat2, hiat3⟩ := reads_natural.eq_some hiat
  obtain ⟨hjti1, hjti2, hjti3⟩ := reads_string.eq_some hjti
  obtain ⟨hclientId1, hclientId2, hclientId3⟩ := reads_string.eq_some hclientId
  obtain ⟨hscope1, hscope2, hscope3⟩ := reads_string.eq_some hscope
  obtain ⟨hcnf1, hcnf2⟩ := member_eq_some_iff.mp hcnf
  refine ⟨?_, ⟨?_, ?_, haud2⟩, hiss3, hsub3, haud3, hexp3, hnbf3, hiat3, hjti3, hclientId3, hscope3,
    ?_⟩
  · simp only [Unrepeated, stringClaims, timeClaims, List.cons_append, List.nil_append,
      List.forall_mem_cons]
    exact ⟨hiss1, hsub1, hjti1, hclientId1, hscope1, hexp1, hnbf1, hiat1, haud1, hcnf1,
      fun _ h => nomatch h⟩
  · simp only [stringClaims, List.forall_mem_cons]
    exact ⟨hiss2, hsub2, hjti2, hclientId2, hscope2, fun _ h => nomatch h⟩
  · simp only [timeClaims, List.forall_mem_cons]
    exact ⟨hexp2, hnbf2, hiat2, fun _ h => nomatch h⟩
  · cases cnf with
    | none => exact .inl ⟨rfl, fun value hvalue => nomatch (hcnf2 value).mpr hvalue⟩
    | some value => exact .inr ⟨value, (hcnf2 value).mp rfl, rfl⟩

theorem RawClaims.exists_ofJson (honce : Unrepeated payload) (htyped : WellTyped payload) :
    ∃ raw, RawClaims.ofJson (.object payload) = some raw := by
  simp only [Unrepeated, stringClaims, timeClaims, List.cons_append, List.nil_append,
    List.forall_mem_cons] at honce
  obtain ⟨hiss1, hsub1, hjti1, hclientId1, hscope1, hexp1, hnbf1, hiat1, haud1, hcnf1, -⟩ := honce
  have hstrings := htyped.strings
  simp only [stringClaims, List.forall_mem_cons] at hstrings
  obtain ⟨hiss2, hsub2, hjti2, hclientId2, hscope2, -⟩ := hstrings
  have htimes := htyped.times
  simp only [timeClaims, List.forall_mem_cons] at htimes
  obtain ⟨hexp2, hnbf2, hiat2, -⟩ := htimes
  obtain ⟨iss, hiss⟩ := reads_string.exists hiss1 hiss2
  obtain ⟨sub, hsub⟩ := reads_string.exists hsub1 hsub2
  obtain ⟨aud, haud⟩ := exists_aud haud1 htyped.aud
  obtain ⟨exp, hexp⟩ := reads_natural.exists hexp1 hexp2
  obtain ⟨nbf, hnbf⟩ := reads_natural.exists hnbf1 hnbf2
  obtain ⟨iat, hiat⟩ := reads_natural.exists hiat1 hiat2
  obtain ⟨jti, hjti⟩ := reads_string.exists hjti1 hjti2
  obtain ⟨clientId, hclientId⟩ := reads_string.exists hclientId1 hclientId2
  obtain ⟨scope, hscope⟩ := reads_string.exists hscope1 hscope2
  obtain ⟨cnf, hcnf⟩ := exists_member hcnf1
  refine ⟨⟨iss, sub, aud, exp, nbf, iat, jti, clientId, scope,
    (cnf.map lenientCnf).getD .absent⟩, ?_⟩
  refine Option.bind_eq_some_iff.mpr ⟨iss, hiss, Option.bind_eq_some_iff.mpr ⟨sub, hsub, ?_⟩⟩
  refine Option.bind_eq_some_iff.mpr ⟨aud, haud, Option.bind_eq_some_iff.mpr ⟨exp, hexp, ?_⟩⟩
  refine Option.bind_eq_some_iff.mpr ⟨nbf, hnbf, Option.bind_eq_some_iff.mpr ⟨iat, hiat, ?_⟩⟩
  refine Option.bind_eq_some_iff.mpr ⟨jti, hjti, ?_⟩
  refine Option.bind_eq_some_iff.mpr ⟨clientId, hclientId, ?_⟩
  refine Option.bind_eq_some_iff.mpr ⟨scope, hscope, ?_⟩
  exact Option.bind_eq_some_iff.mpr ⟨cnf, hcnf, rfl⟩

end Payload

section Verify
variable {x : Externals} {policy : JwtPolicy} {now : ℕ} {payload : List (Bytes × Json)}

structure RawFits (policy : JwtPolicy) (now : ℕ) (raw : RawClaims) (aud : List Bytes) (exp : ℕ) :
    Prop where
  iss : raw.iss = some policy.issuer
  aud : raw.aud = some aud ∧ ∃ a ∈ aud, a ∈ policy.audiences
  exp : raw.exp = some exp ∧ now - policy.clockSkew < exp
  nbf : ∀ nbf, raw.nbf = some nbf → nbf ≤ u64SaturatingAdd now policy.clockSkew

theorem verify_eq_ok_iff {E : Type} {extra : Bytes → Option E} {token : Bytes} {keys : KeySet}
    {claims : Claims E} :
    verify x extra token keys policy now = .ok claims ↔
      ∃ bytes raw aud exp e, verifySignature x token keys policy = .ok (bytes, raw) ∧
        RawFits policy now raw aud exp ∧ extra bytes = some e ∧
        claims = ⟨policy.issuer, raw.sub, aud, exp, raw.nbf, raw.iat, raw.jti, raw.clientId,
          raw.scope, raw.cnf, e⟩ := by
  constructor
  · intro h
    obtain ⟨⟨bytes, raw⟩, hsignature, h⟩ := bind_eq_ok.mp h
    obtain ⟨⟨iss, aud, exp⟩, hissuer, h⟩ := bind_eq_ok.mp h
    obtain ⟨_, htime, h⟩ := bind_eq_ok.mp h
    obtain ⟨e, hextra, h⟩ := orError_bind_eq_ok.mp h
    obtain ⟨iss', hiss, hissuer⟩ := orError_bind_eq_ok.mp hissuer
    obtain ⟨hmatch, hissuer⟩ := rejectIf_bind_eq_ok.mp hissuer
    obtain ⟨aud', haud, hissuer⟩ := orError_bind_eq_ok.mp hissuer
    obtain ⟨hany, hissuer⟩ := rejectIf_bind_eq_ok.mp hissuer
    obtain ⟨exp', hexp, hissuer⟩ := orError_bind_eq_ok.mp hissuer
    cases hissuer
    obtain ⟨hexpired, htime⟩ := rejectIf_bind_eq_ok.mp htime
    have hnbf := rejectIf_eq_ok.mp htime
    obtain rfl : iss = policy.issuer := not_not.mp hmatch
    refine ⟨bytes, raw, aud, exp, e, hsignature, ⟨hiss, ⟨haud, ?_⟩, ⟨hexp, Nat.lt_of_not_le hexpired⟩,
      fun nbf hraw => ?_⟩, hextra, (Except.ok.inj h).symm⟩
    · simpa using hany
    · simpa [hraw] using hnbf
  · rintro ⟨bytes, raw, aud, exp, e, hsignature, hfits, hextra, rfl⟩
    obtain ⟨haud, a, ha, hallowed⟩ := hfits.aud
    refine bind_eq_ok.mpr ⟨(bytes, raw), hsignature, bind_eq_ok.mpr ⟨(policy.issuer, aud, exp), ?_, ?_⟩⟩
    · refine orError_bind_eq_ok.mpr ⟨_, hfits.iss, rejectIf_bind_eq_ok.mpr ⟨fun h => h rfl, ?_⟩⟩
      refine orError_bind_eq_ok.mpr ⟨aud, haud, rejectIf_bind_eq_ok.mpr ⟨?_, ?_⟩⟩
      · simpa using ⟨a, ha, hallowed⟩
      · exact orError_bind_eq_ok.mpr ⟨exp, hfits.exp.1, rfl⟩
    · refine bind_eq_ok.mpr ⟨(), ?_, orError_bind_eq_ok.mpr ⟨e, hextra, rfl⟩⟩
      refine rejectIf_bind_eq_ok.mpr ⟨Nat.not_le_of_lt hfits.exp.2, rejectIf_eq_ok.mpr ?_⟩
      cases hnbf : raw.nbf with
      | none => simp
      | some nbf => simpa using hfits.nbf nbf hnbf

/-- The checks in saturating arithmetic are those of the integers. -/
theorem rawFits_iff {raw : RawClaims} (hraw : RawOf payload raw) (honce : Unrepeated payload)
    (htyped : WellTyped payload) (hu64 : ∀ name n, Has payload name (.natural n) → n < 2 ^ 64) :
    (∃ aud exp, RawFits policy now raw aud exp) ↔ PayloadFits policy now payload := by
  constructor
  · rintro ⟨aud, exp, h⟩
    refine ⟨honce, (hraw.iss _).mp h.iss, ?_, ⟨exp, (hraw.exp exp).mp h.exp.1, ?_⟩, fun nbf hnbf => ?_⟩
    · obtain ⟨haud, a, ha, hallowed⟩ := h.aud
      refine ⟨a, hallowed, ?_⟩
      obtain ⟨value, hvalue, ⟨b, rfl, rfl⟩ | ⟨rfl, hlength⟩⟩ := (hraw.aud aud).mp haud
      · rw [List.mem_singleton.mp ha]
        exact .inl hvalue
      · exact .inr ⟨_, hvalue, by simpa using hlength, List.mem_map_of_mem ha⟩
    · have := h.exp.2
      omega
    · have hle := h.nbf nbf ((hraw.nbf nbf).mpr hnbf)
      unfold u64SaturatingAdd at hle
      omega
  · intro h
    obtain ⟨exp, hexp, hpos, hnow⟩ := h.exp
    have haud : ∃ aud, (∃ value, Has payload "aud" value ∧ AudForm value aud) ∧
        ∃ a ∈ aud, a ∈ policy.audiences := by
      obtain ⟨a, hallowed, hstring | ⟨elements, harray, hlength, hmem⟩⟩ := h.aud
      · exact ⟨[a], ⟨_, hstring, .inl ⟨a, rfl, rfl⟩⟩, a, List.mem_singleton_self a, hallowed⟩
      · rcases htyped.aud _ harray with hnull | ⟨aud, haud⟩
        · cases hnull
        · refine ⟨aud, ⟨_, harray, haud⟩, a, ?_, hallowed⟩
          rcases haud with ⟨b, hb, -⟩ | ⟨helements, -⟩
          · cases hb
          · cases helements
            obtain ⟨b, hb, hab⟩ := List.mem_map.mp hmem
            rw [← Json.string.inj hab]
            exact hb
    obtain ⟨aud, hform, hallowed⟩ := haud
    refine ⟨aud, exp, (hraw.iss _).mpr h.iss, ⟨(hraw.aud aud).mpr hform, hallowed⟩,
      ⟨(hraw.exp exp).mpr hexp, by omega⟩, fun nbf hnbf => ?_⟩
    have hhas := (hraw.nbf nbf).mp hnbf
    have hle := h.nbf nbf hhas
    have hlt := hu64 _ nbf hhas
    unfold u64SaturatingAdd
    omega

end Verify

/-- What a token must be like, with a payload and the extra claims that it makes. -/
def Accepts (x : Externals) {E : Type} (extra : Bytes → Option E) (token : Bytes) (keys : KeySet)
    (policy : JwtPolicy) (now : ℕ) (payload : List (Bytes × Json)) (e : E) : Prop :=
  ∃ header bytes message sig alg kid, Wire x token header payload bytes message sig ∧
    HeaderFits policy header alg kid ∧ Signed x keys kid alg message sig ∧
    PayloadFits policy now payload ∧ extra bytes = some e

def Named (x : Externals) (token : Bytes) (policy : JwtPolicy) (key : Jwk) : Prop :=
  ∃ header payload bytes message sig, Wire x token header payload bytes message sig ∧
    HeaderFits policy header key.alg key.kid

section Law
variable {x : Externals} {E : Type} {extra : Bytes → Option E} {token : Bytes} {policy : JwtPolicy}

theorem accepts_of_verify (hx : Documented x) {keys : KeySet} {now : ℕ} {claims : Claims E}
    (h : verify x extra token keys policy now = .ok claims) :
    ∃ payload, Accepts x extra token keys policy now payload claims.extra ∧ WellTyped payload ∧
      ClaimsOf payload claims := by
  obtain ⟨bytes, raw, aud, exp, e, hsignature, hfits, hextra, rfl⟩ := verify_eq_ok_iff.mp h
  obtain ⟨header, payload, message, sig, alg, kid, hwire, hheader, hsigned, hraw⟩ :=
    (verifySignature_eq_ok_iff hx).mp hsignature
  obtain ⟨honce, htyped, hreads⟩ := RawClaims.reads hraw
  obtain ⟨_, _, _, -, -, -, -, -, ⟨-, hjson⟩, -⟩ := hwire.parts
  have hpayload := (rawFits_iff hreads honce htyped (hx.u64 bytes payload · · hjson)).mp
    ⟨aud, exp, hfits⟩
  refine ⟨payload, ⟨header, bytes, message, sig, alg, kid, hwire, hheader, hsigned, hpayload,
    hextra⟩, htyped, ?_⟩
  exact ⟨hpayload.iss, hreads.sub, (hreads.aud aud).mp hfits.aud.1, (hreads.exp exp).mp hfits.exp.1,
    hreads.nbf, hreads.iat, hreads.jti, hreads.clientId, hreads.scope, hreads.cnf⟩

theorem verify_of_accepts (hx : Documented x) {keys : KeySet} {now : ℕ}
    {payload : List (Bytes × Json)} {e : E} (h : Accepts x extra token keys policy now payload e)
    (htyped : WellTyped payload) :
    ∃ claims, verify x extra token keys policy now = .ok claims := by
  obtain ⟨header, bytes, message, sig, alg, kid, hwire, hheader, hsigned, hpayload, hextra⟩ := h
  obtain ⟨raw, hraw⟩ := RawClaims.exists_ofJson hpayload.once htyped
  obtain ⟨honce, htyped, hreads⟩ := RawClaims.reads hraw
  obtain ⟨_, _, _, -, -, -, -, -, ⟨-, hjson⟩, -⟩ := hwire.parts
  obtain ⟨aud, exp, hfits⟩ :=
    (rawFits_iff hreads honce htyped (hx.u64 bytes payload · · hjson)).mpr hpayload
  have hsignature := (verifySignature_eq_ok_iff hx).mpr
    ⟨header, payload, message, sig, alg, kid, hwire, hheader, hsigned, hraw⟩
  exact ⟨_, verify_eq_ok_iff.mpr ⟨bytes, raw, aud, exp, e, hsignature, hfits, hextra, rfl⟩⟩

/-- Only the keys that the header names are of account. -/
theorem verifySignature_keys (hx : Documented x) {keys keys' : KeySet}
    (hkeys : ∀ key, Named x token policy key → key ∈ keys → key ∈ keys') {r : Bytes × RawClaims}
    (h : verifySignature x token keys policy = .ok r) :
    verifySignature x token keys' policy = .ok r := by
  obtain ⟨bytes, raw⟩ := r
  obtain ⟨header, payload, message, sig, alg, kid, hwire, hheader, ⟨key, hkey, hkid, halg, hsig⟩,
    hraw⟩ := (verifySignature_eq_ok_iff hx).mp h
  have hnamed : Named x token policy key :=
    ⟨header, payload, bytes, message, sig, hwire, halg ▸ hkid ▸ hheader⟩
  exact (verifySignature_eq_ok_iff hx).mpr ⟨header, payload, message, sig, alg, kid, hwire, hheader,
    ⟨key, hkeys key hnamed hkey, hkid, halg, hsig⟩, hraw⟩

theorem verify_keys (hx : Documented x) {keys keys' : KeySet} {now : ℕ} {claims : Claims E}
    (hkeys : ∀ key, Named x token policy key → key ∈ keys → key ∈ keys')
    (h : verify x extra token keys policy now = .ok claims) :
    verify x extra token keys' policy now = .ok claims := by
  obtain ⟨bytes, raw, aud, exp, e, hsignature, hrest⟩ := verify_eq_ok_iff.mp h
  exact verify_eq_ok_iff.mpr
    ⟨bytes, raw, aud, exp, e, verifySignature_keys hx hkeys hsignature, hrest⟩

theorem checkTime_eq_ok {exp : ℕ} {nbf : Option ℕ} {now leeway : ℕ} :
    checkTime exp nbf now leeway = .ok () ↔ now - leeway < exp ∧
      ∀ n, nbf = some n → n ≤ u64SaturatingAdd now leeway := by
  rw [checkTime, rejectIf_bind_eq_ok, rejectIf_eq_ok]
  cases nbf <;> simp

/-- A token that is good at two times is good in between. -/
theorem verify_between {keys : KeySet} {now₁ now now₂ : ℕ} {claims claims₂ : Claims E}
    (hlow : now₁ ≤ now) (hhigh : now ≤ now₂)
    (h : verify x extra token keys policy now₁ = .ok claims)
    (h₂ : verify x extra token keys policy now₂ = .ok claims₂) :
    verify x extra token keys policy now = .ok claims := by
  have hcheck : ∀ time r, verify x extra token keys policy time = .ok r →
      checkTime claims.exp claims.nbf time policy.clockSkew = .ok () := fun time r hok => by
    rw [verify_at h time] at hok
    cases htime : checkTime claims.exp claims.nbf time policy.clockSkew with
    | ok u => rfl
    | error e =>
      rw [htime] at hok
      cases hok
  obtain ⟨-, hstart⟩ := checkTime_eq_ok.mp (hcheck now₁ claims h)
  obtain ⟨hend, -⟩ := checkTime_eq_ok.mp (hcheck now₂ claims₂ h₂)
  have htime : checkTime claims.exp claims.nbf now policy.clockSkew = .ok () := by
    refine checkTime_eq_ok.mpr ⟨by omega, fun n hn => ?_⟩
    have hle := hstart n hn
    unfold u64SaturatingAdd at hle ⊢
    omega
  rw [verify_at h now, htime]
  rfl

end Law

/-- A token is accepted exactly when it is as `Accepts` says and its known claims are of their
types; the claims are those of its payload. Only the keys that its header names matter, and the
times at which it is accepted are an interval. -/
theorem verify_acceptance (x : Externals) (hx : Documented x) {E : Type} (extra : Bytes → Option E)
    (token : Bytes) (policy : JwtPolicy) :
    (∀ keys now, (∃ claims, verify x extra token keys policy now = .ok claims) ↔
      ∃ payload e, Accepts x extra token keys policy now payload e ∧ WellTyped payload) ∧
    (∀ keys now claims, verify x extra token keys policy now = .ok claims →
      ∃ payload, Accepts x extra token keys policy now payload claims.extra ∧
        ClaimsOf payload claims) ∧
    (∀ keys keys' now claims, (∀ key, Named x token policy key → (key ∈ keys ↔ key ∈ keys')) →
      (verify x extra token keys policy now = .ok claims ↔
        verify x extra token keys' policy now = .ok claims)) ∧
    ∀ keys now₁ now now₂ claims claims₂, now₁ ≤ now → now ≤ now₂ →
      verify x extra token keys policy now₁ = .ok claims →
      verify x extra token keys policy now₂ = .ok claims₂ →
      verify x extra token keys policy now = .ok claims := by
  refine ⟨fun keys now => ⟨?_, ?_⟩, fun keys now claims h => ?_,
    fun keys keys' now claims hkeys => ⟨?_, ?_⟩, fun _ _ _ _ _ _ => verify_between⟩
  · rintro ⟨claims, h⟩
    obtain ⟨payload, haccepts, htyped, -⟩ := accepts_of_verify hx h
    exact ⟨payload, claims.extra, haccepts, htyped⟩
  · rintro ⟨payload, e, haccepts, htyped⟩
    exact verify_of_accepts hx haccepts htyped
  · obtain ⟨payload, haccepts, -, hclaims⟩ := accepts_of_verify hx h
    exact ⟨payload, haccepts, hclaims⟩
  · exact verify_keys hx fun key hnamed => (hkeys key hnamed).mp
  · exact verify_keys hx fun key hnamed => (hkeys key hnamed).mpr

namespace Sample

def headerText : Bytes := ascii "\x7b\"alg\":\"ES256\",\"typ\":\"at+jwt\",\"kid\":\"k\"\x7d"
def payloadText : Bytes := ascii "\x7b\"iss\":\"i\",\"aud\":\"a\",\"exp\":200\x7d"

def mistypedText : Bytes := ascii "\x7b\"iss\":\"i\",\"aud\":\"a\",\"exp\":200,\"sub\":5\x7d"

def header : List (Bytes × Json) :=
  [(ascii "alg", .string (ascii "ES256")), (ascii "typ", .string (ascii "at+jwt")),
    (ascii "kid", .string (ascii "k"))]

def payload : List (Bytes × Json) :=
  [(ascii "iss", .string (ascii "i")), (ascii "aud", .string (ascii "a")),
    (ascii "exp", .natural 200)]

def mistyped : List (Bytes × Json) := payload ++ [(ascii "sub", .natural 5)]

def point : Bytes :=
  [4, 152, 182, 201, 170, 23, 149, 120, 104, 120, 213, 249, 114, 164, 195, 111, 226, 98, 125,
   154, 126, 5, 183, 179, 130, 22, 216, 214, 230, 47, 55, 71, 216, 202, 158, 95, 35, 166, 202,
   188, 109, 31, 225, 98, 32, 36, 59, 69, 138, 223, 11, 223, 100, 53, 166, 181, 243, 219, 97,
   23, 198, 147, 192, 210, 224]

def signature : Bytes :=
  [109, 105, 202, 135, 57, 222, 41, 141, 147, 252, 171, 228, 95, 159, 238, 221, 49, 254, 240,
   175, 34, 21, 246, 46, 124, 70, 117, 146, 37, 126, 138, 200, 89, 48, 33, 148, 140, 158, 233,
   181, 241, 0, 18, 18, 165, 156, 192, 103, 216, 132, 248, 34, 99, 190, 120, 223, 32, 241, 100,
   35, 33, 234, 225, 23]

def mistypedSignature : Bytes :=
  [146, 200, 176, 143, 1, 148, 234, 40, 153, 138, 180, 45, 82, 93, 139, 116, 30, 221, 43, 221,
   3, 42, 35, 27, 15, 46, 254, 39, 247, 65, 253, 68, 186, 185, 238, 225, 177, 242, 227, 37, 93,
   63, 38, 212, 111, 232, 47, 22, 107, 4, 65, 35, 9, 176, 180, 173, 245, 199, 210, 109, 137,
   22, 228, 23]

def message (text : Bytes) : Bytes := Base64Url.encode headerText ++ 46 :: Base64Url.encode text

def token (text sig : Bytes) : Bytes := message text ++ 46 :: Base64Url.encode sig

def crates : Externals where
  encode := Base64Url.encode
  decode := Base64Url.decode
  sha256 := fun _ => []
  rsaVerify := fun _ _ _ _ => false
  ecdsaVerify := fun p msg sig => p == point &&
    (msg == message payloadText && sig == signature ||
      msg == message mistypedText && sig == mistypedSignature)
  json := fun s =>
    if s = headerText then some (.object header)
    else if s = payloadText then some (.object payload)
    else if s = mistypedText then some (.object mistyped)
    else none

def policy : JwtPolicy := ⟨ascii "i", [ascii "a"], [.es256], .accessToken, 60⟩

def keys : KeySet := [⟨ascii "k", .es256, .ecP256 point⟩]

def noExtra (_ : Bytes) : Option Unit := some ()

theorem json_cases {bytes : Bytes} {members : List (Bytes × Json)}
    (h : crates.json bytes = some (.object members)) :
    (bytes = headerText ∧ members = header) ∨ (bytes = payloadText ∧ members = payload) ∨
      (bytes = mistypedText ∧ members = mistyped) := by
  simp only [crates] at h
  split_ifs at h with hheader hpayload hmistyped
  · cases h
    exact .inl ⟨hheader, rfl⟩
  · cases h
    exact .inr (.inl ⟨hpayload, rfl⟩)
  · cases h
    exact .inr (.inr ⟨hmistyped, rfl⟩)

theorem documented_crates : Documented crates where
  decode_iff := fun _ _ => Base64Url.decode_eq_some_iff
  object := fun bytes members h => by
    rcases json_cases h with ⟨rfl, -⟩ | ⟨rfl, -⟩ | ⟨rfl, -⟩ <;> decide
  u64 := fun bytes members name n h hn => by
    unfold Has at hn
    rcases json_cases h with ⟨-, rfl⟩ | ⟨-, rfl⟩ | ⟨-, rfl⟩
    · simp [header] at hn
    · simp [payload] at hn
      omega
    · simp [mistyped, payload] at hn
      omega

end Sample

open Sample in
/-- A token that is accepted as long as it has not expired for longer than the skew. -/
theorem verify_acceptance_es256 :
    ∃ members e, Accepts crates noExtra (token payloadText signature) keys policy 259 members e ∧
      WellTyped members := by
  have hok : ((verify crates noExtra (token payloadText signature) keys policy 259).toOption).isSome =
      true := by
    decide +kernel
  obtain ⟨claims, hclaims⟩ := Option.isSome_iff_exists.mp hok
  exact ((verify_acceptance crates documented_crates noExtra (token payloadText signature)
    policy).1 keys 259).mp ⟨claims, eq_ok_of_toOption hclaims⟩

open Sample in
/-- A token that is refused for the type of its subject alone. -/
theorem verify_rejects_mistyped :
    (∃ members e, Accepts crates noExtra (token mistypedText mistypedSignature) keys policy 100
      members e) ∧
      ∀ claims, verify crates noExtra (token mistypedText mistypedSignature) keys policy 100 ≠
        .ok claims := by
  have hjson : crates.json headerText = some (.object header) := by
    simp only [crates, ↓reduceIte]
  have hjson' : crates.json mistypedText = some (.object mistyped) := by
    have hne : mistypedText ≠ headerText ∧ mistypedText ≠ payloadText := by decide +kernel
    simp only [crates, hne, ↓reduceIte]
  have hcoded : (Base64Url.encode headerText ≠ [] ∧ Base64Url.encode mistypedText ≠ [] ∧
      Base64Url.encode mistypedSignature ≠ []) ∧ 46 ∉ Base64Url.encode headerText ∧
      46 ∉ Base64Url.encode mistypedText ∧ 46 ∉ Base64Url.encode mistypedSignature := by
    decide +kernel
  constructor
  · refine ⟨mistyped, (), header, mistypedText, message mistypedText, mistypedSignature, .es256,
      ascii "k", ⟨by decide +kernel, ?_⟩, ?_, ?_, ?_, rfl⟩
    · exact ⟨_, _, _, rfl, rfl, hcoded.1, hcoded.2, ⟨headerText, rfl, hjson⟩, ⟨rfl, hjson'⟩, rfl⟩
    · exact HeaderReads.fits ⟨⟨ascii "ES256", some (ascii "k"), some (ascii "at+jwt"), false⟩, rfl,
        rfl, rfl, by decide, rfl, by decide⟩
    · exact ⟨_, List.mem_singleton_self _, rfl, rfl, by decide +kernel⟩
    · refine ⟨fun name hname => ?_, List.mem_cons_self, ?_, ?_, fun nbf hnbf => ?_⟩
      · have hall : ∀ name ∈ stringClaims ++ timeClaims ++ ["aud", "cnf"],
            (mistyped.filter (·.1 = ascii name)).length ≤ 1 := by decide
        exact hall name hname
      · exact ⟨ascii "a", by decide, .inl (.tail _ List.mem_cons_self)⟩
      · exact ⟨200, .tail _ (.tail _ List.mem_cons_self), by decide, by decide⟩
      · simp [Has, mistyped, payload, ascii] at hnbf
  · intro claims hok
    have hnone : ((verify crates noExtra (token mistypedText mistypedSignature) keys policy
        100).toOption).isNone = true := by
      decide +kernel
    rw [hok] at hnone
    cases hnone

end FandheBackend.JwtAcceptance
