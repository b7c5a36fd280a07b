import FandheBackend.ExceptChecks
import FandheBackend.StdBytes

set_option autoImplicit false

/-!
# Access tokens (`crates/plugin-jwt/src/verify.rs`, `policy.rs`, `jwks.rs`)

The verification of a signed token against a key set, a policy and a time. What the crates
`base64`, `ring` and `serde_json` compute is a parameter; the fields that a JSON object must
have, and their types, are read from its members here as the derived deserializers do.
-/
namespace FandheBackend.JwtVerify
open StdBytes ExceptChecks

/-- A JSON document with the members of its objects in order. -/
inductive Json where
  | null
  | bool (value : Bool)
  | natural (value : ℕ)
  | number
  | string (value : Bytes)
  | array (elements : List Json)
  | object (members : List (Bytes × Json))

/-- `base64` (URL-safe, no padding), `ring` and the parser of `serde_json`. -/
structure Externals where
  encode : Bytes → Bytes
  decode : Bytes → Option Bytes
  sha256 : Bytes → Bytes
  rsaVerify : (n e msg sig : Bytes) → Bool
  ecdsaVerify : (point msg sig : Bytes) → Bool
  json : Bytes → Option Json

/-- A member of a struct; it must not come twice. -/
def member (members : List (Bytes × Json)) (name : String) : Option (Option Json) :=
  match members.filter (·.1 = ascii name) with
  | [] => some none
  | [entry] => some (some entry.2)
  | _ => none

/-- `Option<String>`. -/
def optString : Option Json → Option (Option Bytes)
  | none | some .null => some none
  | some (.string value) => some (some value)
  | some _ => none

/-- `Option<u64>`. -/
def optU64 : Option Json → Option (Option ℕ)
  | none | some .null => some none
  | some (.natural value) => some (some value)
  | some _ => none

def stringMember (members : List (Bytes × Json)) (name : String) : Option (Option Bytes) :=
  (member members name).bind optString

def u64Member (members : List (Bytes × Json)) (name : String) : Option (Option ℕ) :=
  (member members name).bind optU64

/-- `present`: whether the member is there, whatever its value. -/
def present (members : List (Bytes × Json)) (name : String) : Option Bool :=
  (member members name).map Option.isSome

inductive Algorithm where
  | rs256
  | es256
  deriving DecidableEq, Repr

namespace Algorithm

def asJoseName : Algorithm → Bytes
  | .rs256 => ascii "RS256"
  | .es256 => ascii "ES256"

def fromJoseName (name : Bytes) : Option Algorithm :=
  if name = ascii "RS256" then some .rs256
  else if name = ascii "ES256" then some .es256
  else none

end Algorithm

inductive TokenType where
  | accessToken
  deriving DecidableEq, Repr

def TokenType.matchesHeader : TokenType → Bytes → Bool
  | .accessToken, typ =>
    eqIgnoreAsciiCase typ (ascii "at+jwt") || eqIgnoreAsciiCase typ (ascii "application/at+jwt")

structure JwtPolicy where
  issuer : Bytes
  audiences : List Bytes
  algorithms : List Algorithm
  tokenType : TokenType
  -- Whole seconds.
  clockSkew : ℕ

inductive KeyMaterial where
  | rsa (n e : Bytes)
  | ecP256 (point : Bytes)
  deriving DecidableEq

structure Jwk where
  kid : Bytes
  alg : Algorithm
  material : KeyMaterial
  deriving DecidableEq

abbrev KeySet := List Jwk

def maxTokenLen : ℕ := 8192
def maxTokenAudiences : ℕ := 16
def maxKidLen : ℕ := 256

inductive TokenError where
  | missingToken
  | tooLong
  | malformed
  | algorithmNotAllowed
  | missingKeyId
  | unknownKeyId
  | keyAlgorithmMismatch
  | invalidSignature
  | criticalHeader
  | invalidType
  | issuerMismatch
  | audienceMismatch
  | expired
  | notYetValid
  | missingClaim
  | invalidExtraClaims
  deriving DecidableEq, Repr

inductive Confirmation where
  | absent
  | jkt (value : Bytes)
  | unusable
  deriving DecidableEq

structure Claims (E : Type) where
  iss : Bytes
  sub : Option Bytes
  aud : List Bytes
  exp : ℕ
  nbf : Option ℕ
  iat : Option ℕ
  jti : Option Bytes
  clientId : Option Bytes
  scope : Option Bytes
  cnf : Confirmation
  extra : E
  deriving DecidableEq

structure RawHeader where
  alg : Bytes
  kid : Option Bytes
  typ : Option Bytes
  crit : Bool

def RawHeader.ofJson : Json → Option RawHeader
  | .object members => do
    let alg ← (← stringMember members "alg")
    let kid ← stringMember members "kid"
    let typ ← stringMember members "typ"
    let crit ← present members "crit"
    return ⟨alg, kid, typ, crit⟩
  | _ => none

/-- `AudClaim`: a string, or an array of at most sixteen. -/
def audClaim : Option Json → Option (Option (List Bytes))
  | none | some .null => some none
  | some (.string value) => some (some [value])
  | some (.array elements) =>
    if elements.length ≤ maxTokenAudiences then
      (elements.mapM fun element => match element with
        | Json.string value => some value
        | _ => none).map some
    else none
  | some _ => none

/-- `lenient_cnf`; of equal members of a `serde_json::Value` the last one counts. -/
def lenientCnf : Json → Confirmation
  | .object members =>
    match (members.filter (·.1 = ascii "jkt")).getLast? with
    | some (_, .string value) => .jkt value
    | _ => .unusable
  | _ => .unusable

structure RawClaims where
  iss : Option Bytes
  sub : Option Bytes
  aud : Option (List Bytes)
  exp : Option ℕ
  nbf : Option ℕ
  iat : Option ℕ
  jti : Option Bytes
  clientId : Option Bytes
  scope : Option Bytes
  cnf : Confirmation

def RawClaims.ofJson : Json → Option RawClaims
  | .object members => do
    let iss ← stringMember members "iss"
    let sub ← stringMember members "sub"
    let aud ← (member members "aud").bind audClaim
    let exp ← u64Member members "exp"
    let nbf ← u64Member members "nbf"
    let iat ← u64Member members "iat"
    let jti ← stringMember members "jti"
    let clientId ← stringMember members "client_id"
    let scope ← stringMember members "scope"
    let cnf ← member members "cnf"
    return ⟨iss, sub, aud, exp, nbf, iat, jti, clientId, scope, (cnf.map lenientCnf).getD .absent⟩
  | _ => none

/-- `require_json_object`: the first byte that is not white space. -/
def isJsonObject (bytes : Bytes) : Bool :=
  (bytes.dropWhile isAsciiWhitespace).head? == some 123

section
variable (x : Externals)

/-- Base64, then JSON, of a part of a token that must be an object. -/
def readObject {R : Type} (ofJson : Json → Option R) (part : Bytes) : Option (Bytes × R) := do
  let bytes ← x.decode part
  if isJsonObject bytes then
    let raw ← (← x.json bytes) |> ofJson
    return (bytes, raw)
  else none

def signatureOk : Algorithm → KeyMaterial → (msg sig : Bytes) → Bool
  | .rs256, .rsa n e, msg, sig => x.rsaVerify n e msg sig
  | .es256, .ecP256 point, msg, sig => x.ecdsaVerify point msg sig
  | _, _, _, _ => false

def parts (token : Bytes) : Option (Bytes × Bytes × Bytes) :=
  match token.splitOn 46 with
  | [h, p, s] => if h = [] ∨ p = [] ∨ s = [] then none else some (h, p, s)
  | _ => none

theorem parts_eq_some {token h p s : Bytes} (hparts : parts token = some (h, p, s)) :
    token = h ++ 46 :: (p ++ 46 :: s) := by
  unfold parts at hparts
  split at hparts
  · next h' p' s' hsplit =>
    split_ifs at hparts
    cases hparts
    have hjoin : [46].intercalate (token.splitOn 46) = token := List.intercalate_splitOn 46
    rw [← hjoin, hsplit]
    simp [List.intercalate]
  · cases hparts

theorem take_parts {token h p s : Bytes} (htoken : token = h ++ 46 :: (p ++ 46 :: s)) :
    token.take (h.length + 1 + p.length) = h ++ 46 :: p := by
  subst htoken
  have hsplit : h ++ 46 :: (p ++ 46 :: s) = (h ++ 46 :: p) ++ 46 :: s := by simp
  have hlength : h.length + 1 + p.length = (h ++ 46 :: p).length := by
    rw [List.length_append, List.length_cons]
    omega
  rw [hsplit, hlength, List.take_left]

def keyId : Option Bytes → Except TokenError Bytes
  | none | some [] => .error .missingKeyId
  | some kid => if maxKidLen < kid.length then .error .malformed else .ok kid

def candidates (keys : KeySet) (kid : Bytes) (alg : Algorithm) : Except TokenError (List Jwk) :=
  let known := keys.filter (·.kid = kid)
  match known.filter (·.alg = alg) with
  | [] => .error (if known = [] then .unknownKeyId else .keyAlgorithmMismatch)
  | keys => .ok keys

/-- `verify_inner` up to the payload: nothing before it looks at the claims. -/
def verifySignature (token : Bytes) (keys : KeySet) (policy : JwtPolicy) :
    Except TokenError (Bytes × RawClaims) := do
  rejectIf (token = []) .missingToken
  rejectIf (maxTokenLen < token.length) .tooLong
  let (h, p, s) ← orError .malformed (parts token)
  let (_, header) ← orError .malformed (readObject x RawHeader.ofJson h)
  rejectIf (header.crit = true) .criticalHeader
  let alg ← orError .algorithmNotAllowed
    ((Algorithm.fromJoseName header.alg).filter (policy.algorithms.contains ·))
  let kid ← keyId header.kid
  let candidates ← candidates keys kid alg
  let sig ← orError .malformed (x.decode s)
  let msg := token.take (h.length + 1 + p.length)
  rejectIf (candidates.any (fun k => signatureOk x alg k.material msg sig) = false)
    .invalidSignature
  rejectIf (header.typ.any policy.tokenType.matchesHeader = false) .invalidType
  orError .malformed (readObject x RawClaims.ofJson p)

/-- The checks of `verify_inner` on the issuer and the audience, and the expiry it needs. -/
def verifyIssuer (policy : JwtPolicy) (raw : RawClaims) :
    Except TokenError (Bytes × List Bytes × ℕ) := do
  let iss ← orError .missingClaim raw.iss
  rejectIf (iss ≠ policy.issuer) .issuerMismatch
  let aud ← orError .missingClaim raw.aud
  rejectIf (aud.any (policy.audiences.contains ·) = false) .audienceMismatch
  let exp ← orError .missingClaim raw.exp
  return (iss, aud, exp)

/-- The checks against the time, here and on a cached token. -/
def checkTime (exp : ℕ) (nbf : Option ℕ) (now leeway : ℕ) : Except TokenError Unit := do
  rejectIf (exp ≤ now - leeway) .expired
  rejectIf (nbf.any (u64SaturatingAdd now leeway < ·) = true) .notYetValid

/-- `verify`: the extra claims are read last. -/
def verify {E : Type} (extra : Bytes → Option E) (token : Bytes) (keys : KeySet)
    (policy : JwtPolicy) (now : ℕ) : Except TokenError (Claims E) := do
  let (payload, raw) ← verifySignature x token keys policy
  let (iss, aud, exp) ← verifyIssuer policy raw
  checkTime exp raw.nbf now policy.clockSkew
  let extra ← orError .invalidExtraClaims (extra payload)
  return ⟨iss, raw.sub, aud, exp, raw.nbf, raw.iat, raw.jti, raw.clientId, raw.scope, raw.cnf, extra⟩

def TokenPayload (token : Bytes) (members : List (Bytes × Json)) : Prop :=
  ∃ h p s payload, token = h ++ 46 :: (p ++ 46 :: s) ∧ x.decode p = some payload ∧
    x.json payload = some (.object members)

def NoCnf (token : Bytes) : Prop :=
  ∃ members, TokenPayload x token members ∧ ∀ value, (ascii "cnf", value) ∉ members

def CnfJkt (token jkt : Bytes) : Prop :=
  ∃ members cnf, TokenPayload x token members ∧ (ascii "cnf", .object cnf) ∈ members ∧
    (cnf.filter (·.1 = ascii "jkt")).getLast? = some (ascii "jkt", .string jkt)

variable {x}

theorem not_mem_of_member_eq_none {members : List (Bytes × Json)} {name : String}
    (h : member members name = some none) (value : Json) : (ascii name, value) ∉ members := by
  intro hmem
  have hfilter : (ascii name, value) ∈ members.filter (·.1 = ascii name) :=
    List.mem_filter.mpr ⟨hmem, by simp⟩
  unfold member at h
  split at h
  · next hnil =>
    rw [hnil] at hfilter
    cases hfilter
  · cases h
  · cases h

theorem mem_of_member_eq_some {members : List (Bytes × Json)} {name : String} {value : Json}
    (h : member members name = some (some value)) : (ascii name, value) ∈ members := by
  unfold member at h
  split at h
  · cases h
  · next entry hone =>
    cases h
    have hmem : entry ∈ members.filter (·.1 = ascii name) := hone ▸ List.mem_singleton_self entry
    obtain ⟨hentry, hname⟩ := List.mem_filter.mp hmem
    rw [← of_decide_eq_true hname]
    exact hentry
  · cases h

theorem lenientCnf_ne_absent (value : Json) : lenientCnf value ≠ .absent := by
  unfold lenientCnf
  split
  · split <;> simp
  · simp

theorem lenientCnf_eq_jkt {value : Json} {jkt : Bytes} (h : lenientCnf value = .jkt jkt) :
    ∃ cnf, value = .object cnf ∧
      (cnf.filter (·.1 = ascii "jkt")).getLast? = some (ascii "jkt", .string jkt) := by
  unfold lenientCnf at h
  split at h
  · next cnf =>
    split at h
    · next name value hlast =>
      cases h
      have hname : name = ascii "jkt" := by
        simpa using (List.mem_filter.mp (List.mem_of_getLast? hlast)).2
      exact ⟨cnf, rfl, hname ▸ hlast⟩
    · cases h
  · cases h

theorem RawClaims.ofJson_eq_some {value : Json} {raw : RawClaims}
    (h : RawClaims.ofJson value = some raw) :
    ∃ members cnf, value = .object members ∧ member members "cnf" = some cnf ∧
      raw.cnf = (cnf.map lenientCnf).getD .absent := by
  cases value with
  | object members =>
    simp only [RawClaims.ofJson, Option.bind_eq_bind, Option.bind_eq_some_iff] at h
    obtain ⟨_, -, _, -, _, -, _, -, _, -, _, -, _, -, _, -, _, -, cnf, hcnf, h⟩ := h
    cases h
    exact ⟨members, cnf, rfl, hcnf, rfl⟩
  | null | bool | natural | number | string | array => cases h

theorem verifySignature_payload {token : Bytes} {keys : KeySet} {policy : JwtPolicy}
    {payload : Bytes} {raw : RawClaims}
    (h : verifySignature x token keys policy = .ok (payload, raw)) :
    ∃ hd p s json, token = hd ++ 46 :: (p ++ 46 :: s) ∧ x.decode p = some payload ∧
      x.json payload = some json ∧ RawClaims.ofJson json = some raw := by
  unfold verifySignature at h
  obtain ⟨-, h⟩ := rejectIf_bind_eq_ok.mp h
  obtain ⟨-, h⟩ := rejectIf_bind_eq_ok.mp h
  obtain ⟨⟨hd, p, s⟩, hparts, h⟩ := orError_bind_eq_ok.mp h
  obtain ⟨⟨_, header⟩, -, h⟩ := orError_bind_eq_ok.mp h
  obtain ⟨-, h⟩ := rejectIf_bind_eq_ok.mp h
  obtain ⟨alg, -, h⟩ := orError_bind_eq_ok.mp h
  obtain ⟨kid, -, h⟩ := bind_eq_ok.mp h
  obtain ⟨found, -, h⟩ := bind_eq_ok.mp h
  obtain ⟨sig, -, h⟩ := orError_bind_eq_ok.mp h
  obtain ⟨-, h⟩ := rejectIf_bind_eq_ok.mp h
  obtain ⟨-, h⟩ := rejectIf_bind_eq_ok.mp h
  have hread := orError_eq_ok.mp h
  unfold readObject at hread
  obtain ⟨bytes, hdecode, hread⟩ := Option.bind_eq_some_iff.mp hread
  split_ifs at hread
  obtain ⟨json, hjson, hread⟩ := Option.bind_eq_some_iff.mp hread
  obtain ⟨raw', hraw, hread⟩ := Option.bind_eq_some_iff.mp hread
  cases hread
  exact ⟨hd, p, s, json, parts_eq_some hparts, hdecode, hjson, hraw⟩

theorem verify_cnf {E : Type} {extra : Bytes → Option E} {token : Bytes} {keys : KeySet}
    {policy : JwtPolicy} {now : ℕ} {claims : Claims E}
    (h : verify x extra token keys policy now = .ok claims) :
    ∃ members cnf, TokenPayload x token members ∧ member members "cnf" = some cnf ∧
      claims.cnf = (cnf.map lenientCnf).getD .absent := by
  unfold verify at h
  obtain ⟨⟨payload, raw⟩, hsignature, h⟩ := bind_eq_ok.mp h
  obtain ⟨⟨iss, aud, exp⟩, -, h⟩ := bind_eq_ok.mp h
  obtain ⟨-, -, h⟩ := bind_eq_ok.mp h
  obtain ⟨e, -, h⟩ := bind_eq_ok.mp h
  cases h
  obtain ⟨hd, p, s, json, htoken, hdecode, hjson, hraw⟩ := verifySignature_payload hsignature
  obtain ⟨members, cnf, rfl, hcnf, heq⟩ := RawClaims.ofJson_eq_some hraw
  exact ⟨members, cnf, ⟨hd, p, s, _, htoken, hdecode, hjson⟩, hcnf, heq⟩

theorem noCnf_of_verify {E : Type} {extra : Bytes → Option E} {token : Bytes} {keys : KeySet}
    {policy : JwtPolicy} {now : ℕ} {claims : Claims E}
    (h : verify x extra token keys policy now = .ok claims) (hcnf : claims.cnf = .absent) :
    NoCnf x token := by
  obtain ⟨members, cnf, hpayload, hmember, heq⟩ := verify_cnf h
  cases cnf with
  | none => exact ⟨members, hpayload, not_mem_of_member_eq_none hmember⟩
  | some value => exact absurd (heq.symm.trans hcnf) (lenientCnf_ne_absent value)

theorem cnfJkt_of_verify {E : Type} {extra : Bytes → Option E} {token : Bytes} {keys : KeySet}
    {policy : JwtPolicy} {now : ℕ} {claims : Claims E} {jkt : Bytes}
    (h : verify x extra token keys policy now = .ok claims) (hcnf : claims.cnf = .jkt jkt) :
    CnfJkt x token jkt := by
  obtain ⟨members, cnf, hpayload, hmember, heq⟩ := verify_cnf h
  cases cnf with
  | none => exact absurd (heq.symm.trans hcnf) (by simp)
  | some value =>
    obtain ⟨inner, rfl, hlast⟩ := lenientCnf_eq_jkt (heq.symm.trans hcnf)
    exact ⟨members, inner, hpayload, mem_of_member_eq_some hmember, hlast⟩

/-- A token that was good once differs at another time only in the checks against it. -/
theorem verify_at {E : Type} {extra : Bytes → Option E} {token : Bytes} {keys : KeySet}
    {policy : JwtPolicy} {now : ℕ} {claims : Claims E}
    (h : verify x extra token keys policy now = .ok claims) (now' : ℕ) :
    verify x extra token keys policy now' =
      (checkTime claims.exp claims.nbf now' policy.clockSkew).map fun _ => claims := by
  unfold verify at h ⊢
  obtain ⟨⟨payload, raw⟩, hsignature, h⟩ := bind_eq_ok.mp h
  obtain ⟨⟨iss, aud, exp⟩, hissuer, h⟩ := bind_eq_ok.mp h
  obtain ⟨-, htime, h⟩ := bind_eq_ok.mp h
  obtain ⟨e, hextra, h⟩ := bind_eq_ok.mp h
  cases h
  rw [hsignature]
  change (verifyIssuer policy raw >>= _) = _
  rw [hissuer]
  change (checkTime exp raw.nbf now' policy.clockSkew >>= _) = _
  rw [hextra]
  cases checkTime exp raw.nbf now' policy.clockSkew <;> rfl

end

end FandheBackend.JwtVerify
