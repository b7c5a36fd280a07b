import FandheBackend.JwtVerify

set_option autoImplicit false

/-!
# Key sets (`crates/plugin-jwt/src/jwks.rs`)

A document is read as a whole: an entry is a key to keep, a key of a kind that is not supported,
or a reason to refuse the document.
-/
namespace FandheBackend.JwtJwks
open StdBytes ExceptChecks JwtVerify

def maxJwksDocLen : ℕ := 64 * 1024
def maxKeys : ℕ := 32
def maxKeysPerKid : ℕ := 3
def maxRsaNLen : ℕ := 1024
def maxRsaELen : ℕ := 8
def ecP256CoordLen : ℕ := 32

inductive JwksError where
  | documentTooLarge
  | invalidJson
  | tooManyKeys
  | tooManyKeysForKeyId
  | missingKeyId
  | keyIdTooLong
  | missingAlgorithm
  | keyAlgorithmMismatch
  | unsupportedCurve
  | forbiddenAlgorithm
  | symmetricKey
  | privateKeyMaterial
  | missingKeyComponent
  | invalidKeyEncoding
  | keyTooLarge
  | invalidKeyLength
  | duplicateKey
  | noUsableKeys
  deriving DecidableEq, Repr

/-- The members of an entry; of the private ones only whether they are there. -/
structure RawJwk where
  kty : Option Bytes
  kid : Option Bytes
  alg : Option Bytes
  use : Option Bytes
  crv : Option Bytes
  n : Option Bytes
  e : Option Bytes
  x : Option Bytes
  y : Option Bytes
  d : Bool
  p : Bool
  q : Bool
  dp : Bool
  dq : Bool
  qi : Bool
  oth : Bool
  k : Bool

/-- The derived deserializer: an object, or an array with the members in the order of the struct. -/
def RawJwk.ofJson : Json → Option RawJwk
  | .object members => do
    let kty ← stringMember members "kty"
    let kid ← stringMember members "kid"
    let alg ← stringMember members "alg"
    let use ← stringMember members "use"
    let crv ← stringMember members "crv"
    let n ← stringMember members "n"
    let e ← stringMember members "e"
    let x ← stringMember members "x"
    let y ← stringMember members "y"
    let d ← present members "d"
    let p ← present members "p"
    let q ← present members "q"
    let dp ← present members "dp"
    let dq ← present members "dq"
    let qi ← present members "qi"
    let oth ← present members "oth"
    let k ← present members "k"
    return ⟨kty, kid, alg, use, crv, n, e, x, y, d, p, q, dp, dq, qi, oth, k⟩
  | .array elements => do
    guard (elements.length ≤ 17)
    let kty ← optString elements[0]?
    let kid ← optString elements[1]?
    let alg ← optString elements[2]?
    let use ← optString elements[3]?
    let crv ← optString elements[4]?
    let n ← optString elements[5]?
    let e ← optString elements[6]?
    let x ← optString elements[7]?
    let y ← optString elements[8]?
    return ⟨kty, kid, alg, use, crv, n, e, x, y, elements[9]?.isSome, elements[10]?.isSome,
      elements[11]?.isSome, elements[12]?.isSome, elements[13]?.isSome, elements[14]?.isSome,
      elements[15]?.isSome, elements[16]?.isSome⟩
  | _ => none

/-- `RawSet`: the one member `keys`. -/
def rawSet : Json → Option (List RawJwk)
  | .object members =>
    match member members "keys" with
    | some (some (.array entries)) => entries.mapM RawJwk.ofJson
    | _ => none
  | .array [.array entries] => entries.mapM RawJwk.ofJson
  | _ => none

def skippableRsaAlgs : List Bytes :=
  [ascii "RS384", ascii "RS512", ascii "PS256", ascii "PS384", ascii "PS512", ascii "RSA1_5",
    ascii "RSA-OAEP", ascii "RSA-OAEP-256"]

def skippableEcAlgs : List Bytes :=
  [ascii "ECDH-ES", ascii "ECDH-ES+A128KW", ascii "ECDH-ES+A192KW", ascii "ECDH-ES+A256KW"]

/-- `none` in any case, or one of the HMAC algorithms. -/
def isForbidden (alg : Bytes) : Bool :=
  eqIgnoreAsciiCase alg (ascii "none") ||
    alg == ascii "HS256" || alg == ascii "HS384" || alg == ascii "HS512"

def requiredKty (alg : Bytes) : Option (List Bytes) :=
  if (ascii "RS").isPrefixOf alg || (ascii "PS").isPrefixOf alg || (ascii "RSA").isPrefixOf alg then
    some [ascii "RSA"]
  else if (ascii "ECDH-ES").isPrefixOf alg then some [ascii "EC", ascii "OKP"]
  else if (ascii "ES").isPrefixOf alg then some [ascii "EC"]
  else none

def requiredCrv (alg : Bytes) : Option Bytes :=
  if alg = ascii "ES256" then some (ascii "P-256")
  else if alg = ascii "ES384" then some (ascii "P-384")
  else if alg = ascii "ES512" then some (ascii "P-521")
  else none

def checkAlg (kty : Bytes) (crv : Option Bytes) : Option Bytes → Except JwksError Unit
  | none => .ok ()
  | some alg => do
    rejectIf (∃ req ∈ requiredKty alg, kty ∉ req) .keyAlgorithmMismatch
    rejectIf (kty = ascii "EC" ∧ ∃ rc ∈ requiredCrv alg, crv ≠ some rc)
      (if alg = ascii "ES256" then .unsupportedCurve else .keyAlgorithmMismatch)

/-- The checks that come before an entry may be skipped. -/
def checkEntry (raw : RawJwk) (kty : Bytes) : Except JwksError Unit := do
  rejectIf (kty = ascii "oct") .symmetricKey
  rejectIf (raw.alg.any isForbidden = true) .forbiddenAlgorithm
  rejectIf ((raw.d || raw.p || raw.q || raw.dp || raw.dq || raw.qi || raw.oth || raw.k) = true)
    .privateKeyMaterial
  checkAlg kty raw.crv raw.alg

def encodedCap (bytes : ℕ) : ℕ := bytes * 4 / 3 + 4

section
variable (x : Externals)

def decodeRsa (s : Option Bytes) (max : ℕ) : Except JwksError Bytes := do
  let s ← orError .missingKeyComponent s
  rejectIf (encodedCap max + 8 < s.length) .keyTooLarge
  let bytes ← orError .invalidKeyEncoding (x.decode s)
  let trimmed := bytes.dropWhile (· == 0)
  rejectIf (trimmed = []) .invalidKeyEncoding
  rejectIf (max < trimmed.length) .keyTooLarge
  return trimmed

def decodeCoord (s : Option Bytes) : Except JwksError Bytes := do
  let s ← orError .missingKeyComponent s
  rejectIf (encodedCap ecP256CoordLen < s.length) .invalidKeyLength
  let bytes ← orError .invalidKeyEncoding (x.decode s)
  rejectIf (bytes.length ≠ ecP256CoordLen) .invalidKeyLength
  return bytes

def keyMaterial (raw : RawJwk) : Algorithm → Except JwksError KeyMaterial
  | .rs256 => do
    let n ← decodeRsa x raw.n maxRsaNLen
    let e ← decodeRsa x raw.e maxRsaELen
    return .rsa n e
  | .es256 => do
    let px ← decodeCoord x raw.x
    let py ← decodeCoord x raw.y
    return .ecP256 (4 :: px ++ py)

def adopt (raw : RawJwk) (algorithm : Algorithm) : Except JwksError Jwk := do
  let kid ← orError .missingKeyId (raw.kid.filter (· ≠ []))
  rejectIf (maxKidLen < kid.length) .keyIdTooLong
  let alg ← orError .missingAlgorithm raw.alg
  rejectIf (alg ≠ algorithm.asJoseName) .keyAlgorithmMismatch
  let material ← keyMaterial x raw algorithm
  return ⟨kid, algorithm, material⟩

/-- The algorithm of a key of this type, with those that are passed over. -/
def supported (raw : RawJwk) (kty : Bytes) : Option (Algorithm × List Bytes) :=
  if kty = ascii "RSA" then some (.rs256, skippableRsaAlgs)
  else if kty = ascii "EC" ∧ raw.crv = some (ascii "P-256") then some (.es256, skippableEcAlgs)
  else none

def classifyChecked (raw : RawJwk) (kty : Bytes) : Except JwksError (Option Jwk) :=
  if raw.use.any (· ≠ ascii "sig") = true then .ok none
  else do
    rejectIf (kty = ascii "EC" ∧ raw.crv = none) .unsupportedCurve
    match supported raw kty with
    | none => .ok none
    | some (algorithm, skippable) =>
      if raw.alg.any (fun alg => alg ≠ algorithm.asJoseName ∧ alg ∈ skippable) = true then .ok none
      else (adopt x raw algorithm).map some

/-- A key to keep, `none` for an entry to skip, or the error that refuses the document. -/
def classify (raw : RawJwk) : Except JwksError (Option Jwk) := do
  let kty ← orError .invalidJson raw.kty
  checkEntry raw kty
  classifyChecked x raw kty

structure KeyDocument where
  keys : KeySet
  skipped : ℕ
  deriving DecidableEq

def classifyAll : List RawJwk → KeySet → ℕ → Except JwksError (KeySet × ℕ)
  | [], keys, skipped => .ok (keys, skipped)
  | entry :: rest, keys, skipped => do
    match ← classify x entry with
    | some jwk => classifyAll rest (keys ++ [jwk]) skipped
    | none => classifyAll rest keys (skipped + 1)

/-- The loop over the keys with those before it. -/
def checkKeys (keys : KeySet) : (before rest : KeySet) → Except JwksError Unit
  | _, [] => .ok ()
  | before, a :: rest => do
    rejectIf (maxKeysPerKid < (keys.filter (·.kid = a.kid)).length) .tooManyKeysForKeyId
    rejectIf (a ∈ before) .duplicateKey
    checkKeys keys (before ++ [a]) rest

def fromJson (json : Bytes) : Except JwksError KeyDocument := do
  rejectIf (maxJwksDocLen < json.length) .documentTooLarge
  let raw ← orError .invalidJson ((x.json json).bind rawSet)
  let (keys, skipped) ← classifyAll x raw [] 0
  rejectIf (maxKeys < keys.length) .tooManyKeys
  checkKeys keys [] keys
  rejectIf (raw ≠ [] ∧ keys = []) .noUsableKeys
  return ⟨keys, skipped⟩

end

end FandheBackend.JwtJwks
