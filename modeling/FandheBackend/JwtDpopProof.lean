import FandheBackend.JwtDpopOrigin
import FandheBackend.JwtVerify

set_option autoImplicit false

/-!
# DPoP proofs (`crates/plugin-jwt/src/dpop.rs`, `dpop/key.rs`)

A proof is a token signed with the key in its own header. It names the request and the access
token that it goes with; what it gives is the thumbprint of its key.
-/
namespace FandheBackend.JwtDpopProof
open StdBytes ExceptChecks JwtVerify JwtDpopOrigin

inductive DpopError where
  | missingProof
  | tooLong
  | malformed
  | invalidType
  | algorithmNotAllowed
  | criticalHeader
  | missingJwk
  | privateKeyMaterial
  | unsupportedKey
  | keyAlgorithmMismatch
  | invalidKey
  | invalidSignature
  | missingClaim
  | invalidJti
  | methodMismatch
  | uriMismatch
  | accessTokenHashMismatch
  | issuedAtOutOfWindow
  | invalidRequestTarget
  | replayed
  | replayStoreFull
  | multipleProofs
  | thumbprintMismatch
  | boundTokenAsBearer
  | unboundToken
  deriving DecidableEq, Repr

def maxProofLen : ℕ := maxTokenLen
def maxJtiLen : ℕ := 256
def ecCoordLen : ℕ := 32
def rsaNMin : ℕ := 256
def rsaNMax : ℕ := 1024
def rsaEMax : ℕ := 8

/-- The members of a `jwk`; of the private ones only whether they are there. -/
structure JwkFields where
  kty : Option Bytes
  alg : Option Bytes
  use : Option Bytes
  crv : Option Bytes
  n : Option Bytes
  e : Option Bytes
  x : Option Bytes
  y : Option Bytes
  d : Bool
  p : Bool
  q : Bool
  dp : Bool
  dq : Bool
  qi : Bool
  oth : Bool
  k : Bool

/-- `ProofJwk::deserialize`: an array is refused. -/
def JwkFields.ofJson : Json → Option JwkFields
  | .object members => do
    let kty ← stringMember members "kty"
    let alg ← stringMember members "alg"
    let use ← stringMember members "use"
    let crv ← stringMember members "crv"
    let n ← stringMember members "n"
    let e ← stringMember members "e"
    let x ← stringMember members "x"
    let y ← stringMember members "y"
    let d ← present members "d"
    let p ← present members "p"
    let q ← present members "q"
    let dp ← present members "dp"
    let dq ← present members "dq"
    let qi ← present members "qi"
    let oth ← present members "oth"
    let k ← present members "k"
    return ⟨kty, alg, use, crv, n, e, x, y, d, p, q, dp, dq, qi, oth, k⟩
  | _ => none

structure ProofKey where
  material : KeyMaterial
  thumbprint : Bytes

structure RawProofHeader where
  alg : Option Bytes
  typ : Option Bytes
  crit : Bool
  jwk : Option JwkFields

/-- `Option<ProofJwk>`. -/
def optJwk : Option Json → Option (Option JwkFields)
  | none | some .null => some none
  | some value => (JwkFields.ofJson value).map some

def RawProofHeader.ofJson : Json → Option RawProofHeader
  | .object members => do
    let alg ← stringMember members "alg"
    let typ ← stringMember members "typ"
    let crit ← present members "crit"
    let jwk ← (member members "jwk").bind optJwk
    return ⟨alg, typ, crit, jwk⟩
  | _ => none

structure RawProofClaims where
  jti : Option Bytes
  htm : Option Bytes
  htu : Option Bytes
  iat : Option ℕ
  ath : Option Bytes

def RawProofClaims.ofJson : Json → Option RawProofClaims
  | .object members => do
    let jti ← stringMember members "jti"
    let htm ← stringMember members "htm"
    let htu ← stringMember members "htu"
    let iat ← u64Member members "iat"
    let ath ← stringMember members "ath"
    return ⟨jti, htm, htu, iat, ath⟩
  | _ => none

/-- `IatWindow`, in whole seconds: the code compares nothing finer with the clock. -/
structure IatWindow where
  past : ℕ
  future : ℕ
  past_pos : 0 < past
  past_le : past ≤ 300
  future_le : future ≤ 60

structure ProofContext where
  method : Bytes
  htu : Bytes
  accessToken : Bytes
  algs : List Algorithm
  window : IatWindow

structure VerifiedProof where
  thumbprint : Bytes
  jti : Bytes
  iat : ℕ
  deriving DecidableEq

def typIsDpop (typ : Bytes) : Bool :=
  let t := if eqIgnoreAsciiCase (typ.take 12) (ascii "application/") then typ.drop 12 else typ
  eqIgnoreAsciiCase t (ascii "dpop+jwt")

def encodedCap (bytes : ℕ) : ℕ := bytes * 4 / 3 + 4

section
variable (x : Externals)

def thumbprintOf (canonicalJson : Bytes) : Bytes := x.encode (x.sha256 canonicalJson)

def canonicalInt (s : Option Bytes) (min max : ℕ) : Except DpopError Bytes := do
  let s ← orError .invalidKey s
  rejectIf (encodedCap max < s.length) .invalidKey
  let bytes ← orError .invalidKey (x.decode s)
  rejectIf (bytes.length < min ∨ max < bytes.length ∨ bytes.head? = some 0) .invalidKey
  return bytes

def fixedCoord (s : Option Bytes) : Except DpopError Bytes := do
  let s ← orError .invalidKey s
  rejectIf (encodedCap ecCoordLen < s.length) .invalidKey
  let bytes ← orError .invalidKey (x.decode s)
  rejectIf (bytes.length ≠ ecCoordLen) .invalidKey
  return bytes

theorem fixedCoord_length {x : Externals} {s : Option Bytes} {bytes : Bytes}
    (h : fixedCoord x s = .ok bytes) : bytes.length = ecCoordLen := by
  unfold fixedCoord at h
  obtain ⟨s, -, h⟩ := orError_bind_eq_ok.mp h
  obtain ⟨-, h⟩ := rejectIf_bind_eq_ok.mp h
  obtain ⟨bytes', -, h⟩ := orError_bind_eq_ok.mp h
  obtain ⟨hlength, h⟩ := rejectIf_bind_eq_ok.mp h
  cases h
  exact not_not.mp hlength

def keyAlgorithm (kty : Bytes) : Except DpopError Algorithm :=
  if kty = ascii "RSA" then .ok .rs256
  else if kty = ascii "EC" then .ok .es256
  else .error .unsupportedKey

def buildProofKey (j : JwkFields) (headerAlg : Option Algorithm) : Except DpopError ProofKey := do
  rejectIf ((j.d || j.p || j.q || j.dp || j.dq || j.qi || j.oth || j.k) = true)
    .privateKeyMaterial
  let kty ← orError .unsupportedKey j.kty
  let keyAlg ← keyAlgorithm kty
  rejectIf (headerAlg.any (· ≠ keyAlg) = true) .keyAlgorithmMismatch
  rejectIf (j.alg.any (· ≠ keyAlg.asJoseName) = true) .keyAlgorithmMismatch
  rejectIf (j.use.any (· ≠ ascii "sig") = true) .unsupportedKey
  match keyAlg with
  | .rs256 =>
    let n ← canonicalInt x j.n rsaNMin rsaNMax
    let e ← canonicalInt x j.e 1 rsaEMax
    let json := ascii "\x7b\"e\":\"" ++ x.encode e ++ ascii "\",\"kty\":\"RSA\",\"n\":\"" ++
      x.encode n ++ ascii "\"\x7d"
    return ⟨.rsa n e, thumbprintOf x json⟩
  | .es256 =>
    rejectIf (j.crv ≠ some (ascii "P-256")) .unsupportedKey
    let px ← fixedCoord x j.x
    let py ← fixedCoord x j.y
    let json := ascii "\x7b\"crv\":\"P-256\",\"kty\":\"EC\",\"x\":\"" ++ x.encode px ++
      ascii "\",\"y\":\"" ++ x.encode py ++ ascii "\"\x7d"
    return ⟨.ecP256 (4 :: px ++ py), thumbprintOf x json⟩

/-- `verify_proof` up to the payload: the key of the proof, and the claims that it signed. -/
def verifyProofSignature (proof : Bytes) (ctx : ProofContext) :
    Except DpopError (Bytes × RawProofClaims) := do
  rejectIf (proof = []) .missingProof
  rejectIf (maxProofLen < proof.length) .tooLong
  let (h, p, s) ← orError .malformed (parts proof)
  let (_, header) ← orError .malformed (readObject x RawProofHeader.ofJson h)
  rejectIf (header.crit = true) .criticalHeader
  rejectIf (header.typ.any typIsDpop = false) .invalidType
  let alg ← orError .algorithmNotAllowed
    ((header.alg.bind Algorithm.fromJoseName).filter (ctx.algs.contains ·))
  let jwk ← orError .missingJwk header.jwk
  let proofKey ← buildProofKey x jwk (some alg)
  let sig ← orError .malformed (x.decode s)
  let msg := proof.take (h.length + 1 + p.length)
  rejectIf (signatureOk x alg proofKey.material msg sig = false) .invalidSignature
  let (_, claims) ← orError .malformed (readObject x RawProofClaims.ofJson p)
  return (proofKey.thumbprint, claims)

def RawProofClaims.all (claims : RawProofClaims) : Option (Bytes × Bytes × Bytes × ℕ × Bytes) := do
  let jti ← claims.jti
  let htm ← claims.htm
  let htu ← claims.htu
  let iat ← claims.iat
  let ath ← claims.ath
  return (jti, htm, htu, iat, ath)

def inWindow (window : IatWindow) (iat now : ℕ) : Prop :=
  now - window.past ≤ iat ∧ iat ≤ u64SaturatingAdd now window.future

instance (window : IatWindow) (iat now : ℕ) : Decidable (inWindow window iat now) :=
  inferInstanceAs (Decidable (_ ∧ _))

def verifyProof (proof : Bytes) (ctx : ProofContext) (now : ℕ) :
    Except DpopError VerifiedProof := do
  let (thumbprint, claims) ← verifyProofSignature x proof ctx
  let (jti, htm, htu, iat, ath) ← orError .missingClaim claims.all
  rejectIf (jti = [] ∨ maxJtiLen < jti.length) .invalidJti
  rejectIf (htm ≠ ctx.method) .methodMismatch
  rejectIf (normalizeProofHtu htu ≠ some ctx.htu) .uriMismatch
  rejectIf (¬inWindow ctx.window iat now) .issuedAtOutOfWindow
  rejectIf (ath ≠ x.encode (x.sha256 ctx.accessToken)) .accessTokenHashMismatch
  return ⟨thumbprint, jti, iat⟩

/-- RFC 7638: the hash of the required members of a public key, in their order. -/
def rfc7638Thumbprint : KeyMaterial → Bytes
  | .rsa n e => thumbprintOf x (ascii "\x7b\"e\":\"" ++ x.encode e ++
      ascii "\",\"kty\":\"RSA\",\"n\":\"" ++ x.encode n ++ ascii "\"\x7d")
  | .ecP256 point => thumbprintOf x (ascii "\x7b\"crv\":\"P-256\",\"kty\":\"EC\",\"x\":\"" ++
      x.encode ((point.drop 1).take 32) ++ ascii "\",\"y\":\"" ++ x.encode (point.drop 33) ++
      ascii "\"\x7d")

/-- A proof whose payload, with the given claims, is signed with a key. -/
def SignedProof (algs : List Algorithm) (proof : Bytes) (key : KeyMaterial)
    (claims : RawProofClaims) : Prop :=
  ∃ h p s alg sig payload, proof = h ++ 46 :: (p ++ 46 :: s) ∧ alg ∈ algs ∧
    x.decode s = some sig ∧ signatureOk x alg key (h ++ 46 :: p) sig = true ∧
    readObject x RawProofClaims.ofJson p = some (payload, claims)

variable {x}

theorem buildProofKey_eq_ok {j : JwkFields} {alg : Option Algorithm} {key : ProofKey}
    (h : buildProofKey x j alg = .ok key) : key.thumbprint = rfc7638Thumbprint x key.material := by
  unfold buildProofKey at h
  obtain ⟨-, h⟩ := rejectIf_bind_eq_ok.mp h
  obtain ⟨kty, -, h⟩ := orError_bind_eq_ok.mp h
  obtain ⟨keyAlg, -, h⟩ := bind_eq_ok.mp h
  obtain ⟨-, h⟩ := rejectIf_bind_eq_ok.mp h
  obtain ⟨-, h⟩ := rejectIf_bind_eq_ok.mp h
  obtain ⟨-, h⟩ := rejectIf_bind_eq_ok.mp h
  cases keyAlg with
  | rs256 =>
    obtain ⟨n, -, h⟩ := bind_eq_ok.mp h
    obtain ⟨e, -, h⟩ := bind_eq_ok.mp h
    cases h
    rfl
  | es256 =>
    obtain ⟨-, h⟩ := rejectIf_bind_eq_ok.mp h
    obtain ⟨px, hx, h⟩ := bind_eq_ok.mp h
    obtain ⟨py, -, h⟩ := bind_eq_ok.mp h
    cases h
    have hlength : px.length = 32 := fixedCoord_length hx
    have htake : (px ++ py).take 32 = px := by rw [← hlength, List.take_left]
    have hdrop : (px ++ py).drop 32 = py := by rw [← hlength, List.drop_left]
    change thumbprintOf x _ = thumbprintOf x (_ ++ x.encode ((px ++ py).take 32) ++ _ ++
      x.encode ((px ++ py).drop 32) ++ _)
    rw [htake, hdrop]

theorem verifyProofSignature_eq_ok {proof : Bytes} {ctx : ProofContext} {thumbprint : Bytes}
    {claims : RawProofClaims} (h : verifyProofSignature x proof ctx = .ok (thumbprint, claims)) :
    ∃ key, SignedProof x ctx.algs proof key claims ∧ rfc7638Thumbprint x key = thumbprint := by
  unfold verifyProofSignature at h
  obtain ⟨-, h⟩ := rejectIf_bind_eq_ok.mp h
  obtain ⟨-, h⟩ := rejectIf_bind_eq_ok.mp h
  obtain ⟨⟨hd, p, s⟩, hparts, h⟩ := orError_bind_eq_ok.mp h
  obtain ⟨⟨_, header⟩, -, h⟩ := orError_bind_eq_ok.mp h
  obtain ⟨-, h⟩ := rejectIf_bind_eq_ok.mp h
  obtain ⟨-, h⟩ := rejectIf_bind_eq_ok.mp h
  obtain ⟨alg, halg, h⟩ := orError_bind_eq_ok.mp h
  obtain ⟨jwk, -, h⟩ := orError_bind_eq_ok.mp h
  obtain ⟨proofKey, hkey, h⟩ := bind_eq_ok.mp h
  obtain ⟨sig, hsig, h⟩ := orError_bind_eq_ok.mp h
  obtain ⟨hsignature, h⟩ := rejectIf_bind_eq_ok.mp h
  obtain ⟨⟨payload, claims'⟩, hpayload, h⟩ := orError_bind_eq_ok.mp h
  cases h
  have hproof := parts_eq_some hparts
  have hmsg : proof.take (hd.length + 1 + p.length) = hd ++ 46 :: p := take_parts hproof
  have hallowed : alg ∈ ctx.algs := by simpa using (Option.filter_eq_some_iff.mp halg).2
  rw [hmsg, Bool.not_eq_false] at hsignature
  exact ⟨proofKey.material, ⟨hd, p, s, alg, sig, payload, hproof, hallowed, hsig, hsignature,
    hpayload⟩, (buildProofKey_eq_ok hkey).symm⟩

theorem verifyProof_eq_ok {proof : Bytes} {ctx : ProofContext} {now : ℕ} {v : VerifiedProof}
    (h : verifyProof x proof ctx now = .ok v) :
    ∃ claims htu, verifyProofSignature x proof ctx = .ok (v.thumbprint, claims) ∧
      claims.all = some (v.jti, ctx.method, htu, v.iat, x.encode (x.sha256 ctx.accessToken)) ∧
      normalizeProofHtu htu = some ctx.htu ∧ inWindow ctx.window v.iat now := by
  unfold verifyProof at h
  obtain ⟨⟨thumbprint, claims⟩, hsignature, h⟩ := bind_eq_ok.mp h
  obtain ⟨⟨jti, htm, htu, iat, ath⟩, hall, h⟩ := orError_bind_eq_ok.mp h
  obtain ⟨-, h⟩ := rejectIf_bind_eq_ok.mp h
  obtain ⟨hmethod, h⟩ := rejectIf_bind_eq_ok.mp h
  obtain ⟨huri, h⟩ := rejectIf_bind_eq_ok.mp h
  obtain ⟨hwindow, h⟩ := rejectIf_bind_eq_ok.mp h
  obtain ⟨hath, h⟩ := rejectIf_bind_eq_ok.mp h
  rw [not_not] at hmethod huri hwindow hath
  cases h
  subst hmethod hath
  exact ⟨claims, htu, hsignature, hall, huri, hwindow⟩

end

end FandheBackend.JwtDpopProof
