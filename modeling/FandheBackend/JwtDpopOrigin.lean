import FandheBackend.ExceptChecks
import FandheBackend.PatternSearch
import FandheBackend.StdBytes

set_option autoImplicit false

namespace FandheBackend.JwtDpopOrigin
open StdBytes ExceptChecks PatternSearch

def maxOriginLen : ℕ := 512
def maxHtuLen : ℕ := 4096

inductive OriginError where
  | tooLong
  | invalidScheme
  | invalidHost
  | invalidPort
  | userInfo
  | pathNotAllowed
  | queryOrFragment
  deriving DecidableEq, Repr

/-- `str::split_once`. -/
def splitOnce (pattern s : Bytes) : Option (Bytes × Bytes) :=
  (findFirst pattern s).map fun i => (s.take i, s.drop (i + pattern.length))

/-- `str::rsplit_once` at a byte. -/
def rsplitOnce (b : UInt8) (s : Bytes) : Option (Bytes × Bytes) :=
  (s.reverse.findIdx? (· == b)).map fun i => (s.take (s.length - 1 - i), s.drop (s.length - i))

def parseScheme (scheme : Bytes) : Except OriginError (Bytes × ℕ) :=
  if eqIgnoreAsciiCase scheme (ascii "https") then .ok (ascii "https", 443)
  else if eqIgnoreAsciiCase scheme (ascii "http") then .ok (ascii "http", 80)
  else .error .invalidScheme

def parseIpv6Authority (authority : Bytes) : Except OriginError (Bytes × Option Bytes) := do
  let close ← orError .invalidHost (authority.findIdx? (· == 93))
  let inner := (authority.take close).drop 1
  rejectIf (inner = [] ∨ inner.contains 58 = false ∨
    inner.all (fun b => isAsciiHexdigit b || b == 58 || b == 46) = false) .invalidHost
  let host := (authority.take (close + 1)).map toAsciiLowercase
  match authority.drop (close + 1) with
  | [] => return (host, none)
  | b :: port => do
    rejectIf (b ≠ 58) .invalidHost
    return (host, some port)

def parseNamedAuthority (authority : Bytes) : Except OriginError (Bytes × Option Bytes) := do
  let (h, p) := match rsplitOnce 58 authority with
    | some (h, p) => (h, some p)
    | none => (authority, none)
  rejectIf (h = [] ∨ 253 < h.length ∨
    h.all (fun b => isAsciiAlphanumeric b || b == 46 || b == 45) = false) .invalidHost
  return (h.map toAsciiLowercase, p)

def parsePort (defaultPort : ℕ) : Option Bytes → Except OriginError (Option ℕ)
  | none => .ok none
  | some p => do
    rejectIf (p = [] ∨ 5 < p.length ∨ p.all isAsciiDigit = false) .invalidPort
    let n := digitsValue 10 p
    rejectIf (65535 < n) .invalidPort
    rejectIf (n = 0) .invalidPort
    return if n = defaultPort then none else some n

def parseOrigin (s : Bytes) : Except OriginError (Bytes × Bytes) := do
  let (scheme, after) ← orError .invalidScheme (splitOnce (ascii "://") s)
  let (scheme, defaultPort) ← parseScheme scheme
  let stop := after.findIdx fun b => b == 47 || b == 63 || b == 35
  let authority := after.take stop
  rejectIf (authority.contains 64 = true) .userInfo
  let (host, port) ←
    if authority.head? = some 91 then parseIpv6Authority authority
    else parseNamedAuthority authority
  let port ← parsePort defaultPort port
  let portText := match port with
    | some n => 58 :: numeral 10 n
    | none => []
  return (scheme ++ ascii "://" ++ host ++ portText, after.drop stop)

/-- The loop of `normalize_path`: escapes stay escapes, with upper-case digits. -/
def normalizeBytes : Bytes → Option Bytes
  | [] => some []
  | b :: rest =>
    if b < 0x21 || 0x7E < b || b == 92 then none
    else if b = 37 then
      match rest with
      | h1 :: h2 :: rest =>
        if isAsciiHexdigit h1 && isAsciiHexdigit h2 then
          (normalizeBytes rest).map ([37, toAsciiUppercase h1, toAsciiUppercase h2] ++ ·)
        else none
      | _ => none
    else (normalizeBytes rest).map (b :: ·)

/-- `replace("%2E", ".")`. -/
def replaceEscapedDots : Bytes → Bytes
  | 37 :: 50 :: 69 :: rest => 46 :: replaceEscapedDots rest
  | b :: rest => b :: replaceEscapedDots rest
  | [] => []

def isDotSegment (seg : Bytes) : Bool :=
  replaceEscapedDots seg == [46] || replaceEscapedDots seg == [46, 46]

def normalizePath (path : Bytes) : Option Bytes :=
  if path = [] then some [47]
  else if path.head? ≠ some 47 then none
  else (normalizeBytes path).filter fun out => !(out.splitOn 47).any isDotSegment

/-- `PublicOrigin::new`, as the text it keeps. -/
def publicOrigin (origin : Bytes) : Except OriginError Bytes := do
  rejectIf (maxOriginLen < origin.length) .tooLong
  let (normalized, rest) ← parseOrigin origin
  if rest = [] ∨ rest = [47] then return normalized
  else if rest.contains 63 ∨ rest.contains 35 then throw .queryOrFragment
  else throw .pathNotAllowed

structure PublicOrigin where
  text : Bytes
  built : ∃ origin, publicOrigin origin = .ok text

/-- The URI that a proof must be for, or `none` for `InvalidRequestTarget`. -/
def PublicOrigin.expectedHtu (o : PublicOrigin) (path : Bytes) : Option Bytes := do
  guard (path.head? = some 47 ∧ path.contains 63 = false ∧ path.contains 35 = false)
  let path ← normalizePath path
  guard ((o.text ++ path).length ≤ maxHtuLen)
  return o.text ++ path

/-- The URI of a proof, without its query and its fragment. -/
def normalizeProofHtu (htu : Bytes) : Option Bytes :=
  if maxHtuLen < htu.length then none
  else match parseOrigin htu with
    | .error _ => none
    | .ok (origin, rest) =>
      let rest := (rest.takeWhile (· != 35)).takeWhile (· != 63)
      (normalizePath rest).map (origin ++ ·)

end FandheBackend.JwtDpopOrigin
