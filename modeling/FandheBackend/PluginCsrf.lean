import FandheBackend.CoreGates
import FandheBackend.ExceptChecks
import FandheBackend.HttpForm
import FandheBackend.Ipv6Text

set_option autoImplicit false

/-!
# The CSRF gate (`config.rs` and `gate.rs` of `crates/plugin-csrf`)

The builder takes only origins in the form in which a browser writes them. The gate then
compares the bytes of an `Origin` header and normalises nothing.
-/
namespace FandheBackend.PluginCsrf
open StdBytes ExceptChecks HttpRequestHead HttpResponse HttpForm CoreGates Ipv6Text

def maxAllowedOrigins : ℕ := 64

def maxExemptPaths : ℕ := 64

def maxEntryLen : ℕ := 2048

inductive CsrfConfigError where
  | invalidOrigin (index : ℕ)
  | invalidExemptPath (index : ℕ)
  | tooManyOrigins
  | tooManyExemptPaths
  deriving DecidableEq, Repr

section Origins

def validIpv6Literal (inner : Bytes) : Bool :=
  if inner.contains 46 then false
  else match fromStr inner with
    | none => false
    | some addr =>
      let canonical := match toIpv4Mapped addr with
        | some (a, b, c, d) =>
          ascii "::ffff:" ++ hexGroup (fromBeBytes a b) ++ [58] ++ hexGroup (fromBeBytes c d)
        | none => display addr
      canonical == inner

/-- The last of the labels: `rsplit('.').next()`. -/
def lastLabel (h : Bytes) : Bytes := (h.splitOn 46).getLast?.getD []

def endsInNumber (h : Bytes) : Bool :=
  let last := lastLabel h
  if last.isEmpty then false
  else if last.all isAsciiDigit then true
  else (stripPrefix (ascii "0x") last).any fun r => r.all isAsciiHexdigit

def isIpv4Part (part : Bytes) : Bool :=
  !part.isEmpty && part.length ≤ 3 && part.all isAsciiDigit &&
    (part == ascii "0" || part.head? != some 48) && (parseUnsigned (2 ^ 16) part).any (· ≤ 255)

def canonicalIpv4Loop : ℕ → List Bytes → Bool
  | n, [] => n == 4
  | n, part :: parts => if !isIpv4Part part then false else canonicalIpv4Loop (n + 1) parts

def canonicalIpv4 (h : Bytes) : Bool := canonicalIpv4Loop 0 (h.splitOn 46)

def isLabelByte (b : UInt8) : Bool := isAsciiLowercase b || isAsciiDigit b || b == 45

def validHostname (h : Bytes) : Bool :=
  let hadDot := h.getLast? == some 46
  let h := if hadDot then h.dropLast else h
  if endsInNumber h then !hadDot && canonicalIpv4 h
  else !h.isEmpty && (h.splitOn 46).all fun label => !label.isEmpty && label.all isLabelByte

def validPort (p defaultPort : Bytes) : Bool :=
  if p.isEmpty || p.length > 5 || p.head? == some 48 || p == defaultPort then false
  else p.all isAsciiDigit && (parseUnsigned (2 ^ 32) p).any (· ≤ 65535)

/-- The default port of the scheme and what follows `://`. -/
def splitScheme (s : Bytes) : Option (Bytes × Bytes) :=
  match stripPrefix (ascii "https://") s with
  | some r => some (ascii "443", r)
  | none => (stripPrefix (ascii "http://") s).map fun r => (ascii "80", r)

/-- The port of `rest`, if it has one; `none` when the host is refused. -/
def portOf (rest : Bytes) : Option (Option Bytes) :=
  match rest with
  | 91 :: after =>
    match splitOnce 93 after with
    | none => none
    | some (inner, tail) =>
      if !validIpv6Literal inner then none
      else match tail with
        | [] => some none
        | 58 :: p => some (some p)
        | _ => none
  | _ =>
    let (host, port) := match splitOnce 58 rest with
      | some (h, p) => (h, some p)
      | none => (rest, none)
    if !validHostname host then none else some port

def validOrigin (s : Bytes) : Bool :=
  if s.isEmpty || s.length > maxEntryLen then false
  else match splitScheme s with
    | none => false
    | some (defaultPort, rest) =>
      match portOf rest with
      | none => false
      | some port => port.all fun p => validPort p defaultPort

end Origins

def validExemptPath (p : Bytes) : Bool :=
  !p.isEmpty && p.length ≤ maxEntryLen && p.head? == some 47 &&
    p.all fun b => b > 0x20 && b < 0x7f && b != 63 && b != 35

structure CsrfGate where
  allowedOrigins : List Bytes
  exemptPaths : List Bytes
  deriving DecidableEq, Repr

structure CsrfGateBuilder where
  origins : List Bytes
  exempt : List Bytes
  deriving DecidableEq, Repr

namespace CsrfGateBuilder

def default : CsrfGateBuilder := ⟨[], []⟩

def allowOrigin (b : CsrfGateBuilder) (origin : Bytes) : CsrfGateBuilder :=
  { b with origins := b.origins ++ [origin] }

def exemptPath (b : CsrfGateBuilder) (path : Bytes) : CsrfGateBuilder :=
  { b with exempt := b.exempt ++ [path] }

theorem allowOrigin_exemptPath (b : CsrfGateBuilder) :
    b.exempt.foldl exemptPath (b.origins.foldl allowOrigin default) = b := by
  have horigins : ∀ (origins : List Bytes) (b : CsrfGateBuilder),
      origins.foldl allowOrigin b = ⟨b.origins ++ origins, b.exempt⟩ := by
    intro origins
    induction origins with
    | nil => simp
    | cons origin origins ih => simp [ih, allowOrigin]
  have hexempt : ∀ (paths : List Bytes) (b : CsrfGateBuilder),
      paths.foldl exemptPath b = ⟨b.origins, b.exempt ++ paths⟩ := by
    intro paths
    induction paths with
    | nil => simp
    | cons path paths ih => simp [ih, exemptPath]
  rw [horigins, hexempt]
  rfl

def build (b : CsrfGateBuilder) : Except CsrfConfigError CsrfGate := do
  rejectIf (b.origins.length > maxAllowedOrigins) .tooManyOrigins
  rejectIf (b.exempt.length > maxExemptPaths) .tooManyExemptPaths
  match b.origins.findIdx? fun o => !validOrigin o with
  | some index => .error (.invalidOrigin index)
  | none =>
    match b.exempt.findIdx? fun p => !validExemptPath p with
    | some index => .error (.invalidExemptPath index)
    | none => .ok ⟨b.origins, b.exempt⟩

end CsrfGateBuilder

section Gate
variable {TypeId : Type} {E : TypeId → Type}

/-- How many headers have the name, two standing for more, and the value of the first. -/
def countHeader (head : RequestHead E) (name : Bytes) : ℕ × Option Bytes :=
  head.headers.foldl
    (fun acc h =>
      if eqIgnoreAsciiCase h.1 name then
        (min (acc.1 + 1) 2, if acc.1 = 0 then some h.2 else acc.2)
      else acc)
    (0, none)

def deny : GateOutcome := .reject (.new 403 [])

/-- The headers are looked at only when neither the method nor the path is let through. -/
def CsrfGate.check (gate : CsrfGate) (head : RequestHead E) : GateOutcome :=
  if head.method = ascii "GET" ∨ head.method = ascii "HEAD" ∨ head.method = ascii "OPTIONS" then
    .allow
  else if gate.exemptPaths.any (· == head.path) then .allow
  else
    let checkOrigin : GateOutcome :=
      match countHeader head (ascii "origin") with
      | (1, some o) => if gate.allowedOrigins.any (· == o) then .allow else deny
      | _ => deny
    match countHeader head (ascii "sec-fetch-site") with
    | (0, _) => checkOrigin
    | (1, some site) =>
      if site = ascii "same-origin" ∨ site = ascii "none" then .allow else deny
    | _ => deny

end Gate

end FandheBackend.PluginCsrf
