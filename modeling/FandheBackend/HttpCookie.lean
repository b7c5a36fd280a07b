import FandheBackend.HttpResponse

set_option autoImplicit false

/-!
# Cookies that a response sets (`crates/http/src/cookie.rs`)

The fields of `SetCookie` are private in the source. What its constructors check is a
field of the type here: the alphabets of name, value and path, and the conditions under
which browsers honour a name that starts with `__Host-` or `__Secure-`.
-/
namespace FandheBackend.HttpCookie
open StdBytes HttpRequestHead HttpResponse

inductive CookieError where
  | cookieStringTooLarge
  | tooManyCookies
  | invalidCookiePair
  | invalidName
  | invalidValue
  | invalidPath
  | reservedPrefix
  | prefixMismatch
  | hostPrefixPath
  | sessionSameSiteNone
  deriving DecidableEq, Repr

def isCookieOctet (b : UInt8) : Bool :=
  b == 33 || (35 ≤ b && b ≤ 43) || (45 ≤ b && b ≤ 58) || (60 ≤ b && b ≤ 91) ||
    (93 ≤ b && b ≤ 126)

def isPathValue (b : UInt8) : Bool := b != 59 && (32 ≤ b && b ≤ 126)

inductive SameSite where
  | strict
  | lax
  | none
  deriving DecidableEq, Repr

def SameSite.asStr : SameSite → Bytes
  | .strict => ascii "Strict"
  | .lax => ascii "Lax"
  | .none => ascii "None"

inductive SessionSameSite where
  | lax
  | strict
  deriving DecidableEq, Repr

def SessionSameSite.toSameSite : SessionSameSite → SameSite
  | .lax => .lax
  | .strict => .strict

def SessionSameSite.tryFrom : SameSite → Except CookieError SessionSameSite
  | .lax => .ok .lax
  | .strict => .ok .strict
  | .none => .error .sessionSameSiteNone

theorem SessionSameSite.tryFrom_eq_ok_iff {s : SameSite} {t : SessionSameSite} :
    tryFrom s = .ok t ↔ t.toSameSite = s := by
  cases s <;> cases t <;> simp [tryFrom, toSameSite]

inductive CookiePrefix where
  | host
  | secure
  deriving DecidableEq, Repr

def hostPrefix : Bytes := ascii "__Host-"
def securePrefix : Bytes := ascii "__Secure-"

def detectPrefix (name : Bytes) : Option CookiePrefix :=
  if hostPrefix.length ≤ name.length &&
      eqIgnoreAsciiCase (name.take hostPrefix.length) hostPrefix then some .host
  else if securePrefix.length ≤ name.length &&
      eqIgnoreAsciiCase (name.take securePrefix.length) securePrefix then some .secure
  else none

/-- What a browser asks of the attributes of a cookie with such a name. -/
def CookiePrefix.Met (secure : Bool) (path : Option Bytes) : Option CookiePrefix → Prop
  | some .host => secure = true ∧ path = some (ascii "/")
  | some .secure => secure = true
  | none => True

structure SetCookie where
  name : Bytes
  value : Bytes
  httpOnly : Bool
  secure : Bool
  sameSite : Option SameSite
  path : Option Bytes
  maxAge : Option Int64
  cookiePrefix : Option CookiePrefix
  isToken_name : isToken name = true
  value_octets : value.all isCookieOctet = true
  path_values : ∀ p ∈ path, p.head? = some 47 ∧ p.all isPathValue = true
  prefix_detected : cookiePrefix = detectPrefix name
  prefix_met : CookiePrefix.Met secure path cookiePrefix

def validateNameValue (name value : Bytes) : Except CookieError Unit :=
  if name.isEmpty || !name.all isTchar then .error .invalidName
  else if !value.all isCookieOctet then .error .invalidValue
  else .ok ()

theorem validateNameValue_ok {name value : Bytes} (h : validateNameValue name value = .ok ()) :
    isToken name = true ∧ value.all isCookieOctet = true := by
  unfold validateNameValue at h
  split_ifs at h with hname hvalue
  rw [Bool.not_eq_true, Bool.or_eq_false_iff, Bool.not_eq_false'] at hname
  refine ⟨?_, by simpa using hvalue⟩
  rw [isToken, hname.1, hname.2]
  rfl

def prefixAttributes : Option CookiePrefix → Bool × Option Bytes
  | some .host => (true, some (ascii "/"))
  | some .secure => (true, none)
  | none => (false, none)

theorem prefixAttributes_met (p : Option CookiePrefix) :
    CookiePrefix.Met (prefixAttributes p).1 (prefixAttributes p).2 p := by
  rcases p with _ | _ | _
  · trivial
  · exact ⟨rfl, rfl⟩
  · exact rfl

theorem root_path_values : (ascii "/").head? = some 47 ∧ (ascii "/").all isPathValue = true := by
  decide

namespace SetCookie

def build (name value : Bytes) (p : Option CookiePrefix)
    (h : isToken name = true ∧ value.all isCookieOctet = true) (hp : p = detectPrefix name) :
    SetCookie where
  name := name
  value := value
  httpOnly := false
  secure := (prefixAttributes p).1
  sameSite := none
  path := (prefixAttributes p).2
  maxAge := none
  cookiePrefix := p
  isToken_name := h.1
  value_octets := h.2
  path_values := by
    intro q hq
    rcases p with _ | _ | _
    · cases hq
    · cases hq
      exact root_path_values
    · cases hq
  prefix_detected := hp
  prefix_met := prefixAttributes_met p

def new (name value : Bytes) : Except CookieError SetCookie :=
  match h : validateNameValue name value with
  | .error e => .error e
  | .ok () =>
    if hp : (detectPrefix name).isSome then .error .reservedPrefix
    else .ok (build name value none (validateNameValue_ok h)
      (Option.not_isSome_iff_eq_none.mp hp).symm)

def sessionWith (name value : Bytes) (sameSite : SessionSameSite) : Except CookieError SetCookie :=
  match h : validateNameValue name value with
  | .error e => .error e
  | .ok () =>
    let c := build name value (detectPrefix name) (validateNameValue_ok h) rfl
    .ok { c with
      httpOnly := true
      secure := true
      path := some (ascii "/")
      sameSite := some sameSite.toSameSite
      path_values := by
        rintro q ⟨⟩
        exact root_path_values
      prefix_met := by
        rcases c.cookiePrefix with _ | _ | _
        · trivial
        · exact ⟨rfl, rfl⟩
        · exact rfl }

def session (name value : Bytes) : Except CookieError SetCookie := sessionWith name value .lax

/-- The builder `max_age`; those below are `http_only`, `secure`, `same_site` and `path`. -/
def withMaxAge (c : SetCookie) (seconds : Int64) : SetCookie := { c with maxAge := some seconds }

def sessionRemovalWith (name : Bytes) (sameSite : SessionSameSite) : Except CookieError SetCookie :=
  (sessionWith name [] sameSite).map fun c => c.withMaxAge 0

def sessionRemoval (name : Bytes) : Except CookieError SetCookie := sessionRemovalWith name .lax

/-- `host_prefixed` and `secure_prefixed`, for the prefix that they ask for. -/
def prefixed (p : CookiePrefix) (name value : Bytes) : Except CookieError SetCookie :=
  match h : validateNameValue name value with
  | .error e => .error e
  | .ok () =>
    if hp : detectPrefix name = some p then
      .ok (build name value (some p) (validateNameValue_ok h) hp.symm)
    else .error .prefixMismatch

def hostPrefixed (name value : Bytes) : Except CookieError SetCookie := prefixed .host name value

def securePrefixed (name value : Bytes) : Except CookieError SetCookie :=
  prefixed .secure name value

def withHttpOnly (c : SetCookie) : SetCookie := { c with httpOnly := true }

def withSecure (c : SetCookie) : SetCookie :=
  { c with
    secure := true
    prefix_met := by
      have hmet := c.prefix_met
      rcases hp : c.cookiePrefix with _ | _ | _
      · trivial
      · rw [hp] at hmet
        exact ⟨rfl, hmet.2⟩
      · exact rfl }

/-- A cookie for other sites is not accepted without `Secure`. -/
def withSameSite (c : SetCookie) (sameSite : SameSite) : SetCookie :=
  if sameSite = .none then { c.withSecure with sameSite := some sameSite }
  else { c with sameSite := some sameSite }

def withPath (c : SetCookie) (path : Bytes) : Except CookieError SetCookie :=
  if hpath : path.isEmpty ∨ path.head? ≠ some 47 ∨ path.all isPathValue = false then
    .error .invalidPath
  else if hhost : c.cookiePrefix = some .host ∧ path ≠ ascii "/" then .error .hostPrefixPath
  else .ok { c with
    path := some path
    path_values := by
      rintro q ⟨⟩
      rw [not_or, not_or, not_not, Bool.not_eq_false] at hpath
      exact hpath.2
    prefix_met := by
      have hmet := c.prefix_met
      rcases hp : c.cookiePrefix with _ | _ | _
      · trivial
      · rw [hp] at hmet
        exact ⟨hmet.1, congrArg some (by simpa [hp] using hhost)⟩
      · rw [hp] at hmet
        exact hmet }

def i64ToString (n : Int64) : Bytes :=
  if n.toInt < 0 then ascii "-" ++ numeral 10 n.toInt.natAbs else numeral 10 n.toInt.natAbs

def valuedAttribute (label : Bytes) : Option Bytes → Bytes
  | some value => ascii "; " ++ label ++ ascii "=" ++ value
  | none => []

def attributes (c : SetCookie) : Bytes :=
  valuedAttribute (ascii "Path") c.path ++
  valuedAttribute (ascii "Max-Age") (c.maxAge.map i64ToString) ++
  valuedAttribute (ascii "SameSite") (c.sameSite.map SameSite.asStr) ++
  (if c.secure then ascii "; Secure" else []) ++
  (if c.httpOnly then ascii "; HttpOnly" else [])

def toHeaderValue (c : SetCookie) : Bytes := c.name ++ ascii "=" ++ c.value ++ c.attributes

end SetCookie

theorem isForbiddenInValue_of_alphabet {p : UInt8 → Bool}
    (hp : ∀ b, p b = true → isForbiddenInValue b = false) {s : Bytes}
    (h : s.all p = true) : s.any isForbiddenInValue = false := by
  rw [List.any_eq_false]
  intro b hb
  rw [Bool.not_eq_true]
  exact hp b (List.all_eq_true.mp h b hb)

theorem token_allowed {s : Bytes} (h : isToken s = true) : s.any isForbiddenInValue = false := by
  rw [isToken, Bool.and_eq_true] at h
  exact isForbiddenInValue_of_alphabet (p := isTchar) (forall_byte (by decide +kernel)) h.2

theorem isForbiddenInValue_digitByte : ∀ d : Fin 10, isForbiddenInValue (digitByte d) = false := by
  decide

theorem numeral_allowed (n : ℕ) : (numeral 10 n).any isForbiddenInValue = false := by
  rw [List.any_eq_false]
  intro b hb
  obtain ⟨d, hd, rfl⟩ := mem_numeral (by decide) hb
  rw [Bool.not_eq_true]
  exact isForbiddenInValue_digitByte ⟨d, hd⟩

namespace SetCookie

theorem i64ToString_allowed (n : Int64) : (i64ToString n).any isForbiddenInValue = false := by
  unfold i64ToString
  split_ifs
  · rw [List.any_append, numeral_allowed]
    rfl
  · exact numeral_allowed _

theorem valuedAttribute_allowed {label : Bytes} (hlabel : label.any isForbiddenInValue = false)
    {value : Option Bytes} (h : ∀ v ∈ value, v.any isForbiddenInValue = false) :
    (valuedAttribute label value).any isForbiddenInValue = false := by
  cases value with
  | none => rfl
  | some v =>
    simp only [valuedAttribute, List.any_append, hlabel, h v rfl]
    rfl

theorem attributes_allowed (c : SetCookie) : c.attributes.any isForbiddenInValue = false := by
  have hpath : (valuedAttribute (ascii "Path") c.path).any isForbiddenInValue = false := by
    apply valuedAttribute_allowed (by decide)
    intro path hp
    exact isForbiddenInValue_of_alphabet (p := isPathValue) (forall_byte (by decide +kernel))
      (c.path_values path hp).2
  have hage : (valuedAttribute (ascii "Max-Age") (c.maxAge.map i64ToString)).any
      isForbiddenInValue = false := by
    apply valuedAttribute_allowed (by decide)
    intro v hv
    obtain ⟨n, _, rfl⟩ := Option.map_eq_some_iff.mp hv
    exact i64ToString_allowed n
  have hsite : (valuedAttribute (ascii "SameSite") (c.sameSite.map SameSite.asStr)).any
      isForbiddenInValue = false := by
    apply valuedAttribute_allowed (by decide)
    intro v hv
    obtain ⟨s, _, rfl⟩ := Option.map_eq_some_iff.mp hv
    cases s <;> decide
  simp only [attributes, List.any_append, hpath, hage, hsite, Bool.false_or]
  cases c.secure <;> cases c.httpOnly <;> rfl

theorem toHeaderValue_allowed (c : SetCookie) :
    c.toHeaderValue.any isForbiddenInValue = false := by
  simp only [toHeaderValue, List.any_append, token_allowed c.isToken_name, attributes_allowed,
    isForbiddenInValue_of_alphabet (p := isCookieOctet) (forall_byte (by decide +kernel)) c.value_octets]
  rfl

end SetCookie

end FandheBackend.HttpCookie
