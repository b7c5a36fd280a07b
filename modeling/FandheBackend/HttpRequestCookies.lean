import FandheBackend.ExceptChecks
import FandheBackend.HttpCookie

set_option autoImplicit false

namespace FandheBackend.HttpRequestCookies
open StdBytes HttpRequestHead HttpCookie Utf8Text ExceptChecks

def maxCookieCount : ℕ := 100
def maxCookieStringBytes : ℕ := 8 * 1024

/-- The value between double quotes, or the whole value when it does not begin with one. -/
def unquote : Bytes → Option Bytes
  | 34 :: inner => if inner.getLast? = some 34 then some inner.dropLast else none
  | rawValue => some rawValue

def parseCookiePair (pair : Bytes) : Except CookieError (Bytes × Bytes) :=
  match pair.findIdx? (· == 61) with
  | none => .error .invalidCookiePair
  | some i =>
    let name := pair.take i
    let rawValue := pair.drop (i + 1)
    if name.isEmpty || !name.all isTchar then .error .invalidCookiePair
    else match unquote rawValue with
      | none => .error .invalidCookiePair
      | some value =>
        if !value.all isCookieOctet then .error .invalidCookiePair
        else .ok (name, value)

/-- The segments of a header value, without the spaces around them. -/
def segments (value : Bytes) : List Bytes := (value.splitOn 59).map (trimBy isOws)

/-- `parse_cookie_header`, for a header that stands alone. -/
def parseCookieHeader (value : Bytes) : Except CookieError (List (Bytes × Bytes)) :=
  if value.length > maxCookieStringBytes then .error .cookieStringTooLarge
  else if (segments value).length > maxCookieCount then .error .tooManyCookies
  else (segments value).mapM parseCookiePair

/-- `RequestHead::cookies` on the headers that it iterates over. -/
def cookiesOf (headers : List (Bytes × Bytes)) : Except CookieError (List (Bytes × Bytes)) :=
  let rawHeaders := (headers.filter fun h => eqIgnoreAsciiCase h.1 (ascii "cookie")).map (·.2)
  if rawHeaders.isEmpty then .ok []
  else
    let joinedLen := (rawHeaders.map (·.length)).sum + (rawHeaders.length - 1) * 2
    if joinedLen > maxCookieStringBytes then .error .cookieStringTooLarge
    else if (rawHeaders.flatMap segments).length > maxCookieCount then .error .tooManyCookies
    else (rawHeaders.flatMap segments).mapM parseCookiePair

def cookies {TypeId : Type} {E : TypeId → Type} (head : RequestHead E) :
    Except CookieError (List (Bytes × Bytes)) :=
  cookiesOf head.headers

section Joined

def cookieValues (headers : List (Bytes × Bytes)) : List Bytes :=
  (headers.filter fun h => eqIgnoreAsciiCase h.1 (ascii "cookie")).map (·.2)

theorem trimBy_cons {α : Type} {p : α → Bool} {a : α} (ha : p a = true) (xs : List α) :
    trimBy p (a :: xs) = trimBy p xs := by
  rw [trimBy, List.dropWhile_cons_of_pos ha]
  rfl

theorem segments_append (value rest : Bytes) :
    segments (value ++ ascii "; " ++ rest) = segments value ++ segments rest := by
  have hspace : ((32 :: rest).splitOn 59).map (trimBy isOws) = segments rest := by
    rw [List.splitOn_cons_eq_if_modifyHead, if_neg (by decide), segments]
    cases rest.splitOn 59 with
    | nil => rfl
    | cons first others =>
      rw [List.modifyHead_cons, List.map_cons, List.map_cons, trimBy_cons (by decide)]
  rw [List.append_assoc, segments, show ascii "; " ++ rest = 59 :: 32 :: rest from rfl,
    List.splitOn_append_cons_self, List.map_append, hspace]
  rfl

theorem join_cons_cons (sep value next : Bytes) (values : List Bytes) :
    join sep (value :: next :: values) = value ++ sep ++ join sep (next :: values) := rfl

theorem segments_join {values : List Bytes} (h : values ≠ []) :
    segments (join (ascii "; ") values) = values.flatMap segments := by
  induction values with
  | nil => exact absurd rfl h
  | cons value values ih =>
    cases values with
    | nil => rw [join, List.flatMap_cons, List.flatMap_nil, List.append_nil]
    | cons next values =>
      rw [join_cons_cons, segments_append, ih (List.cons_ne_nil next values),
        ← List.flatMap_cons]

theorem length_join (sep : Bytes) {values : List Bytes} (h : values ≠ []) :
    (join sep values).length =
      (values.map (·.length)).sum + (values.length - 1) * sep.length := by
  induction values with
  | nil => exact absurd rfl h
  | cons value values ih =>
    cases values with
    | nil => simp [join]
    | cons next values =>
      have hlen : (value :: next :: values).length - 1 = (next :: values).length - 1 + 1 := rfl
      rw [join_cons_cons, List.length_append, List.length_append,
        ih (List.cons_ne_nil next values), hlen, Nat.succ_mul, List.map_cons (l := next :: values),
        List.sum_cons]
      omega

/-- What `cookies` adds up is what the joined header would have been cut into. -/
theorem cookies_eq_parseCookieHeader {TypeId : Type} {E : TypeId → Type} (head : RequestHead E) :
    cookies head =
      if cookieValues head.headers = [] then .ok []
      else parseCookieHeader (join (ascii "; ") (cookieValues head.headers)) := by
  unfold cookies cookiesOf
  rw [show (head.headers.filter fun h => eqIgnoreAsciiCase h.1 (ascii "cookie")).map (·.2) =
    cookieValues head.headers from rfl]
  by_cases hnone : cookieValues head.headers = []
  · rw [hnone]
    rfl
  · simp only [List.isEmpty_iff, if_neg hnone]
    rw [parseCookieHeader, length_join _ hnone, segments_join hnone]
    rfl

end Joined

theorem parseCookiePair_ok {pair : Bytes} {cookie : Bytes × Bytes}
    (h : parseCookiePair pair = .ok cookie) :
    (cookie.1 ≠ [] ∧ ∀ b ∈ cookie.1, isTchar b = true) ∧
      ∀ b ∈ cookie.2, isCookieOctet b = true := by
  unfold parseCookiePair at h
  cases hequals : pair.findIdx? (· == 61) with
  | none => simp only [hequals, reduceCtorEq] at h
  | some i =>
    simp only [hequals] at h
    split_ifs at h with hname
    rw [Bool.not_eq_true, Bool.or_eq_false_iff, Bool.not_eq_false', List.isEmpty_eq_false_iff,
      List.all_eq_true] at hname
    cases hvalue : unquote (pair.drop (i + 1)) with
    | none => simp only [hvalue, reduceCtorEq] at h
    | some value =>
      simp only [hvalue] at h
      split_ifs at h with hoctets
      rw [Bool.not_eq_true, Bool.not_eq_false', List.all_eq_true] at hoctets
      cases h
      exact ⟨hname, hoctets⟩

theorem mapM_parseCookiePair {pairs : List Bytes} {cookies : List (Bytes × Bytes)}
    (h : pairs.mapM parseCookiePair = .ok cookies) :
    cookies.length = pairs.length ∧
      ∀ cookie ∈ cookies, ∃ pair ∈ pairs, parseCookiePair pair = .ok cookie := by
  have hall := mapM_eq_ok.mp h
  refine ⟨hall.length_eq.symm, ?_⟩
  clear h
  induction hall with
  | nil => exact List.forall_mem_nil _
  | cons hpair _ ih =>
    refine List.forall_mem_cons.mpr ⟨⟨_, List.mem_cons_self, hpair⟩, fun cookie hcookie => ?_⟩
    obtain ⟨pair, hmem, hok⟩ := ih cookie hcookie
    exact ⟨pair, List.mem_cons_of_mem _ hmem, hok⟩

/-- What is returned stays within the limit, and every pair passes its checks. -/
theorem cookiesOf_ok {headers cookies : List (Bytes × Bytes)} (h : cookiesOf headers = .ok cookies) :
    cookies.length ≤ maxCookieCount ∧
      ∀ cookie ∈ cookies, (cookie.1 ≠ [] ∧ ∀ b ∈ cookie.1, isTchar b = true) ∧
        ∀ b ∈ cookie.2, isCookieOctet b = true := by
  unfold cookiesOf at h
  generalize (headers.filter fun h => eqIgnoreAsciiCase h.1 (ascii "cookie")).map (·.2) =
    rawHeaders at h
  simp only at h
  split_ifs at h with hnone hlarge hmany
  · cases h
    exact ⟨Nat.zero_le _, by simp⟩
  · obtain ⟨hlength, hmem⟩ := mapM_parseCookiePair h
    refine ⟨hlength ▸ Nat.not_lt.mp hmany, fun cookie hcookie => ?_⟩
    obtain ⟨pair, -, hpair⟩ := hmem cookie hcookie
    exact parseCookiePair_ok hpair

end FandheBackend.HttpRequestCookies
