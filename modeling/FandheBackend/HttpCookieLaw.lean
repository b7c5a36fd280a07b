import FandheBackend.HttpRequestCookies

set_option autoImplicit false

namespace FandheBackend.HttpCookieLaw
open StdBytes HttpRequestHead HttpResponse HttpCookie HttpRequestCookies Utf8Text

inductive Constructor where
  | new (name value : Bytes)
  | session (name value : Bytes)
  | sessionWith (name value : Bytes) (sameSite : SessionSameSite)
  | sessionRemoval (name : Bytes)
  | sessionRemovalWith (name : Bytes) (sameSite : SessionSameSite)
  | hostPrefixed (name value : Bytes)
  | securePrefixed (name value : Bytes)

def Constructor.run : Constructor → Except CookieError SetCookie
  | new name value => SetCookie.new name value
  | session name value => SetCookie.session name value
  | sessionWith name value sameSite => SetCookie.sessionWith name value sameSite
  | sessionRemoval name => SetCookie.sessionRemoval name
  | sessionRemovalWith name sameSite => SetCookie.sessionRemovalWith name sameSite
  | hostPrefixed name value => SetCookie.hostPrefixed name value
  | securePrefixed name value => SetCookie.securePrefixed name value

inductive Call where
  | httpOnly
  | secure
  | sameSite (sameSite : SameSite)
  | path (path : Bytes)
  | maxAge (seconds : Int64)

def Call.run (c : SetCookie) : Call → Except CookieError SetCookie
  | httpOnly => .ok c.withHttpOnly
  | secure => .ok c.withSecure
  | sameSite s => .ok (c.withSameSite s)
  | path p => c.withPath p
  | maxAge seconds => .ok (c.withMaxAge seconds)

/-- Each call takes the cookie by value, so that nothing is left of it after an error. -/
def runCalls (c : SetCookie) (calls : List Call) : Except CookieError SetCookie :=
  calls.foldlM Call.run c

def built (k : Constructor) (calls : List Call) : Except CookieError SetCookie :=
  k.run.bind fun c => runCalls c calls

section Runs

theorem runCalls_cons (c : SetCookie) (call : Call) (calls : List Call) :
    runCalls c (call :: calls) = (call.run c).bind fun c' => runCalls c' calls := rfl

theorem runCalls_append (c : SetCookie) (before after : List Call) :
    runCalls c (before ++ after) = (runCalls c before).bind fun c' => runCalls c' after :=
  List.foldlM_append

/-- The property of a run is what the constructors establish and every call keeps. -/
theorem built_keeps {P : SetCookie → Prop}
    (hstart : ∀ (k : Constructor) (c : SetCookie), k.run = .ok c → P c)
    (hcall : ∀ (call : Call) (c c' : SetCookie), P c → call.run c = .ok c' → P c')
    {k : Constructor} {calls : List Call} {c : SetCookie} (h : built k calls = .ok c) : P c := by
  have hcalls : ∀ (calls : List Call) (c c' : SetCookie), P c → runCalls c calls = .ok c' → P c' := by
    intro calls
    induction calls with
    | nil =>
      intro c c' hc h
      cases h
      exact hc
    | cons call calls ih =>
      intro c c' hc h
      rw [runCalls_cons] at h
      cases hrun : call.run c with
      | error e => rw [hrun] at h; cases h
      | ok d =>
        rw [hrun] at h
        exact ih d c' (hcall call c d hc hrun) h
  cases hk : k.run with
  | error e => rw [built, hk] at h; cases h
  | ok d =>
    rw [built, hk] at h
    exact hcalls calls d c (hstart k d hk) h

/-- A path that is refused ends the run, whatever calls follow. -/
theorem built_path_error {k : Constructor} {before : List Call} {c : SetCookie}
    (h : built k before = .ok c) {path : Bytes} {e : CookieError} (hpath : c.withPath path = .error e)
    (after : List Call) : built k (before ++ .path path :: after) = .error e := by
  cases hk : k.run with
  | error e => rw [built, hk] at h; cases h
  | ok d =>
    rw [built, hk] at h
    have hbefore : runCalls d before = .ok c := h
    rw [built, hk]
    change runCalls d (before ++ .path path :: after) = .error e
    rw [runCalls_append, hbefore]
    change runCalls c (.path path :: after) = .error e
    rw [runCalls_cons, Call.run, hpath]
    rfl

end Runs

section Attributes

def NoneSecure (c : SetCookie) : Prop := c.sameSite = some .none → c.secure = true

theorem sessionWith_ok {name value : Bytes} {sameSite : SessionSameSite} {c : SetCookie}
    (h : SetCookie.sessionWith name value sameSite = .ok c) : c.secure = true := by
  unfold SetCookie.sessionWith at h
  split at h
  · cases h
  · cases h
    rfl

theorem constructor_noneSecure (k : Constructor) (c : SetCookie) (h : k.run = .ok c) :
    NoneSecure c := by
  have hremoval : ∀ (name : Bytes) (sameSite : SessionSameSite),
      SetCookie.sessionRemovalWith name sameSite = .ok c → NoneSecure c := by
    intro name sameSite h
    unfold SetCookie.sessionRemovalWith at h
    cases hs : SetCookie.sessionWith name [] sameSite with
    | error e => rw [hs] at h; cases h
    | ok d =>
      rw [hs] at h
      cases h
      exact fun _ => (sessionWith_ok hs : d.secure = true)
  have hprefixed : ∀ (p : CookiePrefix) (name value : Bytes),
      SetCookie.prefixed p name value = .ok c → NoneSecure c := by
    intro p name value h
    unfold SetCookie.prefixed at h
    split at h
    · cases h
    · split_ifs at h with hp
      cases h
      exact fun hnone => nomatch hnone
  cases k with
  | new name value =>
    change SetCookie.new name value = .ok c at h
    unfold SetCookie.new at h
    split at h
    · cases h
    · split_ifs at h with hp
      cases h
      exact fun hnone => nomatch hnone
  | session name value => exact fun _ => sessionWith_ok h
  | sessionWith name value sameSite => exact fun _ => sessionWith_ok h
  | sessionRemoval name => exact hremoval name .lax h
  | sessionRemovalWith name sameSite => exact hremoval name sameSite h
  | hostPrefixed name value => exact hprefixed .host name value h
  | securePrefixed name value => exact hprefixed .secure name value h

theorem withPath_ok {c c' : SetCookie} {path : Bytes} (h : c.withPath path = .ok c') :
    c'.secure = c.secure ∧ c'.sameSite = c.sameSite := by
  unfold SetCookie.withPath at h
  split_ifs at h with hpath hhost
  cases h
  exact ⟨rfl, rfl⟩

theorem call_noneSecure (call : Call) (c c' : SetCookie) (hc : NoneSecure c)
    (h : call.run c = .ok c') : NoneSecure c' := by
  cases call with
  | httpOnly => cases h; exact hc
  | secure => cases h; exact fun _ => rfl
  | sameSite s =>
    cases h
    unfold SetCookie.withSameSite
    split_ifs with hs
    · exact fun _ => rfl
    · exact fun hnone => absurd (Option.some.inj hnone) hs
  | path p =>
    obtain ⟨hsecure, hsite⟩ := withPath_ok h
    rw [NoneSecure, hsecure, hsite]
    exact hc
  | maxAge seconds => cases h; exact hc

theorem detectPrefix_host {name : Bytes}
    (h : eqIgnoreAsciiCase (name.take hostPrefix.length) hostPrefix = true) :
    detectPrefix name = some .host := by
  have hlen : hostPrefix.length ≤ name.length := by
    rw [eqIgnoreAsciiCase, beq_iff_eq] at h
    have := congrArg List.length h
    rw [List.length_map, List.length_map, List.length_take] at this
    omega
  rw [detectPrefix, h, decide_eq_true hlen]
  rfl

theorem detectPrefix_secure {name : Bytes}
    (h : eqIgnoreAsciiCase (name.take securePrefix.length) securePrefix = true) :
    detectPrefix name = some .host ∨ detectPrefix name = some .secure := by
  have hlen : securePrefix.length ≤ name.length := by
    rw [eqIgnoreAsciiCase, beq_iff_eq] at h
    have := congrArg List.length h
    rw [List.length_map, List.length_map, List.length_take] at this
    omega
  unfold detectPrefix
  split_ifs with hhost hsecure
  · exact .inl rfl
  · exact .inr rfl
  · rw [h, decide_eq_true hlen] at hsecure
    exact absurd rfl hsecure

theorem host_attributes (c : SetCookie)
    (h : eqIgnoreAsciiCase (c.name.take hostPrefix.length) hostPrefix = true) :
    c.secure = true ∧ c.path = some (ascii "/") := by
  have hmet := c.prefix_met
  rw [c.prefix_detected, detectPrefix_host h] at hmet
  exact hmet

theorem secure_attributes (c : SetCookie)
    (h : eqIgnoreAsciiCase (c.name.take securePrefix.length) securePrefix = true) :
    c.secure = true := by
  have hmet := c.prefix_met
  rw [c.prefix_detected] at hmet
  rcases detectPrefix_secure h with hp | hp
  · rw [hp] at hmet
    exact hmet.1
  · rw [hp] at hmet
    exact hmet

end Attributes

section Header

/-- What follows the pair in the header, each without the separator before it. -/
def setAttributes (c : SetCookie) : List Bytes :=
  (c.path.map (ascii "Path=" ++ ·)).toList ++
  (c.maxAge.map fun n => ascii "Max-Age=" ++ SetCookie.i64ToString n).toList ++
  (c.sameSite.map fun s => ascii "SameSite=" ++ s.asStr).toList ++
  (if c.secure then [ascii "Secure"] else []) ++
  (if c.httpOnly then [ascii "HttpOnly"] else [])

def cookiePair (c : SetCookie) : Bytes := c.name ++ ascii "=" ++ c.value

theorem attributes_eq (c : SetCookie) :
    c.attributes = (setAttributes c).flatMap (ascii "; " ++ ·) := by
  have hvalued : ∀ (label : Bytes) (value : Option Bytes), SetCookie.valuedAttribute label value =
      (value.map (label ++ ascii "=" ++ ·)).toList.flatMap (ascii "; " ++ ·) := by
    intro label value
    cases value with
    | none => rfl
    | some v => simp [SetCookie.valuedAttribute]
  have hflag : ∀ (b : Bool) (label : Bytes), (if b then ascii "; " ++ label else []) =
      (if b then [label] else []).flatMap (ascii "; " ++ ·) := by
    intro b label
    cases b <;> simp
  simp only [SetCookie.attributes, setAttributes, List.flatMap_append, ← hflag, hvalued,
    Option.map_map]
  rfl

theorem not_mem_of_all {p : UInt8 → Bool} {s : Bytes} (h : s.all p = true) {b : UInt8}
    (hb : p b = false) : b ∉ s := by
  intro hmem
  rw [List.all_eq_true.mp h b hmem] at hb
  cases hb

theorem name_all (c : SetCookie) : c.name ≠ [] ∧ c.name.all isTchar = true := by
  have h := c.isToken_name
  rw [isToken, Bool.and_eq_true, Bool.not_eq_true', List.isEmpty_eq_false_iff] at h
  exact h

theorem not_mem_i64ToString (n : Int64) : (59 : UInt8) ∉ SetCookie.i64ToString n := by
  have hdigits : ∀ k : ℕ, (59 : UInt8) ∉ numeral 10 k := by
    intro k hmem
    obtain ⟨d, hd, heq⟩ := mem_numeral (by decide) hmem
    have hne : ∀ e : Fin 10, (59 : UInt8) ≠ digitByte e := by decide
    exact hne ⟨d, hd⟩ heq
  unfold SetCookie.i64ToString
  split_ifs
  · rw [List.mem_append, not_or]
    exact ⟨by decide, hdigits _⟩
  · exact hdigits _

theorem not_mem_setAttributes (c : SetCookie) : ∀ a ∈ setAttributes c, (59 : UInt8) ∉ a := by
  intro a ha
  simp only [setAttributes, List.mem_append, Option.mem_toList, Option.map_eq_some_iff] at ha
  rcases ha with (((⟨path, hpath, rfl⟩ | ⟨n, -, rfl⟩) | ⟨s, -, rfl⟩) | ha) | ha
  · rw [List.mem_append, not_or]
    exact ⟨by decide, not_mem_of_all (c.path_values path hpath).2 (by decide)⟩
  · rw [List.mem_append, not_or]
    exact ⟨by decide, not_mem_i64ToString n⟩
  · cases s <;> decide
  · split_ifs at ha
    · rw [List.mem_singleton.mp ha]
      decide
    · cases ha
  · split_ifs at ha
    · rw [List.mem_singleton.mp ha]
      decide
    · cases ha

theorem not_mem_cookiePair (c : SetCookie) : (59 : UInt8) ∉ cookiePair c := by
  rw [cookiePair, List.mem_append, List.mem_append, not_or, not_or]
  exact ⟨⟨not_mem_of_all (name_all c).2 (by decide), by decide⟩,
    not_mem_of_all c.value_octets (by decide)⟩

/-- Nothing between two separators holds another one, so that splitting undoes the writing. -/
theorem splitOn_separated {first : Bytes} {parts : List Bytes} (hfirst : (59 : UInt8) ∉ first)
    (hparts : ∀ p ∈ parts, (59 : UInt8) ∉ p) :
    (first ++ parts.flatMap (ascii "; " ++ ·)).splitOn 59 = first :: parts.map (32 :: ·) := by
  induction parts generalizing first with
  | nil =>
    rw [List.flatMap_nil, List.append_nil]
    exact List.splitOn_eq_singleton hfirst
  | cons part parts ih =>
    have hpart := hparts part List.mem_cons_self
    have hmem : (59 : UInt8) ∉ (32 : UInt8) :: part := by
      rw [List.mem_cons, not_or]
      exact ⟨by decide, hpart⟩
    have htail := ih hmem fun p hp => hparts p (List.mem_cons_of_mem part hp)
    rw [List.flatMap_cons, show ascii "; " ++ part ++ parts.flatMap (ascii "; " ++ ·) =
      59 :: (32 :: part ++ parts.flatMap (ascii "; " ++ ·)) from rfl,
      List.splitOn_append_cons_self_of_not_mem hfirst, htail, List.map_cons]

theorem splitOn_toHeaderValue (c : SetCookie) :
    c.toHeaderValue.splitOn 59 = cookiePair c :: (setAttributes c).map (32 :: ·) := by
  rw [SetCookie.toHeaderValue, attributes_eq]
  exact splitOn_separated (not_mem_cookiePair c) (not_mem_setAttributes c)

theorem cookiePair_no_ows (c : SetCookie) : ∀ b ∈ cookiePair c, isOws b = false := by
  have hows : ∀ b : UInt8, isOws b = true → b = 32 ∨ b = 9 := by
    intro b hb
    simpa [isOws] using hb
  have hclear : ∀ b : UInt8, (b = 32 ∨ b = 9) → b ∉ cookiePair c := by
    rintro b (rfl | rfl)
    · rw [cookiePair, List.mem_append, List.mem_append, not_or, not_or]
      exact ⟨⟨not_mem_of_all (name_all c).2 (by decide), by decide⟩,
        not_mem_of_all c.value_octets (by decide)⟩
    · rw [cookiePair, List.mem_append, List.mem_append, not_or, not_or]
      exact ⟨⟨not_mem_of_all (name_all c).2 (by decide), by decide⟩,
        not_mem_of_all c.value_octets (by decide)⟩
  intro b hb
  rw [← Bool.not_eq_true]
  exact fun h => hclear b (hows b h) hb

theorem unquote_value (c : SetCookie) : unquote c.value = some c.value := by
  have hquote : (34 : UInt8) ∉ c.value := not_mem_of_all c.value_octets (by decide)
  unfold unquote
  split
  · rename_i inner heq
    rw [heq] at hquote
    exact absurd List.mem_cons_self hquote
  · rfl

theorem parseCookiePair_cookiePair (c : SetCookie) :
    parseCookiePair (cookiePair c) = .ok (c.name, c.value) := by
  have hequals : (61 : UInt8) ∉ c.name := not_mem_of_all (name_all c).2 (by decide)
  have hidx : (cookiePair c).findIdx? (· == 61) = some c.name.length := by
    have hnone : c.name.findIdx? (· == 61) = none := by
      rw [List.findIdx?_eq_none_iff]
      intro b hb
      rw [beq_eq_false_iff_ne]
      exact fun h => hequals (h ▸ hb)
    have hvalue : (ascii "=" ++ c.value).findIdx? (· == 61) = some 0 := List.findIdx?_cons
    rw [cookiePair, List.append_assoc, List.findIdx?_append, hnone, hvalue, Option.none_or,
      Option.map_some, Nat.zero_add]
  have htake : (cookiePair c).take c.name.length = c.name := by
    rw [cookiePair, List.append_assoc, List.take_left]
  have hdrop : (cookiePair c).drop (c.name.length + 1) = c.value := by
    have hlen : c.name.length + 1 = (c.name ++ ascii "=").length := by
      rw [List.length_append]
      rfl
    rw [cookiePair, hlen, List.drop_left]
  rw [parseCookiePair, hidx]
  simp only [htake, hdrop, unquote_value, c.value_octets, (name_all c).2,
    List.isEmpty_eq_false_iff.mpr (name_all c).1]
  rfl

/-- What a browser sends back is read as this one cookie, within the limit on the header. -/
theorem parseCookieHeader_cookiePair (c : SetCookie) :
    parseCookieHeader (cookiePair c) =
      if (cookiePair c).length > maxCookieStringBytes then .error .cookieStringTooLarge
      else .ok [(c.name, c.value)] := by
  have hsegments : segments (cookiePair c) = [cookiePair c] := by
    rw [segments, List.splitOn_eq_singleton (not_mem_cookiePair c), List.map_singleton,
      trimBy_eq_self _ (cookiePair_no_ows c)]
  rw [parseCookieHeader, hsegments, List.mapM_cons, parseCookiePair_cookiePair]
  rfl

/-- `str::split(';').next()`. -/
def beforeSemicolon (s : Bytes) : Bytes := s.takeWhile (· != 59)

theorem beforeSemicolon_toHeaderValue (c : SetCookie) :
    beforeSemicolon c.toHeaderValue = cookiePair c := by
  have hpair : ∀ b ∈ cookiePair c, (b != 59) = true := by
    intro b hb
    rw [bne_iff_ne]
    exact fun h => not_mem_cookiePair c (h ▸ hb)
  have hattributes : c.attributes.takeWhile (· != 59) = [] := by
    rw [attributes_eq]
    cases setAttributes c with
    | nil => rfl
    | cons a as => rfl
  rw [beforeSemicolon, SetCookie.toHeaderValue, show c.name ++ ascii "=" ++ c.value =
    cookiePair c from rfl, List.takeWhile_append_of_pos hpair, hattributes, List.append_nil]

end Header

theorem built_cookie {k : Constructor} {calls : List Call} {c : SetCookie}
    (h : built k calls = .ok c) :
    (eqIgnoreAsciiCase (c.name.take hostPrefix.length) hostPrefix = true →
      c.secure = true ∧ c.path = some (ascii "/")) ∧
    (eqIgnoreAsciiCase (c.name.take securePrefix.length) securePrefix = true → c.secure = true) ∧
    (c.sameSite = some .none → c.secure = true) ∧
    c.toHeaderValue.splitOn 59 = cookiePair c :: (setAttributes c).map (32 :: ·) ∧
    parseCookieHeader (beforeSemicolon c.toHeaderValue) =
      (if (cookiePair c).length > maxCookieStringBytes then .error .cookieStringTooLarge
        else .ok [(c.name, c.value)]) ∧
    ∀ (path : Bytes) (e : CookieError) (after : List Call), c.withPath path = .error e →
      built k (calls ++ .path path :: after) = .error e := by
  have hnone : NoneSecure c := built_keeps constructor_noneSecure call_noneSecure h
  refine ⟨host_attributes c, secure_attributes c, hnone, splitOn_toHeaderValue c, ?_, ?_⟩
  · rw [beforeSemicolon_toHeaderValue]
    exact parseCookieHeader_cookiePair c
  · intro path e after hpath
    exact built_path_error h hpath after

theorem new_ok {name value : Bytes} (hname : isToken name = true)
    (hvalue : value.all isCookieOctet = true) (hdetect : detectPrefix name = none) :
    ∃ c, SetCookie.new name value = .ok c ∧ c.name = name ∧ c.value = value := by
  have hvalid : validateNameValue name value = .ok () := by
    rw [isToken, Bool.and_eq_true, Bool.not_eq_true'] at hname
    rw [validateNameValue, hname.1, hname.2, hvalue]
    rfl
  unfold SetCookie.new
  split
  · rename_i e he
    rw [hvalid] at he
    cases he
  · rw [dif_neg (by simp [hdetect])]
    exact ⟨_, rfl, rfl, rfl⟩

theorem built_cookie_ok : ∃ c,
    built (.new (ascii "sid") (ascii "v1")) [.sameSite .none, .path (ascii "/app")] = .ok c ∧
    (c.sameSite = some .none → c.secure = true) ∧
    parseCookieHeader (beforeSemicolon c.toHeaderValue) =
      (if (cookiePair c).length > maxCookieStringBytes then .error .cookieStringTooLarge
        else .ok [(c.name, c.value)]) :=
  match h : built (.new (ascii "sid") (ascii "v1")) [.sameSite .none, .path (ascii "/app")] with
  | .ok c => ⟨c, rfl, (built_cookie h).2.2.1, (built_cookie h).2.2.2.2.1⟩
  | .error e => nomatch (show (.error e : Except CookieError Bytes) = .ok (ascii "sid") from
      (congrArg (Except.map SetCookie.name) h).symm)

/-- The limit of the reading side is not one of the writing side. -/
theorem built_cookie_large : ∃ c,
    built (.new (ascii "a") (List.replicate 8191 97)) [] = .ok c ∧
    parseCookieHeader (beforeSemicolon c.toHeaderValue) = .error .cookieStringTooLarge ∧
    parseCookieHeader (beforeSemicolon c.toHeaderValue) ≠ .ok [(c.name, c.value)] := by
  have hvalue : (List.replicate 8191 (97 : UInt8)).all isCookieOctet = true := by
    rw [List.all_eq_true]
    intro b hb
    rw [List.eq_of_mem_replicate hb]
    decide
  have htoken : isToken (ascii "a") = true := by decide
  obtain ⟨c, hc, hname, hv⟩ := new_ok htoken hvalue (by decide)
  have hlarge : parseCookieHeader (beforeSemicolon c.toHeaderValue) =
      .error .cookieStringTooLarge := by
    rw [beforeSemicolon_toHeaderValue, parseCookieHeader_cookiePair, if_pos]
    rw [cookiePair, List.length_append, List.length_append, hname, hv, List.length_replicate]
    decide
  refine ⟨c, ?_, hlarge, by rw [hlarge]; exact nofun⟩
  rw [built, Constructor.run, hc]
  rfl

end FandheBackend.HttpCookieLaw
