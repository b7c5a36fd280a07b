import FandheBackend.HttpResponseHeads
import FandheBackend.HttpRequestGrammar
import FandheBackend.PluginCors

set_option autoImplicit false

namespace FandheBackend.PluginCors
open StdBytes HttpRequestHead HttpRequestGrammar HttpResponse HttpResponseUnions PluginHeaders

def allowOrigin : Bytes := ascii "Access-Control-Allow-Origin"

def allowCredentials : Bytes := ascii "Access-Control-Allow-Credentials"

section Added

/-- `Access-Control-Allow-Origin`, and `Vary` where the origin is echoed. -/
def originHeaders (config : CorsConfig) (origin : Bytes) (r : Response) : List ExtraHeader :=
  match config.origins with
  | .any => offered allowOrigin star
  | .list _ => offered allowOrigin origin ++ varyOffered r (ascii "Origin")

def credentialHeaders (config : CorsConfig) : List ExtraHeader :=
  if config.credentials then offered allowCredentials (ascii "true") else []

def listHeader (name : Bytes) (parts : List Bytes) : List ExtraHeader :=
  if !parts.isEmpty then offered name (join (ascii ", ") parts) else []

def actualHeaders (config : CorsConfig) (origin : Bytes) (r : Response) : List ExtraHeader :=
  originHeaders config origin r ++ credentialHeaders config ++
    listHeader (ascii "Access-Control-Expose-Headers") config.exposeHeaders

def maxAgeHeader : Option UInt64 → List ExtraHeader
  | some maxAge => offered (ascii "Access-Control-Max-Age") (numeral 10 maxAge.toNat)
  | none => []

def preflightHeaders (config : CorsConfig) (allow : AllowedMethods) (origin : Bytes) :
    List ExtraHeader :=
  originHeaders config origin (Response.empty 204) ++
    offered (ascii "Access-Control-Allow-Methods")
      (join (ascii ", ") (effectiveMethods config allow)) ++
    listHeader (ascii "Access-Control-Allow-Headers") config.headers ++
    maxAgeHeader config.maxAge ++ credentialHeaders config

theorem tryAddHeader_eq (r : Response) (name value : Bytes) :
    tryAddHeader r name value = Response.appended r (offered name value) :=
  withHeader_getD r name value

theorem varyNames_allowOrigin (r : Response) (value : Bytes) :
    varyNames (Response.appended r (offered allowOrigin value)) = varyNames r := by
  rw [varyNames, varyLines, linesOf_eq_append, valuesOf_offered_other rfl, List.append_nil]
  rfl

theorem addAllowOrigin_eq (config : CorsConfig) (origin : Bytes) (r : Response) :
    addAllowOrigin config origin r = Response.appended r (originHeaders config origin r) := by
  unfold addAllowOrigin originHeaders
  cases config.origins with
  | any => exact tryAddHeader_eq r allowOrigin star
  | list origins =>
    have hvary : varyOffered (Response.appended r (offered allowOrigin origin)) (ascii "Origin") =
        varyOffered r (ascii "Origin") := by
      rw [varyOffered, varyNames_allowOrigin, ← varyOffered]
    change tryAddVary (tryAddHeader r allowOrigin origin) (ascii "Origin") = _
    rw [tryAddHeader_eq, tryAddVary, withVary_getD _ (by decide), hvary, appended_appended]

theorem credentialHeaders_eq (config : CorsConfig) (r : Response) :
    (if config.credentials then
        tryAddHeader r (ascii "Access-Control-Allow-Credentials") (ascii "true")
      else r) = Response.appended r (credentialHeaders config) := by
  unfold credentialHeaders
  split_ifs
  · exact tryAddHeader_eq r allowCredentials (ascii "true")
  · exact (appended_nil r).symm

theorem listHeader_eq (r : Response) (name : Bytes) (parts : List Bytes) :
    (if !parts.isEmpty then tryAddHeader r name (join (ascii ", ") parts) else r) =
      Response.appended r (listHeader name parts) := by
  unfold listHeader
  split_ifs
  · exact tryAddHeader_eq r name _
  · exact (appended_nil r).symm

section
variable {TypeId : Type} {E : TypeId → Type}

def granted (config : CorsConfig) (head : RequestHead E) : Option Bytes :=
  (head.header (ascii "origin")).filter (originAllowed config)

theorem applyCorsHeaders_eq (head : RequestHead E) (config : CorsConfig) (r : Response) :
    applyCorsHeaders head config r = match granted config head with
      | none => r
      | some origin => Response.appended r (actualHeaders config origin r) := by
  unfold applyCorsHeaders granted
  cases head.header (ascii "origin") with
  | none => rfl
  | some origin =>
    rw [Option.filter_some]
    cases hallowed : originAllowed config origin with
    | false => simp only [hallowed, Bool.not_false, if_true, Bool.false_eq_true, if_false]
    | true =>
      simp only [hallowed, Bool.not_true, Bool.false_eq_true, if_false, if_true]
      rw [addAllowOrigin_eq, credentialHeaders_eq, listHeader_eq, appended_appended,
        appended_appended, actualHeaders, List.append_assoc]

theorem preflightResponse_cases (head : RequestHead E) (allow : AllowedMethods)
    (config : CorsConfig) :
    (head.header (ascii "origin") = none ∧
      preflightResponse head allow config = (Response.empty 405).withAllow allow) ∨
    ((granted config head = none ∨ requestedMethod head ∉ effectiveMethods config allow) ∧
      head.header (ascii "origin") ≠ none ∧
      preflightResponse head allow config = Response.empty 403) ∨
    (∃ origin, granted config head = some origin ∧
      requestedMethod head ∈ effectiveMethods config allow ∧
      preflightResponse head allow config =
        Response.appended (Response.empty 204) (preflightHeaders config allow origin)) := by
  unfold preflightResponse granted
  cases head.header (ascii "origin") with
  | none => exact .inl ⟨rfl, rfl⟩
  | some origin =>
    rw [Option.filter_some]
    simp only [reduceCtorEq, false_and, false_or, ne_eq, not_false_eq_true, true_and]
    cases hallowed : originAllowed config origin with
    | false => simp
    | true =>
      by_cases hmethod : requestedMethod head ∈ effectiveMethods config allow
      · have hany : (effectiveMethods config allow).any (· == requestedMethod head) = true :=
          List.any_eq_true.mpr ⟨_, hmethod, beq_self_eq_true _⟩
        refine .inr ⟨origin, rfl, hmethod, ?_⟩
        simp only [Bool.not_true, Bool.false_eq_true, if_false, hany]
        rw [addAllowOrigin_eq, tryAddHeader_eq _ (ascii "Access-Control-Allow-Methods"),
          listHeader_eq, preflightHeaders]
        cases config.maxAge with
        | none =>
          simp only [maxAgeHeader, credentialHeaders_eq, appended_appended, List.append_assoc,
            List.nil_append]
        | some maxAge =>
          simp only [maxAgeHeader]
          rw [tryAddHeader_eq _ (ascii "Access-Control-Max-Age")]
          simp only [credentialHeaders_eq, appended_appended, List.append_assoc]
      · have hany : (effectiveMethods config allow).any (· == requestedMethod head) = false := by
          rw [List.any_eq_false]
          rintro m hm heq
          rw [beq_iff_eq.mp heq] at hm
          exact hmethod hm
        refine .inl ⟨.inr hmethod, ?_⟩
        simp only [Bool.not_true, Bool.false_eq_true, if_false, hany, Bool.not_false, if_true]

end

end Added

section Shown
variable {TypeId : Type} {E : TypeId → Type}

/-- What `Access-Control-Allow-Origin` says to an origin that is let in. -/
def shownOrigin (config : CorsConfig) (origin : Bytes) : Bytes :=
  match config.origins with
  | .any => star
  | .list _ => origin

def shown (config : CorsConfig) (origin : Option Bytes) : List Bytes :=
  (origin.map (shownOrigin config)).toList

def shownCredentials (config : CorsConfig) (origin : Option Bytes) : List Bytes :=
  if origin.isSome && config.credentials then [ascii "true"] else []

theorem headerLine_allowed {line name value : Bytes} (h : HeaderLine line name value) :
    value.any isForbiddenInValue = false := by
  rw [List.any_eq_false]
  intro b hb hforbidden
  simp only [isForbiddenInValue, Bool.or_eq_true, Bool.and_eq_true, decide_eq_true_eq,
    bne_iff_ne, beq_iff_eq] at hforbidden
  rcases hforbidden with ⟨hlow, htab⟩ | hdel
  · exact absurd (h.no_control b hb htab).1 (UInt8.not_le.mpr hlow)
  · subst hdel
    exact (h.no_control 127 hb (by decide)).2 rfl

theorem header_allowed {buf : Bytes} {head : RequestHead E} {consumed : ℕ}
    (h : parseRequestHead buf = .ok (.complete head consumed)) (name value : Bytes)
    (hvalue : head.header name = some value) : value.any isForbiddenInValue = false := by
  obtain ⟨pos, -, -, -, hsection⟩ := parseRequestHead_complete h
  obtain ⟨_, lines, -, -, -, hlines⟩ := (parseHeaderSection_iff (buf.take pos) head.method
    head.target head.version head.headers).mp ⟨head, hsection, rfl, rfl, rfl, rfl⟩
  have hall : ∀ p ∈ head.headers, p.2.any isForbiddenInValue = false := by
    generalize head.headers = headers at hlines
    induction hlines with
    | nil => exact List.forall_mem_nil _
    | cons hline _ ih => exact List.forall_mem_cons.mpr ⟨headerLine_allowed hline, ih⟩
  obtain ⟨r, hfind, rfl⟩ := Option.map_eq_some_iff.mp hvalue
  exact hall _ (List.mem_map_of_mem (List.mem_of_find?_eq_some hfind))

theorem valuesOf_originHeaders (config : CorsConfig) {origin : Bytes}
    (h : origin.any isForbiddenInValue = false) (r : Response) :
    valuesOf allowOrigin (originHeaders config origin r) = [shownOrigin config origin] := by
  unfold originHeaders shownOrigin
  cases config.origins with
  | any => exact valuesOf_offered rfl (by decide) (by decide) (by decide)
  | list origins =>
    simp only
    rw [valuesOf_append, valuesOf_offered rfl (by decide) (by decide) h, valuesOf_varyOffered rfl,
      List.append_nil]

theorem valuesOf_credentialHeaders (config : CorsConfig) :
    valuesOf allowCredentials (credentialHeaders config) =
      if config.credentials then [ascii "true"] else [] := by
  unfold credentialHeaders
  split_ifs
  · exact valuesOf_offered rfl (by decide) (by decide) (by decide)
  · rfl

theorem valuesOf_listHeader {field name : Bytes} (h : eqIgnoreAsciiCase name field = false)
    (parts : List Bytes) : valuesOf field (listHeader name parts) = [] := by
  unfold listHeader
  split_ifs
  · exact valuesOf_offered_other h _
  · rfl

theorem valuesOf_maxAgeHeader {field : Bytes}
    (h : eqIgnoreAsciiCase (ascii "Access-Control-Max-Age") field = false) (maxAge : Option UInt64) :
    valuesOf field (maxAgeHeader maxAge) = [] := by
  cases maxAge with
  | none => rfl
  | some maxAge => exact valuesOf_offered_other h _

theorem credentialHeaders_other {field : Bytes} (h : eqIgnoreAsciiCase allowCredentials field = false)
    (config : CorsConfig) : valuesOf field (credentialHeaders config) = [] := by
  unfold credentialHeaders
  split_ifs
  · exact valuesOf_offered_other h _
  · rfl

theorem originHeaders_other {field : Bytes} (h : eqIgnoreAsciiCase allowOrigin field = false)
    (hvary : eqIgnoreAsciiCase (ascii "Vary") field = false) (config : CorsConfig) (origin : Bytes)
    (r : Response) : valuesOf field (originHeaders config origin r) = [] := by
  unfold originHeaders
  cases config.origins with
  | any => exact valuesOf_offered_other h _
  | list origins =>
    simp only
    rw [valuesOf_append, valuesOf_offered_other h, valuesOf_varyOffered hvary, List.append_nil]

theorem granted_eq_some {config : CorsConfig} {head : RequestHead E} {origin : Bytes} :
    granted config head = some origin ↔
      head.header (ascii "origin") = some origin ∧ originAllowed config origin = true := by
  rw [granted, Option.filter_eq_some_iff]

theorem applyCorsHeaders_lines {head : RequestHead E}
    (h : ∀ origin, head.header (ascii "origin") = some origin →
      origin.any isForbiddenInValue = false)
    (config : CorsConfig) (r : Response) :
    linesOf allowOrigin (applyCorsHeaders head config r) =
      linesOf allowOrigin r ++ shown config (granted config head) ∧
    linesOf allowCredentials (applyCorsHeaders head config r) =
      linesOf allowCredentials r ++ shownCredentials config (granted config head) := by
  rw [applyCorsHeaders_eq]
  cases hgranted : granted config head with
  | none => exact ⟨(List.append_nil _).symm, (List.append_nil _).symm⟩
  | some origin =>
    have horigin := h _ (granted_eq_some.mp hgranted).1
    simp only [linesOf_eq_append, actualHeaders, valuesOf_append]
    rw [valuesOf_originHeaders config horigin, credentialHeaders_other rfl, valuesOf_listHeader rfl,
      originHeaders_other rfl rfl, valuesOf_credentialHeaders, valuesOf_listHeader rfl]
    exact ⟨rfl, by rw [List.append_nil, List.nil_append]; rfl⟩

def grantedPreflight (config : CorsConfig) (allow : AllowedMethods) (head : RequestHead E) :
    Option Bytes :=
  if requestedMethod head ∈ effectiveMethods config allow then granted config head else none

theorem preflightResponse_lines {head : RequestHead E}
    (h : ∀ origin, head.header (ascii "origin") = some origin →
      origin.any isForbiddenInValue = false)
    (config : CorsConfig) (allow : AllowedMethods) :
    linesOf allowOrigin (preflightResponse head allow config) =
      shown config (grantedPreflight config allow head) ∧
    linesOf allowCredentials (preflightResponse head allow config) =
      shownCredentials config (grantedPreflight config allow head) := by
  rcases preflightResponse_cases head allow config with
    ⟨hnone, heq⟩ | ⟨hrefused, -, heq⟩ | ⟨origin, hgranted, hmethod, heq⟩
  · have hgranted : grantedPreflight config allow head = none := by
      rw [grantedPreflight, granted, hnone, Option.filter_none, ite_self]
    rw [heq, hgranted]
    exact ⟨rfl, rfl⟩
  · have hgranted : grantedPreflight config allow head = none := by
      unfold grantedPreflight
      split_ifs with hmethod
      · exact hrefused.resolve_right (not_not_intro hmethod)
      · rfl
    rw [heq, hgranted]
    exact ⟨rfl, rfl⟩
  · have horigin := h _ (granted_eq_some.mp hgranted).1
    rw [heq, grantedPreflight, if_pos hmethod, hgranted]
    simp only [linesOf_eq_append, preflightHeaders, valuesOf_append]
    rw [valuesOf_originHeaders config horigin, credentialHeaders_other rfl, valuesOf_listHeader rfl,
      valuesOf_maxAgeHeader rfl, valuesOf_offered_other rfl, originHeaders_other rfl rfl,
      valuesOf_credentialHeaders, valuesOf_listHeader rfl, valuesOf_maxAgeHeader rfl,
      valuesOf_offered_other rfl]
    exact ⟨rfl, rfl⟩

def Allows (config : CorsConfig) (origin : Bytes) : Prop :=
  config.origins = .any ∨ ∃ origins, config.origins = .list origins ∧ origin ∈ origins

theorem originAllowed_iff {config : CorsConfig} {origin : Bytes} :
    originAllowed config origin = true ↔ Allows config origin := by
  unfold originAllowed Allows
  cases config.origins with
  | any => simp
  | list origins => simp [List.any_eq_true]

/-- What a response shows to the origin of a head: its line when the origin is allowed and
`asked` holds, at most one of them, and credentials only to one listed origin. -/
structure Exposed (config : CorsConfig) (head : RequestHead E) (asked : Prop) (result : Response) :
    Prop where
  present : linesOf allowOrigin result ≠ [] ↔
    asked ∧ ∃ origin, head.header (ascii "origin") = some origin ∧ Allows config origin
  once : (linesOf allowOrigin result).length ≤ 1
  value : ∀ line ∈ linesOf allowOrigin result, (config.origins = .any ∧ line = star) ∨
    (head.header (ascii "origin") = some line ∧ ∃ origins, config.origins = .list origins ∧
      line ∈ origins)
  credentials : linesOf allowCredentials result ≠ [] →
    linesOf allowCredentials result = [ascii "true"] ∧ config.credentials = true ∧
      ∃ origins origin, config.origins = .list origins ∧ origin ∈ origins ∧
        linesOf allowOrigin result = [origin]
  no_star : (∀ origins, config.origins = .list origins → star ∉ origins) →
    linesOf allowCredentials result ≠ [] → star ∉ linesOf allowOrigin result

theorem shown_line {config : CorsConfig} {head : RequestHead E} {line : Bytes}
    (h : line ∈ shown config (granted config head)) :
    (config.origins = .any ∧ line = star) ∨ (head.header (ascii "origin") = some line ∧
      ∃ origins, config.origins = .list origins ∧ line ∈ origins) := by
  rw [shown, Option.mem_toList, Option.map_eq_some_iff] at h
  obtain ⟨o, ho, rfl⟩ := h
  obtain ⟨hheader, hallowed⟩ := granted_eq_some.mp ho
  rw [originAllowed_iff] at hallowed
  unfold shownOrigin
  rcases hallowed with hany | ⟨origins, hlist, hmem⟩
  · rw [hany]
    exact .inl ⟨rfl, rfl⟩
  · rw [hlist]
    exact .inr ⟨hheader, origins, rfl, hmem⟩

theorem shown_ne_nil_iff {config : CorsConfig} {head : RequestHead E} :
    shown config (granted config head) ≠ [] ↔
      ∃ origin, head.header (ascii "origin") = some origin ∧ Allows config origin := by
  cases hgranted : granted config head with
  | none =>
    refine ⟨fun h => absurd rfl h, fun ⟨o, hheader, hallows⟩ => ?_⟩
    rw [granted_eq_some.mpr ⟨hheader, originAllowed_iff.mpr hallows⟩] at hgranted
    cases hgranted
  | some o =>
    obtain ⟨hheader, hallowed⟩ := granted_eq_some.mp hgranted
    exact ⟨fun _ => ⟨o, hheader, originAllowed_iff.mp hallowed⟩, fun _ => List.cons_ne_nil _ _⟩

theorem shownCredentials_ne_nil {config : CorsConfig} {head : RequestHead E}
    (h : shownCredentials config (granted config head) ≠ []) :
    shownCredentials config (granted config head) = [ascii "true"] ∧ config.credentials = true ∧
      ∃ origins origin, config.origins = .list origins ∧ origin ∈ origins ∧
        shown config (granted config head) = [origin] := by
  rw [shownCredentials] at h ⊢
  split_ifs at h ⊢ with hboth
  · rw [Bool.and_eq_true, Option.isSome_iff_exists] at hboth
    obtain ⟨⟨o, ho⟩, hcred⟩ := hboth
    have hshown : shown config (granted config head) = [shownOrigin config o] := by
      rw [ho]
      rfl
    refine ⟨rfl, hcred, ?_⟩
    rcases shown_line (hshown ▸ List.mem_singleton_self _) with
      ⟨hany, -⟩ | ⟨-, origins, hlist, hmem⟩
    · rw [config.any_without_credentials hany] at hcred
      cases hcred
    · exact ⟨origins, _, hlist, hmem, hshown⟩
  · exact absurd rfl h

theorem exposed_of_granted {config : CorsConfig} {head : RequestHead E} {asked : Prop}
    {result : Response} (hasked : asked)
    (horigin : linesOf allowOrigin result = shown config (granted config head))
    (hcredentials : linesOf allowCredentials result =
      shownCredentials config (granted config head)) :
    Exposed config head asked result := by
  refine ⟨?_, ?_, fun line hline => shown_line (horigin ▸ hline), fun h => ?_, fun hlisted h => ?_⟩
  · rw [horigin, shown_ne_nil_iff]
    exact ⟨fun h => ⟨hasked, h⟩, And.right⟩
  · rw [horigin, shown]
    cases granted config head <;> simp
  · rw [hcredentials] at h ⊢
    rw [horigin]
    exact shownCredentials_ne_nil h
  · rw [hcredentials] at h
    obtain ⟨-, -, origins, o, hlist, hmem, hline⟩ := shownCredentials_ne_nil h
    rw [horigin, hline, List.mem_singleton]
    rintro rfl
    exact hlisted origins hlist hmem

theorem exposed_of_none {config : CorsConfig} {head : RequestHead E} {asked : Prop}
    {result : Response} (hasked : ¬ asked) (horigin : linesOf allowOrigin result = [])
    (hcredentials : linesOf allowCredentials result = []) :
    Exposed config head asked result := by
  refine ⟨?_, ?_, ?_, fun h => absurd hcredentials h, fun _ h => absurd hcredentials h⟩
  · exact ⟨fun h => absurd horigin h, fun h => absurd h.1 hasked⟩
  · rw [horigin]
    exact Nat.zero_le 1
  · rw [horigin]
    exact fun line hline => absurd hline List.not_mem_nil

end Shown

section Lines

def actualNames : List Bytes :=
  [allowOrigin, ascii "Vary", allowCredentials, ascii "Access-Control-Expose-Headers"]

def preflightNames : List Bytes :=
  [allowOrigin, ascii "Vary", ascii "Access-Control-Allow-Methods",
    ascii "Access-Control-Allow-Headers", ascii "Access-Control-Max-Age", allowCredentials]

def names (hs : List ExtraHeader) : List Bytes := hs.map ExtraHeader.name

theorem names_append (hs hs' : List ExtraHeader) : names (hs ++ hs') = names hs ++ names hs' :=
  List.map_append

theorem names_originHeaders (config : CorsConfig) (origin : Bytes) (r : Response) :
    (names (originHeaders config origin r)).Sublist [allowOrigin, ascii "Vary"] := by
  unfold originHeaders
  cases config.origins with
  | any => exact (names_offered allowOrigin star).trans (List.sublist_append_left [allowOrigin] _)
  | list origins =>
    simp only [names_append]
    exact (names_offered allowOrigin origin).append (names_varyOffered r _)

theorem names_credentialHeaders (config : CorsConfig) :
    (names (credentialHeaders config)).Sublist [allowCredentials] := by
  unfold credentialHeaders
  split_ifs
  · exact names_offered _ _
  · exact List.nil_sublist _

theorem names_listHeader (name : Bytes) (parts : List Bytes) :
    (names (listHeader name parts)).Sublist [name] := by
  unfold listHeader
  split_ifs
  · exact names_offered _ _
  · exact List.nil_sublist _

theorem names_maxAgeHeader (maxAge : Option UInt64) :
    (names (maxAgeHeader maxAge)).Sublist [ascii "Access-Control-Max-Age"] := by
  cases maxAge with
  | none => exact List.nil_sublist _
  | some maxAge => exact names_offered _ _

theorem names_actualHeaders (config : CorsConfig) (origin : Bytes) (r : Response) :
    (names (actualHeaders config origin r)).Sublist actualNames := by
  rw [actualHeaders, names_append, names_append]
  exact ((names_originHeaders config origin r).append (names_credentialHeaders config)).append
    (names_listHeader _ _)

theorem names_preflightHeaders (config : CorsConfig) (allow : AllowedMethods) (origin : Bytes) :
    (names (preflightHeaders config allow origin)).Sublist preflightNames := by
  rw [preflightHeaders, names_append, names_append, names_append, names_append]
  exact (((((names_originHeaders config origin _).append (names_offered _ _)).append
    (names_listHeader _ _)).append (names_maxAgeHeader _)).append (names_credentialHeaders config))

/-- At most one more header for each name; and what is sent has one line for each header. -/
structure Grows (allowed : List Bytes) (r result : Response) : Prop where
  added : ∃ hs, result = Response.appended r hs ∧ (names hs).Sublist allowed
  lines : ∀ keepAlive, headLines (result.serialize keepAlive) =
    statusLine result.status :: (result.fixedFields keepAlive).map fieldLine

theorem grows_of_added {allowed : List Bytes} {r result : Response} {hs : List ExtraHeader}
    (heq : result = Response.appended r hs) (hnames : (names hs).Sublist allowed) :
    Grows allowed r result :=
  ⟨⟨hs, heq, hnames⟩, fun keepAlive =>
    headLines_headBytes (HttpClient.fixedFields_readable result keepAlive) result.body⟩

variable {TypeId : Type} {E : TypeId → Type}

theorem applyCors_added (config : CorsConfig) (head : RequestHead E) (r : Response) :
    ∃ hs, applyCors (some config) head r = Response.appended r hs ∧
      (names hs).Sublist actualNames := by
  have hsame : ∃ hs, r = Response.appended r hs ∧ (names hs).Sublist actualNames :=
    ⟨[], (appended_nil r).symm, List.nil_sublist _⟩
  unfold applyCors
  simp only
  split_ifs
  · rw [applyCorsHeaders_eq]
    cases granted config head with
    | none => exact hsame
    | some origin => exact ⟨_, rfl, names_actualHeaders config origin r⟩
  · exact hsame

def preflightBases (allow : AllowedMethods) : List Response :=
  [(Response.empty 405).withAllow allow, Response.empty 403, Response.empty 204]

theorem preflightResponse_added (config : CorsConfig) (allow : AllowedMethods)
    (head : RequestHead E) : ∃ base ∈ preflightBases allow, ∃ hs,
      preflightResponse head allow config = Response.appended base hs ∧
        (names hs).Sublist preflightNames := by
  rcases preflightResponse_cases head allow config with
    ⟨-, heq⟩ | ⟨-, -, heq⟩ | ⟨origin, -, -, heq⟩
  · exact ⟨_, .head _, [], heq.trans (appended_nil _).symm, List.nil_sublist _⟩
  · exact ⟨_, .tail _ (.head _), [], heq.trans (appended_nil _).symm, List.nil_sublist _⟩
  · exact ⟨_, .tail _ (.tail _ (.head _)), _, heq, names_preflightHeaders config allow origin⟩

end Lines

section Exposure
variable {TypeId : Type} {E : TypeId → Type}

theorem grantedPreflight_of_not_preflight {config : CorsConfig} {allow : AllowedMethods}
    {head : RequestHead E} (hmethod : head.method = ascii "OPTIONS")
    (hpreflight : isPreflight head = false)
    (hempty : head.header (ascii "access-control-request-method") = none →
      [] ∉ effectiveMethods config allow) : grantedPreflight config allow head = none := by
  unfold grantedPreflight
  split_ifs with hrequested
  · cases horigin : head.header (ascii "origin") with
    | none => rw [granted, horigin, Option.filter_none]
    | some origin =>
      have hnone : head.header (ascii "access-control-request-method") = none := by
        rw [isPreflight, hmethod, horigin, eqIgnoreAsciiCase, beq_self_eq_true] at hpreflight
        simpa using hpreflight
      rw [requestedMethod, hnone] at hrequested
      exact absurd hrequested (hempty hnone)
  · rfl

theorem applyCors_of_preflight {head : RequestHead E} (h : isPreflight head = true)
    (config : CorsConfig) (r : Response) : applyCors (some config) head r = r := by
  rw [applyCors, h]
  rfl

theorem applyCors_of_not_preflight {head : RequestHead E} (h : isPreflight head = false)
    (config : CorsConfig) (r : Response) :
    applyCors (some config) head r = applyCorsHeaders head config r := by
  rw [applyCors, h]
  rfl

theorem exposed_actual {config : CorsConfig} {head : RequestHead E}
    (horigin : ∀ o, head.header (ascii "origin") = some o → o.any isForbiddenInValue = false)
    {r : Response} (hr : linesOf allowOrigin r = []) (hrc : linesOf allowCredentials r = []) :
    Exposed config head (isPreflight head = false) (applyCors (some config) head r) := by
  cases hpreflight : isPreflight head with
  | true =>
    rw [applyCors_of_preflight hpreflight]
    exact exposed_of_none Bool.noConfusion hr hrc
  | false =>
    obtain ⟨hlines, hcreds⟩ := applyCorsHeaders_lines horigin config r
    rw [hr, List.nil_append] at hlines
    rw [hrc, List.nil_append] at hcreds
    rw [applyCors_of_not_preflight hpreflight]
    exact exposed_of_granted rfl hlines hcreds

theorem exposed_preflight {config : CorsConfig} {head : RequestHead E}
    (horigin : ∀ o, head.header (ascii "origin") = some o → o.any isForbiddenInValue = false)
    {allow : AllowedMethods} (hmethod : head.method = ascii "OPTIONS")
    (hempty : head.header (ascii "access-control-request-method") = none →
      [] ∉ effectiveMethods config allow) :
    Exposed config head
      (isPreflight head = true → requestedMethod head ∈ effectiveMethods config allow)
      (applyCors (some config) head (preflightResponse head allow config)) := by
  obtain ⟨hpre, hprec⟩ := preflightResponse_lines horigin config allow
  cases hpreflight : isPreflight head with
  | true =>
    rw [applyCors_of_preflight hpreflight]
    by_cases hmem : requestedMethod head ∈ effectiveMethods config allow
    · rw [grantedPreflight, if_pos hmem] at hpre hprec
      exact exposed_of_granted (fun _ => hmem) hpre hprec
    · rw [grantedPreflight, if_neg hmem] at hpre hprec
      exact exposed_of_none (fun hasked => hmem (hasked rfl)) hpre hprec
  | false =>
    have hnone : grantedPreflight config allow head = none :=
      grantedPreflight_of_not_preflight hmethod hpreflight hempty
    obtain ⟨hlines, hcreds⟩ :=
      applyCorsHeaders_lines horigin config (preflightResponse head allow config)
    rw [hpre, hnone] at hlines
    rw [hprec, hnone] at hcreds
    rw [applyCors_of_not_preflight hpreflight]
    exact exposed_of_granted (fun h => nomatch h) hlines hcreds

/-- A preflight that is granted shows what the request after it is shown. -/
theorem preflight_agrees {config : CorsConfig} {head actual : RequestHead E}
    (horigin : ∀ o, head.header (ascii "origin") = some o → o.any isForbiddenInValue = false)
    {allow : AllowedMethods} (h204 : (preflightResponse head allow config).status = 204)
    {r : Response} (hsame : actual.header (ascii "origin") = head.header (ascii "origin"))
    (hactual : isPreflight actual = false) (hr : linesOf allowOrigin r = [])
    (hrc : linesOf allowCredentials r = []) :
    linesOf allowOrigin (applyCors (some config) actual r) =
        linesOf allowOrigin (preflightResponse head allow config) ∧
      linesOf allowCredentials (applyCors (some config) actual r) =
        linesOf allowCredentials (preflightResponse head allow config) := by
  have hgranted : grantedPreflight config allow head = granted config head := by
    rcases preflightResponse_cases head allow config with
      ⟨-, heq⟩ | ⟨-, -, heq⟩ | ⟨origin, -, hrequested, -⟩
    · rw [heq] at h204
      exact absurd h204 (show (405 : UInt16) ≠ 204 by decide)
    · rw [heq] at h204
      exact absurd h204 (show (403 : UInt16) ≠ 204 by decide)
    · exact if_pos hrequested
  have hsameGrant : granted config actual = granted config head := by
    rw [granted, hsame, ← granted]
  obtain ⟨hpre, hprec⟩ := preflightResponse_lines horigin config allow
  obtain ⟨hlines, hcreds⟩ := applyCorsHeaders_lines (hsame ▸ horigin) config r
  rw [applyCors_of_not_preflight hactual, hlines, hcreds, hpre, hprec, hr, hrc, hgranted,
    hsameGrant]
  exact ⟨rfl, rfl⟩

/-- Both ways to a response show the same to an origin, and nothing more. -/
theorem exposure_law {buf : Bytes} {head : RequestHead E} {consumed : ℕ}
    (h : parseRequestHead buf = .ok (.complete head consumed)) (config : CorsConfig) :
    (∀ r, linesOf allowOrigin r = [] → linesOf allowCredentials r = [] →
      Exposed config head (isPreflight head = false) (applyCors (some config) head r)) ∧
    (∀ allow, head.method = ascii "OPTIONS" →
      (head.header (ascii "access-control-request-method") = none →
        [] ∉ effectiveMethods config allow) →
      Exposed config head
        (isPreflight head = true → requestedMethod head ∈ effectiveMethods config allow)
        (applyCors (some config) head (preflightResponse head allow config))) ∧
    (∀ allow, (preflightResponse head allow config).status = 204 →
      ∀ (actual : RequestHead E) (r : Response),
        actual.header (ascii "origin") = head.header (ascii "origin") →
        isPreflight actual = false →
        linesOf allowOrigin r = [] → linesOf allowCredentials r = [] →
        linesOf allowOrigin (applyCors (some config) actual r) =
            linesOf allowOrigin (preflightResponse head allow config) ∧
          linesOf allowCredentials (applyCors (some config) actual r) =
            linesOf allowCredentials (preflightResponse head allow config)) ∧
    (∀ r, Grows actualNames r (applyCors (some config) head r)) ∧
    (∀ allow, ∃ base ∈ preflightBases allow, Grows (preflightNames ++ actualNames) base
      (applyCors (some config) head (preflightResponse head allow config))) := by
  have horigin := header_allowed h (ascii "origin")
  refine ⟨fun r => exposed_actual horigin, fun allow => exposed_preflight horigin,
    fun allow h204 actual r => preflight_agrees horigin h204, fun r => ?_, fun allow => ?_⟩
  · obtain ⟨hs, heq, hnames⟩ := applyCors_added config head r
    exact grows_of_added heq hnames
  · obtain ⟨base, hbase, hs, heq, hnames⟩ := preflightResponse_added config allow head
    obtain ⟨hs', heq', hnames'⟩ :=
      applyCors_added config head (preflightResponse head allow config)
    rw [heq, appended_appended] at heq'
    refine ⟨base, hbase, grows_of_added (heq ▸ heq') ?_⟩
    rw [names_append]
    exact hnames.append hnames'

def requestText (lines : List Bytes) : Bytes := lines.flatMap (· ++ crlf) ++ crlf

def preflightRequest : Bytes :=
  requestText [ascii "OPTIONS / HTTP/1.1", ascii "Origin: https://a.b",
    ascii "Access-Control-Request-Method: GET"]

def preflightHead : RequestHead (fun _ : Unit => Unit) :=
  { buf := preflightRequest.take 75
    methodRange := ⟨0, 7⟩
    targetRange := ⟨8, 9⟩
    version := .http11
    headerRanges := [(⟨20, 26⟩, ⟨28, 39⟩), (⟨41, 70⟩, ⟨72, 75⟩)]
    extensions := .new }

theorem preflightHead_parsed :
    parseRequestHead preflightRequest = .ok (.complete preflightHead 79) := by
  rfl

def optionsRequest : Bytes :=
  requestText [ascii "OPTIONS / HTTP/1.1", ascii "Origin: https://a.b"]

def optionsHead : RequestHead (fun _ : Unit => Unit) :=
  { preflightHead with
    buf := optionsRequest.take 39
    headerRanges := [(⟨20, 26⟩, ⟨28, 39⟩)] }

theorem optionsHead_parsed :
    parseRequestHead optionsRequest = .ok (.complete optionsHead 43) := by
  rfl

def starRequest : Bytes := requestText [ascii "GET / HTTP/1.1", ascii "Origin: *"]

def starHead : RequestHead (fun _ : Unit => Unit) :=
  { buf := starRequest.take 25
    methodRange := ⟨0, 3⟩
    targetRange := ⟨4, 5⟩
    version := .http11
    headerRanges := [(⟨16, 22⟩, ⟨24, 25⟩)]
    extensions := .new }

def credentialed (origin : Bytes) (methods : Option (List Bytes)) : CorsConfig :=
  { origins := .list [origin]
    methods
    headers := []
    credentials := true
    maxAge := none
    exposeHeaders := []
    any_without_credentials := fun h => nomatch h }

def getOnly : AllowedMethods := ⟨[ascii "GET"], by decide, by decide⟩

theorem exposure_law_preflight :
    Exposed (credentialed (ascii "https://a.b") none) preflightHead
      (isPreflight preflightHead = true →
        requestedMethod preflightHead ∈
          effectiveMethods (credentialed (ascii "https://a.b") none) getOnly)
      (applyCors (some (credentialed (ascii "https://a.b") none)) preflightHead
        (preflightResponse preflightHead getOnly (credentialed (ascii "https://a.b") none))) :=
  (exposure_law preflightHead_parsed _).2.1 getOnly (by decide)
    (fun h => nomatch h)

/-- A preflight that meets the actual path gets no line; an empty method name lets an `OPTIONS`
request that is no preflight through both builders; and `*` can be the name of an origin. -/
theorem exposure_exceptions :
    (parseRequestHead preflightRequest = .ok (.complete preflightHead 79) ∧
      isPreflight preflightHead = true ∧
      preflightHead.header (ascii "origin") = some (ascii "https://a.b") ∧
      requestedMethod preflightHead ∈
        effectiveMethods (credentialed (ascii "https://a.b") none) getOnly ∧
      linesOf allowOrigin (applyCors (some (credentialed (ascii "https://a.b") none)) preflightHead
        (Response.empty 200)) = []) ∧
    (parseRequestHead optionsRequest = .ok (.complete optionsHead 43) ∧
      linesOf allowOrigin (applyCors (some (credentialed (ascii "https://a.b") (some [[]]))) optionsHead
        (preflightResponse optionsHead getOnly (credentialed (ascii "https://a.b") (some [[]])))) =
        [ascii "https://a.b", ascii "https://a.b"]) ∧
    (parseRequestHead starRequest = .ok (.complete starHead 29) ∧
      linesOf allowOrigin (applyCors (some (credentialed star none)) starHead (Response.empty 200)) =
        [star] ∧
      linesOf allowCredentials (applyCors (some (credentialed star none)) starHead
        (Response.empty 200)) = [ascii "true"]) := by
  refine ⟨⟨preflightHead_parsed, by decide, by decide, by decide, by decide⟩,
    ⟨optionsHead_parsed, by decide⟩, ⟨by rfl, by decide, by decide⟩⟩

end Exposure

end FandheBackend.PluginCors
