import FandheBackend.PluginCorsLaw

set_option autoImplicit false

namespace FandheBackend.PluginCors
open StdBytes HttpRequestHead HttpResponse HttpResponseUnions PluginHeaders

section Vary
variable {TypeId : Type} {E : TypeId → Type}

theorem requestedMethod_same {a b : RequestHead E} (h : SameBut (ascii "origin") a b) :
    requestedMethod a = requestedMethod b := by
  rw [requestedMethod, requestedMethod, h.header (ascii "access-control-request-method") rfl]

theorem variesBy_originHeaders {config : CorsConfig} {origins : List Bytes}
    (h : config.origins = .list origins) (origin : Bytes) (r : Response) (hs : List ExtraHeader) :
    VariesBy (ascii "Origin") (Response.appended r (originHeaders config origin r ++ hs)) := by
  have hvary : varyOffered (Response.appended r (offered allowOrigin origin)) (ascii "Origin") =
      varyOffered r (ascii "Origin") := by
    rw [varyOffered, varyNames_allowOrigin, ← varyOffered]
  rw [originHeaders, h, ← appended_appended]
  apply VariesBy.appended
  rw [← appended_appended, ← hvary]
  exact variesBy_varyOffered _ (by decide)

theorem granted_none_of_list {config : CorsConfig} {origins : List Bytes}
    (h : config.origins = .list origins) {head : RequestHead E}
    (hgranted : granted config head = none) :
    ¬ ∃ origin, head.header (ascii "origin") = some origin ∧ origin ∈ origins := by
  rintro ⟨origin, hheader, hmem⟩
  have hallows : Allows config origin := .inr ⟨origins, h, hmem⟩
  rw [granted_eq_some.mpr ⟨hheader, originAllowed_iff.mpr hallows⟩] at hgranted
  cases hgranted

theorem applyCorsHeaders_varies {config : CorsConfig} {origins : List Bytes}
    (h : config.origins = .list origins) (head : RequestHead E) (r : Response) :
    VariesBy (ascii "Origin") (applyCorsHeaders head config r) ∨
      (applyCorsHeaders head config r = r ∧
        ¬ ∃ origin, head.header (ascii "origin") = some origin ∧ origin ∈ origins) := by
  rw [applyCorsHeaders_eq]
  cases hgranted : granted config head with
  | none => exact .inr ⟨rfl, granted_none_of_list h hgranted⟩
  | some origin =>
    simp only [actualHeaders, List.append_assoc]
    exact .inl (variesBy_originHeaders h origin r _)

theorem preflightResponse_varies {config : CorsConfig} {origins : List Bytes}
    (h : config.origins = .list origins) (head : RequestHead E) (allow : AllowedMethods) :
    VariesBy (ascii "Origin") (preflightResponse head allow config) ∨
      preflightResponse head allow config ∈
        [(Response.empty 405).withAllow allow, Response.empty 403] := by
  rcases preflightResponse_cases head allow config with
    ⟨-, heq⟩ | ⟨-, -, heq⟩ | ⟨origin, -, -, heq⟩
  · rw [heq]
    exact .inr (.head _)
  · rw [heq]
    exact .inr (.tail _ (.head _))
  · rw [heq]
    simp only [preflightHeaders, List.append_assoc]
    exact .inl (variesBy_originHeaders h origin _ _)

theorem originHeaders_any {config : CorsConfig} (h : config.origins = .any) (origin origin' : Bytes)
    (r : Response) : originHeaders config origin r = originHeaders config origin' r := by
  rw [originHeaders, originHeaders, h]

theorem granted_any {config : CorsConfig} (h : config.origins = .any) (head : RequestHead E) :
    granted config head = head.header (ascii "origin") := by
  have hall : originAllowed config = fun _ => true := by
    funext origin
    rw [originAllowed, h]
  rw [granted, hall]
  cases head.header (ascii "origin") <;> rfl

theorem applyCorsHeaders_any {config : CorsConfig} (h : config.origins = .any)
    {a b : RequestHead E}
    (hsome : (a.header (ascii "origin")).isSome = (b.header (ascii "origin")).isSome)
    (r : Response) : applyCorsHeaders a config r = applyCorsHeaders b config r := by
  rw [applyCorsHeaders_eq, applyCorsHeaders_eq, granted_any h, granted_any h]
  cases ha : a.header (ascii "origin") <;> cases hb : b.header (ascii "origin")
  · rfl
  · simp [ha, hb] at hsome
  · simp [ha, hb] at hsome
  · simp only [actualHeaders]
    rw [originHeaders_any h]

theorem preflightResponse_any {config : CorsConfig} (h : config.origins = .any)
    {a b : RequestHead E} (hrequested : requestedMethod a = requestedMethod b)
    (hsome : (a.header (ascii "origin")).isSome = (b.header (ascii "origin")).isSome)
    (allow : AllowedMethods) :
    preflightResponse a allow config = preflightResponse b allow config := by
  have hall : ∀ origin, originAllowed config origin = true := by
    intro origin
    rw [originAllowed, h]
  have hadd : ∀ origin origin' r,
      addAllowOrigin config origin r = addAllowOrigin config origin' r := by
    intro origin origin' r
    rw [addAllowOrigin, addAllowOrigin, h]
  unfold preflightResponse
  cases ha : a.header (ascii "origin") <;> cases hb : b.header (ascii "origin")
  · rfl
  · simp [ha, hb] at hsome
  · simp [ha, hb] at hsome
  · rename_i origin origin'
    simp only [hall, hrequested, hadd origin origin']

/-- Answers that differ by the origin say so, but for those that were made for no origin. -/
theorem vary_law {a b : RequestHead E} (hsame : SameBut (ascii "origin") a b) (config : CorsConfig) :
    (∀ r, (applyCorsHeaders a config r).fields ≠ (applyCorsHeaders b config r).fields →
      (∀ origins, config.origins = .list origins → ∀ head ∈ [a, b],
        VariesBy (ascii "Origin") (applyCorsHeaders head config r) ∨
          (applyCorsHeaders head config r = r ∧
            ¬ ∃ origin, head.header (ascii "origin") = some origin ∧ origin ∈ origins)) ∧
      (config.origins = .any →
        (a.header (ascii "origin")).isSome ≠ (b.header (ascii "origin")).isSome)) ∧
    (∀ allow,
      (preflightResponse a allow config).fields ≠ (preflightResponse b allow config).fields →
      (∀ origins, config.origins = .list origins → ∀ head ∈ [a, b],
        VariesBy (ascii "Origin") (preflightResponse head allow config) ∨
          preflightResponse head allow config ∈
            [(Response.empty 405).withAllow allow, Response.empty 403]) ∧
      (config.origins = .any →
        (a.header (ascii "origin")).isSome ≠ (b.header (ascii "origin")).isSome)) := by
  refine ⟨fun r hdiff => ⟨fun origins h head _ => applyCorsHeaders_varies h head r,
    fun h hsome => hdiff ?_⟩, fun allow hdiff => ⟨fun origins h head _ =>
      preflightResponse_varies h head allow, fun h hsome => hdiff ?_⟩⟩
  · rw [applyCorsHeaders_any h hsome]
  · rw [preflightResponse_any h (requestedMethod_same hsame) hsome]

def refusedRequest : Bytes :=
  requestText [ascii "OPTIONS / HTTP/1.1", ascii "Origin: https://a.c",
    ascii "Access-Control-Request-Method: GET"]

def refusedHead : RequestHead (fun _ : Unit => Unit) :=
  { preflightHead with buf := refusedRequest.take 75 }

theorem sameBut_refused : SameBut (ascii "origin") preflightHead refusedHead :=
  ⟨by decide +kernel, by decide +kernel, rfl, by decide +kernel⟩

theorem vary_law_preflight :
    VariesBy (ascii "Origin")
        (preflightResponse preflightHead getOnly (credentialed (ascii "https://a.b") none)) ∨
      preflightResponse preflightHead getOnly (credentialed (ascii "https://a.b") none) ∈
        [(Response.empty 405).withAllow getOnly, Response.empty 403] :=
  ((vary_law sameBut_refused (credentialed (ascii "https://a.b") none)).2 getOnly
    (by decide)).1 _ rfl _ (.head _)

def plainRequest : Bytes := requestText [ascii "OPTIONS / HTTP/1.1"]

def plainHead : RequestHead (fun _ : Unit => Unit) :=
  { preflightHead with
    buf := plainRequest.take 18
    headerRanges := [] }

/-- What is made for no origin has no `Vary`: the untouched response, and the refusal. -/
theorem vary_law_exceptions :
    (parseRequestHead optionsRequest = .ok (.complete optionsHead 43) ∧
      parseRequestHead plainRequest = .ok (.complete plainHead 22) ∧
      SameBut (ascii "origin") optionsHead plainHead ∧
      (applyCorsHeaders optionsHead (credentialed (ascii "https://a.b") none)
          (Response.empty 200)).fields ≠
        (applyCorsHeaders plainHead (credentialed (ascii "https://a.b") none)
          (Response.empty 200)).fields ∧
      ¬ VariesBy (ascii "Origin") (applyCorsHeaders plainHead
        (credentialed (ascii "https://a.b") none) (Response.empty 200))) ∧
    (parseRequestHead preflightRequest = .ok (.complete preflightHead 79) ∧
      parseRequestHead refusedRequest = .ok (.complete refusedHead 79) ∧
      SameBut (ascii "origin") preflightHead refusedHead ∧
      (preflightResponse preflightHead getOnly (credentialed (ascii "https://a.b") none)).fields ≠
        (preflightResponse refusedHead getOnly (credentialed (ascii "https://a.b") none)).fields ∧
      (preflightResponse refusedHead getOnly (credentialed (ascii "https://a.b") none)).status =
        403 ∧
      ¬ VariesBy (ascii "Origin") (preflightResponse refusedHead getOnly
        (credentialed (ascii "https://a.b") none))) :=
  ⟨⟨optionsHead_parsed, by rfl, ⟨by decide +kernel, by decide +kernel, rfl, by decide +kernel⟩,
      by decide +kernel, by decide +kernel⟩,
    ⟨preflightHead_parsed, by rfl, sameBut_refused, by decide +kernel, by decide +kernel,
      by decide +kernel⟩⟩

end Vary

end FandheBackend.PluginCors
