import FandheBackend.RoutesRouter
import Mathlib.Data.Finset.Sort

set_option autoImplicit false

namespace FandheBackend.RoutesRouter
open StdBytes ExceptChecks HttpRequestHead HttpResponse RoutesPattern SortedDistinct

section
variable {TypeId : Type} {E : TypeId → Type} {F : Type} (ready : Response → F)

namespace Registration

def static? : Registration E F → Option (Bytes × Bytes × RouteHandler E F)
  | .route method path handler => some (path, method, adapted ready handler)
  | .routeAsync method path handler => some (path, method, handler)
  | _ => none

def param? : Registration E F → Option (Bytes × Bytes × ParamRouteHandler E F)
  | .routeParam method pattern handler =>
    some (method, pattern, fun head params body => ready (handler head params body))
  | .routeParamAsync method pattern handler => some (method, pattern, handler)
  | _ => none

def fallback? : Registration E F → Option (FallbackPolicy × RouteHandler E F)
  | .fallback handler => some (.notFoundOnly, adapted ready handler)
  | .fallbackWith policy handler => some (policy, adapted ready handler)
  | _ => none

def options? : Registration E F → Option (OptionsFallbackHandler E)
  | .optionsFallback handler => some handler
  | _ => none

end Registration

def matchPattern (pattern path : Bytes) : Option PathParams :=
  match parsePattern pattern, requestTargetSegments path with
  | .ok segments, some values => bindSegments segments values
  | _, _ => none

/-- The last of the values that a list gives. -/
def lastSome {A B : Type} (f : A → Option B) (l : List A) : Option B := l.reverse.findSome? f

def staticFor (path method : Bytes) (c : Registration E F) : Option (RouteHandler E F) :=
  (c.static? ready).bind fun s => if s.1 = path ∧ s.2.1 = method then some s.2.2 else none

def paramFor (path method : Bytes) (c : Registration E F) :
    Option (ParamRouteHandler E F × PathParams) :=
  (c.param? ready).bind fun p =>
    if p.1 = method then (matchPattern p.2.1 path).map (p.2.2, ·) else none

def methodFor (path : Bytes) (c : Registration E F) : Option Bytes :=
  match c.static? ready, c.param? ready with
  | some s, _ => if s.1 = path then some s.2.1 else none
  | none, some p => if (matchPattern p.2.1 path).isSome = true then some p.1 else none
  | none, none => none

def methodsOf (calls : List (Registration E F)) (path : Bytes) : Finset Bytes :=
  (calls.filterMap (methodFor ready path)).toFinset

/-- The valid methods of a set in ascending order, unless there are none. -/
def allowOf (M : Finset Bytes) : Option AllowedMethods :=
  if h : (M.filter (isToken · = true)).sort (· ≤ ·) = [] then none
  else some ⟨_, h, fun _ hm => (Finset.mem_filter.mp ((Finset.mem_sort _).mp hm)).2⟩

/-- The answer when no route takes the request, by the set of methods of its path. -/
def unrouted (fallback : Option (FallbackPolicy × RouteHandler E F))
    (optionsFallback : Option (OptionsFallbackHandler E)) (M : Finset Bytes)
    (head : RequestHead E) (body : Bytes) : F :=
  if M = ∅ then
    match fallback with
    | some (_, handler) => handler head body
    | none => ready (Response.empty 404)
  else
    match allowOf M, decide (head.method = ascii "OPTIONS"), optionsFallback, fallback with
    | some allow, true, some handler, _ => ready (handler head allow body)
    | _, _, _, some (.includeMethodNotAllowed, handler) => handler head body
    | some allow, _, _, _ => ready ((Response.empty 405).withAllow allow)
    | none, _, _, _ => ready (Response.empty 405)

def reference (calls : List (Registration E F)) (head : RequestHead E) (body : Bytes) : F :=
  match lastSome (staticFor ready head.path head.method) calls with
  | some handler => handler head body
  | none =>
    match calls.findSome? (paramFor ready head.path head.method) with
    | some (handler, params) => handler head params body
    | none =>
      unrouted ready (lastSome (Registration.fallback? ready) calls)
        (lastSome Registration.options? calls) (methodsOf ready calls head.path) head body

variable {ready}

theorem lastSome_append {A B : Type} (f : A → Option B) (l l' : List A) :
    lastSome f (l ++ l') = (lastSome f l').or (lastSome f l) := by
  rw [lastSome, List.reverse_append, List.findSome?_append, lastSome, lastSome]

section Allow

theorem isSome_fromMethods_singleton (m : Bytes) :
    (AllowedMethods.fromMethods [m]).isSome = isToken m := by
  rw [Bool.eq_iff_iff, Option.isSome_iff_exists]
  constructor
  · rintro ⟨a, ha⟩
    exact (AllowedMethods.fromMethods_eq_some_iff.mp ha).2.1 m (List.mem_singleton_self m)
  · intro hm
    have htokens : ∀ m' ∈ [m], isToken m' = true := by simpa using hm
    have hne : sortDedup [m] ≠ [] :=
      List.ne_nil_of_mem (mem_sortDedup.mpr (List.mem_singleton_self m))
    exact ⟨⟨sortDedup [m], hne, fun m' hm' => htokens m' (mem_sortDedup.mp hm')⟩,
      AllowedMethods.fromMethods_eq_some_iff.mpr ⟨List.cons_ne_nil _ _, htokens, rfl⟩⟩

theorem buildAllow_eq_allowOf {methods : List Bytes} {M : Finset Bytes}
    (h : ∀ m, m ∈ methods ↔ m ∈ M) : Router.buildAllow methods = allowOf M := by
  have hvalid : ∀ m, m ∈ methods.filter isToken ↔ m ∈ M.filter (isToken · = true) := fun m => by
    rw [List.mem_filter, Finset.mem_filter, h]
  have hsort := sort_eq_sortDedup hvalid
  unfold Router.buildAllow
  simp only [isSome_fromMethods_singleton]
  unfold allowOf
  have hnil : (M.filter (isToken · = true)).sort (· ≤ ·) = [] ↔ methods.filter isToken = [] := by
    rw [hsort]
    constructor
    · intro h
      exact List.eq_nil_iff_forall_not_mem.mpr fun m hm =>
        List.not_mem_nil (h ▸ mem_sortDedup.mpr hm)
    · intro h
      exact List.eq_nil_iff_forall_not_mem.mpr fun m hm =>
        List.not_mem_nil (h ▸ mem_sortDedup.mp hm)
  by_cases hempty : methods.filter isToken = []
  · rw [dif_pos (hnil.mpr hempty), hempty]
    rfl
  · rw [dif_neg (mt hnil.mp hempty)]
    refine AllowedMethods.fromMethods_eq_some_iff.mpr ⟨hempty, ?_, hsort⟩
    exact fun m hm => (List.mem_filter.mp hm).2

end Allow

structure Represents (ready : Response → F) (calls : List (Registration E F)) (r : Router E F) :
    Prop where
  static : ∀ path method, r.staticHandler path method = lastSome (staticFor ready path method) calls
  params : List.Forall₂ (fun p route => p.1 = route.method ∧
    parsePattern p.2.1 = .ok route.segments ∧ p.2.2 = route.handler)
    (calls.filterMap (Registration.param? ready)) r.paramRoutes
  fallback : r.fallback = lastSome (Registration.fallback? ready) calls
  options : r.optionsFallback = lastSome Registration.options? calls

theorem represents_new : Represents ready [] (Router.new : Router E F) where
  static := fun _ _ => rfl
  params := .nil
  fallback := rfl
  options := rfl

theorem staticHandler_routeAsync (r : Router E F) (method path : Bytes) (handler : RouteHandler E F)
    (path' method' : Bytes) :
    (r.routeAsync method path handler).staticHandler path' method' =
      if path = path' ∧ method = method' then some handler else r.staticHandler path' method' := by
  unfold Router.staticHandler Router.routeAsync
  by_cases hpath : path = path'
  · subst hpath
    rw [AList.lookup_insert, Option.bind_some]
    by_cases hmethod : method = method'
    · subst hmethod
      rw [AList.lookup_insert, if_pos ⟨rfl, rfl⟩]
    · rw [AList.lookup_insert_ne (Ne.symm hmethod), if_neg fun h => hmethod h.2]
      cases r.routes.lookup path <;> simp
  · rw [AList.lookup_insert_ne (Ne.symm hpath), if_neg fun h => hpath h.1]

theorem lastSome_concat {A B : Type} (f : A → Option B) (l : List A) (a : A) :
    lastSome f (l ++ [a]) = (f a).or (lastSome f l) := by
  rw [lastSome_append]
  cases h : f a <;> simp [lastSome, h]

theorem Represents.concat {calls : List (Registration E F)} {r r' : Router E F}
    (h : Represents ready calls r) {c : Registration E F} {added : List (ParamRoute E F)}
    (hstatic : ∀ path method, r'.staticHandler path method =
      (staticFor ready path method c).or (r.staticHandler path method))
    (hadded : List.Forall₂ (fun p route => p.1 = route.method ∧
      parsePattern p.2.1 = .ok route.segments ∧ p.2.2 = route.handler)
      (c.param? ready).toList added)
    (hparams : r'.paramRoutes = r.paramRoutes ++ added)
    (hfallback : r'.fallback = (c.fallback? ready).or r.fallback)
    (hoptions : r'.optionsFallback = c.options?.or r.optionsFallback) :
    Represents ready (calls ++ [c]) r' where
  static := fun path method => by rw [hstatic, h.static, lastSome_concat]
  params := by
    rw [hparams, List.filterMap_append]
    refine List.rel_append h.params ?_
    rw [List.filterMap_cons, List.filterMap_nil]
    cases hp : c.param? ready with
    | none => rwa [hp] at hadded
    | some p => rwa [hp] at hadded
  fallback := by rw [hfallback, h.fallback, lastSome_concat]
  options := by rw [hoptions, h.options, lastSome_concat]

theorem Represents.routeAsync {calls : List (Registration E F)} {r : Router E F}
    (h : Represents ready calls r) {c : Registration E F} {path method : Bytes}
    {handler : RouteHandler E F} (hs : c.static? ready = some (path, method, handler))
    (hp : c.param? ready = none) (hf : c.fallback? ready = none) (ho : c.options? = none) :
    Represents ready (calls ++ [c]) (r.routeAsync method path handler) := by
  refine h.concat (fun path' method' => ?_) (hp ▸ .nil) (List.append_nil _).symm (by rw [hf]; rfl)
    (by rw [ho]; rfl)
  rw [staticHandler_routeAsync, staticFor, hs, Option.bind_some]
  split_ifs <;> rfl

theorem Represents.routeParamAsync {calls : List (Registration E F)} {r r' : Router E F}
    (h : Represents ready calls r) {c : Registration E F} {pattern method : Bytes}
    {handler : ParamRouteHandler E F} (hc : r.routeParamAsync method pattern handler = .ok r')
    (hs : c.static? ready = none) (hp : c.param? ready = some (method, pattern, handler))
    (hf : c.fallback? ready = none) (ho : c.options? = none) :
    Represents ready (calls ++ [c]) r' := by
  obtain ⟨segments, hparse, hr⟩ := bind_eq_ok.mp hc
  obtain rfl := Except.ok.inj hr
  refine h.concat (fun path' method' => ?_) (hp ▸ .cons ⟨rfl, hparse, rfl⟩ .nil) rfl
    (by rw [hf]; rfl) (by rw [ho]; rfl)
  rw [staticFor, hs]
  rfl

theorem Represents.register {calls : List (Registration E F)} {r r' : Router E F}
    {c : Registration E F} (h : Represents ready calls r) (hc : r.register ready c = .ok r') :
    Represents ready (calls ++ [c]) r' := by
  cases c with
  | route method path handler =>
    obtain rfl := Except.ok.inj hc
    exact h.routeAsync rfl rfl rfl rfl
  | routeAsync method path handler =>
    obtain rfl := Except.ok.inj hc
    exact h.routeAsync rfl rfl rfl rfl
  | routeParam method pattern handler => exact h.routeParamAsync hc rfl rfl rfl rfl
  | routeParamAsync method pattern handler => exact h.routeParamAsync hc rfl rfl rfl rfl
  | fallback handler =>
    obtain rfl := Except.ok.inj hc
    exact h.concat (fun _ _ => rfl) .nil (List.append_nil _).symm rfl rfl
  | fallbackWith policy handler =>
    obtain rfl := Except.ok.inj hc
    exact h.concat (fun _ _ => rfl) .nil (List.append_nil _).symm rfl rfl
  | optionsFallback handler =>
    obtain rfl := Except.ok.inj hc
    exact h.concat (fun _ _ => rfl) .nil (List.append_nil _).symm rfl rfl

theorem foldlM_register {P : List (Registration E F) → Router E F → Prop}
    (hstep : ∀ {calls r c r'}, P calls r → r.register ready c = .ok r' → P (calls ++ [c]) r')
    {calls more : List (Registration E F)} {r r' : Router E F} (h : P calls r)
    (hmore : more.foldlM (Router.register ready) r = .ok r') : P (calls ++ more) r' := by
  induction more generalizing calls r with
  | nil =>
    obtain rfl := Except.ok.inj hmore
    rwa [List.append_nil]
  | cons c more ih =>
    rw [List.foldlM_cons] at hmore
    obtain ⟨next, hc, hmore⟩ := bind_eq_ok.mp hmore
    have hall := ih (hstep h hc) hmore
    rwa [List.append_assoc] at hall

theorem represents_build {calls : List (Registration E F)} {r : Router E F}
    (h : Router.build ready calls = .ok r) : Represents ready calls r :=
  foldlM_register Represents.register represents_new h

section Scan
variable {head : RequestHead E} {body : Bytes} {targetSegments : List Bytes}

def answerOf (head : RequestHead E) (body : Bytes) (targetSegments : List Bytes)
    (route : ParamRoute E F) : Option F :=
  (matchSegments route.segments targetSegments head.path).bind fun params =>
    if route.method = head.method then some (route.handler head params body) else none

def fits (head : RequestHead E) (targetSegments : List Bytes) (route : ParamRoute E F) : Bool :=
  (matchSegments route.segments targetSegments head.path).isSome

theorem scanParamRoutes_eq (routes : List (ParamRoute E F)) (methods : List Bytes) :
    Router.scanParamRoutes head body targetSegments routes methods =
      match routes.findSome? (answerOf head body targetSegments) with
      | some answer => .inl answer
      | none => .inr (methods ++ (routes.filter (fits head targetSegments)).map (·.method)) := by
  induction routes generalizing methods with
  | nil => simp [Router.scanParamRoutes]
  | cons route rest ih =>
    rw [Router.scanParamRoutes, List.findSome?_cons, List.filter_cons]
    cases hmatch : matchSegments route.segments targetSegments head.path with
    | none => simp [answerOf, fits, hmatch, ih]
    | some params =>
      by_cases hmethod : route.method = head.method
      · simp [answerOf, hmatch, hmethod]
      · simp [answerOf, fits, hmatch, hmethod, ih]

end Scan

theorem findSome?_filterMap {A B C : Type} (f : A → Option B) (g : B → Option C) (l : List A) :
    (l.filterMap f).findSome? g = l.findSome? fun a => (f a).bind g := by
  induction l with
  | nil => rfl
  | cons a l ih => cases h : f a <;> simp [List.findSome?_cons, h, ih]

section Routes
variable {calls : List (Registration E F)} {r : Router E F} {head : RequestHead E} {body : Bytes}

theorem Represents.answer (h : Represents ready calls r) {targetSegments : List Bytes}
    (htarget : requestTargetSegments head.path = some targetSegments) :
    r.paramRoutes.findSome? (answerOf head body targetSegments) =
      (calls.findSome? (paramFor ready head.path head.method)).map fun found =>
        found.1 head found.2 body := by
  unfold paramFor
  rw [← findSome?_filterMap]
  have hparams := h.params
  generalize calls.filterMap (Registration.param? ready) = ps at hparams ⊢
  generalize r.paramRoutes = routes at hparams ⊢
  induction hparams with
  | nil => rfl
  | @cons p route ps routes hp _ ih =>
    obtain ⟨hmethod, hparse, hhandler⟩ := hp
    have hbind : matchPattern p.2.1 head.path =
        matchSegments route.segments targetSegments head.path := by
      rw [matchPattern, hparse, htarget, matchSegments_eq_bindSegments htarget]
    rw [List.findSome?_cons, List.findSome?_cons, ih, answerOf, hbind, hmethod, hhandler]
    cases matchSegments route.segments targetSegments head.path with
    | none => simp
    | some params => by_cases heq : route.method = head.method <;> simp [heq]

theorem Represents.paramMethods (h : Represents ready calls r) {targetSegments : List Bytes}
    (htarget : requestTargetSegments head.path = some targetSegments) (m : Bytes) :
    m ∈ (r.paramRoutes.filter (fits head targetSegments)).map (·.method) ↔
      ∃ c ∈ calls, ∃ p, c.param? ready = some p ∧ (matchPattern p.2.1 head.path).isSome = true ∧
        p.1 = m := by
  have hps : (∃ c ∈ calls, ∃ p, c.param? ready = some p ∧
      (matchPattern p.2.1 head.path).isSome = true ∧ p.1 = m) ↔
      ∃ p ∈ calls.filterMap (Registration.param? ready),
        (matchPattern p.2.1 head.path).isSome = true ∧ p.1 = m := by
    simp only [List.mem_filterMap]
    constructor
    · rintro ⟨c, hc, p, hp, hmatch⟩
      exact ⟨p, ⟨c, hc, hp⟩, hmatch⟩
    · rintro ⟨p, ⟨c, hc, hp⟩, hmatch⟩
      exact ⟨c, hc, p, hp, hmatch⟩
  rw [hps]
  have hparams := h.params
  generalize calls.filterMap (Registration.param? ready) = ps at hparams ⊢
  generalize r.paramRoutes = routes at hparams ⊢
  induction hparams with
  | nil => simp
  | @cons p route ps routes hp _ ih =>
    obtain ⟨hmethod, hparse, -⟩ := hp
    have hbind : (matchPattern p.2.1 head.path).isSome = fits head targetSegments route := by
      rw [matchPattern, hparse, htarget, fits, matchSegments_eq_bindSegments htarget]
    rw [List.filter_cons]
    simp only [List.exists_mem_cons_iff, hbind, hmethod]
    by_cases hfits : fits head targetSegments route = true
    · rw [if_pos hfits, List.map_cons, List.mem_cons]
      exact or_congr ⟨fun hm => ⟨hfits, hm.symm⟩, fun hm => hm.2.symm⟩ ih
    · rw [if_neg hfits]
      exact ih.trans ⟨Or.inr, fun hor => hor.resolve_left fun hm => hfits hm.1⟩

theorem matchPattern_of_none {pattern path : Bytes} (h : requestTargetSegments path = none) :
    matchPattern pattern path = none := by
  rw [matchPattern, h]
  cases parsePattern pattern <;> rfl

theorem mem_staticMethods (order : IterationOrder) {path m : Bytes} :
    m ∈ r.staticMethods order path ↔ (r.staticHandler path m).isSome = true := by
  unfold Router.staticMethods Router.staticHandler
  cases r.routes.lookup path with
  | none => simp
  | some methods =>
    rw [Option.map_some, Option.getD_some, (order.perm _).mem_iff, Option.bind_some,
      AList.lookup_isSome]
    rfl

theorem isSome_lastSome {A B : Type} {f : A → Option B} {l : List A} :
    (lastSome f l).isSome = true ↔ ∃ a ∈ l, (f a).isSome = true := by
  rw [lastSome, List.findSome?_isSome_iff]
  simp only [List.mem_reverse]

theorem mem_methodsOf {path m : Bytes} :
    m ∈ methodsOf ready calls path ↔
      (lastSome (staticFor ready path m) calls).isSome = true ∨
        ∃ c ∈ calls, ∃ p, c.param? ready = some p ∧ (matchPattern p.2.1 path).isSome = true ∧
          p.1 = m := by
  have hcall : ∀ c : Registration E F, methodFor ready path c = some m ↔
      (staticFor ready path m c).isSome = true ∨
        ∃ p, c.param? ready = some p ∧ (matchPattern p.2.1 path).isSome = true ∧ p.1 = m := by
    intro c
    cases c <;> simp [methodFor, staticFor, Registration.static?, Registration.param?,
      Option.isSome_iff_exists]
  rw [methodsOf, List.mem_toFinset, List.mem_filterMap, isSome_lastSome]
  simp only [hcall]
  constructor
  · rintro ⟨c, hc, hstatic | hparam⟩
    · exact .inl ⟨c, hc, hstatic⟩
    · exact .inr ⟨c, hc, hparam⟩
  · rintro (⟨c, hc, hstatic⟩ | ⟨c, hc, hparam⟩)
    · exact ⟨c, hc, .inl hstatic⟩
    · exact ⟨c, hc, .inr hparam⟩

end Routes

section Dispatch
variable {calls : List (Registration E F)} {r : Router E F}

theorem dispatchUnrouted_eq (h : Represents ready calls r) {head : RequestHead E} {body : Bytes}
    {methods : List Bytes} {M : Finset Bytes} (hM : ∀ m, m ∈ methods ↔ m ∈ M) :
    Router.dispatchUnrouted ready r head body methods =
      unrouted ready (lastSome (Registration.fallback? ready) calls)
        (lastSome Registration.options? calls) M head body := by
  have hempty : methods.isEmpty = true ↔ M = ∅ := by
    rw [List.isEmpty_iff, List.eq_nil_iff_forall_not_mem, Finset.eq_empty_iff_forall_notMem]
    simp only [hM]
  unfold Router.dispatchUnrouted unrouted
  rw [buildAllow_eq_allowOf hM, h.fallback, h.options]
  by_cases hnil : M = ∅
  · exact (if_pos (hempty.mpr hnil)).trans (if_pos hnil).symm
  · rw [if_neg (mt hempty.mp hnil), if_neg hnil]
    have hoptions : (head.method == ascii "OPTIONS") = decide (head.method = ascii "OPTIONS") := by
      rw [Bool.eq_iff_iff, beq_iff_eq, decide_eq_true_iff]
    rw [hoptions]
    cases allowOf M with
    | none =>
      cases lastSome (Registration.fallback? ready) calls with
      | none => rfl
      | some fallback => obtain ⟨_ | _, handler⟩ := fallback <;> rfl
    | some allow =>
      cases decide (head.method = ascii "OPTIONS") <;>
        cases lastSome (Registration.options? (F := F)) calls <;>
          rcases lastSome (Registration.fallback? ready) calls with _ | ⟨_ | _, handler⟩ <;> rfl

theorem Represents.dispatch (h : Represents ready calls r) (order : IterationOrder)
    (head : RequestHead E) (body : Bytes) :
    r.dispatch order ready head body = reference ready calls head body := by
  unfold Router.dispatch reference
  rw [h.static]
  cases lastSome (staticFor ready head.path head.method) calls with
  | some handler => rfl
  | none =>
    dsimp only
    unfold Router.paramOutcome
    have hstatic : ∀ m, m ∈ r.staticMethods order head.path ↔
        (lastSome (staticFor ready head.path m) calls).isSome = true := fun m => by
      rw [mem_staticMethods, h.static]
    cases htarget : requestTargetSegments head.path with
    | none =>
      have hnone : ∀ c ∈ calls, paramFor ready head.path head.method c = none := fun c _ => by
        rw [paramFor]
        cases c.param? ready <;> simp [matchPattern_of_none htarget]
      rw [List.findSome?_eq_none_iff.mpr hnone]
      refine dispatchUnrouted_eq h fun m => ?_
      rw [List.append_nil, hstatic, mem_methodsOf]
      simp [matchPattern_of_none htarget]
    | some targetSegments =>
      dsimp only
      rw [scanParamRoutes_eq, h.answer htarget]
      cases calls.findSome? (paramFor ready head.path head.method) with
      | some found => rfl
      | none =>
        refine dispatchUnrouted_eq h fun m => ?_
        rw [List.nil_append, List.mem_append, hstatic, h.paramMethods htarget, mem_methodsOf]

end Dispatch

/-- `dispatch` gives the answer that the calls say. The method of a request that no route takes is
not one of those of its path, and a path without a slash in front matches no pattern. -/
theorem dispatch_eq_reference (order : IterationOrder) (ready : Response → F)
    (calls : List (Registration E F)) (r : Router E F) (hbuild : Router.build ready calls = .ok r) :
    (∀ head body, r.dispatch order ready head body = reference ready calls head body) ∧
      (∀ head : RequestHead E, lastSome (staticFor ready head.path head.method) calls = none →
        calls.findSome? (paramFor ready head.path head.method) = none →
        head.method ∉ methodsOf ready calls head.path) ∧
      ∀ pattern path, path.head? ≠ some 47 → matchPattern pattern path = none := by
  refine ⟨(represents_build hbuild).dispatch order, fun head hstatic hparam hmem => ?_,
    fun pattern path hpath => matchPattern_of_none ?_⟩
  · rcases mem_methodsOf.mp hmem with hsome | ⟨c, hc, p, hp, hmatch, hmethod⟩
    · rw [hstatic] at hsome
      cases hsome
    · have hnone := List.findSome?_eq_none_iff.mp hparam c hc
      rw [paramFor, hp, Option.bind_some, if_pos hmethod, Option.map_eq_none_iff] at hnone
      rw [hnone] at hmatch
      cases hmatch
  · cases path with
    | nil => rfl
    | cons b rest =>
      have hb : b ≠ 47 := fun h => hpath (congrArg some h)
      simp [requestTargetSegments, hb]

end

namespace Sample

def options : RequestHead (fun _ : Unit => Unit) :=
  ⟨ascii "OPTIONS /a", ⟨0, 7⟩, ⟨8, 10⟩, .http11, [], .new⟩

def calls : List (Registration (fun _ : Unit => Unit) Response) :=
  [.route (ascii "PUT") (ascii "/a") fun _ _ => Response.empty 200,
    .routeParam (ascii "GET") (ascii "/\x7bid\x7d") fun _ _ _ => Response.empty 200,
    .optionsFallback fun _ allow _ => Response.new 200 allow.toHeaderValue]

def inOrder : IterationOrder := ⟨id, fun keys => List.Perm.refl keys⟩

end Sample

open Sample in
theorem dispatch_eq_reference_options :
    reference id calls options [] = Response.new 200 (ascii "GET, PUT") := by
  have hrun : (Router.build id calls).toOption.map (fun r => r.dispatch inOrder id options []) =
      some (Response.new 200 (ascii "GET, PUT")) := by
    decide +kernel
  obtain ⟨r, hr, hanswer⟩ := Option.map_eq_some_iff.mp hrun
  rw [← (dispatch_eq_reference inOrder id calls r (eq_ok_of_toOption hr)).1, hanswer]

end FandheBackend.RoutesRouter
