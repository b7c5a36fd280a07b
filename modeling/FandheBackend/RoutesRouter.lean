import FandheBackend.HttpAllowedMethods
import FandheBackend.RoutesPattern
import Mathlib.Data.List.AList

set_option autoImplicit false

/-!
# The router (`crates/routes/src/lib.rs`)

Registration, dispatch and merging. A handler is a function to what it answers; the order in which
a hash map gives its keys is a parameter.
-/
namespace FandheBackend.RoutesRouter
open StdBytes ExceptChecks HttpRequestHead HttpResponse RoutesPattern

abbrev FxHashMap (V : Type) := AList fun _ : Bytes => V

/-- The order in which a map gives its keys. -/
structure IterationOrder where
  arrange : List Bytes → List Bytes
  perm : ∀ keys, (arrange keys).Perm keys

inductive FallbackPolicy where
  | notFoundOnly
  | includeMethodNotAllowed
  deriving DecidableEq, Repr

inductive RouterMergeError where
  | duplicateRoute (method path : Bytes)
  | duplicateParamRoute (method pattern : Bytes)
  | conflictingFallback
  | conflictingOptionsFallback
  deriving DecidableEq, Repr

section
variable {TypeId : Type} (E : TypeId → Type) (F : Type)

/-- `HandlerFuture` is the type `F`. -/
abbrev RouteHandler := RequestHead E → Bytes → F

abbrev ParamRouteHandler := RequestHead E → PathParams → Bytes → F

abbrev OptionsFallbackHandler := RequestHead E → AllowedMethods → Bytes → Response

structure ParamRoute where
  method : Bytes
  segments : List Segment
  handler : ParamRouteHandler E F

structure Router where
  routes : FxHashMap (FxHashMap (RouteHandler E F))
  paramRoutes : List (ParamRoute E F)
  optionsFallback : Option (OptionsFallbackHandler E)
  fallback : Option (FallbackPolicy × RouteHandler E F)

/-- A call of a builder method. -/
inductive Registration where
  | route (method path : Bytes) (handler : RequestHead E → Bytes → Response)
  | routeAsync (method path : Bytes) (handler : RouteHandler E F)
  | routeParam (method pattern : Bytes) (handler : RequestHead E → PathParams → Bytes → Response)
  | routeParamAsync (method pattern : Bytes) (handler : ParamRouteHandler E F)
  | fallback (handler : RequestHead E → Bytes → Response)
  | fallbackWith (policy : FallbackPolicy) (handler : RequestHead E → Bytes → Response)
  | optionsFallback (handler : OptionsFallbackHandler E)

end

section
variable {TypeId : Type} {E : TypeId → Type} {F : Type}

/-- `std::future::ready` around the response of a handler that is not async. -/
def adapted {A : Type} (ready : Response → F) (handler : RequestHead E → A → Response) :
    RequestHead E → A → F := fun head a => ready (handler head a)

namespace Router

def new : Router E F := ⟨∅, [], none, none⟩

def routeAsync (r : Router E F) (method path : Bytes) (handler : RouteHandler E F) : Router E F :=
  { r with
    routes := r.routes.insert path (((r.routes.lookup path).getD ∅).insert method handler) }

def route (ready : Response → F) (r : Router E F) (method path : Bytes)
    (handler : RequestHead E → Bytes → Response) : Router E F :=
  r.routeAsync method path (adapted ready handler)

def routeParamAsync (r : Router E F) (method pattern : Bytes) (handler : ParamRouteHandler E F) :
    Except RoutePatternError (Router E F) := do
  let segments ← parsePattern pattern
  return { r with paramRoutes := r.paramRoutes ++ [⟨method, segments, handler⟩] }

def routeParam (ready : Response → F) (r : Router E F) (method pattern : Bytes)
    (handler : RequestHead E → PathParams → Bytes → Response) :
    Except RoutePatternError (Router E F) :=
  r.routeParamAsync method pattern fun head params body => ready (handler head params body)

def withOptionsFallback (r : Router E F) (handler : OptionsFallbackHandler E) : Router E F :=
  { r with optionsFallback := some handler }

def fallbackWith (ready : Response → F) (r : Router E F) (policy : FallbackPolicy)
    (handler : RequestHead E → Bytes → Response) : Router E F :=
  { r with fallback := some (policy, adapted ready handler) }

def withFallback (ready : Response → F) (r : Router E F)
    (handler : RequestHead E → Bytes → Response) : Router E F :=
  r.fallbackWith ready .notFoundOnly handler

def register (ready : Response → F) (r : Router E F) :
    Registration E F → Except RoutePatternError (Router E F)
  | .route method path handler => .ok (r.route ready method path handler)
  | .routeAsync method path handler => .ok (r.routeAsync method path handler)
  | .routeParam method pattern handler => r.routeParam ready method pattern handler
  | .routeParamAsync method pattern handler => r.routeParamAsync method pattern handler
  | .fallback handler => .ok (r.withFallback ready handler)
  | .fallbackWith policy handler => .ok (r.fallbackWith ready policy handler)
  | .optionsFallback handler => .ok (r.withOptionsFallback handler)

/-- A router made by a sequence of calls; a pattern that is refused ends it. -/
def build (ready : Response → F) (calls : List (Registration E F)) :
    Except RoutePatternError (Router E F) :=
  calls.foldlM (register ready) new

/-- The loop over the parameter routes: the answer of the first that matches with its method, or
the methods of those that match. -/
def scanParamRoutes (head : RequestHead E) (body : Bytes) (targetSegments : List Bytes) :
    List (ParamRoute E F) → List Bytes → F ⊕ List Bytes
  | [], methods => .inr methods
  | paramRoute :: rest, methods =>
    match matchSegments paramRoute.segments targetSegments head.path with
    | none => scanParamRoutes head body targetSegments rest methods
    | some params =>
      if paramRoute.method = head.method then .inl (paramRoute.handler head params body)
      else scanParamRoutes head body targetSegments rest (methods ++ [paramRoute.method])

def paramOutcome (r : Router E F) (head : RequestHead E) (body : Bytes) : F ⊕ List Bytes :=
  match requestTargetSegments head.path with
  | some targetSegments => scanParamRoutes head body targetSegments r.paramRoutes []
  | none => .inr []

/-- Invalid methods are left out. -/
def buildAllow (registeredMethods : List Bytes) : Option AllowedMethods :=
  AllowedMethods.fromMethods
    (registeredMethods.filter fun m => (AllowedMethods.fromMethods [m]).isSome)

/-- The end of `dispatch`, with the methods of the path when no route takes the request. -/
def dispatchUnrouted (ready : Response → F) (r : Router E F) (head : RequestHead E) (body : Bytes)
    (registeredMethods : List Bytes) : F :=
  if registeredMethods.isEmpty then
    match r.fallback with
    | some (_, handler) => handler head body
    | none => ready (Response.empty 404)
  else
    match buildAllow registeredMethods with
    | none =>
      match r.fallback with
      | some (.includeMethodNotAllowed, handler) => handler head body
      | _ => ready (Response.empty 405)
    | some allow =>
      match head.method == ascii "OPTIONS", r.optionsFallback with
      | true, some optionsFallback => ready (optionsFallback head allow body)
      | _, _ =>
        match r.fallback with
        | some (.includeMethodNotAllowed, handler) => handler head body
        | _ => ready ((Response.empty 405).withAllow allow)

def staticHandler (r : Router E F) (path method : Bytes) : Option (RouteHandler E F) :=
  (r.routes.lookup path).bind (·.lookup method)

def staticMethods (order : IterationOrder) (r : Router E F) (path : Bytes) : List Bytes :=
  ((r.routes.lookup path).map fun methods => order.arrange methods.keys).getD []

def dispatch (order : IterationOrder) (ready : Response → F) (r : Router E F)
    (head : RequestHead E) (body : Bytes) : F :=
  match r.staticHandler head.path head.method with
  | some handler => handler head body
  | none =>
    match r.paramOutcome head body with
    | .inl answer => answer
    | .inr paramMethods =>
      dispatchUnrouted ready r head body (r.staticMethods order head.path ++ paramMethods)

/-- The first `(path, method)` that both have. -/
def duplicateRoute (order : IterationOrder) (r other : Router E F) : Option RouterMergeError :=
  (order.arrange other.routes.keys).findSome? fun path => do
    let methods ← other.routes.lookup path
    let selfMethods ← r.routes.lookup path
    let method ← (order.arrange methods.keys).find? fun m => (selfMethods.lookup m).isSome
    return .duplicateRoute method path

def duplicateParamRoute (r other : Router E F) : Option RouterMergeError :=
  other.paramRoutes.findSome? fun otherRoute => do
    let selfRoute ← r.paramRoutes.find? fun selfRoute =>
      selfRoute.method == otherRoute.method &&
        segmentsEquivalent selfRoute.segments otherRoute.segments
    return .duplicateParamRoute selfRoute.method (renderSegments selfRoute.segments)

/-- Keys of another map are put into this one, in the order in which it gives them. -/
def insertAll {V : Type} (value : Bytes → Option V → Option V) (keys : List Bytes)
    (map : FxHashMap V) : FxHashMap V :=
  keys.foldl (fun map key => ((value key (map.lookup key)).map (map.insert key)).getD map) map

/-- `HashMap::extend`. -/
def extendMap {V : Type} (order : IterationOrder) (map other : FxHashMap V) : FxHashMap V :=
  insertAll (fun key _ => other.lookup key) (order.arrange other.keys) map

def mergedRoutes (order : IterationOrder) (routes other : FxHashMap (FxHashMap (RouteHandler E F))) :
    FxHashMap (FxHashMap (RouteHandler E F)) :=
  insertAll (fun path methods => (other.lookup path).map (extendMap order (methods.getD ∅)))
    (order.arrange other.keys) routes

/-- `return Err(e)` when there is one. -/
def failWith {ε : Type} : Option ε → Except ε Unit
  | some e => .error e
  | none => .ok ()

def merge (order : IterationOrder) (r other : Router E F) : Except RouterMergeError (Router E F) := do
  failWith (duplicateRoute order r other)
  failWith (duplicateParamRoute r other)
  rejectIf (r.fallback.isSome = true ∧ other.fallback.isSome = true) .conflictingFallback
  rejectIf (r.optionsFallback.isSome = true ∧ other.optionsFallback.isSome = true)
    .conflictingOptionsFallback
  return ⟨mergedRoutes order r.routes other.routes, r.paramRoutes ++ other.paramRoutes,
    r.optionsFallback.or other.optionsFallback, r.fallback.or other.fallback⟩

end Router

end

end FandheBackend.RoutesRouter
