import FandheBackend.RoutesRouterDispatch

set_option autoImplicit false

namespace FandheBackend.RoutesRouter
open StdBytes ExceptChecks HttpRequestHead HttpResponse RoutesPattern

section Maps
variable {V : Type}

theorem lookup_insertAll (value : Bytes → Option V → Option V) {keys : List Bytes}
    (hkeys : keys.Nodup) (map : FxHashMap V) (k : Bytes) :
    (Router.insertAll value keys map).lookup k =
      if k ∈ keys then (value k (map.lookup k)).or (map.lookup k) else map.lookup k := by
  induction keys generalizing map with
  | nil => rfl
  | cons key keys ih =>
    obtain ⟨hkey, hrest⟩ := List.nodup_cons.mp hkeys
    rw [Router.insertAll, List.foldl_cons]
    change (Router.insertAll value keys _).lookup k = _
    rw [ih hrest]
    by_cases hk : k = key
    · subst hk
      rw [if_neg hkey, if_pos List.mem_cons_self]
      cases value k (map.lookup k) with
      | none => rfl
      | some v => exact AList.lookup_insert map
    · have hlookup : (((value key (map.lookup key)).map (map.insert key)).getD map).lookup k =
          map.lookup k := by
        cases value key (map.lookup key) with
        | none => rfl
        | some v => exact AList.lookup_insert_ne hk
      rw [hlookup]
      simp [hk]

theorem nodup_arrange (order : IterationOrder) (map : FxHashMap V) :
    (order.arrange map.keys).Nodup :=
  (order.perm _).nodup_iff.mpr map.keys_nodup

theorem mem_arrange (order : IterationOrder) {map : FxHashMap V} {k : Bytes} :
    k ∈ order.arrange map.keys ↔ (map.lookup k).isSome = true := by
  rw [(order.perm _).mem_iff, AList.lookup_isSome]
  rfl

theorem lookup_extendMap (order : IterationOrder) (map other : FxHashMap V) (k : Bytes) :
    (Router.extendMap order map other).lookup k = (other.lookup k).or (map.lookup k) := by
  rw [Router.extendMap, lookup_insertAll _ (nodup_arrange order other)]
  simp only [mem_arrange]
  cases other.lookup k <;> simp

end Maps

section
variable {TypeId : Type} {E : TypeId → Type} {F : Type} {ready : Response → F}

theorem mergedRoutes_lookup (order : IterationOrder)
    (routes other : FxHashMap (FxHashMap (RouteHandler E F))) (path method : Bytes) :
    ((Router.mergedRoutes order routes other).lookup path).bind (·.lookup method) =
      ((other.lookup path).bind (·.lookup method)).or
        ((routes.lookup path).bind (·.lookup method)) := by
  rw [Router.mergedRoutes, lookup_insertAll _ (nodup_arrange order other)]
  simp only [mem_arrange]
  cases other.lookup path with
  | none => simp
  | some methods =>
    rw [if_pos Option.isSome_some, Option.map_some, Option.some_or, Option.bind_some,
      Option.bind_some, lookup_extendMap]
    cases routes.lookup path <;> simp

/-- When the two halves of `merge` find no conflict. -/
structure Compatible (a b : Router E F) : Prop where
  static : ∀ path method, ¬((a.staticHandler path method).isSome = true ∧
    (b.staticHandler path method).isSome = true)
  params : ∀ x ∈ a.paramRoutes, ∀ y ∈ b.paramRoutes,
    ¬(x.method = y.method ∧ segmentsEquivalent x.segments y.segments = true)
  fallback : ¬(a.fallback.isSome = true ∧ b.fallback.isSome = true)
  optionsFallback : ¬(a.optionsFallback.isSome = true ∧ b.optionsFallback.isSome = true)

section Conflicts
variable {a b c : Router E F}

theorem duplicateRoute_eq_none (order : IterationOrder) :
    a.duplicateRoute order b = none ↔ ∀ path method, ¬((a.staticHandler path method).isSome = true ∧
      (b.staticHandler path method).isSome = true) := by
  unfold Router.duplicateRoute Router.staticHandler
  rw [List.findSome?_eq_none_iff]
  simp only [mem_arrange]
  refine forall_congr' fun path => ?_
  cases b.routes.lookup path with
  | none => simp
  | some methods =>
    cases a.routes.lookup path with
    | none => simp
    | some selfMethods =>
      simp only [Option.isSome_some, forall_const, Option.bind_some, Option.bind_eq_bind]
      cases hfind : (order.arrange methods.keys).find? fun m => (selfMethods.lookup m).isSome with
      | none =>
        rw [List.find?_eq_none] at hfind
        simp only [mem_arrange] at hfind
        exact iff_of_true rfl fun method h => hfind method h.2 h.1
      | some method =>
        have hself := List.find?_some hfind
        have hother := (mem_arrange order).mp (List.mem_of_find?_eq_some hfind)
        exact iff_of_false (fun h => nomatch h) fun h => h method ⟨hself, hother⟩

theorem duplicateParamRoute_eq_none :
    a.duplicateParamRoute b = none ↔ ∀ x ∈ a.paramRoutes, ∀ y ∈ b.paramRoutes,
      ¬(x.method = y.method ∧ segmentsEquivalent x.segments y.segments = true) := by
  have hroute : ∀ y : ParamRoute E F, (do
      let x ← a.paramRoutes.find? fun x =>
        x.method == y.method && segmentsEquivalent x.segments y.segments
      return RouterMergeError.duplicateParamRoute x.method (renderSegments x.segments)) = none ↔
      ∀ x ∈ a.paramRoutes,
        ¬(x.method = y.method ∧ segmentsEquivalent x.segments y.segments = true) := by
    intro y
    simp only [Option.bind_eq_bind, Option.pure_def, Option.bind_eq_none_iff]
    constructor
    · intro h x hx hboth
      cases hfind : a.paramRoutes.find? fun x =>
          x.method == y.method && segmentsEquivalent x.segments y.segments with
      | none =>
        rw [List.find?_eq_none] at hfind
        exact hfind x hx (by simpa using hboth)
      | some z => exact Option.some_ne_none _ (h z hfind)
    · intro h x hfind
      have hboth := List.find?_some hfind
      exact absurd (by simpa using hboth) (h x (List.mem_of_find?_eq_some hfind))
  unfold Router.duplicateParamRoute
  rw [List.findSome?_eq_none_iff]
  constructor
  · exact fun h x hx y hy => (hroute y).mp (h y hy) x hx
  · exact fun h y hy => (hroute y).mpr fun x hx => h x hx y hy

theorem failWith_bind_eq_ok {ε A : Type} {o : Option ε} {f : Unit → Except ε A} {v : A} :
    (Router.failWith o >>= f) = .ok v ↔ o = none ∧ f () = .ok v := by
  cases o with
  | none => exact ⟨fun h => ⟨rfl, h⟩, fun h => h.2⟩
  | some e => exact ⟨(fun h => nomatch h), fun h => nomatch h.1⟩

theorem merge_eq_ok_iff (order : IterationOrder) :
    a.merge order b = .ok c ↔ Compatible a b ∧
      c = ⟨Router.mergedRoutes order a.routes b.routes, a.paramRoutes ++ b.paramRoutes,
        a.optionsFallback.or b.optionsFallback, a.fallback.or b.fallback⟩ := by
  rw [Router.merge, failWith_bind_eq_ok, failWith_bind_eq_ok, rejectIf_bind_eq_ok,
    rejectIf_bind_eq_ok, duplicateRoute_eq_none, duplicateParamRoute_eq_none]
  constructor
  · rintro ⟨hstatic, hparams, hfallback, hoptions, hc⟩
    exact ⟨⟨hstatic, hparams, hfallback, hoptions⟩, (Except.ok.inj hc).symm⟩
  · rintro ⟨hab, rfl⟩
    exact ⟨hab.static, hab.params, hab.fallback, hab.optionsFallback, rfl⟩

theorem exists_merge (order : IterationOrder) :
    (∃ c, a.merge order b = .ok c) ↔ Compatible a b := by
  simp only [merge_eq_ok_iff, exists_and_left, exists_eq, and_true]

end Conflicts

theorem staticHandler_merge {order : IterationOrder} {a b c : Router E F}
    (h : a.merge order b = .ok c) (path method : Bytes) :
    c.staticHandler path method = (b.staticHandler path method).or (a.staticHandler path method) := by
  obtain ⟨-, rfl⟩ := (merge_eq_ok_iff order).mp h
  exact mergedRoutes_lookup order a.routes b.routes path method

theorem or_comm_of_not_both {A : Type} {o o' : Option A} (h : ¬(o.isSome = true ∧ o'.isSome = true)) :
    o.or o' = o'.or o := by
  cases o <;> cases o' <;> simp at h ⊢

theorem Represents.merge {calls calls' : List (Registration E F)} {order : IterationOrder}
    {a b c : Router E F} (ha : Represents ready calls a) (hb : Represents ready calls' b)
    (h : a.merge order b = .ok c) : Represents ready (calls ++ calls') c := by
  have hstatic := staticHandler_merge h
  obtain ⟨hab, rfl⟩ := (merge_eq_ok_iff order).mp h
  refine ⟨fun path method => ?_, ?_, ?_, ?_⟩
  · rw [hstatic, ha.static, hb.static, lastSome_append]
  · rw [List.filterMap_append]
    exact List.rel_append ha.params hb.params
  · rw [lastSome_append, ← ha.fallback, ← hb.fallback]
    exact or_comm_of_not_both hab.fallback
  · rw [lastSome_append, ← ha.options, ← hb.options]
    exact or_comm_of_not_both hab.optionsFallback

/-- The routers there are, with the calls that made them, in their order. -/
inductive Built (ready : Response → F) : List (Registration E F) → Router E F → Prop
  | new : Built ready [] Router.new
  | register {calls : List (Registration E F)} {r r' : Router E F} {c : Registration E F}
      (hr : Built ready calls r) (hc : r.register ready c = .ok r') : Built ready (calls ++ [c]) r'
  | merge {calls calls' : List (Registration E F)} {a b c : Router E F} {order : IterationOrder}
      (ha : Built ready calls a) (hb : Built ready calls' b) (hc : a.merge order b = .ok c) :
      Built ready (calls ++ calls') c

theorem Built.represents {calls : List (Registration E F)} {r : Router E F}
    (h : Built ready calls r) : Represents ready calls r := by
  induction h with
  | new => exact represents_new
  | register _ hc ih => exact ih.register hc
  | merge _ _ hc iha ihb => exact iha.merge ihb hc

theorem built_build {calls : List (Registration E F)} {r : Router E F}
    (h : Router.build ready calls = .ok r) : Built ready calls r :=
  foldlM_register Built.register Built.new h

theorem register_of_parses {c : Registration E F}
    (h : ∀ p, c.param? ready = some p → ∃ segments, parsePattern p.2.1 = .ok segments)
    (r : Router E F) : ∃ r', r.register ready c = .ok r' := by
  cases c with
  | routeParam method pattern handler =>
    obtain ⟨segments, hparse⟩ := h _ rfl
    exact ⟨_, bind_eq_ok.mpr ⟨segments, hparse, rfl⟩⟩
  | routeParamAsync method pattern handler =>
    obtain ⟨segments, hparse⟩ := h _ rfl
    exact ⟨_, bind_eq_ok.mpr ⟨segments, hparse, rfl⟩⟩
  | route | routeAsync | fallback | fallbackWith | optionsFallback => exact ⟨_, rfl⟩

theorem foldlM_of_parses {calls : List (Registration E F)}
    (h : ∀ c ∈ calls, ∀ p, c.param? ready = some p → ∃ segments, parsePattern p.2.1 = .ok segments)
    (r : Router E F) : ∃ r', calls.foldlM (Router.register ready) r = .ok r' := by
  induction calls generalizing r with
  | nil => exact ⟨r, rfl⟩
  | cons c calls ih =>
    obtain ⟨next, hnext⟩ := register_of_parses (h c List.mem_cons_self) r
    obtain ⟨r', hr'⟩ := ih (fun d hd => h d (List.mem_cons_of_mem c hd)) next
    rw [List.foldlM_cons]
    exact ⟨r', bind_eq_ok.mpr ⟨next, hnext, hr'⟩⟩

theorem Represents.exists_build {calls : List (Registration E F)} {r : Router E F}
    (h : Represents ready calls r) : ∃ r', Router.build ready calls = .ok r' := by
  have hparses : ∀ p ∈ calls.filterMap (Registration.param? ready),
      ∃ segments, parsePattern p.2.1 = .ok segments := by
    have hparams := h.params
    generalize calls.filterMap (Registration.param? ready) = ps at hparams ⊢
    generalize r.paramRoutes = routes at hparams
    induction hparams with
    | nil => exact fun _ hp => nomatch hp
    | cons hp _ ih => exact List.forall_mem_cons.mpr ⟨⟨_, hp.2.1⟩, ih⟩
  exact foldlM_of_parses (fun c hc p hp => hparses p (List.mem_filterMap.mpr ⟨c, hc, hp⟩)) _

section Associative
variable {a b c ab bc : Router E F} {order : IterationOrder}

theorem compatible_merge_left (hab : a.merge order b = .ok ab) :
    Compatible ab c ↔ Compatible a c ∧ Compatible b c := by
  have hstatic := staticHandler_merge hab
  obtain ⟨-, rfl⟩ := (merge_eq_ok_iff order).mp hab
  constructor
  · intro h
    refine ⟨⟨fun path method hboth => ?_, fun x hx => ?_, fun hboth => ?_, fun hboth => ?_⟩,
      ⟨fun path method hboth => ?_, fun x hx => ?_, fun hboth => ?_, fun hboth => ?_⟩⟩
    · exact h.static path method ⟨by rw [hstatic, Option.isSome_or, hboth.1, Bool.or_true], hboth.2⟩
    · exact h.params x (List.mem_append_left _ hx)
    · exact h.fallback ⟨by rw [Option.isSome_or, hboth.1, Bool.true_or], hboth.2⟩
    · exact h.optionsFallback ⟨by rw [Option.isSome_or, hboth.1, Bool.true_or], hboth.2⟩
    · exact h.static path method ⟨by rw [hstatic, Option.isSome_or, hboth.1, Bool.true_or], hboth.2⟩
    · exact h.params x (List.mem_append_right _ hx)
    · exact h.fallback ⟨by rw [Option.isSome_or, hboth.1, Bool.or_true], hboth.2⟩
    · exact h.optionsFallback ⟨by rw [Option.isSome_or, hboth.1, Bool.or_true], hboth.2⟩
  · rintro ⟨ha, hb⟩
    refine ⟨fun path method hboth => ?_, fun x hx => ?_, fun hboth => ?_, fun hboth => ?_⟩
    · rw [hstatic, Option.isSome_or, Bool.or_eq_true] at hboth
      exact hboth.1.elim (fun h => hb.static path method ⟨h, hboth.2⟩)
        fun h => ha.static path method ⟨h, hboth.2⟩
    · exact (List.mem_append.mp hx).elim (ha.params x) (hb.params x)
    · rw [Option.isSome_or, Bool.or_eq_true] at hboth
      exact hboth.1.elim (fun h => ha.fallback ⟨h, hboth.2⟩) fun h => hb.fallback ⟨h, hboth.2⟩
    · rw [Option.isSome_or, Bool.or_eq_true] at hboth
      exact hboth.1.elim (fun h => ha.optionsFallback ⟨h, hboth.2⟩)
        fun h => hb.optionsFallback ⟨h, hboth.2⟩

theorem segmentEquivalent_comm (x y : Segment) :
    segmentEquivalent x y = segmentEquivalent y x := by
  cases x <;> cases y <;> simp [segmentEquivalent, Bool.beq_comm]

theorem segmentsEquivalent_comm (x y : List Segment) :
    segmentsEquivalent x y = segmentsEquivalent y x := by
  unfold segmentsEquivalent
  rw [Bool.beq_comm]
  congr 1
  induction x generalizing y with
  | nil => cases y <;> rfl
  | cons s x ih =>
    cases y with
    | nil => rfl
    | cons t y => rw [List.zip_cons_cons, List.all_cons, List.zip_cons_cons, List.all_cons, ih,
        segmentEquivalent_comm]

theorem Compatible.symm (h : Compatible a b) : Compatible b a where
  static := fun path method hboth => h.static path method hboth.symm
  params := fun x hx y hy hboth => h.params y hy x hx
    ⟨hboth.1.symm, by rw [segmentsEquivalent_comm]; exact hboth.2⟩
  fallback := fun hboth => h.fallback hboth.symm
  optionsFallback := fun hboth => h.optionsFallback hboth.symm

theorem compatible_merge_right (hbc : b.merge order c = .ok bc) :
    Compatible a bc ↔ Compatible a b ∧ Compatible a c := by
  have hleft := compatible_merge_left (c := a) hbc
  constructor
  · intro h
    obtain ⟨hb, hc⟩ := hleft.mp h.symm
    exact ⟨hb.symm, hc.symm⟩
  · exact fun h => (hleft.mpr ⟨h.1.symm, h.2.symm⟩).symm

/-- Both groupings succeed when any two of the three routers are compatible. -/
theorem exists_merge_merge (order order' : IterationOrder) :
    (∃ ab abc, a.merge order b = .ok ab ∧ ab.merge order' c = .ok abc) ↔
      Compatible a b ∧ Compatible a c ∧ Compatible b c := by
  constructor
  · rintro ⟨ab, abc, hab, habc⟩
    exact ⟨(exists_merge order).mp ⟨ab, hab⟩,
      (compatible_merge_left hab).mp ((exists_merge order').mp ⟨abc, habc⟩)⟩
  · rintro ⟨hcompatible, hrest⟩
    obtain ⟨ab, hab⟩ := (exists_merge order).mpr hcompatible
    obtain ⟨abc, habc⟩ := (exists_merge order').mpr ((compatible_merge_left hab).mpr hrest)
    exact ⟨ab, abc, hab, habc⟩

theorem exists_merge_merge' (order order' : IterationOrder) :
    (∃ bc abc, b.merge order c = .ok bc ∧ a.merge order' bc = .ok abc) ↔
      Compatible a b ∧ Compatible a c ∧ Compatible b c := by
  constructor
  · rintro ⟨bc, abc, hbc, habc⟩
    obtain ⟨hab, hac⟩ := (compatible_merge_right hbc).mp ((exists_merge order').mp ⟨abc, habc⟩)
    exact ⟨hab, hac, (exists_merge order).mp ⟨bc, hbc⟩⟩
  · rintro ⟨hab, hac, hcompatible⟩
    obtain ⟨bc, hbc⟩ := (exists_merge order).mpr hcompatible
    obtain ⟨abc, habc⟩ := (exists_merge order').mpr ((compatible_merge_right hbc).mpr ⟨hab, hac⟩)
    exact ⟨bc, abc, hbc, habc⟩

end Associative

/-- Merging is registration in sequence. It succeeds when there is no conflict, the merged router
answers as one router on which the calls of both were made, and grouping makes no difference. -/
theorem merge_is_sequence (ready : Response → F) {ca cb cc : List (Registration E F)}
    {a b c : Router E F} (ha : Built ready ca a) (hb : Built ready cb b) (hc : Built ready cc c) :
    (∀ order, (∃ ab, a.merge order b = .ok ab) ↔ Compatible a b) ∧
    (∀ order ab, a.merge order b = .ok ab → ∃ r, Router.build ready (ca ++ cb) = .ok r ∧
      ∀ order₁ order₂ head body,
        ab.dispatch order₁ ready head body = r.dispatch order₂ ready head body) ∧
    ∀ order₁ order₂ order₃ order₄,
      ((∃ ab abc, a.merge order₁ b = .ok ab ∧ ab.merge order₂ c = .ok abc) ↔
        ∃ bc abc, b.merge order₃ c = .ok bc ∧ a.merge order₄ bc = .ok abc) ∧
      ∀ ab abc bc abc', a.merge order₁ b = .ok ab → ab.merge order₂ c = .ok abc →
        b.merge order₃ c = .ok bc → a.merge order₄ bc = .ok abc' →
        ∀ order₅ order₆ head body,
          abc.dispatch order₅ ready head body = abc'.dispatch order₆ ready head body := by
  have ha' := ha.represents
  have hb' := hb.represents
  have hc' := hc.represents
  refine ⟨fun order => exists_merge order, fun order ab hab => ?_,
    fun order₁ order₂ order₃ order₄ => ⟨?_, fun ab abc bc abc' hab habc hbc habc' => ?_⟩⟩
  · have hmerged := ha'.merge hb' hab
    obtain ⟨r, hr⟩ := hmerged.exists_build
    refine ⟨r, hr, fun order₁ order₂ head body => ?_⟩
    rw [hmerged.dispatch, (represents_build hr).dispatch]
  · rw [exists_merge_merge, exists_merge_merge']
  · intro order₅ order₆ head body
    have hleft := (ha'.merge hb' hab).merge hc' habc
    have hright := ha'.merge (hb'.merge hc' hbc) habc'
    rw [hleft.dispatch, hright.dispatch, List.append_assoc]

end

namespace Sample

def first : List (Registration (fun _ : Unit => Unit) Response) :=
  [.route (ascii "PUT") (ascii "/a") fun _ _ => Response.empty 200]

def second : List (Registration (fun _ : Unit => Unit) Response) :=
  [.routeParam (ascii "GET") (ascii "/\x7bid\x7d") fun _ _ _ => Response.empty 200]

def third : List (Registration (fun _ : Unit => Unit) Response) :=
  [.optionsFallback fun _ allow _ => Response.new 200 allow.toHeaderValue]

def router (calls : List (Registration (fun _ : Unit => Unit) Response)) :
    Router (fun _ : Unit => Unit) Response :=
  (Router.build id calls).toOption.getD Router.new

theorem built_router {calls : List (Registration (fun _ : Unit => Unit) Response)}
    (h : (Router.build id calls).toOption.isSome = true) : Built id calls (router calls) := by
  obtain ⟨r, hr⟩ := Option.isSome_iff_exists.mp h
  rw [router, hr, Option.getD_some]
  exact built_build (eq_ok_of_toOption hr)

end Sample

open Sample in
theorem merge_is_sequence_three :
    ∃ bc abc, (router second).merge inOrder (router third) = .ok bc ∧
      (router first).merge inOrder bc = .ok abc ∧
      abc.dispatch inOrder id options [] = Response.new 200 (ascii "GET, PUT") := by
  have hfirst : Built id first (router first) := built_router (by decide +kernel)
  have hsecond : Built id second (router second) := built_router (by decide +kernel)
  have hthird : Built id third (router third) := built_router (by decide +kernel)
  obtain ⟨-, -, hgrouped⟩ := merge_is_sequence id hfirst hsecond hthird
  obtain ⟨hiff, hsame⟩ := hgrouped inOrder inOrder inOrder inOrder
  have hrun : ((do
      let ab ← (router first).merge inOrder (router second)
      ab.merge inOrder (router third)).toOption.map
      fun abc : Router (fun _ : Unit => Unit) Response => abc.dispatch inOrder id options []) =
        some (Response.new 200 (ascii "GET, PUT")) := by
    decide +kernel
  obtain ⟨abc, hok, hanswer⟩ := Option.map_eq_some_iff.mp hrun
  obtain ⟨ab, hab, habc⟩ := bind_eq_ok.mp (eq_ok_of_toOption hok)
  obtain ⟨bc, abc', hbc, habc'⟩ := hiff.mp ⟨ab, abc, hab, habc⟩
  refine ⟨bc, abc', hbc, habc', ?_⟩
  rw [← hsame ab abc bc abc' hab habc hbc habc', hanswer]

end FandheBackend.RoutesRouter
