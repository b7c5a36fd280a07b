import FandheBackend.RoutesPatternLaw
import FandheBackend.RoutesRouterMerge

set_option autoImplicit false

namespace FandheBackend.RoutesPatternOverlap
open StdBytes ExceptChecks HttpRequestHead HttpResponse RoutesPattern RoutesPatternLaw RoutesRouter
open Utf8Text

def Matches (segments : List Segment) (values : List Bytes) : Prop :=
  ∃ params, Instance segments values params

section Shapes

theorem matches_nil {values : List Bytes} : Matches [] values ↔ values = [] := by
  constructor
  · rintro ⟨params, h⟩
    cases h
    rfl
  · rintro rfl
    exact ⟨[], .nil⟩

theorem matches_literal {text : Bytes} {segments : List Segment} {values : List Bytes} :
    Matches (.literal text :: segments) values ↔
      ∃ rest, values = text :: rest ∧ Matches segments rest := by
  constructor
  · rintro ⟨params, h⟩
    cases h with
    | literal h => exact ⟨_, rfl, _, h⟩
  · rintro ⟨rest, rfl, params, h⟩
    exact ⟨params, .literal h⟩

theorem matches_param {name : Bytes} {segments : List Segment} {values : List Bytes} :
    Matches (.param name :: segments) values ↔
      ∃ value rest, values = value :: rest ∧ Safe value ∧ Matches segments rest := by
  constructor
  · rintro ⟨params, h⟩
    cases h with
    | param hsafe h => exact ⟨_, _, rfl, hsafe, _, h⟩
  · rintro ⟨value, rest, rfl, hsafe, params, h⟩
    exact ⟨_, .param hsafe h⟩

theorem matches_wildcard {name : Bytes} {values : List Bytes} :
    Matches [.wildcard name] values ↔ values ≠ [] ∧ ∀ value ∈ values, Safe value := by
  constructor
  · rintro ⟨params, h⟩
    cases h with
    | wildcard hne hsafe => exact ⟨hne, hsafe⟩
  · rintro ⟨hne, hsafe⟩
    exact ⟨_, .wildcard hne hsafe⟩

theorem segmentsEquivalent_cons (x y : Segment) (s t : List Segment) :
    segmentsEquivalent (x :: s) (y :: t) = (segmentEquivalent x y && segmentsEquivalent s t) := by
  simp only [segmentsEquivalent, List.length_cons, List.zip_cons_cons, List.all_cons,
    Nat.add_left_inj, beq_eq_decide]
  exact Bool.and_left_comm _ _ _

/-- Names play no part in what is matched. -/
theorem Matches.of_equivalent {s t : List Segment} (h : segmentsEquivalent s t = true)
    {values : List Bytes} (hs : Matches s values) : Matches t values := by
  obtain ⟨params, hs⟩ := hs
  induction hs generalizing t with
  | nil =>
    cases t with
    | nil => exact matches_nil.mpr rfl
    | cons y t => cases h
  | literal _ ih =>
    cases t with
    | nil => cases h
    | cons y t =>
      rw [segmentsEquivalent_cons, Bool.and_eq_true] at h
      cases y with
      | literal text =>
        obtain rfl := beq_iff_eq.mp h.1
        exact matches_literal.mpr ⟨_, rfl, ih h.2⟩
      | param name => cases h.1
      | wildcard name => cases h.1
  | param hsafe _ ih =>
    cases t with
    | nil => cases h
    | cons y t =>
      rw [segmentsEquivalent_cons, Bool.and_eq_true] at h
      cases y with
      | literal text => cases h.1
      | param name => exact matches_param.mpr ⟨_, _, rfl, hsafe, ih h.2⟩
      | wildcard name => cases h.1
  | wildcard hne hsafe =>
    cases t with
    | nil => cases h
    | cons y t =>
      rw [segmentsEquivalent_cons, Bool.and_eq_true] at h
      cases y with
      | literal text => cases h.1
      | param name => cases h.1
      | wildcard name =>
        cases t with
        | nil => exact matches_wildcard.mpr ⟨hne, hsafe⟩
        | cons z t => cases h.2

end Shapes

section Separation

structure Usable (segments : List Segment) : Prop where
  literals : ∀ text, .literal text ∈ segments → text ≠ [] ∧ 47 ∉ text ∧ IsText text
  wildcard_last : ∀ segment ∈ segments.dropLast, ∀ name, segment ≠ .wildcard name

def Piece (value : Bytes) : Prop := value ≠ [] ∧ 47 ∉ value ∧ IsText value

theorem Usable.tail {segment : Segment} {segments : List Segment}
    (h : Usable (segment :: segments)) : Usable segments where
  literals := fun text htext => h.literals text (List.mem_cons_of_mem _ htext)
  wildcard_last := by
    cases segments with
    | nil => exact fun _ hmem => nomatch hmem
    | cons next rest => exact fun x hx => h.wildcard_last x (List.mem_cons_of_mem _ hx)

theorem Usable.wildcard_tail {name : Bytes} {segments : List Segment}
    (h : Usable (.wildcard name :: segments)) : segments = [] := by
  cases segments with
  | nil => rfl
  | cons next rest => exact absurd rfl (h.wildcard_last _ List.mem_cons_self name)

theorem exists_filler (text : Bytes) : ∃ value, value ≠ text ∧ Safe value ∧ Piece value := by
  have hpiece : ∀ b : UInt8, b < 128 → b ≠ 47 → Piece [b] := by
    intro b hb hslash
    refine ⟨List.cons_ne_nil _ _, by simpa using hslash.symm, isText_of_ascii ?_⟩
    simpa using hb
  by_cases h : text = [97]
  · exact ⟨[98], by simp [h], (isSafeSegmentValue_iff _).mp (by decide),
      hpiece 98 (by decide) (by decide)⟩
  · exact ⟨[97], Ne.symm h, (isSafeSegmentValue_iff _).mp (by decide),
      hpiece 97 (by decide) (by decide)⟩

/-- Every pattern has a path, with one piece for each of its segments. -/
theorem Usable.exists_matches {segments : List Segment} (h : Usable segments) :
    ∃ values, Matches segments values ∧ ∀ value ∈ values, Piece value := by
  induction segments with
  | nil => exact ⟨[], matches_nil.mpr rfl, by simp⟩
  | cons segment segments ih =>
    obtain ⟨values, hvalues, hpieces⟩ := ih h.tail
    obtain ⟨value, -, hsafe, hpiece⟩ := exists_filler []
    cases segment with
    | literal text =>
      exact ⟨text :: values, matches_literal.mpr ⟨values, rfl, hvalues⟩,
        List.forall_mem_cons.mpr ⟨h.literals text List.mem_cons_self, hpieces⟩⟩
    | param name =>
      exact ⟨value :: values, matches_param.mpr ⟨value, values, rfl, hsafe, hvalues⟩,
        List.forall_mem_cons.mpr ⟨hpiece, hpieces⟩⟩
    | wildcard name =>
      obtain rfl := h.wildcard_tail
      exact ⟨[value], matches_wildcard.mpr ⟨List.cons_ne_nil _ _, by simpa using hsafe⟩,
        by simpa using hpiece⟩

/-- Pieces that one of the two patterns takes and the other does not. -/
def Separated (s t : List Segment) : Prop :=
  ∃ values, (∀ value ∈ values, Piece value) ∧ (Matches s values ↔ ¬ Matches t values)

theorem Separated.symm {s t : List Segment} (h : Separated s t) : Separated t s := by
  obtain ⟨values, hpieces, hiff⟩ := h
  exact ⟨values, hpieces, by tauto⟩

theorem separated_of_matches {s t : List Segment} {values : List Bytes}
    (hpieces : ∀ value ∈ values, Piece value) (hs : Matches s values) (ht : ¬ Matches t values) :
    Separated s t := ⟨values, hpieces, iff_of_true hs ht⟩

theorem separated_nil {segment : Segment} {segments : List Segment} :
    Separated [] (segment :: segments) := by
  refine ⟨[], by simp, iff_of_true (matches_nil.mpr rfl) ?_⟩
  rintro ⟨params, h⟩
  exact h.values_ne_nil (List.cons_ne_nil _ _) rfl

theorem separated_literal {text : Bytes} {x : Segment} {s t : List Segment} (ht : Usable (x :: t))
    (hx : segmentEquivalent (.literal text) x = false) : Separated (x :: t) (.literal text :: s) := by
  obtain ⟨values, hvalues, hpieces⟩ := ht.tail.exists_matches
  obtain ⟨value, hne, hsafe, hpiece⟩ := exists_filler text
  have hother : ∀ (other : Bytes) (rest : List Bytes), other ≠ text →
      ¬ Matches (.literal text :: s) (other :: rest) := by
    intro other rest hne h
    obtain ⟨_, heq, _⟩ := matches_literal.mp h
    exact hne (List.cons.inj heq).1
  cases x with
  | literal other =>
    have hother' : other ≠ text := fun h => by simp [segmentEquivalent, h] at hx
    exact separated_of_matches
      (List.forall_mem_cons.mpr ⟨ht.literals other List.mem_cons_self, hpieces⟩)
      (matches_literal.mpr ⟨values, rfl, hvalues⟩) (hother other values hother')
  | param name =>
    exact separated_of_matches (List.forall_mem_cons.mpr ⟨hpiece, hpieces⟩)
      (matches_param.mpr ⟨value, values, rfl, hsafe, hvalues⟩) (hother value values hne)
  | wildcard name =>
    obtain rfl := ht.wildcard_tail
    have hmatch : Matches [.wildcard name] [value] :=
      matches_wildcard.mpr ⟨List.cons_ne_nil _ _, by simpa using hsafe⟩
    exact separated_of_matches (by simpa using hpiece) hmatch (hother value [] hne)

/-- A wildcard takes one piece and takes two; a parameter with what follows it takes not both. -/
theorem separated_wildcard (name other : Bytes) (s : List Segment) :
    Separated [.wildcard name] (.param other :: s) := by
  obtain ⟨value, -, hsafe, hpiece⟩ := exists_filler []
  have hone : Matches [.wildcard name] [value] :=
    matches_wildcard.mpr ⟨List.cons_ne_nil _ _, by simpa using hsafe⟩
  have htwo : Matches [.wildcard name] [value, value] :=
    matches_wildcard.mpr ⟨List.cons_ne_nil _ _, by simpa using hsafe⟩
  cases s with
  | nil =>
    refine separated_of_matches (by simpa using hpiece) htwo fun h => ?_
    obtain ⟨_, rest, heq, _, hrest⟩ := matches_param.mp h
    rw [matches_nil.mp hrest] at heq
    exact absurd (congrArg List.length heq) (by simp)
  | cons next s =>
    refine separated_of_matches (by simpa using hpiece) hone fun h => ?_
    obtain ⟨_, rest, heq, _, params, hrest⟩ := matches_param.mp h
    exact hrest.values_ne_nil (List.cons_ne_nil _ _) (List.cons.inj heq).2.symm

theorem Separated.cons {x y : Segment} {s t : List Segment} (h : Separated s t) {value : Bytes}
    (hpiece : Piece value) (hx : ∀ values, Matches (x :: s) (value :: values) ↔ Matches s values)
    (hy : ∀ values, Matches (y :: t) (value :: values) ↔ Matches t values) :
    Separated (x :: s) (y :: t) := by
  obtain ⟨values, hpieces, hiff⟩ := h
  refine ⟨value :: values, List.forall_mem_cons.mpr ⟨hpiece, hpieces⟩, ?_⟩
  rw [hx, hy]
  exact hiff

theorem exists_separated {s t : List Segment} (hs : Usable s) (ht : Usable t)
    (h : segmentsEquivalent s t = false) : Separated s t := by
  induction s generalizing t with
  | nil =>
    cases t with
    | nil => cases h
    | cons y t => exact separated_nil
  | cons x s ih =>
    cases t with
    | nil => exact separated_nil.symm
    | cons y t =>
      rw [segmentsEquivalent_cons, Bool.and_eq_false_iff] at h
      have ih := @ih t hs.tail ht.tail
      cases x with
      | literal text =>
        cases hxy : segmentEquivalent (.literal text) y with
        | false => exact (separated_literal ht hxy).symm
        | true =>
          cases y with
          | literal other =>
            obtain rfl := beq_iff_eq.mp hxy
            have hcons : ∀ (u : List Segment) (values : List Bytes),
                Matches (.literal text :: u) (text :: values) ↔ Matches u values := by
              intro u values
              simp [matches_literal]
            exact (ih (h.resolve_left (by simp [hxy]))).cons (hs.literals text List.mem_cons_self)
              (hcons s) (hcons t)
          | param name => cases hxy
          | wildcard name => cases hxy
      | param name =>
        cases y with
        | literal text => exact separated_literal hs rfl
        | param other =>
          obtain ⟨value, -, hsafe, hpiece⟩ := exists_filler []
          have hcons : ∀ (n : Bytes) (u : List Segment) (values : List Bytes),
              Matches (.param n :: u) (value :: values) ↔ Matches u values := by
            intro n u values
            simp [matches_param, hsafe]
          exact (ih (h.resolve_left nofun)).cons hpiece (hcons name s) (hcons other t)
        | wildcard other =>
          obtain rfl := ht.wildcard_tail
          exact (separated_wildcard other name s).symm
      | wildcard name =>
        obtain rfl := hs.wildcard_tail
        cases y with
        | literal text => exact separated_literal hs rfl
        | param other => exact separated_wildcard name other t
        | wildcard other =>
          obtain rfl := ht.wildcard_tail
          exact absurd h (by simp [segmentEquivalent, segmentsEquivalent])

end Separation

section Paths

theorem isText_renderSegment {segments : List Segment} (h : IsText (renderSegments segments)) :
    ∀ segment ∈ segments, IsText (renderSegment segment) := by
  induction segments with
  | nil => simp
  | cons segment segments ih =>
    have hrest : IsText (renderSegment segment ++ renderSegments segments) :=
      (@IsText.cut [] _ 47 (by decide) h).2
    cases segments with
    | nil =>
      rw [List.forall_mem_singleton]
      rwa [renderSegments, List.flatMap_nil, List.append_nil] at hrest
    | cons next segments =>
      obtain ⟨hhead, htail⟩ := IsText.cut (by decide : (47 : UInt8) < 128) hrest
      have hslash : IsText [47] := isText_of_all (by decide)
      have hrest := hslash.append htail
      exact List.forall_mem_cons.mpr ⟨hhead, ih hrest⟩

theorem usable_of_parsePattern {pattern : Bytes} {segments : List Segment} (htext : IsText pattern)
    (h : parsePattern pattern = .ok segments) : Usable segments ∧ segments ≠ [] := by
  obtain ⟨hwf, rfl⟩ := (parsePattern_eq_ok_iff pattern segments).mp h
  refine ⟨⟨fun text hmem => ?_, hwf.wildcard_last⟩, hwf.ne_nil⟩
  have hallowed := hwf.allowed _ hmem
  exact ⟨hallowed.1, hallowed.2.1, isText_renderSegment htext _ hmem⟩

/-- `match_segments` on the segments of a path. -/
def matchesPath (segments : List Segment) (path : Bytes) : Bool :=
  ((requestTargetSegments path).bind fun values => matchSegments segments values path).isSome

theorem matchesPath_iff {path : Bytes} {values : List Bytes}
    (h : requestTargetSegments path = some values) (segments : List Segment) :
    matchesPath segments path = true ↔ Matches segments values := by
  rw [matchesPath, h, Option.bind_some, Option.isSome_iff_exists]
  exact exists_congr fun params => matchSegments_eq_some_iff h segments params

theorem isText_pieces {values : List Bytes} (h : ∀ value ∈ values, Piece value) :
    IsText (values.flatMap (47 :: ·)) := by
  induction values with
  | nil => exact isText_nil
  | cons value values ih =>
    rw [List.forall_mem_cons] at h
    have hslash : IsText [47] := isText_of_all (by decide)
    exact (hslash.append h.1.2.2).append (ih h.2)

theorem requestTargetSegments_pieces {values : List Bytes} (hne : values ≠ [])
    (h : ∀ value ∈ values, Piece value) :
    requestTargetSegments (values.flatMap (47 :: ·)) = some values := by
  have hjoin : join [47] values ≠ [] := by
    obtain ⟨value, rest, rfl⟩ := List.exists_cons_of_ne_nil hne
    have hvalue := (h value List.mem_cons_self).1
    cases rest with
    | nil => exact hvalue
    | cons next rest => simp [join]
  have hsplit : (join [47] values).splitOn 47 = values := by
    rw [join_eq_intercalate]
    exact List.splitOn_intercalate 47 (fun value hvalue => (h value hvalue).2.1) hne
  rw [← cons_join_eq_flatMap hne, requestTargetSegments, if_neg hjoin, hsplit]

/-- The paths, as texts that begin with a slash, on which two patterns agree. -/
def SamePaths (s t : List Segment) : Prop :=
  ∀ path, IsText path → path.head? = some 47 → (matchesPath s path = true ↔ matchesPath t path = true)

theorem segmentsEquivalent_iff {p q : Bytes} {s t : List Segment} (hp : IsText p) (hq : IsText q)
    (hs : parsePattern p = .ok s) (ht : parsePattern q = .ok t) :
    segmentsEquivalent s t = true ↔ SamePaths s t := by
  constructor
  · intro h path _ hslash
    obtain ⟨stripped, rfl⟩ := List.head?_eq_some_iff.mp hslash
    obtain ⟨values, hvalues, -⟩ := requestTargetSegments_slash stripped
    rw [matchesPath_iff hvalues, matchesPath_iff hvalues]
    exact ⟨.of_equivalent h, .of_equivalent (segmentsEquivalent_comm s t ▸ h)⟩
  · intro h
    by_contra hnot
    obtain ⟨hs, hsne⟩ := usable_of_parsePattern hp hs
    obtain ⟨ht, htne⟩ := usable_of_parsePattern hq ht
    obtain ⟨values, hpieces, hiff⟩ := exists_separated hs ht (by simpa using hnot)
    have hne : values ≠ [] := by
      by_cases hmatch : Matches s values
      · obtain ⟨params, hmatch⟩ := hmatch
        exact hmatch.values_ne_nil hsne
      · obtain ⟨params, hmatch⟩ := not_not.mp (mt hiff.mpr hmatch)
        exact hmatch.values_ne_nil htne
    have hvalues := requestTargetSegments_pieces hne hpieces
    have hsame := h _ (isText_pieces hpieces) (by
      rw [← cons_join_eq_flatMap hne]
      rfl)
    rw [matchesPath_iff hvalues, matchesPath_iff hvalues, hiff] at hsame
    tauto

end Paths

section Merging
variable {TypeId : Type} {E : TypeId → Type} {F : Type} {ready : Response → F}

def TextPatterns (ready : Response → F) (calls : List (Registration E F)) : Prop :=
  ∀ call ∈ calls, ∀ p, call.param? ready = some p → IsText p.2.1

theorem exists_pattern {calls : List (Registration E F)} {r : Router E F}
    (h : Represents ready calls r) (htext : TextPatterns ready calls) :
    ∀ route ∈ r.paramRoutes, ∃ p, IsText p ∧ parsePattern p = .ok route.segments := by
  have hps : ∀ p ∈ calls.filterMap (Registration.param? ready), IsText p.2.1 := by
    intro p hp
    obtain ⟨call, hcall, hp⟩ := List.mem_filterMap.mp hp
    exact htext call hcall p hp
  have hparams := h.params
  generalize calls.filterMap (Registration.param? ready) = ps at hparams hps
  generalize r.paramRoutes = routes at hparams
  induction hparams with
  | nil => simp
  | cons hp _ ih =>
    rw [List.forall_mem_cons] at hps ⊢
    exact ⟨⟨_, hps.1, hp.2.1⟩, ih hps.2⟩

/-- Equivalence is agreement on every path, so that routers which merge never share the paths of
two routes of one method. -/
theorem segmentsEquivalent_decides (ready : Response → F) :
    (∀ (p q : Bytes) (s t : List Segment), IsText p → IsText q → parsePattern p = .ok s →
      parsePattern q = .ok t → (segmentsEquivalent s t = true ↔ SamePaths s t)) ∧
    ∀ (ca cb : List (Registration E F)) (a b c : Router E F) (order : IterationOrder),
      Built ready ca a → Built ready cb b → TextPatterns ready ca → TextPatterns ready cb →
      a.merge order b = .ok c → ∀ x ∈ a.paramRoutes, ∀ y ∈ b.paramRoutes, x.method = y.method →
        ¬ SamePaths x.segments y.segments := by
  refine ⟨fun p q s t hp hq hs ht => segmentsEquivalent_iff hp hq hs ht, ?_⟩
  intro ca cb a b c order ha hb hca hcb hmerge x hx y hy hmethod hsame
  obtain ⟨p, hp, hs⟩ := exists_pattern ha.represents hca x hx
  obtain ⟨q, hq, ht⟩ := exists_pattern hb.represents hcb y hy
  have hcompatible := ((merge_eq_ok_iff order).mp hmerge).1
  exact hcompatible.params x hx y hy ⟨hmethod, (segmentsEquivalent_iff hp hq hs ht).mpr hsame⟩

theorem segmentsEquivalent_decides_wildcard :
    segmentsEquivalent [.literal (ascii "a"), .param (ascii "x")]
      [.literal (ascii "a"), .wildcard (ascii "x")] = true ↔
    SamePaths [.literal (ascii "a"), .param (ascii "x")]
      [.literal (ascii "a"), .wildcard (ascii "x")] := by
  have hdecides := @segmentsEquivalent_decides Unit (fun _ => Unit) Response id
  exact hdecides.1 (ascii "/a/{x}") (ascii "/a/{*x}") _ _ (isText_of_all (by decide))
    (isText_of_all (by decide)) (by decide) (by decide)

end Merging

end FandheBackend.RoutesPatternOverlap
