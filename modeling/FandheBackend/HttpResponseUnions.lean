import FandheBackend.HttpCacheControl
import Mathlib.Data.List.Forall2
import Mathlib.Data.Set.Insert

set_option autoImplicit false

namespace FandheBackend.HttpResponseUnions
open StdBytes HttpRequestHead HttpResponse HttpCookie HttpCacheControl SeparatedList

section Members

def star : Bytes := ascii "*"

def lowered (m : Bytes) : Bytes := m.map toAsciiLowercase

def memberSet (ms : List Bytes) : Set Bytes := {x | ∃ m ∈ ms, lowered m = x}

/-- The test of `with_vary`. -/
def listed (ms : List Bytes) (name : Bytes) : Bool :=
  ms.any fun m => m == star || eqIgnoreAsciiCase m name

def addMember (ms : List Bytes) (name : Bytes) : List Bytes :=
  if listed ms name then ms else ms ++ [name]

/-- The names of a sequence up to the first `*`, which stands for all that follow. -/
def upToStar : List Bytes → List Bytes
  | [] => []
  | name :: names => if name = star then [star] else name :: upToStar names

theorem upToStar_eq_self {names : List Bytes} (h : star ∉ names) : upToStar names = names := by
  induction names with
  | nil => rfl
  | cons name names ih =>
    rw [List.mem_cons, not_or] at h
    rw [upToStar, if_neg (Ne.symm h.1), ih h.2]

theorem lowered_eq_star {m : Bytes} : lowered m = star ↔ m = star := by
  have hbyte : ∀ b : UInt8, toAsciiLowercase b = 42 → b = 42 := by
    apply forall_byte
    decide +kernel
  constructor
  · intro h
    obtain ⟨b, hb⟩ : ∃ b, m = [b] := by
      rw [← List.length_eq_one_iff]
      have := congrArg List.length h
      rwa [lowered, List.length_map] at this
    subst hb
    have hb : b = 42 := hbyte b (List.cons.inj h).1
    rw [hb]
    rfl
  · rintro rfl
    rfl

theorem listed_iff {ms : List Bytes} {name : Bytes} :
    listed ms name = true ↔ star ∈ ms ∨ lowered name ∈ memberSet ms := by
  simp only [listed, List.any_eq_true, Bool.or_eq_true, beq_iff_eq, eqIgnoreAsciiCase, memberSet,
    Set.mem_ofPred_eq]
  constructor
  · rintro ⟨m, hm, rfl | heq⟩
    · exact .inl hm
    · exact .inr ⟨m, hm, heq⟩
  · rintro (hstar | ⟨m, hm, heq⟩)
    · exact ⟨star, hstar, .inl rfl⟩
    · exact ⟨m, hm, .inr heq⟩

theorem addMember_of_star {ms : List Bytes} (h : star ∈ ms) (name : Bytes) :
    addMember ms name = ms := by
  rw [addMember, if_pos (listed_iff.mpr (.inl h))]

theorem memberSet_append (ms : List Bytes) (name : Bytes) :
    memberSet (ms ++ [name]) = insert (lowered name) (memberSet ms) := by
  ext x
  simp only [memberSet, List.mem_append, List.mem_singleton, Set.mem_ofPred_eq, Set.mem_insert_iff]
  constructor
  · rintro ⟨m, hm | rfl, rfl⟩
    · exact .inr ⟨m, hm, rfl⟩
    · exact .inl rfl
  · rintro (rfl | ⟨m, hm, rfl⟩)
    · exact ⟨name, .inr rfl, rfl⟩
    · exact ⟨m, .inl hm, rfl⟩

theorem memberSet_addMember {ms : List Bytes} (h : star ∉ ms) (name : Bytes) :
    memberSet (addMember ms name) = insert (lowered name) (memberSet ms) := by
  unfold addMember
  split_ifs with hlisted
  · have hmem := (listed_iff.mp hlisted).resolve_left h
    exact (Set.insert_eq_of_mem hmem).symm
  · exact memberSet_append ms name

theorem mem_addMember (ms : List Bytes) (name : Bytes) :
    star ∈ addMember ms name ↔ star ∈ ms ∨ name = star := by
  unfold addMember
  split_ifs with hlisted
  · refine ⟨.inl, fun h => h.elim id ?_⟩
    rintro rfl
    rcases listed_iff.mp hlisted with hstar | ⟨m, hm, heq⟩
    · exact hstar
    · rw [lowered_eq_star.mp heq] at hm
      exact hm
  · rw [List.mem_append, List.mem_singleton, eq_comm (a := star)]

theorem listed_addMember (ms : List Bytes) (name : Bytes) : listed (addMember ms name) name = true := by
  unfold addMember
  split_ifs with hlisted
  · exact hlisted
  · rw [listed_iff, memberSet_append]
    exact .inr (Set.mem_insert _ _)

theorem listed_addMember_of_listed {ms : List Bytes} {name : Bytes} (h : listed ms name = true)
    (other : Bytes) : listed (addMember ms other) name = true := by
  unfold addMember
  split_ifs
  · exact h
  · rw [listed, List.any_append, ← listed, h, Bool.true_or]

theorem foldl_addMember_of_star {ms : List Bytes} (h : star ∈ ms) (names : List Bytes) :
    names.foldl addMember ms = ms := by
  induction names with
  | nil => rfl
  | cons name names ih => rw [List.foldl_cons, addMember_of_star h, ih]

theorem memberSet_cons (name : Bytes) (names : List Bytes) :
    memberSet (name :: names) = insert (lowered name) (memberSet names) := by
  ext x
  simp only [memberSet, List.mem_cons, Set.mem_ofPred_eq, Set.mem_insert_iff, exists_eq_or_imp,
    eq_comm (a := x)]

theorem memberSet_nil : memberSet [] = ∅ := by
  ext x
  simp [memberSet]

theorem memberSet_foldl {ms : List Bytes} (h : star ∉ ms) (names : List Bytes) :
    memberSet (names.foldl addMember ms) = memberSet ms ∪ memberSet (upToStar names) := by
  induction names generalizing ms with
  | nil => rw [upToStar, memberSet_nil, Set.union_empty, List.foldl_nil]
  | cons name names ih =>
    rw [List.foldl_cons, upToStar]
    split_ifs with hstar
    · have hmem : star ∈ addMember ms name := (mem_addMember ms name).mpr (.inr hstar)
      rw [foldl_addMember_of_star hmem, memberSet_addMember h, memberSet_cons, hstar, memberSet_nil,
        Set.union_insert, Set.union_empty]
    · have hmem : star ∉ addMember ms name := by
        rw [mem_addMember, not_or]
        exact ⟨h, hstar⟩
      rw [ih hmem, memberSet_addMember h, memberSet_cons, Set.insert_union, Set.union_insert]

theorem mem_foldl_addMember (ms names : List Bytes) :
    star ∈ names.foldl addMember ms ↔ star ∈ ms ∨ star ∈ names := by
  induction names generalizing ms with
  | nil => simp
  | cons name names ih =>
    rw [List.foldl_cons, ih, mem_addMember, List.mem_cons, eq_comm (a := star), or_assoc]

theorem listed_foldl {ms names : List Bytes} {name : Bytes}
    (h : listed ms name = true ∨ name ∈ names) : listed (names.foldl addMember ms) name = true := by
  induction names generalizing ms with
  | nil => exact h.resolve_right List.not_mem_nil
  | cons other names ih =>
    apply ih
    rcases h with h | h
    · exact .inl (listed_addMember_of_listed h other)
    · rcases List.mem_cons.mp h with rfl | h
      · exact .inl (listed_addMember ms name)
      · exact .inr h

end Members

section Lines

def linesOf (field : Bytes) (r : Response) : List Bytes :=
  (r.extraHeaders.filter fun h => eqIgnoreAsciiCase h.name field).map ExtraHeader.value

def varyLines (r : Response) : List Bytes := linesOf (ascii "vary") r

def cacheControlLines (r : Response) : List Bytes := linesOf (ascii "cache-control") r

abbrev FieldNames : List Bytes → Bytes → Prop :=
  Separated isOws (fun m text => isToken m = true ∧ text = m) 44

def Reads {α : Type} (Line : List α → Bytes → Prop) (as : List α) (lines : List Bytes) : Prop :=
  ∃ ass, List.Forall₂ Line ass lines ∧ as = ass.flatten

theorem Reads.append {α : Type} {Line : List α → Bytes → Prop} {as bs : List α} {lines : List Bytes}
    {line : Bytes} (h : Reads Line as lines) (hline : Line bs line) :
    Reads Line (as ++ bs) (lines ++ [line]) := by
  obtain ⟨ass, hlines, rfl⟩ := h
  exact ⟨ass ++ [bs], List.rel_append hlines (.cons hline .nil), by simp⟩

theorem Reads.flatMap {α β : Type} {Line : List α → Bytes → Prop} {as : List α}
    {lines : List Bytes} (h : Reads Line as lines) {f : Bytes → List β} {g : α → β}
    (hline : ∀ as line, Line as line → f line = as.map g) : lines.flatMap f = as.map g := by
  obtain ⟨ass, hlines, rfl⟩ := h
  induction hlines with
  | nil => rfl
  | cons h _ ih => rw [List.flatMap_cons, hline _ _ h, ih, List.flatten_cons, List.map_append]

structure Lists (r : Response) (ms : List Bytes) (ds : List Directive) : Prop where
  vary : Reads FieldNames ms (varyLines r)
  cacheControl : Reads CacheControl ds (cacheControlLines r)

theorem listMembers_eq {ms : List Bytes} {value : Bytes} (h : FieldNames ms value) :
    listMembers value = ms := by
  have hsplit := h.split (f := id) (by decide) (by
    rintro m _ ⟨htoken, rfl⟩
    obtain ⟨hne, hplain⟩ := token_plain htoken
    exact ⟨rfl, hne, fun hmem => (hplain 44 hmem).2.1 rfl, fun b hb => (hplain b hb).2.2.2⟩)
  rwa [List.map_id] at hsplit

theorem Lists.members {r : Response} {ms : List Bytes} {ds : List Directive} (h : Lists r ms ds) :
    (varyLines r).flatMap listMembers = ms := by
  have hmembers := h.vary.flatMap (f := listMembers) (g := id) fun as line hline => by
    rw [listMembers_eq hline, List.map_id]
  rwa [List.map_id] at hmembers

theorem Lists.names {r : Response} {ms : List Bytes} {ds : List Directive} (h : Lists r ms ds) :
    (cacheControlLines r).flatMap directiveNames = ds.map Directive.name :=
  h.cacheControl.flatMap fun _ _ hline => directiveNames_eq hline

end Lines

section Calls

inductive Call where
  | vary (fieldName : Bytes)
  | noStore
  deriving DecidableEq

def Call.run (r : Response) : Call → Except HeaderError Response
  | vary fieldName => r.withVary fieldName
  | noStore => .ok r.withNoStore

/-- A name that the check of `with_vary` lets through; `*` is one. -/
def Call.Valid : Call → Prop
  | vary fieldName => isToken fieldName = true
  | noStore => True

instance : DecidablePred Call.Valid
  | .vary fieldName => inferInstanceAs (Decidable (isToken fieldName = true))
  | .noStore => inferInstanceAs (Decidable True)

def runCalls (r : Response) (calls : List Call) : Except HeaderError Response :=
  calls.foldlM Call.run r

def noStoreDirective : Directive := ⟨ascii "no-store", none⟩

def isNoStore (d : Directive) : Bool := eqIgnoreAsciiCase d.name (ascii "no-store")

def addNoStore (ds : List Directive) : List Directive :=
  if ds.any isNoStore then ds else ds ++ [noStoreDirective]

def Call.members (ms : List Bytes) : Call → List Bytes
  | vary fieldName => addMember ms fieldName
  | noStore => ms

def Call.directives (ds : List Directive) : Call → List Directive
  | vary _ => ds
  | noStore => addNoStore ds

def Response.appended (r : Response) (hs : List ExtraHeader) : Response :=
  { r with extraHeaders := r.extraHeaders ++ hs }

theorem appended_nil (r : Response) : Response.appended r [] = r := by
  rw [Response.appended, List.append_nil]

theorem appended_appended (r : Response) (hs hs' : List ExtraHeader) :
    Response.appended (Response.appended r hs) hs' = Response.appended r (hs ++ hs') := by
  rw [Response.appended, Response.appended, Response.appended, List.append_assoc]

theorem linesOf_appended (field : Bytes) (r : Response) (h : ExtraHeader) :
    linesOf field (Response.appended r [h]) =
      linesOf field r ++ if eqIgnoreAsciiCase h.name field then [h.value] else [] := by
  rw [linesOf, Response.appended, List.filter_append, List.map_append, ← linesOf,
    List.filter_singleton]
  cases eqIgnoreAsciiCase h.name field <;> rfl

def varyHeader (name : Bytes) (h : isToken name = true) : ExtraHeader :=
  ⟨ascii "Vary", name, by decide, token_allowed h, by decide⟩

theorem withVary_token (r : Response) {name : Bytes} (hname : isToken name = true) :
    r.withVary name =
      if listed ((varyLines r).flatMap listMembers) name then .ok r
      else r.withHeader (ascii "Vary") name := by
  have hvalid : (!(name == ascii "*") && (name.isEmpty || !name.all isTchar)) = false := by
    rw [isToken, Bool.and_eq_true, Bool.not_eq_true'] at hname
    rw [hname.1, hname.2]
    simp
  have hmembers : ((r.extraHeaders.filter fun h => eqIgnoreAsciiCase h.name (ascii "vary")).flatMap
      fun h => listMembers h.value) = (varyLines r).flatMap listMembers := by
    rw [varyLines, linesOf, List.flatMap_map]
  unfold Response.withVary
  simp only [hvalid, Bool.false_eq_true, if_false, hmembers]
  rfl

theorem withVary_eq {r : Response} {ms : List Bytes} {ds : List Directive} (h : Lists r ms ds)
    {name : Bytes} (hname : isToken name = true) :
    r.withVary name =
      .ok (if listed ms name then r else Response.appended r [varyHeader name hname]) := by
  rw [withVary_token r hname, h.members]
  split_ifs with hlisted
  · rfl
  · have hv : name.any isForbiddenInValue = false := token_allowed hname
    rw [Response.withHeader, dif_neg (by decide), dif_neg (by simp [hv]), dif_neg (by decide)]
    rfl

theorem isToken_cacheControl : isToken (ascii "Cache-Control") = true := by decide

theorem noStore_allowed : (ascii "no-store").any isForbiddenInValue = false := by decide

theorem cacheControl_not_reserved : isReserved (ascii "Cache-Control") = false := by decide

def noStoreHeader : ExtraHeader :=
  ⟨ascii "Cache-Control", ascii "no-store", isToken_cacheControl, noStore_allowed,
    cacheControl_not_reserved⟩

theorem withNoStore_eq {r : Response} {ms : List Bytes} {ds : List Directive} (h : Lists r ms ds) :
    r.withNoStore = if ds.any isNoStore then r else Response.appended r [noStoreHeader] := by
  have halready : ((r.extraHeaders.filter fun h =>
      eqIgnoreAsciiCase h.name (ascii "cache-control")).any fun h =>
        hasDirective h.value (ascii "no-store")) = ds.any isNoStore := by
    have hnames := congrArg (List.any · (eqIgnoreAsciiCase · (ascii "no-store"))) h.names
    simp only [cacheControlLines, linesOf, List.any_flatMap, List.any_map] at hnames
    rw [← show (ds.any ((fun n => eqIgnoreAsciiCase n (ascii "no-store")) ∘ Directive.name)) =
      ds.any isNoStore from rfl, ← hnames]
    congr 1
    funext h
    exact hasDirective_eq_any h.value (by decide)
  unfold Response.withNoStore
  simp only [halready]
  cases ds.any isNoStore <;> rfl

/-- A valid call succeeds; it adds a line for what is new, and nothing else. -/
theorem Call.run_lists {r : Response} {ms : List Bytes} {ds : List Directive} (h : Lists r ms ds)
    {call : Call} (hvalid : call.Valid) :
    ∃ added, call.run r = .ok (Response.appended r added) ∧
      Lists (Response.appended r added) (call.members ms) (call.directives ds) ∧
      (call.members ms = ms → call.directives ds = ds → added = []) := by
  cases call with
  | vary name =>
    rw [Call.run, withVary_eq h hvalid, Call.members, addMember]
    split_ifs with hlisted
    · refine ⟨[], ?_, ?_, fun _ _ => rfl⟩
      · rw [appended_nil]
      · rw [appended_nil]
        exact h
    · refine ⟨[varyHeader name hvalid], rfl, ⟨?_, ?_⟩, fun hms => absurd hms (by simp)⟩
      · rw [varyLines, linesOf_appended]
        exact h.vary.append (.singleton ⟨hvalid, rfl⟩)
      · rw [cacheControlLines, linesOf_appended, show eqIgnoreAsciiCase (varyHeader name hvalid).name
          (ascii "cache-control") = false from rfl, if_neg Bool.false_ne_true, List.append_nil]
        exact h.cacheControl
  | noStore =>
    rw [Call.run, withNoStore_eq h, Call.directives, addNoStore]
    split_ifs with hany
    · refine ⟨[], ?_, ?_, fun _ _ => rfl⟩
      · rw [appended_nil]
      · rw [appended_nil]
        exact h
    · refine ⟨[noStoreHeader], rfl, ⟨?_, ?_⟩, fun _ hds => absurd hds (by simp)⟩
      · rw [varyLines, linesOf_appended, show eqIgnoreAsciiCase noStoreHeader.name
          (ascii "vary") = false from rfl, if_neg Bool.false_ne_true, List.append_nil]
        exact h.vary
      · rw [cacheControlLines, linesOf_appended]
        exact h.cacheControl.append (.singleton ⟨by decide, by simp [noStoreDirective], rfl⟩)

def membersAfter (calls : List Call) (ms : List Bytes) : List Bytes := calls.foldl Call.members ms

def directivesAfter (calls : List Call) (ds : List Directive) : List Directive :=
  calls.foldl Call.directives ds

theorem runCalls_lists {calls : List Call} (hvalid : ∀ call ∈ calls, call.Valid) {r : Response}
    {ms : List Bytes} {ds : List Directive} (h : Lists r ms ds) :
    ∃ added, runCalls r calls = .ok (Response.appended r added) ∧
      Lists (Response.appended r added) (membersAfter calls ms) (directivesAfter calls ds) := by
  induction calls generalizing r ms ds with
  | nil =>
    refine ⟨[], ?_, ?_⟩
    · rw [appended_nil]
      rfl
    · rw [appended_nil]
      exact h
  | cons call calls ih =>
    rw [List.forall_mem_cons] at hvalid
    obtain ⟨first, hfirst, hlists, -⟩ := call.run_lists h hvalid.1
    obtain ⟨rest, hrest, hafter⟩ := ih hvalid.2 hlists
    refine ⟨first ++ rest, ?_, ?_⟩
    · rw [runCalls, List.foldlM_cons, hfirst]
      change runCalls (Response.appended r first) calls = _
      rw [hrest, appended_appended]
    · rw [← appended_appended]
      exact hafter

def fieldNames (calls : List Call) : List Bytes :=
  calls.filterMap fun | .vary fieldName => some fieldName | .noStore => none

theorem membersAfter_eq (calls : List Call) (ms : List Bytes) :
    membersAfter calls ms = (fieldNames calls).foldl addMember ms := by
  induction calls generalizing ms with
  | nil => rfl
  | cons call calls ih =>
    cases call with
    | vary name => exact ih (addMember ms name)
    | noStore => exact ih ms

theorem addNoStore_any (ds : List Directive) : (addNoStore ds).any isNoStore = true := by
  unfold addNoStore
  split_ifs with hany
  · exact hany
  · rw [List.any_append, Bool.or_eq_true]
    exact .inr (by decide)

theorem directivesAfter_of_any {ds : List Directive} (h : ds.any isNoStore = true)
    (calls : List Call) : directivesAfter calls ds = ds := by
  induction calls with
  | nil => rfl
  | cons call calls ih =>
    cases call with
    | vary name => exact ih
    | noStore =>
      rw [directivesAfter, List.foldl_cons, Call.directives, addNoStore, if_pos h]
      exact ih

theorem directivesAfter_eq (calls : List Call) (ds : List Directive) :
    directivesAfter calls ds = if .noStore ∈ calls then addNoStore ds else ds := by
  induction calls generalizing ds with
  | nil => rfl
  | cons call calls ih =>
    cases call with
    | vary name =>
      have hmem : Call.noStore ∈ Call.vary name :: calls ↔ .noStore ∈ calls := by simp
      simp only [hmem]
      exact ih ds
    | noStore =>
      rw [if_pos List.mem_cons_self]
      exact directivesAfter_of_any (addNoStore_any ds) calls

theorem run_again {calls : List Call} {call : Call} (hmem : call ∈ calls) (ms : List Bytes)
    (ds : List Directive) : call.members (membersAfter calls ms) = membersAfter calls ms ∧
      call.directives (directivesAfter calls ds) = directivesAfter calls ds := by
  cases call with
  | vary name =>
    refine ⟨?_, rfl⟩
    have hname : name ∈ fieldNames calls := List.mem_filterMap.mpr ⟨_, hmem, rfl⟩
    rw [Call.members, addMember, membersAfter_eq, if_pos (listed_foldl (.inr hname))]
  | noStore =>
    refine ⟨rfl, ?_⟩
    rw [directivesAfter_eq, if_pos hmem, Call.directives, addNoStore, if_pos (addNoStore_any ds)]

end Calls

section Unions

theorem memberSet_perm {ms ms' : List Bytes} (h : ms.Perm ms') : memberSet ms = memberSet ms' := by
  ext x
  simp only [memberSet, Set.mem_ofPred_eq, h.mem_iff]

theorem memberSet_membersAfter {ms : List Bytes} (h : star ∉ ms) (calls : List Call) :
    memberSet (membersAfter calls ms) = memberSet ms ∪ memberSet (upToStar (fieldNames calls)) := by
  rw [membersAfter_eq, memberSet_foldl h]

theorem membersAfter_of_star {ms : List Bytes} (h : star ∈ ms) (calls : List Call) :
    membersAfter calls ms = ms := by
  rw [membersAfter_eq, foldl_addMember_of_star h]

theorem star_mem_membersAfter (calls : List Call) (ms : List Bytes) :
    star ∈ membersAfter calls ms ↔ star ∈ ms ∨ star ∈ fieldNames calls := by
  rw [membersAfter_eq, mem_foldl_addMember]

/-- The order of the calls makes no difference to the set, unless `*` is among the names. -/
theorem membersAfter_perm {calls calls' : List Call} (h : calls'.Perm calls) {ms : List Bytes}
    (hstar : star ∈ ms ∨ star ∉ fieldNames calls) :
    memberSet (membersAfter calls' ms) = memberSet (membersAfter calls ms) := by
  have hnames : (fieldNames calls').Perm (fieldNames calls) := h.filterMap _
  by_cases hms : star ∈ ms
  · rw [membersAfter_of_star hms, membersAfter_of_star hms]
  · have hnone := hstar.resolve_left hms
    have hnone' : star ∉ fieldNames calls' := mt hnames.mem_iff.mp hnone
    rw [memberSet_membersAfter hms, memberSet_membersAfter hms, upToStar_eq_self hnone,
      upToStar_eq_self hnone', memberSet_perm hnames]

theorem countP_names {ds ds' : List Directive}
    (h : ds.map Directive.name = ds'.map Directive.name) :
    ds.countP isNoStore = ds'.countP isNoStore := by
  have hcount := congrArg (List.countP (eqIgnoreAsciiCase · (ascii "no-store"))) h
  rwa [List.countP_map, List.countP_map] at hcount

theorem countP_addNoStore {ds : List Directive} (h : ds.countP isNoStore = 0) :
    (addNoStore ds).countP isNoStore = 1 := by
  have hany : ds.any isNoStore = false := by
    rw [List.countP_eq_zero] at h
    rw [List.any_eq_false]
    exact h
  rw [addNoStore, if_neg (by rw [hany]; exact Bool.false_ne_true), List.countP_append, h]
  decide

theorem Lists.unique {r : Response} {ms ms' : List Bytes} {ds ds' : List Directive}
    (h : Lists r ms ds) (h' : Lists r ms' ds') :
    ms = ms' ∧ ds.countP isNoStore = ds'.countP isNoStore :=
  ⟨h.members.symm.trans h'.members, countP_names (h.names.symm.trans h'.names)⟩

/-- What a sequence of calls makes of the sets, and what another order of it would have made. -/
theorem runCalls_unions :
    (∀ (r : Response) (ms : List Bytes) (ds : List Directive) (calls : List Call),
      Lists r ms ds → (∀ call ∈ calls, call.Valid) →
      ∃ added, runCalls r calls = .ok (Response.appended r added) ∧
        (∃ ms' ds', Lists (Response.appended r added) ms' ds') ∧
        (∀ call ∈ calls, call.run (Response.appended r added) = .ok (Response.appended r added)) ∧
        (∀ ms' ds', Lists (Response.appended r added) ms' ds' →
          (star ∉ ms →
            memberSet ms' = memberSet ms ∪ memberSet (upToStar (fieldNames calls))) ∧
          (star ∉ ms → star ∉ fieldNames calls →
            memberSet ms' = memberSet ms ∪ memberSet (fieldNames calls)) ∧
          (star ∈ ms → memberSet ms' = memberSet ms) ∧
          (.noStore ∈ calls → ds.countP isNoStore = 0 → ds'.countP isNoStore = 1)) ∧
        ∀ calls', calls'.Perm calls → ∃ added', runCalls r calls' = .ok (Response.appended r added') ∧
          ∀ ms' ds' ms'' ds'', Lists (Response.appended r added) ms' ds' →
            Lists (Response.appended r added') ms'' ds'' →
            ((star ∈ ms ∨ star ∉ fieldNames calls) → memberSet ms'' = memberSet ms') ∧
            (star ∈ ms'' ↔ star ∈ ms')) ∧
    ∀ (value name : Bytes) (ds : List Directive), CacheControl ds value → name ≠ [] →
      (hasDirective value name = true ↔ ∃ d ∈ ds, eqIgnoreAsciiCase d.name name = true) := by
  constructor
  · intro r ms ds calls h hvalid
    obtain ⟨added, hrun, hlists⟩ := runCalls_lists hvalid h
    refine ⟨added, hrun, ⟨_, _, hlists⟩, ?_, ?_, ?_⟩
    · intro call hcall
      obtain ⟨again, hagain, -, hsame⟩ := call.run_lists hlists (hvalid call hcall)
      obtain ⟨hms, hds⟩ := run_again hcall ms ds
      rw [hagain, hsame hms hds, appended_nil]
    · intro ms' ds' h'
      obtain ⟨rfl, hcount⟩ := hlists.unique h'
      refine ⟨fun hstar => memberSet_membersAfter hstar calls, fun hstar hnames => ?_, fun hstar => ?_,
        fun hmem hzero => ?_⟩
      · rw [memberSet_membersAfter hstar, upToStar_eq_self hnames]
      · rw [membersAfter_of_star hstar]
      · rw [← hcount, directivesAfter_eq, if_pos hmem, countP_addNoStore hzero]
    · intro calls' hperm
      have hvalid' : ∀ call ∈ calls', call.Valid := fun call hcall =>
        hvalid call (hperm.mem_iff.mp hcall)
      obtain ⟨added', hrun', hlists'⟩ := runCalls_lists hvalid' h
      refine ⟨added', hrun', fun ms' ds' ms'' ds'' hms hms' => ?_⟩
      obtain ⟨rfl, -⟩ := hlists.unique hms
      obtain ⟨rfl, -⟩ := hlists'.unique hms'
      refine ⟨membersAfter_perm hperm, ?_⟩
      have hnames : (fieldNames calls').Perm (fieldNames calls) := hperm.filterMap _
      rw [star_mem_membersAfter, star_mem_membersAfter, hnames.mem_iff]
  · intro value name ds h hname
    rw [hasDirective_eq_any value hname, directiveNames_eq h, List.any_map, List.any_eq_true]
    rfl

theorem lists_empty (status : UInt16) : Lists (Response.empty status) [] [] :=
  ⟨⟨[], .nil, rfl⟩, ⟨[], .nil, rfl⟩⟩

theorem runCalls_unions_login : ∃ added,
    runCalls (Response.empty 200) [.vary (ascii "Cookie"), .noStore, .vary (ascii "cookie")] =
      .ok (Response.appended (Response.empty 200) added) ∧
    ∀ ms' ds', Lists (Response.appended (Response.empty 200) added) ms' ds' →
      memberSet ms' = memberSet [] ∪ memberSet [ascii "Cookie", ascii "cookie"] ∧
      ds'.countP isNoStore = 1 := by
  have hvalid : ∀ call ∈ [Call.vary (ascii "Cookie"), .noStore, .vary (ascii "cookie")],
      call.Valid := by decide
  obtain ⟨added, hrun, -, -, hafter, -⟩ :=
    runCalls_unions.1 (Response.empty 200) [] [] _ (lists_empty 200) hvalid
  refine ⟨added, hrun, fun ms' ds' h' => ?_⟩
  obtain ⟨-, hunion, -, hcount⟩ := hafter ms' ds' h'
  exact ⟨hunion (by simp) (by decide), hcount (by simp) rfl⟩

/-- After `*` no name is added, and before it one is; the scanner finds the empty name where no
directive is. -/
theorem runCalls_star : (∃ r', runCalls (Response.empty 200) [.vary star, .vary (ascii "A")] = .ok r' ∧
      Lists r' [star] [] ∧ memberSet [star] ≠ memberSet [] ∪ memberSet [star, ascii "A"]) ∧
    (∃ r', runCalls (Response.empty 200) [.vary (ascii "A"), .vary star] = .ok r' ∧
      Lists r' [ascii "A", star] [] ∧ memberSet [ascii "A", star] ≠ memberSet [star]) ∧
    CacheControl [] [] ∧ hasDirective [] [] = true := by
  have hmem : ∀ ms : List Bytes, ascii "A" ∈ ms → lowered (ascii "A") ∈ memberSet ms :=
    fun ms h => ⟨_, h, rfl⟩
  have hnot : lowered (ascii "A") ∉ memberSet [star] := by
    rintro ⟨m, hm, heq⟩
    rw [List.mem_singleton.mp hm] at heq
    exact absurd heq (by decide)
  have hvalid : ∀ call ∈ [Call.vary star, .vary (ascii "A")], call.Valid := by decide
  have hvalid' : ∀ call ∈ [Call.vary (ascii "A"), .vary star], call.Valid := by decide
  obtain ⟨added, hrun, hlists⟩ := runCalls_lists hvalid (lists_empty 200)
  obtain ⟨added', hrun', hlists'⟩ := runCalls_lists hvalid' (lists_empty 200)
  refine ⟨⟨_, hrun, hlists, ?_⟩, ⟨_, hrun', hlists', ?_⟩, .last (.absent (by simp)), rfl⟩
  · intro heq
    exact hnot (heq ▸ .inr (hmem _ (by simp)))
  · intro heq
    exact hnot (heq ▸ hmem _ (by simp))

end Unions

end FandheBackend.HttpResponseUnions
