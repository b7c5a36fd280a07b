import FandheBackend.HttpResponseUnions

set_option autoImplicit false

namespace FandheBackend.PluginHeaders
open StdBytes HttpRequestHead HttpResponse HttpCookie HttpResponseUnions

/-- The header, if `with_header` takes it. -/
def offered (name value : Bytes) : List ExtraHeader :=
  if h : isToken name = true ∧ value.any isForbiddenInValue = false ∧ isReserved name = false then
    [⟨name, value, h.1, h.2.1, h.2.2⟩]
  else []

def varyNames (r : Response) : List Bytes := (varyLines r).flatMap listMembers

/-- The line that `with_vary` adds, if it adds one. -/
def varyOffered (r : Response) (fieldName : Bytes) : List ExtraHeader :=
  if listed (varyNames r) fieldName then [] else offered (ascii "Vary") fieldName

theorem withHeader_getD (r : Response) (name value : Bytes) :
    (r.withHeader name value).toOption.getD r = Response.appended r (offered name value) := by
  unfold Response.withHeader
  by_cases hname : isToken name = false
  · rw [dif_pos hname, offered, dif_neg (by simp [hname])]
    exact (appended_nil r).symm
  rw [dif_neg hname]
  by_cases hvalue : value.any isForbiddenInValue = true
  · rw [dif_pos hvalue, offered, dif_neg (by simp [hvalue])]
    exact (appended_nil r).symm
  rw [dif_neg hvalue]
  by_cases hreserved : isReserved name = true
  · rw [dif_pos hreserved, offered, dif_neg (by simp [hreserved])]
    exact (appended_nil r).symm
  rw [Bool.not_eq_true] at hvalue hreserved
  rw [Bool.not_eq_false] at hname
  rw [dif_neg (by simp [hreserved]), offered, dif_pos ⟨hname, hvalue, hreserved⟩]
  rfl

theorem withVary_getD (r : Response) {fieldName : Bytes} (h : isToken fieldName = true) :
    (r.withVary fieldName).toOption.getD r = Response.appended r (varyOffered r fieldName) := by
  rw [withVary_token r h, varyOffered, ← varyNames]
  split_ifs
  · exact (appended_nil r).symm
  · exact withHeader_getD r (ascii "Vary") fieldName

section Values

def valuesOf (field : Bytes) (hs : List ExtraHeader) : List Bytes :=
  (hs.filter fun h => eqIgnoreAsciiCase h.name field).map ExtraHeader.value

theorem linesOf_eq_append (field : Bytes) (r : Response) (hs : List ExtraHeader) :
    linesOf field (Response.appended r hs) = linesOf field r ++ valuesOf field hs := by
  rw [linesOf, Response.appended, List.filter_append, List.map_append]
  rfl

@[simp] theorem valuesOf_nil (field : Bytes) : valuesOf field [] = [] := rfl

@[simp] theorem valuesOf_append (field : Bytes) (hs hs' : List ExtraHeader) :
    valuesOf field (hs ++ hs') = valuesOf field hs ++ valuesOf field hs' := by
  rw [valuesOf, List.filter_append, List.map_append]
  rfl

theorem valuesOf_offered_other {field name : Bytes} (h : eqIgnoreAsciiCase name field = false)
    (value : Bytes) : valuesOf field (offered name value) = [] := by
  unfold offered
  split_ifs
  · rw [valuesOf, List.filter_cons_of_neg (by simp [h])]
    rfl
  · rfl

theorem valuesOf_offered {field name : Bytes} (h : eqIgnoreAsciiCase name field = true)
    (htoken : isToken name = true) (hreserved : isReserved name = false) {value : Bytes}
    (hvalue : value.any isForbiddenInValue = false) :
    valuesOf field (offered name value) = [value] := by
  rw [offered, dif_pos ⟨htoken, hvalue, hreserved⟩, valuesOf, List.filter_cons_of_pos (by simp [h])]
  rfl

theorem valuesOf_varyOffered {field : Bytes} (h : eqIgnoreAsciiCase (ascii "Vary") field = false)
    (r : Response) (fieldName : Bytes) : valuesOf field (varyOffered r fieldName) = [] := by
  unfold varyOffered
  split_ifs
  · rfl
  · exact valuesOf_offered_other h fieldName

/-- A `Vary` line has the field among its names, or `*`. -/
def VariesBy (field : Bytes) (r : Response) : Prop := listed (varyNames r) field = true

instance (field : Bytes) : DecidablePred (VariesBy field) :=
  fun r => inferInstanceAs (Decidable (listed (varyNames r) field = true))

theorem VariesBy.appended {r : Response} {field : Bytes} (h : VariesBy field r)
    (hs : List ExtraHeader) : VariesBy field (Response.appended r hs) := by
  rw [VariesBy] at h
  rw [VariesBy, varyNames, varyLines, linesOf_eq_append, List.flatMap_append, listed, List.any_append,
    ← listed, ← varyLines, ← varyNames, h, Bool.true_or]

theorem variesBy_varyOffered (r : Response) {fieldName : Bytes} (h : isToken fieldName = true) :
    VariesBy fieldName (Response.appended r (varyOffered r fieldName)) := by
  unfold varyOffered
  split_ifs with hlisted
  · exact VariesBy.appended hlisted []
  · have hvalue : fieldName.any isForbiddenInValue = false := token_allowed h
    rw [VariesBy, varyNames, varyLines, linesOf_eq_append,
      valuesOf_offered rfl (by decide) (by decide) hvalue, List.flatMap_append, listed,
      List.any_append]
    have hmembers : listMembers fieldName = [fieldName] :=
      listMembers_eq (.singleton ⟨h, rfl⟩)
    simp [hmembers, eqIgnoreAsciiCase]

theorem names_offered (name value : Bytes) :
    ((offered name value).map ExtraHeader.name).Sublist [name] := by
  unfold offered
  split_ifs
  · exact .refl _
  · exact List.nil_sublist _

theorem names_varyOffered (r : Response) (fieldName : Bytes) :
    ((varyOffered r fieldName).map ExtraHeader.name).Sublist [ascii "Vary"] := by
  unfold varyOffered
  split_ifs
  · exact List.nil_sublist _
  · exact names_offered _ _

end Values

section Heads
variable {TypeId : Type} {E : TypeId → Type}

def otherHeaders (field : Bytes) (head : RequestHead E) : List (Bytes × Bytes) :=
  head.headers.filter fun h => !eqIgnoreAsciiCase h.1 field

/-- The two heads differ in the headers of one name at most. -/
structure SameBut (field : Bytes) (a b : RequestHead E) : Prop where
  method : a.method = b.method
  target : a.target = b.target
  version : a.version = b.version
  headers : otherHeaders field a = otherHeaders field b

theorem header_eq_other {field name : Bytes} (h : eqIgnoreAsciiCase name field = false)
    (head : RequestHead E) : head.header name =
      ((otherHeaders field head).find? fun h => eqIgnoreAsciiCase h.1 name).map Prod.snd := by
  have hheader : head.header name =
      (head.headers.find? fun h => eqIgnoreAsciiCase h.1 name).map Prod.snd := by
    rw [RequestHead.header, RequestHead.headers, List.find?_map, Option.map_map]
    rfl
  rw [hheader, otherHeaders, List.find?_filter]
  congr 2
  funext p
  cases hp : eqIgnoreAsciiCase p.1 name with
  | false => simp
  | true =>
    have hname : eqIgnoreAsciiCase p.1 field = false := by
      rw [eqIgnoreAsciiCase, beq_iff_eq] at hp
      rwa [eqIgnoreAsciiCase, hp]
    simp [hname]

theorem SameBut.header {field : Bytes} {a b : RequestHead E} (h : SameBut field a b) (name : Bytes)
    (hname : eqIgnoreAsciiCase name field = false) : a.header name = b.header name := by
  rw [header_eq_other hname, header_eq_other hname, h.headers]

end Heads

end FandheBackend.PluginHeaders
