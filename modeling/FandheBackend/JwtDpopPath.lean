import FandheBackend.JwtDpopOrigin

set_option autoImplicit false

namespace FandheBackend.JwtDpopOrigin
open StdBytes

theorem isAsciiHexdigit_toAsciiUppercase (b : UInt8) :
    isAsciiHexdigit (toAsciiUppercase b) = isAsciiHexdigit b := by
  unfold isAsciiHexdigit toAsciiUppercase isAsciiLowercase isAsciiDigit
  grind

theorem toAsciiUppercase_toAsciiUppercase (b : UInt8) :
    toAsciiUppercase (toAsciiUppercase b) = toAsciiUppercase b := by
  unfold toAsciiUppercase isAsciiLowercase
  grind

def PathByte (b : UInt8) : Prop := 0x21 ≤ b ∧ b ≤ 0x7E ∧ b ≠ 92

theorem pathByte_iff (b : UInt8) :
    PathByte b ↔ (b < 0x21 || 0x7E < b || b == 92) = false := by
  simp [PathByte, and_assoc]

theorem normalizeBytes_byte {b : UInt8} (hb : b ≠ 37) (p : Bytes) :
    normalizeBytes (b :: p) =
      if b < 0x21 || 0x7E < b || b == 92 then none else (normalizeBytes p).map (b :: ·) := by
  rw [normalizeBytes.eq_def]
  simp only [hb, ↓reduceIte]

theorem normalizeBytes_escape {b₁ b₂ : UInt8} (hb₁ : isAsciiHexdigit b₁ = true)
    (hb₂ : isAsciiHexdigit b₂ = true) (p : Bytes) :
    normalizeBytes (37 :: b₁ :: b₂ :: p) =
      (normalizeBytes p).map ([37, toAsciiUppercase b₁, toAsciiUppercase b₂] ++ ·) := by
  rw [normalizeBytes]
  simp [hb₁, hb₂]

theorem normalizeBytes_cases {b : UInt8} {p out : Bytes} (h : normalizeBytes (b :: p) = some out) :
    (b ≠ 37 ∧ PathByte b ∧ ∃ rest, normalizeBytes p = some rest ∧ out = b :: rest) ∨
    (∃ b₁ b₂ p', b = 37 ∧ p = b₁ :: b₂ :: p' ∧ isAsciiHexdigit b₁ = true ∧
      isAsciiHexdigit b₂ = true ∧ ∃ rest, normalizeBytes p' = some rest ∧
      out = 37 :: toAsciiUppercase b₁ :: toAsciiUppercase b₂ :: rest) := by
  by_cases hb : b = 37
  · subst hb
    rw [normalizeBytes.eq_def] at h
    simp only [↓reduceIte] at h
    rw [if_neg (by decide)] at h
    split at h
    · next b₁ b₂ p' =>
      split_ifs at h with hhex
      obtain ⟨rest, hrest, rfl⟩ := Option.map_eq_some_iff.mp h
      rw [Bool.and_eq_true] at hhex
      exact .inr ⟨b₁, b₂, p', rfl, rfl, hhex.1, hhex.2, rest, hrest, rfl⟩
    · cases h
  · rw [normalizeBytes_byte hb] at h
    split_ifs at h with hpath
    obtain ⟨rest, hrest, rfl⟩ := Option.map_eq_some_iff.mp h
    exact .inl ⟨hb, (pathByte_iff b).mpr (Bool.eq_false_iff.mpr hpath), rest, hrest, rfl⟩

/-- Equal but for the case of the digits of the escapes. -/
inductive EscapeCase : Bytes → Bytes → Prop
  | nil : EscapeCase [] []
  | byte {b : UInt8} {p q : Bytes} (hb : b ≠ 37) (h : EscapeCase p q) :
      EscapeCase (b :: p) (b :: q)
  | escape {b₁ b₂ c₁ c₂ : UInt8} {p q : Bytes}
      (hb₁ : isAsciiHexdigit b₁ = true) (hb₂ : isAsciiHexdigit b₂ = true)
      (h₁ : toAsciiUppercase b₁ = toAsciiUppercase c₁)
      (h₂ : toAsciiUppercase b₂ = toAsciiUppercase c₂) (h : EscapeCase p q) :
      EscapeCase (37 :: b₁ :: b₂ :: p) (37 :: c₁ :: c₂ :: q)

namespace EscapeCase

section
variable {p q r : Bytes}

theorem hexdigit {b c : UInt8} (hb : isAsciiHexdigit b = true)
    (h : toAsciiUppercase b = toAsciiUppercase c) : isAsciiHexdigit c = true := by
  rw [← isAsciiHexdigit_toAsciiUppercase, ← h, isAsciiHexdigit_toAsciiUppercase]
  exact hb

theorem symm (h : EscapeCase p q) : EscapeCase q p := by
  induction h with
  | nil => exact .nil
  | byte hb _ ih => exact .byte hb ih
  | escape hb₁ hb₂ h₁ h₂ _ ih =>
    exact .escape (hexdigit hb₁ h₁) (hexdigit hb₂ h₂) h₁.symm h₂.symm ih

theorem trans (h : EscapeCase p q) (h' : EscapeCase q r) : EscapeCase p r := by
  induction h generalizing r with
  | nil => exact h'
  | byte hb _ ih =>
    cases h' with
    | byte _ h' => exact .byte hb (ih h')
    | escape => exact absurd rfl hb
  | escape hb₁ hb₂ h₁ h₂ _ ih =>
    cases h' with
    | byte hb _ => exact absurd rfl hb
    | escape _ _ h₁' h₂' h' => exact .escape hb₁ hb₂ (h₁.trans h₁') (h₂.trans h₂') (ih h')

theorem length_eq (h : EscapeCase p q) : p.length = q.length := by
  induction h with
  | nil => rfl
  | byte _ _ ih => exact congrArg (· + 1) ih
  | escape _ _ _ _ _ ih => exact congrArg (· + 3) ih

theorem head_eq (h : EscapeCase p q) : p.head? = q.head? := by
  cases h <;> rfl

theorem mem {b : UInt8} (hb : isAsciiHexdigit b = false) (h : EscapeCase p q) (hp : b ∈ p) :
    b ∈ q := by
  induction h with
  | nil => exact hp
  | byte _ _ ih =>
    rcases List.mem_cons.mp hp with rfl | hp
    · exact List.mem_cons_self
    · exact List.mem_cons_of_mem _ (ih hp)
  | escape hb₁ hb₂ _ _ _ ih =>
    simp only [List.mem_cons] at hp ⊢
    rcases hp with rfl | rfl | rfl | hp
    · exact .inl rfl
    · rw [hb₁] at hb
      cases hb
    · rw [hb₂] at hb
      cases hb
    · exact .inr (.inr (.inr (ih hp)))

theorem normalizeBytes_eq (h : EscapeCase p q) : normalizeBytes p = normalizeBytes q := by
  induction h with
  | nil => rfl
  | byte hb _ ih => rw [normalizeBytes_byte hb, normalizeBytes_byte hb, ih]
  | escape hb₁ hb₂ h₁ h₂ _ ih =>
    rw [normalizeBytes_escape hb₁ hb₂, normalizeBytes_escape (hexdigit hb₁ h₁) (hexdigit hb₂ h₂),
      h₁, h₂, ih]

end

end EscapeCase

section
variable {p q out : Bytes}

/-- Induction along the loop, over what it read and what it wrote. -/
theorem normalizeBytes_induction {motive : Bytes → Bytes → Prop} (nil : motive [] [])
    (byte : ∀ b p out, b ≠ 37 → PathByte b → normalizeBytes p = some out → motive p out →
      motive (b :: p) (b :: out))
    (escape : ∀ b₁ b₂ p out, isAsciiHexdigit b₁ = true → isAsciiHexdigit b₂ = true →
      normalizeBytes p = some out → motive p out →
      motive (37 :: b₁ :: b₂ :: p) (37 :: toAsciiUppercase b₁ :: toAsciiUppercase b₂ :: out))
    (h : normalizeBytes p = some out) : motive p out := by
  induction hn : p.length using Nat.strong_induction_on generalizing p out with
  | _ n ih =>
    cases p with
    | nil =>
      cases h
      exact nil
    | cons b p =>
      rcases normalizeBytes_cases h with ⟨hb, hpath, rest, hrest, rfl⟩ |
        ⟨b₁, b₂, p', rfl, rfl, hb₁, hb₂, rest, hrest, rfl⟩
      · exact byte b p rest hb hpath hrest (ih p.length (by rw [← hn]; simp) hrest rfl)
      · exact escape b₁ b₂ p' rest hb₁ hb₂ hrest (ih p'.length (by rw [← hn]; simp; omega) hrest rfl)

theorem escapeCase_normalizeBytes (h : normalizeBytes p = some out) : EscapeCase p out := by
  refine normalizeBytes_induction .nil (fun b p out hb _ _ ih => .byte hb ih) ?_ h
  intro b₁ b₂ p out hb₁ hb₂ _ ih
  exact .escape hb₁ hb₂ (toAsciiUppercase_toAsciiUppercase _).symm
    (toAsciiUppercase_toAsciiUppercase _).symm ih

theorem normalizeBytes_self (h : normalizeBytes p = some out) : normalizeBytes out = some out :=
  (escapeCase_normalizeBytes h).normalizeBytes_eq.symm.trans h

theorem normalizeBytes_eq_iff (h : normalizeBytes p = some out) :
    normalizeBytes q = some out ↔ EscapeCase p q := by
  constructor
  · intro hq
    exact (escapeCase_normalizeBytes h).trans (escapeCase_normalizeBytes hq).symm
  · intro hcase
    exact hcase.normalizeBytes_eq.symm.trans h

theorem pathByte_of_hexdigit {b : UInt8} (h : isAsciiHexdigit b = true) :
    PathByte (toAsciiUppercase b) := by
  unfold isAsciiHexdigit isAsciiDigit at h
  unfold PathByte toAsciiUppercase isAsciiLowercase
  grind

theorem pathByte_of_normalizeBytes (h : normalizeBytes p = some out) : ∀ b ∈ out, PathByte b := by
  refine normalizeBytes_induction (motive := fun _ out => ∀ b ∈ out, PathByte b) ?_ ?_ ?_ h
  · exact fun _ h => nomatch h
  · intro b p out _ hpath _ ih
    exact List.forall_mem_cons.mpr ⟨hpath, ih⟩
  · intro b₁ b₂ p out hb₁ hb₂ _ ih
    refine List.forall_mem_cons.mpr ⟨⟨by decide, by decide, by decide⟩, ?_⟩
    refine List.forall_mem_cons.mpr ⟨pathByte_of_hexdigit hb₁, ?_⟩
    exact List.forall_mem_cons.mpr ⟨pathByte_of_hexdigit hb₂, ih⟩

theorem upper_of_normalizeBytes (h : normalizeBytes p = some out) :
    ∀ l b₁ b₂ t, out = l ++ 37 :: b₁ :: b₂ :: t → toAsciiUppercase b₂ = b₂ := by
  refine normalizeBytes_induction (motive := fun _ out => ∀ l b₁ b₂ t,
    out = l ++ 37 :: b₁ :: b₂ :: t → toAsciiUppercase b₂ = b₂) ?_ ?_ ?_ h
  · intro l b₁ b₂ t heq
    exact absurd heq (by simp)
  · intro b p out hb _ _ ih l b₁ b₂ t heq
    cases l with
    | nil => exact absurd (List.cons.inj heq).1 hb
    | cons _ l => exact ih l b₁ b₂ t (List.cons.inj heq).2
  · intro c₁ c₂ p out hc₁ hc₂ _ ih l b₁ b₂ t heq
    have hne : ∀ {c : UInt8}, isAsciiHexdigit c = true → toAsciiUppercase c ≠ 37 := by
      intro c hc h37
      rw [← isAsciiHexdigit_toAsciiUppercase, h37] at hc
      cases hc
    rcases l with _ | ⟨x, _ | ⟨y, _ | ⟨z, l⟩⟩⟩
    · simp only [List.nil_append, List.cons.injEq] at heq
      rw [← heq.2.2.1, toAsciiUppercase_toAsciiUppercase]
    · simp only [List.cons_append, List.nil_append, List.cons.injEq] at heq
      exact absurd heq.2.1 (hne hc₁)
    · simp only [List.cons_append, List.nil_append, List.cons.injEq] at heq
      exact absurd heq.2.2.1 (hne hc₂)
    · simp only [List.cons_append, List.cons.injEq] at heq
      exact ih l b₁ b₂ t heq.2.2.2

end

inductive Dot : Bytes → Prop
  | literal : Dot [46]
  | upper : Dot [37, 50, 69]
  | lower : Dot [37, 50, 101]

/-- `.` or `..`, with escapes or without. -/
def DotSegment (seg : Bytes) : Prop := Dot seg ∨ ∃ a b, Dot a ∧ Dot b ∧ seg = a ++ b

theorem infix_intercalate (sep : Bytes) {seg : Bytes} {segs : List Bytes} (h : seg ∈ segs) :
    seg <:+: sep.intercalate segs := by
  induction segs with
  | nil => cases h
  | cons first segs ih =>
    cases segs with
    | nil =>
      rw [List.intercalate_singleton, List.mem_singleton.mp h]
    | cons second segs =>
      rw [List.intercalate_cons_cons]
      rcases List.mem_cons.mp h with rfl | h
      · rw [List.append_assoc]
        exact (List.prefix_append _ _).isInfix
      · exact (ih h).trans (List.suffix_append _ _).isInfix

theorem infix_of_mem_splitOn {seg out : Bytes} (h : seg ∈ out.splitOn 47) : seg <:+: out := by
  have hinfix := infix_intercalate [47] h
  rwa [List.intercalate_splitOn] at hinfix

theorem not_dotSegment {p out : Bytes} (h : normalizeBytes p = some out)
    (hdots : (out.splitOn 47).any isDotSegment = false) {seg : Bytes}
    (hseg : seg ∈ out.splitOn 47) : ¬ DotSegment seg := by
  have hplain : isDotSegment seg = false := by
    simpa using List.any_eq_false.mp hdots seg hseg
  have hlower : ¬ [37, 50, 101] <:+: seg := by
    intro hinfix
    obtain ⟨l, t, heq⟩ := hinfix.trans (infix_of_mem_splitOn hseg)
    have hupper := upper_of_normalizeBytes h l 50 101 t (by rw [← heq]; simp)
    exact absurd hupper (by decide)
  rintro (hdot | ⟨a, b, ha, hb, rfl⟩)
  · cases hdot with
    | lower => exact hlower (List.infix_refl _)
    | _ => exact absurd hplain (by decide)
  · cases ha with
    | lower => exact hlower (List.prefix_append _ _).isInfix
    | _ =>
      cases hb with
      | lower => exact hlower (List.suffix_append _ _).isInfix
      | _ => exact absurd hplain (by decide)

theorem normalizePath_eq_some_iff {path out : Bytes} :
    normalizePath path = some out ↔ (path = [] ∧ out = [47]) ∨
      (path.head? = some 47 ∧ normalizeBytes path = some out ∧
        (out.splitOn 47).any isDotSegment = false) := by
  unfold normalizePath
  by_cases hnil : path = []
  · subst hnil
    rw [if_pos rfl]
    constructor
    · rintro ⟨⟩
      exact .inl ⟨rfl, rfl⟩
    · rintro (⟨-, rfl⟩ | ⟨hhead, -⟩)
      · rfl
      · cases hhead
  · by_cases hhead : path.head? = some 47
    · simp [hnil, hhead, Option.filter_eq_some_iff]
    · simp [hnil, hhead]

section
variable {p q out : Bytes}

theorem normalizePath_head (h : normalizePath p = some out) : out.head? = some 47 := by
  rcases normalizePath_eq_some_iff.mp h with ⟨-, rfl⟩ | ⟨hhead, hbytes, -⟩
  · rfl
  · rw [← (escapeCase_normalizeBytes hbytes).head_eq]
    exact hhead

theorem normalizePath_self (h : normalizePath p = some out) : normalizePath out = some out := by
  rcases normalizePath_eq_some_iff.mp h with ⟨-, rfl⟩ | ⟨-, hbytes, hdots⟩
  · decide
  · exact normalizePath_eq_some_iff.mpr
      (.inr ⟨normalizePath_head h, normalizeBytes_self hbytes, hdots⟩)

/-- What a path can be that has the normal form of another one. -/
theorem normalizePath_eq_iff (h : normalizePath p = some out) (hp : p.head? = some 47) :
    normalizePath q = some out ↔ EscapeCase p q ∨ (q = [] ∧ p = [47]) := by
  have hne : p ≠ [] := by
    rintro rfl
    cases hp
  rcases normalizePath_eq_some_iff.mp h with ⟨hnil, -⟩ | ⟨-, hbytes, hdots⟩
  · exact absurd hnil hne
  rw [normalizePath_eq_some_iff]
  constructor
  · rintro (⟨rfl, rfl⟩ | ⟨-, hq, -⟩)
    · refine .inr ⟨rfl, ?_⟩
      cases escapeCase_normalizeBytes hbytes with
      | byte _ h =>
        cases h
        rfl
    · exact .inl ((normalizeBytes_eq_iff hbytes).mp hq)
  · rintro (hcase | ⟨rfl, rfl⟩)
    · exact .inr ⟨hcase.head_eq ▸ hp, (normalizeBytes_eq_iff hbytes).mpr hcase, hdots⟩
    · cases hbytes
      exact .inl ⟨rfl, rfl⟩

theorem normalizePath_length_le (h : normalizePath p = some out) :
    out.length ≤ p.length ∨ (p = [] ∧ out = [47]) := by
  rcases normalizePath_eq_some_iff.mp h with hnil | ⟨-, hbytes, -⟩
  · exact .inr hnil
  · exact .inl (Nat.le_of_eq (escapeCase_normalizeBytes hbytes).length_eq.symm)

theorem normalizePath_pathByte (h : normalizePath p = some out) : ∀ b ∈ out, PathByte b := by
  rcases normalizePath_eq_some_iff.mp h with ⟨-, rfl⟩ | ⟨-, hbytes, -⟩
  · rintro b hb
    obtain rfl := List.mem_singleton.mp hb
    exact ⟨by decide, by decide, by decide⟩
  · exact pathByte_of_normalizeBytes hbytes

theorem normalizePath_not_dotSegment (h : normalizePath p = some out) :
    ∀ seg ∈ out.splitOn 47, ¬ DotSegment seg := by
  have hself := normalizePath_eq_some_iff.mp (normalizePath_self h)
  rcases hself with ⟨rfl, hfalse⟩ | ⟨-, hbytes, hdots⟩
  · cases hfalse
  · exact fun seg hseg => not_dotSegment hbytes hdots hseg

end

end FandheBackend.JwtDpopOrigin
