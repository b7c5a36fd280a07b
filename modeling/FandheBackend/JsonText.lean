import Mathlib.Tactic.Common

set_option autoImplicit false

namespace FandheBackend.JsonText

inductive Value where
  | null
  | bool (b : Bool)
  | number (numeral : List Char)
  | string (s : List Char)
  | array (elements : List Value)
  | object (members : List (List Char × Value))

section Strings

def hexDigit (c : Char) : Option ℕ :=
  if '0' ≤ c ∧ c ≤ '9' then some (c.toNat - 48)
  else if 'A' ≤ c ∧ c ≤ 'F' then some (c.toNat - 55)
  else if 'a' ≤ c ∧ c ≤ 'f' then some (c.toNat - 87)
  else none

inductive CodeUnit : List Char → ℕ → List Char → Prop
  | mk {a b c d : Char} {i j k l : ℕ} {rest : List Char} : hexDigit a = some i →
      hexDigit b = some j → hexDigit c = some k → hexDigit d = some l →
      CodeUnit (a :: b :: c :: d :: rest) (((i * 16 + j) * 16 + k) * 16 + l) rest

def shortEscape (e : Char) : Option Char :=
  if e = '"' then some '"'
  else if e = '\\' then some '\\'
  else if e = '/' then some '/'
  else if e = 'b' then some '\x08'
  else if e = 'f' then some '\x0c'
  else if e = 'n' then some '\n'
  else if e = 'r' then some '\r'
  else if e = 't' then some '\t'
  else none

inductive CharText : List Char → Char → List Char → Prop
  | unescaped {c : Char} {rest : List Char} : 32 ≤ c.toNat → c ≠ '"' → c ≠ '\\' →
      CharText (c :: rest) c rest
  | short {e c : Char} {rest : List Char} : shortEscape e = some c →
      CharText ('\\' :: e :: rest) c rest
  | unit {t rest : List Char} {c : Char} : CodeUnit t c.toNat rest →
      CharText ('\\' :: 'u' :: t) c rest
  | surrogates {t t' rest : List Char} {c : Char} {hi lo : ℕ} :
      CodeUnit t hi ('\\' :: 'u' :: t') → CodeUnit t' lo rest → 0xD800 ≤ hi → hi < 0xDC00 →
      0xDC00 ≤ lo → lo < 0xE000 → c.toNat = 0x10000 + (hi - 0xD800) * 0x400 + (lo - 0xDC00) →
      CharText ('\\' :: 'u' :: t) c rest

/-- The text of a string after its opening quotation mark. -/
inductive StringText : List Char → List Char → List Char → Prop
  | close {rest : List Char} : StringText ('"' :: rest) [] rest
  | char {t t' rest s : List Char} {c : Char} : CharText t c t' → StringText t' s rest →
      StringText t (c :: s) rest

theorem CodeUnit.unique {t rest rest' : List Char} {n n' : ℕ} (h : CodeUnit t n rest)
    (h' : CodeUnit t n' rest') : n = n' ∧ rest = rest' := by
  cases h with
  | mk ha hb hc hd =>
    cases h' with
    | mk ha' hb' hc' hd' =>
      rw [Option.some.inj (ha.symm.trans ha'), Option.some.inj (hb.symm.trans hb'),
        Option.some.inj (hc.symm.trans hc'), Option.some.inj (hd.symm.trans hd')]
      exact ⟨rfl, rfl⟩

theorem not_surrogate (c : Char) : c.toNat < 0xD800 ∨ 0xE000 ≤ c.toNat := by
  rcases c.valid with h | h
  · exact .inl h
  · exact .inr h.1

theorem shortEscape_u : shortEscape 'u' = none := rfl

theorem CharText.unique {t rest rest' : List Char} {c c' : Char} (h : CharText t c rest)
    (h' : CharText t c' rest') : c = c' ∧ rest = rest' := by
  cases h with
  | unescaped _ _ hne =>
    cases h' with
    | unescaped => exact ⟨rfl, rfl⟩
    | short => exact absurd rfl hne
    | unit => exact absurd rfl hne
    | surrogates => exact absurd rfl hne
  | short he =>
    cases h' with
    | unescaped _ _ hne => exact absurd rfl hne
    | short he' => exact ⟨Option.some.inj (he.symm.trans he'), rfl⟩
    | unit => exact absurd (shortEscape_u.symm.trans he) (by simp)
    | surrogates => exact absurd (shortEscape_u.symm.trans he) (by simp)
  | unit hunit =>
    cases h' with
    | unescaped _ _ hne => exact absurd rfl hne
    | short he => exact absurd (shortEscape_u.symm.trans he) (by simp)
    | unit hunit' =>
      obtain ⟨hn, hrest⟩ := hunit.unique hunit'
      exact ⟨Char.toNat_inj.mp hn, hrest⟩
    | surrogates hhi hlo hle hlt =>
      have hn := (hunit.unique hhi).1
      have := not_surrogate c
      omega
  | surrogates hhi hlo hle hlt _ _ hc =>
    cases h' with
    | unescaped _ _ hne => exact absurd rfl hne
    | short he => exact absurd (shortEscape_u.symm.trans he) (by simp)
    | unit hunit =>
      have hn := (hunit.unique hhi).1
      have := not_surrogate c'
      omega
    | surrogates hhi' hlo' _ _ _ _ hc' =>
      obtain ⟨rfl, ht⟩ := hhi.unique hhi'
      obtain rfl := List.cons.inj (List.cons.inj ht).2 |>.2
      obtain ⟨rfl, rfl⟩ := hlo.unique hlo'
      exact ⟨Char.toNat_inj.mp (hc.trans hc'.symm), rfl⟩

theorem CharText.ne_quote {t rest : List Char} {c d : Char} (h : CharText (d :: t) c rest) :
    d ≠ '"' := by
  cases h with
  | unescaped _ hne => exact hne
  | short => decide
  | unit => decide
  | surrogates => decide

theorem StringText.unique {t s s' rest rest' : List Char} (h : StringText t s rest)
    (h' : StringText t s' rest') : s = s' ∧ rest = rest' := by
  induction h generalizing s' with
  | close =>
    cases h' with
    | close => exact ⟨rfl, rfl⟩
    | char hc => exact absurd rfl hc.ne_quote
  | char hc _ ih =>
    cases h' with
    | close => exact absurd rfl hc.ne_quote
    | char hc' hs' =>
      obtain ⟨rfl, rfl⟩ := hc.unique hc'
      obtain ⟨rfl, rfl⟩ := ih hs'
      exact ⟨rfl, rfl⟩

theorem stringText_plain {s : List Char}
    (h : ∀ c ∈ s, 32 ≤ c.toNat ∧ c ≠ '"' ∧ c ≠ '\\') (rest : List Char) :
    StringText (s ++ '"' :: rest) s rest := by
  induction s with
  | nil => exact .close
  | cons c s ih =>
    rw [List.forall_mem_cons] at h
    exact .char (.unescaped h.1.1 h.1.2.1 h.1.2.2) (ih h.2)

end Strings

section Values

def isWs (c : Char) : Bool := c == ' ' || c == '\t' || c == '\n' || c == '\r'

inductive Ws : List Char → List Char → Prop
  | stop {t : List Char} : Ws t t
  | skip {t rest : List Char} {c : Char} : isWs c = true → Ws t rest → Ws (c :: t) rest

def IsDigits (ds : List Char) : Prop := ds ≠ [] ∧ ∀ d ∈ ds, d.isDigit = true

/-- A sign, an integer part without leading zeros, a fraction and an exponent. -/
inductive IsNumeral : List Char → Prop
  | mk {sign int frac exp : List Char} : sign = [] ∨ sign = ['-'] →
      int = ['0'] ∨ IsDigits int ∧ int.head? ≠ some '0' →
      frac = [] ∨ (∃ ds, IsDigits ds ∧ frac = '.' :: ds) →
      exp = [] ∨ (∃ e s ds, (e = 'e' ∨ e = 'E') ∧ (s = [] ∨ s = ['+'] ∨ s = ['-']) ∧ IsDigits ds ∧
        exp = e :: (s ++ ds)) →
      IsNumeral (sign ++ (int ++ (frac ++ exp)))

mutual

inductive ValueText : List Char → Value → List Char → Prop
  | null {rest : List Char} : ValueText ('n' :: 'u' :: 'l' :: 'l' :: rest) .null rest
  | false {rest : List Char} :
      ValueText ('f' :: 'a' :: 'l' :: 's' :: 'e' :: rest) (.bool .false) rest
  | true {rest : List Char} : ValueText ('t' :: 'r' :: 'u' :: 'e' :: rest) (.bool .true) rest
  | number {numeral rest : List Char} : IsNumeral numeral →
      ValueText (numeral ++ rest) (.number numeral) rest
  | string {t s rest : List Char} : StringText t s rest → ValueText ('"' :: t) (.string s) rest
  | emptyArray {t rest : List Char} : Ws t (']' :: rest) → ValueText ('[' :: t) (.array []) rest
  | array {t rest : List Char} {elements : List Value} : ElementsText t elements rest →
      ValueText ('[' :: t) (.array elements) rest
  | emptyObject {t rest : List Char} : Ws t ('\x7d' :: rest) →
      ValueText ('\x7b' :: t) (.object []) rest
  | object {t rest : List Char} {members : List (List Char × Value)} :
      MembersText t members rest → ValueText ('\x7b' :: t) (.object members) rest

inductive ElementsText : List Char → List Value → List Char → Prop
  | last {t t₁ t₂ rest : List Char} {v : Value} : Ws t t₁ → ValueText t₁ v t₂ →
      Ws t₂ (']' :: rest) → ElementsText t [v] rest
  | more {t t₁ t₂ t₃ rest : List Char} {v : Value} {vs : List Value} : Ws t t₁ →
      ValueText t₁ v t₂ → Ws t₂ (',' :: t₃) → ElementsText t₃ vs rest → ElementsText t (v :: vs) rest

inductive MemberText : List Char → List Char × Value → List Char → Prop
  | mk {t t₁ t₂ t₃ t₄ rest name : List Char} {v : Value} : Ws t ('"' :: t₁) →
      StringText t₁ name t₂ → Ws t₂ (':' :: t₃) → Ws t₃ t₄ → ValueText t₄ v rest →
      MemberText t (name, v) rest

inductive MembersText : List Char → List (List Char × Value) → List Char → Prop
  | last {t t₁ rest : List Char} {member : List Char × Value} : MemberText t member t₁ →
      Ws t₁ ('\x7d' :: rest) → MembersText t [member] rest
  | more {t t₁ t₂ rest : List Char} {member : List Char × Value}
      {members : List (List Char × Value)} : MemberText t member t₁ → Ws t₁ (',' :: t₂) →
      MembersText t₂ members rest → MembersText t (member :: members) rest

end

/-- The whole of a text, with the whitespace around the value. -/
def Text (text : List Char) (v : Value) : Prop :=
  ∃ t₁ t₂, Ws text t₁ ∧ ValueText t₁ v t₂ ∧ Ws t₂ []

theorem Ws.eq_of_not {t rest : List Char} {c : Char} (h : Ws (c :: t) rest)
    (hc : isWs c = false) : rest = c :: t := by
  cases h with
  | stop => rfl
  | skip hws => exact absurd (hc.symm.trans hws) (by simp)

theorem IsNumeral.head {numeral : List Char} (h : IsNumeral numeral) :
    ∃ c rest, numeral = c :: rest ∧ (c = '-' ∨ c.isDigit = true) := by
  cases h with
  | mk hsign hint _ _ =>
    rcases hsign with rfl | rfl
    · rcases hint with rfl | ⟨⟨hne, hdigits⟩, -⟩
      · exact ⟨'0', _, rfl, .inr rfl⟩
      · obtain ⟨d, ds, rfl⟩ := List.exists_cons_of_ne_nil hne
        exact ⟨d, _, rfl, .inr (hdigits d List.mem_cons_self)⟩
    · exact ⟨'-', _, rfl, .inl rfl⟩

theorem IsNumeral.append_ne {numeral rest t : List Char} {c : Char} (h : IsNumeral numeral)
    (hsign : c ≠ '-') (hdigit : c.isDigit = false) : numeral ++ rest ≠ c :: t := by
  obtain ⟨d, ds, rfl, hd⟩ := h.head
  rintro ⟨rfl, -⟩
  rcases hd with rfl | hd
  · exact hsign rfl
  · exact absurd (hdigit.symm.trans hd) (by simp)

theorem valueText_string_iff {t rest : List Char} {v : Value} :
    ValueText ('"' :: t) v rest ↔ ∃ s, v = .string s ∧ StringText t s rest := by
  constructor
  · intro h
    generalize htext : '"' :: t = text at h
    cases h with
    | number hnum => exact absurd htext.symm (hnum.append_ne (by decide) (by decide))
    | string hs =>
      obtain rfl := (List.cons.inj htext).2
      exact ⟨_, rfl, hs⟩
    | _ => exact absurd (List.cons.inj htext).1 (by decide)
  · rintro ⟨s, rfl, hs⟩
    exact .string hs

theorem valueText_object_iff {t rest : List Char} {v : Value} :
    ValueText ('\x7b' :: t) v rest ↔ (v = .object [] ∧ Ws t ('\x7d' :: rest)) ∨
      ∃ members, v = .object members ∧ MembersText t members rest := by
  constructor
  · intro h
    generalize htext : '\x7b' :: t = text at h
    cases h with
    | number hnum => exact absurd htext.symm (hnum.append_ne (by decide) (by decide))
    | emptyObject hws =>
      obtain rfl := (List.cons.inj htext).2
      exact .inl ⟨rfl, hws⟩
    | object hmembers =>
      obtain rfl := (List.cons.inj htext).2
      exact .inr ⟨_, rfl, hmembers⟩
    | _ => exact absurd (List.cons.inj htext).1 (by decide)
  · rintro (⟨rfl, hws⟩ | ⟨members, rfl, hmembers⟩)
    · exact .emptyObject hws
    · exact .object hmembers

theorem memberText_iff {t t' rest rest' name s : List Char} {member : List Char × Value}
    (hname : StringText t name (':' :: '"' :: t')) (hs : StringText t' s rest) :
    MemberText ('"' :: t) member rest' ↔ member = (name, .string s) ∧ rest' = rest := by
  constructor
  · rintro ⟨hquote, hname', hcolon, hws, hvalue⟩
    obtain rfl := (List.cons.inj (hquote.eq_of_not rfl)).2
    obtain ⟨rfl, rfl⟩ := hname.unique hname'
    obtain rfl := (List.cons.inj (hcolon.eq_of_not rfl)).2
    obtain rfl := hws.eq_of_not rfl
    obtain ⟨s', rfl, hs'⟩ := valueText_string_iff.mp hvalue
    obtain ⟨rfl, rfl⟩ := hs.unique hs'
    exact ⟨rfl, rfl⟩
  · rintro ⟨rfl, rfl⟩
    exact .mk .stop hname .stop .stop (.string hs)

/-- The text of an object with one member, when that member is a string. -/
theorem text_singleton_iff {t t' name s : List Char} {v : Value}
    (hname : StringText t name (':' :: '"' :: t')) (hs : StringText t' s ['\x7d']) :
    Text ('\x7b' :: '"' :: t) v ↔ v = .object [(name, .string s)] := by
  constructor
  · rintro ⟨t₁, t₂, hws, hvalue, hend⟩
    obtain rfl := hws.eq_of_not rfl
    rcases valueText_object_iff.mp hvalue with ⟨-, hclose⟩ | ⟨members, rfl, hmembers⟩
    · exact absurd (hclose.eq_of_not rfl) (by simp)
    · cases hmembers with
      | last hmember hclose =>
        obtain ⟨rfl, rfl⟩ := (memberText_iff hname hs).mp hmember
        rfl
      | more hmember hcomma =>
        obtain ⟨rfl, rfl⟩ := (memberText_iff hname hs).mp hmember
        exact absurd (hcomma.eq_of_not rfl) (by simp)
  · rintro rfl
    exact ⟨_, _, .stop, .object (.last ((memberText_iff hname hs).mpr ⟨rfl, rfl⟩) .stop), .stop⟩

end Values

end FandheBackend.JsonText
