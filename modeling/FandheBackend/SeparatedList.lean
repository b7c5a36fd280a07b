import FandheBackend.Utf8Text

set_option autoImplicit false

namespace FandheBackend.SeparatedList
open Utf8Text

section
variable {α β : Type} (pad : β → Bool) (Member : α → List β → Prop)

inductive Element : List α → List β → Prop
  | absent {ws : List β} : (∀ b ∈ ws, pad b = true) → Element [] ws
  | present {a : α} {text pre post : List β} : Member a text → (∀ b ∈ pre, pad b = true) →
      (∀ b ∈ post, pad b = true) → Element [a] (pre ++ text ++ post)

inductive Separated (sep : β) : List α → List β → Prop
  | last {as : List α} {text : List β} : Element pad Member as text → Separated sep as text
  | cons {as bs : List α} {text rest : List β} : Element pad Member as text →
      Separated sep bs rest → Separated sep (as ++ bs) (text ++ sep :: rest)

end

section
variable {α β : Type} {pad : β → Bool} {Member : α → List β → Prop} {sep : β}

theorem Separated.singleton {a : α} {text : List β} (h : Member a text) :
    Separated pad Member sep [a] text := by
  have helement : Element pad Member [a] ([] ++ text ++ []) := .present h (by simp) (by simp)
  rw [List.nil_append, List.append_nil] at helement
  exact .last helement

theorem trimBy_padding {ws : List β} (h : ∀ b ∈ ws, pad b = true) : trimBy pad ws = [] := by
  rw [trimBy, List.dropWhile_eq_nil_iff.mpr h]
  rfl

/-- The text of a member, as the trimmed elements show it. -/
theorem Element.trimBy {as : List α} {text : List β} (h : Element pad Member as text)
    {f : α → List β} (hmember : ∀ a text, Member a text → text = f a ∧ text ≠ [] ∧
      ∀ b ∈ text, pad b = false) :
    [trimBy pad text].filter (fun m => !m.isEmpty) = as.map f := by
  cases h with
  | absent hws =>
    rw [trimBy_padding hws]
    rfl
  | present hm hpre hpost =>
    obtain ⟨rfl, hne, hclear⟩ := hmember _ _ hm
    rw [trimBy_append pad hpre hpost hne (fun b hb => hclear b (List.mem_of_mem_head? hb))
      (fun b hb => hclear b (List.mem_of_getLast? hb)), List.filter_cons_of_pos (by simp [hne])]
    rfl

theorem Element.not_mem {as : List α} {text : List β} (h : Element pad Member as text)
    (hsep : pad sep = false) (hmember : ∀ a text, Member a text → sep ∉ text) : sep ∉ text := by
  have hpadding : ∀ ws : List β, (∀ b ∈ ws, pad b = true) → sep ∉ ws := by
    intro ws hws hmem
    rw [hws sep hmem] at hsep
    cases hsep
  cases h with
  | absent hws => exact hpadding _ hws
  | present hm hpre hpost =>
    rw [List.mem_append, List.mem_append, not_or, not_or]
    exact ⟨⟨hpadding _ hpre, hmember _ _ hm⟩, hpadding _ hpost⟩

/-- Splitting, trimming and dropping what is empty gives the members back. -/
theorem Separated.split [BEq β] [LawfulBEq β] {as : List α} {text : List β}
    (h : Separated pad Member sep as text) (hsep : pad sep = false) {f : α → List β}
    (hmember : ∀ a text, Member a text → text = f a ∧ text ≠ [] ∧ sep ∉ text ∧
      ∀ b ∈ text, pad b = false) :
    ((text.splitOn sep).map (trimBy pad)).filter (fun m => !m.isEmpty) = as.map f := by
  have htexts : ∀ a text, Member a text → text = f a ∧ text ≠ [] ∧ ∀ b ∈ text, pad b = false :=
    fun a text hm => ⟨(hmember a text hm).1, (hmember a text hm).2.1, (hmember a text hm).2.2.2⟩
  have hseps : ∀ a text, Member a text → sep ∉ text := fun a text hm => (hmember a text hm).2.2.1
  induction h with
  | last helement =>
    rw [List.splitOn_eq_singleton (helement.not_mem hsep hseps), List.map_singleton,
      helement.trimBy htexts]
  | cons helement _ ih =>
    rw [List.splitOn_append_cons_self_of_not_mem (helement.not_mem hsep hseps), List.map_cons,
      ← List.singleton_append, List.filter_append, ih, helement.trimBy htexts, List.map_append]

end

end FandheBackend.SeparatedList
