import Mathlib.Data.Finset.Card
import Mathlib.Order.Monotone.Basic
import Mathlib.Tactic.Common

set_option autoImplicit false

/-!
# Trees of files with symbolic links

A location is the list of names from the top of the tree. `Resolves` follows a path to a
location, links included; `resolve` computes it. Links may form loops, and then nothing is
reached. Within a tree of `n` entries no resolution is nested deeper than `n` links
(`settled_stable`), so `resolve_eq_some_iff` needs no bound.
-/
namespace FandheBackend.FileTree

inductive Component (ν : Type) where
  | curDir
  | parentDir
  | normal (name : ν)
  deriving DecidableEq

structure Path (ν : Type) where
  absolute : Bool
  components : List (Component ν)
  deriving DecidableEq

inductive Node (ν β : Type) where
  | dir
  | file (content : β)
  | link (target : Path ν)
  | other
  deriving DecidableEq

def Node.isDir {ν β : Type} : Node ν β → Bool
  | .dir => true
  | _ => false

def Node.isLink {ν β : Type} : Node ν β → Bool
  | .link _ => true
  | _ => false

structure Tree (ν β : Type) [DecidableEq ν] where
  entries : List (List ν × Node ν β)
  top_dir : entries.lookup [] = some .dir
  parent_dir : ∀ e ∈ entries, entries.lookup e.1.dropLast = some .dir

section
variable {ν β : Type} [DecidableEq ν]

def Tree.node (fs : Tree ν β) (loc : List ν) : Option (Node ν β) := fs.entries.lookup loc

def Tree.isDir (fs : Tree ν β) (loc : List ν) : Bool := (fs.node loc).any Node.isDir

def start (loc : List ν) (path : Path ν) : List ν := if path.absolute then [] else loc

/-- One path, with the links on its way left to `follow`. -/
def Tree.walk (fs : Tree ν β) (follow : List ν → Path ν → Option (List ν)) :
    List ν → List (Component ν) → Option (List ν)
  | loc, [] => some loc
  | loc, .curDir :: rest => if fs.isDir loc then fs.walk follow loc rest else none
  | loc, .parentDir :: rest => if fs.isDir loc then fs.walk follow loc.dropLast rest else none
  | loc, .normal name :: rest =>
    match fs.node (loc ++ [name]) with
    | none => none
    | some (.link target) => (follow loc target).bind fun mid => fs.walk follow mid rest
    | some _ => fs.walk follow (loc ++ [name]) rest

/-- Resolution with a bound on how deep links are nested. -/
def Tree.resolveWithin (fs : Tree ν β) : ℕ → List ν → Path ν → Option (List ν)
  | 0, _, _ => none
  | depth + 1, loc, path => fs.walk (fs.resolveWithin depth) (start loc path) path.components

def Tree.resolve (fs : Tree ν β) : List ν → Path ν → Option (List ν) :=
  fs.resolveWithin (fs.entries.length + 1)

inductive Resolves (fs : Tree ν β) : List ν → List (Component ν) → List ν → Prop
  | nil (loc : List ν) : Resolves fs loc [] loc
  | curDir {loc out : List ν} {rest : List (Component ν)} (hdir : fs.isDir loc = true)
      (hrest : Resolves fs loc rest out) : Resolves fs loc (.curDir :: rest) out
  | parentDir {loc out : List ν} {rest : List (Component ν)} (hdir : fs.isDir loc = true)
      (hrest : Resolves fs loc.dropLast rest out) : Resolves fs loc (.parentDir :: rest) out
  | entry {loc out : List ν} {name : ν} {rest : List (Component ν)} {node : Node ν β}
      (hnode : fs.node (loc ++ [name]) = some node) (hlink : node.isLink = false)
      (hrest : Resolves fs (loc ++ [name]) rest out) : Resolves fs loc (.normal name :: rest) out
  | link {loc mid out : List ν} {name : ν} {rest : List (Component ν)} {target : Path ν}
      (hnode : fs.node (loc ++ [name]) = some (.link target))
      (htarget : Resolves fs (start loc target) target.components mid)
      (hrest : Resolves fs mid rest out) : Resolves fs loc (.normal name :: rest) out

theorem parents_of_all [DecidableEq β] {entries : List (List ν × Node ν β)}
    (h : entries.all (fun e => decide (entries.lookup e.1.dropLast = some .dir)) = true) :
    ∀ e ∈ entries, entries.lookup e.1.dropLast = some .dir :=
  fun e he => of_decide_eq_true (List.all_eq_true.mp h e he)

theorem Tree.node_parent {fs : Tree ν β} {loc : List ν} {name : ν} {node : Node ν β}
    (h : fs.node (loc ++ [name]) = some node) : fs.node loc = some .dir := by
  obtain ⟨before, after, hentries, -⟩ := List.lookup_eq_some_iff.mp h
  have hparent := fs.parent_dir (loc ++ [name], node) (by simp [hentries])
  rwa [List.dropLast_concat] at hparent

theorem Tree.mem_keys {fs : Tree ν β} {loc : List ν} {node : Node ν β}
    (h : fs.node loc = some node) : loc ∈ fs.entries.map Prod.fst := by
  obtain ⟨before, after, hentries, -⟩ := List.lookup_eq_some_iff.mp h
  simp [hentries]

section Depth
variable {fs : Tree ν β}

theorem Tree.walk_mono {f g : List ν → Path ν → Option (List ν)}
    (hfg : ∀ loc name target mid, fs.node (loc ++ [name]) = some (.link target) →
      f loc target = some mid → g loc target = some mid)
    {components : List (Component ν)} {loc out : List ν}
    (h : fs.walk f loc components = some out) : fs.walk g loc components = some out := by
  induction components generalizing loc with
  | nil => exact h
  | cons component rest ih =>
    cases component with
    | curDir =>
      obtain ⟨hdir, h⟩ := Option.ite_none_right_eq_some.mp h
      rw [Tree.walk, if_pos hdir]
      exact ih h
    | parentDir =>
      obtain ⟨hdir, h⟩ := Option.ite_none_right_eq_some.mp h
      rw [Tree.walk, if_pos hdir]
      exact ih h
    | normal name =>
      cases hnode : fs.node (loc ++ [name]) with
      | none => simp [Tree.walk, hnode] at h
      | some node =>
        cases node with
        | link target =>
          simp only [Tree.walk, hnode, Option.bind_eq_some_iff] at h ⊢
          obtain ⟨mid, hmid, h⟩ := h
          exact ⟨mid, hfg loc name target mid hnode hmid, ih h⟩
        | dir | file | other =>
          simp only [Tree.walk, hnode] at h ⊢
          exact ih h

theorem Tree.resolveWithin_succ {depth : ℕ} {loc out : List ν} {path : Path ν}
    (h : fs.resolveWithin depth loc path = some out) :
    fs.resolveWithin (depth + 1) loc path = some out := by
  induction depth generalizing loc path out with
  | zero => cases h
  | succ depth ih => exact Tree.walk_mono (fun _ _ _ _ _ hmid => ih hmid) h

theorem Tree.resolveWithin_mono {depth depth' : ℕ} (hle : depth ≤ depth') {loc out : List ν}
    {path : Path ν} (h : fs.resolveWithin depth loc path = some out) :
    fs.resolveWithin depth' loc path = some out := by
  induction depth', hle using Nat.le_induction with
  | base => exact h
  | succ depth' _ ih => exact Tree.resolveWithin_succ ih

def Tree.settles (fs : Tree ν β) (depth : ℕ) (loc : List ν) : Bool :=
  match fs.node loc with
  | some (.link target) => (fs.resolveWithin depth loc.dropLast target).isSome
  | _ => false

def Tree.settled (fs : Tree ν β) (depth : ℕ) : Finset (List ν) :=
  (fs.entries.map Prod.fst).toFinset.filter fun loc => fs.settles depth loc

theorem Tree.mem_settled {depth : ℕ} {loc : List ν} :
    loc ∈ fs.settled depth ↔ ∃ target mid, fs.node loc = some (.link target) ∧
      fs.resolveWithin depth loc.dropLast target = some mid := by
  rw [Tree.settled, Finset.mem_filter, List.mem_toFinset]
  constructor
  · rintro ⟨-, hsettles⟩
    unfold Tree.settles at hsettles
    split at hsettles
    case h_1 target hnode =>
      obtain ⟨mid, hmid⟩ := Option.isSome_iff_exists.mp hsettles
      exact ⟨target, mid, hnode, hmid⟩
    case h_2 => cases hsettles
  · rintro ⟨target, mid, hnode, hmid⟩
    refine ⟨Tree.mem_keys hnode, ?_⟩
    rw [Tree.settles, hnode]
    exact Option.isSome_of_eq_some hmid

theorem Tree.settled_mono : Monotone fs.settled := by
  refine monotone_nat_of_le_succ fun depth loc hloc => ?_
  obtain ⟨target, mid, hnode, hmid⟩ := Tree.mem_settled.mp hloc
  exact Tree.mem_settled.mpr ⟨target, mid, hnode, Tree.resolveWithin_succ hmid⟩

/-- With no more links settled, one more level of nesting gives nothing new. -/
theorem Tree.resolveWithin_of_settled {depth depth' : ℕ} (hle : depth ≤ depth')
    (heq : fs.settled depth = fs.settled depth') {loc out : List ν} {path : Path ν}
    (h : fs.resolveWithin (depth' + 1) loc path = some out) :
    fs.resolveWithin (depth + 1) loc path = some out := by
  refine Tree.walk_mono (fun at_ name target mid hnode hmid => ?_) h
  have hdrop : (at_ ++ [name]).dropLast = at_ := List.dropLast_concat
  have hmem : at_ ++ [name] ∈ fs.settled depth := by
    rw [heq]
    exact Tree.mem_settled.mpr ⟨target, mid, hnode, by rwa [hdrop]⟩
  obtain ⟨target', mid', hnode', hmid'⟩ := Tree.mem_settled.mp hmem
  obtain rfl : target = target' := by simpa [hnode] using hnode'
  rw [hdrop] at hmid'
  have hsame : some mid' = some mid := (Tree.resolveWithin_mono hle hmid').symm.trans hmid
  rw [hmid', hsame]

theorem Tree.settled_succ {depth : ℕ} (heq : fs.settled depth = fs.settled (depth + 1)) :
    fs.settled (depth + 1) = fs.settled (depth + 2) := by
  refine Finset.Subset.antisymm (Tree.settled_mono (Nat.le_succ _)) fun loc hloc => ?_
  obtain ⟨target, mid, hnode, hmid⟩ := Tree.mem_settled.mp hloc
  exact Tree.mem_settled.mpr
    ⟨target, mid, hnode, Tree.resolveWithin_of_settled (Nat.le_succ _) heq hmid⟩

theorem Tree.settled_stable {depth : ℕ} (hle : fs.entries.length ≤ depth) :
    fs.settled fs.entries.length = fs.settled depth := by
  have hbound (d : ℕ) : (fs.settled d).card ≤ fs.entries.length :=
    calc (fs.settled d).card ≤ (fs.entries.map Prod.fst).toFinset.card :=
          Finset.card_le_card (Finset.filter_subset _ _)
      _ ≤ (fs.entries.map Prod.fst).length := List.toFinset_card_le _
      _ = fs.entries.length := List.length_map _
  have hstable (d : ℕ) (h : (fs.settled d).card = (fs.settled (d + 1)).card) :
      (fs.settled (d + 1)).card = (fs.settled (d + 2)).card := by
    have heq := Finset.eq_of_subset_of_card_le (Tree.settled_mono (Nat.le_succ d)) h.ge
    rw [Tree.settled_succ heq]
  have hcard : (fs.settled depth).card = (fs.settled fs.entries.length).card :=
    Nat.stabilises_of_monotone (fun _ _ h => Finset.card_le_card (Tree.settled_mono h)) hbound
      hstable hle
  exact Finset.eq_of_subset_of_card_le (Tree.settled_mono hle) hcard.le

theorem Tree.resolve_of_resolveWithin {depth : ℕ} {loc out : List ν} {path : Path ν}
    (h : fs.resolveWithin depth loc path = some out) : fs.resolve loc path = some out := by
  have hmax : fs.resolveWithin (max fs.entries.length depth + 1) loc path = some out :=
    Tree.resolveWithin_mono (by omega) h
  exact Tree.resolveWithin_of_settled (le_max_left _ _)
    (Tree.settled_stable (le_max_left _ _)) hmax

end Depth

section Relation
variable {fs : Tree ν β}

theorem resolves_of_walk {follow : List ν → Path ν → Option (List ν)}
    (hfollow : ∀ loc target mid, follow loc target = some mid →
      Resolves fs (start loc target) target.components mid)
    {components : List (Component ν)} {loc out : List ν}
    (h : fs.walk follow loc components = some out) : Resolves fs loc components out := by
  induction components generalizing loc with
  | nil =>
    cases h
    exact .nil _
  | cons component rest ih =>
    cases component with
    | curDir =>
      obtain ⟨hdir, h⟩ := Option.ite_none_right_eq_some.mp h
      exact .curDir hdir (ih h)
    | parentDir =>
      obtain ⟨hdir, h⟩ := Option.ite_none_right_eq_some.mp h
      exact .parentDir hdir (ih h)
    | normal name =>
      cases hnode : fs.node (loc ++ [name]) with
      | none => simp [Tree.walk, hnode] at h
      | some node =>
        cases node with
        | link target =>
          simp only [Tree.walk, hnode, Option.bind_eq_some_iff] at h
          obtain ⟨mid, hmid, h⟩ := h
          exact .link hnode (hfollow loc target mid hmid) (ih h)
        | dir | file | other =>
          simp only [Tree.walk, hnode] at h
          exact .entry hnode rfl (ih h)

theorem resolves_of_resolveWithin {depth : ℕ} {loc out : List ν} {path : Path ν}
    (h : fs.resolveWithin depth loc path = some out) :
    Resolves fs (start loc path) path.components out := by
  induction depth generalizing loc path out with
  | zero => cases h
  | succ depth ih => exact resolves_of_walk (fun _ _ _ hmid => ih hmid) h

theorem Resolves.exists_walk {loc out : List ν} {components : List (Component ν)}
    (h : Resolves fs loc components out) :
    ∃ depth, fs.walk (fs.resolveWithin depth) loc components = some out := by
  induction h with
  | nil loc => exact ⟨0, rfl⟩
  | curDir hdir _ ih =>
    obtain ⟨depth, ih⟩ := ih
    exact ⟨depth, by rwa [Tree.walk, if_pos hdir]⟩
  | parentDir hdir _ ih =>
    obtain ⟨depth, ih⟩ := ih
    exact ⟨depth, by rwa [Tree.walk, if_pos hdir]⟩
  | @entry loc out name rest node hnode hlink _ ih =>
    obtain ⟨depth, ih⟩ := ih
    refine ⟨depth, ?_⟩
    cases node with
    | link target => cases hlink
    | dir | file | other => simpa only [Tree.walk, hnode] using ih
  | @link loc mid out name rest target hnode _ _ htarget hrest =>
    obtain ⟨depth, htarget⟩ := htarget
    obtain ⟨depth', hrest⟩ := hrest
    -- The target and the rest of the path are nested to different depths.
    refine ⟨max (depth + 1) depth', ?_⟩
    have hmid : fs.resolveWithin (depth + 1) loc target = some mid := htarget
    simp only [Tree.walk, hnode, Option.bind_eq_some_iff]
    exact ⟨mid, Tree.resolveWithin_mono (le_max_left _ _) hmid,
      Tree.walk_mono (fun _ _ _ _ _ h => Tree.resolveWithin_mono (le_max_right _ _) h) hrest⟩

theorem resolve_eq_some_iff {loc out : List ν} {path : Path ν} :
    fs.resolve loc path = some out ↔ Resolves fs (start loc path) path.components out := by
  constructor
  · exact resolves_of_resolveWithin
  · intro h
    obtain ⟨depth, hwalk⟩ := h.exists_walk
    have hwithin : fs.resolveWithin (depth + 1) loc path = some out := hwalk
    exact Tree.resolve_of_resolveWithin hwithin

theorem resolves_of_components {loc out : List ν} {components : List (Component ν)}
    (h : fs.resolve loc ⟨false, components⟩ = some out) : Resolves fs loc components out :=
  resolve_eq_some_iff.mp h

theorem Resolves.unique {loc out out' : List ν} {components : List (Component ν)}
    (h : Resolves fs loc components out) (h' : Resolves fs loc components out') : out = out' := by
  have heq : fs.resolve loc ⟨false, components⟩ = some out := resolve_eq_some_iff.mpr h
  have heq' : fs.resolve loc ⟨false, components⟩ = some out' := resolve_eq_some_iff.mpr h'
  exact Option.some.inj (heq.symm.trans heq')

theorem resolves_append {loc out : List ν} {before after : List (Component ν)} :
    Resolves fs loc (before ++ after) out ↔
      ∃ mid, Resolves fs loc before mid ∧ Resolves fs mid after out := by
  constructor
  · induction before generalizing loc with
    | nil => exact fun h => ⟨loc, .nil loc, h⟩
    | cons component before ih =>
      intro h
      cases h with
      | curDir hdir hrest =>
        obtain ⟨mid, hbefore, hafter⟩ := ih hrest
        exact ⟨mid, .curDir hdir hbefore, hafter⟩
      | parentDir hdir hrest =>
        obtain ⟨mid, hbefore, hafter⟩ := ih hrest
        exact ⟨mid, .parentDir hdir hbefore, hafter⟩
      | entry hnode hlink hrest =>
        obtain ⟨mid, hbefore, hafter⟩ := ih hrest
        exact ⟨mid, .entry hnode hlink hbefore, hafter⟩
      | link hnode htarget hrest =>
        obtain ⟨mid, hbefore, hafter⟩ := ih hrest
        exact ⟨mid, .link hnode htarget hbefore, hafter⟩
  · rintro ⟨mid, hbefore, hafter⟩
    induction hbefore with
    | nil loc => exact hafter
    | curDir hdir _ ih => exact .curDir hdir (ih hafter)
    | parentDir hdir _ ih => exact .parentDir hdir (ih hafter)
    | entry hnode hlink _ ih => exact .entry hnode hlink (ih hafter)
    | link hnode htarget _ _ ih => exact .link hnode htarget (ih hafter)

def Real (fs : Tree ν β) (loc : List ν) : Prop :=
  ∃ node, fs.node loc = some node ∧ node.isLink = false

theorem real_of_isDir {loc : List ν} (h : fs.isDir loc = true) : Real fs loc := by
  rw [Tree.isDir, Option.any_eq_true] at h
  obtain ⟨node, hnode, hdir⟩ := h
  cases node with
  | dir => exact ⟨.dir, hnode, rfl⟩
  | file | link | other => cases hdir

theorem real_top : Real fs [] := ⟨.dir, fs.top_dir, rfl⟩

theorem real_dropLast {loc : List ν} (h : Real fs loc) : Real fs loc.dropLast := by
  obtain rfl | ⟨before, name, rfl⟩ := loc.eq_nil_or_concat'
  · exact h
  · obtain ⟨node, hnode, -⟩ := h
    rw [List.dropLast_concat]
    exact ⟨.dir, Tree.node_parent hnode, rfl⟩

theorem Resolves.real {loc out : List ν} {components : List (Component ν)}
    (h : Resolves fs loc components out) (hloc : Real fs loc) : Real fs out := by
  induction h with
  | nil loc => exact hloc
  | curDir _ _ ih => exact ih hloc
  | parentDir _ _ ih => exact ih (real_dropLast hloc)
  | entry hnode hlink _ ih => exact ih ⟨_, hnode, hlink⟩
  | @link loc mid out name rest target hnode _ _ htarget hrest =>
    refine hrest (htarget ?_)
    unfold start
    split_ifs
    · exact real_top
    · exact hloc

theorem Real.resolves {loc : List ν} (h : Real fs loc) :
    Resolves fs [] (loc.map .normal) loc := by
  induction loc using List.reverseRecOn with
  | nil => exact .nil []
  | append_singleton before name ih =>
    obtain ⟨node, hnode, hlink⟩ := h
    have hbefore : Real fs before := ⟨.dir, Tree.node_parent hnode, rfl⟩
    rw [List.map_append]
    exact resolves_append.mpr ⟨before, ih hbefore, .entry hnode hlink (.nil _)⟩

end Relation

end

end FandheBackend.FileTree
