import SniperBot.Basis.Dict
import Mathlib.Data.Finset.Card
import Mathlib.Logic.Relation

/-!
# Union-find with path halving

Parents in a dictionary over a linear order. `find` climbs to a root and on its way sets each
parent it passes to the parent of that parent; `union` puts the greater of two roots under the
smaller one. No parent is greater than its child (`Forest`), so a node has one root
(`Forest.exists_root`, `RootOf.unique`), the least node of its tree, and `find` needs no more
passes than there are nodes (`find_spec`).

`Reached` are the parent maps that come up when both run. After the unions of a list of pairs two
nodes have the same root if a path over the pairs joins them (`unions_spec`, `sameTree_iff_joined`).
-/

namespace Basis.UnionFind

open Basis

variable {α : Type*} [LinearOrder α]

/-- `while parent[a] != a: parent[a] = parent[parent[a]]; a = parent[a]`, in at most so many
passes: the root, and the parents after the loop. -/
def findFuel : Nat → Dict α α → α → Option (α × Dict α α)
  | 0, _, _ => none
  | fuel + 1, parent, a => do
      let up ← parent.get? a
      if up = a then some (a, parent)
      else
        let grand ← parent.get? up
        findFuel fuel (parent.set a grand) grand

def find (parent : Dict α α) (a : α) : Option (α × Dict α α) :=
  findFuel parent.entries.length parent a

def union (parent : Dict α α) (left right : α) : Option (Dict α α) := do
  let (leftRoot, parent) ← find parent left
  let (rightRoot, parent) ← find parent right
  if leftRoot = rightRoot then some parent
  else some (parent.set (max leftRoot rightRoot) (min leftRoot rightRoot))

/-- The unions of a list of pairs. -/
def unions (parent : Dict α α) (pairs : List (α × α)) : Option (Dict α α) :=
  pairs.foldlM (fun parent pair => union parent pair.1 pair.2) parent

/-- Every node is its own parent. -/
def singletons (nodes : List α) : Dict α α := nodes.foldl (fun d a => d.set a a) Dict.empty

/-! ## Roots -/

/-- The root that a node climbs to. -/
inductive RootOf (parent : Dict α α) : α → α → Prop
  | here {r : α} : parent.get? r = some r → RootOf parent r r
  | up {a b r : α} : parent.get? a = some b → b ≠ a → RootOf parent b r → RootOf parent a r

theorem RootOf.isRoot {parent : Dict α α} {a r : α} (h : RootOf parent a r) :
    parent.get? r = some r := by
  induction h with
  | here hroot => exact hroot
  | up _ _ _ ih => exact ih

theorem RootOf.unique {parent : Dict α α} {a r r' : α} (h : RootOf parent a r)
    (h' : RootOf parent a r') : r = r' := by
  induction h with
  | here hroot =>
      cases h' with
      | here _ => rfl
      | up hup hne _ => exact absurd (Option.some.inj (hup.symm.trans hroot)) hne
  | up hup hne _ ih =>
      cases h' with
      | here hroot => exact absurd (Option.some.inj (hup.symm.trans hroot)) hne
      | up hup' _ hrest =>
          obtain rfl := Option.some.inj (hup.symm.trans hup')
          exact ih hrest

/-- The parents of a set of nodes: they are nodes, and none is greater than its child. -/
structure Forest (nodes : Finset α) (parent : Dict α α) : Prop where
  total : ∀ a ∈ nodes, ∃ up, parent.get? a = some up
  parent_mem : ∀ a up, parent.get? a = some up → a ∈ nodes ∧ up ∈ nodes
  parent_le : ∀ a up, parent.get? a = some up → up ≤ a

/-- A smaller node has fewer nodes below it. -/
theorem card_below_lt {nodes : Finset α} {a b : α} (hb : b ∈ nodes) (h : b < a) :
    (nodes.filter (· < b)).card < (nodes.filter (· < a)).card := by
  refine Finset.card_lt_card (Finset.ssubset_iff_of_subset ?_ |>.mpr ⟨b, ?_, ?_⟩)
  · exact Finset.monotone_filter_right _ fun c _ hc => hc.trans h
  · exact Finset.mem_filter.mpr ⟨hb, h⟩
  · exact fun hmem => lt_irrefl b (Finset.mem_filter.mp hmem).2

namespace Forest

variable {nodes : Finset α} {parent : Dict α α}

theorem exists_root (h : Forest nodes parent) {a : α} (ha : a ∈ nodes) :
    ∃ r, RootOf parent a r := by
  -- on the number of nodes below
  induction hn : (nodes.filter (· < a)).card using Nat.strong_induction_on generalizing a with
  | _ n ih =>
      obtain ⟨up, hup⟩ := h.total a ha
      by_cases hself : up = a
      · exact ⟨a, .here (hself ▸ hup)⟩
      · have hlt : up < a := lt_of_le_of_ne (h.parent_le a up hup) hself
        have hmem := (h.parent_mem a up hup).2
        obtain ⟨r, hr⟩ := ih _ (hn ▸ card_below_lt hmem hlt) hmem rfl
        exact ⟨r, .up hup hself hr⟩

/-- A root is the least node of its tree. -/
theorem root_le (h : Forest nodes parent) {a r : α} (hr : RootOf parent a r) : r ≤ a := by
  induction hr with
  | here _ => exact le_rfl
  | up hup _ _ ih => exact ih.trans (h.parent_le _ _ hup)

theorem mem_of_rootOf (h : Forest nodes parent) {a r : α} (hr : RootOf parent a r) :
    a ∈ nodes ∧ r ∈ nodes := by
  have hroot := (h.parent_mem r r hr.isRoot).1
  cases hr with
  | here _ => exact ⟨hroot, hroot⟩
  | up hup _ _ => exact ⟨(h.parent_mem _ _ hup).1, hroot⟩

/-- A smaller parent that is a node keeps the forest. -/
theorem set (h : Forest nodes parent) {a b : α} (ha : a ∈ nodes) (hb : b ∈ nodes) (hle : b ≤ a) :
    Forest nodes (parent.set a b) where
  total c hc := by
    rw [Dict.get?_set]
    split
    · exact ⟨b, rfl⟩
    · exact h.total c hc
  parent_mem c up hget := by
    rw [Dict.get?_set] at hget
    split at hget
    · next hac =>
        obtain rfl := Option.some.inj hget
        exact ⟨hac ▸ ha, hb⟩
    · exact h.parent_mem c up hget
  parent_le c up hget := by
    rw [Dict.get?_set] at hget
    split at hget
    · next hac =>
        obtain rfl := Option.some.inj hget
        exact hac ▸ hle
    · exact h.parent_le c up hget

end Forest

/-! ## The two assignments -/

section Assignments

variable {nodes : Finset α} {parent : Dict α α}

/-- Halving a path keeps every root. -/
theorem rootOf_halved (h : Forest nodes parent) {a up grand : α} (hup : parent.get? a = some up)
    (hne : up ≠ a) (hgrand : parent.get? up = some grand) {x r : α} (hr : RootOf parent x r) :
    RootOf (parent.set a grand) x r := by
  have hlt : grand < a :=
    (h.parent_le up grand hgrand).trans_lt (lt_of_le_of_ne (h.parent_le a up hup) hne)
  induction hr with
  | here hroot =>
      refine .here ((Dict.get?_set_ne _ ?_ _).trans hroot)
      intro heq
      exact hne (Option.some.inj (hup.symm.trans (heq ▸ hroot)))
  | @up x b r hb hbne _ ih =>
      by_cases hx : a = x
      · subst hx
        obtain rfl := Option.some.inj (hup.symm.trans hb)
        have hself : (parent.set a grand).get? a = some grand := by
          rw [Dict.get?_set, if_pos rfl]
        have hnext : (parent.set a grand).get? up = some grand :=
          (Dict.get?_set_ne _ hne.symm _).trans hgrand
        refine .up hself hlt.ne ?_
        cases ih with
        | here hroot =>
            obtain rfl := Option.some.inj (hnext.symm.trans hroot)
            exact .here hroot
        | up hstep _ hrest =>
            obtain rfl := Option.some.inj (hnext.symm.trans hstep)
            exact hrest
      · exact .up ((Dict.get?_set_ne _ hx _).trans hb) hbne ih

theorem rootOf_halved_iff (h : Forest nodes parent) {a up grand : α}
    (hup : parent.get? a = some up) (hne : up ≠ a) (hgrand : parent.get? up = some grand) {x r : α} :
    RootOf (parent.set a grand) x r ↔ RootOf parent x r := by
  have hle : grand ≤ a := (h.parent_le up grand hgrand).trans (h.parent_le a up hup)
  have hforest := h.set (h.parent_mem a up hup).1 (h.parent_mem up grand hgrand).2 hle
  constructor
  · intro hr
    obtain ⟨r', hr'⟩ := h.exists_root (hforest.mem_of_rootOf hr).1
    exact hr.unique (rootOf_halved h hup hne hgrand hr') ▸ hr'
  · exact rootOf_halved h hup hne hgrand

/-- A root under another one takes its tree along. -/
theorem rootOf_linked {low high : α} (hlow : parent.get? low = some low) (hlt : low < high)
    (hhigh : parent.get? high = some high) {x r : α} (hr : RootOf parent x r) :
    RootOf (parent.set high low) x (if r = high then low else r) := by
  have hroot : RootOf (parent.set high low) low low :=
    .here ((Dict.get?_set_ne _ hlt.ne' _).trans hlow)
  induction hr with
  | @here r h =>
      by_cases hr : r = high
      · rw [if_pos hr, hr]
        exact .up (by rw [Dict.get?_set, if_pos rfl]) hlt.ne hroot
      · rw [if_neg hr]
        exact .here ((Dict.get?_set_ne _ (Ne.symm hr) _).trans h)
  | @up x b r hb hne _ ih =>
      have hx : high ≠ x := by
        rintro rfl
        exact hne (Option.some.inj (hb.symm.trans hhigh))
      exact .up ((Dict.get?_set_ne _ hx _).trans hb) hne ih

end Assignments

/-! ## Reached maps -/

/-- The parent maps that come up: a find halves a path, a union links two roots. -/
inductive Reached (nodes : List α) : Dict α α → Prop
  | start : Reached nodes (singletons nodes)
  | halve {parent : Dict α α} {a up grand : α} : Reached nodes parent → parent.get? a = some up →
      up ≠ a → parent.get? up = some grand → Reached nodes (parent.set a grand)
  | link {parent : Dict α α} {low high : α} : Reached nodes parent →
      parent.get? low = some low → parent.get? high = some high → low < high →
      Reached nodes (parent.set high low)

theorem get?_singletons (nodes : List α) (a : α) :
    (singletons nodes).get? a = if a ∈ nodes then some a else none := by
  have hfold : ∀ d : Dict α α, (nodes.foldl (fun d a => d.set a a) d).get? a =
      if a ∈ nodes then some a else d.get? a := by
    induction nodes with
    | nil => exact fun d => by simp
    | cons b nodes ih =>
        intro d
        rw [List.foldl_cons, ih, Dict.get?_set]
        by_cases hmem : a ∈ nodes
        · simp [hmem]
        · by_cases hab : b = a
          · simp [hab]
          · simp [hmem, hab, Ne.symm hab]
  rw [singletons, hfold]
  rfl

theorem forest_singletons (nodes : List α) : Forest nodes.toFinset (singletons nodes) where
  total a ha := ⟨a, by rw [get?_singletons, if_pos (List.mem_toFinset.mp ha)]⟩
  parent_mem a up hget := by
    rw [get?_singletons] at hget
    split at hget
    · next hmem =>
        obtain rfl := Option.some.inj hget
        exact ⟨List.mem_toFinset.mpr hmem, List.mem_toFinset.mpr hmem⟩
    · cases hget
  parent_le a up hget := by
    rw [get?_singletons] at hget
    split at hget
    · exact (Option.some.inj hget).ge
    · cases hget

theorem Reached.forest {nodes : List α} {parent : Dict α α} (h : Reached nodes parent) :
    Forest nodes.toFinset parent := by
  induction h with
  | start => exact forest_singletons nodes
  | halve _ hup _ hgrand ih =>
      exact ih.set (ih.parent_mem _ _ hup).1 (ih.parent_mem _ _ hgrand).2
        ((ih.parent_le _ _ hgrand).trans (ih.parent_le _ _ hup))
  | link _ hlow hhigh hlt ih =>
      exact ih.set (ih.parent_mem _ _ hhigh).1 (ih.parent_mem _ _ hlow).1 hlt.le

/-- What holds of the parents after a find. -/
structure Found (nodes : List α) (parent next : Dict α α) (a r : α) : Prop where
  reached : Reached nodes next
  root : RootOf parent a r
  rootOf_iff : ∀ x s, RootOf next x s ↔ RootOf parent x s
  within : ∀ R : α → α → Prop, (∀ x y z, R x y → R y z → R x z) →
    (∀ x up, parent.get? x = some up → R x up) → ∀ x up, next.get? x = some up → R x up

/-- As many passes as there are nodes up to the first one are enough. -/
theorem findFuel_spec {nodes : List α} {fuel : Nat} {parent : Dict α α} {a : α}
    (h : Reached nodes parent) (ha : a ∈ nodes.toFinset)
    (hfuel : (nodes.toFinset.filter (· < a)).card < fuel) :
    ∃ r next, findFuel fuel parent a = some (r, next) ∧ Found nodes parent next a r := by
  induction fuel generalizing parent a with
  | zero => omega
  | succ fuel ih =>
      have hforest := h.forest
      obtain ⟨up, hup⟩ := hforest.total a ha
      by_cases hself : up = a
      · refine ⟨a, parent, ?_, h, .here (hself ▸ hup), fun x s => Iff.rfl, fun R _ hR => hR⟩
        simp [findFuel, hup, hself]
      · obtain ⟨grand, hgrand⟩ := hforest.total up (hforest.parent_mem a up hup).2
        have hlt : grand < a := (hforest.parent_le up grand hgrand).trans_lt
          (lt_of_le_of_ne (hforest.parent_le a up hup) hself)
        have hmem := (hforest.parent_mem up grand hgrand).2
        have hcard := card_below_lt hmem hlt
        obtain ⟨r, next, hfind, hfound⟩ := ih (h.halve hup hself hgrand) hmem (by omega)
        have hiff := fun x s => rootOf_halved_iff hforest hup hself hgrand (x := x) (r := s)
        refine ⟨r, next, ?_, hfound.reached, ?_, fun x s => (hfound.rootOf_iff x s).trans (hiff x s),
          fun R htrans hR => hfound.within R htrans fun x up' hget => ?_⟩
        · simp [findFuel, hup, hself, hgrand, hfind]
        · -- the node below the root that was found has the same root
          have hroot := (hiff grand r).mp hfound.root
          have hupRoot : RootOf parent up r := by
            by_cases heq : grand = up
            · exact heq ▸ hroot
            · exact .up hgrand heq hroot
          exact .up hup hself hupRoot
        · rw [Dict.get?_set] at hget
          split at hget
          · next hax =>
              obtain rfl := hax
              obtain rfl := Option.some.inj hget
              exact htrans _ _ _ (hR _ _ hup) (hR _ _ hgrand)
          · exact hR _ _ hget

/-- More passes change nothing. -/
theorem findFuel_mono {fuel fuel' : Nat} {parent : Dict α α} {a : α} {result : α × Dict α α}
    (h : findFuel fuel parent a = some result) (hle : fuel ≤ fuel') :
    findFuel fuel' parent a = some result := by
  induction fuel generalizing fuel' parent a with
  | zero => cases h
  | succ fuel ih =>
      obtain ⟨fuel', rfl⟩ : ∃ k, fuel' = k + 1 := ⟨fuel' - 1, by omega⟩
      obtain ⟨up, hup, h⟩ := Option.bind_eq_some_iff.mp h
      refine Option.bind_eq_some_iff.mpr ⟨up, hup, ?_⟩
      split at h
      · next hself => rw [if_pos hself, h]
      · next hself =>
          rw [if_neg hself]
          obtain ⟨grand, hgrand, h⟩ := Option.bind_eq_some_iff.mp h
          exact Option.bind_eq_some_iff.mpr ⟨grand, hgrand, ih h (by omega)⟩

theorem card_below_lt_card {nodes : Finset α} {a : α} (ha : a ∈ nodes) :
    (nodes.filter (· < a)).card < nodes.card :=
  Finset.card_lt_card (Finset.filter_ssubset.mpr ⟨a, ha, lt_irrefl a⟩)

theorem Forest.card_le_length {nodes : Finset α} {parent : Dict α α} (h : Forest nodes parent) :
    nodes.card ≤ parent.entries.length := by
  have hkeys : nodes ⊆ parent.keys.toFinset := fun b hb =>
    List.mem_toFinset.mpr (Dict.mem_keys.mpr (h.total b hb))
  calc nodes.card
      ≤ parent.keys.toFinset.card := Finset.card_le_card hkeys
    _ ≤ parent.keys.length := List.toFinset_card_le _
    _ = parent.entries.length := List.length_map _

/-- `find` returns the root. -/
theorem find_spec {nodes : List α} {parent : Dict α α} {a : α} (h : Reached nodes parent)
    (ha : a ∈ nodes) :
    ∃ r next, find parent a = some (r, next) ∧ Found nodes parent next a r := by
  have hmem := List.mem_toFinset.mpr ha
  exact findFuel_spec h hmem ((card_below_lt_card hmem).trans_le h.forest.card_le_length)

/-- The loop ends after as many passes as there are nodes, at most, however many it may take. -/
theorem find_terminates {nodes : List α} {parent : Dict α α} {a : α} (h : Reached nodes parent)
    (ha : a ∈ nodes) :
    ∃ result, find parent a = some result ∧
      ∀ fuel, nodes.toFinset.card ≤ fuel → findFuel fuel parent a = some result := by
  have hmem := List.mem_toFinset.mpr ha
  obtain ⟨r, next, hfind, _⟩ := findFuel_spec h hmem (card_below_lt_card hmem)
  exact ⟨(r, next), findFuel_mono hfind h.forest.card_le_length,
    fun fuel hfuel => findFuel_mono hfind hfuel⟩

/-! ## Unions -/

/-- Two nodes climb to the same root. -/
def SameTree (parent : Dict α α) (a b : α) : Prop := ∃ r, RootOf parent a r ∧ RootOf parent b r

/-- What holds of the parents after the unions of some pairs. -/
structure United (nodes : List α) (parent next : Dict α α) (pairs : List (α × α)) : Prop where
  reached : Reached nodes next
  keeps : ∀ x y, SameTree parent x y → SameTree next x y
  joins : ∀ pair ∈ pairs, SameTree next pair.1 pair.2
  within : ∀ R : α → α → Prop, Equivalence R → (∀ pair ∈ pairs, R pair.1 pair.2) →
    (∀ x up, parent.get? x = some up → R x up) → ∀ x up, next.get? x = some up → R x up

theorem RootOf.within {parent : Dict α α} {R : α → α → Prop} (hR : Equivalence R)
    (h : ∀ x up, parent.get? x = some up → R x up) {a r : α} (hr : RootOf parent a r) : R a r := by
  induction hr with
  | here hroot => exact hR.refl _
  | up hup _ _ ih => exact hR.trans (h _ _ hup) ih

theorem United.refl {nodes : List α} {parent : Dict α α} (h : Reached nodes parent) :
    United nodes parent parent [] where
  reached := h
  keeps _ _ hsame := hsame
  joins _ hpair := absurd hpair List.not_mem_nil
  within _ _ _ h := h

theorem United.trans {nodes : List α} {p q r : Dict α α} {first second : List (α × α)}
    (h : United nodes p q first) (h' : United nodes q r second) :
    United nodes p r (first ++ second) where
  reached := h'.reached
  keeps x y hsame := h'.keeps x y (h.keeps x y hsame)
  joins pair hpair := by
    obtain hfirst | hsecond := List.mem_append.mp hpair
    · exact h'.keeps _ _ (h.joins pair hfirst)
    · exact h'.joins pair hsecond
  within R hR hpairs hwithin := by
    obtain ⟨hfirst, hsecond⟩ := List.forall_mem_append.mp hpairs
    exact h'.within R hR hsecond (h.within R hR hfirst hwithin)

theorem SameTree.symm {parent : Dict α α} {a b : α} (h : SameTree parent a b) :
    SameTree parent b a := by
  obtain ⟨r, ha, hb⟩ := h
  exact ⟨r, hb, ha⟩

theorem United.swap {nodes : List α} {p q : Dict α α} {left right : α}
    (h : United nodes p q [(left, right)]) : United nodes p q [(right, left)] where
  reached := h.reached
  keeps := h.keeps
  joins pair hpair := by
    obtain rfl := List.mem_singleton.mp hpair
    exact (h.joins _ (List.mem_singleton_self _)).symm
  within R hR hpairs := by
    refine h.within R hR fun pair hpair => ?_
    obtain rfl := List.mem_singleton.mp hpair
    exact hR.symm (hpairs _ (List.mem_singleton_self _))

/-- The greater of two roots goes under the smaller one. -/
theorem united_link {nodes : List α} {parent : Dict α α} {left right low high : α}
    (h : Reached nodes parent) (hleft : RootOf parent left low) (hright : RootOf parent right high)
    (hlt : low < high) : United nodes parent (parent.set high low) [(left, right)] := by
  have hlinked {x r : α} (hr : RootOf parent x r) :=
    rootOf_linked hleft.isRoot hlt hright.isRoot hr
  refine ⟨h.link hleft.isRoot hright.isRoot hlt, fun x y ⟨r, hx, hy⟩ => ⟨_, hlinked hx, hlinked hy⟩,
    fun pair hpair => ?_, fun R hR hpairs hwithin x up hget => ?_⟩
  · obtain rfl := List.mem_singleton.mp hpair
    have hlow := hlinked hleft
    have hhigh := hlinked hright
    rw [if_neg hlt.ne] at hlow
    rw [if_pos rfl] at hhigh
    exact ⟨low, hlow, hhigh⟩
  · rw [Dict.get?_set] at hget
    split at hget
    · next hx =>
        obtain rfl := hx
        obtain rfl := Option.some.inj hget
        have hpair : R left right := hpairs _ (List.mem_singleton_self _)
        exact hR.trans (hR.symm (hright.within hR hwithin))
          (hR.trans (hR.symm hpair) (hleft.within hR hwithin))
    · exact hwithin x up hget

/-- A find before a union takes nothing from it. -/
theorem Found.united {nodes : List α} {p q : Dict α α} {a r : α} (h : Found nodes p q a r) :
    United nodes p q [] where
  reached := h.reached
  keeps x y := fun ⟨s, hx, hy⟩ => ⟨s, (h.rootOf_iff x s).mpr hx, (h.rootOf_iff y s).mpr hy⟩
  joins _ hpair := absurd hpair List.not_mem_nil
  within R hR _ hwithin := h.within R (fun _ _ _ => hR.trans) hwithin

theorem union_spec {nodes : List α} {parent : Dict α α} {left right : α}
    (h : Reached nodes parent) (hleft : left ∈ nodes) (hright : right ∈ nodes) :
    ∃ next, union parent left right = some next ∧ United nodes parent next [(left, right)] := by
  obtain ⟨leftRoot, mid, hfindLeft, hfoundLeft⟩ := find_spec h hleft
  obtain ⟨rightRoot, last, hfindRight, hfoundRight⟩ := find_spec hfoundLeft.reached hright
  have hunited : United nodes parent last [] := hfoundLeft.united.trans hfoundRight.united
  have hl : RootOf last left leftRoot := (hfoundRight.rootOf_iff _ _).mpr
    ((hfoundLeft.rootOf_iff _ _).mpr hfoundLeft.root)
  have hr : RootOf last right rightRoot := (hfoundRight.rootOf_iff _ _).mpr hfoundRight.root
  have hunion : union parent left right = if leftRoot = rightRoot then some last
      else some (last.set (max leftRoot rightRoot) (min leftRoot rightRoot)) := by
    simp [union, hfindLeft, hfindRight]
  rw [hunion]
  obtain hlt | rfl | hgt := lt_trichotomy leftRoot rightRoot
  · rw [if_neg hlt.ne, max_eq_right hlt.le, min_eq_left hlt.le]
    exact ⟨_, rfl, hunited.trans (united_link hunited.reached hl hr hlt)⟩
  · rw [if_pos rfl]
    refine ⟨last, rfl, hunited.reached, hunited.keeps, fun pair hpair => ?_,
      fun R hR _ hwithin => hunited.within R hR (fun _ h => absurd h List.not_mem_nil) hwithin⟩
    obtain rfl := List.mem_singleton.mp hpair
    exact ⟨leftRoot, hl, hr⟩
  · rw [if_neg hgt.ne', max_eq_left hgt.le, min_eq_right hgt.le]
    exact ⟨_, rfl, hunited.trans (united_link hunited.reached hr hl hgt).swap⟩

theorem unions_spec {nodes : List α} {parent : Dict α α} {pairs : List (α × α)}
    (h : Reached nodes parent) (hpairs : ∀ pair ∈ pairs, pair.1 ∈ nodes ∧ pair.2 ∈ nodes) :
    ∃ next, unions parent pairs = some next ∧ United nodes parent next pairs := by
  induction pairs generalizing parent with
  | nil => exact ⟨parent, rfl, .refl h⟩
  | cons pair pairs ih =>
      obtain ⟨hpair, hrest⟩ := List.forall_mem_cons.mp hpairs
      obtain ⟨mid, hunion, hunited⟩ := union_spec h hpair.1 hpair.2
      obtain ⟨next, hunions, hunited'⟩ := ih hunited.reached hrest
      refine ⟨next, ?_, hunited.trans hunited'⟩
      rw [unions, List.foldlM_cons, hunion]
      exact hunions

/-! ## What the pairs join -/

/-- The pairs, in both directions. -/
def Adjacent (pairs : List (α × α)) (a b : α) : Prop := (a, b) ∈ pairs ∨ (b, a) ∈ pairs

/-- A path over the pairs. -/
def Joined (pairs : List (α × α)) : α → α → Prop := Relation.ReflTransGen (Adjacent pairs)

omit [LinearOrder α] in
theorem joined_equivalence (pairs : List (α × α)) : Equivalence (Joined pairs) where
  refl _ := .refl
  symm h := by
    have : Std.Symm (Adjacent pairs) := ⟨fun _ _ => Or.symm⟩
    exact (Relation.ReflTransGen.stdSymm (r := Adjacent pairs)).symm _ _ h
  trans := .trans

omit [LinearOrder α] in
theorem joined_congr {pairs pairs' : List (α × α)} (h : ∀ pair, pair ∈ pairs ↔ pair ∈ pairs') :
    Joined pairs = Joined pairs' := by
  have hadjacent : Adjacent pairs = Adjacent pairs' := by
    funext a b
    rw [Adjacent, Adjacent, h, h]
  rw [Joined, Joined, hadjacent]

theorem SameTree.trans {parent : Dict α α} {a b c : α} (h : SameTree parent a b)
    (h' : SameTree parent b c) : SameTree parent a c := by
  obtain ⟨r, ha, hb⟩ := h
  obtain ⟨s, hb', hc⟩ := h'
  exact ⟨r, ha, hb.unique hb' ▸ hc⟩

/-- Two nodes climb to the same root if a path over the pairs joins them, and only then. -/
theorem sameTree_iff_joined {nodes : List α} {parent : Dict α α} {pairs : List (α × α)}
    (h : United nodes (singletons nodes) parent pairs) {a b : α} (ha : a ∈ nodes) :
    SameTree parent a b ↔ Joined pairs a b := by
  have hequiv := joined_equivalence pairs
  have hstart (x up : α) (hget : (singletons nodes).get? x = some up) : Joined pairs x up := by
    rw [get?_singletons] at hget
    split at hget
    · exact Option.some.inj hget ▸ hequiv.refl x
    · cases hget
  have hwithin := h.within (Joined pairs) hequiv (fun pair hpair => .single (.inl hpair)) hstart
  constructor
  · intro ⟨r, hra, hrb⟩
    exact hequiv.trans (hra.within hequiv hwithin) (hequiv.symm (hrb.within hequiv hwithin))
  · intro hjoined
    induction hjoined with
    | refl =>
        obtain ⟨r, hr⟩ := h.reached.forest.exists_root (List.mem_toFinset.mpr ha)
        exact ⟨r, hr, hr⟩
    | tail _ hadjacent ih =>
        obtain hpair | hpair := hadjacent
        · exact ih.trans (h.joins _ hpair)
        · exact ih.trans (h.joins _ hpair).symm

end Basis.UnionFind
