import SniperBot.Basis.Grouping
import SniperBot.Basis.Ranking
import SniperBot.Basis.UnionFind
import SniperBot.Wallets.Relations
import Mathlib.Data.String.Basic

/-!
# Wallet clusters

`build_clusters` (`clustering.py`): a union-find over the eligible relations, then one cluster for
each root, in the order of the roots. The clusters are the components of the graph of the eligible
relations (`buildClusters_components`). They do not depend on the order of the relations or on how
often one is given, but each cluster explains itself with the relations in the order in which they
came, as often as they came (`explanations_follow_the_list`).
-/

namespace SniperBot.Wallets

open Basis UnionFind

/-! ## The code -/

structure WalletCluster where
  clusterId : String
  wallets : List String
  relationExplanations : List WalletRelation
  holdingsPct : ℚ := 0
  buySharePct : ℚ := 0
  deriving DecidableEq, Repr

inductive ClusterError
  /-- "relation contains a wallet outside clustering scope" -/
  | outsideScope
  /-- A parent is missing, or the loop of `find` did not end. -/
  | notFound
  deriving DecidableEq, Repr

/-- The body of the loop over the relations. -/
def uniteRelation (parent : Dict String String) (relation : WalletRelation) :
    Except ClusterError (Dict String String) :=
  if relation.eligibleForCluster then
    if ¬ parent.contains relation.walletA ∨ ¬ parent.contains relation.walletB then
      .error .outsideScope
    else (union parent relation.walletA relation.walletB).elim (.error .notFound) .ok
  else .ok parent

/-- `grouped.setdefault(find(wallet), []).append(wallet)` -/
def groupWallet (state : Dict String String × Dict String (List String)) (wallet : String) :
    Except ClusterError (Dict String String × Dict String (List String)) :=
  match find state.1 wallet with
  | none => .error .notFound
  | some (root, parent) => .ok (parent, state.2.append root wallet)

/-- `part / total if total > 0 else 0` -/
def shareOf (part total : ℚ) : ℚ := if total > 0 then part / total else 0

/-- The share of the members in the values of all wallets. -/
def membersShare (values : Dict String ℚ) (members : List String) : ℚ :=
  shareOf (members.map fun wallet => (values.get? wallet).getD 0).sum values.values.sum

def clusterOf (relations : List WalletRelation) (holdings buyVolumes : Dict String ℚ)
    (group : String × List String) : WalletCluster where
  clusterId := group.1
  wallets := group.2
  relationExplanations := relations.filter fun relation =>
    relation.walletA ∈ group.2 ∧ relation.walletB ∈ group.2 ∧ relation.eligibleForCluster
  holdingsPct := membersShare holdings group.2
  buySharePct := membersShare buyVolumes group.2

/-- The parents after some relations. -/
def parentsAfter (wallets : Finset String) (relations : List WalletRelation) :
    Except ClusterError (Dict String String) :=
  relations.foldlM uniteRelation (singletons (ascending wallets))

/-- `build_clusters` -/
def buildClusters (wallets : Finset String) (relations : List WalletRelation)
    (holdings buyVolumes : Option (Dict String ℚ)) : Except ClusterError (List WalletCluster) := do
  let parent ← parentsAfter wallets relations
  let (_, grouped) ← (ascending wallets).foldlM groupWallet (parent, Dict.empty)
  .ok ((sortedBy (·.1) grouped.entries).map
    (clusterOf relations (holdings.getD Dict.empty) (buyVolumes.getD Dict.empty)))

/-! ## The graph of the eligible relations -/

/-- The pairs of the eligible relations. -/
def eligiblePairs (relations : List WalletRelation) : List (String × String) :=
  (relations.filter (·.eligibleForCluster)).map fun relation => (relation.walletA, relation.walletB)

/-- The eligible relations are between wallets of the set. -/
def InScope (wallets : Finset String) (relations : List WalletRelation) : Prop :=
  ∀ relation ∈ relations, relation.eligibleForCluster = true →
    relation.walletA ∈ wallets ∧ relation.walletB ∈ wallets

theorem mem_eligiblePairs {relations : List WalletRelation} {pair : String × String} :
    pair ∈ eligiblePairs relations ↔ ∃ relation ∈ relations,
      relation.eligibleForCluster = true ∧ (relation.walletA, relation.walletB) = pair := by
  simp only [eligiblePairs, List.mem_map, List.mem_filter, and_assoc]

theorem eligiblePairs_congr {relations relations' : List WalletRelation}
    (h : ∀ relation, relation ∈ relations' ↔ relation ∈ relations) (pair : String × String) :
    pair ∈ eligiblePairs relations' ↔ pair ∈ eligiblePairs relations := by
  simp only [mem_eligiblePairs, h]

section Run

variable {wallets : Finset String}

/-- The relations of the loop are the unions of the eligible pairs. -/
theorem uniteRelation_spec {parent : Dict String String} {relation : WalletRelation}
    (h : Reached (ascending wallets) parent)
    (hscope : relation.eligibleForCluster = true →
      relation.walletA ∈ wallets ∧ relation.walletB ∈ wallets) :
    ∃ next, uniteRelation parent relation = .ok next ∧
      United (ascending wallets) parent next (eligiblePairs [relation]) := by
  unfold uniteRelation
  cases heligible : relation.eligibleForCluster with
  | false =>
      have hnil : eligiblePairs [relation] = [] := by simp [eligiblePairs, heligible]
      exact ⟨parent, rfl, hnil ▸ .refl h⟩
  | true =>
      have hpairs : eligiblePairs [relation] = [(relation.walletA, relation.walletB)] := by
        simp [eligiblePairs, heligible]
      obtain ⟨hA, hB⟩ := hscope heligible
      have hcontains {wallet : String} (hmem : wallet ∈ wallets) :
          parent.contains wallet = true := by
        refine Dict.contains_eq_true.mpr (h.forest.total wallet ?_)
        exact List.mem_toFinset.mpr (mem_ascending.mpr hmem)
      obtain ⟨next, hunion, hunited⟩ :=
        union_spec h (mem_ascending.mpr hA) (mem_ascending.mpr hB)
      refine ⟨next, ?_, hpairs ▸ hunited⟩
      simp [hcontains hA, hcontains hB, hunion]

theorem foldlM_uniteRelation {parent : Dict String String} {relations : List WalletRelation}
    (h : Reached (ascending wallets) parent) (hscope : InScope wallets relations) :
    ∃ next, relations.foldlM uniteRelation parent = .ok next ∧
      United (ascending wallets) parent next (eligiblePairs relations) := by
  induction relations generalizing parent with
  | nil => exact ⟨parent, rfl, .refl h⟩
  | cons relation relations ih =>
      obtain ⟨hfirst, hrest⟩ := List.forall_mem_cons.mp hscope
      obtain ⟨mid, hunite, hunited⟩ := uniteRelation_spec h hfirst
      obtain ⟨next, hfold, hunited'⟩ := ih hunited.reached hrest
      refine ⟨next, ?_, ?_⟩
      · rw [List.foldlM_cons, hunite]
        exact hfold
      · have hsplit : eligiblePairs (relation :: relations) =
            eligiblePairs [relation] ++ eligiblePairs relations := by
          rw [eligiblePairs, ← List.singleton_append, List.filter_append, List.map_append]
          rfl
        exact hsplit ▸ hunited.trans hunited'

theorem parentsAfter_spec {relations : List WalletRelation} (hscope : InScope wallets relations) :
    ∃ parent, parentsAfter wallets relations = .ok parent ∧
      United (ascending wallets) (singletons (ascending wallets)) parent
        (eligiblePairs relations) :=
  foldlM_uniteRelation .start hscope

/-- The finds of the second loop group the wallets by their roots. -/
theorem foldlM_groupWallet {parent : Dict String String} {root : String → String}
    (hroot : ∀ wallet ∈ wallets, RootOf parent wallet (root wallet)) :
    ∀ (rest done : List String) {current : Dict String String},
      Reached (ascending wallets) current → (∀ x r, RootOf current x r ↔ RootOf parent x r) →
      (∀ wallet ∈ rest, wallet ∈ wallets) →
      ∃ next, rest.foldlM groupWallet (current, Dict.group root done) =
          .ok (next, Dict.group root (done ++ rest)) ∧
        Reached (ascending wallets) next ∧ ∀ x r, RootOf next x r ↔ RootOf parent x r
  | [], done, current, hreached, hiff, _ =>
      ⟨current, by rw [List.append_nil]; rfl, hreached, hiff⟩
  | wallet :: rest, done, current, hreached, hiff, hmem => by
      obtain ⟨hwallet, hrest⟩ := List.forall_mem_cons.mp hmem
      obtain ⟨r, mid, hfind, hfound⟩ := find_spec hreached (mem_ascending.mpr hwallet)
      have hr : r = root wallet := ((hiff _ _).mp hfound.root).unique (hroot wallet hwallet)
      have hgroup : groupWallet (current, Dict.group root done) wallet =
          .ok (mid, Dict.group root (done ++ [wallet])) := by
        unfold groupWallet Dict.group
        rw [List.foldl_concat, ← hr]
        simp only [hfind]
      obtain ⟨next, hfold, hnext⟩ := foldlM_groupWallet hroot rest (done ++ [wallet])
        hfound.reached (fun x s => (hfound.rootOf_iff x s).trans (hiff x s)) hrest
      refine ⟨next, ?_, hnext⟩
      rw [List.append_assoc, List.singleton_append] at hfold
      rw [List.foldlM_cons, hgroup]
      exact hfold

/-! ## Leaders -/

/-- A wallet of each component, the least one, that stands for it. -/
structure Leads (wallets : Finset String) (relations : List WalletRelation)
    (leader : String → String) : Prop where
  mem : ∀ wallet ∈ wallets, leader wallet ∈ wallets
  le : ∀ wallet ∈ wallets, leader wallet ≤ wallet
  joined : ∀ wallet ∈ wallets, Joined (eligiblePairs relations) wallet (leader wallet)
  eq_iff : ∀ u ∈ wallets, ∀ v ∈ wallets,
    leader u = leader v ↔ Joined (eligiblePairs relations) u v

namespace Leads

variable {relations relations' : List WalletRelation} {leader leader' : String → String}

theorem leader_leader (h : Leads wallets relations leader) {wallet : String}
    (hmem : wallet ∈ wallets) : leader (leader wallet) = leader wallet :=
  ((h.eq_iff _ hmem _ (h.mem _ hmem)).mpr (h.joined _ hmem)).symm

theorem le_of_congr (h : Leads wallets relations leader) (h' : Leads wallets relations' leader')
    (hsame : Joined (eligiblePairs relations') = Joined (eligiblePairs relations)) {wallet : String}
    (hmem : wallet ∈ wallets) : leader wallet ≤ leader' wallet := by
  have hjoined : Joined (eligiblePairs relations) wallet (leader' wallet) :=
    hsame ▸ h'.joined wallet hmem
  rw [(h.eq_iff _ hmem _ (h'.mem _ hmem)).mpr hjoined]
  exact h.le _ (h'.mem _ hmem)

/-- Relations with the same components have the same leaders. -/
theorem eq_of_congr (h : Leads wallets relations leader) (h' : Leads wallets relations' leader')
    (hsame : Joined (eligiblePairs relations') = Joined (eligiblePairs relations)) {wallet : String}
    (hmem : wallet ∈ wallets) : leader wallet = leader' wallet :=
  le_antisymm (h.le_of_congr h' hsame hmem) (h'.le_of_congr h hsame.symm hmem)

end Leads

/-- The clusters of the leaders. -/
def clustersOf (wallets : Finset String) (leader : String → String)
    (relations : List WalletRelation) (holdings buyVolumes : Dict String ℚ) : List WalletCluster :=
  (sortedBy (·.1) (Dict.group leader (ascending wallets)).entries).map
    (clusterOf relations holdings buyVolumes)

/-- The roots of the wallets, as a function. -/
theorem exists_leader {parent : Dict String String} (h : Reached (ascending wallets) parent) :
    ∃ leader : String → String, ∀ wallet ∈ wallets, RootOf parent wallet (leader wallet) := by
  have hexists (wallet : String) : ∃ root, wallet ∈ wallets → RootOf parent wallet root := by
    by_cases hmem : wallet ∈ wallets
    · have hnode : wallet ∈ (ascending wallets).toFinset := by rwa [toFinset_ascending]
      obtain ⟨root, hroot⟩ := h.forest.exists_root hnode
      exact ⟨root, fun _ => hroot⟩
    · exact ⟨wallet, fun h => absurd h hmem⟩
  choose leader hleader using hexists
  exact ⟨leader, hleader⟩

/-- The roots after the unions lead the wallets, and the clusters are theirs. -/
theorem buildClusters_eq {relations : List WalletRelation} (hscope : InScope wallets relations) :
    ∃ leader, Leads wallets relations leader ∧ ∀ holdings buyVolumes,
      buildClusters wallets relations holdings buyVolumes =
        .ok (clustersOf wallets leader relations (holdings.getD Dict.empty)
          (buyVolumes.getD Dict.empty)) := by
  obtain ⟨parent, hafter, hunited⟩ := parentsAfter_spec hscope
  have hforest := hunited.reached.forest
  obtain ⟨leader, hleader⟩ := exists_leader hunited.reached
  have hsame (u v : String) (hu : u ∈ wallets) :=
    sameTree_iff_joined hunited (b := v) (mem_ascending.mpr hu)
  refine ⟨leader, ⟨fun wallet hmem => ?_, fun wallet hmem => hforest.root_le (hleader _ hmem),
    fun wallet hmem => ?_, fun u hu v hv => ?_⟩, fun holdings buyVolumes => ?_⟩
  · exact mem_ascending.mp (List.mem_toFinset.mp (hforest.mem_of_rootOf (hleader _ hmem)).2)
  · exact (hsame _ _ hmem).mp ⟨_, hleader _ hmem, .here (hleader _ hmem).isRoot⟩
  · rw [← hsame u v hu]
    constructor
    · intro heq
      exact ⟨leader u, hleader u hu, heq ▸ hleader v hv⟩
    · intro ⟨root, hroot, hroot'⟩
      exact ((hleader u hu).unique hroot).trans (hroot'.unique (hleader v hv))
  · obtain ⟨next, hfold, _⟩ := foldlM_groupWallet hleader (ascending wallets) [] hunited.reached
      (fun _ _ => Iff.rfl) fun _ => mem_ascending.mp
    have hfold : (ascending wallets).foldlM groupWallet (parent, Dict.empty) =
        .ok (next, Dict.group leader (ascending wallets)) := hfold
    simp only [buildClusters, hafter, hfold, clustersOf, bind, Except.bind]

/-! ## Components -/

/-- The clusters are the components of the graph of the eligible relations. -/
structure Components (wallets : Finset String) (relations : List WalletRelation)
    (clusters : List WalletCluster) : Prop where
  cover : ∀ wallet, wallet ∈ wallets ↔ ∃ cluster ∈ clusters, wallet ∈ cluster.wallets
  disjoint : clusters.Pairwise fun c d => c.wallets.Disjoint d.wallets
  ascending : ∀ cluster ∈ clusters, cluster.wallets.Pairwise (· < ·)
  joined : ∀ cluster ∈ clusters, ∀ u ∈ cluster.wallets, ∀ v,
    v ∈ cluster.wallets ↔ Joined (eligiblePairs relations) u v
  least : ∀ cluster ∈ clusters,
    cluster.clusterId ∈ cluster.wallets ∧ ∀ wallet ∈ cluster.wallets, cluster.clusterId ≤ wallet

section Members

variable {relations : List WalletRelation} {leader : String → String}
  {holdings buyVolumes : Dict String ℚ}

theorem mem_clustersOf {cluster : WalletCluster}
    (h : cluster ∈ clustersOf wallets leader relations holdings buyVolumes) :
    cluster.wallets = (ascending wallets).filter (fun wallet => leader wallet = cluster.clusterId) ∧
      cluster.wallets ≠ [] := by
  obtain ⟨⟨root, members⟩, hentry, rfl⟩ := List.mem_map.mp h
  have hgroup := mem_sortedBy.mp hentry
  exact ⟨Dict.mem_group hgroup, Dict.group_ne_nil leader _ hgroup⟩

theorem mem_wallets_iff {cluster : WalletCluster}
    (h : cluster ∈ clustersOf wallets leader relations holdings buyVolumes) (wallet : String) :
    wallet ∈ cluster.wallets ↔ wallet ∈ wallets ∧ leader wallet = cluster.clusterId := by
  rw [(mem_clustersOf h).1, List.mem_filter, mem_ascending, decide_eq_true_iff]

/-- Every wallet is in the cluster of its leader. -/
theorem exists_cluster {wallet : String} (hmem : wallet ∈ wallets) :
    ∃ cluster ∈ clustersOf wallets leader relations holdings buyVolumes,
      wallet ∈ cluster.wallets := by
  have hgroup := Dict.get?_group leader (ascending wallets) (leader wallet)
  have hin : wallet ∈ ((Dict.group leader (ascending wallets)).get? (leader wallet)).getD [] := by
    rw [hgroup]
    exact List.mem_filter.mpr ⟨mem_ascending.mpr hmem, decide_eq_true rfl⟩
  cases hget : (Dict.group leader (ascending wallets)).get? (leader wallet) with
  | none => simp [hget] at hin
  | some members =>
      rw [hget, Option.getD_some] at hin
      refine ⟨_, List.mem_map.mpr ⟨(leader wallet, members), ?_, rfl⟩, hin⟩
      exact mem_sortedBy.mpr (Dict.mem_entries.mpr hget)

theorem mem_of_joined (hscope : InScope wallets relations) {u v : String} (hu : u ∈ wallets)
    (h : Joined (eligiblePairs relations) u v) : v ∈ wallets := by
  induction h with
  | refl => exact hu
  | tail _ hadjacent _ =>
      obtain hpair | hpair := hadjacent
      · obtain ⟨relation, hmem, heligible, heq⟩ := mem_eligiblePairs.mp hpair
        obtain ⟨rfl, rfl⟩ := Prod.mk.inj heq
        exact (hscope relation hmem heligible).2
      · obtain ⟨relation, hmem, heligible, heq⟩ := mem_eligiblePairs.mp hpair
        obtain ⟨rfl, rfl⟩ := Prod.mk.inj heq
        exact (hscope relation hmem heligible).1

theorem clustersOf_components (hscope : InScope wallets relations)
    (h : Leads wallets relations leader) :
    Components wallets relations (clustersOf wallets leader relations holdings buyVolumes) where
  cover wallet := by
    constructor
    · exact exists_cluster
    · intro ⟨cluster, hcluster, hmem⟩
      exact ((mem_wallets_iff hcluster wallet).mp hmem).1
  disjoint := by
    have hkeys : ((sortedBy (·.1) (Dict.group leader (ascending wallets)).entries).map
        (·.1)).Nodup :=
      ((sortedBy_perm _ _).map _).nodup_iff.mpr (Dict.group leader (ascending wallets)).nodup
    have hpairs := (List.pairwise_map.mp hkeys)
    refine List.pairwise_map.mpr (hpairs.imp_of_mem fun {c d} hc hd hne => ?_)
    intro wallet hleft hright
    have hleft := (mem_wallets_iff (List.mem_map_of_mem hc) wallet).mp hleft
    have hright := (mem_wallets_iff (List.mem_map_of_mem hd) wallet).mp hright
    exact hne (hleft.2.symm.trans hright.2)
  ascending cluster hcluster := by
    rw [(mem_clustersOf hcluster).1]
    exact (ascending_strict wallets).filter _
  joined cluster hcluster u hu v := by
    obtain ⟨hmem, hleader⟩ := (mem_wallets_iff hcluster u).mp hu
    rw [mem_wallets_iff hcluster v, ← hleader]
    constructor
    · intro ⟨hv, heq⟩
      exact (h.eq_iff u hmem v hv).mp heq.symm
    · intro hjoined
      have hv := mem_of_joined hscope hmem hjoined
      exact ⟨hv, ((h.eq_iff u hmem v hv).mpr hjoined).symm⟩
  least cluster hcluster := by
    constructor
    · obtain ⟨wallet, hwallet⟩ := List.exists_mem_of_ne_nil _ (mem_clustersOf hcluster).2
      obtain ⟨hmem, hleader⟩ := (mem_wallets_iff hcluster wallet).mp hwallet
      rw [mem_wallets_iff hcluster, ← hleader]
      exact ⟨h.mem wallet hmem, h.leader_leader hmem⟩
    · intro wallet hwallet
      obtain ⟨hmem, hleader⟩ := (mem_wallets_iff hcluster wallet).mp hwallet
      exact hleader ▸ h.le wallet hmem

end Members

/-! ## The result -/

/-- A cluster without the relations that explain it. -/
def WalletCluster.unexplained (cluster : WalletCluster) : WalletCluster :=
  { cluster with relationExplanations := [] }

theorem unexplained_clustersOf {relations relations' : List WalletRelation}
    {leader leader' : String → String} (h : ∀ wallet ∈ wallets, leader wallet = leader' wallet)
    (holdings buyVolumes : Dict String ℚ) :
    (clustersOf wallets leader' relations' holdings buyVolumes).map (·.unexplained) =
      (clustersOf wallets leader relations holdings buyVolumes).map (·.unexplained) := by
  have hgroup : Dict.group leader' (ascending wallets) = Dict.group leader (ascending wallets) :=
    List.foldl_ext _ _ _ fun d wallet hmem => by rw [h wallet (mem_ascending.mp hmem)]
  rw [clustersOf, clustersOf, hgroup, List.map_map, List.map_map]
  rfl

theorem groupWallet_reached {relations : List WalletRelation} (hscope : InScope wallets relations)
    {parent : Dict String String} (hparent : parentsAfter wallets relations = .ok parent)
    {first : List String} (hfirst : first <+: ascending wallets) :
    ∃ next grouped, first.foldlM groupWallet (parent, Dict.empty) = .ok (next, grouped) ∧
      Reached (ascending wallets) next := by
  obtain ⟨parent', hafter, hunited⟩ := parentsAfter_spec hscope
  obtain rfl := Except.ok.inj (hparent.symm.trans hafter)
  have hmem (wallet : String) (h : wallet ∈ first) : wallet ∈ wallets :=
    mem_ascending.mp (hfirst.subset h)
  obtain ⟨leader, hleader⟩ := exists_leader hunited.reached
  obtain ⟨next, hfold, hreached, _⟩ := foldlM_groupWallet hleader first [] hunited.reached
    (fun _ _ => Iff.rfl) hmem
  exact ⟨next, _, hfold, hreached⟩

/-- `build_clusters` returns the components, the least wallet of each as its id. The order of the
relations and their repetitions only show in the explanations, and the loop of `find` ends from
every parent map that comes up. -/
theorem buildClusters_components (wallets : Finset String) (relations : List WalletRelation)
    (hscope : InScope wallets relations) (holdings buyVolumes : Option (Dict String ℚ)) :
    ∃ clusters, buildClusters wallets relations holdings buyVolumes = .ok clusters ∧
      Components wallets relations clusters ∧
      (∀ cluster ∈ clusters, cluster.relationExplanations = relations.filter fun relation =>
        relation.walletA ∈ cluster.wallets ∧ relation.walletB ∈ cluster.wallets ∧
          relation.eligibleForCluster) ∧
      (∀ relations', (∀ relation, relation ∈ relations' ↔ relation ∈ relations) →
        ∃ clusters', buildClusters wallets relations' holdings buyVolumes = .ok clusters' ∧
          clusters'.map (·.unexplained) = clusters.map (·.unexplained)) ∧
      (∀ first, first <+: relations → ∃ parent, parentsAfter wallets first = .ok parent ∧
        Reached (ascending wallets) parent) ∧
      (∀ first, first <+: ascending wallets → ∀ parent,
        parentsAfter wallets relations = .ok parent →
        ∃ next grouped, first.foldlM groupWallet (parent, Dict.empty) = .ok (next, grouped) ∧
          Reached (ascending wallets) next) ∧
      ∀ parent, Reached (ascending wallets) parent → ∀ wallet ∈ wallets,
        ∃ result, find parent wallet = some result ∧
          ∀ fuel, wallets.card ≤ fuel → findFuel fuel parent wallet = some result := by
  obtain ⟨leader, hleads, hbuild⟩ := buildClusters_eq hscope
  refine ⟨_, hbuild holdings buyVolumes, clustersOf_components hscope hleads, ?_, ?_, ?_,
    fun first hfirst parent hparent => groupWallet_reached hscope hparent hfirst, ?_⟩
  · intro cluster hcluster
    obtain ⟨group, _, rfl⟩ := List.mem_map.mp hcluster
    rfl
  · intro relations' hsame
    have hscope' : InScope wallets relations' := fun relation hmem =>
      hscope relation ((hsame relation).mp hmem)
    obtain ⟨leader', hleads', hbuild'⟩ := buildClusters_eq hscope'
    have hjoined := joined_congr (eligiblePairs_congr hsame)
    exact ⟨_, hbuild' holdings buyVolumes, unexplained_clustersOf
      (fun wallet hmem => hleads.eq_of_congr hleads' hjoined hmem) _ _⟩
  · intro first hfirst
    obtain ⟨parent, hafter, hunited⟩ := parentsAfter_spec
      fun relation hmem => hscope relation (hfirst.subset hmem)
    exact ⟨parent, hafter, hunited.reached⟩
  · intro parent hreached wallet hmem
    obtain ⟨result, hfind, hfuel⟩ := find_terminates hreached (mem_ascending.mpr hmem)
    exact ⟨result, hfind, toFinset_ascending wallets ▸ hfuel⟩

end Run

/-! ## One relation, given twice -/

def sharedFunderRelation : WalletRelation :=
  scoreRelation "A" "B" { sameInitialFunder := true }

theorem buildClusters_components_pair :
    ∃ clusters, buildClusters {"A", "B", "C"} [sharedFunderRelation] none none = .ok clusters ∧
      Components {"A", "B", "C"} [sharedFunderRelation] clusters := by
  have hscope : InScope {"A", "B", "C"} [sharedFunderRelation] := by
    unfold InScope
    decide +kernel
  obtain ⟨clusters, hbuild, hcomponents, _⟩ :=
    buildClusters_components {"A", "B", "C"} [sharedFunderRelation] hscope none none
  exact ⟨clusters, hbuild, hcomponents⟩

/-- The cluster explains itself with the relation once or twice, as it was given. -/
theorem explanations_follow_the_list :
    (buildClusters {"A", "B"} [sharedFunderRelation] none none).map
        (·.map fun cluster => (cluster.wallets, cluster.relationExplanations.length)) =
      .ok [(["A", "B"], 1)] ∧
    (buildClusters {"A", "B"} [sharedFunderRelation, sharedFunderRelation] none none).map
        (·.map fun cluster => (cluster.wallets, cluster.relationExplanations.length)) =
      .ok [(["A", "B"], 2)] ∧
    ¬ ∀ (wallets : Finset String) (relations relations' : List WalletRelation),
      InScope wallets relations →
      (∀ relation, relation ∈ relations' ↔ relation ∈ relations) →
      buildClusters wallets relations' none none = buildClusters wallets relations none none := by
  refine ⟨by decide +kernel, by decide +kernel, fun h => ?_⟩
  have hscope : InScope {"A", "B"} [sharedFunderRelation] := by
    unfold InScope
    decide +kernel
  have hrun := h {"A", "B"} [sharedFunderRelation] [sharedFunderRelation, sharedFunderRelation]
    hscope (by simp)
  exact absurd hrun (by decide +kernel)

end SniperBot.Wallets
