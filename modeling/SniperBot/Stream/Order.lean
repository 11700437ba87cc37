import SniperBot.Stream.Gap

/-!
# The order of a recovery

The listings are newest first, and `_recover_gap` sorts what they gave by slot, with a stable sort.
So the slots ascend, and inside a slot the transactions of a program stay newest first. The queue
and the checkpoints follow that order.

`recovered_in_chain_order_iff` says when it is the order of the chain; in `shared_slot_reversed`
two transactions of one slot come back reversed, and the checkpoint is the older one.
-/

namespace SniperBot.Stream

open Basis Features

/-! ## The order of the chain -/

/-- The first signature landed before the second: a listing has it behind. -/
def Older (history : Nat → Protocol → List SignatureItem) (program : Protocol)
    (older newer : String) : Prop :=
  ∃ call, [newer, older].Sublist ((history call program).map SignatureItem.signature)

/-- A recovered transaction, as it is queued. -/
abbrev RecoveredEvent := Protocol × Transaction × EventSource

def RecoveredEvent.slot (event : RecoveredEvent) : Nat := event.2.1.slot.getD 0

/-- Slots do not descend, and within a slot and a program the older transaction comes first. -/
structure ChainOrdered (history : Nat → Protocol → List SignatureItem)
    (recovered : RecoveredEvents) : Prop where
  slots : recovered.Pairwise fun a b => RecoveredEvent.slot a ≤ RecoveredEvent.slot b
  withinSlot : ∀ a ∈ recovered, ∀ b ∈ recovered, a.1 = b.1 →
    RecoveredEvent.slot a = RecoveredEvent.slot b → ∀ older newer,
      a.2.1.signature = some older → b.2.1.signature = some newer →
        Older history a.1 older newer → [a, b].Sublist recovered

/-- After the commit, the checkpoint of a program is its newest recovered transaction. -/
def CheckpointsNewest (history : Nat → Protocol → List SignatureItem) (s : Gateway)
    (recovered : RecoveredEvents) : Prop :=
  ∀ a ∈ recovered, ∀ newest, a.2.1.signature = some newest →
    (∀ b ∈ recovered, b.1 = a.1 → b ≠ a → ∀ signature, b.2.1.signature = some signature →
      Older history a.1 signature newest) →
    (s.commitRecoveredEvents recovered).lastSignatures.get? a.1 = some newest

/-- The transactions of the provider are in the slots in which they are listed. -/
def RpcClient.AgreesOnSlots (rpc : RpcClient) (history : Nat → Protocol → List SignatureItem) :
    Prop :=
  ∀ call program, ∀ item ∈ history call program, ∀ transaction,
    rpc.getTransaction program item.signature = .ok (some transaction) →
      transaction.slot.getD item.slot = item.slot

/-- The provider returns the transaction. -/
def RpcClient.returns (rpc : RpcClient) (program : Protocol) (signature : String) : Bool :=
  match rpc.getTransaction program signature with
  | .ok (some _) => true
  | _ => false

/-- The listed transactions that are recovered: successful ones that the provider returns. -/
def recoverable (rpc : RpcClient) (program : Protocol) (listed : List SignatureItem) :
    List SignatureItem :=
  listed.filter fun item =>
    ¬ item.failed ∧ item.signature ≠ "" ∧ rpc.returns program item.signature

/-- The number of the listing call with which the loop of a program begins. -/
def listingCall (rpc : RpcClient) (checkpoints : Dict Protocol String) (fuel : Nat) :
    Protocol → Nat
  | .pump => 0
  | .pumpswap =>
      match recoverPages rpc .pump (checkpoints.get? .pump) fuel 0 none Dict.empty with
      | some (.ok (_, call)) => call
      | _ => 0

/-! ## The recovered transactions -/

/-- The transaction of a listed entry, as it is stored. -/
def storedTransaction (rpc : RpcClient) (program : Protocol) (item : SignatureItem) :
    Protocol × Transaction :=
  match rpc.getTransaction program item.signature with
  | .ok (some transaction) => (program, transaction.setDefaultSlot item.slot)
  | _ => (program, ⟨none, none⟩)

section Stored

variable {rpc : RpcClient} {history : Nat → Protocol → List SignatureItem}
  {checkpoints : Dict Protocol String} {program : Protocol}

theorem fetchTransaction_eq {item : SignatureItem} {result : Option (String × Transaction)}
    (h : fetchTransaction rpc program item = .ok result) :
    result =
      if ¬ item.failed ∧ item.signature ≠ "" ∧ rpc.returns program item.signature then
        some (item.signature, (storedTransaction rpc program item).2)
      else none := by
  unfold fetchTransaction at h
  split_ifs at h with hfailed hsignature
  · cases h
    rw [if_neg fun hgood => hgood.1 hfailed]
  · cases h
    rw [if_neg fun hgood => hgood.2.1 hsignature]
  · unfold RpcClient.returns storedTransaction
    cases hanswer : rpc.getTransaction program item.signature with
    | error e =>
        rw [hanswer] at h
        cases h
    | ok answer =>
        rw [hanswer] at h
        cases answer with
        | none =>
            cases h
            exact (if_neg fun hgood => Bool.false_ne_true hgood.2.2).symm
        | some transaction =>
            cases h
            exact (if_pos ⟨hfailed, hsignature, rfl⟩).symm

/-- The results of the fetches are the recoverable entries, in the order of the listing. -/
theorem fetched_eq {listed : List SignatureItem} {fetched : List (Option (String × Transaction))}
    (h : listed.mapM (fetchTransaction rpc program) = .ok fetched) :
    fetched.reduceOption = (recoverable rpc program listed).map fun item =>
      (item.signature, (storedTransaction rpc program item).2) := by
  induction listed generalizing fetched with
  | nil =>
      cases h
      rfl
  | cons item listed ih =>
      rw [List.mapM_cons] at h
      cases hitem : fetchTransaction rpc program item with
      | error e =>
          rw [hitem] at h
          cases h
      | ok first =>
          rw [hitem] at h
          cases hrest : listed.mapM (fetchTransaction rpc program) with
          | error e =>
              rw [hrest] at h
              cases h
          | ok rest =>
              rw [hrest] at h
              cases h
              obtain rfl := fetchTransaction_eq hitem
              unfold recoverable
              split_ifs with hgood
              · rw [List.filter_cons_of_pos (by simpa using hgood), List.map_cons,
                  List.reduceOption_cons_of_some]
                exact congrArg _ (ih hrest)
              · rw [List.filter_cons_of_neg (by simpa using hgood), List.reduceOption_cons_of_none]
                exact ih hrest

/-- Entries under new and different keys are appended. -/
theorem values_storeFetched (recovered : Recovered) {items : List SignatureItem}
    (hnodup : (items.map SignatureItem.signature).Nodup)
    (hnew : ∀ item ∈ items, recovered.get? (program, item.signature) = none)
    {fetched : List (Option (String × Transaction))}
    (hfetched : fetched.reduceOption = items.map fun item =>
      (item.signature, (storedTransaction rpc program item).2)) :
    (storeFetched program recovered fetched).values =
        recovered.values ++ items.map (storedTransaction rpc program) ∧
      ∀ other signature, other ≠ program →
        (storeFetched program recovered fetched).get? (other, signature) =
          recovered.get? (other, signature) := by
  unfold storeFetched
  rw [hfetched]
  clear hfetched
  induction items generalizing recovered with
  | nil => exact ⟨(List.append_nil _).symm, fun _ _ _ => rfl⟩
  | cons item items ih =>
      rw [List.map_cons, List.nodup_cons] at hnodup
      rw [List.map_cons, List.foldl_cons]
      have hlabel : (storedTransaction rpc program item).1 = program := by
        unfold storedTransaction
        split <;> rfl
      have hpair : (program, (storedTransaction rpc program item).2) =
          storedTransaction rpc program item := Prod.ext hlabel.symm rfl
      dsimp only
      rw [hpair]
      have hfirst := hnew item List.mem_cons_self
      have hrest : ∀ other ∈ items, (recovered.set (program, item.signature)
          (storedTransaction rpc program item)).get? (program, other.signature) = none := by
        intro other hother
        rw [Dict.get?_set_ne]
        · exact hnew other (List.mem_cons_of_mem _ hother)
        · intro hsame
          exact hnodup.1 ((Prod.mk.inj hsame).2 ▸ List.mem_map_of_mem hother)
      obtain ⟨hvalues, hothers⟩ := ih _ hnodup.2 hrest
      refine ⟨?_, ?_⟩
      · rw [hvalues]
        unfold Dict.values
        rw [Dict.entries_set_new hfirst, List.map_append, List.map_cons, List.append_assoc]
        rfl
      · intro other signature hother
        rw [hothers other signature hother, Dict.get?_set_ne]
        intro hsame
        exact hother (Prod.mk.inj hsame).1.symm

/-- An entry of the list that a recovery returns. -/
def eventOf (rpc : RpcClient) (program : Protocol) (item : SignatureItem) : RecoveredEvent :=
  (program, (storedTransaction rpc program item).2, .rpcRecovery)

/-- What a recovery finds of a program, newest first. -/
def recoverableOf (rpc : RpcClient) (history : Nat → Protocol → List SignatureItem)
    (checkpoints : Dict Protocol String) (fuel : Nat) (program : Protocol) : List SignatureItem :=
  recoverable rpc program
    (listing history checkpoints (listingCall rpc checkpoints fuel program) program)

theorem recoverableOf_sublist (fuel : Nat) :
    (recoverableOf rpc history checkpoints fuel program).Sublist
      (history (listingCall rpc checkpoints fuel program) program) :=
  List.filter_sublist.trans (listing_sublist _ _ _ _)

/-- A loop that returns has appended what it found. -/
theorem values_recoverPages (h : rpc.Serves history checkpoints) {fuel call last : Nat}
    {recovered after : Recovered}
    (hnew : ∀ signature, recovered.get? (program, signature) = none)
    (hreturns : recoverPages rpc program (checkpoints.get? program) fuel call none recovered =
      some (.ok (after, last))) :
    after.values = recovered.values ++
        (recoverable rpc program (listing history checkpoints call program)).map
          (storedTransaction rpc program) ∧
      ∀ other signature, other ≠ program →
        after.get? (other, signature) = recovered.get? (other, signature) := by
  rcases recoverPages_listing h program call recovered fuel with ⟨hnone, -⟩ | ⟨last', hsome⟩
  · rw [hnone] at hreturns
    cases hreturns
  · rw [hsome] at hreturns
    cases hfetched : (listing history checkpoints call program).mapM
        (fetchTransaction rpc program) with
    | error e =>
        rw [hfetched] at hreturns
        cases hreturns
    | ok fetched =>
        rw [hfetched] at hreturns
        cases hreturns
        refine values_storeFetched recovered ?_ (fun item _ => hnew item.signature)
          (fetched_eq hfetched)
        exact (h.distinct call program).sublist
          ((List.filter_sublist.trans (listing_sublist _ _ _ _)).map _)

/-- The list that a recovery returns: what was found, sorted by slot. -/
theorem recoverGap_eq (h : rpc.Serves history checkpoints) {fuel : Nat}
    {recovered : RecoveredEvents}
    (hreturns : recoverGap rpc checkpoints fuel = some (.ok recovered)) :
    recovered =
      ((recoverableOf rpc history checkpoints fuel .pump).map (eventOf rpc .pump) ++
        (recoverableOf rpc history checkpoints fuel .pumpswap).map
          (eventOf rpc .pumpswap)).insertionSort
            fun a b => RecoveredEvent.slot a ≤ RecoveredEvent.slot b := by
  have hlabel : ∀ program item, (storedTransaction rpc program item).1 = program := by
    intro program item
    unfold storedTransaction
    split <;> rfl
  have hevent : ∀ program,
      (fun item : Protocol × Transaction => ((item.1, item.2, .rpcRecovery) : RecoveredEvent)) ∘
        storedTransaction rpc program = eventOf rpc program := by
    intro program
    funext item
    exact Prod.ext (hlabel program item) rfl
  rw [recoverGap] at hreturns
  unfold recoverableOf listingCall
  split at hreturns
  · cases hreturns
  · cases hreturns
  rename_i pumps call hpump
  split at hreturns
  · cases hreturns
  · cases hreturns
  rename_i all last hpumpswap
  cases hreturns
  rw [hpump]
  obtain ⟨hpumps, hothers⟩ := values_recoverPages h (fun _ => Dict.get?_empty _) hpump
  obtain ⟨hall, -⟩ := values_recoverPages h
    (fun signature => (hothers .pumpswap signature (by decide)).trans (Dict.get?_empty _)) hpumpswap
  unfold orderRecovered
  refine (List.map_insertionSort _ (fun a b => RecoveredEvent.slot a ≤ RecoveredEvent.slot b) _ _
    fun _ _ _ _ => Iff.rfl).trans ?_
  rw [hall, hpumps]
  simp only [List.map_append, List.map_map, hevent]
  rfl

end Stored

/-! ## Two entries of one history -/

/-- A list without duplicates has two entries in one order only. -/
theorem not_sublist_swap {α : Type} {l : List α} (hnodup : l.Nodup) {a b : α}
    (hab : [a, b].Sublist l) (hba : [b, a].Sublist l) : False := by
  induction l with
  | nil => cases hab
  | cons x l ih =>
      obtain ⟨hx, hrest⟩ := List.nodup_cons.mp hnodup
      cases hab with
      | cons _ hab =>
          cases hba with
          | cons _ hba => exact ih hrest hab hba
          | cons_cons _ hba => exact hx (hab.subset (List.mem_cons_of_mem _ List.mem_cons_self))
      | cons_cons _ hab =>
          cases hba with
          | cons _ hba => exact hx (hba.subset (List.mem_cons_of_mem _ List.mem_cons_self))
          | cons_cons _ hba => exact hx (hab.subset List.mem_cons_self)

section History

variable {rpc : RpcClient} {history : Nat → Protocol → List SignatureItem}
  {checkpoints : Dict Protocol String} {program : Protocol}

theorem history_suffix (h : rpc.Serves history checkpoints) {call later : Nat}
    (hle : call ≤ later) : history call program <:+ history later program := by
  induction hle with
  | refl => exact List.suffix_refl _
  | step _ ih =>
      obtain ⟨landed, hgrown, -⟩ := h.grows _ program
      rw [Nat.succ_eq_add_one, hgrown]
      exact ih.trans (List.suffix_append _ _)

/-- An older transaction is in no later slot. -/
theorem Older.slot_le (h : rpc.Serves history checkpoints)
    (hchain : ∀ call program, (history call program).Pairwise fun newer older =>
      older.slot ≤ newer.slot)
    {call : Nat} {a b : SignatureItem} (ha : a ∈ history call program)
    (hb : b ∈ history call program) (holder : Older history program a.signature b.signature) :
    a.slot ≤ b.slot := by
  obtain ⟨other, hsub⟩ := holder
  -- both calls are seen from a later one
  have hown := (history_suffix h (le_max_left call other)).subset (a := a) ha
  have hown' := (history_suffix h (le_max_left call other)).subset (a := b) hb
  have hsuffix : history other program <:+ history (max call other) program :=
    history_suffix h (le_max_right call other)
  have hlater := hsub.trans (hsuffix.sublist.map _)
  obtain ⟨pair, hpair, heq⟩ := List.sublist_map_iff.mp hlater
  obtain ⟨b', rest, rfl, hb', hrest⟩ := List.map_eq_cons_iff.mp heq.symm
  obtain ⟨a', rest', rfl, ha', hnil⟩ := List.map_eq_cons_iff.mp hrest
  obtain rfl := List.map_eq_nil_iff.mp hnil
  have hdistinct := h.distinct (max call other) program
  obtain rfl := List.inj_on_of_nodup_map hdistinct
    (hpair.subset (List.mem_cons_of_mem _ List.mem_cons_self)) hown ha'
  obtain rfl := List.inj_on_of_nodup_map hdistinct (hpair.subset List.mem_cons_self) hown' hb'
  have hordered := (hchain (max call other) program).sublist hpair
  exact (List.pairwise_cons.mp hordered).1 _ List.mem_cons_self

end History

/-! ## The commit -/

theorem commitRecoveredEvents_queue (s : Gateway) (recovered : RecoveredEvents) :
    (s.commitRecoveredEvents recovered).queue = s.queue ++ recovered := by
  unfold Gateway.commitRecoveredEvents
  induction recovered generalizing s with
  | nil => exact (List.append_nil _).symm
  | cons event recovered ih =>
      rw [List.foldl_cons, ih, List.append_assoc]
      rfl

/-- The last transaction of a program is its checkpoint. -/
theorem commitRecoveredEvents_checkpoint (s : Gateway) (before after : RecoveredEvents)
    {event : RecoveredEvent} {signature : String} (hsignature : event.2.1.signature = some signature)
    (hlast : ∀ other ∈ after, other.1 ≠ event.1) :
    (s.commitRecoveredEvents (before ++ event :: after)).lastSignatures.get? event.1 =
      some signature := by
  have hkept : ∀ (after : RecoveredEvents) (s : Gateway), (∀ other ∈ after, other.1 ≠ event.1) →
      (s.commitRecoveredEvents after).lastSignatures.get? event.1 =
        s.lastSignatures.get? event.1 := by
    intro after
    induction after with
    | nil => exact fun _ _ => rfl
    | cons other after ih =>
        intro s hothers
        refine (ih _ fun item hitem => hothers item (List.mem_cons_of_mem _ hitem)).trans ?_
        dsimp only
        cases other.2.1.signature with
        | none => rfl
        | some found => exact Dict.get?_set_ne _ (hothers other List.mem_cons_self) _
  have hsplit : s.commitRecoveredEvents (before ++ event :: after) =
      (((s.commitRecoveredEvents before).commitRecoveredEvents
        [event]).commitRecoveredEvents after) := by
    unfold Gateway.commitRecoveredEvents
    rw [List.foldl_append]
    rfl
  rw [hsplit, hkept after _ hlast]
  unfold Gateway.commitRecoveredEvents
  rw [List.foldl_cons, List.foldl_nil]
  dsimp only
  rw [hsignature]
  exact Dict.get?_set_self _ _ _

/-! ## When the order is that of the chain -/

section Order

variable {rpc : RpcClient} {history : Nat → Protocol → List SignatureItem}
  {checkpoints : Dict Protocol String} {program : Protocol} {fuel : Nat}
  {recovered : RecoveredEvents}

theorem mem_recovered (h : rpc.Serves history checkpoints)
    (hreturns : recoverGap rpc checkpoints fuel = some (.ok recovered)) (event : RecoveredEvent) :
    event ∈ recovered ↔
      ∃ item ∈ recoverableOf rpc history checkpoints fuel event.1,
        event = eventOf rpc event.1 item := by
  rw [recoverGap_eq h hreturns, List.mem_insertionSort, List.mem_append, List.mem_map,
    List.mem_map]
  obtain ⟨program, rest⟩ := event
  constructor
  · rintro (⟨item, hitem, heq⟩ | ⟨item, hitem, heq⟩)
    · obtain rfl := (Prod.mk.inj heq).1
      exact ⟨item, hitem, heq.symm⟩
    · obtain rfl := (Prod.mk.inj heq).1
      exact ⟨item, hitem, heq.symm⟩
  · rintro ⟨item, hitem, heq⟩
    cases program with
    | pump => exact Or.inl ⟨item, hitem, heq.symm⟩
    | pumpswap => exact Or.inr ⟨item, hitem, heq.symm⟩

/-- A recovered transaction has the signature and the slot of its entry. -/
theorem eventOf_spec (h : rpc.Serves history checkpoints) (hslots : rpc.AgreesOnSlots history)
    {item : SignatureItem} (hitem : item ∈ recoverableOf rpc history checkpoints fuel program) :
    (eventOf rpc program item).2.1.signature = some item.signature ∧
      (eventOf rpc program item).slot = item.slot := by
  have hlisted := (recoverableOf_sublist fuel).subset hitem
  have hreturned : rpc.returns program item.signature = true :=
    (of_decide_eq_true (List.mem_filter.mp hitem).2).2.2
  unfold RpcClient.returns at hreturned
  split at hreturned
  · rename_i transaction hanswer
    have hsignature : transaction.signature = some item.signature := h.fetches _ _ _ hanswer
    unfold RecoveredEvent.slot eventOf storedTransaction
    rw [hanswer]
    exact ⟨hsignature, hslots _ _ item hlisted _ hanswer⟩
  · cases hreturned

theorem recoverableOf_nodup (h : rpc.Serves history checkpoints) :
    ((recoverableOf rpc history checkpoints fuel program).map SignatureItem.signature).Nodup :=
  (h.distinct _ program).sublist ((recoverableOf_sublist fuel).map _)

theorem recovered_nodup (h : rpc.Serves history checkpoints) (hslots : rpc.AgreesOnSlots history)
    (hreturns : recoverGap rpc checkpoints fuel = some (.ok recovered)) : recovered.Nodup := by
  have hown : ∀ program, ((recoverableOf rpc history checkpoints fuel program).map
      (eventOf rpc program)).Nodup := by
    intro program
    refine List.Nodup.map_on ?_ (recoverableOf_nodup h).of_map
    intro a ha b hb heq
    refine List.inj_on_of_nodup_map (recoverableOf_nodup h) ha hb (Option.some.inj ?_)
    rw [← (eventOf_spec h hslots ha).1, ← (eventOf_spec h hslots hb).1, heq]
  rw [recoverGap_eq h hreturns]
  refine (List.perm_insertionSort _ _).nodup_iff.mpr (List.nodup_append.mpr ⟨hown _, hown _, ?_⟩)
  rintro a ha b hb rfl
  obtain ⟨item, -, hpump⟩ := List.mem_map.mp ha
  obtain ⟨item', -, hpumpswap⟩ := List.mem_map.mp hb
  cases congrArg Prod.fst (hpump.trans hpumpswap.symm)

theorem recovered_sorted (h : rpc.Serves history checkpoints)
    (hreturns : recoverGap rpc checkpoints fuel = some (.ok recovered)) :
    recovered.Pairwise fun a b => RecoveredEvent.slot a ≤ RecoveredEvent.slot b := by
  rw [recoverGap_eq h hreturns]
  have : Std.Total fun a b : RecoveredEvent => a.slot ≤ b.slot := ⟨fun a b => le_total _ _⟩
  have : IsTrans RecoveredEvent fun a b => a.slot ≤ b.slot := ⟨fun _ _ _ => le_trans⟩
  exact List.pairwise_insertionSort _ _

/-- Without a shared slot, an entry is known by its slot. -/
theorem recovered_inj (h : rpc.Serves history checkpoints) (hslots : rpc.AgreesOnSlots history)
    (hreturns : recoverGap rpc checkpoints fuel = some (.ok recovered))
    (hdistinct : ∀ program,
      ((recoverableOf rpc history checkpoints fuel program).map SignatureItem.slot).Nodup)
    {a b : RecoveredEvent} (ha : a ∈ recovered) (hb : b ∈ recovered) (hprogram : a.1 = b.1)
    (hslot : a.slot = b.slot) : a = b := by
  obtain ⟨i, hi, hai⟩ := (mem_recovered h hreturns a).mp ha
  obtain ⟨j, hj, hbj⟩ := (mem_recovered h hreturns b).mp hb
  rw [← hprogram] at hj hbj
  rw [hai, hbj, (eventOf_spec h hslots hi).2, (eventOf_spec h hslots hj).2] at hslot
  rw [hai, hbj, List.inj_on_of_nodup_map (hdistinct _) hi hj hslot]

/-- Two transactions of one slot and one program keep the order of the listing. -/
theorem recovered_newest_first (h : rpc.Serves history checkpoints)
    (hslots : rpc.AgreesOnSlots history)
    (hreturns : recoverGap rpc checkpoints fuel = some (.ok recovered)) {newer older : SignatureItem}
    (hsub : [newer, older].Sublist (recoverableOf rpc history checkpoints fuel program))
    (hslot : newer.slot = older.slot) :
    [eventOf rpc program newer, eventOf rpc program older].Sublist recovered := by
  have hnewer := hsub.subset List.mem_cons_self
  have holder := hsub.subset (List.mem_cons_of_mem _ List.mem_cons_self)
  rw [recoverGap_eq h hreturns]
  refine List.pair_sublist_insertionSort ?_ ?_
  · rw [(eventOf_spec h hslots hnewer).2, (eventOf_spec h hslots holder).2, hslot]
  · cases program with
    | pump => exact (hsub.map (eventOf rpc .pump)).trans (List.sublist_append_left _ _)
    | pumpswap => exact (hsub.map (eventOf rpc .pumpswap)).trans (List.sublist_append_right _ _)

theorem chainOrdered_of_distinct (h : rpc.Serves history checkpoints)
    (hslots : rpc.AgreesOnSlots history)
    (hreturns : recoverGap rpc checkpoints fuel = some (.ok recovered))
    (hdistinct : ∀ program,
      ((recoverableOf rpc history checkpoints fuel program).map SignatureItem.slot).Nodup) :
    ChainOrdered history recovered := by
  refine ⟨recovered_sorted h hreturns, ?_⟩
  intro a ha b hb hprogram hslot older newer holder hnewer hearlier
  obtain rfl := recovered_inj h hslots hreturns hdistinct ha hb hprogram hslot
  obtain rfl := Option.some.inj (holder.symm.trans hnewer)
  obtain ⟨call, hsub⟩ := hearlier
  exact (not_sublist_swap (h.distinct call a.1) hsub hsub).elim

theorem checkpointsNewest_of_distinct (h : rpc.Serves history checkpoints)
    (hchain : ∀ call program, (history call program).Pairwise fun newer older =>
      older.slot ≤ newer.slot)
    (hslots : rpc.AgreesOnSlots history)
    (hreturns : recoverGap rpc checkpoints fuel = some (.ok recovered))
    (hdistinct : ∀ program,
      ((recoverableOf rpc history checkpoints fuel program).map SignatureItem.slot).Nodup)
    (s : Gateway) : CheckpointsNewest history s recovered := by
  intro a ha newest hsignature hothers
  obtain ⟨before, after, hsplit⟩ := List.append_of_mem ha
  have hnodup := recovered_nodup h hslots hreturns
  have hsorted := recovered_sorted h hreturns
  rw [hsplit] at hnodup hsorted ⊢
  refine commitRecoveredEvents_checkpoint s before after hsignature ?_
  intro b hb hprogram
  have hmem : b ∈ recovered :=
    hsplit ▸ List.mem_append_right _ (List.mem_cons_of_mem _ hb)
  have hne : b ≠ a := by
    rintro rfl
    exact (List.nodup_cons.mp (List.nodup_append.mp hnodup).2.1).1 hb
  obtain ⟨i, hi, hai⟩ := (mem_recovered h hreturns a).mp ha
  obtain ⟨j, hj, hbj⟩ := (mem_recovered h hreturns b).mp hmem
  rw [hprogram] at hj hbj
  obtain ⟨hisignature, hislot⟩ := eventOf_spec h hslots hi
  obtain ⟨hjsignature, hjslot⟩ := eventOf_spec h hslots hj
  have hearlier := hothers b hmem hprogram hne j.signature (by rw [hbj]; exact hjsignature)
  have hnewest : i.signature = newest :=
    Option.some.inj (hisignature.symm.trans (by rw [← hai]; exact hsignature))
  -- the other one is older, so its slot is not later; it comes behind, so its slot is not earlier
  have hle : j.slot ≤ i.slot := Older.slot_le h hchain
    ((recoverableOf_sublist fuel).subset hj) ((recoverableOf_sublist fuel).subset hi)
    (hnewest ▸ hearlier)
  have hge : RecoveredEvent.slot a ≤ RecoveredEvent.slot b :=
    (List.pairwise_cons.mp (List.pairwise_append.mp hsorted).2.1).1 b hb
  refine hne (recovered_inj h hslots hreturns hdistinct hmem ha hprogram (le_antisymm ?_ hge))
  rw [hai, hbj, hislot, hjslot]
  exact hle

/-- A recovery queues its list in order, and leaves the newest transactions as checkpoints. Both
orders are those of the chain exactly when no slot has two recovered transactions of one
program. -/
theorem recovered_in_chain_order_iff {s : Gateway} (h : rpc.Serves history s.lastSignatures)
    (hchain : ∀ call program, (history call program).Pairwise fun newer older =>
      older.slot ≤ newer.slot)
    (hslots : rpc.AgreesOnSlots history)
    (hreturns : recoverGap rpc s.lastSignatures fuel = some (.ok recovered)) :
    (s.commitRecoveredEvents recovered).queue = s.queue ++ recovered ∧
      ((ChainOrdered history recovered ∧ CheckpointsNewest history s recovered) ↔
        ∀ program, ((recoverableOf rpc history s.lastSignatures fuel program).map
          SignatureItem.slot).Nodup) := by
  refine ⟨commitRecoveredEvents_queue s recovered, ?_, ?_⟩
  · rintro ⟨hordered, -⟩ program
    rw [List.Nodup, List.pairwise_map, List.pairwise_iff_forall_sublist]
    intro newer older hsub hslot
    have hreversed := recovered_newest_first h hslots hreturns hsub hslot
    have hnewer := hsub.subset List.mem_cons_self
    have holder := hsub.subset (List.mem_cons_of_mem _ List.mem_cons_self)
    obtain ⟨hnewerSignature, hnewerSlot⟩ := eventOf_spec h hslots hnewer
    obtain ⟨holderSignature, holderSlot⟩ := eventOf_spec h hslots holder
    refine not_sublist_swap (recovered_nodup h hslots hreturns) hreversed
      (hordered.withinSlot _ (hreversed.subset (List.mem_cons_of_mem _ List.mem_cons_self)) _
        (hreversed.subset List.mem_cons_self) rfl ?_ older.signature newer.signature
        holderSignature hnewerSignature ?_)
    · rw [holderSlot, hnewerSlot, hslot]
    · exact ⟨_, (hsub.trans (recoverableOf_sublist fuel)).map SignatureItem.signature⟩
  · intro hdistinct
    exact ⟨chainOrdered_of_distinct h hslots hreturns hdistinct,
      checkpointsNewest_of_distinct h hchain hslots hreturns hdistinct s⟩

end Order

/-! ## Two listings -/

theorem staticRpc_agrees (history : Protocol → List SignatureItem) (unavailable : List String) :
    (staticRpc history unavailable).AgreesOnSlots fun _ => history := by
  intro call program item hitem transaction h
  simp only [staticRpc, Except.ok.injEq] at h
  split at h
  · cases h
  · cases h
    rfl

theorem recovered_in_chain_order_iff_sample :
    ∃ recovered, recoverGap (staticRpc sampleHistory []) sampleGateway.lastSignatures 1 =
        some (.ok recovered) ∧
      ChainOrdered (fun _ => sampleHistory) recovered ∧
        CheckpointsNewest (fun _ => sampleHistory) sampleGateway recovered := by
  have hreturns : recoverGap (staticRpc sampleHistory []) sampleGateway.lastSignatures 1 =
      some (.ok [(.pump, ⟨some "b", some 2⟩, .rpcRecovery),
        (.pump, ⟨some "c", some 3⟩, .rpcRecovery)]) := rfl
  refine ⟨_, hreturns, ?_⟩
  refine (recovered_in_chain_order_iff (sampleHistory_serves []) ?_
    (staticRpc_agrees sampleHistory []) hreturns).2.mpr ?_
  · rintro call (_ | _) <;> decide
  · rintro (_ | _) <;> decide

/-- Two transactions of slot 2 are newer than the checkpoint `"a"`. -/
def sharedSlotHistory : Protocol → List SignatureItem
  | .pump => [⟨"c", 2, false⟩, ⟨"b", 2, false⟩, ⟨"a", 1, false⟩]
  | .pumpswap => []

/-- The newer one is queued first, and the checkpoint is the older one. -/
theorem shared_slot_reversed :
    (staticRpc sharedSlotHistory []).Serves (fun _ => sharedSlotHistory)
        sampleGateway.lastSignatures ∧
      Older (fun _ => sharedSlotHistory) .pump "b" "c" ∧
      ∃ recovered, recoverGap (staticRpc sharedSlotHistory []) sampleGateway.lastSignatures 1 =
          some (.ok recovered) ∧
        recovered = [(.pump, ⟨some "c", some 2⟩, .rpcRecovery),
          (.pump, ⟨some "b", some 2⟩, .rpcRecovery)] ∧
        ¬ ChainOrdered (fun _ => sharedSlotHistory) recovered ∧
        (sampleGateway.commitRecoveredEvents recovered).lastSignatures.get? .pump = some "b" := by
  have holder : Older (fun _ => sharedSlotHistory) .pump "b" "c" := ⟨0, by decide⟩
  refine ⟨staticRpc_serves [] _ ?_ ?_, holder, _, rfl, rfl, ?_, rfl⟩
  · rintro (_ | _) <;> decide
  · rintro (_ | _) <;> decide
  · intro hordered
    have hsub := hordered.withinSlot (.pump, ⟨some "b", some 2⟩, .rpcRecovery) (by decide)
      (.pump, ⟨some "c", some 2⟩, .rpcRecovery) (by decide) rfl rfl "b" "c" rfl rfl holder
    exact absurd hsub (by decide)

end SniperBot.Stream
