import SniperBot.Basis.Bisect
import SniperBot.Basis.Run
import SniperBot.Features.Engine

/-!
# Snapshots do not look ahead

Each pool has three lists of observations, and every one is ordered by time and id however its
observations came in (`Channel.run`). So the lists up to a moment are those of the observations up
to that moment, and a snapshot reads nothing else but the first registration of the pool
(`snapshot_of_same_lists`).
-/

namespace SniperBot.Features

open Basis

/-! ## Insertion -/

section Insertion

variable {α : Type} (key : α → Time × String)

/-- `_insert_ordered` with its append path and its binary search. -/
def appendOrBisect (events : List α) (event : α) : List α :=
  match events.getLast? with
  | none => events ++ [event]
  | some last =>
      if ¬ keyLt (key event) (key last) then events ++ [event]
      else events.insertIdx
        (bisectRight (fun item => keyLt (key event) (key item)) events 0 events.length) event

variable {key} {events : List α}

/-- Behind a greater key stand greater ones. -/
theorem Ordered.greaterLast (h : Ordered key events) (event : α) :
    GreaterLast (fun item => decide (keyLt (key event) (key item))) events := by
  refine List.Pairwise.imp (fun {a b} hab ha => ?_) h
  exact decide_eq_true (keyLt_of_lt_of_le (of_decide_eq_true ha) hab)

/-- Both paths of the source insert in order. -/
theorem appendOrBisect_eq (h : Ordered key events) (event : α) :
    appendOrBisect key events event = insertOrdered key events event := by
  have hinsert := insertIdx_bisectRight (h.greaterLast event) event
  simp only [insertOrdered, decide_not]
  unfold appendOrBisect
  cases hlast : events.getLast? with
  | none =>
      rw [List.getLast?_eq_none_iff.mp hlast]
      rfl
  | some last =>
      dsimp only
      by_cases hlt : keyLt (key event) (key last)
      · rw [if_neg (not_not.mpr hlt)]
        exact hinsert
      · rw [if_pos hlt]
        -- no observation has a greater key, as the last one has not
        have hall : ∀ item ∈ events, (!decide (keyLt (key event) (key item))) = true := by
          intro item hitem
          have hle : item = last ∨ ¬ keyLt (key last) (key item) := by
            obtain ⟨front, rfl⟩ := List.getLast?_eq_some_iff.mp hlast
            obtain hfront | hitem := List.mem_append.mp hitem
            · exact .inr ((List.pairwise_append.mp h).2.2 item hfront last
                (List.mem_singleton_self _))
            · exact .inl (List.mem_singleton.mp hitem)
          have hnot : ¬ keyLt (key event) (key item) := by
            intro hgreater
            obtain rfl | hle := hle
            · exact hlt hgreater
            · exact hlt (keyLt_of_lt_of_le hgreater hle)
          simp [hnot]
        rw [List.takeWhile_eq_self_iff.mpr hall, List.dropWhile_eq_nil_iff.mpr hall]

theorem insertOrdered_perm (events : List α) (event : α) :
    (insertOrdered key events event).Perm (event :: events) := by
  have hsplit := List.takeWhile_append_dropWhile
    (p := fun item => decide (¬ keyLt (key event) (key item))) (l := events)
  exact List.perm_middle.trans (.of_eq (congrArg (event :: ·) hsplit))

theorem keyLt_total {a b : Time × String} (hab : ¬ keyLt a b) (hba : ¬ keyLt b a) : a = b := by
  simp only [keyLt, not_or, not_and, not_lt] at hab hba
  have htime : a.1 = b.1 := le_antisymm hba.1 hab.1
  exact Prod.ext htime (le_antisymm (hba.2 htime.symm) (hab.2 htime))

/-- Observations with different keys have one order. -/
theorem Ordered.eq_of_perm {events' : List α} (h : Ordered key events)
    (h' : Ordered key events') (hperm : events.Perm events')
    (hkeys : ∀ a ∈ events, ∀ b ∈ events, key a = key b → a = b) : events = events' := by
  refine hperm.eq_of_pairwise (fun a b ha hb hab hba => ?_) h h'
  exact hkeys a ha b (hperm.symm.mem_iff.mp hb) (keyLt_total hba hab)

end Insertion

/-! ## Ingestion -/

inductive Ingestion
  | pool (poolAddress : String) (createdAt : Time)
  | trade (event : TradeObservation)
  | liquidity (event : LiquidityObservation)
  | holders (event : HolderObservation)
  deriving DecidableEq, Repr

namespace Ingestion

/-- The id of an observation; a registration has none. -/
def eventId? : Ingestion → Option String
  | pool _ _ => none
  | trade event => some event.eventId
  | liquidity event => some event.eventId
  | holders event => some event.eventId

/-- Observations by the moment, and all registrations. -/
def UpTo (at' : Time) : Ingestion → Prop
  | pool _ _ => True
  | trade event => event.eventTime ≤ at'
  | liquidity event => event.eventTime ≤ at'
  | holders event => event.eventTime ≤ at'

instance (at' : Time) : DecidablePred (UpTo at')
  | pool _ _ => isTrue trivial
  | trade _ | liquidity _ | holders _ => inferInstanceAs (Decidable (_ ≤ _))

end Ingestion

def EventTimeFeatureEngine.ingest (engine : EventTimeFeatureEngine) :
    Ingestion → EventTimeFeatureEngine
  | .pool poolAddress createdAt => engine.registerPool poolAddress createdAt
  | .trade event => engine.ingestTrade event
  | .liquidity event => engine.ingestLiquidity event
  | .holders event => engine.ingestHolders event

/-- The engine after some ingestions. -/
def ingested (items : List Ingestion) : EventTimeFeatureEngine :=
  exec EventTimeFeatureEngine.ingest {} items

/-- The ids of the observations are different. -/
def DistinctIds (items : List Ingestion) : Prop := (items.filterMap Ingestion.eventId?).Nodup

instance (items : List Ingestion) : Decidable (DistinctIds items) :=
  inferInstanceAs (Decidable (List.Nodup _))

/-! ## One kind of observations -/

/-- A kind of observations: the list of a pool, and what a new ingestion does to it. -/
structure Channel (α : Type) where
  events : EventTimeFeatureEngine → String → List α
  pick : Ingestion → Option α
  id : α → String
  time : α → Time
  pool : α → String
  empty : ∀ address, events {} address = []
  eventId : ∀ item event, pick item = some event → item.eventId? = some (id event)
  upTo : ∀ item event at', pick item = some event → (item.UpTo at' ↔ time event ≤ at')
  ingest : ∀ engine item address, (∀ i ∈ item.eventId?, i ∉ engine.seen) →
    events (engine.ingest item) address =
      match pick item with
      | some event =>
          if pool event = address then
            insertOrdered (fun event => (time event, id event)) (events engine address) event
          else events engine address
      | none => events engine address

theorem getD_set {α : Type} (d : Dict String (List α)) (k j : String) (v : List α) :
    ((d.set k v).get? j).getD [] = if k = j then v else (d.get? j).getD [] := by
  rw [Dict.get?_set]
  split <;> rfl

theorem registerPool_lists (engine : EventTimeFeatureEngine) (poolAddress : String)
    (createdAt : Time) :
    (engine.registerPool poolAddress createdAt).trades = engine.trades ∧
      (engine.registerPool poolAddress createdAt).liquidity = engine.liquidity ∧
      (engine.registerPool poolAddress createdAt).holders = engine.holders ∧
      (engine.registerPool poolAddress createdAt).seen = engine.seen := by
  unfold EventTimeFeatureEngine.registerPool
  split
  · split <;> exact ⟨rfl, rfl, rfl, rfl⟩
  · exact ⟨rfl, rfl, rfl, rfl⟩

theorem ingestTrade_new {engine : EventTimeFeatureEngine} {event : TradeObservation}
    (h : event.eventId ∉ engine.seen) : engine.ingestTrade event =
      { engine with
        seen := engine.seen ++ [event.eventId]
        trades := engine.trades.set event.poolAddress
          (insertOrdered (fun item => (item.eventTime, item.eventId))
            (engine.tradesOf event.poolAddress) event) } := if_neg h

theorem ingestLiquidity_new {engine : EventTimeFeatureEngine} {event : LiquidityObservation}
    (h : event.eventId ∉ engine.seen) : engine.ingestLiquidity event =
      { engine with
        seen := engine.seen ++ [event.eventId]
        liquidity := engine.liquidity.set event.poolAddress
          (insertOrdered (fun item => (item.eventTime, item.eventId))
            (engine.liquidityOf event.poolAddress) event) } := if_neg h

theorem ingestHolders_new {engine : EventTimeFeatureEngine} {event : HolderObservation}
    (h : event.eventId ∉ engine.seen) : engine.ingestHolders event =
      { engine with
        seen := engine.seen ++ [event.eventId]
        holders := engine.holders.set event.poolAddress
          (insertOrdered (fun item => (item.eventTime, item.eventId))
            (engine.holdersOf event.poolAddress) event) } := if_neg h

def tradeChannel : Channel TradeObservation where
  events engine address := engine.tradesOf address
  pick
    | .trade event => some event
    | _ => none
  id event := event.eventId
  time event := event.eventTime
  pool event := event.poolAddress
  empty _ := rfl
  eventId item event h := by
    cases item <;> cases h
    rfl
  upTo item event at' h := by
    cases item <;> cases h
    rfl
  ingest engine item address hnew := by
    cases item with
    | pool poolAddress createdAt =>
        have hlist := (registerPool_lists engine poolAddress createdAt).1
        simp only [EventTimeFeatureEngine.ingest, EventTimeFeatureEngine.tradesOf, hlist]
    | trade event =>
        rw [EventTimeFeatureEngine.ingest, ingestTrade_new (hnew event.eventId rfl)]
        refine (getD_set engine.trades _ _ _).trans ?_
        dsimp only
        split
        · next h => rw [← h]
        · rfl
    | liquidity event =>
        rw [EventTimeFeatureEngine.ingest, ingestLiquidity_new (hnew event.eventId rfl)]
        rfl
    | holders event =>
        rw [EventTimeFeatureEngine.ingest, ingestHolders_new (hnew event.eventId rfl)]
        rfl

def liquidityChannel : Channel LiquidityObservation where
  events engine address := engine.liquidityOf address
  pick
    | .liquidity event => some event
    | _ => none
  id event := event.eventId
  time event := event.eventTime
  pool event := event.poolAddress
  empty _ := rfl
  eventId item event h := by
    cases item <;> cases h
    rfl
  upTo item event at' h := by
    cases item <;> cases h
    rfl
  ingest engine item address hnew := by
    cases item with
    | pool poolAddress createdAt =>
        have hlist := (registerPool_lists engine poolAddress createdAt).2.1
        simp only [EventTimeFeatureEngine.ingest, EventTimeFeatureEngine.liquidityOf, hlist]
    | trade event =>
        rw [EventTimeFeatureEngine.ingest, ingestTrade_new (hnew event.eventId rfl)]
        rfl
    | liquidity event =>
        rw [EventTimeFeatureEngine.ingest, ingestLiquidity_new (hnew event.eventId rfl)]
        refine (getD_set engine.liquidity _ _ _).trans ?_
        dsimp only
        split
        · next h => rw [← h]
        · rfl
    | holders event =>
        rw [EventTimeFeatureEngine.ingest, ingestHolders_new (hnew event.eventId rfl)]
        rfl

def holderChannel : Channel HolderObservation where
  events engine address := engine.holdersOf address
  pick
    | .holders event => some event
    | _ => none
  id event := event.eventId
  time event := event.eventTime
  pool event := event.poolAddress
  empty _ := rfl
  eventId item event h := by
    cases item <;> cases h
    rfl
  upTo item event at' h := by
    cases item <;> cases h
    rfl
  ingest engine item address hnew := by
    cases item with
    | pool poolAddress createdAt =>
        have hlist := (registerPool_lists engine poolAddress createdAt).2.2.1
        simp only [EventTimeFeatureEngine.ingest, EventTimeFeatureEngine.holdersOf, hlist]
    | trade event =>
        rw [EventTimeFeatureEngine.ingest, ingestTrade_new (hnew event.eventId rfl)]
        rfl
    | liquidity event =>
        rw [EventTimeFeatureEngine.ingest, ingestLiquidity_new (hnew event.eventId rfl)]
        rfl
    | holders event =>
        rw [EventTimeFeatureEngine.ingest, ingestHolders_new (hnew event.eventId rfl)]
        refine (getD_set engine.holders _ _ _).trans ?_
        dsimp only
        split
        · next h => rw [← h]
        · rfl

/-- A new ingestion is seen from then on. -/
theorem ingest_seen {engine : EventTimeFeatureEngine} {item : Ingestion}
    (hnew : ∀ i ∈ item.eventId?, i ∉ engine.seen) :
    (engine.ingest item).seen = engine.seen ++ item.eventId?.toList := by
  cases item with
  | pool poolAddress createdAt =>
      rw [EventTimeFeatureEngine.ingest, (registerPool_lists engine poolAddress createdAt).2.2.2]
      exact (List.append_nil _).symm
  | trade event =>
      rw [EventTimeFeatureEngine.ingest, ingestTrade_new (hnew event.eventId rfl)]
      rfl
  | liquidity event =>
      rw [EventTimeFeatureEngine.ingest, ingestLiquidity_new (hnew event.eventId rfl)]
      rfl
  | holders event =>
      rw [EventTimeFeatureEngine.ingest, ingestHolders_new (hnew event.eventId rfl)]
      rfl

namespace Channel

variable {α : Type} (c : Channel α)

/-- The order of the list. -/
def key (event : α) : Time × String := (c.time event, c.id event)

/-- The observations of a pool. -/
def observations (items : List Ingestion) (address : String) : List α :=
  (items.filterMap c.pick).filter fun event => c.pool event = address

theorem observations_cons (item : Ingestion) (items : List Ingestion) (address : String) :
    c.observations (item :: items) address =
      c.observations [item] address ++ c.observations items address := by
  rw [observations, ← List.singleton_append, List.filterMap_append, List.filter_append]
  rfl

/-- A new ingestion puts an observation of the pool in order. -/
theorem step {item : Ingestion} {engine : EventTimeFeatureEngine} (address : String)
    (hnew : ∀ i ∈ item.eventId?, i ∉ engine.seen)
    (hordered : Ordered c.key (c.events engine address)) :
    Ordered c.key (c.events (engine.ingest item) address) ∧
      (c.events (engine.ingest item) address).Perm
        (c.events engine address ++ c.observations [item] address) := by
  rw [c.ingest engine item address hnew]
  cases hpick : c.pick item with
  | none => simpa [observations, hpick] using hordered
  | some event =>
      dsimp only
      split
      · next hpool =>
          have hone : c.observations [item] address = [event] := by
            simp [observations, hpick, hpool]
          rw [hone]
          refine ⟨Ordered.insert c.key hordered event, ?_⟩
          exact (insertOrdered_perm _ event).trans (List.perm_append_singleton _ _).symm
      · next hpool =>
          have hnone : c.observations [item] address = [] := by
            simp [observations, hpick, hpool]
          rw [hnone, List.append_nil]
          exact ⟨hordered, .refl _⟩

/-- A run of new ingestions puts the observations of the pool in order. -/
theorem run (items : List Ingestion) (address : String) {engine : EventTimeFeatureEngine}
    (hnew : ∀ i ∈ items.filterMap Ingestion.eventId?, i ∉ engine.seen)
    (hids : DistinctIds items) (hordered : Ordered c.key (c.events engine address)) :
    Ordered c.key (c.events (exec EventTimeFeatureEngine.ingest engine items) address) ∧
      (c.events (exec EventTimeFeatureEngine.ingest engine items) address).Perm
        (c.events engine address ++ c.observations items address) := by
  induction items generalizing engine with
  | nil => exact ⟨hordered, .of_eq (List.append_nil _).symm⟩
  | cons item rest ih =>
      have hsplit : (item :: rest).filterMap Ingestion.eventId? =
          item.eventId?.toList ++ rest.filterMap Ingestion.eventId? := by
        cases hid : item.eventId? <;> simp [hid]
      rw [DistinctIds, hsplit, List.nodup_append] at hids
      rw [hsplit] at hnew
      have hitem : ∀ i ∈ item.eventId?, i ∉ engine.seen := fun i hi =>
        hnew i (List.mem_append_left _ (Option.mem_toList.mpr hi))
      obtain ⟨hnext, hperm⟩ := c.step address hitem hordered
      have hrest : ∀ i ∈ rest.filterMap Ingestion.eventId?, i ∉ (engine.ingest item).seen := by
        intro i hi hseen
        rw [ingest_seen hitem] at hseen
        obtain hseen | hseen := List.mem_append.mp hseen
        · exact hnew i (List.mem_append_right _ hi) hseen
        · exact hids.2.2 i hseen i hi rfl
      obtain ⟨hlast, hall⟩ := ih hrest hids.2.1 hnext
      refine ⟨hlast, hall.trans ?_⟩
      rw [observations_cons, ← List.append_assoc]
      exact hperm.append_right _

/-- The list of a pool, in order. -/
theorem ordered_ingested {items : List Ingestion} (hids : DistinctIds items) (address : String) :
    Ordered c.key (c.events (ingested items) address) ∧
      (c.events (ingested items) address).Perm (c.observations items address) := by
  have hempty := c.empty address
  have hnew : ∀ i ∈ items.filterMap Ingestion.eventId?, i ∉ ({} : EventTimeFeatureEngine).seen :=
    fun _ _ => List.not_mem_nil
  have hrun := c.run items address hnew hids (by rw [hempty]; exact List.Pairwise.nil)
  rw [hempty, List.nil_append] at hrun
  exact hrun

/-- The observations of the pool have different ids. -/
theorem nodup_ids {items : List Ingestion} (hids : DistinctIds items) (address : String) :
    ((c.observations items address).map c.id).Nodup := by
  have hsub : ((items.filterMap c.pick).map c.id).Sublist
      (items.filterMap Ingestion.eventId?) := by
    clear hids
    induction items with
    | nil => exact .slnil
    | cons item rest ih =>
        cases hpick : c.pick item with
        | none =>
            rw [List.filterMap_cons_none hpick]
            cases hid : item.eventId? with
            | none => rwa [List.filterMap_cons_none hid]
            | some i =>
                rw [List.filterMap_cons_some hid]
                exact ih.cons _
        | some event =>
            rw [List.filterMap_cons_some hpick, List.map_cons,
              List.filterMap_cons_some (c.eventId item event hpick)]
            exact ih.cons_cons _
  exact ((List.filter_sublist.map c.id).trans hsub).nodup hids

/-- What is observed up to a moment. -/
theorem observations_upTo (items : List Ingestion) (address : String) (at' : Time) :
    (c.observations items address).filter (fun event => c.time event ≤ at') =
      c.observations (items.filter fun item => item.UpTo at') address := by
  induction items with
  | nil => rfl
  | cons item rest ih =>
      rw [observations_cons, List.filter_append, ih]
      cases hpick : c.pick item with
      | none =>
          have hnone : c.observations [item] address = [] := by simp [observations, hpick]
          rw [hnone, List.filter_cons]
          split
          · rw [observations_cons, hnone]
            rfl
          · rfl
      | some event =>
          have hupTo := c.upTo item event at' hpick
          rw [List.filter_cons]
          by_cases htime : c.time event ≤ at'
          · rw [if_pos (decide_eq_true (hupTo.mpr htime)), observations_cons]
            by_cases hpool : c.pool event = address <;> simp [observations, hpick, hpool, htime]
          · rw [if_neg (fun h => htime (hupTo.mp (of_decide_eq_true h)))]
            by_cases hpool : c.pool event = address <;> simp [observations, hpick, hpool, htime]

/-- The list up to a moment depends on the observations up to that moment, in any order. -/
theorem events_upTo {items items' : List Ingestion} (hids : DistinctIds items)
    (hids' : DistinctIds items') {at' : Time}
    (hperm : (items.filter fun item => item.UpTo at').Perm
      (items'.filter fun item => item.UpTo at')) (address : String) :
    (c.events (ingested items) address).filter (fun event => c.time event ≤ at') =
      (c.events (ingested items') address).filter fun event => c.time event ≤ at' := by
  obtain ⟨hordered, hall⟩ := c.ordered_ingested hids address
  obtain ⟨hordered', hall'⟩ := c.ordered_ingested hids' address
  have hsame : (c.observations (items.filter fun item => item.UpTo at') address).Perm
      (c.observations (items'.filter fun item => item.UpTo at') address) :=
    (hperm.filterMap c.pick).filter _
  have hlists := ((hall.filter fun event => decide (c.time event ≤ at')).trans
    (.of_eq (c.observations_upTo items address at'))).trans
      (hsame.trans ((hall'.filter fun event => decide (c.time event ≤ at')).trans
        (.of_eq (c.observations_upTo items' address at'))).symm)
  have hfirst : Ordered c.key ((c.events (ingested items) address).filter fun event =>
      c.time event ≤ at') := hordered.filter _
  refine hfirst.eq_of_perm (hordered'.filter _) hlists ?_
  intro a ha b hb hkey
  have ha' := hall.mem_iff.mp (List.mem_filter.mp ha).1
  have hb' := hall.mem_iff.mp (List.mem_filter.mp hb).1
  exact List.inj_on_of_nodup_map (c.nodup_ids hids address) ha' hb' (congrArg Prod.snd hkey)

end Channel

/-! ## Registrations -/

/-- The creation time that a registration of the pool brings. -/
def Ingestion.registration? (address : String) : Ingestion → Option Time
  | .pool poolAddress createdAt => if poolAddress = address then some createdAt else none
  | _ => none

/-- The earlier of two creation times. -/
def earlier (current : Option Time) (created : Time) : Option Time :=
  some (current.elim created fun current => if created < current then created else current)

theorem get?_registerPool (engine : EventTimeFeatureEngine) (poolAddress address : String)
    (createdAt : Time) :
    (engine.registerPool poolAddress createdAt).poolCreated.get? address =
      if poolAddress = address then earlier (engine.poolCreated.get? address) createdAt
      else engine.poolCreated.get? address := by
  unfold EventTimeFeatureEngine.registerPool earlier
  by_cases hpool : poolAddress = address
  · subst hpool
    rw [if_pos rfl]
    cases hcurrent : engine.poolCreated.get? poolAddress with
    | none => exact Dict.get?_set_self _ _ _
    | some current =>
        dsimp only [Option.elim_some]
        split
        · exact Dict.get?_set_self _ _ _
        · exact hcurrent
  · rw [if_neg hpool]
    split
    · split
      · exact Dict.get?_set_ne _ hpool _
      · rfl
    · exact Dict.get?_set_ne _ hpool _

theorem ingest_poolCreated (engine : EventTimeFeatureEngine) (item : Ingestion)
    (address : String) : (engine.ingest item).poolCreated.get? address =
      (item.registration? address).elim (engine.poolCreated.get? address)
        (earlier (engine.poolCreated.get? address)) := by
  cases item with
  | pool poolAddress createdAt =>
      rw [EventTimeFeatureEngine.ingest, get?_registerPool, Ingestion.registration?]
      split <;> rfl
  | trade event =>
      rw [EventTimeFeatureEngine.ingest, EventTimeFeatureEngine.ingestTrade]
      split <;> rfl
  | liquidity event =>
      rw [EventTimeFeatureEngine.ingest, EventTimeFeatureEngine.ingestLiquidity]
      split <;> rfl
  | holders event =>
      rw [EventTimeFeatureEngine.ingest, EventTimeFeatureEngine.ingestHolders]
      split <;> rfl

/-- The creation time is the earliest registration. -/
theorem exec_poolCreated (items : List Ingestion) (engine : EventTimeFeatureEngine)
    (address : String) :
    (exec EventTimeFeatureEngine.ingest engine items).poolCreated.get? address =
      (items.filterMap (Ingestion.registration? address)).foldl earlier
        (engine.poolCreated.get? address) := by
  induction items generalizing engine with
  | nil => rfl
  | cons item rest ih =>
      rw [exec_cons, ih, ingest_poolCreated]
      cases hreg : item.registration? address with
      | none => rw [List.filterMap_cons_none hreg, Option.elim_none]
      | some created =>
          rw [List.filterMap_cons_some hreg, List.foldl_cons, Option.elim_some]

theorem earlier_comm (current : Option Time) (first second : Time) :
    earlier (earlier current first) second = earlier (earlier current second) first := by
  have hmin (current created : Time) :
      (if created < current then created else current) = min created current := by
    rcases lt_or_ge created current with h | h
    · rw [if_pos h, min_eq_left h.le]
    · rw [if_neg (not_lt.mpr h), min_eq_right h]
  cases current <;> simp [earlier, hmin, min_comm, min_left_comm]

/-- Registrations have no event time: all of them count, in any order. -/
theorem poolCreated_eq {items items' : List Ingestion} {at' : Time}
    (hperm : (items.filter fun item => item.UpTo at').Perm
      (items'.filter fun item => item.UpTo at')) (address : String) :
    (ingested items).poolCreated.get? address = (ingested items').poolCreated.get? address := by
  have hall (items : List Ingestion) : items.filterMap (Ingestion.registration? address) =
      (items.filter fun item => item.UpTo at').filterMap (Ingestion.registration? address) := by
    rw [List.filterMap_filter]
    apply List.filterMap_congr
    intro item _
    cases item with
    | pool poolAddress createdAt => exact (if_pos (decide_eq_true trivial)).symm
    | _ => split <;> rfl
  rw [ingested, ingested, exec_poolCreated, exec_poolCreated, hall items, hall items']
  exact (hperm.filterMap _).foldl_eq' (fun a _ b _ current => earlier_comm current a b) _

/-! ## Snapshots -/

/-- What a snapshot reads. -/
theorem snapshot_of_same_lists {engine engine' : EventTimeFeatureEngine} {address : String} {at' : Time}
    (hcreated : engine.poolCreated.get? address = engine'.poolCreated.get? address)
    (htrades : (engine.tradesOf address).filter (fun event => event.eventTime ≤ at') =
      (engine'.tradesOf address).filter fun event => event.eventTime ≤ at')
    (hliquidity : (engine.liquidityOf address).filter (fun event => event.eventTime ≤ at') =
      (engine'.liquidityOf address).filter fun event => event.eventTime ≤ at')
    (hholders : (engine.holdersOf address).filter (fun event => event.eventTime ≤ at') =
      (engine'.holdersOf address).filter fun event => event.eventTime ≤ at') :
    engine.snapshot address at' = engine'.snapshot address at' := by
  unfold EventTimeFeatureEngine.snapshot
  rw [hcreated, htrades, hliquidity, hholders]

/-- A snapshot depends on the registrations and on what was observed up to its moment. -/
theorem snapshot_eq {items items' : List Ingestion} (hids : DistinctIds items)
    (hids' : DistinctIds items') {at' : Time}
    (hperm : (items.filter fun item => item.UpTo at').Perm
      (items'.filter fun item => item.UpTo at')) (address : String) :
    (ingested items).snapshot address at' = (ingested items').snapshot address at' :=
  snapshot_of_same_lists (poolCreated_eq hperm address)
    (tradeChannel.events_upTo hids hids' hperm address)
    (liquidityChannel.events_upTo hids hids' hperm address)
    (holderChannel.events_upTo hids hids' hperm address)

/-- A snapshot is the same for every order of the ingestions, and for every other collection that
differs from them in observations after its moment only, also if these are ingested later. -/
theorem snapshot_order_and_lookahead (items : List Ingestion) (hids : DistinctIds items)
    (address : String) (at' : Time) :
    (∀ items', items.Perm items' →
      (ingested items').snapshot address at' = (ingested items).snapshot address at') ∧
    (∀ items', DistinctIds items' →
      (items'.filter fun item => item.UpTo at').Perm (items.filter fun item => item.UpTo at') →
      (ingested items').snapshot address at' = (ingested items).snapshot address at') ∧
    ∀ later, DistinctIds (items ++ later) → (∀ item ∈ later, ¬ item.UpTo at') →
      (exec EventTimeFeatureEngine.ingest (ingested items) later).snapshot address at' =
        (ingested items).snapshot address at' := by
  refine ⟨fun items' hperm => ?_, fun items' hids' hperm => ?_, fun later hlater hafter => ?_⟩
  · have hids' : DistinctIds items' := ((hperm.filterMap _).nodup_iff).mp hids
    exact snapshot_eq hids' hids (hperm.symm.filter _) address
  · exact snapshot_eq hids' hids hperm address
  · have hnone : (later.filter fun item => item.UpTo at') = [] :=
      List.filter_eq_nil_iff.mpr fun item hitem h => hafter item hitem (of_decide_eq_true h)
    rw [ingested, ← exec_append]
    refine snapshot_eq hlater hids (.of_eq ?_) address
    rw [List.filter_append, hnone, List.append_nil]

/-- A buy and a sale at one instant, and a sale after it. -/
def buyAt5 : Ingestion := .trade ⟨"e1", "P", 5, .buy, "W", 10, 1, true, false⟩

def sellAt5 : Ingestion := .trade ⟨"e2", "P", 5, .sell, "V", 4, 2, true, false⟩

def sellAt6 : Ingestion := .trade ⟨"e3", "P", 6, .sell, "W", 3, 9, true, false⟩

theorem snapshot_order_and_lookahead_three_trades :
    (ingested [sellAt5, buyAt5]).snapshot "P" 5 = (ingested [buyAt5, sellAt5]).snapshot "P" 5 ∧
    (ingested [sellAt6, buyAt5, sellAt5]).snapshot "P" 5 =
      (ingested [buyAt5, sellAt5]).snapshot "P" 5 ∧
    (exec EventTimeFeatureEngine.ingest (ingested [buyAt5, sellAt5]) [sellAt6]).snapshot "P" 5 =
      (ingested [buyAt5, sellAt5]).snapshot "P" 5 := by
  obtain ⟨horder, hother, hlater⟩ :=
    snapshot_order_and_lookahead [buyAt5, sellAt5] (by decide) "P" 5
  exact ⟨horder _ (.swap _ _ _), hother _ (by decide) (.of_eq (by decide)),
    hlater _ (by decide) (by decide)⟩

end SniperBot.Features
