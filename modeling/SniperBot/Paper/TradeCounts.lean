import SniperBot.Paper.Agreement
import SniperBot.Paper.Limits
import SniperBot.Risk.LocalDays

/-!
# Trades of a risk day

The entries of a day are counted twice: `trades_today` (`risk.py`) compares the date keys of the
fills, `commit_paper_entry` (`database.py`) selects the BUY orders between the bounds of
`atomic_entry_limits`. Where the local midnights exist and are unique, the two counts agree for
every history of fills (`trades_agree`), and a run of the broker gives both copies one history
(`run_sameEntries`).
-/

namespace SniperBot.Paper

open Basis Ledger Risk

/-! ## One history of entries -/

/-- When the ledger filled its entries. -/
def entryTimes (s : LedgerState) : List Time :=
  (s.fills.filter fun fill => fill.fillType = .entry).map (·.createdAt)

/-- When the BUY orders were filled. -/
def buyTimes (db : PaperDb) : List Time :=
  (db.orders.entries.filter fun e => e.2.side = .buy).map (·.2.filledAt)

/-- The fills and the orders record one history of entries. -/
def SameEntries (s : LedgerState) (db : PaperDb) : Prop := (entryTimes s).Perm (buyTimes db)

instance (s : LedgerState) (db : PaperDb) : Decidable (SameEntries s db) :=
  inferInstanceAs (Decidable (List.Perm _ _))

theorem tradesToday_eq (zone : TimeZone) (s : LedgerState) (today : String) :
    tradesToday zone s today =
      ((entryTimes s).filter fun t => zone.dateKey t = today).length := by
  rw [entryTimes, List.filter_map, List.length_map, List.filter_filter, tradesToday]
  simp only [Function.comp, Bool.decide_and, Bool.and_comm]

theorem length_buyOrders (db : PaperDb) (dayStart dayEnd : Time) :
    (db.buyOrders dayStart dayEnd).length =
      ((buyTimes db).filter fun t => dayStart ≤ t ∧ t < dayEnd).length := by
  rw [buyTimes, List.filter_map, List.length_map, List.filter_filter, PaperDb.buyOrders]
  simp only [Function.comp, Bool.decide_and, Bool.and_comm]

/-! ## Runs -/

variable {config : BrokerConfig} {s next : BrokerState}

theorem entryTimes_concat (s : LedgerState) (fill : FillRecord) :
    ((s.fills ++ [fill]).filter fun f => f.fillType = .entry).map (·.createdAt) =
      entryTimes s ++ if fill.fillType = .entry then [fill.createdAt] else [] := by
  rw [List.filter_append, List.map_append, entryTimes]
  by_cases hentry : fill.fillType = .entry <;> simp [hentry]

/-- A new order is one more, if it is a BUY order. -/
theorem buyTimes_set {db : PaperDb} {orderId : String} (hfresh : db.orders.get? orderId = none)
    (order : OrderRow) :
    ((db.orders.set orderId order).entries.filter fun e => e.2.side = .buy).map (·.2.filledAt) =
      buyTimes db ++ if order.side = .buy then [order.filledAt] else [] := by
  rw [Dict.entries_set_new hfresh, List.filter_append, List.map_append, buyTimes]
  by_cases hbuy : order.side = .buy <;> simp [hbuy]

/-- An entry adds its fill time to both histories, nothing else adds to either. -/
theorem SameEntries.step (h : SameEntries s.ledger s.db) (hstep : BothSteps config s next) :
    SameEntries next.ledger next.db := by
  cases hstep with
  | same ledger hsame =>
      obtain ⟨halt, pause, date, baseline, rfl⟩ := hsame
      exact h
  | opened req ledger oargs eargs account hboth =>
      obtain ⟨halt, pause, date, baseline, rfl⟩ := hboth.checked
      have hat : oargs.createdAt = eargs.filledAt := by
        obtain ⟨quote, candidateId, poolAddress, rfl, rfl⟩ := hboth.quoted
        rfl
      have hfills := entryTimes_concat s.ledger (oargs.entryFill hboth.valid)
      have horders : buyTimes (s.db.entered account eargs) = buyTimes s.db ++ [eargs.filledAt] :=
        buyTimes_set hboth.commit.freshOrder eargs.order
      show List.Perm _ (buyTimes (s.db.entered account eargs))
      rw [horders, ← hat]
      exact (List.Perm.of_eq hfills).trans (h.append_right _)
  | closed req cargs account id p row hboth =>
      have hfills : entryTimes (s.ledger.exited config.zone.dateKey cargs id p hboth.valid) =
          entryTimes s.ledger :=
        (entryTimes_concat s.ledger (cargs.closeFill p id hboth.valid)).trans (List.append_nil _)
      have horders : buyTimes (s.db.exited account (req.exitArgs config) id row) =
          buyTimes s.db :=
        (buyTimes_set hboth.commit.freshOrder ((req.exitArgs config).order id)).trans
          (List.append_nil _)
      simp only [SameEntries, hfills, horders]
      exact h
  | marked values account now hboth => exact h

/-- Every run of the broker whose closes without a quote sell the whole position. -/
theorem run_sameEntries (config : BrokerConfig) (startingEquity : ℚ) (now : Time)
    (ops : List BrokerOp)
    (hrun : Along (fun s op => Ordinary s op ∧ NoPartGivenUp s op) (BrokerState.apply config)
      (BrokerState.init config startingEquity now) ops) :
    let s := exec (BrokerState.apply config) (BrokerState.init config startingEquity now) ops
    SameEntries s.ledger s.db :=
  (hrun.invariant (I := fun s => Simulates config s ∧ SameEntries s.ledger s.db)
    (fun _ op h hop => ⟨h.1.apply op hop, h.2.step (h.1.both_step op hop)⟩)
    ⟨Simulates.init config startingEquity now, .nil⟩).2

/-! ## Both counts -/

theorem trades_of_days {zone : LocalZone} (h : zone.MidnightsKept) {s : LedgerState} {db : PaperDb}
    (hentries : SameEntries s db) (u : Time) :
    tradesToday (calendar zone) s (currentDateKey zone u) =
      (db.buyOrders (dayBoundsUtc zone u).1 (dayBoundsUtc zone u).2).length := by
  rw [tradesToday_eq, length_buyOrders]
  have hkey (t : Time) : decide ((calendar zone).dateKey t = currentDateKey zone u) =
      decide ((dayBoundsUtc zone u).1 ≤ t ∧ t < (dayBoundsUtc zone u).2) :=
    decide_eq_decide.mpr (dateKey_eq_iff h t u)
  simp only [hkey]
  exact (hentries.filter _).length_eq

/-- In a zone whose midnights exist and are unique, an instant has the date key of another one
when it lies within the bounds of its day, the bounds of the days tile the time line, and the
ledger counts as many entries of a day as the commit counts BUY orders. -/
theorem trades_agree (zone : LocalZone) (h : zone.MidnightsKept) :
    (∀ t u, currentDateKey zone t = currentDateKey zone u ↔
      (dayBoundsUtc zone u).1 ≤ t ∧ t < (dayBoundsUtc zone u).2) ∧
    Tiles (dayBoundsUtc zone) ∧
    ∀ (config : BrokerConfig) (s : LedgerState) (db : PaperDb), config.zone = calendar zone →
      SameEntries s db → ∀ u,
        tradesToday config.zone s (config.zone.dateKey u) =
          (db.buyOrders (config.entryLimits u).dayStart (config.entryLimits u).dayEnd).length := by
  refine ⟨dateKey_eq_iff h, dayBoundsUtc_tiles h, fun config s db hzone hentries u => ?_⟩
  simp only [BrokerConfig.entryLimits, hzone]
  exact trades_of_days h hentries u

/-! ## Days of 23 and 25 hours -/

/-- One hour ahead of UTC, and two from 2024-03-31 01:00 to 2024-10-27 01:00 UTC. -/
def summerTime : LocalZone where
  utcoffset t :=
    if seconds 1711846800 ≤ t ∧ t < seconds 1729990800 then seconds 7200 else seconds 3600
  wallOffset reading :=
    if seconds 1711854000 ≤ reading ∧ reading < seconds 1729998000 then seconds 7200
    else seconds 3600
  offset_lt t := by
    unfold seconds
    split <;> decide
  wallOffset_eq t honly := by
    have hother := honly (t - seconds 3600)
    unfold seconds at hother ⊢
    grind

theorem summerTime_midnights : summerTime.MidnightsKept where
  exist d := by
    rintro ⟨t, hfrom, hto⟩
    simp only [summerTime, seconds] at hfrom hto
    grind
  unique d := by
    rintro ⟨t, hfrom, hto⟩
    simp only [summerTime, seconds] at hfrom hto
    grind

/-- The day that begins at 2024-03-30 23:00 UTC ends 23 hours later. -/
example : dayBoundsUtc summerTime (seconds 1711900000) = (seconds 1711839600, seconds 1711922400) := by
  decide +kernel

/-- An entry in the last hour of that day and one of the next day. -/
def twoEntries : List BrokerOp :=
  [.openPosition { sampleOpen with now := seconds 1711919000, filledAt := seconds 1711919000 },
    .openPosition { sampleOpen with
      tokenMint := "SECOND", orderId := some "entry:second", candidateId := some "second"
      poolAddress := some "second", positionId := "second", fillId := "fill-second"
      quoteId := "quote-second", now := seconds 1711923000, filledAt := seconds 1711923000 }]

theorem trades_agree_summerTime :
    let config := { sampleBroker with zone := calendar summerTime }
    let s := exec (BrokerState.apply config) (BrokerState.init config 500 0) twoEntries
    tradesToday config.zone s.ledger "2024-03-31" = 1 ∧
      (s.db.buyOrders (config.entryLimits (seconds 1711900000)).dayStart
        (config.entryLimits (seconds 1711900000)).dayEnd).length = 1 := by
  intro config s
  have hentries : SameEntries s.ledger s.db :=
    run_sameEntries config 500 0 twoEntries (by decide +kernel)
  have hkey : config.zone.dateKey (seconds 1711900000) = "2024-03-31" := by decide +kernel
  have hagree := (trades_agree summerTime summerTime_midnights).2.2 config s.ledger s.db rfl
    hentries (seconds 1711900000)
  have hone : tradesToday config.zone s.ledger "2024-03-31" = 1 := by decide +kernel
  exact ⟨hone, hagree.symm.trans (hkey ▸ hone)⟩

end SniperBot.Paper
