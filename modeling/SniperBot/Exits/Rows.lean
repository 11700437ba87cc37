import SniperBot.Exits.Passes

/-!
# Position rows beside a ledger

`Books` is what the ledger keeps by itself, and `Rows` compares it with the position rows: an open
position has an open row with its tokens, and an open row without an open position shows no gain. A
commit puts the rows ahead of the ledger until the ledger is booked, so an exit has two lemmas
(`Rows.exitCommitted`, `Rows.exitBooked`) and so has an entry.

A `Snapshot` is a marked ledger that waits to be written. Its write makes the account row the sum
of the open rows (`Snapshot.rowsAddUp`).
-/

namespace SniperBot.Exits

open Basis Ledger Risk Paper

/-! ## The ledger -/

structure Books (ledger : LedgerState) : Prop where
  wellFormed : WellFormed ledger
  sides : Sides ledger
  ids : ∀ id p, ledger.positions.get? id = some p → p.positionId = id
  entries : ∀ orderId id, ledger.orderIdIndex.get? orderId = some id →
    ∃ fill ∈ ledger.fills, fill.orderId = orderId
  exits : ∀ orderId id, ledger.closeOrderIdIndex.get? orderId = some id →
    ∃ fill ∈ ledger.fills, fill.orderId = orderId

/-- The ledger has an open position under the id. -/
def OpenAt (ledger : LedgerState) (id : String) : Prop :=
  ∃ p, ledger.positions.get? id = some p ∧ p.status = .opened

section Ledger

variable {ledger : LedgerState}

theorem Books.init (startingEquity : ℚ) : Books (LedgerState.init startingEquity) where
  wellFormed := WellFormed.init startingEquity
  sides := ⟨by rintro _ ⟨⟩, by rintro _ ⟨⟩⟩
  ids := by rintro _ _ ⟨⟩
  entries := by rintro _ _ ⟨⟩
  exits := by rintro _ _ ⟨⟩

theorem Books.sameBooks (h : Books ledger) {checked : LedgerState}
    (hsame : SameBooks ledger checked) : Books checked := by
  obtain ⟨halt, pause, date, baseline, rfl⟩ := hsame
  exact ⟨⟨h.wellFormed.fillPosition, h.wellFormed.indexOpen, h.wellFormed.openIndexed,
    h.wellFormed.openTokens, h.wellFormed.closedTokens⟩, ⟨h.sides.entries, h.sides.exits⟩, h.ids,
    h.entries, h.exits⟩

theorem Books.booked (h : Books ledger) {args : OpenArgs} (valid : args.costs.Valid)
    (hbook : BookCase ledger args) (horder : ∃ candidateId, args.orderId = entryOrder candidateId) :
    Books (ledger.booked args valid) := by
  have hkept : ∀ orderId, (∃ fill ∈ ledger.fills, fill.orderId = orderId) →
      ∃ fill ∈ (ledger.booked args valid).fills, fill.orderId = orderId := by
    rintro orderId ⟨fill, hfill, heq⟩
    exact ⟨fill, List.mem_append_left _ hfill, heq⟩
  refine ⟨h.wellFormed.booked valid hbook, ⟨?_, ?_⟩, ?_, ?_, fun orderId id hget =>
    hkept orderId (h.exits orderId id hget)⟩
  · intro fill hfill htype
    rcases List.mem_append.mp hfill with hold | hnew
    · exact h.sides.entries fill hold htype
    · rw [List.mem_singleton.mp hnew]
      exact horder
  · intro fill hfill htype
    rcases List.mem_append.mp hfill with hold | hnew
    · exact h.sides.exits fill hold htype
    · rw [List.mem_singleton.mp hnew] at htype
      cases htype
  · intro id p hget
    simp only [LedgerState.booked, Dict.get?_set] at hget
    split at hget
    · rename_i hid
      cases hget
      exact hid
    · exact h.ids id p hget
  · intro orderId id hget
    simp only [LedgerState.booked, Dict.get?_set] at hget
    split at hget
    · rename_i hid
      exact ⟨args.entryFill valid, List.mem_append_right _ (List.mem_singleton.mpr rfl), hid⟩
    · exact hkept orderId (h.entries orderId id hget)

theorem Books.exited (h : Books ledger) (dateKey : Time → String) {args : CloseArgs} {id : String}
    {p : PositionRecord} (valid : args.costs.Valid) (hcase : Ledger.ExitCase ledger args id p)
    (horder : ∃ i code, args.orderId = exitOrder i code) :
    Books (ledger.exited dateKey args id p valid) := by
  have hkept : ∀ orderId, (∃ fill ∈ ledger.fills, fill.orderId = orderId) →
      ∃ fill ∈ (ledger.exited dateKey args id p valid).fills, fill.orderId = orderId := by
    rintro orderId ⟨fill, hfill, heq⟩
    exact ⟨fill, List.mem_append_left _ hfill, heq⟩
  refine ⟨h.wellFormed.exited valid hcase, ⟨?_, ?_⟩, ?_, fun orderId j hget =>
    hkept orderId (h.entries orderId j hget), ?_⟩
  · intro fill hfill htype
    rcases List.mem_append.mp hfill with hold | hnew
    · exact h.sides.entries fill hold htype
    · rw [List.mem_singleton.mp hnew] at htype
      cases htype
  · intro fill hfill htype
    rcases List.mem_append.mp hfill with hold | hnew
    · exact h.sides.exits fill hold htype
    · rw [List.mem_singleton.mp hnew]
      exact horder
  · intro j q hget
    rcases hcase.stored_cases hget with ⟨rfl, rfl⟩ | ⟨-, hold⟩
    · rw [closedPosition_positionId]
      exact h.ids j p hcase.stored
    · exact h.ids j q hold
  · intro orderId j hget
    simp only [LedgerState.exited, Dict.get?_set] at hget
    split at hget
    · rename_i hid
      exact ⟨args.closeFill p id valid, List.mem_append_right _ (List.mem_singleton.mpr rfl), hid⟩
    · exact hkept orderId (h.exits orderId j hget)

theorem Books.marked (h : Books ledger) (dateKey : Time → String) (prices : Dict String ℚ)
    (now : Time) : Books (markToMarket dateKey ledger prices now) := by
  refine ⟨h.wellFormed.marked prices now, ⟨h.sides.entries, h.sides.exits⟩, fun id p hget => ?_,
    h.entries, h.exits⟩
  obtain ⟨old, hold, rfl⟩ := get?_markToMarket hget
  rw [markPosition_positionId]
  exact h.ids id old hold

theorem Books.newEntry (h : Books ledger) {orderId : String} (hunused : Unused ledger orderId) :
    ledger.orderIdIndex.get? orderId = none := by
  cases horder : ledger.orderIdIndex.get? orderId with
  | none => rfl
  | some id =>
      obtain ⟨fill, hfill, heq⟩ := h.entries orderId id horder
      exact absurd heq (hunused fill hfill)

theorem Books.newExit (h : Books ledger) {orderId : String} (hunused : Unused ledger orderId) :
    ledger.closeOrderIdIndex.get? orderId = none := by
  cases horder : ledger.closeOrderIdIndex.get? orderId with
  | none => rfl
  | some id =>
      obtain ⟨fill, hfill, heq⟩ := h.exits orderId id horder
      exact absurd heq (hunused fill hfill)

/-- Two open positions have different mints. -/
theorem Books.mint_inj (h : Books ledger) {id id' : String} {p p' : PositionRecord}
    (hp : ledger.positions.get? id = some p) (hopen : p.status = .opened)
    (hp' : ledger.positions.get? id' = some p') (hopen' : p'.status = .opened)
    (hmint : p.tokenMint = p'.tokenMint) : id = id' := by
  have hindexed := h.wellFormed.openIndexed id p hp hopen
  rw [hmint, h.wellFormed.openIndexed id' p' hp' hopen'] at hindexed
  exact (Option.some.inj hindexed).symm

/-! ### Open positions after a step -/

theorem get?_booked {args : OpenArgs} {valid : args.costs.Valid} {id : String}
    (hfresh : ledger.positions.get? args.positionId = none) {p : PositionRecord}
    (hget : ledger.positions.get? id = some p) :
    (ledger.booked args valid).positions.get? id = some p := by
  have hne : args.positionId ≠ id := by
    rintro rfl
    rw [hfresh] at hget
    cases hget
  simp only [LedgerState.booked, Dict.get?_set, if_neg hne]
  exact hget

theorem openAt_booked {args : OpenArgs} {valid : args.costs.Valid} {id : String}
    (hfresh : ledger.positions.get? args.positionId = none) (h : OpenAt ledger id) :
    OpenAt (ledger.booked args valid) id := by
  obtain ⟨p, hget, hopen⟩ := h
  exact ⟨p, get?_booked hfresh hget, hopen⟩

theorem booked_cases {args : OpenArgs} {valid : args.costs.Valid} {id : String}
    {p : PositionRecord} (hget : (ledger.booked args valid).positions.get? id = some p) :
    (id = args.positionId ∧ p = args.newPosition) ∨ ledger.positions.get? id = some p := by
  simp only [LedgerState.booked, Dict.get?_set] at hget
  split at hget
  · rename_i hid
    cases hget
    exact Or.inl ⟨hid.symm, rfl⟩
  · exact Or.inr hget

theorem openAt_marked {dateKey : Time → String} {prices : Dict String ℚ} {now : Time}
    {id : String} : OpenAt (markToMarket dateKey ledger prices now) id ↔ OpenAt ledger id := by
  constructor
  · rintro ⟨p, hget, hopen⟩
    obtain ⟨old, hold, rfl⟩ := get?_markToMarket hget
    rw [markPosition_status] at hopen
    exact ⟨old, hold, hopen⟩
  · rintro ⟨p, hget, hopen⟩
    refine ⟨markPosition prices now p, ?_, by rw [markPosition_status]; exact hopen⟩
    simp only [markToMarket, Dict.get?_mapValues, hget, Option.map_some]

end Ledger

/-! ## The rows -/

/-- The row of an open position. -/
structure Matches (p : PositionRecord) (row : PositionRow) : Prop where
  live : row.status.Live
  mint : row.mint = p.tokenMint
  tokens : row.tokenAmountRaw = p.remainingTokenAmount

/-- `closing` is the position whose exit is committed and not booked. -/
structure Rows (ledger : LedgerState) (db : PaperDb) (closing : Option String) : Prop where
  stored : ∀ id p, ledger.positions.get? id = some p → ∃ row, db.positions.get? id = some row
  matched : ∀ id p, ledger.positions.get? id = some p → p.status = .opened → closing ≠ some id →
    ∃ row, db.positions.get? id = some row ∧ Matches p row
  unmarked : ∀ id row, db.positions.get? id = some row → row.status.Live → ¬ OpenAt ledger id →
    row.unrealizedPnl = 0
  mints : ∀ id row id' row', db.positions.get? id = some row → db.positions.get? id' = some row' →
    row.status.Live → row'.status.Live → row.mint = row'.mint → id = id'

section Rows

variable {ledger : LedgerState} {db : PaperDb} {closing : Option String}

theorem Rows.sameBooks (h : Rows ledger db closing) {checked : LedgerState}
    (hsame : SameBooks ledger checked) : Rows checked db closing := by
  obtain ⟨halt, pause, date, baseline, rfl⟩ := hsame
  exact ⟨h.stored, h.matched, h.unmarked, h.mints⟩

theorem entered_cases {args : EntryArgs} {account : AccountRow} {id : String} {row : PositionRow}
    (hget : (db.entered account args).positions.get? id = some row) :
    (id = args.positionId ∧ row = args.position) ∨
      (args.positionId ≠ id ∧ db.positions.get? id = some row) := by
  simp only [PaperDb.entered, Dict.get?_set] at hget
  split at hget
  · rename_i hid
    cases hget
    exact Or.inl ⟨hid.symm, rfl⟩
  · rename_i hid
    exact Or.inr ⟨hid, hget⟩

/-- An old row is still there after an entry. -/
theorem get?_entered {args : EntryArgs} {account : AccountRow} (hcase : EntryCase db args account)
    {id : String} {row : PositionRow} (hget : db.positions.get? id = some row) :
    (db.entered account args).positions.get? id = some row := by
  have hne : args.positionId ≠ id := by
    rintro rfl
    rw [hcase.freshPosition] at hget
    cases hget
  simp only [PaperDb.entered, Dict.get?_set, if_neg hne]
  exact hget

theorem Rows.entered (h : Rows ledger db closing) {args : EntryArgs} {account : AccountRow}
    (hcase : EntryCase db args account) : Rows ledger (db.entered account args) closing := by
  refine ⟨?_, ?_, ?_, ?_⟩
  · intro id p hget
    obtain ⟨row, hrow⟩ := h.stored id p hget
    exact ⟨row, get?_entered hcase hrow⟩
  · intro id p hget hopen hclosing
    obtain ⟨row, hrow, hmatches⟩ := h.matched id p hget hopen hclosing
    exact ⟨row, get?_entered hcase hrow, hmatches⟩
  · intro id row hget hlive hnot
    rcases entered_cases hget with ⟨-, rfl⟩ | ⟨-, hold⟩
    · rfl
    · exact h.unmarked id row hold hlive hnot
  · intro id row id' row' hget hget' hlive hlive' hmint
    rcases entered_cases hget with ⟨rfl, rfl⟩ | ⟨-, hold⟩
    · rcases entered_cases hget' with ⟨rfl, -⟩ | ⟨-, hold'⟩
      · rfl
      · exact absurd hmint.symm (livePosition_none hcase.noDuplicate hold' hlive')
    · rcases entered_cases hget' with ⟨rfl, rfl⟩ | ⟨-, hold'⟩
      · exact absurd hmint (livePosition_none hcase.noDuplicate hold hlive)
      · exact h.mints id row id' row' hold hold' hlive hlive' hmint

theorem Rows.booked (h : Rows ledger db closing) {args : OpenArgs} (valid : args.costs.Valid)
    (hfresh : ledger.positions.get? args.positionId = none) {row : PositionRow}
    (hrow : db.positions.get? args.positionId = some row) (hmatches : Matches args.newPosition row) :
    Rows (ledger.booked args valid) db closing := by
  refine ⟨?_, ?_, ?_, h.mints⟩
  · intro id p hget
    rcases booked_cases hget with ⟨rfl, -⟩ | hold
    · exact ⟨row, hrow⟩
    · exact h.stored id p hold
  · intro id p hget hopen hclosing
    rcases booked_cases hget with ⟨rfl, rfl⟩ | hold
    · exact ⟨row, hrow, hmatches⟩
    · exact h.matched id p hold hopen hclosing
  · intro id found hget hlive hnot
    exact h.unmarked id found hget hlive fun hopen => hnot (openAt_booked hfresh hopen)

theorem exited_cases {args : ExitArgs} {account : AccountRow} {id j : String}
    {row found : PositionRow}
    (hget : (db.exited account args id row).positions.get? j = some found) :
    (j = id ∧ found = args.exitedRow row) ∨ (id ≠ j ∧ db.positions.get? j = some found) := by
  simp only [PaperDb.exited, Dict.get?_set] at hget
  split at hget
  · rename_i hid
    cases hget
    exact Or.inl ⟨hid.symm, rfl⟩
  · rename_i hid
    exact Or.inr ⟨hid, hget⟩

/-- A committed exit: the row of the position is ahead of the ledger. -/
theorem Rows.exitCommitted (h : Rows ledger db none) {args : ExitArgs} {account : AccountRow}
    {id : String} {row : PositionRow} (hcase : Paper.ExitCase db args account id row)
    (hopen : OpenAt ledger id) : Rows ledger (db.exited account args id row) (some id) := by
  have hother : ∀ j found, id ≠ j → db.positions.get? j = some found →
      (db.exited account args id row).positions.get? j = some found := by
    intro j found hne hget
    simp only [PaperDb.exited, Dict.get?_set, if_neg hne]
    exact hget
  obtain ⟨hfound, -, hfoundLive⟩ := livePosition_some hcase.found
  refine ⟨?_, ?_, ?_, ?_⟩
  · intro j p hget
    obtain ⟨found, hrow⟩ := h.stored j p hget
    by_cases hid : id = j
    · subst hid
      exact ⟨_, Dict.get?_set_self _ _ _⟩
    · exact ⟨found, hother j found hid hrow⟩
  · intro j p hget hopened hclosing
    obtain ⟨found, hrow, hmatches⟩ := h.matched j p hget hopened (by simp)
    exact ⟨found, hother j found (fun hid => hclosing (hid ▸ rfl)) hrow, hmatches⟩
  · intro j found hget hlive hnot
    rcases exited_cases hget with ⟨rfl, -⟩ | ⟨-, hold⟩
    · exact absurd hopen hnot
    · exact h.unmarked j found hold hlive hnot
  · -- the exited row has the mint of a row that was open
    intro j found j' found' hget hget' hlive hlive' hmint
    rcases exited_cases hget with ⟨rfl, rfl⟩ | ⟨-, hold⟩
    · rcases exited_cases hget' with ⟨rfl, -⟩ | ⟨-, hold'⟩
      · rfl
      · exact h.mints _ _ _ _ hfound hold' hfoundLive hlive' hmint
    · rcases exited_cases hget' with ⟨rfl, rfl⟩ | ⟨-, hold'⟩
      · exact h.mints _ _ _ _ hold hfound hlive hfoundLive hmint
      · exact h.mints _ _ _ _ hold hold' hlive hlive' hmint

/-- The ledger follows a committed exit. -/
theorem Rows.exitBooked {id : String} (h : Rows ledger db (some id)) (dateKey : Time → String)
    {args : CloseArgs} {p : PositionRecord} (valid : args.costs.Valid)
    (hcase : Ledger.ExitCase ledger args id p) {row : PositionRow}
    (hrow : db.positions.get? id = some row)
    (hopen : (args.closedPosition p).status = .opened → Matches (args.closedPosition p) row)
    (hclosed : (args.closedPosition p).status = .closed → ¬ row.status.Live) :
    Rows (ledger.exited dateKey args id p valid) db none := by
  refine ⟨?_, ?_, ?_, h.mints⟩
  · intro j q hget
    rcases hcase.stored_cases hget with ⟨rfl, -⟩ | ⟨-, hold⟩
    · exact ⟨row, hrow⟩
    · exact h.stored j q hold
  · intro j q hget hopened _
    rcases hcase.stored_cases hget with ⟨rfl, rfl⟩ | ⟨hne, hold⟩
    · exact ⟨row, hrow, hopen hopened⟩
    · exact h.matched j q hold hopened (fun heq => hne (Option.some.inj heq))
  · intro j found hget hlive hnot
    refine h.unmarked j found hget hlive ?_
    rintro ⟨q, hq, hqopen⟩
    by_cases hid : id = j
    · subst hid
      rw [hrow] at hget
      cases hget
      cases hstatus : (args.closedPosition p).status with
      | opened => exact hnot ⟨_, Dict.get?_set_self _ _ _, hstatus⟩
      | closed => exact hclosed hstatus hlive
    · refine hnot ⟨q, ?_, hqopen⟩
      simp only [LedgerState.exited, Dict.get?_set, if_neg hid]
      exact hq

theorem Rows.marked (h : Rows ledger db closing) (dateKey : Time → String)
    (prices : Dict String ℚ) (now : Time) :
    Rows (markToMarket dateKey ledger prices now) db closing := by
  refine ⟨?_, ?_, ?_, h.mints⟩
  · intro id p hget
    obtain ⟨old, hold, -⟩ := get?_markToMarket hget
    exact h.stored id old hold
  · intro id p hget hopen hclosing
    obtain ⟨old, hold, rfl⟩ := get?_markToMarket hget
    rw [markPosition_status] at hopen
    obtain ⟨row, hrow, hmatches⟩ := h.matched id old hold hopen hclosing
    refine ⟨row, hrow, hmatches.live, ?_, ?_⟩
    · rw [markPosition_tokenMint]
      exact hmatches.mint
    · rw [markPosition_remainingTokenAmount]
      exact hmatches.tokens
  · intro id row hget hlive hnot
    exact h.unmarked id row hget hlive fun hopen => hnot (openAt_marked.mpr hopen)

end Rows

/-! ## The write -/

/-- What an open position of the snapshot adds to the total. -/
def snapshotGain (values : Dict String ℚ) (id : String) (p : PositionRecord) : ℚ :=
  if p.status = .opened then (values.get? id).getD 0 - p.remainingCostUsd else 0

/-- A marked ledger that waits to be written. -/
structure Snapshot (ledger : LedgerState) (db : PaperDb) (snapshot : LedgerState)
    (values : Dict String ℚ) : Prop where
  ids : ∀ id p, snapshot.positions.get? id = some p → p.positionId = id
  total : snapshot.unrealizedPnlUsd = Dict.total (snapshotGain values) snapshot.positions
  quoted : ∀ id, OpenAt snapshot id → values.get? id ≠ none
  current : ∀ id, OpenAt snapshot id → OpenAt ledger id
  unmarked : ∀ id row, db.positions.get? id = some row → row.status.Live → ¬ OpenAt snapshot id →
    row.unrealizedPnl = 0

section Write

variable {ledger snapshot : LedgerState} {db : PaperDb} {account : AccountRow}
  {values : Dict String ℚ} {now : Time} {id : String}

theorem get?_written_of_open
    (hids : ∀ id p, snapshot.positions.get? id = some p → p.positionId = id) {p : PositionRecord}
    (hp : snapshot.positions.get? id = some p) (hopen : p.status = .opened) :
    (db.marked account values snapshot now).positions.get? id =
      (db.positions.get? id).map (markedRow values p) := by
  obtain ⟨hupdated, -⟩ := Dict.get?_foldl_update (fun p : PositionRecord => p.positionId)
    (markedRow values) snapshot.openPositions (openPositions_ids_nodup hids) db.positions
  have hrow := hupdated p (mem_openPositions.mpr ⟨id, hp, hopen⟩)
  rw [hids id p hp] at hrow
  exact hrow

theorem get?_written_of_not_open
    (hids : ∀ id p, snapshot.positions.get? id = some p → p.positionId = id)
    (hnot : ¬ OpenAt snapshot id) :
    (db.marked account values snapshot now).positions.get? id = db.positions.get? id := by
  obtain ⟨-, huntouched⟩ := Dict.get?_foldl_update (fun p : PositionRecord => p.positionId)
    (markedRow values) snapshot.openPositions (openPositions_ids_nodup hids) db.positions
  refine huntouched id fun hmem => ?_
  obtain ⟨p, hp, hid⟩ := List.mem_map.mp hmem
  obtain ⟨j, hj, hopen⟩ := mem_openPositions.mp hp
  exact hnot ⟨p, (hids j p hj).symm.trans hid ▸ hj, hopen⟩

/-- The write keeps what the rows say about the open positions. -/
theorem written_cases (hids : ∀ id p, snapshot.positions.get? id = some p → p.positionId = id)
    {row : PositionRow}
    (hget : (db.marked account values snapshot now).positions.get? id = some row) :
    ∃ old, db.positions.get? id = some old ∧ row.status = old.status ∧ row.mint = old.mint ∧
      row.tokenAmountRaw = old.tokenAmountRaw ∧ (¬ OpenAt snapshot id → row = old) := by
  by_cases hopen : OpenAt snapshot id
  · obtain ⟨p, hp, hopened⟩ := hopen
    rw [get?_written_of_open hids hp hopened] at hget
    obtain ⟨old, hold, rfl⟩ := Option.map_eq_some_iff.mp hget
    exact ⟨old, hold, rfl, rfl, rfl, fun hnot => absurd ⟨p, hp, hopened⟩ hnot⟩
  · rw [get?_written_of_not_open hids hopen] at hget
    exact ⟨row, hget, rfl, rfl, rfl, fun _ => rfl⟩

theorem Rows.written {closing : Option String} (h : Rows ledger db closing)
    (hsnapshot : Snapshot ledger db snapshot values) :
    Rows ledger (db.marked account values snapshot now) closing := by
  refine ⟨?_, ?_, ?_, ?_⟩
  · intro id p hget
    exact Dict.exists_foldl_update _ _ _ (h.stored id p hget)
  · intro id p hget hopen hclosing
    obtain ⟨old, hold, hmatches⟩ := h.matched id p hget hopen hclosing
    obtain ⟨row, hrow⟩ : ∃ row,
        (db.marked account values snapshot now).positions.get? id = some row :=
      Dict.exists_foldl_update _ _ _ ⟨old, hold⟩
    obtain ⟨old', hold', hstatus, hmint, htokens, -⟩ := written_cases hsnapshot.ids hrow
    rw [hold] at hold'
    cases hold'
    exact ⟨row, hrow, hstatus ▸ hmatches.live, hmint.trans hmatches.mint,
      htokens.trans hmatches.tokens⟩
  · intro id row hget hlive hnot
    obtain ⟨old, hold, hstatus, -, -, hsame⟩ := written_cases hsnapshot.ids hget
    obtain rfl := hsame fun hopen => hnot (hsnapshot.current id hopen)
    exact h.unmarked id row hold hlive hnot
  · intro id row id' row' hget hget' hlive hlive' hmint
    obtain ⟨old, hold, hstatus, holdMint, -⟩ := written_cases hsnapshot.ids hget
    obtain ⟨old', hold', hstatus', holdMint', -⟩ := written_cases hsnapshot.ids hget'
    exact h.mints id old id' old' hold hold' (hstatus ▸ hlive) (hstatus' ▸ hlive')
      (holdMint.symm.trans (hmint.trans holdMint'))

/-- Each row weighs in the sum of the rows what its position weighs in the total of the ledger. -/
theorem Snapshot.rowsAddUp (h : Snapshot ledger db snapshot values) (hrows : Rows ledger db none) :
    RowsAddUp (db.marked account values snapshot now) := by
  refine ⟨_, rfl, ?_⟩
  show snapshot.unrealizedPnlUsd = _
  rw [h.total]
  refine Dict.total_eq_total fun id => ?_
  by_cases hopen : OpenAt snapshot id
  · obtain ⟨p, hp, hopened⟩ := hopen
    obtain ⟨q, hq, hqopen⟩ := h.current id ⟨p, hp, hopened⟩
    obtain ⟨row, hrow, hmatches⟩ := hrows.matched id q hq hqopen (by simp)
    have hid := h.ids id p hp
    have hlive : row.status.Live := hmatches.live
    simp only [Dict.weight, get?_written_of_open h.ids hp hopened, hp, hrow, Option.map_some,
      Option.getD_some, snapshotGain, liveGain, markedRow, if_pos hopened, if_pos hlive, hid]
  · have hleft : Dict.weight (snapshotGain values) snapshot.positions id = 0 := by
      unfold Dict.weight
      cases hp : snapshot.positions.get? id with
      | none => rfl
      | some p =>
          have hclosed : ¬ p.status = .opened := fun hopened => hopen ⟨p, hp, hopened⟩
          simp only [Option.map_some, Option.getD_some, snapshotGain, if_neg hclosed]
    have hright : Dict.weight liveGain (db.marked account values snapshot now).positions id =
        0 := by
      rw [Dict.weight, get?_written_of_not_open h.ids hopen]
      cases hrow : db.positions.get? id with
      | none => rfl
      | some row =>
          simp only [Option.map_some, Option.getD_some, liveGain]
          split
          · rename_i hlive
            exact h.unmarked id row hrow hlive hopen
          · rfl
    rw [hleft, hright]

theorem Snapshot.unquotedRowsKept (h : Snapshot ledger db snapshot values) :
    UnquotedRowsKept (db.marked account values snapshot now) values := by
  intro id row hget hlive hnone
  obtain ⟨old, hold, -, -, -, hsame⟩ := written_cases h.ids hget
  have hnot : ¬ OpenAt snapshot id := fun hopen => h.quoted id hopen hnone
  obtain rfl := hsame hnot
  exact h.unmarked id row hold hlive hnot

end Write

end SniperBot.Exits
