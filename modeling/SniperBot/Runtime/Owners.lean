import SniperBot.Runtime.Trading
import SniperBot.Exits.Rows

/-!
# Positions and the orders that opened them

The id of an entry order is made from the candidate, and no order is ever changed: the rows say
which candidate opened which position (`Traced`). Every position of the ledger is one that the entry
order of its candidate names (`Owned`), and a new process restores such a ledger from the rows.
-/

namespace SniperBot.Runtime

open Basis Ledger Risk Paper Exits Security Candidates

/-! ## The rows -/

/-- Orders are never changed. -/
def OrdersKept (db next : PaperDb) : Prop :=
  ∀ orderId order, db.orders.get? orderId = some order → next.orders.get? orderId = some order

theorem ordersKept_entered {db : PaperDb} {args : EntryArgs} {account : AccountRow}
    (hcase : EntryCase db args account) : OrdersKept db (db.entered account args) := by
  intro orderId order hget
  have hne : args.orderId ≠ orderId := by
    rintro rfl
    rw [hcase.freshOrder] at hget
    cases hget
  simp only [PaperDb.entered, Dict.get?_set_ne _ hne]
  exact hget

theorem ordersKept_exited {db : PaperDb} {args : ExitArgs} {account : AccountRow} {id : String}
    {row : PositionRow} (hcase : Paper.ExitCase db args account id row) :
    OrdersKept db (db.exited account args id row) := by
  intro orderId order hget
  have hne : args.orderId ≠ orderId := by
    rintro rfl
    rw [hcase.freshOrder] at hget
    cases hget
  simp only [PaperDb.exited, Dict.get?_set_ne _ hne]
  exact hget

/-- What the rows of entries say about positions. -/
structure Traced (db : PaperDb) : Prop where
  entries : ∀ orderId order, db.orders.get? orderId = some order → order.side = .buy →
    ∃ candidateId, order.candidateId = some candidateId ∧ orderId = entryOrder candidateId
  sells : ∀ orderId order, db.orders.get? orderId = some order → order.side = .sell →
    ∃ id code, orderId = exitOrder id code
  placed : ∀ orderId order id, db.orders.get? orderId = some order → order.positionId = some id →
    ∃ row, db.positions.get? id = some row
  once : ∀ orderId order orderId' order' id, db.orders.get? orderId = some order →
    db.orders.get? orderId' = some order' → order.side = .buy → order'.side = .buy →
    order.positionId = some id → order'.positionId = some id → orderId = orderId'
  bought : ∀ id row, db.fills.get? id = some row → row.side = .buy →
    ∃ candidateId, row.orderId = entryOrder candidateId
  mints : ∀ id row id' row', db.positions.get? id = some row → db.positions.get? id' = some row' →
    row.status.Live → row'.status.Live → row.mint = row'.mint → id = id'
  named : ∀ id row, db.positions.get? id = some row → id ≠ ""
  opened : ∀ id row, db.positions.get? id = some row → ∃ orderId order,
    db.orders.get? orderId = some order ∧ order.side = .buy ∧ order.positionId = some id

section Rows

variable {db : PaperDb}

theorem Traced.entered (h : Traced db) {args : EntryArgs} {account : AccountRow}
    (hcase : EntryCase db args account) (horder : args.orderId = entryOrder args.candidateId)
    (hid : args.positionId ≠ "") : Traced (db.entered account args) := by
  -- an order row is the new one or an old one, and no old one names the new position
  have horders : ∀ orderId order, (db.entered account args).orders.get? orderId = some order →
      (orderId = args.orderId ∧ order = args.order) ∨ db.orders.get? orderId = some order := by
    intro orderId order hget
    simp only [PaperDb.entered, Dict.get?_set] at hget
    split at hget
    · rename_i heq
      cases hget
      exact Or.inl ⟨heq.symm, rfl⟩
    · exact Or.inr hget
  have hunplaced : ∀ orderId order, db.orders.get? orderId = some order →
      order.positionId ≠ some args.positionId := by
    intro orderId order hget hposition
    obtain ⟨row, hrow⟩ := h.placed orderId order _ hget hposition
    rw [hcase.freshPosition] at hrow
    cases hrow
  refine ⟨?_, ?_, ?_, ?_, ?_, ?_, ?_, ?_⟩
  · intro orderId order hget hside
    rcases horders orderId order hget with ⟨rfl, rfl⟩ | hold
    · exact ⟨args.candidateId, rfl, horder⟩
    · exact h.entries orderId order hold hside
  · intro orderId order hget hside
    rcases horders orderId order hget with ⟨rfl, rfl⟩ | hold
    · cases hside
    · exact h.sells orderId order hold hside
  · intro orderId order id hget hposition
    rcases horders orderId order hget with ⟨rfl, rfl⟩ | hold
    · cases hposition
      exact ⟨_, Dict.get?_set_self _ _ _⟩
    · obtain ⟨row, hrow⟩ := h.placed orderId order id hold hposition
      exact ⟨row, get?_entered hcase hrow⟩
  · intro orderId order orderId' order' id hget hget' hside hside' hposition hposition'
    rcases horders orderId order hget with ⟨rfl, rfl⟩ | hold
    · cases hposition
      rcases horders orderId' order' hget' with ⟨rfl, -⟩ | hold'
      · rfl
      · exact absurd hposition' (hunplaced orderId' order' hold')
    · rcases horders orderId' order' hget' with ⟨rfl, rfl⟩ | hold'
      · cases hposition'
        exact absurd hposition (hunplaced orderId order hold)
      · exact h.once orderId order orderId' order' id hold hold' hside hside' hposition hposition'
  · intro id row hget hside
    simp only [PaperDb.entered, Dict.get?_set] at hget
    split at hget
    · cases hget
      exact ⟨args.candidateId, horder⟩
    · exact h.bought id row hget hside
  · intro id row id' row' hget hget' hlive hlive' hmint
    rcases entered_cases hget with ⟨rfl, rfl⟩ | ⟨-, hold⟩
    · rcases entered_cases hget' with ⟨rfl, -⟩ | ⟨-, hold'⟩
      · rfl
      · exact absurd hmint.symm (livePosition_none hcase.noDuplicate hold' hlive')
    · rcases entered_cases hget' with ⟨rfl, rfl⟩ | ⟨-, hold'⟩
      · exact absurd hmint (livePosition_none hcase.noDuplicate hold hlive)
      · exact h.mints id row id' row' hold hold' hlive hlive' hmint
  · intro id row hget
    rcases entered_cases hget with ⟨rfl, -⟩ | ⟨-, hold⟩
    · exact hid
    · exact h.named id row hold
  · intro id row hget
    rcases entered_cases hget with ⟨rfl, -⟩ | ⟨-, hold⟩
    · exact ⟨args.orderId, args.order, Dict.get?_set_self _ _ _, rfl, rfl⟩
    · obtain ⟨orderId, order, horder, hside, hposition⟩ := h.opened id row hold
      exact ⟨orderId, order, ordersKept_entered hcase _ _ horder, hside, hposition⟩

theorem Traced.exited (h : Traced db) {args : ExitArgs} {account : AccountRow} {id : String}
    {row : PositionRow} (hcase : Paper.ExitCase db args account id row) {position code : String}
    (horder : args.orderId = exitOrder position code) :
    Traced (db.exited account args id row) := by
  obtain ⟨hstored, -, hlive⟩ := livePosition_some hcase.found
  -- a BUY order is an old one
  have horders : ∀ orderId order, (db.exited account args id row).orders.get? orderId = some order →
      (orderId = args.orderId ∧ order.side ≠ .buy ∧ order.positionId = some id) ∨
        db.orders.get? orderId = some order := by
    intro orderId order hget
    simp only [PaperDb.exited, Dict.get?_set] at hget
    split at hget
    · rename_i heq
      cases hget
      exact Or.inl ⟨heq.symm, by rintro ⟨⟩, rfl⟩
    · exact Or.inr hget
  have hkept : ∀ j found, db.positions.get? j = some found →
      ∃ found, (db.exited account args id row).positions.get? j = some found := by
    intro j found hget
    simp only [PaperDb.exited, Dict.get?_set]
    split
    · exact ⟨_, rfl⟩
    · exact ⟨found, hget⟩
  -- the rows of open positions keep their mints
  have hopen : ∀ j found, (db.exited account args id row).positions.get? j = some found →
      ∃ old, db.positions.get? j = some old ∧ old.mint = found.mint ∧
        (found.status.Live → old.status.Live) := by
    intro j found hget
    rcases exited_cases hget with ⟨rfl, rfl⟩ | ⟨-, hold⟩
    · exact ⟨row, hstored, rfl, fun _ => hlive⟩
    · exact ⟨found, hold, rfl, fun h => h⟩
  refine ⟨?_, ?_, ?_, ?_, ?_, ?_, ?_, ?_⟩
  · intro orderId order hget hside
    rcases horders orderId order hget with ⟨-, hsell, -⟩ | hold
    · exact absurd hside hsell
    · exact h.entries orderId order hold hside
  · intro orderId order hget hside
    rcases horders orderId order hget with ⟨rfl, -⟩ | hold
    · exact ⟨position, code, horder⟩
    · exact h.sells orderId order hold hside
  · intro orderId order j hget hposition
    rcases horders orderId order hget with ⟨-, -, hsold⟩ | hold
    · rw [hposition] at hsold
      cases hsold
      exact hkept id row hstored
    · obtain ⟨found, hfound⟩ := h.placed orderId order j hold hposition
      exact hkept j found hfound
  · intro orderId order orderId' order' j hget hget' hside hside'
    have hold := (horders orderId order hget).resolve_left fun hsold => hsold.2.1 hside
    have hold' := (horders orderId' order' hget').resolve_left fun hsold => hsold.2.1 hside'
    exact h.once orderId order orderId' order' j hold hold' hside hside'
  · intro fillId fill hget hside
    simp only [PaperDb.exited, Dict.get?_set] at hget
    split at hget
    · cases hget
      cases hside
    · exact h.bought fillId fill hget hside
  · intro j found j' found' hget hget' hfound hfound' hmint
    obtain ⟨old, hold, holdMint, holdLive⟩ := hopen j found hget
    obtain ⟨old', hold', holdMint', holdLive'⟩ := hopen j' found' hget'
    exact h.mints j old j' old' hold hold' (holdLive hfound) (holdLive' hfound')
      (holdMint.trans (hmint.trans holdMint'.symm))
  · intro j found hget
    obtain ⟨old, hold, -⟩ := hopen j found hget
    exact h.named j old hold
  · intro j found hget
    obtain ⟨old, hold, -⟩ := hopen j found hget
    obtain ⟨orderId, order, horder, hside, hposition⟩ := h.opened j old hold
    exact ⟨orderId, order, ordersKept_exited hcase _ _ horder, hside, hposition⟩

/-- A write that touches neither orders nor fills and keeps the status and the mint of every row. -/
theorem Traced.marked (h : Traced db) {next : PaperDb} (horders : next.orders = db.orders)
    (hfills : next.fills = db.fills)
    (hrows : ∀ id, (next.positions.get? id).map (fun row => (row.status, row.mint)) =
      (db.positions.get? id).map fun row => (row.status, row.mint)) : Traced next := by
  have hold : ∀ id row, next.positions.get? id = some row →
      ∃ old, db.positions.get? id = some old ∧ (old.status, old.mint) = (row.status, row.mint) := by
    intro id row hget
    have hrow := hrows id
    rw [hget, Option.map_some] at hrow
    exact Option.map_eq_some_iff.mp hrow.symm
  refine ⟨?_, ?_, ?_, ?_, ?_, ?_, ?_, ?_⟩
  · rw [horders]
    exact h.entries
  · rw [horders]
    exact h.sells
  · rw [horders]
    intro orderId order id hget hposition
    obtain ⟨row, hrow⟩ := h.placed orderId order id hget hposition
    have hnext := hrows id
    rw [hrow, Option.map_some] at hnext
    obtain ⟨found, hfound, -⟩ := Option.map_eq_some_iff.mp hnext
    exact ⟨found, hfound⟩
  · rw [horders]
    exact h.once
  · rw [hfills]
    exact h.bought
  · intro id row id' row' hget hget' hlive hlive' hmint
    obtain ⟨old, hgetOld, heq⟩ := hold id row hget
    obtain ⟨old', hgetOld', heq'⟩ := hold id' row' hget'
    obtain ⟨hstatus, hmintOld⟩ := Prod.mk.inj heq
    obtain ⟨hstatus', hmintOld'⟩ := Prod.mk.inj heq'
    exact h.mints id old id' old' hgetOld hgetOld' (hstatus ▸ hlive) (hstatus' ▸ hlive')
      (hmintOld.trans (hmint.trans hmintOld'.symm))
  · intro id row hget
    obtain ⟨old, hgetOld, -⟩ := hold id row hget
    exact h.named id old hgetOld
  · intro id row hget
    obtain ⟨old, hgetOld, -⟩ := hold id row hget
    rw [horders]
    exact h.opened id old hgetOld

/-- The rows after a transaction of the runtime. -/
structure RowsFollow (db next : PaperDb) : Prop where
  traced : Traced next
  orders : OrdersKept db next

theorem Traced.refl (h : Traced db) : RowsFollow db db := ⟨h, fun _ _ hget => hget⟩

theorem Traced.afterEntry (h : Traced db) {args : EntryArgs}
    (horder : args.orderId = entryOrder args.candidateId) (hid : args.positionId ≠ "") :
    RowsFollow db (commitPaperEntry args db).2 :=
  commitPaperEntry_rule args h.refl fun _ hcase =>
    ⟨h.entered hcase horder hid, ordersKept_entered hcase⟩

theorem Traced.afterExit (h : Traced db) {args : ExitArgs} {position code : String}
    (horder : args.orderId = exitOrder position code) :
    RowsFollow db (commitPaperExit args db).2 :=
  commitPaperExit_rule args h.refl fun _ _ _ hcase =>
    ⟨h.exited hcase horder, ordersKept_exited hcase⟩

theorem Traced.afterMarks (h : Traced db) (ownedRun : Option String) (values : Dict String ℚ)
    (snapshot : LedgerState) (now : Time) :
    RowsFollow db (updatePaperMarks ownedRun values snapshot now db).2 := by
  refine transaction_of_cases h.refl ?_
  split
  · exact Or.inl ⟨_, rfl⟩
  · split
    · exact Or.inl ⟨_, rfl⟩
    · refine Or.inr ⟨h.marked rfl rfl fun id => ?_, fun _ _ hget => hget⟩
      exact Dict.map_get?_foldl_update (fun item : PositionRecord => item.positionId)
        (markedRow values) (fun row => (row.status, row.mint)) (fun _ _ => rfl) _ _ _

theorem Traced.afterRiskState (h : Traced db) (ownedRun : Option String) (c : Controls)
    (now : Time) : RowsFollow db (persistRiskState ownedRun c now db).2 := by
  refine transaction_of_cases h.refl ?_
  split
  · exact Or.inl ⟨_, rfl⟩
  · split
    · exact Or.inl ⟨_, rfl⟩
    · exact Or.inr ⟨h.marked rfl rfl fun _ => rfl, fun _ _ hget => hget⟩

end Rows

/-! ## The ledger -/

/-- The ledger has an open position of the candidate. -/
def OpenFor (ledger : LedgerState) (candidateId id : String) : Prop :=
  ∃ p, ledger.positions.get? id = some p ∧ p.status = .opened ∧
    p.context.candidateId = some candidateId

/-- The BUY order of a candidate names the position. -/
def OrderNames (db : PaperDb) (candidateId id : String) : Prop :=
  ∃ order, db.orders.get? (entryOrder candidateId) = some order ∧ order.side = .buy ∧
    order.positionId = some id

/-- The ledger beside the rows. -/
structure Owned (ledger : LedgerState) (db : PaperDb) : Prop where
  owned : ∀ id p candidateId, ledger.positions.get? id = some p →
    p.context.candidateId = some candidateId → OrderNames db candidateId id
  owner : ∀ id p, ledger.positions.get? id = some p →
    ∃ candidateId, p.context.candidateId = some candidateId
  named : ∀ id p, ledger.positions.get? id = some p → id ≠ "" ∧ p.positionId = id
  indexed : ∀ id p, ledger.positions.get? id = some p → p.status = .opened →
    ledger.tokenIndex.get? p.tokenMint = some id
  exits : ∀ orderId id, ledger.closeOrderIdIndex.get? orderId = some id →
    ∃ fill ∈ ledger.fills, fill.orderId = orderId
  entries : ∀ fill ∈ ledger.fills, fill.fillType = .entry →
    ∃ candidateId, fill.orderId = entryOrder candidateId

section Ledger

variable {ledger : LedgerState} {db : PaperDb}

theorem OrderNames.inj {candidateId id id' : String} (h : OrderNames db candidateId id)
    (h' : OrderNames db candidateId id') : id = id' := by
  obtain ⟨order, hget, -, hposition⟩ := h
  obtain ⟨order', hget', -, hposition'⟩ := h'
  rw [hget] at hget'
  cases hget'
  exact Option.some.inj (hposition.symm.trans hposition')

theorem entryOrder_inj {candidateId candidateId' : String}
    (h : entryOrder candidateId = entryOrder candidateId') : candidateId = candidateId' := by
  have hlist := congrArg String.toList h
  simp only [entryOrder, String.toList_append] at hlist
  exact String.toList_injective (List.append_cancel_left hlist)

/-- A position is named by the order of one candidate only. -/
theorem Traced.names_inj (h : Traced db) {candidateId candidateId' id : String}
    (hnames : OrderNames db candidateId id) (hnames' : OrderNames db candidateId' id) :
    candidateId = candidateId' := by
  obtain ⟨order, hget, hside, hposition⟩ := hnames
  obtain ⟨order', hget', hside', hposition'⟩ := hnames'
  exact entryOrder_inj (h.once _ order _ order' id hget hget' hside hside' hposition hposition')

theorem OrderNames.kept {next : PaperDb} {candidateId id : String}
    (h : OrderNames db candidateId id) (hkept : OrdersKept db next) :
    OrderNames next candidateId id := by
  obtain ⟨order, hget, hrest⟩ := h
  exact ⟨order, hkept _ _ hget, hrest⟩

theorem Owned.kept {next : PaperDb} (h : Owned ledger db) (hkept : OrdersKept db next) :
    Owned ledger next :=
  ⟨fun id p candidateId hget hcandidate => (h.owned id p candidateId hget hcandidate).kept hkept,
    h.owner, h.named, h.indexed, h.exits, h.entries⟩

theorem Owned.sameBooks (h : Owned ledger db) {checked : LedgerState}
    (hsame : SameBooks ledger checked) : Owned checked db := by
  obtain ⟨halt, pause, date, baseline, rfl⟩ := hsame
  exact ⟨h.owned, h.owner, h.named, h.indexed, h.exits, h.entries⟩

theorem Owned.openFor (h : Owned ledger db) {candidateId id : String}
    (hopen : OpenFor ledger candidateId id) : OrderNames db candidateId id := by
  obtain ⟨p, hget, -, hcandidate⟩ := hopen
  exact h.owned id p candidateId hget hcandidate

/-- No open position of the mint is missing from the index. -/
theorem Owned.no_open (h : Owned ledger db) {mint : String}
    (hnone : ledger.tokenPosition mint = none) {id : String} {p : PositionRecord}
    (hget : ledger.positions.get? id = some p) (hopen : p.status = .opened) :
    p.tokenMint ≠ mint := by
  rintro rfl
  rw [LedgerState.tokenPosition, h.indexed id p hget hopen] at hnone
  simp [Option.filter, (h.named id p hget).1] at hnone

theorem Owned.booked (h : Owned ledger db) {args : OpenArgs} (valid : args.costs.Valid)
    {candidateId : String} (hcandidate : args.context.candidateId = some candidateId)
    (horder : args.orderId = entryOrder candidateId)
    (hnames : OrderNames db candidateId args.positionId) (hid : args.positionId ≠ "")
    (hnone : ledger.tokenPosition args.tokenMint = none) : Owned (ledger.booked args valid) db := by
  refine ⟨?_, ?_, ?_, ?_, ?_, ?_⟩
  · intro id p owner hget howner
    rcases booked_cases hget with ⟨rfl, rfl⟩ | hold
    · have heq : some candidateId = some owner := hcandidate.symm.trans howner
      cases heq
      exact hnames
    · exact h.owned id p owner hold howner
  · intro id p hget
    rcases booked_cases hget with ⟨rfl, rfl⟩ | hold
    · exact ⟨candidateId, hcandidate⟩
    · exact h.owner id p hold
  · intro id p hget
    rcases booked_cases hget with ⟨rfl, rfl⟩ | hold
    · exact ⟨hid, rfl⟩
    · exact h.named id p hold
  · intro id p hget hopen
    simp only [LedgerState.booked, Dict.get?_set]
    rcases booked_cases hget with ⟨rfl, rfl⟩ | hold
    · exact if_pos rfl
    · rw [if_neg (Ne.symm (h.no_open hnone hold hopen))]
      exact h.indexed id p hold hopen
  · intro orderId id hget
    obtain ⟨fill, hfill, heq⟩ := h.exits orderId id hget
    exact ⟨fill, List.mem_append_left _ hfill, heq⟩
  · intro fill hfill htype
    rcases List.mem_append.mp hfill with hold | hnew
    · exact h.entries fill hold htype
    · rw [List.mem_singleton] at hnew
      subst hnew
      exact ⟨candidateId, horder⟩

/-- What an exit leaves of the positions. -/
theorem exitedPosition_cases {dateKey : Time → String} {args : CloseArgs} {id : String}
    {position : PositionRecord} {valid : args.costs.Valid} {j : String} {p : PositionRecord}
    (hget : (ledger.exited dateKey args id position valid).positions.get? j = some p) :
    (j = id ∧ p = args.closedPosition position) ∨ (j ≠ id ∧ ledger.positions.get? j = some p) := by
  simp only [LedgerState.exited, Dict.get?_set] at hget
  split at hget
  · rename_i heq
    cases hget
    exact Or.inl ⟨heq.symm, rfl⟩
  · rename_i hne
    exact Or.inr ⟨Ne.symm hne, hget⟩

theorem closedPosition_frame (args : CloseArgs) (position : PositionRecord) :
    (args.closedPosition position).context = position.context ∧
      (args.closedPosition position).tokenMint = position.tokenMint ∧
      (args.closedPosition position).positionId = position.positionId ∧
      ((args.closedPosition position).status = .opened →
        position.status = .opened ∧ ¬ args.Final position) := by
  unfold CloseArgs.closedPosition
  split
  · exact ⟨rfl, rfl, rfl, by rintro ⟨⟩⟩
  · rename_i hnot
    exact ⟨rfl, rfl, rfl, fun hopen => ⟨hopen, hnot⟩⟩

theorem Owned.exited (h : Owned ledger db) (dateKey : Time → String) {args : CloseArgs}
    {id : String} {position : PositionRecord} (valid : args.costs.Valid)
    (hindex : ledger.tokenPosition args.tokenMint = some id)
    (hstored : ledger.positions.get? id = some position) :
    Owned (ledger.exited dateKey args id position valid) db := by
  obtain ⟨hcontext, hmint, hposition, hstatus⟩ := closedPosition_frame args position
  obtain ⟨htoken, -⟩ := Option.filter_eq_some_iff.mp hindex
  refine ⟨?_, ?_, ?_, ?_, ?_, ?_⟩
  · intro j p owner hget howner
    rcases exitedPosition_cases hget with ⟨rfl, rfl⟩ | ⟨-, hold⟩
    · rw [hcontext] at howner
      exact h.owned j position owner hstored howner
    · exact h.owned j p owner hold howner
  · intro j p hget
    rcases exitedPosition_cases hget with ⟨rfl, rfl⟩ | ⟨-, hold⟩
    · rw [hcontext]
      exact h.owner j position hstored
    · exact h.owner j p hold
  · intro j p hget
    rcases exitedPosition_cases hget with ⟨rfl, rfl⟩ | ⟨-, hold⟩
    · rw [hposition]
      exact h.named j position hstored
    · exact h.named j p hold
  · intro j p hget hopen
    rcases exitedPosition_cases hget with ⟨rfl, rfl⟩ | ⟨hne, hold⟩
    · obtain ⟨hopened, hnot⟩ := hstatus hopen
      simp only [LedgerState.exited, if_neg hnot]
      rw [hmint]
      exact h.indexed j position hstored hopened
    · have hindexed := h.indexed j p hold hopen
      simp only [LedgerState.exited]
      split
      · have hother : args.tokenMint ≠ p.tokenMint := by
          intro heq
          rw [← heq, htoken] at hindexed
          exact hne (Option.some.inj hindexed).symm
        rw [Dict.get?_erase, if_neg hother]
        exact hindexed
      · exact hindexed
  · intro orderId j hget
    simp only [LedgerState.exited, Dict.get?_set] at hget
    split at hget
    · rename_i heq
      exact ⟨_, List.mem_append_right _ (List.mem_singleton_self _), heq⟩
    · obtain ⟨fill, hfill, heq⟩ := h.exits orderId j hget
      exact ⟨fill, List.mem_append_left _ hfill, heq⟩
  · intro fill hfill htype
    rcases List.mem_append.mp hfill with hold | hnew
    · exact h.entries fill hold htype
    · rw [List.mem_singleton] at hnew
      subst hnew
      cases htype

theorem markPosition_context (prices : Dict String ℚ) (markTime : Time)
    (position : PositionRecord) :
    (markPosition prices markTime position).context = position.context := by
  unfold markPosition
  split
  · rfl
  · split <;> rfl

theorem Owned.marked (h : Owned ledger db) (dateKey : Time → String) (prices : Dict String ℚ)
    (now : Time) : Owned (markToMarket dateKey ledger prices now) db := by
  refine ⟨?_, ?_, ?_, ?_, h.exits, h.entries⟩
  · intro id p candidateId hget hcandidate
    obtain ⟨old, hold, rfl⟩ := get?_markToMarket hget
    rw [markPosition_context] at hcandidate
    exact h.owned id old candidateId hold hcandidate
  · intro id p hget
    obtain ⟨old, hold, rfl⟩ := get?_markToMarket hget
    rw [markPosition_context]
    exact h.owner id old hold
  · intro id p hget
    obtain ⟨old, hold, rfl⟩ := get?_markToMarket hget
    rw [markPosition_positionId]
    exact h.named id old hold
  · intro id p hget hopen
    obtain ⟨old, hold, rfl⟩ := get?_markToMarket hget
    rw [markPosition_status] at hopen
    rw [markPosition_tokenMint]
    exact h.indexed id old hold hopen

theorem openFor_marked {dateKey : Time → String} {prices : Dict String ℚ} {now : Time}
    {candidateId id : String}
    (h : OpenFor (markToMarket dateKey ledger prices now) candidateId id) :
    OpenFor ledger candidateId id := by
  obtain ⟨p, hget, hopen, hcandidate⟩ := h
  obtain ⟨old, hold, rfl⟩ := get?_markToMarket hget
  rw [markPosition_status] at hopen
  rw [markPosition_context] at hcandidate
  exact ⟨old, hold, hopen, hcandidate⟩

theorem openFor_exited {dateKey : Time → String} {args : CloseArgs} {id : String}
    {position : PositionRecord} {valid : args.costs.Valid}
    (hstored : ledger.positions.get? id = some position) {candidateId j : String}
    (h : OpenFor (ledger.exited dateKey args id position valid) candidateId j) :
    OpenFor ledger candidateId j := by
  obtain ⟨p, hget, hopen, hcandidate⟩ := h
  obtain ⟨hcontext, -, -, hstatus⟩ := closedPosition_frame args position
  rcases exitedPosition_cases hget with ⟨rfl, rfl⟩ | ⟨-, hold⟩
  · exact ⟨position, hstored, (hstatus hopen).1, hcontext ▸ hcandidate⟩
  · exact ⟨p, hold, hopen, hcandidate⟩

theorem openFor_booked {args : OpenArgs} {valid : args.costs.Valid} {candidateId id : String}
    (h : OpenFor (ledger.booked args valid) candidateId id) :
    (id = args.positionId ∧ args.context.candidateId = some candidateId) ∨
      OpenFor ledger candidateId id := by
  obtain ⟨p, hget, hopen, hcandidate⟩ := h
  rcases booked_cases hget with ⟨rfl, rfl⟩ | hold
  · exact Or.inl ⟨rfl, hcandidate⟩
  · exact Or.inr ⟨p, hold, hopen, hcandidate⟩

theorem openFor_sameBooks {checked : LedgerState} (hsame : SameBooks ledger checked)
    {candidateId id : String} :
    OpenFor checked candidateId id ↔ OpenFor ledger candidateId id := by
  obtain ⟨halt, pause, date, baseline, rfl⟩ := hsame
  exact Iff.rfl

theorem Traced.candidateOf (h : Traced db) {id : String} {row : PositionRow}
    (hrow : db.positions.get? id = some row) :
    ∃ candidateId, db.candidateOf id = some candidateId := by
  obtain ⟨orderId, order, horder, hside, hposition⟩ := h.opened id row hrow
  have hfound : (db.orders.entries.find? fun e =>
      e.2.positionId = some id ∧ e.2.side = .buy).isSome := by
    rw [List.find?_isSome]
    exact ⟨(orderId, order), Dict.mem_entries.mpr horder, decide_eq_true ⟨hposition, hside⟩⟩
  obtain ⟨e, he⟩ := Option.isSome_iff_exists.mp hfound
  have hmem := Dict.mem_entries.mp (List.mem_of_find?_eq_some he)
  have hmatch := List.find?_some he
  obtain ⟨-, hbuy⟩ := of_decide_eq_true hmatch
  obtain ⟨candidateId, hcandidate, -⟩ := h.entries e.1 e.2 hmem hbuy
  exact ⟨candidateId, by rw [PaperDb.candidateOf, he, Option.bind_some, hcandidate]⟩

/-- A new process finds what the rows say. -/
theorem Traced.restored (h : Traced db) {signals : List SignalRow} {zone : TimeZone} {now : Time}
    (hstart : startLedger db signals zone now = some ledger) : Owned ledger db := by
  obtain ⟨account, -, hpositions, hindex, -, -⟩ := startLedger_frame hstart
  have hfills := startLedger_fills hstart
  have hrows : ∀ id p, ledger.positions.get? id = some p → ∃ row,
      db.positions.get? id = some row ∧ p = restoredPosition db signals id row := by
    intro id p hget
    rw [hpositions, Dict.get?_mapValues] at hget
    obtain ⟨row, hrow, heq⟩ := Option.map_eq_some_iff.mp hget
    exact ⟨row, hrow, heq.symm⟩
  refine ⟨?_, ?_, ?_, ?_, hfills.exits, ?_⟩
  · intro id p candidateId hget hcandidate
    obtain ⟨row, hrow, rfl⟩ := hrows id p hget
    -- the position has the candidate of its BUY order
    obtain ⟨e, hfound, he⟩ := Option.bind_eq_some_iff.mp
      (show db.candidateOf id = some candidateId from hcandidate)
    have hmem := Dict.mem_entries.mp (List.mem_of_find?_eq_some hfound)
    have hmatch := List.find?_some hfound
    obtain ⟨hposition, hside⟩ := of_decide_eq_true hmatch
    obtain ⟨owner, howner, horder⟩ := h.entries e.1 e.2 hmem hside
    rw [he] at howner
    cases howner
    exact ⟨e.2, horder ▸ hmem, hside, hposition⟩
  · intro id p hget
    obtain ⟨row, hrow, rfl⟩ := hrows id p hget
    exact h.candidateOf hrow
  · intro id p hget
    obtain ⟨row, hrow, rfl⟩ := hrows id p hget
    exact ⟨h.named id row hrow, rfl⟩
  · intro id p hget hopen
    obtain ⟨row, hrow, rfl⟩ := hrows id p hget
    have hlive : row.status.Live := by
      by_contra hnot
      have hclosed : (restoredPosition db signals id row).status = .closed := if_neg hnot
      rw [hclosed] at hopen
      cases hopen
    rw [hindex]
    refine Dict.get?_collect_of_agree _ _ _ ?_ _
      (Or.inl ⟨(id, row), Dict.mem_entries.mpr hrow, rfl, if_pos hlive⟩)
    rintro ⟨id', row'⟩ hmem w hvalue hmint
    by_cases hlive' : row'.status.Live
    · rw [if_pos hlive'] at hvalue
      cases hvalue
      exact h.mints id' row' id row (Dict.mem_entries.mp hmem) hrow hlive' hlive hmint
    · rw [if_neg hlive'] at hvalue
      cases hvalue
  · intro fill hfill htype
    obtain ⟨e, he, hside, horder⟩ := hfills.entries fill hfill htype
    obtain ⟨candidateId, hentry⟩ := h.bought e.1 e.2 (Dict.mem_entries.mp he) hside
    exact ⟨candidateId, horder.trans hentry⟩

end Ledger

end SniperBot.Runtime
