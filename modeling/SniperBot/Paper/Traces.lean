import SniperBot.Paper.Agreement
import SniperBot.Paper.Calls

/-!
# Orders of runs with calls that are cut short

`Traced` is what every run of the broker keeps, also when calls are cut short after their commit
and retried: an order has one fill row, a fill of the ledger has its order row, and a position of
the ledger belongs to the one entry order that names it. The rows of orders and fills stay as they
were written (`RowsKept`).
-/

namespace SniperBot.Paper

open Basis Ledger Risk

/-! ## What runs with retries keep -/

/-- Every fill row has its order, and every order one fill row. -/
structure FilledOnce (db : PaperDb) : Prop where
  ordered : ∀ id row, db.fills.get? id = some row → ∃ order, db.orders.get? row.orderId = some order
  once : ∀ id row id' row', db.fills.get? id = some row → db.fills.get? id' = some row' →
    row.orderId = row'.orderId → id = id'

section FilledOnce

variable {db : PaperDb}

/-- A new order comes with a new fill. -/
theorem FilledOnce.add (h : FilledOnce db) {next : PaperDb} {fillId : String} {row : FillRow}
    {order : OrderRow} (horders : next.orders = db.orders.set row.orderId order)
    (hfills : next.fills = db.fills.set fillId row)
    (hfresh : db.orders.get? row.orderId = none) : FilledOnce next := by
  have hother : ∀ id old, db.fills.get? id = some old → old.orderId ≠ row.orderId := by
    intro id old hold heq
    obtain ⟨order', horder'⟩ := h.ordered id old hold
    rw [heq, hfresh] at horder'
    cases horder'
  constructor
  · intro id found hfound
    rw [hfills, Dict.get?_set] at hfound
    rw [horders, Dict.get?_set]
    split at hfound
    · cases hfound
      exact ⟨order, if_pos rfl⟩
    · rw [if_neg (hother id found hfound).symm]
      exact h.ordered id found hfound
  · intro id found id' found' hfound hfound' heq
    rw [hfills, Dict.get?_set] at hfound hfound'
    split at hfound <;> split at hfound'
    · rename_i hid hid'
      exact hid.symm.trans hid'
    · cases hfound
      exact absurd heq.symm (hother id' found' hfound')
    · cases hfound'
      exact absurd heq (hother id found hfound)
    · exact h.once id found id' found' hfound hfound' heq

/-- The rows that no later operation changes. -/
structure RowsKept (db next : PaperDb) : Prop where
  orders : ∀ id order, db.orders.get? id = some order → next.orders.get? id = some order
  fills : ∀ id row, db.fills.get? id = some row → next.fills.get? id = some row

theorem RowsKept.refl (db : PaperDb) : RowsKept db db := ⟨fun _ _ h => h, fun _ _ h => h⟩

theorem RowsKept.trans {db mid next : PaperDb} (h : RowsKept db mid) (h' : RowsKept mid next) :
    RowsKept db next :=
  ⟨fun id order hget => h'.orders id order (h.orders id order hget),
    fun id row hget => h'.fills id row (h.fills id row hget)⟩

theorem RowsKept.add {next : PaperDb} {orderId fillId : String} {row : FillRow} {order : OrderRow}
    (horders : next.orders = db.orders.set orderId order)
    (hfills : next.fills = db.fills.set fillId row)
    (horder : db.orders.get? orderId = none) (hfill : db.fills.get? fillId = none) :
    RowsKept db next := by
  constructor
  · intro id old hold
    rw [horders, Dict.get?_set_ne _ (by rintro rfl; rw [horder] at hold; cases hold), hold]
  · intro id old hold
    rw [hfills, Dict.get?_set_ne _ (by rintro rfl; rw [hfill] at hold; cases hold), hold]

end FilledOnce

/-- What every run keeps, whether its calls were cut short or not: a fill of the ledger has its
order row, and a position of the ledger belongs to the one entry order that names it. -/
structure Traced (s : BrokerState) : Prop where
  wellFormed : WellFormed s.ledger
  filled : FilledOnce s.db
  entries : ∀ orderId id, s.ledger.orderIdIndex.get? orderId = some id →
    ∃ fill ∈ s.ledger.fills, fill.orderId = orderId
  exits : ∀ orderId id, s.ledger.closeOrderIdIndex.get? orderId = some id →
    ∃ fill ∈ s.ledger.fills, fill.orderId = orderId
  sides : ∀ fill ∈ s.ledger.fills, ∃ order, s.db.orders.get? fill.orderId = some order ∧
    (order.side = .buy ↔ fill.fillType = .entry)
  stored : ∀ id p, s.ledger.positions.get? id = some p → ∃ row, s.db.positions.get? id = some row
  bought : ∀ orderId order, s.db.orders.get? orderId = some order → order.side = .buy →
    ∃ id, order.positionId = some id ∧ id ≠ "" ∧ (∃ row, s.db.positions.get? id = some row) ∧
      ∀ p, s.ledger.positions.get? id = some p → ∃ fill ∈ s.ledger.fills, fill.orderId = orderId
  distinct : ∀ orderId order orderId' order', s.db.orders.get? orderId = some order →
    s.db.orders.get? orderId' = some order' → order.side = .buy → order'.side = .buy →
    order.positionId = order'.positionId → orderId = orderId'

variable {config : BrokerConfig} {s : BrokerState}

theorem Traced.init (config : BrokerConfig) (startingEquity : ℚ) (now : Time) :
    Traced (BrokerState.init config startingEquity now) where
  wellFormed := WellFormed.init startingEquity
  filled := ⟨by rintro _ _ ⟨⟩, by rintro _ _ _ _ ⟨⟩⟩
  entries := by rintro _ _ ⟨⟩
  exits := by rintro _ _ ⟨⟩
  sides := by rintro _ ⟨⟩
  stored := by rintro _ _ ⟨⟩
  bought := by rintro _ _ ⟨⟩
  distinct := by rintro _ _ _ _ ⟨⟩

theorem Traced.sameBooks (h : Traced s) {ledger : LedgerState}
    (hsame : SameBooks s.ledger ledger) : Traced { s with ledger := ledger } := by
  obtain ⟨halt, pause, date, baseline, rfl⟩ := hsame
  exact ⟨⟨h.wellFormed.fillPosition, h.wellFormed.indexOpen, h.wellFormed.openIndexed,
    h.wellFormed.openTokens, h.wellFormed.closedTokens⟩, h.filled, h.entries, h.exits, h.sides,
    h.stored, h.bought, h.distinct⟩

theorem Traced.unused_of_new (h : Traced s) {orderId : String}
    (hnew : s.db.orders.get? orderId = none) : Unused s.ledger orderId := by
  intro fill hfill heq
  obtain ⟨order, horder, -⟩ := h.sides fill hfill
  rw [heq, hnew] at horder
  cases horder

/-! ### Commits -/

/-- A committed entry whose ledger is not booked yet. -/
theorem Traced.entered (h : Traced s) {args : EntryArgs} {account : AccountRow}
    (hcase : EntryCase s.db args account) (hid : args.positionId ≠ "") :
    Traced ⟨s.ledger, s.db.entered account args⟩ := by
  have hunused := h.unused_of_new hcase.freshOrder
  -- an order of the new rows is the new one, or an old one under another id
  have horders : ∀ orderId order,
      (s.db.entered account args).orders.get? orderId = some order →
      (orderId = args.orderId ∧ order = args.order) ∨ s.db.orders.get? orderId = some order := by
    intro orderId order hget
    simp only [PaperDb.entered, Dict.get?_set] at hget
    split at hget
    · rename_i heq
      cases hget
      exact Or.inl ⟨heq.symm, rfl⟩
    · exact Or.inr hget
  have hrows : ∀ id row, s.db.positions.get? id = some row →
      ∃ row, (s.db.entered account args).positions.get? id = some row := by
    intro id row hrow
    simp only [PaperDb.entered, Dict.get?_set]
    split
    · exact ⟨_, rfl⟩
    · exact ⟨row, hrow⟩
  have hold : ∀ orderId order, s.db.orders.get? orderId = some order → order.side = .buy →
      order.positionId ≠ some args.positionId := by
    intro orderId order horder hside heq
    obtain ⟨id, hposition, -, ⟨row, hrow⟩, -⟩ := h.bought orderId order horder hside
    rw [hposition] at heq
    cases heq
    rw [hcase.freshPosition] at hrow
    cases hrow
  refine ⟨h.wellFormed, h.filled.add rfl rfl hcase.freshOrder, h.entries, h.exits, ?_, ?_, ?_, ?_⟩
  · intro fill hfill
    obtain ⟨order, horder, hside⟩ := h.sides fill hfill
    refine ⟨order, ?_, hside⟩
    simp only [PaperDb.entered]
    rw [Dict.get?_set_ne _ (hunused fill hfill).symm]
    exact horder
  · intro id p hp
    obtain ⟨row, hrow⟩ := h.stored id p hp
    exact hrows id row hrow
  · intro orderId order hget hside
    rcases horders orderId order hget with ⟨rfl, rfl⟩ | hget
    · refine ⟨args.positionId, rfl, hid, ⟨args.position, Dict.get?_set_self _ _ _⟩, fun p hp => ?_⟩
      obtain ⟨row, hrow⟩ := h.stored _ p hp
      rw [hcase.freshPosition] at hrow
      cases hrow
    · obtain ⟨id, hposition, hne, ⟨row, hrow⟩, hbooked⟩ := h.bought orderId order hget hside
      exact ⟨id, hposition, hne, hrows id row hrow, hbooked⟩
  · intro orderId order orderId' order' hget hget' hside hside' heq
    rcases horders orderId order hget with ⟨rfl, rfl⟩ | hget <;>
      rcases horders orderId' order' hget' with ⟨rfl, rfl⟩ | hget'
    · rfl
    · exact absurd heq.symm (hold orderId' order' hget' hside')
    · exact absurd heq (hold orderId order hget hside)
    · exact h.distinct orderId order orderId' order' hget hget' hside hside' heq

theorem Traced.exited (h : Traced s) {args : ExitArgs} {account : AccountRow} {id : String}
    {row : PositionRow} (hcase : ExitCase s.db args account id row) :
    Traced ⟨s.ledger, s.db.exited account args id row⟩ := by
  have hunused := h.unused_of_new hcase.freshOrder
  -- a buy order of the new rows is an old one
  have horders : ∀ orderId order,
      (s.db.exited account args id row).orders.get? orderId = some order → order.side = .buy →
      s.db.orders.get? orderId = some order := by
    intro orderId order hget hside
    simp only [PaperDb.exited, Dict.get?_set] at hget
    split at hget
    · cases hget
      cases hside
    · exact hget
  have hrows : ∀ j row', s.db.positions.get? j = some row' →
      ∃ row', (s.db.exited account args id row).positions.get? j = some row' := by
    intro j row' hrow
    simp only [PaperDb.exited, Dict.get?_set]
    split
    · exact ⟨_, rfl⟩
    · exact ⟨row', hrow⟩
  refine ⟨h.wellFormed, h.filled.add rfl rfl hcase.freshOrder, h.entries, h.exits, ?_, ?_, ?_, ?_⟩
  · intro fill hfill
    obtain ⟨order, horder, hside⟩ := h.sides fill hfill
    refine ⟨order, ?_, hside⟩
    simp only [PaperDb.exited]
    rw [Dict.get?_set_ne _ (hunused fill hfill).symm]
    exact horder
  · intro j p hp
    obtain ⟨row', hrow⟩ := h.stored j p hp
    exact hrows j row' hrow
  · intro orderId order hget hside
    obtain ⟨j, hposition, hne, ⟨row', hrow⟩, hbooked⟩ :=
      h.bought orderId order (horders orderId order hget hside) hside
    exact ⟨j, hposition, hne, hrows j row' hrow, hbooked⟩
  · intro orderId order orderId' order' hget hget' hside hside' heq
    exact h.distinct orderId order orderId' order' (horders orderId order hget hside)
      (horders orderId' order' hget' hside') hside hside' heq

/-! ### Bookings -/

/-- An entry of the ledger for a stored order that no fill of the ledger has yet. -/
theorem Traced.booked (h : Traced s) {args : OpenArgs} {order : OrderRow}
    (valid : args.costs.Valid) (horder : s.db.orders.get? args.orderId = some order)
    (hside : order.side = .buy) (hposition : order.positionId = some args.positionId)
    (hunused : Unused s.ledger args.orderId) (husd : 0 < args.usdAmount)
    (htoken : 0 < args.tokenAmount) (hmint : s.ledger.tokenPosition args.tokenMint = none) :
    Traced ⟨s.ledger.booked args valid, s.db⟩ := by
  obtain ⟨id, hid, hne, hrow, hbooked⟩ := h.bought args.orderId order horder hside
  rw [hposition] at hid
  cases hid
  have hfresh : s.ledger.positions.get? args.positionId = none := by
    cases hp : s.ledger.positions.get? args.positionId with
    | none => rfl
    | some p =>
        obtain ⟨fill, hfill, heq⟩ := hbooked p hp
        exact absurd heq (hunused fill hfill)
  have hnewOrder : s.ledger.orderIdIndex.get? args.orderId = none := by
    cases hindex : s.ledger.orderIdIndex.get? args.orderId with
    | none => rfl
    | some id =>
        obtain ⟨fill, hfill, heq⟩ := h.entries args.orderId id hindex
        exact absurd heq (hunused fill hfill)
  have hkept : ∀ orderId, (∃ fill ∈ s.ledger.fills, fill.orderId = orderId) →
      ∃ fill ∈ (s.ledger.booked args valid).fills, fill.orderId = orderId := by
    rintro orderId ⟨fill, hfill, heq⟩
    exact ⟨fill, List.mem_append_left _ hfill, heq⟩
  have hnew : ∃ fill ∈ (s.ledger.booked args valid).fills, fill.orderId = args.orderId :=
    ⟨args.entryFill valid, List.mem_append_right _ (List.mem_singleton.mpr rfl), rfl⟩
  refine ⟨h.wellFormed.booked valid ⟨husd, htoken, hnewOrder, hmint, hne, hfresh⟩, h.filled, ?_,
    ?_, ?_, ?_, ?_, h.distinct⟩
  · intro orderId id hget
    simp only [LedgerState.booked, Dict.get?_set] at hget
    split at hget
    · rename_i heq
      exact heq ▸ hnew
    · exact hkept orderId (h.entries orderId id hget)
  · intro orderId id hget
    exact hkept orderId (h.exits orderId id hget)
  · intro fill hfill
    rcases List.mem_append.mp hfill with hold | hlast
    · exact h.sides fill hold
    · rw [List.mem_singleton.mp hlast]
      exact ⟨order, horder, iff_of_true hside rfl⟩
  · intro id p hget
    simp only [LedgerState.booked, Dict.get?_set] at hget
    split at hget
    · rename_i heq
      exact heq ▸ hrow
    · exact h.stored id p hget
  · intro orderId other hother hbuy
    obtain ⟨id, hid, hne', hrow', hbooked'⟩ := h.bought orderId other hother hbuy
    refine ⟨id, hid, hne', hrow', fun p hget => ?_⟩
    simp only [LedgerState.booked, Dict.get?_set] at hget
    split at hget
    · rename_i heq
      -- the position belongs to one entry order
      have hsame := h.distinct args.orderId order orderId other horder hother hside hbuy
        (by rw [hposition, hid, heq])
      exact hsame ▸ hnew
    · exact hkept orderId (hbooked' p hget)

theorem Traced.closed (h : Traced s) {args : CloseArgs} {order : OrderRow} {id : String}
    {p : PositionRecord} (dateKey : Time → String) (valid : args.costs.Valid)
    (horder : s.db.orders.get? args.orderId = some order) (hside : order.side = .sell)
    (hexit : Ledger.ExitCase s.ledger args id p) :
    Traced ⟨s.ledger.exited dateKey args id p valid, s.db⟩ := by
  have hkept : ∀ orderId, (∃ fill ∈ s.ledger.fills, fill.orderId = orderId) →
      ∃ fill ∈ (s.ledger.exited dateKey args id p valid).fills, fill.orderId = orderId := by
    rintro orderId ⟨fill, hfill, heq⟩
    exact ⟨fill, List.mem_append_left _ hfill, heq⟩
  -- the stored ids stay the same
  have hids : ∀ j q, (s.ledger.exited dateKey args id p valid).positions.get? j = some q →
      ∃ old, s.ledger.positions.get? j = some old := by
    intro j q hget
    rcases hexit.stored_cases hget with ⟨rfl, -⟩ | ⟨-, hold⟩
    · exact ⟨p, hexit.stored⟩
    · exact ⟨q, hold⟩
  refine ⟨h.wellFormed.exited valid hexit, h.filled, ?_, ?_, ?_, ?_, ?_, h.distinct⟩
  · intro orderId j hget
    exact hkept orderId (h.entries orderId j hget)
  · intro orderId j hget
    simp only [LedgerState.exited, Dict.get?_set] at hget
    split at hget
    · rename_i heq
      exact ⟨args.closeFill p id valid, List.mem_append_right _ (List.mem_singleton.mpr rfl), heq⟩
    · exact hkept orderId (h.exits orderId j hget)
  · intro fill hfill
    rcases List.mem_append.mp hfill with hold | hlast
    · exact h.sides fill hold
    · rw [List.mem_singleton.mp hlast]
      refine ⟨order, horder, ?_⟩
      rw [hside]
      exact iff_of_false (by decide) (by rintro ⟨⟩)
  · intro j q hget
    obtain ⟨old, hold⟩ := hids j q hget
    exact h.stored j old hold
  · intro orderId other hother hbuy
    obtain ⟨j, hj, hne, hrow, hbooked⟩ := h.bought orderId other hother hbuy
    refine ⟨j, hj, hne, hrow, fun q hget => ?_⟩
    obtain ⟨old, hold⟩ := hids j q hget
    exact hkept orderId (hbooked old hold)

/-! ### Marks -/

/-- A mark update writes no order and no fill, and keeps the stored positions. -/
theorem updatePaperMarks_frame (ownedRun : Option String) (values : Dict String ℚ)
    (snapshot : LedgerState) (observedAt : Time) (db : PaperDb) :
    (updatePaperMarks ownedRun values snapshot observedAt db).2.orders = db.orders ∧
    (updatePaperMarks ownedRun values snapshot observedAt db).2.fills = db.fills ∧
    ∀ id, (∃ row, db.positions.get? id = some row) →
      ∃ row, (updatePaperMarks ownedRun values snapshot observedAt db).2.positions.get? id =
        some row := by
  refine transaction_of_cases (P := fun next => next.orders = db.orders ∧ next.fills = db.fills ∧
    ∀ id, (∃ row, db.positions.get? id = some row) → ∃ row, next.positions.get? id = some row)
    ⟨rfl, rfl, fun _ h => h⟩ ?_
  split
  · exact Or.inl ⟨_, rfl⟩
  · split
    · exact Or.inl ⟨_, rfl⟩
    · exact Or.inr ⟨rfl, rfl, fun id h => Dict.exists_foldl_update _ _ _ h⟩

theorem Traced.marked (h : Traced s) (prices : Dict String ℚ) (now : Time) {db : PaperDb}
    (horders : db.orders = s.db.orders) (hfills : db.fills = s.db.fills)
    (hrows : ∀ id, (∃ row, s.db.positions.get? id = some row) →
      ∃ row, db.positions.get? id = some row) :
    Traced ⟨markToMarket config.zone.dateKey s.ledger prices now, db⟩ := by
  refine ⟨h.wellFormed.marked prices now, ⟨?_, ?_⟩, h.entries, h.exits, ?_, ?_, ?_, ?_⟩
  · rw [horders, hfills]
    exact h.filled.ordered
  · rw [hfills]
    exact h.filled.once
  · rw [horders]
    exact h.sides
  · intro id p hget
    obtain ⟨old, hold, -⟩ := get?_markToMarket hget
    exact hrows id (h.stored id old hold)
  · intro orderId order horder hbuy
    rw [horders] at horder
    obtain ⟨id, hid, hne, hrow, hbooked⟩ := h.bought orderId order horder hbuy
    refine ⟨id, hid, hne, hrows id hrow, fun p hget => ?_⟩
    obtain ⟨old, hold, -⟩ := get?_markToMarket hget
    exact hbooked old hold
  · rw [horders]
    exact h.distinct

theorem Traced.markUpdate (h : Traced s) (quotes : Dict String ExecutableQuote) (now : Time) :
    Traced (markUpdate config s quotes now) := by
  unfold Paper.markUpdate
  dsimp only
  split
  · obtain ⟨horders, hfills, hrows⟩ := updatePaperMarks_frame config.ownedRun _ _ now s.db
    exact h.marked _ now horders hfills hrows
  · exact h

/-! ### Calls -/

/-- The side of the fills that a call books. -/
def Side.fillType : Side → FillType
  | .buy => .entry
  | .sell => .exit

/-- A drawn order id is new, and a given one is used for orders of one side only. -/
structure ProperOrder (db : PaperDb) (given : Option String) (orderId : String) (side : Side) :
    Prop where
  drawn : given.filter (· ≠ "") = none → db.orders.get? orderId = none
  sided : ∀ order ∈ db.orders.get? orderId, order.side = side

instance (db : PaperDb) (given : Option String) (orderId : String) (side : Side) :
    Decidable (ProperOrder db given orderId side) :=
  decidable_of_iff ((given.filter (· ≠ "") = none → db.orders.get? orderId = none) ∧
      ∀ order ∈ db.orders.get? orderId, order.side = side)
    ⟨fun h => ⟨h.1, h.2⟩, fun h => ⟨h.drawn, h.sided⟩⟩

/-- What the callers of the broker provide. -/
def BrokerCall.Proper (db : PaperDb) : BrokerCall → Prop
  | .openPosition req => req.positionId ≠ "" ∧ ProperOrder db req.orderId req.order .buy
  | .closePosition req => ProperOrder db req.orderId req.order .sell

def ProperCalls (s : BrokerState) : RetryOp → Prop
  | .call call | .cut call => call.Proper s.db
  | .mark _ _ => True

instance (db : PaperDb) : (call : BrokerCall) → Decidable (call.Proper db)
  | .openPosition _ => inferInstanceAs (Decidable (_ ∧ _))
  | .closePosition req =>
      inferInstanceAs (Decidable (ProperOrder db req.orderId req.order .sell))

instance (s : BrokerState) : (op : RetryOp) → Decidable (ProperCalls s op)
  | .call call | .cut call => inferInstanceAs (Decidable (call.Proper s.db))
  | .mark _ _ => inferInstanceAs (Decidable True)

theorem Traced.oneSided (h : Traced s) {given : Option String} {drawn : String} {side : Side}
    (hproper : ProperOrder s.db given (chosenOrder given drawn) side) :
    OneSided s.ledger given drawn side.fillType := by
  unfold OneSided
  cases hgiven : given.filter (· ≠ "") with
  | none =>
      have hnew := hproper.drawn hgiven
      rw [chosenOrder, hgiven] at hnew
      exact h.unused_of_new hnew
  | some orderId =>
      intro fill hfill heq
      obtain ⟨order, horder, hside⟩ := h.sides fill hfill
      have hsided := hproper.sided order (by rw [chosenOrder, hgiven]; exact heq ▸ horder)
      cases side with
      | buy => exact hside.mp hsided
      | sell =>
          cases htype : fill.fillType with
          | exit => rfl
          | entry =>
              have hbuy := hside.mpr htype
              rw [hsided] at hbuy
              cases hbuy

theorem checkedLedger_sameBooks (config : BrokerConfig) (ledger : LedgerState)
    (req : OpenRequest) : SameBooks ledger (checkedLedger config ledger req) := by
  unfold checkedLedger
  split
  · exact ⟨_, _, _, _, rfl⟩
  · exact evaluateEntry_frame _ _ _ _ _ _

/-- The state in which an opening call reaches the ledger. -/
theorem Traced.openCommitted (h : Traced s) {req : OpenRequest} {quote : ExecutableQuote}
    {committed : Committed} {db : PaperDb} (hproper : (BrokerCall.openPosition req).Proper s.db)
    (hreached : OpenReached config s req quote committed db) :
    Traced ⟨checkedLedger config s.ledger req, db⟩ ∧ Recorded db req.order committed ∧
      RowsKept s.db db ∧ ∃ order, db.orders.get? req.order = some order ∧ order.side = .buy ∧
        order.positionId = some committed.positionId := by
  have hchecked := h.sameBooks (checkedLedger_sameBooks config s.ledger req)
  obtain ⟨candidateId, poolAddress, hcommit⟩ := hreached.commit
  rcases commitPaperEntry_ok hcommit with ⟨rfl, hrecorded⟩ | ⟨account, hcase, rfl, rfl⟩
  · obtain ⟨order, horder, hposition⟩ := hrecorded.order
    exact ⟨hchecked, hrecorded, RowsKept.refl _, order, horder, hproper.2.sided order horder,
      hposition⟩
  · refine ⟨hchecked.entered hcase hproper.1, ⟨⟨_, Dict.get?_set_self _ _ _, rfl⟩,
      ⟨_, Dict.get?_set_self _ _ _, rfl⟩⟩, ?_, ⟨_, Dict.get?_set_self _ _ _, rfl, rfl⟩⟩
    exact RowsKept.add rfl rfl hcase.freshOrder hcase.freshFill

theorem Traced.closeCommitted (h : Traced s) {req : CloseRequest} {committed : Committed}
    {db : PaperDb} (hproper : (BrokerCall.closePosition req).Proper s.db)
    (hreached : CloseReached config s req committed db) :
    Traced ⟨s.ledger, db⟩ ∧ Recorded db req.order committed ∧ RowsKept s.db db ∧
      ∃ order, db.orders.get? req.order = some order ∧ order.side = .sell := by
  rcases commitPaperExit_ok hreached.commit with ⟨rfl, hrecorded⟩ | ⟨account, id, row, hcase, rfl, rfl⟩
  · obtain ⟨order, horder, -⟩ := hrecorded.order
    exact ⟨h, hrecorded, RowsKept.refl _, order, horder, hproper.sided order horder⟩
  · refine ⟨h.exited hcase, ⟨⟨_, Dict.get?_set_self _ _ _, rfl⟩,
      ⟨_, Dict.get?_set_self _ _ _, rfl⟩⟩, ?_, ⟨_, Dict.get?_set_self _ _ _, rfl⟩⟩
    exact RowsKept.add rfl rfl hcase.freshOrder hcase.freshFill

theorem unused_of_sameBooks {ledger checked : LedgerState} {orderId : String}
    (hsame : SameBooks ledger checked) (h : Unused ledger orderId) : Unused checked orderId := by
  obtain ⟨halt, pause, date, baseline, rfl⟩ := hsame
  exact h

/-- With an order id that the ledger has not seen, the position is booked. -/
theorem Traced.bookCase (h : Traced s) {req : OpenRequest} {quote : ExecutableQuote}
    {committed : Committed} {db : PaperDb} (hproper : (BrokerCall.openPosition req).Proper s.db)
    (hreached : OpenReached config s req quote committed db) :
    BookCase (checkedLedger config s.ledger req) (req.openArgs config quote.1 committed) ∧
      (req.openArgs config quote.1 committed).costs.Valid := by
  have hsame := checkedLedger_sameBooks config s.ledger req
  have hunused : Unused (checkedLedger config s.ledger req) req.order :=
    unused_of_sameBooks hsame ((h.oneSided hproper.2).unused hreached.new)
  obtain ⟨htraced, -, -, order, horder, hside, hposition⟩ := h.openCommitted hproper hreached
  have husd := evaluateEntry_allow hreached.allowed
  have hmint : (checkedLedger config s.ledger req).tokenPosition req.tokenMint = none := by
    rw [htraced.wellFormed.tokenPosition_eq]
    have hfree := evaluateEntry_allow_canOpen hreached.allowed
    obtain ⟨halt, pause, date, baseline, heq⟩ := hsame
    rw [heq]
    exact hfree
  have hindex : (checkedLedger config s.ledger req).orderIdIndex.get? req.order = none := by
    cases hget : (checkedLedger config s.ledger req).orderIdIndex.get? req.order with
    | none => rfl
    | some id =>
        obtain ⟨fill, hfill, heq⟩ := htraced.entries req.order id hget
        exact absurd heq (hunused fill hfill)
  obtain ⟨id, hid, hne, -, hbooked⟩ := htraced.bought req.order order horder hside
  rw [hposition] at hid
  cases hid
  have hfresh : (checkedLedger config s.ledger req).positions.get? committed.positionId = none := by
    cases hp : (checkedLedger config s.ledger req).positions.get? committed.positionId with
    | none => rfl
    | some p =>
        obtain ⟨fill, hfill, heq⟩ := hbooked p hp
        exact absurd heq (hunused fill hfill)
  exact ⟨⟨husd, mul_pos quote.2.1 (adverseFactor_pos config), hindex, hmint, hne, hfresh⟩,
    req.openArgs_valid config quote committed husd⟩

theorem Traced.exitCase (h : Traced s) {req : CloseRequest} {committed : Committed} {db : PaperDb}
    (hproper : (BrokerCall.closePosition req).Proper s.db)
    (hreached : CloseReached config s req committed db) :
    ∃ id p, p.tokenMint = req.tokenMint ∧
      Ledger.ExitCase s.ledger (req.closeArgs config committed) id p := by
  have hunused := (h.oneSided hproper).unused hreached.new
  obtain ⟨p, hp, hmint, havailable⟩ := hreached.found
  obtain ⟨id, hstored, hopen⟩ := mem_openPositions.mp hp
  have hindexed : s.ledger.tokenIndex.get? req.tokenMint = some id := by
    rw [← hmint]
    exact h.wellFormed.openIndexed id p hstored hopen
  have hindex : s.ledger.closeOrderIdIndex.get? req.order = none := by
    cases hget : s.ledger.closeOrderIdIndex.get? req.order with
    | none => rfl
    | some id =>
        obtain ⟨fill, hfill, heq⟩ := h.exits req.order id hget
        exact absurd heq (hunused fill hfill)
  exact ⟨id, p, hmint, hindexed, hstored, hopen, req.sellPriceUsd_nonneg config,
    hreached.amount, havailable, hindex⟩

theorem Traced.perform (h : Traced s) {call : BrokerCall} (hproper : call.Proper s.db) :
    Traced (call.perform config s).2 := by
  cases call with
  | openPosition req =>
      show Traced (brokerOpen config s req).2
      rcases brokerOpen_cases config s req with
        hstopped | ⟨quote, committed, db, hreached, hbooked⟩
      · rw [hstopped.state]
        exact h.sameBooks (checkedLedger_sameBooks config s.ledger req)
      · obtain ⟨htraced, -, -, order, horder, hside, hposition⟩ :=
          h.openCommitted hproper hreached
        obtain ⟨hbook, hvalid⟩ := h.bookCase hproper hreached
        cases hbooked with
        | raised e outcome =>
            rw [outcome]
            exact htraced
        | booked ledger position result opened outcome =>
            rw [hbook.openPosition_eq hvalid] at opened
            cases opened
            rw [outcome]
            exact htraced.booked hvalid horder hside hposition
              (unused_of_sameBooks (checkedLedger_sameBooks config s.ledger req)
                ((h.oneSided hproper.2).unused hreached.new))
              hbook.usd hbook.token hbook.freeMint
  | closePosition req =>
      show Traced (brokerClose config s req).2
      rcases brokerClose_cases config s req with hstopped | ⟨committed, db, hreached, hbooked⟩
      · rw [hstopped.state]
        exact h
      · obtain ⟨htraced, -, -, order, horder, hside⟩ := h.closeCommitted hproper hreached
        obtain ⟨id, p, -, hexit⟩ := h.exitCase hproper hreached
        have hvalid := req.closeArgs_valid config committed
        cases hbooked with
        | raised e outcome =>
            rw [outcome]
            exact htraced
        | booked ledger position result closed outcome =>
            rw [hexit.closePosition_eq config.zone.dateKey h.wellFormed hvalid] at closed
            cases closed
            rw [outcome]
            exact htraced.closed config.zone.dateKey hvalid horder hside hexit

theorem Traced.cutShort (h : Traced s) {call : BrokerCall} (hproper : call.Proper s.db) :
    Traced (call.cutShort config s) := by
  cases call with
  | openPosition req =>
      show Traced ⟨checkedLedger config s.ledger req, (brokerOpen config s req).2.db⟩
      rcases brokerOpen_cases config s req with
        hstopped | ⟨quote, committed, db, hreached, hbooked⟩
      · rw [hstopped.state]
        exact h.sameBooks (checkedLedger_sameBooks config s.ledger req)
      · obtain ⟨htraced, -⟩ := h.openCommitted hproper hreached
        cases hbooked with
        | raised e outcome =>
            rw [outcome]
            exact htraced
        | booked ledger position result opened outcome =>
            rw [outcome]
            exact htraced
  | closePosition req =>
      show Traced ⟨s.ledger, (brokerClose config s req).2.db⟩
      rcases brokerClose_cases config s req with hstopped | ⟨committed, db, hreached, hbooked⟩
      · rw [hstopped.state]
        exact h
      · obtain ⟨htraced, -⟩ := h.closeCommitted hproper hreached
        cases hbooked with
        | raised e outcome =>
            rw [outcome]
            exact htraced
        | booked ledger position result closed outcome =>
            rw [outcome]
            exact htraced

theorem Traced.attempt (h : Traced s) (op : RetryOp) (hop : ProperCalls s op) :
    Traced (s.attempt config op) := by
  cases op with
  | call call => exact h.perform hop
  | cut call => exact h.cutShort hop
  | mark quotes now => exact h.markUpdate quotes now

theorem Traced.rowsKept_perform (h : Traced s) {call : BrokerCall} (hproper : call.Proper s.db) :
    RowsKept s.db (call.perform config s).2.db := by
  cases call with
  | openPosition req =>
      show RowsKept s.db (brokerOpen config s req).2.db
      rcases brokerOpen_cases config s req with
        hstopped | ⟨quote, committed, db, hreached, hbooked⟩
      · rw [hstopped.state]
        exact RowsKept.refl _
      · obtain ⟨-, -, hkept, -⟩ := h.openCommitted hproper hreached
        cases hbooked with
        | raised e outcome => rw [outcome]; exact hkept
        | booked ledger position result opened outcome => rw [outcome]; exact hkept
  | closePosition req =>
      show RowsKept s.db (brokerClose config s req).2.db
      rcases brokerClose_cases config s req with hstopped | ⟨committed, db, hreached, hbooked⟩
      · rw [hstopped.state]
        exact RowsKept.refl _
      · obtain ⟨-, -, hkept, -⟩ := h.closeCommitted hproper hreached
        cases hbooked with
        | raised e outcome => rw [outcome]; exact hkept
        | booked ledger position result closed outcome => rw [outcome]; exact hkept

/-- A call cut short has written what the whole call would have written. -/
theorem cutShort_db (config : BrokerConfig) (s : BrokerState) (call : BrokerCall) :
    (call.cutShort config s).db = (call.perform config s).2.db := by
  cases call with
  | openPosition req => rfl
  | closePosition req => rfl

theorem Traced.rowsKept (h : Traced s) (op : RetryOp) (hop : ProperCalls s op) :
    RowsKept s.db (s.attempt config op).db := by
  cases op with
  | call call => exact h.rowsKept_perform hop
  | cut call =>
      show RowsKept s.db (call.cutShort config s).db
      rw [cutShort_db]
      exact h.rowsKept_perform hop
  | mark quotes now =>
      show RowsKept s.db (Paper.markUpdate config s quotes now).db
      unfold Paper.markUpdate
      dsimp only
      split
      · obtain ⟨horders, hfills, -⟩ := updatePaperMarks_frame config.ownedRun _ _ now s.db
        constructor
        · rw [horders]
          exact fun _ _ hget => hget
        · rw [hfills]
          exact fun _ _ hget => hget
      · exact RowsKept.refl _

end SniperBot.Paper
