import SniperBot.Exits.Rows

/-!
# Marks written by interleaved passes

What the two loops of `Exits.Passes` keep at every await (`PassRun`): the entry and the close in
flight can still be booked, and the quotes of a pass are those of open positions. With a quote for
every open position at the mark, the write makes the account row equal to the sum of the open rows
(`run_marks`).
-/

namespace SniperBot.Exits

open Basis Ledger Risk Paper

/-! ## The phases -/

/-- The order whose rows are committed and whose fill is not booked. -/
def EntryPhase.order : EntryPhase → Option String
  | .committed req .. => some req.order
  | _ => none

def ExitPhase.order : ExitPhase → Option String
  | .committed req .. => some req.order
  | _ => none

def ExitPhase.closing : ExitPhase → Option String
  | .committed _ answer => some answer.positionId
  | _ => none

/-- The mint of the position that is sold. -/
def ExitPhase.mint : ExitPhase → Option String
  | .committed req _ => some req.tokenMint
  | .checked req => some req.tokenMint
  | .idle => none

/-- An entry that can still be booked. -/
structure Enterable (ledger : LedgerState) (req : OpenRequest) : Prop where
  form : ∃ candidateId, req.order = entryOrder candidateId
  unused : Unused ledger req.order
  usd : 0 < req.usdcAmount
  id : req.positionId ≠ ""
  free : ∀ id p, ledger.positions.get? id = some p → p.status = .opened →
    p.tokenMint ≠ req.tokenMint

structure Entered (config : BrokerConfig) (ledger : LedgerState) (db : PaperDb) (req : OpenRequest)
    (quote : ExecutableQuote) (committed : Committed) : Prop extends Enterable ledger req where
  fresh : ledger.positions.get? req.positionId = none
  committedId : committed.positionId = req.positionId
  row : ∃ row, db.positions.get? req.positionId = some row ∧
    Matches (req.openArgs config quote.1 committed).newPosition row

def EntryFine (config : BrokerConfig) (ledger : LedgerState) (db : PaperDb) : EntryPhase → Prop
  | .idle => True
  | .checked req => Enterable ledger req
  | .committed req quote committed => Entered config ledger db req quote committed

/-- A close that can still be booked; without a quote it sells the whole position. -/
structure Exitable (ledger : LedgerState) (req : CloseRequest) (id : String) (p : PositionRecord) :
    Prop where
  form : ∃ i code, req.order = exitOrder i code
  unused : Unused ledger req.order
  stored : ledger.positions.get? id = some p
  opened : p.status = .opened
  mint : p.tokenMint = req.tokenMint
  amount : 0 < req.tokenAmount
  available : req.tokenAmount ≤ p.remainingTokenAmount
  whole : req.quote = none → p.remainingTokenAmount ≤ req.tokenAmount

structure Leaving (config : BrokerConfig) (ledger : LedgerState) (db : PaperDb)
    (req : CloseRequest) (committed : Committed) (id : String) (p : PositionRecord)
    (row : PositionRow) : Prop extends Exitable ledger req id p where
  committedId : committed.positionId = id
  linked : Matches p row
  exited : db.positions.get? id = some ((req.exitArgs config).exitedRow row)

def ExitFine (config : BrokerConfig) (ledger : LedgerState) (db : PaperDb) : ExitPhase → Prop
  | .idle => True
  | .checked req => ∃ id p, Exitable ledger req id p
  | .committed req committed => ∃ id p row, Leaving config ledger db req committed id p row

/-- The quotes of a pass: pending positions are open, and the price of a quoted one is that of its
whole amount. The position that is sold meanwhile is neither. -/
structure Quoting (ledger : LedgerState) (mint : Option String) (pending : List String)
    (quoted : Quoted) : Prop where
  listed : ∀ id ∈ pending, OpenAt ledger id
  nodup : pending.Nodup
  fresh : ∀ id ∈ pending, quoted.values.get? id = none
  priced : ∀ id value, quoted.values.get? id = some value →
    ∃ p, ledger.positions.get? id = some p ∧ p.status = .opened ∧
      quoted.prices.get? p.tokenMint = some (value / p.remainingTokenAmount)
  untouched : ∀ m ∈ mint, ∀ id p, ledger.positions.get? id = some p → p.status = .opened →
    p.tokenMint = m → id ∉ pending ∧ quoted.values.get? id = none

def PassFine (ledger : LedgerState) (db : PaperDb) (exit : ExitPhase) : PassPhase → Prop
  | .idle => True
  | .quoting _ pending quoted => Quoting ledger exit.mint pending quoted
  | .writing snapshot values _ => exit = .idle ∧ Snapshot ledger db snapshot values

/-- What holds at every await. -/
structure PassRun (config : BrokerConfig) (s : PassState) : Prop where
  books : Books s.ledger
  rows : Rows s.ledger s.db s.exit.closing
  orders : ∀ orderId order, s.db.orders.get? orderId = some order →
    (∃ fill ∈ s.ledger.fills, fill.orderId = orderId) ∨ s.entry.order = some orderId ∨
      s.exit.order = some orderId
  account : ∃ account, s.db.account = some account
  owner : s.db.activeRun = config.ownedRun
  entry : EntryFine config s.ledger s.db s.entry
  exit : ExitFine config s.ledger s.db s.exit
  pass : PassFine s.ledger s.db s.exit s.pass

variable {config : BrokerConfig} {policy : ExitPolicy} {s : PassState}

theorem PassRun.init (config : BrokerConfig) (startingEquity : ℚ) (now : Time) :
    PassRun config (PassState.init config startingEquity now) where
  books := Books.init startingEquity
  rows := ⟨by rintro _ _ ⟨⟩, by rintro _ _ ⟨⟩, by rintro _ _ ⟨⟩, by rintro _ _ _ _ ⟨⟩⟩
  orders := by rintro _ _ ⟨⟩
  account := ⟨_, rfl⟩
  owner := rfl
  entry := trivial
  exit := trivial
  pass := trivial

/-! ### Entries -/

section Frame

variable {ledger next : LedgerState} {db : PaperDb} {req : OpenRequest} {mint : Option String}
  {pending : List String} {quoted : Quoted}

/-- An entry can still be booked when the ledger got no fill of its order and no new position. -/
theorem Enterable.later (h : Enterable ledger req) (hunused : Unused next req.order)
    (hopen : ∀ id p, next.positions.get? id = some p → p.status = .opened →
      ∃ q, ledger.positions.get? id = some q ∧ q.status = .opened ∧ q.tokenMint = p.tokenMint) :
    Enterable next req := by
  refine ⟨h.form, hunused, h.usd, h.id, fun id p hget hopened => ?_⟩
  obtain ⟨q, hq, hqopen, hmint⟩ := hopen id p hget hopened
  rw [← hmint]
  exact h.free id q hq hqopen

theorem Enterable.sameBooks (h : Enterable ledger req) (hsame : SameBooks ledger next) :
    Enterable next req := by
  obtain ⟨halt, pause, date, baseline, rfl⟩ := hsame
  exact ⟨h.form, h.unused, h.usd, h.id, h.free⟩

theorem Quoting.sameBooks (h : Quoting ledger mint pending quoted)
    (hsame : SameBooks ledger next) : Quoting next mint pending quoted := by
  obtain ⟨halt, pause, date, baseline, rfl⟩ := hsame
  exact ⟨h.listed, h.nodup, h.fresh, h.priced, h.untouched⟩

theorem Snapshot.sameBooks {snapshot : LedgerState} {values : Dict String ℚ}
    (h : Snapshot ledger db snapshot values) (hsame : SameBooks ledger next) :
    Snapshot next db snapshot values := by
  obtain ⟨halt, pause, date, baseline, rfl⟩ := hsame
  exact ⟨h.ids, h.total, h.quoted, h.current, h.unmarked⟩

theorem Exitable.sameBooks {close : CloseRequest} {id : String} {p : PositionRecord}
    (h : Exitable ledger close id p) (hsame : SameBooks ledger next) :
    Exitable next close id p := by
  obtain ⟨halt, pause, date, baseline, rfl⟩ := hsame
  exact ⟨h.form, h.unused, h.stored, h.opened, h.mint, h.amount, h.available, h.whole⟩

end Frame

/-- A risk check disturbs neither loop. -/
theorem PassRun.sameBooks (h : PassRun config s) {ledger : LedgerState}
    (hsame : SameBooks s.ledger ledger) (hidle : s.entry = .idle) :
    PassRun config { s with ledger := ledger } := by
  obtain ⟨broker, entry, exit, pass⟩ := s
  dsimp only at hsame hidle
  subst hidle
  refine ⟨h.books.sameBooks hsame, h.rows.sameBooks hsame, ?_, h.account, h.owner, trivial, ?_, ?_⟩
  · obtain ⟨halt, pause, date, baseline, rfl⟩ := hsame
    exact h.orders
  · have hexit := h.exit
    cases exit with
    | idle => trivial
    | checked req =>
        obtain ⟨id, p, hexitable⟩ := hexit
        exact ⟨id, p, hexitable.sameBooks hsame⟩
    | committed req committed =>
        obtain ⟨id, p, row, hleaving⟩ := hexit
        exact ⟨id, p, row, hleaving.toExitable.sameBooks hsame, hleaving.committedId,
          hleaving.linked, hleaving.exited⟩
  · have hpass := h.pass
    cases pass with
    | idle => trivial
    | quoting listed pending quoted => exact Quoting.sameBooks hpass hsame
    | writing snapshot values now => exact ⟨hpass.1, hpass.2.sameBooks hsame⟩

theorem PassRun.checkEntry (h : PassRun config s) (hidle : s.entry = .idle) {req : OpenRequest}
    (hids : EntryIds s.toBrokerState (.openPosition req)) :
    PassRun config (checkEntry config s req) := by
  obtain ⟨⟨candidateId, -, horder⟩, hid⟩ := hids
  unfold Exits.checkEntry
  split
  · exact h
  · rename_i hnew
    have hframe := evaluateEntry_frame config.risk config.zone req.now s.ledger req.usdcAmount
      req.tokenMint
    split
    · rename_i ledger heval
      rw [heval] at hframe
      have hallowed := congrArg Prod.fst heval
      have hchecked := h.sameBooks hframe hidle
      have hside : OneSided s.ledger req.orderId req.drawnOrderId .entry := by
        rw [horder]
        exact h.books.sides.oneSided_entry _ _
      have hform : req.order = entryOrder candidateId := by
        show chosenOrder req.orderId req.drawnOrderId = _
        rw [horder]
        simp [chosenOrder, Option.filter, entryOrder_ne_empty]
      have hunused : Unused s.ledger req.order := hside.unused hnew
      have henterable : Enterable s.ledger req := by
        refine ⟨⟨candidateId, hform⟩, hunused, evaluateEntry_allow hallowed, hid, ?_⟩
        intro id p hget hopen hmint
        have hindexed := h.books.wellFormed.openIndexed id p hget hopen
        rw [hmint, evaluateEntry_allow_canOpen hallowed] at hindexed
        cases hindexed
      refine ⟨hchecked.books, hchecked.rows, ?_, hchecked.account, hchecked.owner,
        henterable.sameBooks hframe, hchecked.exit, hchecked.pass⟩
      intro orderId order hget
      have hknown := hchecked.orders orderId order hget
      rw [hidle] at hknown
      exact hknown
    · rename_i reason ledger heval
      rw [heval] at hframe
      exact h.sameBooks hframe hidle
    · rename_i reason ledger heval
      rw [heval] at hframe
      exact h.sameBooks hframe hidle

/-- An entry that is given up leaves its loop idle. -/
theorem PassRun.entryDropped (h : PassRun config s) {req : OpenRequest}
    (hchecked : s.entry = .checked req) : PassRun config { s with entry := .idle } := by
  refine ⟨h.books, h.rows, fun orderId order hget => ?_, h.account, h.owner, trivial, h.exit,
    h.pass⟩
  have hknown := h.orders orderId order hget
  rw [hchecked] at hknown
  exact hknown

/-- The order of a checked entry is new to the database. -/
theorem PassRun.newOrderRow (h : PassRun config s) {req : OpenRequest}
    (hchecked : s.entry = .checked req) (henterable : Enterable s.ledger req) :
    s.db.orders.get? req.order = none := by
  cases hget : s.db.orders.get? req.order with
  | none => rfl
  | some order =>
      exfalso
      rcases h.orders req.order order hget with ⟨fill, hfill, heq⟩ | hentry | hexit
      · exact henterable.unused fill hfill heq
      · rw [hchecked] at hentry
        cases hentry
      · obtain ⟨candidateId, hform⟩ := henterable.form
        cases hphase : s.exit with
        | idle =>
            rw [hphase] at hexit
            cases hexit
        | checked close =>
            rw [hphase] at hexit
            cases hexit
        | committed close answer =>
            have hfine := h.exit
            rw [hphase] at hexit hfine
            obtain ⟨id, p, row, hleaving⟩ := hfine
            obtain ⟨i, code, hexitForm⟩ := hleaving.form
            have heq : close.order = req.order := Option.some.inj hexit
            exact entryOrder_ne_exitOrder _ _ _ (hform.symm.trans (heq.symm.trans hexitForm))

theorem PassRun.commitEntry (h : PassRun config s) {req : OpenRequest}
    (hchecked : s.entry = .checked req) : PassRun config (commitEntry config s req) := by
  have henterable : Enterable s.ledger req := by
    have hfine := h.entry
    rw [hchecked] at hfine
    exact hfine
  unfold Exits.commitEntry
  split
  · rename_i quote candidateId poolAddress _ _ _
    split
    · exact h.entryDropped hchecked
    · have hnew := h.newOrderRow hchecked henterable
      split
      · rename_i e db hcommit
        rw [commitPaperEntry_error hcommit]
        exact h.entryDropped hchecked
      · rename_i committed db hcommit
        rcases commitPaperEntry_ok hcommit with ⟨-, hrecorded⟩ | ⟨account, hcase, rfl, rfl⟩
        · obtain ⟨order, hstored, -⟩ := hrecorded.order
          exact absurd (hnew.symm.trans hstored) (by simp)
        · have hfresh : s.ledger.positions.get? req.positionId = none := by
            cases hget : s.ledger.positions.get? req.positionId with
            | none => rfl
            | some p =>
                obtain ⟨row, hrow⟩ := h.rows.stored _ p hget
                exact absurd (hcase.freshPosition.symm.trans hrow) (by simp)
          refine ⟨h.books, h.rows.entered hcase, ?_, ⟨_, rfl⟩, h.owner,
            ⟨henterable, hfresh, rfl, _, Dict.get?_set_self _ _ _, Or.inl rfl, rfl, rfl⟩, ?_, ?_⟩
          · intro orderId order hget
            simp only [PaperDb.entered, Dict.get?_set] at hget
            split at hget
            · rename_i hid
              exact Or.inr (Or.inl (congrArg some hid))
            · have hknown := h.orders orderId order hget
              rw [hchecked] at hknown
              rcases hknown with hfill | hentry | hexit
              · exact Or.inl hfill
              · cases hentry
              · exact Or.inr (Or.inr hexit)
          · have hexit := h.exit
            cases hphase : s.exit with
            | idle => trivial
            | checked close =>
                rw [hphase] at hexit
                exact hexit
            | committed close answer =>
                rw [hphase] at hexit
                obtain ⟨id, p, row, hleaving⟩ := hexit
                exact ⟨id, p, row, hleaving.toExitable, hleaving.committedId, hleaving.linked,
                  get?_entered hcase hleaving.exited⟩
          · have hpass := h.pass
            cases hphase : s.pass with
            | idle => trivial
            | quoting listed pending quoted =>
                rw [hphase] at hpass
                exact hpass
            | writing snapshot values now =>
                rw [hphase] at hpass
                obtain ⟨hidle, hsnapshot⟩ := hpass
                refine ⟨hidle, hsnapshot.ids, hsnapshot.total, hsnapshot.quoted,
                  hsnapshot.current, fun id row hget hlive hnot => ?_⟩
                rcases entered_cases hget with ⟨-, rfl⟩ | ⟨-, hold⟩
                · rfl
                · exact hsnapshot.unmarked id row hold hlive hnot
  · exact h.entryDropped hchecked

theorem Entered.bookCase {ledger : LedgerState} {db : PaperDb} {req : OpenRequest}
    {quote : ExecutableQuote} {committed : Committed} (hbooks : Books ledger)
    (h : Entered config ledger db req quote committed) :
    BookCase ledger (req.openArgs config quote.1 committed) := by
  refine ⟨h.usd, mul_pos quote.2.1 (adverseFactor_pos config), hbooks.newEntry h.unused, ?_, ?_, ?_⟩
  · show ledger.tokenPosition req.tokenMint = none
    rw [hbooks.wellFormed.tokenPosition_eq]
    cases hindex : ledger.tokenIndex.get? req.tokenMint with
    | none => rfl
    | some id =>
        obtain ⟨-, p, hp, hmint, hopen⟩ := hbooks.wellFormed.indexOpen _ _ hindex
        exact absurd hmint (h.free id p hp hopen)
  · show committed.positionId ≠ ""
    rw [h.committedId]
    exact h.id
  · show ledger.positions.get? committed.positionId = none
    rw [h.committedId]
    exact h.fresh

theorem Quoting.booked {ledger : LedgerState} {mint : Option String} {pending : List String}
    {quoted : Quoted} (h : Quoting ledger mint pending quoted) {args : OpenArgs}
    (valid : args.costs.Valid) (hfresh : ledger.positions.get? args.positionId = none) :
    Quoting (ledger.booked args valid) mint pending quoted := by
  refine ⟨fun id hid => openAt_booked hfresh (h.listed id hid), h.nodup, h.fresh, ?_, ?_⟩
  · intro id value hvalue
    obtain ⟨p, hget, hopen, hprice⟩ := h.priced id value hvalue
    exact ⟨p, get?_booked hfresh hget, hopen, hprice⟩
  · intro m hm id p hget hopen hmint
    rcases booked_cases hget with ⟨rfl, -⟩ | hold
    · -- the new position was neither listed nor quoted
      constructor
      · intro hmem
        obtain ⟨q, hq, -⟩ := h.listed _ hmem
        rw [hfresh] at hq
        cases hq
      · cases hvalue : quoted.values.get? args.positionId with
        | none => rfl
        | some value =>
            obtain ⟨q, hq, -⟩ := h.priced _ value hvalue
            rw [hfresh] at hq
            cases hq
    · exact h.untouched m hm id p hold hopen hmint

theorem Exitable.booked {ledger : LedgerState} {req : CloseRequest} {id : String}
    {p : PositionRecord} (h : Exitable ledger req id p) {args : OpenArgs}
    (valid : args.costs.Valid) (hfresh : ledger.positions.get? args.positionId = none)
    (horder : ∃ candidateId, args.orderId = entryOrder candidateId) :
    Exitable (ledger.booked args valid) req id p := by
  refine ⟨h.form, ?_, get?_booked hfresh h.stored, h.opened, h.mint, h.amount, h.available,
    h.whole⟩
  intro fill hfill heq
  rcases List.mem_append.mp hfill with hold | hnew
  · exact h.unused fill hold heq
  · rw [List.mem_singleton.mp hnew] at heq
    obtain ⟨candidateId, hentry⟩ := horder
    obtain ⟨i, code, hexit⟩ := h.form
    have hid : args.orderId = req.order := heq
    exact entryOrder_ne_exitOrder _ _ _ (hentry.symm.trans (hid.trans hexit))

theorem PassRun.bookEntry (h : PassRun config s) {req : OpenRequest} {quote : ExecutableQuote}
    {committed : Committed} (hphase : s.entry = .committed req quote committed) :
    PassRun config (bookEntry config s req quote committed) := by
  have hentered : Entered config s.ledger s.db req quote committed := by
    have hfine := h.entry
    rw [hphase] at hfine
    exact hfine
  have hbook := hentered.bookCase h.books
  have hvalid := req.openArgs_valid config quote committed hentered.usd
  have hform : ∃ candidateId,
      (req.openArgs config quote.1 committed).orderId = entryOrder candidateId := hentered.form
  obtain ⟨row, hrow, hmatches⟩ := hentered.row
  unfold Exits.bookEntry
  rw [hbook.openPosition_eq hvalid]
  refine ⟨h.books.booked hvalid hbook hform, h.rows.booked hvalid hbook.freshId ?_ hmatches, ?_,
    h.account, h.owner, trivial, ?_, ?_⟩
  · show s.db.positions.get? committed.positionId = some row
    rw [hentered.committedId]
    exact hrow
  · intro orderId order hget
    rcases h.orders orderId order hget with ⟨fill, hfill, heq⟩ | hentry | hexit
    · exact Or.inl ⟨fill, List.mem_append_left _ hfill, heq⟩
    · rw [hphase] at hentry
      exact Or.inl ⟨_, List.mem_append_right _ (List.mem_singleton.mpr rfl),
        Option.some.inj hentry⟩
    · exact Or.inr (Or.inr hexit)
  · have hexit := h.exit
    cases hexitPhase : s.exit with
    | idle => trivial
    | checked close =>
        rw [hexitPhase] at hexit
        obtain ⟨id, p, hexitable⟩ := hexit
        exact ⟨id, p, hexitable.booked hvalid hbook.freshId hform⟩
    | committed close answer =>
        rw [hexitPhase] at hexit
        obtain ⟨id, p, old, hleaving⟩ := hexit
        exact ⟨id, p, old, hleaving.toExitable.booked hvalid hbook.freshId hform,
          hleaving.committedId, hleaving.linked, hleaving.exited⟩
  · have hpass := h.pass
    cases hpassPhase : s.pass with
    | idle => trivial
    | quoting listed pending quoted =>
        rw [hpassPhase] at hpass
        exact Quoting.booked hpass hvalid hbook.freshId
    | writing snapshot values now =>
        rw [hpassPhase] at hpass
        obtain ⟨hidle, hsnapshot⟩ := hpass
        exact ⟨hidle, hsnapshot.ids, hsnapshot.total, hsnapshot.quoted,
          fun id hopen => openAt_booked hbook.freshId (hsnapshot.current id hopen),
          hsnapshot.unmarked⟩

/-! ### Closes -/

/-- The exit loop starts a pass anew. -/
theorem PassRun.passIdle (h : PassRun config s) : PassRun config { s with pass := .idle } :=
  ⟨h.books, h.rows, h.orders, h.account, h.owner, h.entry, h.exit, trivial⟩

/-- A close that the broker does not commit leaves the exit loop idle. -/
theorem PassRun.exitDropped (h : PassRun config s) {req : CloseRequest}
    (hchecked : s.exit = .checked req) :
    PassRun config { s with exit := .idle, pass := .idle } := by
  have hrows := h.rows
  rw [hchecked] at hrows
  refine ⟨h.books, hrows, fun orderId order hget => ?_, h.account, h.owner, h.entry, trivial,
    trivial⟩
  have hknown := h.orders orderId order hget
  rw [hchecked] at hknown
  exact hknown

theorem PassRun.checkExit (h : PassRun config s) (hidle : s.exit = .idle) {id : String}
    {close : ExitClose} (hstored : s.ledger.positions.get? id = some close.position)
    (hopen : close.position.status = .opened)
    (hwhole : close.draw.quote = none → close.fraction = 1)
    (hpass : PassFine s.ledger s.db (.checked close.request) s.pass) :
    PassRun config (checkExit s close.request) := by
  unfold Exits.checkExit
  split
  · exact h.passIdle
  · rename_i hamount
    split
    · exact h
    · rename_i hnew
      split
      · exact h.passIdle
      · rename_i p hfound
        have hmint := List.find?_some hfound
        rw [decide_eq_true_eq] at hmint
        split
        · exact h.passIdle
        · rename_i hexceeds
          obtain ⟨j, hj, hjopen⟩ := mem_openPositions.mp (List.mem_of_find?_eq_some hfound)
          -- the open position of the mint is the one of the close
          obtain rfl := h.books.mint_inj hj hjopen hstored hopen hmint
          rw [hstored] at hj
          cases hj
          have hform : close.request.order = exitOrder close.position.positionId close.code :=
            request_order close
          have hunused : Unused s.ledger close.request.order :=
            (h.books.sides.oneSided_exit close.position.positionId close.code _).unused hnew
          have hexitable : Exitable s.ledger close.request j close.position := by
            refine ⟨⟨_, _, hform⟩, hunused, hstored, hopen, rfl, not_le.mp hamount,
              not_lt.mp hexceeds, fun hquote => ?_⟩
            show close.position.remainingTokenAmount ≤
              close.position.remainingTokenAmount * close.fraction
            rw [hwhole hquote, mul_one]
          refine ⟨h.books, ?_, fun orderId order hget => ?_, h.account, h.owner, h.entry,
            ⟨j, close.position, hexitable⟩, hpass⟩
          · have hrows := h.rows
            rw [hidle] at hrows
            exact hrows
          · have hknown := h.orders orderId order hget
            rw [hidle] at hknown
            exact hknown

/-- The order of a checked close is new to the database. -/
theorem PassRun.newExitRow (h : PassRun config s) {req : CloseRequest} {id : String}
    {p : PositionRecord} (hchecked : s.exit = .checked req)
    (hexitable : Exitable s.ledger req id p) : s.db.orders.get? req.order = none := by
  cases hget : s.db.orders.get? req.order with
  | none => rfl
  | some order =>
      exfalso
      rcases h.orders req.order order hget with ⟨fill, hfill, heq⟩ | hentry | hexit
      · exact hexitable.unused fill hfill heq
      · obtain ⟨i, code, hform⟩ := hexitable.form
        cases hphase : s.entry with
        | idle =>
            rw [hphase] at hentry
            cases hentry
        | checked request =>
            rw [hphase] at hentry
            cases hentry
        | committed request quote answer =>
            have hfine := h.entry
            rw [hphase] at hentry hfine
            have hentered : Entered config s.ledger s.db request quote answer := hfine
            obtain ⟨candidateId, hentryForm⟩ := hentered.form
            have heq : request.order = req.order := Option.some.inj hentry
            exact entryOrder_ne_exitOrder _ _ _ (hentryForm.symm.trans (heq.trans hform))
      · rw [hchecked] at hexit
        cases hexit

theorem PassRun.commitExit (h : PassRun config s) {req : CloseRequest}
    (hchecked : s.exit = .checked req) : PassRun config (commitExit config s req) := by
  obtain ⟨id, p, hexitable⟩ : ∃ id p, Exitable s.ledger req id p := by
    have hfine := h.exit
    rw [hchecked] at hfine
    exact hfine
  unfold Exits.commitExit
  split
  · rename_i e db hcommit
    rw [commitPaperExit_error hcommit]
    exact h.exitDropped hchecked
  · rename_i committed db hcommit
    have hnew := h.newExitRow hchecked hexitable
    have hrows : Rows s.ledger s.db none := by
      have hall := h.rows
      rw [hchecked] at hall
      exact hall
    rcases commitPaperExit_ok hcommit with ⟨-, hrecorded⟩ | ⟨account, j, row, hcase, rfl, rfl⟩
    · obtain ⟨order, hstored, -⟩ := hrecorded.order
      exact absurd (hnew.symm.trans hstored) (by simp)
    · -- the open row of the mint is that of the position
      obtain ⟨hrow, hmint, hlive⟩ := livePosition_some hcase.found
      obtain ⟨own, hown, hmatches⟩ := hrows.matched id p hexitable.stored hexitable.opened (by simp)
      have hsame : row.mint = own.mint :=
        hmint.trans (hexitable.mint.symm.trans hmatches.mint.symm)
      obtain rfl := hrows.mints j row id own hrow hown hlive hmatches.live hsame
      rw [hrow] at hown
      cases hown
      have hopen : OpenAt s.ledger j := ⟨p, hexitable.stored, hexitable.opened⟩
      refine ⟨h.books, hrows.exitCommitted hcase hopen, ?_, ⟨_, rfl⟩, h.owner, ?_,
        ⟨j, p, row, hexitable, rfl, hmatches, Dict.get?_set_self _ _ _⟩, ?_⟩
      · intro orderId order hget
        simp only [PaperDb.exited, Dict.get?_set] at hget
        split at hget
        · rename_i hid
          exact Or.inr (Or.inr (congrArg some hid))
        · have hknown := h.orders orderId order hget
          rw [hchecked] at hknown
          rcases hknown with hfill | hentry | hexit
          · exact Or.inl hfill
          · exact Or.inr (Or.inl hentry)
          · cases hexit
      · have hentry := h.entry
        cases hphase : s.entry with
        | idle => trivial
        | checked request =>
            rw [hphase] at hentry
            exact hentry
        | committed request quote answer =>
            rw [hphase] at hentry
            have hentered : Entered config s.ledger s.db request quote answer := hentry
            obtain ⟨found, hfound, hfoundMatches⟩ := hentered.row
            have hne : j ≠ request.positionId := by
              rintro rfl
              have hstored := hexitable.stored
              rw [hentered.fresh] at hstored
              cases hstored
            refine ⟨hentered.toEnterable, hentered.fresh, hentered.committedId, found, ?_,
              hfoundMatches⟩
            simp only [PaperDb.exited, Dict.get?_set, if_neg hne]
            exact hfound
      · have hpass := h.pass
        cases hphase : s.pass with
        | idle => trivial
        | quoting listed pending quoted =>
            rw [hphase, hchecked] at hpass
            exact hpass
        | writing snapshot values now =>
            rw [hphase, hchecked] at hpass
            cases hpass.1

theorem Leaving.exitCase {ledger : LedgerState} {db : PaperDb} {req : CloseRequest}
    {committed : Committed} {id : String} {p : PositionRecord} {row : PositionRow}
    (hbooks : Books ledger) (h : Leaving config ledger db req committed id p row) :
    Ledger.ExitCase ledger (req.closeArgs config committed) id p := by
  refine ⟨?_, h.stored, h.opened, req.sellPriceUsd_nonneg config, h.amount, h.available,
    hbooks.newExit h.unused⟩
  show ledger.tokenIndex.get? req.tokenMint = some id
  rw [← h.mint]
  exact hbooks.wellFormed.openIndexed id p h.stored h.opened

/-- The exited row follows the reduced position. -/
theorem Leaving.row_status {ledger : LedgerState} {db : PaperDb} {req : CloseRequest}
    {committed : Committed} {id : String} {p : PositionRecord} {row : PositionRow}
    (h : Leaving config ledger db req committed id p row) :
    ((req.exitArgs config).exitedRow row).status.Live ↔
      ((req.closeArgs config committed).closedPosition p).status = .opened := by
  have hfinal : (req.exitArgs config).Final row ↔ (req.closeArgs config committed).Final p := by
    rw [ExitArgs.Final, h.linked.tokens]
    rfl
  have hclosed : ((req.closeArgs config committed).closedPosition p).status = .opened ↔
      ¬ (req.closeArgs config committed).Final p := by
    rw [closedPosition_status h.opened]
    by_cases hsold : (req.closeArgs config committed).Final p <;> simp [hsold]
  rw [hclosed, ← hfinal]
  show ((req.exitArgs config).newStatus row).Live ↔ _
  rw [ExitArgs.newStatus]
  show (if (req.quote.map Subtype.val).isNone = true then _ else _ : RowStatus).Live ↔ _
  cases hquote : req.quote with
  | none =>
      have hsold : (req.exitArgs config).Final row := by
        rw [ExitArgs.Final, h.linked.tokens]
        exact sub_nonpos.mpr (h.whole hquote)
      simp [hsold, RowStatus.Live]
  | some quote =>
      by_cases hsold : (req.exitArgs config).Final row <;> simp [hsold, RowStatus.Live]

theorem Quoting.exited {ledger : LedgerState} {req : CloseRequest} {pending : List String}
    {quoted : Quoted} (h : Quoting ledger (some req.tokenMint) pending quoted)
    (dateKey : Time → String) {args : CloseArgs} {id : String} {p : PositionRecord}
    (valid : args.costs.Valid) (hcase : Ledger.ExitCase ledger args id p)
    (hmint : p.tokenMint = req.tokenMint) :
    Quoting (ledger.exited dateKey args id p valid) none pending quoted := by
  obtain ⟨hnot, hvalue⟩ := h.untouched _ rfl id p hcase.stored hcase.opened hmint
  have hkept : ∀ j q, id ≠ j → ledger.positions.get? j = some q →
      (ledger.exited dateKey args id p valid).positions.get? j = some q := by
    intro j q hne hget
    simp only [LedgerState.exited, Dict.get?_set, if_neg hne]
    exact hget
  refine ⟨fun j hj => ?_, h.nodup, h.fresh, fun j value hj => ?_, by rintro _ ⟨⟩⟩
  · obtain ⟨q, hq, hqopen⟩ := h.listed j hj
    exact ⟨q, hkept j q (fun heq => hnot (heq ▸ hj)) hq, hqopen⟩
  · obtain ⟨q, hq, hqopen, hprice⟩ := h.priced j value hj
    have hne : id ≠ j := by
      rintro rfl
      rw [hvalue] at hj
      cases hj
    exact ⟨q, hkept j q hne hq, hqopen, hprice⟩

theorem PassRun.bookExit (h : PassRun config s) {req : CloseRequest} {committed : Committed}
    (hphase : s.exit = .committed req committed) :
    PassRun config (bookExit config s req committed) := by
  obtain ⟨id, p, row, hleaving⟩ :
      ∃ id p row, Leaving config s.ledger s.db req committed id p row := by
    have hfine := h.exit
    rw [hphase] at hfine
    exact hfine
  have hcase := hleaving.exitCase h.books
  have hvalid := req.closeArgs_valid config committed
  have hrows : Rows s.ledger s.db (some id) := by
    have hall := h.rows
    rw [hphase] at hall
    rw [← hleaving.committedId]
    exact hall
  unfold Exits.bookExit
  rw [hcase.closePosition_eq config.zone.dateKey h.books.wellFormed hvalid]
  refine ⟨h.books.exited _ hvalid hcase hleaving.form,
    hrows.exitBooked _ hvalid hcase hleaving.exited ?_ ?_, ?_, h.account, h.owner, ?_, trivial, ?_⟩
  · intro hopen
    refine ⟨hleaving.row_status.mpr hopen, ?_, ?_⟩
    · rw [closedPosition_tokenMint, ← hleaving.linked.mint]
      rfl
    · rw [closedPosition_remainingTokenAmount, ← hleaving.linked.tokens]
      rfl
  · intro hclosed hlive
    rw [hleaving.row_status.mp hlive] at hclosed
    cases hclosed
  · intro orderId order hget
    rcases h.orders orderId order hget with ⟨fill, hfill, heq⟩ | hentry | hexit
    · exact Or.inl ⟨fill, List.mem_append_left _ hfill, heq⟩
    · exact Or.inr (Or.inl hentry)
    · rw [hphase] at hexit
      exact Or.inl ⟨_, List.mem_append_right _ (List.mem_singleton.mpr rfl),
        Option.some.inj hexit⟩
  · -- the exit's fill has another order id, and it opens no position
    have hlater : ∀ request : OpenRequest, Enterable s.ledger request →
        Enterable (s.ledger.exited config.zone.dateKey (req.closeArgs config committed) id p hvalid)
          request := by
      intro request henterable
      refine henterable.later ?_ ?_
      · intro fill hfill heq
        rcases List.mem_append.mp hfill with hold | hnew
        · exact henterable.unused fill hold heq
        · rw [List.mem_singleton.mp hnew] at heq
          obtain ⟨candidateId, hentry⟩ := henterable.form
          obtain ⟨i, code, hexit⟩ := hleaving.form
          have horder : req.order = request.order := heq
          exact entryOrder_ne_exitOrder _ _ _ (hentry.symm.trans (horder.symm.trans hexit))
      · intro j q hget hopen
        rcases hcase.stored_cases hget with ⟨rfl, rfl⟩ | ⟨-, hold⟩
        · exact ⟨p, hcase.stored, hcase.opened, (closedPosition_tokenMint).symm⟩
        · exact ⟨q, hold, hopen, rfl⟩
    have hentry := h.entry
    cases hentryPhase : s.entry with
    | idle => trivial
    | checked request =>
        rw [hentryPhase] at hentry
        exact hlater request hentry
    | committed request quote answer =>
        rw [hentryPhase] at hentry
        have hentered : Entered config s.ledger s.db request quote answer := hentry
        have hne : id ≠ request.positionId := by
          rintro rfl
          have hstored := hleaving.stored
          rw [hentered.fresh] at hstored
          cases hstored
        refine ⟨hlater request hentered.toEnterable, ?_, hentered.committedId, hentered.row⟩
        simp only [LedgerState.exited, Dict.get?_set, if_neg hne]
        exact hentered.fresh
  · have hpass := h.pass
    cases hpassPhase : s.pass with
    | idle => trivial
    | quoting listed pending quoted =>
        rw [hpassPhase, hphase] at hpass
        exact Quoting.exited hpass _ hvalid hcase hleaving.mint
    | writing snapshot values now =>
        rw [hpassPhase, hphase] at hpass
        cases hpass.1

/-! ### Passes -/

theorem PassRun.listPositions (h : PassRun config s) (hidle : s.exit = .idle) :
    PassRun config (listPositions s) := by
  refine ⟨h.books, h.rows, h.orders, h.account, h.owner, h.entry, h.exit, ?_⟩
  show Quoting s.ledger s.exit.mint (s.ledger.openPositions.map (·.positionId)) _
  rw [hidle]
  refine ⟨fun id hid => ?_, openPositions_ids_nodup h.books.ids, fun _ _ => rfl, by rintro _ _ ⟨⟩,
    by rintro _ ⟨⟩⟩
  obtain ⟨p, hp, rfl⟩ := List.mem_map.mp hid
  obtain ⟨j, hj, hopen⟩ := mem_openPositions.mp hp
  exact ⟨p, by rw [h.books.ids j p hj]; exact hj, hopen⟩

section Quoting

variable {ledger : LedgerState} {id : String} {pending : List String} {quoted : Quoted}

theorem Quoting.tail (h : Quoting ledger none (id :: pending) quoted) :
    Quoting ledger none pending quoted :=
  ⟨fun j hj => h.listed j (List.mem_cons_of_mem _ hj), (List.nodup_cons.mp h.nodup).2,
    fun j hj => h.fresh j (List.mem_cons_of_mem _ hj), h.priced, by rintro _ ⟨⟩⟩

/-- The position at the head can be sold while the quotes of the others are awaited. -/
theorem Quoting.tail_untouched (hbooks : Books ledger)
    (h : Quoting ledger none (id :: pending) quoted) {position : PositionRecord}
    (hget : ledger.positions.get? id = some position) (hopen : position.status = .opened) :
    Quoting ledger (some position.tokenMint) pending quoted := by
  refine ⟨h.tail.listed, h.tail.nodup, h.tail.fresh, h.priced, ?_⟩
  rintro _ ⟨⟩ j p hj hjopen hmint
  obtain rfl := hbooks.mint_inj hj hjopen hget hopen hmint
  exact ⟨(List.nodup_cons.mp h.nodup).1, h.fresh j List.mem_cons_self⟩

theorem Quoting.add (hbooks : Books ledger) (h : Quoting ledger none (id :: pending) quoted)
    {position : PositionRecord} (hget : ledger.positions.get? id = some position)
    (quote : QuoteResponse) : Quoting ledger none pending (quoted.add position quote) := by
  obtain ⟨p, hp, hopen⟩ := h.listed id List.mem_cons_self
  rw [hget] at hp
  cases hp
  have hid := hbooks.ids id position hget
  obtain ⟨hhead, -⟩ := List.nodup_cons.mp h.nodup
  refine ⟨h.tail.listed, h.tail.nodup, fun j hj => ?_, fun j value hj => ?_, by rintro _ ⟨⟩⟩
  · have hne : position.positionId ≠ j := by
      rw [hid]
      rintro rfl
      exact hhead hj
    simp only [Quoted.add, Dict.get?_set_ne _ hne]
    exact h.fresh j (List.mem_cons_of_mem _ hj)
  · simp only [Quoted.add, hid, Dict.get?_set] at hj ⊢
    split at hj
    · rename_i heq
      cases hj
      subst heq
      refine ⟨position, hget, hopen, ?_⟩
      rw [if_pos rfl, if_pos (hbooks.wellFormed.openTokens id position hget hopen)]
    · rename_i hne
      obtain ⟨q, hq, hqopen, hprice⟩ := h.priced j value hj
      refine ⟨q, hq, hqopen, ?_⟩
      rw [if_neg fun hmint => hne (hbooks.mint_inj hget hopen hq hqopen hmint)]
      exact hprice

end Quoting

theorem PassRun.quotePosition (h : PassRun config s) (hidle : s.exit = .idle) {listed : Nat}
    {id : String} {pending : List String} {quoted : Quoted}
    (hphase : s.pass = .quoting listed (id :: pending) quoted) (quote : QuoteResponse) :
    PassRun config (quotePosition s listed id pending quoted quote) := by
  have hquoting : Quoting s.ledger none (id :: pending) quoted := by
    have hpass := h.pass
    rw [hphase, hidle] at hpass
    exact hpass
  unfold Exits.quotePosition
  split
  · exact h
  · rename_i position hget
    refine ⟨h.books, h.rows, h.orders, h.account, h.owner, h.entry, h.exit, ?_⟩
    show Quoting s.ledger s.exit.mint pending _
    rw [hidle]
    exact hquoting.add h.books hget quote

theorem PassRun.quoteFailed (h : PassRun config s) (hidle : s.exit = .idle) {listed : Nat}
    {id : String} {pending : List String} {quoted : Quoted}
    (hphase : s.pass = .quoting listed (id :: pending) quoted) (giveUp : Option CloseDraw) :
    PassRun config (quoteFailed s listed id pending quoted giveUp) := by
  have hquoting : Quoting s.ledger none (id :: pending) quoted := by
    have hpass := h.pass
    rw [hphase, hidle] at hpass
    exact hpass
  have hnext : PassRun config { s with pass := .quoting listed pending quoted } := by
    refine ⟨h.books, h.rows, h.orders, h.account, h.owner, h.entry, h.exit, ?_⟩
    show Quoting s.ledger s.exit.mint pending quoted
    rw [hidle]
    exact hquoting.tail
  unfold Exits.quoteFailed
  dsimp only
  split
  · exact hnext
  · rename_i close hclose
    obtain ⟨draw, -, hgiveUp⟩ := Option.bind_eq_some_iff.mp hclose
    obtain ⟨position, hget, rfl⟩ := Option.map_eq_some_iff.mp hgiveUp
    obtain ⟨p, hp, hopen⟩ := hquoting.listed id List.mem_cons_self
    rw [hget] at hp
    cases hp
    exact hnext.checkExit hidle hget hopen (fun _ => rfl)
      (hquoting.tail_untouched h.books hget hopen)

/-- With a quote for every open position, the total of the mark is the sum of value less cost. -/
theorem Quoting.snapshot {ledger : LedgerState} {db : PaperDb} {quoted : Quoted}
    (hbooks : Books ledger) (hrows : Rows ledger db none) (h : Quoting ledger none [] quoted)
    (hall : ∀ p ∈ ledger.openPositions, (quoted.values.get? p.positionId).isSome)
    (dateKey : Time → String) (now : Time) :
    Snapshot (markToMarket dateKey ledger quoted.prices now) db
      (markToMarket dateKey ledger quoted.prices now) quoted.values := by
  have hvalue : ∀ id p, ledger.positions.get? id = some p → p.status = .opened →
      ∃ value, quoted.values.get? id = some value := by
    intro id p hget hopen
    have hsome := hall p (mem_openPositions.mpr ⟨id, hget, hopen⟩)
    rw [hbooks.ids id p hget] at hsome
    exact Option.isSome_iff_exists.mp hsome
  refine ⟨(hbooks.marked dateKey quoted.prices now).ids, ?_, ?_, fun _ hopen => hopen, ?_⟩
  · show Dict.total (fun _ p => markGain quoted.prices p) ledger.positions =
      Dict.total (snapshotGain quoted.values)
        (ledger.positions.mapValues fun _ => markPosition quoted.prices now)
    rw [Dict.total_mapValues]
    refine Dict.total_congr fun id p hget => ?_
    by_cases hopen : p.status = .opened
    · obtain ⟨value, hsome⟩ := hvalue id p hget hopen
      obtain ⟨q, hq, -, hprice⟩ := h.priced id value hsome
      rw [hget] at hq
      cases hq
      have htokens := hbooks.wellFormed.openTokens id p hget hopen
      simp only [markGain, snapshotGain, markPosition_status, markPosition_remainingCostUsd, hopen,
        ne_eq, not_true_eq_false, if_false, if_true, hprice, hsome, Option.getD_some,
        mul_div_cancel₀ value htokens.ne']
    · simp only [markGain, snapshotGain, markPosition_status, hopen, ne_eq, not_false_eq_true,
        if_true, if_false]
  · intro id hopen
    obtain ⟨p, hget, hopened⟩ := openAt_marked.mp hopen
    obtain ⟨value, hsome⟩ := hvalue id p hget hopened
    rw [hsome]
    simp
  · intro id row hget hlive hnot
    exact hrows.unmarked id row hget hlive fun hopen => hnot (openAt_marked.mpr hopen)

theorem PassRun.markPass (h : PassRun config s) (hidle : s.exit = .idle) {listed : Nat}
    {quoted : Quoted} (hphase : s.pass = .quoting listed [] quoted)
    (hall : quoted.Complete listed →
      ∀ p ∈ s.ledger.openPositions, (quoted.values.get? p.positionId).isSome) (now : Time) :
    PassRun config (markPass config s listed quoted now) := by
  have hquoting : Quoting s.ledger none [] quoted := by
    have hpass := h.pass
    rw [hphase, hidle] at hpass
    exact hpass
  have hrows : Rows s.ledger s.db none := by
    have hall := h.rows
    rw [hidle] at hall
    exact hall
  unfold Exits.markPass
  split
  · rename_i hcomplete
    refine ⟨h.books.marked _ _ _, h.rows.marked _ _ _, h.orders, h.account, h.owner, ?_, ?_,
      hidle, hquoting.snapshot h.books hrows (hall hcomplete) _ _⟩
    · have hlater : ∀ req : OpenRequest, Enterable s.ledger req → Enterable
          (markToMarket config.zone.dateKey s.ledger quoted.prices now) req := by
        intro req henterable
        refine henterable.later henterable.unused fun id p hget hopen => ?_
        obtain ⟨old, hold, rfl⟩ := get?_markToMarket hget
        rw [markPosition_status] at hopen
        exact ⟨old, hold, hopen, markPosition_tokenMint.symm⟩
      have hentry := h.entry
      cases hentryPhase : s.entry with
      | idle => trivial
      | checked req =>
          rw [hentryPhase] at hentry
          exact hlater req hentry
      | committed req quote answer =>
          rw [hentryPhase] at hentry
          have hentered : Entered config s.ledger s.db req quote answer := hentry
          refine ⟨hlater req hentered.toEnterable, ?_, hentered.committedId, hentered.row⟩
          simp only [markToMarket, Dict.get?_mapValues, hentered.fresh, Option.map_none]
    · show ExitFine config _ _ s.exit
      rw [hidle]
      trivial
  · exact h.passIdle

theorem PassRun.writeMarks_db (h : PassRun config s) (snapshot : LedgerState)
    (values : Dict String ℚ) (now : Time) :
    ∃ account, (writeMarks config s snapshot values now).db =
      s.db.marked account values snapshot now := by
  obtain ⟨account, haccount⟩ := h.account
  refine ⟨account, ?_⟩
  simp only [Exits.writeMarks, updatePaperMarks, transaction, haccount,
    runtimeOwnerError_none h.owner]

theorem PassRun.writeMarks (h : PassRun config s) {snapshot : LedgerState}
    {values : Dict String ℚ} {now : Time} (hphase : s.pass = .writing snapshot values now) :
    PassRun config (writeMarks config s snapshot values now) := by
  obtain ⟨hidle, hsnapshot⟩ : s.exit = .idle ∧ Snapshot s.ledger s.db snapshot values := by
    have hpass := h.pass
    rw [hphase] at hpass
    exact hpass
  obtain ⟨account, hdb⟩ := h.writeMarks_db snapshot values now
  have hstate : Exits.writeMarks config s snapshot values now =
      { s with db := s.db.marked account values snapshot now, pass := .idle } := by
    rw [← hdb]
    rfl
  rw [hstate]
  refine ⟨h.books, h.rows.written hsnapshot, h.orders, ⟨_, rfl⟩, h.owner, ?_, ?_, trivial⟩
  · have hentry := h.entry
    cases hentryPhase : s.entry with
    | idle => trivial
    | checked req =>
        rw [hentryPhase] at hentry
        exact hentry
    | committed req quote answer =>
        rw [hentryPhase] at hentry
        have hentered : Entered config s.ledger s.db req quote answer := hentry
        obtain ⟨row, hrow, hmatches⟩ := hentered.row
        have hnot : ¬ OpenAt snapshot req.positionId := by
          intro hopen
          obtain ⟨p, hget, -⟩ := hsnapshot.current _ hopen
          rw [hentered.fresh] at hget
          cases hget
        exact ⟨hentered.toEnterable, hentered.fresh, hentered.committedId, row,
          (get?_written_of_not_open hsnapshot.ids hnot).trans hrow, hmatches⟩
  · show ExitFine config _ _ s.exit
    rw [hidle]
    trivial

/-! ## Runs -/

/-- A decision to exit concerns an open position. -/
theorem exit_opened {ledger : LedgerState} {positionId : String} {price : ℚ} {now : Time}
    {momentumExit emergencyExit : Bool} {draw : CloseDraw} {close : ExitClose}
    (h : (ExitOp.exit positionId price now momentumExit emergencyExit draw).close policy ledger =
      some close) :
    ledger.positions.get? positionId = some close.position ∧ close.position.status = .opened := by
  obtain ⟨position, hget, hdecide⟩ := Option.bind_eq_some_iff.mp h
  dsimp only at hdecide
  split at hdecide
  · rename_i hexit
    cases hdecide
    exact ⟨hget, (evaluateExit_spec hexit).opened⟩
  · cases hdecide

theorem PassRun.exitPosition (h : PassRun config s) (hidle : s.exit = .idle)
    (hphase : s.pass = .idle) {positionId : String} {price : ℚ} {now : Time}
    {momentumExit emergencyExit : Bool} {draw : CloseDraw}
    (hquoted : PartsQuoted policy s.toBrokerState
      (.exit positionId price now momentumExit emergencyExit draw)) {close : ExitClose}
    (hclose : (ExitOp.exit positionId price now momentumExit emergencyExit draw).close policy
      s.ledger = some close) :
    PassRun config (Exits.checkExit s close.request) := by
  obtain ⟨hstored, hopen⟩ := exit_opened hclose
  refine h.checkExit hidle hstored hopen (fun hnone => ?_) ?_
  · exact le_antisymm (properClose hclose).fraction
      (not_lt.mp fun hpart => hquoted close hclose hpart hnone)
  · rw [hphase]
    trivial

theorem PassRun.step (h : PassRun config s) (op : PassOp)
    (hop : Regular policy s op ∧ AllQuoted s op) : PassRun config (s.step config policy op) := by
  cases op with
  | checkEntry req =>
      have hids := (hop.1 _ rfl).1
      simp only [PassState.step]
      split
      · rename_i hphase
        exact h.checkEntry hphase hids
      · exact h
  | commitEntry =>
      simp only [PassState.step]
      split
      · rename_i req hphase
        exact h.commitEntry hphase
      · exact h
  | bookEntry =>
      simp only [PassState.step]
      split
      · rename_i req quote committed hphase
        exact h.bookEntry hphase
      · exact h
  | listPositions =>
      simp only [PassState.step]
      split
      · rename_i hexit _
        exact h.listPositions hexit
      · exact h
  | quotePosition quote =>
      simp only [PassState.step]
      split
      · rename_i hexit hphase
        exact h.quotePosition hexit hphase quote.1
      · exact h
  | quoteFailed giveUp =>
      simp only [PassState.step]
      split
      · rename_i hexit hphase
        exact h.quoteFailed hexit hphase giveUp
      · exact h
  | mark now =>
      simp only [PassState.step]
      split
      · rename_i listed quoted hexit hphase
        refine h.markPass hexit hphase (fun hcomplete => ?_) now
        have hall := hop.2
        unfold AllQuoted at hall
        rw [hphase] at hall
        exact hall hcomplete
      · exact h
  | writeMarks =>
      simp only [PassState.step]
      split
      · rename_i snapshot values now hphase
        exact h.writeMarks hphase
      · exact h
  | exitPosition positionId price now momentumExit emergencyExit draw =>
      have hquoted := (hop.1 _ rfl).2
      simp only [PassState.step]
      split
      · rename_i hexit hphase
        split
        · exact h
        · rename_i close hclose
          exact h.exitPosition hexit hphase hquoted hclose
      · exact h
  | commitExit =>
      simp only [PassState.step]
      split
      · rename_i req hphase
        exact h.commitExit hphase
      · exact h
  | bookExit =>
      simp only [PassState.step]
      split
      · rename_i req committed hphase
        exact h.bookExit hphase
      · exact h

theorem PassRun.written (h : PassRun config s) (policy : ExitPolicy) {snapshot : LedgerState}
    {values : Dict String ℚ} {now : Time} (hphase : s.pass = .writing snapshot values now) :
    RowsAddUp (s.step config policy .writeMarks).db ∧
      UnquotedRowsKept (s.step config policy .writeMarks).db values := by
  obtain ⟨hidle, hsnapshot⟩ : s.exit = .idle ∧ Snapshot s.ledger s.db snapshot values := by
    have hpass := h.pass
    rw [hphase] at hpass
    exact hpass
  have hrows := h.rows
  rw [hidle] at hrows
  obtain ⟨account, hdb⟩ := h.writeMarks_db snapshot values now
  have hstep : (s.step config policy .writeMarks).db = s.db.marked account values snapshot now := by
    rw [← hdb]
    simp only [PassState.step, hphase]
  rw [hstep]
  exact ⟨hsnapshot.rowsAddUp hrows, hsnapshot.unquotedRowsKept⟩

/-- In every interleaving of the two loops in which each open position has a quote when the ledger
is marked, the write of the marks makes the account row show the sum of the open rows, and an open
row without a quote shows no loss. -/
theorem run_marks (config : BrokerConfig) (policy : ExitPolicy) (startingEquity : ℚ) (start : Time)
    (ops : List PassOp)
    (hrun : Along (fun s op => Regular policy s op ∧ AllQuoted s op) (PassState.step config policy)
      (PassState.init config startingEquity start) ops)
    (snapshot : LedgerState) (values : Dict String ℚ) (now : Time)
    (hphase : (exec (PassState.step config policy) (PassState.init config startingEquity start)
      ops).pass = .writing snapshot values now) :
    RowsAddUp (exec (PassState.step config policy) (PassState.init config startingEquity start)
        (ops ++ [.writeMarks])).db ∧
      UnquotedRowsKept (exec (PassState.step config policy)
        (PassState.init config startingEquity start) (ops ++ [.writeMarks])).db values := by
  have hreached := hrun.invariant (I := PassRun config) (fun _ op h hop => h.step op hop)
    (PassRun.init config startingEquity start)
  rw [exec_append]
  exact hreached.written policy hphase

/-- The second entry is committed while the quote is awaited and booked after the mark. -/
def lateBooking : List PassOp :=
  [.checkEntry sampleOpen, .commitEntry, .bookEntry, .listPositions, .checkEntry secondOpen,
    .commitEntry, .quotePosition (dollarsOf 30 thirty_pos),
    .mark (seconds 2), .bookEntry]

/-- The marks of a pass are being written. -/
def PassPhase.writes : PassPhase → Bool
  | .writing .. => true
  | _ => false

theorem run_marks_lateBooking :
    ∃ snapshot values now, (exec (PassState.step sampleBroker {})
        (PassState.init sampleBroker 500 0) lateBooking).pass = .writing snapshot values now ∧
      RowsAddUp (exec (PassState.step sampleBroker {}) (PassState.init sampleBroker 500 0)
        (lateBooking ++ [.writeMarks])).db ∧
      UnquotedRowsKept (exec (PassState.step sampleBroker {})
        (PassState.init sampleBroker 500 0) (lateBooking ++ [.writeMarks])).db values := by
  have hwriting : (exec (PassState.step sampleBroker {})
      (PassState.init sampleBroker 500 0) lateBooking).pass.writes = true := by decide +kernel
  cases hphase : (exec (PassState.step sampleBroker {})
      (PassState.init sampleBroker 500 0) lateBooking).pass with
  | writing snapshot values now =>
      exact ⟨snapshot, values, now, rfl, run_marks sampleBroker {} 500 0 lateBooking
        (by decide +kernel) snapshot values now hphase⟩
  | _ =>
      rw [hphase] at hwriting
      cases hwriting

end SniperBot.Exits
