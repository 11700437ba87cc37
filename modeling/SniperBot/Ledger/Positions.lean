import SniperBot.Ledger.State
import Mathlib.Tactic.Linarith
import Mathlib.Tactic.Ring

/-!
# Positions and indices of the ledger

Each operation is inverted once: what a successful `open_position` or `close_position` did to
the state (`openPosition_cases`, `closePosition_cases`). `WellFormed` ties the indices to the
stored positions: the token index holds exactly the open positions, every fill belongs to a
stored position, and a position is closed when nothing is left of it. Every operation keeps
it, provided that new positions get fresh ids.
-/

namespace SniperBot.Ledger

open Basis

variable {dateKey : Time → String} {s : LedgerState}

/-! ## What an operation can do -/

theorem position_ok {positionId : String} {position : PositionRecord}
    (h : s.position positionId = .ok position) : s.positions.get? positionId = some position := by
  unfold LedgerState.position at h
  split at h
  · cases h
    assumption
  · cases h

/-- A successful opening call returns an existing position and changes nothing, or books a new
one. -/
theorem openPosition_cases {args : OpenArgs} {next : LedgerState} {result : PositionRecord}
    (h : openPosition s args = .ok (next, result)) :
    next = s ∨
    ∃ valid, next = s.booked args valid ∧ result = args.newPosition ∧
      0 < args.usdAmount ∧ 0 < args.tokenAmount ∧
      s.orderIdIndex.get? args.orderId = none ∧ s.tokenPosition args.tokenMint = none := by
  unfold openPosition at h
  split at h
  · cases h
  · rename_i husd
    split at h
    · cases h
    · rename_i htoken
      split at h
      · rename_i existing _
        left
        cases hposition : s.position existing with
        | error e => rw [hposition] at h; cases h
        | ok position => rw [hposition] at h; cases h; rfl
      · rename_i horder
        split at h
        · rename_i existing _
          left
          cases hposition : s.position existing with
          | error e => rw [hposition] at h; cases h
          | ok position => rw [hposition] at h; cases h; rfl
        · rename_i hindex
          split at h
          · rename_i valid
            cases h
            exact Or.inr ⟨valid, rfl, rfl, not_le.mp husd, not_le.mp htoken, horder, hindex⟩
          · cases h

/-- A successful closing call changes nothing, or books an exit of the open position of the
mint. -/
theorem closePosition_cases {args : CloseArgs} {next : LedgerState} {result : PositionRecord}
    (h : closePosition dateKey s args = .ok (next, result)) :
    next = s ∨
    ∃ id position valid, next = s.exited dateKey args id position valid ∧
      s.tokenPosition args.tokenMint = some id ∧ s.positions.get? id = some position ∧
      position.status = .opened ∧ 0 ≤ args.usdReceived ∧ 0 < args.tokenClosed ∧
      args.tokenClosed ≤ position.remainingTokenAmount ∧
      s.closeOrderIdIndex.get? args.orderId = none := by
  unfold closePosition at h
  split at h
  · cases h
  · rename_i hneg
    obtain ⟨husd, htoken⟩ := not_or.mp hneg
    split at h
    · cases h
    · rename_i hzero
      split at h
      · rename_i existing _
        left
        cases hposition : s.position existing with
        | error e => rw [hposition] at h; cases h
        | ok position => rw [hposition] at h; cases h; rfl
      · rename_i horder
        split at h
        · cases h
        · rename_i id hindex
          cases hposition : s.position id with
          | error e => rw [hposition] at h; cases h
          | ok position =>
              rw [hposition] at h
              simp only [bind, Except.bind] at h
              split at h
              · cases h
                exact Or.inl rfl
              · rename_i hstatus
                split at h
                · cases h
                · rename_i hexceeds
                  split at h
                  · rename_i valid
                    cases h
                    exact Or.inr ⟨id, position, valid, rfl, hindex, position_ok hposition,
                      not_not.mp hstatus, not_lt.mp husd,
                      lt_of_le_of_ne (not_lt.mp htoken) (Ne.symm hzero), not_lt.mp hexceeds,
                      horder⟩
                  · cases h

/-! ## Indices and positions -/

/-- The indices agree with the stored positions. -/
structure WellFormed (s : LedgerState) : Prop where
  /-- every fill belongs to a stored position -/
  fillPosition : ∀ fill ∈ s.fills, ∃ p, s.positions.get? fill.positionId = some p
  /-- the token index points to open positions of its mint -/
  indexOpen : ∀ mint id, s.tokenIndex.get? mint = some id →
    id ≠ "" ∧ ∃ p, s.positions.get? id = some p ∧ p.tokenMint = mint ∧ p.status = .opened
  /-- every open position is in the token index -/
  openIndexed : ∀ id p, s.positions.get? id = some p → p.status = .opened →
    s.tokenIndex.get? p.tokenMint = some id
  /-- an open position has tokens left, and the cost of a closed one is spent -/
  openTokens : ∀ id p, s.positions.get? id = some p → p.status = .opened →
    0 < p.remainingTokenAmount
  closedTokens : ∀ id p, s.positions.get? id = some p → p.status = .closed →
    p.remainingTokenAmount = 0 ∧ p.remainingCostUsd = 0

theorem WellFormed.init (starting : ℚ) : WellFormed (LedgerState.init starting) := by
  constructor <;> simp [LedgerState.init]

/-- With agreeing indices the ids of the token index are never empty. -/
theorem WellFormed.tokenPosition_eq (h : WellFormed s) (mint : String) :
    s.tokenPosition mint = s.tokenIndex.get? mint := by
  unfold LedgerState.tokenPosition
  cases hget : s.tokenIndex.get? mint with
  | none => rfl
  | some id => simp [Option.filter, (h.indexOpen mint id hget).1]

theorem tokenPosition_some {mint id : String} (h : s.tokenPosition mint = some id) :
    s.tokenIndex.get? mint = some id := by
  unfold LedgerState.tokenPosition at h
  exact (Option.filter_eq_some_iff.mp h).1

/-- A mint without an index entry has no open position. -/
theorem WellFormed.no_open_position (h : WellFormed s) {mint : String}
    (hnone : s.tokenPosition mint = none) {id : String} {p : PositionRecord}
    (hget : s.positions.get? id = some p) (hopen : p.status = .opened) : p.tokenMint ≠ mint := by
  rintro rfl
  rw [h.tokenPosition_eq, h.openIndexed id p hget hopen] at hnone
  cases hnone

theorem mem_openPositions {p : PositionRecord} :
    p ∈ s.openPositions ↔ ∃ id, s.positions.get? id = some p ∧ p.status = .opened := by
  simp only [LedgerState.openPositions, List.mem_filter, Dict.mem_values, decide_eq_true_eq]
  constructor
  · rintro ⟨⟨id, hget⟩, hopen⟩
    exact ⟨id, hget, hopen⟩
  · rintro ⟨id, hget, hopen⟩
    exact ⟨⟨id, hget⟩, hopen⟩

theorem length_openPositions (s : LedgerState) : s.openPositions.length =
    (s.positions.entries.filter fun e => e.2.status = .opened).length := by
  rw [LedgerState.openPositions, Dict.values, List.filter_map, List.length_map]
  rfl

/-- Positions that carry their key as id have pairwise different ids. -/
theorem openPositions_ids_nodup
    (hids : ∀ id p, s.positions.get? id = some p → p.positionId = id) :
    (s.openPositions.map (·.positionId)).Nodup := by
  have hkeys : s.positions.values.map (·.positionId) = s.positions.keys := by
    rw [Dict.values, Dict.keys, List.map_map]
    apply List.map_congr_left
    intro e he
    exact hids e.1 e.2 (Dict.mem_entries.mp he)
  have hnodup : (s.positions.values.map (·.positionId)).Nodup := hkeys ▸ s.positions.nodup
  exact hnodup.sublist (List.filter_sublist.map _)

/-- Open positions have pairwise different mints. -/
theorem WellFormed.openPositions_mints_nodup (h : WellFormed s)
    (hids : ∀ id p, s.positions.get? id = some p → p.positionId = id) :
    (s.openPositions.map (·.tokenMint)).Nodup := by
  refine List.Nodup.map_on ?_ (List.Nodup.of_map _ (openPositions_ids_nodup hids))
  intro p hp q hq hmint
  obtain ⟨i, hi, hopeni⟩ := mem_openPositions.mp hp
  obtain ⟨j, hj, hopenj⟩ := mem_openPositions.mp hq
  have hindexi := h.openIndexed i p hi hopeni
  have hindexj := h.openIndexed j q hj hopenj
  rw [hmint, hindexj] at hindexi
  cases hindexi
  rw [hi] at hj
  exact Option.some.inj hj

/-- The premises under which `open_position` books a new position, with a fresh id. -/
structure BookCase (s : LedgerState) (args : OpenArgs) : Prop where
  usd : 0 < args.usdAmount
  token : 0 < args.tokenAmount
  newOrder : s.orderIdIndex.get? args.orderId = none
  freeMint : s.tokenPosition args.tokenMint = none
  idNonempty : args.positionId ≠ ""
  freshId : s.positions.get? args.positionId = none

/-- Under these premises and with valid costs the position is booked. -/
theorem BookCase.openPosition_eq {args : OpenArgs} (h : BookCase s args)
    (valid : args.costs.Valid) :
    openPosition s args = .ok (s.booked args valid, args.newPosition) := by
  unfold openPosition
  rw [if_neg (not_le.mpr h.usd), if_neg (not_le.mpr h.token), h.newOrder, h.freeMint]
  exact dif_pos valid

theorem WellFormed.booked (h : WellFormed s) {args : OpenArgs} (valid : args.costs.Valid)
    (hbook : BookCase s args) : WellFormed (s.booked args valid) := by
  have hfresh := hbook.freshId
  -- a stored position is the new one or an old one under another id
  have hcases : ∀ id p, (s.positions.set args.positionId args.newPosition).get? id = some p →
      (id = args.positionId ∧ p = args.newPosition) ∨
      (args.positionId ≠ id ∧ s.positions.get? id = some p) := by
    intro id p hget
    rw [Dict.get?_set] at hget
    split at hget
    · rename_i heq
      cases hget
      exact Or.inl ⟨heq.symm, rfl⟩
    · rename_i hne
      exact Or.inr ⟨hne, hget⟩
  constructor
  · intro fill hfill
    rcases List.mem_append.mp hfill with hold | hnew
    · obtain ⟨p, hp⟩ := h.fillPosition fill hold
      have hne : args.positionId ≠ fill.positionId := by
        intro heq
        rw [heq, hp] at hfresh
        cases hfresh
      exact ⟨p, by simpa only [LedgerState.booked, Dict.get?_set_ne _ hne] using hp⟩
    · rw [List.mem_singleton.mp hnew]
      exact ⟨args.newPosition, Dict.get?_set_self _ _ _⟩
  · intro mint id hget
    simp only [LedgerState.booked] at hget ⊢
    rw [Dict.get?_set] at hget
    split at hget
    · rename_i heq
      cases hget
      exact ⟨hbook.idNonempty, args.newPosition, Dict.get?_set_self _ _ _, heq, rfl⟩
    · obtain ⟨hne, p, hp, hm, ho⟩ := h.indexOpen mint id hget
      have hother : args.positionId ≠ id := by
        rintro rfl
        rw [hp] at hfresh
        cases hfresh
      exact ⟨hne, p, by rw [Dict.get?_set_ne _ hother]; exact hp, hm, ho⟩
  · intro id p hget hopen
    simp only [LedgerState.booked] at hget ⊢
    rcases hcases id p hget with ⟨rfl, rfl⟩ | ⟨-, hold⟩
    · exact Dict.get?_set_self _ _ _
    · have hne := h.no_open_position hbook.freeMint hold hopen
      rw [Dict.get?_set_ne _ (Ne.symm hne)]
      exact h.openIndexed id p hold hopen
  · intro id p hget hopen
    rcases hcases id p hget with ⟨rfl, rfl⟩ | ⟨-, hold⟩
    · exact hbook.token
    · exact h.openTokens id p hold hopen
  · intro id p hget hclosed
    rcases hcases id p hget with ⟨rfl, rfl⟩ | ⟨-, hold⟩
    · cases hclosed
    · exact h.closedTokens id p hold hclosed

/-! ### Exits -/

section Exit

variable {args : CloseArgs} {position : PositionRecord}

@[simp] theorem closedPosition_positionId :
    (args.closedPosition position).positionId = position.positionId := by
  unfold CloseArgs.closedPosition
  split <;> rfl

@[simp] theorem closedPosition_tokenMint :
    (args.closedPosition position).tokenMint = position.tokenMint := by
  unfold CloseArgs.closedPosition
  split <;> rfl

@[simp] theorem closedPosition_entryTokenAmount :
    (args.closedPosition position).entryTokenAmount = position.entryTokenAmount := by
  unfold CloseArgs.closedPosition
  split <;> rfl

@[simp] theorem closedPosition_remainingTokenAmount :
    (args.closedPosition position).remainingTokenAmount =
      position.remainingTokenAmount - args.tokenClosed := by
  unfold CloseArgs.closedPosition
  split <;> rfl

@[simp] theorem closedPosition_remainingCostUsd :
    (args.closedPosition position).remainingCostUsd =
      position.remainingCostUsd - args.proportionalCost position := by
  unfold CloseArgs.closedPosition
  split <;> rfl

@[simp] theorem closedPosition_realizedPnlUsd :
    (args.closedPosition position).realizedPnlUsd =
      position.realizedPnlUsd + args.realizedDelta position := by
  unfold CloseArgs.closedPosition
  split <;> rfl

theorem closedPosition_status (hopen : position.status = .opened) :
    (args.closedPosition position).status = if args.Final position then .closed else .opened := by
  unfold CloseArgs.closedPosition
  split
  · rfl
  · exact hopen

theorem final_iff (hclosed : args.tokenClosed ≤ position.remainingTokenAmount) :
    args.Final position ↔ args.tokenClosed = position.remainingTokenAmount := by
  unfold CloseArgs.Final
  simp only [CloseArgs.reduced]
  constructor
  · intro h
    linarith
  · intro h
    linarith

/-- A final exit sells the whole position, so all of its cost is spent. -/
theorem proportionalCost_of_final (hopen : 0 < position.remainingTokenAmount)
    (hclosed : args.tokenClosed ≤ position.remainingTokenAmount) (hfinal : args.Final position) :
    args.proportionalCost position = position.remainingCostUsd := by
  have hall := (final_iff hclosed).mp hfinal
  rw [CloseArgs.proportionalCost, CloseArgs.closedFraction, hall, div_self hopen.ne', mul_one]

/-- The cost basis of the exit fill, times the tokens sold, is the cost taken out. -/
theorem costBasis_mul_tokenClosed (hopen : 0 < position.remainingTokenAmount) (id : String)
    (valid : args.costs.Valid) :
    (args.closeFill position id valid).costBasisUsd * args.tokenClosed =
      args.proportionalCost position := by
  have hne : position.remainingTokenAmount ≠ 0 := hopen.ne'
  simp only [CloseArgs.closeFill, CloseArgs.proportionalCost, CloseArgs.closedFraction,
    if_pos hne]
  ring

end Exit

/-- The premises under which `close_position` books an exit. -/
structure ExitCase (s : LedgerState) (args : CloseArgs) (id : String) (position : PositionRecord) :
    Prop where
  indexed : s.tokenIndex.get? args.tokenMint = some id
  stored : s.positions.get? id = some position
  opened : position.status = .opened
  received : 0 ≤ args.usdReceived
  sold : 0 < args.tokenClosed
  available : args.tokenClosed ≤ position.remainingTokenAmount
  newOrder : s.closeOrderIdIndex.get? args.orderId = none

namespace ExitCase

variable {args : CloseArgs} {id : String} {position : PositionRecord}

theorem remaining_pos (h : ExitCase s args id position) : 0 < position.remainingTokenAmount :=
  h.sold.trans_le h.available

/-- Under these premises and with valid costs the exit is booked. -/
theorem closePosition_eq (dateKey : Time → String) (h : ExitCase s args id position)
    (hs : WellFormed s) (valid : args.costs.Valid) :
    closePosition dateKey s args =
      .ok (s.exited dateKey args id position valid, args.closedPosition position) := by
  have hamounts : ¬ (args.usdReceived < 0 ∨ args.tokenClosed < 0) :=
    not_or.mpr ⟨not_lt.mpr h.received, not_lt.mpr h.sold.le⟩
  have hposition : s.position id = .ok position := by
    rw [LedgerState.position, h.stored]
  unfold closePosition
  rw [if_neg hamounts, if_neg h.sold.ne', h.newOrder, hs.tokenPosition_eq, h.indexed]
  simp only [hposition, bind, Except.bind, h.opened, ne_eq, not_true_eq_false, if_false,
    if_neg (not_lt.mpr h.available), dif_pos valid]
  rfl

theorem tokenMint_eq (h : ExitCase s args id position) (hs : WellFormed s) :
    position.tokenMint = args.tokenMint := by
  obtain ⟨-, p, hp, hmint, -⟩ := hs.indexOpen _ _ h.indexed
  rw [h.stored] at hp
  cases hp
  exact hmint

/-- A position stored after the exit is the reduced one or an old one under another id. -/
theorem stored_cases (_ : ExitCase s args id position) {j : String} {p : PositionRecord}
    (hget : (s.positions.set id (args.closedPosition position)).get? j = some p) :
    (j = id ∧ p = args.closedPosition position) ∨ (id ≠ j ∧ s.positions.get? j = some p) := by
  rw [Dict.get?_set] at hget
  split at hget
  · rename_i heq
    cases hget
    exact Or.inl ⟨heq.symm, rfl⟩
  · rename_i hne
    exact Or.inr ⟨hne, hget⟩

end ExitCase

theorem WellFormed.exited (h : WellFormed s) {args : CloseArgs} {id : String}
    {position : PositionRecord} (valid : args.costs.Valid) (hexit : ExitCase s args id position) :
    WellFormed (s.exited dateKey args id position valid) := by
  have hmint := hexit.tokenMint_eq h
  have hremaining := hexit.remaining_pos
  have hstatus : (args.closedPosition position).status =
      if args.Final position then .closed else .opened := closedPosition_status hexit.opened
  -- an open position of another mint is stored under another id
  have hother : ∀ mint j, s.tokenIndex.get? mint = some j → args.tokenMint ≠ mint → id ≠ j := by
    rintro mint j hj hne rfl
    obtain ⟨-, p, hp, hm, -⟩ := h.indexOpen mint id hj
    rw [hexit.stored] at hp
    cases hp
    exact hne (hmint.symm.trans hm)
  constructor
  · intro fill hfill
    simp only [LedgerState.exited] at hfill ⊢
    rcases List.mem_append.mp hfill with hold | hnew
    · obtain ⟨p, hp⟩ := h.fillPosition fill hold
      rw [Dict.get?_set]
      split
      · exact ⟨_, rfl⟩
      · exact ⟨p, hp⟩
    · rw [List.mem_singleton.mp hnew]
      exact ⟨_, Dict.get?_set_self _ _ _⟩
  · intro mint j hget
    simp only [LedgerState.exited] at hget ⊢
    split at hget
    · -- final: the index entry of the mint is gone
      rw [Dict.get?_erase] at hget
      split at hget
      · cases hget
      · rename_i hne
        obtain ⟨hj, p, hp, hm, ho⟩ := h.indexOpen mint j hget
        exact ⟨hj, p, by rw [Dict.get?_set_ne _ (hother mint j hget hne)]; exact hp, hm, ho⟩
    · rename_i hfinal
      obtain ⟨hj, p, hp, hm, ho⟩ := h.indexOpen mint j hget
      refine ⟨hj, ?_⟩
      by_cases hij : id = j
      · subst hij
        rw [hexit.stored] at hp
        cases hp
        exact ⟨_, Dict.get?_set_self _ _ _, by rw [closedPosition_tokenMint, hm],
          by rw [hstatus, if_neg hfinal]⟩
      · exact ⟨p, by rw [Dict.get?_set_ne _ hij]; exact hp, hm, ho⟩
  · intro j p hget hopen
    simp only [LedgerState.exited] at hget ⊢
    rcases hexit.stored_cases hget with ⟨rfl, rfl⟩ | ⟨hne, hold⟩
    · have hfinal : ¬ args.Final position := by
        intro hfinal
        rw [hstatus, if_pos hfinal] at hopen
        cases hopen
      rw [if_neg hfinal, closedPosition_tokenMint, hmint]
      exact hexit.indexed
    · have hindex := h.openIndexed j p hold hopen
      split
      · rw [Dict.get?_erase, if_neg]
        · exact hindex
        · intro heq
          rw [← heq, hexit.indexed] at hindex
          exact hne (Option.some.inj hindex)
      · exact hindex
  · intro j p hget hopen
    simp only [LedgerState.exited] at hget
    rcases hexit.stored_cases hget with ⟨rfl, rfl⟩ | ⟨-, hold⟩
    · have hfinal : ¬ args.Final position := by
        intro hfinal
        rw [hstatus, if_pos hfinal] at hopen
        cases hopen
      rw [closedPosition_remainingTokenAmount]
      exact not_le.mp hfinal
    · exact h.openTokens j p hold hopen
  · intro j p hget hclosed
    simp only [LedgerState.exited] at hget
    rcases hexit.stored_cases hget with ⟨rfl, rfl⟩ | ⟨-, hold⟩
    · have hfinal : args.Final position := by
        by_contra hfinal
        rw [hstatus, if_neg hfinal] at hclosed
        cases hclosed
      rw [closedPosition_remainingTokenAmount, closedPosition_remainingCostUsd,
        proportionalCost_of_final hremaining hexit.available hfinal,
        (final_iff hexit.available).mp hfinal]
      exact ⟨sub_self _, sub_self _⟩
    · exact h.closedTokens j p hold hclosed

/-! ### Marks -/

section Mark

variable {prices : Dict String ℚ} {markTime : Time} {position : PositionRecord}

/-- A mark only writes the valuation fields. -/
theorem markPosition_frame :
    (markPosition prices markTime position).tokenMint = position.tokenMint ∧
    (markPosition prices markTime position).status = position.status ∧
    (markPosition prices markTime position).entryTokenAmount = position.entryTokenAmount ∧
    (markPosition prices markTime position).remainingTokenAmount = position.remainingTokenAmount ∧
    (markPosition prices markTime position).remainingCostUsd = position.remainingCostUsd ∧
    (markPosition prices markTime position).realizedPnlUsd = position.realizedPnlUsd ∧
    (markPosition prices markTime position).positionId = position.positionId := by
  unfold markPosition
  split
  · exact ⟨rfl, rfl, rfl, rfl, rfl, rfl, rfl⟩
  · split <;> exact ⟨rfl, rfl, rfl, rfl, rfl, rfl, rfl⟩

@[simp] theorem markPosition_tokenMint :
    (markPosition prices markTime position).tokenMint = position.tokenMint :=
  markPosition_frame.1

@[simp] theorem markPosition_status :
    (markPosition prices markTime position).status = position.status :=
  markPosition_frame.2.1

@[simp] theorem markPosition_entryTokenAmount :
    (markPosition prices markTime position).entryTokenAmount = position.entryTokenAmount :=
  markPosition_frame.2.2.1

@[simp] theorem markPosition_remainingTokenAmount :
    (markPosition prices markTime position).remainingTokenAmount = position.remainingTokenAmount :=
  markPosition_frame.2.2.2.1

@[simp] theorem markPosition_remainingCostUsd :
    (markPosition prices markTime position).remainingCostUsd = position.remainingCostUsd :=
  markPosition_frame.2.2.2.2.1

@[simp] theorem markPosition_realizedPnlUsd :
    (markPosition prices markTime position).realizedPnlUsd = position.realizedPnlUsd :=
  markPosition_frame.2.2.2.2.2.1

@[simp] theorem markPosition_positionId :
    (markPosition prices markTime position).positionId = position.positionId :=
  markPosition_frame.2.2.2.2.2.2

end Mark

/-- The positions after a mark are the marked old ones. -/
theorem get?_markToMarket {prices : Dict String ℚ} {at' : Time} {id : String} {p : PositionRecord}
    (h : (markToMarket dateKey s prices at').positions.get? id = some p) :
    ∃ old, s.positions.get? id = some old ∧ p = markPosition prices at' old := by
  simp only [markToMarket, Dict.get?_mapValues, Option.map_eq_some_iff] at h
  obtain ⟨old, hold, rfl⟩ := h
  exact ⟨old, hold, rfl⟩

theorem WellFormed.marked (h : WellFormed s) (prices : Dict String ℚ) (at' : Time) :
    WellFormed (markToMarket dateKey s prices at') := by
  have hmark : ∀ id p, s.positions.get? id = some p →
      (markToMarket dateKey s prices at').positions.get? id = some (markPosition prices at' p) := by
    intro id p hp
    simp only [markToMarket, Dict.get?_mapValues, hp, Option.map_some]
  constructor
  · intro fill hfill
    obtain ⟨p, hp⟩ := h.fillPosition fill hfill
    exact ⟨_, hmark _ _ hp⟩
  · intro mint id hget
    obtain ⟨hid, p, hp, hm, ho⟩ := h.indexOpen mint id hget
    exact ⟨hid, _, hmark _ _ hp, by simpa using hm, by simpa using ho⟩
  · intro id p hget hopen
    obtain ⟨old, hold, rfl⟩ := get?_markToMarket hget
    rw [markPosition_status] at hopen
    rw [markPosition_tokenMint]
    exact h.openIndexed id old hold hopen
  · intro id p hget hopen
    obtain ⟨old, hold, rfl⟩ := get?_markToMarket hget
    rw [markPosition_status] at hopen
    rw [markPosition_remainingTokenAmount]
    exact h.openTokens id old hold hopen
  · intro id p hget hclosed
    obtain ⟨old, hold, rfl⟩ := get?_markToMarket hget
    rw [markPosition_status] at hclosed
    rw [markPosition_remainingTokenAmount, markPosition_remainingCostUsd]
    exact h.closedTokens id old hold hclosed

/-! ## One step -/

/-- A new position gets an id that is not in use, as the id factory provides. -/
def FreshId (s : LedgerState) : LedgerOp → Prop
  | .openPosition args => args.positionId ≠ "" ∧ s.positions.get? args.positionId = none
  | _ => True

instance (s : LedgerState) : (op : LedgerOp) → Decidable (FreshId s op)
  | .openPosition _ => inferInstanceAs (Decidable (_ ∧ _))
  | .closePosition _ => inferInstanceAs (Decidable True)
  | .markToMarket _ _ => inferInstanceAs (Decidable True)

theorem apply_open_cases (dateKey : Time → String) {args : OpenArgs}
    (hfresh : FreshId s (.openPosition args)) :
    s.apply dateKey (.openPosition args) = s ∨
    ∃ valid, s.apply dateKey (.openPosition args) = s.booked args valid ∧ BookCase s args := by
  simp only [LedgerState.apply]
  split
  · rename_i next result hok
    rcases openPosition_cases hok with rfl | ⟨valid, rfl, -, husd, htoken, horder, hmint⟩
    · exact Or.inl rfl
    · exact Or.inr ⟨valid, rfl, husd, htoken, horder, hmint, hfresh.1, hfresh.2⟩
  · exact Or.inl rfl

theorem apply_close_cases (dateKey : Time → String) (s : LedgerState) (args : CloseArgs) :
    s.apply dateKey (.closePosition args) = s ∨
    ∃ id position valid,
      s.apply dateKey (.closePosition args) = s.exited dateKey args id position valid ∧
      ExitCase s args id position := by
  simp only [LedgerState.apply]
  split
  · rename_i next result hok
    rcases closePosition_cases hok with
      rfl | ⟨id, position, valid, rfl, hindex, hget, hopen, husd, hsold, havailable, horder⟩
    · exact Or.inl rfl
    · exact Or.inr ⟨id, position, valid, rfl, tokenPosition_some hindex, hget, hopen, husd, hsold,
        havailable, horder⟩
  · exact Or.inl rfl

/-- To show a property of the state after an operation, show it of the old state and of the
state after a booking, an exit and a mark. -/
theorem apply_rule {P : LedgerState → Prop} {op : LedgerOp} (hfresh : FreshId s op) (hsame : P s)
    (hbook : ∀ args valid, BookCase s args → P (s.booked args valid))
    (hexit : ∀ args id position valid, ExitCase s args id position →
      P (s.exited dateKey args id position valid))
    (hmark : ∀ prices at', P (markToMarket dateKey s prices at')) : P (s.apply dateKey op) := by
  cases op with
  | openPosition args =>
      rcases apply_open_cases dateKey hfresh with heq | ⟨valid, heq, hcase⟩
      · rw [heq]
        exact hsame
      · rw [heq]
        exact hbook args valid hcase
  | closePosition args =>
      rcases apply_close_cases dateKey s args with heq | ⟨id, position, valid, heq, hcase⟩
      · rw [heq]
        exact hsame
      · rw [heq]
        exact hexit args id position valid hcase
  | markToMarket prices at' => exact hmark prices at'

theorem WellFormed.apply (h : WellFormed s) (op : LedgerOp) (hfresh : FreshId s op) :
    WellFormed (s.apply dateKey op) :=
  apply_rule hfresh h (fun _ valid hcase => h.booked valid hcase)
    (fun _ _ _ valid hcase => h.exited valid hcase) h.marked

end SniperBot.Ledger
