import SniperBot.Runtime.Owners

/-!
# Open positions and their candidates

As long as a restart finds every open position with a stored candidate that holds a position, the
candidate of an open position is in one of the position states in every reachable state
(`run_follows`), and the swaps of its pool are applied. The copies of a running pass are as good as
the map (`Followed`), and a position that is given up is gone when its candidate is closed
(`ClosingFollowed`).

After a crash between the commit of an entry and the write of its candidate the candidate is
`ENTRY_PENDING` again, and each branch of the next pass rejects it
(`crashed_entry_rejected`).
-/

namespace SniperBot.Runtime

open Basis Ledger Risk Paper Exits Security Candidates Features

/-! ## The candidates -/

/-- With a position no branch of the state machine applies. -/
theorem call_holds {machine : CandidateStateMachine} {candidate : Candidate}
    (hholds : HoldsPosition candidate.state) (input : EvaluateInput) :
    machine.call candidate input = .ok candidate := by
  unfold CandidateStateMachine.call CandidateStateMachine.evaluate
  dsimp only
  have hkeeps : CandidateStateMachine.keepsPastExpiry candidate.state := by
    revert hholds
    cases candidate.state <;> decide
  have hlate : candidate.state ∉ [CandidateState.eligible, .waitingPullback, .armed,
      .entryPending] := by
    revert hholds
    cases candidate.state <;> decide
  rw [if_neg fun h => h.1 hkeeps, if_neg fun h => hlate h.2]
  revert hholds
  cases candidate.state <;> first | exact fun _ => rfl | (intro h; exact absurd h (by decide))

theorem evaluateArmed_cases (candidate : Candidate) (snapshot : Candidates.FeatureSnapshot)
    (at' : Time) :
    CandidateStateMachine.evaluateArmed candidate snapshot at' =
        transition { candidate with entrySignalEmitted := true } .entryPending at' ∨
      CandidateStateMachine.evaluateArmed candidate snapshot at' =
        .ok (rememberPrices candidate snapshot at') := by
  unfold CandidateStateMachine.evaluateArmed
  exact ite_eq_or_eq _ _ _

theorem call_candidateId {machine : CandidateStateMachine} {candidate next : Candidate}
    {input : EvaluateInput} (h : machine.call candidate input = .ok next) :
    next.candidateId = candidate.candidateId := by
  obtain ⟨snapshot, security, score, sellRouteAvailable, devSold⟩ := input
  have hreject : ∀ {result : SecurityResult}, (do
      let reason ← firstReason result
      transition candidate .rejected snapshot.snapshotTime (some reason)) = .ok next →
      next.candidateId = candidate.candidateId := by
    intro result hnext
    cases hfirst : firstReason result with
    | error e =>
        rw [hfirst] at hnext
        cases hnext
    | ok reason =>
        rw [hfirst] at hnext
        exact (transition_spec hnext).2.2.1
  unfold CandidateStateMachine.call CandidateStateMachine.evaluate at h
  dsimp only at h
  split at h
  · exact (transition_spec h).2.2.1
  · split at h
    · rename_i hhard
      cases security with
      | none => cases hhard.1
      | some result => exact hreject h
    · split at h
      case h_1 => exact (transition_spec h).2.2.1
      case h_2 =>
        split at h
        · exact (transition_spec h).2.2.1
        · cases h
          rfl
      case h_3 =>
        split at h
        · cases h
          rfl
        · split at h
          · exact hreject h
          · exact (transition_spec h).2.2.1
      case h_4 => exact (transition_spec h).2.2.1
      case h_5 =>
        unfold CandidateStateMachine.evaluateWaiting at h
        dsimp only at h
        split at h
        · exact (transition_spec h).2.2.1
        · split at h
          · exact (transition_spec h).2.2.1
          · cases h
            rfl
      case h_6 =>
        rcases evaluateArmed_cases candidate snapshot snapshot.snapshotTime with heq | heq
        · rw [heq] at h
          exact (transition_spec h).2.2.1
        · rw [heq] at h
          cases h
          rfl
      case h_7 =>
        cases h
        rfl

theorem passResult_candidateId {machine : CandidateStateMachine} {copy next : Candidate}
    {input : PassInput} (h : passResult machine copy input = .ok next) :
    next.candidateId = copy.candidateId := by
  unfold passResult at h
  split at h
  · unfold decideEntry at h
    dsimp only at h
    split at h
    · exact (transition_spec h).2.2.1
    · split at h
      · exact (transition_spec h).2.2.1
      · split at h
        · cases h
          rfl
        · exact (transition_spec h).2.2.1
        · exact (transition_spec h).2.2.1
  · exact call_candidateId h

/-- The result for a copy with a position has one. -/
theorem passResult_holds {machine : CandidateStateMachine} {copy next : Candidate}
    {input : PassInput} (hholds : HoldsPosition copy.state)
    (h : passResult machine copy input = .ok next) : HoldsPosition next.state := by
  unfold passResult at h
  have hnot : copy.state ≠ .entryPending := by
    intro heq
    rw [heq] at hholds
    revert hholds
    decide
  rw [if_neg hnot, call_holds hholds] at h
  cases h
  exact hholds

/-- The candidates beside the open positions, in the map and in the running pass. -/
structure Followed (ledger : LedgerState) (pipeline : Pipeline) : Prop where
  stored : ∀ c id, OpenFor ledger c id →
    ∃ candidate, pipeline.candidates.get? c = some candidate ∧ HoldsPosition candidate.state
  copies : ∀ c id copy, OpenFor ledger c id → (c, copy) ∈ pipeline.pass → HoldsPosition copy.state
  keyed : ∀ c candidate, pipeline.candidates.get? c = some candidate → candidate.candidateId = c
  copied : ∀ c copy, (c, copy) ∈ pipeline.pass → copy.candidateId = c
  nodup : (pipeline.pass.map Prod.fst).Nodup

section Followed

variable {ledger : LedgerState} {pipeline : Pipeline}

theorem Followed.of_openFor (h : Followed ledger pipeline) {next : LedgerState}
    (hopen : ∀ c id, OpenFor next c id → OpenFor ledger c id) : Followed next pipeline :=
  ⟨fun c id hfor => h.stored c id (hopen c id hfor),
    fun c id copy hfor => h.copies c id copy (hopen c id hfor), h.keyed, h.copied, h.nodup⟩

/-- A candidate is kept in the map. -/
theorem Followed.put (h : Followed ledger pipeline) {c : String} {next : Candidate}
    (hkey : next.candidateId = c) (hstate : ∀ id, OpenFor ledger c id → HoldsPosition next.state) :
    Followed ledger { pipeline with candidates := pipeline.candidates.set c next } := by
  refine ⟨?_, h.copies, ?_, h.copied, h.nodup⟩
  · intro d id hopen
    by_cases hcd : c = d
    · subst hcd
      exact ⟨next, Dict.get?_set_self _ _ _, hstate id hopen⟩
    · rw [Dict.get?_set_ne _ hcd]
      exact h.stored d id hopen
  · intro d candidate hget
    rw [Dict.get?_set] at hget
    split at hget
    · rename_i heq
      cases hget
      exact hkey.trans heq
    · exact h.keyed d candidate hget

theorem Followed.rest (h : Followed ledger pipeline) {c : String} {copy : Candidate}
    {rest : List (String × Candidate)} (hpass : pipeline.pass = (c, copy) :: rest) :
    Followed ledger { pipeline with pass := rest } := by
  have hmem : ∀ e ∈ rest, e ∈ pipeline.pass := fun e he => hpass ▸ List.mem_cons_of_mem _ he
  refine ⟨h.stored, fun d id other hopen he => h.copies d id other hopen (hmem _ he), h.keyed,
    fun d other he => h.copied d other (hmem _ he), ?_⟩
  have hnodup := h.nodup
  rw [hpass, List.map_cons, List.nodup_cons] at hnodup
  exact hnodup.2

theorem Followed.stopped (h : Followed ledger pipeline) :
    Followed ledger { pipeline with pass := [] } :=
  ⟨h.stored, fun _ _ _ _ he => absurd he List.not_mem_nil, h.keyed,
    fun _ _ he => absurd he List.not_mem_nil, List.nodup_nil⟩

theorem Followed.started (h : Followed ledger pipeline) :
    Followed ledger { pipeline with pass := pipeline.candidates.entries } := by
  refine ⟨h.stored, ?_, h.keyed, ?_, pipeline.candidates.nodup⟩
  · intro c id copy hopen he
    obtain ⟨candidate, hget, hholds⟩ := h.stored c id hopen
    rw [Dict.mem_entries.mp he] at hget
    cases hget
    exact hholds
  · intro c copy he
    exact h.keyed c copy (Dict.mem_entries.mp he)

theorem Followed.discovered (h : Followed ledger pipeline) {c : String} {candidate : Candidate}
    (hkey : candidate.candidateId = c) :
    Followed ledger { pipeline with candidates := pipeline.candidates.setDefault c candidate } := by
  unfold Dict.setDefault
  split
  · exact h
  · rename_i hnew
    refine h.put hkey fun id hopen => ?_
    obtain ⟨found, hget, -⟩ := h.stored c id hopen
    exact absurd (Dict.contains_eq_true.mpr ⟨found, hget⟩) hnew

/-- A position of the next candidate of the pass is booked, and its copy is in a position state. -/
theorem Followed.booked (h : Followed ledger pipeline) {c : String} {copy next : Candidate}
    {rest : List (String × Candidate)} (hpass : pipeline.pass = (c, copy) :: rest)
    {booked : LedgerState} (hkey : next.candidateId = c) (hholds : HoldsPosition next.state)
    (hopen : ∀ d id, OpenFor booked d id → d = c ∨ OpenFor ledger d id) :
    Followed booked ⟨pipeline.candidates.set c next, rest⟩ := by
  have hrest := h.rest hpass
  have hnodup := h.nodup
  rw [hpass, List.map_cons, List.nodup_cons] at hnodup
  refine ⟨?_, ?_, ?_, hrest.copied, hrest.nodup⟩
  · intro d id hfor
    by_cases hcd : c = d
    · subst hcd
      exact ⟨next, Dict.get?_set_self _ _ _, hholds⟩
    · rw [Dict.get?_set_ne _ hcd]
      exact h.stored d id ((hopen d id hfor).resolve_left (Ne.symm hcd))
  · intro d id other hfor he
    rcases hopen d id hfor with rfl | hold
    · exact absurd (List.mem_map_of_mem he) hnodup.1
    · exact hrest.copies d id other hold he
  · intro d candidate hget
    rw [Dict.get?_set] at hget
    split at hget
    · rename_i heq
      cases hget
      exact hkey.trans heq
    · exact h.keyed d candidate hget

/-- A candidate that waits for its entry has no open position. -/
theorem Followed.waiting (h : Followed ledger pipeline) {c : String} {copy : Candidate}
    {rest : List (String × Candidate)} (hpass : pipeline.pass = (c, copy) :: rest)
    (hstate : copy.state = .entryPending) (id : String) : ¬ OpenFor ledger c id := by
  intro hopen
  have hholds := h.copies c id copy hopen (hpass ▸ List.mem_cons_self)
  rw [hstate] at hholds
  revert hholds
  decide

end Followed

/-! ## Entries and closes under way -/

/-- The call of `broker.open` for the candidate. -/
structure EntryOf (req : OpenRequest) (c : String) : Prop where
  order : req.order = entryOrder c
  candidate : req.candidateId = some c
  position : req.positionId ≠ ""

/-- An entry is that of the next candidate of the pass. -/
def EntryFollowed (db : PaperDb) (pass : List (String × Candidate)) : EntryPhase → Prop
  | .idle => True
  | .checked req => ∃ c copy rest, pass = (c, copy) :: rest ∧ copy.state = .entryPending ∧
      EntryOf req c
  | .committed req _ committed => ∃ c copy rest, pass = (c, copy) :: rest ∧
      copy.state = .entryPending ∧ EntryOf req c ∧ OrderNames db c committed.positionId ∧
      committed.positionId ≠ ""

theorem EntryFollowed.kept {db next : PaperDb} {pass : List (String × Candidate)}
    {entry : EntryPhase} (h : EntryFollowed db pass entry) (hkept : OrdersKept db next) :
    EntryFollowed next pass entry := by
  cases entry with
  | idle => trivial
  | checked req => exact h
  | committed req quote committed =>
      obtain ⟨c, copy, rest, hpass, hstate, hentry, hnames, hid⟩ := h
      exact ⟨c, copy, rest, hpass, hstate, hentry, hnames.kept hkept, hid⟩

def pendingQuotes : PassPhase → List String
  | .quoting _ pending _ => pending
  | _ => []

def exitRequest : ExitPhase → Option CloseRequest
  | .idle => none
  | .checked req => some req
  | .committed req _ => some req

/-- The positions that wait for a quote are open. -/
structure Listed (ledger : LedgerState) (pass : PassPhase) : Prop where
  nodup : (pendingQuotes pass).Nodup
  opened : ∀ id ∈ pendingQuotes pass, stillOpen ledger id

/-- A close of the exit loop; one that gives a position up closes all of it. -/
structure ClosingFollowed (ledger : LedgerState) (pass : PassPhase) (exit : ExitPhase)
    (closing : Closing) : Prop where
  owner : ∀ c, closing.candidateId = some c →
    ∃ p, ledger.positions.get? closing.positionId = some p ∧ p.context.candidateId = some c
  alone : closing.givenUp = false → pendingQuotes pass = []
  whole : closing.givenUp → closing.fraction = 1 ∧ closing.positionId ∉ pendingQuotes pass ∧
    stillOpen ledger closing.positionId
  order : ∀ req, exitRequest exit = some req →
    req.order = exitOrder closing.positionId closing.code ∧ Unused ledger req.order
  amount : closing.givenUp → ∀ req, exitRequest exit = some req →
    ∃ p, ledger.positions.get? closing.positionId = some p ∧ p.status = .opened ∧
      p.tokenMint = req.tokenMint ∧ p.remainingTokenAmount ≤ req.tokenAmount

/-- What marks and entries leave of the positions. -/
structure LedgerKept (ledger next : LedgerState) : Prop where
  opened : ∀ id p, ledger.positions.get? id = some p → p.status = .opened →
    ∃ q, next.positions.get? id = some q ∧ q.status = .opened ∧ q.tokenMint = p.tokenMint ∧
      q.remainingTokenAmount = p.remainingTokenAmount
  owner : ∀ id p c, ledger.positions.get? id = some p → p.context.candidateId = some c →
    ∃ q, next.positions.get? id = some q ∧ q.context.candidateId = some c
  fills : ∀ fill ∈ next.fills, fill ∈ ledger.fills ∨ ∃ c, fill.orderId = entryOrder c

section Phases

variable {ledger next : LedgerState} {pass : PassPhase}

theorem LedgerKept.of_sameBooks (hsame : SameBooks ledger next) : LedgerKept ledger next := by
  obtain ⟨halt, pause, date, baseline, rfl⟩ := hsame
  exact ⟨fun _ p hget hopen => ⟨p, hget, hopen, rfl, rfl⟩,
    fun _ p _ hget hcandidate => ⟨p, hget, hcandidate⟩, fun _ hfill => Or.inl hfill⟩

theorem LedgerKept.of_marked (dateKey : Time → String) (prices : Dict String ℚ) (now : Time) :
    LedgerKept ledger (markToMarket dateKey ledger prices now) := by
  have hget : ∀ id p, ledger.positions.get? id = some p →
      (markToMarket dateKey ledger prices now).positions.get? id =
        some (markPosition prices now p) := by
    intro id p hstored
    simp only [markToMarket, Dict.get?_mapValues, hstored, Option.map_some]
  refine ⟨?_, ?_, fun _ hfill => Or.inl hfill⟩
  · intro id p hstored hopen
    exact ⟨_, hget id p hstored, by rw [markPosition_status, hopen], markPosition_tokenMint,
      markPosition_remainingTokenAmount⟩
  · intro id p c hstored hcandidate
    exact ⟨_, hget id p hstored, by rw [markPosition_context, hcandidate]⟩

/-- A booked entry takes the place of no open position. -/
theorem LedgerKept.of_booked {db : PaperDb} (howned : Owned ledger db) (hrows : Traced db)
    {args : OpenArgs} (valid : args.costs.Valid) {c : String}
    (hcandidate : args.context.candidateId = some c) (horder : args.orderId = entryOrder c)
    (hnames : OrderNames db c args.positionId) (hnone : ∀ id, ¬ OpenFor ledger c id) :
    LedgerKept ledger (ledger.booked args valid) := by
  have howner : ∀ p d, ledger.positions.get? args.positionId = some p →
      p.context.candidateId = some d → d = c := fun p d hget hd =>
    hrows.names_inj (howned.owned _ p d hget hd) hnames
  refine ⟨?_, ?_, ?_⟩
  · intro id p hget hopen
    by_cases hid : args.positionId = id
    · subst hid
      obtain ⟨d, hd⟩ := howned.owner _ p hget
      obtain rfl := howner p d hget hd
      exact absurd ⟨p, hget, hopen, hd⟩ (hnone _)
    · exact ⟨p, by simp only [LedgerState.booked, Dict.get?_set_ne _ hid, hget], hopen, rfl, rfl⟩
  · intro id p d hget hd
    by_cases hid : args.positionId = id
    · subst hid
      obtain rfl := howner p d hget hd
      exact ⟨_, Dict.get?_set_self _ _ _, hcandidate⟩
    · exact ⟨p, by simp only [LedgerState.booked, Dict.get?_set_ne _ hid, hget], hd⟩
  · intro fill hfill
    rcases List.mem_append.mp hfill with hold | hnew
    · exact Or.inl hold
    · rw [List.mem_singleton] at hnew
      subst hnew
      exact Or.inr ⟨c, horder⟩

theorem LedgerKept.stillOpen (h : LedgerKept ledger next) {id : String}
    (hopen : stillOpen ledger id) : Runtime.stillOpen next id := by
  obtain ⟨p, hget, hstatus⟩ := hopen
  obtain ⟨q, hnext, hstatus', -⟩ := h.opened id p hget hstatus
  exact ⟨q, hnext, hstatus'⟩

theorem Listed.kept (h : Listed ledger pass) (hkept : LedgerKept ledger next) :
    Listed next pass :=
  ⟨h.nodup, fun id hid => hkept.stillOpen (h.opened id hid)⟩

theorem Listed.nothing (ledger : LedgerState) {pass : PassPhase} (hpass : pendingQuotes pass = []) :
    Listed ledger pass :=
  ⟨hpass ▸ List.nodup_nil, fun _ hid => absurd hid (hpass ▸ List.not_mem_nil)⟩

theorem ClosingFollowed.kept {exit : ExitPhase} {closing : Closing}
    (h : ClosingFollowed ledger pass exit closing) (hkept : LedgerKept ledger next) :
    ClosingFollowed next pass exit closing := by
  refine ⟨?_, h.alone, ?_, ?_, ?_⟩
  · intro c hc
    obtain ⟨p, hget, hcandidate⟩ := h.owner c hc
    exact hkept.owner _ p c hget hcandidate
  · intro hgiven
    obtain ⟨hfraction, hpending, hopen⟩ := h.whole hgiven
    exact ⟨hfraction, hpending, hkept.stillOpen hopen⟩
  · intro req hreq
    obtain ⟨horder, hunused⟩ := h.order req hreq
    refine ⟨horder, fun fill hfill heq => ?_⟩
    rcases hkept.fills fill hfill with hold | ⟨c, hentry⟩
    · exact hunused fill hold heq
    · exact entryOrder_ne_exitOrder _ _ _ (hentry.symm.trans (heq.trans horder))
  · intro hgiven req hreq
    obtain ⟨p, hget, hopen, hmint, hamount⟩ := h.amount hgiven req hreq
    obtain ⟨q, hnext, hopen', hmint', hamount'⟩ := hkept.opened _ p hget hopen
    exact ⟨q, hnext, hopen', hmint'.trans hmint, hamount' ▸ hamount⟩

end Phases

/-! ## The invariant -/

structure Following (s : TradeState) : Prop where
  rows : Traced s.db
  owned : Owned s.ledger s.db
  candidates : Followed s.ledger s.pipeline
  entry : EntryFollowed s.db s.pipeline.pass s.entry
  listed : Listed s.ledger s.pass
  stored : ∀ c candidate, s.stored.get? c = some candidate → candidate.candidateId = c
  closing : ∀ closing ∈ s.closing, ClosingFollowed s.ledger s.pass s.exit closing

theorem TradeState.init_follows (config : BrokerConfig) (startingEquity : ℚ) (now : Time) :
    Following (TradeState.init config startingEquity now) := by
  have hnone : ∀ c id, ¬ OpenFor (TradeState.init config startingEquity now).ledger c id := by
    rintro c id ⟨p, ⟨⟩, -⟩
  have hcandidates : Followed (TradeState.init config startingEquity now).ledger
      (TradeState.init config startingEquity now).pipeline := by
    refine ⟨fun c id hopen => absurd hopen (hnone c id),
      fun c id copy hopen => absurd hopen (hnone c id), ?_, ?_, List.nodup_nil⟩
    · rintro c candidate ⟨⟩
    · rintro c copy ⟨⟩
  refine ⟨⟨?_, ?_, ?_, ?_, ?_, ?_, ?_, ?_⟩, ⟨?_, ?_, ?_, ?_, ?_, ?_⟩, hcandidates, trivial,
    Listed.nothing _ rfl, ?_, ?_⟩
  -- every table is empty
  all_goals
    intros
    contradiction

section Writes

variable {s : TradeState}

/-- The rows change. -/
theorem Following.written (h : Following s) {db : PaperDb} (hrows : RowsFollow s.db db) :
    Following { s with db := db } :=
  ⟨hrows.traced, h.owned.kept hrows.orders, h.candidates, h.entry.kept hrows.orders, h.listed,
    h.stored, h.closing⟩

/-- The ledger changes outside of exits and entries. -/
theorem Following.moved (h : Following s) {ledger : LedgerState} (howned : Owned ledger s.db)
    (hopen : ∀ c id, OpenFor ledger c id → OpenFor s.ledger c id)
    (hkept : LedgerKept s.ledger ledger) : Following { s with ledger := ledger } :=
  ⟨h.rows, howned, h.candidates.of_openFor hopen, h.entry, h.listed.kept hkept, h.stored,
    fun closing hclosing => (h.closing closing hclosing).kept hkept⟩

theorem Following.checked (h : Following s) {ledger : LedgerState}
    (hsame : SameBooks s.ledger ledger) : Following { s with ledger := ledger } :=
  h.moved (h.owned.sameBooks hsame) (fun _ _ hopen => (openFor_sameBooks hsame).mp hopen)
    (LedgerKept.of_sameBooks hsame)

theorem Following.put (h : Following s) {c : String} {next : Candidate}
    (hkey : next.candidateId = c)
    (hstate : ∀ id, OpenFor s.ledger c id → HoldsPosition next.state) : Following (s.put c next) :=
  ⟨h.rows, h.owned, h.candidates.put hkey hstate, h.entry, h.listed, h.stored, h.closing⟩

theorem Following.abortPass (h : Following s) : Following s.abortPass :=
  ⟨h.rows, h.owned, h.candidates.stopped, trivial, h.listed, h.stored, h.closing⟩

/-- The result for the next candidate of the pass. -/
theorem Following.writeBack (h : Following s) {c : String} {copy : Candidate}
    {rest : List (String × Candidate)} (hpass : s.pipeline.pass = (c, copy) :: rest)
    {result : Except CandidateError Candidate}
    (hresult : ∀ next, result = .ok next → next.candidateId = c ∧
      ∀ id, OpenFor s.ledger c id → HoldsPosition next.state) :
    Following (s.writeBack c rest result) := by
  cases result with
  | error e => exact h.abortPass
  | ok next =>
      obtain ⟨hkey, hstate⟩ := hresult next rfl
      exact ⟨h.rows, h.owned, (h.candidates.rest hpass).put hkey hstate, trivial, h.listed, h.stored,
        h.closing⟩

theorem Following.transitionCandidate (h : Following s) {c : String} {target : CandidateState}
    (htarget : ∀ id, OpenFor s.ledger c id → HoldsPosition target) (at' : Time) :
    Following (s.transitionCandidate c target at').1 := by
  unfold TradeState.transitionCandidate
  split
  · exact h
  · rename_i candidate hget
    split
    · rename_i updated hupdated
      obtain ⟨hstate, -, hkey, -⟩ := transition_spec hupdated
      exact h.put (hkey.trans (h.candidates.keyed c candidate hget)) fun id hopen =>
        hstate ▸ htarget id hopen
    · exact h

theorem transitionCandidate_frame (c : String) (target : CandidateState) (at' : Time) :
    ∃ pipeline upserts, (s.transitionCandidate c target at').1 =
      { s with pipeline := pipeline, upserts := upserts } := by
  unfold TradeState.transitionCandidate
  split
  · exact ⟨_, _, rfl⟩
  · split
    · exact ⟨_, _, rfl⟩
    · exact ⟨_, _, rfl⟩

end Writes

/-! ## Steps of the candidate loop -/

section Entries

variable {config : BrokerConfig} {s : TradeState} {c : String} {copy : Candidate}
  {rest : List (String × Candidate)}

/-- The risk check only writes controls. -/
theorem checkEntry_cases (config : BrokerConfig) (s : PassState) (req : OpenRequest) :
    ∃ ledger entry, Exits.checkEntry config s req = { s with ledger := ledger, entry := entry } ∧
      SameBooks s.ledger ledger ∧ (entry = .checked req ∨ entry = s.entry) := by
  unfold Exits.checkEntry
  cases repeatedFill s.ledger req.orderId .entry with
  | some fill => exact ⟨s.ledger, s.entry, rfl, ⟨_, _, _, _, rfl⟩, Or.inr rfl⟩
  | none =>
      have hsame := evaluateEntry_frame config.risk config.zone req.now s.ledger req.usdcAmount
        req.tokenMint
      dsimp only
      revert hsame
      generalize evaluateEntry config.risk config.zone req.now s.ledger req.usdcAmount
        req.tokenMint = answer
      rcases answer with ⟨_ | _ | _, ledger⟩
      · exact fun hsame => ⟨ledger, s.entry, rfl, hsame, Or.inr rfl⟩
      · exact fun hsame => ⟨ledger, .checked req, rfl, hsame, Or.inl rfl⟩
      · exact fun hsame => ⟨ledger, s.entry, rfl, hsame, Or.inr rfl⟩

/-- A candidate that waits for its entry may take any state. -/
theorem Following.writeBack_waiting (h : Following s)
    (hpass : s.pipeline.pass = (c, copy) :: rest) (hstate : copy.state = .entryPending)
    (target : CandidateState) (at' : Time) (reason : Option RejectReason) :
    Following (s.writeBack c rest (transition copy target at' reason)) := by
  refine h.writeBack hpass fun next hnext => ⟨?_, fun id hopen => ?_⟩
  · exact (transition_spec hnext).2.2.1.trans
      (h.candidates.copied c copy (hpass ▸ List.mem_cons_self))
  · exact absurd hopen (h.candidates.waiting hpass hstate id)

theorem Following.openEntry (h : Following s) (hidle : s.entry = .idle)
    (hpass : s.pipeline.pass = (c, copy) :: rest) (hstate : copy.state = .entryPending)
    (at' : Time) {req : OpenRequest} (hentry : EntryOf req c) :
    Following (s.openEntry config c copy rest at' req) := by
  unfold TradeState.openEntry
  split
  · split
    · exact h.writeBack_waiting hpass hstate _ _ _
    · exact h.abortPass
  · obtain ⟨ledger, entry, heq, hsame, hchecked⟩ := checkEntry_cases config s.toPassState req
    have hnext := h.checked hsame
    simp only [heq]
    rcases hchecked with rfl | hsame
    · exact ⟨hnext.rows, hnext.owned, hnext.candidates, ⟨c, copy, rest, hpass, hstate, hentry⟩,
        hnext.listed, hnext.stored, hnext.closing⟩
    · have hentry : entry = .idle := hsame.trans hidle
      subst hentry
      exact hnext.abortPass

theorem Following.openCandidate (h : Following s) (hidle : s.entry = .idle)
    (hpass : s.pipeline.pass = (c, copy) :: rest) (hstate : copy.state = .entryPending)
    (at' now : Time) (sizing : Except RejectReason ℚ) (draw : EntryDraw) :
    Following (s.openCandidate config c copy rest at' now sizing draw) := by
  unfold TradeState.openCandidate
  cases sizing with
  | error reason => exact h.writeBack_waiting hpass hstate _ _ _
  | ok usdcAmount =>
      have hsame := evaluateEntry_frame config.risk config.zone now s.ledger usdcAmount copy.mint
      dsimp only
      revert hsame
      generalize evaluateEntry config.risk config.zone now s.ledger usdcAmount copy.mint = answer
      rcases answer with ⟨_ | _ | reason, ledger⟩
      · exact fun hsame => (h.checked hsame).abortPass
      · intro hsame
        have hkey : copy.candidateId = c :=
          h.candidates.copied c copy (hpass ▸ List.mem_cons_self)
        refine (h.checked hsame).openEntry hidle hpass hstate at' ⟨?_, ?_, draw.id_ne⟩
        · rw [← hkey]
          simp [OpenRequest.order, entryRequest, chosenOrder, Option.filter, entryOrder_ne_empty]
        · exact congrArg some hkey
      · intro hsame
        have hwritten := (h.checked hsame).written
          (h.rows.afterRiskState config.ownedRun (controls ledger) now)
        exact hwritten.writeBack_waiting hpass hstate _ _ _

/-- A committed entry is that of the candidate. -/
theorem commitEntry_cases (config : BrokerConfig) {pass : PassState} (hrows : Traced pass.db)
    {req : OpenRequest} (hentry : EntryOf req c) :
    ∃ db entry, Exits.commitEntry config pass req = { pass with db := db, entry := entry } ∧
      RowsFollow pass.db db ∧ (entry = .idle ∨ ∃ quote committed,
        entry = .committed req quote committed ∧ OrderNames db c committed.positionId ∧
          committed.positionId ≠ "") := by
  unfold Exits.commitEntry
  split
  · rename_i quote candidateId poolAddress hquote hcandidate hpool
    obtain ⟨hsome, -⟩ := Option.filter_eq_some_iff.mp hcandidate
    rw [hentry.candidate] at hsome
    cases hsome
    split
    · exact ⟨pass.db, .idle, rfl, hrows.refl, Or.inl rfl⟩
    · have hfollow : RowsFollow pass.db
          (commitPaperEntry (req.entryArgs config quote.1 c poolAddress) pass.db).2 :=
        hrows.afterEntry hentry.order hentry.position
      split
      · rename_i e db hcommit
        rw [hcommit] at hfollow
        exact ⟨db, .idle, rfl, hfollow, Or.inl rfl⟩
      · rename_i committed db hcommit
        rw [hcommit] at hfollow
        refine ⟨db, _, rfl, hfollow, Or.inr ⟨quote, committed, rfl, ?_⟩⟩
        rcases commitPaperEntry_ok hcommit with ⟨rfl, hrecorded⟩ | ⟨account, hcase, rfl, rfl⟩
        · obtain ⟨order, hget, hposition⟩ := hrecorded.order
          obtain ⟨row, hrow⟩ := hrows.placed _ order _ hget hposition
          have hget : pass.db.orders.get? (entryOrder c) = some order := hentry.order ▸ hget
          refine ⟨⟨order, hget, ?_, hposition⟩, hrows.named _ row hrow⟩
          cases hside : order.side with
          | buy => rfl
          | sell =>
              obtain ⟨id, code, hexit⟩ := hrows.sells _ order hget hside
              exact absurd hexit (entryOrder_ne_exitOrder _ _ _)
        · refine ⟨⟨EntryArgs.order _, ?_, rfl, rfl⟩, hentry.position⟩
          rw [← hentry.order]
          exact Dict.get?_set_self _ _ _
  · exact ⟨pass.db, .idle, rfl, hrows.refl, Or.inl rfl⟩

theorem Following.commitEntry (h : Following s) {req : OpenRequest}
    (hchecked : s.entry = .checked req) : Following (s.commitEntry config req) := by
  have hentry := h.entry
  rw [hchecked] at hentry
  obtain ⟨c, copy, rest, hpass, hstate, hof⟩ := hentry
  obtain ⟨db, entry, heq, hrows, hcases⟩ := commitEntry_cases config h.rows hof
  have hnext := h.written hrows
  unfold TradeState.commitEntry
  simp only [heq]
  rcases hcases with rfl | ⟨quote, committed, rfl, hnames, hid⟩
  · exact hnext.abortPass
  · exact ⟨hnext.rows, hnext.owned, hnext.candidates,
      ⟨c, copy, rest, hpass, hstate, hof, hnames, hid⟩, hnext.listed, hnext.stored, hnext.closing⟩

theorem Following.bookEntry (h : Following s) {req : OpenRequest} {quote : ExecutableQuote}
    {committed : Committed} (hcommitted : s.entry = .committed req quote committed)
    (hpass : s.pipeline.pass = (c, copy) :: rest) (at' : Time) :
    Following (s.bookEntry config req quote committed c copy rest at') := by
  have hentry := h.entry
  rw [hcommitted] at hentry
  obtain ⟨c', copy', rest', hpass', hstate, hof, hnames, hid⟩ := hentry
  rw [hpass] at hpass'
  cases hpass'
  unfold TradeState.bookEntry
  split
  · exact h.abortPass
  · rename_i ledger position hopened
    rcases openPosition_cases hopened with rfl | ⟨valid, rfl, -, -, -, -, hnone⟩
    · exact h.writeBack_waiting hpass hstate _ _ _
    · -- the new position is that of the candidate, whose result is `POSITION_OPEN`
      have hkey : copy.candidateId = c := h.candidates.copied c copy (hpass ▸ List.mem_cons_self)
      have hkept : LedgerKept s.ledger
          (s.ledger.booked (req.openArgs config quote.1 committed) valid) :=
        LedgerKept.of_booked h.owned h.rows valid hof.candidate hof.order hnames
          (h.candidates.waiting hpass hstate)
      obtain ⟨next, hnext⟩ : ∃ next, transition copy .positionOpen at' = .ok next :=
        transition_ok (by rw [hstate]; decide) (by rintro ⟨⟩)
      have hspec := transition_spec hnext
      rw [hnext]
      refine ⟨h.rows, h.owned.booked valid hof.candidate hof.order hnames hid hnone,
        h.candidates.booked hpass (hspec.2.2.1.trans hkey) ?_ ?_, trivial, h.listed.kept hkept,
        h.stored, fun closing hclosing => (h.closing closing hclosing).kept hkept⟩
      · rw [hspec.1]
        decide
      · intro d id hopen
        rcases openFor_booked hopen with ⟨-, hd⟩ | hold
        · exact Or.inl (Option.some.inj (hd.symm.trans hof.candidate))
        · exact Or.inr hold

end Entries

/-! ## Steps of the exit loop -/

section Exits

variable {s : TradeState}

theorem Following.paused (h : Following s) (hclosing : s.closing = none) {pass : PassPhase}
    (hlisted : Listed s.ledger pass) : Following { s with pass := pass } :=
  ⟨h.rows, h.owned, h.candidates, h.entry, hlisted, h.stored, by simp [hclosing]⟩

theorem Following.beginExit (h : Following s) (candidateId : Option String) (now : Time) :
    Following (s.beginExit candidateId now) := by
  unfold TradeState.beginExit
  split
  · exact h
  · split
    · exact h.transitionCandidate (fun _ _ => by decide) now
    · exact h

theorem beginExit_frame (s : TradeState) (candidateId : Option String) (now : Time) :
    ∃ pipeline upserts, s.beginExit candidateId now =
      { s with pipeline := pipeline, upserts := upserts } := by
  unfold TradeState.beginExit
  split
  · exact ⟨_, _, rfl⟩
  · split
    · exact transitionCandidate_frame _ _ _
    · exact ⟨_, _, rfl⟩

/-- `EXIT_PENDING` is set, and a close begins. -/
theorem Following.begun (h : Following s) (candidateId : Option String) (now : Time)
    {pass : PassPhase} {closing : Closing} (hlisted : Listed s.ledger pass)
    (hclosing : ClosingFollowed s.ledger pass s.exit closing) :
    Following { s.beginExit candidateId now with pass := pass, closing := some closing } := by
  have hbegun := h.beginExit candidateId now
  obtain ⟨pipeline, upserts, heq⟩ := beginExit_frame s candidateId now
  rw [heq] at hbegun ⊢
  refine ⟨hbegun.rows, hbegun.owned, hbegun.candidates, hbegun.entry, hlisted, hbegun.stored, ?_⟩
  rintro _ ⟨⟩
  exact hclosing

theorem Following.exitLoop (h : Following s) (config : TradeConfig) {op : PassOp}
    (hop : ∀ next, s.closing = none → s.toPassState.step config.broker config.policy op = next →
      Following { s with toPassState := next }) : Following (s.exitLoop config op) := by
  unfold TradeState.exitLoop
  split
  · rename_i hnone
    exact hop _ (Option.isNone_iff_eq_none.mp hnone) rfl
  · exact h

theorem Following.listPositions (h : Following s) (config : TradeConfig) :
    Following (s.exitLoop config .listPositions) := by
  refine h.exitLoop config fun next hclosing hnext => ?_
  subst hnext
  unfold PassState.step
  dsimp only
  split
  · refine h.paused hclosing ⟨openPositions_ids_nodup fun id p hget => (h.owned.named id p hget).2,
      fun id hid => ?_⟩
    obtain ⟨p, hp, rfl⟩ := List.mem_map.mp hid
    obtain ⟨id, hget, hopen⟩ := mem_openPositions.mp hp
    rw [(h.owned.named id p hget).2]
    exact ⟨p, hget, hopen⟩
  · exact h

/-- The next position of the list is passed over. -/
theorem Listed.tail {ledger : LedgerState} {listed : Nat} {id : String} {pending : List String}
    {quoted quoted' : Quoted} (h : Listed ledger (.quoting listed (id :: pending) quoted)) :
    Listed ledger (.quoting listed pending quoted') :=
  ⟨(List.nodup_cons.mp h.nodup).2, fun j hj => h.opened j (List.mem_cons_of_mem _ hj)⟩

theorem Following.quotePosition (h : Following s) (config : TradeConfig)
    (quote : ExecutableQuote) : Following (s.exitLoop config (.quotePosition quote)) := by
  refine h.exitLoop config fun next hclosing hnext => ?_
  subst hnext
  unfold PassState.step
  dsimp only
  split
  · rename_i listed id pending quoted hexit hpass
    have hlisted := h.listed
    rw [hpass] at hlisted
    unfold Exits.quotePosition
    split
    · exact h
    · exact h.paused hclosing hlisted.tail
  · exact h

theorem Following.quoteFailed (h : Following s) (config : TradeConfig) :
    Following (s.exitLoop config (.quoteFailed none)) := by
  refine h.exitLoop config fun next hclosing hnext => ?_
  subst hnext
  unfold PassState.step
  dsimp only
  split
  · rename_i listed id pending quoted hexit hpass
    have hlisted := h.listed
    rw [hpass] at hlisted
    exact h.paused hclosing hlisted.tail
  · exact h

theorem Following.mark (h : Following s) (config : TradeConfig) (now : Time) :
    Following (s.exitLoop config (.mark now)) := by
  refine h.exitLoop config fun next hclosing hnext => ?_
  subst hnext
  unfold PassState.step
  dsimp only
  split
  · rename_i listed quoted hexit hpass
    unfold markPass
    split
    · have hmarked := h.moved (h.owned.marked config.broker.zone.dateKey quoted.prices now)
        (fun c id hopen => openFor_marked hopen)
        (LedgerKept.of_marked config.broker.zone.dateKey quoted.prices now)
      exact hmarked.paused hclosing (Listed.nothing _ rfl)
    · exact h.paused hclosing (Listed.nothing _ rfl)
  · exact h

theorem Following.writeMarks (h : Following s) (config : TradeConfig) :
    Following (s.exitLoop config .writeMarks) := by
  refine h.exitLoop config fun next hclosing hnext => ?_
  subst hnext
  unfold PassState.step
  dsimp only
  split
  · rename_i snapshot values now hpass
    exact (h.written (h.rows.afterMarks config.broker.ownedRun values snapshot now)).paused hclosing
      (Listed.nothing _ rfl)
  · exact h

theorem Following.giveUp (h : Following s) (now : Time) : Following (s.giveUp now) := by
  unfold TradeState.giveUp
  split
  · rename_i listed id pending quoted hclosing hexit hpass
    split
    · exact h
    · rename_i position hget
      have hlisted := h.listed
      rw [hpass] at hlisted
      refine h.begun _ now hlisted.tail ⟨?_, ?_, ?_, ?_, ?_⟩
      · intro c hc
        exact ⟨position, hget, (Option.filter_eq_some_iff.mp (Option.filter_eq_some_iff.mp hc).1).1⟩
      · rintro ⟨⟩
      · intro _
        exact ⟨rfl, (List.nodup_cons.mp hlisted.nodup).1, hlisted.opened id List.mem_cons_self⟩
      · rw [hexit]
        rintro req ⟨⟩
      · rw [hexit]
        rintro - req ⟨⟩
  · exact h

theorem Following.exitPosition (h : Following s) (config : TradeConfig) (positionId : String)
    (price : ℚ) (now : Time) (momentumExit emergencyExit : Bool) :
    Following (s.exitPosition config positionId price now momentumExit emergencyExit) := by
  unfold TradeState.exitPosition
  split
  · rename_i position hclosing hexit hpass hget
    dsimp only
    split
    · rename_i hexits
      generalize hcandidate : position.context.candidateId.filter (· ≠ "") = candidateId
      have hfollowed : ClosingFollowed s.ledger s.pass s.exit
          ⟨positionId, (evaluateExit config.policy position price now momentumExit
            emergencyExit).reason.value, (evaluateExit config.policy position price now
            momentumExit emergencyExit).closeFraction, false, candidateId⟩ := by
        refine ⟨?_, ?_, ?_, ?_, ?_⟩
        · rintro c rfl
          exact ⟨position, hget, (Option.filter_eq_some_iff.mp hcandidate).1⟩
        · rw [hpass]
          exact fun _ => rfl
        · rintro ⟨⟩
        · rw [hexit]
          rintro req ⟨⟩
        · rintro ⟨⟩
      have hbegun := h.begun candidateId now h.listed hfollowed
      obtain ⟨pipeline, upserts, heq⟩ := beginExit_frame s candidateId now
      rw [heq] at hbegun ⊢
      exact hbegun
    · exact h
  · exact h

end Exits

/-! ## The end of a close -/

section Closes

variable {s : TradeState} {closing : Closing}

/-- With a new order id the close of an open position is an exit of it. -/
theorem closePosition_exited {dateKey : Time → String} {ledger next : LedgerState}
    {args : CloseArgs} {result position : PositionRecord} {id : String}
    (h : closePosition dateKey ledger args = .ok (next, result))
    (hnew : ledger.closeOrderIdIndex.get? args.orderId = none)
    (hindex : ledger.tokenPosition args.tokenMint = some id)
    (hget : ledger.positions.get? id = some position) (hopen : position.status = .opened) :
    ∃ valid, next = ledger.exited dateKey args id position valid := by
  rcases closePosition_cases h with rfl | ⟨j, p, valid, rfl, hj, hp, -⟩
  · have hposition : next.position id = .ok position := by
      rw [LedgerState.position, hget]
    unfold closePosition at h
    split at h
    · cases h
    · split at h
      · cases h
      · rw [hnew, hindex] at h
        simp only [hposition, bind, Except.bind, hopen, ne_eq, not_true_eq_false, if_false] at h
        split at h
        · cases h
        · split at h
          · rename_i valid
            exact ⟨valid, (congrArg Prod.fst (Except.ok.inj h)).symm⟩
          · cases h
  · rw [hindex] at hj
    cases hj
    rw [hget] at hp
    cases hp
    exact ⟨valid, rfl⟩

theorem Following.exitIdle (h : Following s) : Following { s with exit := .idle } := by
  refine ⟨h.rows, h.owned, h.candidates, h.entry, h.listed, h.stored, fun closing hclosing => ?_⟩
  have hfollowed := h.closing closing hclosing
  refine ⟨hfollowed.owner, hfollowed.alone, hfollowed.whole, ?_, ?_⟩
  · rintro req ⟨⟩
  · rintro - req ⟨⟩

theorem Following.closeFailed (h : Following s) (closing : Closing) (now : Time) :
    Following (s.closeFailed closing now) := by
  have hstopped : ∀ {next : TradeState}, Following next →
      Following { next with closing := none, pass := .idle } := fun hnext =>
    ⟨hnext.rows, hnext.owned, hnext.candidates, hnext.entry, Listed.nothing _ rfl, hnext.stored,
      by rintro _ ⟨⟩⟩
  unfold TradeState.closeFailed
  dsimp only
  generalize (if closing.givenUp then closing.candidateId else s.pendingCandidate closing) =
    candidateId
  cases candidateId with
  | none => exact hstopped h
  | some c => exact hstopped (h.transitionCandidate (fun _ _ => by decide) now)

theorem transitionCandidate_closing (s : TradeState) (k : Option Closing) (c : String)
    (target : CandidateState) (at' : Time) :
    { s with closing := k }.transitionCandidate c target at' =
      ({ (s.transitionCandidate c target at').1 with closing := k },
        (s.transitionCandidate c target at').2) := by
  unfold TradeState.transitionCandidate
  cases s.pipeline.candidates.get? c with
  | none => rfl
  | some candidate =>
      dsimp only
      cases transition candidate target at' with
      | ok updated => rfl
      | error e => rfl

/-- A close has returned: the candidate is closed only when nothing of the position is left. -/
theorem Following.closeReturned (h : Following { s with closing := none })
    (howner : ∀ c, closing.candidateId = some c →
      ∃ p, s.ledger.positions.get? closing.positionId = some p ∧ p.context.candidateId = some c)
    (hdone : closing.givenUp → ¬ stillOpen s.ledger closing.positionId) (now : Time) :
    Following (s.closeReturned closing now) := by
  -- the candidate has no position but that of the close
  have hgone : ∀ c, closing.candidateId = some c → ¬ stillOpen s.ledger closing.positionId →
      ∀ id, OpenFor s.ledger c id → HoldsPosition .closed := by
    intro c hc hnot id hopen
    obtain ⟨p, hget, hcandidate⟩ := howner c hc
    have hnames : OrderNames s.db c id := h.owned.openFor hopen
    obtain rfl := hnames.inj (h.owned.owned _ p c hget hcandidate)
    obtain ⟨q, hq, hstatus, -⟩ := hopen
    exact absurd ⟨q, hq, hstatus⟩ hnot
  have hmoved : ∀ {c : String} {target : CandidateState},
      (∀ id, OpenFor s.ledger c id → HoldsPosition target) →
      Following { (s.transitionCandidate c target now).1 with closing := none } := by
    intro c target htarget
    have hnext := h.transitionCandidate htarget now
    rw [transitionCandidate_closing] at hnext
    exact hnext
  unfold TradeState.closeReturned
  split
  · rename_i hgiven
    split
    · exact h
    · rename_i c hc
      have hclosed := hmoved (hgone c hc (hdone hgiven))
      cases hanswer : s.transitionCandidate c .closed now with
      | mk next returned =>
          rw [hanswer] at hclosed
          cases returned with
          | true => exact hclosed
          | false =>
              exact ⟨hclosed.rows, hclosed.owned, hclosed.candidates, hclosed.entry,
                Listed.nothing _ rfl, hclosed.stored, by rintro _ ⟨⟩⟩
  · split
    · exact h
    · rename_i c hc
      have hcandidate : closing.candidateId = some c := (Option.filter_eq_some_iff.mp hc).1
      dsimp only
      split
      · exact hmoved fun _ _ => by decide
      · rename_i hnot
        exact hmoved (hgone c hcandidate hnot)

theorem Following.unclosed (h : Following s) : Following { s with closing := none } :=
  ⟨h.rows, h.owned, h.candidates, h.entry, h.listed, h.stored, by rintro _ ⟨⟩⟩

/-- An exit leaves what the positions that are still listed need. -/
theorem Listed.exited {ledger : LedgerState} {pass : PassPhase} (h : Listed ledger pass)
    {dateKey : Time → String} {args : CloseArgs} {id : String} {position : PositionRecord}
    {valid : args.costs.Valid} (hpending : id ∉ pendingQuotes pass) :
    Listed (ledger.exited dateKey args id position valid) pass := by
  refine ⟨h.nodup, fun j hj => ?_⟩
  obtain ⟨p, hget, hopen⟩ := h.opened j hj
  have hne : id ≠ j := by
    rintro rfl
    exact hpending hj
  refine ⟨p, ?_, hopen⟩
  rw [LedgerState.exited, Dict.get?_set_ne _ hne]
  exact hget

theorem Following.exited (h : Following s) (dateKey : Time → String) {args : CloseArgs}
    {id : String} {position : PositionRecord} (valid : args.costs.Valid)
    (hindex : s.ledger.tokenPosition args.tokenMint = some id)
    (hstored : s.ledger.positions.get? id = some position)
    (hpending : id ∉ pendingQuotes s.pass) :
    Following { s with
      ledger := s.ledger.exited dateKey args id position valid, exit := .idle, closing := none } :=
  ⟨h.rows, h.owned.exited dateKey valid hindex hstored,
    h.candidates.of_openFor fun _ _ hopen => openFor_exited hstored hopen, h.entry,
    h.listed.exited hpending, h.stored, by rintro _ ⟨⟩⟩

theorem owner_exited {ledger : LedgerState} {dateKey : Time → String} {args : CloseArgs}
    {id : String} {position : PositionRecord} {valid : args.costs.Valid}
    (hstored : ledger.positions.get? id = some position) {j c : String}
    (howner : ∃ p, ledger.positions.get? j = some p ∧ p.context.candidateId = some c) :
    ∃ p, (ledger.exited dateKey args id position valid).positions.get? j = some p ∧
      p.context.candidateId = some c := by
  obtain ⟨p, hget, hcandidate⟩ := howner
  by_cases hid : id = j
  · subst hid
    rw [hstored] at hget
    cases hget
    refine ⟨_, Dict.get?_set_self _ _ _, ?_⟩
    rw [(closedPosition_frame args position).1, hcandidate]
  · exact ⟨p, by simp only [LedgerState.exited, Dict.get?_set_ne _ hid, hget], hcandidate⟩

theorem Following.callClose (h : Following s) (hclosing : s.closing = some closing)
    {position : PositionRecord}
    (hget : s.ledger.positions.get? closing.positionId = some position) (draw : CloseDraw)
    (now : Time)
    (hresumed : closing.givenUp → stillOpen s.ledger closing.positionId →
      repeatedFill s.ledger (some (exitOrder closing.positionId closing.code)) .exit = none) :
    Following (s.callClose closing (closing.request position draw) now) := by
  have hfollowed := h.closing closing hclosing
  unfold TradeState.callClose
  split
  · exact h.closeFailed closing now
  · split
    · rename_i fill hrepeated
      split
      · exact h.closeFailed closing now
      · refine h.unclosed.closeReturned hfollowed.owner (fun hgiven hopen => ?_) now
        have hnone := hresumed hgiven hopen
        exact absurd (hrepeated.symm.trans hnone) (by simp)
    · rename_i hnew
      split
      · exact h.closeFailed closing now
      · split
        · exact h.closeFailed closing now
        · refine ⟨h.rows, h.owned, h.candidates, h.entry, h.listed, h.stored, ?_⟩
          intro other hother
          rw [hclosing] at hother
          cases hother
          have horder : (closing.request position draw).order =
              exitOrder closing.positionId closing.code := by
            simp [CloseRequest.order, Closing.request, chosenOrder, Option.filter,
              exitOrder_ne_empty]
          refine ⟨hfollowed.owner, hfollowed.alone, hfollowed.whole, ?_, ?_⟩
          · rintro req ⟨⟩
            refine ⟨horder, ?_⟩
            exact (oneSided_exit h.owned.entries closing.positionId closing.code _).unused hnew
          · rintro hgiven req ⟨⟩
            obtain ⟨hfraction, -, p, hp, hopen⟩ := hfollowed.whole hgiven
            rw [hget] at hp
            cases hp
            refine ⟨position, hget, hopen, rfl, ?_⟩
            simp only [Closing.request, ExitClose.request, hfraction, mul_one, le_refl]

theorem Following.commitExit (h : Following s) {config : BrokerConfig}
    (hclosing : s.closing = some closing) {req : CloseRequest} (hchecked : s.exit = .checked req)
    (now : Time) : Following (s.commitExit config closing req now) := by
  have hfollowed := h.closing closing hclosing
  have hrequest : exitRequest s.exit = some req := by rw [hchecked]; rfl
  obtain ⟨horder, hunused⟩ := hfollowed.order req hrequest
  have hrows : RowsFollow s.db (commitPaperExit (req.exitArgs config) s.db).2 :=
    h.rows.afterExit horder
  unfold TradeState.commitExit
  split
  · rename_i e db hcommit
    rw [hcommit] at hrows
    exact (h.written hrows).exitIdle.closeFailed closing now
  · rename_i committed db hcommit
    rw [hcommit] at hrows
    have hwritten := h.written hrows
    refine ⟨hwritten.rows, hwritten.owned, hwritten.candidates, hwritten.entry, hwritten.listed,
      hwritten.stored, ?_⟩
    intro other hother
    have heq : closing = other := Option.some.inj (hclosing.symm.trans hother)
    subst heq
    refine ⟨hfollowed.owner, hfollowed.alone, hfollowed.whole, ?_, ?_⟩
    · rintro _ ⟨⟩
      exact ⟨horder, hunused⟩
    · rintro hgiven _ ⟨⟩
      exact hfollowed.amount hgiven req hrequest

/-- When a position is given up, its exit leaves nothing of it. -/
theorem Following.bookExit (h : Following s) {config : BrokerConfig}
    (hclosing : s.closing = some closing) {req : CloseRequest} {committed : Committed}
    (hcommitted : s.exit = .committed req committed) (now : Time) :
    Following (s.bookExit config closing req committed now) := by
  have hfollowed := h.closing closing hclosing
  have hrequest : exitRequest s.exit = some req := by rw [hcommitted]; rfl
  obtain ⟨-, hunused⟩ := hfollowed.order req hrequest
  have hnew : s.ledger.closeOrderIdIndex.get? req.order = none := by
    cases hindex : s.ledger.closeOrderIdIndex.get? req.order with
    | none => rfl
    | some id =>
        obtain ⟨fill, hfill, heq⟩ := h.owned.exits req.order id hindex
        exact absurd heq (hunused fill hfill)
  unfold TradeState.bookExit
  split
  · exact h.exitIdle.closeFailed closing now
  · rename_i ledger result hclosed
    cases hgiven : closing.givenUp with
    | false =>
        have hpending : pendingQuotes s.pass = [] := hfollowed.alone hgiven
        rcases closePosition_cases hclosed with rfl | ⟨id, p, valid, rfl, hindex, hget, -⟩
        · exact h.exitIdle.unclosed.closeReturned hfollowed.owner (by simp [hgiven]) now
        · exact (h.exited config.zone.dateKey valid hindex hget
            (hpending ▸ List.not_mem_nil)).closeReturned
              (fun c hc => owner_exited hget (hfollowed.owner c hc)) (by simp [hgiven]) now
    | true =>
        obtain ⟨p, hget, hopen, hmint, hamount⟩ := hfollowed.amount hgiven req hrequest
        have hindex : s.ledger.tokenPosition req.tokenMint = some closing.positionId := by
          rw [← hmint, LedgerState.tokenPosition, h.owned.indexed _ p hget hopen]
          simp [Option.filter, (h.owned.named _ p hget).1]
        obtain ⟨valid, rfl⟩ := closePosition_exited hclosed hnew hindex hget hopen
        refine (h.exited config.zone.dateKey valid hindex hget
          (hfollowed.whole hgiven).2.1).closeReturned
            (fun c hc => owner_exited hget (hfollowed.owner c hc)) (fun _ hstill => ?_) now
        obtain ⟨q, hq, hstatus⟩ := hstill
        have hfinal : (req.closeArgs config committed).Final p := sub_nonpos.mpr hamount
        have hstored := Dict.get?_set_self s.ledger.positions closing.positionId
          ((req.closeArgs config committed).closedPosition p)
        rw [Option.mem_def] at hq
        obtain rfl : (req.closeArgs config committed).closedPosition p = q :=
          Option.some.inj (hstored.symm.trans hq)
        exact ((closedPosition_frame _ p).2.2.2 hstatus).2 hfinal

end Closes

/-! ## Runs -/

/-- A new process finds every open position with a stored candidate in a position state. -/
def CandidatesStored (s : TradeState) : Prop :=
  ∀ e ∈ s.db.positions.entries, e.2.status.Live → ∀ c ∈ s.db.candidateOf e.1,
    ∃ candidate ∈ s.stored.get? c, HoldsPosition candidate.state

/-- No position is given up again whose close is booked already and which is still open. -/
def GivenUpOnce (s : TradeState) : Prop :=
  ∀ closing ∈ s.closing, closing.givenUp → stillOpen s.ledger closing.positionId →
    repeatedFill s.ledger (some (exitOrder closing.positionId closing.code)) .exit = none

instance (s : TradeState) : Decidable (CandidatesStored s) :=
  inferInstanceAs (Decidable (∀ e ∈ s.db.positions.entries, _))

instance (s : TradeState) : Decidable (GivenUpOnce s) :=
  inferInstanceAs (Decidable (∀ closing ∈ s.closing, _))

def Resumable (s : TradeState) : TradeOp → Prop
  | .restart .. => CandidatesStored s
  | .callClose .. => GivenUpOnce s
  | _ => True

instance (s : TradeState) (op : TradeOp) : Decidable (Resumable s op) :=
  match op with
  | .restart _ _ => inferInstanceAs (Decidable (CandidatesStored s))
  | .callClose _ _ => inferInstanceAs (Decidable (GivenUpOnce s))
  | .startPass | .writeBack _ | .openCandidate _ _ _ _ | .commitEntry | .bookEntry _ | .abortPass
  | .discover _ _ _ _ _ _ | .touch _ _ | .listPositions | .quotePosition _ | .quoteFailed
  | .giveUp _ | .mark _ | .writeMarks | .exitPosition _ _ _ _ _ | .commitExit _ | .bookExit _
  | .abortExit _ | .upserted _ => isTrue trivial

theorem Following.restarted {s : TradeState} (h : Following s) {signals : List SignalRow}
    {zone : TimeZone} {now : Time} {ledger : LedgerState}
    (hstart : startLedger s.db signals zone now = some ledger) (hstored : CandidatesStored s) :
    Following { s with
      ledger := ledger, entry := .idle, exit := .idle, pass := .idle, closing := none
      upserts := [], pipeline := ⟨s.stored, []⟩ } := by
  refine ⟨h.rows, h.rows.restored hstart, ⟨?_, ?_, h.stored, ?_, List.nodup_nil⟩, trivial,
    Listed.nothing _ rfl, h.stored, by rintro _ ⟨⟩⟩
  · rintro c id ⟨p, hget, hopen, hcandidate⟩
    obtain ⟨account, -, hpositions, -⟩ := startLedger_frame hstart
    dsimp only at hget
    rw [hpositions, Dict.get?_mapValues] at hget
    obtain ⟨row, hrow, rfl⟩ := Option.map_eq_some_iff.mp hget
    have hlive : row.status.Live := by
      by_contra hnot
      have hclosed : (restoredPosition s.db signals id row).status = .closed := if_neg hnot
      rw [hclosed] at hopen
      cases hopen
    exact hstored (id, row) (Dict.mem_entries.mpr hrow) hlive c hcandidate
  · rintro c id copy - ⟨⟩
  · rintro c copy ⟨⟩

theorem Following.step {s : TradeState} (h : Following s) (config : TradeConfig) (op : TradeOp)
    (hop : Resumable s op) : Following (s.step config op) := by
  cases op with
  | startPass =>
      unfold TradeState.step
      dsimp only
      split
      · rename_i hidle hpass
        exact ⟨h.rows, h.owned, h.candidates.started, hidle ▸ trivial, h.listed, h.stored, h.closing⟩
      · exact h
  | writeBack input =>
      unfold TradeState.step
      dsimp only
      split
      · rename_i c copy rest hidle hpass
        split
        · exact h
        · refine h.writeBack hpass fun next hnext => ⟨?_, fun id hopen => ?_⟩
          · exact (passResult_candidateId hnext).trans
              (h.candidates.copied c copy (hpass ▸ List.mem_cons_self))
          · exact passResult_holds
              (h.candidates.copies c id copy hopen (hpass ▸ List.mem_cons_self)) hnext
      · exact h
  | openCandidate at' now sizing draw =>
      unfold TradeState.step
      dsimp only
      split
      · rename_i c copy rest hidle hpass
        split
        · rename_i hstate
          exact h.openCandidate hidle hpass hstate at' now sizing draw
        · exact h
      · exact h
  | commitEntry =>
      unfold TradeState.step
      dsimp only
      split
      · rename_i req hchecked
        exact h.commitEntry hchecked
      · exact h
  | bookEntry at' =>
      unfold TradeState.step
      dsimp only
      split
      · rename_i req quote committed c copy rest hcommitted hpass
        exact h.bookEntry hcommitted hpass at'
      · exact h
  | abortPass => exact h.abortPass
  | discover candidateId mint poolAddress detectedAt observedAt persist =>
      exact ⟨h.rows, h.owned, h.candidates.discovered rfl, h.entry, h.listed, h.stored, h.closing⟩
  | touch candidateId observedAt =>
      unfold TradeState.step
      dsimp only
      split
      · exact h
      · rename_i candidate hget
        have hkey : candidate.candidateId = candidateId := h.candidates.keyed _ candidate hget
        refine ⟨h.rows, h.owned, h.candidates.put hkey fun id hopen => ?_, h.entry, h.listed,
          h.stored, h.closing⟩
        obtain ⟨found, hfound, hholds⟩ := h.candidates.stored _ id hopen
        rw [hget] at hfound
        cases hfound
        exact hholds
  | listPositions => exact h.listPositions config
  | quotePosition quote => exact h.quotePosition config quote
  | quoteFailed => exact h.quoteFailed config
  | giveUp now => exact h.giveUp now
  | mark now => exact h.mark config now
  | writeMarks => exact h.writeMarks config
  | exitPosition positionId price now momentumExit emergencyExit =>
      exact h.exitPosition config positionId price now momentumExit emergencyExit
  | callClose draw now =>
      unfold TradeState.step
      dsimp only
      split
      · rename_i closing hclosing _
        split
        · exact h
        · rename_i position hget
          exact h.callClose hclosing hget draw now (hop closing hclosing)
      · exact h
  | commitExit now =>
      unfold TradeState.step
      dsimp only
      split
      · rename_i closing req hclosing hchecked
        exact h.commitExit hclosing hchecked now
      · exact h
  | bookExit now =>
      unfold TradeState.step
      dsimp only
      split
      · rename_i closing req committed hclosing hcommitted
        exact h.bookExit hclosing hcommitted now
      · exact h
  | abortExit now =>
      unfold TradeState.step
      dsimp only
      split
      · exact h.exitIdle.closeFailed _ now
      · exact h
  | upserted n =>
      unfold TradeState.step
      dsimp only
      split
      · exact h
      · rename_i candidate hget
        refine ⟨h.rows, h.owned, h.candidates, h.entry, h.listed, fun c found hfound => ?_, h.closing⟩
        rw [Dict.get?_set] at hfound
        split at hfound
        · rename_i heq
          cases hfound
          exact heq
        · exact h.stored c found hfound
  | restart signals now =>
      unfold TradeState.step
      dsimp only
      split
      · exact h
      · rename_i ledger hstart
        exact h.restarted hstart hop

/-- In every state that a run reaches without the two mishaps, the candidate of an open position is
in a position state: it is neither rejected nor closed, and no swap of its pool is filtered as
terminal. -/
theorem run_follows (config : TradeConfig) (filter : FilterConfig) (startingEquity : ℚ)
    (now : Time) (ops : List TradeOp)
    (h : Along Resumable (TradeState.step config)
      (TradeState.init config.broker startingEquity now) ops) :
    let s := exec (TradeState.step config) (TradeState.init config.broker startingEquity now) ops
    ∀ id p, s.ledger.positions.get? id = some p → p.status = .opened →
      ∃ c candidate, p.context.candidateId = some c ∧
        s.pipeline.candidates.get? c = some candidate ∧ ¬ Terminal candidate.state ∧
        ∀ (pools : Dict String PoolRecord) (pool : PoolRecord) (event : EventEnvelope),
          event.pool?.bind pools.get? = some pool →
          filter.candidateId pool.baseMint pool.poolAddress = c →
          eventStateFilterReason filter pools s.pipeline.candidates event ≠ some .terminal := by
  intro s id p hget hopen
  have hfollowing : Following s :=
    h.invariant (fun s op hs hop => hs.step config op hop)
      (TradeState.init_follows config.broker startingEquity now)
  obtain ⟨c, hc⟩ := hfollowing.owned.owner id p hget
  obtain ⟨candidate, hstored, hholds⟩ := hfollowing.candidates.stored c id ⟨p, hget, hopen, hc⟩
  refine ⟨c, candidate, hc, hstored, hholds.not_terminal, ?_⟩
  rintro pools pool event hpool rfl hterminal
  unfold eventStateFilterReason at hterminal
  split at hterminal
  · cases hterminal
  · rw [hpool] at hterminal
    dsimp only at hterminal
    rw [hstored] at hterminal
    dsimp only at hterminal
    rw [candidateFilterReason_holds hholds] at hterminal
    split at hterminal
    · cases hterminal
    · cases hterminal

/-! ## Two runs -/

/-- A pool without a reason to reject it. -/
def cleanContext (now : Time) : SecurityContext where
  mint := { tokenProgram := splTokenProgramId, decimals := 6, totalSupplyRaw := 1000000 }
  holders := some {}
  holdersObservedAt := some now
  execution := ⟨true, true, 1 / 100, 1 / 100, 1 / 100, now⟩
  quoteMint := Security.wsolMint
  quoteLiquidityUsd := 50000
  liquidityChange30s := 0
  poolAgeSeconds := 60
  externalSuccessfulSellers := 5
  streamObservedAt := now

/-- An iteration of the pass over a candidate that meets every threshold. -/
def cleanInput (price : ℚ) (now : Time) : PassInput where
  evaluateInput :=
    { snapshot :=
        { snapshotTime := now, buyerAcceleration := 2, currentPriceUsd := price
          rollingVwap30s := 1, localHigh := 12 / 10, drawdownFromLocalHigh := 15 / 100 }
      security := some ⟨SecurityEngine.evaluate {} (cleanContext now) now, {}, _, now, rfl⟩
      score := some ⟨90⟩
      sellRouteAvailable := true }
  gateEnabled := true
  entryRules := true
  entryHandler := some none

def cleanPass (price : ℚ) (now : Time) : List TradeOp :=
  [.startPass, .writeBack (cleanInput price now)]

def sampleTrade : TradeConfig := { broker := sampleBroker }

def entryDraw : EntryDraw where
  positionId := "position"
  id_ne := by decide
  fillId := "fill-entry"
  quoteId := "quote-entry"
  filledAt := seconds 57
  quote := some entryQuote

/-- A new candidate becomes `ENTRY_PENDING`, and each of its states is stored. -/
def toEntryPending : List TradeOp :=
  .discover "candidate" "TOKEN" "pool" 0 0 true ::
    (cleanPass 1 (seconds 1) ++ cleanPass 1 (seconds 46) ++ cleanPass 1 (seconds 47) ++
      cleanPass 1 (seconds 48) ++ cleanPass 1 (seconds 49) ++ cleanPass 1 (seconds 54) ++
      cleanPass (13 / 10) (seconds 55)) ++ List.replicate 8 (.upserted 0)

/-- The entry is committed and booked. -/
def enter : List TradeOp :=
  [.startPass, .openCandidate (seconds 56) (seconds 56) (.ok 20) entryDraw, .commitEntry,
    .bookEntry (seconds 57)]

def sampleFilter : FilterConfig := { candidateId := fun _ _ => "candidate" }

/-- The process restarts after the write of `POSITION_OPEN`. -/
def storedEntry : List TradeOp :=
  toEntryPending ++ enter ++ [.upserted 0, .restart [] (seconds 60)]

theorem run_follows_storedEntry :
    ∃ c candidate, (exec (TradeState.step sampleTrade) (TradeState.init sampleTrade.broker 500 0)
      storedEntry).pipeline.candidates.get? c = some candidate ∧ ¬ Terminal candidate.state := by
  have hopen : ((exec (TradeState.step sampleTrade) (TradeState.init sampleTrade.broker 500 0)
      storedEntry).ledger.positions.get? "position").map (·.status) = some .opened := by
    decide +kernel
  obtain ⟨p, hget, hstatus⟩ := Option.map_eq_some_iff.mp hopen
  obtain ⟨c, candidate, -, hstored, hnot, -⟩ := run_follows sampleTrade sampleFilter 500 0
    storedEntry (by decide +kernel) "position" p hget hstatus
  exact ⟨c, candidate, hstored, hnot⟩

/-- The process stops between the commit and the write of `POSITION_OPEN`; the next pass decides the
candidate. -/
def crashedEntry (decision : TradeOp) : List TradeOp :=
  toEntryPending ++ enter ++ [.restart [] (seconds 60), .startPass, decision]

def samplePools : Dict String PoolRecord :=
  Dict.empty.set "pool"
    { poolAddress := "pool", baseMint := "TOKEN", quoteMint := Security.wsolMint
      protocol := .pumpswap, baseVault := none, quoteVault := none
      creationSignature := "signature", creationSlot := 1, creationTime := 0
      baseDecimals := 6, quoteDecimals := 9, sourceOrientationReversed := false, updatedAt := 0 }

def sampleSwap : EventEnvelope where
  eventId := "swap"
  source := .solanaWss
  protocol := .pumpswap
  eventType := .swapSell
  slot := 2
  signature := "signature-swap"
  blockTime := seconds 62
  observedAt := seconds 62
  mint := some "TOKEN"
  poolAddress := some "pool"

/-- The position is open, its candidate is rejected, and a swap of its pool is filtered. -/
def Abandoned (s : TradeState) : Prop :=
  (s.ledger.positions.get? "position").map (fun p => (p.status, p.context.candidateId)) =
      some (.opened, some "candidate") ∧
    (s.pipeline.candidates.get? "candidate").map (·.state) = some .rejected ∧
    eventStateFilterReason sampleFilter samplePools s.pipeline.candidates sampleSwap =
      some .terminal

instance (s : TradeState) : Decidable (Abandoned s) := inferInstanceAs (Decidable (_ ∧ _ ∧ _))

/-- After the crash the candidate is rejected whether the gate is closed, or the entry rules fail,
or `_open_candidate` is called. -/
theorem crashed_entry_rejected :
    Abandoned (exec (TradeState.step sampleTrade) (TradeState.init sampleTrade.broker 500 0)
      (crashedEntry (.writeBack { cleanInput 1 (seconds 61) with gateEnabled := false }))) ∧
    Abandoned (exec (TradeState.step sampleTrade) (TradeState.init sampleTrade.broker 500 0)
      (crashedEntry (.writeBack { cleanInput 1 (seconds 61) with entryRules := false }))) ∧
    Abandoned (exec (TradeState.step sampleTrade) (TradeState.init sampleTrade.broker 500 0)
      (crashedEntry (.openCandidate (seconds 61) (seconds 61) (.ok 20) entryDraw))) := by
  decide +kernel

end SniperBot.Runtime
