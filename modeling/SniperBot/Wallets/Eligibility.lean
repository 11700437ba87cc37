import SniperBot.Wallets.Analyzer

/-!
# Relations that are enough for a cluster

A buy scores the pairs of its wallet with the evidence of its mint and overwrites what other mints
said about them, unless there is no evidence at all. So a pair loses its eligibility exactly when
one item other than a shared funder is all that a later buy finds (`observe_keeps_iff`).

Where this does not happen, the pairs eligible in the end are those that some buy found eligible.
What a buy finds depends on the earlier events of its mint and on the funders of the two wallets.
If the buys saw the same funders in both orders, the order between mints does not matter
(`eligible_iff_of_same_by_mint`).
-/

namespace SniperBot.Wallets

open Basis Features

variable {a : Analyzer} {event : WalletEvent} {key : String × String}

/-- The stored relation of the pair is enough for a cluster. -/
def Eligible (a : Analyzer) (key : String × String) : Prop :=
  ∃ relation, a.relations.get? key = some relation ∧ relation.eligibleForCluster = true

/-- The state of the analyzer after a call. -/
def observed (a : Analyzer) (event : WalletEvent) : Analyzer := (a.observe event).1

/-! ## What a buy evaluates -/

/-- The analyzer when the buyers of a new event are observed. -/
def Analyzer.prepared (a : Analyzer) (event : WalletEvent) : Analyzer :=
  ((({ a with seenEventIds := insert event.eventId a.seenEventIds }.observeWallet event
    ).1.observeCreation event).1.observeOutcome event).1

/-- The wallet of a new buy, and the state that its pairs are scored with. -/
def scored (a : Analyzer) (event : WalletEvent) : Option (String × RelationState) :=
  if event.eventId ∈ a.seenEventIds then none
  else event.buy?.map fun (mint, buy) =>
    (buy.wallet, (observeBuyer ((a.books.get? mint).getD {}) buy).2)

/-- The pairs that an event evaluates. -/
def evaluatedBy (a : Analyzer) (event : WalletEvent) : List (String × String) :=
  match scored a event with
  | none => []
  | some (wallet, state) =>
      if state.evidence.entries = [] then [] else evaluatedPairs wallet state.scope

/-- How many of slot, bundle and amount the pair shares according to the event. -/
def itemsFound (a : Analyzer) (event : WalletEvent) (key : String × String) : Nat :=
  match scored a event with
  | none => 0
  | some (_, state) =>
      let (slot, bundle, amount) := sharedItems state.evidence key.1 key.2
      mediumCount slot bundle amount

/-- The wallets of the pair have the same funder when the event scores them. -/
def funderFound (a : Analyzer) (event : WalletEvent) (key : String × String) : Bool :=
  sharedFunder (a.prepared event).profiles key.1 key.2

/-! ## One call -/

/-- The parts of the analyzer that only buys and the test for repeated events touch. -/
def Analyzer.trade (a : Analyzer) :
    Dict (String × String) WalletRelation × Dict String BuyerState × Finset String :=
  (a.relations, a.books, a.seenEventIds)

theorem observeWallet_trade (a : Analyzer) (event : WalletEvent) :
    (a.observeWallet event).1.trade = a.trade := by
  unfold Analyzer.observeWallet
  split <;> rfl

theorem observeCreation_trade (a : Analyzer) (event : WalletEvent) :
    (a.observeCreation event).1.trade = a.trade := by
  unfold Analyzer.observeCreation
  split <;> rfl

theorem observeOutcome_trade (a : Analyzer) (event : WalletEvent) :
    (a.observeOutcome event).1.trade = a.trade := by
  unfold Analyzer.observeOutcome
  dsimp only
  split <;> rfl

theorem prepared_trade (a : Analyzer) (event : WalletEvent) : (a.prepared event).trade =
    (a.relations, a.books, insert event.eventId a.seenEventIds) := by
  rw [Analyzer.prepared, observeOutcome_trade, observeCreation_trade, observeWallet_trade]
  rfl

theorem prepared_relations : (a.prepared event).relations = a.relations :=
  congrArg (·.1) (prepared_trade a event)

theorem prepared_books : (a.prepared event).books = a.books :=
  congrArg (·.2.1) (prepared_trade a event)

theorem prepared_seen :
    (a.prepared event).seenEventIds = insert event.eventId a.seenEventIds :=
  congrArg (·.2.2) (prepared_trade a event)

section Loop

variable (profiles : Dict String WalletProfile) (evidence : Dict String BuyerEvidence)
  (state : Dict (String × String) WalletRelation × List WalletRelation)

/-- One pass of the loop stores the relation of its pair if there is some evidence. -/
theorem get?_storeRelation (first key : String × String) :
    (storeRelation profiles evidence state first).1.get? key =
      if first = key ∧ (pairEvidence profiles evidence key).active ≠ [] then
        some (scoreRelation key.1 key.2 (pairEvidence profiles evidence key))
      else state.1.get? key := by
  unfold storeRelation
  dsimp only
  by_cases hnone : (pairEvidence profiles evidence first).active = []
  · rw [if_pos (show (scoreRelation _ _ _).evidence = [] from hnone), if_neg]
    rintro ⟨rfl, hsome⟩
    exact hsome hnone
  · rw [if_neg (show ¬ (scoreRelation _ _ _).evidence = [] from hnone)]
    by_cases hkey : first = key
    · subst hkey
      rw [if_pos (⟨rfl, hnone⟩ : first = first ∧ _)]
      by_cases hsame : state.1.get? first =
          some (scoreRelation first.1 first.2 (pairEvidence profiles evidence first))
      · rw [if_pos hsame]
        exact hsame
      · rw [if_neg hsame]
        exact Dict.get?_set_self _ _ _
    · rw [if_neg (fun h : first = key ∧ _ => hkey h.1)]
      by_cases hsame : state.1.get? first =
          some (scoreRelation first.1 first.2 (pairEvidence profiles evidence first))
      · rw [if_pos hsame]
      · rw [if_neg hsame]
        exact Dict.get?_set_ne _ hkey _

/-- The loop stores the relation of every pair with some evidence. -/
theorem get?_foldl_storeRelation (keys : List (String × String)) (key : String × String) :
    (keys.foldl (storeRelation profiles evidence) state).1.get? key =
      if key ∈ keys ∧ (pairEvidence profiles evidence key).active ≠ [] then
        some (scoreRelation key.1 key.2 (pairEvidence profiles evidence key))
      else state.1.get? key := by
  induction keys generalizing state with
  | nil => simp
  | cons first rest ih =>
      rw [List.foldl_cons, ih, get?_storeRelation]
      by_cases hsome : (pairEvidence profiles evidence key).active = []
      · simp [hsome]
      · by_cases hrest : key ∈ rest
        · simp [hsome, hrest]
        · simp [hsome, hrest, eq_comm]

end Loop

theorem observed_seen (h : event.eventId ∈ a.seenEventIds) : observed a event = a := by
  rw [observed, Analyzer.observe, if_pos h]

/-- A new event ends with its buy. -/
theorem observed_new (h : event.eventId ∉ a.seenEventIds) :
    observed a event = ((a.prepared event).observeBuy event).1 := by
  rw [observed, Analyzer.observe, if_neg h]
  rfl

/-- The evidence that an event finds for a pair. -/
def evidenceFound (a : Analyzer) (event : WalletEvent) (key : String × String) :
    RelationEvidence :=
  match scored a event with
  | none => {}
  | some (_, state) => pairEvidence (a.prepared event).profiles state.evidence key

/-- The relation of a pair after a call. -/
theorem get?_observed (a : Analyzer) (event : WalletEvent) (key : String × String) :
    (observed a event).relations.get? key =
      if key ∈ evaluatedBy a event ∧ (evidenceFound a event key).active ≠ [] then
        some (scoreRelation key.1 key.2 (evidenceFound a event key))
      else a.relations.get? key := by
  by_cases hseen : event.eventId ∈ a.seenEventIds
  · have hnone : evaluatedBy a event = [] := by rw [evaluatedBy, scored, if_pos hseen]
    simp [observed_seen hseen, hnone]
  · rw [observed_new hseen, Analyzer.observeBuy]
    cases hbuy : event.buy? with
    | none =>
        have hnone : evaluatedBy a event = [] := by
          rw [evaluatedBy, scored, if_neg hseen, hbuy]
          rfl
        simp [hnone, prepared_relations]
    | some entry =>
        obtain ⟨mint, buy⟩ := entry
        have hscored : scored a event =
            some (buy.wallet, (observeBuyer ((a.books.get? mint).getD {}) buy).2) := by
          rw [scored, if_neg hseen, hbuy]
          rfl
        have hfound : evidenceFound a event key = pairEvidence (a.prepared event).profiles
            (observeBuyer ((a.books.get? mint).getD {}) buy).2.evidence key := by
          rw [evidenceFound, hscored]
        simp only [prepared_books, prepared_relations, recomputeRelations, evaluatedBy, hscored,
          hfound]
        by_cases hempty :
            (observeBuyer ((a.books.get? mint).getD {}) buy).2.evidence.entries = []
        · simp [hempty]
        · rw [if_neg hempty, if_neg hempty, get?_foldl_storeRelation]

/-- Enough evidence: a shared funder, or two shared items. -/
def FindsEnough (a : Analyzer) (event : WalletEvent) (key : String × String) : Prop :=
  key ∈ evaluatedBy a event ∧ (funderFound a event key = true ∨ 2 ≤ itemsFound a event key)

/-- Some evidence that is not enough: one shared item and nothing else. -/
def FindsOneItem (a : Analyzer) (event : WalletEvent) (key : String × String) : Prop :=
  key ∈ evaluatedBy a event ∧ funderFound a event key = false ∧ itemsFound a event key = 1

theorem evidenceFound_eq (h : key ∈ evaluatedBy a event) : ∃ slot bundle amount,
    evidenceFound a event key =
        observedEvidence (funderFound a event key) slot bundle amount ∧
      itemsFound a event key = mediumCount slot bundle amount := by
  cases hscored : scored a event with
  | none =>
      rw [evaluatedBy, hscored] at h
      cases h
  | some entry =>
      refine ⟨(sharedItems entry.2.evidence key.1 key.2).1,
        (sharedItems entry.2.evidence key.1 key.2).2.1,
        (sharedItems entry.2.evidence key.1 key.2).2.2, ?_, ?_⟩
      · rw [evidenceFound, hscored]
        rfl
      · rw [itemsFound, hscored]

/-- The eligible pairs after a call. -/
theorem eligible_observed_iff (a : Analyzer) (event : WalletEvent) (key : String × String) :
    Eligible (observed a event) key ↔
      FindsEnough a event key ∨ Eligible a key ∧ ¬ FindsOneItem a event key := by
  unfold Eligible
  rw [get?_observed]
  by_cases hevaluates : key ∈ evaluatedBy a event
  · obtain ⟨slot, bundle, amount, hfound, hitems⟩ := evidenceFound_eq hevaluates
    have hnone := observedEvidence_active_eq_nil (funderFound a event key) slot bundle amount
    have henough := enough_observedEvidence (funderFound a event key) slot bundle amount
    rw [← hfound, ← hitems] at hnone henough
    simp only [FindsEnough, FindsOneItem, hevaluates, true_and]
    by_cases hsome : (evidenceFound a event key).active = []
    · obtain ⟨hfunder, hzero⟩ := hnone.mp hsome
      simp [hsome, hfunder, hzero]
    · rw [if_pos hsome]
      have heligible : (∃ relation, some (scoreRelation key.1 key.2 (evidenceFound a event key)) =
          some relation ∧ relation.eligibleForCluster = true) ↔
          enough (evidenceFound a event key).active = true := by
        simp [scoreRelation]
      rw [heligible, henough]
      have hmore := mt hnone.mpr hsome
      cases hfunder : funderFound a event key with
      | true => simp
      | false =>
          rw [hfunder] at hmore
          have hpos : itemsFound a event key ≠ 0 := fun hzero => hmore ⟨rfl, hzero⟩
          constructor
          · rintro (h | h)
            · cases h
            · exact Or.inl (Or.inr h)
          · rintro ((h | h) | ⟨-, h⟩)
            · cases h
            · exact Or.inr h
            · exact Or.inr (by have hone := mt (And.intro rfl) h; omega)
  · simp only [FindsEnough, FindsOneItem, hevaluates, false_and, false_or, not_false_eq_true,
      and_true, if_false]

/-! ## Staying eligible -/

/-- The event finds one item only for no eligible pair that it evaluates. -/
def Keeps (a : Analyzer) (event : WalletEvent) : Prop :=
  ∀ key ∈ evaluatedBy a event, Eligible a key → ¬ FindsOneItem a event key

theorem Eligible.observed (h : Eligible a key) (hkeeps : Keeps a event) :
    Eligible (observed a event) key :=
  (eligible_observed_iff a event key).mpr (Or.inr ⟨h, fun hone => hkeeps key hone.1 h hone⟩)

/-- Every pair that is eligible at some point of the run is eligible at every later point. -/
def StaysEligible (a : Analyzer) (events : List WalletEvent) : Prop :=
  ∀ first later rest, events = first ++ later ++ rest → ∀ key,
    Eligible (exec observed a first) key → Eligible (exec observed a (first ++ later)) key

/-- Pairs stay eligible in a run exactly if no event finds one item only for an eligible pair. -/
theorem staysEligible_iff (a : Analyzer) (events : List WalletEvent) :
    StaysEligible a events ↔ Along Keeps observed a events := by
  constructor
  · intro h
    induction events generalizing a with
    | nil => trivial
    | cons event events ih =>
        refine ⟨fun key _ heligible hone => ?_, ih _ fun first later rest heq key => ?_⟩
        · have hafter := h [] [event] events rfl key heligible
          rw [List.nil_append, exec_cons, exec_nil, eligible_observed_iff] at hafter
          have ⟨_, hfunder, hitems⟩ := hone
          rcases hafter with ⟨-, henough⟩ | ⟨-, hnot⟩
          · rw [hfunder, hitems] at henough
            rcases henough with h | h
            · cases h
            · omega
          · exact hnot hone
        · exact h (event :: first) later rest (by rw [heq]; rfl) key
  · rintro h first later rest rfl key heligible
    rw [List.append_assoc, Along.append_iff, Along.append_iff] at h
    rw [exec_append]
    exact h.2.1.invariant (I := fun a => Eligible a key)
      (fun _ _ heligible hkeeps => heligible.observed hkeeps) heligible

/-! ## The order between mints -/

/-- The two wallets have the same funder. -/
def SharesFunder (funder : String → Option String) (key : String × String) : Prop :=
  ∃ source, funder key.1 = some source ∧ source ≠ "" ∧ funder key.2 = some source

/-- When the event scores a pair, the profiles tell whether its wallets share a funder. -/
def SeesFunders (funder : String → Option String) (a : Analyzer) (event : WalletEvent) : Prop :=
  ∀ key ∈ evaluatedBy a event, funderFound a event key = true ↔ SharesFunder funder key

/-- Every mint has the same events in the same order. -/
def SameByMint (events events' : List WalletEvent) : Prop :=
  ∀ mint, events.filter (·.mint = mint) = events'.filter (·.mint = mint)

/-- Events with one id belong to one mint. -/
def IdsNameMints (events : List WalletEvent) : Prop :=
  ∀ e ∈ events, ∀ e' ∈ events, e.eventId = e'.eventId → e.mint = e'.mint

theorem mem_seen_observed (a : Analyzer) (event : WalletEvent) (id : String) :
    id ∈ (observed a event).seenEventIds ↔ id = event.eventId ∨ id ∈ a.seenEventIds := by
  by_cases hseen : event.eventId ∈ a.seenEventIds
  · rw [observed_seen hseen]
    constructor
    · exact Or.inr
    · rintro (rfl | h)
      · exact hseen
      · exact h
  · have hafter : (observed a event).seenEventIds = (a.prepared event).seenEventIds := by
      rw [observed_new hseen, Analyzer.observeBuy]
      split <;> rfl
    rw [hafter, prepared_seen, Finset.mem_insert]

/-- The events that a run has seen. -/
theorem mem_seen_exec (a : Analyzer) (events : List WalletEvent) (id : String) :
    id ∈ (exec observed a events).seenEventIds ↔
      id ∈ a.seenEventIds ∨ ∃ e ∈ events, e.eventId = id := by
  induction events generalizing a with
  | nil => simp
  | cons event events ih =>
      rw [exec_cons, ih, mem_seen_observed]
      constructor
      · rintro ((rfl | h) | ⟨e, he, rfl⟩)
        · exact Or.inr ⟨event, List.mem_cons_self, rfl⟩
        · exact Or.inl h
        · exact Or.inr ⟨e, List.mem_cons_of_mem _ he, rfl⟩
      · rintro (h | ⟨e, he, rfl⟩)
        · exact Or.inl (Or.inr h)
        · rcases List.mem_cons.mp he with rfl | he
          · exact Or.inl (Or.inl rfl)
          · exact Or.inr ⟨e, he, rfl⟩

/-- Whether an event is new depends on the earlier events of its mint only. -/
theorem seen_iff_filter (a : Analyzer) {earlier : List WalletEvent}
    (h : ∀ e ∈ earlier, e.eventId = event.eventId → e.mint = event.mint) :
    event.eventId ∈ (exec observed a earlier).seenEventIds ↔
      event.eventId ∈ (exec observed a (earlier.filter (·.mint = event.mint))).seenEventIds := by
  rw [mem_seen_exec, mem_seen_exec]
  refine or_congr_right ⟨?_, ?_⟩
  · rintro ⟨e, he, hid⟩
    exact ⟨e, List.mem_filter.mpr ⟨he, decide_eq_true (h e he hid)⟩, hid⟩
  · rintro ⟨e, he, hid⟩
    exact ⟨e, (List.mem_filter.mp he).1, hid⟩

/-- A buy belongs to the mint of its event. -/
theorem mint_of_buy {mint : String} {buy : Buy} (h : event.buy? = some (mint, buy)) :
    event.mint = some mint := by
  unfold WalletEvent.buy? at h
  split at h
  · obtain ⟨own, hown, hrest⟩ := Option.bind_eq_some_iff.mp h
    obtain ⟨wallet, -, hpair⟩ := Option.map_eq_some_iff.mp hrest
    rw [← (Prod.mk.inj hpair).1]
    exact (Option.filter_eq_some_iff.mp hown).1
  · cases h

/-- The buyers of a mint after a call. -/
theorem book_observed (a : Analyzer) (event : WalletEvent) (mint : String) :
    (observed a event).books.get? mint =
      if event.eventId ∈ a.seenEventIds then a.books.get? mint
      else match event.buy? with
        | some (own, buy) =>
            if own = mint then some (observeBuyer ((a.books.get? mint).getD {}) buy).1
            else a.books.get? mint
        | none => a.books.get? mint := by
  by_cases hseen : event.eventId ∈ a.seenEventIds
  · rw [observed_seen hseen, if_pos hseen]
  · rw [observed_new hseen, if_neg hseen, Analyzer.observeBuy]
    cases hbuy : event.buy? with
    | none => simp only [prepared_books]
    | some entry =>
        obtain ⟨own, buy⟩ := entry
        simp only [prepared_books, Dict.get?_set]
        by_cases hown : own = mint
        · rw [if_pos hown, if_pos hown, hown]
        · rw [if_neg hown, if_neg hown]

/-- The buyers of a mint depend on the events of the mint only. -/
theorem book_exec_filter (a : Analyzer) {events : List WalletEvent} (hids : IdsNameMints events)
    (mint : String) : (exec observed a events).books.get? mint =
      (exec observed a (events.filter (·.mint = some mint))).books.get? mint := by
  induction events using List.reverseRecOn with
  | nil => rfl
  | append_singleton earlier event ih =>
      have hearlier := ih fun e he e' he' => hids e (List.mem_append_left _ he) e'
        (List.mem_append_left _ he')
      have hnames : ∀ e ∈ earlier, e.eventId = event.eventId → e.mint = event.mint :=
        fun e he => hids e (List.mem_append_left _ he) event
          (List.mem_append_right _ (List.mem_singleton_self _))
      rw [List.filter_append, exec_append, exec_append, exec_cons, exec_nil, book_observed]
      by_cases hmint : event.mint = some mint
      · have hfilter : [event].filter (·.mint = some mint) = [event] := by simp [hmint]
        have hseen := seen_iff_filter a hnames
        rw [hmint] at hseen
        rw [hfilter, exec_cons, exec_nil, book_observed, hearlier]
        by_cases h : event.eventId ∈ (exec observed a earlier).seenEventIds
        · rw [if_pos h, if_pos (hseen.mp h)]
        · rw [if_neg h, if_neg (mt hseen.mpr h)]
      · have hfilter : [event].filter (·.mint = some mint) = [] := by simp [hmint]
        rw [hfilter, exec_nil, ← hearlier]
        split
        · rfl
        · split
          · rename_i own buy hbuy
            rw [if_neg]
            rintro rfl
            exact hmint (mint_of_buy hbuy)
          · rfl

/-- What an event scores depends on the earlier events of its mint only. -/
theorem scored_filter (a : Analyzer) {earlier : List WalletEvent}
    (hids : IdsNameMints (earlier ++ [event])) :
    scored (exec observed a earlier) event =
      scored (exec observed a (earlier.filter (·.mint = event.mint))) event := by
  have hnames : ∀ e ∈ earlier, e.eventId = event.eventId → e.mint = event.mint :=
    fun e he => hids e (List.mem_append_left _ he) event
      (List.mem_append_right _ (List.mem_singleton_self _))
  have hearlier : IdsNameMints earlier := fun e he e' he' =>
    hids e (List.mem_append_left _ he) e' (List.mem_append_left _ he')
  have hseen := seen_iff_filter a hnames
  unfold scored
  by_cases h : event.eventId ∈ (exec observed a earlier).seenEventIds
  · rw [if_pos h, if_pos (hseen.mp h)]
  · rw [if_neg h, if_neg (mt hseen.mpr h)]
    cases hbuy : event.buy? with
    | none => rfl
    | some entry =>
        obtain ⟨mint, buy⟩ := entry
        simp only [Option.map_some]
        rw [book_exec_filter a hearlier mint, mint_of_buy hbuy]

/-- The event finds the pair eligible, whatever the profiles of its analyzer say. -/
def FindsEnoughWith (funder : String → Option String) (a : Analyzer) (event : WalletEvent)
    (key : String × String) : Prop :=
  key ∈ evaluatedBy a event ∧ (SharesFunder funder key ∨ 2 ≤ itemsFound a event key)

theorem findsEnoughWith_congr {funder : String → Option String} {b : Analyzer}
    (h : scored a event = scored b event) :
    FindsEnoughWith funder a event key ↔ FindsEnoughWith funder b event key := by
  unfold FindsEnoughWith evaluatedBy itemsFound
  rw [h]

theorem SeesFunders.findsEnough_iff {funder : String → Option String}
    (h : SeesFunders funder a event) :
    FindsEnough a event key ↔ FindsEnoughWith funder a event key :=
  and_congr_right fun hmem => or_congr_left (h key hmem)

/-- The eligible pairs after a run: those before it, and those that some event found. -/
theorem eligible_exec_iff {funder : String → Option String} {events : List WalletEvent}
    (hkeeps : Along Keeps observed a events)
    (hsees : Along (SeesFunders funder) observed a events) :
    Eligible (exec observed a events) key ↔ Eligible a key ∨
      ∃ earlier event rest, events = earlier ++ event :: rest ∧
        FindsEnoughWith funder (exec observed a earlier) event key := by
  induction events generalizing a with
  | nil => simp
  | cons event events ih =>
      have hstep : Eligible (observed a event) key ↔
          Eligible a key ∨ FindsEnoughWith funder a event key := by
        rw [eligible_observed_iff, hsees.1.findsEnough_iff]
        constructor
        · rintro (h | h)
          · exact Or.inr h
          · exact Or.inl h.1
        · rintro (h | h)
          · exact Or.inr ⟨h, fun hone => hkeeps.1 key hone.1 h hone⟩
          · exact Or.inl h
      rw [exec_cons, ih hkeeps.2 hsees.2, hstep]
      constructor
      · rintro ((h | h) | ⟨earlier, e, rest, rfl, h⟩)
        · exact Or.inl h
        · exact Or.inr ⟨[], event, events, rfl, h⟩
        · exact Or.inr ⟨event :: earlier, e, rest, rfl, h⟩
      · rintro (h | ⟨earlier, e, rest, heq, h⟩)
        · exact Or.inl (Or.inl h)
        · cases earlier with
          | nil =>
              cases heq
              exact Or.inl (Or.inr h)
          | cons first earlier =>
              cases heq
              exact Or.inr ⟨earlier, e, rest, rfl, h⟩

theorem IdsNameMints.of_prefix {earlier rest : List WalletEvent}
    (h : IdsNameMints (earlier ++ event :: rest)) : IdsNameMints (earlier ++ [event]) := by
  have hsub : ∀ x ∈ earlier ++ [event], x ∈ earlier ++ event :: rest := by
    intro x hx
    rcases List.mem_append.mp hx with hx | hx
    · exact List.mem_append_left _ hx
    · exact List.mem_append_right _ (List.mem_singleton.mp hx ▸ List.mem_cons_self)
  exact fun e he e' he' => h e (hsub e he) e' (hsub e' he')

/-- The same pairs, found among the events of each mint by itself. -/
theorem exists_finds_iff {funder : String → Option String} {events : List WalletEvent}
    (hids : IdsNameMints events) :
    (∃ earlier event rest, events = earlier ++ event :: rest ∧
        FindsEnoughWith funder (exec observed a earlier) event key) ↔
      ∃ mint earlier event rest, events.filter (·.mint = mint) = earlier ++ event :: rest ∧
        FindsEnoughWith funder (exec observed a earlier) event key := by
  constructor
  · rintro ⟨earlier, event, rest, rfl, h⟩
    refine ⟨event.mint, earlier.filter (·.mint = event.mint), event,
      rest.filter (·.mint = event.mint), ?_, ?_⟩
    · simp [List.filter_append]
    · exact (findsEnoughWith_congr (scored_filter a hids.of_prefix)).mp h
  · rintro ⟨mint, earlier, event, rest, heq, h⟩
    obtain ⟨left, right, rfl, hleft, hright⟩ := List.filter_eq_append_iff.mp heq
    obtain ⟨skipped, rest', rfl, hskipped, hmint, -⟩ := List.filter_eq_cons_iff.mp hright
    have hmint' : event.mint = mint := of_decide_eq_true hmint
    have hfilter : (left ++ skipped).filter (·.mint = event.mint) = earlier := by
      rw [List.filter_append, hmint', hleft, List.filter_eq_nil_iff.mpr hskipped, List.append_nil]
    rw [← List.append_assoc] at hids
    refine ⟨left ++ skipped, event, rest', by rw [List.append_assoc], ?_⟩
    rw [findsEnoughWith_congr (scored_filter a hids.of_prefix), hfilter]
    exact h

theorem SameByMint.mem_iff {events events' : List WalletEvent} (h : SameByMint events events')
    (e : WalletEvent) : e ∈ events ↔ e ∈ events' := by
  have hmem := congrArg (e ∈ ·) (h e.mint)
  simpa [List.mem_filter] using hmem

theorem SameByMint.idsNameMints {events events' : List WalletEvent}
    (h : SameByMint events events') (hids : IdsNameMints events) : IdsNameMints events' :=
  fun e he e' he' => hids e ((h.mem_iff e).mpr he) e' ((h.mem_iff e').mpr he')

/-- The order between mints does not matter to the eligible pairs. -/
theorem eligible_iff_of_same_by_mint {funder : String → Option String}
    {events events' : List WalletEvent} (hsame : SameByMint events events')
    (hids : IdsNameMints events) (hkeeps : Along Keeps observed a events)
    (hsees : Along (SeesFunders funder) observed a events)
    (hkeeps' : Along Keeps observed a events')
    (hsees' : Along (SeesFunders funder) observed a events') :
    Eligible (exec observed a events) key ↔ Eligible (exec observed a events') key := by
  rw [eligible_exec_iff hkeeps hsees, eligible_exec_iff hkeeps' hsees', exists_finds_iff hids,
    exists_finds_iff (hsame.idsNameMints hids)]
  exact or_congr_right (exists_congr fun mint => by rw [hsame mint])

/-- Pairs stay eligible exactly while no event finds one item only for an eligible pair. Two such
runs with the same events of each mint, whose events see the same funders, end with the same
eligible pairs. -/
theorem run_eligible_pairs (a : Analyzer) (events : List WalletEvent) :
    (StaysEligible a events ↔ Along Keeps observed a events) ∧
    ∀ events', SameByMint events events' → IdsNameMints events → ∀ funder,
      Along Keeps observed a events → Along (SeesFunders funder) observed a events →
      Along Keeps observed a events' → Along (SeesFunders funder) observed a events' →
      ∀ key, Eligible (exec observed a events) key ↔ Eligible (exec observed a events') key :=
  ⟨staysEligible_iff a events, fun _ hsame hids _ hkeeps hsees hkeeps' hsees' _ =>
    eligible_iff_of_same_by_mint hsame hids hkeeps hsees hkeeps' hsees'⟩

/-! ## Two mints -/

instance : Decidable (Eligible a key) :=
  decidable_of_iff ((a.relations.get? key).any (·.eligibleForCluster) = true)
    (Option.any_eq_true ..)

instance : Decidable (FindsOneItem a event key) :=
  inferInstanceAs (Decidable (_ ∧ _))

instance (a : Analyzer) (event : WalletEvent) : Decidable (Keeps a event) :=
  inferInstanceAs (Decidable (∀ key ∈ evaluatedBy a event,
    Eligible a key → ¬ FindsOneItem a event key))

instance (funder : String → Option String) : Decidable (SharesFunder funder key) :=
  decidable_of_iff ((funder key.1).any (fun source =>
      decide (source ≠ "" ∧ funder key.2 = some source)) = true) (by
    simp [SharesFunder, Option.any_eq_true])

instance (funder : String → Option String) (a : Analyzer) (event : WalletEvent) :
    Decidable (SeesFunders funder a event) :=
  inferInstanceAs (Decidable (∀ key ∈ evaluatedBy a event,
    funderFound a event key = true ↔ SharesFunder funder key))

instance (events : List WalletEvent) : Decidable (IdsNameMints events) :=
  inferInstanceAs (Decidable (∀ e ∈ events, ∀ e' ∈ events, e.eventId = e'.eventId →
    e.mint = e'.mint))

/-- Runs of different mints change places. -/
theorem sameByMint_append_comm {events events' : List WalletEvent}
    (h : ∀ e ∈ events, ∀ e' ∈ events', e.mint ≠ e'.mint) :
    SameByMint (events ++ events') (events' ++ events) := by
  intro mint
  rw [List.filter_append, List.filter_append]
  by_cases hmint : ∃ e ∈ events, e.mint = mint
  · obtain ⟨e, he, rfl⟩ := hmint
    have hnone : events'.filter (·.mint = e.mint) = [] :=
      List.filter_eq_nil_iff.mpr fun e' he' heq => h e he e' he' (of_decide_eq_true heq).symm
    rw [hnone, List.append_nil, List.nil_append]
  · have hnone : events.filter (·.mint = mint) = [] :=
      List.filter_eq_nil_iff.mpr fun e he heq => hmint ⟨e, he, of_decide_eq_true heq⟩
    rw [hnone, List.append_nil, List.nil_append]

def buyEvent (id mint user : String) (slot : Int) (amount : ℚ) : WalletEvent where
  eventId := id
  eventType := .swapBuy
  slot := slot
  mint := some mint
  blockTime := seconds slot
  observedAt := seconds slot
  payload := { user := some user, quoteAmountIn := some amount }

/-- Two buys of one amount in one slot. -/
def twoItems : List WalletEvent :=
  [buyEvent "one" "FIRST" "alice" 10 2, buyEvent "two" "FIRST" "bob" 10 2]

/-- The same for another pair on another mint. -/
def otherItems : List WalletEvent :=
  [buyEvent "three" "SECOND" "alice" 20 3, buyEvent "four" "SECOND" "carol" 20 3]

theorem run_eligible_pairs_two_mints :
    Eligible (exec observed {} (twoItems ++ otherItems)) ("alice", "bob") ∧
    (Eligible (exec observed {} (twoItems ++ otherItems)) ("alice", "carol") ↔
      Eligible (exec observed {} (otherItems ++ twoItems)) ("alice", "carol")) :=
  ⟨by decide +kernel, (run_eligible_pairs {} (twoItems ++ otherItems)).2 (otherItems ++ twoItems)
    (sameByMint_append_comm (by decide +kernel)) (by decide +kernel) (fun _ => none)
    (by decide +kernel) (by decide +kernel) (by decide +kernel) (by decide +kernel) _⟩

/-- Two buys of different amounts in one slot. -/
def oneItem : List WalletEvent :=
  [buyEvent "three" "SECOND" "alice" 20 3, buyEvent "four" "SECOND" "bob" 20 4]

/-- The slot of the second mint overwrites what the first mint said. -/
theorem one_item_overwrites :
    ¬ StaysEligible {} (twoItems ++ oneItem) ∧
    SameByMint (twoItems ++ oneItem) (oneItem ++ twoItems) ∧
    ¬ ∀ key, Eligible (exec observed {} (twoItems ++ oneItem)) key ↔
      Eligible (exec observed {} (oneItem ++ twoItems)) key := by
  refine ⟨fun h => ?_, sameByMint_append_comm (by decide +kernel), fun h => ?_⟩
  · have hafter := h twoItems oneItem [] rfl ("alice", "bob") (by decide +kernel)
    exact absurd hafter (by decide +kernel)
  · have hlast := (h ("alice", "bob")).mpr (by decide +kernel)
    exact absurd hlast (by decide +kernel)

end SniperBot.Wallets
