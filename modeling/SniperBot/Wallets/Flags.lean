import SniperBot.Wallets.Counters

/-!
# Tokens that a creator dumped or drained

Two developer counters speak of something that happened once: a sale by the creator within five
minutes, a drain of the liquidity. `observe` keeps the drain but only the delay of the last sale,
and a second creation of a mint starts a new outcome. While no event does either to a token that
has such a mark, the counters agree with the outcomes (`Tallied`) and no call takes anything away
(`observed_keeps`), so they never fall over a run with block times in order.
-/

namespace SniperBot.Wallets

open Basis Features

/-! ## Marks -/

/-- The counters of things that happened once. -/
def lasting : List Counter := [.liquidityRug, .devDump5m]

/-- A sale by the creator within five minutes. -/
def TokenOutcome.dumped (outcome : TokenOutcome) : Prop :=
  ∃ delay ∈ outcome.devSellDelaySeconds, delay ≤ 300

instance (outcome : TokenOutcome) : Decidable outcome.dumped :=
  inferInstanceAs (Decidable (∃ delay ∈ outcome.devSellDelaySeconds, delay ≤ 300))

/-- The mark of an outcome that a counter counts. -/
def TokenOutcome.Marked (outcome : TokenOutcome) (counter : Counter) : Prop :=
  counter.counts outcome.createdAt outcome = true

instance (outcome : TokenOutcome) (counter : Counter) : Decidable (outcome.Marked counter) :=
  inferInstanceAs (Decidable (_ = true))

theorem marked_liquidityRug (outcome : TokenOutcome) :
    outcome.Marked .liquidityRug ↔ outcome.liquidityRug = true := Iff.rfl

theorem marked_devDump5m (outcome : TokenOutcome) : outcome.Marked .devDump5m ↔ outcome.dumped :=
  decide_eq_true_iff

/-- The mark does not depend on the instant at which it is counted. -/
theorem counts_of_lasting {counter : Counter} (h : counter ∈ lasting) (at' : Time)
    (outcome : TokenOutcome) : counter.counts at' outcome = true ↔ outcome.Marked counter := by
  obtain rfl | rfl := by simpa [lasting] using h
  · exact Iff.rfl
  · exact Iff.rfl

/-- `next` takes the place of `old` with all its marks. -/
def TokenOutcome.KeepsMarks (old next : TokenOutcome) : Prop :=
  ∀ counter ∈ lasting, old.Marked counter →
    next.creator = old.creator ∧ next.createdAt = old.createdAt ∧ next.Marked counter

theorem TokenOutcome.KeepsMarks.refl (outcome : TokenOutcome) : outcome.KeepsMarks outcome :=
  fun _ _ h => ⟨rfl, rfl, h⟩

theorem TokenOutcome.KeepsMarks.trans {first second third : TokenOutcome}
    (h : first.KeepsMarks second) (h' : second.KeepsMarks third) : first.KeepsMarks third := by
  intro counter hlasting hmarked
  obtain ⟨hcreator, hdate, hnext⟩ := h counter hlasting hmarked
  obtain ⟨hcreator', hdate', hthird⟩ := h' counter hlasting hnext
  exact ⟨hcreator'.trans hcreator, hdate'.trans hdate, hthird⟩

/-- The event does not take a mark from its token: it does not create a token that has one again,
and a sale by the creator of a dumped token is within five minutes too. -/
def SparesMarks (a : Analyzer) (event : WalletEvent) : Prop :=
  event.eventId ∈ a.seenEventIds ∨
    ∀ old ∈ a.outcomes.get? (event.mint.getD ""),
      (event.created? ≠ none → ¬ old.liquidityRug = true ∧ ¬ old.dumped) ∧
      (event.eventType = .swapSell → event.wallet = some old.creator → old.dumped →
        event.blockTime ≤ old.createdAt + seconds 300)

instance (a : Analyzer) (event : WalletEvent) : Decidable (SparesMarks a event) :=
  inferInstanceAs (Decidable (_ ∨ _))

/-- A sale within five minutes leaves a delay of at most 300 seconds. -/
theorem delay_le {sold created : Time} (h : sold ≤ created + seconds 300) :
    max 0 (totalSeconds (sold - created)) ≤ 300 := by
  have hdelta : ((sold - created : Int) : ℚ) ≤ 300 * 1000000 := by
    have hint : sold - created ≤ 300 * 1000000 := by
      unfold seconds at h
      linarith
    exact_mod_cast hint
  refine max_le (by norm_num) ?_
  unfold totalSeconds
  linarith

theorem updated_keepsMarks {old next : TokenOutcome} {event : WalletEvent}
    (h : old.updated event = some next)
    (hsale : event.eventType = .swapSell → event.wallet = some old.creator → old.dumped →
      event.blockTime ≤ old.createdAt + seconds 300) : old.KeepsMarks next := by
  unfold TokenOutcome.updated at h
  dsimp only at h
  split at h
  · obtain rfl := Option.some.inj h
    intro counter hlasting hmarked
    refine ⟨rfl, rfl, ?_⟩
    obtain rfl | rfl := by simpa [lasting] using hlasting
    · rw [marked_liquidityRug] at hmarked ⊢
      dsimp only
      split
      · rfl
      · exact hmarked
    · rw [marked_devDump5m] at hmarked ⊢
      by_cases hsold : event.eventType = .swapSell ∧ event.wallet = some old.creator
      · refine ⟨_, if_pos hsold, ?_⟩
        exact delay_le (hsale hsold.1 hsold.2 hmarked)
      · obtain ⟨delay, hdelay, hle⟩ := hmarked
        exact ⟨delay, (if_neg hsold).trans hdelay, hle⟩
  · cases h

theorem updated_createdAt {old next : TokenOutcome} {event : WalletEvent}
    (h : old.updated event = some next) : next.createdAt = old.createdAt := by
  unfold TokenOutcome.updated at h
  dsimp only at h
  split at h
  · exact (Option.some.inj h) ▸ rfl
  · cases h

/-! ## The counters agree with the outcomes -/

namespace Analyzer

/-- The counter that the profile of a wallet shows. -/
def shown (a : Analyzer) (counter : Counter) (wallet : String) : Nat :=
  ((a.profiles.get? wallet).map counter.of).getD 0

/-- An outcome of the wallet that is newer than its baseline and has the mark. -/
def Owns (a : Analyzer) (counter : Counter) (wallet : String) (item : TokenOutcome) : Prop :=
  item.creator = wallet ∧ (∀ base ∈ a.baselines.get? wallet, item.createdAt > base.profileUpdatedAt) ∧
    item.Marked counter

instance (a : Analyzer) (counter : Counter) (wallet : String) :
    DecidablePred (a.Owns counter wallet) :=
  fun item => inferInstanceAs (Decidable (item.creator = wallet ∧ _))

/-- The counter that the outcomes give a wallet. -/
def standing (a : Analyzer) (counter : Counter) (wallet : String) : Nat :=
  counter.ofBaseline (a.baselines.get? wallet) +
    a.outcomes.values.countP fun item => a.Owns counter wallet item

theorem standing_congr {a b : Analyzer} (hbaselines : b.baselines = a.baselines)
    (houtcomes : b.outcomes = a.outcomes) (counter : Counter) (wallet : String) :
    b.standing counter wallet = a.standing counter wallet := by
  obtain ⟨_, _, _, _, _, _⟩ := a
  obtain ⟨_, _, _, _, _, _⟩ := b
  obtain rfl := hbaselines
  obtain rfl := houtcomes
  rfl

/-- Every profile shows what the outcomes give. -/
structure Tallied (a : Analyzer) : Prop where
  sound : a.Sound
  tally : ∀ counter ∈ lasting, ∀ wallet, a.shown counter wallet = a.standing counter wallet

/-- No token was created later than an instant. -/
def CreatedBy (a : Analyzer) (at' : Time) : Prop :=
  ∀ mint outcome, a.outcomes.get? mint = some outcome → outcome.createdAt ≤ at'

/-- `b` has every mark that `a` has, and no profile of it shows less. -/
structure Retains (a b : Analyzer) : Prop where
  outcome : ∀ mint old, a.outcomes.get? mint = some old →
    ∃ next, b.outcomes.get? mint = some next ∧ old.KeepsMarks next
  shown : ∀ counter ∈ lasting, ∀ wallet, a.shown counter wallet ≤ b.shown counter wallet

theorem Retains.refl (a : Analyzer) : a.Retains a where
  outcome _ old hget := ⟨old, hget, .refl old⟩
  shown _ _ _ := le_rfl

theorem Retains.trans {a b c : Analyzer} (h : a.Retains b) (h' : b.Retains c) : a.Retains c where
  outcome mint old hget := by
    obtain ⟨next, hnext, hkeeps⟩ := h.outcome mint old hget
    obtain ⟨last, hlast, hkeeps'⟩ := h'.outcome mint next hnext
    exact ⟨last, hlast, hkeeps.trans hkeeps'⟩
  shown counter hlasting wallet :=
    (h.shown counter hlasting wallet).trans (h'.shown counter hlasting wallet)

end Analyzer

section Recount

variable {a : Analyzer} {mint : String} {outcome : TokenOutcome} {at' : Time}

theorem get?_recount (m : String) : (a.recount mint outcome at').1.outcomes.get? m =
    if mint = m then some outcome else a.outcomes.get? m := Dict.get?_set _ _ _ _

/-- An outcome that keeps the marks of the one before it takes no token from a wallet. -/
theorem standing_le_recount
    (hkeeps : ∀ old, a.outcomes.get? mint = some old → old.KeepsMarks outcome)
    {counter : Counter} (hlasting : counter ∈ lasting) (wallet : String) :
    a.standing counter wallet ≤ (a.recount mint outcome at').1.standing counter wallet := by
  refine Nat.add_le_add_left (Dict.countP_values_le fun m old hget howns => ?_) _
  obtain ⟨hcreator, hnew, hmarked⟩ := of_decide_eq_true howns
  rw [get?_recount]
  by_cases hm : mint = m
  · obtain ⟨hcreator', hdate, hnext⟩ := hkeeps old (hm ▸ hget) counter hlasting hmarked
    refine ⟨outcome, if_pos hm, decide_eq_true ⟨hcreator'.trans hcreator, ?_, hnext⟩⟩
    exact hdate ▸ hnew
  · exact ⟨old, (if_neg hm).trans hget, howns⟩

/-- It gives none to a wallet that is not its creator. -/
theorem standing_recount_of_ne
    (hkeeps : ∀ old, a.outcomes.get? mint = some old → old.KeepsMarks outcome)
    {counter : Counter} (hlasting : counter ∈ lasting) {wallet : String}
    (hwallet : outcome.creator ≠ wallet) :
    (a.recount mint outcome at').1.standing counter wallet = a.standing counter wallet := by
  refine le_antisymm (Nat.add_le_add_left (Dict.countP_values_le fun m next hget howns => ?_) _)
    (standing_le_recount hkeeps hlasting wallet)
  rw [get?_recount] at hget
  by_cases hm : mint = m
  · rw [if_pos hm] at hget
    obtain rfl := Option.some.inj hget
    exact absurd (of_decide_eq_true howns).1 hwallet
  · rw [if_neg hm] at hget
    exact ⟨next, hget, howns⟩

/-- The creator's profile is counted again, and no other one changes. -/
theorem shown_recount (hdated : a.CreatedBy at') (hdate : outcome.createdAt ≤ at')
    {counter : Counter} (hlasting : counter ∈ lasting) (wallet : String) :
    (a.recount mint outcome at').1.shown counter wallet =
      if outcome.creator = wallet then (a.recount mint outcome at').1.standing counter wallet
      else a.shown counter wallet := by
  have hprofiles (profile : WalletProfile) : ((a.profiles.set outcome.creator profile).get? wallet) =
      if outcome.creator = wallet then some profile else a.profiles.get? wallet :=
    Dict.get?_set _ _ _ _
  unfold Analyzer.shown
  by_cases hwallet : outcome.creator = wallet
  · rw [if_pos hwallet]
    change (((a.profiles.set outcome.creator _).get? wallet).map counter.of).getD 0 = _
    rw [hprofiles, if_pos hwallet, Option.map_some, Option.getD_some, Counter.of_rebuiltProfile,
      Analyzer.standing, countedOutcomes, List.countP_filter, hwallet]
    refine congrArg _ (List.countP_congr fun item hitem => ?_)
    obtain ⟨m, hget⟩ := Dict.mem_values.mp hitem
    have hcreated : item.createdAt ≤ at' := by
      rw [Dict.get?_set] at hget
      split at hget
      · exact Option.some.inj hget ▸ hdate
      · exact hdated m item hget
    rw [Bool.and_eq_true, counts_of_lasting hlasting, decide_eq_true_iff, decide_eq_true_iff]
    constructor
    · rintro ⟨hmarked, hcreator, -, hnew⟩
      exact ⟨hcreator, hnew, hmarked⟩
    · rintro ⟨hcreator, hnew, hmarked⟩
      exact ⟨hmarked, hcreator, hcreated, hnew⟩
  · rw [if_neg hwallet]
    change (((a.profiles.set outcome.creator _).get? wallet).map counter.of).getD 0 = _
    rw [hprofiles, if_neg hwallet]

variable (ha : a.Tallied) (hdated : a.CreatedBy at') (hdate : outcome.createdAt ≤ at')
  (hkeeps : ∀ old, a.outcomes.get? mint = some old → old.KeepsMarks outcome)

include ha hdated hdate hkeeps

theorem recount_tallied (hmint : outcome.mint = mint) : (a.recount mint outcome at').1.Tallied where
  sound := recount_sound ha.sound hmint
  tally counter hlasting wallet := by
    rw [shown_recount hdated hdate hlasting]
    split
    · rfl
    · next hwallet =>
        rw [standing_recount_of_ne hkeeps hlasting hwallet]
        exact ha.tally counter hlasting wallet

theorem recount_retains : a.Retains (a.recount mint outcome at').1 where
  outcome m old hget := by
    rw [get?_recount]
    by_cases hm : mint = m
    · exact ⟨outcome, if_pos hm, hkeeps old (hm ▸ hget)⟩
    · exact ⟨old, (if_neg hm).trans hget, .refl old⟩
  shown counter hlasting wallet := by
    rw [shown_recount hdated hdate hlasting]
    split
    · rw [ha.tally counter hlasting]
      exact standing_le_recount hkeeps hlasting wallet
    · exact le_rfl

end Recount

/-! ## One call -/

section Stages

variable {a : Analyzer} (event : WalletEvent)

theorem counter_touched {counter : Counter} (hlasting : counter ∈ lasting)
    (current : Option WalletProfile) (wallet : String) (touch : Touch) :
    counter.of (touched current wallet touch) = (current.map counter.of).getD 0 := by
  unfold touched
  obtain rfl | rfl := by simpa [lasting] using hlasting
  all_goals
    cases current with
    | none => rfl
    | some current =>
        dsimp only
        split <;> rfl

/-- Seeing a wallet leaves the counters as they are. -/
theorem shown_observeWallet {counter : Counter} (hlasting : counter ∈ lasting) (wallet : String) :
    (a.observeWallet event).1.shown counter wallet = a.shown counter wallet := by
  unfold Analyzer.observeWallet
  cases event.wallet with
  | none => rfl
  | some own =>
      change (((a.profiles.set own _).get? wallet).map counter.of).getD 0 = _
      rw [Dict.get?_set]
      split
      · next hown =>
          rw [Option.map_some, Option.getD_some, counter_touched hlasting, hown]
          rfl
      · rfl

theorem observeWallet_outcomes : (a.observeWallet event).1.outcomes = a.outcomes := by
  unfold Analyzer.observeWallet
  split <;> rfl

theorem observeWallet_baselines : (a.observeWallet event).1.baselines = a.baselines := by
  unfold Analyzer.observeWallet
  split <;> rfl

theorem observeWallet_tallied (ha : a.Tallied) : (a.observeWallet event).1.Tallied where
  sound := observeWallet_sound event ha.sound
  tally counter hlasting wallet := by
    rw [shown_observeWallet event hlasting, ha.tally counter hlasting]
    exact (Analyzer.standing_congr (observeWallet_baselines event) (observeWallet_outcomes event)
      counter wallet).symm

theorem observeWallet_retains : a.Retains (a.observeWallet event).1 where
  outcome _ old hget := ⟨old, (observeWallet_outcomes event).symm ▸ hget, .refl old⟩
  shown _ hlasting wallet := (shown_observeWallet event hlasting wallet).ge

/-- A token without marks may be created again. -/
theorem keepsMarks_of_unmarked {old : TokenOutcome}
    (h : ¬ old.liquidityRug = true ∧ ¬ old.dumped) (next : TokenOutcome) : old.KeepsMarks next := by
  intro counter hlasting hmarked
  obtain rfl | rfl := by simpa [lasting] using hlasting
  · exact absurd hmarked h.1
  · exact absurd ((marked_devDump5m old).mp hmarked) h.2

theorem created?_fields {event : WalletEvent} {outcome : TokenOutcome}
    (h : event.created? = some outcome) :
    event.eventType = .tokenCreated ∧ outcome.createdAt = event.blockTime := by
  unfold WalletEvent.created? at h
  split at h
  · next heq _ _ =>
      obtain rfl := Option.some.inj h
      exact ⟨heq, rfl⟩
  · cases h

/-- What a stage of a call keeps. -/
structure Analyzer.Kept (a b : Analyzer) (at' : Time) : Prop where
  tallied : b.Tallied
  createdBy : b.CreatedBy at'
  retains : a.Retains b

theorem Analyzer.Kept.congr {b c : Analyzer} {at' : Time} (h : a.Kept b at')
    (hc : c.developers = b.developers) : a.Kept c at' := by
  have hprofiles : c.profiles = b.profiles := congrArg (·.1) hc
  have hbaselines : c.baselines = b.baselines := congrArg (·.2.1) hc
  have houtcomes : c.outcomes = b.outcomes := congrArg (·.2.2) hc
  have hshown (counter : Counter) (wallet : String) :
      c.shown counter wallet = b.shown counter wallet := by
    rw [Analyzer.shown, hprofiles, Analyzer.shown]
  refine ⟨⟨h.tallied.sound.congr hc, fun counter hlasting wallet => ?_⟩, ?_, ?_, ?_⟩
  · rw [hshown, h.tallied.tally counter hlasting,
      Analyzer.standing_congr hbaselines houtcomes]
  · exact fun m item hget => h.createdBy m item (houtcomes ▸ hget)
  · exact fun m old hget => houtcomes ▸ h.retains.outcome m old hget
  · exact fun counter hlasting wallet =>
      (hshown counter wallet).symm ▸ h.retains.shown counter hlasting wallet

theorem recount_kept {mint : String} {outcome : TokenOutcome} {at' : Time} (ha : a.Tallied)
    (hdated : a.CreatedBy at') (hdate : outcome.createdAt ≤ at') (hmint : outcome.mint = mint)
    (hkeeps : ∀ old, a.outcomes.get? mint = some old → old.KeepsMarks outcome) :
    a.Kept (a.recount mint outcome at').1 at' where
  tallied := recount_tallied ha hdated hdate hkeeps hmint
  createdBy m item hget := by
    rw [get?_recount] at hget
    split at hget
    · exact Option.some.inj hget ▸ hdate
    · exact hdated m item hget
  retains := recount_retains ha hdated hdate hkeeps

theorem observeCreation_kept (ha : a.Tallied) (hdated : a.CreatedBy event.blockTime)
    (hspares : ∀ old ∈ a.outcomes.get? (event.mint.getD ""), event.created? ≠ none →
      ¬ old.liquidityRug = true ∧ ¬ old.dumped) :
    a.Kept (a.observeCreation event).1 event.blockTime := by
  rw [observeCreation_eq]
  cases hcreated : event.created? with
  | none => exact ⟨ha, hdated, .refl a⟩
  | some outcome =>
      refine recount_kept ha hdated (created?_fields hcreated).2.le rfl fun old hget => ?_
      have hmint : event.mint.getD "" = outcome.mint := by
        rw [(mint_of_created? hcreated).1, Option.getD_some]
      exact keepsMarks_of_unmarked
        (hspares old (hmint ▸ hget) (hcreated ▸ Option.some_ne_none outcome)) outcome

theorem observeOutcome_kept (ha : a.Tallied) (hdated : a.CreatedBy event.blockTime)
    (hspares : ∀ old ∈ a.outcomes.get? (event.mint.getD ""), event.eventType = .swapSell →
      event.wallet = some old.creator → old.dumped →
      event.blockTime ≤ old.createdAt + seconds 300) :
    a.Kept (a.observeOutcome event).1 event.blockTime := by
  rw [observeOutcome_eq]
  cases hget : a.outcomes.get? (event.mint.getD "") with
  | none => exact ⟨ha, hdated, .refl a⟩
  | some old =>
      rw [Option.bind_some]
      cases hnext : old.updated event with
      | none => exact ⟨ha, hdated, .refl a⟩
      | some next =>
          have hfields := updated_fields hnext
          refine recount_kept ha hdated ?_ (hfields.1.trans (ha.sound.mint _ old hget)) ?_
          · exact (updated_createdAt hnext).trans_le (hdated _ old hget)
          · intro current hcurrent
            obtain rfl := Option.some.inj (hget.symm.trans hcurrent)
            exact updated_keepsMarks hnext (hspares old hget)

/-- A call that spares the marks keeps them, and no profile shows less after it. -/
theorem observed_kept (ha : a.Tallied) (hdated : a.CreatedBy event.blockTime)
    (hspares : SparesMarks a event) : a.Kept (observed a event) event.blockTime := by
  by_cases hnew : event.eventId ∈ a.seenEventIds
  · rw [observed_seen hnew]
    exact ⟨ha, hdated, .refl a⟩
  · have hspares := hspares.resolve_left hnew
    let seen : Analyzer := { a with seenEventIds := insert event.eventId a.seenEventIds }
    have hseen : seen.Tallied := ⟨ha.sound.seen _, ha.tally⟩
    have hwallet := observeWallet_tallied event hseen
    have houtcomes : (seen.observeWallet event).1.outcomes = a.outcomes :=
      observeWallet_outcomes event
    have hcreation := observeCreation_kept event hwallet
      (fun m item hget => hdated m item (houtcomes ▸ hget))
      (fun old hget => (hspares old (houtcomes ▸ hget)).1)
    have houtcome := observeOutcome_kept event hcreation.tallied hcreation.createdBy
      fun old hget hsell => by
        -- a sale creates nothing, so the outcome is the one before the call
        have hnone : event.created? = none := by
          cases hcreated : event.created? with
          | none => rfl
          | some outcome => exact absurd hsell ((created?_fields hcreated).1 ▸ by decide)
        rw [observeCreation_eq, hnone, Option.elim_none, houtcomes] at hget
        exact (hspares old hget).2 hsell
    have hretains : seen.Retains (a.prepared event) :=
      ((observeWallet_retains event).trans hcreation.retains).trans houtcome.retains
    have hprepared : a.Kept (a.prepared event) event.blockTime :=
      ⟨houtcome.tallied, houtcome.createdBy, hretains.outcome, hretains.shown⟩
    exact hprepared.congr (observed_developers event hnew)

end Stages

/-! ## Runs -/

/-- Calls with block times in order. -/
def InTimeOrder (events : List WalletEvent) : Prop :=
  events.Pairwise fun earlier later => earlier.blockTime ≤ later.blockTime

theorem run_kept {a : Analyzer} {events : List WalletEvent} (ha : a.Tallied)
    (hdated : ∀ event ∈ events, a.CreatedBy event.blockTime) (horder : InTimeOrder events)
    (hspares : Along SparesMarks observed a events) :
    (exec observed a events).Tallied ∧ a.Retains (exec observed a events) ∧
      ∀ at', a.CreatedBy at' → (∀ event ∈ events, event.blockTime ≤ at') →
        (exec observed a events).CreatedBy at' := by
  induction events generalizing a with
  | nil => exact ⟨ha, .refl a, fun _ h _ => h⟩
  | cons event rest ih =>
      have hkept := observed_kept event ha (hdated event List.mem_cons_self) hspares.1
      have hlater {at' : Time} (h : event.blockTime ≤ at') : (observed a event).CreatedBy at' :=
        fun m item hget => (hkept.createdBy m item hget).trans h
      obtain ⟨hfirst, horder⟩ := List.pairwise_cons.mp horder
      obtain ⟨htallied, hretains, hcreated⟩ := ih hkept.tallied
        (fun later hmem => hlater (hfirst later hmem)) horder hspares.2
      refine ⟨htallied, hkept.retains.trans hretains, fun at' _ hbound => ?_⟩
      obtain ⟨hnow, hrest⟩ := List.forall_mem_cons.mp hbound
      exact hcreated at' (hlater hnow) hrest

theorem restore_tallied (profiles : List WalletProfile) (relations : List WalletRelation) :
    (({} : Analyzer).restore profiles relations).Tallied where
  sound :=
    { mint := fun _ _ h => by cases h
      known := fun _ _ h => by cases h
      address := fun _ _ hget => address_foldl_set profiles (fun _ _ h => by cases h) hget }
  tally _ _ _ := rfl

/-- Over a run with block times in order that spares the marks, no counter of a mark falls, and a
token that was dumped or drained stays so. -/
theorem lasting_counters_never_fall (profiles : List WalletProfile)
    (relations : List WalletRelation) (before later : List WalletEvent)
    (horder : InTimeOrder (before ++ later))
    (hspares : Along SparesMarks observed (({} : Analyzer).restore profiles relations)
      (before ++ later)) :
    let first := exec observed (({} : Analyzer).restore profiles relations) before
    let last := exec observed (({} : Analyzer).restore profiles relations) (before ++ later)
    (∀ counter ∈ lasting, ∀ wallet, first.shown counter wallet ≤ last.shown counter wallet) ∧
      ∀ mint old, first.outcomes.get? mint = some old →
        ∃ next, last.outcomes.get? mint = some next ∧ (old.dumped → next.dumped) ∧
          (old.liquidityRug = true → next.liquidityRug = true) := by
  intro first last
  have hsplit := Along.append_iff.mp hspares
  have hstart := restore_tallied profiles relations
  have hempty (at' : Time) : (({} : Analyzer).restore profiles relations).CreatedBy at' :=
    fun _ _ h => by cases h
  obtain ⟨hbefore, hlater, hacross⟩ := List.pairwise_append.mp horder
  obtain ⟨hfirst, _, hcreated⟩ := run_kept hstart (fun _ _ => hempty _) hbefore hsplit.1
  have hdated : ∀ event ∈ later, first.CreatedBy event.blockTime := fun event hmem =>
    hcreated event.blockTime (hempty _) fun earlier hearlier => hacross earlier hearlier event hmem
  have hlast : last = exec observed first later := exec_append _ _ _ _
  have hretains : first.Retains last := by
    rw [hlast]
    exact (run_kept hfirst hdated hlater hsplit.2).2.1
  refine ⟨hretains.shown, fun mint old hget => ?_⟩
  obtain ⟨next, hnext, hkeeps⟩ := hretains.outcome mint old hget
  refine ⟨next, hnext, fun hdumped => ?_, fun hrug => ?_⟩
  · have hmarked := (hkeeps .devDump5m (by decide) ((marked_devDump5m old).mpr hdumped)).2.2
    exact (marked_devDump5m next).mp hmarked
  · exact (hkeeps .liquidityRug (by decide) hrug).2.2

/-! ## A second sale -/

/-- The creation of a token, and two sales by its creator. -/
def tokenLaunch : WalletEvent :=
  { eventId := "e1", eventType := .tokenCreated, slot := 1, mint := some "M", blockTime := 0
    observedAt := 0, payload := { creator := some "W" } }

def creatorSale (id : String) (delay : Int) : WalletEvent :=
  { eventId := id, eventType := .swapSell, slot := 2, mint := some "M", blockTime := seconds delay
    observedAt := seconds delay, payload := { user := some "W" } }

theorem lasting_counters_never_fall_two_sales :
    (exec observed ({} : Analyzer) [tokenLaunch, creatorSale "e2" 10]).shown .devDump5m "W" ≤
      (exec observed ({} : Analyzer)
        [tokenLaunch, creatorSale "e2" 10, creatorSale "e3" 200]).shown .devDump5m "W" :=
  (lasting_counters_never_fall [] [] [tokenLaunch, creatorSale "e2" 10] [creatorSale "e3" 200]
    (by unfold InTimeOrder; decide) (by decide +kernel)).1 .devDump5m (by decide) "W"

/-- A sale after ten seconds is a dump until the creator sells again. -/
theorem dump_forgotten :
    (exec observed ({} : Analyzer) [tokenLaunch, creatorSale "e2" 10]).shown .devDump5m "W" = 1 ∧
    (exec observed ({} : Analyzer)
      [tokenLaunch, creatorSale "e2" 10, creatorSale "e3" 1000]).shown .devDump5m "W" = 0 ∧
    ¬ ∀ (before later : List WalletEvent), InTimeOrder (before ++ later) →
      ∀ counter ∈ lasting, ∀ wallet,
        (exec observed ({} : Analyzer) before).shown counter wallet ≤
          (exec observed ({} : Analyzer) (before ++ later)).shown counter wallet := by
  refine ⟨by decide +kernel, by decide +kernel, fun h => ?_⟩
  have hrun := h [tokenLaunch, creatorSale "e2" 10] [creatorSale "e3" 1000]
    (by unfold InTimeOrder; decide) .devDump5m (by decide) "W"
  exact absurd hrun (by decide +kernel)

end SniperBot.Wallets
