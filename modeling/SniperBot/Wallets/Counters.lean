import SniperBot.Wallets.Eligibility

/-!
# The developer counters of a profile

A counter of a profile is the one of its baseline and the number of the wallet's tokens with a
property (`of_rebuiltProfile`). The tokens depend on the observed events alone: each event that was
not seen before changes the outcome of its own mint (`outcomes_exec`), and a creation forgets what
the mint was before (`recorded_subset`).
-/

namespace SniperBot.Wallets

open Basis Features

/-! ## Counters -/

/-- The developer counters. -/
inductive Counter
  | created
  | created7d
  | created30d
  | reachingPumpswap
  | reaching2x
  | liquidityRug
  | devDump5m
  deriving DecidableEq, Repr

namespace Counter

/-- The counter of a profile. -/
def of : Counter → WalletProfile → Nat
  | created => (·.tokensCreatedTotal)
  | created7d => (·.tokensCreated7d)
  | created30d => (·.tokensCreated30d)
  | reachingPumpswap => (·.tokensReachingPumpswap)
  | reaching2x => (·.tokensReaching2xExecutable)
  | liquidityRug => (·.tokensWithLiquidityRug)
  | devDump5m => (·.tokensWithDevDump5m)

/-- The tokens that a counter counts at an instant. -/
def counts (at' : Time) (item : TokenOutcome) : Counter → Bool
  | created => true
  | created7d => item.createdAt ≥ at' - days 7
  | created30d => item.createdAt ≥ at' - days 30
  | reachingPumpswap => item.reachedPumpswap
  | reaching2x => item.peakReturn ≥ 1
  | liquidityRug => item.liquidityRug
  | devDump5m => ∃ delay ∈ item.devSellDelaySeconds, delay ≤ 300

/-- The counter of a baseline, if there is one. -/
def ofBaseline (counter : Counter) (baseline : Option WalletProfile) : Nat :=
  (baseline.map counter.of).getD 0

theorem of_rebuiltProfile (counter : Counter) (profile : WalletProfile)
    (baseline : Option WalletProfile) (outcomes : List TokenOutcome) (at' : Time) :
    counter.of (rebuiltProfile profile baseline outcomes at') =
      counter.ofBaseline baseline + outcomes.countP fun item => counter.counts at' item := by
  cases counter with
  | created => simp [of, counts, ofBaseline, rebuiltProfile]
  | _ => rfl

end Counter

/-- `profile` of a known wallet returns the baseline's counter and counts the outcomes. -/
theorem of_profile (a : Analyzer) {wallet : String} (hwallet : wallet ≠ "") (at' : Time)
    (counter : Counter) :
    (a.profile (some wallet) at').1.map counter.of =
      if a.profiles.contains wallet then
        some (counter.ofBaseline (a.baselines.get? wallet) +
          a.outcomes.values.countP fun item =>
            (item.creator = wallet ∧ item.createdAt ≤ at' ∧
              ∀ base ∈ a.baselines.get? wallet, item.createdAt > base.profileUpdatedAt) ∧
            counter.counts at' item = true)
      else none := by
  have hfilter : (some wallet).filter (· ≠ "") = some wallet := by simp [hwallet]
  unfold Analyzer.profile
  rw [hfilter]
  dsimp only
  by_cases hknown : a.profiles.contains wallet = true
  · rw [if_pos hknown, if_pos hknown, Analyzer.rebuildDeveloperProfile]
    dsimp only
    rw [Option.map_some, Counter.of_rebuiltProfile, countedOutcomes, List.countP_filter]
    simp only [Bool.and_comm (counter.counts _ _), Bool.decide_and, Bool.decide_eq_true]
  · rw [if_neg hknown, if_neg hknown]
    rfl

/-! ## Outcomes -/

/-- The outcome that the creation of a token starts. -/
def WalletEvent.created? (event : WalletEvent) : Option TokenOutcome :=
  match event.eventType, event.mint?, event.creator with
  | .tokenCreated, some mint, some creator =>
      some { mint := mint, creator := creator, createdAt := event.blockTime }
  | _, _, _ => none

/-- The outcomes after an event. -/
def recorded (outcomes : Dict String TokenOutcome) (event : WalletEvent) :
    Dict String TokenOutcome :=
  let started := event.created?.elim outcomes fun outcome => outcomes.set outcome.mint outcome
  let mint := event.mint.getD ""
  ((started.get? mint).bind fun outcome => outcome.updated event).elim started (started.set mint)

/-- What an event makes of the outcome of its mint. -/
def revised (event : WalletEvent) (outcome : Option TokenOutcome) : Option TokenOutcome :=
  (event.created?.orElse fun _ => outcome).map fun outcome =>
    (outcome.updated event).getD outcome

theorem mint_of_created? {event : WalletEvent} {outcome : TokenOutcome}
    (h : event.created? = some outcome) :
    event.mint = some outcome.mint ∧ event.creator = some outcome.creator := by
  unfold WalletEvent.created? at h
  split at h
  · next mint creator _ hmint hcreator =>
      obtain rfl := Option.some.inj h
      exact ⟨(Option.filter_eq_some_iff.mp hmint).1, hcreator⟩
  · cases h

/-- An event leaves the outcomes of other mints alone. -/
theorem get?_recorded (outcomes : Dict String TokenOutcome) (event : WalletEvent) (mint : String) :
    (recorded outcomes event).get? mint =
      if event.mint.getD "" = mint then revised event (outcomes.get? mint)
      else outcomes.get? mint := by
  have hstarted : ((event.created?.elim outcomes fun outcome =>
      outcomes.set outcome.mint outcome).get? mint) =
        if event.mint.getD "" = mint then event.created?.orElse fun _ => outcomes.get? mint
        else outcomes.get? mint := by
    cases hcreated : event.created? with
    | none => simp
    | some outcome =>
        rw [Option.elim_some, (mint_of_created? hcreated).1, Option.getD_some, Dict.get?_set]
        rfl
  unfold recorded
  dsimp only
  by_cases hmint : event.mint.getD "" = mint
  · rw [if_pos hmint] at hstarted ⊢
    rw [hmint, hstarted, revised]
    cases hcurrent : event.created?.orElse fun _ => outcomes.get? mint with
    | none =>
        rw [hcurrent] at hstarted
        exact hstarted
    | some outcome =>
        rw [hcurrent] at hstarted
        cases hupdated : outcome.updated event with
        | none => simpa [hupdated] using hstarted
        | some next => simp [hupdated]
  · rw [if_neg hmint] at hstarted ⊢
    cases hnext : ((event.created?.elim outcomes fun outcome =>
        outcomes.set outcome.mint outcome).get? (event.mint.getD "")).bind
          fun outcome => outcome.updated event with
    | none => exact hstarted
    | some next => exact (Dict.get?_set_ne _ hmint _).trans hstarted

/-- Outcomes that know some of the mints still agree with the others after the same event. -/
theorem recorded_subset {part all : Dict String TokenOutcome}
    (h : ∀ mint, part.get? mint = none ∨ part.get? mint = all.get? mint) (event : WalletEvent)
    (mint : String) : (recorded part event).get? mint = none ∨
      (recorded part event).get? mint = (recorded all event).get? mint := by
  rw [get?_recorded, get?_recorded]
  by_cases hmint : event.mint.getD "" = mint
  · rw [if_pos hmint, if_pos hmint]
    obtain hnone | hsame := h mint
    · cases hcreated : event.created? with
      | none => exact .inl (by simp [revised, hcreated, hnone])
      | some outcome => exact .inr (by simp [revised, hcreated])
    · exact .inr (by rw [hsame])
  · rw [if_neg hmint, if_neg hmint]
    exact h mint

theorem updated_fields {outcome next : TokenOutcome} {event : WalletEvent}
    (h : outcome.updated event = some next) :
    next.mint = outcome.mint ∧ next.creator = outcome.creator := by
  unfold TokenOutcome.updated at h
  dsimp only at h
  split at h
  · obtain rfl := Option.some.inj h
    exact ⟨rfl, rfl⟩
  · cases h

/-! ## The analyzer -/

/-- What holds of every analyzer that starts empty or from stored profiles. -/
structure Analyzer.Sound (a : Analyzer) : Prop where
  mint : ∀ mint outcome, a.outcomes.get? mint = some outcome → outcome.mint = mint
  known : ∀ mint outcome, a.outcomes.get? mint = some outcome →
    a.profiles.contains outcome.creator = true
  address : ∀ wallet profile, a.profiles.get? wallet = some profile →
    profile.walletAddress = wallet

theorem Analyzer.Sound.empty : ({} : Analyzer).Sound where
  mint _ _ h := by cases h
  known _ _ h := by cases h
  address _ _ h := by cases h

theorem contains_set {ν : Type*} (d : Dict String ν) (k j : String) (v : ν) :
    (d.set k v).contains j = true ↔ d.contains j = true ∨ j = k := by
  rw [Dict.contains, Dict.contains, Dict.get?_set]
  split
  · next h => simp [h]
  · next h => simp [Ne.symm h]

theorem touched_address {current : Option WalletProfile} {wallet : String}
    (h : ∀ profile ∈ current, profile.walletAddress = wallet) (touch : Touch) :
    (touched current wallet touch).walletAddress = wallet := by
  unfold touched
  split
  · rfl
  · next current =>
      dsimp only
      split <;> exact h current rfl

/-- A changed outcome and the profile of its creator. -/
def Analyzer.recount (a : Analyzer) (mint : String) (outcome : TokenOutcome) (at' : Time) :
    Analyzer × List WalletProfile :=
  let (profile, next) := { a with outcomes := a.outcomes.set mint outcome }
    |>.rebuildDeveloperProfile outcome.creator at'
  (next, [profile])

theorem observeCreation_eq (a : Analyzer) (event : WalletEvent) : a.observeCreation event =
    event.created?.elim (a, []) fun outcome =>
      a.recount outcome.mint outcome event.blockTime := by
  unfold Analyzer.observeCreation WalletEvent.created?
  generalize event.eventType = kind, event.mint? = mint, event.creator = creator
  cases kind with
  | tokenCreated => cases mint <;> cases creator <;> rfl
  | _ => rfl

theorem observeOutcome_eq (a : Analyzer) (event : WalletEvent) : a.observeOutcome event =
    ((a.outcomes.get? (event.mint.getD "")).bind fun outcome => outcome.updated event).elim (a, [])
      fun outcome => a.recount (event.mint.getD "") outcome event.blockTime := by
  unfold Analyzer.observeOutcome
  dsimp only
  split
  · next hnone => rw [hnone, Option.elim_none]
  · next hsome => rw [hsome, Option.elim_some, Analyzer.recount]

/-- The analyzer knows the wallets that it knew and the given ones. -/
def Learns (a next : Analyzer) (wallets : List String) : Prop :=
  ∀ wallet, next.profiles.contains wallet = true ↔
    a.profiles.contains wallet = true ∨ wallet ∈ wallets

theorem Learns.refl (a : Analyzer) : Learns a a [] := fun wallet => by simp

theorem Learns.trans {a b c : Analyzer} {first second : List String} (hfirst : Learns a b first)
    (hsecond : Learns b c second) : Learns a c (first ++ second) := by
  intro wallet
  rw [hsecond, hfirst, List.mem_append, or_assoc]

/-- The addresses of the profiles that a call returns. -/
def addresses (changed : List WalletProfile) : List String := changed.map (·.walletAddress)

section Recount

variable {a : Analyzer} {mint : String} {outcome : TokenOutcome} {at' : Time}

theorem recount_learns : Learns a (a.recount mint outcome at').1 [outcome.creator] := by
  intro wallet
  rw [List.mem_singleton]
  exact contains_set a.profiles _ _ _

theorem rebuilt_address (ha : a.Sound) (wallet : String) (baseline : Option WalletProfile)
    (outcomes : List TokenOutcome) :
    (rebuiltProfile ((a.profiles.get? wallet).getD (touched none wallet ⟨at', none, none, true⟩))
      baseline outcomes at').walletAddress = wallet := by
  cases hget : a.profiles.get? wallet with
  | none => rfl
  | some profile => exact ha.address wallet profile hget

theorem recount_addresses (ha : a.Sound) :
    addresses (a.recount mint outcome at').2 = [outcome.creator] :=
  congrArg (fun address => [address]) (rebuilt_address ha outcome.creator _ _)

theorem recount_sound (ha : a.Sound) (hmint : outcome.mint = mint) :
    (a.recount mint outcome at').1.Sound where
  mint m item hget := by
    change (a.outcomes.set mint outcome).get? m = some item at hget
    rw [Dict.get?_set] at hget
    split at hget
    · next hm =>
        obtain rfl := Option.some.inj hget
        exact hmint.trans hm
    · exact ha.mint m item hget
  known m item hget := by
    change (a.outcomes.set mint outcome).get? m = some item at hget
    rw [recount_learns]
    rw [Dict.get?_set] at hget
    split at hget
    · obtain rfl := Option.some.inj hget
      exact .inr (List.mem_singleton_self _)
    · exact .inl (ha.known m item hget)
  address wallet profile hget := by
    change (a.profiles.set outcome.creator _).get? wallet = some profile at hget
    rw [Dict.get?_set] at hget
    split at hget
    · next hwallet =>
        obtain rfl := Option.some.inj hget
        exact (rebuilt_address ha outcome.creator _ _).trans hwallet
    · exact ha.address wallet profile hget

end Recount

section Stages

variable {a : Analyzer} (event : WalletEvent)

/-- The wallets that an event names: its own, and the creator of its token. -/
def WalletEvent.named : List String :=
  event.wallet.toList ++ (event.created?.map (·.creator)).toList

theorem observeWallet_learns : Learns a (a.observeWallet event).1 event.wallet.toList := by
  intro wallet
  unfold Analyzer.observeWallet
  cases event.wallet with
  | none => simp
  | some own =>
      rw [Option.toList_some, List.mem_singleton]
      exact contains_set a.profiles _ _ _

theorem observeWallet_sound (ha : a.Sound) : (a.observeWallet event).1.Sound := by
  have hlearns := observeWallet_learns (a := a) event
  revert hlearns
  unfold Analyzer.observeWallet
  cases event.wallet with
  | none => exact fun _ => ha
  | some own =>
      intro hlearns
      refine ⟨ha.mint, fun mint outcome hget => ?_, fun wallet profile hget => ?_⟩
      · exact (hlearns _).mpr (.inl (ha.known mint outcome hget))
      · change (a.profiles.set own _).get? wallet = some profile at hget
        rw [Dict.get?_set] at hget
        split at hget
        · next hwallet =>
            obtain rfl := Option.some.inj hget
            exact (touched_address (fun p hp => ha.address own p hp) _).trans hwallet
        · exact ha.address wallet profile hget

/-- The wallets of the returned profiles are the new ones, and some that are known. -/
theorem observeWallet_addresses (ha : a.Sound) :
    Learns a (a.observeWallet event).1 (addresses (a.observeWallet event).2) := by
  intro wallet
  rw [observeWallet_learns event wallet]
  unfold Analyzer.observeWallet
  cases event.wallet with
  | none => simp [addresses]
  | some own =>
      dsimp only
      split
      · next hsame =>
          have hknown : a.profiles.contains own = true := Dict.contains_eq_true.mpr ⟨_, hsame⟩
          simp only [addresses, List.map_nil, List.not_mem_nil, or_false, Option.toList_some,
            List.mem_singleton, or_iff_left_iff_imp]
          exact fun h => h ▸ hknown
      · rw [addresses, List.map_singleton,
          touched_address (fun p hp => ha.address own p hp), Option.toList_some]

theorem observeCreation_learns : Learns a (a.observeCreation event).1
    (event.created?.map (·.creator)).toList := by
  rw [observeCreation_eq]
  cases event.created? with
  | none => exact .refl a
  | some outcome => exact recount_learns

theorem observeCreation_sound (ha : a.Sound) : (a.observeCreation event).1.Sound := by
  rw [observeCreation_eq]
  cases event.created? with
  | none => exact ha
  | some outcome => exact recount_sound ha rfl

theorem observeCreation_addresses (ha : a.Sound) :
    Learns a (a.observeCreation event).1 (addresses (a.observeCreation event).2) := by
  rw [observeCreation_eq]
  cases event.created? with
  | none => exact .refl a
  | some outcome =>
      rw [Option.elim_some, recount_addresses ha]
      exact recount_learns

/-- The outcome that an event leaves, if it changes one, and its creator is known. -/
theorem known_of_updated (ha : a.Sound) {next : TokenOutcome}
    (h : (a.outcomes.get? (event.mint.getD "")).bind (fun outcome => outcome.updated event) =
      some next) : next.mint = event.mint.getD "" ∧ a.profiles.contains next.creator = true := by
  obtain ⟨outcome, hget, hnext⟩ := Option.bind_eq_some_iff.mp h
  obtain ⟨hmint, hcreator⟩ := updated_fields hnext
  exact ⟨hmint.trans (ha.mint _ _ hget), hcreator ▸ ha.known _ _ hget⟩

theorem observeOutcome_sound (ha : a.Sound) : (a.observeOutcome event).1.Sound := by
  rw [observeOutcome_eq]
  cases hnext : (a.outcomes.get? (event.mint.getD "")).bind fun outcome =>
      outcome.updated event with
  | none => exact ha
  | some outcome => exact recount_sound ha (known_of_updated event ha hnext).1

theorem observeOutcome_addresses (ha : a.Sound) :
    Learns a (a.observeOutcome event).1 (addresses (a.observeOutcome event).2) := by
  rw [observeOutcome_eq]
  cases (a.outcomes.get? (event.mint.getD "")).bind fun outcome => outcome.updated event with
  | none => exact .refl a
  | some outcome =>
      rw [Option.elim_some, recount_addresses ha]
      exact recount_learns

theorem observeOutcome_learns (ha : a.Sound) : Learns a (a.observeOutcome event).1 [] := by
  rw [observeOutcome_eq]
  cases hnext : (a.outcomes.get? (event.mint.getD "")).bind fun outcome =>
      outcome.updated event with
  | none => exact .refl a
  | some outcome =>
      intro wallet
      rw [Option.elim_some, recount_learns]
      have hknown := (known_of_updated event ha hnext).2
      simp only [List.mem_singleton, List.not_mem_nil, or_false, or_iff_left_iff_imp]
      exact fun h => h ▸ hknown

/-! ## One call -/

/-- The parts of the analyzer that a buyer does not touch. -/
def Analyzer.developers (a : Analyzer) :
    Dict String WalletProfile × Dict String WalletProfile × Dict String TokenOutcome :=
  (a.profiles, a.baselines, a.outcomes)

theorem observeBuy_developers : (a.observeBuy event).1.developers = a.developers := by
  unfold Analyzer.observeBuy
  split <;> rfl

theorem observed_developers (hnew : event.eventId ∉ a.seenEventIds) :
    (observed a event).developers = (a.prepared event).developers := by
  rw [observed_new hnew, observeBuy_developers]

theorem observed_outcomes (hnew : event.eventId ∉ a.seenEventIds) :
    (observed a event).outcomes = recorded a.outcomes event := by
  have hwallet (b : Analyzer) : (b.observeWallet event).1.outcomes = b.outcomes := by
    unfold Analyzer.observeWallet
    split <;> rfl
  have hcreation (b : Analyzer) : (b.observeCreation event).1.outcomes =
      event.created?.elim b.outcomes fun outcome => b.outcomes.set outcome.mint outcome := by
    rw [observeCreation_eq]
    cases event.created? <;> rfl
  have houtcome (b : Analyzer) : (b.observeOutcome event).1.outcomes =
      ((b.outcomes.get? (event.mint.getD "")).bind fun outcome => outcome.updated event).elim
        b.outcomes (b.outcomes.set (event.mint.getD "")) := by
    rw [observeOutcome_eq]
    cases (b.outcomes.get? (event.mint.getD "")).bind fun outcome => outcome.updated event <;> rfl
  calc (observed a event).outcomes
      = (a.prepared event).outcomes := congrArg (·.2.2) (observed_developers event hnew)
    _ = recorded a.outcomes event := by
        rw [Analyzer.prepared, houtcome, hcreation, hwallet]
        rfl

theorem observed_baselines : (observed a event).baselines = a.baselines := by
  have hwallet (b : Analyzer) : (b.observeWallet event).1.baselines = b.baselines := by
    unfold Analyzer.observeWallet
    split <;> rfl
  have hcreation (b : Analyzer) : (b.observeCreation event).1.baselines = b.baselines := by
    rw [observeCreation_eq]
    cases event.created? <;> rfl
  have houtcome (b : Analyzer) : (b.observeOutcome event).1.baselines = b.baselines := by
    rw [observeOutcome_eq]
    cases (b.outcomes.get? (event.mint.getD "")).bind fun outcome => outcome.updated event <;> rfl
  by_cases hnew : event.eventId ∈ a.seenEventIds
  · rw [observed_seen hnew]
  · calc (observed a event).baselines
        = (a.prepared event).baselines := congrArg (·.2.1) (observed_developers event hnew)
      _ = a.baselines := by rw [Analyzer.prepared, houtcome, hcreation, hwallet]

theorem observed_seenEventIds :
    (observed a event).seenEventIds = insert event.eventId a.seenEventIds := by
  by_cases hnew : event.eventId ∈ a.seenEventIds
  · rw [observed_seen hnew, Finset.insert_eq_of_mem hnew]
  · rw [observed_new hnew, Analyzer.observeBuy]
    split <;> exact prepared_seen

theorem Analyzer.Sound.congr {b : Analyzer} (ha : a.Sound) (h : b.developers = a.developers) :
    b.Sound := by
  have hprofiles : b.profiles = a.profiles := congrArg (·.1) h
  have houtcomes : b.outcomes = a.outcomes := congrArg (·.2.2) h
  exact ⟨houtcomes ▸ ha.mint, hprofiles ▸ houtcomes ▸ ha.known, hprofiles ▸ ha.address⟩

/-- The analyzer once the event is marked as seen. -/
theorem Analyzer.Sound.seen (ha : a.Sound) (ids : Finset String) :
    ({ a with seenEventIds := ids } : Analyzer).Sound := ha.congr rfl

theorem observed_sound (ha : a.Sound) : (observed a event).Sound := by
  by_cases hnew : event.eventId ∈ a.seenEventIds
  · exact (observed_seen hnew).symm ▸ ha
  · refine Analyzer.Sound.congr ?_ (observed_developers event hnew)
    exact observeOutcome_sound event
      (observeCreation_sound event (observeWallet_sound event (ha.seen _)))

theorem Learns.congr {b next : Analyzer} {wallets : List String} (h : Learns a b wallets)
    (hnext : next.developers = b.developers) : Learns a next wallets := by
  have hprofiles : next.profiles = b.profiles := congrArg (·.1) hnext
  intro wallet
  rw [hprofiles]
  exact h wallet

/-- A new event makes its wallets known. -/
theorem observed_learns (ha : a.Sound) (hnew : event.eventId ∉ a.seenEventIds) :
    Learns a (observed a event) event.named := by
  have hwallet := observeWallet_sound event (ha.seen (insert event.eventId a.seenEventIds))
  have hlearns := ((observeWallet_learns event).trans (observeCreation_learns event)).trans
    (observeOutcome_learns event (observeCreation_sound event hwallet))
  rw [List.append_nil] at hlearns
  exact Learns.congr hlearns (observed_developers event hnew)

theorem contains_foldl_set (profiles : List WalletProfile) (d : Dict String WalletProfile)
    (wallet : String) :
    (profiles.foldl (fun d p => d.set p.walletAddress p) d).contains wallet = true ↔
      d.contains wallet = true ∨ wallet ∈ addresses profiles := by
  induction profiles generalizing d with
  | nil => simp [addresses]
  | cons profile rest ih =>
      rw [List.foldl_cons, ih, contains_set, or_assoc]
      simp [addresses]

theorem address_foldl_set (profiles : List WalletProfile) {d : Dict String WalletProfile}
    (hd : ∀ wallet profile, d.get? wallet = some profile → profile.walletAddress = wallet)
    {wallet : String} {profile : WalletProfile}
    (hget : (profiles.foldl (fun d p => d.set p.walletAddress p) d).get? wallet = some profile) :
    profile.walletAddress = wallet := by
  induction profiles generalizing d with
  | nil => exact hd wallet profile hget
  | cons first rest ih =>
      refine ih (fun wallet profile hset => ?_) hget
      rw [Dict.get?_set] at hset
      split at hset
      · next hkey => exact (Option.some.inj hset) ▸ hkey
      · exact hd wallet profile hset

theorem mem_addresses_lastPerWallet (changed : List WalletProfile) (wallet : String) :
    wallet ∈ addresses (lastPerWallet changed) ↔ wallet ∈ addresses changed := by
  have hcontains := contains_foldl_set changed Dict.empty wallet
  rw [Dict.contains_eq_true, Dict.contains_eq_true] at hcontains
  have hnone : ¬ ∃ profile, (Dict.empty : Dict String WalletProfile).get? wallet = some profile := by
    simp
  rw [or_iff_right hnone] at hcontains
  rw [← hcontains, addresses, List.mem_map]
  constructor
  · rintro ⟨profile, hmem, rfl⟩
    obtain ⟨key, hget⟩ := Dict.mem_values.mp hmem
    have hkey := address_foldl_set changed (fun _ _ h => by cases h) hget
    exact ⟨profile, hkey ▸ hget⟩
  · rintro ⟨profile, hget⟩
    exact ⟨profile, Dict.mem_values.mpr ⟨wallet, hget⟩,
      address_foldl_set changed (fun _ _ h => by cases h) hget⟩

/-- The profiles that a call returns are those of the wallets that it makes known, and some of
wallets that are known. -/
theorem observe_addresses (ha : a.Sound) :
    Learns a (observed a event) (addresses (a.observe event).2.1) := by
  by_cases hnew : event.eventId ∈ a.seenEventIds
  · rw [observed_seen hnew, Analyzer.observe, if_pos hnew]
    exact .refl a
  · have hwallet := observeWallet_sound event (ha.seen (insert event.eventId a.seenEventIds))
    have hcreation := observeCreation_sound event hwallet
    have hlearns := ((observeWallet_addresses event
      (ha.seen (insert event.eventId a.seenEventIds))).trans
        (observeCreation_addresses event hwallet)).trans
          (observeOutcome_addresses event hcreation)
    have hcall := Learns.congr hlearns (observed_developers event hnew)
    intro wallet
    rw [hcall wallet, Analyzer.observe, if_neg hnew]
    dsimp only
    rw [mem_addresses_lastPerWallet, addresses, addresses, addresses, addresses, List.map_append,
      List.map_append]

end Stages

end SniperBot.Wallets
