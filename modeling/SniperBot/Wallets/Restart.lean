import SniperBot.Basis.Run
import SniperBot.Wallets.Counters

/-!
# The developer counters after a restart

A process stores each profile that an event changes. After a restart the stored rows are the
baselines of the profiles, and the events of the recovery window are observed again. A counter is
then the one of the row and counts the tokens that are newer than the row and were observed again;
all other tokens are left to the row. The row never changes again, so the counter is right exactly
when the row still has the right number of the tokens that are left to it
(`counter_restart_iff`). It has not once such a token migrates, doubles, is drained or sold by its
creator, or gets older than the 7 or 30 days of the counter.
-/

namespace SniperBot.Wallets

open Basis Features

/-! ## The process -/

inductive WalletCall
  | observe (event : WalletEvent)
  | profile (wallet : Option String) (at' : Time)

def WalletCall.event? : WalletCall → Option WalletEvent
  | .observe event => some event
  | .profile _ _ => none

/-- The observed events. -/
def eventsOf (calls : List WalletCall) : List WalletEvent := calls.filterMap WalletCall.event?

/-- The analyzer after a call. -/
def Analyzer.after (a : Analyzer) : WalletCall → Analyzer
  | .observe event => observed a event
  | .profile wallet at' => (a.profile wallet at').2

/-- The analyzer and the rows of the database. -/
structure WalletProcess where
  analyzer : Analyzer := {}
  profileRows : Dict String WalletProfile := Dict.empty
  relationRows : Dict (String × String) WalletRelation := Dict.empty

/-- `_observe_event` and `profile` -/
def WalletProcess.call (p : WalletProcess) : WalletCall → WalletProcess
  | .observe event =>
      let (next, profiles, relations) := p.analyzer.observe event
      { analyzer := next
        profileRows := profiles.foldl (fun d row => d.set row.walletAddress row) p.profileRows
        relationRows := relations.foldl (fun d row => d.set (row.walletA, row.walletB) row)
          p.relationRows }
  | .profile wallet at' => { p with analyzer := (p.analyzer.profile wallet at').2 }

/-- `load_wallet_analysis` -/
def WalletProcess.loadWalletAnalysis (p : WalletProcess) :
    List WalletProfile × List WalletRelation :=
  (p.profileRows.values,
    p.relationRows.values.map fun row =>
      { row with eligibleForCluster := row.relationScore ≥ 70 / 100 })

/-- `start`: the rows are restored and the events of the recovery window observed again. What
these change is not stored. -/
def WalletProcess.restart (p : WalletProcess) (window : List WalletEvent) : WalletProcess :=
  let (profiles, relations) := p.loadWalletAnalysis
  { p with analyzer := window.foldl observed (Analyzer.restore {} profiles relations) }

/-! ## Events that were not seen before -/

def eventIds (events : List WalletEvent) : Finset String := (events.map (·.eventId)).toFinset

/-- The events that an analyzer does not skip, given the ids that it has seen. -/
def unseen (ids : Finset String) : List WalletEvent → List WalletEvent
  | [] => []
  | event :: rest =>
      if event.eventId ∈ ids then unseen ids rest
      else event :: unseen (insert event.eventId ids) rest

theorem unseen_append (ids : Finset String) (first second : List WalletEvent) :
    unseen ids (first ++ second) = unseen ids first ++ unseen (ids ∪ eventIds first) second := by
  induction first generalizing ids with
  | nil => simp [unseen, eventIds]
  | cons event rest ih =>
      have hids : insert event.eventId ids ∪ eventIds rest = ids ∪ eventIds (event :: rest) := by
        ext id
        simp [eventIds]
      rw [List.cons_append, unseen, unseen]
      split
      · next hseen =>
          rw [ih, ← hids, Finset.insert_eq_of_mem hseen]
      · rw [ih, hids, List.cons_append]

theorem unseen_congr {ids ids' : Finset String} {events : List WalletEvent}
    (h : ∀ event ∈ events, event.eventId ∈ ids ↔ event.eventId ∈ ids') :
    unseen ids events = unseen ids' events := by
  induction events generalizing ids ids' with
  | nil => rfl
  | cons event rest ih =>
      have hrest := fun e he => h e (List.mem_cons_of_mem _ he)
      rw [unseen, unseen]
      by_cases hseen : event.eventId ∈ ids
      · rw [if_pos hseen, if_pos ((h event (List.mem_cons_self ..)).mp hseen)]
        exact ih hrest
      · rw [if_neg hseen, if_neg (fun hs => hseen ((h event (List.mem_cons_self ..)).mpr hs))]
        congr 1
        apply ih
        intro e he
        rw [Finset.mem_insert, Finset.mem_insert, hrest e he]

theorem mem_of_mem_unseen {ids : Finset String} {events : List WalletEvent} {event : WalletEvent}
    (h : event ∈ unseen ids events) : event ∈ events := by
  induction events generalizing ids with
  | nil => exact h
  | cons first rest ih =>
      rw [unseen] at h
      split at h
      · exact List.mem_cons_of_mem _ (ih h)
      · obtain rfl | hrest := List.mem_cons.mp h
        · exact List.mem_cons_self ..
        · exact List.mem_cons_of_mem _ (ih hrest)

/-- The tokens of the events: the outcome of each mint. -/
def tokensOf (events : List WalletEvent) : Dict String TokenOutcome :=
  (unseen ∅ events).foldl recorded Dict.empty

/-! ## Runs -/

/-- What an analyzer has after it has observed events. -/
structure Follows (a b : Analyzer) (events : List WalletEvent) : Prop where
  sound : b.Sound
  baselines : b.baselines = a.baselines
  seen : b.seenEventIds = a.seenEventIds ∪ eventIds events
  outcomes : b.outcomes = (unseen a.seenEventIds events).foldl recorded a.outcomes
  learns : Learns a b ((unseen a.seenEventIds events).flatMap WalletEvent.named)

namespace Follows

variable {a b c : Analyzer}

theorem refl (ha : a.Sound) : Follows a a [] where
  sound := ha
  baselines := rfl
  seen := by simp [eventIds]
  outcomes := rfl
  learns := .refl a

theorem trans {first second : List WalletEvent} (hfirst : Follows a b first)
    (hsecond : Follows b c second) : Follows a c (first ++ second) where
  sound := hsecond.sound
  baselines := hsecond.baselines.trans hfirst.baselines
  seen := by
    rw [hsecond.seen, hfirst.seen, Finset.union_assoc, eventIds, eventIds, eventIds,
      List.map_append, List.toFinset_append]
  outcomes := by
    rw [hsecond.outcomes, hfirst.outcomes, hfirst.seen, unseen_append, List.foldl_append]
  learns := by
    have hlearns := hfirst.learns.trans hsecond.learns
    rw [hfirst.seen] at hlearns
    rw [unseen_append, List.flatMap_append]
    exact hlearns

theorem observe (ha : a.Sound) (event : WalletEvent) : Follows a (observed a event) [event] where
  sound := observed_sound event ha
  baselines := observed_baselines event
  seen := by
    rw [observed_seenEventIds, Finset.insert_eq, Finset.union_comm]
    rfl
  outcomes := by
    by_cases hseen : event.eventId ∈ a.seenEventIds
    · rw [observed_seen hseen, unseen, if_pos hseen]
      rfl
    · rw [observed_outcomes event hseen, unseen, if_neg hseen]
      rfl
  learns := by
    by_cases hseen : event.eventId ∈ a.seenEventIds
    · rw [observed_seen hseen, unseen, if_pos hseen]
      exact .refl a
    · have hlearns := observed_learns event ha hseen
      rw [unseen, if_neg hseen, unseen, List.flatMap_singleton]
      exact hlearns

/-- `profile` replaces the profile of a known wallet. -/
theorem profile (ha : a.Sound) (wallet : Option String) (at' : Time) :
    Follows a (a.profile wallet at').2 [] := by
  unfold Analyzer.profile
  split
  · exact .refl ha
  · next own _ =>
      split
      · next hknown =>
          have hlearns : Learns a (a.rebuildDeveloperProfile own at').2 [] := by
            intro wallet
            have hset := contains_set a.profiles own wallet (a.rebuildDeveloperProfile own at').1
            simp only [List.not_mem_nil, or_false]
            exact hset.trans (or_iff_left_of_imp fun h => h ▸ hknown)
          refine ⟨⟨ha.mint, fun mint outcome hget => ?_, fun wallet profile hget => ?_⟩, rfl, ?_,
            rfl, hlearns⟩
          · exact (hlearns _).mpr (.inl (ha.known mint outcome hget))
          · change (a.profiles.set own _).get? wallet = some profile at hget
            rw [Dict.get?_set] at hget
            split at hget
            · next hwallet =>
                obtain rfl := Option.some.inj hget
                exact (rebuilt_address ha own _ _).trans hwallet
            · exact ha.address wallet profile hget
          · simp [eventIds, Analyzer.rebuildDeveloperProfile]
      · exact .refl ha

theorem call (ha : a.Sound) (call : WalletCall) :
    Follows a (a.after call) (eventsOf [call]) := by
  cases call with
  | observe event => exact .observe ha event
  | profile wallet at' => exact .profile ha wallet at'

theorem run (ha : a.Sound) (calls : List WalletCall) :
    Follows a (exec Analyzer.after a calls) (eventsOf calls) := by
  induction calls generalizing a with
  | nil => exact .refl ha
  | cons call rest ih =>
      have hcall := Follows.call ha call
      have hrun := hcall.trans (ih hcall.sound)
      rw [eventsOf, eventsOf, ← List.filterMap_append] at hrun
      exact hrun

theorem window (ha : a.Sound) (events : List WalletEvent) :
    Follows a (events.foldl observed a) events := by
  induction events generalizing a with
  | nil => exact .refl ha
  | cons event rest ih => exact (Follows.observe ha event).trans (ih (observed_sound event ha))

end Follows

/-! ## The stop -/

theorem call_analyzer (p : WalletProcess) (call : WalletCall) :
    (p.call call).analyzer = p.analyzer.after call := by
  cases call <;> rfl

theorem exec_analyzer (p : WalletProcess) (calls : List WalletCall) :
    (exec WalletProcess.call p calls).analyzer = exec Analyzer.after p.analyzer calls := by
  induction calls generalizing p with
  | nil => rfl
  | cons call rest ih => rw [exec_cons, exec_cons, ih, call_analyzer]

/-- The wallets of the rows are the known ones, each under its address. -/
structure WalletProcess.Stored (p : WalletProcess) : Prop where
  sound : p.analyzer.Sound
  address : ∀ wallet row, p.profileRows.get? wallet = some row → row.walletAddress = wallet
  known : ∀ wallet, p.profileRows.contains wallet = true ↔
    p.analyzer.profiles.contains wallet = true

theorem WalletProcess.Stored.empty : ({} : WalletProcess).Stored where
  sound := .empty
  address _ _ h := by cases h
  known _ := .rfl

theorem WalletProcess.Stored.call {p : WalletProcess} (hp : p.Stored) (call : WalletCall) :
    (p.call call).Stored := by
  cases call with
  | observe event =>
      refine ⟨observed_sound event hp.sound, fun wallet row hget => ?_, fun wallet => ?_⟩
      · exact address_foldl_set _ hp.address hget
      · calc (p.call (.observe event)).profileRows.contains wallet = true
            ↔ p.profileRows.contains wallet = true ∨
                wallet ∈ addresses (p.analyzer.observe event).2.1 := contains_foldl_set ..
          _ ↔ p.analyzer.profiles.contains wallet = true ∨
                wallet ∈ addresses (p.analyzer.observe event).2.1 := by rw [hp.known]
          _ ↔ (observed p.analyzer event).profiles.contains wallet = true :=
              (observe_addresses event hp.sound wallet).symm
  | profile own at' =>
      have hfollows := Follows.profile hp.sound own at'
      refine ⟨hfollows.sound, hp.address, fun wallet => (hp.known wallet).trans ?_⟩
      have hlearns := hfollows.learns wallet
      simp only [unseen, List.flatMap_nil, List.not_mem_nil, or_false] at hlearns
      exact hlearns.symm

theorem WalletProcess.Stored.run {p : WalletProcess} (hp : p.Stored) (calls : List WalletCall) :
    (exec WalletProcess.call p calls).Stored := by
  induction calls generalizing p with
  | nil => exact hp
  | cons call rest ih => exact ih (hp.call call)

/-- The rows are restored as they are. -/
theorem restored_rows {rows : Dict String WalletProfile}
    (haddress : ∀ wallet row, rows.get? wallet = some row → row.walletAddress = wallet) :
    rows.values.foldl (fun d row => d.set row.walletAddress row) Dict.empty = rows := by
  have hentries : ∀ (es : List (String × WalletProfile)) (d : Dict String WalletProfile),
      (∀ e ∈ es, e.2.walletAddress = e.1) →
      (es.map Prod.snd).foldl (fun d row => d.set row.walletAddress row) d =
        es.foldl (fun d e => d.set e.1 e.2) d := by
    intro es
    induction es with
    | nil => exact fun _ _ => rfl
    | cons e rest ih =>
        intro d h
        rw [List.map_cons, List.foldl_cons, List.foldl_cons, h e (List.mem_cons_self ..)]
        exact ih _ fun e he => h e (List.mem_cons_of_mem _ he)
  rw [Dict.values, hentries _ _ fun e he => haddress e.1 e.2 (Dict.mem_entries.mp he)]
  exact Dict.foldl_set_entries rows

/-- The analyzer that the window is observed with. -/
theorem restored (p : WalletProcess) (hp : p.Stored) (relations : List WalletRelation) :
    let a := Analyzer.restore {} p.profileRows.values relations
    a.Sound ∧ a.profiles = p.profileRows ∧ a.baselines = p.profileRows ∧
      a.outcomes = Dict.empty ∧ a.seenEventIds = ∅ := by
  have hrows := restored_rows hp.address
  have hnone {ν : Type} (k : String) (v : ν) : (Dict.empty : Dict String ν).get? k ≠ some v := by
    simp
  refine ⟨⟨?_, ?_, ?_⟩, hrows, hrows, rfl, rfl⟩
  · intro mint outcome hget
    exact absurd hget (hnone mint outcome)
  · intro mint outcome hget
    exact absurd hget (hnone mint outcome)
  · intro wallet profile hget
    exact address_foldl_set p.profileRows.values (fun k v h => absurd h (hnone k v)) hget

/-! ## The counters after a restart -/

/-- The analyzer that went on. -/
def uninterrupted (before later : List WalletCall) : Analyzer :=
  (exec WalletProcess.call {} (before ++ later)).analyzer

/-- The process when it stops. -/
def stopped (before : List WalletCall) : WalletProcess := exec WalletProcess.call {} before

/-- The analyzer that was restarted. -/
def restarted (before : List WalletCall) (window : List WalletEvent) (later : List WalletCall) :
    Analyzer :=
  (exec WalletProcess.call ((stopped before).restart window) later).analyzer

theorem uninterrupted_follows (before later : List WalletCall) :
    Follows {} (uninterrupted before later) (eventsOf before ++ eventsOf later) := by
  have hrun := Follows.run .empty (before ++ later)
  rw [eventsOf, List.filterMap_append] at hrun
  rw [uninterrupted, exec_analyzer]
  exact hrun

theorem stopped_stored (before : List WalletCall) : (stopped before).Stored :=
  WalletProcess.Stored.empty.run before

theorem stopped_follows (before : List WalletCall) :
    Follows {} (stopped before).analyzer (eventsOf before) := by
  rw [stopped, exec_analyzer]
  exact .run .empty before

theorem restarted_follows (before : List WalletCall) (window : List WalletEvent)
    (later : List WalletCall) :
    Follows (Analyzer.restore {} (stopped before).loadWalletAnalysis.1
        (stopped before).loadWalletAnalysis.2)
      (restarted before window later) (window ++ eventsOf later) := by
  have hrestored := (restored (stopped before) (stopped_stored before)
    (stopped before).loadWalletAnalysis.2).1
  have hwindow := Follows.window hrestored window
  rw [restarted, exec_analyzer]
  exact hwindow.trans (.run hwindow.sound later)

/-- A restarted analyzer leaves a token to the stored row of its creator, if the token is not newer
than the row, or was not observed again. -/
def LeftToRow (rows : Dict String WalletProfile) (again : Dict String TokenOutcome)
    (item : TokenOutcome) : Prop :=
  (∃ row ∈ rows.get? item.creator, item.createdAt ≤ row.profileUpdatedAt) ∨
    again.get? item.mint = none

instance (rows : Dict String WalletProfile) (again : Dict String TokenOutcome)
    (item : TokenOutcome) : Decidable (LeftToRow rows again item) :=
  inferInstanceAs (Decidable (_ ∨ _))

section Restart

variable {before later : List WalletCall} {window : List WalletEvent}

/-- Events that are no repetitions count on top of the others. -/
theorem unseen_of_new {first second past : List WalletEvent}
    (hnew : ∀ event ∈ second, ∀ p ∈ past, event.eventId ≠ p.eventId)
    (hpast : ∀ event ∈ first, event ∈ past) :
    unseen ∅ (first ++ second) = unseen ∅ first ++ unseen ∅ second := by
  rw [unseen_append]
  congr 1
  apply unseen_congr
  intro event he
  have hnot : event.eventId ∉ eventIds first := by
    intro hmem
    obtain ⟨p, hp, hid⟩ := List.mem_map.mp (List.mem_toFinset.mp hmem)
    exact hnew event he p (hpast p hp) hid.symm
  simp [hnot]

theorem foldl_recorded_subset (events : List WalletEvent) {part all : Dict String TokenOutcome}
    (h : ∀ mint, part.get? mint = none ∨ part.get? mint = all.get? mint) (mint : String) :
    (events.foldl recorded part).get? mint = none ∨
      (events.foldl recorded part).get? mint = (events.foldl recorded all).get? mint := by
  induction events generalizing part all with
  | nil => exact h mint
  | cons event rest ih => exact ih fun mint => recorded_subset h event mint

theorem uninterrupted_outcomes (before later : List WalletCall) :
    (uninterrupted before later).outcomes = tokensOf (eventsOf (before ++ later)) := by
  have hevents : eventsOf (before ++ later) = eventsOf before ++ eventsOf later :=
    List.filterMap_append
  rw [hevents]
  exact (uninterrupted_follows before later).outcomes

theorem restarted_outcomes (before : List WalletCall) (window : List WalletEvent)
    (later : List WalletCall) :
    (restarted before window later).outcomes = tokensOf (window ++ eventsOf later) :=
  (restarted_follows before window later).outcomes

theorem restarted_baselines (before : List WalletCall) (window : List WalletEvent)
    (later : List WalletCall) :
    (restarted before window later).baselines = (stopped before).profileRows :=
  (restarted_follows before window later).baselines.trans
    (restored (stopped before) (stopped_stored before) _).2.2.1

/-- The restarted analyzer knows no other tokens than the one that went on, and these alike. -/
theorem tokens_restarted (hwindow : ∀ event ∈ window, event ∈ unseen ∅ (eventsOf before))
    (hnew : ∀ event ∈ eventsOf later, ∀ past ∈ eventsOf before, event.eventId ≠ past.eventId)
    (hwhole : ∀ mint, (tokensOf window).get? mint = none ∨
      (tokensOf window).get? mint = (tokensOf (eventsOf before)).get? mint) (mint : String) :
    (tokensOf (window ++ eventsOf later)).get? mint = none ∨
      (tokensOf (window ++ eventsOf later)).get? mint =
        (tokensOf (eventsOf (before ++ later))).get? mint := by
  have hevents : eventsOf (before ++ later) = eventsOf before ++ eventsOf later :=
    List.filterMap_append
  rw [hevents, tokensOf, tokensOf,
    unseen_of_new hnew fun event he => mem_of_mem_unseen (hwindow event he),
    unseen_of_new hnew fun _ he => he, List.foldl_append, List.foldl_append]
  exact foldl_recorded_subset _ hwhole mint

/-- Both analyzers know the same wallets. -/
theorem known_restarted (hwindow : ∀ event ∈ window, event ∈ unseen ∅ (eventsOf before))
    (hnew : ∀ event ∈ eventsOf later, ∀ past ∈ eventsOf before, event.eventId ≠ past.eventId)
    (wallet : String) : (restarted before window later).profiles.contains wallet = true ↔
      (uninterrupted before later).profiles.contains wallet = true := by
  have hstored := stopped_stored before
  have hrestored := (restored (stopped before) hstored
    (stopped before).loadWalletAnalysis.2).2.1
  have hagain := (restarted_follows before window later).learns wallet
  have hstop := (stopped_follows before).learns wallet
  have hall := (uninterrupted_follows before later).learns wallet
  have hempty : ({} : Analyzer).profiles.contains wallet = false := rfl
  change _ ↔ (Analyzer.restore {} (stopped before).profileRows.values
    (stopped before).loadWalletAnalysis.2).profiles.contains wallet = true ∨
      wallet ∈ (unseen ∅ (window ++ eventsOf later)).flatMap WalletEvent.named at hagain
  change _ ↔ _ ∨ wallet ∈ (unseen ∅ (eventsOf before)).flatMap WalletEvent.named at hstop
  change _ ↔ _ ∨ wallet ∈ (unseen ∅ (eventsOf before ++ eventsOf later)).flatMap
    WalletEvent.named at hall
  rw [hrestored, hstored.known, hstop, hempty,
    unseen_of_new hnew fun event he => mem_of_mem_unseen (hwindow event he),
    List.flatMap_append, List.mem_append] at hagain
  rw [hempty, unseen_of_new hnew fun _ he => he, List.flatMap_append, List.mem_append] at hall
  have hpast : wallet ∈ (unseen ∅ window).flatMap WalletEvent.named →
      wallet ∈ (unseen ∅ (eventsOf before)).flatMap WalletEvent.named := by
    intro h
    obtain ⟨event, he, hmem⟩ := List.mem_flatMap.mp h
    exact List.mem_flatMap.mpr ⟨event, hwindow event (mem_of_mem_unseen he), hmem⟩
  rw [hagain, hall]
  tauto

theorem text_ne_empty {value : Option String} {result : String} (h : text value = some result) :
    result ≠ "" := of_decide_eq_true (Option.filter_eq_some_iff.mp h).2

theorem ne_empty_of_named {event : WalletEvent} {wallet : String} (h : wallet ∈ event.named) :
    wallet ≠ "" := by
  obtain hown | hcreator := List.mem_append.mp h
  · exact text_ne_empty (Option.mem_toList.mp hown)
  · obtain ⟨outcome, hcreated, rfl⟩ := Option.map_eq_some_iff.mp (Option.mem_toList.mp hcreator)
    exact text_ne_empty (mint_of_created? hcreated).2

/-- The wallet is known after all events. -/
theorem known_uninterrupted (before later : List WalletCall) (wallet : String) :
    (uninterrupted before later).profiles.contains wallet = true ↔
      ∃ event ∈ unseen ∅ (eventsOf before ++ eventsOf later), wallet ∈ event.named := by
  have hall := (uninterrupted_follows before later).learns wallet
  have hempty : ({} : Analyzer).profiles.contains wallet = false := rfl
  rw [hempty, List.mem_flatMap] at hall
  simpa using hall

/-- A wallet with a row stays known. -/
theorem known_of_row {wallet : String} {row : WalletProfile}
    (hrow : (stopped before).profileRows.get? wallet = some row) :
    (uninterrupted before later).profiles.contains wallet = true := by
  have hknown := ((stopped_stored before).known wallet).mp (Dict.contains_eq_true.mpr ⟨row, hrow⟩)
  have hstop := ((stopped_follows before).learns wallet).mp hknown
  have hempty : ({} : Analyzer).profiles.contains wallet = false := rfl
  rw [hempty, List.mem_flatMap] at hstop
  obtain hfalse | ⟨event, he, hnamed⟩ := hstop
  · cases hfalse
  · rw [known_uninterrupted, unseen_append]
    exact ⟨event, List.mem_append_left _ he, hnamed⟩

/-- The tokens that the restarted analyzer counts itself are the ones not left to the row. -/
theorem countP_restarted (hwindow : ∀ event ∈ window, event ∈ unseen ∅ (eventsOf before))
    (hnew : ∀ event ∈ eventsOf later, ∀ past ∈ eventsOf before, event.eventId ≠ past.eventId)
    (hwhole : ∀ mint, (tokensOf window).get? mint = none ∨
      (tokensOf window).get? mint = (tokensOf (eventsOf before)).get? mint)
    (rows : Dict String WalletProfile) (wallet : String) (p : TokenOutcome → Bool) :
    ((tokensOf (window ++ eventsOf later)).values.countP fun item =>
      (item.creator = wallet ∧ ∀ row ∈ rows.get? wallet, item.createdAt > row.profileUpdatedAt) ∧
        p item = true) =
      (tokensOf (eventsOf (before ++ later))).values.countP fun item =>
        (item.creator = wallet ∧ ¬ LeftToRow rows (tokensOf (window ++ eventsOf later)) item) ∧
          p item = true := by
  apply Dict.countP_values_eq
  intro mint
  have htokens := tokens_restarted hwindow hnew hwhole mint
  have hmint := (uninterrupted_follows before later).sound.mint mint
  rw [uninterrupted_outcomes] at hmint
  constructor
  · rintro ⟨item, hget, hitem⟩
    obtain ⟨⟨hcreator, hnewer⟩, hp⟩ := of_decide_eq_true hitem
    have hall : (tokensOf (eventsOf (before ++ later))).get? mint = some item := by
      obtain hnone | hsame := htokens
      · rw [hnone] at hget
        cases hget
      · exact hsame.symm.trans hget
    refine ⟨item, hall, decide_eq_true ⟨⟨hcreator, ?_⟩, hp⟩⟩
    rintro (⟨row, hrow, hold⟩ | hnone)
    · exact absurd (hnewer row (hcreator ▸ hrow)) (not_lt.mpr hold)
    · rw [hmint item hall, hget] at hnone
      cases hnone
  · rintro ⟨item, hget, hitem⟩
    obtain ⟨⟨hcreator, hleft⟩, hp⟩ := of_decide_eq_true hitem
    have hagain : (tokensOf (window ++ eventsOf later)).get? mint = some item := by
      obtain hnone | hsame := htokens
      · exact absurd (.inr (hmint item hget ▸ hnone)) hleft
      · exact hsame.trans hget
    refine ⟨item, hagain, decide_eq_true ⟨⟨hcreator, fun row hrow => ?_⟩, hp⟩⟩
    exact not_le.mp fun hold => hleft (.inl ⟨row, hcreator.symm ▸ hrow, hold⟩)

/-- What is counted has a property or has not. -/
theorem countP_split {α : Type} (items : List α) (p q : α → Prop) [DecidablePred p]
    [DecidablePred q] : (items.countP fun item => p item) =
      (items.countP fun item => p item ∧ q item) + items.countP fun item => p item ∧ ¬ q item := by
  rw [List.countP_eq_countP_filter_add items (fun item => p item) fun item => q item,
    List.countP_filter, List.countP_filter]
  simp

/-- A counter is the same after a restart exactly when the stored row has the number of the
tokens that are left to it. -/
theorem counter_restart_iff (hwindow : ∀ event ∈ window, event ∈ unseen ∅ (eventsOf before))
    (hnew : ∀ event ∈ eventsOf later, ∀ past ∈ eventsOf before, event.eventId ≠ past.eventId)
    (hwhole : ∀ mint, (tokensOf window).get? mint = none ∨
      (tokensOf window).get? mint = (tokensOf (eventsOf before)).get? mint)
    (wallet : String) (at' : Time) (counter : Counter) :
    ((restarted before window later).profile (some wallet) at').1.map counter.of =
        ((uninterrupted before later).profile (some wallet) at').1.map counter.of ↔
      counter.ofBaseline ((stopped before).profileRows.get? wallet) =
        (tokensOf (eventsOf (before ++ later))).values.countP fun item =>
          (item.creator = wallet ∧ item.createdAt ≤ at' ∧ counter.counts at' item = true) ∧
            LeftToRow (stopped before).profileRows (tokensOf (window ++ eventsOf later)) item := by
  set rows := (stopped before).profileRows with hrows
  have hsame := known_restarted hwindow hnew wallet
  have hsound := (uninterrupted_follows before later).sound
  have hbaselines : (uninterrupted before later).baselines = Dict.empty :=
    (uninterrupted_follows before later).baselines
  by_cases hknown : (uninterrupted before later).profiles.contains wallet = true
  · have hwallet : wallet ≠ "" := by
      obtain ⟨event, _, hnamed⟩ := (known_uninterrupted before later wallet).mp hknown
      exact ne_empty_of_named hnamed
    have hall : ((uninterrupted before later).profile (some wallet) at').1.map counter.of =
        some ((tokensOf (eventsOf (before ++ later))).values.countP fun item =>
          item.creator = wallet ∧ item.createdAt ≤ at' ∧ counter.counts at' item = true) := by
      rw [of_profile _ hwallet, if_pos hknown, hbaselines, uninterrupted_outcomes]
      simp [Counter.ofBaseline, and_assoc]
    have hagain : ((restarted before window later).profile (some wallet) at').1.map counter.of =
        some (counter.ofBaseline (rows.get? wallet) +
          (tokensOf (eventsOf (before ++ later))).values.countP fun item =>
            (item.creator = wallet ∧ item.createdAt ≤ at' ∧ counter.counts at' item = true) ∧
              ¬ LeftToRow rows (tokensOf (window ++ eventsOf later)) item) := by
      have hcount := countP_restarted hwindow hnew hwhole rows wallet fun item =>
        item.createdAt ≤ at' ∧ counter.counts at' item = true
      rw [of_profile _ hwallet, if_pos (hsame.mpr hknown), restarted_baselines,
        restarted_outcomes, ← hrows]
      refine congrArg (fun n => some (counter.ofBaseline (rows.get? wallet) + n)) ?_
      calc _ = _ := List.countP_congr fun item _ => by simp; tauto
        _ = _ := hcount
        _ = _ := List.countP_congr fun item _ => by simp; tauto
    have hsplit := countP_split (tokensOf (eventsOf (before ++ later))).values
      (fun item => item.creator = wallet ∧ item.createdAt ≤ at' ∧ counter.counts at' item = true)
      fun item => LeftToRow rows (tokensOf (window ++ eventsOf later)) item
    rw [hall, hagain, Option.some_inj, hsplit]
    exact Nat.add_right_cancel_iff
  · have hunknown {a : Analyzer} (h : ¬ a.profiles.contains wallet = true) :
        (a.profile (some wallet) at').1 = none := by
      unfold Analyzer.profile
      split
      · rfl
      · next own hown =>
          rw [← Option.some.inj (Option.filter_eq_some_iff.mp hown).1, if_neg h]
    have hrow : rows.get? wallet = none := by
      by_contra hsome
      obtain ⟨row, hrow⟩ := Option.ne_none_iff_exists'.mp hsome
      exact hknown (known_of_row hrow)
    have hnone : ((tokensOf (eventsOf (before ++ later))).values.countP fun item =>
        (item.creator = wallet ∧ item.createdAt ≤ at' ∧ counter.counts at' item = true) ∧
          LeftToRow rows (tokensOf (window ++ eventsOf later)) item) = 0 := by
      rw [List.countP_eq_zero]
      intro item hmem hitem
      obtain ⟨mint, hget⟩ := Dict.mem_values.mp hmem
      rw [← uninterrupted_outcomes] at hget
      exact hknown ((of_decide_eq_true hitem).1.1 ▸ hsound.known mint item hget)
    rw [hunknown hknown, hunknown fun h => hknown (hsame.mp h), hrow, hnone]
    exact iff_of_true rfl rfl

end Restart

/-! ## One token over the stop -/

/-- The creation of a token, and its migration two days later. -/
def oneCreation : WalletEvent :=
  { eventId := "e1", eventType := .tokenCreated, slot := 1, mint := some "M", blockTime := 0
    observedAt := 0, payload := { creator := some "W" } }

def oneMigration : WalletEvent :=
  { eventId := "e2", eventType := .migration, slot := 2, mint := some "M", blockTime := days 2
    observedAt := days 2, payload := {} }

theorem counter_restart_iff_next_day :
    ((restarted [.observe oneCreation] [oneCreation] []).profile (some "W") (days 1)).1.map
        Counter.created7d.of =
      ((uninterrupted [.observe oneCreation] []).profile (some "W") (days 1)).1.map
        Counter.created7d.of := by
  have hwindow : ∀ event ∈ [oneCreation], event ∈ unseen ∅ (eventsOf [.observe oneCreation]) := by
    decide
  have hnew : ∀ event ∈ eventsOf [], ∀ past ∈ eventsOf [.observe oneCreation],
      event.eventId ≠ past.eventId := by decide
  exact (counter_restart_iff hwindow hnew (fun _ => .inr rfl) "W" (days 1) .created7d).mpr
    (by decide +kernel)

/-- The token migrates after the stop, and is more than a week old when the profile is read: the
restarted analyzer knows of neither. -/
theorem old_token_still_counted :
    (((restarted [.observe oneCreation] [oneCreation] [.observe oneMigration]).profile
      (some "W") (days 8)).1.map fun p => (p.tokensCreated7d, p.tokensReachingPumpswap)) =
        some (1, 0) ∧
    (((uninterrupted [.observe oneCreation] [.observe oneMigration]).profile
      (some "W") (days 8)).1.map fun p => (p.tokensCreated7d, p.tokensReachingPumpswap)) =
        some (0, 1) ∧
    ¬ ∀ (before later : List WalletCall) (window : List WalletEvent),
      (∀ event ∈ window, event ∈ unseen ∅ (eventsOf before)) →
      (∀ event ∈ eventsOf later, ∀ past ∈ eventsOf before, event.eventId ≠ past.eventId) →
      (∀ mint, (tokensOf window).get? mint = none ∨
        (tokensOf window).get? mint = (tokensOf (eventsOf before)).get? mint) →
      ∀ (wallet : String) (at' : Time) (counter : Counter),
        ((restarted before window later).profile (some wallet) at').1.map counter.of =
          ((uninterrupted before later).profile (some wallet) at').1.map counter.of := by
  refine ⟨by decide +kernel, by decide +kernel, fun h => ?_⟩
  have hrun := h [.observe oneCreation] [.observe oneMigration] [oneCreation] (by decide)
    (by decide) (fun _ => .inr rfl) "W" (days 8) .created7d
  exact absurd hrun (by decide +kernel)

end SniperBot.Wallets
