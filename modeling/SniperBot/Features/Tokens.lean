import SniperBot.Basis.Run
import SniperBot.Features.Registry

/-!
# What the token registry knows

The four entry points of `TokenRegistry` as steps of one run. Enrichments and mint states patch a
record, and so do the other events, but a creation starts a new record and a migration sets the
first pool to what its payload says. A run loses no fact if and only if none of its steps does one
of the two to a record that knows more (`facts_kept_iff`).
-/

namespace SniperBot.Features

open Basis

/-! ## Steps -/

/-- One call of the registry. -/
inductive TokenUpdate
  | event (event : EventEnvelope)
  | mintState (mint tokenProgram : String) (decimals : Nat) (totalSupplyRaw : ℚ) (observedAt : Time)
  | enrichment (mint : String) (name symbol : Option String) (observedAt : Time)

def applyUpdate (tokens : Tokens) : TokenUpdate → Tokens
  | .event event => (applyToken tokens event).1
  | .mintState mint tokenProgram decimals totalSupplyRaw observedAt =>
      applyMintState tokens mint tokenProgram decimals totalSupplyRaw observedAt
  | .enrichment mint name symbol observedAt => applyEnrichment tokens mint name symbol observedAt

/-! ## Facts -/

/-- What a record may know of its token. -/
inductive TokenFact
  | bondingCurveComplete | firstPoolAddress | migrationTime | decimals | chainSupply
  | creatorAddress | enrichment
  deriving DecidableEq, Repr

/-- Whether the record knows it. A supply is from the chain if it came with the decimals: a
creation has none, and nothing else sets a supply. -/
def TokenRecord.knows (token : TokenRecord) : TokenFact → Bool
  | .bondingCurveComplete => token.bondingCurveComplete
  | .firstPoolAddress => (token.firstPoolAddress.filter (· ≠ "")).isSome
  | .migrationTime => token.migrationTime.isSome
  | .decimals => token.decimals.isSome
  | .chainSupply => token.decimals.isSome && token.totalSupplyRaw.isSome
  | .creatorAddress => token.creatorAddress.isSome
  | .enrichment => token.enrichment.isSome

/-- Every fact that the record knew is known. -/
def TokenRecord.Retains (old next : TokenRecord) : Prop :=
  ∀ fact, old.knows fact = true → next.knows fact = true

/-- No record loses a fact. -/
def FactsKept (tokens next : Tokens) : Prop :=
  ∀ mint old, tokens.get? mint = some old →
    ∃ record, next.get? mint = some record ∧ old.Retains record

theorem TokenRecord.Retains.refl (token : TokenRecord) : token.Retains token := fun _ h => h

theorem TokenRecord.Retains.trans {first second third : TokenRecord} (h : first.Retains second)
    (h' : second.Retains third) : first.Retains third := fun fact hfact => h' fact (h fact hfact)

theorem FactsKept.refl (tokens : Tokens) : FactsKept tokens tokens :=
  fun _ old hget => ⟨old, hget, .refl old⟩

theorem FactsKept.trans {first second third : Tokens} (h : FactsKept first second)
    (h' : FactsKept second third) : FactsKept first third := by
  intro mint old hget
  obtain ⟨record, hrecord, hretains⟩ := h mint old hget
  obtain ⟨last, hlast, hretains'⟩ := h' mint record hrecord
  exact ⟨last, hlast, hretains.trans hretains'⟩

/-- One record is set: the others stay as they are. -/
theorem factsKept_set_iff (tokens : Tokens) (mint : String) (record : TokenRecord) :
    FactsKept tokens (tokens.set mint record) ↔
      ∀ old, tokens.get? mint = some old → old.Retains record := by
  constructor
  · intro h old hget
    obtain ⟨next, hnext, hretains⟩ := h mint old hget
    rw [Dict.get?_set, if_pos rfl] at hnext
    exact Option.some.inj hnext ▸ hretains
  · intro h own old hget
    rw [Dict.get?_set]
    by_cases hmint : mint = own
    · exact ⟨record, if_pos hmint, h old (hmint ▸ hget)⟩
    · exact ⟨old, (if_neg hmint).trans hget, .refl old⟩

/-! ## The condition -/

/-- The event does not take a fact from a record: a creation finds no record that knows more than
a creator, and it names one if that is known; a migration names a pool if the first one is known. -/
def TokenRecord.Spared (old : TokenRecord) (event : EventEnvelope) (mint : String) : Prop :=
  (event.eventType = .tokenCreated → mint ≠ "" →
    (∀ fact, old.knows fact = true → fact = .creatorAddress) ∧
    (old.knows .creatorAddress = true →
      (text (orText event.payload.creator event.payload.user)).isSome = true)) ∧
  (event.eventType = .migration → old.knows .firstPoolAddress = true →
    (text event.payload.pool).isSome = true)

def SparesFacts (tokens : Tokens) : TokenUpdate → Prop
  | .event event =>
      ∀ mint ∈ event.mint, ∀ old ∈ tokens.get? mint, old.Spared event mint
  | .mintState _ _ _ _ _ | .enrichment _ _ _ _ => True

theorem text_known (value : Option String) :
    ((text value).filter (· ≠ "")).isSome = (text value).isSome := by
  unfold text
  rw [Option.filter_filter]
  simp only [Bool.and_self]

/-- A new record knows no more than its creator. -/
theorem createdToken_knows (event : EventEnvelope) (mint : String) (fact : TokenFact) :
    (createdToken event mint).knows fact = true ↔ fact = .creatorAddress ∧
      (text (orText event.payload.creator event.payload.user)).isSome = true := by
  cases fact <;> simp [TokenRecord.knows, createdToken]

theorem retains_created_iff (old : TokenRecord) (event : EventEnvelope) (mint : String) :
    old.Retains (createdToken event mint) ↔
      (∀ fact, old.knows fact = true → fact = .creatorAddress) ∧
      (old.knows .creatorAddress = true →
        (text (orText event.payload.creator event.payload.user)).isSome = true) := by
  simp only [TokenRecord.Retains, createdToken_knows]
  constructor
  · intro h
    exact ⟨fun fact hfact => (h fact hfact).1, fun hcreator => (h .creatorAddress hcreator).2⟩
  · rintro ⟨honly, hcreator⟩ fact hfact
    obtain rfl := honly fact hfact
    exact ⟨rfl, hcreator hfact⟩

/-- Any other event only touches the completion, the migration and the first pool. -/
theorem retains_after_iff (old : TokenRecord) (event : EventEnvelope) :
    old.Retains (old.after event) ↔
      (event.eventType = .migration → old.knows .firstPoolAddress = true →
        (text event.payload.pool).isSome = true) := by
  constructor
  · intro h htype hpool
    have hknown := h .firstPoolAddress hpool
    rw [TokenRecord.after, htype] at hknown
    exact text_known event.payload.pool ▸ hknown
  · intro h fact hfact
    unfold TokenRecord.after
    split
    · cases fact <;> first | rfl | exact hfact
    · next htype =>
        cases fact with
        | firstPoolAddress => exact (text_known event.payload.pool).trans (h htype hfact)
        | migrationTime => rfl
        | _ => exact hfact
    · split
      · exact hfact
      · next hunknown =>
          cases fact with
          | firstPoolAddress => exact absurd hfact hunknown
          | _ => exact hfact
    · exact hfact

/-! ## One step -/

theorem applyToken_kept_iff (tokens : Tokens) (event : EventEnvelope) :
    FactsKept tokens (applyToken tokens event).1 ↔ SparesFacts tokens (.event event) := by
  unfold applyToken SparesFacts
  cases hmint : event.mint with
  | none => exact iff_of_true (.refl tokens) fun mint h => by simp [hmint] at h
  | some mint =>
      dsimp only
      rw [factsKept_set_iff]
      simp only [hmint, Option.mem_def, Option.some.injEq, forall_eq']
      refine forall_congr' fun old => imp_congr_right fun hget => ?_
      by_cases hcreated : event.eventType = .tokenCreated ∧ mint ≠ ""
      · obtain ⟨htype, hne⟩ := hcreated
        rw [if_pos ⟨htype, hne⟩, retains_created_iff]
        simp [TokenRecord.Spared, htype, hne]
      · rw [if_neg hcreated, hget, Option.getD_some, retains_after_iff, TokenRecord.Spared]
        exact (and_iff_right fun htype hne => absurd ⟨htype, hne⟩ hcreated).symm

/-- A mint state and an enrichment take nothing away. -/
theorem applyMintState_kept (tokens : Tokens) (mint tokenProgram : String) (decimals : Nat)
    (totalSupplyRaw : ℚ) (observedAt : Time) :
    FactsKept tokens (applyMintState tokens mint tokenProgram decimals totalSupplyRaw observedAt) := by
  unfold applyMintState
  cases hget : tokens.get? mint with
  | none => exact .refl tokens
  | some token =>
      refine (factsKept_set_iff tokens mint _).mpr fun old hold fact hfact => ?_
      obtain rfl := Option.some.inj (hget.symm.trans hold)
      cases fact <;> first | rfl | exact hfact

theorem applyEnrichment_kept (tokens : Tokens) (mint : String) (name symbol : Option String)
    (observedAt : Time) :
    FactsKept tokens (applyEnrichment tokens mint name symbol observedAt) := by
  unfold applyEnrichment
  cases hget : tokens.get? mint with
  | none => exact .refl tokens
  | some token =>
      refine (factsKept_set_iff tokens mint _).mpr fun old hold fact hfact => ?_
      obtain rfl := Option.some.inj (hget.symm.trans hold)
      cases fact <;> first | rfl | exact hfact

theorem applyUpdate_kept_iff (tokens : Tokens) (update : TokenUpdate) :
    FactsKept tokens (applyUpdate tokens update) ↔ SparesFacts tokens update := by
  cases update with
  | event event => exact applyToken_kept_iff tokens event
  | mintState mint tokenProgram decimals totalSupplyRaw observedAt =>
      exact iff_of_true (applyMintState_kept _ _ _ _ _ _) trivial
  | enrichment mint name symbol observedAt =>
      exact iff_of_true (applyEnrichment_kept _ _ _ _ _) trivial

/-! ## Runs -/

/-- Between any two points of a run no fact is lost, if and only if every step spares the facts that
are known when it is made. -/
theorem facts_kept_iff (tokens : Tokens) (updates : List TokenUpdate) :
    (∀ before between after, updates = before ++ between ++ after →
        FactsKept (exec applyUpdate tokens before)
          (exec applyUpdate tokens (before ++ between))) ↔
      Along SparesFacts applyUpdate tokens updates := by
  rw [Along.between_iff FactsKept.refl fun _ _ _ => FactsKept.trans]
  exact Along.congr applyUpdate_kept_iff tokens updates

/-- The order of a recovery: the pool first, then the token that it is for. -/
def poolThenToken : List TokenUpdate :=
  [.event
      { eventId := "e2", source := .rpcRecovery, protocol := .pumpswap, eventType := .poolCreated
        slot := 2, signature := "s2", blockTime := 2, observedAt := 2, mint := some "M"
        poolAddress := some "P" },
    .event
      { eventId := "e1", source := .rpcRecovery, protocol := .pump, eventType := .tokenCreated
        slot := 1, signature := "s1", blockTime := 1, observedAt := 3, mint := some "M"
        payload := { creator := some "W" } }]

/-- The creation of the token forgets the pool that the registry knew. -/
theorem creation_forgets_pool :
    ((exec applyUpdate Dict.empty (poolThenToken.take 1)).get? "M").map (·.firstPoolAddress) =
      some (some "P") ∧
    ((exec applyUpdate Dict.empty poolThenToken).get? "M").map (·.firstPoolAddress) = some none ∧
    ¬ ∀ (updates before between after : List TokenUpdate), updates = before ++ between ++ after →
      FactsKept (exec applyUpdate Dict.empty before)
        (exec applyUpdate Dict.empty (before ++ between)) := by
  refine ⟨by decide +kernel, by decide +kernel, fun h => ?_⟩
  obtain ⟨record, hrecord, hretains⟩ := h poolThenToken (poolThenToken.take 1)
    (poolThenToken.drop 1) [] rfl "M" _ rfl
  have hknown := hretains .firstPoolAddress (by decide +kernel)
  have hlost : ((exec applyUpdate Dict.empty poolThenToken).get? "M").map
      (·.knows .firstPoolAddress) = some false := by decide +kernel
  have hget : (exec applyUpdate Dict.empty poolThenToken).get? "M" = some record := hrecord
  rw [hget, Option.map_some, hknown] at hlost
  exact absurd hlost (by decide)

end SniperBot.Features
