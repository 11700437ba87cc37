import SniperBot.Events.Claims
import SniperBot.Basis.Run
import Mathlib.Data.List.Basic

/-!
# Who may settle an event

`Guarantees` collects what callers rely on when several database instances claim, take over and
settle overlapping batches: settled rows stay settled, ingest sequences are unique, permanent
and increasing, attempts only grow, and a claim is settled by the holder of its stored token and
by nobody else. `run_guarantees` proves them after every run of calls by any number of
instances, whatever the clock does and however a call ends.

The invariant behind it is small: every token held in memory was drawn once, for one event and
one instance (`Tokens`), and a row has a sequence exactly when it is in the claim table
(`Sequences`).
-/

namespace SniperBot.Events

open Basis

/-! ## Batches -/

theorem firstOccurrences_foldl (ids acc : List String) (hacc : acc.Nodup) :
    (ids.foldl (fun unique id => if id ∈ unique then unique else unique ++ [id]) acc).Nodup ∧
    ∀ x, x ∈ ids.foldl (fun unique id => if id ∈ unique then unique else unique ++ [id]) acc ↔
      x ∈ acc ∨ x ∈ ids := by
  induction ids generalizing acc with
  | nil => simp [hacc]
  | cons id ids ih =>
      rw [List.foldl_cons]
      by_cases hid : id ∈ acc
      · rw [if_pos hid]
        obtain ⟨hnodup, hmem⟩ := ih acc hacc
        refine ⟨hnodup, fun x => ?_⟩
        rw [hmem x, List.mem_cons]
        constructor
        · rintro (hx | hx)
          · exact Or.inl hx
          · exact Or.inr (Or.inr hx)
        · rintro (hx | rfl | hx)
          · exact Or.inl hx
          · exact Or.inl hid
          · exact Or.inr hx
      · rw [if_neg hid]
        have hnew : (acc ++ [id]).Nodup :=
          List.nodup_append.mpr ⟨hacc, List.nodup_singleton id, by
            intro a ha b hb
            rw [List.mem_singleton.mp hb]
            rintro rfl
            exact hid ha⟩
        obtain ⟨hnodup, hmem⟩ := ih (acc ++ [id]) hnew
        refine ⟨hnodup, fun x => ?_⟩
        rw [hmem x, List.mem_append, List.mem_singleton, List.mem_cons, or_assoc]

theorem firstOccurrences_nodup (ids : List String) : (firstOccurrences ids).Nodup :=
  (firstOccurrences_foldl ids [] List.nodup_nil).1

theorem mem_firstOccurrences {ids : List String} {id : String} :
    id ∈ firstOccurrences ids ↔ id ∈ ids := by
  have h := (firstOccurrences_foldl ids [] List.nodup_nil).2 id
  simpa [firstOccurrences] using h

/-! ## Tokens -/

/-- What `assignTokens` does: held tokens stay, and each missing one is drawn once. -/
structure Assigned (ids : List String) (held : Dict String Nat) (next : Nat)
    (held' : Dict String Nat) (next' : Nat) : Prop where
  le : next ≤ next'
  kept : ∀ id t, held.get? id = some t → held'.get? id = some t
  given : ∀ id ∈ ids, ∃ t, held'.get? id = some t
  origin : ∀ id t, held'.get? id = some t →
    held.get? id = some t ∨ (id ∈ ids ∧ held.get? id = none ∧ next ≤ t ∧ t < next')
  once : ∀ a b t, held'.get? a = some t → held'.get? b = some t → next ≤ t → a = b

/-- An event with a token keeps it. -/
theorem Assigned.skip {id : String} {ids : List String} {held held' : Dict String Nat}
    {next next' token : Nat} (h : Assigned ids held next held' next')
    (hget : held.get? id = some token) : Assigned (id :: ids) held next held' next' := by
  refine ⟨h.le, h.kept, ?_, ?_, h.once⟩
  · intro x hx
    rcases List.mem_cons.mp hx with rfl | hx
    · exact ⟨token, h.kept _ token hget⟩
    · exact h.given x hx
  · intro x t hx
    rcases h.origin x t hx with hold | ⟨hmem, hnew⟩
    · exact Or.inl hold
    · exact Or.inr ⟨List.mem_cons_of_mem _ hmem, hnew⟩

/-- The token drawn for an event is held by no other event. -/
theorem Assigned.holder {id x : String} {ids : List String} {held held' : Dict String Nat}
    {next next' : Nat} (h : Assigned ids (held.set id next) (next + 1) held' next')
    (hbelow : ∀ a t, held.get? a = some t → t < next) (hx : held'.get? x = some next) :
    x = id := by
  rcases h.origin x next hx with hold | ⟨-, -, hlow, -⟩
  · rw [Dict.get?_set] at hold
    split at hold
    · rename_i heq
      exact heq.symm
    · have hlt := hbelow x next hold
      omega
  · omega

/-- An event without a token gets the next one. -/
theorem Assigned.draw {id : String} {ids : List String} {held held' : Dict String Nat}
    {next next' : Nat} (h : Assigned ids (held.set id next) (next + 1) held' next')
    (hget : held.get? id = none) (hbelow : ∀ a t, held.get? a = some t → t < next) :
    Assigned (id :: ids) held next held' next' := by
  have hself := h.kept id next (Dict.get?_set_self _ _ _)
  have hle := h.le
  refine ⟨by omega, ?_, ?_, ?_, ?_⟩
  · intro x t hx
    refine h.kept x t ?_
    rw [Dict.get?_set]
    split
    · rename_i heq
      subst heq
      rw [hget] at hx
      cases hx
    · exact hx
  · intro x hx
    rcases List.mem_cons.mp hx with rfl | hx
    · exact ⟨next, hself⟩
    · exact h.given x hx
  · intro x t hx
    rcases h.origin x t hx with hold | ⟨hmem, hnone, hlow, hhigh⟩
    · rw [Dict.get?_set] at hold
      split at hold
      · rename_i heq
        cases hold
        subst heq
        exact Or.inr ⟨List.mem_cons_self, hget, le_rfl, by omega⟩
      · exact Or.inl hold
    · rw [Dict.get?_set] at hnone
      split at hnone
      · cases hnone
      · exact Or.inr ⟨List.mem_cons_of_mem _ hmem, hnone, by omega, hhigh⟩
  · intro a b t ha hb hlow
    -- the token drawn here, or one drawn for the rest of the batch
    by_cases ht : t = next
    · subst ht
      rw [h.holder hbelow ha, h.holder hbelow hb]
    · exact h.once a b t ha hb (by omega)

theorem assignTokens_spec (ids : List String) (held : Dict String Nat) (next : Nat)
    (hbelow : ∀ id t, held.get? id = some t → t < next) :
    Assigned ids held next (assignTokens ids held next).1 (assignTokens ids held next).2 := by
  induction ids generalizing held next with
  | nil =>
      refine ⟨le_rfl, fun _ _ h => h, by simp, fun _ _ h => Or.inl h, ?_⟩
      intro a b t ha _ hle
      have hlt := hbelow a t ha
      omega
  | cons id ids ih =>
      cases hget : held.get? id with
      | some token =>
          have hassign : assignTokens (id :: ids) held next = assignTokens ids held next := by
            simp [assignTokens, hget]
          rw [hassign]
          exact (ih held next hbelow).skip hget
      | none =>
          have hassign : assignTokens (id :: ids) held next =
              assignTokens ids (held.set id next) (next + 1) := by
            simp [assignTokens, hget]
          rw [hassign]
          refine (ih (held.set id next) (next + 1) fun x t hx => ?_).draw hget hbelow
          rw [Dict.get?_set] at hx
          split at hx
          · cases hx
            omega
          · have hlt := hbelow x t hx
            omega

/-- Every held token was drawn, for one event and one instance. -/
structure Tokens (w : World) : Prop where
  drawn : ∀ i id t, (w.held i).get? id = some t → t < w.next
  single : ∀ i j a b t, (w.held i).get? a = some t → (w.held j).get? b = some t → i = j ∧ a = b

/-- Replacing the tokens of one instance by some of those that `assignTokens` gave it. -/
theorem Tokens.update {w : World} (h : Tokens w) {owner : Nat} {ids : List String}
    {held claims : Dict String Nat} {next : Nat} (db : EventDb)
    (hassigned : Assigned ids (w.held owner) w.next claims next)
    (hheld : ∀ id t, held.get? id = some t → claims.get? id = some t) :
    Tokens { db := db, held := Function.update w.held owner held, next := next } := by
  have hle := hassigned.le
  have hother : ∀ i, i ≠ owner → Function.update w.held owner held i = w.held i :=
    fun i hi => Function.update_of_ne hi _ _
  -- a token of the owner was held before or is new
  have howner : ∀ id t, held.get? id = some t →
      (w.held owner).get? id = some t ∨ (w.next ≤ t ∧ t < next) := by
    intro id t hget
    rcases hassigned.origin id t (hheld id t hget) with hold | ⟨-, -, hlow, hhigh⟩
    · exact Or.inl hold
    · exact Or.inr ⟨hlow, hhigh⟩
  -- so no other instance holds it
  have hforeign : ∀ i a b t, i ≠ owner → (w.held i).get? a = some t → held.get? b = some t →
      False := by
    intro i a b t hi ha hb
    have hlt := h.drawn i a t ha
    rcases howner b t hb with hold | ⟨hlow, -⟩
    · exact hi (h.single i owner a b t ha hold).1
    · omega
  constructor
  · intro i id t hget
    dsimp only at hget ⊢
    by_cases hi : i = owner
    · subst hi
      rw [Function.update_self] at hget
      rcases howner id t hget with hold | ⟨-, hhigh⟩
      · have hlt := h.drawn i id t hold
        omega
      · exact hhigh
    · rw [hother i hi] at hget
      have hlt := h.drawn i id t hget
      omega
  · intro i j a b t ha hb
    dsimp only at ha hb
    by_cases hi : i = owner
    · subst hi
      rw [Function.update_self] at ha
      by_cases hj : j = i
      · subst hj
        rw [Function.update_self] at hb
        refine ⟨rfl, ?_⟩
        by_cases hlow : w.next ≤ t
        · exact hassigned.once a b t (hheld a t ha) (hheld b t hb) hlow
        · rcases howner a t ha with hold | ⟨hnew, -⟩
          · rcases howner b t hb with hold' | ⟨hnew', -⟩
            · exact (h.single j j a b t hold hold').2
            · omega
          · omega
      · rw [hother j hj] at hb
        exact absurd hb (fun hb => hforeign j b a t hj hb ha)
    · rw [hother i hi] at ha
      by_cases hj : j = owner
      · subst hj
        rw [Function.update_self] at hb
        exact absurd ha (fun ha => hforeign i a b t hi ha hb)
      · rw [hother j hj] at hb
        exact h.single i j a b t ha hb

/-! ## Sequences -/

theorem assignSequences_of_notMem {ids : List String} {id : String} (hid : id ∉ ids) (n : Nat)
    (raw : Dict String Nat) : (assignSequences ids n raw).get? id = raw.get? id := by
  induction ids generalizing n raw with
  | nil => rfl
  | cons a ids ih =>
      rw [List.mem_cons, not_or] at hid
      rw [assignSequences, ih hid.2, Dict.get?_set_ne _ (Ne.symm hid.1)]

/-- The `k`-th new event gets the `k`-th value. -/
theorem assignSequences_getElem {ids : List String} (hnodup : ids.Nodup) {k : Nat} {id : String}
    (hid : ids[k]? = some id) (n : Nat) (raw : Dict String Nat) :
    (assignSequences ids n raw).get? id = some (n + k) := by
  induction ids generalizing n raw k with
  | nil => cases hid
  | cons a ids ih =>
      rw [List.nodup_cons] at hnodup
      cases k with
      | zero =>
          cases hid
          rw [assignSequences, assignSequences_of_notMem hnodup.1, Dict.get?_set_self, Nat.add_zero]
      | succ k =>
          rw [assignSequences, ih hnodup.2 hid]
          congr 1
          omega

theorem le_foldr_max {values : List Nat} {n : Nat} (h : n ∈ values) : n ≤ values.foldr max 0 := by
  induction values with
  | nil => cases h
  | cons a values ih =>
      rw [List.foldr_cons]
      rcases List.mem_cons.mp h with rfl | h
      · exact le_max_left _ _
      · exact (ih h).trans (le_max_right _ _)

/-- Sequences are distinct and not above the base, and exactly the claimed events have one. -/
structure Sequences (dialect : Dialect) (db : EventDb) : Prop where
  coupled : ∀ id, db.raw.get? id = none ↔ db.dedup.get? id = none
  below : ∀ id n, db.raw.get? id = some n → n ≤ db.sequenceBase dialect
  distinct : ∀ a b n, db.raw.get? a = some n → db.raw.get? b = some n → a = b

theorem Sequences.init (dialect : Dialect) : Sequences dialect {} := by
  refine ⟨fun _ => iff_of_true rfl rfl, ?_, ?_⟩
  · rintro _ _ ⟨⟩
  · rintro _ _ _ ⟨⟩

/-- Drawn values of the sequence object do no harm. -/
theorem Sequences.advance {dialect : Dialect} {db : EventDb} (h : Sequences dialect db)
    {last : Nat} (hlast : db.lastSequence ≤ last) :
    Sequences dialect { db with lastSequence := last } := by
  refine ⟨h.coupled, fun id n hget => ?_, h.distinct⟩
  have hbelow := h.below id n hget
  cases dialect with
  | sqlite => exact hbelow
  | postgresql => exact hbelow.trans hlast

/-! ## Claiming -/

section Claim

variable {dialect : Dialect} {call : ClaimCall} {held claims : Dict String Nat}
  {unique : List String} {db : EventDb}

theorem newEvents_nodup (hnodup : unique.Nodup) : (db.newEvents unique).Nodup :=
  hnodup.sublist List.filter_sublist

theorem mem_newEvents {id : String} :
    id ∈ db.newEvents unique ↔ id ∈ unique ∧ db.dedup.get? id = none := by
  simp [EventDb.newEvents, List.mem_filter]

theorem claimBatch_dedup (hnodup : unique.Nodup) (id : String) :
    (db.claimBatch dialect call held claims unique).dedup.get? id =
      if id ∈ unique then
        some (call.row (held.get? id) (claims.get? id) (db.dedup.get? id))
      else db.dedup.get? id :=
  Dict.get?_foldl_set (fun id row => call.row (held.get? id) (claims.get? id) row) unique hnodup
    db.dedup id

theorem claimBatch_raw_old {id : String} (hid : id ∉ db.newEvents unique) :
    (db.claimBatch dialect call held claims unique).raw.get? id = db.raw.get? id :=
  assignSequences_of_notMem hid _ _

theorem claimBatch_raw_new (hnodup : unique.Nodup) {id : String} {k : Nat}
    (hid : (db.newEvents unique)[k]? = some id) :
    (db.claimBatch dialect call held claims unique).raw.get? id =
      some (db.sequenceBase dialect + 1 + k) :=
  assignSequences_getElem (newEvents_nodup hnodup) hid _ _

theorem claimBatch_sequenceBase (h : Sequences dialect db) (hnodup : unique.Nodup) {id : String}
    {n : Nat} (hget : (db.claimBatch dialect call held claims unique).raw.get? id = some n) :
    n ≤ (db.claimBatch dialect call held claims unique).sequenceBase dialect := by
  cases dialect with
  | sqlite => exact le_foldr_max (Dict.mem_values.mpr ⟨id, hget⟩)
  | postgresql =>
      show n ≤ db.lastSequence + (db.newEvents unique).length
      by_cases hid : id ∈ db.newEvents unique
      · obtain ⟨k, hk, hkid⟩ := List.mem_iff_getElem.mp hid
        rw [claimBatch_raw_new hnodup (List.getElem?_eq_some_iff.mpr ⟨hk, hkid⟩)] at hget
        cases hget
        show db.lastSequence + 1 + k ≤ _
        omega
      · rw [claimBatch_raw_old hid] at hget
        have hbelow : n ≤ db.lastSequence := h.below id n hget
        omega

theorem Sequences.claimBatch (h : Sequences dialect db) (hnodup : unique.Nodup) :
    Sequences dialect (db.claimBatch dialect call held claims unique) := by
  -- an old value, or the value of a new event above all of them
  have hcases : ∀ id n, (db.claimBatch dialect call held claims unique).raw.get? id = some n →
      (id ∉ db.newEvents unique ∧ db.raw.get? id = some n) ∨
      ∃ k, (db.newEvents unique)[k]? = some id ∧ n = db.sequenceBase dialect + 1 + k := by
    intro id n hget
    by_cases hid : id ∈ db.newEvents unique
    · obtain ⟨k, hk, hkid⟩ := List.mem_iff_getElem.mp hid
      have hk' := List.getElem?_eq_some_iff.mpr ⟨hk, hkid⟩
      rw [claimBatch_raw_new hnodup hk'] at hget
      exact Or.inr ⟨k, hk', (Option.some.inj hget).symm⟩
    · rw [claimBatch_raw_old hid] at hget
      exact Or.inl ⟨hid, hget⟩
  refine ⟨fun id => ?_, fun id n hget => claimBatch_sequenceBase h hnodup hget, ?_⟩
  · rw [claimBatch_dedup hnodup]
    by_cases hid : id ∈ db.newEvents unique
    · obtain ⟨k, hk, hkid⟩ := List.mem_iff_getElem.mp hid
      rw [claimBatch_raw_new hnodup (List.getElem?_eq_some_iff.mpr ⟨hk, hkid⟩),
        if_pos (mem_newEvents.mp hid).1]
      simp
    · rw [claimBatch_raw_old hid, h.coupled id]
      split
      · rename_i hmem
        have hknown : db.dedup.get? id ≠ none := fun hnone => hid (mem_newEvents.mpr ⟨hmem, hnone⟩)
        simp [hknown]
      · rfl
  · intro a b n ha hb
    rcases hcases a n ha with ⟨-, holda⟩ | ⟨j, hj, hnj⟩
    · rcases hcases b n hb with ⟨-, holdb⟩ | ⟨k, hk, hnk⟩
      · exact h.distinct a b n holda holdb
      · have hbelow := h.below a n holda
        omega
    · rcases hcases b n hb with ⟨-, holdb⟩ | ⟨k, hk, hnk⟩
      · have hbelow := h.below b n holdb
        omega
      · have hjk : j = k := by omega
        subst hjk
        rw [hj] at hk
        exact Option.some.inj hk

/-- A claim keeps a settled row and never takes an attempt back. -/
theorem claimRow_of_processed {held claim : Option Nat} {row : DedupRow}
    (h : row.status = .processed) : call.row held claim (some row) = row := by
  unfold ClaimCall.row
  dsimp only
  split
  · rfl
  · exact if_pos (Or.inl h)

theorem attempts_le_claimRow {held claim : Option Nat} {row : DedupRow} :
    row.attempts ≤ (call.row held claim (some row)).attempts := by
  unfold ClaimCall.row
  dsimp only
  split
  · exact le_rfl
  · split
    · exact le_rfl
    · exact Nat.le_succ _

theorem claimRow_of_processing {held claim : Option Nat} {row : DedupRow}
    (h : row.status = .processing) : (call.row held claim (some row)).status = .processing := by
  unfold ClaimCall.row
  dsimp only
  split
  · exact h
  · split
    · exact h
    · rfl

end Claim

/-! ## Settling -/

section Settle

variable {how : Settlement} {at' : Time} {unique : List String} {db : EventDb}

theorem settleBatch_dedup (hnodup : unique.Nodup) (id : String) :
    (db.settleBatch how at' unique).dedup.get? id =
      if id ∈ unique then (db.dedup.get? id).map (how.row at') else db.dedup.get? id := by
  have hupdate := Dict.get?_foldl_update (fun id : String => id) (fun _ => how.row at') unique
    (by rwa [List.map_id']) db.dedup
  split
  · rename_i hid
    exact hupdate.1 id hid
  · rename_i hid
    exact hupdate.2 id (by rwa [List.map_id'])

theorem Sequences.settleBatch {dialect : Dialect} (h : Sequences dialect db)
    (hnodup : unique.Nodup) : Sequences dialect (db.settleBatch how at' unique) := by
  refine ⟨fun id => ?_, h.below, h.distinct⟩
  rw [settleBatch_dedup hnodup]
  show db.raw.get? id = none ↔ _
  rw [h.coupled id]
  split
  · rw [Option.map_eq_none_iff]
  · rfl

theorem settleRow_attempts (row : DedupRow) : (how.row at' row).attempts = row.attempts := by
  cases how <;> rfl

end Settle

/-! ## What no call takes back -/

/-- Settled rows, sequences and attempts from one state of the tables to a later one. -/
structure Progress (s t : EventDb) : Prop where
  processed : ∀ id row, s.dedup.get? id = some row → row.status = .processed →
    t.dedup.get? id = some row
  sequences : ∀ id n, s.raw.get? id = some n → t.raw.get? id = some n
  attempts : ∀ id row, s.dedup.get? id = some row →
    ∃ row', t.dedup.get? id = some row' ∧ row.attempts ≤ row'.attempts

theorem Progress.refl (s : EventDb) : Progress s s :=
  ⟨fun _ _ h _ => h, fun _ _ h => h, fun _ row h => ⟨row, h, le_rfl⟩⟩

theorem Progress.trans {s t u : EventDb} (hst : Progress s t) (htu : Progress t u) :
    Progress s u := by
  refine ⟨?_, ?_, ?_⟩
  · intro id row hget hstatus
    exact htu.processed id row (hst.processed id row hget hstatus) hstatus
  · intro id n hget
    exact htu.sequences id n (hst.sequences id n hget)
  · intro id row hget
    obtain ⟨row', hget', hle⟩ := hst.attempts id row hget
    obtain ⟨row'', hget'', hle'⟩ := htu.attempts id row' hget'
    exact ⟨row'', hget'', hle.trans hle'⟩

theorem Progress.advance (s : EventDb) (last : Nat) : Progress s { s with lastSequence := last } :=
  ⟨fun _ _ h _ => h, fun _ _ h => h, fun _ row h => ⟨row, h, le_rfl⟩⟩

theorem Progress.claimBatch {dialect : Dialect} {call : ClaimCall} {held claims : Dict String Nat}
    {unique : List String} {db : EventDb} (h : Sequences dialect db) (hnodup : unique.Nodup) :
    Progress db (db.claimBatch dialect call held claims unique) := by
  refine ⟨?_, ?_, ?_⟩
  · intro id row hget hstatus
    rw [claimBatch_dedup hnodup, hget, claimRow_of_processed hstatus]
    split <;> rfl
  · intro id n hget
    have hknown : id ∉ db.newEvents unique := by
      intro hid
      have hnone := (h.coupled id).mpr (mem_newEvents.mp hid).2
      rw [hget] at hnone
      cases hnone
    rw [claimBatch_raw_old hknown, hget]
  · intro id row hget
    rw [claimBatch_dedup hnodup, hget]
    split
    · exact ⟨_, rfl, attempts_le_claimRow⟩
    · exact ⟨row, rfl, le_rfl⟩

theorem Progress.settleBatch {how : Settlement} {at' : Time} {unique : List String} {db : EventDb}
    {held : Dict String Nat} (hnodup : unique.Nodup) (howns : ∀ id ∈ unique, db.Owns held id) :
    Progress db (db.settleBatch how at' unique) := by
  refine ⟨?_, fun _ _ h => h, ?_⟩
  · intro id row hget hstatus
    rw [settleBatch_dedup hnodup]
    split
    · -- a batch whose claims are all in `PROCESSING` has no settled row
      rename_i hid
      obtain ⟨row', hrow', hprocessing, -⟩ := howns id hid
      rw [Option.mem_def, hget] at hrow'
      cases hrow'
      rw [hstatus] at hprocessing
      cases hprocessing
    · exact hget
  · intro id row hget
    rw [settleBatch_dedup hnodup, hget]
    split
    · exact ⟨how.row at' row, rfl, (settleRow_attempts row).ge⟩
    · exact ⟨row, rfl, le_rfl⟩

/-! ## One call -/

theorem dropTokens_get? {held claims : Dict String Nat} {unique : List String}
    {retained : String → Bool} {id : String} {t : Nat}
    (h : (dropTokens held claims unique retained).get? id = some t) : held.get? id = some t := by
  rw [dropTokens, Dict.get?_filter] at h
  exact (Option.filter_eq_some_iff.mp h).1

/-- The two invariants of a run. -/
structure Sound (dialect : Dialect) (w : World) : Prop where
  tokens : Tokens w
  sequences : Sequences dialect w.db

theorem Sound.init (dialect : Dialect) : Sound dialect {} := by
  refine ⟨⟨?_, ?_⟩, Sequences.init dialect⟩
  · rintro _ _ _ ⟨⟩
  · rintro _ _ _ _ _ ⟨⟩

section Step

variable (dialect : Dialect) {w : World}

/-- What a `record_events` call can do to the tables: nothing, draw sequence values, or write the
batch. -/
theorem recordEvents_db (w : World) (owner : Nat) (ids : List String) (call : ClaimCall)
    (outcome : Outcome) :
    (∃ last, w.db.lastSequence ≤ last ∧
      (w.recordEvents dialect owner ids call outcome).db = { w.db with lastSequence := last }) ∨
    ∃ claims, (w.recordEvents dialect owner ids call outcome).db =
      w.db.claimBatch dialect call claims claims (firstOccurrences ids) := by
  unfold World.recordEvents
  split
  · exact Or.inl ⟨w.db.lastSequence, le_rfl, rfl⟩
  · cases outcome with
    | committed => exact Or.inr ⟨_, rfl⟩
    | rolledBack reconciled drawn => exact Or.inl ⟨_, Nat.le_add_right _ _, rfl⟩
    | unknown stored =>
        cases stored with
        | true => exact Or.inr ⟨_, rfl⟩
        | false =>
            refine Or.inl ⟨_, ?_, rfl⟩
            cases dialect with
            | sqlite => exact le_rfl
            | postgresql => exact Nat.le_add_right _ _

theorem Tokens.recordEvents (h : Tokens w) (owner : Nat) (ids : List String) (call : ClaimCall)
    (outcome : Outcome) : Tokens (w.recordEvents dialect owner ids call outcome) := by
  have hassigned := assignTokens_spec (firstOccurrences ids) (w.held owner) w.next
    (fun id t => h.drawn owner id t)
  unfold World.recordEvents
  split
  · exact h
  · cases outcome with
    | committed => exact h.update _ hassigned fun id t hget => dropTokens_get? hget
    | rolledBack reconciled drawn =>
        cases reconciled with
        | true => exact h.update _ hassigned fun id t hget => dropTokens_get? hget
        | false => exact h.update _ hassigned fun _ _ hget => hget
    | unknown stored => exact h.update _ hassigned fun _ _ hget => hget

/-- Dropping tokens of one instance. -/
theorem Tokens.shrink (h : Tokens w) {owner : Nat} {held : Dict String Nat} (db : EventDb)
    (hheld : ∀ id t, held.get? id = some t → (w.held owner).get? id = some t) :
    Tokens { w with db := db, held := Function.update w.held owner held } := by
  have hassigned : Assigned [] (w.held owner) w.next (w.held owner) w.next :=
    assignTokens_spec [] (w.held owner) w.next (fun id t => h.drawn owner id t)
  exact h.update db hassigned hheld

theorem Tokens.settleEvents (h : Tokens w) (owner : Nat) (ids : List String) (how : Settlement)
    (at' : Time) (outcome : Outcome) : Tokens (w.settleEvents owner ids how at' outcome) := by
  unfold World.settleEvents
  dsimp only
  split
  · cases outcome with
    | committed => exact h.shrink _ fun id t hget => dropTokens_get? hget
    | rolledBack reconciled drawn => exact h
    | unknown stored => exact ⟨h.drawn, h.single⟩
  · exact h

/-- What settling can do to the tables: nothing, or settle the whole batch, every row of which
still stores the token of the caller. -/
theorem settleEvents_db (w : World) (owner : Nat) (ids : List String) (how : Settlement)
    (at' : Time) (outcome : Outcome) :
    (w.settleEvents owner ids how at' outcome).db = w.db ∨
    ((∀ id ∈ firstOccurrences ids, w.db.Owns (w.held owner) id) ∧
      (w.settleEvents owner ids how at' outcome).db =
        w.db.settleBatch how at' (firstOccurrences ids)) := by
  unfold World.settleEvents
  dsimp only
  split
  · rename_i howns
    cases outcome with
    | committed => exact Or.inr ⟨howns, rfl⟩
    | rolledBack reconciled drawn => exact Or.inl rfl
    | unknown stored =>
        cases stored with
        | true => exact Or.inr ⟨howns, rfl⟩
        | false => exact Or.inl rfl
  · exact Or.inl rfl

variable {dialect}

theorem Sound.apply (h : Sound dialect w) (op : ClaimOp) :
    Sound dialect (w.apply dialect op) ∧ Progress w.db (w.apply dialect op).db := by
  cases op with
  | record owner ids call outcome =>
      have hnodup := firstOccurrences_nodup ids
      have htokens := h.tokens.recordEvents dialect owner ids call outcome
      rcases recordEvents_db dialect w owner ids call outcome with ⟨last, hlast, heq⟩ | ⟨claims, heq⟩
      · refine ⟨⟨htokens, ?_⟩, ?_⟩
        · simp only [World.apply, heq]
          exact h.sequences.advance hlast
        · simp only [World.apply, heq]
          exact Progress.advance w.db last
      · refine ⟨⟨htokens, ?_⟩, ?_⟩
        · simp only [World.apply, heq]
          exact h.sequences.claimBatch hnodup
        · simp only [World.apply, heq]
          exact Progress.claimBatch h.sequences hnodup
  | settle owner ids how at' outcome =>
      have hnodup := firstOccurrences_nodup ids
      have htokens := h.tokens.settleEvents owner ids how at' outcome
      rcases settleEvents_db w owner ids how at' outcome with heq | ⟨howns, heq⟩
      · refine ⟨⟨htokens, ?_⟩, ?_⟩
        · simp only [World.apply, heq]
          exact h.sequences
        · simp only [World.apply, heq]
          exact Progress.refl w.db
      · refine ⟨⟨htokens, ?_⟩, ?_⟩
        · simp only [World.apply, heq]
          exact h.sequences.settleBatch hnodup
        · simp only [World.apply, heq]
          exact Progress.settleBatch hnodup howns
  | release owner id =>
      refine ⟨⟨?_, h.sequences⟩, Progress.refl w.db⟩
      refine h.tokens.shrink w.db fun a t hget => ?_
      rw [Dict.get?_erase] at hget
      split at hget
      · cases hget
      · exact hget

/-- A claim ends only when the holder of the stored token settles the event. -/
theorem apply_settledByHolder (op : ClaimOp) {id : String} {row row' : DedupRow}
    (hrow : w.db.dedup.get? id = some row) (hstatus : row.status = .processing)
    (hrow' : (w.apply dialect op).db.dedup.get? id = some row')
    (hstatus' : row'.status ≠ .processing) :
    ∃ owner ids how at' outcome t, op = .settle owner ids how at' outcome ∧ id ∈ ids ∧
      row.token = some t ∧ (w.held owner).get? id = some t := by
  cases op with
  | record owner ids call outcome =>
      exfalso
      rw [World.apply] at hrow'
      rcases recordEvents_db dialect w owner ids call outcome with ⟨last, -, heq⟩ | ⟨claims, heq⟩
      · rw [heq, hrow] at hrow'
        cases hrow'
        exact hstatus' hstatus
      · rw [heq, claimBatch_dedup (firstOccurrences_nodup ids), hrow] at hrow'
        split at hrow'
        · cases hrow'
          exact hstatus' (claimRow_of_processing hstatus)
        · cases hrow'
          exact hstatus' hstatus
  | settle owner ids how at' outcome =>
      rw [World.apply] at hrow'
      rcases settleEvents_db w owner ids how at' outcome with heq | ⟨howns, heq⟩
      · rw [heq, hrow] at hrow'
        cases hrow'
        exact absurd hstatus hstatus'
      · rw [heq, settleBatch_dedup (firstOccurrences_nodup ids), hrow] at hrow'
        split at hrow'
        · rename_i hid
          obtain ⟨claim, hclaim, -, htoken, hheld⟩ := howns id hid
          rw [Option.mem_def, hrow] at hclaim
          cases hclaim
          obtain ⟨t, ht⟩ := Option.ne_none_iff_exists'.mp htoken
          exact ⟨owner, ids, how, at', outcome, t, rfl, mem_firstOccurrences.mp hid, ht,
            hheld ▸ ht⟩
        · cases hrow'
          exact absurd hstatus hstatus'
  | release owner a =>
      have hsame : some row = some row' := hrow.symm.trans hrow'
      cases hsame
      exact absurd hstatus hstatus'

/-- A batch with one claim that is no longer the caller's changes no row. -/
theorem apply_settle_of_lost {owner : Nat} {ids : List String} {id : String} (hid : id ∈ ids)
    (hlost : ¬ w.db.Owns (w.held owner) id) (how : Settlement) (at' : Time) (outcome : Outcome) :
    w.apply dialect (.settle owner ids how at' outcome) = w := by
  have hnot : ¬ ∀ a ∈ firstOccurrences ids, w.db.Owns (w.held owner) a :=
    fun howns => hlost (howns id (mem_firstOccurrences.mpr hid))
  exact if_neg hnot

/-- The sequences that a call gives out lie above every stored one. -/
theorem Sound.apply_sequence_above (h : Sound dialect w) (op : ClaimOp) {id other : String}
    {n m : Nat} (hnew : w.db.raw.get? id = none)
    (hid : (w.apply dialect op).db.raw.get? id = some n) (hother : w.db.raw.get? other = some m) :
    m < n := by
  cases op with
  | record owner ids call outcome =>
      rw [World.apply] at hid
      rcases recordEvents_db dialect w owner ids call outcome with ⟨last, -, heq⟩ | ⟨claims, heq⟩
      · rw [heq, hnew] at hid
        cases hid
      · rw [heq] at hid
        have hbelow := h.sequences.below other m hother
        by_cases hmem : id ∈ w.db.newEvents (firstOccurrences ids)
        · obtain ⟨k, hk, hkid⟩ := List.mem_iff_getElem.mp hmem
          rw [claimBatch_raw_new (firstOccurrences_nodup ids)
            (List.getElem?_eq_some_iff.mpr ⟨hk, hkid⟩)] at hid
          cases hid
          omega
        · rw [claimBatch_raw_old hmem, hnew] at hid
          cases hid
  | settle owner ids how at' outcome =>
      rw [World.apply] at hid
      rcases settleEvents_db w owner ids how at' outcome with heq | ⟨-, heq⟩
      · rw [heq, hnew] at hid
        cases hid
      · rw [heq] at hid
        have hnone : some n = none := hid.symm.trans hnew
        cases hnone
  | release owner a =>
      have hnone : some n = none := hid.symm.trans hnew
      cases hnone

/-- New events get increasing sequences in the order of their first occurrence. -/
theorem Sound.recordEvents_increasing (h : Sound dialect w) (owner : Nat) (ids : List String)
    (call : ClaimCall) (outcome : Outcome) :
    (firstOccurrences ids).Pairwise fun a b => ∀ n m,
      w.db.raw.get? a = none → w.db.raw.get? b = none →
      (w.apply dialect (.record owner ids call outcome)).db.raw.get? a = some n →
      (w.apply dialect (.record owner ids call outcome)).db.raw.get? b = some m → n < m := by
  rw [World.apply]
  rcases recordEvents_db dialect w owner ids call outcome with ⟨last, -, heq⟩ | ⟨claims, heq⟩
  · refine List.pairwise_of_forall fun a b n m hnew _ ha _ => ?_
    rw [heq, hnew] at ha
    cases ha
  · rw [heq]
    have hnodup := firstOccurrences_nodup ids
    -- position by position over the new events, the `k`-th of which gets the `k`-th value
    have hordered : (w.db.newEvents (firstOccurrences ids)).Pairwise fun a b => ∀ n m,
        (w.db.claimBatch dialect call claims claims (firstOccurrences ids)).raw.get? a = some n →
        (w.db.claimBatch dialect call claims claims (firstOccurrences ids)).raw.get? b = some m →
        n < m := by
      rw [List.pairwise_iff_getElem]
      intro i j hi hj hij n m hn hm
      rw [claimBatch_raw_new hnodup (List.getElem?_eq_getElem hi)] at hn
      rw [claimBatch_raw_new hnodup (List.getElem?_eq_getElem hj)] at hm
      cases hn
      cases hm
      omega
    rw [EventDb.newEvents, List.pairwise_filter] at hordered
    refine hordered.imp fun {a b} hab n m ha hb hn hm => ?_
    exact hab (decide_eq_true ((h.sequences.coupled a).mp ha))
      (decide_eq_true ((h.sequences.coupled b).mp hb)) n m hn hm

end Step

/-! ## Every run -/

/-- What callers rely on in a state, whatever they do next. -/
structure Guarantees (dialect : Dialect) (w : World) : Prop where
  progress : ∀ later, Progress w.db (exec (World.apply dialect) w later).db
  sequenced : ∀ id, w.db.raw.get? id = none ↔ w.db.dedup.get? id = none
  distinct : ∀ a b n, w.db.raw.get? a = some n → w.db.raw.get? b = some n → a = b
  above : ∀ op id other n m, w.db.raw.get? id = none →
    (w.apply dialect op).db.raw.get? id = some n → w.db.raw.get? other = some m → m < n
  increasing : ∀ owner ids call outcome, (firstOccurrences ids).Pairwise fun a b => ∀ n m,
    w.db.raw.get? a = none → w.db.raw.get? b = none →
    (w.apply dialect (.record owner ids call outcome)).db.raw.get? a = some n →
    (w.apply dialect (.record owner ids call outcome)).db.raw.get? b = some m → n < m
  settledByHolder : ∀ op id row row', w.db.dedup.get? id = some row → row.status = .processing →
    (w.apply dialect op).db.dedup.get? id = some row' → row'.status ≠ .processing →
    ∃ owner ids how at' outcome t, op = .settle owner ids how at' outcome ∧ id ∈ ids ∧
      row.token = some t ∧ (w.held owner).get? id = some t
  allOrNothing : ∀ owner ids how at' outcome id, id ∈ ids → ¬ w.db.Owns (w.held owner) id →
    (w.apply dialect (.settle owner ids how at' outcome)).db = w.db
  oneHolder : ∀ id row t, w.db.dedup.get? id = some row → row.token = some t →
    ∀ i j, (w.held i).get? id = some t → (w.held j).get? id = some t → i = j

theorem Sound.exec {dialect : Dialect} {w : World} (h : Sound dialect w) (ops : List ClaimOp) :
    Sound dialect (Basis.exec (World.apply dialect) w ops) ∧
      Progress w.db (Basis.exec (World.apply dialect) w ops).db := by
  refine ⟨exec_invariant (fun w op hw => (hw.apply op).1) h ops, ?_⟩
  refine exec_relates (R := fun v w => Progress v.db w.db) ?_ ?_ ?_ ?_ h ops
  · exact fun w => Progress.refl w.db
  · exact fun _ _ _ hst htu => hst.trans htu
  · exact fun w op hw => (hw.apply op).1
  · exact fun w op hw => (hw.apply op).2

theorem run_guarantees (dialect : Dialect) (ops : List ClaimOp) :
    Guarantees dialect (exec (World.apply dialect) {} ops) := by
  have h := ((Sound.init dialect).exec ops).1
  refine ⟨?_, h.sequences.coupled, h.sequences.distinct, ?_, ?_, ?_, ?_, ?_⟩
  · intro later
    exact (h.exec later).2
  · intro op id other n m hnew hid hother
    exact h.apply_sequence_above op hnew hid hother
  · intro owner ids call outcome
    exact h.recordEvents_increasing owner ids call outcome
  · intro op id row row' hrow hstatus hrow' hstatus'
    exact apply_settledByHolder op hrow hstatus hrow' hstatus'
  · intro owner ids how at' outcome id hid hlost
    rw [apply_settle_of_lost hid hlost]
  · intro id row t _ _ i j hi hj
    exact (h.tokens.single i j id id t hi hj).1

end SniperBot.Events
