import SniperBot.Events.StateBatch

/-!
# A flush against calls one at a time

`Coalesces` relates the tables after some calls outside a batch to the buffer that the same calls
fill inside one: every table is the old one behind the buffer. Each call keeps it
(`StateCall.coalesces`). The flush of a buffer writes exactly its entries (`flush_spec`), and a
table finds the parents of its rows, since the groups come parents first.

`flush_matches_calls` puts the two together and adds what holds of every flush: the order of its
statements, and that a failing statement leaves the tables as they were.
-/

namespace SniperBot.Events

open Basis Features

section Effects

variable {γ : Type} {dialect : Dialect} {db : StateDb γ}

/-! ## Raw rows -/

theorem hasRaw_iff {event : EventEnvelope} : db.HasRaw event ↔
    (db.contexts.get? event.eventId).map RawContext.blockDate = some (date event.blockTime) := by
  rw [Option.map_eq_some_iff]
  exact Iff.rfl

/-- A context update keeps the dates of the raw rows. -/
theorem hasRaw_updateContexts (events : List EventEnvelope) (event : EventEnvelope) :
    (db.updateContexts events).HasRaw event ↔ db.HasRaw event := by
  rw [hasRaw_iff, hasRaw_iff, StateDb.updateContexts]
  dsimp only
  rw [Dict.map_get?_foldl_update EventEnvelope.eventId RawContext.update RawContext.blockDate
    fun _ _ => rfl]

/-! ## Parents -/

/-- Groups of rows, each with its model. -/
abbrev Groups (γ : Type) := List (UpsertModel × List (Values γ))

/-- The parent of a row is in its table, or in one of the groups. -/
def StateDb.Resolves (db : StateDb γ) (groups : Groups γ) (dialect : Dialect)
    (model : UpsertModel) (values : Values γ) : Prop :=
  dialect = .postgresql → ∀ reference ∈ model.foreignKeys, ∀ value ∈ values reference.1,
    db.HasParent reference.2 value ∨ ∃ group ∈ groups, reference.2 = .table group.1 ∧
      ∃ row ∈ group.2, group.1.identity row = [some value]

/-- The first group finds all its parents in the tables. -/
theorem resolves_head {order : DependencyOrder} {group : UpsertModel × List (Values γ)}
    {groups : Groups γ}
    (hsorted : (group :: groups).Pairwise fun a b => order.index a.1 < order.index b.1)
    {values : Values γ} (h : db.Resolves (group :: groups) dialect group.1 values) :
    db.References dialect group.1 values := by
  intro hdialect reference hreference value hvalue
  rcases h hdialect reference hreference value hvalue with hparent | ⟨other, hother, hnamed, -⟩
  · exact hparent
  · exfalso
    -- the group that is named would come first
    have hbefore := order.parents other.1 group.1 ⟨reference, hreference, hnamed⟩
    rcases List.mem_cons.mp hother with rfl | hother
    · omega
    · have hafter := (List.pairwise_cons.mp hsorted).1 other hother
      omega

/-! ## Settled marks -/

theorem settleMarks_of_notMem {marks : List ProcessedMark}
    (hnodup : (marks.map ProcessedMark.eventId).Nodup) {id : String}
    (hid : id ∉ marks.map ProcessedMark.eventId) :
    (db.settleMarks marks).claims.dedup.get? id = db.claims.dedup.get? id :=
  (settleBatch_dedup hnodup id).trans (if_neg hid)

theorem settleMarks_of_mem {marks : List ProcessedMark}
    (hnodup : (marks.map ProcessedMark.eventId).Nodup) {mark : ProcessedMark}
    (hmark : mark ∈ marks) : (db.settleMarks marks).claims.dedup.get? mark.eventId =
      (db.claims.dedup.get? mark.eventId).map (Settlement.processed.row (latest marks)) :=
  (settleBatch_dedup hnodup _).trans (if_pos (List.mem_map_of_mem hmark))

theorem holds_settleMarks_iff {marks : List ProcessedMark}
    (hnodup : (marks.map ProcessedMark.eventId).Nodup) {mark : ProcessedMark}
    (hmark : mark.eventId ∉ marks.map ProcessedMark.eventId) :
    (db.settleMarks marks).claims.Holds mark ↔ db.claims.Holds mark := by
  unfold EventDb.Holds
  rw [settleMarks_of_notMem hnodup hmark]

theorem foldl_settleMarks_of_notMem {pieces : List (List ProcessedMark)}
    (hnodup : (pieces.flatten.map ProcessedMark.eventId).Nodup) {id : String}
    (hid : id ∉ pieces.flatten.map ProcessedMark.eventId) :
    (pieces.foldl StateDb.settleMarks db).claims.dedup.get? id = db.claims.dedup.get? id := by
  induction pieces generalizing db with
  | nil => rfl
  | cons piece pieces ih =>
      rw [List.flatten_cons, List.map_append] at hnodup hid
      rw [List.mem_append, not_or] at hid
      rw [List.nodup_append] at hnodup
      exact (ih hnodup.2.1 hid.2).trans (settleMarks_of_notMem hnodup.1 hid.1)

/-- An event is settled at the latest time of its own piece. -/
theorem foldl_settleMarks_of_mem {pieces : List (List ProcessedMark)}
    (hnodup : (pieces.flatten.map ProcessedMark.eventId).Nodup) {piece : List ProcessedMark}
    (hpiece : piece ∈ pieces) {mark : ProcessedMark} (hmark : mark ∈ piece) :
    (pieces.foldl StateDb.settleMarks db).claims.dedup.get? mark.eventId =
      (db.claims.dedup.get? mark.eventId).map (Settlement.processed.row (latest piece)) := by
  induction pieces generalizing db with
  | nil => cases hpiece
  | cons first pieces ih =>
      rw [List.flatten_cons, List.map_append, List.nodup_append] at hnodup
      obtain ⟨hfirst, hrest, hdisjoint⟩ := hnodup
      rcases List.mem_cons.mp hpiece with rfl | hpiece
      · refine (foldl_settleMarks_of_notMem hrest fun hid => ?_).trans
          (settleMarks_of_mem hfirst hmark)
        exact hdisjoint _ (List.mem_map_of_mem hmark) _ hid rfl
      · rw [List.foldl_cons, ih hrest hpiece, settleMarks_of_notMem hfirst]
        exact fun hid => hdisjoint _ hid _
          (List.mem_map_of_mem (List.mem_flatten.mpr ⟨piece, hpiece, hmark⟩)) rfl

/-- Marks only settle claims. -/
theorem foldl_settleMarks_frame (pieces : List (List ProcessedMark)) (db : StateDb γ) :
    (pieces.foldl StateDb.settleMarks db).contexts = db.contexts ∧
      (pieces.foldl StateDb.settleMarks db).tables = db.tables ∧
      (pieces.foldl StateDb.settleMarks db).strategyVersions = db.strategyVersions ∧
      (pieces.foldl StateDb.settleMarks db).claims.raw = db.claims.raw ∧
      (pieces.foldl StateDb.settleMarks db).claims.lastSequence = db.claims.lastSequence := by
  induction pieces generalizing db with
  | nil => exact ⟨rfl, rfl, rfl, rfl, rfl⟩
  | cons piece pieces ih => exact ih (db.settleMarks piece)

/-- The latest time is the time of a mark and not below any of them. -/
theorem latest_spec {marks : List ProcessedMark} {mark : ProcessedMark} (hmark : mark ∈ marks) :
    mark.processedAt ≤ latest marks ∧ ∃ last ∈ marks, last.processedAt = latest marks := by
  have hmem : mark.processedAt ∈ marks.map ProcessedMark.processedAt := List.mem_map_of_mem hmark
  obtain ⟨time, htime⟩ := Option.isSome_iff_exists.mp (List.isSome_max?_of_mem hmem)
  obtain ⟨hlast, hle⟩ := List.max?_eq_some_iff.mp htime
  rw [latest, htime, Option.getD_some]
  exact ⟨hle _ hmem, List.mem_map.mp hlast⟩

theorem markPieces_perm (dialect : Dialect) (marks : List ProcessedMark) :
    (markPieces dialect marks).flatten.Perm marks := by
  unfold markPieces
  split
  · rename_i hempty
    rw [hempty]
    rfl
  · cases dialect with
    | postgresql =>
        rw [List.flatten_singleton]
        exact List.perm_insertionSort _ _
    | sqlite =>
        dsimp only
        rw [flatten_slices (by decide)]
        exact List.perm_insertionSort _ _

/-- Marks that are all at one time settle the same in pieces of any size. -/
theorem foldl_settleMarks_of_same {pieces : List (List ProcessedMark)}
    {marks : List ProcessedMark} (hperm : pieces.flatten.Perm marks)
    (hnodup : (marks.map ProcessedMark.eventId).Nodup) {time : Time}
    (htime : ∀ mark ∈ marks, mark.processedAt = time) (id : String) :
    (pieces.foldl StateDb.settleMarks db).claims.dedup.get? id =
      if id ∈ marks.map ProcessedMark.eventId then
        (db.claims.dedup.get? id).map (Settlement.processed.row time)
      else db.claims.dedup.get? id := by
  have hpieces : (pieces.flatten.map ProcessedMark.eventId).Nodup :=
    ((hperm.map _).nodup_iff).mpr hnodup
  split
  · rename_i hid
    obtain ⟨mark, hmark, rfl⟩ := List.mem_map.mp hid
    obtain ⟨piece, hpiece, hmem⟩ := List.mem_flatten.mp (hperm.mem_iff.mpr hmark)
    rw [foldl_settleMarks_of_mem hpieces hpiece hmem]
    obtain ⟨-, last, hlast, hlatest⟩ := latest_spec hmem
    rw [← hlatest, htime last (hperm.mem_iff.mp (List.mem_flatten.mpr ⟨piece, hpiece, hlast⟩))]
  · rename_i hid
    exact foldl_settleMarks_of_notMem hpieces fun hmem => hid ((hperm.map _).mem_iff.mp hmem)

end Effects

section Sessions

variable {γ : Type} [DecidableEq γ] {schema : Schema γ} {dialect : Dialect} {db : StateDb γ}

/-! ## Sessions -/

theorem executeAll_append (fault : Nat → Bool) (n : Nat) (first second : List (Statement γ))
    (db : StateDb γ) : executeAll schema dialect fault n (first ++ second) db =
      (executeAll schema dialect fault n first db).bind
        (executeAll schema dialect fault (n + first.length) second) := by
  induction first generalizing n db with
  | nil => rfl
  | cons statement first ih =>
      rw [List.cons_append, executeAll, executeAll]
      split
      · rfl
      · cases statement.execute schema dialect db with
        | error e => rfl
        | ok written =>
            refine (ih (n + 1) written).trans ?_
            rw [List.length_cons, Nat.add_assoc n 1, Nat.add_comm 1]
            rfl

/-- A fault at one of the statements ends the session. -/
theorem executeAll_fault {fault : Nat → Bool} {statements : List (Statement γ)} {n k : Nat}
    (hn : n ≤ k) (hk : k < n + statements.length) (hfault : fault k = true) :
    ∃ error, executeAll schema dialect fault n statements db = .error error := by
  induction statements generalizing n db with
  | nil =>
      rw [List.length_nil] at hk
      omega
  | cons statement statements ih =>
      rw [executeAll]
      split
      · exact ⟨_, rfl⟩
      · rename_i hnow
        have hne : n ≠ k := fun heq => hnow (heq ▸ hfault)
        cases statement.execute schema dialect db with
        | error error => exact ⟨error, rfl⟩
        | ok written =>
            rw [List.length_cons] at hk
            exact ih (by omega) (by omega)

/-! ## Context updates -/

theorem executeAll_contexts (n : Nat) {pieces : List (List EventEnvelope)}
    (hraw : ∀ piece ∈ pieces, ∀ event ∈ piece, db.HasRaw event) :
    executeAll schema dialect (fun _ => false) n (pieces.map .rawContexts) db =
      .ok (db.updateContexts pieces.flatten) := by
  induction pieces generalizing n db with
  | nil => rfl
  | cons piece pieces ih =>
      rw [List.map_cons, executeAll, if_neg Bool.false_ne_true, Statement.execute,
        if_pos (hraw piece List.mem_cons_self)]
      refine (ih (n + 1) fun other hother event hevent => ?_).trans ?_
      · exact (hasRaw_updateContexts piece event).mpr
          (hraw other (List.mem_cons_of_mem _ hother) event hevent)
      · rw [List.flatten_cons, StateDb.updateContexts, StateDb.updateContexts,
          StateDb.updateContexts, List.foldl_append]

/-! ## Upserts -/

/-- The rows of a statement, written one after the other. -/
theorem row_foldl_upsert {model : UpsertModel} (rows : List (Values γ)) (table : Table γ model) :
    (rows.foldl Table.upsert table).row =
      writeOut model.inserted (rows.map fun values => (model.identity values, values))
        table.row := by
  induction rows generalizing table with
  | nil => rfl
  | cons values rows ih =>
      rw [List.foldl_cons, ih, List.map_cons]
      exact congrArg (writeOut _ _) (table.upsertRow_eq values)

/-- The rows of a buffer, written in any order, are the table behind the buffer. -/
theorem row_foldl_upsert_perm {model : UpsertModel} {rows : List (Values γ)}
    {group : Dict (List (Option γ)) (Values γ)} (hrows : rows.Perm group.values)
    (hidentity : ∀ identity values, group.get? identity = some values →
      model.identity values = identity) (table : Table γ model) :
    (rows.foldl Table.upsert table).row = overlay model.inserted table.row group := by
  rw [row_foldl_upsert]
  refine writeOut_perm ((hrows.map _).trans ?_) _
  rw [Dict.values, List.map_map]
  refine List.Perm.of_eq ((List.map_congr_left fun entry hentry => ?_).trans (List.map_id _))
  exact Prod.ext (hidentity entry.1 entry.2 (Dict.mem_entries.mp hentry)) rfl

@[simp] theorem upsertRows_self (model : UpsertModel) (rows : List (Values γ)) :
    (db.upsertRows model rows).tables model = rows.foldl Table.upsert (db.tables model) :=
  Function.update_self _ _ _

theorem upsertRows_of_ne {model other : UpsertModel} (hother : other ≠ model)
    (rows : List (Values γ)) : (db.upsertRows model rows).tables other = db.tables other :=
  Function.update_of_ne hother _ _

/-- A table keeps its rows. -/
theorem isSome_foldl_upsert {model : UpsertModel} {table : Table γ model} (rows : List (Values γ))
    {identity : List (Option γ)} (h : (table.row identity).isSome = true) :
    ((rows.foldl Table.upsert table).row identity).isSome = true := by
  induction rows generalizing table with
  | nil => exact h
  | cons values rows ih =>
      refine ih ?_
      change (table.upsertRow values identity).isSome = true
      rw [table.upsertRow_eq, Function.update_apply]
      split
      · rfl
      · exact h

/-- A table has the rows that were written into it. -/
theorem isSome_foldl_upsert_of_mem {model : UpsertModel} {table : Table γ model}
    {rows : List (Values γ)} {values : Values γ} (hvalues : values ∈ rows) :
    ((rows.foldl Table.upsert table).row (model.identity values)).isSome = true := by
  induction rows generalizing table with
  | nil => cases hvalues
  | cons first rows ih =>
      rcases List.mem_cons.mp hvalues with rfl | hvalues
      · refine isSome_foldl_upsert rows ?_
        change (table.upsertRow values (model.identity values)).isSome = true
        rw [table.upsertRow_eq, Function.update_self]
        rfl
      · exact ih hvalues

theorem StateDb.HasParent.upsertRows {reference : Reference} {value : γ}
    (h : db.HasParent reference value) (model : UpsertModel) (rows : List (Values γ)) :
    (db.upsertRows model rows).HasParent reference value := by
  cases reference with
  | strategyVersions => exact h
  | table parent =>
      change (((db.upsertRows model rows).tables parent).row [some value]).isSome = true
      by_cases hparent : parent = model
      · subst hparent
        rw [upsertRows_self]
        exact isSome_foldl_upsert rows h
      · rw [upsertRows_of_ne hparent]
        exact h

theorem StateDb.References.upsertRows {child : UpsertModel} {values : Values γ}
    (h : db.References dialect child values) (model : UpsertModel) (rows : List (Values γ)) :
    (db.upsertRows model rows).References dialect child values :=
  fun hdialect reference hreference value hvalue =>
    (h hdialect reference hreference value hvalue).upsertRows model rows

theorem upsertRows_append (model : UpsertModel) (first second : List (Values γ)) :
    (db.upsertRows model first).upsertRows model second = db.upsertRows model (first ++ second) := by
  unfold StateDb.upsertRows
  dsimp only
  rw [Function.update_self, Function.update_idem, List.foldl_append]

/-- The statements of one group, when every row is accepted and finds its parents. -/
theorem executeAll_group (n : Nat) {model : UpsertModel} (pieces : List (List (Values γ)))
    (hrows : ∀ piece ∈ pieces, ∀ values ∈ piece,
      schema.accepts model values = true ∧ db.References dialect model values) :
    executeAll schema dialect (fun _ => false) n (pieces.map (.upsertRows model)) db =
      .ok (db.upsertRows model pieces.flatten) := by
  induction pieces generalizing n db with
  | nil =>
      rw [List.flatten_nil, StateDb.upsertRows, List.foldl_nil, Function.update_eq_self]
      rfl
  | cons piece pieces ih =>
      have hpiece : ∀ values ∈ piece, schema.accepts model values = true ∧
          (db.upsertRows model piece).References dialect model values := fun values hvalues =>
        ⟨(hrows piece List.mem_cons_self values hvalues).1,
          (hrows piece List.mem_cons_self values hvalues).2.upsertRows model piece⟩
      rw [List.map_cons, executeAll, if_neg Bool.false_ne_true, Statement.execute, if_pos hpiece]
      refine (ih (n + 1) fun other hother values hvalues => ?_).trans ?_
      · obtain ⟨haccepts, hreferences⟩ :=
          hrows other (List.mem_cons_of_mem _ hother) values hvalues
        exact ⟨haccepts, hreferences.upsertRows model piece⟩
      · rw [upsertRows_append, List.flatten_cons]

/-! ## Groups -/

/-- The groups written one after the other. -/
def StateDb.upsertGroups (db : StateDb γ) (groups : Groups γ) : StateDb γ :=
  groups.foldl (fun written group => written.upsertRows group.1 group.2) db

/-- Once the first group is written, its rows are in their table. -/
theorem resolves_tail {group : UpsertModel × List (Values γ)} {groups : Groups γ}
    {model : UpsertModel} {values : Values γ}
    (h : db.Resolves (group :: groups) dialect model values) :
    (db.upsertRows group.1 group.2).Resolves groups dialect model values := by
  intro hdialect reference hreference value hvalue
  rcases h hdialect reference hreference value hvalue with
    hparent | ⟨other, hother, hnamed, row, hrow, hidentity⟩
  · exact Or.inl (hparent.upsertRows group.1 group.2)
  · rcases List.mem_cons.mp hother with rfl | hother
    · refine Or.inl ?_
      rw [hnamed]
      change (((db.upsertRows other.1 other.2).tables other.1).row [some value]).isSome = true
      rw [upsertRows_self, ← hidentity]
      exact isSome_foldl_upsert_of_mem hrow
    · exact Or.inr ⟨other, hother, hnamed, row, hrow, hidentity⟩

/-- The statements of all groups, parents first. -/
theorem executeAll_groups (n : Nat) {order : DependencyOrder} {groups : Groups γ}
    {pieces : UpsertModel × List (Values γ) → List (List (Values γ))}
    (hpieces : ∀ group ∈ groups, (pieces group).flatten = group.2)
    (hsorted : groups.Pairwise fun a b => order.index a.1 < order.index b.1)
    (hrows : ∀ group ∈ groups, ∀ values ∈ group.2, schema.accepts group.1 values = true ∧
      db.Resolves groups dialect group.1 values) :
    executeAll schema dialect (fun _ => false) n
        (groups.flatMap fun group => (pieces group).map (.upsertRows group.1)) db =
      .ok (db.upsertGroups groups) := by
  induction groups generalizing n db with
  | nil => rfl
  | cons group groups ih =>
      have hflatten := hpieces group List.mem_cons_self
      rw [List.flatMap_cons, executeAll_append, executeAll_group _ (pieces group)]
      · rw [hflatten]
        refine ih _ (fun other hother => hpieces other (List.mem_cons_of_mem _ hother))
          (List.pairwise_cons.mp hsorted).2 fun other hother values hvalues => ?_
        obtain ⟨haccepts, hresolves⟩ :=
          hrows other (List.mem_cons_of_mem _ hother) values hvalues
        exact ⟨haccepts, resolves_tail hresolves⟩
      · intro piece hpiece values hvalues
        have hmem : values ∈ group.2 := hflatten ▸ List.mem_flatten.mpr ⟨piece, hpiece, hvalues⟩
        obtain ⟨haccepts, hresolves⟩ := hrows group List.mem_cons_self values hmem
        exact ⟨haccepts, resolves_head hsorted hresolves⟩

/-- Groups of other models leave a table as it is. -/
theorem upsertGroups_of_notMem {groups : Groups γ} {model : UpsertModel}
    (hmodel : model ∉ groups.map Prod.fst) :
    (db.upsertGroups groups).tables model = db.tables model := by
  induction groups generalizing db with
  | nil => rfl
  | cons group groups ih =>
      rw [List.map_cons, List.mem_cons, not_or] at hmodel
      exact (ih hmodel.2).trans (upsertRows_of_ne hmodel.1 _)

/-- A table gets the rows of its own group. -/
theorem upsertGroups_of_mem {groups : Groups γ} (hnodup : (groups.map Prod.fst).Nodup)
    {model : UpsertModel} {rows : List (Values γ)} (hgroup : (model, rows) ∈ groups) :
    (db.upsertGroups groups).tables model = rows.foldl Table.upsert (db.tables model) := by
  induction groups generalizing db with
  | nil => cases hgroup
  | cons group groups ih =>
      rw [List.map_cons, List.nodup_cons] at hnodup
      rcases List.mem_cons.mp hgroup with rfl | hgroup
      · exact (upsertGroups_of_notMem hnodup.1).trans (upsertRows_self _ _)
      · have hne : model ≠ group.1 := fun heq =>
          hnodup.1 (heq ▸ List.mem_map_of_mem hgroup (f := Prod.fst))
        exact (ih hnodup.2 hgroup).trans (by rw [upsertRows_of_ne hne])

/-- Groups only write tables. -/
theorem upsertGroups_frame (groups : Groups γ) (db : StateDb γ) :
    (db.upsertGroups groups).contexts = db.contexts ∧
      (db.upsertGroups groups).claims = db.claims ∧
      (db.upsertGroups groups).strategyVersions = db.strategyVersions := by
  induction groups generalizing db with
  | nil => exact ⟨rfl, rfl, rfl⟩
  | cons group groups ih => exact ih (db.upsertRows group.1 group.2)

/-! ## Marks -/

/-- Mark statements succeed exactly if every claim is held before the first of them. -/
theorem executeAll_marks (n : Nat) {pieces : List (List ProcessedMark)}
    (hnodup : (pieces.flatten.map ProcessedMark.eventId).Nodup) :
    executeAll schema dialect (fun _ => false) n (pieces.map .markProcessed) db =
      if ∀ mark ∈ pieces.flatten, db.claims.Holds mark then
        .ok (pieces.foldl StateDb.settleMarks db)
      else .error .superseded := by
  induction pieces generalizing n db with
  | nil => exact (if_pos nofun).symm
  | cons piece pieces ih =>
      rw [List.flatten_cons, List.map_append, List.nodup_append] at hnodup
      obtain ⟨hpiece, hrest, hdisjoint⟩ := hnodup
      have hother : ∀ mark ∈ pieces.flatten,
          ((db.settleMarks piece).claims.Holds mark ↔ db.claims.Holds mark) :=
        fun mark hmark => holds_settleMarks_iff hpiece fun hid =>
          hdisjoint _ hid _ (List.mem_map_of_mem hmark) rfl
      rw [List.map_cons, executeAll, if_neg Bool.false_ne_true, Statement.execute]
      by_cases hholds : ∀ mark ∈ piece, db.claims.Holds mark
      · rw [if_pos hholds]
        refine (ih (n + 1) hrest).trans (if_congr ?_ rfl rfl)
        rw [List.flatten_cons, List.forall_mem_append]
        refine ⟨fun h => ⟨hholds, fun mark hmark => (hother mark hmark).mp (h mark hmark)⟩,
          fun h mark hmark => (hother mark hmark).mpr (h.2 mark hmark)⟩
      · rw [if_neg hholds, if_neg]
        · rfl
        · rw [List.flatten_cons, List.forall_mem_append]
          exact fun h => hholds h.1

end Sessions

/-! ## Staging -/

/-- The marks that a call sets, each with its time. -/
def StateCall.marks {γ : Type} : StateCall γ → List (String × Time)
  | .upsert _ _ => []
  | .updateRawEventContext _ => []
  | .markEventProcessed eventId processedAt => [(eventId, processedAt)]
  | .markEventsProcessed eventIds processedAt =>
      (sortedIds eventIds).map fun eventId => (eventId, processedAt)

/-- The staged rows of one model. -/
def StateBatch.group {γ : Type} (batch : StateBatch γ) (model : UpsertModel) :
    Dict (List (Option γ)) (Values γ) :=
  (batch.upsertGroups.get? model).getD Dict.empty

/-- The tables are those of the start behind the buffer; `marked` are the marks so far. -/
structure Coalesces {γ : Type} [DecidableEq γ] (schema : Schema γ) (dialect : Dialect)
    (start : StateDb γ) (marked : List (String × Time)) (db : StateDb γ) (batch : StateBatch γ) :
    Prop where
  contexts : ∀ id, db.contexts.get? id =
    match batch.rawContexts.get? id with
    | none => start.contexts.get? id
    | some event => (start.contexts.get? id).map (RawContext.update event)
  dated : ∀ id event, batch.rawContexts.get? id = some event →
    event.eventId = id ∧ start.HasRaw event
  tables : ∀ model,
    (db.tables model).row = overlay model.inserted (start.tables model).row (batch.group model)
  rows : ∀ model identity values, (batch.group model).get? identity = some values →
    model.identity values = identity ∧ schema.accepts model values = true ∧
      db.References dialect model values
  versions : db.strategyVersions = start.strategyVersions
  claims : ∀ id, db.claims.dedup.get? id =
    match batch.processedClaims.get? id with
    | none => start.claims.dedup.get? id
    | some claim => (start.claims.dedup.get? id).map (Settlement.processed.row claim.2)
  holds : ∀ id claim, batch.processedClaims.get? id = some claim →
    start.claims.Holds ⟨id, claim.1, claim.2⟩
  marked : ∀ id time, (id, time) ∈ marked ↔
    ∃ token, batch.processedClaims.get? id = some (token, time)
  sequences : db.claims.raw = start.claims.raw ∧ db.claims.lastSequence = start.claims.lastSequence

section Staging

variable {γ : Type} [DecidableEq γ] {schema : Schema γ} {dialect : Dialect}
  {start db : StateDb γ} {marked : List (String × Time)} {batch : StateBatch γ}

theorem Coalesces.empty (schema : Schema γ) (dialect : Dialect) (db : StateDb γ) :
    Coalesces schema dialect db [] db {} := by
  refine ⟨fun _ => rfl, ?_, fun _ => rfl, ?_, rfl, fun _ => rfl, ?_, ?_, rfl, rfl⟩
  · rintro _ _ ⟨⟩
  · rintro _ _ _ ⟨⟩
  · rintro _ _ ⟨⟩
  · intro id time
    refine iff_of_false List.not_mem_nil ?_
    rintro ⟨token, ⟨⟩⟩

theorem group_stageUpsert (model other : UpsertModel) (values : Values γ) :
    (batch.stageUpsert model values).group other =
      if model = other then (batch.group model).set (model.identity values) values
      else batch.group other := by
  unfold StateBatch.stageUpsert StateBatch.group
  dsimp only
  rw [Dict.get?_set]
  split
  · rfl
  · rfl

/-- A staged upsert. -/
theorem Coalesces.upsert (h : Coalesces schema dialect start marked db batch)
    {model : UpsertModel} {values : Values γ} (haccepts : schema.accepts model values = true)
    (hreferences : (db.upsertRows model [values]).References dialect model values) :
    Coalesces schema dialect start marked (db.upsertRows model [values])
      (batch.stageUpsert model values) := by
  refine ⟨h.contexts, h.dated, fun other => ?_, fun other identity row hrow => ?_, h.versions,
    h.claims, h.holds, h.marked, h.sequences⟩
  · rw [group_stageUpsert]
    split
    · rename_i heq
      subst heq
      rw [upsertRows_self, overlay_set, ← h.tables model]
      exact (db.tables model).upsertRow_eq values
    · rename_i hne
      rw [upsertRows_of_ne (Ne.symm hne)]
      exact h.tables other
  · rw [group_stageUpsert] at hrow
    split at hrow
    · rename_i heq
      subst heq
      rw [Dict.get?_set] at hrow
      split at hrow
      · rename_i hidentity
        cases hrow
        exact ⟨hidentity, haccepts, hreferences⟩
      · obtain ⟨hidentity, haccepts', hreferences'⟩ := h.rows model identity row hrow
        exact ⟨hidentity, haccepts', hreferences'.upsertRows model [values]⟩
    · obtain ⟨hidentity, haccepts', hreferences'⟩ := h.rows other identity row hrow
      exact ⟨hidentity, haccepts', hreferences'.upsertRows model [values]⟩

/-- A raw row keeps its date behind the buffer. -/
theorem Coalesces.hasRaw_iff (h : Coalesces schema dialect start marked db batch)
    (event : EventEnvelope) : db.HasRaw event ↔ start.HasRaw event := by
  rw [Events.hasRaw_iff, Events.hasRaw_iff, h.contexts]
  split
  · rfl
  · rw [Option.map_map]
    rfl

/-- A staged context update. -/
theorem Coalesces.context (h : Coalesces schema dialect start marked db batch)
    {event : EventEnvelope} (hraw : db.HasRaw event) :
    Coalesces schema dialect start marked (db.updateContexts [event])
      { batch with rawContexts := batch.rawContexts.set event.eventId event } := by
  refine ⟨fun id => ?_, fun id staged hstaged => ?_, h.tables, h.rows, h.versions, h.claims,
    h.holds, h.marked, h.sequences⟩
  · rw [StateDb.updateContexts]
    dsimp only
    rw [List.foldl_cons, List.foldl_nil, Dict.get?_update, Dict.get?_set, h.contexts]
    by_cases hid : event.eventId = id
    · rw [if_pos hid, if_pos hid]
      split
      · rfl
      · rw [Option.map_map]
        rfl
    · rw [if_neg hid, if_neg hid]
  · dsimp only at hstaged
    rw [Dict.get?_set] at hstaged
    split at hstaged
    · rename_i hid
      cases hstaged
      exact ⟨hid, (h.hasRaw_iff event).mp hraw⟩
    · exact h.dated id staged hstaged

/-- A claim that is held is not marked in the buffer. -/
theorem Coalesces.unmarked (h : Coalesces schema dialect start marked db batch)
    {mark : ProcessedMark} (hholds : db.claims.Holds mark) :
    batch.processedClaims.get? mark.eventId = none := by
  cases hclaim : batch.processedClaims.get? mark.eventId with
  | none => rfl
  | some claim =>
      have hdedup := h.claims mark.eventId
      obtain ⟨row, hrow, hprocessing, -⟩ := hholds
      rw [hrow, hclaim] at hdedup
      obtain ⟨old, -, rfl⟩ := Option.map_eq_some_iff.mp hdedup.symm
      cases hprocessing

/-- A staged mark. -/
theorem Coalesces.mark (h : Coalesces schema dialect start marked db batch)
    {mark : ProcessedMark} (hholds : db.claims.Holds mark) (merge : Time → Time → Time) :
    ∃ batch', batch.stageMark merge mark = .ok batch' ∧
      Coalesces schema dialect start (marked ++ [(mark.eventId, mark.processedAt)])
        (db.settleMarks [mark]) batch' := by
  have hnone := h.unmarked hholds
  have hnodup : ([mark].map ProcessedMark.eventId).Nodup := List.nodup_singleton _
  refine ⟨_, by rw [StateBatch.stageMark, hnone], ?_⟩
  refine ⟨h.contexts, h.dated, h.tables, h.rows, h.versions, fun id => ?_, fun id claim hclaim => ?_,
    fun id time => ?_, h.sequences⟩
  · dsimp only
    rw [Dict.get?_set]
    by_cases hid : mark.eventId = id
    · subst hid
      rw [if_pos rfl, settleMarks_of_mem hnodup List.mem_cons_self, h.claims, hnone]
      rfl
    · rw [if_neg hid, settleMarks_of_notMem hnodup, h.claims]
      rintro hmem
      exact hid (List.mem_singleton.mp hmem).symm
  · dsimp only at hclaim
    rw [Dict.get?_set] at hclaim
    split at hclaim
    · rename_i hid
      cases hclaim
      obtain ⟨row, hrow, hheld⟩ := hholds
      refine ⟨row, ?_, hheld⟩
      have hdedup := h.claims mark.eventId
      rw [hrow, hnone] at hdedup
      exact hid ▸ hdedup.symm
    · exact h.holds id claim hclaim
  · dsimp only
    rw [List.mem_append, List.mem_singleton, h.marked, Dict.get?_set]
    by_cases hid : mark.eventId = id
    · subst hid
      rw [if_pos rfl, hnone]
      constructor
      · rintro (⟨token, ⟨⟩⟩ | heq)
        cases heq
        exact ⟨mark.token, rfl⟩
      · rintro ⟨token, heq⟩
        cases heq
        exact Or.inr rfl
    · rw [if_neg hid]
      refine or_iff_left fun heq => hid ?_
      cases heq
      rfl

/-- Staged marks of different events. -/
theorem Coalesces.marks (h : Coalesces schema dialect start marked db batch)
    (merge : Time → Time → Time) {marks : List ProcessedMark}
    (hnodup : (marks.map ProcessedMark.eventId).Nodup)
    (hholds : ∀ mark ∈ marks, db.claims.Holds mark) :
    ∃ batch', marks.foldlM (StateBatch.stageMark merge) batch = .ok batch' ∧
      Coalesces schema dialect start
        (marked ++ marks.map fun mark => (mark.eventId, mark.processedAt))
        ((marks.map fun mark => [mark]).foldl StateDb.settleMarks db) batch' := by
  induction marks generalizing marked db batch with
  | nil => exact ⟨batch, rfl, by rwa [List.map_nil, List.append_nil]⟩
  | cons mark marks ih =>
      rw [List.map_cons, List.nodup_cons] at hnodup
      obtain ⟨batch₁, hstage, hcoalesces⟩ := h.mark (hholds mark List.mem_cons_self) merge
      have hrest : ∀ other ∈ marks, (db.settleMarks [mark]).claims.Holds other := by
        intro other hother
        have hsingle : ([mark].map ProcessedMark.eventId).Nodup := List.nodup_singleton _
        refine (holds_settleMarks_iff hsingle fun hid => hnodup.1 ?_).mpr
          (hholds other (List.mem_cons_of_mem _ hother))
        rw [← List.mem_singleton.mp hid]
        exact List.mem_map_of_mem hother
      obtain ⟨batch', hstages, hcoalesces'⟩ := ih hcoalesces hnodup.2 hrest
      refine ⟨batch', ?_, ?_⟩
      · rw [List.foldlM_cons, hstage]
        exact hstages
      · rw [List.map_cons, List.append_cons]
        exact hcoalesces'

/-- Only the lookups in the claims matter. -/
theorem Coalesces.congr (h : Coalesces schema dialect start marked db batch) {db' : StateDb γ}
    (hcontexts : db'.contexts = db.contexts) (htables : db'.tables = db.tables)
    (hversions : db'.strategyVersions = db.strategyVersions)
    (hdedup : ∀ id, db'.claims.dedup.get? id = db.claims.dedup.get? id)
    (hraw : db'.claims.raw = db.claims.raw)
    (hlast : db'.claims.lastSequence = db.claims.lastSequence) :
    Coalesces schema dialect start marked db' batch := by
  have hparent : ∀ reference value, db.HasParent reference value →
      db'.HasParent reference value := by
    intro reference value hhas
    unfold StateDb.HasParent at hhas ⊢
    rwa [htables, hversions]
  refine ⟨by rw [hcontexts]; exact h.contexts, h.dated, by rw [htables]; exact h.tables, ?_,
    hversions.trans h.versions, fun id => (hdedup id).trans (h.claims id), h.holds, h.marked,
    hraw.trans h.sequences.1, hlast.trans h.sequences.2⟩
  intro model identity values hvalues
  obtain ⟨hidentity, haccepts, hreferences⟩ := h.rows model identity values hvalues
  exact ⟨hidentity, haccepts, fun hdialect reference hreference value hvalue =>
    hparent _ _ (hreferences hdialect reference hreference value hvalue)⟩

theorem processedMark_spec {held : Dict String Nat} {processedAt : Time} {id : String}
    {mark : ProcessedMark} (h : processedMark held processedAt id = .ok mark) :
    mark.eventId = id ∧ mark.processedAt = processedAt := by
  unfold processedMark at h
  split at h
  · cases h
  · cases h
    exact ⟨rfl, rfl⟩

/-- The marks that are built for ids have these ids and the time of the call. -/
theorem mapM_processedMark_spec {held : Dict String Nat} {processedAt : Time} {ids : List String}
    {marks : List ProcessedMark} (h : ids.mapM (processedMark held processedAt) = .ok marks) :
    marks.map ProcessedMark.eventId = ids ∧ ∀ mark ∈ marks, mark.processedAt = processedAt := by
  induction ids generalizing marks with
  | nil =>
      cases h
      exact ⟨rfl, nofun⟩
  | cons id ids ih =>
      rw [List.mapM_cons] at h
      cases hfirst : processedMark held processedAt id with
      | error e =>
          rw [hfirst] at h
          cases h
      | ok first =>
          cases hrest : ids.mapM (processedMark held processedAt) with
          | error e =>
              rw [hfirst, hrest] at h
              cases h
          | ok rest =>
              rw [hfirst, hrest] at h
              cases h
              obtain ⟨hid, htime⟩ := processedMark_spec hfirst
              obtain ⟨hids, htimes⟩ := ih hrest
              exact ⟨by rw [List.map_cons, hid, hids], List.forall_mem_cons.mpr ⟨htime, htimes⟩⟩

/-- A call that succeeds outside a batch can be staged, and the buffer follows it. -/
theorem Coalesces.call (h : Coalesces schema dialect start marked db batch)
    {held : Dict String Nat} {call : StateCall γ} {db' : StateDb γ}
    (hexec : call.execute schema dialect held db = .ok db') :
    ∃ batch', batch.stage held call = .ok batch' ∧
      Coalesces schema dialect start (marked ++ call.marks) db' batch' := by
  cases call with
  | upsert model values =>
      rw [StateCall.execute, Statement.execute] at hexec
      split at hexec
      · rename_i hrows
        cases hexec
        obtain ⟨haccepts, hreferences⟩ := hrows values List.mem_cons_self
        refine ⟨_, rfl, ?_⟩
        rw [StateCall.marks, List.append_nil]
        exact h.upsert haccepts hreferences
      · cases hexec
  | updateRawEventContext event =>
      rw [StateCall.execute, Statement.execute] at hexec
      split at hexec
      · rename_i hraw
        cases hexec
        refine ⟨_, rfl, ?_⟩
        rw [StateCall.marks, List.append_nil]
        exact h.context (hraw event List.mem_cons_self)
      · cases hexec
  | markEventProcessed eventId processedAt =>
      rw [StateCall.execute] at hexec
      rw [StateBatch.stage]
      cases hmark : processedMark held processedAt eventId with
      | error e =>
          rw [hmark] at hexec
          cases hexec
      | ok mark =>
          rw [hmark] at hexec
          change (Statement.markProcessed [mark]).execute schema dialect db = .ok db' at hexec
          rw [Statement.execute] at hexec
          split at hexec
          · rename_i hholds
            cases hexec
            obtain ⟨hid, htime⟩ := processedMark_spec hmark
            rw [StateCall.marks, ← hid, ← htime]
            exact h.mark (hholds _ List.mem_cons_self) max
          · cases hexec
  | markEventsProcessed eventIds processedAt =>
      rw [StateCall.execute] at hexec
      rw [StateBatch.stage]
      cases hmarks : (sortedIds eventIds).mapM (processedMark held processedAt) with
      | error e =>
          rw [hmarks] at hexec
          cases hexec
      | ok marks =>
          rw [hmarks] at hexec
          change executeAll schema dialect _ 0 (markStatements dialect marks) db = .ok db' at hexec
          obtain ⟨hids, htimes⟩ := mapM_processedMark_spec hmarks
          have hperm := markPieces_perm dialect marks
          have hnodup : (marks.map ProcessedMark.eventId).Nodup := by
            rw [hids]
            exact Text.nodup_sorted _
          rw [markStatements, executeAll_marks 0 (((hperm.map _).nodup_iff).mpr hnodup)] at hexec
          split at hexec
          · rename_i hholds
            cases hexec
            obtain ⟨batch', hstage, hcoalesces⟩ := h.marks (fun processedAt _ => processedAt) hnodup
              fun mark hmark => hholds mark (hperm.mem_iff.mpr hmark)
            refine ⟨batch', hstage, ?_⟩
            have hmarked : (StateCall.markEventsProcessed eventIds processedAt : StateCall γ).marks =
                marks.map fun mark => (mark.eventId, mark.processedAt) := by
              rw [StateCall.marks, ← hids, List.map_map]
              exact List.map_congr_left fun mark hmark => Prod.ext rfl (htimes mark hmark).symm
            rw [hmarked]
            have hsingles : ((marks.map fun mark => [mark]).flatten).Perm marks := by
              rw [← List.flatMap_def, List.flatMap_singleton']
            obtain ⟨hcontexts, htables, hversions, hraw, hlast⟩ :=
              foldl_settleMarks_frame (markPieces dialect marks) db
            obtain ⟨hcontexts', htables', hversions', hraw', hlast'⟩ :=
              foldl_settleMarks_frame (marks.map fun mark => [mark]) db
            refine hcoalesces.congr (hcontexts.trans hcontexts'.symm) (htables.trans htables'.symm)
              (hversions.trans hversions'.symm) (fun id => ?_) (hraw.trans hraw'.symm)
              (hlast.trans hlast'.symm)
            rw [foldl_settleMarks_of_same hperm hnodup htimes,
              foldl_settleMarks_of_same hsingles hnodup htimes]
          · cases hexec

theorem Coalesces.calls (h : Coalesces schema dialect start marked db batch)
    {held : Dict String Nat} {calls : List (StateCall γ)} {db' : StateDb γ}
    (hexec : executeCalls schema dialect held calls db = .ok db') :
    ∃ batch', calls.foldlM (StateBatch.stage held) batch = .ok batch' ∧
      Coalesces schema dialect start (marked ++ calls.flatMap StateCall.marks) db' batch' := by
  unfold executeCalls at hexec
  induction calls generalizing marked db batch with
  | nil =>
      cases hexec
      exact ⟨batch, rfl, by rwa [List.flatMap_nil, List.append_nil]⟩
  | cons call calls ih =>
      rw [List.foldlM_cons] at hexec
      cases hcall : call.execute schema dialect held db with
      | error e =>
          rw [hcall] at hexec
          cases hexec
      | ok db₁ =>
          rw [hcall] at hexec
          obtain ⟨batch₁, hstage, hcoalesces⟩ := h.call hcall
          obtain ⟨batch', hstages, hcoalesces'⟩ := ih hcoalesces hexec
          refine ⟨batch', ?_, ?_⟩
          · rw [List.foldlM_cons, hstage]
            exact hstages
          · rwa [List.flatMap_cons, ← List.append_assoc]

end Staging

/-! ## Flushing -/

section Order

variable {γ : Type} {batch : StateBatch γ} (order : DependencyOrder) (text : Option γ → String)

/-- The groups of a batch with their rows in the order of the flush. -/
def StateBatch.groups (batch : StateBatch γ) : Groups γ :=
  (batch.sortedGroups order).map fun group => (group.1, sortedRows text group.1 group.2)

theorem sortedGroups_perm (batch : StateBatch γ) :
    (batch.sortedGroups order).Perm batch.upsertGroups.entries := List.perm_insertionSort _ _

/-- The models of the groups come parents first, each once. -/
theorem groups_sorted (batch : StateBatch γ) :
    (batch.groups order text).Pairwise fun a b => order.index a.1 < order.index b.1 := by
  have hnodup : ((batch.sortedGroups order).map Prod.fst).Nodup :=
    (((sortedGroups_perm order batch).map _).nodup_iff).mpr batch.upsertGroups.nodup
  have hle : (batch.sortedGroups order).Pairwise fun a b => order.index a.1 ≤ order.index b.1 :=
    List.pairwise_insertionSort _ _
  rw [StateBatch.groups, List.pairwise_map]
  refine (hle.and (List.pairwise_map.mp hnodup)).imp ?_
  rintro a b ⟨hab, hne⟩
  exact lt_of_le_of_ne hab fun heq => hne (order.injective heq)

theorem groups_nodup (batch : StateBatch γ) :
    ((batch.groups order text).map Prod.fst).Nodup := by
  refine List.pairwise_map.mpr ((groups_sorted order text batch).imp ?_)
  intro a b hlt heq
  rw [heq] at hlt
  exact lt_irrefl _ hlt

variable {order text}

theorem mem_groups {model : UpsertModel} {rows : List (Values γ)} :
    (model, rows) ∈ batch.groups order text ↔
      ∃ group, batch.upsertGroups.get? model = some group ∧ rows = sortedRows text model group := by
  rw [StateBatch.groups, List.mem_map]
  constructor
  · rintro ⟨⟨other, group⟩, hgroup, heq⟩
    cases heq
    exact ⟨group, Dict.mem_entries.mp ((sortedGroups_perm order batch).mem_iff.mp hgroup), rfl⟩
  · rintro ⟨group, hgroup, rfl⟩
    exact ⟨(model, group),
      (sortedGroups_perm order batch).mem_iff.mpr (Dict.mem_entries.mpr hgroup), rfl⟩

theorem mem_sortedRows {model : UpsertModel} {group : Dict (List (Option γ)) (Values γ)}
    {values : Values γ} : values ∈ sortedRows text model group ↔ values ∈ group.values :=
  List.mem_insertionSort _

theorem contextEvents_perm (batch : StateBatch γ) :
    batch.contextEvents.Perm batch.rawContexts.values :=
  (List.perm_insertionSort _ _).map _

theorem contextPieces_flatten (dialect : Dialect) (batch : StateBatch γ) :
    (batch.contextPieces dialect).flatten = batch.contextEvents := by
  cases dialect with
  | postgresql =>
      change (if batch.contextEvents = [] then [] else [batch.contextEvents]).flatten = _
      split
      · rename_i hempty
        rw [hempty]
        rfl
      · rw [List.flatten_singleton]
  | sqlite => exact flatten_slices (by decide) _

theorem mem_marks {mark : ProcessedMark} : mark ∈ batch.marks ↔
    batch.processedClaims.get? mark.eventId = some (mark.token, mark.processedAt) := by
  rw [StateBatch.marks, List.mem_map]
  constructor
  · rintro ⟨claim, hclaim, rfl⟩
    exact Dict.mem_entries.mp hclaim
  · intro hget
    exact ⟨(mark.eventId, mark.token, mark.processedAt), Dict.mem_entries.mpr hget, rfl⟩

theorem marks_nodup (batch : StateBatch γ) :
    (batch.marks.map ProcessedMark.eventId).Nodup := by
  rw [StateBatch.marks, List.map_map]
  exact batch.processedClaims.nodup

end Order

section Flushing

variable {γ : Type} [DecidableEq γ] {schema : Schema γ} {dialect : Dialect}
  {start db : StateDb γ} {marked : List (String × Time)} {batch : StateBatch γ}
  {order : DependencyOrder} {text : Option γ → String}

/-- A staged row of a model is a row of its group. -/
theorem exists_group_of_staged {model : UpsertModel} {identity : List (Option γ)}
    {values : Values γ} (hstaged : (batch.group model).get? identity = some values) :
    ∃ group, batch.upsertGroups.get? model = some group ∧ values ∈ group.values := by
  unfold StateBatch.group at hstaged
  cases hgroup : batch.upsertGroups.get? model with
  | none =>
      rw [hgroup] at hstaged
      cases hstaged
  | some group =>
      rw [hgroup] at hstaged
      exact ⟨group, rfl, Dict.mem_values.mpr ⟨identity, hstaged⟩⟩

/-- The rows of the groups are accepted and find their parents, at the start or in the groups. -/
theorem Coalesces.resolves (h : Coalesces schema dialect start marked db batch)
    {group : UpsertModel × List (Values γ)} (hgroup : group ∈ batch.groups order text)
    {values : Values γ} (hvalues : values ∈ group.2) :
    schema.accepts group.1 values = true ∧
      start.Resolves (batch.groups order text) dialect group.1 values := by
  obtain ⟨model, rows⟩ := group
  obtain ⟨staged, hstaged, rfl⟩ := mem_groups.mp hgroup
  obtain ⟨identity, hidentity⟩ := Dict.mem_values.mp (mem_sortedRows.mp hvalues)
  have hget : (batch.group model).get? identity = some values := by
    rw [StateBatch.group, hstaged]
    exact hidentity
  obtain ⟨-, haccepts, hreferences⟩ := h.rows model identity values hget
  refine ⟨haccepts, fun hdialect reference hreference value hvalue => ?_⟩
  have hparent := hreferences hdialect reference hreference value hvalue
  obtain ⟨column, target⟩ := reference
  cases target with
  | strategyVersions =>
      refine Or.inl ?_
      change value ∈ start.strategyVersions
      rw [← h.versions]
      exact hparent
  | table parent =>
      change ((db.tables parent).row [some value]).isSome = true at hparent
      rw [h.tables, isSome_overlay] at hparent
      rcases hparent with ⟨row, hrow⟩ | hold
      · obtain ⟨parents, hparents, hmem⟩ := exists_group_of_staged hrow
        exact Or.inr ⟨(parent, sortedRows text parent parents),
          mem_groups.mpr ⟨parents, hparents, rfl⟩, rfl, row, mem_sortedRows.mpr hmem,
          (h.rows parent _ row hrow).1⟩
      · exact Or.inl hold

/-- The groups leave every table as it is behind the buffer. -/
theorem Coalesces.upsertGroups_tables (h : Coalesces schema dialect start marked db batch)
    (model : UpsertModel) :
    ((start.updateContexts batch.contextEvents).upsertGroups (batch.groups order text)).tables
      model = db.tables model := by
  have hnodup := groups_nodup order text batch
  refine Table.ext ?_
  rw [h.tables]
  cases hgroup : batch.upsertGroups.get? model with
  | none =>
      have hmodel : model ∉ (batch.groups order text).map Prod.fst := by
        intro hmem
        obtain ⟨⟨other, rows⟩, hgroup', rfl⟩ := List.mem_map.mp hmem
        obtain ⟨group, hget, -⟩ := mem_groups.mp hgroup'
        rw [hgroup] at hget
        cases hget
      rw [upsertGroups_of_notMem hmodel, StateBatch.group, hgroup]
      rfl
  | some group =>
      have hstaged : batch.group model = group := by rw [StateBatch.group, hgroup]; rfl
      rw [upsertGroups_of_mem hnodup (mem_groups.mpr ⟨group, hgroup, rfl⟩), hstaged]
      refine row_foldl_upsert_perm (List.perm_insertionSort _ _) (fun identity values hget => ?_) _
      exact (h.rows model identity values (hstaged.symm ▸ hget)).1

/-- The context updates leave every raw row as it is behind the buffer. -/
theorem Coalesces.updateContexts_get? (h : Coalesces schema dialect start marked db batch)
    (id : String) :
    (start.updateContexts batch.contextEvents).contexts.get? id = db.contexts.get? id := by
  have hids : batch.contextEvents.map EventEnvelope.eventId =
      (batch.rawContexts.entries.insertionSort fun a b => a.1 ≤ b.1).map Prod.fst := by
    rw [StateBatch.contextEvents, List.map_map]
    refine List.map_congr_left fun entry hentry => ?_
    have hget := Dict.mem_entries.mp ((List.mem_insertionSort _).mp hentry)
    exact (h.dated entry.1 entry.2 hget).1
  have hnodup : (batch.contextEvents.map EventEnvelope.eventId).Nodup := by
    rw [hids]
    exact (((List.perm_insertionSort _ _).map _).nodup_iff).mpr batch.rawContexts.nodup
  have hupdate := Dict.get?_foldl_update EventEnvelope.eventId RawContext.update
    batch.contextEvents hnodup start.contexts
  rw [h.contexts]
  cases hget : batch.rawContexts.get? id with
  | none =>
      refine hupdate.2 id fun hmem => ?_
      rw [hids] at hmem
      obtain ⟨entry, hentry, rfl⟩ := List.mem_map.mp hmem
      have hsome := Dict.mem_entries.mp ((List.mem_insertionSort _).mp hentry)
      rw [hget] at hsome
      cases hsome
  | some event =>
      have hmem : event ∈ batch.contextEvents :=
        (contextEvents_perm batch).mem_iff.mpr (Dict.mem_values.mpr ⟨id, hget⟩)
      have hid := (h.dated id event hget).1
      exact hid ▸ hupdate.1 event hmem

/-- The tables after the flush of a buffer. -/
def StateBatch.flushed (batch : StateBatch γ) (order : DependencyOrder)
    (text : Option γ → String) (dialect : Dialect) (start : StateDb γ) : StateDb γ :=
  (markPieces dialect batch.marks).foldl StateDb.settleMarks
    ((start.updateContexts batch.contextEvents).upsertGroups (batch.groups order text))

/-- No statement of the flush fails. -/
theorem Coalesces.executeAll_flush (h : Coalesces schema dialect start marked db batch)
    (order : DependencyOrder) (text : Option γ → String) :
    executeAll schema dialect (fun _ => false) 0 (batch.flushStatements order text dialect) start =
      .ok (batch.flushed order text dialect start) := by
  have hcontexts : ∀ piece ∈ batch.contextPieces dialect, ∀ event ∈ piece, start.HasRaw event := by
    intro piece hpiece event hevent
    have hmem : event ∈ batch.contextEvents := by
      rw [← contextPieces_flatten dialect batch]
      exact List.mem_flatten.mpr ⟨piece, hpiece, hevent⟩
    obtain ⟨id, hget⟩ := Dict.mem_values.mp ((contextEvents_perm batch).mem_iff.mp hmem)
    exact (h.dated id event hget).2
  have hgroups : ((batch.sortedGroups order).flatMap fun group =>
      groupStatements text dialect group.1 group.2) =
      (batch.groups order text).flatMap fun group =>
        (slices (max 1 (parameterBudget dialect / group.1.columns.length)) group.2).map
          (.upsertRows group.1) := by
    rw [StateBatch.groups, List.flatMap_map]
    rfl
  have hrows : ∀ group ∈ batch.groups order text, ∀ values ∈ group.2,
      schema.accepts group.1 values = true ∧ (start.updateContexts batch.contextEvents).Resolves
        (batch.groups order text) dialect group.1 values :=
    fun group hgroup values hvalues => h.resolves hgroup hvalues
  have hperm := markPieces_perm dialect batch.marks
  have hholds : ∀ mark ∈ (markPieces dialect batch.marks).flatten,
      ((start.updateContexts batch.contextEvents).upsertGroups
        (batch.groups order text)).claims.Holds mark := by
    intro mark hmark
    rw [(upsertGroups_frame _ _).2.1]
    exact h.holds mark.eventId (mark.token, mark.processedAt)
      (mem_marks.mp (hperm.mem_iff.mp hmark))
  rw [StateBatch.flushStatements, executeAll_append, executeAll_append,
    executeAll_contexts 0 hcontexts, contextPieces_flatten, hgroups]
  change (executeAll schema dialect _ _ _ _).bind _ = _
  rw [executeAll_groups _ (fun group _ => flatten_slices (lt_max_of_lt_left one_pos) _)
    (groups_sorted order text batch) hrows]
  change executeAll schema dialect _ _ (markStatements dialect batch.marks) _ = _
  rw [markStatements, executeAll_marks _ (((hperm.map _).nodup_iff).mpr (marks_nodup batch)),
    if_pos hholds]
  rfl

end Flushing

/-! ## Every batch -/

/-- The chunks of the marked events, which are in the order of their ids: PostgreSQL settles all of
them by one statement, SQLite as many by each as its parameters allow. -/
def markChunks (dialect : Dialect) (ordered : List (String × Time)) :
    List (List (String × Time)) :=
  match dialect with
  | .postgresql => [ordered]
  | .sqlite => slices ((parameterBudget .sqlite - 4) / 3) ordered

/-- The rows after a flush compared with those after the calls: they differ in the times of the
marked events at most, which become the latest of the chunk. -/
structure SameRows {γ : Type} (dialect : Dialect) (marked : List (String × Time))
    (flushed called : StateDb γ) : Prop where
  contexts : ∀ id, flushed.contexts.get? id = called.contexts.get? id
  tables : flushed.tables = called.tables
  versions : flushed.strategyVersions = called.strategyVersions
  sequences : flushed.claims.raw = called.claims.raw ∧
    flushed.claims.lastSequence = called.claims.lastSequence
  unmarked : ∀ id, (∀ time, (id, time) ∉ marked) →
    flushed.claims.dedup.get? id = called.claims.dedup.get? id
  marked : ∃ ordered : List (String × Time), (ordered.map Prod.fst).Pairwise (· < ·) ∧
    (∀ mark, mark ∈ ordered ↔ mark ∈ marked) ∧
    ∀ mark ∈ marked, ∃ chunk ∈ markChunks dialect ordered, mark ∈ chunk ∧ ∃ row latest,
      called.claims.dedup.get? mark.1 = some (Settlement.processed.row mark.2 row) ∧
      flushed.claims.dedup.get? mark.1 = some (Settlement.processed.row latest row) ∧
      IsGreatest {time | time ∈ chunk.map Prod.snd} latest

section Batches

variable {γ : Type} [DecidableEq γ] {schema : Schema γ} {dialect : Dialect}
  {start db : StateDb γ} {marked : List (String × Time)} {batch : StateBatch γ}

/-- An event and the time of its mark. -/
def ProcessedMark.entry (mark : ProcessedMark) : String × Time := (mark.eventId, mark.processedAt)

/-- The pieces of the marks are the chunks of the marked events. -/
theorem mem_markChunks {marks piece : List ProcessedMark} (hpiece : piece ∈ markPieces dialect marks) :
    piece.map ProcessedMark.entry ∈ markChunks dialect
      ((marks.insertionSort fun a b => a.eventId ≤ b.eventId).map ProcessedMark.entry) := by
  unfold markPieces at hpiece
  split at hpiece
  · cases hpiece
  · cases dialect with
    | postgresql =>
        rw [List.mem_singleton.mp hpiece]
        exact List.mem_singleton.mpr rfl
    | sqlite =>
        rw [markChunks, slices_map]
        exact List.mem_map_of_mem hpiece

/-- Marks of different events, sorted by their ids. -/
theorem ids_increasing {marks : List ProcessedMark}
    (hnodup : (marks.map ProcessedMark.eventId).Nodup) :
    (((marks.insertionSort fun a b => a.eventId ≤ b.eventId).map ProcessedMark.entry).map
      Prod.fst).Pairwise (· < ·) := by
  have hsorted : (marks.insertionSort fun a b => a.eventId ≤ b.eventId).Pairwise
      fun a b => a.eventId ≤ b.eventId := List.pairwise_insertionSort _ _
  have hdistinct := List.pairwise_map.mp
    (((List.perm_insertionSort (fun a b : ProcessedMark => a.eventId ≤ b.eventId) marks).map
      ProcessedMark.eventId).nodup_iff.mpr hnodup)
  rw [List.map_map]
  exact List.pairwise_map.mpr ((hsorted.and hdistinct).imp fun h => lt_of_le_of_ne h.1 h.2)

theorem Coalesces.sameRows (h : Coalesces schema dialect start marked db batch)
    (order : DependencyOrder) (text : Option γ → String) :
    SameRows dialect marked (batch.flushed order text dialect start) db := by
  have hperm := markPieces_perm dialect batch.marks
  have hnodup := ((hperm.map _).nodup_iff).mpr (marks_nodup batch)
  obtain ⟨hcontexts, htables, hversions, hraw, hlast⟩ := foldl_settleMarks_frame
    (markPieces dialect batch.marks)
    ((start.updateContexts batch.contextEvents).upsertGroups (batch.groups order text))
  obtain ⟨hcontexts', hclaims', hversions'⟩ := upsertGroups_frame (batch.groups order text)
    (start.updateContexts batch.contextEvents)
  refine ⟨fun id => ?_, ?_, ?_, ⟨?_, ?_⟩, fun id hunmarked => ?_, ?_⟩
  · rw [StateBatch.flushed, hcontexts, hcontexts']
    exact h.updateContexts_get? id
  · rw [StateBatch.flushed, htables]
    exact funext h.upsertGroups_tables
  · exact hversions.trans (hversions'.trans h.versions.symm)
  · exact hraw.trans ((congrArg EventDb.raw hclaims').trans h.sequences.1.symm)
  · exact hlast.trans ((congrArg EventDb.lastSequence hclaims').trans h.sequences.2.symm)
  · have hnone : batch.processedClaims.get? id = none := by
      cases hclaim : batch.processedClaims.get? id with
      | none => rfl
      | some claim => exact absurd ((h.marked id claim.2).mpr ⟨claim.1, hclaim⟩) (hunmarked _)
    have hid : id ∉ (markPieces dialect batch.marks).flatten.map ProcessedMark.eventId := by
      intro hmem
      obtain ⟨mark, hmark, rfl⟩ := List.mem_map.mp hmem
      rw [mem_marks.mp (hperm.mem_iff.mp hmark)] at hnone
      cases hnone
    rw [StateBatch.flushed, foldl_settleMarks_of_notMem hnodup hid, hclaims', h.claims, hnone]
    rfl
  · refine ⟨(batch.marks.insertionSort fun a b => a.eventId ≤ b.eventId).map ProcessedMark.entry,
      ids_increasing (marks_nodup batch), fun mark => ?_, fun mark hmarked => ?_⟩
    · rw [List.mem_map, h.marked mark.1 mark.2]
      constructor
      · rintro ⟨found, hfound, rfl⟩
        exact ⟨found.token, mem_marks.mp ((List.mem_insertionSort _).mp hfound)⟩
      · rintro ⟨token, hclaim⟩
        exact ⟨⟨mark.1, token, mark.2⟩, (List.mem_insertionSort _).mpr (mem_marks.mpr hclaim), rfl⟩
    · obtain ⟨id, time⟩ := mark
      obtain ⟨token, hclaim⟩ := (h.marked id time).mp hmarked
      obtain ⟨row, hrow, -⟩ := h.holds id (token, time) hclaim
      have hmark : (⟨id, token, time⟩ : ProcessedMark) ∈ batch.marks := mem_marks.mpr hclaim
      obtain ⟨piece, hpiece, hmem⟩ := List.mem_flatten.mp (hperm.mem_iff.mpr hmark)
      refine ⟨piece.map ProcessedMark.entry, mem_markChunks hpiece, List.mem_map.mpr ⟨_, hmem, rfl⟩,
        row, latest piece, ?_, ?_, ?_, ?_⟩
      · rw [h.claims, hclaim]
        dsimp only
        rw [hrow]
        rfl
      · rw [StateBatch.flushed, foldl_settleMarks_of_mem hnodup hpiece hmem, hclaims']
        change (start.claims.dedup.get? id).map _ = _
        rw [hrow]
        rfl
      · obtain ⟨-, last, hlast, hlatest⟩ := latest_spec hmem
        rw [List.map_map]
        exact hlatest ▸ List.mem_map_of_mem hlast
      · intro later hlater
        rw [Set.mem_ofPred_eq, List.map_map] at hlater
        obtain ⟨other, hother, rfl⟩ := List.mem_map.mp hlater
        exact (latest_spec hother).1

/-- The model of an upsert statement. -/
def Statement.model? {γ : Type} : Statement γ → Option UpsertModel
  | .rawContexts _ => none
  | .upsertRows model _ => some model
  | .markProcessed _ => none

/-- The first statement may be executed before the second: it does not need its rows. -/
def Statement.MayPrecede {γ : Type} (first second : Statement γ) : Prop :=
  ∀ child ∈ first.model?, ∀ parent ∈ second.model?, ¬ parent.IsParentOf child

omit [DecidableEq γ] in
/-- In every flush the rows of a parent are written before those that refer to it. -/
theorem flushStatements_parents_first (batch : StateBatch γ) (order : DependencyOrder)
    (text : Option γ → String) (dialect : Dialect) :
    (batch.flushStatements order text dialect).Pairwise Statement.MayPrecede := by
  have hcontexts : ∀ statement ∈ (batch.contextPieces dialect).map
      (Statement.rawContexts : _ → Statement γ), statement.model? = none := by
    intro statement hstatement
    obtain ⟨piece, -, rfl⟩ := List.mem_map.mp hstatement
    rfl
  have hmarks : ∀ statement ∈ (markStatements dialect batch.marks : List (Statement γ)),
      statement.model? = none := by
    intro statement hstatement
    obtain ⟨piece, -, rfl⟩ := List.mem_map.mp hstatement
    rfl
  have hleft : ∀ first second : Statement γ, first.model? = none → first.MayPrecede second := by
    intro first second hnone child hchild
    rw [hnone] at hchild
    cases hchild
  have hright : ∀ first second : Statement γ, second.model? = none → first.MayPrecede second := by
    intro first second hnone child _ parent hparent
    rw [hnone] at hparent
    cases hparent
  have hgroup : ∀ group : UpsertModel × Dict (List (Option γ)) (Values γ),
      ∀ statement ∈ groupStatements text dialect group.1 group.2,
        statement.model? = some group.1 := by
    intro group statement hstatement
    obtain ⟨piece, -, rfl⟩ := List.mem_map.mp hstatement
    rfl
  rw [StateBatch.flushStatements, List.pairwise_append, List.pairwise_append]
  refine ⟨⟨?_, ?_, fun first hfirst second _ => hleft first second (hcontexts first hfirst)⟩, ?_,
    fun first _ second hsecond => hright first second (hmarks second hsecond)⟩
  · exact List.Pairwise.imp_of_mem (fun hfirst _ _ => hleft _ _ (hcontexts _ hfirst))
      (List.pairwise_of_forall fun _ _ => trivial)
  · rw [List.pairwise_flatMap]
    refine ⟨fun group _ => ?_, ?_⟩
    · -- no model refers to itself
      refine List.Pairwise.imp_of_mem (fun hfirst hsecond _ child hchild parent hparent => ?_)
        (List.pairwise_of_forall fun _ _ => trivial)
      rw [hgroup group _ hfirst] at hchild
      rw [hgroup group _ hsecond] at hparent
      cases hchild
      cases hparent
      exact not_isParentOf_self group.1
    · have hsorted := groups_sorted order text batch
      rw [StateBatch.groups, List.pairwise_map] at hsorted
      refine hsorted.imp ?_
      intro a b hlt first hfirst second hsecond child hchild parent hparent hisparent
      rw [hgroup a first hfirst] at hchild
      rw [hgroup b second hsecond] at hparent
      cases hchild
      cases hparent
      have hbefore := order.parents b.1 a.1 hisparent
      dsimp only at hlt
      omega
  · exact List.Pairwise.imp_of_mem (fun hfirst _ _ => hleft _ _ (hmarks _ hfirst))
      (List.pairwise_of_forall fun _ _ => trivial)

/-- A transaction whose calls can all be staged ends as its flush does. -/
theorem transaction_of_staged {order : DependencyOrder} {text : Option γ → String}
    {held : Dict String Nat} {calls : List (StateCall γ)}
    (hbatch : calls.foldlM (StateBatch.stage held) {} = .ok batch) (fault : Nat → Bool) :
    eventStateBatchTransaction order text dialect schema held fault calls db =
      match executeAll schema dialect fault 0 (batch.flushStatements order text dialect) db with
      | .ok written => (written, none)
      | .error error => (db, some error) := by
  rw [eventStateBatchTransaction, hbatch]
  rfl

/-- For every list of calls: where they succeed one at a time, the batch succeeds and leaves the
same rows up to the times of its marks; every flush writes parents first; and a transaction that
ends with an error, whichever statement raised it, leaves the tables as they were. -/
theorem flush_matches_calls (schema : Schema γ) (dialect : Dialect) (order : DependencyOrder)
    (text : Option γ → String) (held : Dict String Nat) (calls : List (StateCall γ))
    (db : StateDb γ) :
    (∀ called, executeCalls schema dialect held calls db = .ok called →
      ∃ flushed, eventStateBatchTransaction order text dialect schema held (fun _ => false) calls db =
          (flushed, none) ∧
        SameRows dialect (calls.flatMap StateCall.marks) flushed called) ∧
    (∀ batch, calls.foldlM (StateBatch.stage held) {} = .ok batch →
      (batch.flushStatements order text dialect).Pairwise Statement.MayPrecede ∧
      ∀ fault k, k < (batch.flushStatements order text dialect).length → fault k = true →
        ∃ error, eventStateBatchTransaction order text dialect schema held fault calls db =
          (db, some error)) ∧
    ∀ fault written error,
      eventStateBatchTransaction order text dialect schema held fault calls db =
        (written, some error) → written = db := by
  refine ⟨fun called hcalled => ?_, fun batch hbatch => ⟨?_, fun fault k hk hfault => ?_⟩,
    fun fault written error hwritten => ?_⟩
  · obtain ⟨batch, hbatch, hcoalesces⟩ := (Coalesces.empty schema dialect db).calls hcalled
    refine ⟨batch.flushed order text dialect db, ?_, hcoalesces.sameRows order text⟩
    have hflush := hcoalesces.executeAll_flush order text
    rw [transaction_of_staged hbatch, hflush]
  · exact flushStatements_parents_first batch order text dialect
  · obtain ⟨error, herror⟩ : ∃ error, executeAll schema dialect fault 0
        (batch.flushStatements order text dialect) db = .error error :=
      executeAll_fault (Nat.zero_le k) (by rwa [Nat.zero_add]) hfault
    exact ⟨error, by rw [transaction_of_staged hbatch, herror]⟩
  · unfold eventStateBatchTransaction at hwritten
    split at hwritten
    · cases hwritten
    · cases hwritten
      rfl

end Batches

section Samples

def sampleOrder : DependencyOrder where
  index := fun
    | .tokenRow => 0
    | .walletProfileRow => 1
    | .walletRelationRow => 2
    | .poolRow => 3
    | .candidateRow => 4
  injective := by
    intro a b h
    cases a <;> cases b <;> first | rfl | cases h
  parents := by
    intro parent child
    cases parent <;> cases child <;> decide

def sampleText (value : Option String) : String := value.getD "None"

def openSchema : Schema String where
  accepts := fun _ _ => true

def emptyTable (model : UpsertModel) : Table String model where
  row := fun _ => none
  keyed := by rintro _ _ ⟨⟩
  columns := by rintro _ _ ⟨⟩

/-- Two events in `PROCESSING` and no rows of other tables. -/
def claimedDb : StateDb String where
  contexts := Dict.empty.set "a" ⟨0, none, none⟩
  claims :=
    { dedup := (Dict.empty.set "a" ⟨.processing, 1, some 0, none, none, some 1⟩).set "b"
        ⟨.processing, 1, some 0, none, none, some 2⟩ }
  tables := emptyTable
  strategyVersions := ["v1"]

def sampleHeld : Dict String Nat := (Dict.empty.set "a" 1).set "b" 2

def tokenValues (name : String) : Values String := fun column =>
  if column = "mint" then some "mint" else if column = "name" then some name else none

def poolValues : Values String := fun column =>
  if column = "pool_address" then some "pool" else if column = "mint" then some "mint" else none

def candidateValues : Values String := fun column =>
  if column = "id" then some "candidate" else if column = "mint" then some "mint"
  else if column = "pool_address" then some "pool"
  else if column = "strategy_version_id" then some "v1" else none

/-- Two upserts of one token, the rows that refer to it, and two marks at different times. -/
def sampleCalls : List (StateCall String) :=
  [.upsert .tokenRow (tokenValues "first"), .upsert .poolRow poolValues,
   .upsert .candidateRow candidateValues, .upsert .tokenRow (tokenValues "second"),
   .markEventProcessed "a" 5, .markEventProcessed "b" 9]

theorem flush_matches_calls_sample : ∃ called flushed,
    eventStateBatchTransaction sampleOrder sampleText .postgresql openSchema sampleHeld
      (fun _ => false) sampleCalls claimedDb = (flushed, none) ∧
    executeCalls openSchema .postgresql sampleHeld sampleCalls claimedDb = .ok called ∧
    SameRows .postgresql [("a", 5), ("b", 9)] flushed called := by
  cases hcalled : executeCalls openSchema .postgresql sampleHeld sampleCalls claimedDb with
  | error error =>
      have hok : (executeCalls openSchema .postgresql sampleHeld sampleCalls
        claimedDb).toOption.isSome = true := by decide +kernel
      rw [hcalled] at hok
      cases hok
  | ok called =>
      obtain ⟨flushed, hflushed, hsame⟩ := (flush_matches_calls openSchema .postgresql sampleOrder
        sampleText sampleHeld sampleCalls claimedDb).1 called hcalled
      exact ⟨called, flushed, hflushed, rfl, hsame⟩

/-- The flush settles the first event at the time of the second in both its columns, and it stores
a candidate whose upsert comes before its parents', which fails outside a batch. -/
theorem flush_differs_from_calls :
    ((executeCalls openSchema .postgresql sampleHeld sampleCalls claimedDb).toOption.bind
        fun db => db.claims.dedup.get? "a").map DedupRow.lastAttemptAt = some (some 5) ∧
    ((eventStateBatchTransaction sampleOrder sampleText .postgresql openSchema sampleHeld
        (fun _ => false) sampleCalls claimedDb).1.claims.dedup.get? "a").map
          DedupRow.lastAttemptAt = some (some 9) ∧
    let calls := [.upsert .candidateRow candidateValues, .upsert .poolRow poolValues,
      .upsert .tokenRow (tokenValues "first")]
    (executeCalls openSchema .postgresql sampleHeld calls claimedDb).toOption.isNone = true ∧
      (eventStateBatchTransaction sampleOrder sampleText .postgresql openSchema sampleHeld
        (fun _ => false) calls claimedDb).2 = none ∧
      (((eventStateBatchTransaction sampleOrder sampleText .postgresql openSchema sampleHeld
        (fun _ => false) calls claimedDb).1.tables .candidateRow).row
          [some "candidate"]).isSome = true := by
  decide +kernel

end Samples

end SniperBot.Events
