import SniperBot.Archive.Filed

/-!
# What a recovery leaves

When the files beyond the recorded ones are of groups of the batch that the recovery loads first,
every round writes the rest of the batch and records it, and the loop ends with each row in one
file, once, with its text.
-/

namespace SniperBot.Archive

open Basis

namespace Filed

variable {codec : Codec} {store : Store} {filed : List (ArchiveKey × List Nat)}
  {current : List EventEnvelope}

/-! ## Recovery -/

theorem load_eq (hincreasing : Increasing store.rows) :
    store.loadEventsForArchive store.lastArchivedSequence =
      store.rest.take Events.maxEventBatchSize := by
  unfold Store.loadEventsForArchive
  rw [sortBySequence_eq (hincreasing.sublist List.filter_sublist)]
  rfl

/-- The next batch of rows, when the files beyond the recorded ones are of its groups. -/
theorem load (h : Filed codec store filed current)
    (hlatest : ∀ group ∈ filed, (∀ n ∈ group.2, n ≤ store.lastArchivedSequence) ∨
      GroupOf (store.loadEventsForArchive store.lastArchivedSequence) group) :
    Filed codec store filed (store.loadEventsForArchive store.lastArchivedSequence) := by
  refine { h with latest := hlatest, next := ?_ }
  rw [load_eq h.increasing]
  exact (List.take_prefix _ _).map _

theorem latest_nil (h : Filed codec store filed []) :
    ∀ group ∈ filed, ∀ n ∈ group.2, n ≤ store.lastArchivedSequence := by
  intro group hgroup
  rcases h.latest group hgroup with hold | ⟨event, hevent, -⟩
  · exact hold
  · cases hevent

theorem load_of_nil (h : Filed codec store filed []) :
    Filed codec store filed (store.loadEventsForArchive store.lastArchivedSequence) :=
  h.load fun group hgroup => Or.inl (h.latest_nil group hgroup)

/-- The groups of rows that are as they are get their files, one after another. -/
theorem writeGroups (h : Filed codec store filed current)
    (hholds : ∀ event ∈ current, store.Holds codec event) {keys : List ArchiveKey}
    (hkeys : ∀ key ∈ keys, ∃ event ∈ current, event.key = key) :
    ∃ files segments filed',
      codec.writeGroups store.files (keys.map fun key => (key, current.filter (·.key = key))) =
          (files, .ok segments) ∧
        Segments codec store.rows current keys segments ∧ filed ⊆ filed' ∧
        (∀ key ∈ keys, groupAt current key ∈ filed') ∧
        Filed codec { store with files := files } filed' current := by
  induction keys generalizing store filed with
  | nil =>
      exact ⟨store.files, [], filed, rfl, rfl, List.Subset.refl _,
        ⟨List.forall_mem_nil _, h⟩⟩
  | cons key keys ih =>
      obtain ⟨event, hevent, hkey⟩ := hkeys key List.mem_cons_self
      have hne : current.filter (·.key = key) ≠ [] :=
        List.ne_nil_of_mem (List.mem_filter.mpr ⟨hevent, decide_eq_true hkey⟩)
      obtain ⟨hprepare, hsegment, files, hwrite, filed', hfiled', h', hmem⟩ := h.write rfl hne
        fun event hevent => hholds event (List.mem_of_mem_filter hevent)
      obtain ⟨files', segments, filed'', hrest, hsegments, hsubset, hall, h''⟩ :=
        ih h' hholds fun key hkey => hkeys key (List.mem_cons_of_mem _ hkey)
      have hkept : filed ⊆ filed' := by
        rw [hfiled']
        split
        · exact List.Subset.refl _
        · exact List.subset_append_left _ _
      refine ⟨files', (codec.sequenced key (current.filter (·.key = key))).segment :: segments,
        filed'', ?_, ?_, List.Subset.trans hkept hsubset,
        List.forall_mem_cons.mpr ⟨hsubset hmem, hall⟩, h''⟩
      · rw [List.map_cons, Codec.writeGroups, hprepare]
        dsimp only
        rw [hwrite]
        dsimp only at hrest ⊢
        rw [hrest]
        rfl
      · unfold Segments
        rw [List.map_cons, hsegment, hsegments]

/-- A batch of rows is written and recorded. -/
theorem round (h : Filed codec store filed current) (hne : current ≠ [])
    (hholds : ∀ event ∈ current, store.Holds codec event) :
    ∃ files segments filed', codec.writeSegments store.files current = (files, .ok segments) ∧
      recordRawArchiveSegments store.segments segments = .ok (store.segments ++ segments) ∧
      ({ store with files := files, segments := store.segments ++ segments } :
        Store).lastArchivedSequence = maxSequence current ∧
      Filed codec { store with files := files, segments := store.segments ++ segments } filed' [] := by
  obtain ⟨files, segments, filed', hwrite, hsegments, -, hall, h'⟩ :=
    h.writeGroups hholds fun key hkey => Dict.mem_keys_group.mp hkey
  refine ⟨files, segments, filed', ?_, h'.record_ok hsegments, h'.last_record hne hsegments,
    h'.record hne hsegments hall⟩
  unfold Codec.writeSegments
  rw [Dict.entries_group]
  exact hwrite

theorem rest_length_lt {row : EventEnvelope} (hrow : row ∈ store.rest) {last : Nat}
    (hlast : row.sequence ≤ last) :
    (store.rows.filter (last < ·.sequence)).length < store.rest.length := by
  have hlt := (of_decide_eq_true (List.mem_filter.mp hrow).2).trans_le hlast
  rw [← filter_rest hlt.le]
  refine List.length_filter_lt_length_iff_exists.mpr ⟨row, hrow, ?_⟩
  simpa using hlast

/-- The loop ends, with all rows archived. -/
theorem recoverFrom (rounds : Nat)
    (h : Filed codec store filed (store.loadEventsForArchive store.lastArchivedSequence))
    (hrounds : store.rest.length < rounds) :
    ∃ store' filed', codec.recoverFrom rounds store store.lastArchivedSequence = .ok store' ∧
      store'.rows = store.rows ∧ store'.rest = [] ∧ Filed codec store' filed' [] := by
  induction rounds generalizing store filed with
  | zero => exact absurd hrounds (Nat.not_lt_zero _)
  | succ rounds ih =>
      have hload := load_eq h.increasing
      by_cases hnil : store.loadEventsForArchive store.lastArchivedSequence = []
      · refine ⟨store, filed, ?_, rfl, ?_, hnil ▸ h⟩
        · rw [Codec.recoverFrom]
          exact if_pos hnil
        · rw [hload] at hnil
          exact (List.take_eq_nil_iff.mp hnil).resolve_left (by decide)
      · have hrows : ∀ event ∈ store.loadEventsForArchive store.lastArchivedSequence,
            event ∈ store.rest := by
          intro event hevent
          rw [hload] at hevent
          exact List.mem_of_mem_take hevent
        obtain ⟨files, segments, filed', hwrite, hrecord, hlast, h'⟩ := h.round hnil
          fun event hevent => ⟨event, List.mem_of_mem_filter (hrows event hevent), rfl, rfl⟩
        obtain ⟨event, hevent⟩ := List.exists_mem_of_ne_nil _ hnil
        have hshorter := rest_length_lt (hrows event hevent) (le_maxSequence hevent)
        rw [← hlast] at hshorter
        obtain ⟨store', filed'', hrecover, hsame, hrest, h''⟩ :=
          ih h'.load_of_nil (hshorter.trans_le (Nat.le_of_lt_succ hrounds))
        refine ⟨store', filed'', ?_, hsame, hrest, h''⟩
        rw [Codec.recoverFrom]
        rw [if_neg hnil, hwrite]
        dsimp only
        rw [hrecord]
        dsimp only
        rw [← hlast]
        exact hrecover

end Filed

/-! ## Files stay -/

theorem writeAtomicSegment_keeps {codec : Codec} {files written : Files} {prepared : Prepared}
    (h : codec.writeAtomicSegment files prepared = .ok written) :
    files.keys ⊆ written.keys ∧ prepared.segment.path ∈ written.keys := by
  unfold Codec.writeAtomicSegment at h
  cases hget : files.get? prepared.segment.path with
  | some existing =>
      rw [hget] at h
      dsimp only at h
      split at h
      · cases h
      · obtain rfl := Except.ok.inj h
        exact ⟨List.Subset.refl _, Dict.mem_keys.mpr ⟨existing, hget⟩⟩
  | none =>
      rw [hget] at h
      obtain rfl := Except.ok.inj h
      have hkeys : (files.set prepared.segment.path prepared.payload).keys =
          files.keys ++ [prepared.segment.path] := by
        unfold Dict.keys
        rw [Dict.entries_set_new hget, List.map_append, List.map_singleton]
      rw [hkeys]
      exact ⟨List.subset_append_left _ _, List.mem_append_right _ List.mem_cons_self⟩

/-- A batch that is written has a file for each group. -/
theorem writeGroups_keeps {codec : Codec} {groups : List (ArchiveKey × List EventEnvelope)}
    {files written : Files} {segments : List RawArchiveSegment}
    (h : codec.writeGroups files groups = (written, .ok segments)) :
    files.keys ⊆ written.keys ∧ ∀ group ∈ groups,
      (∀ event ∈ group.2, event.ingestSequence ≠ none) → (codec.file group).1 ∈ written.keys := by
  induction groups generalizing files segments with
  | nil =>
      obtain ⟨rfl, -⟩ := Prod.mk.inj h
      exact ⟨List.Subset.refl _, List.forall_mem_nil _⟩
  | cons group groups ih =>
      obtain ⟨key, members⟩ := group
      rw [Codec.writeGroups] at h
      cases hprepare : codec.prepare key members with
      | error error =>
          rw [hprepare] at h
          cases h
      | ok prepared =>
          rw [hprepare] at h
          dsimp only at h
          cases hwrite : codec.writeAtomicSegment files prepared with
          | error error =>
              rw [hwrite] at h
              cases h
          | ok first =>
              rw [hwrite] at h
              dsimp only at h
              cases hlater : codec.writeGroups first groups with
              | mk rest later =>
                  rw [hlater] at h
                  obtain ⟨rfl, hsegments⟩ := Prod.mk.inj h
                  obtain ⟨others, rfl⟩ : ∃ others, later = .ok others := by
                    cases later with
                    | error error => cases hsegments
                    | ok others => exact ⟨others, rfl⟩
                  obtain ⟨hkept, hpath⟩ := writeAtomicSegment_keeps hwrite
                  obtain ⟨hrest, hpaths⟩ := ih hlater
                  refine ⟨List.Subset.trans hkept hrest, List.forall_mem_cons.mpr ⟨?_, hpaths⟩⟩
                  intro hsequenced
                  obtain rfl := Except.ok.inj (hprepare.symm.trans (if_pos hsequenced))
                  exact hrest hpath

/-- A recovery that ends has found no rows, or has written and recorded the first ones. -/
theorem recoverFrom_cases {codec : Codec} {rounds after : Nat} {store recovered : Store}
    (h : codec.recoverFrom (rounds + 1) store after = .ok recovered) :
    (store.loadEventsForArchive after = [] ∧ recovered = store) ∨
      ∃ files segments recorded,
        codec.writeSegments store.files (store.loadEventsForArchive after) =
            (files, .ok segments) ∧
          codec.recoverFrom rounds { store with segments := recorded, files := files }
            (maxSequence (store.loadEventsForArchive after)) = .ok recovered := by
  rw [Codec.recoverFrom] at h
  split at h
  · rename_i hnil
    exact Or.inl ⟨hnil, (Except.ok.inj h).symm⟩
  · cases hwrite : codec.writeSegments store.files (store.loadEventsForArchive after) with
    | mk files written =>
        rw [hwrite] at h
        cases written with
        | error error => cases h
        | ok segments =>
            dsimp only at h
            cases hrecord : recordRawArchiveSegments store.segments segments with
            | error error =>
                rw [hrecord] at h
                cases h
            | ok recorded =>
                rw [hrecord] at h
                exact Or.inr ⟨files, segments, recorded, rfl, h⟩

/-- The rounds of a recovery remove no file and change no row. -/
theorem recoverFrom_keeps {codec : Codec} {rounds after : Nat} {store recovered : Store}
    (h : codec.recoverFrom rounds store after = .ok recovered) :
    store.files.keys ⊆ recovered.files.keys ∧ recovered.rows = store.rows := by
  induction rounds generalizing store after with
  | zero => cases h
  | succ rounds ih =>
      obtain ⟨-, rfl⟩ | ⟨files, segments, recorded, hwrite, hrest⟩ := recoverFrom_cases h
      · exact ⟨List.Subset.refl _, rfl⟩
      · obtain ⟨hkept, hrows⟩ := ih hrest
        exact ⟨List.Subset.trans (writeGroups_keeps hwrite).1 hkept, hrows⟩

/-- The first rows that a recovery loads have a file for each group. -/
theorem recoverFrom_first {codec : Codec} {rounds after : Nat} {store recovered : Store}
    (h : codec.recoverFrom (rounds + 1) store after = .ok recovered)
    (hsequenced : ∀ row ∈ store.loadEventsForArchive after, row.ingestSequence ≠ none)
    {row : EventEnvelope} (hrow : row ∈ store.loadEventsForArchive after) :
    (codec.file (row.key, (store.loadEventsForArchive after).filter (·.key = row.key))).1 ∈
      recovered.files.keys := by
  obtain ⟨hnil, -⟩ | ⟨files, segments, recorded, hwrite, hrest⟩ := recoverFrom_cases h
  · exact absurd hnil (List.ne_nil_of_mem hrow)
  · have hgroup : (row.key, (store.loadEventsForArchive after).filter (·.key = row.key)) ∈
        (Dict.group EventEnvelope.key (store.loadEventsForArchive after)).entries := by
      rw [Dict.entries_group]
      exact List.mem_map_of_mem (Dict.mem_keys_group.mpr ⟨row, hrow, rfl⟩)
    exact (recoverFrom_keeps hrest).1 ((writeGroups_keeps hwrite).2 _ hgroup
      fun event hevent => hsequenced event (List.mem_of_mem_filter hevent))

/-! ## What is archived -/

/-- Each row is in one file, at one place, with its text, among rows of its hour and protocol, and
the recorded segments are those of the files. -/
def Store.Archived (codec : Codec) (store : Store) : Prop :=
  ∃ groups : List (ArchiveKey × List EventEnvelope), (groups.flatMap Prod.snd).Perm store.rows ∧
    (∀ group ∈ groups, ∀ row ∈ group.2, row.key = group.1) ∧
      store.files.entries = groups.map codec.file ∧
      store.segments.Perm (groups.map fun group => (codec.sequenced group.1 group.2).segment)

theorem exists_first {codec : Codec} {group : ArchiveKey × List EventEnvelope}
    {numbers : ArchiveKey × List Nat} (hpath : (codec.file group).1 = (rangeOf numbers).1)
    (hpositive : 0 < numbers.2.headD 0) :
    ∃ row ∈ group.2, row.sequence = numbers.2.headD 0 := by
  have hstart : startSequence (sortBySequence group.2) = numbers.2.headD 0 :=
    (segmentPath_inj hpath).2.1
  unfold startSequence at hstart
  cases hhead : (sortBySequence group.2).head? with
  | none =>
      rw [hhead] at hstart
      exact absurd hstart hpositive.ne
  | some row =>
      rw [hhead] at hstart
      exact ⟨row, mem_sortBySequence.mp (List.mem_of_head? hhead), hstart⟩

/-- No two files begin with the same row. -/
theorem Store.Archived.path_eq {codec : Codec} {store : Store} (h : store.Archived codec)
    (hincreasing : Increasing store.rows) {numbers others : ArchiveKey × List Nat}
    (hnumbers : (rangeOf numbers).1 ∈ store.files.keys)
    (hothers : (rangeOf others).1 ∈ store.files.keys)
    (hhead : numbers.2.headD 0 = others.2.headD 0) (hpositive : 0 < numbers.2.headD 0) :
    (rangeOf numbers).1 = (rangeOf others).1 := by
  obtain ⟨groups, hrows, -, hentries, -⟩ := h
  have hgroup : ∀ {numbers : ArchiveKey × List Nat}, (rangeOf numbers).1 ∈ store.files.keys →
      ∃ group ∈ groups, (codec.file group).1 = (rangeOf numbers).1 := by
    intro numbers hmem
    unfold Dict.keys at hmem
    rw [hentries, List.map_map] at hmem
    exact List.mem_map.mp hmem
  obtain ⟨group, hgroups, hpath⟩ := hgroup hnumbers
  obtain ⟨group', hgroups', hpath'⟩ := hgroup hothers
  obtain ⟨row, hrow, hsequence⟩ := exists_first hpath hpositive
  obtain ⟨row', hrow', hsequence'⟩ := exists_first hpath' (hhead ▸ hpositive)
  have hmem : row ∈ store.rows :=
    hrows.mem_iff.mp (List.mem_flatMap.mpr ⟨group, hgroups, hrow⟩)
  have hmem' : row' ∈ store.rows :=
    hrows.mem_iff.mp (List.mem_flatMap.mpr ⟨group', hgroups', hrow'⟩)
  obtain rfl := hincreasing.eq hmem hmem' (hsequence.trans (hhead.trans hsequence'.symm))
  have hnodup : (groups.flatMap Prod.snd).Nodup :=
    hrows.nodup_iff.mpr (List.Nodup.of_map _ hincreasing.nodup)
  by_contra hne
  have hdifferent : group ≠ group' := fun hsame => hne (hpath.symm.trans (hsame ▸ hpath'))
  have hsymm : Std.Symm (Function.onFun List.Disjoint
      (Prod.snd : ArchiveKey × List EventEnvelope → List EventEnvelope)) :=
    ⟨fun _ _ hdisjoint => hdisjoint.symm⟩
  exact (List.nodup_flatMap.mp hnodup).2.forall hgroups hgroups' hdifferent hrow hrow'

/-- The rows with some sequence numbers. -/
def Store.rowsAt (store : Store) (numbers : List Nat) : List EventEnvelope :=
  numbers.filterMap fun n => store.rows.find? (·.sequence = n)

namespace Filed

variable {codec : Codec} {store : Store} {filed : List (ArchiveKey × List Nat)}
  {current : List EventEnvelope}

theorem rowsAt_rows (hincreasing : Increasing store.rows) :
    store.rowsAt (store.rows.map EventEnvelope.sequence) = store.rows := by
  unfold Store.rowsAt
  rw [List.filterMap_map]
  exact (List.filterMap_congr fun row hrow => find?_sequence hincreasing hrow).trans
    List.filterMap_some

/-- A number for each row, and a row for each number. -/
theorem sequences_rowsAt (hincreasing : Increasing store.rows) {numbers : List Nat}
    (hknown : ∀ n ∈ numbers, n ∈ store.rows.map EventEnvelope.sequence) :
    (store.rowsAt numbers).map EventEnvelope.sequence = numbers := by
  unfold Store.rowsAt
  induction numbers with
  | nil => rfl
  | cons n numbers ih =>
      obtain ⟨row, hrow, rfl⟩ := List.mem_map.mp (hknown n List.mem_cons_self)
      rw [List.filterMap_cons, find?_sequence hincreasing hrow, List.map_cons,
        ih fun m hm => hknown m (List.mem_cons_of_mem _ hm)]

theorem mem_rowsAt {numbers : List Nat} {row : EventEnvelope} (h : row ∈ store.rowsAt numbers) :
    row ∈ store.rows ∧ row.sequence ∈ numbers := by
  obtain ⟨n, hn, hfind⟩ := List.mem_filterMap.mp h
  have hsequence := List.find?_some hfind
  exact ⟨List.mem_of_find?_eq_some hfind, of_decide_eq_true hsequence ▸ hn⟩

/-- When no row is left, the files hold the rows. -/
theorem archived (h : Filed codec store filed current) (hrest : store.rest = []) :
    store.Archived codec := by
  have hnumbers : (filed.flatMap Prod.snd).Perm (store.rows.map EventEnvelope.sequence) := by
    refine (List.perm_ext_iff_of_nodup h.once h.increasing.nodup).mpr fun n => ⟨?_, ?_⟩
    · intro hn
      obtain ⟨group, hgroup, hn⟩ := List.mem_flatMap.mp hn
      obtain ⟨row, hrow, hsequence, -⟩ := h.known group hgroup n hn
      exact List.mem_map.mpr ⟨row, hrow, hsequence⟩
    · intro hn
      obtain ⟨row, hrow, rfl⟩ := List.mem_map.mp hn
      refine h.complete row hrow (not_lt.mp fun hlt => ?_)
      have hmem : row ∈ store.rest := List.mem_filter.mpr ⟨hrow, decide_eq_true hlt⟩
      rw [hrest] at hmem
      cases hmem
  have hknown : ∀ group ∈ filed, ∀ n ∈ group.2, n ∈ store.rows.map EventEnvelope.sequence := by
    intro group hgroup n hn
    obtain ⟨row, hrow, hsequence, -⟩ := h.known group hgroup n hn
    exact List.mem_map.mpr ⟨row, hrow, hsequence⟩
  have hsequences : ∀ group ∈ filed,
      (store.rowsAt group.2).map EventEnvelope.sequence = group.2 := fun group hgroup =>
    sequences_rowsAt h.increasing (hknown group hgroup)
  have hincreasing : ∀ group ∈ filed, Increasing (store.rowsAt group.2) := by
    intro group hgroup
    rw [increasing_iff, hsequences group hgroup]
    exact (h.sorted group hgroup).2
  have hholds : ∀ group : ArchiveKey × List Nat, ∀ row ∈ store.rowsAt group.2,
      store.Holds codec row := fun group row hrow => ⟨row, (mem_rowsAt hrow).1, rfl, rfl⟩
  refine ⟨filed.map fun group => (group.1, store.rowsAt group.2), ?_, ?_, ?_, ?_⟩
  · have hflatten : (filed.map fun group => (group.1, store.rowsAt group.2)).flatMap Prod.snd =
        store.rowsAt (filed.flatMap Prod.snd) := by
      unfold Store.rowsAt
      rw [List.filterMap_flatMap, List.flatMap_map]
    rw [hflatten]
    exact (hnumbers.filterMap _).trans (List.Perm.of_eq (rowsAt_rows h.increasing))
  · intro _ hmember row hrow
    obtain ⟨group, hgroup, rfl⟩ := List.mem_map.mp hmember
    obtain ⟨hrow, hsequence⟩ := mem_rowsAt hrow
    obtain ⟨other, hother, hsame, hkey⟩ := h.known group hgroup _ hsequence
    rw [← h.increasing.eq hother hrow hsame]
    exact hkey
  · rw [h.entries, List.map_map]
    refine List.map_congr_left fun group hgroup => ?_
    have hrange := sequenced_range codec group.1 (hincreasing group hgroup)
    have hpayload := sequenced_payload h.increasing group.1 (hincreasing group hgroup) (hholds group)
    rw [hsequences group hgroup] at hrange hpayload
    have hpath : (codec.file (group.1, store.rowsAt group.2)).1 = (rangeOf group).1 :=
      congrArg Prod.fst hrange
    exact (Prod.ext hpath hpayload).symm
  · have hall : store.recordedGroups filed = filed := by
      refine List.filter_eq_self.mpr fun group hgroup => decide_eq_true fun n hn => ?_
      obtain ⟨row, hrow, rfl⟩ := List.mem_map.mp (hknown group hgroup n hn)
      by_contra hlt
      have hmem : row ∈ store.rest :=
        List.mem_filter.mpr ⟨hrow, decide_eq_true (not_le.mp hlt)⟩
      rw [hrest] at hmem
      cases hmem
    refine h.recorded.trans (List.Perm.of_eq ?_)
    rw [hall, List.map_map]
    refine List.map_congr_left fun group hgroup => ?_
    have hsegment := sequenced_segment h.increasing group.1 (hincreasing group hgroup) (hholds group)
    rw [hsequences group hgroup] at hsegment
    exact hsegment.symm

end Filed

end SniperBot.Archive
