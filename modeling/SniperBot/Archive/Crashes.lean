import SniperBot.Archive.Recovered
import SniperBot.Basis.Run

/-!
# Crashes while the archive is written

Between two crashes the memory of the process holds the rows after the last recorded number, in
their order: those of the batch and then those of the queue. A start holds the next rows that it has
loaded. With the files of `Filed` this is kept by every step that is `Intact`: no event is claimed
again, what is written is still the text of the rows, the text of a written row is not changed, and
at a crash the files that are not recorded are those of groups of the batch that the next start
loads.

The conditions are needed. An event that is claimed again is archived again, in the file of another
batch. A file that was written before a crash is written again when the next start finds more rows
of its hour, under another name; and a file with a flag that no row has is not the one that the next
start writes under its name.
-/

namespace SniperBot.Archive

open Basis

namespace ArchiveProcess

variable (s : ArchiveProcess)

/-- The rows that the next start loads first. -/
def loaded : List EventEnvelope :=
  s.store.loadEventsForArchive s.store.lastArchivedSequence

/-- The files beyond the recorded ones are those of groups of the batch that the next start loads. -/
def Fits : Prop :=
  ∀ group ∈ s.filed, (∀ n ∈ group.2, n ≤ s.store.lastArchivedSequence) ∨ GroupOf s.loaded group

/-- No event is claimed again, what is written is as the rows are, a written row is not changed, and
a crash fits. -/
def Intact (codec : Codec) : ArchiveStep → Prop
  | .claim events => ∀ event ∈ events, event.sequence ∉ s.store.rows.map EventEnvelope.sequence
  | .write => ∀ key ∈ s.pending.head?, ∀ event ∈ s.members key, s.store.Holds codec event
  | .context sequence mint poolAddress =>
      ∀ row ∈ s.store.rows, row.sequence ∈ s.filed.flatMap Prod.snd →
        codec.dumpJson (row.recontext sequence mint poolAddress) = codec.dumpJson row
  | .crash => s.Fits
  | _ => True

instance (codec : Codec) (store : Store) (event : EventEnvelope) :
    Decidable (store.Holds codec event) :=
  inferInstanceAs (Decidable (∃ row ∈ store.rows,
    row.sequence = event.sequence ∧ codec.dumpJson row = codec.dumpJson event))

instance (events : List EventEnvelope) (group : ArchiveKey × List Nat) :
    Decidable (GroupOf events group) :=
  inferInstanceAs (Decidable (∃ event ∈ events, group = groupAt events event.key))

instance : Decidable s.Fits :=
  inferInstanceAs (Decidable (∀ group ∈ s.filed,
    (∀ n ∈ group.2, n ≤ s.store.lastArchivedSequence) ∨ GroupOf s.loaded group))

instance (codec : Codec) : ∀ step, Decidable (s.Intact codec step)
  | .claim events => inferInstanceAs (Decidable
      (∀ event ∈ events, event.sequence ∉ s.store.rows.map EventEnvelope.sequence))
  | .write => inferInstanceAs (Decidable
      (∀ key ∈ s.pending.head?, ∀ event ∈ s.members key, s.store.Holds codec event))
  | .context sequence mint poolAddress => inferInstanceAs (Decidable
      (∀ row ∈ s.store.rows, row.sequence ∈ s.filed.flatMap Prod.snd →
        codec.dumpJson (row.recontext sequence mint poolAddress) = codec.dumpJson row))
  | .crash => inferInstanceAs (Decidable s.Fits)
  | .observe .. | .load | .take _ | .fail | .record => isTrue trivial

theorem unrecorded_eq {rows events : List EventEnvelope}
    (h : ∀ event ∈ events, event.sequence ∉ rows.map EventEnvelope.sequence) :
    unrecorded rows events = events :=
  List.filter_eq_self.mpr fun event hevent => decide_eq_true (h event hevent)

/-- The events whose groups may have files that are not recorded. -/
def current : List EventEnvelope := if s.recovering = none then s.batch else s.loaded

/-- The memory and the files of a process. -/
structure Archiving (codec : Codec) (s : ArchiveProcess) : Prop where
  filed : Filed codec s.store s.filed s.current
  running : s.recovering = none →
    (s.batch ++ s.queue).map EventEnvelope.stamp = s.store.rest.map EventEnvelope.stamp
  starting : ∀ after, s.recovering = some after →
    after = s.store.lastArchivedSequence ∧ s.queue = [] ∧
      (s.batch = [] ∨ s.batch.map EventEnvelope.stamp = s.loaded.map EventEnvelope.stamp)
  short : s.batch.length ≤ Events.maxEventBatchSize
  written : ∃ done, done ++ s.pending = (Dict.group EventEnvelope.key s.batch).keys ∧
    Filed.Segments codec s.store.rows s.batch done s.segments ∧ ∀ key ∈ done, groupAt s.batch key ∈ s.filed

end ArchiveProcess

namespace ArchiveProcess.Archiving

variable {codec : Codec} {s : ArchiveProcess}

/-- A batch is what the files beyond the recorded ones are of. -/
theorem filed_batch (h : Archiving codec s) (hbatch : s.batch ≠ []) :
    Filed codec s.store s.filed s.batch := by
  cases hrecovering : s.recovering with
  | none =>
      have hfiled := h.filed
      rw [current, if_pos hrecovering] at hfiled
      exact hfiled
  | some after =>
      have hfiled := h.filed
      rw [current, hrecovering, if_neg (Option.some_ne_none after)] at hfiled
      exact hfiled.congr (((h.starting after hrecovering).2.2.resolve_left hbatch).symm)

theorem filed_current
    (hsame : s.recovering ≠ none →
      s.batch.map EventEnvelope.stamp = s.loaded.map EventEnvelope.stamp)
    (h : Filed codec s.store s.filed s.batch) : Filed codec s.store s.filed s.current := by
  unfold current
  split
  · exact h
  · rename_i hrecovering
    exact h.congr (hsame hrecovering)

/-- The attempt begins, or begins again. -/
theorem attempt_self (h : Archiving codec s) : Archiving codec (s.attempt s.batch) where
  filed := h.filed
  running := h.running
  starting := h.starting
  short := h.short
  written := ⟨[], rfl, rfl, List.forall_mem_nil _⟩

theorem crash (h : Archiving codec s) (hfits : s.Fits) : Archiving codec s.crash where
  filed := h.filed.load hfits
  running := fun hrunning => by cases hrunning
  starting := by
    rintro after ⟨rfl⟩
    exact ⟨rfl, rfl, Or.inl rfl⟩
  short := Nat.zero_le _
  written := ⟨[], rfl, rfl, List.forall_mem_nil _⟩

/-- A start that ends early has left only files of the batch that it loaded. -/
theorem fits_of_recovering (h : Archiving codec s) (hrecovering : s.recovering ≠ none) :
    s.Fits := by
  have hfiled := h.filed
  rw [current, if_neg hrecovering] at hfiled
  exact hfiled.latest

theorem fail (h : Archiving codec s) : Archiving codec s.fail := by
  unfold ArchiveProcess.fail
  split
  · exact h.attempt_self
  · rename_i hrecovering
    exact h.crash (h.fits_of_recovering hrecovering)

/-- The next group of the batch gets its file. -/
theorem write (h : Archiving codec s) (hintact : s.Intact codec .write) :
    Archiving codec (s.write codec) := by
  unfold ArchiveProcess.write
  cases hpending : s.pending with
  | nil => exact h
  | cons key pending =>
      obtain ⟨done, hkeys, hsegments, hdone⟩ := h.written
      have hkey : key ∈ (Dict.group EventEnvelope.key s.batch).keys := by
        rw [← hkeys, hpending]
        exact List.mem_append_right _ List.mem_cons_self
      obtain ⟨event, hevent, hsame⟩ := Dict.mem_keys_group.mp hkey
      have hne : s.members key ≠ [] :=
        List.ne_nil_of_mem (List.mem_filter.mpr ⟨hevent, decide_eq_true hsame⟩)
      have hholds : ∀ event ∈ s.members key, s.store.Holds codec event :=
        hintact key (by rw [hpending]; rfl)
      obtain ⟨hprepare, hsegment, files, hwrite, filed, hfiled, h', hmem⟩ :=
        (h.filed_batch (List.ne_nil_of_mem hevent)).write rfl hne hholds
      dsimp only
      rw [show codec.prepare key (s.members key) = _ from hprepare]
      dsimp only
      rw [show codec.writeAtomicSegment s.store.files _ = _ from hwrite]
      dsimp only
      have hbatch : s.recovering ≠ none →
          s.batch.map EventEnvelope.stamp = s.loaded.map EventEnvelope.stamp := by
        intro hrecovering
        obtain ⟨after, hafter⟩ := Option.ne_none_iff_exists'.mp hrecovering
        exact (h.starting after hafter).2.2.resolve_left (List.ne_nil_of_mem hevent)
      refine ⟨filed_current hbatch (hfiled ▸ h'), h.running, h.starting, h.short, done ++ [key],
        ?_, ?_, ?_⟩
      · rw [← hkeys, hpending, List.append_assoc, List.singleton_append]
      · unfold Filed.Segments at hsegments ⊢
        rw [List.map_append, hsegments, List.map_singleton]
        exact congrArg (_ ++ [·]) hsegment
      · have hkept : s.filed ⊆ filed := by
          rw [hfiled]
          split
          · exact List.Subset.refl _
          · exact List.subset_append_left _ _
        intro other hother
        dsimp only
        change groupAt s.batch other ∈ ite _ _ (s.filed ++ [groupAt s.batch key])
        rw [← hfiled]
        rcases List.mem_append.mp hother with hother | hother
        · exact hkept (hdone other hother)
        · exact List.mem_singleton.mp hother ▸ hmem

/-- The segments of the batch are recorded, and the process is done with it. -/
theorem record (h : Archiving codec s) : Archiving codec s.record := by
  unfold ArchiveProcess.record
  split
  · exact h
  · rename_i hready
    obtain ⟨hbatch, hpending⟩ := not_or.mp hready
    obtain ⟨done, hkeys, hsegments, hdone⟩ := h.written
    rw [not_not.mp hpending, List.append_nil] at hkeys
    subst hkeys
    have hfiled := h.filed_batch hbatch
    have hlast := hfiled.last_record hbatch hsegments
    have hrecorded := hfiled.record hbatch hsegments hdone
    rw [hfiled.record_ok hsegments]
    dsimp only
    refine ⟨?_, ?_, ?_, Nat.zero_le _, [], not_not.mp hpending, rfl, List.forall_mem_nil _⟩
    · unfold current
      split
      · exact hrecorded
      · exact hrecorded.load_of_nil
    · intro hrunning
      have hbefore := h.running (Option.map_eq_none_iff.mp hrunning)
      unfold Store.rest
      rw [hlast]
      exact hfiled.rest_beyond hbefore hbatch
    · intro after hafter
      obtain ⟨before, hbefore, rfl⟩ := Option.map_eq_some_iff.mp hafter
      exact ⟨hlast.symm, (h.starting before hbefore).2.1, Or.inl rfl⟩

theorem load (h : Archiving codec s) : Archiving codec s.load := by
  unfold ArchiveProcess.load
  cases hrecovering : s.recovering with
  | none => exact h
  | some after =>
      obtain ⟨rfl, hqueue, -⟩ := h.starting after hrecovering
      have hfiled := h.filed
      rw [current, hrecovering, if_neg (Option.some_ne_none _)] at hfiled
      dsimp only
      split_ifs with hbatch hnone
      · exact h
      · have hrest : s.store.rest = [] := by
          rw [Filed.load_eq hfiled.increasing] at hnone
          exact (List.take_eq_nil_iff.mp hnone).resolve_left (by decide)
        refine ⟨?_, ?_, ?_, h.short, h.written⟩
        · rw [loaded, hnone] at hfiled
          rw [current, if_pos rfl, not_not.mp hbatch]
          exact hfiled
        · intro _
          rw [not_not.mp hbatch, hqueue, hrest]
          rfl
        · rintro after ⟨⟩
      · refine ⟨?_, ?_, ?_, List.length_take_le _ _, [], rfl, rfl, List.forall_mem_nil _⟩
        · unfold current
          split
          · exact hfiled
          · exact hfiled
        · intro hrunning
          cases hrecovering.symm.trans hrunning
        · intro after hafter
          obtain ⟨rfl⟩ := hrecovering.symm.trans hafter
          exact ⟨rfl, hqueue, Or.inr rfl⟩

theorem take (h : Archiving codec s) (count : Nat) : Archiving codec (s.take count) := by
  unfold ArchiveProcess.take
  split
  · exact h
  · rename_i hidle
    obtain ⟨hrunning, hbatch⟩ := not_or.mp hidle
    have hrest := h.running (not_not.mp hrunning)
    have hfiled := h.filed
    rw [current, if_pos (not_not.mp hrunning), not_not.mp hbatch] at hfiled
    rw [not_not.mp hbatch, List.nil_append] at hrest
    have hnext : Filed codec s.store s.filed
        (s.queue.take (min count Events.maxEventBatchSize)) := by
      refine { hfiled with latest := ?_, next := ?_ }
      · exact fun group hgroup => Or.inl (hfiled.latest_nil group hgroup)
      · exact hrest ▸ (List.take_prefix _ _).map _
    refine ⟨filed_current (fun hstart => absurd hstart hrunning) hnext, ?_, ?_, ?_, [], rfl, rfl,
      List.forall_mem_nil _⟩
    · intro _
      unfold attempt
      dsimp only
      rw [List.take_append_drop]
      exact hrest
    · intro after hafter
      exact absurd (Option.ne_none_iff_exists'.mpr ⟨after, hafter⟩) hrunning
    · exact (List.length_take_le _ _).trans (Nat.min_le_right _ _)

/-! ## Rows and events that change -/

/-- What the attempt has written is as other rows are that have the same texts. -/
theorem written_congr (h : Archiving codec s) {rows : List EventEnvelope}
    (hrows : Increasing rows)
    (hsame : ∀ row ∈ s.store.rows, row.sequence ∈ s.filed.flatMap Prod.snd →
      ∃ other ∈ rows, other.sequence = row.sequence ∧ codec.dumpJson other = codec.dumpJson row) :
    ∃ done, done ++ s.pending = (Dict.group EventEnvelope.key s.batch).keys ∧
      Filed.Segments codec rows s.batch done s.segments ∧
      ∀ key ∈ done, groupAt s.batch key ∈ s.filed := by
  obtain ⟨done, hkeys, hsegments, hdone⟩ := h.written
  exact ⟨done, hkeys, hsegments.trans (List.map_congr_left fun key hkey =>
    h.filed.rowSegment_congr hrows hsame (hdone key hkey)), hdone⟩

/-- New rows come after all others, and are the last of the queue. -/
theorem claim (h : Archiving codec s) {events : List EventEnvelope}
    (hintact : s.Intact codec (.claim events)) : Archiving codec (s.claim events) := by
  unfold ArchiveProcess.claim
  split
  · rename_i hclaim
    obtain ⟨hrunning, hfresh, -⟩ := hclaim
    rw [unrecorded_eq hintact] at hfresh ⊢
    have hfiled := h.filed
    rw [current, if_pos hrunning] at hfiled
    have hclaimed := hfiled.claim hfresh
    refine ⟨filed_current (fun hstart => absurd hrunning hstart) hclaimed, ?_, ?_, h.short,
      h.written_congr hclaimed.increasing fun row hrow _ =>
        ⟨row, List.mem_append_left _ hrow, rfl, rfl⟩⟩
    · intro _
      rw [hfiled.rest_claim hfresh, ← List.append_assoc, List.map_append, h.running hrunning,
        List.map_append]
    · intro after hafter
      cases hrunning.symm.trans hafter
  · exact h

theorem map_stamp {change : EventEnvelope → EventEnvelope}
    (hchange : ∀ event, (change event).stamp = event.stamp) (events : List EventEnvelope) :
    (events.map change).map EventEnvelope.stamp = events.map EventEnvelope.stamp := by
  rw [List.map_map]
  exact List.map_congr_left fun event _ => hchange event

theorem reflagged_stamp (sequence : Nat) (flag : Bool) (event : EventEnvelope) :
    (event.reflagged sequence flag).stamp = event.stamp := by
  unfold EventEnvelope.reflagged
  split <;> rfl

theorem recontext_stamp (sequence : Nat) (mint poolAddress : Option String)
    (row : EventEnvelope) : (row.recontext sequence mint poolAddress).stamp = row.stamp := by
  unfold EventEnvelope.recontext
  split <;> rfl

/-- The state stage changes no stamp. -/
theorem observe (h : Archiving codec s) (sequence : Nat) (flag : Bool) :
    Archiving codec (s.observe sequence flag) := by
  have hbatch := map_stamp (reflagged_stamp sequence flag) s.batch
  have hqueue := map_stamp (reflagged_stamp sequence flag) s.queue
  refine ⟨?_, ?_, ?_, (List.length_map _).trans_le h.short, ?_⟩
  · have hfiled := h.filed
    unfold current at hfiled ⊢
    split
    · rename_i hrunning
      rw [if_pos (show s.recovering = none from hrunning)] at hfiled
      exact hfiled.congr hbatch.symm
    · rename_i hstart
      rw [if_neg (show s.recovering ≠ none from hstart)] at hfiled
      exact hfiled
  · intro hrunning
    have hrest := h.running hrunning
    rw [List.map_append] at hrest ⊢
    exact (congrArg₂ (· ++ ·) hbatch hqueue).trans hrest
  · intro after hafter
    obtain ⟨hlast, hnil, hloaded⟩ := h.starting after hafter
    exact ⟨hlast, List.map_eq_nil_iff.mpr hnil,
      hloaded.imp List.map_eq_nil_iff.mpr fun hloaded => hbatch.trans hloaded⟩
  · obtain ⟨done, hkeys, hsegments, hdone⟩ := h.written
    have hgroup := groupAt_congr hbatch
    refine ⟨done, ?_, ?_, fun key hkey => (hgroup key).symm ▸ hdone key hkey⟩
    · exact hkeys.trans (keys_of_stamps hbatch).symm
    · exact Eq.trans hsegments (List.map_congr_left fun key _ => congrArg _ (hgroup key).symm)

/-- The context of a row changes no stamp. -/
theorem context (h : Archiving codec s) {sequence : Nat} {mint poolAddress : Option String}
    (hintact : s.Intact codec (.context sequence mint poolAddress)) :
    Archiving codec (s.context sequence mint poolAddress) := by
  have hrows := map_stamp (recontext_stamp sequence mint poolAddress) s.store.rows
  have hsame : ∀ row ∈ s.store.rows, row.sequence ∈ s.filed.flatMap Prod.snd →
      ∃ other ∈ s.store.rows.map (EventEnvelope.recontext sequence mint poolAddress),
        other.sequence = row.sequence ∧ codec.dumpJson other = codec.dumpJson row :=
    fun row hrow hfiled => ⟨_, List.mem_map_of_mem hrow,
      Filed.sequence_of_stamp (recontext_stamp sequence mint poolAddress row),
      hintact row hrow hfiled⟩
  have hchanged := h.filed.change hrows hsame
  have hrest := Filed.rest_change hrows
  have hloaded : (s.context sequence mint poolAddress).loaded.map EventEnvelope.stamp =
      s.loaded.map EventEnvelope.stamp := by
    have hbefore := Filed.load_eq h.filed.increasing
    have hafter := Filed.load_eq hchanged.increasing
    calc (s.context sequence mint poolAddress).loaded.map EventEnvelope.stamp
        = ((s.context sequence mint poolAddress).store.rest.take
            Events.maxEventBatchSize).map EventEnvelope.stamp := congrArg _ hafter
      _ = (s.store.rest.take Events.maxEventBatchSize).map EventEnvelope.stamp := by
          rw [List.map_take, List.map_take]
          exact congrArg _ hrest
      _ = s.loaded.map EventEnvelope.stamp := congrArg _ hbefore.symm
  refine ⟨?_, fun hrunning => (h.running hrunning).trans hrest.symm, ?_, h.short,
    h.written_congr hchanged.increasing hsame⟩
  · unfold current at hchanged ⊢
    split
    · rename_i hrunning
      rw [if_pos (show s.recovering = none from hrunning)] at hchanged
      exact hchanged
    · rename_i hstart
      rw [if_neg (show s.recovering ≠ none from hstart)] at hchanged
      exact hchanged.congr hloaded.symm
  · intro after hafter
    obtain ⟨hlast, hnil, hbatch⟩ := h.starting after hafter
    exact ⟨hlast, hnil, hbatch.imp_right fun hbatch => hbatch.trans hloaded.symm⟩

/-- Every step that leaves what is written as it is keeps what is known. -/
theorem step (h : Archiving codec s) {step : ArchiveStep} (hintact : s.Intact codec step) :
    Archiving codec (s.step codec step) := by
  cases step with
  | claim events => exact h.claim hintact
  | observe sequence flag => exact h.observe sequence flag
  | context sequence mint poolAddress => exact h.context hintact
  | load => exact h.load
  | take count => exact h.take count
  | write => exact h.write hintact
  | fail => exact h.fail
  | record => exact h.record
  | crash => exact h.crash hintact

end ArchiveProcess.Archiving

/-! ## A recovery that archives every row -/

namespace ArchiveProcess.Archiving

variable {codec : Codec} {s : ArchiveProcess}

/-- The next start loads the events of the batch, and maybe more. -/
theorem batch_prefix (h : Archiving codec s) (hrunning : s.recovering = none) :
    s.batch.map EventEnvelope.stamp <+: s.loaded.map EventEnvelope.stamp := by
  have hfiled := h.filed
  rw [current, if_pos hrunning] at hfiled
  unfold loaded
  rw [Filed.load_eq hfiled.increasing, List.map_take, List.prefix_take_iff, List.length_map]
  exact ⟨hfiled.next, h.short⟩

/-- Numbers that begin the same and end the same are the same. -/
theorem eq_of_prefix {numbers others : List Nat} (hinit : numbers <+: others)
    (hsorted : others.Pairwise (· < ·)) (hne : numbers ≠ [])
    (hlast : numbers.getLastD 0 = others.getLastD 0) : numbers = others := by
  obtain ⟨later, rfl⟩ := hinit
  by_contra hmore
  have hlater : later ≠ [] := by
    rintro rfl
    exact hmore (List.append_nil _).symm
  obtain ⟨n, hn⟩ := List.exists_mem_of_ne_nil _ hlater
  have hlt := (List.pairwise_append.mp hsorted).2.2 _ (getLastD_mem hne) n hn
  have hle := le_getLastD hsorted (List.mem_append_right numbers hn)
  rw [← hlast] at hle
  exact absurd hle hlt.not_ge

/-- When a recovery archives the rows, the files that were not recorded fit. -/
theorem fits_of_archived (h : Archiving codec s) {store : Store}
    (hrecover : codec.recover s.store = .ok store) (harchived : store.Archived codec) :
    s.Fits := by
  by_cases hrecovering : s.recovering = none
  swap
  · exact h.fits_of_recovering hrecovering
  have hfiled := h.filed
  rw [current, if_pos hrecovering] at hfiled
  intro group hgroup
  refine (hfiled.latest group hgroup).imp_right ?_
  rintro ⟨event, hevent, rfl⟩
  have hinit := h.batch_prefix hrecovering
  obtain ⟨row, hrow, hstamp⟩ := List.mem_map.mp (hinit.subset (List.mem_map_of_mem hevent))
  have hkey : row.key = event.key := congrArg Prod.fst hstamp
  have hloaded : Increasing s.loaded := by
    unfold loaded
    rw [Filed.load_eq hfiled.increasing]
    exact hfiled.increasing_rest.sublist (List.take_sublist _ _)
  have hnumbers : (groupAt s.batch event.key).2 <+: (groupAt s.loaded event.key).2 := by
    rw [groupAt_snd, groupAt_snd]
    exact (hinit.filter _).map _
  have hbatch : GroupOf s.batch (groupAt s.batch event.key) := ⟨event, hevent, rfl⟩
  have hnext : GroupOf s.loaded (groupAt s.loaded event.key) := ⟨row, hrow, by rw [hkey]⟩
  have hhead : (groupAt s.batch event.key).2.headD 0 = (groupAt s.loaded event.key).2.headD 0 := by
    obtain ⟨later, hlater⟩ := hnumbers
    rw [← hlater]
    cases hfirst : (groupAt s.batch event.key).2 with
    | nil => exact absurd hfirst hbatch.ne_nil
    | cons n numbers => rfl
  obtain ⟨hkept, hrows⟩ := recoverFrom_keeps hrecover
  have hold : (rangeOf (groupAt s.batch event.key)).1 ∈ store.files.keys := by
    refine hkept ?_
    unfold Dict.keys
    rw [hfiled.entries, List.map_map]
    exact List.mem_map_of_mem hgroup
  have hnew : (rangeOf (groupAt s.loaded event.key)).1 ∈ store.files.keys := by
    have hsequenced : ∀ row ∈ s.loaded, row.ingestSequence ≠ none := by
      intro row hrow
      unfold loaded at hrow
      rw [Filed.load_eq hfiled.increasing] at hrow
      have hpositive := hfiled.positive row (List.mem_of_mem_filter (List.mem_of_mem_take hrow))
      rintro hnone
      rw [EventEnvelope.sequence, hnone] at hpositive
      exact absurd hpositive (Nat.lt_irrefl 0)
    have hfirst := recoverFrom_first hrecover hsequenced hrow
    rw [hkey] at hfirst
    have hrange := sequenced_range codec event.key
      (hloaded.sublist (List.filter_sublist (p := (·.key = event.key))))
    exact (congrArg Prod.fst hrange) ▸ hfirst
  have hpath := harchived.path_eq (hrows ▸ hfiled.increasing) hold hnew hhead
    ((Nat.zero_le _).trans_lt (hfiled.last_lt_of_group hbatch (headD_mem hbatch.ne_nil)))
  have hsame : (groupAt s.batch event.key).2 = (groupAt s.loaded event.key).2 :=
    eq_of_prefix hnumbers (hnext.sorted hloaded) hbatch.ne_nil (segmentPath_inj hpath).2.2
  rw [show groupAt s.batch event.key = groupAt s.loaded event.key from Prod.ext rfl hsame]
  exact hnext

end ArchiveProcess.Archiving

open ArchiveProcess (Archiving)

theorem archiving_start (codec : Codec) : Archiving codec {} where
  filed :=
    { increasing := List.Pairwise.nil
      positive := List.forall_mem_nil _
      entries := rfl
      once := List.nodup_nil
      sorted := List.forall_mem_nil _
      known := List.forall_mem_nil _
      complete := List.forall_mem_nil _
      placed := List.forall_mem_nil _
      recorded := List.Perm.nil
      latest := List.forall_mem_nil _
      next := List.nil_prefix }
  running := fun hrunning => by cases hrunning
  starting := by
    rintro after ⟨rfl⟩
    exact ⟨rfl, rfl, Or.inl rfl⟩
  short := Nat.zero_le _
  written := ⟨[], rfl, rfl, List.forall_mem_nil _⟩

theorem archiving_run (codec : Codec) {steps : List ArchiveStep}
    (hrun : Along (fun s step => s.Intact codec step) (ArchiveProcess.step codec) {} steps) :
    Archiving codec (exec (ArchiveProcess.step codec) {} steps) :=
  hrun.invariant (fun _ _ hs hintact => hs.step hintact) (archiving_start codec)

/-- A start after a crash that fits ends, with every row archived. -/
theorem ArchiveProcess.Archiving.recover_archived {codec : Codec} {s : ArchiveProcess}
    (h : Archiving codec s) (hfits : s.Fits) :
    ∃ store, codec.recover s.store = .ok store ∧ store.rows = s.store.rows ∧
      store.Archived codec := by
  have hfiled := h.filed.load hfits
  obtain ⟨store, filed, hrecover, hrows, hrest, harchived⟩ := hfiled.recoverFrom _
    (Nat.lt_succ_of_le (List.length_filter_le _ _))
  exact ⟨store, hrecover, hrows, harchived.archived hrest⟩

/-- After any steps, with crashes among them, in which no event is claimed again and what is written
is as the rows are, the next start ends and leaves every row in one file, once, with its text, and
the segments of these files recorded, if and only if the files that were not recorded fit the rows
that it loads. -/
theorem recover_archived_iff (codec : Codec) {steps : List ArchiveStep}
    (hrun : Along (fun s step => s.Intact codec step) (ArchiveProcess.step codec) {} steps) :
    (∃ store, codec.recover (exec (ArchiveProcess.step codec) {} steps).store = .ok store ∧
        store.rows = (exec (ArchiveProcess.step codec) {} steps).store.rows ∧
        store.Archived codec) ↔
      (exec (ArchiveProcess.step codec) {} steps).Fits := by
  constructor
  · rintro ⟨store, hrecover, -, harchived⟩
    exact (archiving_run codec hrun).fits_of_archived hrecover harchived
  · exact (archiving_run codec hrun).recover_archived

/-! ## A crash between two files -/

def crashCodec : Codec where
  dumpJson event := toString event.sequence ++ " " ++ toString event.payload.length
  loadJson _ := none
  compress payload := payload
  decompress payload := some payload
  sha256 payload := toString payload.size

def crashEvent (sequence hour : Nat) : EventEnvelope :=
  { creation "X" with
    ingestSequence := some sequence
    blockTime := { (creation "X").blockTime with hour := hour } }

/-- Two rows of different hours; the process ends when the first has its file, and again. -/
def crashSteps : List ArchiveStep :=
  [.load, .claim [crashEvent 1 10, crashEvent 2 11], .take 5, .write, .crash, .load, .write]

theorem recover_archived_iff_sample :
    ∃ store,
      crashCodec.recover (exec (ArchiveProcess.step crashCodec) {} crashSteps).store =
          .ok store ∧
        store.rows = (exec (ArchiveProcess.step crashCodec) {} crashSteps).store.rows ∧
        store.Archived crashCodec :=
  (recover_archived_iff crashCodec (by decide +kernel)).mpr (by decide +kernel)

/-- An event that is claimed again is in two recorded segments. -/
example : ((exec (ArchiveProcess.step crashCodec) {}
    [.load, .claim [crashEvent 1 10], .take 1, .write, .record,
      .claim [crashEvent 1 10, crashEvent 2 10], .take 2, .write, .record]).store.segments.map
        fun segment => (segment.startSequence, segment.endSequence)) = [(1, 1), (1, 2)] := by
  decide +kernel

/-- A second row of the hour comes before the crash: the first will be in two files. -/
example : ¬ (exec (ArchiveProcess.step crashCodec) {}
    [.load, .claim [crashEvent 1 10], .take 5, .write, .claim [crashEvent 2 10]]).Fits := by
  decide +kernel

end SniperBot.Archive
