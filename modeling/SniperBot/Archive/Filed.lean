import SniperBot.Archive.Recovering
import SniperBot.Archive.RoundTrip

/-!
# The files and the rows

A file of the archive stands for the rows whose sequence numbers it was written with. `Filed` says
that this is so for all files, that no number is in two of them, that every row up to the last
recorded number is in one, and that the files beyond are those of groups of one batch, the events
that come next. A write of a group of this batch and the record of all its segments keep it.
-/

namespace SniperBot.Archive

open Basis

/-! ## Lists of events -/

/-- What no step changes of an event. -/
def EventEnvelope.stamp (event : EventEnvelope) : ArchiveKey × Option Nat :=
  (event.key, event.ingestSequence)

def Increasing (events : List EventEnvelope) : Prop := events.Pairwise (·.sequence < ·.sequence)

theorem sortBySequence_eq {events : List EventEnvelope} (h : Increasing events) :
    sortBySequence events = events :=
  List.Pairwise.insertionSort_eq (h.imp fun hlt => hlt.le)

theorem increasing_iff {events : List EventEnvelope} :
    Increasing events ↔ (events.map EventEnvelope.sequence).Pairwise (· < ·) :=
  List.pairwise_map.symm

theorem sequences_of_stamps {events others : List EventEnvelope}
    (h : events.map EventEnvelope.stamp = others.map EventEnvelope.stamp) :
    events.map EventEnvelope.sequence = others.map EventEnvelope.sequence := by
  have hmap := congrArg (List.map fun stamp : ArchiveKey × Option Nat => stamp.2.getD 0) h
  rw [List.map_map, List.map_map] at hmap
  exact hmap

theorem keys_of_stamps {events others : List EventEnvelope}
    (h : events.map EventEnvelope.stamp = others.map EventEnvelope.stamp) :
    (Dict.group EventEnvelope.key events).keys = (Dict.group EventEnvelope.key others).keys := by
  have hmap := congrArg (List.map Prod.fst) h
  rw [List.map_map, List.map_map] at hmap
  have hkeys : events.map EventEnvelope.key = others.map EventEnvelope.key := hmap
  exact Dict.keys_group_congr hkeys

theorem Increasing.nodup {events : List EventEnvelope} (h : Increasing events) :
    (events.map EventEnvelope.sequence).Nodup :=
  (increasing_iff.mp h).imp fun hlt => hlt.ne

theorem Increasing.eq {events : List EventEnvelope} (h : Increasing events)
    {event other : EventEnvelope} (hevent : event ∈ events) (hother : other ∈ events)
    (hsame : event.sequence = other.sequence) : event = other :=
  List.inj_on_of_nodup_map h.nodup hevent hother hsame

/-- The sequence numbers of a group of a batch. -/
def groupAt (events : List EventEnvelope) (key : ArchiveKey) : ArchiveKey × List Nat :=
  (key, (events.filter (·.key = key)).map EventEnvelope.sequence)

/-- The groups of a batch, by their sequence numbers. -/
def GroupOf (events : List EventEnvelope) (group : ArchiveKey × List Nat) : Prop :=
  ∃ event ∈ events, group = groupAt events event.key

theorem groupAt_snd (events : List EventEnvelope) (key : ArchiveKey) : (groupAt events key).2 =
    ((events.map EventEnvelope.stamp).filter (·.1 = key)).map fun stamp => stamp.2.getD 0 := by
  rw [List.filter_map, List.map_map]
  rfl

theorem groupAt_congr {events others : List EventEnvelope}
    (h : events.map EventEnvelope.stamp = others.map EventEnvelope.stamp) (key : ArchiveKey) :
    groupAt events key = groupAt others key := by
  refine Prod.ext rfl ?_
  rw [groupAt_snd, groupAt_snd, h]

theorem groupOf_congr {events others : List EventEnvelope}
    (h : events.map EventEnvelope.stamp = others.map EventEnvelope.stamp)
    {group : ArchiveKey × List Nat} (hgroup : GroupOf events group) : GroupOf others group := by
  obtain ⟨event, hevent, rfl⟩ := hgroup
  obtain ⟨other, hother, hstamp⟩ :=
    List.mem_map.mp (h ▸ List.mem_map_of_mem (f := EventEnvelope.stamp) hevent)
  refine ⟨other, hother, ?_⟩
  rw [groupAt_congr h, show other.key = event.key from congrArg Prod.fst hstamp]

theorem GroupOf.eq_of_key {events : List EventEnvelope} {group other : ArchiveKey × List Nat}
    (h : GroupOf events group) (hother : GroupOf events other) (hkey : group.1 = other.1) :
    group = other := by
  obtain ⟨event, -, rfl⟩ := h
  obtain ⟨another, -, rfl⟩ := hother
  exact congrArg (groupAt events) hkey

theorem GroupOf.mem {events : List EventEnvelope} {group : ArchiveKey × List Nat}
    (h : GroupOf events group) {n : Nat} :
    n ∈ group.2 ↔ ∃ event ∈ events, event.key = group.1 ∧ event.sequence = n := by
  obtain ⟨event, -, rfl⟩ := h
  simp only [groupAt, List.mem_map, List.mem_filter, decide_eq_true_eq, and_assoc]

theorem GroupOf.ne_nil {events : List EventEnvelope} {group : ArchiveKey × List Nat}
    (h : GroupOf events group) : group.2 ≠ [] := by
  obtain ⟨event, hevent, rfl⟩ := h
  have hmem : event ∈ events.filter (·.key = event.key) :=
    List.mem_filter.mpr ⟨hevent, decide_eq_true rfl⟩
  exact List.ne_nil_of_mem (List.mem_map_of_mem hmem)

/-- In a batch with distinct numbers, groups that share one are the same. -/
theorem GroupOf.eq_of_mem {events : List EventEnvelope} (hincreasing : Increasing events)
    {group other : ArchiveKey × List Nat} (h : GroupOf events group)
    (hother : GroupOf events other) {n : Nat} (hn : n ∈ group.2) (hn' : n ∈ other.2) :
    group = other := by
  obtain ⟨event, hevent, hkey, hsequence⟩ := h.mem.mp hn
  obtain ⟨another, hanother, hkey', hsequence'⟩ := hother.mem.mp hn'
  have hsame := hincreasing.eq hevent hanother (hsequence.trans hsequence'.symm)
  exact h.eq_of_key hother (hkey.symm.trans ((congrArg _ hsame).trans hkey'))

theorem GroupOf.sorted {events : List EventEnvelope} (hincreasing : Increasing events)
    {group : ArchiveKey × List Nat} (h : GroupOf events group) : group.2.Pairwise (· < ·) := by
  obtain ⟨event, -, rfl⟩ := h
  exact increasing_iff.mp (hincreasing.sublist List.filter_sublist)

/-! ## Files of rows -/

/-- The text of the row with a sequence number. -/
def Codec.line (codec : Codec) (rows : List EventEnvelope) (n : Nat) : String :=
  ((rows.find? (·.sequence = n)).map codec.dumpJson).getD ""

def segmentPath (key : ArchiveKey) (startSequence endSequence : Nat) : Path :=
  [key.day, key.hour, protocolValue key.protocol, segmentName startSequence endSequence]

/-- The path of the file of a group, and its range. -/
def rangeOf (group : ArchiveKey × List Nat) : Path × Nat × Nat :=
  (segmentPath group.1 (group.2.headD 0) (group.2.getLastD 0), group.2.headD 0, group.2.getLastD 0)

def RawArchiveSegment.range (segment : RawArchiveSegment) : Path × Nat × Nat :=
  (segment.path, segment.startSequence, segment.endSequence)

/-- The file of the rows with some sequence numbers. -/
def Codec.rowFile (codec : Codec) (rows : List EventEnvelope) (group : ArchiveKey × List Nat) :
    Path × ByteArray :=
  ((rangeOf group).1,
    codec.compress (String.join (group.2.map fun n => codec.line rows n ++ "\n")).toUTF8)

/-- The segment of the rows with some sequence numbers. -/
def Codec.rowSegment (codec : Codec) (rows : List EventEnvelope) (group : ArchiveKey × List Nat) :
    RawArchiveSegment where
  path := (rangeOf group).1
  startSequence := group.2.headD 0
  endSequence := group.2.getLastD 0
  eventCount := group.2.length
  checksumSha256 := codec.sha256 (codec.rowFile rows group).2
  protocol := group.1.protocol

/-- A row has the number and the text of the event. -/
def Store.Holds (codec : Codec) (store : Store) (event : EventEnvelope) : Prop :=
  ∃ row ∈ store.rows, row.sequence = event.sequence ∧ codec.dumpJson row = codec.dumpJson event

theorem find?_sequence {rows : List EventEnvelope} (h : Increasing rows) {row : EventEnvelope}
    (hrow : row ∈ rows) : rows.find? (·.sequence = row.sequence) = some row := by
  cases hfind : rows.find? (·.sequence = row.sequence) with
  | none => exact absurd (decide_eq_true rfl) (List.find?_eq_none.mp hfind row hrow)
  | some found =>
      have hsame := List.find?_some hfind
      rw [h.eq (List.mem_of_find?_eq_some hfind) hrow (of_decide_eq_true hsame)]

theorem line_eq {rows : List EventEnvelope} (h : Increasing rows) (codec : Codec)
    {row : EventEnvelope} (hrow : row ∈ rows) : codec.line rows row.sequence = codec.dumpJson row := by
  rw [Codec.line, find?_sequence h hrow]
  rfl

theorem sequenced_range (codec : Codec) (key : ArchiveKey) {members : List EventEnvelope}
    (hmembers : Increasing members) : (codec.sequenced key members).segment.range =
      rangeOf (key, members.map EventEnvelope.sequence) := by
  have hhead : startSequence members = (members.map EventEnvelope.sequence).headD 0 := by
    unfold startSequence
    rw [List.headD_eq_head?_getD, List.head?_map]
  have hlast : endSequence members = (members.map EventEnvelope.sequence).getLastD 0 := by
    unfold endSequence
    rw [List.getLastD_eq_getLast?, List.getLast?_map]
  unfold RawArchiveSegment.range rangeOf Codec.sequenced Codec.segmentAt segmentPath
  dsimp only
  rw [sortBySequence_eq hmembers, hhead, hlast]

theorem sequenced_payload {codec : Codec} {store : Store} (hrows : Increasing store.rows)
    (key : ArchiveKey) {members : List EventEnvelope} (hmembers : Increasing members)
    (hholds : ∀ event ∈ members, store.Holds codec event) :
    (codec.sequenced key members).payload =
      (codec.rowFile store.rows (key, members.map EventEnvelope.sequence)).2 := by
  have hlines : (members.map EventEnvelope.sequence).map
      (fun n => codec.line store.rows n ++ "\n") =
        members.map fun event => codec.dumpJson event ++ "\n" := by
    rw [List.map_map]
    refine List.map_congr_left fun event hevent => ?_
    obtain ⟨row, hrow, hsequence, htext⟩ := hholds event hevent
    rw [Function.comp_apply, ← hsequence, line_eq hrows codec hrow, htext]
  unfold Codec.rowFile Codec.sequenced Codec.segmentAt Codec.serialized
  dsimp only
  rw [sortBySequence_eq hmembers, hlines]

/-- The segment of events that are as their rows are is that of the rows. -/
theorem sequenced_segment {codec : Codec} {store : Store} (hrows : Increasing store.rows)
    (key : ArchiveKey) {members : List EventEnvelope} (hmembers : Increasing members)
    (hholds : ∀ event ∈ members, store.Holds codec event) :
    (codec.sequenced key members).segment =
      codec.rowSegment store.rows (key, members.map EventEnvelope.sequence) := by
  obtain ⟨hpath, hrange⟩ := Prod.mk.inj (sequenced_range codec key hmembers)
  obtain ⟨hstart, hend⟩ := Prod.mk.inj hrange
  have hcount : (codec.sequenced key members).segment.eventCount =
      (members.map EventEnvelope.sequence).length := by
    rw [List.length_map]
    exact (List.perm_insertionSort _ _).length_eq
  have hchecksum := congrArg codec.sha256 (sequenced_payload hrows key hmembers hholds)
  unfold Codec.rowSegment
  rw [RawArchiveSegment.mk.injEq]
  exact ⟨hpath, hstart, hend, hcount, hchecksum, rfl⟩

theorem padded_injective (width : Nat) : Function.Injective fun n => (padded width n).toList := by
  have hread : Function.LeftInverse (fun chars : List Char => Nat.ofDigitChars 10 chars 0)
      fun n => (padded width n).toList := by
    intro n
    unfold padded
    dsimp only
    rw [String.toList_ofList, Nat.ofDigitChars_append, Nat.ofDigitChars_replicate_zero, Nat.mul_zero,
      Nat.ofDigitChars_ten_toDigits]
  exact hread.injective

theorem notMem_padded {width n : Nat} : '-' ∉ (padded width n).toList := by
  unfold padded
  rw [String.toList_ofList, List.mem_append]
  rintro (h | h)
  · exact absurd (List.eq_of_mem_replicate h) (by decide)
  · exact absurd (Nat.isDigit_of_mem_toDigits (by decide) (by decide) h) (by decide)

/-- The path of a file says which group it is of, and its first and last number. -/
theorem segmentPath_inj {key key' : ArchiveKey} {a b a' b' : Nat}
    (h : segmentPath key a b = segmentPath key' a' b') : key = key' ∧ a = a' ∧ b = b' := by
  obtain ⟨hday, h⟩ := List.cons.inj h
  obtain ⟨hhour, h⟩ := List.cons.inj h
  obtain ⟨hprotocol, h⟩ := List.cons.inj h
  have hname := congrArg String.toList (List.cons.inj h).1
  unfold segmentName at hname
  simp only [String.toList_append, List.append_assoc] at hname
  rw [show "-".toList = ['-'] from rfl, List.singleton_append, List.singleton_append] at hname
  have hrest : '-' ∉ (padded 20 b).toList ++ ".ndjson.zst".toList := by
    rw [List.mem_append, not_or]
    exact ⟨notMem_padded, by decide⟩
  obtain ⟨hstart, -, hend⟩ := (List.append_cons_inj_of_notMem notMem_padded hrest).mp hname
  have hkey : key = key' := by
    cases key
    cases key'
    exact ArchiveKey.mk.injEq .. ▸ ⟨hday, hhour, protocolValue_inj hprotocol⟩
  exact ⟨hkey, padded_injective 20 hstart, padded_injective 20 (List.append_cancel_right hend)⟩

/-! ## Greatest numbers -/

theorem foldl_max_le_iff {numbers : List Nat} {a n : Nat} :
    numbers.foldl max a ≤ n ↔ a ≤ n ∧ ∀ m ∈ numbers, m ≤ n := by
  induction numbers generalizing a with
  | nil => simp
  | cons m numbers ih =>
      rw [List.foldl_cons, ih, max_le_iff, List.forall_mem_cons, and_assoc]

theorem lastArchivedSequence_le_iff {store : Store} {n : Nat} :
    store.lastArchivedSequence ≤ n ↔ ∀ segment ∈ store.segments, segment.endSequence ≤ n := by
  unfold Store.lastArchivedSequence
  rw [foldl_max_le_iff, List.forall_mem_map]
  exact and_iff_right (Nat.zero_le n)

theorem maxSequence_le_iff {events : List EventEnvelope} {n : Nat} :
    maxSequence events ≤ n ↔ ∀ event ∈ events, event.sequence ≤ n := by
  unfold maxSequence
  rw [foldl_max_le_iff, List.forall_mem_map]
  exact and_iff_right (Nat.zero_le n)

theorem le_lastArchivedSequence {store : Store} {segment : RawArchiveSegment}
    (h : segment ∈ store.segments) : segment.endSequence ≤ store.lastArchivedSequence :=
  lastArchivedSequence_le_iff.mp le_rfl segment h

theorem le_maxSequence {events : List EventEnvelope} {event : EventEnvelope} (h : event ∈ events) :
    event.sequence ≤ maxSequence events :=
  maxSequence_le_iff.mp le_rfl event h

theorem maxSequence_lt {events : List EventEnvelope} {n : Nat} (hn : 0 < n)
    (h : ∀ event ∈ events, event.sequence < n) : maxSequence events < n := by
  have hle : maxSequence events ≤ n - 1 :=
    maxSequence_le_iff.mpr fun event hevent => Nat.le_sub_one_of_lt (h event hevent)
  omega

theorem getLastD_mem {numbers : List Nat} (h : numbers ≠ []) : numbers.getLastD 0 ∈ numbers := by
  rw [List.getLastD_eq_getLast?, List.getLast?_eq_some_getLast h]
  exact List.getLast_mem h

/-- The last of increasing numbers is the greatest. -/
theorem le_getLastD {numbers : List Nat} (h : numbers.Pairwise (· < ·)) {n : Nat}
    (hn : n ∈ numbers) : n ≤ numbers.getLastD 0 := by
  obtain ⟨front, last, rfl⟩ : ∃ front last, numbers = front ++ [last] :=
    ⟨_, _, (List.dropLast_append_getLast (List.ne_nil_of_mem hn)).symm⟩
  rw [List.getLastD_concat]
  rcases List.mem_append.mp hn with hfront | hn
  · exact ((List.pairwise_append.mp h).2.2 n hfront last List.mem_cons_self).le
  · exact (List.mem_singleton.mp hn).le

theorem headD_mem {numbers : List Nat} (h : numbers ≠ []) : numbers.headD 0 ∈ numbers := by
  cases numbers with
  | nil => exact absurd rfl h
  | cons n numbers => exact List.mem_cons_self

/-! ## Stores and what was filed -/

/-- The rows after the last recorded number. -/
def Store.rest (store : Store) : List EventEnvelope :=
  store.rows.filter (store.lastArchivedSequence < ·.sequence)

/-- The groups with files that hold no number beyond the last recorded one. -/
def Store.recordedGroups (store : Store) (filed : List (ArchiveKey × List Nat)) :
    List (ArchiveKey × List Nat) :=
  filed.filter fun group => ∀ n ∈ group.2, n ≤ store.lastArchivedSequence

/-- The files are those of the groups `filed`, each number in one of them; the rows up to the last
recorded number have files and these are the recorded segments, and the other files are of groups of
`current`, the next events. -/
structure Filed (codec : Codec) (store : Store) (filed : List (ArchiveKey × List Nat))
    (current : List EventEnvelope) : Prop where
  increasing : Increasing store.rows
  positive : ∀ row ∈ store.rows, 0 < row.sequence
  entries : store.files.entries = filed.map (codec.rowFile store.rows)
  once : (filed.flatMap Prod.snd).Nodup
  sorted : ∀ group ∈ filed, group.2 ≠ [] ∧ group.2.Pairwise (· < ·)
  known : ∀ group ∈ filed, ∀ n ∈ group.2,
    ∃ row ∈ store.rows, row.sequence = n ∧ row.key = group.1
  complete : ∀ row ∈ store.rows, row.sequence ≤ store.lastArchivedSequence →
    row.sequence ∈ filed.flatMap Prod.snd
  placed : ∀ segment ∈ store.segments, segment.endSequence ∈ store.rows.map EventEnvelope.sequence ∧
    ∃ key, segment.path = segmentPath key segment.startSequence segment.endSequence
  recorded : store.segments.Perm ((store.recordedGroups filed).map (codec.rowSegment store.rows))
  latest : ∀ group ∈ filed, (∀ n ∈ group.2, n ≤ store.lastArchivedSequence) ∨ GroupOf current group
  next : current.map EventEnvelope.stamp <+: store.rest.map EventEnvelope.stamp

namespace Filed

variable {codec : Codec} {store : Store} {filed : List (ArchiveKey × List Nat)}
  {current : List EventEnvelope}

theorem filter_rest {last : Nat} (hlast : store.lastArchivedSequence ≤ last) :
    store.rest.filter (last < ·.sequence) = store.rows.filter (last < ·.sequence) := by
  unfold Store.rest
  rw [List.filter_filter]
  refine List.filter_congr fun row _ => ?_
  rw [← Bool.decide_and]
  exact decide_eq_decide.mpr ⟨And.left, fun h => ⟨h, hlast.trans_lt h⟩⟩

theorem increasing_rest (h : Filed codec store filed current) : Increasing store.rest :=
  h.increasing.sublist List.filter_sublist

theorem increasing_current (h : Filed codec store filed current) : Increasing current := by
  have hinit := h.next.map fun stamp : ArchiveKey × Option Nat => stamp.2.getD 0
  rw [List.map_map, List.map_map] at hinit
  exact increasing_iff.mpr ((increasing_iff.mp h.increasing_rest).sublist hinit.sublist)

/-- An event of the batch has the stamp of a row that is not recorded. -/
theorem exists_row (h : Filed codec store filed current) {event : EventEnvelope}
    (hevent : event ∈ current) : ∃ row ∈ store.rows,
      store.lastArchivedSequence < row.sequence ∧ row.stamp = event.stamp := by
  obtain ⟨row, hrow, hstamp⟩ := List.mem_map.mp (h.next.subset (List.mem_map_of_mem hevent))
  obtain ⟨hrow, hlt⟩ := List.mem_filter.mp hrow
  exact ⟨row, hrow, of_decide_eq_true hlt, hstamp⟩

theorem sequence_of_stamp {event other : EventEnvelope} (h : event.stamp = other.stamp) :
    event.sequence = other.sequence :=
  congrArg (fun stamp : ArchiveKey × Option Nat => stamp.2.getD 0) h

theorem last_lt (h : Filed codec store filed current) {event : EventEnvelope}
    (hevent : event ∈ current) : store.lastArchivedSequence < event.sequence := by
  obtain ⟨row, -, hlt, hstamp⟩ := h.exists_row hevent
  exact sequence_of_stamp hstamp ▸ hlt

theorem last_lt_of_group (h : Filed codec store filed current) {group : ArchiveKey × List Nat}
    (hgroup : GroupOf current group) {n : Nat} (hn : n ∈ group.2) :
    store.lastArchivedSequence < n := by
  obtain ⟨event, hevent, -, rfl⟩ := hgroup.mem.mp hn
  exact h.last_lt hevent

theorem sequenced (h : Filed codec store filed current) {event : EventEnvelope}
    (hevent : event ∈ current) : event.ingestSequence ≠ none := by
  intro hnone
  have hlt := h.last_lt hevent
  unfold EventEnvelope.sequence at hlt
  rw [hnone, Option.getD_none] at hlt
  exact absurd hlt (Nat.not_lt_zero _)

/-- A filed group that has the path of a group of the batch is this group. -/
theorem eq_of_path (h : Filed codec store filed current) {group other : ArchiveKey × List Nat}
    (hgroup : GroupOf current group) (hother : other ∈ filed)
    (hpath : (rangeOf other).1 = (rangeOf group).1) : other = group := by
  obtain ⟨hkey, hhead, -⟩ := segmentPath_inj hpath
  rcases h.latest other hother with hold | hlatest
  · have hle := hold _ (headD_mem (h.sorted other hother).1)
    rw [hhead] at hle
    exact absurd hle (h.last_lt_of_group hgroup (headD_mem hgroup.ne_nil)).not_ge
  · exact hlatest.eq_of_key hgroup hkey

theorem nodup (h : Filed codec store filed current) : filed.Nodup := by
  refine (List.nodup_flatMap.mp h.once).2.imp_of_mem ?_
  rintro group _ hgroup - hdisjoint rfl
  obtain ⟨n, hn⟩ := List.exists_mem_of_ne_nil _ (h.sorted group hgroup).1
  exact hdisjoint hn hn

/-- Rows and groups that look the same to the batch. -/
theorem congr (h : Filed codec store filed current) {events : List EventEnvelope}
    (hsame : current.map EventEnvelope.stamp = events.map EventEnvelope.stamp) :
    Filed codec store filed events :=
  { h with
    latest := fun group hgroup => (h.latest group hgroup).imp_right (groupOf_congr hsame)
    next := hsame ▸ h.next }

/-! ## Rows -/

section Rows

variable {rows : List EventEnvelope}

/-- A file is that of other rows with the same numbers and texts. -/
theorem rowFile_congr (h : Filed codec store filed current) (hrows : Increasing rows)
    (hsame : ∀ row ∈ store.rows, row.sequence ∈ filed.flatMap Prod.snd →
      ∃ other ∈ rows, other.sequence = row.sequence ∧ codec.dumpJson other = codec.dumpJson row)
    {group : ArchiveKey × List Nat} (hgroup : group ∈ filed) :
    codec.rowFile store.rows group = codec.rowFile rows group := by
  have hlines : ∀ n ∈ group.2, codec.line store.rows n ++ "\n" = codec.line rows n ++ "\n" := by
    intro n hn
    have hfiled : n ∈ filed.flatMap Prod.snd := List.mem_flatMap.mpr ⟨group, hgroup, hn⟩
    obtain ⟨row, hrow, rfl, -⟩ := h.known group hgroup n hn
    obtain ⟨other, hother, hsequence, htext⟩ := hsame row hrow hfiled
    rw [line_eq h.increasing codec hrow, ← hsequence, line_eq hrows codec hother, htext]
  unfold Codec.rowFile
  rw [List.map_congr_left hlines]

theorem rowSegment_congr (h : Filed codec store filed current) (hrows : Increasing rows)
    (hsame : ∀ row ∈ store.rows, row.sequence ∈ filed.flatMap Prod.snd →
      ∃ other ∈ rows, other.sequence = row.sequence ∧ codec.dumpJson other = codec.dumpJson row)
    {group : ArchiveKey × List Nat} (hgroup : group ∈ filed) :
    codec.rowSegment store.rows group = codec.rowSegment rows group := by
  unfold Codec.rowSegment
  rw [h.rowFile_congr hrows hsame hgroup]

theorem entries_congr (h : Filed codec store filed current) (hrows : Increasing rows)
    (hsame : ∀ row ∈ store.rows, row.sequence ∈ filed.flatMap Prod.snd →
      ∃ other ∈ rows, other.sequence = row.sequence ∧ codec.dumpJson other = codec.dumpJson row) :
    store.files.entries = filed.map (codec.rowFile rows) :=
  h.entries.trans (List.map_congr_left fun _ hgroup => h.rowFile_congr hrows hsame hgroup)

theorem recorded_congr (h : Filed codec store filed current) (hrows : Increasing rows)
    (hsame : ∀ row ∈ store.rows, row.sequence ∈ filed.flatMap Prod.snd →
      ∃ other ∈ rows, other.sequence = row.sequence ∧ codec.dumpJson other = codec.dumpJson row) :
    store.segments.Perm ((store.recordedGroups filed).map (codec.rowSegment rows)) :=
  h.recorded.trans (List.Perm.of_eq (List.map_congr_left fun _ hgroup =>
    h.rowSegment_congr hrows hsame (List.mem_of_mem_filter hgroup)))

end Rows

section Claiming

variable {events : List EventEnvelope}

theorem last_lt_fresh (h : Filed codec store filed current)
    (hfresh : FreshEvents store.rows events) {event : EventEnvelope} (hevent : event ∈ events) :
    store.lastArchivedSequence < event.sequence := by
  have hpositive := hfresh.2.2 event hevent
  have hle : store.lastArchivedSequence ≤ event.sequence - 1 := by
    refine lastArchivedSequence_le_iff.mpr fun segment hsegment => ?_
    obtain ⟨row, hrow, hend⟩ := List.mem_map.mp (h.placed segment hsegment).1
    exact hend ▸ Nat.le_sub_one_of_lt ((hfresh.1 event hevent).2 row hrow)
  omega

theorem rest_claim (h : Filed codec store filed current) (hfresh : FreshEvents store.rows events) :
    ({ store with rows := store.rows ++ events } : Store).rest = store.rest ++ events := by
  have hnew : events.filter (store.lastArchivedSequence < ·.sequence) = events :=
    List.filter_eq_self.mpr fun event hevent => decide_eq_true (h.last_lt_fresh hfresh hevent)
  rw [Store.rest, List.filter_append]
  exact congrArg _ hnew

/-- Rows with new sequence numbers are added. -/
theorem claim (h : Filed codec store filed current) (hfresh : FreshEvents store.rows events) :
    Filed codec { store with rows := store.rows ++ events } filed current := by
  have hincreasing : Increasing (store.rows ++ events) :=
    List.pairwise_append.mpr ⟨h.increasing, increasing_iff.mpr hfresh.2.1,
      fun row hrow event hevent => (hfresh.1 event hevent).2 row hrow⟩
  have hsame : ∀ row ∈ store.rows, row.sequence ∈ filed.flatMap Prod.snd →
      ∃ other ∈ store.rows ++ events,
        other.sequence = row.sequence ∧ codec.dumpJson other = codec.dumpJson row :=
    fun row hrow _ => ⟨row, List.mem_append_left _ hrow, rfl, rfl⟩
  refine { h with
    increasing := hincreasing, positive := ?_, entries := h.entries_congr hincreasing hsame,
    known := ?_, complete := ?_, placed := ?_, recorded := h.recorded_congr hincreasing hsame,
    next := ?_ }
  · intro row hrow
    rcases List.mem_append.mp hrow with hrow | hrow
    · exact h.positive row hrow
    · exact hfresh.2.2 row hrow
  · intro group hgroup n hn
    obtain ⟨row, hrow, hsame⟩ := h.known group hgroup n hn
    exact ⟨row, List.mem_append_left _ hrow, hsame⟩
  · intro row hrow hle
    rcases List.mem_append.mp hrow with hrow | hrow
    · exact h.complete row hrow hle
    · exact absurd hle (h.last_lt_fresh hfresh hrow).not_ge
  · intro segment hsegment
    obtain ⟨hend, hkey⟩ := h.placed segment hsegment
    rw [List.map_append]
    exact ⟨List.mem_append_left _ hend, hkey⟩
  · rw [h.rest_claim hfresh, List.map_append]
    exact h.next.trans (List.prefix_append _ _)

end Claiming

theorem rest_change {rows : List EventEnvelope}
    (hstamps : rows.map EventEnvelope.stamp = store.rows.map EventEnvelope.stamp) :
    ({ store with rows := rows } : Store).rest.map EventEnvelope.stamp =
      store.rest.map EventEnvelope.stamp := by
  have hfilter : ∀ events : List EventEnvelope,
      (events.filter (store.lastArchivedSequence < ·.sequence)).map EventEnvelope.stamp =
        (events.map EventEnvelope.stamp).filter fun stamp =>
          store.lastArchivedSequence < stamp.2.getD 0 := by
    intro events
    rw [List.filter_map]
    rfl
  exact (hfilter rows).trans (hstamps ▸ (hfilter store.rows).symm)

/-- Rows change, but not their stamps, and not the texts that have files. -/
theorem change (h : Filed codec store filed current) {rows : List EventEnvelope}
    (hstamps : rows.map EventEnvelope.stamp = store.rows.map EventEnvelope.stamp)
    (hsame : ∀ row ∈ store.rows, row.sequence ∈ filed.flatMap Prod.snd →
      ∃ other ∈ rows, other.sequence = row.sequence ∧ codec.dumpJson other = codec.dumpJson row) :
    Filed codec { store with rows := rows } filed current := by
  have hsequences := sequences_of_stamps hstamps
  have hincreasing : Increasing rows :=
    increasing_iff.mpr (hsequences ▸ increasing_iff.mp h.increasing)
  have hold : ∀ row ∈ rows, ∃ old ∈ store.rows, old.sequence = row.sequence := by
    intro row hrow
    exact List.mem_map.mp (hsequences ▸ List.mem_map_of_mem (f := EventEnvelope.sequence) hrow)
  refine { h with
    increasing := hincreasing, positive := ?_, entries := h.entries_congr hincreasing hsame,
    known := ?_, complete := ?_, placed := ?_, recorded := h.recorded_congr hincreasing hsame,
    next := ?_ }
  · intro row hrow
    obtain ⟨old, hmem, hsequence⟩ := hold row hrow
    exact hsequence ▸ h.positive old hmem
  · intro group hgroup n hn
    obtain ⟨old, hmem, hsequence, hkey⟩ := h.known group hgroup n hn
    obtain ⟨row, hrow, hstamp⟩ :=
      List.mem_map.mp (hstamps ▸ List.mem_map_of_mem (f := EventEnvelope.stamp) hmem)
    exact ⟨row, hrow, (sequence_of_stamp hstamp).trans hsequence,
      (congrArg Prod.fst hstamp).trans hkey⟩
  · intro row hrow hle
    obtain ⟨old, hmem, hsequence⟩ := hold row hrow
    rw [← hsequence] at hle ⊢
    exact h.complete old hmem hle
  · exact fun segment hsegment => hsequences ▸ h.placed segment hsegment
  · exact rest_change hstamps ▸ h.next

/-! ## Writing -/

/-- The file of a new group of the batch is added. -/
theorem add (h : Filed codec store filed current) {group : ArchiveKey × List Nat}
    (hgroup : GroupOf current group) (hnew : group ∉ filed) {files : Files}
    (hfiles : files.entries = store.files.entries ++ [codec.rowFile store.rows group]) :
    Filed codec { store with files := files } (filed ++ [group]) current where
  increasing := h.increasing
  positive := h.positive
  entries := by rw [hfiles, h.entries, List.map_append, List.map_singleton]
  once := by
    rw [List.flatMap_append, List.flatMap_singleton, List.nodup_append]
    refine ⟨h.once, (hgroup.sorted h.increasing_current).imp fun hlt => hlt.ne, ?_⟩
    rintro n hn m hm rfl
    obtain ⟨other, hother, hn⟩ := List.mem_flatMap.mp hn
    rcases h.latest other hother with hold | hlatest
    · exact absurd (hold n hn) (h.last_lt_of_group hgroup hm).not_ge
    · exact hnew (hlatest.eq_of_mem h.increasing_current hgroup hn hm ▸ hother)
  sorted := by
    intro other hother
    rcases List.mem_append.mp hother with hother | hother
    · exact h.sorted other hother
    · rw [List.mem_singleton.mp hother]
      exact ⟨hgroup.ne_nil, hgroup.sorted h.increasing_current⟩
  known := by
    intro other hother n hn
    rcases List.mem_append.mp hother with hother | hother
    · exact h.known other hother n hn
    · rw [List.mem_singleton.mp hother] at hn ⊢
      obtain ⟨event, hevent, hkey, rfl⟩ := hgroup.mem.mp hn
      obtain ⟨row, hrow, -, hstamp⟩ := h.exists_row hevent
      exact ⟨row, hrow, sequence_of_stamp hstamp, (congrArg Prod.fst hstamp).trans hkey⟩
  complete := by
    intro row hrow hle
    rw [List.flatMap_append]
    exact List.mem_append_left _ (h.complete row hrow hle)
  placed := h.placed
  recorded := by
    have hbeyond : ¬ ∀ n ∈ group.2, n ≤ store.lastArchivedSequence := fun hle =>
      absurd (hle _ (headD_mem hgroup.ne_nil))
        (h.last_lt_of_group hgroup (headD_mem hgroup.ne_nil)).not_ge
    have hgroups : store.recordedGroups (filed ++ [group]) = store.recordedGroups filed := by
      unfold Store.recordedGroups
      rw [List.filter_append, List.filter_singleton, decide_eq_false hbeyond]
      exact List.append_nil _
    rw [show ({ store with files := files } : Store).recordedGroups (filed ++ [group]) = _ from
      hgroups]
    exact h.recorded
  latest := by
    intro other hother
    rcases List.mem_append.mp hother with hother | hother
    · exact h.latest other hother
    · exact Or.inr (List.mem_singleton.mp hother ▸ hgroup)
  next := h.next

/-- A group of the batch gets a file, unless it has one. -/
theorem write (h : Filed codec store filed current) {key : ArchiveKey}
    {members : List EventEnvelope} (hmembers : members = current.filter (·.key = key))
    (hne : members ≠ []) (hholds : ∀ event ∈ members, store.Holds codec event) :
    codec.prepare key members = .ok (codec.sequenced key members) ∧
      (codec.sequenced key members).segment =
        codec.rowSegment store.rows (groupAt current key) ∧
      ∃ files, codec.writeAtomicSegment store.files (codec.sequenced key members) = .ok files ∧
        ∃ filed', filed' =
            (if (store.files.get? (codec.sequenced key members).segment.path).isSome then filed
              else filed ++ [groupAt current key]) ∧
          Filed codec { store with files := files } filed' current ∧
            groupAt current key ∈ filed' := by
  have hgroup : GroupOf current (groupAt current key) := by
    obtain ⟨event, hevent⟩ := List.exists_mem_of_ne_nil _ hne
    obtain ⟨hevent, hkey⟩ := List.mem_filter.mp (hmembers ▸ hevent)
    exact ⟨event, hevent, by rw [of_decide_eq_true hkey]⟩
  have hincreasing : Increasing members :=
    hmembers ▸ h.increasing_current.sublist List.filter_sublist
  have hsegment : (codec.sequenced key members).segment =
      codec.rowSegment store.rows (groupAt current key) := by
    rw [groupAt, ← hmembers]
    exact sequenced_segment h.increasing key hincreasing hholds
  have hpath : (codec.sequenced key members).segment.path = (rangeOf (groupAt current key)).1 :=
    congrArg RawArchiveSegment.path hsegment
  have hpayload : (codec.sequenced key members).payload =
      (codec.rowFile store.rows (groupAt current key)).2 := by
    rw [groupAt, ← hmembers]
    exact sequenced_payload h.increasing key hincreasing hholds
  have hfile : ((codec.sequenced key members).segment.path, (codec.sequenced key members).payload) =
      codec.rowFile store.rows (groupAt current key) := Prod.ext hpath hpayload
  have hsequenced : ∀ event ∈ members, event.ingestSequence ≠ none := by
    intro event hevent
    rw [hmembers] at hevent
    exact h.sequenced (List.mem_of_mem_filter hevent)
  refine ⟨if_pos hsequenced, hsegment, ?_⟩
  unfold Codec.writeAtomicSegment
  cases hget : store.files.get? (codec.sequenced key members).segment.path with
  | some existing =>
      have hmem := Dict.mem_entries.mpr hget
      rw [h.entries] at hmem
      obtain ⟨other, hother, hentry⟩ := List.mem_map.mp hmem
      obtain ⟨hotherPath, hotherPayload⟩ := Prod.mk.inj hentry
      have hsame := h.eq_of_path hgroup hother (hotherPath.trans hpath)
      subst hsame
      have hchecksum : codec.sha256 existing =
          (codec.sequenced key members).segment.checksumSha256 := by
        rw [← hotherPayload]
        exact congrArg codec.sha256 hpayload.symm
      refine ⟨store.files, ?_, _, rfl, h, hother⟩
      dsimp only
      rw [if_neg (not_not_intro hchecksum)]
      rfl
  | none =>
      have hnew : groupAt current key ∉ filed := by
        intro hfiled
        have hentry : codec.rowFile store.rows (groupAt current key) ∈ store.files.entries :=
          h.entries ▸ List.mem_map_of_mem hfiled
        rw [← hfile] at hentry
        rw [Dict.mem_entries.mp hentry] at hget
        cases hget
      refine ⟨_, rfl, _, rfl, h.add hgroup hnew ?_, List.mem_append_right _ List.mem_cons_self⟩
      rw [Dict.entries_set_new hget, hfile]

/-! ## Recording -/

/-- Segments with new paths are all recorded. -/
theorem recordRawArchiveSegments_new {recorded segments : List RawArchiveSegment}
    (hstart : ∀ segment ∈ segments, segment.startSequence ≠ 0)
    (hpaths : (segments.map (·.path)).Nodup)
    (hnew : ∀ segment ∈ segments, ∀ other ∈ recorded, other.path ≠ segment.path) :
    recordRawArchiveSegments recorded segments = .ok (recorded ++ segments) := by
  induction segments generalizing recorded with
  | nil => rw [List.append_nil]; rfl
  | cons segment segments ih =>
      rw [List.map_cons, List.nodup_cons] at hpaths
      have hfind : recorded.find? (·.path = segment.path) = none :=
        List.find?_eq_none.mpr fun other hother => by
          simpa using hnew segment List.mem_cons_self other hother
      have hrest : ∀ later ∈ segments, ∀ other ∈ recorded ++ [segment], other.path ≠ later.path := by
        intro later hlater other hother
        rcases List.mem_append.mp hother with hother | hother
        · exact hnew later (List.mem_cons_of_mem _ hlater) other hother
        · rw [List.mem_singleton.mp hother]
          exact fun heq => hpaths.1 (List.mem_map.mpr ⟨later, hlater, heq.symm⟩)
      rw [recordRawArchiveSegments, if_neg (hstart segment List.mem_cons_self), hfind]
      dsimp only
      rw [ih (fun later hlater => hstart later (List.mem_cons_of_mem _ hlater)) hpaths.2 hrest,
        List.append_assoc, List.singleton_append]

/-- The rows beyond a batch are beyond its greatest number. -/
theorem maxSequence_lt_later (h : Filed codec store filed current) {later : List EventEnvelope}
    (hrest : (current ++ later).map EventEnvelope.stamp = store.rest.map EventEnvelope.stamp)
    {event : EventEnvelope} (hevent : event ∈ later) : maxSequence current < event.sequence := by
  have hsorted := increasing_iff.mp h.increasing_rest
  rw [← sequences_of_stamps hrest, List.map_append] at hsorted
  have hstamp := List.mem_map_of_mem (f := EventEnvelope.stamp) (List.mem_append_right current hevent)
  rw [hrest] at hstamp
  obtain ⟨row, hrow, hsame⟩ := List.mem_map.mp hstamp
  have hpositive := h.positive row (List.mem_of_mem_filter hrow)
  rw [sequence_of_stamp hsame] at hpositive
  exact maxSequence_lt hpositive fun earlier hearlier => (List.pairwise_append.mp hsorted).2.2 _
    (List.mem_map_of_mem hearlier) _ (List.mem_map_of_mem hevent)

theorem exists_later (h : Filed codec store filed current) : ∃ later,
    (current ++ later).map EventEnvelope.stamp = store.rest.map EventEnvelope.stamp := by
  obtain ⟨stamps, hstamps⟩ := h.next
  refine ⟨store.rest.drop current.length, ?_⟩
  rw [List.map_append, List.map_drop, ← hstamps, List.drop_left' (List.length_map _)]

/-- Rows up to the greatest number of the batch are recorded or in the batch. -/
theorem mem_current (h : Filed codec store filed current) {row : EventEnvelope}
    (hrow : row ∈ store.rows) (hlt : store.lastArchivedSequence < row.sequence)
    (hle : row.sequence ≤ maxSequence current) : ∃ event ∈ current, row.stamp = event.stamp := by
  obtain ⟨later, hlater⟩ := h.exists_later
  have hrest : row ∈ store.rest := List.mem_filter.mpr ⟨hrow, decide_eq_true hlt⟩
  have hstamp := List.mem_map_of_mem (f := EventEnvelope.stamp) hrest
  rw [← hlater] at hstamp
  obtain ⟨event, hevent, hsame⟩ := List.mem_map.mp hstamp
  rcases List.mem_append.mp hevent with hevent | hevent
  · exact ⟨event, hevent, hsame.symm⟩
  · have hbeyond := h.maxSequence_lt_later hlater hevent
    rw [sequence_of_stamp hsame] at hbeyond
    exact absurd hle hbeyond.not_ge

/-- What is beyond a recorded batch is left. -/
theorem rest_beyond (h : Filed codec store filed current) {later : List EventEnvelope}
    (hrest : (current ++ later).map EventEnvelope.stamp = store.rest.map EventEnvelope.stamp)
    (hne : current ≠ []) : later.map EventEnvelope.stamp =
      (store.rows.filter (maxSequence current < ·.sequence)).map EventEnvelope.stamp := by
  have hlast : store.lastArchivedSequence ≤ maxSequence current := by
    obtain ⟨event, hevent⟩ := List.exists_mem_of_ne_nil _ hne
    exact (h.last_lt hevent).le.trans (le_maxSequence hevent)
  have hfilter : (store.rows.filter (maxSequence current < ·.sequence)).map EventEnvelope.stamp =
      (store.rest.map EventEnvelope.stamp).filter fun stamp =>
        maxSequence current < stamp.2.getD 0 := by
    rw [List.filter_map, ← filter_rest hlast]
    rfl
  rw [hfilter, ← hrest, List.map_append, List.filter_append, List.filter_eq_nil_iff.mpr,
    List.nil_append, List.filter_eq_self.mpr]
  · intro stamp hstamp
    obtain ⟨event, hevent, rfl⟩ := List.mem_map.mp hstamp
    exact decide_eq_true (h.maxSequence_lt_later hrest hevent)
  · intro stamp hstamp hlt
    obtain ⟨event, hevent, rfl⟩ := List.mem_map.mp hstamp
    exact absurd (le_maxSequence hevent) (of_decide_eq_true hlt).not_ge

theorem groupOf_groupAt {events : List EventEnvelope} {key : ArchiveKey}
    (hkey : key ∈ (Dict.group EventEnvelope.key events).keys) :
    GroupOf events (groupAt events key) := by
  obtain ⟨event, hevent, rfl⟩ := Dict.mem_keys_group.mp hkey
  exact ⟨event, hevent, rfl⟩

/-- The segments of the groups of a batch. -/
def Segments (codec : Codec) (rows events : List EventEnvelope) (keys : List ArchiveKey)
    (segments : List RawArchiveSegment) : Prop :=
  segments = keys.map fun key => codec.rowSegment rows (groupAt events key)

section Segments

variable {rows events : List EventEnvelope} {keys : List ArchiveKey}
  {segments : List RawArchiveSegment}

theorem Segments.mem (h : Segments codec rows events keys segments) {segment : RawArchiveSegment}
    (hsegment : segment ∈ segments) : ∃ key ∈ keys, segment.range = rangeOf (groupAt events key) := by
  rw [h] at hsegment
  obtain ⟨key, hkey, rfl⟩ := List.mem_map.mp hsegment
  exact ⟨key, hkey, rfl⟩

theorem Segments.exists_of_mem (h : Segments codec rows events keys segments) {key : ArchiveKey}
    (hkey : key ∈ keys) : ∃ segment ∈ segments, segment.range = rangeOf (groupAt events key) := by
  rw [h]
  exact ⟨_, List.mem_map_of_mem hkey, rfl⟩

end Segments

section Recording

variable {segments : List RawArchiveSegment}

/-- The segments of the batch have paths that no recorded segment has. -/
theorem record_ok (h : Filed codec store filed current)
    (hsegments : Segments codec store.rows current (Dict.group EventEnvelope.key current).keys segments) :
    recordRawArchiveSegments store.segments segments = .ok (store.segments ++ segments) := by
  refine recordRawArchiveSegments_new ?_ ?_ ?_
  · intro segment hsegment
    obtain ⟨key, hkey, hrange⟩ := hsegments.mem hsegment
    have hgroup := groupOf_groupAt hkey
    have hstart : segment.startSequence = (groupAt current key).2.headD 0 :=
      congrArg (fun range : Path × Nat × Nat => range.2.1) hrange
    have hlt := h.last_lt_of_group hgroup (headD_mem hgroup.ne_nil)
    omega
  · have hpaths : segments.map (·.path) = (Dict.group EventEnvelope.key current).keys.map
        fun key => (rangeOf (groupAt current key)).1 := by
      rw [hsegments, List.map_map]
      rfl
    rw [hpaths]
    exact (Dict.group EventEnvelope.key current).nodup.map fun key key' hsame =>
      (segmentPath_inj hsame).1
  · intro segment hsegment other hother hpath
    obtain ⟨key, hkey, hrange⟩ := hsegments.mem hsegment
    have hgroup := groupOf_groupAt hkey
    obtain ⟨-, key', hplaced⟩ := h.placed other hother
    have hpath' : segment.path = _ := congrArg Prod.fst hrange
    have hend := (segmentPath_inj (hplaced.symm.trans (hpath.trans hpath'))).2.2
    have hlt := h.last_lt_of_group hgroup (getLastD_mem hgroup.ne_nil)
    have hle := le_lastArchivedSequence hother
    exact absurd (hend ▸ hle) hlt.not_ge

/-- The last recorded number becomes the greatest of the batch. -/
theorem last_record (h : Filed codec store filed current) (hne : current ≠ [])
    (hsegments : Segments codec store.rows current (Dict.group EventEnvelope.key current).keys segments) :
    ({ store with segments := store.segments ++ segments } : Store).lastArchivedSequence =
      maxSequence current := by
  apply le_antisymm
  · refine lastArchivedSequence_le_iff.mpr fun segment hsegment => ?_
    rcases List.mem_append.mp hsegment with hsegment | hsegment
    · obtain ⟨event, hevent⟩ := List.exists_mem_of_ne_nil _ hne
      exact (le_lastArchivedSequence hsegment).trans
        ((h.last_lt hevent).le.trans (le_maxSequence hevent))
    · obtain ⟨key, hkey, hrange⟩ := hsegments.mem hsegment
      have hgroup := groupOf_groupAt hkey
      obtain ⟨event, hevent, -, hsequence⟩ := hgroup.mem.mp (getLastD_mem hgroup.ne_nil)
      have hend : segment.endSequence = _ := congrArg (fun range => range.2.2) hrange
      exact (hend.trans hsequence.symm).le.trans (le_maxSequence hevent)
  · refine maxSequence_le_iff.mpr fun event hevent => ?_
    have hkey : event.key ∈ (Dict.group EventEnvelope.key current).keys :=
      Dict.mem_keys_group.mpr ⟨event, hevent, rfl⟩
    obtain ⟨segment, hsegment, hrange⟩ := hsegments.exists_of_mem hkey
    have hmem : event.sequence ∈ (groupAt current event.key).2 :=
      (groupOf_groupAt hkey).mem.mpr ⟨event, hevent, rfl, rfl⟩
    have hend : segment.endSequence = _ := congrArg (fun range => range.2.2) hrange
    have hle := le_getLastD (increasing_iff.mp
      (h.increasing_current.sublist List.filter_sublist)) hmem
    exact (hle.trans hend.ge).trans (le_lastArchivedSequence (List.mem_append_right _ hsegment))

/-- The groups with files are the recorded ones and those of the batch. -/
theorem recorded_append (h : Filed codec store filed current)
    (hall : ∀ key ∈ (Dict.group EventEnvelope.key current).keys, groupAt current key ∈ filed) :
    filed.Perm (store.recordedGroups filed ++
      (Dict.group EventEnvelope.key current).keys.map (groupAt current)) := by
  have hbeyond : ∀ group, GroupOf current group →
      ¬ ∀ n ∈ group.2, n ≤ store.lastArchivedSequence := fun group hgroup hle =>
    absurd (hle _ (headD_mem hgroup.ne_nil))
      (h.last_lt_of_group hgroup (headD_mem hgroup.ne_nil)).not_ge
  refine (List.perm_ext_iff_of_nodup h.nodup ?_).mpr fun group => ?_
  · refine List.nodup_append.mpr ⟨h.nodup.filter _,
      (Dict.group EventEnvelope.key current).nodup.map fun key key' hsame =>
        congrArg Prod.fst hsame, ?_⟩
    rintro group hgroup _ hother rfl
    obtain ⟨key, hkey, rfl⟩ := List.mem_map.mp hother
    exact hbeyond _ (groupOf_groupAt hkey) (of_decide_eq_true (List.mem_filter.mp hgroup).2)
  · rw [List.mem_append]
    constructor
    · intro hgroup
      refine (h.latest group hgroup).imp
        (fun hold => List.mem_filter.mpr ⟨hgroup, decide_eq_true hold⟩) ?_
      rintro ⟨event, hevent, rfl⟩
      exact List.mem_map_of_mem (Dict.mem_keys_group.mpr ⟨event, hevent, rfl⟩)
    · rintro (hgroup | hgroup)
      · exact List.mem_of_mem_filter hgroup
      · obtain ⟨key, hkey, rfl⟩ := List.mem_map.mp hgroup
        exact hall key hkey

/-- When every group of the batch has its file, its segments can be recorded. -/
theorem record (h : Filed codec store filed current) (hne : current ≠ [])
    (hsegments : Segments codec store.rows current (Dict.group EventEnvelope.key current).keys segments)
    (hall : ∀ key ∈ (Dict.group EventEnvelope.key current).keys, groupAt current key ∈ filed) :
    Filed codec { store with segments := store.segments ++ segments } filed [] := by
  have hlast := h.last_record hne hsegments
  have hlatest : ∀ group ∈ filed, ∀ n ∈ group.2, n ≤ maxSequence current := by
    intro group hgroup n hn
    rcases h.latest group hgroup with hold | hlatest
    · obtain ⟨event, hevent⟩ := List.exists_mem_of_ne_nil _ hne
      exact (hold n hn).trans ((h.last_lt hevent).le.trans (le_maxSequence hevent))
    · obtain ⟨event, hevent, -, rfl⟩ := hlatest.mem.mp hn
      exact le_maxSequence hevent
  refine { h with
    complete := ?_, placed := ?_, recorded := ?_,
    latest := fun group hgroup => Or.inl (hlast ▸ hlatest group hgroup), next := List.nil_prefix }
  · intro row hrow hle
    rw [hlast] at hle
    by_cases hold : row.sequence ≤ store.lastArchivedSequence
    · exact h.complete row hrow hold
    · obtain ⟨event, hevent, hstamp⟩ := h.mem_current hrow (not_le.mp hold) hle
      have hkey : event.key ∈ (Dict.group EventEnvelope.key current).keys :=
        Dict.mem_keys_group.mpr ⟨event, hevent, rfl⟩
      refine List.mem_flatMap.mpr ⟨_, hall _ hkey, ?_⟩
      rw [sequence_of_stamp hstamp]
      exact (groupOf_groupAt hkey).mem.mpr ⟨event, hevent, rfl, rfl⟩
  · intro segment hsegment
    rcases List.mem_append.mp hsegment with hsegment | hsegment
    · exact h.placed segment hsegment
    · obtain ⟨key, hkey, hrange⟩ := hsegments.mem hsegment
      have hgroup := groupOf_groupAt hkey
      obtain ⟨event, hevent, -, hsequence⟩ := hgroup.mem.mp (getLastD_mem hgroup.ne_nil)
      obtain ⟨row, hrow, -, hstamp⟩ := h.exists_row hevent
      obtain ⟨hpath, hrange⟩ := Prod.mk.inj hrange
      obtain ⟨hstart, hend⟩ := Prod.mk.inj hrange
      refine ⟨List.mem_map.mpr ⟨row, hrow, ?_⟩, key, ?_⟩
      · rw [sequence_of_stamp hstamp, hsequence, hend]
      · rw [hpath, hstart, hend]
        rfl
  · have hall' : ({ store with segments := store.segments ++ segments } :
        Store).recordedGroups filed = filed :=
      List.filter_eq_self.mpr fun group hgroup => decide_eq_true (hlast ▸ hlatest group hgroup)
    rw [hall']
    refine .trans ?_ ((h.recorded_append hall).map (codec.rowSegment store.rows)).symm
    rw [List.map_append, List.map_map]
    exact h.recorded.append (List.Perm.of_eq hsegments)

end Recording

end Filed

end SniperBot.Archive
