import Mathlib.Data.Bool.AllAny
import Mathlib.Data.List.TakeWhile
import SniperBot.Archive.Recorder

/-!
# Reading the archive back

The reader ends its lines where `str.splitlines` does. JSON text has control characters escaped,
but U+0085, U+2028 and U+2029 are written as they are, and the reader takes them for ends of lines.
`read_after_write_iff` says that this is all that can go wrong.
-/

namespace SniperBot.Archive

open Basis

/-- What the libraries are relied on for, with the events of a batch. -/
structure Codec.Lawful (codec : Codec) (events : List EventEnvelope) : Prop where
  decompress_compress : ∀ payload, codec.decompress (codec.compress payload) = some payload
  load_dump : ∀ event ∈ events, codec.loadJson (codec.dumpJson event) = some event
  /-- An event is written as a JSON object. -/
  dump_object : ∀ event ∈ events, (codec.dumpJson event).toList.head? = some '{'
  /-- Control characters are escaped. -/
  dump_printable : ∀ event ∈ events, ∀ c ∈ (codec.dumpJson event).toList, 32 ≤ c.toNat
  /-- Characters of strings outside ASCII are written as they are, and there are no others. -/
  dump_texts : ∀ event ∈ events, ∀ c : Char, 128 ≤ c.toNat →
    (c ∈ (codec.dumpJson event).toList ↔ ∃ text ∈ event.texts, c ∈ text.toList)
  /-- The beginning of a JSON object is not JSON. -/
  load_truncated : ∀ event ∈ events, ∀ front rest, (codec.dumpJson event).toList = front ++ rest →
    rest ≠ [] → codec.loadJson (String.ofList front) = none

/-- The line separators that JSON leaves in its strings: U+0085, U+2028 and U+2029. -/
def isSeparator (c : Char) : Bool := c.toNat = 133 || c.toNat = 8232 || c.toNat = 8233

/-- No string of the event has a line separator. -/
def EventEnvelope.OneLine (event : EventEnvelope) : Prop :=
  ∀ text ∈ event.texts, ∀ c ∈ text.toList, isSeparator c = false

theorem EventEnvelope.oneLine_iff_all (event : EventEnvelope) :
    event.OneLine ↔
      (event.texts.all fun text => text.toList.all fun c => !isSeparator c) = true := by
  simp only [EventEnvelope.OneLine, List.all_eq_true, Bool.not_eq_true']

/-! ## Lines -/

section Lines

variable {codec : Codec} {events : List EventEnvelope}

theorem Codec.Lawful.mono (h : codec.Lawful events) {others : List EventEnvelope}
    (hsub : ∀ event ∈ others, event ∈ events) : codec.Lawful others where
  decompress_compress := h.decompress_compress
  load_dump other hother := h.load_dump other (hsub _ hother)
  dump_object other hother := h.dump_object other (hsub _ hother)
  dump_printable other hother := h.dump_printable other (hsub _ hother)
  dump_texts other hother := h.dump_texts other (hsub _ hother)
  load_truncated other hother := h.load_truncated other (hsub _ hother)

/-- In the text of an event, only the separators end a line. -/
theorem Codec.Lawful.boundary_eq (h : codec.Lawful events) {event : EventEnvelope}
    (hevent : event ∈ events) {c : Char} (hc : c ∈ (codec.dumpJson event).toList) :
    Text.isLineBoundary c = isSeparator c := by
  have hprintable := h.dump_printable event hevent c hc
  have hreturn : ¬ c.toNat ≤ 13 := by omega
  have hrecord : ¬ c.toNat ≤ 30 := by omega
  unfold Text.isLineBoundary isSeparator
  rw [decide_eq_false hreturn, decide_eq_false hrecord, Bool.and_false, Bool.and_false,
    Bool.false_or, Bool.false_or]

theorem Codec.Lawful.oneLine_iff (h : codec.Lawful events) {event : EventEnvelope}
    (hevent : event ∈ events) :
    event.OneLine ↔ ∀ c ∈ (codec.dumpJson event).toList, Text.isLineBoundary c = false := by
  have hwide : ∀ c, isSeparator c = true → 128 ≤ c.toNat := by
    intro c hc
    simp only [isSeparator, Bool.or_eq_true, decide_eq_true_eq] at hc
    omega
  constructor
  · intro hline c hc
    rw [h.boundary_eq hevent hc]
    by_contra hseparator
    rw [Bool.not_eq_false] at hseparator
    obtain ⟨text, htext, hmem⟩ := (h.dump_texts event hevent c (hwide c hseparator)).mp hc
    rw [hline text htext c hmem] at hseparator
    cases hseparator
  · intro hline text htext c hc
    by_contra hseparator
    rw [Bool.not_eq_false] at hseparator
    have hmem := (h.dump_texts event hevent c (hwide c hseparator)).mpr ⟨text, htext, hc⟩
    have hboundary := hline c hmem
    rw [h.boundary_eq hevent hmem, hseparator] at hboundary
    cases hboundary

theorem serialized_cons (codec : Codec) (event : EventEnvelope) (events : List EventEnvelope) :
    (codec.serialized (event :: events)).toList =
      (codec.dumpJson event).toList ++ '\n' :: (codec.serialized events).toList := by
  unfold Codec.serialized
  rw [List.map_cons, String.join_cons, String.toList_append, String.toList_append,
    List.append_assoc]
  rfl

/-- A text with a boundary is cut at the first one. -/
theorem exists_first_boundary {line : List Char} {c : Char} (hc : c ∈ line)
    (hboundary : Text.isLineBoundary c = true) :
    ∃ front first rest, line = front ++ first :: rest ∧
      (∀ d ∈ front, Text.isLineBoundary d = false) ∧ Text.isLineBoundary first = true := by
  induction line with
  | nil => cases hc
  | cons d line ih =>
      by_cases hd : Text.isLineBoundary d = true
      · exact ⟨[], d, line, rfl, fun e he => (List.not_mem_nil he).elim, hd⟩
      · have hc' : c ∈ line := by
          rcases List.mem_cons.mp hc with rfl | hc
          · exact absurd hboundary hd
          · exact hc
        obtain ⟨front, first, rest, rfl, hfront, hfirst⟩ := ih hc'
        refine ⟨d :: front, first, rest, rfl, ?_, hfirst⟩
        intro e he
        rcases List.mem_cons.mp he with rfl | he
        · exact Bool.eq_false_iff.mpr hd
        · exact hfront e he

/-- A line that begins with a brace is not blank. -/
theorem strip_object_ne {rest : List Char} : Text.strip (String.ofList ('{' :: rest)) ≠ "" := by
  intro h
  have hempty := congrArg String.toList h
  rw [Text.strip, String.toList_ofList, String.toList_ofList, String.toList_empty,
    List.reverse_eq_nil_iff, List.dropWhile_eq_nil_iff] at hempty
  have hbrace := hempty '{' (List.mem_reverse.mpr (by
    rw [List.dropWhile_cons_of_neg (by decide)]
    exact List.mem_cons_self))
  exact absurd hbrace (by decide)

/-- The lines of events without separators are those events. -/
theorem loadLines_serialized (h : codec.Lawful events) (hlines : ∀ event ∈ events, event.OneLine) :
    codec.loadLines (Text.splitLines (codec.serialized events).toList) = some events := by
  induction events with
  | nil => rfl
  | cons event events ih =>
      have hclean := (h.oneLine_iff List.mem_cons_self).mp (hlines event List.mem_cons_self)
      rw [serialized_cons, Text.splitLines_append hclean (by decide) (by decide), Codec.loadLines]
      obtain ⟨rest, hrest⟩ := List.head?_eq_some_iff.mp (h.dump_object event List.mem_cons_self)
      rw [if_neg (by rw [hrest]; exact strip_object_ne), String.ofList_toList,
        h.load_dump event List.mem_cons_self,
        ih (h.mono fun other hother => List.mem_cons_of_mem _ hother)
          fun other hother => hlines other (List.mem_cons_of_mem _ hother)]
      rfl

/-- An event with a separator is cut, and its beginning is refused. -/
theorem loadLines_cut (h : codec.Lawful events) (hcut : ∃ event ∈ events, ¬ event.OneLine) :
    codec.loadLines (Text.splitLines (codec.serialized events).toList) = none := by
  induction events with
  | nil =>
      obtain ⟨event, hevent, -⟩ := hcut
      cases hevent
  | cons event events ih =>
      obtain ⟨object, hobject⟩ := List.head?_eq_some_iff.mp (h.dump_object event List.mem_cons_self)
      rw [serialized_cons]
      by_cases hline : event.OneLine
      · have hclean := (h.oneLine_iff List.mem_cons_self).mp hline
        have hrest : ∃ other ∈ events, ¬ other.OneLine := by
          obtain ⟨other, hother, hnot⟩ := hcut
          rcases List.mem_cons.mp hother with rfl | hother
          · exact absurd hline hnot
          · exact ⟨other, hother, hnot⟩
        rw [Text.splitLines_append hclean (by decide) (by decide), Codec.loadLines,
          if_neg (by rw [hobject]; exact strip_object_ne), String.ofList_toList,
          h.load_dump event List.mem_cons_self,
          ih (h.mono fun other hother => List.mem_cons_of_mem _ hother) hrest]
        rfl
      · -- the line ends at the first separator
        rw [h.oneLine_iff List.mem_cons_self] at hline
        push Not at hline
        obtain ⟨c, hc, hboundary⟩ := hline
        obtain ⟨front, first, rest, hcut, hfront, hfirst⟩ :=
          exists_first_boundary hc (Bool.not_eq_false _ ▸ hboundary)
        have hreturn : first ≠ '\r' := by
          rintro rfl
          exact absurd (h.dump_printable event List.mem_cons_self '\r'
            (hcut ▸ List.mem_append_right _ List.mem_cons_self)) (by decide)
        have hbrace : ∃ body, front = '{' :: body := by
          cases front with
          | nil =>
              rw [hcut] at hobject
              cases hobject
              exact absurd hfirst (by decide)
          | cons d body =>
              rw [hcut] at hobject
              exact ⟨body, by rw [(List.cons.inj hobject).1]⟩
        obtain ⟨body, rfl⟩ := hbrace
        have hrefused := h.load_truncated event List.mem_cons_self _ _ hcut (List.cons_ne_nil _ _)
        rw [hcut, List.append_assoc ('{' :: body)]
        refine (congrArg codec.loadLines
          (Text.splitLines_append hfront hfirst hreturn (rest ++ _))).trans ?_
        rw [Codec.loadLines, if_neg strip_object_ne, hrefused]
        rfl

end Lines

/-! ## Files -/

section Written

variable {codec : Codec} {events : List EventEnvelope}

theorem fromUTF8?_toUTF8 (text : String) : String.fromUTF8? text.toUTF8 = some text :=
  dif_pos text.isValidUTF8

/-- The file of some events, read back. -/
theorem readZstdEvents_serialized (h : codec.Lawful events) :
    codec.readZstdEvents (codec.compress (codec.serialized events).toUTF8) =
      codec.loadLines (Text.splitLines (codec.serialized events).toList) := by
  unfold Codec.readZstdEvents
  rw [h.decompress_compress]
  exact congrArg (· >>= fun text : String => codec.loadLines (Text.splitLines text.toList))
    (fromUTF8?_toUTF8 _)

theorem protocolValue_inj {a b : Features.Protocol} (h : protocolValue a = protocolValue b) :
    a = b := by
  cases a <;> cases b <;> first | rfl | exact absurd h (by decide)

/-- Different groups have different paths. -/
theorem sequenced_path_inj {key key' : ArchiveKey} {members members' : List EventEnvelope}
    (h : (codec.sequenced key members).segment.path = (codec.sequenced key' members').segment.path) :
    key = key' := by
  obtain ⟨hday, h⟩ := List.cons.inj h
  obtain ⟨hhour, h⟩ := List.cons.inj h
  have hprotocol := protocolValue_inj (List.cons.inj h).1
  cases key
  cases key'
  exact ArchiveKey.mk.injEq .. ▸ ⟨hday, hhour, hprotocol⟩

/-- Groups with new paths are all written. -/
theorem writeGroups_fresh {groups : List (ArchiveKey × List EventEnvelope)} {files : Files}
    (hsequenced : ∀ group ∈ groups, ∀ event ∈ group.2, event.ingestSequence ≠ none)
    (hpaths : (groups.map fun group => (codec.sequenced group.1 group.2).segment.path).Nodup)
    (hfresh : ∀ group ∈ groups,
      files.get? (codec.sequenced group.1 group.2).segment.path = none) :
    (codec.writeGroups files groups).1.entries =
        files.entries ++ groups.map (fun group =>
          ((codec.sequenced group.1 group.2).segment.path,
            (codec.sequenced group.1 group.2).payload)) ∧
      (codec.writeGroups files groups).2 =
        .ok (groups.map fun group => (codec.sequenced group.1 group.2).segment) := by
  induction groups generalizing files with
  | nil => exact ⟨(List.append_nil _).symm, rfl⟩
  | cons group groups ih =>
      obtain ⟨key, members⟩ := group
      rw [List.map_cons, List.nodup_cons] at hpaths
      have hprepare : codec.prepare key members = .ok (codec.sequenced key members) :=
        if_pos (hsequenced _ List.mem_cons_self)
      have hwrite : codec.writeAtomicSegment files (codec.sequenced key members) =
          .ok (files.set (codec.sequenced key members).segment.path
            (codec.sequenced key members).payload) := by
        rw [Codec.writeAtomicSegment, hfresh _ List.mem_cons_self]
        rfl
      have hrest : ∀ other ∈ groups, (files.set (codec.sequenced key members).segment.path
          (codec.sequenced key members).payload).get?
            (codec.sequenced other.1 other.2).segment.path = none := by
        intro other hother
        rw [Dict.get?_set_ne _ fun heq => hpaths.1 (List.mem_map.mpr ⟨other, hother, heq.symm⟩)]
        exact hfresh other (List.mem_cons_of_mem _ hother)
      obtain ⟨hentries, hsegments⟩ := ih
        (fun other hother => hsequenced other (List.mem_cons_of_mem _ hother)) hpaths.2 hrest
      rw [Codec.writeGroups, hprepare]
      dsimp only
      rw [hwrite]
      dsimp only
      rw [hentries, hsegments, Dict.entries_set_new (hfresh _ List.mem_cons_self),
        List.append_assoc]
      exact ⟨rfl, rfl⟩

theorem readFiles_cons_eq_some {file : Path × ByteArray} {files : List (Path × ByteArray)}
    {read : List EventEnvelope} :
    codec.readFiles (file :: files) = some read ↔ ∃ first rest,
      codec.readZstdEvents file.2 = some first ∧ codec.readFiles files = some rest ∧
        first ++ rest = read := by
  simp only [Codec.readFiles, Option.bind_eq_bind, Option.bind_eq_some_iff, Option.pure_def,
    Option.some.injEq]
  constructor
  · rintro ⟨first, hfirst, rest, hrest, rfl⟩
    exact ⟨first, rest, hfirst, hrest, rfl⟩
  · rintro ⟨first, rest, hfirst, hrest, rfl⟩
    exact ⟨first, hfirst, rest, hrest, rfl⟩

/-- The order of the files does not matter for whether all of them are read. -/
theorem readFiles_perm {files others : List (Path × ByteArray)} (h : files.Perm others)
    {read : List EventEnvelope} (hread : codec.readFiles files = some read) :
    ∃ read', codec.readFiles others = some read' ∧ read'.Perm read := by
  induction h generalizing read with
  | nil => exact ⟨read, hread, .refl _⟩
  | cons file _ ih =>
      obtain ⟨first, rest, hfirst, hrest, rfl⟩ := readFiles_cons_eq_some.mp hread
      obtain ⟨rest', hrest', hperm⟩ := ih hrest
      exact ⟨first ++ rest', readFiles_cons_eq_some.mpr ⟨first, rest', hfirst, hrest', rfl⟩,
        hperm.append_left first⟩
  | swap a b files =>
      obtain ⟨second, _, hsecond, htail, rfl⟩ := readFiles_cons_eq_some.mp hread
      obtain ⟨first, rest, hfirst, hrest, rfl⟩ := readFiles_cons_eq_some.mp htail
      refine ⟨first ++ (second ++ rest), readFiles_cons_eq_some.mpr ⟨first, _, hfirst,
        readFiles_cons_eq_some.mpr ⟨second, rest, hsecond, hrest, rfl⟩, rfl⟩, ?_⟩
      rw [← List.append_assoc, ← List.append_assoc]
      exact List.perm_append_comm.append_right rest
  | trans _ _ ih ih' =>
      obtain ⟨read', hread', hperm⟩ := ih hread
      obtain ⟨read'', hread'', hperm'⟩ := ih' hread'
      exact ⟨read'', hread'', hperm'.trans hperm⟩

/-- The file of a group. -/
def Codec.file (codec : Codec) (group : ArchiveKey × List EventEnvelope) : Path × ByteArray :=
  ((codec.sequenced group.1 group.2).segment.path, (codec.sequenced group.1 group.2).payload)

theorem mem_sortBySequence {event : EventEnvelope} {members : List EventEnvelope} :
    event ∈ sortBySequence members ↔ event ∈ members :=
  (List.perm_insertionSort _ _).mem_iff

theorem readZstdEvents_file {group : ArchiveKey × List EventEnvelope} (h : codec.Lawful group.2) :
    codec.readZstdEvents (codec.file group).2 =
      codec.loadLines
        (Text.splitLines (codec.serialized (sortBySequence group.2)).toList) :=
  readZstdEvents_serialized (h.mono fun _ hevent => mem_sortBySequence.mp hevent)

theorem readFiles_groups {groups : List (ArchiveKey × List EventEnvelope)}
    (h : ∀ group ∈ groups, codec.Lawful group.2)
    (hlines : ∀ group ∈ groups, ∀ event ∈ group.2, event.OneLine) :
    codec.readFiles (groups.map codec.file) =
      some (groups.flatMap fun group => sortBySequence group.2) := by
  induction groups with
  | nil => rfl
  | cons group groups ih =>
      have hgroup := h group List.mem_cons_self
      have hfile : codec.readZstdEvents (codec.file group).2 = some (sortBySequence group.2) := by
        rw [readZstdEvents_file hgroup]
        refine loadLines_serialized (hgroup.mono fun _ hevent => mem_sortBySequence.mp hevent) ?_
        exact fun event hevent =>
          hlines group List.mem_cons_self event (mem_sortBySequence.mp hevent)
      exact readFiles_cons_eq_some.mpr ⟨_, _, hfile,
        ih (fun other hother => h other (List.mem_cons_of_mem _ hother))
          (fun other hother => hlines other (List.mem_cons_of_mem _ hother)), rfl⟩

theorem readFiles_cut {groups : List (ArchiveKey × List EventEnvelope)}
    {group : ArchiveKey × List EventEnvelope} (hgroup : group ∈ groups)
    (h : codec.Lawful group.2) (hcut : ∃ event ∈ group.2, ¬ event.OneLine) :
    codec.readFiles (groups.map codec.file) = none := by
  rw [Option.eq_none_iff_forall_ne_some]
  intro read hread
  induction groups generalizing read with
  | nil => cases hgroup
  | cons other groups ih =>
      obtain ⟨first, rest, hfirst, hrest, -⟩ := readFiles_cons_eq_some.mp hread
      rcases List.mem_cons.mp hgroup with rfl | hgroup
      · obtain ⟨event, hevent, hline⟩ := hcut
        rw [readZstdEvents_file h, loadLines_cut
          (h.mono fun _ hevent => mem_sortBySequence.mp hevent)
          ⟨event, mem_sortBySequence.mpr hevent, hline⟩] at hfirst
        cases hfirst
      · exact ih hgroup _ hrest

theorem group_subset {group : ArchiveKey × List EventEnvelope}
    (hgroup : group ∈ (Dict.group EventEnvelope.key events).entries) {event : EventEnvelope}
    (hevent : event ∈ group.2) : event ∈ events := by
  rw [Dict.mem_group hgroup] at hevent
  exact (List.mem_filter.mp hevent).1

/-- The files of a batch in an empty archive. -/
theorem writeSegments_empty (hsequenced : ∀ event ∈ events, event.ingestSequence ≠ none) :
    (codec.writeSegments Dict.empty events).1.entries =
        (Dict.group EventEnvelope.key events).entries.map codec.file ∧
      (codec.writeSegments Dict.empty events).2 =
        .ok ((Dict.group EventEnvelope.key events).entries.map fun group =>
          (codec.sequenced group.1 group.2).segment) := by
  refine writeGroups_fresh ?_ ?_ fun _ _ => rfl
  · exact fun group hgroup event hevent => hsequenced event (group_subset hgroup hevent)
  · refine List.Nodup.map_on ?_ (Dict.group EventEnvelope.key events).nodup.of_map
    intro a ha b hb heq
    exact List.inj_on_of_nodup_map (Dict.group EventEnvelope.key events).nodup ha hb
      (sequenced_path_inj heq)

theorem file_selected (group : ArchiveKey × List EventEnvelope) :
    Text.EndsWith ".ndjson.zst" ((codec.file group).1.getLast?.getD "") := by
  exact Text.endsWith_append _ _

/-- The reader looks at all files of a batch. -/
theorem iterEvents_eq {files : Files} {groups : List (ArchiveKey × List EventEnvelope)}
    (hfiles : files.entries = groups.map codec.file) :
    ∃ files', files'.Perm (groups.map codec.file) ∧ codec.iterEvents files = codec.readFiles files' := by
  refine ⟨_, ?_, rfl⟩
  rw [List.filter_eq_self.mpr]
  · rw [← hfiles]
    exact List.perm_insertionSort _ _
  · intro file hfile
    rw [sortedPaths, List.mem_insertionSort, hfiles] at hfile
    obtain ⟨group, -, rfl⟩ := List.mem_map.mp hfile
    exact decide_eq_true (file_selected group)

/-- A separator in one event makes the reader raise. -/
theorem iterEvents_cut (h : codec.Lawful events)
    (hsequenced : ∀ event ∈ events, event.ingestSequence ≠ none)
    (hcut : ∃ event ∈ events, ¬ event.OneLine) :
    codec.iterEvents (codec.writeSegments Dict.empty events).1 = none := by
  obtain ⟨hentries, -⟩ := @writeSegments_empty codec events hsequenced
  obtain ⟨files, hperm, hread⟩ := iterEvents_eq hentries
  obtain ⟨event, hevent, hline⟩ := hcut
  obtain ⟨group, hgroup, hmem⟩ :=
    List.mem_flatMap.mp ((Dict.group_perm EventEnvelope.key events).mem_iff.mpr hevent)
  have hgroupLawful := h.mono fun other hother => group_subset hgroup hother
  rw [hread, Option.eq_none_iff_forall_ne_some]
  intro read hfiles
  obtain ⟨read', hread', -⟩ := readFiles_perm hperm hfiles
  rw [readFiles_cut hgroup hgroupLawful ⟨event, hmem, hline⟩] at hread'
  cases hread'

/-- A batch of sequenced events is written to an empty archive, and the reader returns each of its
events once, with equal fields, exactly when none of their strings has a line separator. -/
theorem read_after_write_iff (h : codec.Lawful events)
    (hsequenced : ∀ event ∈ events, event.ingestSequence ≠ none) :
    (∃ segments, (codec.writeSegments Dict.empty events).2 = .ok segments) ∧
      ((∃ read, codec.iterEvents (codec.writeSegments Dict.empty events).1 = some read ∧
          read.Perm events) ↔
        ∀ event ∈ events, event.OneLine) := by
  obtain ⟨hentries, hsegments⟩ := @writeSegments_empty codec events hsequenced
  refine ⟨⟨_, hsegments⟩, ?_⟩
  constructor
  · rintro ⟨read, hread, -⟩ event hevent
    by_contra hline
    rw [iterEvents_cut h hsequenced ⟨event, hevent, hline⟩] at hread
    cases hread
  · intro hlines
    obtain ⟨files, hperm, hread⟩ := iterEvents_eq hentries
    have hgroups := readFiles_groups
      (fun group (hgroup : group ∈ (Dict.group EventEnvelope.key events).entries) =>
        h.mono fun event hevent => group_subset hgroup hevent)
      fun group hgroup event hevent => hlines event (group_subset hgroup hevent)
    obtain ⟨read, hfiles, hsame⟩ := readFiles_perm hperm.symm hgroups
    refine ⟨read, hread.trans hfiles,
      hsame.trans (.trans ?_ (Dict.group_perm EventEnvelope.key events))⟩
    exact List.Perm.flatMap_left _ fun group _ => List.perm_insertionSort _ _

end Written

/-! ## A token name -/

/-- The event id of the creation: the digest of `s:0:-1:token_created`. -/
def creationId : String := "b6e10c8d03204a957d8330c14d39da53925fb2e0050625a1136b0ba8430c434f"

/-- The creation of a token, with its name. -/
def creation (name : String) : EventEnvelope where
  eventId := creationId
  ingestSequence := some 1
  source := .heliusWss
  protocol := .pump
  eventType := .tokenCreated
  slot := 7
  signature := "s"
  instructionIndex := 0
  blockTime := { year := 2026, month := 8, day := 24, hour := 12 }
  observedAt := { year := 2026, month := 8, day := 24, hour := 12 }
  payload := [("name", .string name)]

def creationFront : String :=
  "\x7b\"event_id\":\"b6e10c8d03204a957d8330c14d39da53925fb2e0050625a1136b0ba8430c434f\"," ++
  "\"ingest_sequence\":1,\"source\":\"helius_wss\"," ++
  "\"network\":\"solana-mainnet\",\"protocol\":\"pump\",\"event_type\":\"token_created\"," ++
  "\"slot\":7,\"signature\":\"s\",\"instruction_index\":0,\"inner_instruction_index\":-1," ++
  "\"block_time\":\"2026-08-24T12:00:00Z\",\"observed_at\":\"2026-08-24T12:00:00Z\"," ++
  "\"commitment\":\"confirmed\",\"payload\":\x7b\"name\":\""

def creationBack : String := "\"\x7d\x7d"

/-- The JSON text of the creation; compression does nothing. -/
def creationCodec (name : String) : Codec where
  dumpJson _ := creationFront ++ name ++ creationBack
  loadJson line := if line = creationFront ++ name ++ creationBack then some (creation name) else none
  compress payload := payload
  decompress payload := some payload
  sha256 payload := toString payload.size

/-- The characters of a literal are those it is made of. -/
theorem forall_mem_literal {p : Char → Prop} [DecidablePred p] {text : String} {chars : List Char}
    (htext : text = String.ofList chars) (hall : (chars.all fun c => p c) = true) :
    ∀ c ∈ text.toList, p c := by
  rw [htext, String.toList_ofList]
  exact List.all_iff_forall_prop.mp hall

theorem creationFront_head : creationFront.toList.head? = some '\x7b' := by
  have hliteral : ∀ {text : String} {chars : List Char}, text = String.ofList chars →
      text.toList.head? = chars.head? := by
    rintro text chars rfl
    rw [String.toList_ofList]
  unfold creationFront
  simp only [String.toList_append, List.head?_append, Option.or_assoc]
  rw [hliteral rfl]
  rfl

theorem creationFront_ascii : ∀ c ∈ creationFront.toList, 32 ≤ c.toNat ∧ c.toNat < 128 := by
  unfold creationFront
  simp only [String.toList_append, List.mem_append]
  rintro c (((((hc | hc) | hc) | hc) | hc) | hc)
  all_goals
    revert c
    exact forall_mem_literal rfl (by decide +kernel)

theorem creationBack_ascii : ∀ c ∈ creationBack.toList, 32 ≤ c.toNat ∧ c.toNat < 128 :=
  forall_mem_literal rfl (by decide +kernel)

theorem mem_creation_text {name : String} {c : Char} :
    c ∈ (creationFront ++ name ++ creationBack).toList ↔
      c ∈ creationFront.toList ∨ c ∈ name.toList ∨ c ∈ creationBack.toList := by
  rw [String.toList_append, String.toList_append, List.mem_append, List.mem_append, or_assoc]

theorem creation_texts (name : String) :
    (creation name).texts = [creationId, "solana-mainnet", "s", "confirmed", "name", name] := rfl

theorem creationCodec_lawful {name : String} (hname : ∀ c ∈ name.toList, 32 ≤ c.toNat) :
    (creationCodec name).Lawful [creation name] where
  decompress_compress payload := rfl
  load_dump event hevent := by
    rw [List.mem_singleton.mp hevent, creationCodec]
    dsimp only
    rw [if_pos rfl]
  dump_object event hevent := by
    rw [creationCodec, String.toList_append, String.toList_append, List.append_assoc,
      List.head?_append, creationFront_head, Option.some_or]
  dump_printable event hevent c hc := by
    rcases mem_creation_text.mp hc with hc | hc | hc
    · exact (creationFront_ascii c hc).1
    · exact hname c hc
    · exact (creationBack_ascii c hc).1
  dump_texts event hevent c hwide := by
    rw [List.mem_singleton.mp hevent, creation_texts]
    refine mem_creation_text.trans ⟨?_, ?_⟩
    · rintro (hc | hc | hc)
      · exact absurd (creationFront_ascii c hc).2 (by omega)
      · exact ⟨name, by simp, hc⟩
      · exact absurd (creationBack_ascii c hc).2 (by omega)
    · rintro ⟨text, htext, hc⟩
      have hascii : ∀ text ∈ [creationId, "solana-mainnet", "s", "confirmed", "name"],
          ∀ c ∈ text.toList, c.toNat < 128 := by
        intro text htext
        have hall : [creationId, "solana-mainnet", "s", "confirmed", "name"].all (fun text =>
            text.toList.all fun c => c.toNat < 128) = true := by decide +kernel
        exact List.all_iff_forall_prop.mp (List.all_eq_true.mp hall text htext)
      rcases List.mem_append.mp (show text ∈ [creationId, "solana-mainnet", "s", "confirmed", "name"] ++
        [name] from htext) with htext | htext
      · exact absurd (hascii text htext c hc) (by omega)
      · exact Or.inr (Or.inl (List.mem_singleton.mp htext ▸ hc))
  load_truncated event hevent front rest hcut hrest := by
    refine if_neg fun heq => hrest ?_
    have hfront : front = (creationFront ++ name ++ creationBack).toList := by
      rw [← heq, String.toList_ofList]
    exact List.append_right_eq_self.mp (hfront ▸ hcut).symm

theorem read_after_write_iff_creation :
    ∃ read, (creationCodec "A").iterEvents
        ((creationCodec "A").writeSegments Dict.empty [creation "A"]).1 = some read ∧
      read.Perm [creation "A"] := by
  refine (read_after_write_iff (creationCodec_lawful
    (List.all_iff_forall_prop.mp (by decide +kernel))) ?_).2.mpr ?_
  · intro event hevent
    rw [List.mem_singleton.mp hevent]
    exact nofun
  · intro event hevent
    rw [List.mem_singleton.mp hevent, EventEnvelope.oneLine_iff_all, creation_texts]
    decide +kernel

/-- The reader raises for a token whose name has a line separator. -/
theorem separator_not_read :
    (creationCodec "A\u2028B").Lawful [creation "A\u2028B"] ∧
      (creationCodec "A\u2028B").iterEvents
        ((creationCodec "A\u2028B").writeSegments Dict.empty [creation "A\u2028B"]).1 = none := by
  have hlawful : (creationCodec "A\u2028B").Lawful [creation "A\u2028B"] :=
    creationCodec_lawful (List.all_iff_forall_prop.mp (by decide +kernel))
  refine ⟨hlawful, iterEvents_cut hlawful ?_ ⟨_, List.mem_cons_self, ?_⟩⟩
  · intro event hevent
    rw [List.mem_singleton.mp hevent]
    exact nofun
  · rw [EventEnvelope.oneLine_iff_all, creation_texts]
    decide +kernel

end SniperBot.Archive
