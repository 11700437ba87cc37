import Mathlib.Data.List.Dedup
import Mathlib.Data.List.Sort
import SniperBot.Basis.Run

/-!
# A queue that is read by offset

A server keeps numbered items in a queue. A reader asks for the items from an offset on, and its
request makes the server drop what lies before the offset. The reader takes the items of an answer
one after another; each moves the offset behind it. A reader that starts again begins with offset
`0`: what the server did not drop yet is taken once more. It also goes back to an earlier state of
its own, at once or when it has already asked: the last items are not reflected in it any more.

If a state that is gone back to lost only items that the server still has and that are not before
the offset, every item that arrived is in the queue, or it is reflected, or the server forgot it
(`Reads.somewhere`). An operation that overrides its earlier occurrences (`Overrides`) can be done
again on every item: a reader that has caught up is in the state that comes of each item once, in
the order of arrival (`Ordered.exec_taken`).
-/

namespace Basis

/-! ## Operations that are done again -/

section Again

variable {σ α : Type*} {step : σ → α → σ}

/-- An operation that is done later makes its earlier occurrence irrelevant. -/
def Overrides (step : σ → α → σ) : Prop :=
  ∀ s a as, a ∈ as → exec step (step s a) as = exec step s as

/-- It is enough that doing an operation twice is doing it once, and that two states on which the
operation agrees still agree after another one. -/
theorem overrides_of_congr (htwice : ∀ s a, step (step s a) a = step s a)
    (hcongr : ∀ s t a b, step s a = step t a → step (step s b) a = step (step t b) a) :
    Overrides step := by
  intro s a as hmem
  obtain ⟨before, after, rfl⟩ := List.append_of_mem hmem
  have hagree : ∀ (bs : List α) (s t : σ), step s a = step t a →
      step (exec step s bs) a = step (exec step t bs) a := by
    intro bs
    induction bs with
    | nil => exact fun s t h => h
    | cons b bs ih => exact fun s t h => ih _ _ (hcongr s t a b h)
  rw [exec_append, exec_append, exec_cons, exec_cons, hagree before _ _ (htwice s a)]

/-- Only the last occurrences count. -/
theorem Overrides.exec_dedup [DecidableEq α] (h : Overrides step) (s : σ) (as : List α) :
    exec step s as.dedup = exec step s as := by
  induction as generalizing s with
  | nil => rfl
  | cons a as ih =>
      by_cases hmem : a ∈ as
      · rw [List.dedup_cons_of_mem hmem, ih, exec_cons, h s a as hmem]
      · rw [List.dedup_cons_of_notMem hmem, exec_cons, exec_cons, ih]

end Again

/-! ## The queue and its reader -/

structure Feed (α : Type*) where
  arrived : List α := []
  queue : List α := []
  /-- What the server dropped before it was asked to. -/
  forgotten : List α := []
  offset : ℤ := 0
  /-- What is left of the last answer. -/
  batch : List α := []
  /-- What the state of the reader reflects. -/
  taken : List α := []
  /-- Everything that was taken. -/
  log : List α := []

inductive FeedAction (α : Type*)
  | arrive (item : α)
  | forget
  /-- a request reaches the server; its answer may be lost -/
  | poll (limit : ℕ) (answered : Bool)
  /-- the next item of the answer is taken; the rest of the answer may be dropped -/
  | take (rest : Bool)
  /-- the reader starts again -/
  | restart
  /-- the state of the reader is replaced by one that reflects other items -/
  | restore (kept : List α)

namespace Feed

variable {α : Type*} (key : α → ℤ) (f : Feed α)

def step : FeedAction α → Feed α
  | .arrive item => { f with arrived := f.arrived ++ [item], queue := f.queue ++ [item] }
  | .forget =>
      match f.queue with
      | [] => f
      | item :: queue => { f with queue := queue, forgotten := f.forgotten ++ [item] }
  | .poll limit answered =>
      match f.batch with
      | [] =>
          let queue := f.queue.filter fun item => f.offset ≤ key item
          { f with queue := queue, batch := if answered then queue.take limit else [] }
      | _ :: _ => f
  | .take rest =>
      match f.batch with
      | [] => f
      | item :: batch =>
          { f with
            offset := key item + 1
            batch := if rest then batch else []
            taken := f.taken ++ [item]
            log := f.log ++ [item] }
  | .restart => { f with offset := 0, batch := [] }
  | .restore kept => { f with taken := kept }

/-- Items have increasing numbers. A state that comes back reflects the first of the items, and the
server still has the others, none of them before the offset. -/
def Lawful : FeedAction α → Prop
  | .arrive item => 0 < key item ∧ ∀ other ∈ f.arrived, key other < key item
  | .restore kept =>
      kept <+: f.taken ∧ ∀ item ∈ f.taken.drop kept.length, item ∈ f.queue ∧ f.offset ≤ key item
  | _ => True

instance [DecidableEq α] : (a : FeedAction α) → Decidable (Lawful key f a)
  | .arrive _ => inferInstanceAs (Decidable (_ ∧ ∀ _ ∈ _, _))
  | .restore _ => inferInstanceAs (Decidable (_ ∧ ∀ _ ∈ _, _))
  | .forget | .poll _ _ | .take _ | .restart => isTrue trivial

/-- The server forgets an item only if it is not reflected. -/
def Unforgotten : FeedAction α → Prop
  | .forget => ∀ item ∈ f.queue.head?, item ∉ f.taken
  | _ => True

instance [DecidableEq α] : (a : FeedAction α) → Decidable (Unforgotten f a)
  | .forget => inferInstanceAs (Decidable (∀ _ ∈ _, _))
  | .arrive _ | .poll _ _ | .take _ | .restart | .restore _ => isTrue trivial

/-- The reader starts again only if the server dropped all that was taken. -/
def Confirmed : FeedAction α → Prop
  | .restart => ∀ item ∈ f.queue, item ∉ f.log
  | _ => True

instance [DecidableEq α] : (a : FeedAction α) → Decidable (Confirmed f a)
  | .restart => inferInstanceAs (Decidable (∀ _ ∈ _, _))
  | .arrive _ | .poll _ _ | .take _ | .forget | .restore _ => isTrue trivial

/-- Everything that is reflected lies before the offset. -/
def CaughtUp : Prop := ∀ item ∈ f.taken, key item < f.offset

instance : Decidable (CaughtUp key f) := inferInstanceAs (Decidable (∀ _ ∈ _, _))

end Feed

/-! ## Nothing is skipped -/

/-- What holds of a reader and its queue in every state. -/
structure Reads {α : Type*} (key : α → ℤ) (f : Feed α) : Prop where
  positive : ∀ item ∈ f.arrived, 0 < key item
  increasing : f.arrived.Pairwise (key · < key ·)
  queue : f.queue.Sublist f.arrived
  batch : f.batch.Sublist f.arrived
  log : ∀ item ∈ f.log, item ∈ f.arrived
  taken : ∀ item ∈ f.taken, item ∈ f.log
  offset : f.offset = 0 ∨ ∃ item ∈ f.taken, f.offset = key item + 1
  ahead : ∀ item ∈ f.batch, f.offset ≤ key item
  behind : ∀ item ∈ f.queue, key item < f.offset → item ∈ f.taken
  /-- the answer has the first items from the offset on -/
  next : ∀ item ∈ f.queue, f.offset ≤ key item →
    item ∈ f.batch ∨ ∀ other ∈ f.batch, key other < key item
  /-- what left the queue lies before it -/
  gone : ∀ item, item ∈ f.log ∨ item ∈ f.batch → item ∉ f.queue →
    ∀ other ∈ f.queue, key item < key other
  somewhere : ∀ item ∈ f.arrived, item ∈ f.queue ∨ item ∈ f.taken ∨ item ∈ f.forgotten

namespace Reads

variable {α : Type*} {key : α → ℤ} {f : Feed α}

theorem init : Reads key ({} : Feed α) where
  positive := List.forall_mem_nil _
  increasing := List.Pairwise.nil
  queue := List.Sublist.refl _
  batch := List.Sublist.refl _
  log := List.forall_mem_nil _
  taken := List.forall_mem_nil _
  offset := Or.inl rfl
  ahead := List.forall_mem_nil _
  behind := List.forall_mem_nil _
  next := List.forall_mem_nil _
  gone _ _ _ := List.forall_mem_nil _
  somewhere := List.forall_mem_nil _

theorem mem_arrived (h : Reads key f) {item : α} (htaken : item ∈ f.taken) : item ∈ f.arrived :=
  h.log item (h.taken item htaken)

theorem queue_increasing (h : Reads key f) : f.queue.Pairwise (key · < key ·) :=
  h.increasing.sublist h.queue

theorem batch_increasing (h : Reads key f) : f.batch.Pairwise (key · < key ·) :=
  h.increasing.sublist h.batch

/-- Two items that arrived have different numbers. -/
theorem eq_of_key (h : Reads key f) {item other : α} (hitem : item ∈ f.arrived)
    (hother : other ∈ f.arrived) (hkey : key item = key other) : item = other := by
  obtain ⟨i, hi, rfl⟩ := List.mem_iff_getElem.mp hitem
  obtain ⟨j, hj, rfl⟩ := List.mem_iff_getElem.mp hother
  have hlt := List.pairwise_iff_getElem.mp h.increasing
  rcases lt_trichotomy i j with hij | rfl | hij
  · have := hlt i j hi hj hij
    omega
  · rfl
  · have := hlt j i hj hi hij
    omega

/-- The first item of an answer lies before the others. -/
theorem first_lt (h : Reads key f) {item : α} {rest : List α} (hbatch : f.batch = item :: rest) :
    ∀ other ∈ rest, key item < key other :=
  (List.pairwise_cons.mp (hbatch ▸ h.batch_increasing)).1

/-- No item of the queue from the offset on lies before the first item of an answer. -/
theorem first_le (h : Reads key f) {item : α} {rest : List α} (hbatch : f.batch = item :: rest)
    {other : α} (hqueue : other ∈ f.queue) (hahead : f.offset ≤ key other) :
    key item ≤ key other := by
  rcases h.next other hqueue hahead with hmem | hlater
  · rw [hbatch] at hmem
    rcases List.mem_cons.mp hmem with rfl | hmem
    · exact le_refl _
    · exact (h.first_lt hbatch other hmem).le
  · exact (hlater item (hbatch ▸ List.mem_cons_self)).le

theorem arrive (h : Reads key f) {item : α}
    (hlawful : Feed.Lawful key f (.arrive item)) : Reads key (f.step key (.arrive item)) := by
  obtain ⟨hpositive, hlater⟩ := hlawful
  have hold : ∀ other, other ∈ f.log ∨ other ∈ f.batch → other ∈ f.arrived := by
    rintro other (hlog | hbatch)
    · exact h.log other hlog
    · exact h.batch.subset hbatch
  have hahead : f.offset ≤ key item := by
    rcases h.offset with hzero | ⟨last, hlast, hoffset⟩
    · omega
    · have := hlater last (h.mem_arrived hlast)
      omega
  refine ⟨?_, ?_, ?_, ?_, ?_, h.taken, h.offset, h.ahead, ?_, ?_, ?_, ?_⟩
  · intro other hother
    rcases List.mem_append.mp hother with hother | hother
    · exact h.positive other hother
    · rw [List.mem_singleton.mp hother]
      exact hpositive
  · refine List.pairwise_append.mpr ⟨h.increasing, List.pairwise_singleton _ _, ?_⟩
    intro other hother new hnew
    rw [List.mem_singleton.mp hnew]
    exact hlater other hother
  · exact h.queue.append (List.Sublist.refl _)
  · exact h.batch.trans (List.sublist_append_left _ _)
  · exact fun other hother => List.mem_append_left _ (h.log other hother)
  · intro other hother hbehind
    rcases List.mem_append.mp hother with hother | hother
    · exact h.behind other hother hbehind
    · rw [List.mem_singleton.mp hother] at hbehind
      exact absurd hahead (not_le.mpr hbehind)
  · intro other hother hfrom
    rcases List.mem_append.mp hother with hother | hother
    · exact h.next other hother hfrom
    · rw [List.mem_singleton.mp hother]
      exact Or.inr fun old hbatch => hlater old (h.batch.subset hbatch)
  · intro other hother hqueue new hnew
    rcases List.mem_append.mp hnew with hnew | hnew
    · exact h.gone other hother (fun hmem => hqueue (List.mem_append_left _ hmem)) new hnew
    · rw [List.mem_singleton.mp hnew]
      exact hlater other (hold other hother)
  · intro other hother
    rcases List.mem_append.mp hother with hother | hother
    · exact (h.somewhere other hother).imp_left (List.mem_append_left _)
    · exact Or.inl (List.mem_append_right _ hother)

theorem forget (h : Reads key f) : Reads key (f.step key .forget) := by
  unfold Feed.step
  dsimp only
  split
  · exact h
  · next item queue hqueue =>
      have hincreasing := h.queue_increasing
      have hsubset : ∀ other ∈ queue, other ∈ f.queue := by
        intro other hother
        rw [hqueue]
        exact List.mem_cons_of_mem _ hother
      rw [hqueue] at hincreasing
      refine ⟨h.positive, h.increasing, ?_, h.batch, h.log, h.taken, h.offset, h.ahead, ?_, ?_, ?_,
        ?_⟩
      · have hsublist := h.queue
        rw [hqueue] at hsublist
        exact (List.sublist_cons_self _ _).trans hsublist
      · exact fun other hother => h.behind other (hsubset other hother)
      · exact fun other hother => h.next other (hsubset other hother)
      · intro other hother hgone new hnew
        by_cases hsame : other = item
        · rw [hsame]
          exact (List.pairwise_cons.mp hincreasing).1 new hnew
        · refine h.gone other hother ?_ new (hsubset new hnew)
          rw [hqueue, List.mem_cons, not_or]
          exact ⟨hsame, hgone⟩
      · intro other hother
        rcases h.somewhere other hother with hmem | htaken | hforgotten
        · rw [hqueue] at hmem
          rcases List.mem_cons.mp hmem with rfl | hmem
          · exact Or.inr (Or.inr (List.mem_append_right _ List.mem_cons_self))
          · exact Or.inl hmem
        · exact Or.inr (Or.inl htaken)
        · exact Or.inr (Or.inr (List.mem_append_left _ hforgotten))

theorem poll (h : Reads key f) (limit : ℕ) (answered : Bool) :
    Reads key (f.step key (.poll limit answered)) := by
  unfold Feed.step
  dsimp only
  split
  · next hempty =>
      have hmem {other : α} : other ∈ f.queue.filter (fun item => f.offset ≤ key item) ↔
          other ∈ f.queue ∧ f.offset ≤ key other := by
        rw [List.mem_filter, decide_eq_true_eq]
      have hsublist : (if answered then
          (f.queue.filter fun item => f.offset ≤ key item).take limit else []).Sublist
            (f.queue.filter fun item => f.offset ≤ key item) := by
        split
        · exact List.take_sublist _ _
        · exact List.nil_sublist _
      refine ⟨h.positive, h.increasing, List.filter_sublist.trans h.queue, ?_, h.log, h.taken,
        h.offset, ?_, ?_, ?_, ?_, ?_⟩
      · exact hsublist.trans (List.filter_sublist.trans h.queue)
      · exact fun other hother => (hmem.mp (hsublist.subset hother)).2
      · exact fun other hother hbehind => absurd (hmem.mp hother).2 (not_le.mpr hbehind)
      · intro other hother hahead
        split
        · -- the answer is an initial part of the queue
          by_cases htake : other ∈ (f.queue.filter fun item => f.offset ≤ key item).take limit
          · exact Or.inl htake
          · refine Or.inr fun early hearly => ?_
            have hparts := h.queue_increasing.sublist
              (List.filter_sublist (p := fun item => decide (f.offset ≤ key item)))
            rw [← List.take_append_drop limit (f.queue.filter fun item => f.offset ≤ key item)]
              at hparts hother
            refine (List.pairwise_append.mp hparts).2.2 early hearly other ?_
            exact (List.mem_append.mp hother).resolve_left htake
        · exact Or.inr (List.forall_mem_nil _)
      · intro other hother hgone new hnew
        have hnew' := hmem.mp hnew
        have hother' : other ∈ f.log ∨ other ∈ f.batch := by
          refine hother.imp_right fun hbatch => ?_
          exact absurd (hsublist.subset hbatch) hgone
        by_cases hqueue : other ∈ f.queue
        · have hbehind : key other < f.offset :=
            not_le.mp fun hahead => hgone (hmem.mpr ⟨hqueue, hahead⟩)
          exact hbehind.trans_le hnew'.2
        · exact h.gone other hother' hqueue new hnew'.1
      · intro other hother
        rcases h.somewhere other hother with hqueue | hrest
        · by_cases hahead : f.offset ≤ key other
          · exact Or.inl (hmem.mpr ⟨hqueue, hahead⟩)
          · exact Or.inr (Or.inl (h.behind other hqueue (not_le.mp hahead)))
        · exact Or.inr hrest
  · exact h

theorem take (h : Reads key f) (rest : Bool) : Reads key (f.step key (.take rest)) := by
  unfold Feed.step
  dsimp only
  split
  · exact h
  · next item batch hbatch =>
      have hitem : item ∈ f.batch := hbatch ▸ List.mem_cons_self
      have hsublist : (if rest then batch else []).Sublist batch := by
        split
        · exact List.Sublist.refl _
        · exact List.nil_sublist _
      have hsubset : ∀ other ∈ batch, other ∈ f.batch := by
        intro other hother
        rw [hbatch]
        exact List.mem_cons_of_mem _ hother
      refine ⟨h.positive, h.increasing, h.queue, ?_, ?_, ?_, ?_, ?_, ?_, ?_, ?_, ?_⟩
      · have hwhole := h.batch
        rw [hbatch] at hwhole
        exact hsublist.trans ((List.sublist_cons_self _ _).trans hwhole)
      · intro other hother
        rcases List.mem_append.mp hother with hother | hother
        · exact h.log other hother
        · rw [List.mem_singleton.mp hother]
          exact h.batch.subset hitem
      · intro other hother
        exact List.mem_append.mpr ((List.mem_append.mp hother).imp_left (h.taken other))
      · exact Or.inr ⟨item, List.mem_append_right _ List.mem_cons_self, rfl⟩
      · intro other hother
        have := h.first_lt hbatch other (hsublist.subset hother)
        dsimp only
        omega
      · intro other hqueue hbehind
        dsimp only at hbehind
        by_cases hold : key other < f.offset
        · exact List.mem_append_left _ (h.behind other hqueue hold)
        · have hle := h.first_le hbatch hqueue (not_lt.mp hold)
          have hsame : other = item := h.eq_of_key (h.queue.subset hqueue)
            (h.batch.subset hitem) (by omega)
          exact List.mem_append_right _ (List.mem_singleton.mpr hsame)
      · intro other hqueue hahead
        dsimp only at hahead
        have hold : f.offset ≤ key other := by
          have := h.ahead item hitem
          omega
        split
        · rcases h.next other hqueue hold with hmem | hlater
          · rw [hbatch] at hmem
            rcases List.mem_cons.mp hmem with rfl | hmem
            · omega
            · exact Or.inl hmem
          · exact Or.inr fun early hearly => hlater early (hsubset early hearly)
        · exact Or.inr (List.forall_mem_nil _)
      · intro other hother hgone
        refine h.gone other ?_ hgone
        rcases hother with hlog | hleft
        · rcases List.mem_append.mp hlog with hlog | hsame
          · exact Or.inl hlog
          · rw [List.mem_singleton.mp hsame]
            exact Or.inr hitem
        · exact Or.inr (hsubset other (hsublist.subset hleft))
      · intro other hother
        exact (h.somewhere other hother).imp_right (Or.imp_left (List.mem_append_left _))

theorem restart (h : Reads key f) : Reads key (f.step key .restart) where
  positive := h.positive
  increasing := h.increasing
  queue := h.queue
  batch := List.nil_sublist _
  log := h.log
  taken := h.taken
  offset := Or.inl rfl
  ahead := List.forall_mem_nil _
  behind other hqueue hbehind := by
    have hpositive := h.positive other (h.queue.subset hqueue)
    change key other < 0 at hbehind
    omega
  next _ _ _ := Or.inr (List.forall_mem_nil _)
  gone other hother := h.gone other (Or.inl (hother.resolve_right List.not_mem_nil))
  somewhere := h.somewhere

/-- What a state that comes back lost is in the queue, and will be in an answer. -/
theorem kept_or_lost {kept : List α} (hlawful : Feed.Lawful key f (.restore kept)) {item : α}
    (htaken : item ∈ f.taken) : item ∈ kept ∨ item ∈ f.queue ∧ f.offset ≤ key item := by
  obtain ⟨hkept, hlost⟩ := hlawful
  rw [← List.prefix_iff_eq_append.mp hkept] at htaken
  exact (List.mem_append.mp htaken).imp_right (hlost item)

/-- A part of the items that has none of those that a state lost. -/
theorem filter_kept {kept : List α} (hlawful : Feed.Lawful key f (.restore kept)) {p : α → Bool}
    (hlost : ∀ item ∈ f.queue, f.offset ≤ key item → p item = false) :
    kept.filter p = f.taken.filter p := by
  obtain ⟨hkept, hrest⟩ := hlawful
  have hnone : (f.taken.drop kept.length).filter p = [] :=
    List.filter_eq_nil_iff.mpr fun item hitem => by
      simp [hlost item (hrest item hitem).1 (hrest item hitem).2]
  conv_rhs => rw [← List.prefix_iff_eq_append.mp hkept, List.filter_append, hnone]
  exact (List.append_nil _).symm

theorem restore (h : Reads key f) {kept : List α} (hlawful : Feed.Lawful key f (.restore kept)) :
    Reads key (f.step key (.restore kept)) where
  positive := h.positive
  increasing := h.increasing
  queue := h.queue
  batch := h.batch
  log := h.log
  taken other hother := h.taken other (hlawful.1.subset hother)
  offset := by
    refine h.offset.imp_right ?_
    rintro ⟨last, hlast, hoffset⟩
    refine ⟨last, (kept_or_lost hlawful hlast).resolve_right fun hlost => ?_, hoffset⟩
    omega
  ahead := h.ahead
  behind other hqueue hbehind :=
    (kept_or_lost hlawful (h.behind other hqueue hbehind)).resolve_right fun hlost =>
      absurd hbehind (not_lt.mpr hlost.2)
  next := h.next
  gone := h.gone
  somewhere other hother := by
    rcases h.somewhere other hother with hqueue | htaken | hforgotten
    · exact Or.inl hqueue
    · exact (kept_or_lost hlawful htaken).elim (fun hkept => Or.inr (Or.inl hkept))
        fun hlost => Or.inl hlost.1
    · exact Or.inr (Or.inr hforgotten)

theorem step (h : Reads key f) (a : FeedAction α) (hlawful : Feed.Lawful key f a) :
    Reads key (f.step key a) := by
  cases a with
  | arrive item => exact h.arrive hlawful
  | forget => exact h.forget
  | poll limit answered => exact h.poll limit answered
  | take rest => exact h.take rest
  | restart => exact h.restart
  | restore kept => exact h.restore hlawful

end Reads

/-! ## The order of the last times -/

/-- What holds as long as the server forgets nothing that was taken. -/
structure Ordered {α : Type*} [DecidableEq α] (key : α → ℤ) (f : Feed α) : Prop
    extends Reads key f where
  past : ∀ item ∈ f.taken, item ∉ f.queue → ∀ other ∈ f.batch, key item < key other
  before : ∀ item ∈ f.taken, item ∉ f.queue → f.offset = 0 ∨ key item < f.offset
  settled : (f.taken.filter (· ∉ f.queue)).dedup.Pairwise (key · < key ·)
  upTo : (f.taken.filter (key · < f.offset)).dedup.Pairwise (key · < key ·)

/-- A later item, placed last. -/
theorem pairwise_dedup_append_one {α : Type*} [DecidableEq α] {key : α → ℤ} {items : List α}
    (h : items.dedup.Pairwise (key · < key ·)) {item : α}
    (hlater : ∀ other ∈ items, key other < key item) :
    (items ++ [item]).dedup.Pairwise (key · < key ·) := by
  have hnew : items.Disjoint [item] := by
    rw [List.disjoint_singleton]
    exact fun hmem => lt_irrefl _ (hlater item hmem)
  rw [hnew.dedup_append]
  refine List.pairwise_append.mpr ⟨h, List.pairwise_singleton _ _, ?_⟩
  intro other hother new hmem
  rw [List.mem_singleton.mp hmem]
  exact hlater other (List.mem_dedup.mp hother)

/-- An item that is taken again moves behind the others. -/
theorem pairwise_dedup_again {α : Type*} [DecidableEq α] {key : α → ℤ} {items : List α} {item : α}
    (h : (items.filter (key · < key item)).dedup.Pairwise (key · < key ·))
    (hle : ∀ other ∈ items, ¬ key other < key item → other = item) :
    (items ++ [item]).dedup.Pairwise (key · < key ·) := by
  have hsame : (items ++ [item]).dedup = (items.filter (key · < key item) ++ [item]).dedup := by
    clear h
    induction items with
    | nil => rfl
    | cons other items ih =>
        have hrest := ih fun another hmem => hle another (List.mem_cons_of_mem _ hmem)
        by_cases hlt : key other < key item
        · rw [List.filter_cons_of_pos (by simpa using hlt), List.cons_append, List.cons_append]
          have hne : other ≠ item := by
            rintro rfl
            exact lt_irrefl _ hlt
          by_cases hmem : other ∈ items
          · rw [List.dedup_cons_of_mem (List.mem_append_left _ hmem), List.dedup_cons_of_mem,
              hrest]
            exact List.mem_append_left _ (List.mem_filter.mpr ⟨hmem, by simpa using hlt⟩)
          · rw [List.dedup_cons_of_notMem, List.dedup_cons_of_notMem, hrest]
            · simp [hmem, hne]
            · simp [hmem, hne]
        · rw [List.filter_cons_of_neg (by simpa using hlt), List.cons_append,
            List.dedup_cons_of_mem, hrest]
          rw [hle other List.mem_cons_self hlt]
          exact List.mem_append_right _ List.mem_cons_self
  rw [hsame]
  refine pairwise_dedup_append_one h fun other hother => ?_
  simpa using (List.mem_filter.mp hother).2

namespace Ordered

variable {α : Type*} [DecidableEq α] {key : α → ℤ} {f : Feed α}

theorem init : Ordered key ({} : Feed α) where
  toReads := Reads.init
  past := List.forall_mem_nil _
  before := List.forall_mem_nil _
  settled := List.Pairwise.nil
  upTo := List.Pairwise.nil

theorem arrive (h : Ordered key f) {item : α}
    (hlawful : Feed.Lawful key f (.arrive item)) :
    Ordered key (f.step key (.arrive item)) := by
  have hold {other : α} (hgone : other ∉ f.queue ++ [item]) : other ∉ f.queue :=
    fun hmem => hgone (List.mem_append_left _ hmem)
  refine ⟨h.toReads.arrive hlawful, ?_, ?_, ?_, h.upTo⟩
  · exact fun other htaken hgone => h.past other htaken (hold hgone)
  · exact fun other htaken hgone => h.before other htaken (hold hgone)
  · have hsame : f.taken.filter (· ∉ f.queue ++ [item]) = f.taken.filter (· ∉ f.queue) := by
      refine List.filter_congr fun other htaken => ?_
      have hne : other ≠ item := by
        rintro rfl
        exact lt_irrefl _ (hlawful.2 other (h.mem_arrived htaken))
      simp [hne]
    show (f.taken.filter (· ∉ f.queue ++ [item])).dedup.Pairwise _
    rw [hsame]
    exact h.settled

theorem forget (h : Ordered key f) (hkept : Feed.Unforgotten f .forget) :
    Ordered key (f.step key .forget) := by
  have hreads := h.toReads.forget
  unfold Feed.step at hreads ⊢
  dsimp only at hreads ⊢
  split at hreads
  · exact h
  · next item queue hqueue =>
      have hitem : item ∉ f.taken := hkept item (by rw [hqueue]; rfl)
      have hold {other : α} (htaken : other ∈ f.taken) (hgone : other ∉ queue) :
          other ∉ f.queue := by
        rw [hqueue, List.mem_cons, not_or]
        exact ⟨fun hsame => hitem (hsame ▸ htaken), hgone⟩
      refine ⟨hreads, ?_, ?_, ?_, h.upTo⟩
      · exact fun other htaken hgone => h.past other htaken (hold htaken hgone)
      · exact fun other htaken hgone => h.before other htaken (hold htaken hgone)
      · have hsame : f.taken.filter (· ∉ queue) = f.taken.filter (· ∉ f.queue) := by
          refine List.filter_congr fun other htaken => ?_
          have hne : other ≠ item := fun hsame => hitem (hsame ▸ htaken)
          simp [hqueue, hne]
        show (f.taken.filter (· ∉ queue)).dedup.Pairwise _
        rw [hsame]
        exact h.settled

theorem poll (h : Ordered key f) (limit : ℕ) (answered : Bool) :
    Ordered key (f.step key (.poll limit answered)) := by
  have hreads := h.toReads.poll limit answered
  unfold Feed.step at hreads ⊢
  dsimp only at hreads ⊢
  split at hreads
  · have hmem {other : α} : other ∈ f.queue.filter (fun item => f.offset ≤ key item) ↔
        other ∈ f.queue ∧ f.offset ≤ key other := by
      rw [List.mem_filter, decide_eq_true_eq]
    refine ⟨hreads, ?_, ?_, ?_, h.upTo⟩
    · intro other htaken hgone new hnew
      refine hreads.gone other (Or.inl (hreads.taken other htaken)) hgone new ?_
      dsimp only at hnew
      split at hnew
      · exact (List.take_sublist _ _).subset hnew
      · cases hnew
    · intro other htaken hgone
      by_cases hqueue : other ∈ f.queue
      · exact Or.inr (not_le.mp fun hahead => hgone (hmem.mpr ⟨hqueue, hahead⟩))
      · exact h.before other htaken hqueue
    · rcases h.offset with hzero | ⟨last, hlast, hoffset⟩
      · -- with offset `0` nothing is dropped
        have hall : f.queue.filter (fun item => f.offset ≤ key item) = f.queue := by
          refine List.filter_eq_self.mpr fun other hother => ?_
          have := h.positive other (h.queue.subset hother)
          exact decide_eq_true (by omega)
        show (f.taken.filter (· ∉ f.queue.filter fun item => f.offset ≤ key item)).dedup.Pairwise _
        rw [hall]
        exact h.settled
      · have hsame : f.taken.filter (· ∉ f.queue.filter fun item => f.offset ≤ key item) =
            f.taken.filter (key · < f.offset) := by
          refine List.filter_congr fun other htaken => ?_
          rw [decide_eq_decide, hmem, not_and, not_le]
          constructor
          · intro hgone
            by_cases hqueue : other ∈ f.queue
            · exact hgone hqueue
            · refine (h.before other htaken hqueue).resolve_left fun hzero => ?_
              have := h.positive last (h.mem_arrived hlast)
              omega
          · exact fun hbehind _ => hbehind
        show (f.taken.filter (· ∉ f.queue.filter fun item => f.offset ≤ key item)).dedup.Pairwise _
        rw [hsame]
        exact h.upTo
  · exact h

/-- Before the first item of an answer, what was taken is in order. -/
theorem upTo_first (h : Ordered key f) {item : α} {batch : List α}
    (hbatch : f.batch = item :: batch) :
    (f.taken.filter (key · < key item)).dedup.Pairwise (key · < key ·) := by
  have hitem : item ∈ f.batch := hbatch ▸ List.mem_cons_self
  have hahead := h.ahead item hitem
  rcases h.offset with hzero | ⟨last, hlast, hoffset⟩
  · -- the first item since the start: before it lies what left the queue
    have hsame : f.taken.filter (key · < key item) = f.taken.filter (· ∉ f.queue) := by
      refine List.filter_congr fun other htaken => ?_
      rw [decide_eq_decide]
      constructor
      · intro hlt hqueue
        have hpositive := h.positive other (h.mem_arrived htaken)
        have hle := h.first_le hbatch hqueue (by omega)
        omega
      · exact fun hgone => h.past other htaken hgone item hitem
    rw [hsame]
    exact h.settled
  · have hsame : f.taken.filter (key · < key item) = f.taken.filter (key · < f.offset) := by
      refine List.filter_congr fun other htaken => ?_
      rw [decide_eq_decide]
      constructor
      · intro hlt
        by_cases hqueue : other ∈ f.queue
        · by_contra hfrom
          have hle := h.first_le hbatch hqueue (not_lt.mp hfrom)
          omega
        · refine (h.before other htaken hqueue).resolve_left fun hzero => ?_
          have := h.positive last (h.mem_arrived hlast)
          omega
      · exact fun hbehind => hbehind.trans_le hahead
    rw [hsame]
    exact h.upTo

theorem take (h : Ordered key f) (rest : Bool) : Ordered key (f.step key (.take rest)) := by
  have hreads := h.toReads.take rest
  unfold Feed.step at hreads ⊢
  dsimp only at hreads ⊢
  split at hreads
  · exact h
  · next item batch hbatch =>
      have hitem : item ∈ f.batch := hbatch ▸ List.mem_cons_self
      have hfirst := h.first_lt hbatch
      refine ⟨hreads, ?_, ?_, ?_, ?_⟩
      · intro other htaken hgone new hnew
        have hnew' : new ∈ batch := by
          dsimp only at hnew
          split at hnew
          · exact hnew
          · cases hnew
        rcases List.mem_append.mp htaken with htaken | hsame
        · refine h.past other htaken hgone new ?_
          rw [hbatch]
          exact List.mem_cons_of_mem _ hnew'
        · rw [List.mem_singleton.mp hsame]
          exact hfirst new hnew'
      · intro other htaken hgone
        right
        rcases List.mem_append.mp htaken with htaken | hsame
        · have := h.past other htaken hgone item hitem
          dsimp only
          omega
        · rw [List.mem_singleton.mp hsame]
          exact Int.lt_succ _
      · by_cases hqueue : item ∈ f.queue
        · have hsame : (f.taken ++ [item]).filter (· ∉ f.queue) =
              f.taken.filter (· ∉ f.queue) := by
            simp [hqueue]
          show ((f.taken ++ [item]).filter (· ∉ f.queue)).dedup.Pairwise _
          rw [hsame]
          exact h.settled
        · have hsame : (f.taken ++ [item]).filter (· ∉ f.queue) =
              f.taken.filter (· ∉ f.queue) ++ [item] := by
            simp [hqueue]
          show ((f.taken ++ [item]).filter (· ∉ f.queue)).dedup.Pairwise _
          rw [hsame]
          refine pairwise_dedup_append_one h.settled fun other hother => ?_
          have hgone := List.mem_filter.mp hother
          exact h.past other hgone.1 (of_decide_eq_true hgone.2) item hitem
      · have hsame : (f.taken ++ [item]).filter (key · < key item + 1) =
            f.taken.filter (key · < key item + 1) ++ [item] := by
          have hlast : [item].filter (key · < key item + 1) = [item] :=
            List.filter_eq_self.mpr fun other hother => by
              rw [List.mem_singleton.mp hother]
              exact decide_eq_true (Int.lt_succ _)
          rw [List.filter_append, hlast]
        show ((f.taken ++ [item]).filter (key · < key item + 1)).dedup.Pairwise _
        rw [hsame]
        refine pairwise_dedup_again ?_ fun other hother hnot => ?_
        · have hfilter : (f.taken.filter (key · < key item + 1)).filter (key · < key item) =
              f.taken.filter (key · < key item) := by
            rw [List.filter_filter]
            refine List.filter_congr fun other _ => ?_
            rw [← Bool.decide_and, decide_eq_decide]
            omega
          rw [hfilter]
          exact h.upTo_first hbatch
        · have hother' := List.mem_filter.mp hother
          have hlt := of_decide_eq_true hother'.2
          exact h.eq_of_key (h.mem_arrived hother'.1) (h.batch.subset hitem) (by omega)

theorem restart (h : Ordered key f) : Ordered key (f.step key .restart) where
  toReads := h.toReads.restart
  past _ _ _ := List.forall_mem_nil _
  before _ _ _ := Or.inl rfl
  settled := h.settled
  upTo := by
    have hnone : f.taken.filter (key · < 0) = [] := by
      refine List.filter_eq_nil_iff.mpr fun other htaken => ?_
      have := h.positive other (h.mem_arrived htaken)
      simp only [decide_eq_true_eq]
      omega
    show (f.taken.filter (key · < 0)).dedup.Pairwise _
    rw [hnone]
    exact List.Pairwise.nil

theorem restore (h : Ordered key f) {kept : List α}
    (hlawful : Feed.Lawful key f (.restore kept)) :
    Ordered key (f.step key (.restore kept)) where
  toReads := h.toReads.restore hlawful
  past other hother := h.past other (hlawful.1.subset hother)
  before other hother := h.before other (hlawful.1.subset hother)
  settled := by
    show (kept.filter (· ∉ f.queue)).dedup.Pairwise _
    rw [Reads.filter_kept hlawful fun item hqueue _ => decide_eq_false (not_not_intro hqueue)]
    exact h.settled
  upTo := by
    show (kept.filter (key · < f.offset)).dedup.Pairwise _
    rw [Reads.filter_kept hlawful fun item _ hahead => decide_eq_false (not_lt.mpr hahead)]
    exact h.upTo

theorem step (h : Ordered key f) (a : FeedAction α)
    (hguard : Feed.Lawful key f a ∧ Feed.Unforgotten f a) : Ordered key (f.step key a) := by
  cases a with
  | arrive item => exact h.arrive hguard.1
  | forget => exact h.forget hguard.2
  | poll limit answered => exact h.poll limit answered
  | take rest => exact h.take rest
  | restart => exact h.restart
  | restore kept => exact h.restore hguard.1

/-- The last times of a reader that has caught up are in the order of arrival. -/
theorem dedup_taken (h : Ordered key f) (hcaught : f.CaughtUp key) :
    f.taken.dedup = f.arrived.filter (· ∈ f.taken) := by
  have hall : f.taken.filter (key · < f.offset) = f.taken :=
    List.filter_eq_self.mpr fun other htaken => decide_eq_true (hcaught other htaken)
  have hleft := h.upTo
  rw [hall] at hleft
  have hright : (f.arrived.filter (· ∈ f.taken)).Pairwise (key · < key ·) :=
    h.increasing.sublist List.filter_sublist
  have hperm : f.taken.dedup.Perm (f.arrived.filter (· ∈ f.taken)) := by
    refine (List.perm_ext_iff_of_nodup (List.nodup_dedup _) ?_).mpr fun item => ?_
    · refine List.Pairwise.imp (fun {first second} hlt => ?_) hright
      rintro rfl
      exact lt_irrefl _ hlt
    · rw [List.mem_dedup, List.mem_filter, decide_eq_true_eq]
      exact ⟨fun htaken => ⟨h.mem_arrived htaken, htaken⟩, fun hboth => hboth.2⟩
  refine hperm.eq_of_pairwise ?_ hleft hright
  exact fun first second _ _ hlt hgt => absurd hlt (not_lt.mpr hgt.le)

/-- Taking items again makes no difference to an operation that overrides its earlier times. -/
theorem exec_taken {σ : Type*} {op : σ → α → σ} (h : Ordered key f) (hcaught : f.CaughtUp key)
    (hop : Overrides op) (s : σ) :
    exec op s f.taken = exec op s (f.arrived.filter (· ∈ f.taken)) := by
  rw [← hop.exec_dedup, h.dedup_taken hcaught]

end Ordered

/-! ## Each item once -/

/-- What holds as long as the reader starts again only after the server dropped what was taken. -/
structure Single {α : Type*} (key : α → ℤ) (f : Feed α) : Prop extends Reads key f where
  once : f.log.Pairwise (key · < key ·)
  passed : ∀ item ∈ f.log, key item < f.offset ∨
    (∀ other ∈ f.queue, key item < key other) ∧ ∀ other ∈ f.batch, key item < key other

namespace Single

variable {α : Type*} {key : α → ℤ} {f : Feed α}

theorem init : Single key ({} : Feed α) where
  toReads := Reads.init
  once := List.Pairwise.nil
  passed := List.forall_mem_nil _

theorem step (h : Single key f) (a : FeedAction α)
    (hguard : Feed.Lawful key f a ∧ Feed.Confirmed f a) : Single key (f.step key a) := by
  have hreads := h.toReads.step a hguard.1
  cases a with
  | arrive item =>
      refine ⟨hreads, h.once, fun other hlog => ?_⟩
      rcases h.passed other hlog with hbehind | ⟨hqueue, hbatch⟩
      · exact Or.inl hbehind
      · refine Or.inr ⟨fun new hnew => ?_, hbatch⟩
        rcases List.mem_append.mp hnew with hnew | hnew
        · exact hqueue new hnew
        · rw [List.mem_singleton.mp hnew]
          exact hguard.1.2 other (h.log other hlog)
  | forget =>
      unfold Feed.step at hreads ⊢
      dsimp only at hreads ⊢
      split at hreads
      · exact h
      · next item queue hqueue =>
          refine ⟨hreads, h.once, fun other hlog => ?_⟩
          refine (h.passed other hlog).imp_right (And.imp_left fun hlater new hnew => ?_)
          refine hlater new ?_
          rw [hqueue]
          exact List.mem_cons_of_mem _ hnew
  | poll limit answered =>
      unfold Feed.step at hreads ⊢
      dsimp only at hreads ⊢
      split at hreads
      · refine ⟨hreads, h.once, fun other hlog => ?_⟩
        refine (h.passed other hlog).imp_right fun hlater => ?_
        have hqueue : ∀ new ∈ f.queue.filter (fun item => f.offset ≤ key item),
            key other < key new := fun new hnew => hlater.1 new (List.mem_filter.mp hnew).1
        refine ⟨hqueue, fun new hnew => hqueue new ?_⟩
        dsimp only at hnew
        split at hnew
        · exact (List.take_sublist _ _).subset hnew
        · cases hnew
      · exact h
  | take rest =>
      unfold Feed.step at hreads ⊢
      dsimp only at hreads ⊢
      split at hreads
      · exact h
      · next item batch hbatch =>
          have hitem : item ∈ f.batch := hbatch ▸ List.mem_cons_self
          have hlater : ∀ other ∈ f.log, key other < key item := by
            intro other hlog
            rcases h.passed other hlog with hbehind | ⟨-, hahead⟩
            · exact hbehind.trans_le (h.ahead item hitem)
            · exact hahead item hitem
          refine ⟨hreads, ?_, fun other hlog => Or.inl ?_⟩
          · refine List.pairwise_append.mpr ⟨h.once, List.pairwise_singleton _ _, ?_⟩
            intro other hlog new hnew
            rw [List.mem_singleton.mp hnew]
            exact hlater other hlog
          · rcases List.mem_append.mp hlog with hlog | hsame
            · have := hlater other hlog
              dsimp only
              omega
            · rw [List.mem_singleton.mp hsame]
              exact Int.lt_succ _
  | restart =>
      refine ⟨hreads, h.once, fun other hlog => Or.inr ⟨?_, List.forall_mem_nil _⟩⟩
      exact h.gone other (Or.inl hlog) fun hqueue => hguard.2 other hqueue hlog
  | restore kept => exact ⟨hreads, h.once, h.passed⟩

end Single

end Basis
