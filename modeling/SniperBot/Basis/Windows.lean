import Mathlib.Algebra.BigOperators.Group.List.Basic
import Mathlib.Algebra.Order.Group.Nat
import Mathlib.Data.List.Chain

/-!
# Windows of time

What happens within a half-open window `[start, stop)` is counted or summed. Windows that meet add
up (`windowSum_chain`), also where each item lasts: those that run at the end of a window are those
that run at its start, with those that begin and without those that end in it (`running_flow`).
-/

namespace Basis

variable {ι τ M : Type*} [LinearOrder τ]

/-- The window holds the time. -/
def Within (start stop time : τ) : Prop := start ≤ time ∧ time < stop

instance (start stop time : τ) : Decidable (Within start stop time) :=
  inferInstanceAs (Decidable (_ ∧ _))

/-- The items whose time is in the window. -/
def during (time : ι → τ) (items : List ι) (start stop : τ) : List ι :=
  items.filter fun item => Within start stop (time item)

section Sums

variable [AddCommMonoid M]

/-- The sum of a weight over the items in the window. -/
def windowSum (time : ι → τ) (weight : ι → M) (items : List ι) (start stop : τ) : M :=
  ((during time items start stop).map weight).sum

variable {time : ι → τ} {weight : ι → M} {items : List ι} {start mid stop : τ}

/-- A filtered sum, with zeros for what is left out. -/
theorem sum_filter (p : ι → Bool) (weight : ι → M) (items : List ι) :
    ((items.filter p).map weight).sum =
      (items.map fun item => if p item = true then weight item else 0).sum := by
  induction items with
  | nil => rfl
  | cons item rest ih =>
      rw [List.filter_cons, List.map_cons, List.sum_cons, ← ih]
      split
      · rw [List.map_cons, List.sum_cons]
      · rw [zero_add]

theorem windowSum_eq (time : ι → τ) (weight : ι → M) (items : List ι) (start stop : τ) :
    windowSum time weight items start stop =
      (items.map fun item => if Within start stop (time item) then weight item else 0).sum := by
  rw [windowSum, during, sum_filter]
  simp only [decide_eq_true_eq]

theorem windowSum_split (time : ι → τ) (weight : ι → M) (items : List ι) (hstart : start ≤ mid)
    (hstop : mid ≤ stop) :
    windowSum time weight items start stop =
      windowSum time weight items start mid + windowSum time weight items mid stop := by
  rw [windowSum_eq, windowSum_eq, windowSum_eq, ← List.sum_map_add]
  congr 1
  apply List.map_congr_left
  intro item _
  by_cases hmid : time item < mid
  · have hsecond : ¬Within mid stop (time item) := fun h => (not_lt.mpr h.1) hmid
    have hfirst : Within start stop (time item) ↔ Within start mid (time item) :=
      ⟨fun h => ⟨h.1, hmid⟩, fun h => ⟨h.1, lt_of_lt_of_le h.2 hstop⟩⟩
    rw [if_neg hsecond, add_zero, if_congr hfirst rfl rfl]
  · have hfirst : ¬Within start mid (time item) := fun h => hmid h.2
    have hsecond : Within start stop (time item) ↔ Within mid stop (time item) :=
      ⟨fun h => ⟨not_lt.mp hmid, h.2⟩, fun h => ⟨hstart.trans h.1, h.2⟩⟩
    rw [if_neg hfirst, zero_add, if_congr hsecond rfl rfl]

/-- The windows between the bounds, in their order. -/
def windows : τ → List τ → List (τ × τ)
  | _, [] => []
  | start, stop :: rest => (start, stop) :: windows stop rest

/-- Windows one after the other make one window. -/
theorem windowSum_chain (time : ι → τ) (weight : ι → M) (items : List ι) (start : τ)
    (bounds : List τ) (hchain : (start :: bounds).IsChain (· ≤ ·)) :
    ((windows start bounds).map fun w => windowSum time weight items w.1 w.2).sum =
      windowSum time weight items start ((start :: bounds).getLast (List.cons_ne_nil _ _)) := by
  induction bounds generalizing start with
  | nil =>
      have hempty : during time items start start = [] :=
        List.filter_eq_nil_iff.mpr fun item _ => by
          rw [decide_eq_true_eq]
          exact fun h => lt_irrefl _ (lt_of_le_of_lt h.1 h.2)
      simp [windows, windowSum, hempty]
  | cons stop rest ih =>
      obtain ⟨hle, hrest⟩ := List.isChain_cons_cons.mp hchain
      have hlast : stop ≤ (stop :: rest).getLast (List.cons_ne_nil _ _) := by
        rcases List.mem_cons.mp (List.getLast_mem (List.cons_ne_nil stop rest)) with heq | hmem
        · exact heq.ge
        · exact (List.pairwise_cons.mp (List.isChain_iff_pairwise.mp hrest)).1 _ hmem
      rw [windows, List.map_cons, List.sum_cons, ih stop hrest,
        List.getLast_cons (List.cons_ne_nil stop rest)]
      exact (windowSum_split time weight items hle hlast).symm

/-- A window around all items leaves none out. -/
theorem windowSum_all (weight : ι → M)
    (hall : ∀ item ∈ items, Within start stop (time item)) :
    windowSum time weight items start stop = (items.map weight).sum := by
  have hkept : during time items start stop = items :=
    List.filter_eq_self.mpr fun item hitem => by simpa using hall item hitem
  rw [windowSum, hkept]

end Sums

theorem length_during (time : ι → τ) (items : List ι) (start stop : τ) :
    (during time items start stop).length = windowSum time (fun _ => 1) items start stop := by
  simp [windowSum]

/-! ## Items that last -/

/-- The items that have begun before the time and have not ended before it. -/
def runningAt (begun : ι → τ) (ended : ι → Option τ) (items : List ι) (time : τ) : List ι :=
  items.filter fun item => begun item < time ∧ (ended item).all (time ≤ ·)

/-- The items that end in the window. -/
def endedDuring (ended : ι → Option τ) (items : List ι) (start stop : τ) : List ι :=
  items.filter fun item => (ended item).any fun time => Within start stop time

/-- The flow of one item. -/
theorem item_flow {begun : τ} {ended : Option τ} {start stop : τ}
    (hspell : ∀ time ∈ ended, begun ≤ time) (hle : start ≤ stop) :
    (if begun < stop ∧ ended.all (stop ≤ ·) then 1 else 0) +
        (if ended.any fun time => Within start stop time then 1 else 0) =
      (if begun < start ∧ ended.all (start ≤ ·) then 1 else 0) +
        if Within start stop begun then 1 else 0 := by
  have hlater (hstart : begun < start) : begun < stop := lt_of_lt_of_le hstart hle
  cases ended with
  | none =>
      by_cases hstart : begun < start
      · simp [Within, hstart, hlater hstart, not_le.mpr hstart]
      · simp [Within, hstart, not_lt.mp hstart]
  | some time =>
      have hbegun : begun ≤ time := hspell time rfl
      rcases lt_or_ge time start with hbefore | hafter
      · -- over before the window
        have hstart := lt_of_le_of_lt hbegun hbefore
        simp [Within, not_le.mpr hbefore, not_le.mpr (lt_of_lt_of_le hbefore hle),
          not_le.mpr hstart]
      · rcases lt_or_ge time stop with hin | hbeyond
        · have hstop := lt_of_le_of_lt hbegun hin
          by_cases hstart : begun < start
          · simp [Within, hafter, hin, not_le.mpr hin, hstart, not_le.mpr hstart]
          · simp [Within, hafter, hin, not_le.mpr hin, hstart, hstop, not_lt.mp hstart]
        · by_cases hstart : begun < start
          · simp [Within, hafter, hbeyond, not_lt.mpr hbeyond, hstart, hlater hstart,
              not_le.mpr hstart]
          · simp [Within, hafter, hbeyond, not_lt.mpr hbeyond, hstart, not_lt.mp hstart]

theorem running_flow (begun : ι → τ) (ended : ι → Option τ) (items : List ι) {start stop : τ}
    (hspell : ∀ item ∈ items, ∀ time ∈ ended item, begun item ≤ time) (hle : start ≤ stop) :
    (runningAt begun ended items stop).length + (endedDuring ended items start stop).length =
      (runningAt begun ended items start).length + (during begun items start stop).length := by
  induction items with
  | nil => rfl
  | cons item rest ih =>
      have hrest := ih fun other hother => hspell other (List.mem_cons_of_mem _ hother)
      have hitem := item_flow (hspell item List.mem_cons_self) hle
      simp only [runningAt, endedDuring, during, ← List.countP_eq_length_filter,
        List.countP_cons, decide_eq_true_eq] at hrest ⊢
      omega

end Basis
