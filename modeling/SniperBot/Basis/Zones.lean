import Mathlib.Algebra.Order.Group.Int
import Mathlib.Data.Int.LeastGreatest
import Mathlib.Order.SuccPred.IntervalSucc
import Mathlib.Tactic.Linarith
import Mathlib.Data.Int.ConditionallyCompleteOrder

/-!
# Time zones and local days

Instants and wall readings are whole numbers of one unit. A zone gives every instant the offset of
its wall clock, and reads a wall reading back as an instant. A reading is missing when the clock is
set forward over it, and repeated when the clock is set back over it.

Where no midnight is missing or repeated, the local date never falls and each midnight is read once;
a local day is the interval from its midnight to the next one, and these intervals tile the line.
Other readings may be missing or repeated: the days may have any lengths.
-/

namespace Basis

/-- The units of a day of the wall clock. -/
structure Zone (day : Int) where
  utcoffset : Int → Int
  /-- The offset of a wall reading; of a repeated reading it is the offset at its first instant. -/
  wallOffset : Int → Int
  offset_lt : ∀ t, |utcoffset t| < day
  /-- A reading of one instant has the offset of this instant. -/
  wallOffset_eq : ∀ t, (∀ u, u + utcoffset u = t + utcoffset t → u = t) →
    wallOffset (t + utcoffset t) = utcoffset t

namespace Zone

variable {day : Int} (zone : Zone day)

/-- The wall reading at an instant. -/
def wall (t : Int) : Int := t + zone.utcoffset t

/-- The instant of a wall reading. -/
def instant (reading : Int) : Int := reading - zone.wallOffset reading

/-- The number of the local date. -/
def date (t : Int) : Int := zone.wall t / day

/-- The clock is set forward over the reading. -/
def Missing (reading : Int) : Prop :=
  ∃ t, t + zone.utcoffset (t - 1) ≤ reading ∧ reading < t + zone.utcoffset t

/-- The clock is set back over the reading. -/
def Repeated (reading : Int) : Prop :=
  ∃ t, t + zone.utcoffset t ≤ reading ∧ reading < t + zone.utcoffset (t - 1)

/-- The local midnights exist and are unique. -/
structure MidnightsKept : Prop where
  exist : ∀ d : Int, ¬ zone.Missing (d * day)
  unique : ∀ d : Int, ¬ zone.Repeated (d * day)

variable {zone}

theorem day_pos (zone : Zone day) : 0 < day := (abs_nonneg _).trans_lt (zone.offset_lt 0)

/-- The local date is at least `d` from the reading of its midnight on. -/
theorem le_date_iff {d t : Int} : d ≤ zone.date t ↔ d * day ≤ zone.wall t :=
  Int.le_ediv_iff_mul_le zone.day_pos

theorem date_lt_iff {d t : Int} : zone.date t < d ↔ zone.wall t < d * day :=
  Int.ediv_lt_iff_lt_mul zone.day_pos

/-- Every date is behind some instant, and ahead of some other one. -/
theorem exists_le_date (zone : Zone day) (d : Int) : d ≤ zone.date ((d + 1) * day) := by
  have hoffset := (abs_lt.mp (zone.offset_lt ((d + 1) * day))).1
  rw [le_date_iff, wall]
  linarith

theorem date_lt_of_le (zone : Zone day) {d t : Int} (ht : t ≤ (d - 1) * day) :
    zone.date t < d := by
  have hoffset := (abs_lt.mp (zone.offset_lt t)).2
  rw [date_lt_iff, wall]
  linarith

namespace MidnightsKept

variable (h : zone.MidnightsKept)
include h

/-- From one instant to the next the date stays, or midnight is read. -/
theorem date_succ (t : Int) : zone.date (t + 1) = zone.date t ∨
    zone.date (t + 1) = zone.date t + 1 ∧ zone.wall (t + 1) = zone.date (t + 1) * day := by
  have hfrom : zone.date t * day ≤ zone.wall t := le_date_iff.mp le_rfl
  have hto : zone.wall t < (zone.date t + 1) * day := date_lt_iff.mp (Int.lt_succ _)
  have hmissing := h.exist (zone.date t + 1)
  have hrepeated := h.unique (zone.date t)
  simp only [Missing, Repeated, not_exists, not_and, not_lt] at hmissing hrepeated
  have hahead := hmissing (t + 1)
  have hback := hrepeated (t + 1)
  rw [Int.add_sub_cancel] at hahead hback
  have hsucc : zone.wall (t + 1) = t + 1 + zone.utcoffset (t + 1) := rfl
  have hwall : zone.wall t = t + zone.utcoffset t := rfl
  rcases lt_or_ge (zone.utcoffset (t + 1)) (zone.utcoffset t) with hset | hset
  · -- set back: the midnight of the date is not read again
    have hkept : zone.date t * day < zone.wall (t + 1) := by
      by_contra hle
      have := hback (by linarith)
      linarith
    exact .inl (le_antisymm (Int.lt_add_one_iff.mp (date_lt_iff.mpr (by linarith)))
      (le_date_iff.mpr hkept.le))
  · rcases lt_or_ge (zone.wall (t + 1)) ((zone.date t + 1) * day) with hbefore | hafter
    · exact .inl (le_antisymm (Int.lt_add_one_iff.mp (date_lt_iff.mpr hbefore))
        (le_date_iff.mpr (by linarith)))
    · -- set forward, if at all: the next midnight is not jumped over
      have hread : zone.wall (t + 1) = (zone.date t + 1) * day :=
        le_antisymm (hsucc ▸ hahead (by linarith)) hafter
      have hdate : zone.date (t + 1) = zone.date t + 1 := by
        refine le_antisymm (Int.lt_add_one_iff.mp (date_lt_iff.mpr ?_)) (le_date_iff.mpr hafter)
        rw [hread]
        linarith [zone.day_pos]
      exact .inr ⟨hdate, hread.trans (by rw [hdate])⟩

theorem date_mono : Monotone zone.date := by
  refine monotone_int_of_le_succ fun t => ?_
  rcases h.date_succ t with hstay | ⟨hrise, -⟩
  · exact hstay.ge
  · omega

/-- The first instant of a date reads its midnight. -/
theorem exists_first (d : Int) :
    ∃ t, zone.wall t = d * day ∧ ∀ s, d ≤ zone.date s ↔ t ≤ s := by
  obtain ⟨t, hreached, hleast⟩ := Int.exists_least_of_bdd (P := fun t => d ≤ zone.date t)
    ⟨(d - 1) * day, fun t ht => by
      by_contra hlt
      exact absurd ht (not_le.mpr (zone.date_lt_of_le (not_le.mp hlt).le))⟩
    ⟨_, zone.exists_le_date d⟩
  refine ⟨t, ?_, fun s => ⟨hleast s, fun hs => hreached.trans (h.date_mono hs)⟩⟩
  have hbefore : zone.date (t - 1) < d := by
    by_contra hle
    have := hleast (t - 1) (not_lt.mp hle)
    omega
  have hsucc := h.date_succ (t - 1)
  rw [Int.sub_add_cancel] at hsucc
  rcases hsucc with hstay | ⟨hrise, hread⟩
  · omega
  · rw [hread, show zone.date t = d by omega]

/-- An instant that reads a midnight is the first one of its date. -/
theorem first_of_midnight {d t : Int} (hread : zone.wall t = d * day) (s : Int) :
    d ≤ zone.date s ↔ t ≤ s := by
  obtain ⟨first, -, hiff⟩ := h.exists_first d
  have hle : first ≤ t := (hiff t).mp (le_date_iff.mpr hread.ge)
  -- the date rises between the instant before and this one
  have hbefore : zone.date (t - 1) < d := by
    have hunique := h.unique d
    simp only [Repeated, not_exists, not_and, not_lt] at hunique
    have hback := hunique t (le_of_eq hread)
    rw [date_lt_iff]
    have hwall : zone.wall (t - 1) = t - 1 + zone.utcoffset (t - 1) := rfl
    have := zone.day_pos
    linarith
  have hge : ¬ first ≤ t - 1 := fun hfirst => absurd ((hiff (t - 1)).mpr hfirst) (not_le.mpr hbefore)
  rw [hiff, show first = t by omega]

/-- Each local midnight is read at one instant. -/
theorem existsUnique_midnight (d : Int) : ∃! t, zone.wall t = d * day := by
  obtain ⟨t, hread, hiff⟩ := h.exists_first d
  refine ⟨t, hread, fun s hs => ?_⟩
  have hfirst := h.first_of_midnight hs
  exact le_antisymm ((hfirst t).mp ((hiff t).mpr le_rfl)) ((hiff s).mp ((hfirst s).mpr le_rfl))

/-- The instant of the reading of midnight reads midnight. -/
theorem wall_instant (d : Int) : zone.wall (zone.instant (d * day)) = d * day := by
  obtain ⟨midnight, hread, honly⟩ := h.existsUnique_midnight d
  have hoffset : zone.wallOffset (d * day) = zone.utcoffset midnight := by
    rw [← hread]
    exact zone.wallOffset_eq midnight fun u hu => honly u (hu.trans hread)
  have hinstant : zone.instant (d * day) = midnight := by
    rw [instant, hoffset, ← hread, wall, Int.add_sub_cancel]
  rw [hinstant, hread]

theorem le_date_iff_instant (d t : Int) : d ≤ zone.date t ↔ zone.instant (d * day) ≤ t :=
  h.first_of_midnight (h.wall_instant d) t

theorem date_instant (d : Int) : zone.date (zone.instant (d * day)) = d := by
  rw [date, h.wall_instant, Int.mul_ediv_cancel _ zone.day_pos.ne']

theorem date_instant_sub_one (d : Int) : zone.date (zone.instant (d * day) - 1) = d - 1 := by
  have hbefore := h.le_date_iff_instant d (zone.instant (d * day) - 1)
  have hsucc := h.date_succ (zone.instant (d * day) - 1)
  rw [Int.sub_add_cancel, h.date_instant] at hsucc
  omega

theorem date_eq_iff (d t : Int) :
    zone.date t = d ↔ zone.instant (d * day) ≤ t ∧ t < zone.instant ((d + 1) * day) := by
  have hfrom := h.le_date_iff_instant d t
  have hto := h.le_date_iff_instant (d + 1) t
  omega

end MidnightsKept

end Zone

/-! ## Tilings -/

/-- The interval of each point, from its start to before its end: the points of an interval have
the same one, and the next one begins where it ends. -/
structure Tiles (bounds : Int → Int × Int) : Prop where
  mem : ∀ t, (bounds t).1 ≤ t ∧ t < (bounds t).2
  same : ∀ t u, (bounds u).1 ≤ t → t < (bounds u).2 → bounds t = bounds u
  next : ∀ t, (bounds (bounds t).2).1 = (bounds t).2
  previous : ∀ t, (bounds ((bounds t).1 - 1)).2 = (bounds t).1

/-- The local days, each from its midnight to the next one. -/
theorem Zone.MidnightsKept.tiles {day : Int} {zone : Zone day} (h : zone.MidnightsKept) :
    Tiles fun t =>
      (zone.instant (zone.date t * day), zone.instant ((zone.date t + 1) * day)) where
  mem t := (h.date_eq_iff _ t).mp rfl
  same t u hfrom hto := by
    rw [(h.date_eq_iff (zone.date u) t).mpr ⟨hfrom, hto⟩]
  next t := by rw [h.date_instant]
  previous t := by rw [h.date_instant_sub_one, Int.sub_add_cancel]

end Basis
