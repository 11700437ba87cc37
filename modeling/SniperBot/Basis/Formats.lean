import Mathlib.Control.Monad.Basic
import Mathlib.Data.List.Basic

/-!
# Formats and their readers

A format says which words stand for a value. A reader takes a word from the front of its input. It
is exact for a format when what it can take is a word of the format and the rest stays: then no
word of the format is the beginning of another one, and a word stands for one value only.

A reader that fails does so with an error of a given kind.
-/

namespace Basis

variable {τ ε α β : Type}

/-- Which words stand for a value. -/
abbrev Format (τ α : Type) := α → List τ → Prop

/-- A reader takes from the front of its input, or fails. -/
abbrev Reader (τ ε α : Type) := StateT (List τ) (Except ε) α

namespace Format

/-- One value, written by nothing. -/
def pure (value : α) : Format τ α := fun other word => other = value ∧ word = []

/-- A first part, and a second one that depends on the value of the first. -/
def bind (first : Format τ α) (second : α → Format τ β) : Format τ β := fun value word =>
  ∃ a before after, first a before ∧ second a value after ∧ before ++ after = word

/-- The same words for the images of the values. -/
def map (f : α → β) (format : Format τ α) : Format τ β := fun value word =>
  ∃ a, format a word ∧ f a = value

/-- No value. -/
def empty : Format τ α := fun _ _ => False

/-- One value of each format, one after the other. -/
def sequence : List (Format τ α) → Format τ (List α)
  | [] => pure []
  | format :: formats => format.bind fun a => (sequence formats).map (a :: ·)

/-- The word is cut into parts, one for each value. -/
theorem sequence_iff (formats : List (Format τ α)) (values : List α) (word : List τ) :
    sequence formats values word ↔ ∃ parts : List (α × List τ),
      parts.length = formats.length ∧ (∀ entry ∈ formats.zip parts, entry.1 entry.2.1 entry.2.2) ∧
        values = parts.map Prod.fst ∧ word = (parts.map Prod.snd).flatten := by
  induction formats generalizing values word with
  | nil =>
      constructor
      · rintro ⟨rfl, rfl⟩
        exact ⟨[], rfl, fun entry hentry => (List.not_mem_nil hentry).elim, rfl, rfl⟩
      · rintro ⟨parts, hlength, -, rfl, rfl⟩
        obtain rfl := List.length_eq_zero_iff.mp hlength
        exact ⟨rfl, rfl⟩
  | cons format formats ih =>
      constructor
      · rintro ⟨a, before, after, hfirst, ⟨rest, hrest, rfl⟩, rfl⟩
        obtain ⟨parts, hlength, hparts, rfl, rfl⟩ := (ih _ _).mp hrest
        refine ⟨(a, before) :: parts, congrArg (· + 1) hlength, ?_, rfl, rfl⟩
        intro entry hentry
        rcases List.mem_cons.mp hentry with rfl | hentry
        · exact hfirst
        · exact hparts _ hentry
      · rintro ⟨parts, hlength, hparts, rfl, rfl⟩
        cases parts with
        | nil => cases hlength
        | cons part parts =>
            refine ⟨part.1, part.2, _, hparts _ List.mem_cons_self, ⟨_, (ih _ _).mpr ?_, rfl⟩, rfl⟩
            exact ⟨parts, Nat.succ.inj hlength, fun entry hentry =>
              hparts _ (List.mem_cons_of_mem _ hentry), rfl, rfl⟩

/-- Parts with the same values are the same parts when each value is written in one way. -/
theorem parts_unique (formats : List (Format τ α)) {parts others : List (α × List τ)}
    (hlength : parts.length = formats.length) (hother : others.length = formats.length)
    (h : ∀ entry ∈ formats.zip parts, ∀ word, entry.1 entry.2.1 word → entry.2.2 = word)
    (hothers : ∀ entry ∈ formats.zip others, entry.1 entry.2.1 entry.2.2)
    (heq : parts.map Prod.fst = others.map Prod.fst) : parts = others := by
  induction formats generalizing parts others with
  | nil =>
      rw [List.length_eq_zero_iff.mp hlength, List.length_eq_zero_iff.mp hother]
  | cons format formats ih =>
      cases parts with
      | nil => cases hlength
      | cons part parts =>
          cases others with
          | nil => cases hother
          | cons other others =>
              obtain ⟨hvalue, hrest⟩ := List.cons.inj heq
              have hfirst : format part.1 other.2 := hvalue ▸ hothers _ List.mem_cons_self
              have hword : part.2 = other.2 := h _ List.mem_cons_self _ hfirst
              rw [Prod.ext hvalue hword, ih (Nat.succ.inj hlength) (Nat.succ.inj hother)
                (fun entry hentry => h _ (List.mem_cons_of_mem _ hentry))
                (fun entry hentry => hothers _ (List.mem_cons_of_mem _ hentry)) hrest]

/-- The same format for all parts. -/
theorem forall_mem_replicate_zip (p : Format τ α → α × List τ → Prop) {format : Format τ α}
    {parts : List (α × List τ)} :
    (∀ entry ∈ (List.replicate parts.length format).zip parts, p entry.1 entry.2) ↔
      ∀ part ∈ parts, p format part := by
  constructor
  · intro h part hpart
    obtain ⟨i, hi, rfl⟩ := List.getElem_of_mem hpart
    exact h (format, parts[i]) (List.mem_iff_getElem.mpr ⟨i, by simpa using hi, by simp⟩)
  · rintro h ⟨other, part⟩ hentry
    obtain ⟨hother, hpart⟩ := List.of_mem_zip hentry
    rw [List.eq_of_mem_replicate hother]
    exact h _ hpart

end Format

/-- The reader takes exactly the words of the format, and fails only with an allowed error. -/
structure Exact (allowed : ε → Prop) (reader : Reader τ ε α) (format : Format τ α) : Prop where
  run_ok : ∀ input value rest, reader.run input = .ok (value, rest) ↔
    ∃ word, format value word ∧ word ++ rest = input
  run_error : ∀ input e, reader.run input = .error e → allowed e

namespace Exact

variable {allowed : ε → Prop} {reader : Reader τ ε α} {format : Format τ α}

theorem run_append (h : Exact allowed reader format) {value : α} {word : List τ}
    (hword : format value word) (rest : List τ) :
    reader.run (word ++ rest) = .ok (value, rest) :=
  (h.run_ok _ _ _).mpr ⟨word, hword, rfl⟩

theorem run_word (h : Exact allowed reader format) {value : α} {word : List τ}
    (hword : format value word) : reader.run word = .ok (value, []) := by
  have hrun := h.run_append hword []
  rwa [List.append_nil] at hrun

/-- Two words that begin the same input are the same word, of the same value. -/
theorem unique (h : Exact allowed reader format) {value other : α} {word word' rest rest' : List τ}
    (hword : format value word) (hother : format other word')
    (heq : word ++ rest = word' ++ rest') : value = other ∧ rest = rest' := by
  have hrun := h.run_append hword rest
  rw [heq, h.run_append hother rest'] at hrun
  cases hrun
  exact ⟨rfl, rfl⟩

theorem congr (h : Exact allowed reader format) {format' : Format τ α}
    (heq : ∀ value word, format' value word ↔ format value word) :
    Exact allowed reader format' where
  run_ok input value rest := by
    rw [h.run_ok]
    exact exists_congr fun word => and_congr_left' (heq value word).symm
  run_error := h.run_error

theorem pure (value : α) : Exact allowed (Pure.pure value : Reader τ ε α) (.pure value) where
  run_ok input other rest := by
    constructor
    · intro h
      cases h
      exact ⟨[], ⟨rfl, rfl⟩, rfl⟩
    · rintro ⟨word, ⟨rfl, rfl⟩, rfl⟩
      rfl
  run_error input e h := by cases h

theorem throw {e : ε} (he : allowed e) :
    Exact allowed (MonadExcept.throw e : Reader τ ε α) .empty where
  run_ok input value rest := by
    constructor
    · intro h
      cases h
    · rintro ⟨word, h, -⟩
      exact h.elim
  run_error input other h := by
    cases h
    exact he

theorem bind (h : Exact allowed reader format) {next : α → Reader τ ε β}
    {nextFormat : α → Format τ β} (hnext : ∀ a, Exact allowed (next a) (nextFormat a)) :
    Exact allowed (reader >>= next) (format.bind nextFormat) where
  run_ok input value rest := by
    rw [StateT.run_bind]
    constructor
    · intro hrun
      cases hfirst : reader.run input with
      | error e =>
          rw [hfirst] at hrun
          cases hrun
      | ok first =>
          obtain ⟨a, middle⟩ := first
          rw [hfirst] at hrun
          obtain ⟨before, hbefore, rfl⟩ := (h.run_ok _ _ _).mp hfirst
          obtain ⟨after, hafter, rfl⟩ := ((hnext a).run_ok _ _ _).mp hrun
          exact ⟨before ++ after, ⟨a, before, after, hbefore, hafter, rfl⟩,
            List.append_assoc _ _ _⟩
    · rintro ⟨word, ⟨a, before, after, hbefore, hafter, rfl⟩, rfl⟩
      rw [List.append_assoc, h.run_append hbefore]
      exact (hnext a).run_append hafter rest
  run_error input e hrun := by
    rw [StateT.run_bind] at hrun
    cases hfirst : reader.run input with
    | error e' =>
        rw [hfirst] at hrun
        cases hrun
        exact h.run_error _ _ hfirst
    | ok first =>
        rw [hfirst] at hrun
        exact (hnext first.1).run_error _ _ hrun

theorem map (h : Exact allowed reader format) (f : α → β) :
    Exact allowed (do return f (← reader)) (format.map f) := by
  refine (h.bind fun a => pure (f a)).congr fun value word => ?_
  constructor
  · rintro ⟨a, hword, rfl⟩
    exact ⟨a, word, [], hword, ⟨rfl, rfl⟩, List.append_nil _⟩
  · rintro ⟨a, before, after, hword, ⟨rfl, rfl⟩, rfl⟩
    rw [List.append_nil]
    exact ⟨a, hword, rfl⟩

/-- A check in front of the reader: `if kind: raise`. -/
theorem guard {γ : Type} {kind : Prop} [Decidable kind] {e : ε} (he : allowed e)
    (next : γ → Reader τ ε α) (h : ¬ kind → Exact allowed reader format) :
    Exact allowed (if kind then MonadExcept.throw e >>= next else reader)
      (fun value word => ¬ kind ∧ format value word) := by
  by_cases hkind : kind
  · rw [if_pos hkind]
    have hthrow : MonadExcept.throw e >>= next = (MonadExcept.throw e : Reader τ ε α) := rfl
    rw [hthrow]
    exact (throw he).congr fun value word => ⟨fun hword => hword.1 hkind, fun hword => hword.elim⟩
  · rw [if_neg hkind]
    exact (h hkind).congr fun value word => and_iff_right hkind

end Exact

end Basis
