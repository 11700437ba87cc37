import SniperBot.Basis.Dict

/-!
# Tapes

A tape holds a list of records for each key and the position of the record that is read next; it
is read from the front and written at the end. A `Journal` is a tape together with the lines of
the file that it was loaded from and that every record is also written to.

A `Use` describes a client with a tape between it and a source: a call is answered by the next
record of its key, and only where none is left by the source, whose answer may be recorded. The
two results are about sessions of such calls: `session_eq_live_iff` says when every call gets what
the source answers, and `getElem?_session` what a session without recording returns.
-/

namespace Basis

variable {κ ρ ℓ γ β : Type*} [DecidableEq κ]

/-! ## Reading and writing -/

structure Tape (κ ρ : Type*) [DecidableEq κ] where
  records : Dict κ (List ρ)
  cursors : Dict κ Nat
  bounded : ∀ k, (cursors.get? k).getD 0 ≤ ((records.get? k).getD []).length

namespace Tape

def empty : Tape κ ρ := ⟨Dict.empty, Dict.empty, fun _ => Nat.zero_le _⟩

def recordsOf (t : Tape κ ρ) (k : κ) : List ρ := (t.records.get? k).getD []

def cursor (t : Tape κ ρ) (k : κ) : Nat := (t.cursors.get? k).getD 0

/-- The records of a key that have not been read. -/
def unread (t : Tape κ ρ) (k : κ) : List ρ := (t.recordsOf k).drop (t.cursor k)

theorem advance_bounded (t : Tape κ ρ) {k : κ} (h : t.cursor k < (t.recordsOf k).length) (j : κ) :
    ((t.cursors.set k (t.cursor k + 1)).get? j).getD 0 ≤
      ((t.records.get? j).getD []).length := by
  rw [Dict.get?_set]
  split
  · next hj =>
      subst hj
      exact h
  · exact t.bounded j

/-- Read the next record of a key. -/
def get (t : Tape κ ρ) (k : κ) : Option ρ × Tape κ ρ :=
  if h : t.cursor k < (t.recordsOf k).length then
    (some (t.recordsOf k)[t.cursor k],
      { t with cursors := t.cursors.set k (t.cursor k + 1), bounded := t.advance_bounded h })
  else (none, t)

theorem append_bounded (t : Tape κ ρ) (k : κ) (r : ρ) (j : κ) :
    (t.cursors.get? j).getD 0 ≤
      (((t.records.set k (t.recordsOf k ++ [r])).get? j).getD []).length := by
  rw [Dict.get?_set]
  split
  · next hj =>
      subst hj
      have h := t.bounded k
      simp only [Option.getD_some, List.length_append]
      exact Nat.le_trans h (Nat.le_add_right _ _)
  · exact t.bounded j

/-- Write a record after those of its key. -/
def append (t : Tape κ ρ) (k : κ) (r : ρ) : Tape κ ρ :=
  { t with
    records := t.records.set k (t.recordsOf k ++ [r])
    bounded := t.append_bounded k r }

/-- The same records, all of them unread. -/
def rewind (t : Tape κ ρ) : Tape κ ρ :=
  { t with cursors := Dict.empty, bounded := fun _ => Nat.zero_le _ }

@[simp] theorem unread_rewind (t : Tape κ ρ) (k : κ) : t.rewind.unread k = t.recordsOf k := rfl

@[simp] theorem recordsOf_rewind (t : Tape κ ρ) (k : κ) :
    t.rewind.recordsOf k = t.recordsOf k := rfl

@[simp] theorem rewind_rewind (t : Tape κ ρ) : t.rewind.rewind = t.rewind := rfl

theorem rewind_append (t : Tape κ ρ) (k : κ) (r : ρ) :
    (t.append k r).rewind = t.rewind.append k r := rfl

theorem rewind_get (t : Tape κ ρ) (k : κ) : (t.get k).2.rewind = t.rewind := by
  unfold get
  split <;> rfl

theorem get_fst (t : Tape κ ρ) (k : κ) : (t.get k).1 = (t.unread k).head? := by
  simp only [get, unread, List.head?_drop]
  split
  · next h => rw [List.getElem?_eq_getElem h]
  · next h => rw [List.getElem?_eq_none (Nat.le_of_not_lt h)]

theorem get_none {t : Tape κ ρ} {k : κ} (h : (t.get k).1 = none) : (t.get k).2 = t := by
  unfold get at *
  split at h
  · cases h
  · next hlast => rw [dif_neg hlast]

theorem unread_get (t : Tape κ ρ) (k j : κ) :
    (t.get k).2.unread j = if k = j then (t.unread j).tail else t.unread j := by
  unfold get
  split
  · next h =>
      simp only [unread, recordsOf, cursor, Dict.get?_set]
      by_cases hj : k = j
      · subst hj
        rw [if_pos rfl, if_pos rfl, Option.getD_some, List.tail_drop]
      · rw [if_neg hj, if_neg hj]
  · next h =>
      by_cases hj : k = j
      · subst hj
        rw [if_pos rfl, unread, List.drop_eq_nil_of_le (Nat.le_of_not_lt h)]
        rfl
      · rw [if_neg hj]

theorem recordsOf_append (t : Tape κ ρ) (k j : κ) (r : ρ) :
    (t.append k r).recordsOf j = if k = j then t.recordsOf j ++ [r] else t.recordsOf j := by
  simp only [recordsOf, append, Dict.get?_set]
  split
  · next h =>
      subst h
      rfl
  · rfl

theorem unread_append (t : Tape κ ρ) (k j : κ) (r : ρ) :
    (t.append k r).unread j = if k = j then t.unread j ++ [r] else t.unread j := by
  have hcursor : (t.append k r).cursor j = t.cursor j := rfl
  rw [unread, hcursor, recordsOf_append]
  split
  · exact List.drop_append_of_le_length (t.bounded j)
  · rfl

/-- Write a record, if there is one. -/
def write (t : Tape κ ρ) (k : κ) : Option ρ → Tape κ ρ
  | some r => t.append k r
  | none => t

theorem unread_write (t : Tape κ ρ) (k j : κ) (r : Option ρ) :
    (t.write k r).unread j = if k = j then t.unread j ++ r.toList else t.unread j := by
  cases r with
  | none => simp [write]
  | some r => exact t.unread_append k j r

end Tape

/-! ## Files -/

namespace Tape

/-- Load a tape from lines: of each, `read` says whether loading raises, or which record to keep
under which key, if any. -/
def load (read : ℓ → Option (Option (κ × ρ))) (lines : List ℓ) : Option (Tape κ ρ) :=
  lines.foldlM (fun t line => (read line).map fun entry =>
    match entry with
    | some (k, r) => t.append k r
    | none => t) empty

/-- A tape that was just loaded has not been read. -/
theorem rewind_of_load {read : ℓ → Option (Option (κ × ρ))} {lines : List ℓ} {t : Tape κ ρ}
    (h : load read lines = some t) : t.rewind = t := by
  have hfold : ∀ (lines : List ℓ) (s : Tape κ ρ), s.rewind = s →
      (lines.foldlM (fun t line => (read line).map fun entry =>
        match entry with
        | some (k, r) => t.append k r
        | none => t) s) = some t → t.rewind = t := by
    intro lines
    induction lines with
    | nil =>
        intro s hs ht
        cases ht
        exact hs
    | cons line lines ih =>
        intro s hs ht
        rw [List.foldlM_cons] at ht
        obtain ⟨s', hs', ht⟩ := Option.bind_eq_some_iff.mp ht
        obtain ⟨entry, -, rfl⟩ := Option.map_eq_some_iff.mp hs'
        refine ih _ ?_ ht
        cases entry with
        | none => exact hs
        | some kr => rw [rewind_append, hs]
  exact hfold lines empty rfl h

theorem load_append_singleton {read : ℓ → Option (Option (κ × ρ))} {lines : List ℓ} {t : Tape κ ρ}
    (h : load read lines = some t) {line : ℓ} {k : κ} {r : ρ}
    (hread : read line = some (some (k, r))) :
    load read (lines ++ [line]) = some (t.append k r) := by
  rw [load] at h
  rw [load, List.foldlM_append, h]
  simp [hread]

end Tape

/-- A tape and the lines of the file that it is kept in. -/
structure Journal (read : ℓ → Option (Option (κ × ρ))) where
  tape : Tape κ ρ
  file : List ℓ
  saved : Tape.load read file = some tape.rewind

namespace Journal

variable {read : ℓ → Option (Option (κ × ρ))}

/-- Load a journal, with nothing read yet; `none` where loading raises. -/
def load (read : ℓ → Option (Option (κ × ρ))) (file : List ℓ) : Option (Journal read) :=
  match h : Tape.load read file with
  | some t => some
      { tape := t
        file := file
        saved := h.trans (congrArg some (Tape.rewind_of_load h).symm) }
  | none => none

/-- Read the next record of a key. -/
def get (j : Journal read) (k : κ) : Option ρ × Journal read :=
  ((j.tape.get k).1,
    { j with
      tape := (j.tape.get k).2
      saved := j.saved.trans (congrArg some (j.tape.rewind_get k).symm) })

theorem get_tape (j : Journal read) (k : κ) : ((j.get k).1, (j.get k).2.tape) = j.tape.get k := rfl

/-- Where no record is left, nothing changes. -/
theorem tape_of_get {j j' : Journal read} {k : κ} (h : j.get k = (none, j')) :
    j'.tape = j.tape := by
  have hget := j.get_tape k
  rw [h] at hget
  have hnone := Tape.get_none (congrArg Prod.fst hget).symm
  rwa [← hget] at hnone

/-- Write a record, and its line to the file. -/
def record (j : Journal read) (k : κ) (r : ρ) (line : ℓ) (h : read line = some (some (k, r))) :
    Journal read where
  tape := j.tape.append k r
  file := j.file ++ [line]
  saved := Tape.load_append_singleton j.saved h

/-- The file of a journal loads as its records, none of them read. -/
theorem load_file (j : Journal read) :
    ∃ loaded, load read j.file = some loaded ∧ loaded.tape = j.tape.rewind := by
  unfold load
  split
  · next t ht => exact ⟨_, rfl, Option.some.inj (ht.symm.trans j.saved)⟩
  · next hnone => cases hnone.symm.trans j.saved

end Journal

/-! ## Sessions -/

/-- How the calls of a client use a tape: what a call returns for a stored record, what for the
source's answer, and what is recorded of that answer. -/
structure Use (κ ρ γ β : Type*) where
  key : γ → κ
  stored : γ → ρ → β
  live : γ → β
  recorded : γ → Option ρ

namespace Use

variable (use : Use κ ρ γ β)

/-- One call. -/
def consult (t : Tape κ ρ) (c : γ) : β × Tape κ ρ :=
  match t.get (use.key c) with
  | (some r, t) => (use.stored c r, t)
  | (none, t) => (use.live c, t.write (use.key c) (use.recorded c))

/-- A sequence of calls, with what each of them returns. -/
def session (t : Tape κ ρ) : List γ → List β × Tape κ ρ
  | [] => ([], t)
  | c :: cs => ((use.consult t c).1 :: (session (use.consult t c).2 cs).1,
      (session (use.consult t c).2 cs).2)

theorem consult_fst (t : Tape κ ρ) (c : γ) :
    (use.consult t c).1 =
      match (t.unread (use.key c)).head? with
      | some r => use.stored c r
      | none => use.live c := by
  rw [← t.get_fst]
  unfold consult
  rcases t.get (use.key c) with ⟨_ | r, t'⟩ <;> rfl

theorem unread_consult (t : Tape κ ρ) (c : γ) (k : κ) :
    (use.consult t c).2.unread k =
      if use.key c = k then
        match t.unread k with
        | _ :: rest => rest
        | [] => (use.recorded c).toList
      else t.unread k := by
  have hfst := t.get_fst (use.key c)
  have hsnd := t.unread_get (use.key c) k
  unfold consult
  rcases hget : t.get (use.key c) with ⟨_ | r, t'⟩
  · rw [hget] at hfst hsnd
    have hnil : t.unread (use.key c) = [] := List.head?_eq_none_iff.mp hfst.symm
    by_cases hk : use.key c = k
    · subst hk
      rw [if_pos rfl, hnil] at *
      simp [Tape.unread_write, hsnd]
    · rw [if_neg hk] at *
      simp [Tape.unread_write, hk, hsnd]
  · rw [hget] at hfst hsnd
    obtain ⟨rest, hrest⟩ := List.head?_eq_some_iff.mp hfst.symm
    by_cases hk : use.key c = k
    · subst hk
      rw [if_pos rfl, hrest] at *
      simpa using hsnd
    · rw [if_neg hk] at *
      exact hsnd

/-- The calls of one key repeat what they find: first the records at hand, and then, of every two
answers of the source, the second is the record of the first. -/
def Echoes : List ρ → List γ → Prop
  | _, [] => True
  | r :: rs, c :: cs => use.stored c r = use.live c ∧ Echoes rs cs
  | [], c :: cs => Echoes (use.recorded c).toList cs

/-- The calls of a key. -/
def callsOf (k : κ) (cs : List γ) : List γ := cs.filter fun c => use.key c = k

/-- Every call of a session gets what the source answers to it, exactly if the calls of each key
repeat the records they find. -/
theorem session_eq_live_iff (t : Tape κ ρ) (cs : List γ) :
    (use.session t cs).1 = cs.map use.live ↔
      ∀ k, use.Echoes (t.unread k) (use.callsOf k cs) := by
  induction cs generalizing t with
  | nil => simp [session, callsOf, Echoes]
  | cons c cs ih =>
      have hother : ∀ k, use.key c ≠ k → (use.consult t c).2.unread k = t.unread k :=
        fun k hk => by rw [unread_consult, if_neg hk]
      have hcalls : ∀ k, use.callsOf k (c :: cs) =
          if use.key c = k then c :: use.callsOf k cs else use.callsOf k cs := by
        intro k
        by_cases hk : use.key c = k <;> simp [callsOf, hk]
      -- the key of the call is the only one at which the two sides differ
      have hown : ((use.consult t c).1 = use.live c ∧
          use.Echoes ((use.consult t c).2.unread (use.key c)) (use.callsOf (use.key c) cs)) ↔
          use.Echoes (t.unread (use.key c)) (use.callsOf (use.key c) (c :: cs)) := by
        rw [consult_fst, unread_consult, if_pos rfl, hcalls, if_pos rfl]
        cases t.unread (use.key c) with
        | nil => simp [Echoes]
        | cons r rs => simp [Echoes]
      rw [session, List.map_cons, List.cons.injEq, ih]
      constructor
      · rintro ⟨hhead, hrest⟩ k
        by_cases hk : use.key c = k
        · subst hk
          exact hown.mp ⟨hhead, hrest _⟩
        · rw [hcalls, if_neg hk, ← hother k hk]
          exact hrest k
      · intro h
        obtain ⟨hhead, hrest⟩ := hown.mpr (h _)
        refine ⟨hhead, fun k => ?_⟩
        by_cases hk : use.key c = k
        · subst hk
          exact hrest
        · have hk' := h k
          rw [hcalls, if_neg hk] at hk'
          rwa [hother k hk]

/-- Calls that find no record, each of a key of its own, repeat nothing. -/
theorem echoes_of_fresh {t : Tape κ ρ} {cs : List γ}
    (hfresh : ∀ c ∈ cs, t.unread (use.key c) = []) (hnodup : (cs.map use.key).Nodup) (k : κ) :
    use.Echoes (t.unread k) (use.callsOf k cs) := by
  have hkey : ∀ c ∈ use.callsOf k cs, use.key c = k := fun c hc => by
    simpa using (List.mem_filter.mp hc).2
  have hcalls : ((use.callsOf k cs).map use.key).Nodup :=
    hnodup.sublist (List.filter_sublist.map use.key)
  match h : use.callsOf k cs with
  | [] => simp [Echoes]
  | c :: rest =>
      rw [h] at hkey hcalls
      have hc : c ∈ cs := (List.mem_filter.mp (h ▸ List.mem_cons_self : c ∈ use.callsOf k cs)).1
      have hrest : rest = [] := by
        refine List.eq_nil_iff_forall_not_mem.mpr fun d hd => ?_
        have hne := (List.nodup_cons.mp hcalls).1
        rw [hkey c List.mem_cons_self, ← hkey d (List.mem_cons_of_mem _ hd)] at hne
        exact hne (List.mem_map_of_mem hd)
      rw [← hkey c List.mem_cons_self, hfresh c hc, hrest]
      simp [Echoes]

/-- The calls of the same key before the call at a position. -/
def before (cs : List γ) (i : Nat) (k : κ) : Nat := (cs.take i).countP fun c => use.key c = k

/-- A session that records nothing reads the records of each key one after the other, and asks the
source when none is left. -/
theorem getElem?_session (hrecorded : ∀ c, use.recorded c = none) (t : Tape κ ρ) (cs : List γ)
    (i : Nat) :
    (use.session t cs).1[i]? = cs[i]?.map fun c =>
      match (t.unread (use.key c))[use.before cs i (use.key c)]? with
      | some r => use.stored c r
      | none => use.live c := by
  induction cs generalizing t i with
  | nil => rfl
  | cons c cs ih =>
      cases i with
      | zero => simp [session, consult_fst, before, List.head?_eq_getElem?]
      | succ i =>
          simp only [session, List.getElem?_cons_succ, ih]
          refine Option.map_congr fun d _ => ?_
          have htail : (use.consult t c).2.unread (use.key d) =
              if use.key c = use.key d then (t.unread (use.key d)).tail
              else t.unread (use.key d) := by
            rw [unread_consult, hrecorded]
            cases t.unread (use.key d) <;> rfl
          rw [htail]
          by_cases hk : use.key c = use.key d
          · simp [before, hk]
          · simp [before, hk]

end Use

end Basis
