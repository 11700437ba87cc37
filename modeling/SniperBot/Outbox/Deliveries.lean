import SniperBot.Outbox.Workers
import Mathlib.Data.List.Count
import Mathlib.Data.List.Induction

/-!
# How often a message is sent

Three facts hold after every step of any number of workers, an operator and the clock. A delivered
or dead row stays as it is; a row leaves `SENDING` only by the holder of its claim or by the expiry
of the lease; a call with another claim changes nothing (`Fenced`). Without operator retries a row
is leased at most ten times.

The claim is checked when a row is marked, not when its message is sent. So a worker that was slow
can still send a message that the operator has put up for retry and that another worker has sent
in the meantime (`late_send_repeats`). In runs in which no worker does that (`Current`), a definite
failure or a retry is recorded between any two sends of a row.
-/

namespace SniperBot.Outbox

open Basis

variable {allowed : List String} {s : System}

/-! ## Rows in one step -/

/-- Nothing is done with the row any more. -/
def OutboxRow.Settled (row : OutboxRow) : Prop :=
  row.deliveryState = .delivered ∨ row.deliveryState = .dead

/-- The holder of the claim marks the row, or its lease runs out. -/
inductive LeavesSending (s : System) (id : String) (row row' : OutboxRow) : Action → Prop
  | holder (worker : Nat) (now : Time) (event : Leased) (rest : List Leased)
      (first : (s.workers worker).batch = event :: rest) (own : event.id = id)
      (claim : event.row.claimToken = row.claimToken) :
      LeavesSending s id row row' (.mark worker now)
  | lapse (worker : Nat) (now : Time) (locked : List String) (lapsed : row.Lapsed now)
      (uncertain : row'.deliveryState = .uncertain) :
      LeavesSending s id row row' (.lease worker now locked)

/-- What one further step can do to the rows. -/
structure Fenced (allowed : List String) (s : System) : Prop where
  /-- a delivered or dead row stays -/
  settled : ∀ id row, s.tables.rows.get? id = some row → row.Settled → ∀ action,
    (s.step allowed action).tables.rows.get? id = some row
  leaving : ∀ id row action row', s.tables.rows.get? id = some row → row.deliveryState = .sending →
    (s.step allowed action).tables.rows.get? id = some row' → row'.deliveryState ≠ .sending →
    LeavesSending s id row row' action
  /-- an uncertain row is not leased -/
  uncertain : ∀ id row, s.tables.rows.get? id = some row → row.deliveryState = .uncertain →
    ∀ worker now locked,
      (s.step allowed (.lease worker now locked)).tables.rows.get? id = some row
  /-- a call with a superseded claim changes nothing -/
  superseded : ∀ worker now event rest, (s.workers worker).batch = event :: rest →
    (∀ row token, s.tables.rows.get? event.id = some row → event.row.claimToken = some token →
      ¬ row.ClaimedBy token) →
    (s.step allowed (.mark worker now)).tables = s.tables
  /-- the last attempt that fails makes the row dead -/
  exhausted : ∀ id row, s.tables.rows.get? id = some row → maxAttempts ≤ row.attempts →
    ∀ token now code t, s.tables.markOutbox id token now (.failed code) = .ok t →
      ∃ row', t.rows.get? id = some row' ∧ row'.deliveryState = .dead

section Row

variable {id : String} {row row' : OutboxRow} {action : Action}

theorem RowChange.settled (h : RowChange allowed s id row action row') (hsettled : row.Settled) :
    row' = row := by
  cases h with
  | kept => rfl
  | expired worker now locked lapsed =>
      rcases hsettled with hstate | hstate <;> rw [lapsed.1] at hstate <;> cases hstate
  | leased worker now locked token waiting =>
      rcases hsettled with hstate | hstate <;> rcases waiting with hwait | hwait <;>
        rw [hwait] at hstate <;> cases hstate
  | marked worker now event rest token mark first own claim current =>
      rcases hsettled with hstate | hstate <;> rw [current.1] at hstate <;> cases hstate
  | resolved resolution now uncertain =>
      rcases hsettled with hstate | hstate <;> rw [uncertain] at hstate <;> cases hstate

theorem RowChange.leaving (h : RowChange allowed s id row action row')
    (hsending : row.deliveryState = .sending) (hleft : row'.deliveryState ≠ .sending) :
    LeavesSending s id row row' action := by
  cases h with
  | kept => exact absurd hsending hleft
  | expired worker now locked lapsed => exact .lapse worker now locked lapsed rfl
  | leased worker now locked token waiting =>
      rcases waiting with hwait | hwait <;> rw [hsending] at hwait <;> cases hwait
  | marked worker now event rest token mark first own claim current =>
      exact .holder worker now event rest first own (claim.trans current.2.symm)
  | resolved resolution now uncertain =>
      rw [hsending] at uncertain
      cases uncertain

end Row

theorem markOutbox_superseded {t : Tables} {id : String} {token : Nat} (now : Time) (mark : Mark)
    (h : ∀ row, t.rows.get? id = some row → ¬ row.ClaimedBy token) :
    ∃ e, t.markOutbox id token now mark = .error e := by
  unfold Tables.markOutbox
  split
  · exact ⟨_, rfl⟩
  · rename_i row hget
    rw [if_pos (h row hget)]
    exact ⟨_, rfl⟩

theorem Fenced.all (allowed : List String) (s : System) : Fenced allowed s := by
  refine ⟨?_, ?_, ?_, ?_, ?_⟩
  · intro id row hget hsettled action
    obtain ⟨row', hget', hchange⟩ := step_row allowed action hget
    rw [hget', hchange.settled hsettled]
  · intro id row action row' hget hsending hget' hleft
    obtain ⟨next, hnext, hchange⟩ := step_row allowed action hget
    rw [hget'] at hnext
    cases hnext
    exact hchange.leaving hsending hleft
  · intro id row hget huncertain worker now locked
    obtain ⟨row', hget', hchange⟩ :=
      step_row allowed (.lease worker now locked) hget
    rw [hget']
    cases hchange with
    | kept => rfl
    | expired _ _ _ lapsed =>
        rw [lapsed.1] at huncertain
        cases huncertain
    | leased _ _ _ token waiting =>
        rcases waiting with hwait | hwait <;> rw [huncertain] at hwait <;> cases hwait
  · intro worker now event rest hfirst hsuperseded
    unfold System.step
    dsimp only
    rw [hfirst]
    dsimp only
    split
    · rfl
    · rename_i mark hmark
      unfold System.markFirst
      split
      · rfl
      · rename_i token hclaim
        obtain ⟨e, he⟩ := markOutbox_superseded now mark fun row hget =>
          hsuperseded row token hget hclaim
        rw [he]
        rfl
  · intro id row hget hmax token now code t hok
    obtain ⟨found, hfound, -, hrows⟩ := markOutbox_ok hok
    rw [hget] at hfound
    cases hfound
    refine ⟨_, by rw [hrows, Dict.get?_set_self], ?_⟩
    exact if_pos hmax

/-- A settled row keeps its content for the rest of the run. -/
theorem run_settled (allowed : List String) {id : String} {row : OutboxRow}
    (hget : s.tables.rows.get? id = some row) (hsettled : row.Settled) (later : List Action) :
    (exec (System.step allowed) s later).tables.rows.get? id = some row :=
  exec_invariant (I := fun s => s.tables.rows.get? id = some row)
    (fun s action h => (Fenced.all allowed s).settled id row h hsettled action) hget later

/-! ## The log -/

/-- The row was sent and neither a failure nor a retry has been recorded since. -/
def sentSince (id : String) (log : List Note) : Bool :=
  log.foldl (fun since note =>
    match note with
    | .sent other => if other = id then true else since
    | .failed other | .retried other => if other = id then false else since
    | .leased _ => since) false

/-- Between any two sends of the row a failure or a retry is recorded. -/
def Separated (id : String) (log : List Note) : Prop :=
  ∀ before between after, log = before ++ .sent id :: (between ++ .sent id :: after) →
    ∃ note ∈ between, note = .failed id ∨ note = .retried id

/-- Every send of the row comes when the row was not sent since. -/
def Alternates (id : String) (log : List Note) : Prop :=
  ∀ before after, log = before ++ .sent id :: after → sentSince id before = false

/-- The notes that `sentSince` looks at. -/
def Note.Concerns (id : String) : Note → Prop
  | .sent other | .failed other | .retried other => other = id
  | .leased _ => False

section Log

variable {id : String} {log notes : List Note}

theorem sentSince_append_one (note : Note) :
    sentSince id (log ++ [note]) =
      match note with
      | .sent other => if other = id then true else sentSince id log
      | .failed other | .retried other => if other = id then false else sentSince id log
      | .leased _ => sentSince id log := by
  unfold sentSince
  rw [List.foldl_append]
  rfl

theorem sentSince_append (h : ∀ note ∈ notes, ¬ note.Concerns id) :
    sentSince id (log ++ notes) = sentSince id log := by
  induction notes using List.reverseRecOn with
  | nil => rw [List.append_nil]
  | append_singleton notes note ih =>
      have hnote := h note (by simp)
      rw [← List.append_assoc, sentSince_append_one,
        ih fun other hother => h other (List.mem_append_left _ hother)]
      cases note with
      | leased other => rfl
      | sent other => exact if_neg hnote
      | failed other => exact if_neg hnote
      | retried other => exact if_neg hnote

/-- Once sent, the row counts as sent until a failure or a retry. -/
theorem sentSince_after_sent {before : List Note}
    (h : ∀ note ∈ notes, note ≠ .failed id ∧ note ≠ .retried id) :
    sentSince id (before ++ .sent id :: notes) = true := by
  induction notes using List.reverseRecOn with
  | nil =>
      rw [sentSince_append_one]
      exact if_pos rfl
  | append_singleton notes note ih =>
      have hnote := h note (by simp)
      rw [← List.cons_append, ← List.append_assoc, sentSince_append_one,
        ih fun other hother => h other (List.mem_append_left _ hother)]
      cases note with
      | leased other => rfl
      | sent other => exact ite_self true
      | failed other => exact if_neg fun heq : other = id => hnote.1 (congrArg Note.failed heq)
      | retried other => exact if_neg fun heq : other = id => hnote.2 (congrArg Note.retried heq)

theorem Alternates.separated (h : Alternates id log) : Separated id log := by
  intro before between after hlog
  by_contra hnone
  have hunrecorded : ∀ note ∈ between, note ≠ .failed id ∧ note ≠ .retried id := by
    intro note hnote
    exact ⟨fun heq => hnone ⟨note, hnote, Or.inl heq⟩, fun heq => hnone ⟨note, hnote, Or.inr heq⟩⟩
  have hfalse := h (before ++ .sent id :: between) after (by rw [hlog]; simp)
  rw [sentSince_after_sent hunrecorded] at hfalse
  cases hfalse

theorem Alternates.append_one (h : Alternates id log) {note : Note}
    (hnote : note = .sent id → sentSince id log = false) : Alternates id (log ++ [note]) := by
  intro before after heq
  rcases List.eq_nil_or_concat after with rfl | ⟨rest, last, rfl⟩
  · -- the new note is the send
    obtain ⟨rfl, hlast⟩ := List.append_inj' heq rfl
    exact hnote (List.head_eq_of_cons_eq hlast)
  · rw [List.concat_eq_append, ← List.cons_append, ← List.append_assoc] at heq
    exact h before rest (List.append_inj' heq rfl).1

theorem Alternates.append (h : Alternates id log) (hnotes : ∀ note ∈ notes, note ≠ .sent id) :
    Alternates id (log ++ notes) := by
  induction notes using List.reverseRecOn with
  | nil => rwa [List.append_nil]
  | append_singleton notes note ih =>
      rw [← List.append_assoc]
      refine (ih fun other hother => hnotes other (List.mem_append_left _ hother)).append_one ?_
      intro heq
      exact absurd heq (hnotes note (by simp))

end Log

/-! ## Sends of current claims -/

/-- The rows of the batch whose message was not sent yet. -/
def Worker.unsent (worker : Worker) : List Leased :=
  if worker.outcome.isSome then worker.batch.tail else worker.batch

/-- The row is still in the attempt of the lease: the operator has not put it up for retry. -/
def Leased.Current (rows : Dict String OutboxRow) (event : Leased) : Prop :=
  ∃ row ∈ rows.get? event.id, row.attempts = event.row.attempts ∧ ¬ row.Waiting

/-- No worker sends a message that was put up for retry since the worker leased it. -/
def Current (s : System) : Action → Prop
  | .send worker _ => ∀ event ∈ (s.workers worker).unsent.head?, event.Current s.tables.rows
  | _ => True

instance (rows : Dict String OutboxRow) (event : Leased) : Decidable (event.Current rows) := by
  unfold Leased.Current
  infer_instance

instance (s : System) : (action : Action) → Decidable (Current s action)
  | .send worker _ => inferInstanceAs (Decidable
      (∀ event ∈ (s.workers worker).unsent.head?, event.Current s.tables.rows))
  | .enqueue .. | .lease .. | .mark .. | .stop _ | .resolve .. => inferInstanceAs (Decidable True)

/-- An unsent message belongs to a stored row. While the row is in the attempt of the lease, it was
not sent since the last recorded failure or retry. -/
structure Fresh (s : System) (event : Leased) : Prop where
  stored : ∃ row, s.tables.rows.get? event.id = some row ∧ event.row.attempts ≤ row.attempts ∧
    (event.row.attempts = row.attempts → ¬ row.Waiting → sentSince event.id s.log = false)

structure Tracked (s : System) : Prop where
  fresh : ∀ worker, ∀ event ∈ (s.workers worker).unsent, Fresh s event
  waiting : ∀ id row, s.tables.rows.get? id = some row → row.Waiting → sentSince id s.log = false
  unstored : ∀ id, s.tables.rows.get? id = none → sentSince id s.log = false
  batch : ∀ worker, ((s.workers worker).unsent.map (·.id)).Nodup
  apart : ∀ worker worker', worker ≠ worker' → ∀ event ∈ (s.workers worker).unsent,
    ∀ event' ∈ (s.workers worker').unsent, event.id = event'.id →
      event.row.attempts ≠ event'.row.attempts
  alternates : ∀ id, Alternates id s.log

theorem Tracked.init : Tracked {} where
  fresh := by rintro _ _ ⟨⟩
  waiting := by rintro _ _ ⟨⟩
  unstored := fun _ _ => rfl
  batch := fun _ => List.nodup_nil
  apart := by rintro _ _ _ _ ⟨⟩
  alternates := by
    intro id before after heq
    cases before <;> cases heq

/-- The stored rows and the log change, and every worker drops messages only. -/
theorem Tracked.of_changes (h : Tracked s) {next : System}
    (hworkers : ∀ worker, (next.workers worker).unsent.Sublist (s.workers worker).unsent)
    (hstored : ∀ id row, s.tables.rows.get? id = some row →
      ∃ row', next.tables.rows.get? id = some row' ∧ row'.attempts = row.attempts ∧
        (row'.Waiting → row.Waiting ∨ sentSince id next.log = false) ∧
        (¬ row'.Waiting → ¬ row.Waiting ∨ sentSince id next.log = false))
    (hsince : ∀ id, sentSince id next.log = sentSince id s.log ∨ sentSince id next.log = false)
    (halternates : ∀ id, Alternates id next.log) : Tracked next := by
  have hfalse : ∀ id, sentSince id s.log = false → sentSince id next.log = false := by
    intro id hold
    rcases hsince id with heq | hnone
    · rw [heq, hold]
    · exact hnone
  refine ⟨?_, ?_, ?_, ?_, ?_, halternates⟩
  · intro worker event hevent
    obtain ⟨row, hget, hle, hcurrent⟩ :=
      (h.fresh worker event ((hworkers worker).subset hevent)).stored
    obtain ⟨row', hget', hattempts, -, hleft⟩ := hstored event.id row hget
    refine ⟨row', hget', by omega, fun heq hnot => ?_⟩
    rcases hleft hnot with hwas | hnone
    · exact hfalse _ (hcurrent (by omega) hwas)
    · exact hnone
  · intro id row' hget' hwaiting
    cases hget : s.tables.rows.get? id with
    | none => exact hfalse id (h.unstored id hget)
    | some row =>
        obtain ⟨next', hnext, -, hentered, -⟩ := hstored id row hget
        rw [hget'] at hnext
        cases hnext
        rcases hentered hwaiting with hwas | hnone
        · exact hfalse id (h.waiting id row hget hwas)
        · exact hnone
  · intro id hget'
    cases hget : s.tables.rows.get? id with
    | none => exact hfalse id (h.unstored id hget)
    | some row =>
        obtain ⟨row', hrow', -⟩ := hstored id row hget
        rw [hget'] at hrow'
        cases hrow'
  · intro worker
    exact ((hworkers worker).map _).nodup (h.batch worker)
  · intro worker worker' hne event hevent event' hevent'
    exact h.apart worker worker' hne event ((hworkers worker).subset hevent) event'
      ((hworkers worker').subset hevent')

theorem Tracked.idle (h : Tracked s) (worker : Nat) : Tracked (s.idle worker) := by
  refine h.of_changes ?_ (fun id row hget => ⟨row, hget, rfl, Or.inl, Or.inl⟩) (fun _ => Or.inl rfl)
    h.alternates
  intro other
  unfold System.idle
  by_cases heq : other = worker
  · subst heq
    simp [Worker.unsent]
  · simp [Function.update_of_ne heq]

/-- The batch without its first row. -/
theorem unsent_rest (worker : Worker) {event : Leased} {rest : List Leased}
    (h : worker.batch = event :: rest) :
    (({ batch := rest } : Worker).unsent).Sublist worker.unsent := by
  unfold Worker.unsent
  rw [h]
  cases worker.outcome with
  | none => exact List.sublist_cons_self event rest
  | some outcome => exact List.Sublist.refl rest

/-- A marked row is put up for another attempt only with a recorded failure. -/
theorem Mark.row_waiting {mark : Mark} {row : OutboxRow} {now : Time}
    (h : (mark.row row now).Waiting) : mark.Definite := by
  cases mark with
  | failed code => trivial
  | dead code => trivial
  | delivered messageId => rcases h with h | h <;> cases h
  | uncertain code => rcases h with h | h <;> cases h

theorem Mark.row_attempts (mark : Mark) (row : OutboxRow) (now : Time) :
    (mark.row row now).attempts = row.attempts := by
  cases mark <;> rfl

theorem ClaimedBy.not_waiting {row : OutboxRow} {token : Nat} (h : row.ClaimedBy token) :
    ¬ row.Waiting := by
  rintro (hwait | hwait) <;> rw [h.1] at hwait <;> cases hwait

theorem sentSince_failed (id : String) (log : List Note) :
    sentSince id (log ++ [.failed id]) = false := by
  rw [sentSince_append_one]
  exact if_pos rfl

/-- A recorded failure or retry leaves no row sent that was not. -/
theorem sentSince_or_false {log : List Note} {note : Note} (id : String)
    (h : ∀ other, note ≠ .sent other) :
    sentSince id (log ++ [note]) = sentSince id log ∨ sentSince id (log ++ [note]) = false := by
  rw [sentSince_append_one]
  cases note with
  | leased other => exact Or.inl rfl
  | sent other => exact absurd rfl (h other)
  | failed other =>
      by_cases heq : other = id
      · exact Or.inr (if_pos heq)
      · exact Or.inl (if_neg heq)
  | retried other =>
      by_cases heq : other = id
      · exact Or.inr (if_pos heq)
      · exact Or.inl (if_neg heq)

theorem Tracked.markFirst (h : Tracked s) {worker : Nat} {event : Leased} {rest : List Leased}
    (hfirst : (s.workers worker).batch = event :: rest) (now : Time) (mark : Mark) :
    Tracked (s.markFirst worker now event rest mark) := by
  unfold System.markFirst
  split
  · exact h.idle worker
  · rename_i token hclaim
    split
    · exact h.idle worker
    · rename_i tables hok
      obtain ⟨claimed, hget, hcurrent, hrows⟩ := markOutbox_ok hok
      have hlog : ∀ id, sentSince id (s.log ++ if mark.Definite then [.failed event.id] else []) =
          sentSince id s.log ∨
          sentSince id (s.log ++ if mark.Definite then [.failed event.id] else []) = false := by
        intro id
        split
        · exact sentSince_or_false id (by rintro _ ⟨⟩)
        · exact Or.inl (by rw [List.append_nil])
      refine h.of_changes ?_ ?_ hlog ?_
      · intro other
        by_cases heq : other = worker
        · subst heq
          simp only [Function.update_self]
          exact unsent_rest _ hfirst
        · simp [Function.update_of_ne heq]
      · intro id row hrow
        by_cases hid : event.id = id
        · subst hid
          rw [hget] at hrow
          cases hrow
          refine ⟨mark.row claimed now, by rw [hrows, Dict.get?_set_self], mark.row_attempts _ now,
            fun hwaiting => Or.inr ?_, fun _ => Or.inl (ClaimedBy.not_waiting hcurrent)⟩
          show sentSince event.id (s.log ++ if mark.Definite then _ else _) = false
          rw [if_pos (Mark.row_waiting hwaiting), sentSince_failed]
        · refine ⟨row, ?_, rfl, Or.inl, Or.inl⟩
          rw [hrows, Dict.get?_set_ne _ hid]
          exact hrow
      · intro id
        refine (h.alternates id).append ?_
        intro note hnote heq
        split at hnote
        · rw [heq] at hnote
          cases List.mem_singleton.mp hnote
        · cases hnote

theorem Resolution.row_waiting {resolution : Resolution} {row : OutboxRow} {now : Time}
    (h : (resolution.row row now).Waiting) : resolution = .retry := by
  cases resolution with
  | retry => rfl
  | delivered messageId => rcases h with h | h <;> cases h
  | dead => rcases h with h | h <;> cases h

theorem Tracked.resolve (h : Tracked s) (id : String) (resolution : Resolution) (now : Time) :
    Tracked (s.step allowed (.resolve id resolution now)) := by
  unfold System.step
  dsimp only
  split
  · exact h
  · rename_i tables hok
    obtain ⟨found, hget, hstate, hrows⟩ := resolveUncertainOutbox_ok hok
    refine h.of_changes (fun worker => List.Sublist.refl _) ?_ ?_ ?_
    · intro other row hrow
      by_cases hid : id = other
      · subst hid
        rw [hget] at hrow
        cases hrow
        refine ⟨resolution.row found now, by rw [hrows, Dict.get?_set_self], ?_,
          fun hwaiting => Or.inr ?_, fun _ => Or.inl ?_⟩
        · cases resolution <;> rfl
        · show sentSince id (s.log ++ if resolution = .retry then _ else _) = false
          rw [if_pos (Resolution.row_waiting hwaiting), sentSince_append_one]
          exact if_pos rfl
        · rintro (hwait | hwait) <;> rw [hstate] at hwait <;> cases hwait
      · refine ⟨row, ?_, rfl, Or.inl, Or.inl⟩
        rw [hrows, Dict.get?_set_ne _ hid]
        exact hrow
    · intro other
      split
      · exact sentSince_or_false other (by rintro _ ⟨⟩)
      · exact Or.inl (by rw [List.append_nil])
    · intro other
      refine (h.alternates other).append ?_
      intro note hnote heq
      split at hnote
      · rw [heq] at hnote
        cases List.mem_singleton.mp hnote
      · cases hnote

theorem sentSince_sent_other {log : List Note} {id other : String} (h : other ≠ id) :
    sentSince id (log ++ [.sent other]) = sentSince id log := by
  rw [sentSince_append_one]
  exact if_neg h

/-- The message of a current claim is sent. -/
theorem Tracked.sent (h : Tracked s) {worker : Nat} {event : Leased} {rest : List Leased}
    (hbatch : s.workers worker = ⟨event :: rest, none⟩) (hcurrent : event.Current s.tables.rows)
    (outcome : SendOutcome) :
    Tracked
      { s with
        workers := Function.update s.workers worker ⟨event :: rest, some outcome⟩
        log := s.log ++ [.sent event.id] } := by
  have hunsent : (s.workers worker).unsent = event :: rest := by rw [hbatch]; rfl
  have hhead : event ∈ (s.workers worker).unsent := by rw [hunsent]; exact List.mem_cons_self
  obtain ⟨row, hrow, hattempts, hnot⟩ := hcurrent
  obtain ⟨stored, hstored, -, hsince⟩ := (h.fresh worker event hhead).stored
  rw [Option.mem_def.mp hrow] at hstored
  cases hstored
  have hnodup := h.batch worker
  rw [hunsent, List.map_cons, List.nodup_cons] at hnodup
  -- a message that is still unsent was unsent before, and it is not the one just sent
  have hold : ∀ other, ∀ e ∈ (Function.update s.workers worker
      (⟨event :: rest, some outcome⟩ : Worker) other).unsent,
      e ∈ (s.workers other).unsent ∧
        (e.id = event.id → e.row.attempts ≠ event.row.attempts) := by
    intro other e he
    by_cases heq : other = worker
    · subst heq
      rw [Function.update_self] at he
      have hrest : e ∈ rest := he
      refine ⟨by rw [hunsent]; exact List.mem_cons_of_mem _ hrest, fun hid => ?_⟩
      exact absurd (List.mem_map.mpr ⟨e, hrest, hid⟩) hnodup.1
    · rw [Function.update_of_ne heq] at he
      exact ⟨he, fun hid => h.apart other worker heq e he event hhead hid⟩
  refine ⟨?_, ?_, ?_, ?_, ?_, ?_⟩
  · intro other e he
    obtain ⟨hbefore, hne⟩ := hold other e he
    obtain ⟨stored, hstored, hle, hfalse⟩ := (h.fresh other e hbefore).stored
    refine ⟨stored, hstored, hle, fun heq hwaits => ?_⟩
    show sentSince e.id (s.log ++ [.sent event.id]) = false
    by_cases hid : e.id = event.id
    · rw [hid, Option.mem_def.mp hrow] at hstored
      cases hstored
      exact absurd (heq.trans hattempts) (hne hid)
    · rw [sentSince_sent_other (Ne.symm hid)]
      exact hfalse heq hwaits
  · intro id other hget hwaiting
    have hid : event.id ≠ id := by
      rintro rfl
      rw [show s.tables.rows.get? event.id = some row from hrow] at hget
      cases hget
      exact hnot hwaiting
    exact (sentSince_sent_other hid).trans (h.waiting id other hget hwaiting)
  · intro id hget
    have hid : event.id ≠ id := by
      rintro rfl
      rw [show s.tables.rows.get? event.id = some row from hrow] at hget
      cases hget
    exact (sentSince_sent_other hid).trans (h.unstored id hget)
  · intro other
    by_cases heq : other = worker
    · subst heq
      simp only [Function.update_self]
      exact hnodup.2
    · simp only [Function.update_of_ne heq]
      exact h.batch other
  · intro other other' hne e he e' he'
    exact h.apart other other' hne e (hold other e he).1 e' (hold other' e' he').1
  · intro id
    refine (h.alternates id).append_one fun heq => ?_
    cases heq
    exact hsince hattempts.symm hnot

theorem Tracked.send (h : Tracked s) {worker : Nat} {outcome : SendOutcome}
    (hcurrent : Current s (.send worker outcome)) :
    Tracked (s.step allowed (.send worker outcome)) := by
  unfold System.step
  dsimp only
  split
  · rename_i event rest hbatch
    split
    · refine h.sent hbatch (hcurrent event ?_) outcome
      rw [hbatch]
      rfl
    · exact h
  · exact h

/-! ### Leases -/

theorem not_concerns_leased {id : String} {events : List Leased} :
    ∀ note ∈ events.map (fun event => Note.leased event.id), ¬ note.Concerns id := by
  intro note hnote
  obtain ⟨event, -, rfl⟩ := List.mem_map.mp hnote
  exact not_false

theorem Tracked.lease (h : Tracked s) (worker : Nat) (now : Time) (locked : List String) :
    Tracked (s.lease worker now locked) := by
  obtain ⟨hevents, hnodup⟩ := pendingOutbox_events s.tables now 100 locked s.nextToken
  have hsince : ∀ id, sentSince id (s.lease worker now locked).log = sentSince id s.log :=
    fun id => sentSince_append not_concerns_leased
  -- the unsent messages of the worker are the new ones
  have hown : ((s.lease worker now locked).workers worker).unsent =
      (s.tables.pendingOutbox now 100 locked s.nextToken).2.2 := by
    simp only [System.lease, Function.update_self]
    rfl
  have hother : ∀ other, other ≠ worker →
      (s.lease worker now locked).workers other = s.workers other := fun other hne =>
    Function.update_of_ne hne _ _
  have hrow : ∀ id row, s.tables.rows.get? id = some row →
      ∃ row', (s.lease worker now locked).tables.rows.get? id = some row' ∧
        LeaseChange now (s.tables.pendingOutbox now 100 locked s.nextToken).2.2 id row row' :=
    fun id row hget => pendingOutbox_row now 100 locked s.nextToken hget
  -- an older lease of a row that is leased now has fewer attempts
  have holder : ∀ other, other ≠ worker → ∀ e ∈ (s.workers other).unsent,
      ∀ event ∈ (s.tables.pendingOutbox now 100 locked s.nextToken).2.2, e.id = event.id →
        e.row.attempts < event.row.attempts := by
    intro other hne e he event hevent hid
    obtain ⟨row, token, hget, -, heq, -⟩ := hevents event hevent
    obtain ⟨stored, hstored, hle, -⟩ := (h.fresh other e he).stored
    rw [hid, hget] at hstored
    cases hstored
    rw [heq]
    exact Nat.lt_succ_of_le hle
  refine ⟨?_, ?_, ?_, ?_, ?_, ?_⟩
  · intro other event hevent
    by_cases heq : other = worker
    · subst heq
      rw [hown] at hevent
      obtain ⟨row, token, hget, hdeliverable, hleased, hstored⟩ := hevents event hevent
      refine ⟨event.row, hstored, le_rfl, fun _ _ => ?_⟩
      rw [hsince]
      exact h.waiting _ row hget hdeliverable.2.1
    · rw [hother other heq] at hevent
      obtain ⟨row, hget, hle, hfalse⟩ := (h.fresh other event hevent).stored
      obtain ⟨row', hget', hchange⟩ := hrow event.id row hget
      refine ⟨row', hget', ?_⟩
      rw [hsince]
      cases hchange with
      | kept notLeased => exact ⟨hle, hfalse⟩
      | expired lapsed notLeased =>
          refine ⟨hle, fun hattempts _ => hfalse hattempts ?_⟩
          rintro (hwait | hwait) <;> rw [lapsed.1] at hwait <;> cases hwait
      | leased token deliverable returned =>
          have hlt : event.row.attempts < row.attempts + 1 := by omega
          exact ⟨hlt.le, fun hattempts _ => absurd hattempts hlt.ne⟩
  · intro id row' hget' hwaiting
    rw [hsince]
    cases hget : s.tables.rows.get? id with
    | none => exact h.unstored id hget
    | some row =>
        obtain ⟨next, hnext, hchange⟩ := hrow id row hget
        rw [hget'] at hnext
        cases hnext
        cases hchange with
        | kept notLeased => exact h.waiting id _ hget hwaiting
        | expired lapsed notLeased => rcases hwaiting with hwait | hwait <;> cases hwait
        | leased token deliverable returned => rcases hwaiting with hwait | hwait <;> cases hwait
  · intro id hget'
    rw [hsince]
    cases hget : s.tables.rows.get? id with
    | none => exact h.unstored id hget
    | some row =>
        obtain ⟨next, hnext, -⟩ := hrow id row hget
        rw [hget'] at hnext
        cases hnext
  · intro other
    by_cases heq : other = worker
    · subst heq
      rw [hown]
      exact hnodup
    · rw [hother other heq]
      exact h.batch other
  · intro other other' hne e he e' he' hid
    by_cases heq : other = worker
    · subst heq
      rw [hown] at he
      rw [hother other' (Ne.symm hne)] at he'
      exact (holder other' (Ne.symm hne) e' he' e he hid.symm).ne'
    · rw [hother other heq] at he
      by_cases heq' : other' = worker
      · subst heq'
        rw [hown] at he'
        exact (holder other heq e he e' he' hid).ne
      · rw [hother other' heq'] at he'
        exact h.apart other other' hne e he e' he' hid
  · intro id
    refine (h.alternates id).append ?_
    intro note hnote heq
    obtain ⟨event, -, rfl⟩ := List.mem_map.mp hnote
    cases heq

theorem Tracked.step (h : Tracked s) (action : Action) (hcurrent : Current s action) :
    Tracked (s.step allowed action) := by
  cases action with
  | enqueue id key eventType text report now =>
      refine h.of_changes (fun _ => List.Sublist.refl _) ?_ (fun _ => Or.inl rfl) h.alternates
      intro other row hget
      obtain ⟨row', hget', hchange⟩ :=
        step_row allowed (.enqueue id key eventType text report now) hget
      cases hchange
      exact ⟨row, hget', rfl, Or.inl, Or.inl⟩
  | lease worker now locked =>
      unfold System.step
      dsimp only
      split
      · exact h.lease worker now locked
      · exact h
  | send worker outcome => exact h.send hcurrent
  | mark worker now =>
      unfold System.step
      dsimp only
      split
      · exact h
      · rename_i event rest hfirst
        split
        · exact h
        · exact h.markFirst hfirst now _
  | stop worker => exact h.idle worker
  | resolve id resolution now => exact h.resolve id resolution now

/-! ## The number of leases -/

/-- `attempts` counts the leases of the row. -/
structure Counted (s : System) : Prop where
  stored : ∀ id row, s.tables.rows.get? id = some row → s.log.count (.leased id) = row.attempts
  unstored : ∀ id, s.tables.rows.get? id = none → s.log.count (.leased id) = 0

/-- Rows and notes of a step that leases nothing. -/
theorem Counted.of_changes (h : Counted s) {next : System} {notes : List Note}
    (hlog : next.log = s.log ++ notes) (hnotes : ∀ id, Note.leased id ∉ notes)
    (hstored : ∀ id row, s.tables.rows.get? id = some row →
      ∃ row', next.tables.rows.get? id = some row' ∧ row'.attempts = row.attempts)
    (hnew : ∀ id row, s.tables.rows.get? id = none → next.tables.rows.get? id = some row →
      row.attempts = 0) : Counted next := by
  have hcount : ∀ id, next.log.count (.leased id) = s.log.count (.leased id) := by
    intro id
    rw [hlog, List.count_append, List.count_eq_zero_of_not_mem (hnotes id), Nat.add_zero]
  constructor
  · intro id row' hget'
    rw [hcount]
    cases hget : s.tables.rows.get? id with
    | none => rw [h.unstored id hget, hnew id row' hget hget']
    | some row =>
        obtain ⟨found, hfound, hattempts⟩ := hstored id row hget
        rw [hget'] at hfound
        cases hfound
        rw [h.stored id row hget, hattempts]
  · intro id hget'
    rw [hcount]
    cases hget : s.tables.rows.get? id with
    | none => exact h.unstored id hget
    | some row =>
        obtain ⟨found, hfound, -⟩ := hstored id row hget
        rw [hget'] at hfound
        cases hfound

theorem Counted.lease (h : Counted s) (worker : Nat) (now : Time) (locked : List String) :
    Counted (s.lease worker now locked) := by
  obtain ⟨hevents, hnodup⟩ := pendingOutbox_events s.tables now 100 locked s.nextToken
  have hinjective : Function.Injective Note.leased := fun _ _ heq => Note.leased.inj heq
  have hcount : ∀ id, (s.lease worker now locked).log.count (.leased id) =
      s.log.count (.leased id) +
        ((s.tables.pendingOutbox now 100 locked s.nextToken).2.2.map (·.id)).count id := by
    intro id
    show (s.log ++ List.map _ _).count _ = _
    rw [List.count_append, ← List.count_map_of_injective _ _ hinjective, List.map_map]
    rfl
  constructor
  · intro id row' hget'
    rw [hcount]
    cases hget : s.tables.rows.get? id with
    | none =>
        have hnone := pendingOutbox_unstored now 100 locked s.nextToken hget
        rw [show (s.tables.pendingOutbox now 100 locked s.nextToken).1.rows.get? id = some row' from
          hget'] at hnone
        cases hnone
    | some row =>
        obtain ⟨found, hfound, hchange⟩ := pendingOutbox_row now 100 locked s.nextToken hget
        rw [show (s.tables.pendingOutbox now 100 locked s.nextToken).1.rows.get? id = some row' from
          hget'] at hfound
        cases hfound
        rw [h.stored id row hget]
        -- the row is in the batch exactly when it is leased
        have hzero : (∀ event ∈ (s.tables.pendingOutbox now 100 locked s.nextToken).2.2,
            event.id ≠ id) →
            ((s.tables.pendingOutbox now 100 locked s.nextToken).2.2.map (·.id)).count id = 0 := by
          intro hnot
          refine List.count_eq_zero_of_not_mem fun hmem => ?_
          obtain ⟨event, hevent, hid⟩ := List.mem_map.mp hmem
          exact hnot event hevent hid
        cases hchange with
        | kept notLeased => rw [hzero notLeased, Nat.add_zero]
        | expired lapsed notLeased =>
            rw [hzero notLeased, Nat.add_zero]
            rfl
        | leased token deliverable returned =>
            have hmem : id ∈ (s.tables.pendingOutbox now 100 locked s.nextToken).2.2.map (·.id) :=
              List.mem_map.mpr ⟨_, returned, rfl⟩
            rw [List.count_eq_one_of_mem hnodup hmem]
            rfl
  · intro id hget'
    rw [hcount]
    cases hget : s.tables.rows.get? id with
    | none =>
        rw [h.unstored id hget, Nat.zero_add]
        refine List.count_eq_zero_of_not_mem fun hmem => ?_
        obtain ⟨event, hevent, rfl⟩ := List.mem_map.mp hmem
        obtain ⟨row, token, hstored, -⟩ := hevents event hevent
        rw [hget] at hstored
        cases hstored
    | some row =>
        obtain ⟨found, hfound, -⟩ := pendingOutbox_row now 100 locked s.nextToken hget
        rw [show (s.tables.pendingOutbox now 100 locked s.nextToken).1.rows.get? id = none from
          hget'] at hfound
        cases hfound

theorem Resolution.row_attempts (resolution : Resolution) (row : OutboxRow) (now : Time) :
    (resolution.row row now).attempts = row.attempts := by
  cases resolution <;> rfl

theorem RowChange.attempts {id : String} {row row' : OutboxRow} {action : Action}
    (h : RowChange allowed s id row action row')
    (hlease : ∀ worker now locked, action ≠ .lease worker now locked) :
    row'.attempts = row.attempts := by
  cases h with
  | kept => rfl
  | expired worker now locked lapsed => exact absurd rfl (hlease worker now locked)
  | leased worker now locked token waiting => exact absurd rfl (hlease worker now locked)
  | marked worker now event rest token mark first own claim current reported =>
      exact mark.row_attempts row now
  | resolved resolution now uncertain => exact resolution.row_attempts row now

theorem Counted.step (h : Counted s) (action : Action) : Counted (s.step allowed action) := by
  by_cases hlease : ∃ worker now locked, action = .lease worker now locked
  · obtain ⟨worker, now, locked, rfl⟩ := hlease
    unfold System.step
    dsimp only
    split
    · exact h.lease worker now locked
    · exact h
  · have hother : ∀ worker now locked, action ≠ .lease worker now locked :=
      fun worker now locked heq => hlease ⟨worker, now, locked, heq⟩
    obtain ⟨notes, hlog, hnotes⟩ := step_log allowed s action hother
    refine h.of_changes hlog hnotes ?_ ?_
    · intro id row hget
      obtain ⟨row', hget', hchange⟩ := step_row allowed action hget
      exact ⟨row', hget', hchange.attempts hother⟩
    · intro id row hget hget'
      rcases step_unstored allowed action hget with hnone | ⟨new, hnew, hzero⟩
      · rw [hget'] at hnone
        cases hnone
      · rw [hget'] at hnew
        cases hnew
        exact hzero

/-- The operator does not put rows up for retry. -/
def Unretried (_ : System) : Action → Prop
  | .resolve _ resolution _ => resolution ≠ .retry
  | _ => True

instance (s : System) : (action : Action) → Decidable (Unretried s action)
  | .resolve _ resolution _ => inferInstanceAs (Decidable (resolution ≠ .retry))
  | .enqueue .. | .lease .. | .send .. | .mark .. | .stop _ => inferInstanceAs (Decidable True)

/-- A row is leased at most `maxAttempts` times, and fewer when it is up for another lease. -/
def Limited (s : System) : Prop :=
  ∀ id row, s.tables.rows.get? id = some row →
    row.attempts ≤ maxAttempts ∧ (row.Waiting → row.attempts < maxAttempts)

theorem RowChange.limited {id : String} {row row' : OutboxRow} {action : Action}
    (h : RowChange allowed s id row action row') (hretry : Unretried s action)
    (hrow : row.attempts ≤ maxAttempts ∧ (row.Waiting → row.attempts < maxAttempts)) :
    row'.attempts ≤ maxAttempts ∧ (row'.Waiting → row'.attempts < maxAttempts) := by
  cases h with
  | kept => exact hrow
  | expired worker now locked lapsed =>
      refine ⟨hrow.1, ?_⟩
      rintro (hwait | hwait) <;> cases hwait
  | leased worker now locked token waiting =>
      refine ⟨hrow.2 waiting, ?_⟩
      rintro (hwait | hwait) <;> cases hwait
  | marked worker now event rest token mark first own claim current reported =>
      rw [mark.row_attempts]
      refine ⟨hrow.1, fun hwaiting => ?_⟩
      cases mark with
      | failed code =>
          by_contra hmax
          have hdead : ((Mark.failed code).row row now).deliveryState = .dead :=
            if_pos (not_lt.mp hmax)
          rcases hwaiting with hwait | hwait <;> rw [hdead] at hwait <;> cases hwait
      | dead code => rcases hwaiting with hwait | hwait <;> cases hwait
      | delivered messageId => rcases hwaiting with hwait | hwait <;> cases hwait
      | uncertain code => rcases hwaiting with hwait | hwait <;> cases hwait
  | resolved resolution now uncertain =>
      rw [resolution.row_attempts]
      refine ⟨hrow.1, fun hwaiting => ?_⟩
      exact absurd (Resolution.row_waiting hwaiting) hretry

theorem Limited.step (h : Limited s) (action : Action) (hretry : Unretried s action) :
    Limited (s.step allowed action) := by
  intro id row' hget'
  cases hget : s.tables.rows.get? id with
  | none =>
      rcases step_unstored allowed action hget with hnone | ⟨new, hnew, hzero⟩
      · rw [hget'] at hnone
        cases hnone
      · rw [hget'] at hnew
        cases hnew
        rw [hzero]
        exact ⟨by decide, fun _ => by decide⟩
  | some row =>
      obtain ⟨found, hfound, hchange⟩ := step_row allowed action hget
      rw [hget'] at hfound
      cases hfound
      exact hchange.limited hretry (h id row hget)

/-! ## Runs -/

/-- After every run: the next step is fenced, settled rows stay for the rest of the run, and
without operator retries no row is leased more than `maxAttempts` times. If no worker sends a
message that was put up for retry since it was leased, a definite failure or a retry is recorded
between any two sends of a row. -/
theorem run_deliveries (allowed : List String) (actions : List Action) :
    Fenced allowed (exec (System.step allowed) {} actions) ∧
    (∀ id row, (exec (System.step allowed) {} actions).tables.rows.get? id = some row →
      row.Settled → ∀ later,
        (exec (System.step allowed) {} (actions ++ later)).tables.rows.get? id = some row) ∧
    (Along Unretried (System.step allowed) {} actions → ∀ id,
      (exec (System.step allowed) {} actions).log.count (.leased id) ≤ maxAttempts) ∧
    (Along Current (System.step allowed) {} actions → ∀ id,
      Separated id (exec (System.step allowed) {} actions).log) := by
  refine ⟨Fenced.all allowed _, ?_, ?_, ?_⟩
  · intro id row hget hsettled later
    rw [exec_append]
    exact run_settled allowed hget hsettled later
  · intro hrun id
    have hcounted : Counted (exec (System.step allowed) {} actions) :=
      exec_invariant (fun _ action h => h.step action)
        ⟨by rintro _ _ ⟨⟩, fun _ _ => rfl⟩ actions
    have hlimited : Limited (exec (System.step allowed) {} actions) :=
      hrun.invariant (fun _ action h hretry => h.step action hretry) (by rintro _ _ ⟨⟩)
    cases hget : (exec (System.step allowed) {} actions).tables.rows.get? id with
    | none =>
        rw [hcounted.unstored id hget]
        exact Nat.zero_le _
    | some row =>
        rw [hcounted.stored id row hget]
        exact (hlimited id row hget).1
  · intro hrun id
    have htracked : Tracked (exec (System.step allowed) {} actions) :=
      hrun.invariant (fun _ action h hcurrent => h.step action hcurrent) Tracked.init
    exact (htracked.alternates id).separated

/-! ## Two runs -/

/-- The start message, leased at once by the first worker. -/
def startMessage : List Action :=
  [.enqueue "m" "telegram:start" "system_start" "started" .absent 0, .lease 0 0 []]

/-- The first attempt is rejected, the second one delivers the message. -/
def secondAttempt : List Action :=
  startMessage ++
    [.send 0 (.rejected "RUNTIMEERROR"), .mark 0 (seconds 1), .lease 1 (seconds 9) [],
      .send 1 (.delivered (some "7")), .mark 1 (seconds 10)]

theorem run_deliveries_secondAttempt :
    (exec (System.step proactiveTelegramEventTypes) {} secondAttempt).log =
      [.leased "m", .sent "m", .failed "m", .leased "m", .sent "m"] ∧
    (exec (System.step proactiveTelegramEventTypes) {} secondAttempt).log.count (.leased "m") ≤
      maxAttempts ∧
    Separated "m" (exec (System.step proactiveTelegramEventTypes) {} secondAttempt).log := by
  obtain ⟨-, -, hlimit, hseparated⟩ := run_deliveries proactiveTelegramEventTypes secondAttempt
  exact ⟨by decide +kernel, hlimit (by decide +kernel) "m", hseparated (by decide +kernel) "m"⟩

/-- The first worker is slow. Its lease runs out, the operator puts the message up for retry, the
second worker delivers it, and then the first worker sends it as well. -/
def lateSend : List Action :=
  startMessage ++
    [.lease 1 (seconds 30) [], .resolve "m" .retry (seconds 40), .lease 1 (seconds 41) [],
      .send 1 (.delivered (some "7")), .mark 1 (seconds 42), .send 0 (.delivered (some "8"))]

/-- The message is sent again although it is delivered and nothing was recorded in between. -/
theorem late_send_repeats :
    ((exec (System.step proactiveTelegramEventTypes) {} lateSend).tables.rows.get? "m").map
      (fun row => (row.deliveryState, row.telegramMessageId)) = some (.delivered, some "7") ∧
    (exec (System.step proactiveTelegramEventTypes) {} lateSend).log =
      [.leased "m", .retried "m", .leased "m", .sent "m", .sent "m"] ∧
    ¬ Separated "m" (exec (System.step proactiveTelegramEventTypes) {} lateSend).log := by
  have hlog : (exec (System.step proactiveTelegramEventTypes) {} lateSend).log =
      [.leased "m", .retried "m", .leased "m", .sent "m", .sent "m"] := by decide +kernel
  refine ⟨by decide +kernel, hlog, fun hseparated => ?_⟩
  obtain ⟨note, hnote, -⟩ :=
    hseparated [.leased "m", .retried "m", .leased "m"] [] [] (by rw [hlog]; rfl)
  cases hnote

end SniperBot.Outbox
