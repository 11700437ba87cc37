import SniperBot.Events.Claims
import SniperBot.Runtime.Controls

/-!
# Runs of the system and the transactions that they fence

`start_system_run`, `heartbeat_system_run`, `stop_system_run` and the ownership checks of
`database.py`. Any number of processes share the database. A transaction on the paper account begins
without a lock, waits for the lock on the account row, runs its statements and commits; what takes
no lock (stops, heartbeats, crashes, leases) may come between any two of these.

The commits of a run are kept as its history. A start stops every run that is active, so that the
active run is the one whose start committed last (`Fenced`), and the lock keeps it so from the check
of a transaction to its commit. A process that owns no run is let through while no run is active,
also after another process has started and stopped one.
-/

namespace SniperBot.Runtime

open Basis Ledger Paper Events

/-! ## Rows of runs -/

/-- A row of `system_runs`, as far as it is read. -/
structure SystemRunRow where
  startedAt : Time
  stoppedAt : Option Time := none
  stopReason : Option String := none
  lastHeartbeatAt : Time

abbrev SystemRuns := Dict String SystemRunRow

/-- The runs that are not stopped. -/
def activeRuns (runs : SystemRuns) : List String :=
  (runs.entries.filter fun e => e.2.stoppedAt.isNone).map Prod.fst

/-- `select(SystemRunRow.id).where(SystemRunRow.stopped_at.is_(None)).limit(1)` -/
def activeRun (runs : SystemRuns) : Option String := (activeRuns runs).head?

inductive RunError
  | staleInterval | leaseMissing | alreadyOwns | accountMissing | otherActive | notOwned | rowLost
  | uniqueViolation
  deriving DecidableEq, Repr

def RunError.text : RunError → String
  | .staleInterval => "system run stale interval must be positive"
  | .leaseMissing => "PostgreSQL runtime lease is not held"
  | .alreadyOwns => "this runtime already owns an active system run"
  | .accountMissing => "paper account does not exist"
  | .otherActive => "another runtime is active"
  | .notOwned => "runtime does not own the requested system run"
  | .rowLost => "runtime ownership row was lost"
  | .uniqueViolation => "UNIQUE constraint failed"

/-- What a start does to the row of an active run. -/
def SystemRunRow.recovered (row : SystemRunRow) (now : Time) : SystemRunRow :=
  match row.stoppedAt with
  | some _ => row
  | none =>
      { row with
        stoppedAt := some now
        lastHeartbeatAt := now
        stopReason := some "recovered_stale_runtime" }

/-- The statements of `start_system_run`, behind the lock on the account row. -/
def startedRuns (dialect : Dialect) (runs : SystemRuns) (runId : String) (now staleAfter : Time) :
    Except RunError SystemRuns :=
  if dialect ≠ .postgresql ∧
      ∃ e ∈ runs.entries, e.2.stoppedAt = none ∧ now - staleAfter ≤ e.2.lastHeartbeatAt then
    .error .otherActive
  else if runs.contains runId then .error .uniqueViolation
  else .ok ((runs.mapValues fun _ row => row.recovered now).set runId
    { startedAt := now, lastHeartbeatAt := now })

/-- The row after `stop_system_run`. -/
def SystemRunRow.stopped (row : SystemRunRow) (reason : String) (now : Time) : SystemRunRow :=
  { row with
    stoppedAt := some now
    lastHeartbeatAt := now
    stopReason := some (String.ofList (reason.toList.take 500)) }

/-! ## Transactions on the paper account -/

inductive PaperCall
  | entry (args : EntryArgs)
  | exit (args : ExitArgs)
  | marks (values : Dict String ℚ) (snapshot : LedgerState) (observedAt : Time)
  | risk (controls : Controls) (updatedAt : Time)

/-- The answer to a retry, found before the lock. -/
def PaperCall.lookup (db : PaperDb) : PaperCall → Option (Except PaperError Committed)
  | .entry args => db.existingOrder args.orderId .entryIncomplete
  | .exit args => db.existingOrder args.orderId .exitIncomplete
  | .marks _ _ _ => none
  | .risk _ _ => none

/-- The rows after the statements behind the lock, for a process that owns `owned`. -/
def PaperCall.locked (db : PaperDb) (owned : Option String) : PaperCall → Except PaperError PaperDb
  | .entry args =>
      match lockedEntry { args with ownedRun := owned } db with
      | (.ok _, written) => .ok written
      | (.error e, _) => .error e
  | .exit args =>
      match lockedExit { args with ownedRun := owned } db with
      | (.ok _, written) => .ok written
      | (.error e, _) => .error e
  | .marks values snapshot observedAt =>
      match updatePaperMarks owned values snapshot observedAt db with
      | (.ok _, written) => .ok written
      | (.error e, _) => .error e
  | .risk controls updatedAt =>
      match persistRiskState owned controls updatedAt db with
      | (.ok _, written) => .ok written
      | (.error e, _) => .error e

/-- A transaction that takes the lock on the account row. -/
inductive Request
  | paper (process : Nat) (call : PaperCall)
  | start (process : Nat) (runId : String) (now staleAfter : Time)
  | cost (args : CostArgs)

/-- The process that makes a request; costs are recorded from outside. -/
def Request.process : Request → Option Nat
  | .paper process _ => some process
  | .start process _ _ _ => some process
  | .cost _ => none

/-! ## Processes -/

/-- How far `start_system_run` has come in a process. -/
inductive StartPhase
  | idle
  | begun
  /-- Committed, with `_owned_system_run_id` still to be set. -/
  | committed (runId : String)
  deriving DecidableEq

structure Process where
  /-- `_owned_system_run_id` -/
  owned : Option String := none
  starting : StartPhase := .idle
  /-- Runs whose stop has committed, with `_owned_system_run_id` still to be cleared. -/
  stopping : List String := []

/-- The transaction that holds the lock. -/
inductive Holder
  | locked (request : Request)
  /-- Its statements are done, for a process that owned `owned` at the check. -/
  | checked (request : Request) (owned : Option String) (written : PaperDb)

def Holder.request : Holder → Request
  | .locked request => request
  | .checked request _ _ => request

structure World where
  runs : SystemRuns := Dict.empty
  paper : PaperDb := {}
  processes : Nat → Process := fun _ => {}
  /-- The process whose connection holds the advisory lock. -/
  lease : Option Nat := none
  holder : Option Holder := none
  waiting : List Request := []

/-- The tables as a transaction reads them. -/
def World.tables (w : World) : PaperDb := { w.paper with activeRun := activeRun w.runs }

def World.setProcess (w : World) (p : Nat) (process : Process) : World :=
  { w with processes := Function.update w.processes p process }

theorem World.setProcess_processes (w : World) (p q : Nat) (process : Process) :
    (w.setProcess p process).processes q = if q = p then process else w.processes q :=
  Function.update_apply _ _ _ _

inductive Step
  /-- A transaction begins, up to the lock. -/
  | begin (request : Request)
  | lock (index : Nat)
  /-- The holder of the lock runs its statements. -/
  | check
  | commit
  /-- The holder rolls back, by an error or a cancellation. -/
  | abort
  | cancel (index : Nat)
  /-- `start_system_run` returns, or raises although it has committed. -/
  | assign (process : Nat)
  | fail (process : Nat)
  | heartbeat (process : Nat) (runId : String) (now : Time)
  | stop (process : Nat) (runId reason : String) (now : Time)
  /-- `stop_system_run` returns. -/
  | forget (process : Nat) (runId : String)
  /-- A process is lost; another may take its number. -/
  | crash (process : Nat)
  | acquireLease (process : Nat)
  | releaseLease (process : Nat)
  | loseLease

/-- What precedes the lock. -/
def World.begin (dialect : Dialect) (w : World) (request : Request) : World :=
  match request with
  | .paper _ call =>
      match call.lookup w.paper with
      | some _ => w
      | none => { w with waiting := w.waiting ++ [request] }
  | .start p _ _ staleAfter =>
      if staleAfter ≤ 0 then w
      else if dialect = .postgresql ∧ w.lease ≠ some p then w
      else if (w.processes p).starting ≠ .idle then w
      else if (w.processes p).owned ≠ none then w
      else { w.setProcess p { w.processes p with starting := .begun } with
        waiting := w.waiting ++ [request] }
  | .cost args =>
      if args.amountUsd ≤ 0 ∨ isSha256 args.source = false then w
      else { w with waiting := w.waiting ++ [request] }

/-- The statements of the holder; those of a start keep the rows they read locked, and are taken
together with its commit. -/
def World.check (w : World) : World :=
  match w.holder with
  | some (.locked (.paper p call)) =>
      match call.locked w.tables (w.processes p).owned with
      | .ok written =>
          { w with holder := some (.checked (.paper p call) (w.processes p).owned written) }
      | .error _ => { w with holder := none }
  | some (.locked (.cost args)) =>
      match lockedCost args w.tables with
      | (.ok _, written) => { w with holder := some (.checked (.cost args) none written) }
      | (.error _, _) => { w with holder := none }
  | _ => w

/-- A start that is over before it has committed. -/
def World.dropStart (w : World) : Request → World
  | .start p _ _ _ => w.setProcess p { w.processes p with starting := .idle }
  | _ => w

/-- The rows of runs that the holder would commit, if it is a start that goes through. -/
def World.startResult (dialect : Dialect) (w : World) (runId : String) (now staleAfter : Time) :
    Except RunError SystemRuns :=
  if w.paper.account.isNone then .error .accountMissing
  else startedRuns dialect w.runs runId now staleAfter

def World.commit (dialect : Dialect) (w : World) : World :=
  match w.holder with
  | some (.checked _ _ written) => { w with paper := written, holder := none }
  | some (.locked (.start p runId now staleAfter)) =>
      match w.startResult dialect runId now staleAfter with
      | .ok runs =>
          { w.setProcess p { w.processes p with starting := .committed runId } with
            runs := runs
            holder := none }
      | .error _ => { w.dropStart (.start p runId now staleAfter) with holder := none }
  | _ => w

/-- `heartbeat_system_run` -/
def World.heartbeat (dialect : Dialect) (w : World) (p : Nat) (runId : String) (now : Time) :
    World :=
  if (w.processes p).owned ≠ some runId then w
  else if dialect = .postgresql ∧ w.lease ≠ some p then w
  else { w with runs := w.runs.update runId fun row =>
    if row.stoppedAt.isNone then { row with lastHeartbeatAt := now } else row }

def World.step (dialect : Dialect) (w : World) : Step → World
  | .begin request => w.begin dialect request
  | .lock index =>
      match w.holder, w.waiting[index]? with
      | none, some request =>
          { w with holder := some (.locked request), waiting := w.waiting.eraseIdx index }
      | _, _ => w
  | .check => w.check
  | .commit => w.commit dialect
  | .abort =>
      match w.holder with
      | some holder => { w.dropStart holder.request with holder := none }
      | none => w
  | .cancel index =>
      match w.waiting[index]? with
      | some request => { w.dropStart request with waiting := w.waiting.eraseIdx index }
      | none => w
  | .assign p =>
      match (w.processes p).starting with
      | .committed runId =>
          w.setProcess p { w.processes p with owned := some runId, starting := .idle }
      | _ => w
  | .fail p =>
      match (w.processes p).starting with
      | .committed _ => w.setProcess p { w.processes p with starting := .idle }
      | _ => w
  | .heartbeat p runId now => w.heartbeat dialect p runId now
  | .stop p runId reason now =>
      { w.setProcess p { w.processes p with stopping := runId :: (w.processes p).stopping } with
        runs := w.runs.update runId fun row => row.stopped reason now }
  | .forget p runId =>
      if runId ∈ (w.processes p).stopping then
        w.setProcess p
          { w.processes p with
            stopping := (w.processes p).stopping.erase runId
            owned := if (w.processes p).owned = some runId then none else (w.processes p).owned }
      else w
  | .crash p =>
      { w.setProcess p {} with
        waiting := w.waiting.filter fun request => request.process ≠ some p
        holder := w.holder.filter fun holder => holder.request.process ≠ some p
        lease := if w.lease = some p then none else w.lease }
  | .acquireLease p =>
      if dialect = .postgresql ∧ w.lease = none then { w with lease := some p } else w
  | .releaseLease p => if w.lease = some p then { w with lease := none } else w
  | .loseLease => { w with lease := none }

/-! ## Histories -/

/-- A commit; those of paper-account transactions and of costs are noted with the runs that are
active at the time. -/
inductive Commit
  | paper (process : Nat) (owned : Option String) (active : List String)
  | start (process : Nat) (runId : String)
  | cost (active : List String)
  deriving DecidableEq, Repr

/-- What a step commits. -/
def World.commits (dialect : Dialect) (w : World) : Step → Option Commit
  | .commit =>
      match w.holder with
      | some (.checked (.paper p _) owned _) => some (.paper p owned (activeRuns w.runs))
      | some (.checked (.cost _) _ _) => some (.cost (activeRuns w.runs))
      | some (.locked (.start p runId now staleAfter)) =>
          match w.startResult dialect runId now staleAfter with
          | .ok _ => some (.start p runId)
          | .error _ => none
      | _ => none
  | _ => none

/-- A world with the commits that led to it. -/
structure Trace where
  world : World := {}
  history : List Commit := []

def Trace.step (dialect : Dialect) (t : Trace) (a : Step) : Trace where
  world := t.world.step dialect a
  history := t.history ++ (t.world.commits dialect a).toList

theorem Trace.step_of_none {dialect : Dialect} {t : Trace} {a : Step}
    (h : t.world.commits dialect a = none) :
    t.step dialect a = { world := t.world.step dialect a, history := t.history } := by
  simp [Trace.step, h]

/-- The starts of a history, each with its process. -/
def startsOf (history : List Commit) : List (Nat × String) :=
  history.filterMap fun commit =>
    match commit with
    | .start p runId => some (p, runId)
    | _ => none

@[simp] theorem startsOf_append (a b : List Commit) :
    startsOf (a ++ b) = startsOf a ++ startsOf b := List.filterMap_append

/-! ## Rows of active runs -/

theorem mem_activeRuns {runs : SystemRuns} {id : String} :
    id ∈ activeRuns runs ↔ ∃ row, runs.get? id = some row ∧ row.stoppedAt = none := by
  simp only [activeRuns, List.mem_map, List.mem_filter, Option.isNone_iff_eq_none]
  constructor
  · rintro ⟨⟨key, row⟩, ⟨hmem, hstopped⟩, rfl⟩
    exact ⟨row, Dict.mem_entries.mp hmem, hstopped⟩
  · rintro ⟨row, hget, hstopped⟩
    exact ⟨(id, row), ⟨Dict.mem_entries.mpr hget, hstopped⟩, rfl⟩

theorem activeRuns_nodup (runs : SystemRuns) : (activeRuns runs).Nodup :=
  runs.nodup.sublist (List.filter_sublist.map Prod.fst)

/-- A write that starts no row leaves no more runs active. -/
theorem activeRuns_update_subset {runs : SystemRuns} {id : String}
    {f : SystemRunRow → SystemRunRow}
    (hf : ∀ row, (f row).stoppedAt = none → row.stoppedAt = none) :
    activeRuns (runs.update id f) ⊆ activeRuns runs := by
  intro j hj
  obtain ⟨row, hget, hstopped⟩ := mem_activeRuns.mp hj
  rw [Dict.get?_update] at hget
  split at hget
  · obtain ⟨old, hold, rfl⟩ := Option.map_eq_some_iff.mp hget
    exact mem_activeRuns.mpr ⟨old, hold, hf old hstopped⟩
  · exact mem_activeRuns.mpr ⟨row, hget, hstopped⟩

theorem contains_update (runs : SystemRuns) (id j : String) (f : SystemRunRow → SystemRunRow) :
    (runs.update id f).contains j = runs.contains j := by
  simp only [Dict.contains, Dict.get?_update]
  split
  · exact Option.isSome_map
  · rfl

/-- After a start, its run is the only one that can be active. -/
theorem startedRuns_spec {dialect : Dialect} {runs runs' : SystemRuns} {runId : String}
    {now staleAfter : Time} (h : startedRuns dialect runs runId now staleAfter = .ok runs') :
    runs.contains runId = false ∧ runs'.contains runId = true ∧
      (∀ id, runs.contains id = true → runs'.contains id = true) ∧
      ∀ id ∈ activeRuns runs', id = runId := by
  unfold startedRuns at h
  split at h
  · cases h
  · split at h
    · cases h
    · next hfresh =>
        cases h
        have hget : ∀ id, ((runs.mapValues fun _ row => row.recovered now).set runId
            { startedAt := now, lastHeartbeatAt := now }).get? id =
              if runId = id then some { startedAt := now, lastHeartbeatAt := now }
              else (runs.get? id).map fun row => row.recovered now := fun id => by
          rw [Dict.get?_set, Dict.get?_mapValues]
        refine ⟨Bool.eq_false_iff.mpr hfresh, ?_, fun id hid => ?_, fun id hid => ?_⟩
        · exact Dict.contains_eq_true.mpr ⟨_, Dict.get?_set_self _ _ _⟩
        · obtain ⟨row, hrow⟩ := Dict.contains_eq_true.mp hid
          refine Dict.contains_eq_true.mpr ?_
          rw [hget]
          split
          · exact ⟨_, rfl⟩
          · exact ⟨_, by rw [hrow]; rfl⟩
        · obtain ⟨row, hrow, hstopped⟩ := mem_activeRuns.mp hid
          rw [hget] at hrow
          split at hrow
          · next heq => exact heq.symm
          · obtain ⟨old, -, rfl⟩ := Option.map_eq_some_iff.mp hrow
            cases hold : old.stoppedAt with
            | none => simp [SystemRunRow.recovered, hold] at hstopped
            | some at' => simp [SystemRunRow.recovered, hold] at hstopped

/-! ## The check of ownership -/

/-- A transaction that goes through has found its own run active, or none if it owns none. -/
theorem PaperCall.owner_of_locked {call : PaperCall} {db written : PaperDb} {owned : Option String}
    (h : call.locked db owned = .ok written) : db.activeRun = owned := by
  have howner : runtimeOwnerError db.activeRun owned = none := by
    cases call with
    | entry args =>
        simp only [PaperCall.locked, lockedEntry] at h
        cases herror : runtimeOwnerError db.activeRun owned with
        | none => rfl
        | some e => cases haccount : db.account <;> simp [haccount, herror] at h
    | exit args =>
        simp only [PaperCall.locked, lockedExit] at h
        cases herror : runtimeOwnerError db.activeRun owned with
        | none => rfl
        | some e =>
            cases hposition : db.livePosition args.mint <;> cases haccount : db.account <;>
              simp [hposition, haccount, herror] at h
    | marks values snapshot observedAt =>
        simp only [PaperCall.locked, updatePaperMarks, transaction] at h
        cases herror : runtimeOwnerError db.activeRun owned with
        | none => rfl
        | some e => cases haccount : db.account <;> simp [haccount, herror] at h
    | risk controls updatedAt =>
        simp only [PaperCall.locked, persistRiskState, transaction] at h
        cases herror : runtimeOwnerError db.activeRun owned with
        | none => rfl
        | some e => cases haccount : db.account <;> simp [haccount, herror] at h
  cases owned with
  | none =>
      by_contra hne
      simp [runtimeOwnerError, hne] at howner
  | some run =>
      by_contra hne
      simp [runtimeOwnerError, hne] at howner

theorem idle_of_lockedCost {args : CostArgs} {db written : PaperDb} {new : Bool}
    (h : lockedCost args db = (.ok new, written)) : db.activeRun = none := by
  by_contra hne
  unfold lockedCost at h
  cases haccount : db.account <;> simp [haccount, hne] at h

/-! ## The invariant -/

/-- What the check of the holder of the lock has seen still holds. -/
def Covered (t : Trace) : Holder → Prop
  | .checked (.paper p _) (some run) _ => (startsOf t.history).getLast? = some (p, run)
  | .checked _ _ _ => activeRuns t.world.runs = []
  | .locked _ => True

/-- The active run is the one whose start committed last, and every process owns a run that it has
started. -/
structure Fenced (t : Trace) : Prop where
  active : ∀ id ∈ activeRuns t.world.runs, ∃ p, (startsOf t.history).getLast? = some (p, id)
  known : ∀ start ∈ startsOf t.history, t.world.runs.contains start.2 = true
  distinct : ((startsOf t.history).map Prod.snd).Nodup
  owned : ∀ p run, (t.world.processes p).owned = some run → (p, run) ∈ startsOf t.history
  committed : ∀ p run, (t.world.processes p).starting = .committed run →
    (p, run) ∈ startsOf t.history
  covered : ∀ holder, t.world.holder = some holder → Covered t holder

theorem Fenced.init (paper : PaperDb) : Fenced { world := { paper := paper } } where
  active := fun id hid => by cases hid
  known := fun start hstart => by cases hstart
  distinct := List.nodup_nil
  owned := fun p run h => by cases h
  committed := fun p run h => by cases h
  covered := fun holder h => by cases h

/-- A run is started by one process. -/
theorem Fenced.unique {t : Trace} (h : Fenced t) {p q : Nat} {run : String}
    (hp : (p, run) ∈ startsOf t.history) (hq : (q, run) ∈ startsOf t.history) : p = q :=
  congrArg Prod.fst (List.inj_on_of_nodup_map h.distinct hp hq rfl)

/-- Two active runs would both be the one that was started last. -/
theorem Fenced.active_length_le {t : Trace} (h : Fenced t) :
    (activeRuns t.world.runs).length ≤ 1 := by
  have hnodup := activeRuns_nodup t.world.runs
  have hactive := h.active
  rcases hruns : activeRuns t.world.runs with _ | ⟨id, _ | ⟨id', rest⟩⟩
  · exact Nat.zero_le 1
  · exact Nat.le_refl 1
  · rw [hruns] at hnodup hactive
    obtain ⟨p, hp⟩ := hactive id List.mem_cons_self
    obtain ⟨q, hq⟩ := hactive id' (List.mem_cons_of_mem _ List.mem_cons_self)
    cases hp.symm.trans hq
    exact absurd List.mem_cons_self (List.nodup_cons.mp hnodup).1

/-- A step that commits no transaction, activates no run and hands the lock to no checked
transaction. -/
theorem Fenced.quiet {t : Trace} (h : Fenced t) {w : World}
    (hruns : activeRuns w.runs ⊆ activeRuns t.world.runs)
    (hkeys : ∀ id, w.runs.contains id = t.world.runs.contains id)
    (howned : ∀ p run, (w.processes p).owned = some run → (p, run) ∈ startsOf t.history)
    (hcommitted : ∀ p run, (w.processes p).starting = .committed run →
      (p, run) ∈ startsOf t.history)
    (hholder : ∀ holder, w.holder = some holder →
      t.world.holder = some holder ∨ ∃ request, holder = .locked request) :
    Fenced { world := w, history := t.history } where
  active := fun id hid => h.active id (hruns hid)
  known := fun start hstart => (hkeys _).trans (h.known start hstart)
  distinct := h.distinct
  owned := howned
  committed := hcommitted
  covered := by
    intro holder hw
    rcases hholder holder hw with hold | ⟨request, rfl⟩
    · have hcovered := h.covered holder hold
      -- no run has become active since the check
      have hnone : activeRuns t.world.runs = [] → activeRuns w.runs = [] := fun hnil =>
        List.subset_nil.mp (hnil ▸ hruns)
      cases holder with
      | locked request => trivial
      | checked request owned written =>
          cases request with
          | paper p call =>
              cases owned with
              | none => exact hnone hcovered
              | some run => exact hcovered
          | start p runId now staleAfter => exact hnone hcovered
          | cost args => exact hnone hcovered
    · trivial

/-- A process changes to one that owns only what has been started by it. -/
theorem Fenced.quietProcess {t : Trace} (h : Fenced t) {w : World} {p : Nat} {process : Process}
    (hprocesses : w.processes = (t.world.setProcess p process).processes)
    (howned : ∀ run, process.owned = some run → (p, run) ∈ startsOf t.history)
    (hcommitted : ∀ run, process.starting = .committed run → (p, run) ∈ startsOf t.history)
    (hruns : activeRuns w.runs ⊆ activeRuns t.world.runs)
    (hkeys : ∀ id, w.runs.contains id = t.world.runs.contains id)
    (hholder : ∀ holder, w.holder = some holder →
      t.world.holder = some holder ∨ ∃ request, holder = .locked request) :
    Fenced { world := w, history := t.history } := by
  refine h.quiet hruns hkeys (fun q run hq => ?_) (fun q run hq => ?_) hholder
  · rw [hprocesses, World.setProcess_processes] at hq
    split at hq
    · next heq => exact heq ▸ howned run hq
    · exact h.owned q run hq
  · rw [hprocesses, World.setProcess_processes] at hq
    split at hq
    · next heq => exact heq ▸ hcommitted run hq
    · exact h.committed q run hq

section Steps

variable {t : Trace} {dialect : Dialect}

theorem Fenced.dropStart (h : Fenced t) (request : Request) {w : World}
    (hprocesses : w.processes = (t.world.dropStart request).processes)
    (hruns : w.runs = t.world.runs)
    (hholder : ∀ holder, w.holder = some holder → t.world.holder = some holder) :
    Fenced { world := w, history := t.history } := by
  have hsubset : activeRuns w.runs ⊆ activeRuns t.world.runs := by rw [hruns]; exact fun _ h => h
  have hkeys : ∀ id, w.runs.contains id = t.world.runs.contains id := fun id => by rw [hruns]
  cases request with
  | start p runId now staleAfter =>
      exact h.quietProcess hprocesses (h.owned p) (fun run hrun => by cases hrun) hsubset hkeys
        fun holder hw => Or.inl (hholder holder hw)
  | paper p call =>
      exact h.quiet hsubset hkeys (fun q run hq => h.owned q run (hprocesses ▸ hq))
        (fun q run hq => h.committed q run (hprocesses ▸ hq))
        fun holder hw => Or.inl (hholder holder hw)
  | cost args =>
      exact h.quiet hsubset hkeys (fun q run hq => h.owned q run (hprocesses ▸ hq))
        (fun q run hq => h.committed q run (hprocesses ▸ hq))
        fun holder hw => Or.inl (hholder holder hw)

/-- A step that changes neither runs, processes, the holder of the lock nor the history. -/
theorem Fenced.same (h : Fenced t) {w : World} (hruns : w.runs = t.world.runs)
    (hprocesses : w.processes = t.world.processes)
    (hholder : ∀ holder, w.holder = some holder →
      t.world.holder = some holder ∨ ∃ request, holder = .locked request) :
    Fenced { world := w, history := t.history } :=
  h.quiet (hruns ▸ fun _ h => h) (fun id => by rw [hruns])
    (fun q run hq => h.owned q run (hprocesses ▸ hq))
    (fun q run hq => h.committed q run (hprocesses ▸ hq)) hholder

theorem Fenced.begin (h : Fenced t) (request : Request) :
    Fenced { world := t.world.begin dialect request, history := t.history } := by
  unfold World.begin
  split
  · split
    · exact h.same rfl rfl fun _ hw => Or.inl hw
    · exact h.same rfl rfl fun _ hw => Or.inl hw
  · next p runId now staleAfter =>
      split
      · exact h.same rfl rfl fun _ hw => Or.inl hw
      split
      · exact h.same rfl rfl fun _ hw => Or.inl hw
      split
      · exact h.same rfl rfl fun _ hw => Or.inl hw
      split
      · exact h.same rfl rfl fun _ hw => Or.inl hw
      · exact h.quietProcess rfl (h.owned p) (fun run hrun => by cases hrun) (fun _ h => h)
          (fun _ => rfl) fun _ hw => Or.inl hw
  · split
    · exact h.same rfl rfl fun _ hw => Or.inl hw
    · exact h.same rfl rfl fun _ hw => Or.inl hw

theorem Fenced.check (h : Fenced t) : Fenced { world := t.world.check, history := t.history } := by
  unfold World.check
  split
  · next p call hlocked =>
      split
      · next written hwritten =>
          have howner := PaperCall.owner_of_locked hwritten
          refine ⟨h.active, h.known, h.distinct, h.owned, h.committed, fun holder hw => ?_⟩
          cases hw
          cases howned : (t.world.processes p).owned with
          | none =>
              rw [howned] at howner
              exact List.head?_eq_none_iff.mp howner
          | some run =>
              rw [howned] at howner
              obtain ⟨q, hq⟩ := h.active run (List.mem_of_mem_head? howner)
              have hpq := h.unique (h.owned p run howned) (List.mem_of_getLast? hq)
              exact hpq ▸ hq
      · exact h.same rfl rfl fun _ hw => by cases hw
  · next args hlocked =>
      split
      · next written hwritten =>
          refine ⟨h.active, h.known, h.distinct, h.owned, h.committed, fun holder hw => ?_⟩
          cases hw
          exact List.head?_eq_none_iff.mp (idle_of_lockedCost hwritten)
      · exact h.same rfl rfl fun _ hw => by cases hw
  · exact h

/-- A start that commits makes its run the only active one. -/
theorem Fenced.started (h : Fenced t) {p : Nat} {runId : String} {now staleAfter : Time}
    {runs : SystemRuns} (hstart : startedRuns dialect t.world.runs runId now staleAfter = .ok runs) :
    Fenced
      { world :=
          { t.world.setProcess p { t.world.processes p with starting := .committed runId } with
            runs := runs
            holder := none }
        history := t.history ++ [.start p runId] } := by
  obtain ⟨hfresh, hrow, hkept, hactive⟩ := startedRuns_spec hstart
  have hstarts : startsOf (t.history ++ [.start p runId]) = startsOf t.history ++ [(p, runId)] :=
    startsOf_append _ _
  refine ⟨fun id hid => ⟨p, ?_⟩, fun start hmem => ?_, ?_, fun q run hq => ?_, fun q run hq => ?_,
    fun holder hw => by cases hw⟩
  · rw [hstarts, hactive id hid, List.getLast?_append_cons]
    rfl
  · rw [hstarts, List.mem_append, List.mem_singleton] at hmem
    rcases hmem with hold | rfl
    · exact hkept _ (h.known start hold)
    · exact hrow
  · rw [hstarts, List.map_append]
    refine List.Nodup.append h.distinct (List.nodup_singleton _) fun id hid hnew => ?_
    obtain ⟨start, hmem, rfl⟩ := List.mem_map.mp hid
    cases List.mem_singleton.mp hnew
    rw [h.known start hmem] at hfresh
    cases hfresh
  · rw [hstarts, List.mem_append]
    simp only [World.setProcess_processes] at hq
    split at hq
    · next heq => exact Or.inl (heq ▸ h.owned p run hq)
    · exact Or.inl (h.owned q run hq)
  · rw [hstarts, List.mem_append]
    simp only [World.setProcess_processes] at hq
    split at hq
    · next heq =>
        cases hq
        exact Or.inr (List.mem_singleton.mpr (by rw [heq]))
    · exact Or.inl (h.committed q run hq)

/-- A commit that starts no run. -/
theorem Fenced.committedOther (h : Fenced t) {paper : PaperDb} {commit : Commit}
    (hcommit : startsOf [commit] = []) :
    Fenced
      { world := { t.world with paper := paper, holder := none }
        history := t.history ++ [commit] } := by
  have hstarts : startsOf (t.history ++ [commit]) = startsOf t.history := by
    rw [startsOf_append, hcommit, List.append_nil]
  refine ⟨?_, ?_, ?_, ?_, ?_, fun holder hw => by cases hw⟩ <;> rw [hstarts]
  · exact h.active
  · exact h.known
  · exact h.distinct
  · exact h.owned
  · exact h.committed

theorem Fenced.commit (h : Fenced t) : Fenced (t.step dialect .commit) := by
  simp only [Trace.step, World.step, World.commits, World.commit]
  cases hholder : t.world.holder with
  | none => simpa using h
  | some holder =>
      cases holder with
      | checked request owned written =>
          cases request with
          | paper p call => exact h.committedOther rfl
          | cost args => exact h.committedOther rfl
          | start p runId now staleAfter =>
              simpa using h.same (w := { t.world with paper := written, holder := none }) rfl rfl
                fun _ hw => by cases hw
      | locked request =>
          cases request with
          | paper p call => simpa using h
          | cost args => simpa using h
          | start p runId now staleAfter =>
              dsimp only
              cases hresult : t.world.startResult dialect runId now staleAfter with
              | error e =>
                  simpa using h.dropStart (.start p runId now staleAfter)
                    (w := { t.world.dropStart (.start p runId now staleAfter) with holder := none })
                    rfl rfl fun _ hw => by cases hw
              | ok runs =>
                  unfold World.startResult at hresult
                  split at hresult
                  · cases hresult
                  · exact h.started hresult

theorem Fenced.step (h : Fenced t) (a : Step) : Fenced (t.step dialect a) := by
  have hall : activeRuns t.world.runs ⊆ activeRuns t.world.runs := fun _ hid => hid
  cases a with
  | commit => exact h.commit
  | begin request =>
      rw [Trace.step_of_none rfl]
      exact h.begin request
  | check =>
      rw [Trace.step_of_none rfl]
      exact h.check
  | lock index =>
      rw [Trace.step_of_none rfl]
      simp only [World.step]
      split
      · exact h.same rfl rfl fun holder hw => by
          cases hw
          exact Or.inr ⟨_, rfl⟩
      · exact h.same rfl rfl fun _ hw => Or.inl hw
  | abort =>
      rw [Trace.step_of_none rfl]
      simp only [World.step]
      split
      · next holder hholder =>
          exact h.dropStart holder.request rfl (by cases holder.request <;> rfl) fun _ hw => by
            cases hw
      · exact h
  | cancel index =>
      rw [Trace.step_of_none rfl]
      simp only [World.step]
      split
      · next request hrequest =>
          exact h.dropStart request rfl (by cases request <;> rfl) fun holder hw => by
            cases request <;> exact hw
      · exact h
  | assign p =>
      rw [Trace.step_of_none rfl]
      simp only [World.step]
      split
      · next runId hstarting =>
          refine h.quietProcess rfl (fun run hrun => ?_) (fun run hrun => by cases hrun) hall
            (fun _ => rfl) fun _ hw => Or.inl hw
          cases hrun
          exact h.committed p runId hstarting
      · exact h
  | fail p =>
      rw [Trace.step_of_none rfl]
      simp only [World.step]
      split
      · exact h.quietProcess rfl (h.owned p) (fun run hrun => by cases hrun) hall (fun _ => rfl)
          fun _ hw => Or.inl hw
      · exact h
  | heartbeat p runId now =>
      rw [Trace.step_of_none rfl]
      simp only [World.step, World.heartbeat]
      split
      · exact h
      split
      · exact h
      · refine h.quiet (activeRuns_update_subset fun row hrow => ?_)
          (fun id => contains_update _ _ _ _) h.owned h.committed fun _ hw => Or.inl hw
        split at hrow <;> exact hrow
  | stop p runId reason now =>
      rw [Trace.step_of_none rfl]
      exact h.quietProcess rfl (h.owned p) (h.committed p)
        (activeRuns_update_subset fun row hrow => by cases hrow)
        (fun id => contains_update _ _ _ _) fun _ hw => Or.inl hw
  | forget p runId =>
      rw [Trace.step_of_none rfl]
      simp only [World.step]
      split
      · refine h.quietProcess rfl (fun run hrun => ?_) (h.committed p) hall (fun _ => rfl)
          fun _ hw => Or.inl hw
        dsimp only at hrun
        split at hrun
        · cases hrun
        · exact h.owned p run hrun
      · exact h
  | crash p =>
      rw [Trace.step_of_none rfl]
      exact h.quietProcess rfl (fun run hrun => by cases hrun) (fun run hrun => by cases hrun) hall
        (fun _ => rfl) fun holder hw => Or.inl (Option.filter_eq_some_iff.mp hw).1
  | acquireLease p =>
      rw [Trace.step_of_none rfl]
      simp only [World.step]
      split <;> exact h.same rfl rfl fun _ hw => Or.inl hw
  | releaseLease p =>
      rw [Trace.step_of_none rfl]
      simp only [World.step]
      split <;> exact h.same rfl rfl fun _ hw => Or.inl hw
  | loseLease =>
      rw [Trace.step_of_none rfl]
      exact h.same rfl rfl fun _ hw => Or.inl hw

end Steps

/-! ## Runs -/

/-- What the claims about a history of commits come to. -/
structure Orderly (history : List Commit) : Prop where
  /-- A transaction of a process that owns a run commits only while its start is the last one. -/
  owner : ∀ before p run active after,
    history = before ++ .paper p (some run) active :: after →
      (startsOf before).getLast? = some (p, run)
  /-- A transaction of a process that owns no run commits only while none is active. -/
  unowned : ∀ p active, .paper p none active ∈ history → active = []
  costs : ∀ active, .cost active ∈ history → active = []

theorem Orderly.nil : Orderly [] where
  owner := fun before p run active after h => by cases before <;> cases h
  unowned := fun p active h => by cases h
  costs := fun active h => by cases h

/-- What `Orderly` asks of a commit after these. -/
def Commit.Follows (history : List Commit) : Commit → Prop
  | .paper p (some run) _ => (startsOf history).getLast? = some (p, run)
  | .paper _ none active => active = []
  | .cost active => active = []
  | .start _ _ => True

theorem Orderly.append {history : List Commit} (h : Orderly history) {commit : Commit}
    (hcommit : commit.Follows history) : Orderly (history ++ [commit]) where
  owner := by
    intro before p run active after heq
    rcases List.eq_nil_or_concat after with rfl | ⟨rest, last, rfl⟩
    · obtain ⟨rfl, hlast⟩ := List.append_inj' heq rfl
      cases hlast
      exact hcommit
    · rw [List.concat_eq_append, ← List.cons_append, ← List.append_assoc] at heq
      exact h.owner before p run active rest (List.append_inj' heq rfl).1
  unowned := by
    intro p active hmem
    rcases List.mem_append.mp hmem with hold | hnew
    · exact h.unowned p active hold
    · cases List.mem_singleton.mp hnew
      exact hcommit
  costs := by
    intro active hmem
    rcases List.mem_append.mp hmem with hold | hnew
    · exact h.costs active hold
    · cases List.mem_singleton.mp hnew
      exact hcommit

/-- What commits has been checked under the lock. -/
theorem Fenced.follows {t : Trace} (h : Fenced t) {dialect : Dialect} {a : Step} {commit : Commit}
    (hcommits : t.world.commits dialect a = some commit) : commit.Follows t.history := by
  unfold World.commits at hcommits
  split at hcommits
  · split at hcommits
    · next p call owned written hholder =>
        cases hcommits
        have hcovered := h.covered _ hholder
        cases owned with
        | none => exact hcovered
        | some run => exact hcovered
    · next args owned written hholder =>
        cases hcommits
        exact h.covered _ hholder
    · split at hcommits
      · cases hcommits
        trivial
      · cases hcommits
    · cases hcommits
  · cases hcommits

theorem Orderly.step {t : Trace} (h : Orderly t.history) (hfenced : Fenced t) (dialect : Dialect)
    (a : Step) : Orderly (t.step dialect a).history := by
  simp only [Trace.step]
  cases hcommits : t.world.commits dialect a with
  | none => simpa using h
  | some commit => exact h.append (hfenced.follows hcommits)

/-- In every interleaving at most one run is active, and the commits are orderly: a transaction of
a process that owns a run commits only while no other start has committed since that of its run, one
of a process that owns none only while no run is active, and so does a cost. -/
theorem run_fenced (dialect : Dialect) (paper : PaperDb) (steps : List Step) :
    let t := exec (Trace.step dialect) { world := { paper := paper } } steps
    (activeRuns t.world.runs).length ≤ 1 ∧ Orderly t.history := by
  have hrun := exec_invariant (I := fun t => Fenced t ∧ Orderly t.history)
    (fun t a h => ⟨h.1.step a, h.2.step h.1 dialect a⟩)
    (show Fenced { world := { paper := paper } } ∧ _ from ⟨Fenced.init paper, Orderly.nil⟩) steps
  exact ⟨hrun.1.active_length_le, hrun.2⟩

/-! ## A process without a run -/

/-- The tables of a new account. -/
def openedAccount : PaperDb := initializePaperAccount 100 0 {}

/-- Process 1 starts and stops a run; then process 0, which owns none, stores its risk state. -/
def startedAndStopped : List Step :=
  [.acquireLease 1, .begin (.start 1 "run-1" 0 120000000), .lock 0, .commit, .assign 1,
    .stop 1 "run-1" "graceful_shutdown" 5, .forget 1 "run-1", .releaseLease 1,
    .begin (.paper 0 (.risk ⟨none, none, none⟩ 9)), .lock 0, .check, .commit]

/-- A transaction of process 0 commits after the start of process 1. -/
theorem commits_after_foreign_start :
    ¬ ∀ before p owned active after q run,
      (exec (Trace.step .postgresql) { world := { paper := openedAccount } }
        startedAndStopped).history = before ++ .paper p owned active :: after →
      (q, run) ∈ startsOf before → p = q := by
  intro h
  have hhistory : (exec (Trace.step .postgresql) { world := { paper := openedAccount } }
      startedAndStopped).history = [.start 1 "run-1"] ++ .paper 0 none [] :: [] := by decide +kernel
  cases h _ _ _ _ _ 1 "run-1" hhistory (List.mem_singleton.mpr rfl)

end SniperBot.Runtime
