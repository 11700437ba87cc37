import SniperBot.Candidates.Lifecycle
import SniperBot.Basis.Dict

/-!
# The candidates map under interleaving tasks

`evaluate_candidates` copies the items of the candidates map when a pass starts and handles
them one after the other, awaiting snapshots, security data, persistence and the entry
handler before it writes its own result back. Between two awaits the code runs alone, so one
`Action` below is the code between two awaits: taking the copies, one write-back, one
`transition_candidate` of another task, or the candidate part of `_apply_event`.

A write-back is computed from the copy, not from the stored candidate. When a transition of
another task takes effect on a candidate that the pass still has to write back, the
write-back undoes it (`closed_candidate_reopened`); without such a transition every stored
status follows `_ALLOWED` (`undisturbed_run_keepsTable`).
-/

namespace SniperBot.Candidates

open Security Basis CandidateStateMachine

/-- The part of the pipeline that the tasks share. `pass` lists the copies that the running
evaluation pass has not written back yet. -/
structure Pipeline where
  candidates : Dict String Candidate
  pass : List (String × Candidate)

/-- What the awaited calls of one loop iteration return. -/
structure PassInput where
  evaluateInput : EvaluateInput
  /-- `self.entry_gate.enabled` -/
  gateEnabled : Bool
  /-- score and security data are there and `_entry_rules` holds -/
  entryRules : Bool
  /-- the result of the entry handler; `none` when the pipeline has no handler -/
  entryHandler : Option (Option RejectReason)

/-- The `ENTRY_PENDING` branch of `evaluate_candidates`. -/
def decideEntry (candidate : Candidate) (input : PassInput) : Except CandidateError Candidate :=
  let at' := input.evaluateInput.snapshot.snapshotTime
  if !input.gateEnabled then transition candidate .rejected at' (some .apiUnavailable)
  else if !input.entryRules then transition candidate .rejected at' (some .scoreTooLow)
  else match input.entryHandler with
    | none => .ok candidate
    | some none => transition candidate .positionOpen at'
    | some (some reason) => transition candidate .rejected at' (some reason)

/-- The result of one loop iteration for the copy it holds. -/
def passResult (machine : CandidateStateMachine) (copy : Candidate) (input : PassInput) :
    Except CandidateError Candidate :=
  if copy.state = .entryPending then decideEntry copy input
  else machine.call copy input.evaluateInput

inductive Action
  /-- `list(self.candidates.items())` -/
  | startPass
  /-- the awaited calls of the next iteration have returned; write its result back -/
  | writeBack (input : PassInput)
  /-- an awaited call raised: the pass ends -/
  | abortPass
  /-- `transition_candidate` by another task -/
  | transitionCandidate (candidateId : String) (target : CandidateState) (at' : Time)
  /-- `_apply_event` registers a new candidate -/
  | discover (candidate : Candidate)
  /-- `_apply_event` renews `updated_at` -/
  | touch (candidateId : String) (at' : Time)

variable (machine : CandidateStateMachine)

def step (pipeline : Pipeline) : Action → Pipeline
  | .startPass =>
      match pipeline.pass with
      | [] => { pipeline with pass := pipeline.candidates.entries }
      | _ :: _ => pipeline
  | .writeBack input =>
      match pipeline.pass with
      | [] => pipeline
      | (candidateId, copy) :: rest =>
          match passResult machine copy input with
          | .ok next => ⟨pipeline.candidates.set candidateId next, rest⟩
          | .error _ => { pipeline with pass := [] }
  | .abortPass => { pipeline with pass := [] }
  | .transitionCandidate candidateId target at' =>
      match pipeline.candidates.get? candidateId with
      | none => pipeline
      | some candidate =>
          match transition candidate target at' with
          | .ok updated =>
              { pipeline with candidates := pipeline.candidates.set candidateId updated }
          | .error _ => pipeline
  | .discover candidate =>
      { pipeline with
        candidates := pipeline.candidates.setDefault candidate.candidateId candidate }
  | .touch candidateId at' =>
      match pipeline.candidates.get? candidateId with
      | none => pipeline
      | some candidate =>
          { pipeline with
            candidates := pipeline.candidates.set candidateId { candidate with updatedAt := at' } }

/-! ## What a run has to keep -/

/-- Every stored candidate keeps its status or takes one entry of `_ALLOWED`. -/
def StatusesFollowTable (before after : Dict String Candidate) : Prop :=
  ∀ id candidate, before.get? id = some candidate →
    ∃ next, after.get? id = some next ∧
      (next.state = candidate.state ∨ next.state ∈ allowed candidate.state)

/-- When a write-back comes, the stored status is still that of its copy. -/
def CopyIsCurrent (pipeline : Pipeline) : Action → Prop
  | .writeBack _ => ∀ id copy rest, pipeline.pass = (id, copy) :: rest →
      ∃ stored, pipeline.candidates.get? id = some stored ∧ stored.state = copy.state
  | _ => True

/-- One step follows the table and overwrites no transition of another task. -/
def StepKeepsTable (pipeline : Pipeline) (action : Action) : Prop :=
  StatusesFollowTable pipeline.candidates (step machine pipeline action).candidates ∧
    CopyIsCurrent pipeline action

/-- No transition of another task takes effect on a candidate that the running pass has still
to write back. -/
def Undisturbed (pipeline : Pipeline) : Action → Prop
  | .transitionCandidate candidateId target at' =>
      candidateId ∈ pipeline.pass.map Prod.fst →
        ∀ candidate updated, pipeline.candidates.get? candidateId = some candidate →
          transition candidate target at' ≠ .ok updated
  | _ => True

/-! ## One iteration -/

theorem statusesFollowTable_refl (d : Dict String Candidate) : StatusesFollowTable d d :=
  fun _ candidate h => ⟨candidate, h, Or.inl rfl⟩

/-- Storing a candidate whose status is reached from the stored one keeps the table. -/
theorem statusesFollowTable_set {d : Dict String Candidate} {id : String} {stored next : Candidate}
    (hget : d.get? id = some stored)
    (hstep : next.state = stored.state ∨ next.state ∈ allowed stored.state) :
    StatusesFollowTable d (d.set id next) := by
  intro j candidate hj
  by_cases hij : id = j
  · subst hij
    rw [hget] at hj
    cases hj
    exact ⟨next, d.get?_set_self id next, hstep⟩
  · exact ⟨candidate, by rw [d.get?_set_ne hij]; exact hj, Or.inl rfl⟩

theorem statusesFollowTable_setDefault (d : Dict String Candidate) (id : String)
    (fresh : Candidate) : StatusesFollowTable d (d.setDefault id fresh) := by
  unfold Dict.setDefault
  split
  · exact statusesFollowTable_refl d
  · rename_i hnew
    intro j candidate hj
    have hij : id ≠ j := by
      rintro rfl
      exact hnew (Dict.contains_eq_true.mpr ⟨candidate, hj⟩)
    exact ⟨candidate, by rw [d.get?_set_ne hij]; exact hj, Or.inl rfl⟩

/-- The entry decision only asks for transitions of the table. -/
theorem decideEntry_spec {copy next : Candidate} {input : PassInput}
    (h : decideEntry copy input = .ok next) :
    next.state = copy.state ∨ next.state ∈ allowed copy.state := by
  unfold decideEntry at h
  dsimp only at h
  split at h
  · have hspec := transition_spec h
    exact Or.inr (hspec.1 ▸ hspec.2.1)
  · split at h
    · have hspec := transition_spec h
      exact Or.inr (hspec.1 ▸ hspec.2.1)
    · split at h
      · cases h
        exact Or.inl rfl
      · have hspec := transition_spec h
        exact Or.inr (hspec.1 ▸ hspec.2.1)
      · have hspec := transition_spec h
        exact Or.inr (hspec.1 ▸ hspec.2.1)

theorem passResult_spec {copy next : Candidate} {input : PassInput}
    (h : passResult machine copy input = .ok next) :
    next.state = copy.state ∨ next.state ∈ allowed copy.state := by
  unfold passResult at h
  split at h
  · exact decideEntry_spec h
  · rcases evaluate_spec machine copy input.evaluateInput with ⟨-, hcall⟩ | ⟨-, out, hcall, hstep, -⟩
    · rw [hcall] at h
      cases h
    · rw [hcall] at h
      cases h
      exact hstep

/-! ## The invariant of an undisturbed run -/

/-- The pass holds each candidate once, and each copy has the status that is stored. -/
structure CopiesCurrent (pipeline : Pipeline) : Prop where
  nodup : (pipeline.pass.map Prod.fst).Nodup
  current : ∀ id copy, (id, copy) ∈ pipeline.pass →
    ∃ stored, pipeline.candidates.get? id = some stored ∧ stored.state = copy.state

theorem copiesCurrent_of_pass_nil {pipeline : Pipeline} (h : pipeline.pass = []) :
    CopiesCurrent pipeline := by
  constructor <;> simp [h]

/-- A change of the map that keeps the status of every pending candidate keeps the
invariant. -/
theorem CopiesCurrent.of_map {pipeline : Pipeline} (h : CopiesCurrent pipeline)
    {candidates : Dict String Candidate}
    (hkeep : ∀ id ∈ pipeline.pass.map Prod.fst, ∀ stored,
      pipeline.candidates.get? id = some stored →
      ∃ next, candidates.get? id = some next ∧ next.state = stored.state) :
    CopiesCurrent { pipeline with candidates := candidates } := by
  refine ⟨h.nodup, fun id copy hmem => ?_⟩
  obtain ⟨stored, hget, hstate⟩ := h.current id copy hmem
  obtain ⟨next, hnext, hsame⟩ := hkeep id (List.mem_map.mpr ⟨_, hmem, rfl⟩) stored hget
  exact ⟨next, hnext, hsame.trans hstate⟩

theorem CopiesCurrent.startPass {pipeline : Pipeline} (h : CopiesCurrent pipeline) :
    CopiesCurrent (step machine pipeline .startPass) := by
  simp only [step]
  split
  · refine ⟨pipeline.candidates.nodup, fun id copy hmem => ?_⟩
    exact ⟨copy, Dict.mem_entries.mp hmem, rfl⟩
  · exact h

theorem CopiesCurrent.writeBack {pipeline : Pipeline} (h : CopiesCurrent pipeline)
    (input : PassInput) : CopiesCurrent (step machine pipeline (.writeBack input)) := by
  simp only [step]
  split
  · exact h
  · rename_i id copy rest hpass
    split
    · refine ⟨?_, fun j other hmem => ?_⟩
      · have hnodup := h.nodup
        rw [hpass] at hnodup
        exact (List.nodup_cons.mp hnodup).2
      · -- the tail of the pass holds other candidates, which the write-back leaves alone
        have hne : id ≠ j := by
          rintro rfl
          have hnodup := h.nodup
          rw [hpass] at hnodup
          exact (List.nodup_cons.mp hnodup).1 (List.mem_map.mpr ⟨_, hmem, rfl⟩)
        obtain ⟨stored, hget, hstate⟩ := h.current j other (by rw [hpass]; exact .tail _ hmem)
        exact ⟨stored, by rw [pipeline.candidates.get?_set_ne hne]; exact hget, hstate⟩
    · exact copiesCurrent_of_pass_nil rfl

theorem CopiesCurrent.transitionCandidate {pipeline : Pipeline} (h : CopiesCurrent pipeline)
    {id : String} {target : CandidateState} {at' : Time}
    (hquiet : Undisturbed pipeline (.transitionCandidate id target at')) :
    CopiesCurrent (step machine pipeline (.transitionCandidate id target at')) := by
  simp only [step]
  split
  · exact h
  · rename_i candidate hget
    split
    · rename_i updated hok
      refine h.of_map fun j hj stored hstored => ?_
      have hne : id ≠ j := by
        rintro rfl
        exact hquiet hj candidate updated hget hok
      exact ⟨stored, by rw [pipeline.candidates.get?_set_ne hne]; exact hstored, rfl⟩
    · exact h

theorem CopiesCurrent.discover {pipeline : Pipeline} (h : CopiesCurrent pipeline)
    (candidate : Candidate) : CopiesCurrent (step machine pipeline (.discover candidate)) := by
  refine h.of_map fun j _ stored hstored => ?_
  unfold Dict.setDefault
  split
  · exact ⟨stored, hstored, rfl⟩
  · rename_i hnew
    have hne : candidate.candidateId ≠ j := by
      rintro rfl
      exact hnew (Dict.contains_eq_true.mpr ⟨stored, hstored⟩)
    exact ⟨stored, by rw [pipeline.candidates.get?_set_ne hne]; exact hstored, rfl⟩

theorem CopiesCurrent.touch {pipeline : Pipeline} (h : CopiesCurrent pipeline) (id : String)
    (at' : Time) : CopiesCurrent (step machine pipeline (.touch id at')) := by
  simp only [step]
  split
  · exact h
  · rename_i candidate hget
    refine h.of_map fun j _ stored hstored => ?_
    by_cases hij : id = j
    · subst hij
      rw [hget] at hstored
      cases hstored
      exact ⟨_, pipeline.candidates.get?_set_self id _, rfl⟩
    · exact ⟨stored, by rw [pipeline.candidates.get?_set_ne hij]; exact hstored, rfl⟩

theorem CopiesCurrent.step {pipeline : Pipeline} (h : CopiesCurrent pipeline) (action : Action)
    (hquiet : Undisturbed pipeline action) : CopiesCurrent (step machine pipeline action) := by
  cases action with
  | startPass => exact h.startPass machine
  | writeBack input => exact h.writeBack machine input
  | abortPass => exact copiesCurrent_of_pass_nil rfl
  | transitionCandidate id target at' => exact h.transitionCandidate machine hquiet
  | discover candidate => exact h.discover machine candidate
  | touch id at' => exact h.touch machine id at'

/-! ## Runs -/

/-- A step from a state whose copies are current follows the table. Only the write-back needs
the invariant: every other action reads the stored candidate itself. -/
theorem CopiesCurrent.stepKeepsTable {pipeline : Pipeline} (h : CopiesCurrent pipeline)
    (action : Action) : StepKeepsTable machine pipeline action := by
  cases action with
  | startPass =>
      refine ⟨?_, trivial⟩
      simp only [SniperBot.Candidates.step]
      split <;> exact statusesFollowTable_refl _
  | abortPass => exact ⟨statusesFollowTable_refl _, trivial⟩
  | writeBack input =>
      refine ⟨?_, fun id copy rest hpass => h.current id copy (by rw [hpass]; exact .head _)⟩
      simp only [SniperBot.Candidates.step]
      split
      · exact statusesFollowTable_refl _
      · rename_i id copy rest hpass
        split
        · rename_i next hresult
          obtain ⟨stored, hget, hstate⟩ := h.current id copy (by rw [hpass]; exact .head _)
          exact statusesFollowTable_set hget (hstate ▸ passResult_spec machine hresult)
        · exact statusesFollowTable_refl _
  | transitionCandidate id target at' =>
      refine ⟨?_, trivial⟩
      simp only [SniperBot.Candidates.step]
      split
      · exact statusesFollowTable_refl _
      · rename_i candidate hget
        split
        · rename_i updated hok
          have hspec := transition_spec hok
          exact statusesFollowTable_set hget (Or.inr (hspec.1 ▸ hspec.2.1))
        · exact statusesFollowTable_refl _
  | discover candidate =>
      exact ⟨statusesFollowTable_setDefault pipeline.candidates _ candidate, trivial⟩
  | touch id at' =>
      refine ⟨?_, trivial⟩
      simp only [SniperBot.Candidates.step]
      split
      · exact statusesFollowTable_refl _
      · rename_i candidate hget
        exact statusesFollowTable_set hget (Or.inl rfl)

/-- A candidate that is closed or rejected has no entry to take. -/
def StaysTerminal (before after : Dict String Candidate) : Prop :=
  ∀ id candidate, before.get? id = some candidate →
    candidate.state = .closed ∨ candidate.state = .rejected →
    ∃ next, after.get? id = some next ∧ next.state = candidate.state

theorem StatusesFollowTable.staysTerminal {before after : Dict String Candidate}
    (h : StatusesFollowTable before after) : StaysTerminal before after := by
  intro id candidate hget hterminal
  obtain ⟨next, hnext, hstate | hmem⟩ := h id candidate hget
  · exact ⟨next, hnext, hstate⟩
  · rcases hterminal with hs | hs <;> rw [hs] at hmem <;> cases hmem

theorem StaysTerminal.trans {a b c : Dict String Candidate} (hab : StaysTerminal a b)
    (hbc : StaysTerminal b c) : StaysTerminal a c := by
  intro id candidate hget hterminal
  obtain ⟨next, hnext, hstate⟩ := hab id candidate hget hterminal
  obtain ⟨last, hlast, hsame⟩ := hbc id next hnext (hstate ▸ hterminal)
  exact ⟨last, hlast, hsame.trans hstate⟩

theorem along_stepKeepsTable {pipeline : Pipeline} (h : CopiesCurrent pipeline)
    {actions : List Action} (hrun : Along Undisturbed (step machine) pipeline actions) :
    Along (StepKeepsTable machine) (step machine) pipeline actions := by
  induction actions generalizing pipeline with
  | nil => trivial
  | cons action actions ih =>
      exact ⟨h.stepKeepsTable machine action, ih (h.step machine action hrun.1) hrun.2⟩

/-- Whatever the interleaving, as long as no transition of another task takes effect on a
candidate that the running pass still has to write back: every step follows `_ALLOWED` and
overwrites no transition, and a candidate stored as closed or rejected stays so in every later
state. -/
theorem undisturbed_run_keepsTable (pipeline : Pipeline) (hstart : pipeline.pass = [])
    (actions : List Action) (hrun : Along Undisturbed (step machine) pipeline actions) :
    Along (StepKeepsTable machine) (step machine) pipeline actions ∧
      ∀ first later, actions = first ++ later →
        StaysTerminal (exec (step machine) pipeline first).candidates
          (exec (step machine) pipeline actions).candidates := by
  have hcurrent := copiesCurrent_of_pass_nil hstart
  refine ⟨along_stepKeepsTable machine hcurrent hrun, ?_⟩
  rintro first later rfl
  obtain ⟨hfirst, hlater⟩ := Along.append_iff.mp hrun
  have hmid : CopiesCurrent (exec (step machine) pipeline first) :=
    hfirst.invariant (fun p a hp ha => hp.step machine a ha) hcurrent
  rw [exec_append]
  exact hlater.relates (R := fun p q => StaysTerminal p.candidates q.candidates)
    (fun p => (statusesFollowTable_refl p.candidates).staysTerminal)
    (fun _ _ _ => StaysTerminal.trans) (fun p a hp ha => hp.step machine a ha)
    (fun p a hp _ => (hp.stepKeepsTable machine a).1.staysTerminal) hmid

/-! ## A restored position, exited during a pass -/

/-- The pipeline after a restart with one candidate whose position is open. -/
def restoredPipeline : Pipeline where
  candidates := Dict.empty.set "candidate"
    { candidateId := "candidate", mint := "TOKEN", poolAddress := "POOL", state := .positionOpen
      detectedAt := 0, updatedAt := 0 }
  pass := []

/-- An iteration for a candidate with an open position. -/
def quietInput : PassInput where
  evaluateInput := { snapshot := { snapshotTime := seconds 60 } }
  gateEnabled := true
  entryRules := false
  entryHandler := none

theorem undisturbed_run_keepsTable_restored :
    Along (StepKeepsTable {}) (step {}) restoredPipeline
      [.startPass, .writeBack quietInput,
        .transitionCandidate "candidate" .exitPending (seconds 61)] := by
  refine (undisturbed_run_keepsTable {} restoredPipeline rfl _ ?_).1
  refine ⟨trivial, trivial, ?_, trivial⟩
  intro hmem
  exact absurd hmem (by decide)

/-- The exit loop moves the candidate to `EXIT_PENDING` and `CLOSED` after the pass took its
copy; the write-back stores `POSITION_OPEN` again. -/
theorem closed_candidate_reopened :
    ∃ (pipeline : Pipeline) (first later : List Action), pipeline.pass = [] ∧
      ((exec (step {}) pipeline first).candidates.get? "candidate").map Candidate.state
        = some .closed ∧
      ((exec (step {}) pipeline (first ++ later)).candidates.get? "candidate").map
        Candidate.state = some .positionOpen ∧
      ¬ Along (StepKeepsTable {}) (step {}) pipeline (first ++ later) := by
  have hclosed : ((exec (step {}) restoredPipeline
      [.startPass, .transitionCandidate "candidate" .exitPending (seconds 58),
        .transitionCandidate "candidate" .closed (seconds 59)]).candidates.get?
      "candidate").map Candidate.state = some .closed := by decide
  refine ⟨restoredPipeline, _, [.writeBack quietInput], rfl, hclosed, by decide, ?_⟩
  intro hrun
  obtain ⟨-, -, -, ⟨-, hcopy⟩, -⟩ := hrun
  obtain ⟨stored, hstored, hstate⟩ := hcopy _ _ _ rfl
  have hsame : some stored.state = some CandidateState.closed := by
    rw [← hclosed]
    exact congrArg (Option.map Candidate.state) hstored.symm
  rw [hstate] at hsame
  exact absurd hsame (by decide)

end SniperBot.Candidates
