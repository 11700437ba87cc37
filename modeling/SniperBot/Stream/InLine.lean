import SniperBot.Stream.Dispatch
import Mathlib.Data.List.Nodup

/-!
# Log notifications are queued in line

The processing queue holds what the tasks have put there, in the order of their sequence numbers:
a task gets to the queue only when every task of its connection before it is dispatched
(`InLine.chained`). A task whose previous one was already forgotten needs no more than that the last
task was dispatched, since a failure stops the spawning until the next connection.
-/

namespace SniperBot.Stream

open Basis Features

/-! ## The entries of the tasks -/

/-- What tasks have put into the queue, when the first has the number `n`. -/
def entriesFrom : Nat → List LogTask → List LogEntry
  | _, [] => []
  | n, task :: tasks => task.put.map (⟨n, task.item, ·⟩) ++ entriesFrom (n + 1) tasks

theorem entriesFrom_append (n : Nat) (tasks more : List LogTask) :
    entriesFrom n (tasks ++ more) = entriesFrom n tasks ++ entriesFrom (n + tasks.length) more := by
  induction tasks generalizing n with
  | nil => rfl
  | cons task tasks ih =>
      rw [List.cons_append, entriesFrom, ih, entriesFrom, List.append_assoc, List.length_cons,
        Nat.add_assoc, Nat.add_comm 1]

theorem entriesFrom_eq_nil (n : Nat) {tasks : List LogTask} (h : ∀ task ∈ tasks, task.put = []) :
    entriesFrom n tasks = [] := by
  induction tasks generalizing n with
  | nil => rfl
  | cons task tasks ih =>
      rw [entriesFrom, h task List.mem_cons_self, ih _ fun task htask => h task (.tail _ htask)]
      rfl

/-- Entries depend on the notifications and on what was put. -/
theorem entriesFrom_congr (n : Nat) {tasks tasks' : List LogTask}
    (h : tasks.map (fun task => (task.item, task.put)) =
      tasks'.map fun task => (task.item, task.put)) :
    entriesFrom n tasks = entriesFrom n tasks' := by
  induction tasks generalizing n tasks' with
  | nil =>
      rw [List.map_nil, eq_comm, List.map_eq_nil_iff] at h
      rw [h]
  | cons task tasks ih =>
      cases tasks' with
      | nil => cases h
      | cons task' tasks' =>
          rw [List.map_cons, List.map_cons] at h
          injection h with hhead htail
          injection hhead with hitem hput
          rw [entriesFrom, entriesFrom, hitem, hput, ih _ htail]

theorem map_set_same {β : Type*} {f : LogTask → β} {tasks : List LogTask} {n : Nat}
    {task : LogTask} (task' : LogTask) (hn : tasks[n]? = some task) (hf : f task' = f task) :
    (tasks.set n task').map f = tasks.map f := by
  refine List.ext_getElem? fun m => ?_
  rw [List.getElem?_map, List.getElem?_map, List.getElem?_set]
  split
  · next heq =>
      subst heq
      rw [hn, if_pos (List.getElem?_eq_some_iff.mp hn).1, Option.map_some, Option.map_some, hf]
  · rfl

/-- A task with nothing behind it puts an entry at the end. -/
theorem entriesFrom_set (n : Nat) {tasks : List LogTask} {k : Nat} {task : LogTask} (task' : LogTask)
    (hk : tasks[k]? = some task)
    (hbehind : ∀ (m : Nat) (u : LogTask), k < m → tasks[m]? = some u → u.put = []) {protocol : Protocol}
    (hitem : task'.item = task.item) (hput : task'.put = task.put ++ [protocol]) :
    entriesFrom n (tasks.set k task') =
      entriesFrom n tasks ++ [⟨n + k, task.item, protocol⟩] := by
  induction tasks generalizing n k with
  | nil => cases hk
  | cons first tasks ih =>
      cases k with
      | zero =>
          cases hk
          have hnone : ∀ u ∈ tasks, u.put = [] := fun u hu => by
            obtain ⟨m, hm⟩ := List.mem_iff_getElem?.mp hu
            exact hbehind (m + 1) u (Nat.succ_pos m) hm
          rw [List.set_cons_zero, entriesFrom, entriesFrom, entriesFrom_eq_nil _ hnone, hitem, hput,
            List.map_append, List.append_nil, List.append_nil]
          rfl
      | succ k =>
          rw [List.set_cons_succ, entriesFrom, entriesFrom,
            ih (n + 1) hk fun m u hm hu => hbehind (m + 1) u (Nat.succ_lt_succ hm) hu,
            List.append_assoc, Nat.add_assoc, Nat.add_comm 1]

theorem mem_entriesFrom {n : Nat} {tasks : List LogTask} {e : LogEntry}
    (h : e ∈ entriesFrom n tasks) : ∃ k task, tasks[k]? = some task ∧ e.sequence = n + k ∧
      e.item = task.item ∧ e.protocol ∈ task.put := by
  induction tasks generalizing n with
  | nil => cases h
  | cons first tasks ih =>
      rcases List.mem_append.mp h with hfirst | hrest
      · obtain ⟨protocol, hprotocol, rfl⟩ := List.mem_map.mp hfirst
        exact ⟨0, first, rfl, rfl, rfl, hprotocol⟩
      · obtain ⟨k, task, hk, hsequence, hitem, hput⟩ := ih hrest
        exact ⟨k + 1, task, hk, by omega, hitem, hput⟩

/-! ## Tasks in line -/

/-- A task has got to the queue. -/
def LogTask.active (task : LogTask) : Prop :=
  task.put ≠ [] ∨ task.phase = .dispatched ∨ ∃ rest, task.phase = .queueing rest

/-- What a task has put is as far as its phase says. -/
def LogTask.Put (task : LogTask) : Prop :=
  match task.phase with
  | .queueing rest => task.put ++ rest = transactionProtocols task.item.logs
  | .dispatched => task.put = transactionProtocols task.item.logs
  | .cancelled => task.put <+: transactionProtocols task.item.logs
  | _ => task.put = []

theorem LogTask.Put.isPrefix {task : LogTask} (h : task.Put) :
    task.put <+: transactionProtocols task.item.logs := by
  unfold LogTask.Put at h
  split at h
  · exact ⟨_, h⟩
  · exact h ▸ List.prefix_rfl
  · exact h
  · exact h ▸ List.nil_prefix

structure InLine (s : LogStream) : Prop where
  queued : s.queue = entriesFrom 0 s.tasks
  put : ∀ (n : Nat) (task : LogTask), s.tasks[n]? = some task → task.Put
  settled : ∀ (n : Nat) (task : LogTask), s.tasks[n]? = some task → n < s.base → task.phase.done
  chained : ∀ (m : Nat) (active : LogTask), s.tasks[m]? = some active → active.active →
    ∀ (n : Nat) (task : LogTask), s.tasks[n]? = some task → s.base ≤ n → n < m → task.phase = .dispatched
  first : ∀ (n : Nat) (task : LogTask), s.tasks[n]? = some task → s.base ≤ n → ¬ task.phase.done →
    task.previous = none → ∀ (m : Nat) (earlier : LogTask), s.tasks[m]? = some earlier → s.base ≤ m →
      m < n → earlier.phase = .dispatched
  previous : ∀ (n : Nat) (task : LogTask), s.tasks[n]? = some task → s.base ≤ n → ¬ task.phase.done →
    ∀ p, task.previous = some p → p + 1 = n ∧ s.base ≤ p
  forgotten : s.tail = none → ∀ (n : Nat) (task : LogTask), s.tasks[n]? = some task →
    n + 1 = s.tasks.length → s.base ≤ n → task.phase.done
  tail : ∀ p, s.tail = some p → p + 1 = s.tasks.length ∧ s.base ≤ p
  failed : ∀ (n : Nat) (task : LogTask), s.tasks[n]? = some task → s.base ≤ n → task.phase = .failed →
    s.reconnectRequested = true
  cancelled : ∀ (n : Nat) (task : LogTask), s.tasks[n]? = some task → s.base ≤ n →
    task.phase = .cancelled → s.link = .down
  down : s.link = .down →
    (∀ (n : Nat) (task : LogTask), s.tasks[n]? = some task → task.phase.done) ∧ s.tail = none
  idle : s.link ≠ .up → s.dispatcher = .absent
  base_le : s.base ≤ s.tasks.length

theorem InLine.init (concurrency : Nat) : InLine (.init concurrency) where
  queued := rfl
  put := fun n task h => by cases h
  settled := fun n task h => by cases h
  chained := fun m active h => by cases h
  first := fun n task h => by cases h
  previous := fun n task h => by cases h
  forgotten := fun _ n task h => by cases h
  tail := fun p h => by cases h
  failed := fun n task h => by cases h
  cancelled := fun n task h => by cases h
  down := fun _ => ⟨fun n task h => (by cases h), rfl⟩
  idle := fun _ => rfl
  base_le := Nat.le_refl 0

variable {s : LogStream}

/-- A step that leaves the tasks and the connection as they are. -/
theorem InLine.quiet (h : InLine s) {s' : LogStream} (htasks : s'.tasks = s.tasks)
    (hqueue : s'.queue = s.queue) (hbase : s'.base = s.base) (hlink : s'.link = s.link)
    (hreconnect : s.reconnectRequested = true → s'.reconnectRequested = true)
    (htail : s'.tail = s.tail) (hidle : s.link ≠ .up → s'.dispatcher = .absent) : InLine s' where
  queued := by rw [hqueue, htasks]; exact h.queued
  put := by rw [htasks]; exact h.put
  settled := by rw [htasks, hbase]; exact h.settled
  chained := by rw [htasks, hbase]; exact h.chained
  first := by rw [htasks, hbase]; exact h.first
  previous := by rw [htasks, hbase]; exact h.previous
  forgotten := by rw [htasks, hbase, htail]; exact h.forgotten
  tail := by rw [htasks, hbase, htail]; exact h.tail
  failed := by
    rw [htasks, hbase]
    exact fun n task hn hbase hfailed => hreconnect (h.failed n task hn hbase hfailed)
  cancelled := by rw [htasks, hbase, hlink]; exact h.cancelled
  down := by rw [htasks, hlink, htail]; exact h.down
  idle := by rw [hlink]; exact hidle
  base_le := by rw [htasks, hbase]; exact h.base_le

/-- A task of the connection that is not over goes on. -/
theorem InLine.update (h : InLine s) {s' : LogStream} {n : Nat} {task task' : LogTask}
    (hn : s.tasks[n]? = some task) (hlive : ¬ task.phase.done)
    (htasks : s'.tasks = s.tasks.set n task') (hprevious : task'.previous = task.previous)
    (hqueue : s'.queue = entriesFrom 0 s'.tasks) (hbase : s'.base = s.base)
    (hlink : s'.link = s.link) (htail : s'.tail = s.tail)
    (hdispatcher : s'.dispatcher = s.dispatcher)
    (hreconnect : s.reconnectRequested = true ∨ task'.phase = .failed →
      s'.reconnectRequested = true)
    (hput : task'.Put) (hcancelled : task'.phase ≠ .cancelled)
    (hactive : task'.active → task.active ∨ ∀ (m : Nat) (earlier : LogTask),
      s.tasks[m]? = some earlier → s.base ≤ m → m < n → earlier.phase = .dispatched) :
    InLine s' := by
  have hlt : n < s.tasks.length := (List.getElem?_eq_some_iff.mp hn).1
  have hbase_le : s.base ≤ n := Nat.le_of_not_lt fun hlow => hlive (h.settled n task hn hlow)
  have hnotDown : s.link ≠ .down := fun hdown => hlive ((h.down hdown).1 n task hn)
  have hget : ∀ (m : Nat) (u : LogTask), s'.tasks[m]? = some u →
      m = n ∧ u = task' ∨ m ≠ n ∧ s.tasks[m]? = some u := by
    intro m u hm
    rw [htasks, List.getElem?_set] at hm
    split at hm
    · next heq => exact Or.inl ⟨heq.symm, (Option.some.inj hm).symm⟩
    · next hne => exact Or.inr ⟨fun heq => hne heq.symm, hm⟩
  refine ⟨hqueue, fun m u hm => ?_, fun m u hm hlow => ?_, fun m u hm hu k t hk hk_base hkm => ?_,
    fun k t hk hk_base hk_live hnone m e hm hm_base hmk => ?_,
    fun k t hk hk_base hk_live p hp => ?_, fun hnone k t hk hlast hk_base => ?_, fun p hp => ?_,
    fun k t hk hk_base hfailed => ?_, fun k t hk hk_base hk_cancelled => ?_, fun hdown => ?_,
    fun hdown => ?_, ?_⟩
  · rcases hget m u hm with ⟨-, rfl⟩ | ⟨-, hold⟩
    · exact hput
    · exact h.put m u hold
  · rw [hbase] at hlow
    rcases hget m u hm with ⟨rfl, -⟩ | ⟨-, hold⟩
    · exact absurd hbase_le (Nat.not_le_of_lt hlow)
    · exact h.settled m u hold hlow
  · rw [hbase] at hk_base
    rcases hget m u hm with ⟨rfl, rfl⟩ | ⟨-, hold⟩
    · have hk_old := (hget k t hk).resolve_left fun heq => Nat.ne_of_lt hkm heq.1
      rcases hactive hu with hwas | hearlier
      · exact h.chained m task hn hwas k t hk_old.2 hk_base hkm
      · exact hearlier k t hk_old.2 hk_base hkm
    · rcases hget k t hk with ⟨rfl, rfl⟩ | ⟨-, hk_old⟩
      · have hdispatched := h.chained m u hold hu k task hn hk_base hkm
        exact absurd (by rw [hdispatched]; trivial) hlive
      · exact h.chained m u hold hu k t hk_old hk_base hkm
  · rw [hbase] at hk_base hm_base
    have hearlier : m ≠ n → s.tasks[m]? = some e := fun hne =>
      ((hget m e hm).resolve_left fun heq => hne heq.1).2
    rcases hget k t hk with ⟨rfl, rfl⟩ | ⟨-, hk_old⟩
    · exact h.first k task hn hk_base hlive (hprevious ▸ hnone) m e
        (hearlier (Nat.ne_of_lt hmk)) hm_base hmk
    · by_cases heq : m = n
      · subst heq
        have hdispatched := h.first k t hk_old hk_base hk_live hnone m task hn hm_base hmk
        exact absurd (by rw [hdispatched]; trivial) hlive
      · exact h.first k t hk_old hk_base hk_live hnone m e (hearlier heq) hm_base hmk
  · rw [hbase] at hk_base ⊢
    rcases hget k t hk with ⟨rfl, rfl⟩ | ⟨-, hk_old⟩
    · exact h.previous k task hn hk_base hlive p (hprevious ▸ hp)
    · exact h.previous k t hk_old hk_base hk_live p hp
  · rw [htail] at hnone
    rw [hbase] at hk_base
    rw [htasks, List.length_set] at hlast
    rcases hget k t hk with ⟨rfl, -⟩ | ⟨-, hk_old⟩
    · exact absurd (h.forgotten hnone k task hn hlast hk_base) hlive
    · exact h.forgotten hnone k t hk_old hlast hk_base
  · rw [htail] at hp
    rw [htasks, List.length_set, hbase]
    exact h.tail p hp
  · rw [hbase] at hk_base
    rcases hget k t hk with ⟨-, rfl⟩ | ⟨-, hk_old⟩
    · exact hreconnect (Or.inr hfailed)
    · exact hreconnect (Or.inl (h.failed k t hk_old hk_base hfailed))
  · rw [hbase] at hk_base
    rw [hlink]
    rcases hget k t hk with ⟨-, rfl⟩ | ⟨-, hk_old⟩
    · exact absurd hk_cancelled hcancelled
    · exact h.cancelled k t hk_old hk_base hk_cancelled
  · exact absurd (hlink ▸ hdown) hnotDown
  · rw [hdispatcher]
    exact h.idle (hlink ▸ hdown)
  · rw [htasks, List.length_set, hbase]
    exact h.base_le

/-- A task goes on without putting anything. -/
theorem InLine.setPhase (h : InLine s) {s' : LogStream} {n : Nat} {task : LogTask}
    {phase : LogPhase} (hn : s.tasks[n]? = some task) (hlive : ¬ task.phase.done)
    (htasks : s'.tasks = s.tasks.set n { task with phase := phase }) (hqueue : s'.queue = s.queue)
    (hbase : s'.base = s.base) (hlink : s'.link = s.link) (htail : s'.tail = s.tail)
    (hdispatcher : s'.dispatcher = s.dispatcher)
    (hreconnect : s.reconnectRequested = true ∨ phase = .failed → s'.reconnectRequested = true)
    (hput : ({ task with phase := phase } : LogTask).Put) (hcancelled : phase ≠ .cancelled)
    (hactive : ({ task with phase := phase } : LogTask).active → task.active ∨
      ∀ (m : Nat) (earlier : LogTask), s.tasks[m]? = some earlier → s.base ≤ m → m < n →
        earlier.phase = .dispatched) : InLine s' := by
  refine h.update hn hlive htasks rfl ?_ hbase hlink htail hdispatcher hreconnect hput hcancelled
    hactive
  rw [hqueue, h.queued, htasks]
  refine entriesFrom_congr 0 ?_
  exact (map_set_same { task with phase := phase } hn rfl).symm

/-! ## Steps -/

theorem InLine.failTask (h : InLine s) {n : Nat} {task : LogTask} (hn : s.tasks[n]? = some task)
    (hlive : ¬ task.phase.done) (hput : task.put = []) : InLine (s.failTask n task) :=
  h.setPhase hn hlive rfl rfl rfl rfl rfl rfl (fun _ => rfl) hput nofun
    fun hactive => by
      rcases hactive with hput' | hdispatched | ⟨rest, hrest⟩
      · exact absurd hput hput'
      · cases hdispatched
      · cases hrest

/-- The tasks before it are dispatched, and a task gets to the queue unless it fails. -/
theorem InLine.check (h : InLine s) {n : Nat} {task : LogTask} (hn : s.tasks[n]? = some task)
    (hwaiting : task.phase = .waiting) (hearlier : ∀ (m : Nat) (earlier : LogTask),
      s.tasks[m]? = some earlier → s.base ≤ m → m < n → earlier.phase = .dispatched)
    (prepared : Bool) : InLine (s.check n task prepared) := by
  have hlive : ¬ task.phase.done := by rw [hwaiting]; exact id
  have hput : task.put = [] := by
    have := h.put n task hn
    rwa [LogTask.Put, hwaiting] at this
  have hfail := h.failTask hn hlive hput
  unfold LogStream.check
  split
  · exact hfail
  · split
    · refine h.setPhase hn hlive rfl rfl rfl rfl rfl rfl ?_ ?_ nofun fun _ => Or.inr hearlier
      · rintro (hreconnect | hfailed)
        · exact hreconnect
        · cases hfailed
      · show task.put ++ _ = _
        rw [hput, List.nil_append]
    · exact hfail

/-- Once the last task of the connection is dispatched, all are. -/
theorem InLine.all_dispatched (h : InLine s) {n : Nat} {task : LogTask}
    (hn : s.tasks[n]? = some task) (hdispatched : task.phase = .dispatched) (m : Nat)
    (earlier : LogTask) (hm : s.tasks[m]? = some earlier) (hbase : s.base ≤ m) (hle : m ≤ n) :
    earlier.phase = .dispatched := by
  rcases Nat.lt_or_eq_of_le hle with hlt | rfl
  · exact h.chained n task hn (Or.inr (Or.inl hdispatched)) m earlier hm hbase hlt
  · rw [hn] at hm
    cases hm
    exact hdispatched

theorem InLine.proceed (h : InLine s) {n : Nat} {task : LogTask} (hn : s.tasks[n]? = some task)
    (hwaiting : task.phase = .waiting) (prepared : Bool) :
    InLine (s.proceed n task prepared) := by
  have hlive : ¬ task.phase.done := by rw [hwaiting]; exact id
  have hbase : s.base ≤ n := Nat.le_of_not_lt fun hlow => hlive (h.settled n task hn hlow)
  have hput : task.put = [] := by
    have := h.put n task hn
    rwa [LogTask.Put, hwaiting] at this
  have hprevious : ∀ p, task.previous = some p → p + 1 = n ∧ s.base ≤ p :=
    h.previous n task hn hbase hlive
  unfold LogStream.proceed
  cases hp : task.previous with
  | none => exact h.check hn hwaiting (h.first n task hn hbase hlive hp) prepared
  | some p =>
      obtain ⟨hnext, hp_base⟩ := hprevious p hp
      have hp_lt : p < s.tasks.length := by
        have := (List.getElem?_eq_some_iff.mp hn).1
        omega
      have hget := List.getElem?_eq_getElem hp_lt
      rw [Option.bind_some, hget]
      generalize s.tasks[p] = previous at hget
      dsimp only
      cases hphase : previous.phase with
      | dispatched =>
          refine h.check hn hwaiting (fun m earlier hm hm_base hlt => ?_) prepared
          exact h.all_dispatched hget hphase m earlier hm hm_base (by omega)
      | failed => exact h.failTask hn hlive hput
      | cancelled =>
          -- a cancelled task means that the connection is down, where no task is left
          exact absurd ((h.down (h.cancelled p _ hget hp_base hphase)).1 n task hn) hlive
      | _ => exact h

theorem InLine.putStep (h : InLine s) {n : Nat} {task : LogTask} {rest : List Protocol}
    (hn : s.tasks[n]? = some task) (hqueueing : task.phase = .queueing rest) :
    InLine (s.put n task rest) := by
  have hlive : ¬ task.phase.done := by rw [hqueueing]; exact id
  have hbase : s.base ≤ n := Nat.le_of_not_lt fun hlow => hlive (h.settled n task hn hlow)
  have hactive : task.active := Or.inr (Or.inr ⟨rest, hqueueing⟩)
  have hput := h.put n task hn
  simp only [LogTask.Put, hqueueing] at hput
  have hreconnect : ∀ {phase : LogPhase}, phase ≠ .failed →
      s.reconnectRequested = true ∨ phase = .failed → s.reconnectRequested = true :=
    fun hne hor => hor.resolve_right hne
  cases rest with
  | nil =>
      rw [List.append_nil] at hput
      exact h.setPhase hn hlive rfl rfl rfl rfl rfl rfl (hreconnect nofun) hput nofun
        fun _ => Or.inl hactive
  | cons protocol rest =>
      refine h.update hn hlive rfl rfl ?_ rfl rfl rfl rfl (hreconnect nofun) ?_ nofun
        fun _ => Or.inl hactive
      · -- nothing behind has got to the queue
        have hbehind : ∀ (m : Nat) (u : LogTask), n < m → s.tasks[m]? = some u → u.put = [] :=
          fun m u hlt hm => not_not.mp fun hne => hlive (by
            rw [h.chained m u hm (Or.inl hne) n task hn hbase hlt]
            trivial)
        have hentries := entriesFrom_set 0
          { task with phase := .queueing rest, put := task.put ++ [protocol] } hn hbehind rfl rfl
        rw [← h.queued, Nat.zero_add] at hentries
        exact hentries.symm
      · show (task.put ++ [protocol]) ++ rest = _
        rw [List.append_assoc]
        exact hput

theorem InLine.runTask (h : InLine s) (n : Nat) (succeeds : Bool) :
    InLine (s.runTask n succeeds) := by
  unfold LogStream.runTask
  cases hn : s.tasks[n]? with
  | none => exact h
  | some task =>
      have hput := h.put n task hn
      have hsame : ∀ phase : LogPhase, phase ≠ .failed →
          s.reconnectRequested = true ∨ phase = .failed → s.reconnectRequested = true :=
        fun phase hne hor => hor.resolve_right hne
      dsimp only
      cases hphase : task.phase with
      | created =>
          rw [LogTask.Put, hphase] at hput
          refine h.setPhase hn (by rw [hphase]; exact id) rfl rfl rfl rfl rfl rfl
            (hsame .looking nofun) hput nofun ?_
          rintro (hne | hdispatched | ⟨rest, hrest⟩)
          · exact absurd hput hne
          · cases hdispatched
          · cases hrest
      | looking =>
          rw [LogTask.Put, hphase] at hput
          have hlive : ¬ task.phase.done := by rw [hphase]; exact id
          dsimp only
          split
          · refine h.setPhase hn hlive rfl rfl rfl rfl rfl rfl (hsame .waiting nofun) hput nofun ?_
            rintro (hne | hdispatched | ⟨rest, hrest⟩)
            · exact absurd hput hne
            · cases hdispatched
            · cases hrest
          · exact h.failTask hn hlive hput
      | waiting => exact h.proceed hn hphase succeeds
      | queueing rest => exact h.putStep hn hphase
      | _ => exact h

theorem InLine.forget (h : InLine s) (n : Nat) : InLine (s.forget n) := by
  unfold LogStream.forget
  split
  · exact h
  · next task hn =>
      split
      · next hforgotten =>
          obtain ⟨hdone, htail⟩ := hforgotten
          refine { h with
            forgotten := fun _ k t hk hlast hbase => ?_
            tail := nofun
            down := fun hdown => ⟨(h.down hdown).1, rfl⟩ }
          -- the tail is the last task
          have hlength := (h.tail n htail).1
          have heq : k = n := by
            have : k + 1 = s.tasks.length := hlast
            omega
          subst heq
          cases hn.symm.trans hk
          exact hdone
      · exact h

theorem InLine.connect (h : InLine s) (discards : Bool) : InLine (s.connect discards) := by
  unfold LogStream.connect
  split
  · next hdown =>
      obtain ⟨hdone, htail⟩ := h.down hdown
      have hnone : ∀ {n : Nat} {task : LogTask}, s.tasks[n]? = some task →
          ¬ s.tasks.length ≤ n := fun hn =>
        Nat.not_le_of_lt (List.getElem?_eq_some_iff.mp hn).1
      have hp : ∀ p, s.tail ≠ some p := fun p hp => by
        rw [htail] at hp
        cases hp
      exact {
        queued := h.queued
        put := h.put
        settled := fun n task hn _ => hdone n task hn
        chained := fun m active _ _ n task hn hbase => absurd hbase (hnone hn)
        first := fun n task hn hbase => absurd hbase (hnone hn)
        previous := fun n task hn hbase => absurd hbase (hnone hn)
        forgotten := fun _ n task hn _ hbase => absurd hbase (hnone hn)
        tail := fun p htail => absurd htail (hp p)
        failed := fun n task hn hbase => absurd hbase (hnone hn)
        cancelled := fun n task hn hbase => absurd hbase (hnone hn)
        down := nofun
        idle := fun hne => absurd rfl hne
        base_le := Nat.le_refl _ }
  · exact h

theorem InLine.cancelDispatcher (h : InLine s) : InLine s.cancelDispatcher := by
  unfold LogStream.cancelDispatcher
  split
  · next hup =>
      refine { h with
        cancelled := fun n task hn hbase hcancelled => ?_
        down := nofun
        idle := fun _ => rfl }
      have hdown := h.cancelled n task hn hbase hcancelled
      rw [hup] at hdown
      cases hdown
  · exact h

theorem LogTask.cancel_done (task : LogTask) : task.cancel.phase.done := by
  unfold LogTask.cancel
  split
  · assumption
  · trivial

theorem LogTask.cancel_of_dispatched {task : LogTask} (h : task.phase = .dispatched) :
    task.cancel = task := by
  rw [LogTask.cancel, if_pos (by rw [h]; trivial)]

theorem LogTask.cancel_item (task : LogTask) : task.cancel.item = task.item := by
  unfold LogTask.cancel
  split <;> rfl

theorem LogTask.cancel_put (task : LogTask) : task.cancel.put = task.put := by
  unfold LogTask.cancel
  split <;> rfl

theorem LogTask.Put.cancel {task : LogTask} (h : task.Put) : task.cancel.Put := by
  unfold LogTask.cancel
  split
  · exact h
  · exact h.isPrefix

theorem LogTask.active_of_cancel {task : LogTask} (h : task.cancel.active) : task.active := by
  unfold LogTask.cancel at h
  split at h
  · exact h
  · rcases h with hput | hdispatched | ⟨rest, hrest⟩
    · exact Or.inl hput
    · cases hdispatched
    · cases hrest

theorem InLine.cancelTasks (h : InLine s) : InLine s.cancelTasks := by
  unfold LogStream.cancelTasks
  split
  · next hclosing =>
      have hget : ∀ {n : Nat} {task : LogTask}, (s.tasks.map LogTask.cancel)[n]? = some task →
          ∃ old, s.tasks[n]? = some old ∧ task = old.cancel := by
        intro n task hn
        rw [List.getElem?_map, Option.map_eq_some_iff] at hn
        obtain ⟨old, hold, rfl⟩ := hn
        exact ⟨old, hold, rfl⟩
      have hdone : ∀ (n : Nat) (task : LogTask), (s.tasks.map LogTask.cancel)[n]? = some task →
          task.phase.done := fun n task hn => by
        obtain ⟨old, -, rfl⟩ := hget hn
        exact old.cancel_done
      exact {
        queued := by
          refine h.queued.trans (entriesFrom_congr 0 ?_)
          simp [Function.comp_def, LogTask.cancel_item, LogTask.cancel_put]
        put := fun n task hn => by
          obtain ⟨old, hold, rfl⟩ := hget hn
          exact (h.put n old hold).cancel
        settled := fun n task hn _ => hdone n task hn
        chained := fun m active hm hactive n task hn hbase hlt => by
          obtain ⟨oldActive, holdActive, rfl⟩ := hget hm
          obtain ⟨old, hold, rfl⟩ := hget hn
          have hdispatched := h.chained m oldActive holdActive (LogTask.active_of_cancel hactive) n
            old hold hbase hlt
          rwa [LogTask.cancel_of_dispatched hdispatched]
        first := fun n task hn _ hlive => absurd (hdone n task hn) hlive
        previous := fun n task hn _ hlive => absurd (hdone n task hn) hlive
        forgotten := fun _ n task hn _ _ => hdone n task hn
        tail := nofun
        failed := fun n task hn hbase hfailed => by
          obtain ⟨old, hold, rfl⟩ := hget hn
          unfold LogTask.cancel at hfailed
          split at hfailed
          · exact h.failed n old hold hbase hfailed
          · cases hfailed
        cancelled := fun _ _ _ _ _ => rfl
        down := fun _ => ⟨hdone, rfl⟩
        idle := fun _ => h.idle (by rw [hclosing]; nofun)
        base_le := by
          rw [List.length_map]
          exact h.base_le }
  · exact h

theorem InLine.receive (h : InLine s) (queueSize : Nat) (signature : String) (slot : Nat)
    (logs : List String) : InLine (s.receive queueSize signature slot logs) := by
  unfold LogStream.receive
  split
  · next hup =>
      dsimp only
      split
      · exact h.quiet rfl rfl rfl rfl id rfl fun hne => absurd hup hne
      · split
        · exact h.quiet rfl rfl rfl rfl (fun _ => rfl) rfl fun hne => absurd hup hne
        · exact h.quiet rfl rfl rfl rfl id rfl fun hne => absurd hup hne
  · exact h

theorem InLine.take (h : InLine s) : InLine s.take := by
  unfold LogStream.take
  split
  · next hidle _ =>
      exact h.quiet rfl rfl rfl rfl id rfl fun hne => by
        rw [h.idle hne] at hidle
        cases hidle
  · exact h

/-- The new task has the last one before it, unless that is dispatched and forgotten. -/
theorem InLine.spawn (h : InLine s) : InLine s.spawn := by
  unfold LogStream.spawn
  split
  · next item hholding =>
      have hup : s.link = .up := not_not.mp fun hne => by
        rw [h.idle hne] at hholding
        cases hholding
      split
      · exact h.quiet rfl rfl rfl rfl id rfl fun _ => rfl
      · next hconnected =>
          split
          · exact h
          · have hget : ∀ {n : Nat} {task : LogTask},
                (s.tasks ++ [{ item := item, previous := s.tail }])[n]? = some task →
                s.tasks[n]? = some task ∨
                  n = s.tasks.length ∧ task = { item := item, previous := s.tail } := by
              intro n task hn
              rcases Nat.lt_trichotomy n s.tasks.length with hlt | heq | hgt
              · rw [List.getElem?_append_left hlt] at hn
                exact Or.inl hn
              · rw [List.getElem?_append_right (Nat.le_of_eq heq.symm), heq, Nat.sub_self] at hn
                exact Or.inr ⟨heq, (Option.some.inj hn).symm⟩
              · rw [List.getElem?_eq_none (by simp; omega)] at hn
                cases hn
            have hlt : ∀ {n : Nat} {task : LogTask}, s.tasks[n]? = some task →
                n < s.tasks.length := fun hn => (List.getElem?_eq_some_iff.mp hn).1
            have hnotActive : ¬ ({ item := item, previous := s.tail } : LogTask).active := by
              rintro (hput | hdispatched | ⟨rest, hrest⟩)
              · exact hput rfl
              · cases hdispatched
              · cases hrest
            -- the last task is over only if it is dispatched
            have hall : s.tail = none → ∀ (m : Nat) (earlier : LogTask),
                s.tasks[m]? = some earlier → s.base ≤ m → earlier.phase = .dispatched := by
              intro hnone m earlier hm hbase
              have hm_lt := hlt hm
              have hlast : s.tasks[s.tasks.length - 1]? =
                  some (s.tasks.get ⟨s.tasks.length - 1, by omega⟩) := List.getElem?_eq_getElem _
              generalize s.tasks.get ⟨s.tasks.length - 1, by omega⟩ = last at hlast
              have hlast_base : s.base ≤ s.tasks.length - 1 := by omega
              have hdone := h.forgotten hnone _ last hlast (by omega) hlast_base
              have hdispatched : last.phase = .dispatched := by
                cases hphase : last.phase with
                | dispatched => rfl
                | failed => exact absurd (h.failed _ last hlast hlast_base hphase) hconnected
                | cancelled =>
                    have hdown := h.cancelled _ last hlast hlast_base hphase
                    rw [hup] at hdown
                    cases hdown
                | _ =>
                    rw [hphase] at hdone
                    exact hdone.elim
              exact h.all_dispatched hlast hdispatched m earlier hm hbase (by omega)
            exact {
              queued := by
                refine h.queued.trans ?_
                rw [entriesFrom_append]
                exact (List.append_nil _).symm
              put := fun n task hn => by
                rcases hget hn with hold | ⟨-, rfl⟩
                · exact h.put n task hold
                · rfl
              settled := fun n task hn hlow => by
                rcases hget hn with hold | ⟨rfl, -⟩
                · exact h.settled n task hold hlow
                · exact absurd h.base_le (Nat.not_le_of_lt hlow)
              chained := fun m active hm hactive n task hn hbase hnm => by
                rcases hget hm with hm_old | ⟨-, rfl⟩
                · have hm_lt := hlt hm_old
                  have hn_old := (hget hn).resolve_right fun heq => by omega
                  exact h.chained m active hm_old hactive n task hn_old hbase hnm
                · exact absurd hactive hnotActive
              first := fun n task hn hbase hlive hnone m earlier hm hm_base hmn => by
                rcases hget hn with hn_old | ⟨rfl, rfl⟩
                · have hn_lt := hlt hn_old
                  have hm_old := (hget hm).resolve_right fun heq => by omega
                  exact h.first n task hn_old hbase hlive hnone m earlier hm_old hm_base hmn
                · have hm_old := (hget hm).resolve_right fun heq => by omega
                  exact hall hnone m earlier hm_old hm_base
              previous := fun n task hn hbase hlive p hp => by
                rcases hget hn with hn_old | ⟨rfl, rfl⟩
                · exact h.previous n task hn_old hbase hlive p hp
                · exact h.tail p hp
              forgotten := fun hnone => by cases hnone
              tail := fun p hp => by
                cases hp
                rw [List.length_append]
                exact ⟨rfl, h.base_le⟩
              failed := fun n task hn hbase hfailed => by
                rcases hget hn with hn_old | ⟨-, rfl⟩
                · exact h.failed n task hn_old hbase hfailed
                · cases hfailed
              cancelled := fun n task hn hbase hcancelled => by
                rcases hget hn with hn_old | ⟨-, rfl⟩
                · exact h.cancelled n task hn_old hbase hcancelled
                · cases hcancelled
              down := fun hdown => by
                rw [hup] at hdown
                cases hdown
              idle := fun hne => absurd hup hne
              base_le := by
                rw [List.length_append]
                exact Nat.le_add_right_of_le h.base_le }
  · exact h

theorem InLine.step (h : InLine s) (queueSize : Nat) (step : LogStep) :
    InLine (s.step queueSize step) := by
  cases step with
  | connect discards => exact h.connect discards
  | receive signature slot logs => exact h.receive queueSize signature slot logs
  | take => exact h.take
  | spawn => exact h.spawn
  | runTask n succeeds => exact h.runTask n succeeds
  | forget n => exact h.forget n
  | cancelDispatcher => exact h.cancelDispatcher
  | cancelTasks => exact h.cancelTasks

end SniperBot.Stream
