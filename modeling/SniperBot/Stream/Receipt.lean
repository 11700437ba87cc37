import SniperBot.Stream.InLine

/-!
# Log notifications are queued in the order of receipt

The tasks have the notifications in the order of receipt, and those of a connection all of them
(`Flow`). So what has been queued of the generation of the connection is always a beginning of what
was received of it, and nothing is queued twice (`log_dispatch_in_order`).

It is not so for an earlier generation: what a reconnect leaves in the ingress queue is queued
afterwards, while what was in the hands of the tasks is lost (`queues_after_lost`).
-/

namespace SniperBot.Stream

open Basis Features

/-! ## The way of a notification -/

/-- What the dispatcher holds. -/
def Dispatcher.held : Dispatcher → List LogNotification
  | .holding item => [item]
  | _ => []

namespace LogStream

/-- The notifications that got a sequence number. -/
def items (s : LogStream) : List LogNotification := s.tasks.map LogTask.item

/-- The notifications of the generation of the connection. -/
def current (s : LogStream) (items : List LogNotification) : List LogNotification :=
  items.filter fun item => item.generation = s.generation

end LogStream

structure Flow (s : LogStream) : Prop where
  numbered : s.received.map LogNotification.number = List.range s.received.length
  inOrder : (s.items ++ s.dispatcher.held ++ s.notificationQueue).Sublist s.received
  known : ∀ item ∈ s.received, item.generation ≤ s.generation
  older : ∀ item ∈ s.items.take s.base, item.generation < s.generation
  begun : s.current (s.items.drop s.base) <+: s.current s.received
  whole : s.link = .up → s.reconnectRequested = false →
    s.current s.received =
      s.current (s.items.drop s.base ++ s.dispatcher.held ++ s.notificationQueue)

theorem Flow.init (concurrency : Nat) : Flow (.init concurrency) where
  numbered := rfl
  inOrder := List.Sublist.refl _
  known := fun item h => by cases h
  older := fun item h => by cases h
  begun := List.prefix_rfl
  whole := nofun

variable {s : LogStream}

/-- A step of a task. -/
structure LogStream.Serves (s s' : LogStream) : Prop where
  received : s'.received = s.received
  notificationQueue : s'.notificationQueue = s.notificationQueue
  dispatcher : s'.dispatcher = s.dispatcher
  link : s'.link = s.link
  generation : s'.generation = s.generation
  base : s'.base = s.base
  items : s'.items = s.items
  reconnect : s'.reconnectRequested = false → s.reconnectRequested = false

theorem LogStream.Serves.refl (s : LogStream) : s.Serves s :=
  ⟨rfl, rfl, rfl, rfl, rfl, rfl, rfl, id⟩

theorem LogStream.items_setTask {n : Nat} {task : LogTask} (task' : LogTask)
    (hn : s.tasks[n]? = some task) (hitem : task'.item = task.item) :
    (s.setTask n task').items = s.items := map_set_same task' hn hitem

theorem LogStream.failTask_serves {n : Nat} {task : LogTask} (hn : s.tasks[n]? = some task) :
    s.Serves (s.failTask n task) :=
  ⟨rfl, rfl, rfl, rfl, rfl, rfl, items_setTask { task with phase := .failed } hn rfl, nofun⟩

theorem LogStream.check_serves {n : Nat} {task : LogTask} (hn : s.tasks[n]? = some task)
    (prepared : Bool) : s.Serves (s.check n task prepared) := by
  unfold LogStream.check
  split
  · exact failTask_serves hn
  · split
    · exact ⟨rfl, rfl, rfl, rfl, rfl, rfl, items_setTask { task with phase := _ } hn rfl, id⟩
    · exact failTask_serves hn

theorem LogStream.proceed_serves {n : Nat} {task : LogTask} (hn : s.tasks[n]? = some task)
    (prepared : Bool) : s.Serves (s.proceed n task prepared) := by
  unfold LogStream.proceed
  split
  · exact check_serves hn prepared
  · split
    · exact check_serves hn prepared
    · exact failTask_serves hn
    · exact ⟨rfl, rfl, rfl, rfl, rfl, rfl, items_setTask { task with phase := .cancelled } hn rfl,
        id⟩
    · exact .refl s

theorem LogStream.runTask_serves (s : LogStream) (n : Nat) (succeeds : Bool) :
    s.Serves (s.runTask n succeeds) := by
  unfold LogStream.runTask
  split
  · exact .refl s
  · next task hn =>
      have hset : ∀ phase : LogPhase, s.Serves (s.setTask n { task with phase := phase }) :=
        fun phase => ⟨rfl, rfl, rfl, rfl, rfl, rfl,
          items_setTask { task with phase := phase } hn rfl, id⟩
      split
      · exact hset _
      · split
        · exact hset _
        · exact failTask_serves hn
      · exact proceed_serves hn succeeds
      · next rest _ =>
          cases rest with
          | nil =>
              exact ⟨rfl, rfl, rfl, rfl, rfl, rfl, (hset .dispatched).items, id⟩
          | cons protocol rest =>
              exact ⟨rfl, rfl, rfl, rfl, rfl, rfl, items_setTask
                { task with phase := .queueing rest, put := task.put ++ [protocol] } hn rfl, id⟩
      · exact .refl s

theorem LogStream.forget_serves (s : LogStream) (n : Nat) : s.Serves (s.forget n) := by
  unfold LogStream.forget
  split
  · exact .refl s
  · split
    · exact ⟨rfl, rfl, rfl, rfl, rfl, rfl, rfl, id⟩
    · exact .refl s

theorem Flow.serve (h : Flow s) {s' : LogStream} (hs : s.Serves s') : Flow s' where
  numbered := by rw [hs.received]; exact h.numbered
  inOrder := by
    rw [hs.received, hs.items, hs.dispatcher, hs.notificationQueue]
    exact h.inOrder
  known := by rw [hs.received, hs.generation]; exact h.known
  older := by rw [hs.items, hs.base, hs.generation]; exact h.older
  begun := by
    rw [LogStream.current, LogStream.current, hs.received, hs.items, hs.base, hs.generation]
    exact h.begun
  whole := by
    rw [LogStream.current, LogStream.current, hs.received, hs.items, hs.base, hs.generation,
      hs.link, hs.dispatcher, hs.notificationQueue]
    exact fun hup hconnected => h.whole hup (hs.reconnect hconnected)

theorem Flow.mem_received (h : Flow s) {item : LogNotification}
    (hitem : item ∈ s.items ++ s.dispatcher.held ++ s.notificationQueue) : item ∈ s.received :=
  h.inOrder.subset hitem

/-- Nothing of a new generation came in before it. -/
theorem current_eq_nil {g : Nat} {items : List LogNotification}
    (h : ∀ item ∈ items, item.generation < g) :
    (items.filter fun item => item.generation = g) = [] := by
  rw [List.filter_eq_nil_iff]
  exact fun item hitem => by simpa using Nat.ne_of_lt (h item hitem)

theorem Flow.connect (h : Flow s) (hline : InLine s) (discards : Bool) :
    Flow (s.connect discards) := by
  unfold LogStream.connect
  split
  · next hdown =>
      have hnone : s.dispatcher = .absent := hline.idle (by rw [hdown]; nofun)
      have hnew : s.generation < s.generation + if discards then 2 else 1 :=
        Nat.lt_add_of_pos_right (by split <;> decide)
      have hold : ∀ item ∈ s.received, item.generation < s.generation + if discards then 2 else 1 :=
        fun item hitem => Nat.lt_of_le_of_lt (h.known item hitem) hnew
      have hlength : s.items.length = s.tasks.length := List.length_map _
      have hdrop : s.items.drop s.tasks.length = [] := List.drop_of_length_le (Nat.le_of_eq hlength)
      exact {
        numbered := h.numbered
        inOrder := h.inOrder
        known := fun item hitem => Nat.le_of_lt (hold item hitem)
        older := fun item hitem => hold item (h.mem_received
          (List.mem_append_left _ (List.mem_append_left _ (List.mem_of_mem_take hitem))))
        begun := by
          show List.filter _ (s.items.drop s.tasks.length) <+: _
          rw [hdrop]
          exact List.nil_prefix
        whole := fun _ _ => by
          show List.filter _ s.received =
            List.filter _ (s.items.drop s.tasks.length ++ s.dispatcher.held ++ s.notificationQueue)
          rw [hdrop, hnone]
          exact (current_eq_nil hold).trans (current_eq_nil fun item hitem =>
            hold item (h.mem_received (List.mem_append_right _ hitem))).symm }
  · exact h

/-- A notification comes in, and may be put into the ingress queue. -/
theorem Flow.arrive (h : Flow s) {s' : LogStream} {item : LogNotification}
    (hnumber : item.number = s.received.length) (hgeneration : item.generation = s.generation)
    (hreceived : s'.received = s.received ++ [item]) (hitems : s'.items = s.items)
    (hbase : s'.base = s.base) (hsame : s'.generation = s.generation)
    (hheld : s'.dispatcher.held = s.dispatcher.held)
    (hqueue : s'.notificationQueue = s.notificationQueue ++ [item] ∧
        (s'.reconnectRequested = false → s.reconnectRequested = false) ∧ s'.link = s.link ∨
      s'.notificationQueue = s.notificationQueue ∧ s'.reconnectRequested = true) : Flow s' where
  numbered := by
    rw [hreceived, List.map_append, h.numbered, List.length_append, List.length_singleton,
      List.range_succ, List.map_singleton, hnumber]
  inOrder := by
    rw [hreceived, hitems, hheld]
    rcases hqueue with ⟨hqueue, -⟩ | ⟨hqueue, -⟩
    · rw [hqueue, ← List.append_assoc]
      exact h.inOrder.append (List.Sublist.refl _)
    · rw [hqueue]
      exact h.inOrder.trans (List.sublist_append_left _ _)
  known := fun new hnew => by
    rw [hreceived, List.mem_append, List.mem_singleton] at hnew
    rw [hsame]
    rcases hnew with hold | rfl
    · exact h.known new hold
    · exact Nat.le_of_eq hgeneration
  older := by rw [hitems, hbase, hsame]; exact h.older
  begun := by
    rw [LogStream.current, LogStream.current, hreceived, hitems, hbase, hsame, List.filter_append]
    exact h.begun.trans (List.prefix_append _ _)
  whole := fun hup hconnected => by
    rcases hqueue with ⟨hqueue, hreconnect, hlink⟩ | ⟨-, hreconnect⟩
    · have hwhole := h.whole (hlink ▸ hup) (hreconnect hconnected)
      rw [LogStream.current, LogStream.current, hreceived, hitems, hbase, hsame, hheld, hqueue,
        ← List.append_assoc, List.filter_append, List.filter_append (_ ++ _)]
      exact congrArg (· ++ _) hwhole
    · rw [hreconnect] at hconnected
      cases hconnected

/-- A dispatcher that is absent is started. -/
def Dispatcher.woken : Dispatcher → Dispatcher
  | .absent => .idle
  | dispatcher => dispatcher

theorem Flow.receive (h : Flow s) (queueSize : Nat) (signature : String) (slot : Nat)
    (logs : List String) : Flow (s.receive queueSize signature slot logs) := by
  unfold LogStream.receive
  split
  · have hheld : s.dispatcher.woken.held = s.dispatcher.held := by
      cases s.dispatcher <;> rfl
    dsimp only
    split
    · next hreconnect => exact h.arrive rfl rfl rfl rfl rfl rfl rfl (Or.inr ⟨rfl, hreconnect⟩)
    · split
      · exact h.arrive rfl rfl rfl rfl rfl rfl hheld (Or.inr ⟨rfl, rfl⟩)
      · exact h.arrive rfl rfl rfl rfl rfl rfl hheld (Or.inl ⟨rfl, id, rfl⟩)
  · exact h

theorem Flow.take (h : Flow s) : Flow s.take := by
  unfold LogStream.take
  split
  · next item rest hidle hqueue =>
      have hinOrder := h.inOrder
      have hwhole := h.whole
      rw [hidle, hqueue] at hinOrder hwhole
      refine { h with
        inOrder := ?_
        whole := fun hup hconnected => (hwhole hup hconnected).trans ?_ }
      · simpa [Dispatcher.held, LogStream.items] using hinOrder
      · simp [Dispatcher.held, LogStream.current, LogStream.items]
  · exact h

theorem Flow.spawn (h : Flow s) (hline : InLine s) : Flow s.spawn := by
  unfold LogStream.spawn
  split
  · next item hholding =>
      have hup : s.link = .up := not_not.mp fun hne => by
        rw [hline.idle hne] at hholding
        cases hholding
      have hinOrder := h.inOrder
      rw [hholding] at hinOrder
      split
      · next hreconnect =>
          -- what the dispatcher held is lost
          refine { h with
            inOrder := ?_
            whole := fun _ hconnected => ?_ }
          · exact (((List.Sublist.refl _).append (List.nil_sublist _)).append
              (List.Sublist.refl _)).trans hinOrder
          · rw [hreconnect] at hconnected
            cases hconnected
      · next hconnected =>
          split
          · exact h
          · have hwhole := h.whole hup (by simpa using hconnected)
            have hlength : s.base ≤ s.items.length := by
              rw [LogStream.items, List.length_map]
              exact hline.base_le
            rw [hholding] at hwhole
            have hitems : (s.tasks ++ [({ item := item, previous := s.tail } : LogTask)]).map
                LogTask.item = s.items ++ [item] := List.map_append
            have hdrop : (s.items ++ [item]).drop s.base = s.items.drop s.base ++ [item] :=
              List.drop_append_of_le_length hlength
            exact {
              numbered := h.numbered
              inOrder := by
                show (List.map _ (_ ++ _) ++ [] ++ s.notificationQueue).Sublist s.received
                rw [hitems, List.append_nil]
                exact hinOrder
              known := h.known
              older := by
                show ∀ new ∈ List.take s.base (List.map _ (_ ++ _)), _
                rw [hitems, List.take_append_of_le_length hlength]
                exact h.older
              begun := by
                show List.filter _ (List.drop s.base (List.map _ (_ ++ _))) <+: s.current s.received
                rw [hitems, hdrop, hwhole, LogStream.current, List.filter_append (_ ++ _)]
                exact List.prefix_append _ _
              whole := fun _ _ => by
                refine hwhole.trans ?_
                show s.current _ = List.filter _
                  (List.drop s.base (List.map _ (_ ++ _)) ++ [] ++ s.notificationQueue)
                rw [hitems, hdrop, List.append_nil]
                rfl }
  · exact h

theorem Flow.cancelDispatcher (h : Flow s) : Flow s.cancelDispatcher := by
  unfold LogStream.cancelDispatcher
  split
  · exact { h with
      inOrder := (((List.Sublist.refl _).append (List.nil_sublist _)).append
        (List.Sublist.refl _)).trans h.inOrder
      whole := nofun }
  · exact h

theorem Flow.cancelTasks (h : Flow s) : Flow s.cancelTasks := by
  unfold LogStream.cancelTasks
  split
  · have hitems : (s.tasks.map LogTask.cancel).map LogTask.item = s.items := by
      rw [List.map_map]
      exact List.map_congr_left fun task _ => task.cancel_item
    exact {
      numbered := h.numbered
      inOrder := by
        show (List.map _ (List.map _ _) ++ _ ++ _).Sublist s.received
        rw [hitems]
        exact h.inOrder
      known := h.known
      older := by
        show ∀ new ∈ List.take s.base (List.map _ (List.map _ _)), _
        rw [hitems]
        exact h.older
      begun := by
        show List.filter _ (List.drop s.base (List.map _ (List.map _ _))) <+: s.current s.received
        rw [hitems]
        exact h.begun
      whole := nofun }
  · exact h

theorem Flow.step (h : Flow s) (hline : InLine s) (queueSize : Nat) (step : LogStep) :
    Flow (s.step queueSize step) := by
  cases step with
  | connect discards => exact h.connect hline discards
  | receive signature slot logs => exact h.receive queueSize signature slot logs
  | take => exact h.take
  | spawn => exact h.spawn hline
  | runTask n succeeds => exact h.serve (s.runTask_serves n succeeds)
  | forget n => exact h.serve (s.forget_serves n)
  | cancelDispatcher => exact h.cancelDispatcher
  | cancelTasks => exact h.cancelTasks

/-! ## The order of the queue -/

theorem transactionProtocols_nodup (logs : List String) : (transactionProtocols logs).Nodup :=
  List.Nodup.filter _ (by decide)

/-- The entries of a notification. -/
def LogNotification.entries (item : LogNotification) : List (LogNotification × Protocol) :=
  (transactionProtocols item.logs).map (item, ·)

/-- What has been queued of a generation. -/
def LogStream.queuedOf (s : LogStream) (generation : Nat) : List (LogNotification × Protocol) :=
  (s.queue.filter fun entry => entry.item.generation = generation).map
    fun entry => (entry.item, entry.protocol)

/-- What is to be queued of a generation, in the order of receipt. -/
def LogStream.expectedOf (s : LogStream) (generation : Nat) : List (LogNotification × Protocol) :=
  (s.received.filter fun item => item.generation = generation).flatMap LogNotification.entries

structure DispatchedInOrder (s : LogStream) : Prop where
  /-- What has been queued of the generation of the connection is a beginning of what came in. -/
  gapless : s.queuedOf s.generation <+: s.expectedOf s.generation
  /-- Behind a task that has failed since the connection began nothing has been queued. -/
  blocked : ∀ (n : Nat) (task : LogTask), s.tasks[n]? = some task → s.base ≤ n →
    task.phase = .failed → ∀ entry ∈ s.queue, entry.sequence < n
  /-- Over all connections, the order of the queue is the order of receipt. -/
  ordered : s.queue.Pairwise fun a b => a.item.number ≤ b.item.number
  once : (s.queue.map fun entry => (entry.item.number, entry.protocol)).Nodup

def LogTask.entries (task : LogTask) : List (LogNotification × Protocol) :=
  task.put.map (task.item, ·)

theorem filter_entriesFrom (n generation : Nat) (tasks : List LogTask) :
    ((entriesFrom n tasks).filter fun entry => entry.item.generation = generation).map
      (fun entry => (entry.item, entry.protocol)) =
      (tasks.filter fun task => task.item.generation = generation).flatMap LogTask.entries := by
  induction tasks generalizing n with
  | nil => rfl
  | cons task tasks ih =>
      rw [entriesFrom, List.filter_append, List.map_append, ih]
      by_cases htask : task.item.generation = generation
      · rw [List.filter_cons_of_pos (by simpa using htask), List.flatMap_cons, LogTask.entries,
          List.filter_eq_self.mpr (by simpa using fun _ _ => htask), List.map_map]
        rfl
      · rw [List.filter_cons_of_neg (by simpa using htask),
          List.filter_eq_nil_iff.mpr (by simpa using fun _ _ => htask)]
        rfl

/-- Tasks in line have put a beginning of what they are to put. -/
theorem flatMap_entries_prefix (p : LogNotification → Bool) {tasks : List LogTask}
    (hput : ∀ task ∈ tasks, task.Put)
    (hchained : tasks.Pairwise fun task behind => behind.active → task.phase = .dispatched) :
    (tasks.filter fun task => p task.item).flatMap LogTask.entries <+:
      ((tasks.map LogTask.item).filter p).flatMap LogNotification.entries := by
  induction tasks with
  | nil => exact List.prefix_rfl
  | cons task tasks ih =>
      obtain ⟨hfirst, hrest⟩ := List.pairwise_cons.mp hchained
      have htask := hput task List.mem_cons_self
      have ih := ih (fun task htask => hput task (.tail _ htask)) hrest
      rw [List.map_cons]
      by_cases hp : p task.item = true
      · rw [List.filter_cons_of_pos hp,
          List.filter_cons_of_pos (p := fun task : LogTask => p task.item) hp, List.flatMap_cons,
          List.flatMap_cons]
        by_cases hdispatched : task.phase = .dispatched
        · have hentries : task.entries = task.item.entries := by
            rw [LogTask.Put, hdispatched] at htask
            rw [LogTask.entries, LogNotification.entries, htask]
          rw [hentries]
          exact (List.prefix_append_right_inj _).mpr ih
        · -- nothing behind has been queued
          have hnone : (tasks.filter fun task => p task.item).flatMap LogTask.entries = [] := by
            rw [List.flatMap_eq_nil_iff]
            intro behind hbehind
            have hmem := List.mem_of_mem_filter hbehind
            have hidle : behind.put = [] := not_not.mp fun hne =>
              hdispatched (hfirst behind hmem (Or.inl hne))
            rw [LogTask.entries, hidle]
            rfl
          rw [hnone, List.append_nil]
          exact (htask.isPrefix.map _).trans (List.prefix_append _ _)
      · rw [List.filter_cons_of_neg hp,
          List.filter_cons_of_neg (p := fun task : LogTask => p task.item) hp]
        exact ih

theorem Flow.gapless (h : Flow s) (hline : InLine s) :
    s.queuedOf s.generation <+: s.expectedOf s.generation := by
  have hsplit : s.tasks = s.tasks.take s.base ++ s.tasks.drop s.base :=
    (List.take_append_drop _ _).symm
  have holder : (s.tasks.take s.base).filter
      (fun task => task.item.generation = s.generation) = [] := by
    rw [List.filter_eq_nil_iff]
    intro task htask
    have hitem : task.item ∈ s.items.take s.base := by
      rw [LogStream.items, ← List.map_take]
      exact List.mem_map_of_mem htask
    simpa using Nat.ne_of_lt (h.older _ hitem)
  have hput : ∀ task ∈ s.tasks.drop s.base, task.Put := fun task htask => by
    obtain ⟨n, hn⟩ := List.mem_iff_getElem?.mp (List.mem_of_mem_drop htask)
    exact hline.put n task hn
  have hchained : (s.tasks.drop s.base).Pairwise
      fun task behind => behind.active → task.phase = .dispatched := by
    rw [List.pairwise_iff_getElem]
    intro n m hn hm hlt hactive
    simp only [List.getElem_drop] at hactive ⊢
    exact hline.chained (s.base + m) _ (List.getElem?_eq_getElem _) hactive (s.base + n) _
      (List.getElem?_eq_getElem _) (Nat.le_add_right _ _) (Nat.add_lt_add_left hlt _)
  have hprefix := flatMap_entries_prefix (fun item => item.generation = s.generation) hput hchained
  rw [LogStream.queuedOf, hline.queued, filter_entriesFrom, hsplit, List.filter_append, holder,
    List.nil_append]
  refine hprefix.trans ?_
  obtain ⟨more, hmore⟩ := h.begun
  rw [LogStream.expectedOf, List.map_drop]
  rw [LogStream.current, LogStream.current] at hmore
  rw [← hmore, List.flatMap_append]
  exact List.prefix_append _ _

theorem InLine.blocked (h : InLine s) {n : Nat} {task : LogTask} (hn : s.tasks[n]? = some task)
    (hbase : s.base ≤ n) (hfailed : task.phase = .failed) {entry : LogEntry}
    (hentry : entry ∈ s.queue) : entry.sequence < n := by
  rw [h.queued] at hentry
  obtain ⟨m, active, hm, hsequence, -, hput⟩ := mem_entriesFrom hentry
  rw [hsequence, Nat.zero_add]
  have hne : active.put ≠ [] := List.ne_nil_of_mem hput
  rcases Nat.lt_trichotomy m n with hlt | heq | hgt
  · exact hlt
  · -- a task that fails has put nothing
    subst heq
    cases hn.symm.trans hm
    have hnone := h.put m task hn
    rw [LogTask.Put, hfailed] at hnone
    exact absurd hnone hne
  · have hdispatched := h.chained m active hm (Or.inl hne) n task hn hbase hgt
    rw [hfailed] at hdispatched
    cases hdispatched

/-- The tasks have ascending notifications. -/
theorem Flow.ascending (h : Flow s) :
    s.tasks.Pairwise fun a b => a.item.number < b.item.number := by
  have hreceived : (s.received.map LogNotification.number).Pairwise (· < ·) := by
    rw [h.numbered]
    exact List.pairwise_lt_range
  have hitems : s.items.Sublist s.received :=
    ((List.sublist_append_left _ _).trans (List.sublist_append_left _ _)).trans h.inOrder
  have hnumbers := hreceived.sublist (hitems.map LogNotification.number)
  rwa [LogStream.items, List.map_map, List.pairwise_map] at hnumbers

theorem entriesFrom_ordered (n : Nat) {tasks : List LogTask}
    (h : tasks.Pairwise fun a b => a.item.number < b.item.number) :
    (entriesFrom n tasks).Pairwise fun a b => a.item.number ≤ b.item.number := by
  induction tasks generalizing n with
  | nil => exact List.Pairwise.nil
  | cons task tasks ih =>
      obtain ⟨hfirst, hrest⟩ := List.pairwise_cons.mp h
      rw [entriesFrom, List.pairwise_append]
      refine ⟨?_, ih _ hrest, fun a ha b hb => ?_⟩
      · rw [List.pairwise_map]
        exact List.pairwise_of_forall fun _ _ => Nat.le_refl _
      · obtain ⟨protocol, -, rfl⟩ := List.mem_map.mp ha
        obtain ⟨k, behind, hk, -, hitem, -⟩ := mem_entriesFrom hb
        rw [hitem]
        exact Nat.le_of_lt (hfirst behind (List.mem_of_getElem? hk))

theorem entriesFrom_once (n : Nat) {tasks : List LogTask}
    (h : tasks.Pairwise fun a b => a.item.number < b.item.number)
    (hput : ∀ task ∈ tasks, task.Put) :
    ((entriesFrom n tasks).map fun entry => (entry.item.number, entry.protocol)).Nodup := by
  induction tasks generalizing n with
  | nil => exact List.nodup_nil
  | cons task tasks ih =>
      obtain ⟨hfirst, hrest⟩ := List.pairwise_cons.mp h
      have hnodup : task.put.Nodup := (transactionProtocols_nodup task.item.logs).sublist
        (hput task List.mem_cons_self).isPrefix.sublist
      rw [entriesFrom, List.map_append, List.map_map]
      refine List.Nodup.append ?_ (ih _ hrest fun task htask => hput task (.tail _ htask)) ?_
      · exact hnodup.map fun a b hab => (Prod.mk.inj hab).2
      · rintro pair hleft hright
        obtain ⟨protocol, -, rfl⟩ := List.mem_map.mp hleft
        obtain ⟨entry, hentry, heq⟩ := List.mem_map.mp hright
        obtain ⟨k, behind, hk, -, hitem, -⟩ := mem_entriesFrom hentry
        have hlt := hfirst behind (List.mem_of_getElem? hk)
        have hnumber := (Prod.mk.inj heq).1
        rw [hitem] at hnumber
        exact Nat.ne_of_lt hlt hnumber.symm

/-- For any order in which lookups end, any failures, any reconnects and any notifications. -/
theorem log_dispatch_in_order (concurrency queueSize : Nat) (steps : List LogStep) :
    DispatchedInOrder (exec (LogStream.step queueSize) (.init concurrency) steps) := by
  have hboth : InLine (exec (LogStream.step queueSize) (.init concurrency) steps) ∧
      Flow (exec (LogStream.step queueSize) (.init concurrency) steps) :=
    exec_invariant (I := fun s => InLine s ∧ Flow s)
      (fun s step h => ⟨h.1.step queueSize step, h.2.step h.1 queueSize step⟩)
      ⟨.init concurrency, .init concurrency⟩ steps
  obtain ⟨hline, hflow⟩ := hboth
  exact {
    gapless := hflow.gapless hline
    blocked := fun n task hn hbase hfailed entry hentry => hline.blocked hn hbase hfailed hentry
    ordered := by
      rw [hline.queued]
      exact entriesFrom_ordered 0 hflow.ascending
    once := by
      rw [hline.queued]
      refine entriesFrom_once 0 hflow.ascending fun task htask => ?_
      obtain ⟨n, hn⟩ := List.mem_iff_getElem?.mp htask
      exact hline.put n task hn }

/-- The log of a transaction that calls PUMP. -/
def pumpLogs : List String := executedLogs (callOf pumpProgram)

theorem transactionProtocols_pumpLogs : transactionProtocols pumpLogs = [.pump] := by
  unfold transactionProtocols pumpLogs
  simp [call_names_pump]

/-- The lookup for `first` fails while `second` is in the ingress queue, and the next connection
begins with `third`. -/
def lostSteps : List LogStep :=
  [.connect false, .receive "first" 1 pumpLogs, .take, .spawn, .receive "second" 1 pumpLogs,
    .runTask 0 true, .runTask 0 false, .cancelDispatcher, .cancelTasks, .connect false,
    .receive "third" 2 pumpLogs, .take, .spawn, .runTask 1 true, .runTask 1 true, .runTask 1 true,
    .runTask 1 true]

/-- Of the first generation, `second` is queued and `first` is not. -/
theorem queues_after_lost : ¬ ∀ generation,
    (exec (LogStream.step 16384) (.init 20) lostSteps).queuedOf generation <+:
      (exec (LogStream.step 16384) (.init 20) lostSteps).expectedOf generation := by
  intro h
  have hfirst := h 1
  simp [lostSteps, exec, LogStream.step, LogStream.connect, LogStream.receive, LogStream.take,
    LogStream.spawn, LogStream.runTask, LogStream.proceed, LogStream.check, LogStream.put,
    LogStream.failTask, LogStream.setTask, LogStream.cancelDispatcher, LogStream.cancelTasks,
    LogStream.init, LogStream.queuedOf, LogStream.expectedOf, LogNotification.entries,
    transactionProtocols_pumpLogs, LogTask.cancel, LogPhase.done] at hfirst

end SniperBot.Stream
