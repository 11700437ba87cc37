import SniperBot.Basis.Run
import SniperBot.Control.Identity

/-!
# Signals to the bot

`send_control_signal` of `scripts/control.py`. It reads the PID file, compares the identity with
that of the process, opens a `pidfd`, compares again and sends the signal to the `pidfd`. Processes
start and exit at any time, and ids are used again. Any number of controls run at the same time.

Between the two comparisons the id may change hands, and the `pidfd` may belong to a process that
neither of them saw. It has the identity of the file nevertheless: start ticks do not descend
along an id, and the second comparison puts those of the process of the `pidfd` between equal
ones (`signalled_identity`). So a signal goes to a bot that wrote the file, unless two processes
share an id and a tick (`signals_reach_writers`).

A process is a number; `born` has all of them, and `writers` those that wrote the file.
-/

namespace SniperBot.Control

open Basis

/-! ## Processes and requests -/

/-- A process, with its place in the order of the processes. -/
structure Process where
  number : ℕ
  identity : ProcessIdentity
  deriving DecidableEq, Repr

inductive Action
  | pause | resume
  deriving DecidableEq, Repr

inductive Signal
  | sigusr1 | sigusr2
  deriving DecidableEq, Repr

/-- The signal of an action. -/
def Action.signal : Action → Signal
  | .pause => .sigusr1
  | .resume => .sigusr2

/-- How far `send_control_signal` has got. -/
inductive RequestPhase
  /-- The PID file has been read. -/
  | expecting (expected : ProcessIdentity)
  | observed (expected : ProcessIdentity)
  | opened (expected : ProcessIdentity) (pidfd : Process)
  | confirmed (expected : ProcessIdentity) (pidfd : Process)
  | sent
  | refused (error : String)
  deriving DecidableEq, Repr

/-- The process of which the status line is read next. -/
def RequestPhase.reads : RequestPhase → Option ProcessIdentity
  | .expecting expected | .opened expected _ => some expected
  | .observed _ | .confirmed _ _ | .sent | .refused _ => none

structure Request where
  action : Action
  phase : RequestPhase
  deriving DecidableEq, Repr

structure Host where
  clock : ℕ := 0
  running : List Process := []
  /-- Every process that was started. -/
  born : List Process := []
  pidFile : Option (List Char)
  /-- The processes that have written the PID file. -/
  writers : List Process := []
  requests : List Request := []
  /-- The signals that were delivered. -/
  signals : List (Process × Signal) := []

namespace Host

variable (h : Host)

/-- The process that has an id. -/
def holder (pid : ℕ) : Option Process := h.running.find? fun p => p.identity.pid = pid

/-- A process starts, with an id that is free. -/
def spawn (pid : ℕ) : Host :=
  match h.holder pid with
  | some _ => h
  | none =>
      if pid = 0 then h
      else
        let process : Process := ⟨h.born.length, pid, h.clock⟩
        { h with running := h.running ++ [process], born := h.born ++ [process] }

/-- `write_process_identity_file`, by a process with this status line. -/
def write (process : Process) (line : List Char) : Host :=
  if process ∈ h.running then
    match readLinuxProcessIdentity process.identity.pid line with
    | .error _ => h
    | .ok identity =>
        { h with pidFile := some (payload identity), writers := h.writers ++ [process] }
  else h

/-! ## `send_control_signal` -/

/-- `_read_expected_identity` -/
def readExpected (action : Action) : Host :=
  match h.pidFile with
  | none => h
  | some content =>
    match readProcessIdentityFile content with
    | .error _ => h
    | .ok expected => { h with requests := h.requests ++ [⟨action, .expecting expected⟩] }

/-- `read_linux_process_identity`, while `line` is the status line of whoever has the id. -/
def readIdentity (pid : ℕ) (line : List Char) : Except String ProcessIdentity :=
  match h.holder pid with
  | none => .error "No such file or directory"
  | some _ => readLinuxProcessIdentity pid line

def setRequest (n : ℕ) (request : Request) (phase : RequestPhase) : Host :=
  { h with requests := h.requests.set n { request with phase := phase } }

/-- The next thing that a control does; `line` is the status line that it may read. -/
def advance (n : ℕ) (line : List Char) : Host :=
  match h.requests[n]? with
  | none => h
  | some request =>
    match request.phase with
    | .expecting expected =>
      match h.readIdentity expected.pid line with
      | .error _ => h.setRequest n request (.refused "target process is not available")
      | .ok observedBefore =>
          if observedBefore ≠ expected then
            h.setRequest n request
              (.refused "PID file is stale; refusing to signal a reused PID")
          else h.setRequest n request (.observed expected)
    | .observed expected =>
      match h.holder expected.pid with
      | none => h.setRequest n request (.refused "No such process")
      | some process => h.setRequest n request (.opened expected process)
    | .opened expected pidfd =>
      match h.readIdentity expected.pid line with
      | .error _ =>
          h.setRequest n request
            (.refused "target process exited before identity confirmation")
      | .ok observedAfter =>
          if observedAfter ≠ expected then
            h.setRequest n request
              (.refused "process identity changed; refusing to send a signal")
          else h.setRequest n request (.confirmed expected pidfd)
    | .confirmed _ pidfd =>
        if pidfd ∈ h.running then
          { h.setRequest n request .sent with
            signals := h.signals ++ [(pidfd, request.action.signal)] }
        else h.setRequest n request (.refused "No such process")
    | .sent | .refused _ => h

end Host

inductive HostStep
  | tick
  | spawn (pid : ℕ)
  | exit (process : Process)
  | write (process : Process) (line : List Char)
  /-- `remove_own_process_identity_file`, or somebody else. -/
  | remove
  | readExpected (action : Action)
  | advance (n : ℕ) (line : List Char)

def Host.step (h : Host) : HostStep → Host
  | .tick => { h with clock := h.clock + 1 }
  | .spawn pid => h.spawn pid
  | .exit process => { h with running := h.running.filter (· ≠ process) }
  | .write process line => h.write process line
  | .remove => { h with pidFile := none }
  | .readExpected action => h.readExpected action
  | .advance n line => h.advance n line

/-- The status lines are those of the processes of which they are read. -/
def HostStep.Honest (h : Host) : HostStep → Prop
  | .write process line => StatusLine process.identity line
  | .advance n line =>
      ∀ request ∈ h.requests[n]?, ∀ expected ∈ request.phase.reads,
        ∀ process ∈ h.holder expected.pid, StatusLine process.identity line
  | _ => True

/-! ## Start ticks along an id -/

section Ticks

variable {h : Host}

/-- Whoever runs is the last one that had its id. -/
structure Host.Ordered (h : Host) : Prop where
  running_born : ∀ p ∈ h.running, p ∈ h.born
  writers_born : ∀ p ∈ h.writers, p ∈ h.born
  started : ∀ p ∈ h.born, 0 < p.identity.pid ∧ p.identity.startTicks ≤ h.clock
  latest : ∀ p ∈ h.running, ∀ q ∈ h.born, q.identity.pid = p.identity.pid →
    q.identity.startTicks ≤ p.identity.startTicks

theorem Host.holder_eq_some {pid : ℕ} {p : Process} (hp : h.holder pid = some p) :
    p ∈ h.running ∧ p.identity.pid = pid := by
  refine ⟨List.mem_of_find?_eq_some hp, ?_⟩
  simpa using List.find?_some hp

theorem Host.Ordered.tick (ho : h.Ordered) : Host.Ordered { h with clock := h.clock + 1 } where
  running_born := ho.running_born
  writers_born := ho.writers_born
  started p hp := ⟨(ho.started p hp).1, Nat.le_succ_of_le (ho.started p hp).2⟩
  latest := ho.latest

theorem Host.Ordered.exit (ho : h.Ordered) (process : Process) :
    Host.Ordered { h with running := h.running.filter (· ≠ process) } where
  running_born p hp := ho.running_born p (List.mem_of_mem_filter hp)
  writers_born := ho.writers_born
  started := ho.started
  latest p hp := ho.latest p (List.mem_of_mem_filter hp)

theorem Host.Ordered.spawn (ho : h.Ordered) (pid : ℕ) : (h.spawn pid).Ordered := by
  unfold Host.spawn
  split
  · exact ho
  · next hfree =>
      split
      · exact ho
      · next hpid =>
          have hother : ∀ p ∈ h.running, p.identity.pid ≠ pid := by
            simpa [Host.holder] using hfree
          constructor
          · intro p hp
            rcases List.mem_append.mp hp with hp | hp
            · exact List.mem_append_left _ (ho.running_born p hp)
            · exact List.mem_append_right _ hp
          · exact fun p hp => List.mem_append_left _ (ho.writers_born p hp)
          · intro p hp
            rcases List.mem_append.mp hp with hp | hp
            · exact ho.started p hp
            · rw [List.mem_singleton.mp hp]
              exact ⟨Nat.pos_of_ne_zero hpid, Nat.le_refl _⟩
          · intro p hp q hq hsame
            rcases List.mem_append.mp hp with hp | hp
            · rcases List.mem_append.mp hq with hq | hq
              · exact ho.latest p hp q hq hsame
              · rw [List.mem_singleton.mp hq] at hsame
                exact absurd hsame.symm (hother p hp)
            · rw [List.mem_singleton.mp hp]
              rcases List.mem_append.mp hq with hq | hq
              · exact (ho.started q hq).2
              · rw [List.mem_singleton.mp hq]

theorem Host.Ordered.same {h' : Host} (ho : h.Ordered) (hclock : h'.clock = h.clock)
    (hrunning : h'.running = h.running) (hborn : h'.born = h.born)
    (hwriters : ∀ p ∈ h'.writers, p ∈ h.born) : h'.Ordered where
  running_born := by
    rw [hrunning, hborn]
    exact ho.running_born
  writers_born := by
    rw [hborn]
    exact hwriters
  started := by
    rw [hborn, hclock]
    exact ho.started
  latest := by
    rw [hrunning, hborn]
    exact ho.latest

/-- Between two processes with the ticks of the file there is no other. -/
theorem Host.Ordered.signalled_identity (ho : h.Ordered) {expected : ProcessIdentity}
    {pidfd p : Process} (hfd : pidfd ∈ h.born) (hpid : pidfd.identity.pid = expected.pid)
    (hticks : expected.startTicks ≤ pidfd.identity.startTicks) (hp : p ∈ h.running)
    (hexpected : p.identity = expected) : pidfd.identity = expected := by
  have hle : pidfd.identity.startTicks ≤ p.identity.startTicks :=
    ho.latest p hp pidfd hfd (by rw [hpid, hexpected])
  rw [hexpected] at hle
  exact ProcessIdentity.ext hpid (Nat.le_antisymm hle hticks)

end Ticks

/-! ## What the controls know -/

section Knowledge

variable {initial : Option (List Char)} {h h' : Host} {expected : ProcessIdentity}

/-- The identity of a process that wrote the PID file, or what the file said at the beginning. -/
def Host.Known (initial : Option (List Char)) (h : Host) (identity : ProcessIdentity) : Prop :=
  (∃ bot ∈ h.writers, bot.identity = identity) ∨
    ∃ content ∈ initial, readProcessIdentityFile content = .ok identity

/-- What a control has found out. -/
def RequestPhase.Justified (initial : Option (List Char)) (h : Host) : RequestPhase → Prop
  | .expecting expected => h.Known initial expected
  | .observed expected => h.Known initial expected ∧ ∃ p ∈ h.born, p.identity = expected
  | .opened expected pidfd =>
      h.Known initial expected ∧ pidfd ∈ h.born ∧ pidfd.identity.pid = expected.pid ∧
        expected.startTicks ≤ pidfd.identity.startTicks
  | .confirmed expected pidfd =>
      h.Known initial expected ∧ pidfd ∈ h.born ∧ pidfd.identity = expected
  | .sent | .refused _ => True

/-- Later, more processes are born and more of them have written the file. -/
structure Host.Extends (h h' : Host) : Prop where
  born : ∀ p ∈ h.born, p ∈ h'.born
  writers : ∀ p ∈ h.writers, p ∈ h'.writers

theorem Host.Extends.refl (h : Host) : h.Extends h := ⟨fun _ hp => hp, fun _ hp => hp⟩

theorem Host.Known.mono (hk : h.Known initial expected) (hext : h.Extends h') :
    h'.Known initial expected :=
  hk.imp_left fun ⟨bot, hbot, hidentity⟩ => ⟨bot, hext.writers bot hbot, hidentity⟩

theorem RequestPhase.Justified.mono {phase : RequestPhase} (hj : phase.Justified initial h)
    (hext : h.Extends h') : phase.Justified initial h' := by
  cases phase with
  | expecting expected => exact Host.Known.mono hj hext
  | observed expected =>
      obtain ⟨hknown, p, hp, hidentity⟩ := hj
      exact ⟨hknown.mono hext, p, hext.born p hp, hidentity⟩
  | opened expected pidfd =>
      obtain ⟨hknown, hfd, hrest⟩ := hj
      exact ⟨hknown.mono hext, hext.born pidfd hfd, hrest⟩
  | confirmed expected pidfd =>
      obtain ⟨hknown, hfd, hrest⟩ := hj
      exact ⟨hknown.mono hext, hext.born pidfd hfd, hrest⟩
  | sent => trivial
  | refused error => trivial

/-- What holds of a host in every run. -/
structure Host.Tracked (initial : Option (List Char)) (h : Host) : Prop where
  ordered : h.Ordered
  file : ∀ content ∈ h.pidFile, ∀ identity, readProcessIdentityFile content = .ok identity →
    h.Known initial identity
  requests : ∀ request ∈ h.requests, request.phase.Justified initial h
  signals : ∀ sent ∈ h.signals, sent.1 ∈ h.born ∧ h.Known initial sent.1.identity

theorem Host.Tracked.init : Host.Tracked initial { pidFile := initial } where
  ordered :=
    ⟨List.forall_mem_nil _, List.forall_mem_nil _, List.forall_mem_nil _, List.forall_mem_nil _⟩
  file content hcontent _ hread := .inr ⟨content, hcontent, hread⟩
  requests := List.forall_mem_nil _
  signals := List.forall_mem_nil _

/-- Processes come and go. -/
theorem Host.Tracked.extend (ht : h.Tracked initial) (hext : h.Extends h') (ho : h'.Ordered)
    (hfile : ∀ content ∈ h'.pidFile, content ∈ h.pidFile) (hrequests : h'.requests = h.requests)
    (hsignals : h'.signals = h.signals) : h'.Tracked initial where
  ordered := ho
  file content hcontent identity hread :=
    (ht.file content (hfile content hcontent) identity hread).mono hext
  requests request hrequest := (ht.requests request (hrequests ▸ hrequest)).mono hext
  signals sent hsent := by
    obtain ⟨hborn, hknown⟩ := ht.signals sent (hsignals ▸ hsent)
    exact ⟨hext.born _ hborn, hknown.mono hext⟩

theorem Host.spawn_extends (pid : ℕ) : h.Extends (h.spawn pid) := by
  unfold Host.spawn
  split
  · exact .refl h
  · split
    · exact .refl h
    · exact ⟨fun p hp => List.mem_append_left _ hp, fun p hp => hp⟩

theorem Host.Tracked.spawn (ht : h.Tracked initial) (pid : ℕ) : (h.spawn pid).Tracked initial := by
  refine ht.extend (Host.spawn_extends pid) (ht.ordered.spawn pid) ?_ ?_ ?_
  all_goals
    unfold Host.spawn
    split
  · exact fun _ hcontent => hcontent
  · split <;> exact fun _ hcontent => hcontent
  · rfl
  · split <;> rfl
  · rfl
  · split <;> rfl

theorem Host.Tracked.write (ht : h.Tracked initial) {process : Process} {line : List Char}
    (hline : StatusLine process.identity line) : (h.write process line).Tracked initial := by
  unfold Host.write
  split
  · next hrunning =>
      split
      · exact ht
      · next identity hread =>
          have hpid := (ht.ordered.started process (ht.ordered.running_born process hrunning)).1
          obtain rfl := readLinuxProcessIdentity_line hpid hline hread
          have hext : h.Extends
              { h with
                pidFile := some (payload process.identity), writers := h.writers ++ [process] } :=
            ⟨fun _ hp => hp, fun _ hp => List.mem_append_left _ hp⟩
          refine ⟨ht.ordered.same rfl rfl rfl fun p hp => ?_, ?_,
            fun request hrequest => (ht.requests request hrequest).mono hext, fun sent hsent => ?_⟩
          · rcases List.mem_append.mp hp with hp | hp
            · exact ht.ordered.writers_born p hp
            · rw [List.mem_singleton.mp hp]
              exact ht.ordered.running_born process hrunning
          · intro content hcontent identity hread
            cases hcontent
            obtain rfl := readProcessIdentityFile_payload hpid hread
            exact .inl ⟨process, List.mem_append_right _ (List.mem_singleton_self process), rfl⟩
          · exact ⟨(ht.signals sent hsent).1, (ht.signals sent hsent).2.mono hext⟩
  · exact ht

theorem Host.Tracked.readExpected (ht : h.Tracked initial) (action : Action) :
    (h.readExpected action).Tracked initial := by
  unfold Host.readExpected
  split
  · exact ht
  · next content hcontent =>
      split
      · exact ht
      · next expected hread =>
          refine ⟨ht.ordered.same rfl rfl rfl ht.ordered.writers_born, ht.file,
            fun request hrequest => ?_, ht.signals⟩
          rcases List.mem_append.mp hrequest with hrequest | hrequest
          · exact ht.requests request hrequest
          · rw [List.mem_singleton.mp hrequest]
            exact ht.file content hcontent expected hread

theorem Host.Tracked.setRequest (ht : h.Tracked initial) (n : ℕ) (request : Request)
    (phase : RequestPhase) (hphase : phase.Justified initial h) :
    (h.setRequest n request phase).Tracked initial := by
  refine ⟨ht.ordered.same rfl rfl rfl ht.ordered.writers_born, ht.file,
    fun other hother => ?_, ht.signals⟩
  rcases List.mem_or_eq_of_mem_set hother with hother | rfl
  · exact ht.requests other hother
  · exact hphase

/-- A status line that is read is that of a process with the id. -/
theorem Host.readIdentity_ok (ht : h.Tracked initial) {line : List Char} {observed : ProcessIdentity}
    (hline : ∀ process ∈ h.holder expected.pid, StatusLine process.identity line)
    (hread : h.readIdentity expected.pid line = .ok observed) :
    ∃ p ∈ h.running, p.identity = observed := by
  unfold Host.readIdentity at hread
  split at hread
  · cases hread
  · next process hholder =>
      obtain ⟨hrunning, hpid⟩ := Host.holder_eq_some hholder
      have hpos := (ht.ordered.started process (ht.ordered.running_born process hrunning)).1
      rw [← hpid] at hread
      exact ⟨process, hrunning,
        (readLinuxProcessIdentity_line hpos (hline process hholder) hread).symm⟩

theorem Host.Tracked.advance (ht : h.Tracked initial) (n : ℕ) {line : List Char}
    (hline : HostStep.Honest h (.advance n line)) : (h.advance n line).Tracked initial := by
  unfold Host.advance
  split
  · exact ht
  · next request hrequest =>
      have hjustified := ht.requests request (List.mem_of_getElem? hrequest)
      have hlines := hline request hrequest
      split
      · next expected hphase =>
          rw [hphase] at hjustified
          split
          · exact ht.setRequest n request _ trivial
          · next observed hread =>
              obtain ⟨p, hp, hidentity⟩ :=
                Host.readIdentity_ok ht (hlines expected (by rw [hphase]; rfl)) hread
              split
              · exact ht.setRequest n request _ trivial
              · next hsame =>
                  refine ht.setRequest n request _ ⟨hjustified, p, ht.ordered.running_born p hp, ?_⟩
                  exact hidentity.trans (not_not.mp hsame)
      · next expected hphase =>
          rw [hphase] at hjustified
          obtain ⟨hknown, q, hq, hidentity⟩ := hjustified
          split
          · exact ht.setRequest n request _ trivial
          · next process hholder =>
              obtain ⟨hrunning, hpid⟩ := Host.holder_eq_some hholder
              refine ht.setRequest n request _
                ⟨hknown, ht.ordered.running_born process hrunning, hpid, ?_⟩
              rw [← hidentity]
              exact ht.ordered.latest process hrunning q hq (by rw [hidentity, hpid])
      · next expected pidfd hphase =>
          rw [hphase] at hjustified
          obtain ⟨hknown, hfd, hpid, hticks⟩ := hjustified
          split
          · exact ht.setRequest n request _ trivial
          · next observed hread =>
              obtain ⟨p, hp, hidentity⟩ :=
                Host.readIdentity_ok ht (hlines expected (by rw [hphase]; rfl)) hread
              split
              · exact ht.setRequest n request _ trivial
              · next hsame =>
                  refine ht.setRequest n request _ ⟨hknown, hfd, ?_⟩
                  exact ht.ordered.signalled_identity hfd hpid hticks hp
                    (hidentity.trans (not_not.mp hsame))
      · next expected pidfd hphase =>
          rw [hphase] at hjustified
          obtain ⟨hknown, hfd, hidentity⟩ := hjustified
          split
          · have hsent := ht.setRequest n request .sent trivial
            refine ⟨ht.ordered.same rfl rfl rfl ht.ordered.writers_born, ht.file,
              hsent.requests, fun sent hmem => ?_⟩
            rcases List.mem_append.mp hmem with hmem | hmem
            · exact ht.signals sent hmem
            · rw [List.mem_singleton.mp hmem]
              refine ⟨hfd, ?_⟩
              rw [hidentity]
              exact hknown
          · exact ht.setRequest n request _ trivial
      · exact ht
      · exact ht

end Knowledge

/-! ## Runs -/

theorem Host.Tracked.step {initial : Option (List Char)} {h : Host} (ht : h.Tracked initial)
    (a : HostStep) (ha : a.Honest h) : (h.step a).Tracked initial := by
  cases a with
  | tick =>
      exact ht.extend ⟨fun _ hp => hp, fun _ hp => hp⟩ ht.ordered.tick
        (fun _ hcontent => hcontent) rfl rfl
  | spawn pid => exact ht.spawn pid
  | exit process =>
      exact ht.extend ⟨fun _ hp => hp, fun _ hp => hp⟩ (ht.ordered.exit process)
        (fun _ hcontent => hcontent) rfl rfl
  | write process line => exact ht.write ha
  | remove =>
      refine ht.extend ⟨fun _ hp => hp, fun _ hp => hp⟩
        (ht.ordered.same rfl rfl rfl ht.ordered.writers_born) (fun _ hcontent => ?_) rfl rfl
      cases hcontent
  | readExpected action => exact ht.readExpected action
  | advance n line => exact ht.advance n ha

/-- Every signal goes to a process with an identity that the PID file had, and if no id was used
twice in one tick, to a process that wrote the file or that the file named from the beginning. -/
theorem signals_reach_writers (initial : Option (List Char)) (as : List HostStep)
    (hrun : Along (fun h a => HostStep.Honest h a) Host.step { pidFile := initial } as) :
    let h := exec Host.step { pidFile := initial } as
    ∀ sent ∈ h.signals, h.Known initial sent.1.identity ∧
      ((∀ p ∈ h.born, ∀ q ∈ h.born, p.identity = q.identity → p = q) →
        sent.1 ∈ h.writers ∨
          ∃ content ∈ initial, readProcessIdentityFile content = .ok sent.1.identity) := by
  intro h sent hsent
  have ht : h.Tracked initial :=
    hrun.invariant (fun _ a ht ha => ht.step a ha) Host.Tracked.init
  obtain ⟨hborn, hknown⟩ := ht.signals sent hsent
  refine ⟨hknown, fun hunique => hknown.imp_left ?_⟩
  rintro ⟨bot, hbot, hidentity⟩
  have hsame := hunique bot (ht.ordered.writers_born bot hbot) sent.1 hborn hidentity
  exact hsame ▸ hbot

/-- The status line of a process with a name that is made to mislead. -/
def sampleLine (identity : ProcessIdentity) : List Char :=
  Nat.toDigits 10 identity.pid ++ " (".toList ++ "bot) S 1 1".toList ++ ')' ::
    Text.blankJoin (List.replicate 19 ['0'] ++ Nat.toDigits 10 identity.startTicks :: [['0']]) ++
    ['\n']

theorem honest_sampleLine {h : Host} {process : Process} (hrunning : h.running = [process]) (n : ℕ) :
    HostStep.Honest h (.advance n (sampleLine process.identity)) := by
  intro request _ expected _ holder hholder
  have hmem := (Host.holder_eq_some hholder).1
  rw [hrunning] at hmem
  rw [List.mem_singleton.mp hmem]
  exact ⟨"bot) S 1 1".toList, List.replicate 19 ['0'], [['0']], by decide, by decide, rfl⟩

def sampleBot : Process := ⟨0, 7, 0⟩

/-- A bot starts and writes its file, and a control pauses it. -/
def pauseSteps : List HostStep :=
  [.spawn 7, .write sampleBot (sampleLine sampleBot.identity), .readExpected .pause] ++
    List.replicate 4 (.advance 0 (sampleLine sampleBot.identity))

theorem signals_reach_writers_sample :
    let h := exec Host.step { pidFile := none } pauseSteps
    h.signals = [(sampleBot, .sigusr1)] ∧ ∀ sent ∈ h.signals, h.Known none sent.1.identity ∧
      ((∀ p ∈ h.born, ∀ q ∈ h.born, p.identity = q.identity → p = q) →
        sent.1 ∈ h.writers ∨
          ∃ content ∈ none, readProcessIdentityFile content = .ok sent.1.identity) :=
  ⟨by decide +kernel, signals_reach_writers none pauseSteps
    ⟨trivial, ⟨"bot) S 1 1".toList, List.replicate 19 ['0'], [['0']], by decide, by decide, rfl⟩,
      trivial, honest_sampleLine (by decide +kernel) 0, honest_sampleLine (by decide +kernel) 0,
      honest_sampleLine (by decide +kernel) 0, honest_sampleLine (by decide +kernel) 0, trivial⟩⟩

/-- An id that is used again within the tick: the signal goes to a process that wrote nothing. -/
example : (exec Host.step { pidFile := none }
    ([.spawn 7, .write sampleBot (sampleLine sampleBot.identity), .exit sampleBot, .spawn 7,
      .readExpected .pause] ++ List.replicate 4 (.advance 0 (sampleLine sampleBot.identity)))).signals =
    [(⟨1, 7, 0⟩, .sigusr1)] := by
  decide +kernel

end SniperBot.Control
