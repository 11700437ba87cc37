import SniperBot.Basis.Offsets
import SniperBot.Basis.Projection
import SniperBot.Basis.Words
import SniperBot.Runtime.Controls

/-!
# Commands of the operator

`_poll_commands` (`telegram.py`) asks Telegram for updates from an offset on, and passes the
commands of allowed senders to `handle_command` (`api.py`). The offset is in memory only: a new
process begins with `0` and gets every update that no request has confirmed, also those that the
process before it handled. `on_startup` (`api.py`) starts the loop before the runtime, which loads
the stored ledger (`restore_from_database`): until then the commands change a ledger that is thrown
away.

When the stored ledger reflects what Telegram was told to drop, and no update was handled too early,
none is skipped, and handling updates again does no harm: a bot that has caught up has the ledger
that comes of each update once, in the order in which they were sent (`commands_in_order`). The code
ensures neither: `persist_risk_state` runs in the background, and `on_startup` does not wait.
-/

namespace SniperBot.Control

open Basis Basis.Text Ledger
open SniperBot.Runtime (setHalt clearHalt)

/-! ## One update -/

/-- What `_poll_commands` reads of an update. -/
structure TelegramUpdate where
  updateId : ℤ
  chatId : Option ℤ := none
  userId : Option ℤ := none
  text : List Char := []
  deriving DecidableEq, Repr

/-- The chats and the users that may send commands; no users stands for all of them. -/
structure Allowlists where
  allowlist : List ℤ
  userAllowlist : List ℤ := []

def Allowlists.Allowed (lists : Allowlists) (update : TelegramUpdate) : Prop :=
  (∃ chat ∈ update.chatId, chat ∈ lists.allowlist) ∧
    (lists.userAllowlist = [] ∨ ∃ user ∈ update.userId, user ∈ lists.userAllowlist)

instance (lists : Allowlists) (update : TelegramUpdate) : Decidable (lists.Allowed update) :=
  inferInstanceAs (Decidable (_ ∧ _))

/-- The name and the arguments of a command. `text.strip()` starts with a slash if and only if the
first word does; then come `lstrip("/")` and `split("@")[0]`. -/
def command (text : List Char) : Option (List Char × List (List Char)) :=
  match words text with
  | [] => none
  | first :: args =>
      if first.head? = some '/' then
        some ((first.dropWhile (· = '/')).takeWhile (· ≠ '@'), args)
      else none

/-- What `handle_command` does to the ledger. The other commands only answer. -/
def handleCommand (s : LedgerState) (cmd : List Char) (args : List (List Char)) : LedgerState :=
  -- no letter outside ASCII is one of these names in lower case
  let name := cmd.map Char.toLower
  if name = "pause".toList ∨ name = "halt".toList then
    setHalt s (if args = [] then "manual pause" else String.ofList ([' '].intercalate args))
  else if name = "resume".toList then (clearHalt s false).2
  else s

/-- The body of the loop of `_poll_commands`. -/
def handleUpdate (lists : Allowlists) (s : LedgerState) (update : TelegramUpdate) : LedgerState :=
  if lists.Allowed update then
    match command update.text with
    | none => s
    | some (cmd, args) => handleCommand s cmd args
  else s

theorem handleUpdate_cases (lists : Allowlists) (update : TelegramUpdate) :
    (∀ s, handleUpdate lists s update = s) ∨
    (∃ reason, ∀ s, handleUpdate lists s update = setHalt s reason) ∨
    (∀ s, handleUpdate lists s update = (clearHalt s false).2) := by
  unfold handleUpdate
  split
  · cases hcommand : command update.text with
    | none => exact Or.inl fun _ => rfl
    | some pair =>
        obtain ⟨cmd, args⟩ := pair
        simp only [handleCommand]
        split
        · exact Or.inr (Or.inl ⟨_, fun _ => rfl⟩)
        · split
          · exact Or.inr (Or.inr fun _ => rfl)
          · exact Or.inl fun _ => rfl
  · exact Or.inl fun _ => rfl

theorem clearHalt_twice (s : LedgerState) :
    (clearHalt (clearHalt s false).2 false).2 = (clearHalt s false).2 := by
  unfold clearHalt
  split <;> simp_all

/-- A halt does not depend on what the commands before it did. -/
theorem setHalt_clearHalt (s : LedgerState) (reason : String) :
    setHalt (clearHalt s false).2 reason = setHalt s reason := by
  unfold clearHalt
  split <;> rfl

theorem setHalt_handleUpdate (lists : Allowlists) (s : LedgerState) (update : TelegramUpdate)
    (reason : String) : setHalt (handleUpdate lists s update) reason = setHalt s reason := by
  rcases handleUpdate_cases lists update with hnone | ⟨other, hpause⟩ | hresume
  · rw [hnone]
  · rw [hpause]
    rfl
  · rw [hresume, setHalt_clearHalt]

/-- A command that comes later makes its earlier occurrence irrelevant. -/
theorem overrides_handleUpdate (lists : Allowlists) : Overrides (handleUpdate lists) := by
  refine overrides_of_congr (fun s update => ?_) fun s t update other hagree => ?_
  · rcases handleUpdate_cases lists update with hnone | ⟨reason, hpause⟩ | hresume
    · rw [hnone]
    · rw [hpause, hpause]
      rfl
    · rw [hresume, hresume, clearHalt_twice]
  · rcases handleUpdate_cases lists update with hnone | ⟨reason, hpause⟩ | hresume
    · rw [hnone, hnone] at hagree
      rw [hagree]
    · rw [hpause, hpause] at hagree
      rw [hpause, hpause, setHalt_handleUpdate, setHalt_handleUpdate, hagree]
    · rw [hresume, hresume] at hagree
      rw [hresume, hresume]
      rcases handleUpdate_cases lists other with hnone | ⟨reason, hpause⟩ | hresume'
      · rw [hnone, hnone, hagree]
      · have hsame : setHalt s reason = setHalt t reason := by
          rw [← setHalt_clearHalt s, hagree, setHalt_clearHalt]
        rw [hpause, hpause, hsame]
      · rw [hresume', hresume', hagree]

/-! ## The bot and Telegram -/

structure Intake where
  /-- what was sent to the bot -/
  updates : List TelegramUpdate := []
  /-- what Telegram keeps for it -/
  pending : List TelegramUpdate := []
  /-- what Telegram dropped because it was too old -/
  expired : List TelegramUpdate := []
  offset : ℤ := 0
  /-- the rest of `payload["result"]` -/
  result : List TelegramUpdate := []
  ledger : LedgerState
  /-- the ledger is the stored one, and what came of it -/
  restored : Bool := false
  /-- all updates that were handled -/
  handled : List TelegramUpdate := []
  /-- the updates that are reflected in the ledger that was restored last -/
  reflected : List TelegramUpdate := []
  /-- the updates that processes have handled since, before they restored it again -/
  early : List TelegramUpdate := []

inductive IntakeAction
  | sent (update : TelegramUpdate)
  | expire
  /-- `getUpdates` reaches Telegram; the answer may be lost, or not be a success -/
  | getUpdates (answered : Bool)
  /-- the next update; what raises in the loop ends it for the whole answer -/
  | handle (raised : Bool)
  /-- a new process, with a new ledger -/
  | restart
  /-- `restore_from_database`; the stored ledger is that of some updates -/
  | restore (kept : List TelegramUpdate)

namespace Intake

variable (lists : Allowlists) (initial : LedgerState) (s : Intake)

def step : IntakeAction → Intake
  | .sent update =>
      { s with updates := s.updates ++ [update], pending := s.pending ++ [update] }
  | .expire =>
      match s.pending with
      | [] => s
      | update :: pending => { s with pending := pending, expired := s.expired ++ [update] }
  | .getUpdates answered =>
      match s.result with
      | [] =>
          -- an update is confirmed by a request with a larger offset
          let pending := s.pending.filter fun update => s.offset ≤ update.updateId
          { s with pending := pending, result := if answered then pending.take 100 else [] }
      | _ :: _ => s
  | .handle raised =>
      match s.result with
      | [] => s
      | update :: result =>
          { s with
            offset := update.updateId + 1
            result := if raised then [] else result
            ledger := handleUpdate lists s.ledger update
            handled := s.handled ++ [update]
            reflected := if s.restored then s.reflected ++ [update] else s.reflected
            early := if s.restored then s.early else s.early ++ [update] }
  | .restart => { s with offset := 0, result := [], ledger := initial, restored := false }
  | .restore kept =>
      { s with
        ledger := exec (handleUpdate lists) initial kept
        restored := true
        reflected := kept
        early := [] }

def feed : Feed TelegramUpdate where
  arrived := s.updates
  queue := s.pending
  forgotten := s.expired
  offset := s.offset
  batch := s.result
  taken := s.reflected ++ s.early
  log := s.handled

end Intake

def IntakeAction.feed : IntakeAction → FeedAction TelegramUpdate
  | .sent update => .arrive update
  | .expire => .forget
  | .getUpdates answered => .poll 100 answered
  | .handle raised => .take !raised
  | .restart => .restart
  | .restore kept => .restore kept

namespace Intake

/-- Update ids increase. What the stored ledger does not reflect, of the updates that the ledger
before it reflects or that were handled since, Telegram still has, and will send again. -/
def Lawful (s : Intake) (a : IntakeAction) : Prop :=
  Feed.Lawful TelegramUpdate.updateId s.feed a.feed

/-- An update that was handled does not expire. -/
def Unexpired (s : Intake) (a : IntakeAction) : Prop := s.feed.Unforgotten a.feed

/-- A process ends only after a request that confirms what it handled. -/
def Confirmed (s : Intake) (a : IntakeAction) : Prop := s.feed.Confirmed a.feed

instance (s : Intake) (a : IntakeAction) : Decidable (s.Lawful a) :=
  inferInstanceAs (Decidable (Feed.Lawful _ _ _))

instance (s : Intake) (a : IntakeAction) : Decidable (s.Unexpired a) :=
  inferInstanceAs (Decidable (Feed.Unforgotten _ _))

instance (s : Intake) (a : IntakeAction) : Decidable (s.Confirmed a) :=
  inferInstanceAs (Decidable (Feed.Confirmed _ _))

section Run

variable {lists : Allowlists} {initial : LedgerState} {s : Intake}

/-- What holds of the ledger and of what it reflects. -/
structure Mirrored (lists : Allowlists) (initial : LedgerState) (s : Intake) : Prop where
  early : s.restored = true → s.early = []
  ledger : s.restored = true → s.ledger = exec (handleUpdate lists) initial s.reflected

/-- A step of the bot or of Telegram is one of the queue. -/
theorem feed_step (h : s.Mirrored lists initial) (a : IntakeAction) :
    (s.step lists initial a).feed = s.feed.step TelegramUpdate.updateId a.feed := by
  cases a with
  | sent update => rfl
  | expire =>
      cases hpending : s.pending with
      | nil => simp [step, Feed.step, feed, IntakeAction.feed, hpending]
      | cons update pending => simp [step, Feed.step, feed, IntakeAction.feed, hpending]
  | getUpdates answered =>
      cases hresult : s.result with
      | nil => simp [step, Feed.step, feed, IntakeAction.feed, hresult]
      | cons update result => simp [step, Feed.step, feed, IntakeAction.feed, hresult]
  | handle raised =>
      have htaken : ∀ update,
          (if s.restored then s.reflected ++ [update] else s.reflected) ++
              (if s.restored then s.early else s.early ++ [update]) =
            s.reflected ++ s.early ++ [update] := by
        intro update
        split
        · next hrestored => simp [h.early hrestored]
        · exact (List.append_assoc _ _ _).symm
      cases hresult : s.result with
      | nil => simp [step, Feed.step, feed, IntakeAction.feed, hresult]
      | cons update result =>
          cases raised <;> simp [step, Feed.step, feed, IntakeAction.feed, hresult, htaken]
  | restart => rfl
  | restore kept => simp [step, Feed.step, feed, IntakeAction.feed]

theorem Mirrored.step (h : s.Mirrored lists initial) (a : IntakeAction) :
    (s.step lists initial a).Mirrored lists initial := by
  cases a with
  | sent update => exact ⟨h.early, h.ledger⟩
  | expire =>
      unfold Intake.step
      dsimp only
      split <;> exact ⟨h.early, h.ledger⟩
  | getUpdates answered =>
      unfold Intake.step
      dsimp only
      split <;> exact ⟨h.early, h.ledger⟩
  | handle raised =>
      unfold Intake.step
      dsimp only
      split
      · exact h
      · refine ⟨fun hrestored => ?_, fun hrestored => ?_⟩
        · dsimp only at hrestored ⊢
          rw [if_pos hrestored, h.early hrestored]
        · dsimp only at hrestored ⊢
          rw [if_pos hrestored, exec_append, ← h.ledger hrestored, exec_cons, exec_nil]
  | restart => exact ⟨nofun, nofun⟩
  | restore kept => exact ⟨fun _ => rfl, fun _ => rfl⟩

end Run

end Intake

/-- In every run in which update ids increase and what a restored ledger lost is still at Telegram,
not before the offset: an update that was sent is kept by Telegram, reflected, or expired. If nothing
that is reflected expires, a bot that has its ledger and has caught up has the ledger that comes of
each update once, in the order of sending. If every process ends after a request that confirms what
it handled, each update is handled once and in order. -/
theorem commands_in_order (lists : Allowlists) (initial : LedgerState)
    (actions : List IntakeAction)
    (hrun : Along Intake.Lawful (Intake.step lists initial) { ledger := initial } actions) :
    let s := exec (Intake.step lists initial) { ledger := initial } actions
    (∀ update ∈ s.updates, update ∈ s.pending ∨ update ∈ s.expired ∨
      update ∈ s.reflected ∨ s.restored = false ∧ update ∈ s.early) ∧
    (Along Intake.Unexpired (Intake.step lists initial) { ledger := initial } actions →
      s.restored = true → (∀ update ∈ s.reflected, update.updateId < s.offset) →
      s.ledger = exec (handleUpdate lists) initial (s.updates.filter (· ∈ s.reflected))) ∧
    (Along Intake.Confirmed (Intake.step lists initial) { ledger := initial } actions →
      s.handled.Pairwise (·.updateId < ·.updateId)) := by
  intro s
  have hstart : Intake.Mirrored lists initial { ledger := initial } := ⟨nofun, nofun⟩
  have hmirrored : s.Mirrored lists initial :=
    exec_invariant (I := fun s : Intake => s.Mirrored lists initial)
      (fun _ a h => h.step a) hstart actions
  refine ⟨?_, fun hexpire hrestored hcaught => ?_, fun hconfirm => ?_⟩
  · have hreads : s.Mirrored lists initial ∧ Reads TelegramUpdate.updateId s.feed :=
      hrun.invariant
        (I := fun s => s.Mirrored lists initial ∧ Reads TelegramUpdate.updateId s.feed)
        (fun s a h hlawful =>
          ⟨h.1.step a, Intake.feed_step h.1 a ▸ h.2.step a.feed hlawful⟩) ⟨hstart, Reads.init⟩
    intro update hupdate
    rcases hreads.2.somewhere update hupdate with hpending | htaken | hexpired
    · exact Or.inl hpending
    · rcases List.mem_append.mp htaken with hreflected | hearly
      · exact Or.inr (Or.inr (Or.inl hreflected))
      · refine Or.inr (Or.inr (Or.inr ⟨?_, hearly⟩))
        by_contra hrestored
        rw [hmirrored.early (Bool.not_eq_false _ |>.mp hrestored)] at hearly
        cases hearly
    · exact Or.inr (Or.inl hexpired)
  · have hordered : s.Mirrored lists initial ∧ Ordered TelegramUpdate.updateId s.feed :=
      (hrun.and_invariant (I := fun _ => True) (fun _ _ _ _ => trivial) trivial hexpire).invariant
        (I := fun s => s.Mirrored lists initial ∧ Ordered TelegramUpdate.updateId s.feed)
        (fun s a h hguard =>
          ⟨h.1.step a, Intake.feed_step h.1 a ▸ h.2.step a.feed hguard.2⟩) ⟨hstart, Ordered.init⟩
    have htaken : s.feed.taken = s.reflected := by
      rw [Intake.feed, hmirrored.early hrestored, List.append_nil]
    have hsame := hordered.2.exec_taken (fun update hupdate => hcaught update (htaken ▸ hupdate))
      (overrides_handleUpdate lists) initial
    rw [htaken] at hsame
    exact (hmirrored.ledger hrestored).trans hsame
  · have hsingle : s.Mirrored lists initial ∧ Single TelegramUpdate.updateId s.feed :=
      (hrun.and_invariant (I := fun _ => True) (fun _ _ _ _ => trivial) trivial hconfirm).invariant
        (I := fun s => s.Mirrored lists initial ∧ Single TelegramUpdate.updateId s.feed)
        (fun s a h hguard =>
          ⟨h.1.step a, Intake.feed_step h.1 a ▸ h.2.step a.feed hguard.2⟩) ⟨hstart, Single.init⟩
    exact hsingle.2.once

/-! ## A run -/

def operators : Allowlists := ⟨[1], [7]⟩

/-- The operator halts the bot and resumes it, and a stranger halts it. The process dies after the
second update; the stored ledger has the halt only. The next process gets an answer before it has
the stored ledger, and then handles all three updates. -/
def pauseAndResume : List IntakeAction :=
  [.restore [], .sent ⟨3, some 1, some 7, "/pause for lunch".toList⟩,
    .sent ⟨4, some 1, some 7, " /resume@bot".toList⟩, .getUpdates true, .handle false,
    .handle false, .sent ⟨5, some 1, some 8, "/halt".toList⟩, .restart, .getUpdates false,
    .getUpdates true, .restore [⟨3, some 1, some 7, "/pause for lunch".toList⟩],
    .handle false, .handle true, .getUpdates true, .handle false]

theorem commands_in_order_sample :
    let s := exec (Intake.step operators (.init 100)) { ledger := .init 100 } pauseAndResume
    s.handled.map (·.updateId) = [3, 4, 3, 4, 5] ∧ s.ledger.haltReason = none ∧
    s.ledger = exec (handleUpdate operators) (.init 100) (s.updates.filter (· ∈ s.reflected)) :=
  ⟨by decide +kernel, by decide +kernel,
    (commands_in_order operators (.init 100) pauseAndResume (by decide +kernel)).2.1
      (by decide +kernel) (by decide +kernel) (by decide +kernel)⟩

/-- A pause that is handled before the stored ledger is there is lost. -/
example :
    let s := exec (Intake.step operators (.init 100)) { ledger := .init 100 }
      [.restore [], .sent ⟨5, some 1, some 7, "/pause".toList⟩, .restart, .getUpdates true,
        .handle false, .restore [], .getUpdates true]
    s.handled.map (·.updateId) = [5] ∧ s.offset = 6 ∧ s.pending = [] ∧ s.expired = [] ∧
      s.ledger.haltReason = none := by
  decide +kernel

end SniperBot.Control
