import SniperBot.Basis.Text
import SniperBot.Outbox.Deliveries

/-!
# Daily reports and their messages

`store_daily_report` (`database.py`) adds the report of a day and its Telegram message in one
transaction. When the message is delivered, by a worker or by the operator, `_apply_outbox_delivery`
copies the time and the message id to the report. The other messages are those of `runtime.py`: the
lifecycle alerts and the notice that a report is unavailable.

In every run, whatever the workers and the operator do, a report has exactly one message with its
text, and the report says when it was sent if and only if that message is delivered
(`reports_follow_messages`). Two reports whose ids agree would share a message: the id is part of a
hash, so the runs are those in which stored ids do not collide.
-/

namespace SniperBot.Outbox

open Basis

/-- A report as `store_daily_report` takes it, with the text that Telegram shows. -/
structure DailyReport where
  key : ReportKey
  reportId : String
  text : String
  deriving DecidableEq, Repr

/-- The outbox and the column `report_json`. -/
structure ReportSystem where
  outbox : System := {}
  reports : Dict ReportKey DailyReport := Dict.empty

/-- The idempotency key of a report's message. -/
def reportMessageKey (reportId : String) : String := "telegram:daily-report:" ++ reportId

inductive LifecycleEvent
  | systemStart | systemStop
  deriving DecidableEq, Repr

def LifecycleEvent.text : LifecycleEvent → String
  | .systemStart => "system_start"
  | .systemStop => "system_stop"

/-- The messages that are not reports: `_notify_lifecycle_alert`, and the branch of
`daily_report_if_not_sent` for a day without an equity snapshot. -/
inductive Notice
  | lifecycle (event : LifecycleEvent) (runId message : String)
  | reportUnavailable (date strategyVersion text : String)
  deriving DecidableEq, Repr

namespace Notice

def idempotencyKey : Notice → String
  | .lifecycle event runId _ => "telegram:" ++ event.text ++ ":" ++ runId
  | .reportUnavailable date strategyVersion _ =>
      "telegram:daily-report-unavailable:" ++ date ++ ":" ++ strategyVersion

def eventType : Notice → String
  | .lifecycle event _ _ => event.text
  | .reportUnavailable _ _ _ => "daily_report"

def message : Notice → String
  | .lifecycle _ _ message => message
  | .reportUnavailable _ _ text => text

end Notice

inductive ReportStep
  | store (id : String) (report : DailyReport) (now : Time)
  | notice (id : String) (notice : Notice) (now : Time)
  | outbox (action : Action)

namespace ReportSystem

variable (allowed : List String) (s : ReportSystem)

/-- `store_daily_report`, with the new id of its message. -/
def storeDailyReport (id : String) (report : DailyReport) (now : Time) : ReportSystem :=
  let tables := s.outbox.tables
  -- an id that is taken raises, and rolls the report back
  if s.reports.contains report.key ∨ tables.rows.contains id then s
  else
    let stored : Tables := { tables with reports := tables.reports.set report.key {} }
    { outbox :=
        { s.outbox with
          tables := stored.enqueueOutbox id (reportMessageKey report.reportId) "daily_report"
            report.text (.of report.key) now }
      reports := s.reports.set report.key report }

def step : ReportStep → ReportSystem
  | .store id report now => s.storeDailyReport id report now
  | .notice id notice now =>
      { s with
        outbox :=
          { s.outbox with
            tables := s.outbox.tables.enqueueOutbox id notice.idempotencyKey notice.eventType
              notice.message .absent now } }
  | .outbox action =>
      match action with
      -- the messages are those of the other steps
      | .enqueue _ _ _ _ _ _ => s
      | _ => { s with outbox := s.outbox.step allowed action }

end ReportSystem

/-- A stored report with the id of a new one is of the same day. -/
def ReportStep.Distinct (s : ReportSystem) : ReportStep → Prop
  | .store _ report _ => ∀ other ∈ s.reports.values,
      other.reportId = report.reportId → other.key = report.key
  | _ => True

instance (s : ReportSystem) : (a : ReportStep) → Decidable (a.Distinct s)
  | .store _ _ _ => inferInstanceAs (Decidable (∀ _ ∈ _, _))
  | .notice _ _ _ | .outbox _ => isTrue trivial

theorem toList_reportMessageKey (reportId : String) :
    (reportMessageKey reportId).toList = "telegram:daily-report:".toList ++ reportId.toList :=
  String.toList_append

theorem reportMessageKey_injective : Function.Injective reportMessageKey := by
  intro reportId other heq
  have hlists : "telegram:daily-report:".toList ++ reportId.toList =
      "telegram:daily-report:".toList ++ other.toList :=
    (toList_reportMessageKey reportId).symm.trans
      ((congrArg String.toList heq).trans (toList_reportMessageKey other))
  have hsame := List.append_cancel_left hlists
  exact String.toList_inj.mp hsame

/-- The message keys of notices and reports differ. -/
theorem Notice.idempotencyKey_ne (notice : Notice) (reportId : String) :
    notice.idempotencyKey ≠ reportMessageKey reportId := by
  intro heq
  have hreport : Text.StartsWith "telegram:daily-report:" (reportMessageKey reportId) :=
    Text.startsWith_append _ _
  rw [← heq] at hreport
  clear heq
  cases notice with
  | lifecycle event runId message =>
      have hkey : (lifecycle event runId message).idempotencyKey =
          "telegram:" ++ event.text ++ ":" ++ runId := rfl
      rw [hkey] at hreport
      have hfirst := Text.startsWith_or_of_startsWith hreport
      clear hreport
      revert hfirst
      cases event <;> decide +kernel
  | reportUnavailable date strategyVersion text =>
      have hkey : (reportUnavailable date strategyVersion text).idempotencyKey =
          "telegram:daily-report-unavailable:" ++ date ++ ":" ++ strategyVersion := rfl
      rw [hkey, String.append_assoc, String.append_assoc] at hreport
      have hfirst := Text.startsWith_or_of_startsWith hreport
      clear hreport
      revert hfirst
      decide +kernel

/-! ## Reports linked to messages -/

/-- What a message shows of its report and of its delivery. -/
structure Shown where
  dailyReport : ReportMetadata
  text : String
  idempotencyKey : String
  deliveredAt : Option Time := none
  telegramMessageId : Option String := none

def OutboxRow.shown (row : OutboxRow) : Shown where
  dailyReport := row.dailyReport
  text := row.text
  idempotencyKey := row.idempotencyKey
  deliveredAt := row.deliveredAt
  telegramMessageId := row.telegramMessageId

/-- Each report has one message, with its text and its delivery. -/
structure Linked (shown : String → Option Shown) (deliveries : ReportKey → Option DailyReportRow)
    (reports : ReportKey → Option DailyReport) : Prop where
  message : ∀ key report, reports key = some report → ∃ id message delivery,
    shown id = some message ∧ message.dailyReport = .of key ∧ message.text = report.text ∧
      deliveries key = some delivery ∧ delivery.sentAt = message.deliveredAt ∧
      delivery.telegramMessageId = message.telegramMessageId
  keyed : ∀ key report, reports key = some report → report.key = key
  sole : ∀ id id' message message' key, shown id = some message → shown id' = some message' →
    message.dailyReport = .of key → message'.dailyReport = .of key → id = id'
  owned : ∀ id message key, shown id = some message → message.dailyReport = .of key →
    reports key ≠ none
  named : ∀ id message reportId, shown id = some message →
    message.idempotencyKey = reportMessageKey reportId →
      ∃ key report, reports key = some report ∧ report.reportId = reportId

namespace Linked

variable {shown : String → Option Shown} {deliveries : ReportKey → Option DailyReportRow}
  {reports : ReportKey → Option DailyReport} {id : String}

theorem nil : Linked (fun _ => none) (fun _ => none) (fun _ => none) where
  message _ _ h := by cases h
  keyed _ _ h := by cases h
  sole _ _ _ _ _ h := by cases h
  owned _ _ _ h := by cases h
  named _ _ _ h := by cases h

/-- The message and its report get the time and the id of the delivery. -/
theorem deliver (h : Linked shown deliveries reports) {message : Shown}
    (hget : shown id = some message) (at' : Time) (messageId : Option String) :
    Linked
      (Function.update shown id
        (some { message with deliveredAt := some at', telegramMessageId := messageId }))
      (fun key => if message.dailyReport = .of key then
        (deliveries key).map fun _ => ⟨messageId, some at'⟩ else deliveries key)
      reports := by
  -- up to the delivery, every message shows what it did
  have hback {other : String} {next : Shown}
      (hnext : Function.update shown id (some { message with
        deliveredAt := some at', telegramMessageId := messageId }) other = some next) :
      ∃ old, shown other = some old ∧ old.dailyReport = next.dailyReport ∧
        old.idempotencyKey = next.idempotencyKey := by
    by_cases hother : other = id
    · subst hother
      rw [Function.update_self] at hnext
      cases hnext
      exact ⟨message, hget, rfl, rfl⟩
    · rw [Function.update_of_ne hother] at hnext
      exact ⟨next, hnext, rfl, rfl⟩
  refine ⟨fun key report hreport => ?_, h.keyed, ?_, ?_, ?_⟩
  · obtain ⟨other, old, delivery, hold, hday, htext, hdelivery, hsent, hmessage⟩ :=
      h.message key report hreport
    by_cases hother : other = id
    · subst hother
      rw [hget] at hold
      cases hold
      refine ⟨other, _, ⟨messageId, some at'⟩, Function.update_self .., hday, htext, ?_, rfl, rfl⟩
      rw [if_pos hday, hdelivery]
      rfl
    · refine ⟨other, old, delivery, ?_, hday, htext, ?_, hsent, hmessage⟩
      · rw [Function.update_of_ne hother, hold]
      · rw [if_neg fun hsame => hother (h.sole other id old message key hold hget hday hsame),
          hdelivery]
  · intro first second one two key hone htwo hfirst hsecond
    obtain ⟨old, hold, hday, -⟩ := hback hone
    obtain ⟨old', hold', hday', -⟩ := hback htwo
    exact h.sole first second old old' key hold hold' (hday.trans hfirst) (hday'.trans hsecond)
  · intro other next key hnext hday
    obtain ⟨old, hold, hsame, -⟩ := hback hnext
    exact h.owned other old key hold (hsame.trans hday)
  · intro other next reportId hnext hkey
    obtain ⟨old, hold, -, hsame⟩ := hback hnext
    exact h.named other old reportId hold (hsame.trans hkey)

/-- A message that is not the one of a report. -/
theorem notice (h : Linked shown deliveries reports) (hnew : shown id = none) {message : Shown}
    (habsent : message.dailyReport = .absent)
    (hkey : ∀ reportId, message.idempotencyKey ≠ reportMessageKey reportId) :
    Linked (Function.update shown id (some message)) deliveries reports := by
  have hback {other : String} {next : Shown}
      (hnext : Function.update shown id (some message) other = some next) :
      next = message ∨ shown other = some next := by
    by_cases hother : other = id
    · rw [hother, Function.update_self] at hnext
      exact Or.inl (Option.some.inj hnext).symm
    · rw [Function.update_of_ne hother] at hnext
      exact Or.inr hnext
  have hold {other : String} {next : Shown} {key : ReportKey}
      (hnext : Function.update shown id (some message) other = some next)
      (hday : next.dailyReport = .of key) : shown other = some next := by
    refine (hback hnext).resolve_left fun hsame => ?_
    rw [hsame, habsent] at hday
    cases hday
  refine ⟨fun key report hreport => ?_, h.keyed, ?_, ?_, ?_⟩
  · obtain ⟨other, old, delivery, hstored, hrest⟩ := h.message key report hreport
    refine ⟨other, old, delivery, ?_, hrest⟩
    rw [Function.update_of_ne, hstored]
    rintro rfl
    rw [hnew] at hstored
    cases hstored
  · intro first second one two key hone htwo hfirst hsecond
    exact h.sole first second one two key (hold hone hfirst) (hold htwo hsecond) hfirst hsecond
  · exact fun other next key hnext hday => h.owned other next key (hold hnext hday) hday
  · intro other next reportId hnext hsame
    rcases hback hnext with rfl | hstored
    · exact absurd hsame (hkey reportId)
    · exact h.named other next reportId hstored hsame

/-- A new report with its message. -/
theorem store (h : Linked shown deliveries reports) (hnew : shown id = none) {report : DailyReport}
    (hfresh : reports report.key = none) :
    Linked
      (Function.update shown id
        (some ⟨.of report.key, report.text, reportMessageKey report.reportId, none, none⟩))
      (Function.update deliveries report.key (some {}))
      (Function.update reports report.key (some report)) := by
  have hback {other : String} {next : Shown}
      (hnext : Function.update shown id (some ⟨.of report.key, report.text,
        reportMessageKey report.reportId, none, none⟩) other = some next) :
      other = id ∧ next = ⟨.of report.key, report.text, reportMessageKey report.reportId, none,
        none⟩ ∨ other ≠ id ∧ shown other = some next := by
    by_cases hother : other = id
    · rw [hother, Function.update_self] at hnext
      exact Or.inl ⟨hother, (Option.some.inj hnext).symm⟩
    · rw [Function.update_of_ne hother] at hnext
      exact Or.inr ⟨hother, hnext⟩
  -- no stored message is of the new day
  have hother {other : String} {next : Shown} {key : ReportKey} (hstored : shown other = some next)
      (hday : next.dailyReport = .of key) : key ≠ report.key :=
    fun hsame => h.owned other next key hstored hday (hsame ▸ hfresh)
  refine ⟨fun key stored hstored => ?_, fun key stored hstored => ?_, ?_, ?_, ?_⟩
  · by_cases hkey : key = report.key
    · subst hkey
      rw [Function.update_self] at hstored
      cases hstored
      exact ⟨id, _, {}, Function.update_self .., rfl, rfl, Function.update_self .., rfl, rfl⟩
    · rw [Function.update_of_ne hkey] at hstored
      obtain ⟨other, old, delivery, hold, hday, htext, hdelivery, hrest⟩ :=
        h.message key stored hstored
      refine ⟨other, old, delivery, ?_, hday, htext, ?_, hrest⟩
      · rw [Function.update_of_ne, hold]
        rintro rfl
        rw [hnew] at hold
        cases hold
      · rw [Function.update_of_ne hkey, hdelivery]
  · by_cases hkey : key = report.key
    · subst hkey
      rw [Function.update_self] at hstored
      cases hstored
      rfl
    · rw [Function.update_of_ne hkey] at hstored
      exact h.keyed key stored hstored
  · intro first second one two key hone htwo hfirst hsecond
    rcases hback hone with ⟨rfl, rfl⟩ | ⟨-, hone'⟩
    · rcases hback htwo with ⟨rfl, -⟩ | ⟨-, htwo'⟩
      · rfl
      · cases hfirst
        exact absurd rfl (hother htwo' hsecond)
    · rcases hback htwo with ⟨-, rfl⟩ | ⟨-, htwo'⟩
      · cases hsecond
        exact absurd rfl (hother hone' hfirst)
      · exact h.sole first second one two key hone' htwo' hfirst hsecond
  · intro other next key hnext hday
    rcases hback hnext with ⟨rfl, rfl⟩ | ⟨-, hstored⟩
    · cases hday
      rw [Function.update_self]
      exact Option.some_ne_none _
    · rw [Function.update_of_ne (hother hstored hday)]
      exact h.owned other next key hstored hday
  · intro other next reportId hnext hsame
    rcases hback hnext with ⟨rfl, rfl⟩ | ⟨-, hstored⟩
    · exact ⟨report.key, report, Function.update_self .., reportMessageKey_injective hsame⟩
    · obtain ⟨key, old, hold, hid⟩ := h.named other next reportId hstored hsame
      refine ⟨key, old, ?_, hid⟩
      rw [Function.update_of_ne, hold]
      rintro rfl
      rw [hfresh] at hold
      cases hold

end Linked

/-! ## Every step -/

/-- What the rows of the tables show. -/
def Tables.shownAt (t : Tables) (id : String) : Option Shown :=
  (t.rows.get? id).map OutboxRow.shown

/-- The reports are linked to the rows of the tables. -/
def LinkedIn (reports : Dict ReportKey DailyReport) (t : Tables) : Prop :=
  Linked t.shownAt t.reports.get? reports.get?

/-- A row is delivered if and only if it has a time of delivery. -/
def OutboxRow.Timed (row : OutboxRow) : Prop :=
  row.deliveredAt ≠ none ↔ row.deliveryState = .delivered

section Steps

variable {allowed : List String} {reports : Dict ReportKey DailyReport} {t t' : Tables}
  {id : String} {row row' : OutboxRow}

theorem get?_set_eq_update {κ ν : Type*} [DecidableEq κ] (d : Dict κ ν) (k : κ) (v : ν) :
    (d.set k v).get? = Function.update d.get? k (some v) := by
  funext j
  rw [Dict.get?_set, Function.update_apply]
  by_cases hj : k = j
  · rw [if_pos hj, if_pos hj.symm]
  · rw [if_neg hj, if_neg (Ne.symm hj)]

theorem shownAt_set (t : Tables) (id : String) (row : OutboxRow) (other : Dict ReportKey
    DailyReportRow) :
    Tables.shownAt ⟨t.rows.set id row, other⟩ = Function.update t.shownAt id (some row.shown) := by
  funext j
  rw [Tables.shownAt, Dict.get?_set]
  by_cases hj : id = j
  · rw [if_pos hj, hj, Function.update_self]
    rfl
  · rw [if_neg hj, Function.update_of_ne (Ne.symm hj)]
    rfl

/-- Rows that show the same have the same links. -/
theorem LinkedIn.congr (h : LinkedIn reports t) (hshown : t'.shownAt = t.shownAt)
    (hreports : t'.reports = t.reports) : LinkedIn reports t' := by
  rw [LinkedIn, hshown, hreports]
  exact h

theorem LinkedIn.set_same (h : LinkedIn reports t) (hget : t.rows.get? id = some row)
    (hshown : row'.shown = row.shown) : LinkedIn reports { t with rows := t.rows.set id row' } := by
  refine h.congr ?_ rfl
  rw [shownAt_set, hshown]
  refine Function.update_eq_self_iff.mpr ?_
  rw [Tables.shownAt, hget]
  rfl

theorem LinkedIn.applyOutboxDelivery (h : LinkedIn reports t) (hget : t.rows.get? id = some row)
    {at' : Time} {messageId : Option String}
    (hok : t.applyOutboxDelivery id row at' messageId = .ok t') : LinkedIn reports t' := by
  have hshown : t.shownAt id = some row.shown := by
    rw [Tables.shownAt, hget]
    rfl
  have hdelivered : Linked
      (Function.update t.shownAt id (some (row.delivered at' messageId).shown))
      (fun key => if row.dailyReport = .of key then
        (t.reports.get? key).map fun _ => ⟨messageId, some at'⟩ else t.reports.get? key)
      reports.get? := Linked.deliver h hshown at' messageId
  unfold Tables.applyOutboxDelivery at hok
  cases hday : row.dailyReport with
  | malformed =>
      rw [hday] at hok
      cases hok
  | absent =>
      rw [hday] at hok
      cases hok
      rw [LinkedIn, shownAt_set]
      simp only [hday, reduceCtorEq, if_false] at hdelivered
      exact hdelivered
  | of day =>
      rw [hday] at hok
      cases hok
      have hreports : (t.reports.update day fun _ => ⟨messageId, some at'⟩).get? = fun key =>
          if day = key then (t.reports.get? key).map fun _ => ⟨messageId, some at'⟩
          else t.reports.get? key := by
        funext key
        exact Dict.get?_update ..
      rw [LinkedIn, shownAt_set]
      simp only [hday, ReportMetadata.of.injEq] at hdelivered
      rw [← hreports] at hdelivered
      exact hdelivered

theorem LinkedIn.markOutbox (h : LinkedIn reports t) {token : Nat} {now : Time} {mark : Mark}
    (hok : t.markOutbox id token now mark = .ok t') : LinkedIn reports t' := by
  unfold Tables.markOutbox at hok
  split at hok
  · cases hok
  · next row hget =>
      split at hok
      · cases hok
      · cases mark with
        | delivered messageId => exact h.applyOutboxDelivery hget hok
        | failed code =>
            cases hok
            exact h.set_same hget rfl
        | uncertain code =>
            cases hok
            exact h.set_same hget rfl
        | dead code =>
            cases hok
            exact h.set_same hget rfl

theorem LinkedIn.resolve (h : LinkedIn reports t) {now : Time} {resolution : Resolution}
    (hok : t.resolveUncertainOutbox id now resolution = .ok t') : LinkedIn reports t' := by
  unfold Tables.resolveUncertainOutbox at hok
  split at hok
  · cases hok
  · split at hok
    · cases hok
    · next row hget =>
        split at hok
        · cases hok
        · cases resolution with
          | delivered messageId => exact h.applyOutboxDelivery hget hok
          | retry =>
              cases hok
              exact h.set_same hget rfl
          | dead =>
              cases hok
              exact h.set_same hget rfl

/-- A lease shows nothing. -/
theorem shownAt_pendingOutbox (t : Tables) (now : Time) (limit : Nat) (locked : List String)
    (next : Nat) : (t.pendingOutbox now limit locked next).1.shownAt = t.shownAt := by
  funext id
  rw [Tables.shownAt, Tables.shownAt]
  cases hget : t.rows.get? id with
  | none => rw [pendingOutbox_unstored now limit locked next hget]
  | some row =>
      obtain ⟨row', hget', hchange⟩ := pendingOutbox_row now limit locked next hget
      rw [hget']
      cases hchange <;> rfl

theorem LinkedIn.step {s : System} (h : LinkedIn reports s.tables) (action : Action)
    (haction : ∀ id key eventType text report now,
      action ≠ .enqueue id key eventType text report now) :
    LinkedIn reports (s.step allowed action).tables := by
  cases action with
  | enqueue id key eventType text report now => exact absurd rfl (haction _ _ _ _ _ _)
  | lease worker now locked =>
      unfold System.step
      dsimp only
      split
      · exact h.congr (shownAt_pendingOutbox _ _ _ _ _) rfl
      · exact h
  | send worker outcome =>
      unfold System.step
      dsimp only
      split
      · split <;> exact h
      · exact h
  | mark worker now =>
      unfold System.step
      dsimp only
      split
      · exact h
      · split
        · exact h
        · unfold System.markFirst
          split
          · exact h
          · split
            · exact h
            · next hok => exact h.markOutbox hok
  | stop worker => exact h
  | resolve id resolution now =>
      unfold System.step
      dsimp only
      split
      · exact h
      · next hok => exact h.resolve hok

/-- Only an enqueue adds a row. -/
theorem step_stays_unstored (allowed : List String) {s : System} (action : Action)
    (haction : ∀ id key eventType text report now,
      action ≠ .enqueue id key eventType text report now)
    (h : s.tables.rows.get? id = none) : (s.step allowed action).tables.rows.get? id = none := by
  -- a change of a stored row adds none
  have hset {j : String} {old new : OutboxRow} (hold : s.tables.rows.get? j = some old) :
      (s.tables.rows.set j new).get? id = none := by
    rw [Dict.get?_set_ne _ (by rintro rfl; rw [h] at hold; cases hold)]
    exact h
  cases action with
  | enqueue newId key eventType text report now => exact absurd rfl (haction _ _ _ _ _ _)
  | lease worker now locked =>
      unfold System.step
      dsimp only
      split
      · exact pendingOutbox_unstored now 100 locked s.nextToken h
      · exact h
  | send worker outcome =>
      unfold System.step
      dsimp only
      split
      · split <;> exact h
      · exact h
  | mark worker now =>
      unfold System.step
      dsimp only
      split
      · exact h
      · split
        · exact h
        · unfold System.markFirst
          split
          · exact h
          · split
            · exact h
            · next hok =>
                obtain ⟨row, hget, -, hrows⟩ := markOutbox_ok hok
                dsimp only
                rw [hrows]
                exact hset hget
  | stop worker => exact h
  | resolve resolvedId resolution now =>
      unfold System.step
      dsimp only
      split
      · exact h
      · next hok =>
          obtain ⟨row, hget, -, hrows⟩ := resolveUncertainOutbox_ok hok
          dsimp only
          rw [hrows]
          exact hset hget

theorem RowChange.timed {s : System} {action : Action}
    (h : RowChange allowed s id row action row') (htimed : row.Timed) : row'.Timed := by
  have hnone (hstate : row.deliveryState ≠ .delivered) : row.deliveredAt = none :=
    not_not.mp fun hset => hstate (htimed.mp hset)
  cases h with
  | kept => exact htimed
  | expired worker now locked lapsed =>
      have hunset := hnone (by rw [lapsed.1]; decide)
      simp [OutboxRow.Timed, OutboxRow.expired, hunset]
  | leased worker now locked token waiting =>
      have hunset := hnone (by rcases waiting with h | h <;> rw [h] <;> decide)
      simp [OutboxRow.Timed, OutboxRow.leased, hunset]
  | marked worker now event rest token mark first own claim current =>
      have hunset := hnone (by rw [current.1]; decide)
      cases mark with
      | delivered messageId => simp [OutboxRow.Timed, Mark.row, OutboxRow.delivered]
      | failed code =>
          simp only [OutboxRow.Timed, Mark.row, OutboxRow.rejected, OutboxRow.released, hunset]
          split <;> simp
      | uncertain code => simp [OutboxRow.Timed, Mark.row, OutboxRow.released, hunset]
      | dead code => simp [OutboxRow.Timed, Mark.row, OutboxRow.released, hunset]
  | resolved resolution now uncertain =>
      have hunset := hnone (by rw [uncertain]; decide)
      cases resolution with
      | retry => simp [OutboxRow.Timed, Resolution.row, OutboxRow.retried, OutboxRow.released, hunset]
      | delivered messageId => simp [OutboxRow.Timed, Resolution.row, OutboxRow.delivered]
      | dead => simp [OutboxRow.Timed, Resolution.row, OutboxRow.released, hunset]

end Steps

/-- What holds of the outbox and the reports in every state. -/
structure Reported (s : ReportSystem) : Prop where
  linked : LinkedIn s.reports s.outbox.tables
  timed : ∀ id row, s.outbox.tables.rows.get? id = some row → row.Timed

namespace Reported

variable {allowed : List String} {s : ReportSystem}

theorem init : Reported {} where
  linked := Linked.nil
  timed _ _ h := by cases h

/-- The key of a new report's message is not taken. -/
theorem fresh (h : Reported s) {id : String} {report : DailyReport} {now : Time}
    (hdistinct : (ReportStep.store id report now).Distinct s)
    (hnew : ¬ s.reports.contains report.key) :
    ¬ ∃ e ∈ s.outbox.tables.rows.entries,
      e.2.idempotencyKey = reportMessageKey report.reportId := by
  rintro ⟨e, hmem, hkey⟩
  have hshown : s.outbox.tables.shownAt e.1 = some e.2.shown := by
    rw [Tables.shownAt, Dict.mem_entries.mp hmem]
    rfl
  obtain ⟨key, old, hold, hid⟩ := h.linked.named e.1 e.2.shown report.reportId hshown hkey
  have hsame : old.key = report.key := hdistinct old (Dict.mem_values.mpr ⟨key, hold⟩) hid
  apply hnew
  rw [← hsame, h.linked.keyed key old hold]
  exact Dict.contains_eq_true.mpr ⟨old, hold⟩

theorem store (h : Reported s) (id : String) (report : DailyReport) (now : Time)
    (hdistinct : (ReportStep.store id report now).Distinct s) :
    Reported (s.storeDailyReport id report now) := by
  unfold ReportSystem.storeDailyReport
  dsimp only
  split
  · exact h
  · next hguard =>
      rw [not_or] at hguard
      have hfresh := Dict.contains_eq_false.mp (Bool.not_eq_true _ ▸ hguard.1)
      have hnew := Dict.contains_eq_false.mp (Bool.not_eq_true _ ▸ hguard.2)
      have hshown : s.outbox.tables.shownAt id = none := by
        rw [Tables.shownAt, hnew]
        rfl
      unfold Tables.enqueueOutbox
      rw [if_neg (not_or.mpr ⟨hguard.2, h.fresh hdistinct hguard.1⟩)]
      refine ⟨?_, fun j row hrow => ?_⟩
      · have hlinked := h.linked.store hshown hfresh
        rw [← get?_set_eq_update, ← get?_set_eq_update] at hlinked
        rw [LinkedIn, shownAt_set]
        exact hlinked
      · rw [Dict.get?_set] at hrow
        split at hrow
        · cases hrow
          simp [OutboxRow.Timed]
        · exact h.timed j row hrow

theorem notice (h : Reported s) (id : String) (notice : Notice) (now : Time) :
    Reported (s.step allowed (.notice id notice now)) := by
  show Reported { s with
    outbox := { s.outbox with
      tables := s.outbox.tables.enqueueOutbox id notice.idempotencyKey notice.eventType
        notice.message .absent now } }
  unfold Tables.enqueueOutbox
  split
  · exact h
  · next hguard =>
      rw [not_or] at hguard
      have hshown : s.outbox.tables.shownAt id = none := by
        rw [Tables.shownAt, Dict.contains_eq_false.mp (Bool.not_eq_true _ ▸ hguard.1)]
        rfl
      refine ⟨?_, fun j row hrow => ?_⟩
      · rw [LinkedIn, shownAt_set]
        exact h.linked.notice hshown rfl notice.idempotencyKey_ne
      · rw [Dict.get?_set] at hrow
        split at hrow
        · cases hrow
          simp [OutboxRow.Timed]
        · exact h.timed j row hrow

theorem act (h : Reported s) (action : Action)
    (haction : ∀ id key eventType text report now,
      action ≠ .enqueue id key eventType text report now) :
    Reported { s with outbox := s.outbox.step allowed action } := by
  refine ⟨h.linked.step action haction, fun id row' hrow' => ?_⟩
  cases hget : s.outbox.tables.rows.get? id with
  | none =>
      have hunstored := step_stays_unstored allowed action haction hget
      rw [hunstored] at hrow'
      cases hrow'
  | some row =>
      obtain ⟨next, hnext, hchange⟩ := step_row allowed action hget
      rw [hnext] at hrow'
      cases hrow'
      exact hchange.timed (h.timed id row hget)

theorem step (h : Reported s) (a : ReportStep) (hdistinct : a.Distinct s) :
    Reported (s.step allowed a) := by
  cases a with
  | store id report now => exact h.store id report now hdistinct
  | notice id notice now => exact h.notice id notice now
  | outbox action =>
      cases action with
      | enqueue id key eventType text report now => exact h
      | lease worker now locked => exact h.act _ (by intros; simp)
      | send worker outcome => exact h.act _ (by intros; simp)
      | mark worker now => exact h.act _ (by intros; simp)
      | stop worker => exact h.act _ (by intros; simp)
      | resolve id resolution now => exact h.act _ (by intros; simp)

end Reported

/-! ## Later states -/

section Later

variable {allowed : List String} {s : ReportSystem}

/-- Adding a message keeps the others. -/
theorem enqueueOutbox_stored {t : Tables} {id : String} {row : OutboxRow}
    (h : t.rows.get? id = some row) (newId idempotencyKey eventType text : String)
    (dailyReport : ReportMetadata) (now : Time) :
    (t.enqueueOutbox newId idempotencyKey eventType text dailyReport now).rows.get? id =
      some row := by
  unfold Tables.enqueueOutbox
  split
  · exact h
  · next hguard =>
      rw [not_or] at hguard
      dsimp only
      rw [Dict.get?_set_ne _ _, h]
      rintro rfl
      exact hguard.1 (Dict.contains_eq_true.mpr ⟨row, h⟩)

theorem step_settled {id : String} {row : OutboxRow}
    (h : s.outbox.tables.rows.get? id = some row) (hsettled : row.Settled) (a : ReportStep) :
    (s.step allowed a).outbox.tables.rows.get? id = some row := by
  cases a with
  | store newId report now =>
      show (s.storeDailyReport newId report now).outbox.tables.rows.get? id = some row
      unfold ReportSystem.storeDailyReport
      dsimp only
      split
      · exact h
      · refine enqueueOutbox_stored ?_ _ _ _ _ _ _
        exact h
  | notice newId notice now => exact enqueueOutbox_stored h _ _ _ _ _ _
  | outbox action =>
      have hstays := (Fenced.all allowed s.outbox).settled id row h hsettled action
      cases action with
      | enqueue => exact h
      | lease => exact hstays
      | send => exact hstays
      | mark => exact hstays
      | stop => exact hstays
      | resolve => exact hstays

/-- A report is not replaced. -/
theorem step_report {key : ReportKey} {report : DailyReport}
    (h : s.reports.get? key = some report) (a : ReportStep) :
    (s.step allowed a).reports.get? key = some report := by
  cases a with
  | store id other now =>
      show (s.storeDailyReport id other now).reports.get? key = some report
      unfold ReportSystem.storeDailyReport
      dsimp only
      split
      · exact h
      · next hguard =>
          rw [not_or] at hguard
          dsimp only
          rw [Dict.get?_set_ne, h]
          intro hsame
          exact hguard.1 (Dict.contains_eq_true.mpr ⟨report, hsame ▸ h⟩)
  | notice id notice now => exact h
  | outbox action => cases action <;> exact h

end Later

/-! ## Whole runs -/

/-- The row is the one message of the report, and the report shows its delivery. -/
structure MessageOf (s : ReportSystem) (key : ReportKey) (report : DailyReport) (id : String)
    (row : OutboxRow) (delivery : DailyReportRow) : Prop where
  stored : s.outbox.tables.rows.get? id = some row
  day : row.dailyReport = .of key
  text : row.text = report.text
  sole : ∀ id' row', s.outbox.tables.rows.get? id' = some row' → row'.dailyReport = .of key →
    id' = id
  shown : s.outbox.tables.reports.get? key = some delivery
  sentAt : delivery.sentAt = row.deliveredAt
  telegramMessageId : delivery.telegramMessageId = row.telegramMessageId
  sent : delivery.sentAt ≠ none ↔ row.deliveryState = .delivered

theorem Reported.messageOf {s : ReportSystem} (h : Reported s) {key : ReportKey}
    {report : DailyReport} (hstored : s.reports.get? key = some report) :
    ∃ id row delivery, MessageOf s key report id row delivery := by
  obtain ⟨id, message, delivery, hmessage, hday, htext, hdelivery, hsent, hid⟩ :=
    h.linked.message key report hstored
  obtain ⟨row, hrow, rfl⟩ := Option.map_eq_some_iff.mp hmessage
  refine ⟨id, row, delivery, hrow, hday, htext, ?_, hdelivery, hsent, hid, ?_⟩
  · intro id' row' hrow' hday'
    have hmessage' : s.outbox.tables.shownAt id' = some row'.shown := by
      rw [Tables.shownAt, hrow']
      rfl
    exact h.linked.sole id' id row'.shown row.shown key hmessage' hmessage hday' hday
  · rw [hsent]
    exact h.timed id row hrow

/-- In every run in which stored ids do not collide, a report that is stored has exactly one
message with its text, it shows the time and the id of the delivery of that message, and it has a
time if and only if the message is delivered. The report stays, and so does its delivery. -/
theorem reports_follow_messages (allowed : List String) (before after : List ReportStep)
    (hrun : Along ReportStep.Distinct (ReportSystem.step allowed) {} (before ++ after))
    {key : ReportKey} {report : DailyReport}
    (hstored : (exec (ReportSystem.step allowed) {} before).reports.get? key = some report) :
    ∃ id row delivery,
      MessageOf (exec (ReportSystem.step allowed) {} before) key report id row delivery ∧
      (exec (ReportSystem.step allowed) {} (before ++ after)).reports.get? key = some report ∧
      (delivery.sentAt ≠ none →
        (exec (ReportSystem.step allowed) {} (before ++ after)).outbox.tables.reports.get? key =
          some delivery) := by
  have hbefore : Reported (exec (ReportSystem.step allowed) {} before) :=
    (Along.append_iff.mp hrun).1.invariant (fun _ a h hdistinct => h.step a hdistinct)
      Reported.init
  have hafter : Reported (exec (ReportSystem.step allowed) {} (before ++ after)) :=
    hrun.invariant (fun _ a h hdistinct => h.step a hdistinct) Reported.init
  obtain ⟨id, row, delivery, hmessage⟩ := hbefore.messageOf hstored
  have hkept : (exec (ReportSystem.step allowed) {} (before ++ after)).reports.get? key =
      some report := by
    rw [exec_append]
    exact exec_invariant (I := fun s : ReportSystem => s.reports.get? key = some report)
      (fun _ a h => step_report h a) hstored after
  refine ⟨id, row, delivery, hmessage, hkept, fun hsent => ?_⟩
  have hsettled : row.Settled := Or.inl (hmessage.sent.mp hsent)
  have hrow : (exec (ReportSystem.step allowed) {} (before ++ after)).outbox.tables.rows.get? id =
      some row := by
    rw [exec_append]
    exact exec_invariant (I := fun s : ReportSystem => s.outbox.tables.rows.get? id = some row)
      (fun _ a h => step_settled h hsettled a) hmessage.stored after
  -- the message of the later state is the same row
  obtain ⟨id', row', delivery', hmessage'⟩ := hafter.messageOf hkept
  have hid : id = id' := hmessage'.sole id row hrow hmessage.day
  rw [← hid] at hmessage'
  have hsame : row' = row := Option.some.inj (hmessage'.stored.symm.trans hrow)
  rw [hmessage'.shown]
  congr 1
  cases delivery
  cases delivery'
  congr 1
  · exact hmessage'.telegramMessageId.trans (hsame ▸ hmessage.telegramMessageId.symm)
  · exact hmessage'.sentAt.trans (hsame ▸ hmessage.sentAt.symm)

/-! ## A run -/

def sampleReport (date reportId : String) : DailyReport :=
  ⟨⟨date, "UTC", "v1"⟩, reportId, "report of " ++ date⟩

/-- Two reports and the start message are leased. The first report is delivered by the worker. -/
def twoReports : List ReportStep :=
  [.notice "m" (.lifecycle .systemStart "run-1" "started") 0,
    .store "a" (sampleReport "2026-01-01" "1f") (seconds 1),
    .store "b" (sampleReport "2026-01-02" "2e") (seconds 2),
    .outbox (.lease 0 (seconds 3) ["m"]), .outbox (.send 0 (.delivered (some "7"))),
    .outbox (.mark 0 (seconds 4))]

/-- The lease of the second one runs out, and the operator finds it delivered. -/
def laterResolved : List ReportStep :=
  [.store "c" (sampleReport "2026-01-01" "3d") (seconds 5), .outbox (.lease 1 (seconds 40) []),
    .outbox (.resolve "b" (.delivered (some "8")) (seconds 50))]

theorem reports_follow_messages_sample :
    (exec (ReportSystem.step proactiveTelegramEventTypes) {}
      (twoReports ++ laterResolved)).outbox.tables.reports.entries =
        [(⟨"2026-01-01", "UTC", "v1"⟩, ⟨some "7", some (seconds 4)⟩),
          (⟨"2026-01-02", "UTC", "v1"⟩, ⟨some "8", some (seconds 50)⟩)] ∧
    ∃ id row delivery,
      MessageOf (exec (ReportSystem.step proactiveTelegramEventTypes) {} twoReports)
        ⟨"2026-01-01", "UTC", "v1"⟩ (sampleReport "2026-01-01" "1f") id row delivery ∧
      (exec (ReportSystem.step proactiveTelegramEventTypes) {}
        (twoReports ++ laterResolved)).reports.get? ⟨"2026-01-01", "UTC", "v1"⟩ =
          some (sampleReport "2026-01-01" "1f") ∧
      (delivery.sentAt ≠ none →
        (exec (ReportSystem.step proactiveTelegramEventTypes) {}
          (twoReports ++ laterResolved)).outbox.tables.reports.get? ⟨"2026-01-01", "UTC", "v1"⟩ =
            some delivery) :=
  ⟨by decide +kernel, reports_follow_messages proactiveTelegramEventTypes twoReports laterResolved
    (by decide +kernel) (by decide +kernel)⟩

end SniperBot.Outbox
