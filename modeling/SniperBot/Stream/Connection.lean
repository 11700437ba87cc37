import SniperBot.Basis.Json
import SniperBot.Basis.Text
import SniperBot.Runtime.Poisoning

/-!
# The connection of the stream

`_run` of the gateway (`stream.py`) with what it calls on a socket: the subscription handshake
(`_subscribe`, `_collect_acknowledgements`), the recovery with its live buffer
(`_recover_gap_with_live_buffer`), the messages that are kept back until the connection is ready,
`handle_message`, and the entry gate. A step goes up to the next point where `_run` may be
suspended, so other tasks take their steps in between.

`handle_message` does not suspend, and the messages that were kept back are handled in one step.
A message that raises there stays where it is and is the first one of the next connection, while
one that raises later is gone with its connection.

The recovery itself is in `Gap.lean`; here it is the slots of what it returned. A message is
known by its number among those that came in. `received`, `handled` and `arrived` are not in the
source: they record what the theorems speak about.
-/

namespace SniperBot.Stream

open Basis SniperBot.Runtime

/-! ## Messages -/

/-- `fields.get(key)` -/
def getKey (fields : List (String × Json)) (key : String) : Json := (fields.lookup key).getD .null

/-- Whether a value counts as true. -/
def truthy : Json → Bool
  | .null => false
  | .bool value => value
  | .int value => value ≠ 0
  | .text value => value ≠ ""
  | .list items => !items.isEmpty
  | .object fields => !fields.isEmpty

/-- `value or {}` -/
def orEmpty (value : Json) : Json := if truthy value then value else .object []

/-- `value.get(key) if isinstance(value, dict) else None` -/
def getInside (value : Json) (key : String) : Json :=
  match value with
  | .object fields => getKey fields key
  | _ => .null

/-- A list of texts. -/
def texts : Json → Option (List String)
  | .list items => items.mapM fun item => match item with
      | .text line => some line
      | _ => none
  | _ => none

/-- `_TransactionNotification` and `_LogNotification`, without the time and the generation. -/
inductive Notice
  | transaction (fields : List (String × Json))
  | log (signature : String) (slot : Int) (logs : List String)

/-- What `handle_message` raises: the text of a `RuntimeError`, or an `AttributeError`. -/
inductive MessageError
  | runtime (text : String)
  | attribute
  deriving DecidableEq, Repr

/-- A transaction gets the slot of the context. -/
def withSlot (transaction : List (String × Json)) (context : Json) : List (String × Json) :=
  match transaction.lookup "slot", context with
  | none, .object fields => transaction ++ [("slot", (fields.lookup "slot").getD (.int 0))]
  | _, _ => transaction

/-- The slot and the logs of a notification whose `err` is `None`. -/
def readLogs (signature : String) (value : List (String × Json)) (context : Json) :
    Except MessageError Notice :=
  match texts (getKey value "logs") with
  | none => .error (.runtime "Solana logs notification is missing a valid logs array")
  | some logs =>
    match getInside context "slot" with
    | .int slot =>
        if slot ≤ 0 then .error (.runtime "Solana logs notification is missing a valid slot")
        else .ok (.log signature slot logs)
    | _ => .error (.runtime "Solana logs notification is missing a valid slot")

/-- The `value` of a `logsNotification`. -/
def readValue (value context : Json) : Except MessageError (Option Notice) :=
  match value with
  | .object value =>
    match getKey value "signature" with
    | .text signature =>
      if signature = "" ∨ signature ≠ Text.strip signature then
        .error (.runtime "Solana logs notification is missing a valid signature")
      else
        match value.lookup "err" with
        | none =>
            .error (.runtime "Solana logs notification is missing the required err field")
        | some .null => (readLogs signature value context).map some
        | some _ => .ok none
    | _ => .error (.runtime "Solana logs notification is missing a valid signature")
  | _ => .error (.runtime "Solana logs notification is missing a valid value")

/-- `handle_message` up to the ingress queue; `none` is a message that is ignored. Only a text
ends with `Notification` when it is written by `str`. -/
def readMessage : Json → Except MessageError (Option Notice)
  | .object message =>
    if truthy (getKey message "error") then
      .error (.runtime "Helius subscription returned an error")
    else
      match getKey message "method" with
      | .text method =>
        if "Notification".toList <:+ method.toList then
          match orEmpty (getKey message "params") with
          | .object params =>
            let result := orEmpty (getKey params "result")
            match getInside result "transaction" with
            | .object transaction =>
                .ok (some (.transaction (withSlot transaction (getInside result "context"))))
            | _ =>
              if method = "logsNotification" then
                readValue (getInside result "value") (getInside result "context")
              else .ok none
          | _ => .error .attribute
        else .ok none
      | _ => .ok none
  | _ => .error .attribute

/-! ## The handshake -/

/-- A message, with its place in the order of receipt. -/
structure Incoming where
  number : Nat
  message : Json

/-- The request ids of the transaction subscriptions, and of the log subscriptions. -/
def requestIds (logsOnly : Bool) : List Int := if logsOnly then [101, 102] else [1, 2]

/-- `_valid_subscription_ack`, of an object. -/
def validSubscriptionAck (message : List (String × Json)) : Bool :=
  match getKey message "jsonrpc", message.lookup "error", getKey message "result" with
  | .text version, none, .int result => version = "2.0" && 0 ≤ result
  | _, _, _ => false

/-- What `_collect_acknowledgements` makes of a message. -/
inductive HandshakeMessage
  | acknowledgement (id : Int) (valid : Bool)
  | notification
  | refused
  deriving DecidableEq, Repr

/-- One turn of the loop of `_collect_acknowledgements`, before it stores anything. -/
def readHandshake (expected acknowledged : List Int) : Json → HandshakeMessage
  | .object message =>
    match getKey message "jsonrpc" with
    | .text version =>
      if version ≠ "2.0" then .refused
      else
        match message.lookup "id" with
        | none => .notification
        | some (.int id) =>
            if id ∉ expected ∨ id ∈ acknowledged then .refused
            else .acknowledgement id (validSubscriptionAck message)
        | some _ => .refused
    | _ => .refused
  | _ => .refused

/-! ## The state -/

/-- `SUBSCRIPTION_MESSAGE_BUFFER_LIMIT` -/
def messageBufferLimit : Nat := 16384

/-- How a connection ends. -/
inductive Ending
  | retry
  /-- The handshake has failed, with the messages that came in. -/
  | handshakeFailed (buffered : List Incoming)
  /-- `_run` returns. -/
  | returned

/-- Where `_run` is suspended. -/
inductive Phase
  /-- It has no socket: it holds, connects or sleeps. -/
  | waiting
  /-- In `_collect_acknowledgements`, with the acknowledgements that have come. -/
  | handshaking (acknowledged : List (Int × Bool)) (buffered : List Incoming)
  /-- The gap handler is told that a gap is accepted. -/
  | accepting
  /-- In `_recover_gap_with_live_buffer`. -/
  | recovering (buffered : List Incoming)
  /-- The gap handler is told that a recovery was given up. -/
  | interrupted
  /-- In `_commit_recovered_events`, with the slots of the events that are left. -/
  | committing (slots : List Nat)
  /-- In the handler of a resolved gap. -/
  | resolving
  /-- In `_receive_or_reconnect`. -/
  | live
  /-- In `_cancel_log_fetch_tasks`, before the next connection. -/
  | closing (ending : Ending)
  | stopped

/-- The options of the gateway that `_run` reads. -/
structure ConnectionConfig where
  haltOnUnrecoverableGap : Bool := false
  notificationQueueSize : Nat := 16384

/-- The fields of the gateway and the variables of `_run`. -/
structure Connection where
  gate : EntryGate := {}
  phase : Phase := .waiting
  logsOnly : Bool := false
  /-- `pending_handshake_messages` -/
  pending : List Incoming := []
  lastSlot : Nat := 0
  generation : Nat := 0
  reconnectRequested : Bool := false
  dispatchRecoveryPending : Bool := false
  /-- Whether there is a dispatcher that is not done. -/
  dispatching : Bool := false
  notificationQueue : List (Notice × Nat) := []
  /-- Every message that came in and is not an acknowledgement. -/
  received : List Incoming := []
  handled : List Incoming := []
  /-- The messages of the connection. -/
  arrived : List Incoming := []

namespace Connection

variable (config : ConnectionConfig) (s : Connection)

/-- `_begin_live_baseline` -/
def beginLiveBaseline : Connection :=
  { s with
    generation := s.generation + 1
    gate := (s.gate.block .streamBaseline).block .streamStale }

/-- `_discard_in_memory_checkpoint` -/
def discardInMemoryCheckpoint : Connection := { s with lastSlot := 0 }.beginLiveBaseline

/-- A message that is no acknowledgement. -/
def incoming (message : Json) : Incoming := ⟨s.received.length, message⟩

def arrive (message : Json) : Connection :=
  { s with
    received := s.received ++ [s.incoming message]
    arrived := s.arrived ++ [s.incoming message] }

/-- The `finally` of `_run`, up to `_cancel_log_fetch_tasks`. -/
def close (ending : Ending) : Connection :=
  { s with phase := .closing ending, gate := s.gate.block .streamDisconnected }

/-! ## `handle_message` -/

/-- `_enqueue_notification_dispatch`, and whether it returned. -/
def enqueue (notice : Notice) : Connection × Bool :=
  if s.reconnectRequested then (s, false)
  else
    let s := { s with dispatching := true }
    if config.notificationQueueSize ≤ s.notificationQueue.length then
      ({ s with
          dispatchRecoveryPending := true
          reconnectRequested := true
          gate := (s.gate.block .streamFetchError).requestFatalRestart }, false)
    else ({ s with notificationQueue := s.notificationQueue ++ [(notice, s.generation)] }, true)

/-- `handle_message`, and whether it returned. -/
def handleMessage (item : Incoming) : Connection × Bool :=
  match readMessage item.message with
  | .error _ => (s, false)
  | .ok none => ({ s with handled := s.handled ++ [item] }, true)
  | .ok (some notice) =>
    match s.enqueue config notice with
    | (s, true) => ({ s with handled := s.handled ++ [item] }, true)
    | (s, false) => (s, false)

/-- The messages that were kept back are handled, and the connection is ready. -/
def dispatchPending : Connection → List Incoming → Connection
  | s, [] =>
      { s with
        pending := []
        phase := .live
        gate := (s.gate.unblock .startup).unblock .streamDisconnected }
  | s, item :: rest =>
      if s.reconnectRequested then { s with pending := item :: rest }.close .retry
      else
        match s.handleMessage config item with
        | (s, true) => s.dispatchPending rest
        | (s, false) => { s with pending := item :: rest }.close .retry

/-! ## The way to a connection that is ready -/

/-- A recovery is given up. -/
def interrupt : Connection :=
  { s with phase := .interrupted, pending := [], gate := s.gate.block .streamRecoveryGap }

/-- The gap is accepted, and the checkpoint is gone. -/
def accept : Connection :=
  { s.discardInMemoryCheckpoint with
    gate := s.discardInMemoryCheckpoint.gate.unblock .streamRecoveryGap }

/-- The recovered events are committed. -/
def settle : Connection :=
  if s.lastSlot = 0 then s.dispatchPending config s.pending
  else
    { s with
      phase := .resolving
      dispatchRecoveryPending := false
      gate := s.gate.unblock .streamRecoveryGap }

/-- `_subscribe` has returned. `recent` is the answer of `_checkpoint_is_recent` at that time. -/
def subscribed (recent : Bool) (buffered : List Incoming) : Connection :=
  if messageBufferLimit < s.pending.length + buffered.length then s.close .returned
  else
    let s := { s with pending := s.pending ++ buffered }
    if s.lastSlot = 0 then s.dispatchPending config s.pending
    else if recent then { s with phase := .recovering s.pending }
    else { s with phase := .accepting, gate := s.gate.block .streamRecoveryGap }

/-- A message comes in during the handshake. -/
def receiveHandshake (recent : Bool) (acknowledged : List (Int × Bool)) (buffered : List Incoming)
    (message : Json) : Connection :=
  match readHandshake (requestIds s.logsOnly) (acknowledged.map Prod.fst) message with
  | .acknowledgement id valid =>
      let acknowledged := acknowledged ++ [(id, valid)]
      if ∃ id ∈ requestIds s.logsOnly, id ∉ acknowledged.map Prod.fst then
        { s with phase := .handshaking acknowledged buffered }
      else if ∀ acknowledgement ∈ acknowledged, acknowledgement.2 = true then
        s.subscribed config recent buffered
      else s.close (.handshakeFailed buffered)
  | .notification =>
      let buffered' := buffered ++ [s.incoming message]
      if messageBufferLimit ≤ buffered.length then
        (s.arrive message).close (.handshakeFailed buffered')
      else { s.arrive message with phase := .handshaking acknowledged buffered' }
  | .refused => (s.arrive message).close (.handshakeFailed buffered)

/-- A message comes in during a recovery. -/
def receiveRecovering (buffered : List Incoming) (message : Json) : Connection :=
  let buffered := buffered ++ [s.incoming message]
  if messageBufferLimit < buffered.length then (s.arrive message).interrupt
  else { s.arrive message with phase := .recovering buffered }

/-- A message comes in on a connection that is ready. -/
def receiveLive (message : Json) : Connection :=
  if s.reconnectRequested then (s.arrive message).close .retry
  else
    match (s.arrive message).handleMessage config (s.incoming message) with
    | (s, true) => s
    | (s, false) => s.close .retry

/-! ## Steps -/

/-- The top of the loop of `_run`, with `_hold_for_unrecoverable_gap`. -/
def connect (recent : Bool) : Connection :=
  match s.phase with
  | .waiting =>
      let s := { s with gate := s.gate.block .streamDisconnected }
      if config.haltOnUnrecoverableGap ∧ s.lastSlot ≠ 0 ∧ recent = false then
        { s with gate := s.gate.block .streamRecoveryGap }
      else
        { s with phase := .handshaking [] [], reconnectRequested := false,
                 arrived := [] }.beginLiveBaseline
  | _ => s

/-- A message is taken from the socket. -/
def receive (message : Json) (recent : Bool) : Connection :=
  match s.phase with
  | .handshaking acknowledged buffered =>
      s.receiveHandshake config recent acknowledged buffered message
  | .recovering buffered => s.receiveRecovering buffered message
  | .live => s.receiveLive config message
  | _ => s

/-- A deadline passes. -/
def expire : Connection :=
  match s.phase with
  | .handshaking _ buffered => s.close (.handshakeFailed buffered)
  | .recovering _ => s.interrupt
  | _ => s

/-- What `_run` waits for raises: the socket, a text that is no JSON, the recovery, a handler of
the gap or the request to reconnect. Nothing is raised by the processing queue. -/
def fail : Connection :=
  match s.phase with
  | .waiting => { s with gate := s.gate.block .streamDisconnected }
  | .handshaking _ _ | .accepting | .recovering _ | .interrupted | .resolving | .live =>
      s.close .retry
  | .committing _ | .closing _ | .stopped => s

/-- What `_run` waits for returns; `slots` are those of the recovered events. -/
def proceed (slots : List Nat) : Connection :=
  match s.phase with
  | .accepting => s.accept.dispatchPending config s.pending
  | .recovering buffered =>
      let s := { s with pending := buffered }
      if slots = [] then s.settle config else { s with phase := .committing slots }
  | .interrupted => s.close .retry
  | .committing (slot :: rest) =>
      let s := { s with lastSlot := max s.lastSlot slot }
      if rest = [] then s.settle config else { s with phase := .committing rest }
  | .resolving => s.dispatchPending config s.pending
  | _ => s

/-- `_extend_handshake_buffer`, after which the transaction subscriptions are not tried again. -/
def extendHandshakeBuffer (incoming : List Incoming) : Connection :=
  if messageBufferLimit < s.pending.length + incoming.length then
    { s with phase := .stopped, gate := s.gate.block .streamDisconnected }
  else { s with phase := .waiting, logsOnly := true, pending := s.pending ++ incoming }

/-- `_cancel_log_fetch_tasks`; `fetching` says that there are tasks for log notifications. -/
def cancelLogFetchTasks (fetching : Bool) : Connection :=
  let s := { s with dispatching := false }
  if fetching ∨ s.notificationQueue ≠ [] then
    { s with dispatchRecoveryPending := true, gate := s.gate.block .streamRecoveryGap }
  else s

/-- The tasks are cancelled, and `_run` handles the exception of the connection. -/
def closed (fetching : Bool) : Connection :=
  match s.phase with
  | .closing ending =>
      let s := s.cancelLogFetchTasks fetching
      match ending with
      | .retry => { s with phase := .waiting }
      | .handshakeFailed buffered => s.extendHandshakeBuffer buffered
      | .returned => { s with phase := .stopped }
  | _ => s

/-- The dispatcher takes a notification; `ok` says that it does not raise. -/
def dispatch (ok : Bool) : Connection :=
  if s.dispatching then
    match s.notificationQueue with
    | [] => s
    | _ :: rest =>
        if ok then { s with notificationQueue := rest }
        else
          { s with
            notificationQueue := rest
            dispatching := false
            dispatchRecoveryPending := true
            reconnectRequested := true
            gate := s.gate.block .streamFetchError }
  else s

/-- The task of a log notification raises. -/
def failTask : Connection :=
  { s with
    dispatchRecoveryPending := true
    reconnectRequested := true
    gate := s.gate.block .streamFetchError }

/-- The reasons that only `_run` unblocks. -/
def ownReasons : List Reason := [.startup, .streamDisconnected, .streamRecoveryGap]

end Connection

inductive ConnectionStep
  | connect (recent : Bool)
  | receive (message : Json) (recent : Bool)
  | expire
  | fail
  | proceed (slots : List Nat)
  | closed (fetching : Bool)
  | dispatch (ok : Bool)
  | failTask
  /-- `_queue_transaction` -/
  | observe (slot : Nat)
  /-- Other tasks block and unblock. -/
  | block (reason : Reason)
  | unblock (reason : Reason)
  | stop

def Connection.step (config : ConnectionConfig) (s : Connection) : ConnectionStep → Connection
  | .connect recent => s.connect config recent
  | .receive message recent => s.receive config message recent
  | .expire => s.expire
  | .fail => s.fail
  | .proceed slots => s.proceed config slots
  | .closed fetching => s.closed fetching
  | .dispatch ok => s.dispatch ok
  | .failTask => s.failTask
  | .observe slot => { s with lastSlot := max s.lastSlot slot }
  | .block reason =>
      if reason = .startup ∨ reason = .streamDisconnected then s
      else { s with gate := s.gate.block reason }
  | .unblock reason =>
      if reason ∈ Connection.ownReasons then s else { s with gate := s.gate.unblock reason }
  | .stop => { s with phase := .stopped, gate := s.gate.block .streamDisconnected }

end SniperBot.Stream
