import SniperBot.Basis.Run
import SniperBot.Stream.Gap
import SniperBot.Protocols.Invocations

/-!
# Whose transaction a checkpoint is

`_transaction_protocols` looks for the address of a program anywhere in the joined log of a
transaction, and `_queue_transaction` makes the transaction the checkpoint of every program that it
found. `_commit_recovered_events` does the same for the program under which a transaction was
listed. What a transaction really invoked is a tree; programs choose the text of the messages in
its log.

Checkpoints are signatures of transactions that invoked their program in every run in which no
queued transaction names a program that it does not invoke, and the provider lists, under a
program, only transactions that invoke it. A message is enough to break this
(`message_moves_checkpoint`).
-/

namespace SniperBot.Stream

open Basis Features Protocols

/-! ## What a transaction did -/

/-- `PUMP_PROGRAM_ID` -/
def pumpProgram : ProgramId where
  text := "6EF8rrecthR5Dkzon8Nwu78hRvfCKubJ14M5uBEwF6P"
  base58 := by decide
  size := by decide

/-- The program of a protocol. -/
def programId : Protocol → ProgramId
  | .pump => pumpProgram
  | .pumpswap => pumpswapProgram

/-- The program is invoked somewhere in the body. -/
def invokedIn (own : ProgramId) : Forest → Prop
  | .done => False
  | .log _ rest => invokedIn own rest
  | .data _ rest => invokedIn own rest
  | .units _ rest => invokedIn own rest
  | .invoke callee body _ rest =>
      callee.text = own.text ∨ invokedIn own body ∨ invokedIn own rest

/-- The program is invoked by the transaction, by an instruction or from inside another program. -/
def Invokes (tx : Protocols.Transaction) (own : ProgramId) : Prop :=
  ∃ i ∈ tx, i.program.text = own.text ∨ invokedIn own i.body

/-- The transaction with the signature, on a chain, invoked the program of the protocol. -/
def InvokedBy (chain : String → Option Protocols.Transaction) (protocol : Protocol)
    (signature : String) : Prop :=
  ∃ tx, chain signature = some tx ∧ Invokes tx (programId protocol)

/-! ## The code -/

/-- A transaction as `_queue_transaction` reads it. -/
structure LoggedTransaction where
  /-- `_transaction_signature`, unless it is empty -/
  signature : Option String
  slot : Option Nat
  logs : List String

def LoggedTransaction.stored (transaction : LoggedTransaction) : Transaction :=
  ⟨transaction.signature, transaction.slot⟩

/-- The program is named in the joined log. -/
def Named (protocol : Protocol) (logs : List String) : Prop :=
  Text.Contains (programId protocol).text (String.intercalate "\n" logs)

instance (protocol : Protocol) (logs : List String) : Decidable (Named protocol logs) :=
  inferInstanceAs (Decidable (Text.Contains _ _))

/-- An address is in the joined log when it is in one of the lines. -/
theorem named_iff (protocol : Protocol) (logs : List String) :
    Named protocol logs ↔ ∃ line ∈ logs, Text.Contains (programId protocol).text line := by
  have hbreak : '\n' ∉ (programId protocol).text.toList := (programId protocol).notMem (by decide)
  have hempty : ¬ Text.Contains (programId protocol).text "" := by
    cases protocol <;> decide
  unfold Named
  induction logs with
  | nil => simp [hempty]
  | cons line logs ih =>
      cases logs with
      | nil => simp [String.intercalate_singleton]
      | cons next logs =>
          rw [String.intercalate_cons_cons, List.exists_mem_cons_iff]
          exact (Text.contains_append_mark_iff hbreak).trans (or_congr_right ih)

/-- `_transaction_protocols` -/
def transactionProtocols (logs : List String) : List Protocol :=
  [Protocol.pump, Protocol.pumpswap].filter fun protocol => Named protocol logs

/-- `_queue_transaction`, with the source under which the transaction is queued. -/
def Gateway.queueTransaction (s : Gateway) (transaction : LoggedTransaction)
    (queuedSource : EventSource) : Gateway :=
  let s :=
    { s with
      lastSlot := max s.lastSlot (transaction.slot.getD 0)
      lastSignature := transaction.signature.orElse fun _ => s.lastSignature }
  (transactionProtocols transaction.logs).foldl (fun s protocol =>
    { s with
      lastSignatures := match transaction.signature with
        | some signature => s.lastSignatures.set protocol signature
        | none => s.lastSignatures
      queue := s.queue ++ [(protocol, transaction.stored, queuedSource)] }) s

/-- `_discard_in_memory_checkpoint` -/
def Gateway.discardInMemoryCheckpoint (s : Gateway) : Gateway :=
  { s with lastSlot := 0, lastSignature := none, lastSignatures := Dict.empty }

/-- The gateway after the recovery. -/
def Recovery.gateway : Recovery → Gateway
  | .resolved s _ => s
  | .started s => s
  | .abandoned s => s

/-- What happens to the checkpoints and the queue of a gateway. -/
inductive GatewayStep
  /-- A transaction or a log notification is dispatched. -/
  | queue (transaction : LoggedTransaction) (queuedSource : EventSource)
  /-- A connection recovers the gap. -/
  | recover (rpc : RpcClient) (interrupted : Bool) (fuel : Nat)
  | discard
  /-- The worker takes the first transaction of the queue. -/
  | take

def Gateway.step (s : Gateway) : GatewayStep → Gateway
  | .queue transaction queuedSource => s.queueTransaction transaction queuedSource
  | .recover rpc interrupted fuel =>
      match s.recover rpc interrupted fuel with
      | some outcome => outcome.gateway
      | none => s
  | .discard => s.discardInMemoryCheckpoint
  | .take => { s with queue := s.queue.tail }

/-! ## The programs that are found -/

/-- The log of a transaction. -/
def executedLogs (tx : Protocols.Transaction) : List String := tx.logs systemProgram

theorem invokeLine_contains {own callee : ProgramId} (h : callee.text = own.text) (depth : Nat) :
    Text.Contains own.text (invokeLine callee depth) := by
  have hline := Text.contains_append "Program " own.text (" invoke [" ++ toString depth ++ "]")
  rw [invokeLine, h]
  simpa only [String.append_assoc] using hline

theorem exists_invokeLine {own top program : ProgramId} {body : Forest} {depth : Nat}
    (h : invokedIn own body) :
    ∃ entry ∈ body.entries top program depth, Text.Contains own.text entry.line := by
  induction body generalizing program depth with
  | done => exact h.elim
  | log message rest ih =>
      obtain ⟨entry, hentry, hline⟩ := ih h
      exact ⟨entry, List.mem_cons_of_mem _ hentry, hline⟩
  | data fields rest ih =>
      obtain ⟨entry, hentry, hline⟩ := ih h
      exact ⟨entry, List.mem_cons_of_mem _ hentry, hline⟩
  | units left rest ih =>
      obtain ⟨entry, hentry, hline⟩ := ih h
      exact ⟨entry, List.mem_cons_of_mem _ hentry, hline⟩
  | invoke callee body ending rest ihbody ihrest =>
      rcases h with h | h | h
      · exact ⟨_, List.mem_cons_self, invokeLine_contains h _⟩
      · obtain ⟨entry, hentry, hline⟩ := ihbody h
        refine ⟨entry, List.mem_cons_of_mem _ ?_, hline⟩
        exact List.mem_append_left _ (List.mem_append_left _ hentry)
      · obtain ⟨entry, hentry, hline⟩ := ihrest h
        exact ⟨entry, List.mem_cons_of_mem _ (List.mem_append_right _ hentry), hline⟩

/-- A program that the transaction invokes is found. -/
theorem named_of_invokes {tx : Protocols.Transaction} {protocol : Protocol}
    (h : Invokes tx (programId protocol)) : Named protocol (executedLogs tx) := by
  obtain ⟨i, hi, hinvoked⟩ := h
  have hentry : ∃ entry ∈ i.entries systemProgram,
      Text.Contains (programId protocol).text entry.line := by
    rcases hinvoked with hown | hinside
    · exact ⟨_, List.mem_cons_self, invokeLine_contains hown _⟩
    · obtain ⟨entry, hentry, hline⟩ := exists_invokeLine hinside
      exact ⟨entry, List.mem_cons_of_mem _ (List.mem_append_left _ hentry), hline⟩
  obtain ⟨entry, hentry, hline⟩ := hentry
  exact (named_iff _ _).mpr ⟨entry.line,
    List.mem_map_of_mem (List.mem_flatMap.mpr ⟨i, hi, hentry⟩), hline⟩

/-! ## Checkpoints -/

section Chain

variable {chain : String → Option Protocols.Transaction}

/-- Every checkpoint is the signature of a transaction that invoked its program. -/
def Gateway.Attributed (chain : String → Option Protocols.Transaction) (s : Gateway) : Prop :=
  ∀ protocol signature, s.lastSignatures.get? protocol = some signature →
    InvokedBy chain protocol signature

/-- The transactions of a step invoke the programs for which they are taken: a queued one those
that its log names, a listed one that under which it is listed. A fetched transaction is the one
that was asked for. -/
def GatewayStep.Truthful (chain : String → Option Protocols.Transaction) : GatewayStep → Prop
  | .queue transaction _ => ∀ protocol signature, Named protocol transaction.logs →
      transaction.signature = some signature → InvokedBy chain protocol signature
  | .recover rpc _ _ =>
      (∀ call program checkpoint before limit listed,
        rpc.getSignaturesForAddress call program checkpoint before limit = .ok listed →
          ∀ item ∈ listed, item.failed = false → InvokedBy chain program item.signature) ∧
      ∀ program signature transaction,
        rpc.getTransaction program signature = .ok (some transaction) →
          transaction.signature = some signature
  | .discard => True
  | .take => True

theorem Gateway.Attributed.set {s : Gateway} (h : s.Attributed chain) {protocol : Protocol}
    {signature : String} (hsignature : InvokedBy chain protocol signature) {t : Gateway}
    (ht : t.lastSignatures = s.lastSignatures.set protocol signature) : t.Attributed chain := by
  intro other found hfound
  rw [ht, Dict.get?_set] at hfound
  split at hfound
  · rename_i heq
    cases hfound
    exact heq ▸ hsignature
  · exact h other found hfound

theorem Gateway.Attributed.queueTransaction {s : Gateway} (h : s.Attributed chain)
    {transaction : LoggedTransaction} {queuedSource : EventSource}
    (hnamed : (GatewayStep.queue transaction queuedSource).Truthful chain) :
    (s.queueTransaction transaction queuedSource).Attributed chain := by
  have hprotocols : ∀ protocol ∈ transactionProtocols transaction.logs,
      Named protocol transaction.logs :=
    fun protocol hprotocol => of_decide_eq_true (List.mem_filter.mp hprotocol).2
  have hstart : ({ s with
      lastSlot := max s.lastSlot (transaction.slot.getD 0)
      lastSignature := transaction.signature.orElse fun _ => s.lastSignature } :
        Gateway).Attributed chain := h
  unfold Gateway.queueTransaction
  generalize transactionProtocols transaction.logs = protocols at hprotocols
  revert hstart
  generalize ({ s with
      lastSlot := max s.lastSlot (transaction.slot.getD 0)
      lastSignature := transaction.signature.orElse fun _ => s.lastSignature } : Gateway) = t
  intro hstart
  dsimp only
  induction protocols generalizing t with
  | nil => exact hstart
  | cons protocol protocols ih =>
      refine ih (fun other hother => hprotocols other (List.mem_cons_of_mem _ hother)) _ ?_
      cases hsignature : transaction.signature with
      | none => exact hstart
      | some signature =>
          exact hstart.set (hnamed protocol signature (hprotocols _ List.mem_cons_self) hsignature)
            rfl

theorem Gateway.Attributed.commitRecoveredEvents {s : Gateway} (h : s.Attributed chain)
    {recovered : RecoveredEvents}
    (hrecovered : ∀ event ∈ recovered, ∀ signature, event.2.1.signature = some signature →
      InvokedBy chain event.1 signature) :
    (s.commitRecoveredEvents recovered).Attributed chain := by
  unfold Gateway.commitRecoveredEvents
  induction recovered generalizing s with
  | nil => exact h
  | cons event recovered ih =>
      obtain ⟨protocol, transaction, source⟩ := event
      refine ih ?_ fun other hother => hrecovered other (List.mem_cons_of_mem _ hother)
      cases hsignature : transaction.signature with
      | none =>
          intro other found hfound
          dsimp only at hfound
          rw [hsignature] at hfound
          exact h other found hfound
      | some signature =>
          refine h.set (hrecovered _ List.mem_cons_self signature hsignature) ?_
          dsimp only
          rw [hsignature]

/-! ## Recovered transactions -/

section Recovered

variable {rpc : RpcClient}

/-- Every transaction that is stored belongs to the program under which it is stored. -/
def Belonging (chain : String → Option Protocols.Transaction) (recovered : Recovered) : Prop :=
  ∀ key found, recovered.get? key = some found → ∀ signature,
    found.2.signature = some signature → InvokedBy chain found.1 signature

theorem Belonging.storeFetched {recovered : Recovered} (h : Belonging chain recovered)
    {protocol : Protocol} {fetched : List (Option (String × Transaction))}
    (hfetched : ∀ found, some found ∈ fetched → ∀ signature,
      found.2.signature = some signature → InvokedBy chain protocol signature) :
    Belonging chain (storeFetched protocol recovered fetched) := by
  induction fetched generalizing recovered with
  | nil => exact h
  | cons result fetched ih =>
      rw [storeFetched_cons]
      refine ih ?_ fun found hfound => hfetched found (List.mem_cons_of_mem _ hfound)
      cases result with
      | none => exact h
      | some found =>
          intro key stored hstored
          rw [Dict.get?_set] at hstored
          split at hstored
          · cases hstored
            exact hfetched found List.mem_cons_self
          · exact h key stored hstored

theorem recoverPages_belonging {interrupted : Bool} {fuel : Nat}
    (htruthful : (GatewayStep.recover rpc interrupted fuel).Truthful chain) {program : Protocol}
    {checkpoint : Option String} {turns call last : Nat} {before : Option String}
    {recovered after : Recovered} (h : Belonging chain recovered)
    (hreturns : recoverPages rpc program checkpoint turns call before recovered =
      some (.ok (after, last))) : Belonging chain after := by
  induction turns generalizing call before recovered with
  | zero => cases hreturns
  | succ turns ih =>
      rw [recoverPages] at hreturns
      split at hreturns
      · cases hreturns
      rename_i listed hlisted
      split at hreturns
      · cases hreturns
      rename_i fetched hfetched
      have hstored : Belonging chain (storeFetched program recovered fetched) := by
        refine h.storeFetched fun found hfound signature hsignature => ?_
        obtain ⟨item, hitem, hresult⟩ := ((fetched_spec hfetched).1 _).mp hfound
        obtain ⟨-, transaction, hanswer, hfetchedAs⟩ := fetchTransaction_some hresult
        rw [hfetchedAs, Transaction.setDefaultSlot] at hsignature
        have hasked := htruthful.2 program item.signature transaction hanswer
        cases hasked.symm.trans hsignature
        refine htruthful.1 _ _ _ _ _ _ hlisted item hitem ?_
        by_contra hfailed
        rw [fetchTransaction, if_pos (Bool.not_eq_false _ ▸ hfailed)] at hresult
        cases hresult
      dsimp only at hreturns
      split at hreturns
      · cases hreturns
        exact hstored
      · split at hreturns
        · cases hreturns
        · exact ih hstored hreturns

theorem recoverGap_belonging {interrupted : Bool} {fuel : Nat}
    (htruthful : (GatewayStep.recover rpc interrupted fuel).Truthful chain)
    {checkpoints : Dict Protocol String} {recovered : RecoveredEvents}
    (hreturns : recoverGap rpc checkpoints fuel = some (.ok recovered)) :
    ∀ event ∈ recovered, ∀ signature, event.2.1.signature = some signature →
      InvokedBy chain event.1 signature := by
  rw [recoverGap] at hreturns
  split at hreturns
  · cases hreturns
  · cases hreturns
  rename_i pumps call hpump
  split at hreturns
  · cases hreturns
  · cases hreturns
  rename_i all last hpumpswap
  cases hreturns
  have hempty : Belonging chain Dict.empty := by
    intro key found hfound
    cases hfound
  have hall : Belonging chain all :=
    recoverPages_belonging htruthful (recoverPages_belonging htruthful hempty hpump) hpumpswap
  intro event hevent
  obtain ⟨found, hfound, rfl⟩ := List.mem_map.mp hevent
  obtain ⟨key, hkey⟩ := Dict.mem_values.mp ((List.mem_insertionSort _).mp hfound)
  exact hall key found hkey

theorem Gateway.Attributed.settle {s : Gateway} (h : s.Attributed chain)
    {recovered : RecoveredEvents}
    (hrecovered : ∀ event ∈ recovered, ∀ signature, event.2.1.signature = some signature →
      InvokedBy chain event.1 signature) : (s.settle recovered).gateway.Attributed chain := by
  have hcommitted : (if recovered = [] then s else s.commitRecoveredEvents recovered).Attributed
      chain := by
    split
    · exact h
    · exact h.commitRecoveredEvents hrecovered
  unfold Gateway.settle
  generalize (if recovered = [] then s else s.commitRecoveredEvents recovered) = t at hcommitted
  dsimp only
  split
  · exact hcommitted
  · exact hcommitted

theorem Gateway.Attributed.recover {s : Gateway} (h : s.Attributed chain) {interrupted : Bool}
    {fuel : Nat} (htruthful : (GatewayStep.recover rpc interrupted fuel).Truthful chain) :
    (s.step (.recover rpc interrupted fuel)).Attributed chain := by
  unfold Gateway.step
  dsimp only
  split
  · rename_i outcome houtcome
    unfold Gateway.recover at houtcome
    split at houtcome
    · cases houtcome
      exact h
    · split at houtcome
      · cases houtcome
      · cases houtcome
        exact h
      · cases houtcome
        exact h
      · rename_i recovered hreturns
        cases houtcome
        cases interrupted with
        | true => cases hreturns
        | false => exact h.settle (recoverGap_belonging htruthful hreturns)
  · exact h

end Recovered

theorem Gateway.Attributed.step {s : Gateway} (h : s.Attributed chain) {event : GatewayStep}
    (htruthful : event.Truthful chain) : (s.step event).Attributed chain := by
  cases event with
  | queue transaction queuedSource => exact h.queueTransaction htruthful
  | recover rpc interrupted fuel => exact h.recover htruthful
  | discard =>
      intro protocol signature hsignature
      cases hsignature
  | take => exact h

/-- A listing that has a signature stops there. -/
theorem newerThan_stops {listed : List SignatureItem} {checkpoint : String}
    (h : checkpoint ∈ listed.map SignatureItem.signature) :
    ∃ item older, item.signature = checkpoint ∧
      listed = newerThan (some checkpoint) listed ++ item :: older := by
  induction listed with
  | nil => cases h
  | cons item listed ih =>
      by_cases hitem : item.signature = checkpoint
      · refine ⟨item, listed, hitem, ?_⟩
        rw [newerThan, List.takeWhile_cons_of_neg (by simp [hitem]), List.nil_append]
      · rw [List.map_cons, List.mem_cons, or_iff_right (Ne.symm hitem)] at h
        obtain ⟨found, older, hfound, hsplit⟩ := ih h
        refine ⟨found, older, hfound, ?_⟩
        rw [newerThan, List.takeWhile_cons_of_pos (by simp [hitem]), List.cons_append]
        exact congrArg (item :: ·) hsplit

/-- In every run whose steps take transactions only for programs that they invoke, every checkpoint
is the signature of a transaction that invoked its program, and a listing of the transactions that
invoked the program stops at the checkpoint. -/
theorem checkpoints_invoked {s : Gateway} (h : s.Attributed chain) {steps : List GatewayStep}
    (hrun : Along (fun _ event => event.Truthful chain) Gateway.step s steps) :
    ∀ protocol checkpoint, (exec Gateway.step s steps).lastSignatures.get? protocol =
        some checkpoint →
      InvokedBy chain protocol checkpoint ∧
        ∀ listed : List SignatureItem, (∀ signature, InvokedBy chain protocol signature →
          signature ∈ listed.map SignatureItem.signature) →
          ∃ item older, item.signature = checkpoint ∧
            listed = newerThan (some checkpoint) listed ++ item :: older := by
  have hattributed : (exec Gateway.step s steps).Attributed chain :=
    Along.invariant (fun _ _ hs htruthful => hs.step htruthful) h hrun
  intro protocol checkpoint hcheckpoint
  have hinvoked := hattributed protocol checkpoint hcheckpoint
  exact ⟨hinvoked, fun listed hlisted => newerThan_stops (hlisted checkpoint hinvoked)⟩

end Chain

/-! ## Two transactions -/

/-- The program is called by the system program. -/
def callOf (own : ProgramId) : Protocols.Transaction :=
  [{ program := systemProgram, body := .invoke own .done {} .done }]

/-- The system program logs the message and does nothing else. -/
def messageOf (message : String) : Protocols.Transaction :=
  [{ program := systemProgram, body := .log message .done }]

def sampleChain : String → Option Protocols.Transaction
  | "call" => some (callOf pumpProgram)
  | "message" => some (messageOf pumpProgram.text)
  | _ => none

def emptyGateway : Gateway where
  lastSlot := 0
  lastSignature := none
  lastSignatures := Dict.empty

theorem executedLogs_callOf (own : ProgramId) :
    executedLogs (callOf own) = [invokeLine systemProgram 1, invokeLine own 2, successLine own,
      successLine systemProgram] := rfl

set_option maxRecDepth 2000 in
theorem call_names_pump (protocol : Protocol) :
    Named protocol (executedLogs (callOf pumpProgram)) ↔ protocol = .pump := by
  rw [named_iff, executedLogs_callOf]
  cases protocol with
  | pump => decide
  | pumpswap => decide

theorem callOf_invokes (own : ProgramId) : Invokes (callOf own) own :=
  ⟨_, List.mem_cons_self, Or.inr (Or.inl rfl)⟩

/-- The notification of a transaction with its whole log. -/
def notified (signature : String) (slot : Nat) (tx : Protocols.Transaction) : LoggedTransaction :=
  ⟨some signature, some slot, executedLogs tx⟩

theorem queueTransaction_only_pump {tx : Protocols.Transaction}
    (hnamed : ∀ protocol, Named protocol (executedLogs tx) ↔ protocol = .pump)
    (signature : String) (slot : Nat) (s : Gateway) (queuedSource : EventSource) :
    (s.queueTransaction (notified signature slot tx) queuedSource).lastSignatures =
      s.lastSignatures.set .pump signature := by
  have hprotocols : transactionProtocols (executedLogs tx) = [.pump] := by
    unfold transactionProtocols
    simp [hnamed]
  unfold Gateway.queueTransaction notified
  dsimp only
  rw [hprotocols]
  rfl

/-- A call is dispatched, and the worker takes it. -/
def callSteps : List GatewayStep :=
  [.queue (notified "call" 5 (callOf pumpProgram)) .heliusWss, .take]

theorem checkpoints_invoked_call :
    (exec Gateway.step emptyGateway callSteps).lastSignatures.get? .pump = some "call" ∧
      InvokedBy sampleChain .pump "call" := by
  have hstart : emptyGateway.Attributed sampleChain := by
    intro protocol signature hsignature
    cases hsignature
  have hcheckpoint : (exec Gateway.step emptyGateway callSteps).lastSignatures.get? .pump =
      some "call" := by
    rw [callSteps, exec_cons, exec_cons, exec_nil, Gateway.step, Gateway.step,
      queueTransaction_only_pump call_names_pump, Dict.get?_set_self]
  have hrun : Along (fun _ event => GatewayStep.Truthful sampleChain event) Gateway.step
      emptyGateway callSteps := by
    refine ⟨fun protocol signature hnamed hsignature => ?_, trivial, trivial⟩
    obtain rfl := (call_names_pump protocol).mp hnamed
    cases hsignature
    exact ⟨callOf pumpProgram, rfl, callOf_invokes pumpProgram⟩
  exact ⟨hcheckpoint, (checkpoints_invoked hstart hrun .pump "call" hcheckpoint).1⟩

set_option maxRecDepth 2000 in
theorem message_names_pump (protocol : Protocol) :
    Named protocol (executedLogs (messageOf pumpProgram.text)) ↔ protocol = .pump := by
  rw [named_iff]
  cases protocol with
  | pump => decide
  | pumpswap => decide

/-- A program that logs the address of PUMP moves the checkpoint of PUMP to a transaction that does
not invoke it. -/
theorem message_moves_checkpoint :
    (exec Gateway.step emptyGateway
        [.queue (notified "message" 6 (messageOf pumpProgram.text)) .heliusWss]).lastSignatures.get?
          .pump = some "message" ∧
      ¬ InvokedBy sampleChain .pump "message" := by
  constructor
  · rw [exec_cons, exec_nil, Gateway.step, queueTransaction_only_pump message_names_pump,
      Dict.get?_set_self]
  rintro ⟨tx, htx, i, hi, hinvoked⟩
  have hmessage : sampleChain "message" = some (messageOf pumpProgram.text) := rfl
  obtain rfl := Option.some.inj (hmessage.symm.trans htx)
  obtain rfl := List.mem_singleton.mp hi
  rcases hinvoked with hsame | hinside
  · exact absurd hsame (by decide)
  · exact hinside

end SniperBot.Stream
