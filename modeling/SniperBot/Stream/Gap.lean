import SniperBot.Features.Registry
import Mathlib.Data.List.ReduceOption
import Mathlib.Data.List.Sort

/-!
# Gap recovery

`_recover_gap`, `_commit_recovered_events` and the part of `_run` that declares a gap resolved
(`stream.py`). After a reconnect the gateway lists the signatures of each program back to the
checkpoint of the protocol, fetches the transactions, and unblocks `stream_recovery_gap`.

The provider is a parameter: `RpcClient` gives the answer of each call, and `RpcClient.Serves`
says what a listing contains. The history may grow while the pages are listed. A page loop has no
bound in the source; here it takes fuel, and `recoverGap_returns` gives an amount that suffices.
The fetches of one page run at the same time, and `gather` raises when one of them does.

The main result is `resolved_gap_complete_iff`; `null_transaction_skipped` is a resolved gap with
a hole.
-/

namespace SniperBot.Stream

open Basis Features

/-! ## The provider -/

/-- An entry of `getSignaturesForAddress`; `failed` says that its `err` is set. -/
structure SignatureItem where
  signature : String
  slot : Nat
  failed : Bool
  deriving DecidableEq, Repr

/-- What is read of a transaction: `_transaction_signature`, unless it is empty, and the slot. -/
structure Transaction where
  signature : Option String
  slot : Option Nat
  deriving DecidableEq, Repr

inductive GapError
  | rpc | paginationDidNotAdvance | timeout
  deriving DecidableEq, Repr

/-- The answers of `SolanaRpcClient`: to the listing calls, which are counted, and to the fetch of
a signature that was listed for a program. -/
structure RpcClient where
  getSignaturesForAddress (call : Nat) (program : Protocol) (checkpoint before : Option String)
    (limit : Nat) : Except GapError (List SignatureItem)
  getTransaction (program : Protocol) (signature : String) : Except GapError (Option Transaction)

/-! ## `_recover_gap` -/

/-- `transaction.setdefault("slot", ...)` -/
def Transaction.setDefaultSlot (transaction : Transaction) (slot : Nat) : Transaction :=
  { transaction with slot := some (transaction.slot.getD slot) }

/-- `fetch_transaction` -/
def fetchTransaction (rpc : RpcClient) (protocol : Protocol) (item : SignatureItem) :
    Except GapError (Option (String × Transaction)) :=
  if item.failed then .ok none
  else if item.signature = "" then .ok none
  else
    (rpc.getTransaction protocol item.signature).map fun transaction =>
      transaction.map fun found => (item.signature, found.setDefaultSlot item.slot)

/-- The dictionary `recovered`; a key names the protocol and the signature. -/
abbrev Recovered := Dict (Protocol × String) (Protocol × Transaction)

/-- The results of one page are stored. -/
def storeFetched (protocol : Protocol) (recovered : Recovered)
    (fetched : List (Option (String × Transaction))) : Recovered :=
  fetched.reduceOption.foldl
    (fun recovered result => recovered.set (protocol, result.1) (protocol, result.2)) recovered

def pageLimit : Nat := 1000

/-- The `while` loop for one program, with the number of the next listing call. -/
def recoverPages (rpc : RpcClient) (protocol : Protocol) (checkpoint : Option String) :
    (fuel call : Nat) → (before : Option String) → Recovered →
      Option (Except GapError (Recovered × Nat))
  | 0, _, _, _ => none
  | fuel + 1, call, before, recovered =>
      match rpc.getSignaturesForAddress call protocol checkpoint before pageLimit with
      | .error e => some (.error e)
      | .ok signatures =>
        match signatures.mapM (fetchTransaction rpc protocol) with
        | .error e => some (.error e)
        | .ok fetched =>
          let recovered := storeFetched protocol recovered fetched
          if checkpoint = none ∨ signatures.length < pageLimit then
            some (.ok (recovered, call + 1))
          else
            let nextBefore := (signatures.getLast?.map SignatureItem.signature).getD ""
            if nextBefore = "" ∨ some nextBefore = before then
              some (.error .paginationDidNotAdvance)
            else recoverPages rpc protocol checkpoint fuel (call + 1) (some nextBefore) recovered

abbrev RecoveredEvents := List (Protocol × Transaction × EventSource)

/-- The list that `_recover_gap` returns. -/
def orderRecovered (recovered : Recovered) : RecoveredEvents :=
  (recovered.values.insertionSort fun a b => a.2.slot.getD 0 ≤ b.2.slot.getD 0).map
    fun item => (item.1, item.2, .rpcRecovery)

/-- `_recover_gap` -/
def recoverGap (rpc : RpcClient) (lastSignatures : Dict Protocol String) (fuel : Nat) :
    Option (Except GapError RecoveredEvents) :=
  match recoverPages rpc .pump (lastSignatures.get? .pump) fuel 0 none Dict.empty with
  | none => none
  | some (.error e) => some (.error e)
  | some (.ok (recovered, call)) =>
    match recoverPages rpc .pumpswap (lastSignatures.get? .pumpswap) fuel call none recovered with
    | none => none
    | some (.error e) => some (.error e)
    | some (.ok (recovered, _)) => some (.ok (orderRecovered recovered))

/-! ## Resolving a gap -/

/-- The fields of the gateway that a recovery reads and writes; `gapOpen` says that the entry gate
is blocked by `stream_recovery_gap`. -/
structure Gateway where
  lastSlot : Nat
  lastSignature : Option String
  lastSignatures : Dict Protocol String
  dispatchRecoveryPending : Bool := false
  gapOpen : Bool := true
  queue : RecoveredEvents := []

/-- `_commit_recovered_events` -/
def Gateway.commitRecoveredEvents (s : Gateway) (recovered : RecoveredEvents) : Gateway :=
  recovered.foldl (fun s (protocol, transaction, source) =>
    { s with
      lastSlot := max s.lastSlot (transaction.slot.getD 0)
      lastSignature := match transaction.signature with
        | some signature => some signature
        | none => s.lastSignature
      lastSignatures := match transaction.signature with
        | some signature => s.lastSignatures.set protocol signature
        | none => s.lastSignatures
      queue := s.queue ++ [(protocol, transaction, source)] }) s

/-- How a connection gets past its recovery. -/
inductive Recovery
  /-- The gap is declared resolved, after these events. -/
  | resolved (s : Gateway) (recovered : RecoveredEvents)
  /-- Without a checkpoint there is nothing to recover. -/
  | started (s : Gateway)
  /-- The recovery timed out or raised: the connection is given up with the checkpoint kept. -/
  | abandoned (s : Gateway)

/-- The end of a recovery that returned. -/
def Gateway.settle (s : Gateway) (recovered : RecoveredEvents) : Recovery :=
  let s := if recovered = [] then s else s.commitRecoveredEvents recovered
  if s.lastSlot = 0 then .started s
  else .resolved { s with dispatchRecoveryPending := false, gapOpen := false } recovered

/-- `_run` from the subscription to the first message, with a checkpoint that is recent. The
recovery runs while live messages are buffered; `interrupted` says that its deadline passes or the
buffer overflows first. -/
def Gateway.recover (rpc : RpcClient) (s : Gateway) (interrupted : Bool) (fuel : Nat) :
    Option Recovery :=
  if s.lastSlot = 0 then some (.started s)
  else
    match if interrupted then some (.error .timeout) else recoverGap rpc s.lastSignatures fuel with
    | none => none
    | some (.error .timeout) => some (.abandoned { s with gapOpen := true })
    | some (.error _) => some (.abandoned s)
    | some (.ok recovered) => some (s.settle recovered)

/-! ## What the provider serves -/

/-- The entries of a newest-first list that are newer than a checkpoint. -/
def newerThan : Option String → List SignatureItem → List SignatureItem
  | none, items => items
  | some checkpoint, items => items.takeWhile fun item => item.signature ≠ checkpoint

/-- The entries of a newest-first list that are older than a signature. -/
def olderThan : Option String → List SignatureItem → List SignatureItem
  | none, items => items
  | some before, items => (items.dropWhile fun item => item.signature ≠ before).tail

/-- The assumptions on the provider; `history` gives the transactions of a program, newest first,
at the time of each listing call. -/
structure RpcClient.Serves (rpc : RpcClient) (history : Nat → Protocol → List SignatureItem)
    (checkpoints : Dict Protocol String) : Prop where
  lists : ∀ call program checkpoint before limit,
    rpc.getSignaturesForAddress call program checkpoint before limit =
      .ok ((olderThan before (newerThan checkpoint (history call program))).take limit)
  /-- What lands in between is new: it is no checkpoint. -/
  grows : ∀ call program, ∃ landed, history (call + 1) program = landed ++ history call program ∧
    ∀ item ∈ landed, checkpoints.get? program ≠ some item.signature
  distinct : ∀ call program, ((history call program).map SignatureItem.signature).Nodup
  named : ∀ call program, ∀ item ∈ history call program, item.signature ≠ ""
  fetches : ∀ program signature transaction,
    rpc.getTransaction program signature = .ok (some transaction) →
      transaction.signature = some signature

/-- A successful transaction that is newer than the checkpoint of its program when the recovery
begins. -/
def Missed (history : Nat → Protocol → List SignatureItem) (checkpoints : Dict Protocol String)
    (program : Protocol) (item : SignatureItem) : Prop :=
  ∃ checkpoint, checkpoints.get? program = some checkpoint ∧
    item ∈ newerThan (some checkpoint) (history 0 program) ∧ item.failed = false

/-- The result of a recovery has the transaction of a signature. -/
def Contains (recovered : RecoveredEvents) (program : Protocol) (signature : String) : Prop :=
  ∃ transaction, (program, transaction, .rpcRecovery) ∈ recovered ∧
    transaction.signature = some signature

/-! ## Lists of signatures -/

section Lists

variable {items landed : List SignatureItem}

theorem newerThan_subset (checkpoint : Option String) (items : List SignatureItem) :
    (newerThan checkpoint items).Sublist items := by
  cases checkpoint with
  | none => exact List.Sublist.refl _
  | some checkpoint => exact List.takeWhile_sublist _

/-- What lands in front of a history is newer than the checkpoint. -/
theorem newerThan_landed {checkpoint : String}
    (hlanded : ∀ item ∈ landed, item.signature ≠ checkpoint) (items : List SignatureItem) :
    newerThan (some checkpoint) (landed ++ items) =
      landed ++ newerThan (some checkpoint) items :=
  List.takeWhile_append_of_pos fun item hitem => decide_eq_true (hlanded item hitem)

theorem olderThan_split {newer older : List SignatureItem} {item : SignatureItem}
    (hdistinct : ((newer ++ item :: older).map SignatureItem.signature).Nodup) :
    olderThan (some item.signature) (newer ++ item :: older) = older := by
  have hnewer : ∀ other ∈ newer, decide (other.signature ≠ item.signature) = true := by
    intro other hother
    rw [List.map_append, List.nodup_append] at hdistinct
    exact decide_eq_true
      (hdistinct.2.2 _ (List.mem_map_of_mem hother) _ List.mem_cons_self)
  rw [olderThan, List.dropWhile_append_of_pos hnewer,
    List.dropWhile_cons_of_neg (by simp), List.tail_cons]

end Lists

/-! ## The pages of one program -/

section Pages

variable {rpc : RpcClient} {history : Nat → Protocol → List SignatureItem}
  {checkpoints : Dict Protocol String}

theorem storeFetched_append (protocol : Protocol) (recovered : Recovered)
    (fetched more : List (Option (String × Transaction))) :
    storeFetched protocol recovered (fetched ++ more) =
      storeFetched protocol (storeFetched protocol recovered fetched) more := by
  rw [storeFetched, List.reduceOption_append, List.foldl_append, storeFetched, storeFetched]

/-- After a full page, the next one begins behind its last entry, whatever has landed. -/
theorem next_page (h : rpc.Serves history checkpoints) {program : Protocol} {checkpoint : String}
    (hcheckpoint : checkpoints.get? program = some checkpoint) {call : Nat}
    {init older : List SignatureItem} {item : SignatureItem}
    (hsuffix : init ++ item :: older <:+ newerThan (some checkpoint) (history call program)) :
    olderThan (some item.signature)
        (newerThan (some checkpoint) (history (call + 1) program)) = older ∧
      older <:+ newerThan (some checkpoint) (history (call + 1) program) ∧
      ∀ other ∈ older, some item.signature ≠ some other.signature := by
  obtain ⟨landed, hgrown, hlanded⟩ := h.grows call program
  obtain ⟨newest, hnewest⟩ := hsuffix
  have hnewer : newerThan (some checkpoint) (history (call + 1) program) =
      (landed ++ newest ++ init) ++ item :: older := by
    rw [hgrown, newerThan_landed fun other hother hsame =>
      hlanded other hother (hsame ▸ hcheckpoint), ← hnewest]
    simp only [List.append_assoc]
  have hdistinct : (((landed ++ newest ++ init) ++ item :: older).map
      SignatureItem.signature).Nodup := by
    rw [← hnewer]
    exact (h.distinct (call + 1) program).sublist ((newerThan_subset _ _).map _)
  refine ⟨?_, ?_, ?_⟩
  · rw [hnewer, olderThan_split hdistinct]
  · rw [hnewer, ← List.singleton_append, ← List.append_assoc]
    exact List.suffix_append _ _
  · intro other hother hsame
    rw [List.map_append, List.nodup_append, List.map_cons, List.nodup_cons] at hdistinct
    exact hdistinct.2.1.1 (Option.some.inj hsame ▸ List.mem_map_of_mem hother)

/-- The loop reads what is left of the newer transactions, page by page, as if it were one page. -/
theorem recoverPages_eq (h : rpc.Serves history checkpoints) {program : Protocol}
    {checkpoint : String} (hcheckpoint : checkpoints.get? program = some checkpoint)
    (fuel : Nat) {call : Nat} (before : Option String) {rest : List SignatureItem}
    (recovered : Recovered)
    (hrest : olderThan before (newerThan (some checkpoint) (history call program)) = rest)
    (hsuffix : rest <:+ newerThan (some checkpoint) (history call program))
    (hbefore : ∀ item ∈ rest, before ≠ some item.signature) :
    (recoverPages rpc program (some checkpoint) fuel call before recovered = none ∧
        fuel * pageLimit ≤ rest.length) ∨
      ∃ last, call < last ∧
        recoverPages rpc program (some checkpoint) fuel call before recovered =
          some ((rest.mapM (fetchTransaction rpc program)).map fun fetched =>
            (storeFetched program recovered fetched, last)) := by
  induction fuel generalizing call before rest recovered with
  | zero => exact Or.inl ⟨rfl, by rw [Nat.zero_mul]; exact Nat.zero_le _⟩
  | succ fuel ih =>
      have hpage : rpc.getSignaturesForAddress call program (some checkpoint) before pageLimit =
          .ok (rest.take pageLimit) := by
        rw [h.lists, hrest]
      rw [recoverPages, hpage]
      dsimp only
      by_cases hlast : rest.length < pageLimit
      · refine Or.inr ⟨call + 1, Nat.lt_succ_self _, ?_⟩
        rw [List.take_of_length_le hlast.le]
        cases rest.mapM (fetchTransaction rpc program) with
        | error e => rfl
        | ok fetched => exact if_pos (Or.inr hlast)
      · obtain ⟨init, item, hinit⟩ : ∃ init item, rest.take pageLimit = init ++ [item] := by
          rcases List.eq_nil_or_concat (rest.take pageLimit) with hnil | ⟨init, item, hconcat⟩
          · have hlength := congrArg List.length hnil
            rw [List.length_take_of_le (not_lt.mp hlast)] at hlength
            cases hlength
          · exact ⟨init, item, hconcat.trans List.concat_eq_append⟩
        have hsplit : rest = init ++ item :: rest.drop pageLimit := by
          conv_lhs => rw [← List.take_append_drop pageLimit rest, hinit, List.append_assoc]
          rfl
        have hitem : item ∈ rest := by
          rw [hsplit]
          exact List.mem_append_right _ List.mem_cons_self
        have hnamed : item.signature ≠ "" :=
          h.named call program item ((newerThan_subset _ _).subset (hsuffix.subset hitem))
        obtain ⟨hrest', hsuffix', hbefore'⟩ := next_page h hcheckpoint (hsplit ▸ hsuffix)
        have hmap : rest.mapM (fetchTransaction rpc program) =
            (rest.take pageLimit).mapM (fetchTransaction rpc program) >>= fun fetched =>
              (rest.drop pageLimit).mapM (fetchTransaction rpc program) >>= fun more =>
                pure (fetched ++ more) := by
          conv_lhs => rw [← List.take_append_drop pageLimit rest, List.mapM_append]
        rw [hmap]
        cases (rest.take pageLimit).mapM (fetchTransaction rpc program) with
        | error e => exact Or.inr ⟨call + 1, Nat.lt_succ_self _, rfl⟩
        | ok fetched =>
            have hfull : ¬ (some checkpoint = none ∨
                (rest.take pageLimit).length < pageLimit) := by
              rw [List.length_take_of_le (not_lt.mp hlast)]
              exact not_or.mpr ⟨nofun, lt_irrefl _⟩
            have hnext : ((rest.take pageLimit).getLast?.map SignatureItem.signature).getD "" =
                item.signature := by
              rw [hinit, List.getLast?_concat]
              rfl
            have hnew : ¬ (item.signature = "" ∨ some item.signature = before) :=
              not_or.mpr ⟨hnamed, fun hsame => hbefore item hitem hsame.symm⟩
            dsimp only
            rw [if_neg hfull, hnext, if_neg hnew]
            rcases ih _ (storeFetched program recovered fetched) hrest' hsuffix' hbefore' with
              ⟨hnone, hfuel⟩ | ⟨last, hcalls, hsome⟩
            · refine Or.inl ⟨hnone, ?_⟩
              rw [List.length_drop] at hfuel
              rw [Nat.succ_mul]
              omega
            · refine Or.inr ⟨last, (Nat.lt_succ_self _).trans hcalls, ?_⟩
              rw [hsome]
              cases (rest.drop pageLimit).mapM (fetchTransaction rpc program) with
              | error e => rfl
              | ok more => exact congrArg some (congrArg Except.ok
                  (Prod.ext (storeFetched_append program recovered fetched more).symm rfl))

/-- More fuel changes nothing. -/
theorem recoverPages_mono {program : Protocol} {checkpoint : Option String}
    {fuel more call : Nat} {before : Option String} {recovered : Recovered}
    (hmore : fuel ≤ more)
    (hreturns : recoverPages rpc program checkpoint fuel call before recovered ≠ none) :
    recoverPages rpc program checkpoint more call before recovered =
      recoverPages rpc program checkpoint fuel call before recovered := by
  induction fuel generalizing more call before recovered with
  | zero => exact absurd rfl hreturns
  | succ fuel ih =>
      obtain ⟨more, rfl⟩ := Nat.exists_eq_add_of_le' ((Nat.succ_pos fuel).trans_le hmore)
      rw [recoverPages] at hreturns ⊢
      rw [recoverPages]
      split at hreturns
      · rfl
      · split at hreturns
        · rfl
        · dsimp only at hreturns ⊢
          split at hreturns
          · rename_i hlast
            rw [if_pos hlast, if_pos hlast]
          · rename_i hfull
            rw [if_neg hfull, if_neg hfull]
            split at hreturns
            · rename_i hstuck
              rw [if_pos hstuck, if_pos hstuck]
            · rename_i hnext
              rw [if_neg hnext, if_neg hnext]
              exact ih (Nat.le_of_succ_le_succ hmore) hreturns

theorem missed_listed (h : rpc.Serves history checkpoints) {program : Protocol}
    {checkpoint : String} (hcheckpoint : checkpoints.get? program = some checkpoint) (call : Nat) :
    ∃ landed, newerThan (some checkpoint) (history call program) =
      landed ++ newerThan (some checkpoint) (history 0 program) := by
  induction call with
  | zero => exact ⟨[], rfl⟩
  | succ call ih =>
      obtain ⟨landed, hlanded⟩ := ih
      obtain ⟨newest, hgrown, hnew⟩ := h.grows call program
      refine ⟨newest ++ landed, ?_⟩
      rw [hgrown, newerThan_landed fun item hitem hsame =>
        hnew item hitem (hsame ▸ hcheckpoint), hlanded, List.append_assoc]

/-- What the loop for one program reads, when its first listing call is `call`. Without a
checkpoint it reads one page. -/
def listing (history : Nat → Protocol → List SignatureItem) (checkpoints : Dict Protocol String)
    (call : Nat) (program : Protocol) : List SignatureItem :=
  match checkpoints.get? program with
  | none => (history call program).take pageLimit
  | some checkpoint => newerThan (some checkpoint) (history call program)

theorem listing_sublist (history : Nat → Protocol → List SignatureItem)
    (checkpoints : Dict Protocol String) (call : Nat) (program : Protocol) :
    (listing history checkpoints call program).Sublist (history call program) := by
  unfold listing
  split
  · exact List.take_sublist _ _
  · exact newerThan_subset _ _

theorem recoverPages_listing (h : rpc.Serves history checkpoints) (program : Protocol)
    (call : Nat) (recovered : Recovered) (fuel : Nat) :
    (recoverPages rpc program (checkpoints.get? program) fuel call none recovered = none ∧
        fuel * pageLimit ≤ (listing history checkpoints call program).length) ∨
      ∃ last, recoverPages rpc program (checkpoints.get? program) fuel call none recovered =
        some (((listing history checkpoints call program).mapM (fetchTransaction rpc program)).map
          fun fetched => (storeFetched program recovered fetched, last)) := by
  unfold listing
  cases hcheckpoint : checkpoints.get? program with
  | none =>
      cases fuel with
      | zero => exact Or.inl ⟨rfl, by rw [Nat.zero_mul]; exact Nat.zero_le _⟩
      | succ fuel =>
          refine Or.inr ⟨call + 1, ?_⟩
          rw [recoverPages, h.lists]
          simp only [olderThan, newerThan, true_or, if_true]
          cases ((history call program).take pageLimit).mapM (fetchTransaction rpc program) <;> rfl
  | some checkpoint =>
      rcases recoverPages_eq h hcheckpoint fuel none recovered rfl
        (List.suffix_refl _) nofun with hnone | ⟨last, -, hsome⟩
      · exact Or.inl hnone
      · exact Or.inr ⟨last, hsome⟩

/-- What the loop for one program reads: a list of distinct signatures in which nothing is
missed. -/
theorem recoverPages_cases (h : rpc.Serves history checkpoints) (program : Protocol)
    (call : Nat) (recovered : Recovered) :
    ∃ listed : List SignatureItem,
      (listed.map SignatureItem.signature).Nodup ∧ (∀ item ∈ listed, item.signature ≠ "") ∧
      (∀ item, Missed history checkpoints program item → item ∈ listed) ∧
      ∀ fuel,
        (recoverPages rpc program (checkpoints.get? program) fuel call none recovered = none ∧
          fuel * pageLimit ≤ listed.length) ∨
        ∃ last, recoverPages rpc program (checkpoints.get? program) fuel call none recovered =
          some ((listed.mapM (fetchTransaction rpc program)).map fun fetched =>
            (storeFetched program recovered fetched, last)) := by
  have hsub := listing_sublist history checkpoints call program
  refine ⟨listing history checkpoints call program,
    (h.distinct call program).sublist (hsub.map _),
    fun item hitem => h.named call program item (hsub.subset hitem), ?_,
    recoverPages_listing h program call recovered⟩
  rintro item ⟨checkpoint, hcheckpoint, hnewer, -⟩
  obtain ⟨landed, hlanded⟩ := missed_listed h hcheckpoint call
  unfold listing
  rw [hcheckpoint]
  dsimp only
  rw [hlanded]
  exact List.mem_append_right _ hnewer

end Pages

/-! ## What is stored -/

section Stored

/-- Every transaction is stored under its program and its signature. -/
def Labelled (recovered : Recovered) : Prop :=
  ∀ key found, recovered.get? key = some found →
    found.1 = key.1 ∧ found.2.signature = some key.2

theorem storeFetched_cons (protocol : Protocol) (recovered : Recovered)
    (result : Option (String × Transaction)) (fetched : List (Option (String × Transaction))) :
    storeFetched protocol recovered (result :: fetched) =
      storeFetched protocol
        (match result with
          | none => recovered
          | some found => recovered.set (protocol, found.1) (protocol, found.2)) fetched := by
  cases result <;> rfl

theorem Labelled.storeFetched {recovered : Recovered} (h : Labelled recovered)
    (protocol : Protocol) {fetched : List (Option (String × Transaction))}
    (hfetched : ∀ found, some found ∈ fetched → found.2.signature = some found.1) :
    Labelled (storeFetched protocol recovered fetched) := by
  induction fetched generalizing recovered with
  | nil => exact h
  | cons result fetched ih =>
      rw [storeFetched_cons]
      refine ih ?_ fun found hfound => hfetched found (List.mem_cons_of_mem _ hfound)
      cases result with
      | none => exact h
      | some found =>
          intro key stored hstored
          rw [Dict.get?_set] at hstored
          split at hstored
          · rename_i hkey
            cases hstored
            rw [← hkey]
            exact ⟨rfl, hfetched found List.mem_cons_self⟩
          · exact h key stored hstored

theorem stored_iff (protocol : Protocol) (recovered : Recovered)
    (fetched : List (Option (String × Transaction))) (key : Protocol × String) :
    (∃ found, (storeFetched protocol recovered fetched).get? key = some found) ↔
      (∃ found, recovered.get? key = some found) ∨
        key.1 = protocol ∧ ∃ transaction, some (key.2, transaction) ∈ fetched := by
  induction fetched generalizing recovered with
  | nil => simp [storeFetched]
  | cons result fetched ih =>
      rw [storeFetched_cons, ih]
      cases result with
      | none => simp
      | some found =>
          have hset : (∃ stored, (recovered.set (protocol, found.1) (protocol, found.2)).get? key =
              some stored) ↔ (∃ stored, recovered.get? key = some stored) ∨
                key = (protocol, found.1) := by
            rw [Dict.get?_set]
            split
            · rename_i hkey
              exact ⟨fun _ => Or.inr hkey.symm, fun _ => ⟨_, rfl⟩⟩
            · rename_i hkey
              exact ⟨Or.inl, fun hor => hor.resolve_right fun hsame => hkey hsame.symm⟩
          have hcons : (∃ transaction, some (key.2, transaction) ∈ some found :: fetched) ↔
              key.2 = found.1 ∨ ∃ transaction, some (key.2, transaction) ∈ fetched := by
            constructor
            · rintro ⟨transaction, hmem⟩
              rcases List.mem_cons.mp hmem with hhead | htail
              · exact Or.inl (congrArg Prod.fst (Option.some.inj hhead))
              · exact Or.inr ⟨transaction, htail⟩
            · rintro (hsame | ⟨transaction, htail⟩)
              · exact ⟨found.2, by rw [hsame]; exact List.mem_cons_self⟩
              · exact ⟨transaction, List.mem_cons_of_mem _ htail⟩
          rw [hset, hcons, or_assoc, Prod.ext_iff, and_or_left]

/-- The results are those of the entries, none of which has raised. -/
theorem fetched_spec {rpc : RpcClient} {protocol : Protocol} {listed : List SignatureItem}
    {fetched : List (Option (String × Transaction))}
    (h : listed.mapM (fetchTransaction rpc protocol) = .ok fetched) :
    (∀ result, result ∈ fetched ↔
      ∃ item ∈ listed, fetchTransaction rpc protocol item = .ok result) ∧
    ∀ item ∈ listed, ∃ result, fetchTransaction rpc protocol item = .ok result := by
  induction listed generalizing fetched with
  | nil =>
      cases h
      simp
  | cons item listed ih =>
      rw [List.mapM_cons] at h
      cases hitem : fetchTransaction rpc protocol item with
      | error e =>
          rw [hitem] at h
          cases h
      | ok first =>
          rw [hitem] at h
          cases hrest : listed.mapM (fetchTransaction rpc protocol) with
          | error e =>
              rw [hrest] at h
              cases h
          | ok rest =>
              rw [hrest] at h
              cases h
              obtain ⟨hresults, hok⟩ := ih hrest
              refine ⟨fun result => ?_, List.forall_mem_cons.mpr ⟨⟨first, hitem⟩, hok⟩⟩
              rw [List.mem_cons, List.exists_mem_cons_iff, hresults, hitem, Except.ok.injEq,
                eq_comm]

/-- What a fetch that finds something returns. -/
theorem fetchTransaction_some {rpc : RpcClient} {protocol : Protocol} {item : SignatureItem}
    {found : String × Transaction}
    (h : fetchTransaction rpc protocol item = .ok (some found)) :
    found.1 = item.signature ∧ ∃ transaction,
      rpc.getTransaction protocol item.signature = .ok (some transaction) ∧
        found.2 = transaction.setDefaultSlot item.slot := by
  rw [fetchTransaction] at h
  split at h
  · cases h
  · split at h
    · cases h
    · cases hanswer : rpc.getTransaction protocol item.signature with
      | error e =>
          rw [hanswer] at h
          cases h
      | ok answer =>
          rw [hanswer] at h
          cases answer with
          | none => cases h
          | some transaction =>
              cases h
              exact ⟨rfl, transaction, rfl, rfl⟩

/-- A successful listed transaction is stored unless its fetch returned nothing. -/
theorem fetched_iff {rpc : RpcClient} {protocol : Protocol} {listed : List SignatureItem}
    {fetched : List (Option (String × Transaction))}
    (hdistinct : (listed.map SignatureItem.signature).Nodup)
    (hfetched : listed.mapM (fetchTransaction rpc protocol) = .ok fetched) {item : SignatureItem}
    (hitem : item ∈ listed) (hnamed : item.signature ≠ "") (hok : item.failed = false) :
    (∃ transaction, some (item.signature, transaction) ∈ fetched) ↔
      rpc.getTransaction protocol item.signature ≠ .ok none := by
  obtain ⟨hresults, hall⟩ := fetched_spec hfetched
  have hfetch : fetchTransaction rpc protocol item =
      (rpc.getTransaction protocol item.signature).map fun transaction =>
        transaction.map fun found => (item.signature, found.setDefaultSlot item.slot) := by
    rw [fetchTransaction, hok, if_neg Bool.false_ne_true, if_neg hnamed]
  constructor
  · rintro ⟨transaction, hmem⟩ hnone
    obtain ⟨other, hother, hresult⟩ := (hresults _).mp hmem
    have hsame : other = item := List.inj_on_of_nodup_map hdistinct hother hitem
      (fetchTransaction_some hresult).1.symm
    rw [hsame, hfetch, hnone] at hresult
    cases hresult
  · intro hanswer
    obtain ⟨result, hresult⟩ := hall item hitem
    cases hgot : rpc.getTransaction protocol item.signature with
    | error e =>
        rw [hfetch, hgot] at hresult
        cases hresult
    | ok answer =>
        cases answer with
        | none => exact absurd hgot hanswer
        | some transaction =>
            refine ⟨transaction.setDefaultSlot item.slot,
              (hresults _).mpr ⟨item, hitem, ?_⟩⟩
            rw [hfetch, hgot]
            rfl

theorem Labelled.empty : Labelled Dict.empty := by
  intro key found hfound
  rw [Dict.get?_empty] at hfound
  cases hfound

theorem contains_iff {recovered : Recovered} (h : Labelled recovered) (program : Protocol)
    (signature : String) :
    Contains (orderRecovered recovered) program signature ↔
      ∃ found, recovered.get? (program, signature) = some found := by
  constructor
  · rintro ⟨transaction, hmem, hsignature⟩
    obtain ⟨found, hfound, hitem⟩ := List.mem_map.mp hmem
    obtain ⟨key, hkey⟩ := Dict.mem_values.mp ((List.mem_insertionSort _).mp hfound)
    obtain ⟨hprogram, hlabel⟩ := h key found hkey
    refine ⟨found, ?_⟩
    cases hitem
    rw [hsignature] at hlabel
    rw [hprogram, Option.some.inj hlabel]
    exact hkey
  · rintro ⟨found, hfound⟩
    obtain ⟨hprogram, hlabel⟩ := h _ found hfound
    refine ⟨found.2, List.mem_map.mpr ⟨found, ?_, ?_⟩, hlabel⟩
    · exact (List.mem_insertionSort _).mpr (Dict.mem_values.mpr ⟨_, hfound⟩)
    · exact Prod.ext hprogram rfl

end Stored

/-! ## The recovery -/

section Recover

variable {rpc : RpcClient} {history : Nat → Protocol → List SignatureItem}
  {checkpoints : Dict Protocol String}

/-- What a loop that returns has stored for its program. -/
theorem recoverPages_stored (h : rpc.Serves history checkpoints) {program : Protocol}
    {fuel call last : Nat} {recovered after : Recovered} (hlabelled : Labelled recovered)
    (hnew : ∀ signature, recovered.get? (program, signature) = none)
    (hreturns : recoverPages rpc program (checkpoints.get? program) fuel call none recovered =
      some (.ok (after, last))) :
    Labelled after ∧
      (∀ other signature, other ≠ program →
        ((∃ found, after.get? (other, signature) = some found) ↔
          ∃ found, recovered.get? (other, signature) = some found)) ∧
      ∀ item, Missed history checkpoints program item →
        ((∃ found, after.get? (program, item.signature) = some found) ↔
          rpc.getTransaction program item.signature ≠ .ok none) := by
  obtain ⟨listed, hdistinct, hnamed, hmissed, hcases⟩ :=
    recoverPages_cases h program call recovered
  rcases hcases fuel with ⟨hnone, -⟩ | ⟨last', hsome⟩
  · rw [hnone] at hreturns
    cases hreturns
  rw [hsome] at hreturns
  cases hfetched : listed.mapM (fetchTransaction rpc program) with
  | error e =>
      rw [hfetched] at hreturns
      cases hreturns
  | ok fetched =>
      rw [hfetched] at hreturns
      cases hreturns
      refine ⟨hlabelled.storeFetched program fun found hfound => ?_, fun other signature hother => ?_,
        fun item hitem => ?_⟩
      · obtain ⟨item, -, hresult⟩ := ((fetched_spec hfetched).1 _).mp hfound
        obtain ⟨hsame, transaction, hanswer, hfound'⟩ := fetchTransaction_some hresult
        rw [hfound', hsame]
        exact h.fetches program item.signature transaction hanswer
      · rw [stored_iff]
        exact or_iff_left fun hboth => hother hboth.1
      · have hlisted := hmissed item hitem
        obtain ⟨-, -, -, hok⟩ := hitem
        rw [stored_iff, hnew]
        simp only [reduceCtorEq, exists_false, false_or, true_and]
        exact fetched_iff hdistinct hfetched hlisted (hnamed item hlisted) hok

/-- The loop for one program ends. -/
theorem recoverPages_returns (h : rpc.Serves history checkpoints) (program : Protocol) (call : Nat)
    (recovered : Recovered) :
    ∃ enough outcome, ∀ fuel ≥ enough,
      recoverPages rpc program (checkpoints.get? program) fuel call none recovered =
        some outcome := by
  obtain ⟨listed, -, -, -, hcases⟩ := recoverPages_cases h program call recovered
  rcases hcases (listed.length + 1) with ⟨-, hfuel⟩ | ⟨last, hsome⟩
  · rw [pageLimit] at hfuel
    omega
  · have hreturns := hsome ▸ Option.some_ne_none _
    exact ⟨listed.length + 1, _, fun fuel hfuel => (recoverPages_mono hfuel hreturns).trans hsome⟩

theorem recoverGap_returns (h : rpc.Serves history checkpoints) :
    ∃ enough, ∀ fuel ≥ enough, recoverGap rpc checkpoints fuel ≠ none := by
  obtain ⟨enough, outcome, hpump⟩ := recoverPages_returns h .pump 0 Dict.empty
  cases outcome with
  | error e =>
      refine ⟨enough, fun fuel hfuel => ?_⟩
      rw [recoverGap, hpump fuel hfuel]
      exact Option.some_ne_none _
  | ok result =>
      obtain ⟨enough', outcome', hpumpswap⟩ := recoverPages_returns h .pumpswap result.2 result.1
      refine ⟨max enough enough', fun fuel hfuel => ?_⟩
      rw [recoverGap, hpump fuel ((le_max_left _ _).trans hfuel)]
      dsimp only
      rw [hpumpswap fuel ((le_max_right _ _).trans hfuel)]
      cases outcome' <;> exact Option.some_ne_none _

/-- What a recovery that returns contains. -/
theorem recoverGap_contains (h : rpc.Serves history checkpoints) {fuel : Nat}
    {recovered : RecoveredEvents} (hreturns : recoverGap rpc checkpoints fuel = some (.ok recovered))
    {program : Protocol} {item : SignatureItem} (hitem : Missed history checkpoints program item) :
    Contains recovered program item.signature ↔
      rpc.getTransaction program item.signature ≠ .ok none := by
  rw [recoverGap] at hreturns
  split at hreturns
  · cases hreturns
  · cases hreturns
  rename_i pumps call hpump
  split at hreturns
  · cases hreturns
  · cases hreturns
  rename_i all last hpumpswap
  cases hreturns
  obtain ⟨hlabelled, hothers, hpumps⟩ :=
    recoverPages_stored h Labelled.empty (fun _ => rfl) hpump
  have hfresh : ∀ signature, pumps.get? (.pumpswap, signature) = none := by
    intro signature
    have hnone : ¬ ∃ found, pumps.get? (.pumpswap, signature) = some found := by
      rw [hothers .pumpswap signature (by decide)]
      simp
    exact Option.eq_none_iff_forall_ne_some.mpr fun found hfound => hnone ⟨found, hfound⟩
  obtain ⟨hlabelled', hothers', hpumpswaps⟩ := recoverPages_stored h hlabelled hfresh hpumpswap
  rw [contains_iff hlabelled']
  cases program with
  | pump => rw [hothers' .pump _ (by decide), hpumps item hitem]
  | pumpswap => exact hpumpswaps item hitem

theorem settle_resolved {s t : Gateway} {found recovered : RecoveredEvents}
    (h : s.settle found = .resolved t recovered) : found = recovered := by
  unfold Gateway.settle at h
  dsimp only at h
  generalize (if found = [] then s else s.commitRecoveredEvents found) = next at h
  split at h
  · cases h
  · cases h
    rfl

/-- A recovery comes to an end, and a gap that is declared resolved has every missed transaction
exactly when no fetch of one returned nothing. -/
theorem resolved_gap_complete_iff {s : Gateway} (h : rpc.Serves history s.lastSignatures)
    (interrupted : Bool) :
    (∃ enough, ∀ fuel ≥ enough, s.recover rpc interrupted fuel ≠ none) ∧
      ∀ fuel t recovered, s.recover rpc interrupted fuel = some (.resolved t recovered) →
        ((∀ program item, Missed history s.lastSignatures program item →
            Contains recovered program item.signature) ↔
          ∀ program item, Missed history s.lastSignatures program item →
            rpc.getTransaction program item.signature ≠ .ok none) := by
  constructor
  · obtain ⟨enough, henough⟩ := recoverGap_returns h
    refine ⟨enough, fun fuel hfuel => ?_⟩
    rw [Gateway.recover]
    split
    · exact Option.some_ne_none _
    · split
      · rename_i hnone
        split at hnone
        · cases hnone
        · exact absurd hnone (henough fuel hfuel)
      all_goals exact Option.some_ne_none _
  · intro fuel t recovered hresolved
    have hreturns : recoverGap rpc s.lastSignatures fuel = some (.ok recovered) := by
      rw [Gateway.recover] at hresolved
      split at hresolved
      · cases hresolved
      · split at hresolved
        · cases hresolved
        · cases hresolved
        · cases hresolved
        · rename_i found hfound
          cases interrupted with
          | true => cases hfound
          | false =>
              rw [← settle_resolved (Option.some.inj hresolved)]
              exact hfound
    exact forall₂_congr fun program item => forall_congr' fun hitem =>
      recoverGap_contains h hreturns hitem

end Recover

/-! ## A hole -/

/-- A provider that serves a fixed history, and nothing for some of the signatures. -/
def staticRpc (history : Protocol → List SignatureItem) (unavailable : List String) : RpcClient where
  getSignaturesForAddress _ program checkpoint before limit :=
    .ok ((olderThan before (newerThan checkpoint (history program))).take limit)
  getTransaction _ signature :=
    .ok (if signature ∈ unavailable then none else some ⟨some signature, none⟩)

theorem staticRpc_serves {history : Protocol → List SignatureItem} (unavailable : List String)
    (checkpoints : Dict Protocol String)
    (hdistinct : ∀ program, ((history program).map SignatureItem.signature).Nodup)
    (hnamed : ∀ program, ∀ item ∈ history program, item.signature ≠ "") :
    (staticRpc history unavailable).Serves (fun _ => history) checkpoints where
  lists _ _ _ _ _ := rfl
  grows _ _ := ⟨[], rfl, nofun⟩
  distinct _ := hdistinct
  named _ := hnamed
  fetches program signature transaction h := by
    simp only [staticRpc, Except.ok.injEq] at h
    split at h
    · cases h
    · cases h
      rfl

/-- Two transactions of the first program are newer than the checkpoint `"a"`. -/
def sampleHistory : Protocol → List SignatureItem
  | .pump => [⟨"c", 3, false⟩, ⟨"b", 2, false⟩, ⟨"a", 1, false⟩]
  | .pumpswap => []

def sampleGateway : Gateway where
  lastSlot := 1
  lastSignature := some "a"
  lastSignatures := Dict.empty.set .pump "a"

theorem sampleHistory_serves (unavailable : List String) :
    (staticRpc sampleHistory unavailable).Serves (fun _ => sampleHistory)
      sampleGateway.lastSignatures := by
  refine staticRpc_serves unavailable _ ?_ ?_
  · rintro (_ | _) <;> decide
  · rintro (_ | _) <;> decide

theorem resolved_gap_complete_iff_sample :
    ∃ t recovered,
      sampleGateway.recover (staticRpc sampleHistory []) false 1 = some (.resolved t recovered) ∧
        ∀ program item, Missed (fun _ => sampleHistory) sampleGateway.lastSignatures program item →
          Contains recovered program item.signature := by
  refine ⟨_, _, rfl, ?_⟩
  refine ((resolved_gap_complete_iff (sampleHistory_serves []) false).2 1 _ _ rfl).mpr ?_
  intro program item _ hnone
  cases hnone

/-- The fetch of `"b"` returns nothing: the gap is declared resolved without it, and the checkpoint
has moved past it. -/
theorem null_transaction_skipped :
    (staticRpc sampleHistory ["b"]).Serves (fun _ => sampleHistory) sampleGateway.lastSignatures ∧
      Missed (fun _ => sampleHistory) sampleGateway.lastSignatures .pump ⟨"b", 2, false⟩ ∧
      ∃ t recovered,
        sampleGateway.recover (staticRpc sampleHistory ["b"]) false 1 =
            some (.resolved t recovered) ∧
          t.gapOpen = false ∧ t.lastSignatures.get? .pump = some "c" ∧
          ¬ Contains recovered .pump "b" := by
  refine ⟨sampleHistory_serves ["b"], ⟨"a", rfl, by decide, rfl⟩, _, _, rfl, rfl, rfl, ?_⟩
  rintro ⟨transaction, hmem, hsignature⟩
  cases List.mem_singleton.mp hmem
  exact absurd hsignature (by decide)

end SniperBot.Stream
