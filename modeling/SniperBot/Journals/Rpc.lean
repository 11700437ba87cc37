import SniperBot.Journals.Quotes

/-!
# RPC calls and their journal

`SolanaRpcClient._call` (`solana_rpc.py`) and `ExternalJournal` (`external_journal.py`). A call is
answered by the next record of its key in the journal, else by the server, with retries; a result
is recorded, an error is not. The rows that `_record_call` writes for telemetry are left out.

The type `R` holds JSON values other than `null`, so that a result is an `Option R`; `P` holds the
parameters of a call.
-/

namespace SniperBot.Journals

open Basis

/-! ## The journal -/

/-- A record of the external journal. -/
structure ExternalRecord (R : Type) where
  key : String
  observedAt : String
  response : Option R

/-- The fields that the constructor and `_call` look at: `key` is there if it is a string. -/
structure ExternalLine (R : Type) where
  key : Option String
  observedAt : String
  response : Option R

/-- What the libraries do. -/
structure RpcFormats (R P L : Type) where
  /-- `hashlib.sha256(text.encode("utf-8")).hexdigest()` -/
  sha256 : String → String
  /-- `json.dumps` of the provider, the operation and the request, by `ExternalJournal.key` -/
  dumps : String → String → P → String
  /-- The line that `record` writes. -/
  print : ExternalRecord R → L
  /-- A line as the constructor sees it. -/
  parse : L → Line (ExternalLine R)
  parse_print : ∀ record, parse (print record) = .object
    { key := some record.key, observedAt := record.observedAt, response := record.response }
  /-- `t.isoformat()` -/
  isoformat : Time → String

variable {R P L : Type}

/-- What the constructor does with a line. -/
def RpcFormats.readLine (formats : RpcFormats R P L) (line : L) :
    Option (Option (String × ExternalRecord R)) :=
  match formats.parse line with
  | .blank => some none
  | .undecodable => some none
  | .notObject => none
  | .object fields =>
      match fields.key with
      | some key => some (some (key, ⟨key, fields.observedAt, fields.response⟩))
      | none => some none

/-- `ExternalJournal` -/
abbrev ExternalJournal (formats : RpcFormats R P L) := Journal formats.readLine

theorem RpcFormats.readLine_print (formats : RpcFormats R P L) (record : ExternalRecord R) :
    formats.readLine (formats.print record) = some (some (record.key, record)) := by
  simp only [readLine, formats.parse_print]

/-- `ExternalJournal.key` -/
def RpcFormats.key (formats : RpcFormats R P L) (provider operation : String) (request : P) :
    String :=
  formats.sha256 (formats.dumps provider operation request)

/-- `get` -/
def ExternalJournal.get {formats : RpcFormats R P L} (journal : ExternalJournal formats)
    (key : String) : Option (ExternalRecord R) × ExternalJournal formats :=
  Journal.get journal key

/-- `record` -/
def ExternalJournal.record {formats : RpcFormats R P L} (journal : ExternalJournal formats)
    (key : String) (response : Option R) (observedAt : Time) : ExternalJournal formats :=
  let record : ExternalRecord R := ⟨key, formats.isoformat observedAt, response⟩
  Journal.record journal key record (formats.print record) (formats.readLine_print record)

/-! ## Calls -/

/-- `_READ_METHODS` -/
def readMethods : List String :=
  ["getAccountInfo", "getBlockTime", "getMultipleAccounts", "getSignaturesForAddress", "getSlot",
    "getTokenAccounts", "getTokenLargestAccounts", "getTokenAccountsByOwner", "getTransaction"]

/-- The code of an RPC error. -/
inductive RpcCode
  | int (n : Int)
  | text (s : String)
  deriving DecidableEq, Repr

def RpcCode.toText : RpcCode → String
  | .int n => toString n
  | .text s => s

inductive RpcError
  /-- `SolanaRpcError` -/
  | solana (message : String) (code : Option RpcCode)
  | other (message : String)
  deriving DecidableEq, Repr

/-- The body of a response. -/
inductive RpcPayload (R : Type)
  /-- `response.json()` raises, or the payload has no fields. -/
  | raised (message : String)
  /-- The field `error` is there, with the code that it holds, if any. -/
  | error (code : Option RpcCode)
  | result (result : Option R)

/-- What `_post_rpc` does for one attempt. -/
inductive RpcReply (R : Type)
  | response (statusCode : Nat) (payload : RpcPayload R)
  /-- A timeout, a network error or a decoding error of `httpx`. -/
  | lost
  | raised (message : String)

/-- What a call meets: the replies to its attempts, should it make any, and the time. -/
structure RpcCircumstances (R : Type) where
  replies : Nat → RpcReply R
  observedAt : Time

/-- What a response that is not tried again leads to. -/
def settle (method : String) (statusCode : Nat) (payload : RpcPayload R) :
    Except RpcError (Option R) :=
  if statusCode < 200 ∨ 300 ≤ statusCode then
    .error (.solana ("Solana RPC " ++ method ++ " rejected status=" ++ toString statusCode) none)
  else
    match payload with
    | .raised message => .error (.other message)
    | .error code =>
        .error (.solana ("Solana RPC " ++ method ++ " failed with code " ++
          (code.map RpcCode.toText).getD "unknown") code)
    | .result result => .ok result

/-- The attempts of `_call`, with so many left after this one. -/
def attempts (method : String) (replies : Nat → RpcReply R) :
    (left attempt : Nat) → Except RpcError (Option R)
  | 0, attempt =>
      match replies attempt with
      | .response statusCode payload => settle method statusCode payload
      | .lost => .error (.solana ("Solana RPC " ++ method ++ " unavailable") none)
      | .raised message => .error (.other message)
  | left + 1, attempt =>
      match replies attempt with
      | .response statusCode payload =>
          if statusCode = 429 ∨ 500 ≤ statusCode then attempts method replies left (attempt + 1)
          else settle method statusCode payload
      | .lost => attempts method replies left (attempt + 1)
      | .raised message => .error (.other message)

structure RpcSettings where
  maxRetries : Nat := 2
  replayMode : Bool := false
  recordResponses : Bool := false

/-- `SolanaRpcClient` -/
structure SolanaRpcClient (formats : RpcFormats R P L) where
  settings : RpcSettings
  requestId : Nat
  journal : Option (ExternalJournal formats)

/-- A call that is permitted. -/
structure RpcRequest (P : Type) where
  method : String
  params : P
  permitted : method ∈ readMethods

section Client

variable {formats : RpcFormats R P L}

/-- What the server answers to a request in the end. -/
def RpcSettings.serverResult (settings : RpcSettings) (request : RpcRequest P)
    (circumstances : RpcCircumstances R) : Except RpcError (Option R) :=
  attempts request.method circumstances.replies settings.maxRetries 0

/-- The key of a request. -/
def RpcFormats.requestKey (formats : RpcFormats R P L) (request : RpcRequest P) : String :=
  formats.key "solana_rpc" request.method request.params

/-- `_call` where the journal has no record. -/
def SolanaRpcClient.askServer (client : SolanaRpcClient formats) (request : RpcRequest P)
    (circumstances : RpcCircumstances R) :
    Except RpcError (Option R) × SolanaRpcClient formats :=
  let client := { client with requestId := client.requestId + 1 }
  match client.settings.serverResult request circumstances with
  | .error error => (.error error, client)
  | .ok result =>
      (.ok result,
        match client.journal with
        | some journal =>
            if client.settings.recordResponses then
              { client with
                journal := some
                  (journal.record (formats.requestKey request) result circumstances.observedAt) }
            else client
        | none => client)

/-- `_call` of a permitted method. -/
def SolanaRpcClient.request (client : SolanaRpcClient formats) (request : RpcRequest P)
    (circumstances : RpcCircumstances R) :
    Except RpcError (Option R) × SolanaRpcClient formats :=
  let missing : Except RpcError (Option R) := .error
    (.solana ("replay data missing for Solana RPC method " ++ request.method) none)
  match client.journal with
  | some journal =>
      match ExternalJournal.get journal (formats.requestKey request) with
      | (some stored, journal) => (.ok stored.response, { client with journal := some journal })
      | (none, _) =>
          if client.settings.replayMode then (missing, client)
          else client.askServer request circumstances
  | none =>
      if client.settings.replayMode then (missing, client)
      else client.askServer request circumstances

/-- `_call` -/
def SolanaRpcClient.call (client : SolanaRpcClient formats) (method : String) (params : P)
    (circumstances : RpcCircumstances R) :
    Except RpcError (Option R) × SolanaRpcClient formats :=
  if permitted : method ∈ readMethods then
    client.request ⟨method, params, permitted⟩ circumstances
  else
    (.error (.solana ("RPC method is not permitted in paper release: " ++ method) none), client)

end Client

end SniperBot.Journals
