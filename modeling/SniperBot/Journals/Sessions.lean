import SniperBot.Journals.Rpc

/-!
# Recorded sessions and their replays

A session is a sequence of requests for quotes and for RPC results, one after the other, each with
what it meets: the clock and the answer of the provider. While a session is recorded, the journal
is nevertheless read before the provider is asked, and what is recorded can be read at once. So of
two equal requests the second gets the answer to the first, and is not recorded.

`recorded_session_iff` says when every request of a recorded session gets the provider's answer,
and when a replay from the files gives each request the record of its number.
-/

namespace SniperBot.Journals

open Basis

variable {Q R P L M : Type}

/-! ## Each client is a use of its tape -/

/-- How the requests for quotes use the tape of their journal. -/
def quoteUse (formats : QuoteFormats Q L) (settings : QuoteSettings) :
    Use String (QuoteRecord Q) (QuoteCall × QuoteCircumstances Q)
      (Except QuoteError (QuoteResponse Q)) where
  key := fun (call, _) => formats.quoteRequestKey (settings.payload call)
  stored := fun (call, circumstances) record => formats.storedQuote call circumstances record
  live := fun (call, circumstances) =>
    if settings.replayMode then .error (.unavailable "replay data missing for quote request")
    else formats.providerQuote call circumstances
  recorded := fun (call, circumstances) =>
    if settings.recordQuotes && !settings.replayMode then
      match circumstances.answer with
      | .error _ => none
      | .ok answer =>
          match formats.answerQuote call circumstances answer with
          | .error _ => none
          | .ok _ => some (formats.quoteRecord (formats.quoteRequestKey (settings.payload call))
              circumstances answer)
    else none

/-- How the requests to the RPC server use the tape of their journal. -/
def rpcUse (formats : RpcFormats R P M) (settings : RpcSettings) :
    Use String (ExternalRecord R) (RpcRequest P × RpcCircumstances R)
      (Except RpcError (Option R)) where
  key := fun (request, _) => formats.requestKey request
  stored := fun _ record => .ok record.response
  live := fun (request, circumstances) =>
    if settings.replayMode then .error
      (.solana ("replay data missing for Solana RPC method " ++ request.method) none)
    else settings.serverResult request circumstances
  recorded := fun (request, circumstances) =>
    if settings.recordResponses && !settings.replayMode then
      match settings.serverResult request circumstances with
      | .error _ => none
      | .ok result => some
          ⟨formats.requestKey request, formats.isoformat circumstances.observedAt, result⟩
    else none

/-- Where the provider is asked, its answer is recorded if it makes a quote. -/
theorem JupiterQuoteProvider.askProvider_spec {formats : QuoteFormats Q L}
    {provider : JupiterQuoteProvider formats} {journal : QuoteJournal formats}
    (hjournal : provider.quoteJournal = some journal)
    (hreplay : provider.settings.replayMode = false) (call : QuoteCall)
    (circumstances : QuoteCircumstances Q) :
    (provider.askProvider call circumstances).1 = formats.providerQuote call circumstances ∧
      (provider.askProvider call circumstances).2.settings = provider.settings ∧
      ∃ journal', (provider.askProvider call circumstances).2.quoteJournal = some journal' ∧
        journal'.tape = journal.tape.write
          (formats.quoteRequestKey (provider.settings.payload call))
          ((quoteUse formats provider.settings).recorded (call, circumstances)) := by
  simp only [askProvider, QuoteFormats.providerQuote, quoteUse, hreplay]
  cases circumstances.answer with
  | error error => exact ⟨rfl, rfl, journal, hjournal, by rw [ite_self]; rfl⟩
  | ok answer =>
      dsimp only
      cases formats.answerQuote call circumstances answer with
      | error error => exact ⟨rfl, rfl, journal, hjournal, by rw [ite_self]; rfl⟩
      | ok quote =>
          have hfilled : (provider.fillCache call quote circumstances.fillClock).quoteJournal =
              some journal := (provider.fillCache_quoteJournal _ _ _).trans hjournal
          simp only [recordAnswer, hfilled, fillCache_settings, hreplay]
          cases provider.settings.recordQuotes with
          | false => exact ⟨trivial, by simp, journal, by simpa using hjournal, rfl⟩
          | true => exact ⟨trivial, by simp, _, rfl, rfl⟩

/-- A request for a quote is one use of the tape. -/
theorem JupiterQuoteProvider.requestQuote_spec {formats : QuoteFormats Q L}
    {provider : JupiterQuoteProvider formats} {journal : QuoteJournal formats}
    (hjournal : provider.quoteJournal = some journal) (call : QuoteCall)
    (circumstances : QuoteCircumstances Q) :
    (provider.requestQuote call circumstances).1 =
        ((quoteUse formats provider.settings).consult journal.tape (call, circumstances)).1 ∧
      (provider.requestQuote call circumstances).2.settings = provider.settings ∧
      ∃ journal', (provider.requestQuote call circumstances).2.quoteJournal = some journal' ∧
        journal'.tape =
          ((quoteUse formats provider.settings).consult journal.tape (call, circumstances)).2 := by
  have hkey : (quoteUse formats provider.settings).key (call, circumstances) =
      formats.quoteRequestKey (provider.settings.payload call) := rfl
  simp only [requestQuote, hjournal, QuoteJournal.getRecord, Use.consult, hkey,
    ← Journal.get_tape]
  rcases hget : journal.get (formats.quoteRequestKey (provider.settings.payload call)) with
    ⟨_ | record, journal'⟩
  · have htape := Journal.tape_of_get hget
    dsimp only
    rw [htape]
    cases hreplay : provider.settings.replayMode with
    | true =>
        exact ⟨by simp [quoteUse, hreplay], rfl, journal, hjournal,
          by simp [quoteUse, hreplay, Tape.write]⟩
    | false =>
        obtain ⟨hquote, hrest⟩ := askProvider_spec hjournal hreplay call circumstances
        rw [if_neg Bool.false_ne_true]
        exact ⟨by simpa [quoteUse, hreplay] using hquote, hrest⟩
  · simp only [quoteUse]
    cases hquote : formats.storedQuote call circumstances record with
    | error error => exact ⟨rfl, rfl, _, rfl, rfl⟩
    | ok quote => exact ⟨rfl, by simp, journal', by simp, rfl⟩

/-- A request to the RPC server is one use of the tape. -/
theorem SolanaRpcClient.request_spec {formats : RpcFormats R P M}
    {client : SolanaRpcClient formats} {journal : ExternalJournal formats}
    (hjournal : client.journal = some journal) (request : RpcRequest P)
    (circumstances : RpcCircumstances R) :
    (client.request request circumstances).1 =
        ((rpcUse formats client.settings).consult journal.tape (request, circumstances)).1 ∧
      (client.request request circumstances).2.settings = client.settings ∧
      ∃ journal', (client.request request circumstances).2.journal = some journal' ∧
        journal'.tape =
          ((rpcUse formats client.settings).consult journal.tape (request, circumstances)).2 := by
  have hkey : (rpcUse formats client.settings).key (request, circumstances) =
      formats.requestKey request := rfl
  simp only [SolanaRpcClient.request, hjournal, ExternalJournal.get, Use.consult, hkey,
    ← Journal.get_tape]
  rcases hget : Journal.get journal (formats.requestKey request) with ⟨_ | record, journal'⟩
  · have htape := Journal.tape_of_get hget
    dsimp only
    rw [htape]
    cases hreplay : client.settings.replayMode with
    | true => exact ⟨by simp [rpcUse, hreplay], rfl, journal, hjournal,
        by simp [rpcUse, hreplay, Tape.write]⟩
    | false =>
        rw [if_neg Bool.false_ne_true]
        simp only [askServer, rpcUse, hreplay, hjournal]
        cases client.settings.serverResult request circumstances with
        | error error => exact ⟨rfl, rfl, journal, rfl, by rw [ite_self]; rfl⟩
        | ok result =>
            cases client.settings.recordResponses with
            | false => exact ⟨rfl, rfl, journal, rfl, rfl⟩
            | true => exact ⟨rfl, rfl, _, rfl, rfl⟩
  · exact ⟨rfl, rfl, journal', rfl, rfl⟩

/-! ## Sessions -/

/-- A request, with what it meets. -/
inductive Event (Q R P : Type)
  | quote (call : QuoteCall) (circumstances : QuoteCircumstances Q)
  | rpc (request : RpcRequest P) (circumstances : RpcCircumstances R)

/-- The requests of a session for quotes. -/
def quotesOf (events : List (Event Q R P)) : List (QuoteCall × QuoteCircumstances Q) :=
  events.filterMap fun event =>
    match event with
    | .quote call circumstances => some (call, circumstances)
    | .rpc _ _ => none

/-- The requests of a session to the RPC server. -/
def rpcsOf (events : List (Event Q R P)) : List (RpcRequest P × RpcCircumstances R) :=
  events.filterMap fun event =>
    match event with
    | .quote _ _ => none
    | .rpc request circumstances => some (request, circumstances)

/-- The two clients of a process. -/
structure Clients (quoteFormats : QuoteFormats Q L) (rpcFormats : RpcFormats R P M) where
  quotes : JupiterQuoteProvider quoteFormats
  rpc : SolanaRpcClient rpcFormats

/-- What the requests of a session return. -/
structure Log (Q R : Type) where
  quotes : List (Except QuoteError (QuoteResponse Q))
  results : List (Except RpcError (Option R))

section Clients

variable {quoteFormats : QuoteFormats Q L} {rpcFormats : RpcFormats R P M}

/-- Make the requests of a session. -/
def Clients.run (clients : Clients quoteFormats rpcFormats) :
    List (Event Q R P) → Log Q R × Clients quoteFormats rpcFormats
  | [] => (⟨[], []⟩, clients)
  | .quote call circumstances :: events =>
      let (quote, quotes) := clients.quotes.requestQuote call circumstances
      let (log, clients) := Clients.run { clients with quotes := quotes } events
      ({ log with quotes := quote :: log.quotes }, clients)
  | .rpc request circumstances :: events =>
      let (result, rpc) := clients.rpc.request request circumstances
      let (log, clients) := Clients.run { clients with rpc := rpc } events
      ({ log with results := result :: log.results }, clients)

/-- The clients use these journals. -/
structure Clients.Uses (clients : Clients quoteFormats rpcFormats)
    (quoteJournal : QuoteJournal quoteFormats) (rpcJournal : ExternalJournal rpcFormats) :
    Prop where
  quoteJournal : clients.quotes.quoteJournal = some quoteJournal
  rpcJournal : clients.rpc.journal = some rpcJournal

/-- A session is a session of each of the two tapes. -/
theorem Clients.run_spec {clients : Clients quoteFormats rpcFormats}
    {quoteJournal : QuoteJournal quoteFormats} {rpcJournal : ExternalJournal rpcFormats}
    (huses : clients.Uses quoteJournal rpcJournal) (events : List (Event Q R P)) :
    (clients.run events).1.quotes =
        ((quoteUse quoteFormats clients.quotes.settings).session quoteJournal.tape
          (quotesOf events)).1 ∧
      (clients.run events).1.results =
        ((rpcUse rpcFormats clients.rpc.settings).session rpcJournal.tape (rpcsOf events)).1 ∧
      (clients.run events).2.quotes.settings = clients.quotes.settings ∧
      (clients.run events).2.rpc.settings = clients.rpc.settings ∧
      ∃ quoteJournal' rpcJournal', (clients.run events).2.Uses quoteJournal' rpcJournal' := by
  induction events generalizing clients quoteJournal rpcJournal with
  | nil => exact ⟨rfl, rfl, rfl, rfl, quoteJournal, rpcJournal, huses⟩
  | cons event events ih =>
      cases event with
      | quote call circumstances =>
          obtain ⟨hquote, hsettings, journal, hjournal, htape⟩ :=
            JupiterQuoteProvider.requestQuote_spec huses.quoteJournal call circumstances
          have huses' : Clients.Uses
              { clients with quotes := (clients.quotes.requestQuote call circumstances).2 }
              journal rpcJournal := ⟨hjournal, huses.rpcJournal⟩
          obtain ⟨hquotes, hresults, hsettingsQ, hsettingsR, hlast⟩ := ih huses'
          refine ⟨?_, hresults, hsettingsQ.trans hsettings, hsettingsR, hlast⟩
          simp only [hsettings, htape] at hquotes
          exact List.cons_eq_cons.mpr ⟨hquote, hquotes⟩
      | rpc request circumstances =>
          obtain ⟨hresult, hsettings, journal, hjournal, htape⟩ :=
            SolanaRpcClient.request_spec huses.rpcJournal request circumstances
          have huses' : Clients.Uses
              { clients with rpc := (clients.rpc.request request circumstances).2 }
              quoteJournal journal := ⟨huses.quoteJournal, hjournal⟩
          obtain ⟨hquotes, hresults, hsettingsQ, hsettingsR, hlast⟩ := ih huses'
          refine ⟨hquotes, ?_, hsettingsQ, hsettingsR.trans hsettings, hlast⟩
          simp only [hsettings, htape] at hresults
          exact List.cons_eq_cons.mpr ⟨hresult, hresults⟩

/-- Every request gets what the provider answers to it. -/
structure Clients.Passive (clients : Clients quoteFormats rpcFormats)
    (events : List (Event Q R P)) : Prop where
  quotes : (clients.run events).1.quotes =
    (quotesOf events).map fun (call, circumstances) =>
      quoteFormats.providerQuote call circumstances
  results : (clients.run events).1.results =
    (rpcsOf events).map fun (request, circumstances) =>
      clients.rpc.settings.serverResult request circumstances

/-- The answers repeat what the journals hold: for each key, those to the first requests are the
records that were not read yet, and of every two later ones the second is the record of the
first. -/
structure Clients.Echoes (clients : Clients quoteFormats rpcFormats)
    (quoteJournal : QuoteJournal quoteFormats) (rpcJournal : ExternalJournal rpcFormats)
    (events : List (Event Q R P)) : Prop where
  quotes : ∀ key, (quoteUse quoteFormats clients.quotes.settings).Echoes
    (quoteJournal.tape.unread key)
    ((quoteUse quoteFormats clients.quotes.settings).callsOf key (quotesOf events))
  results : ∀ key, (rpcUse rpcFormats clients.rpc.settings).Echoes (rpcJournal.tape.unread key)
    ((rpcUse rpcFormats clients.rpc.settings).callsOf key (rpcsOf events))

/-- It is enough that no request finds a record and that none is made twice. -/
theorem Clients.echoes_of_fresh {clients : Clients quoteFormats rpcFormats}
    {quoteJournal : QuoteJournal quoteFormats} {rpcJournal : ExternalJournal rpcFormats}
    {events : List (Event Q R P)}
    (hquotes : ∀ c ∈ quotesOf events, quoteJournal.tape.unread
      ((quoteUse quoteFormats clients.quotes.settings).key c) = [])
    (hnodupQ : ((quotesOf events).map
      (quoteUse quoteFormats clients.quotes.settings).key).Nodup)
    (hresults : ∀ c ∈ rpcsOf events, rpcJournal.tape.unread
      ((rpcUse rpcFormats clients.rpc.settings).key c) = [])
    (hnodupR : ((rpcsOf events).map (rpcUse rpcFormats clients.rpc.settings).key).Nodup) :
    clients.Echoes quoteJournal rpcJournal events where
  quotes := Use.echoes_of_fresh _ hquotes hnodupQ
  results := Use.echoes_of_fresh _ hresults hnodupR

theorem Clients.passive_iff {clients : Clients quoteFormats rpcFormats}
    {quoteJournal : QuoteJournal quoteFormats} {rpcJournal : ExternalJournal rpcFormats}
    (huses : clients.Uses quoteJournal rpcJournal)
    (hquotes : clients.quotes.settings.replayMode = false)
    (hrpc : clients.rpc.settings.replayMode = false) (events : List (Event Q R P)) :
    clients.Passive events ↔ clients.Echoes quoteJournal rpcJournal events := by
  obtain ⟨hlogQ, hlogR, -⟩ := Clients.run_spec huses events
  have hliveQ : (quoteUse quoteFormats clients.quotes.settings).live =
      fun (call, circumstances) => quoteFormats.providerQuote call circumstances := by
    simp [quoteUse, hquotes]
  have hliveR : (rpcUse rpcFormats clients.rpc.settings).live =
      fun (request, circumstances) =>
        clients.rpc.settings.serverResult request circumstances := by
    simp [rpcUse, hrpc]
  have hsessionQ := (quoteUse quoteFormats clients.quotes.settings).session_eq_live_iff
    quoteJournal.tape (quotesOf events)
  have hsessionR := (rpcUse rpcFormats clients.rpc.settings).session_eq_live_iff
    rpcJournal.tape (rpcsOf events)
  rw [← hlogQ, hliveQ] at hsessionQ
  rw [← hlogR, hliveR] at hsessionR
  exact ⟨fun h => ⟨hsessionQ.mp h.quotes, hsessionR.mp h.results⟩,
    fun h => ⟨hsessionQ.mpr h.quotes, hsessionR.mpr h.results⟩⟩

/-! ## Replays -/

def QuoteSettings.replaying (settings : QuoteSettings) : QuoteSettings :=
  { settings with replayMode := true }

def RpcSettings.replaying (settings : RpcSettings) : RpcSettings :=
  { settings with replayMode := true }

/-- A process that replays from the files of the journals. -/
def Clients.replaying (clients : Clients quoteFormats rpcFormats) :
    Option (Clients quoteFormats rpcFormats) := do
  let quoteJournal ← clients.quotes.quoteJournal
  let rpcJournal ← clients.rpc.journal
  let quotes ← Journal.load quoteFormats.readLine quoteJournal.file
  let rpc ← Journal.load rpcFormats.readLine rpcJournal.file
  some
    { quotes :=
        { settings := clients.quotes.settings.replaying
          quoteCache := Dict.empty
          quoteJournal := some quotes }
      rpc :=
        { settings := clients.rpc.settings.replaying
          requestId := 0
          journal := some rpc } }

/-- The record of a request for a quote: of the records of its key, the one whose number is that
of the earlier requests of the key. -/
def Clients.quoteRecordAt (clients : Clients quoteFormats rpcFormats)
    (events : List (Event Q R P)) (i : Nat) (call : QuoteCall) : Option (QuoteRecord Q) := do
  let journal ← clients.quotes.quoteJournal
  let key := quoteFormats.quoteRequestKey (clients.quotes.settings.payload call)
  (journal.tape.recordsOf key)[
    (quoteUse quoteFormats clients.quotes.settings).before (quotesOf events) i key]?

/-- The record of a request to the RPC server. -/
def Clients.rpcRecordAt (clients : Clients quoteFormats rpcFormats)
    (events : List (Event Q R P)) (i : Nat) (request : RpcRequest P) :
    Option (ExternalRecord R) := do
  let journal ← clients.rpc.journal
  let key := rpcFormats.requestKey request
  (journal.tape.recordsOf key)[
    (rpcUse rpcFormats clients.rpc.settings).before (rpcsOf events) i key]?

/-- A replay from the files returns for each request the response of its record, and an error
exactly where there is none. -/
def Clients.Reproduces (clients : Clients quoteFormats rpcFormats)
    (events : List (Event Q R P)) : Prop :=
  ∃ replaying, clients.replaying = some replaying ∧
    (∀ i call circumstances, (quotesOf events)[i]? = some (call, circumstances) →
      match clients.quoteRecordAt events i call with
      | some record => ∃ quote, (replaying.run events).1.quotes[i]? = some (.ok quote) ∧
          quote.raw = record.response
      | none => (replaying.run events).1.quotes[i]? =
          some (.error (.unavailable "replay data missing for quote request"))) ∧
    ∀ i request circumstances, (rpcsOf events)[i]? = some (request, circumstances) →
      (replaying.run events).1.results[i]? = some
        (match clients.rpcRecordAt events i request with
        | some record => .ok record.response
        | none => .error
            (.solana ("replay data missing for Solana RPC method " ++ request.method) none))

/-- Every record that a replay reads for a quote is readable, and has not expired by then. -/
def Clients.Unexpired (clients : Clients quoteFormats rpcFormats)
    (events : List (Event Q R P)) : Prop :=
  ∀ i call circumstances, (quotesOf events)[i]? = some (call, circumstances) →
    ∀ record, clients.quoteRecordAt events i call = some record →
      ∃ fields, quoteFormats.readResponse record.response = .ok fields ∧
        circumstances.storedStaleClock <
          fields.expiresAt (quoteFormats.receivedTime record circumstances.journalClock)

theorem Clients.replaying_spec {clients : Clients quoteFormats rpcFormats}
    {quoteJournal : QuoteJournal quoteFormats} {rpcJournal : ExternalJournal rpcFormats}
    (huses : clients.Uses quoteJournal rpcJournal) :
    ∃ replaying quotes rpc, clients.replaying = some replaying ∧ replaying.Uses quotes rpc ∧
      quotes.tape = quoteJournal.tape.rewind ∧ rpc.tape = rpcJournal.tape.rewind ∧
      replaying.quotes.settings = clients.quotes.settings.replaying ∧
      replaying.rpc.settings = clients.rpc.settings.replaying := by
  obtain ⟨quotes, hquotes, htapeQ⟩ := Journal.load_file quoteJournal
  obtain ⟨rpc, hrpc, htapeR⟩ := Journal.load_file rpcJournal
  have hreplaying : clients.replaying = some
      { quotes := ⟨clients.quotes.settings.replaying, Dict.empty, some quotes⟩
        rpc := ⟨clients.rpc.settings.replaying, 0, some rpc⟩ } := by
    simp only [Clients.replaying, huses.quoteJournal, huses.rpcJournal, Option.bind_eq_bind,
      Option.bind_some, hquotes, hrpc]
  exact ⟨_, quotes, rpc, hreplaying, ⟨rfl, rfl⟩, htapeQ, htapeR, rfl, rfl⟩

/-- What a replay returns for a quote. -/
theorem Clients.replayed_quote {clients replaying : Clients quoteFormats rpcFormats}
    {quoteJournal quotes : QuoteJournal quoteFormats} {rpc : ExternalJournal rpcFormats}
    (hclients : clients.quotes.quoteJournal = some quoteJournal) (huses : replaying.Uses quotes rpc)
    (htape : quotes.tape = quoteJournal.tape.rewind)
    (hsettings : replaying.quotes.settings = clients.quotes.settings.replaying)
    {events : List (Event Q R P)} {i : Nat} {call : QuoteCall}
    {circumstances : QuoteCircumstances Q}
    (h : (quotesOf events)[i]? = some (call, circumstances)) :
    (replaying.run events).1.quotes[i]? = some
      (match clients.quoteRecordAt events i call with
      | some record => quoteFormats.storedQuote call circumstances record
      | none => .error (.unavailable "replay data missing for quote request")) := by
  have hrecorded : ∀ c, (quoteUse quoteFormats replaying.quotes.settings).recorded c = none :=
    fun c => by simp [quoteUse, hsettings, QuoteSettings.replaying]
  rw [(Clients.run_spec huses events).1, Use.getElem?_session _ hrecorded, h, htape,
    Option.map_some, Tape.unread_rewind, hsettings, Clients.quoteRecordAt, hclients]
  have hbefore : (quoteUse quoteFormats clients.quotes.settings.replaying).before =
      (quoteUse quoteFormats clients.quotes.settings).before := rfl
  have hkey : (quoteUse quoteFormats clients.quotes.settings.replaying).key (call, circumstances) =
      quoteFormats.quoteRequestKey (clients.quotes.settings.payload call) := rfl
  rw [hbefore, hkey]
  simp only [Option.bind_eq_bind, Option.bind_some]
  cases (quoteJournal.tape.recordsOf
      (quoteFormats.quoteRequestKey (clients.quotes.settings.payload call)))[
    (quoteUse quoteFormats clients.quotes.settings).before (quotesOf events) i
      (quoteFormats.quoteRequestKey (clients.quotes.settings.payload call))]? <;> rfl

/-- What a replay returns for an RPC result. -/
theorem Clients.replayed_result {clients replaying : Clients quoteFormats rpcFormats}
    {quotes : QuoteJournal quoteFormats} {rpcJournal rpc : ExternalJournal rpcFormats}
    (hclients : clients.rpc.journal = some rpcJournal) (huses : replaying.Uses quotes rpc)
    (htape : rpc.tape = rpcJournal.tape.rewind)
    (hsettings : replaying.rpc.settings = clients.rpc.settings.replaying)
    {events : List (Event Q R P)} {i : Nat} {request : RpcRequest P}
    {circumstances : RpcCircumstances R}
    (h : (rpcsOf events)[i]? = some (request, circumstances)) :
    (replaying.run events).1.results[i]? = some
      (match clients.rpcRecordAt events i request with
      | some record => .ok record.response
      | none => .error
          (.solana ("replay data missing for Solana RPC method " ++ request.method) none)) := by
  have hrecorded : ∀ c, (rpcUse rpcFormats replaying.rpc.settings).recorded c = none :=
    fun c => by simp [rpcUse, hsettings, RpcSettings.replaying]
  rw [(Clients.run_spec huses events).2.1, Use.getElem?_session _ hrecorded, h, htape,
    Option.map_some, Tape.unread_rewind, hsettings, Clients.rpcRecordAt, hclients]
  have hbefore : (rpcUse rpcFormats clients.rpc.settings.replaying).before =
      (rpcUse rpcFormats clients.rpc.settings).before := rfl
  have hkey : (rpcUse rpcFormats clients.rpc.settings.replaying).key (request, circumstances) =
      rpcFormats.requestKey request := rfl
  rw [hbefore, hkey]
  simp only [Option.bind_eq_bind, Option.bind_some]
  cases (rpcJournal.tape.recordsOf (rpcFormats.requestKey request))[
    (rpcUse rpcFormats clients.rpc.settings).before (rpcsOf events) i
      (rpcFormats.requestKey request)]? <;> rfl

theorem Clients.reproduces_iff {clients : Clients quoteFormats rpcFormats}
    {quoteJournal : QuoteJournal quoteFormats} {rpcJournal : ExternalJournal rpcFormats}
    (huses : clients.Uses quoteJournal rpcJournal) (events : List (Event Q R P)) :
    clients.Reproduces events ↔ clients.Unexpired events := by
  obtain ⟨replaying, quotes, rpc, hreplaying, huses', htapeQ, htapeR, hsettingsQ, hsettingsR⟩ :=
    Clients.replaying_spec huses
  constructor
  · rintro ⟨replaying', hreplaying', hquotes, -⟩ i call circumstances h record hrecord
    cases hreplaying.symm.trans hreplaying'
    have hquote := hquotes i call circumstances h
    rw [Clients.replayed_quote huses.quoteJournal huses' htapeQ hsettingsQ h, hrecord] at hquote
    obtain ⟨quote, hquote, hraw⟩ := hquote
    exact (quoteFormats.buildQuote_eq_ok _ _ _ _ _ _ _ _).mp ⟨quote, Option.some.inj hquote, hraw⟩
  · intro hunexpired
    refine ⟨replaying, hreplaying, fun i call circumstances h => ?_,
      fun i request circumstances h =>
        Clients.replayed_result huses.rpcJournal huses' htapeR hsettingsR h⟩
    rw [Clients.replayed_quote huses.quoteJournal huses' htapeQ hsettingsQ h]
    cases hrecord : clients.quoteRecordAt events i call with
    | none => rfl
    | some record =>
        obtain ⟨quote, hquote, hraw⟩ := (quoteFormats.buildQuote_eq_ok call.tokenIn call.tokenOut
          record.response (quoteFormats.journalTime record.requestedAt circumstances.journalClock)
          _ (record.latencyMs.getD 0) circumstances.lastSolUsdPrice _).mpr
          (hunexpired i call circumstances h record hrecord)
        exact ⟨quote, congrArg some hquote, hraw⟩

/-- A recorded session gives every request the provider's answer, and a replay of requests from its
files gives each the response of its record and an error exactly where there is none: that is so
exactly if the answers repeat what the journals hold and no quote expires before it is replayed. -/
theorem recorded_session_iff {clients : Clients quoteFormats rpcFormats}
    {quoteJournal : QuoteJournal quoteFormats} {rpcJournal : ExternalJournal rpcFormats}
    (huses : clients.Uses quoteJournal rpcJournal)
    (hquotes : clients.quotes.settings.replayMode = false)
    (hrpc : clients.rpc.settings.replayMode = false) (session replayed : List (Event Q R P)) :
    clients.Passive session ∧ (clients.run session).2.Reproduces replayed ↔
      clients.Echoes quoteJournal rpcJournal session ∧
        (clients.run session).2.Unexpired replayed := by
  obtain ⟨-, -, -, -, quotes, rpc, hlast⟩ := Clients.run_spec huses session
  rw [Clients.passive_iff huses hquotes hrpc, Clients.reproduces_iff hlast]

end Clients

/-! ## Two requests for the slot -/

/-- Formats whose lines are the records themselves. -/
def sampleQuoteFormats : QuoteFormats String (QuoteLine String) where
  sha256 := fun text => text.push '.'
  sha256_ne_empty := fun text h => by simpa using congrArg String.length h
  dumps := fun payload => payload.cacheKey
  print := fun record =>
    { requestKey := some record.requestKey
      response := some record.response
      requestedAt := record.requestedAt
      receivedAt := record.receivedAt
      latencyMs := record.latencyMs }
  parse := Line.object
  parse_print := fun _ => rfl
  isoformat := toString
  fromisoformat := String.toInt?
  readResponse := fun _ => .error (.unavailable "no executable route returned")

def sampleRpcFormats : RpcFormats Int Unit (ExternalLine Int) where
  sha256 := fun text => text.push '.'
  dumps := fun provider operation _ => provider ++ operation
  print := fun record => ⟨some record.key, record.observedAt, record.response⟩
  parse := Line.object
  parse_print := fun _ => rfl
  isoformat := toString

/-- Two clients that record, with empty journals. -/
def recordingClients : Clients sampleQuoteFormats sampleRpcFormats where
  quotes :=
    { settings := { quoteMint := none, recordQuotes := true }
      quoteCache := Dict.empty
      quoteJournal := some ⟨Tape.empty, [], rfl⟩ }
  rpc :=
    { settings := { recordResponses := true }
      requestId := 0
      journal := some ⟨Tape.empty, [], rfl⟩ }

/-- A request for the slot, and the answer of the server at the time. -/
def slotRequest (slot : Int) : Event String Int Unit :=
  .rpc ⟨"getSlot", (), by decide⟩ ⟨fun _ => .response 200 (.result (some slot)), 0⟩

theorem recorded_session_iff_slot :
    recordingClients.Passive [slotRequest 5] ∧
      (recordingClients.run [slotRequest 5]).2.Reproduces [slotRequest 5] := by
  refine (recorded_session_iff ⟨rfl, rfl⟩ rfl rfl [slotRequest 5] [slotRequest 5]).mpr
    ⟨⟨fun key => trivial, fun key => ?_⟩, fun i call circumstances h => ?_⟩
  · simp only [rpcsOf, slotRequest, List.filterMap_cons, List.filterMap_nil, Use.callsOf,
      List.filter_cons, List.filter_nil]
    split <;> trivial
  · cases h

/-- The second request gets the slot of the first, although the server has moved on. -/
theorem slot_is_repeated :
    ¬ (recordingClients.Passive [slotRequest 5, slotRequest 6] ∧
      (recordingClients.run [slotRequest 5, slotRequest 6]).2.Reproduces
        [slotRequest 5, slotRequest 6]) := by
  rintro ⟨hpassive, -⟩
  have hresults : (recordingClients.run [slotRequest 5, slotRequest 6]).1.results =
      [.ok (some 5), .ok (some 5)] := by decide
  cases hresults.symm.trans hpassive.results

end SniperBot.Journals
