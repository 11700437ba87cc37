import SniperBot.Basis.Run
import SniperBot.Basis.Dict
import SniperBot.Basis.Grouping
import SniperBot.Basis.Buffers
import SniperBot.Basis.Text
import SniperBot.Basis.Formats
import SniperBot.Basis.Base64
import SniperBot.Basis.Json
import SniperBot.Basis.Ranking
import SniperBot.Domain
import SniperBot.Security.Engine
import SniperBot.Candidates.StateMachine
import SniperBot.Candidates.Lifecycle
import SniperBot.Candidates.Interleaving
import SniperBot.Ledger.State
import SniperBot.Ledger.Positions
import SniperBot.Ledger.Accounting
import SniperBot.Ledger.Unrealized
import SniperBot.Paper.Database
import SniperBot.Paper.Accounting
import SniperBot.Paper.Limits
import SniperBot.Risk.Manager
import SniperBot.Risk.Streak
import SniperBot.Paper.Broker
import SniperBot.Paper.Simulation
import SniperBot.Paper.Agreement
import SniperBot.Paper.Calls
import SniperBot.Paper.Traces
import SniperBot.Paper.Retries
import SniperBot.Paper.Solvency
import SniperBot.Paper.Drawdown
import SniperBot.Paper.Restore
import SniperBot.Outbox.Table
import SniperBot.Outbox.Workers
import SniperBot.Outbox.Deliveries
import SniperBot.Outbox.Reports
import SniperBot.Exits.Engine
import SniperBot.Exits.Closing
import SniperBot.Exits.Passes
import SniperBot.Exits.Rows
import SniperBot.Exits.Marks
import SniperBot.Runtime.Controls
import SniperBot.Runtime.Halts
import SniperBot.Runtime.Losses
import SniperBot.Runtime.Trading
import SniperBot.Runtime.Owners
import SniperBot.Runtime.Following
import SniperBot.Features.Registry
import SniperBot.Features.Filter
import SniperBot.Events.Claims
import SniperBot.Events.Ownership
import SniperBot.Events.Pipeline
import SniperBot.Events.Delivery
import SniperBot.Events.Draining
import SniperBot.Protocols.Borsh
import SniperBot.Protocols.Canonical
import SniperBot.Protocols.Decoding
import SniperBot.Protocols.Reencoding
import SniperBot.Protocols.Anchor
import SniperBot.Protocols.Invocations
import SniperBot.Features.Engine
import SniperBot.Ledger.Methods
import SniperBot.Ledger.Indices
import SniperBot.Paper.Rehydration
import SniperBot.Exits.Rehydrated
import SniperBot.Risk.Rehydrated
import SniperBot.Paper.LedgerOnly
import SniperBot.Candidates.History
import SniperBot.Events.Stage
import SniperBot.Stream.Gap
import SniperBot.Runtime.Poisoning
import SniperBot.Events.Checkpoints
import SniperBot.Events.StateBatch
import SniperBot.Events.Coalescing
import SniperBot.Features.Recovery
import SniperBot.Features.Rebuild
import SniperBot.Features.Restart
import SniperBot.Features.Lockstep
import SniperBot.Stream.Order
import SniperBot.Stream.Dispatch
import SniperBot.Stream.InLine
import SniperBot.Stream.Receipt
import SniperBot.Archive.Recorder
import SniperBot.Archive.RoundTrip
import SniperBot.Basis.Tapes
import SniperBot.Journals.Quotes
import SniperBot.Journals.Rpc
import SniperBot.Journals.Sessions
import SniperBot.Runtime.Fencing
import SniperBot.Basis.Fairness
import SniperBot.Solana.Batcher
import SniperBot.Solana.Futures
import SniperBot.Solana.Settled
import SniperBot.Solana.Progress
import SniperBot.Solana.Answers
import SniperBot.Stream.Attribution
import SniperBot.Runtime.Calls
import SniperBot.Reports.OpenPositions
import SniperBot.Runtime.Mirror
import SniperBot.Wallets.Buyers
import SniperBot.Wallets.Relations
import SniperBot.Wallets.Analyzer
import SniperBot.Wallets.Eligibility
import SniperBot.Basis.Decimal
import SniperBot.Basis.DecimalContext
import SniperBot.Basis.JsonText
import SniperBot.Acceptance.Statistics
import SniperBot.Acceptance.Orders
import SniperBot.Acceptance.Consistency
import SniperBot.Wallets.Counters
import SniperBot.Wallets.Clusters
import SniperBot.Wallets.Flags
import SniperBot.Wallets.Restart
import SniperBot.Basis.UnionFind
import SniperBot.Basis.Bisect
import SniperBot.Features.Lookahead
import SniperBot.Features.Orientation
import SniperBot.Features.Tokens
import SniperBot.Exits.Scaling
import SniperBot.Paper.Dollars
import SniperBot.Paper.Days
import SniperBot.Reports.Daily
import SniperBot.Basis.Calendar
import SniperBot.Basis.Zones
import SniperBot.Risk.LocalDays
import SniperBot.Paper.TradeCounts
import SniperBot.Basis.Powers
import SniperBot.Basis.Edwards
import SniperBot.Security.Addresses
import SniperBot.Basis.Rounding
import SniperBot.Security.Holders
import SniperBot.Basis.Radix
import SniperBot.Risk.Sizing
import SniperBot.Security.Base58
import SniperBot.Basis.Drawdowns
import SniperBot.Reports.Drawdowns
import SniperBot.Basis.Shares
import SniperBot.Features.Bounds
import SniperBot.Features.Scoring
import SniperBot.Basis.Binary64
import SniperBot.Paper.SellQuotes
import SniperBot.Ledger.Decimals
import SniperBot.Archive.Decoders
import SniperBot.Archive.UnknownEvents
import SniperBot.Archive.Crashes
import SniperBot.Basis.Projection
import SniperBot.Exits.Inputs
import SniperBot.Exits.OwnPool
import SniperBot.Exits.OwnDecisions
import SniperBot.Replay.Schedule
import SniperBot.Stream.Connected
import SniperBot.Stream.Baseline
import SniperBot.Stream.GapAudit
import SniperBot.Reports.Summaries
import SniperBot.Control.Signals
import SniperBot.Control.Commands
