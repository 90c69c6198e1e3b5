import BunServe.Lib.Machine
import BunServe.Lib.JsMap
import BunServe.Lib.JsString
import BunServe.Lock
import BunServe.Lock.Invariant
import BunServe.Lock.Exclusion
import BunServe.SafeUrl
import BunServe.SafeUrl.Embedded
import BunServe.SafeUrl.Literal
import BunServe.SafeUrl.Resolved
import BunServe.Crdt
import BunServe.Crdt.Coverage
import BunServe.Crdt.Unload
import BunServe.Crdt.Flush
import BunServe.Delivery
import BunServe.Delivery.Invariant
import BunServe.Delivery.Steps
import BunServe.Lib.Reader
import BunServe.Lib.Utf8
import BunServe.Wire
import BunServe.KeyDict
import BunServe.Lib.JsNumber
import BunServe.Smooth
import BunServe.Smooth.Predict
import BunServe.Smooth.Drain
import BunServe.Smooth.Convergence
import BunServe.Resume
import BunServe.Resume.Gap
import BunServe.Admission
import BunServe.Admission.Accounting
import BunServe.Lib.Linked
import BunServe.Queue
import BunServe.Queue.Invariant
import BunServe.Queue.Moves
import BunServe.Queue.Accounting
import BunServe.Bits
import BunServe.Stream
import BunServe.Stream.Span
import BunServe.Stream.Lockstep
import BunServe.Client
import BunServe.Client.SendQueue
import BunServe.Client.Alive
import BunServe.Publish
import BunServe.Publish.Authority
import BunServe.Publish.Batched
import BunServe.Cohort
import BunServe.Cohort.Split
import BunServe.Listeners
import BunServe.Listeners.Kept
import BunServe.Topics
import BunServe.Topics.Subscribed
import BunServe.Topics.Offsets
import BunServe.Topics.Chunks
import BunServe.Lib.Prog
import BunServe.WireState
import BunServe.WireState.Lockstep
import BunServe.WireState.Told
import BunServe.WireState.Lanes
import BunServe.WireState.Batch
import BunServe.RateLimit
import BunServe.RateLimit.Isolation
import BunServe.RateLimit.Tenants
import BunServe.RateLimit.Renamed
import BunServe.SeqBound
import BunServe.SeqBound.Floors
import BunServe.Lib.Ring
import BunServe.Replay
import BunServe.Replay.Gaps
import BunServe.Presence
import BunServe.Presence.Accounting
import BunServe.Presence.FailedJoin
import BunServe.Presence.Diffs
import BunServe.Presence.Budget
import BunServe.Cursor
import BunServe.Cursor.Invariant
import BunServe.Cursor.Moves
import BunServe.Cursor.Ghosts
import BunServe.Cursor.Cull
import BunServe.Webhooks
import BunServe.Webhooks.Pool
import BunServe.Webhooks.Gate
import BunServe.Webhooks.Contained
import BunServe.Crdt.Moves
import BunServe.Crdt.Tracked
import BunServe.Crdt.Serial
import BunServe.Crdt.Checkpoint
import BunServe.Crdt.Holders
import BunServe.Channel
import BunServe.Channel.Recovery
import BunServe.Subscriptions
import BunServe.Subscriptions.Accounting
import BunServe.Lib.Readable
import BunServe.Ssr
import BunServe.Ssr.Sharing
import BunServe.Lib.JsonString
import BunServe.Wire.Buffer
import BunServe.Wire.Frame
import BunServe.Lease
import BunServe.Lock.Waiters
import BunServe.Lib.RoundRobin
import BunServe.Queue.Fairness
import BunServe.Lib.Departures
import BunServe.Queue.Drains
import BunServe.Smooth.Budget
import BunServe.Lib.F64.Whole
import BunServe.Lib.F64.Order
import BunServe.Wire.Value
import BunServe.Smooth.CommandBatch
import BunServe.Delivery.Pump
import BunServe.Delivery.Admit
import BunServe.Delivery.Runs
import BunServe.Delivery.Ledger
import BunServe.Admission.Rates
import BunServe.Egress
import BunServe.Egress.Bounds
import BunServe.Egress.Runs
import BunServe.RateLimit.Bans
import BunServe.SafeUrl.Declared
import BunServe.SafeUrl.Grammar
import BunServe.RateKey
import BunServe.RateKey.Expand
import BunServe.RateKey.Folds
import BunServe.Upgrade
import BunServe.Upgrade.Runs
import BunServe.Coalesced
import BunServe.Coalesced.Runs
import BunServe.Dedup
import BunServe.HookQueue
import BunServe.Throttle
import BunServe.Smooth.Interpolate
import BunServe.Groups
import BunServe.Replay.Atomicity
import BunServe.Lib.JsMap.Retain
import BunServe.Lib.JsonText
import BunServe.Ssr.Collect
import BunServe.Negotiate
import BunServe.Smooth.Queues
import BunServe.Posture
import BunServe.RateKey.Window
