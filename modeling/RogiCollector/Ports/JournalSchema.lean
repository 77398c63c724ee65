import Mathlib.Algebra.Order.Ring.Int
import RogiCollector.Verified.Table

/-!
# The donation journal: rows, errors and the database

Data model of `shared/store/collector*.go`, `shared/model/donation.go` and
`shared/migrations/006_collector_delivery.sql`.  Columns keep the migration's
names.  Rows are read and written as Lean values: `payload` is the decoded
`model.Donation`, since `jsonb` gives `json.Unmarshal` back the value
`json.Marshal` was given.

Offsets and revisions are `uint64` in Go and `numeric(20,0)` in PostgreSQL.
They are natural numbers here, and every Go addition on them is reduced
modulo `2 ^ 64` where it is written.

Instants are nanoseconds since the Unix epoch; `0` stands for Go's zero
`time.Time`.  An instant in the past of another is compared by adding the
duration on the other side, so that no subtraction is truncated.
-/

namespace RogiCollector.Ports.Journal

open Verified

/-- Nanoseconds since the Unix epoch. -/
abbrev Time := Nat

def second : Nat := 1000000000
def hour : Nat := 3600 * second
def day : Nat := 24 * hour

/-- `^uint64(0)`. -/
def maxUint64 : Nat := 2 ^ 64 - 1

/-- Go's `n + 1` on `uint64`. -/
def succUint64 (n : Nat) : Nat := (n + 1) % 2 ^ 64

/-! ## Errors -/

/-- The sentinel errors of the store; `noRows` is `pgx.ErrNoRows`,
`uniqueViolation` a refused insert, `new` any other `errors.New`. -/
inductive StoreErr where
  | collectionDisabled
  | owner
  | generation
  | cursorExpired
  | cursor
  | revision
  | conflict
  | journalFull
  | noRows
  | uniqueViolation
  | new (text : String)
  deriving Repr, DecidableEq

/-! ## The observation -/

/-- `model.Donation`. -/
structure Donation where
  eventID : String
  channelID : String
  count : Int
  kind : String
  donorID : String
  displayName : String
  message : String
  connectionEpoch : String
  sequence : Nat
  observedAt : Time
  connectionStartedAt : Time
  sourceID : Option String
  broadcastID : Option String
  identity : String
  reasons : List String
  related : List String
  generation : String
  offset : Nat
  deriving Repr, DecidableEq

/-- `Donation.Validate`; Go's `len` counts bytes. -/
def Donation.validate (d : Donation) : Except StoreErr Unit :=
  if 256 < d.eventID.utf8ByteSize ∨ 100 < d.channelID.utf8ByteSize ∨
      256 < d.donorID.utf8ByteSize ∨ 4096 < d.displayName.utf8ByteSize ∨
      65536 < d.message.utf8ByteSize ∨ 256 < d.connectionEpoch.utf8ByteSize then
    .error (.new "donation observation too large")
  else if d.eventID = "" ∨ d.channelID = "" ∨ d.donorID = "" ∨
      d.connectionEpoch = "" ∨ d.sequence = 0 ∨ d.count ≤ 0 ∨
      9007199254740991 < d.count ∨ d.kind ≠ "balloon" ∨ d.observedAt = 0 then
    .error (.new "invalid donation observation")
  else .ok ()

/-- `json.Unmarshal(old, &d)` over a `d` that is already filled in: the
`omitempty` members missing from the stored text keep what `d` had. -/
def Donation.unmarshalInto (old d : Donation) : Donation :=
  { old with
    sourceID := old.sourceID <|> d.sourceID
    broadcastID := old.broadcastID <|> d.broadcastID
    reasons := if old.reasons = [] then d.reasons else old.reasons
    related := if old.related = [] then d.related else old.related }

/-! ## Rows -/

/-- `collector_channels`, keyed by `channel_id`. -/
structure ChannelRow where
  generation : String
  nextOffset : Nat
  expiredThrough : Nat
  subscribed : Bool
  ownerToken : Option String
  runtimeState : String
  stateAt : Time
  lastReceivedAt : Option Time
  deriving Repr, DecidableEq

/-- `collector_owner_grants`, keyed by `token`. -/
structure GrantRow where
  channelID : String
  workerID : String
  generation : String
  grantedAt : Time
  validUntil : Time
  closedAt : Option Time
  deriving Repr, DecidableEq

/-- `collector_donations`, keyed by `event_id`.  A row whose payload is
`none` is the ID tombstone that retention leaves behind. -/
structure DonationRow where
  channelID : String
  generation : String
  channelOffset : Nat
  contentKey : String
  connectionEpoch : String
  observedAt : Time
  payload : Option Donation
  storedAt : Time
  deriving Repr, DecidableEq

/-- `collector_outbox`, keyed by `event_id`. -/
structure OutboxRow where
  channelID : String
  createdAt : Time
  deriving Repr, DecidableEq

/-- `collector_consumers`, keyed by `(consumer_id, channel_id)`. -/
structure ConsumerRow where
  generation : String
  baseline : Nat
  ackOffset : Option Nat
  offeredOffset : Nat
  recoveryRevision : Nat
  deriving Repr, DecidableEq

/-- `COALESCE(ack_offset, baseline)`: how far the consumer has come. -/
def ConsumerRow.position (p : ConsumerRow) : Nat := p.ackOffset.getD p.baseline

structure RecoveryDecision where
  previousGeneration : String
  newGeneration : String
  previousOffset : Nat
  resumeFrom : Nat
  revision : Nat
  deriving Repr, DecidableEq

/-- The `operation` column of `collector_requests`. -/
inductive Operation where
  | subscription
  | recovery
  deriving Repr, DecidableEq

/-- The `result` column of `collector_requests`, as decoded. -/
inductive SavedResult where
  | subscription (enabled : Bool)
  | recovery (decision : RecoveryDecision)
  deriving Repr, DecidableEq

/-- The primary key of `collector_requests`. -/
structure RequestKey where
  consumerID : String
  channelID : String
  operation : Operation
  requestKey : String
  deriving Repr, DecidableEq

/-- `collector_requests`. -/
structure RequestRow where
  bodyHash : String
  result : SavedResult
  createdAt : Time
  deriving Repr, DecidableEq

/-- The `request` and `result` columns of `collector_recovery_audit`: a
consumer's decision with the request body as received, or a restore. -/
inductive AuditEntry where
  | decision (request : String) (result : RecoveryDecision)
  | restore (reason previousGeneration newGeneration : String)
  deriving Repr, DecidableEq

/-- `collector_recovery_audit`. -/
structure AuditRow where
  consumerID : String
  channelID : String
  entry : AuditEntry
  createdAt : Time
  deriving Repr, DecidableEq

/-- The tables of migration 006, and what the collector reads of the two
tables it does not own: the channels with an active SOOP opt-out and the
`(channel_id, worker_id)` pairs assigned with `status = 'live'`. -/
structure Db where
  channels : Table String ChannelRow
  grants : Table String GrantRow
  donations : Table String DonationRow
  outbox : Table String OutboxRow
  consumers : Table (String × String) ConsumerRow
  requests : Table RequestKey RequestRow
  audit : List AuditRow
  optOuts : List String
  live : List (String × String)

/-- The database right after the migration. -/
def Db.empty : Db where
  channels := Table.empty
  grants := Table.empty
  donations := Table.empty
  outbox := Table.empty
  consumers := Table.empty
  requests := Table.empty
  audit := []
  optOuts := []
  live := []

/-! ## What callers hold -/

/-- `OwnerGrant`, as `AcquireCollection` returns it. -/
structure OwnerGrant where
  token : String
  channel : String
  generation : String
  grantedAt : Time
  validUntil : Time
  deriving Repr, DecidableEq

structure CollectionState where
  channel : String
  generation : String
  current : Nat
  expiredThrough : Nat
  subscribed : Bool
  runtime : String
  stateAt : Time
  lastReceived : Option Time
  deriving Repr, DecidableEq

/-- One entry of `unrecoveredRanges` in a recovery request. -/
structure LossRange where
  startGeneration : String
  startOffset : Nat
  endGeneration : String
  endOffset : Nat
  deriving Repr, DecidableEq

/-- The offsets an entry declares lost, both ends included. -/
def LossRange.covers (r : LossRange) (o : Nat) : Prop :=
  r.startOffset ≤ o ∧ o ≤ r.endOffset

/-! ## What the store relies on

Library code and PostgreSQL internals the transactions call.  Nothing is
assumed about these here; a result that needs a law of one of them says so.
-/

/-- Configuration and the calls that leave the repository. -/
structure Backend where
  /-- The configured product channel; `none` collects every channel. -/
  collectionChannel : Option String
  /-- Hexadecimal SHA-256. -/
  sha256Hex : String → String
  /-- Length of `json.Marshal d`, `none` when it fails. -/
  marshalLen : Donation → Option Nat
  /-- `pg_column_size(payload)`. -/
  columnSize : Donation → Int
  /-- PostgreSQL accepts the payload and the text columns taken from it. -/
  storable : Donation → Bool
  /-- PostgreSQL accepts the text as `jsonb`. -/
  jsonb : String → Bool
  /-- `unrecoveredRanges` of a request body, `none` when it does not parse. -/
  unrecoveredRanges : String → Option (List LossRange)

/-- `PgStore.allowsCollection` for the SOOP platform. -/
def Backend.allowsCollection (B : Backend) (channel : String) : Bool :=
  match B.collectionChannel with
  | none => true
  | some product => product ≠ "" ∧ channel = product

def Backend.requestHash (B : Backend) (body : String) : String := B.sha256Hex body

/-- The clocks one transaction reads.  `now i` is the `i`-th `time.Now()` of
the Go process, `clk i` the `i`-th `clock_timestamp()`; the database clock
does not run backwards while the transaction is open. -/
structure Clocks where
  now : Nat → Time
  clk : Nat → Time
  commit : Time
  mono : Monotone clk
  le_commit : ∀ i, clk i ≤ commit

/-- Both clocks stand still at `t`. -/
def Clocks.still (t : Time) : Clocks where
  now := fun _ => t
  clk := fun _ => t
  commit := t
  mono := fun _ _ _ => Nat.le_refl t
  le_commit := fun _ => Nat.le_refl t

end RogiCollector.Ports.Journal
