import RogiCollector.Verified.OrderBy
import RogiCollector.Ports.JournalSchema

/-!
# The donation journal: transactions

`shared/store/collector.go`, `collector_consumer.go` and
`collector_maintenance.go`, statement by statement.  A transaction is a
function from the database to either an error (rolled back: the caller keeps
the old database) or the committed database with what the Go function
returns.  Each definition reads its clocks in the order the source does.

Checks stand in the source's order.  The order matters to callers: a donation
that was journaled before is recognised before its grant is looked at, and a
generation mismatch is reported before either.
-/

namespace RogiCollector.Ports.Journal

open Verified

/-! ## Reading a channel -/

/-- The `SELECT` behind `collectionColumns`: a connected channel whose owner
has no valid grant reads as reconnecting. -/
def scanCollection (db : Db) (t : Time) (channel : String) (c : ChannelRow) :
    CollectionState where
  channel := channel
  generation := c.generation
  current := c.nextOffset
  expiredThrough := c.expiredThrough
  subscribed := c.subscribed
  runtime :=
    if c.runtimeState = "connected" ∧
        !db.grants.any (fun token g =>
          c.ownerToken = some token ∧ g.closedAt = none ∧ t < g.validUntil) then
      "reconnecting"
    else c.runtimeState
  stateAt := c.stateAt
  lastReceived := c.lastReceivedAt

def enabledTX (db : Db) (channel : String) : Except StoreErr Unit :=
  match db.channels.find channel with
  | none => .error .noRows
  | some c =>
    if c.subscribed ∧ channel ∉ db.optOuts then .ok () else .error .collectionDisabled

/-- `EnsureCollection`; `uuid` is the generation it draws. -/
def ensureCollection (B : Backend) (t : Clocks) (uuid : String) (db : Db)
    (channel : String) : Except StoreErr Db :=
  if channel = "" then .ok db
  else if !B.allowsCollection channel then .error .collectionDisabled
  else
    match db.channels.insert channel
        { generation := uuid, nextOffset := 0, expiredThrough := 0
          subscribed := true, ownerToken := none, runtimeState := "waiting"
          stateAt := t.clk 0, lastReceivedAt := none } with
    | none => .ok db
    | some channels => .ok { db with channels }

def setCollectionState (t : Clocks) (db : Db) (channel state : String) : Db :=
  { db with
    channels := db.channels.modify channel fun c =>
      { c with runtimeState := state, stateAt := t.clk 0 } }

/-- `CollectionHeartbeat`; `last = 0` is the zero time and leaves
`last_received_at` alone, otherwise `GREATEST` ignores a `NULL`. -/
def collectionHeartbeat (t : Clocks) (db : Db) (g : OwnerGrant) (state : String)
    (last : Time) : Db :=
  { db with
    channels := db.channels.modify g.channel fun c =>
      if c.ownerToken = some g.token then
        { c with
          runtimeState := state
          stateAt := t.clk 0
          lastReceivedAt :=
            if last = 0 then c.lastReceivedAt
            else some (max (c.lastReceivedAt.getD last) last) }
      else c }

/-! ## Ownership -/

/-- The lease length of a grant. -/
def leaseTime : Nat := 30 * second

/-- `valid_until > clock_timestamp() AND closed_at IS NULL`. -/
def GrantRow.valid (g : GrantRow) (t : Time) : Bool :=
  t < g.validUntil ∧ g.closedAt = none

/-- Whether the channel's owner pointer still holds a valid grant. -/
def ownerValid (db : Db) (t : Time) : Option String → Except StoreErr Bool
  | none => .ok false
  | some token =>
    match db.grants.find token with
    | none => .error .noRows
    | some g => .ok (g.valid t)

/-- `AcquireCollection`; `uuid` is the token it draws. -/
def acquireCollection (B : Backend) (t : Clocks) (uuid : String) (db : Db)
    (channel worker : String) : Except StoreErr (Db × OwnerGrant) :=
  if !B.allowsCollection channel then .error .collectionDisabled
  else
    match db.channels.find channel with
    | none => .error .noRows
    | some c =>
      match enabledTX db channel with
      | .error e => .error e
      | .ok () =>
        if (channel, worker) ∉ db.live then .error .owner
        else
          match ownerValid db (t.clk 0) c.ownerToken with
          | .error e => .error e
          | .ok true => .error .owner
          | .ok false =>
            match db.grants.insert uuid
                { channelID := channel, workerID := worker
                  generation := c.generation, grantedAt := t.clk 1
                  validUntil := t.clk 2 + leaseTime, closedAt := none } with
            | none => .error .uniqueViolation
            | some grants =>
              .ok
                ({ db with
                   grants
                   channels := db.channels.modify channel fun c =>
                     { c with
                       ownerToken := some uuid
                       runtimeState := "connecting"
                       stateAt := t.clk 3 } },
                 { token := uuid, channel, generation := c.generation
                   grantedAt := t.clk 1, validUntil := t.clk 2 + leaseTime })

def renewCollection (t : Clocks) (db : Db) (g : OwnerGrant) :
    Except StoreErr (Db × Time) :=
  match db.channels.find g.channel with
  | none => .error .noRows
  | some c =>
    if c.ownerToken ≠ some g.token ∨ c.generation ≠ g.generation then .error .owner
    else
      match enabledTX db g.channel with
      | .error e => .error e
      | .ok () =>
        match db.grants.find g.token with
        | none => .error .owner
        | some row =>
          if row.valid (t.clk 0) ∧ (row.channelID, row.workerID) ∈ db.live then
            .ok
              ({ db with
                 grants := db.grants.modify g.token fun row =>
                   { row with validUntil := t.clk 1 + leaseTime } },
               t.clk 1 + leaseTime)
          else .error .owner

/-- `closed_at = COALESCE(closed_at, clock_timestamp())`. -/
def GrantRow.close (g : GrantRow) (t : Time) : GrantRow :=
  { g with closedAt := some (g.closedAt.getD t) }

def releaseCollection (t : Clocks) (db : Db) (g : OwnerGrant) : Db :=
  { db with grants := db.grants.modify g.token fun row => row.close (t.clk 0) }

/-! ## Appending -/

/-- The acceptance check of `AppendDonation` on the grant's row. -/
def GrantRow.accepts (row : GrantRow) (g : OwnerGrant) (acceptedAt t : Time) : Bool :=
  row.channelID = g.channel ∧ row.generation = g.generation ∧
    row.grantedAt ≤ acceptedAt ∧ acceptedAt ≤ row.validUntil ∧
    row.closedAt.all (fun closed => acceptedAt ≤ closed) ∧ acceptedAt ≤ t + second

/-- The members a replay has to agree on with the journaled observation. -/
def Donation.sameObservation (d original : Donation) : Bool :=
  d.channelID = original.channelID ∧ d.connectionEpoch = original.connectionEpoch ∧
    d.sequence = original.sequence ∧ d.count = original.count ∧
    d.donorID = original.donorID ∧ d.message = original.message

/-- The content key: no hash of the raw packet, only what a viewer can see. -/
def contentKey (B : Backend) (d : Donation) : String :=
  B.sha256Hex (d.donorID ++ "\x00" ++ toString d.count ++ "\x00" ++ d.kind ++ "\x00" ++
    d.message)

/-- The latest matching observation of another connection in the 30 seconds
before `d`. -/
def relatedObservation (db : Db) (d : Donation) (key : String) : Option String :=
  ((db.donations.select fun _ row =>
      row.channelID = d.channelID ∧ row.contentKey = key ∧
        row.connectionEpoch ≠ d.connectionEpoch ∧
        d.observedAt ≤ row.observedAt + 30 * second ∧ row.observedAt ≤ d.observedAt)
    |>.insertionSort fun a b => b.2.observedAt ≤ a.2.observedAt).head?.map Prod.fst

/-- Identity evidence of a fresh observation: soon after a reconnect, a
matching observation on another connection makes it ambiguous. -/
def withIdentity (db : Db) (d : Donation) (key : String) : Donation :=
  let plain := { d with identity := "observation_only" }
  if d.connectionStartedAt ≠ 0 ∧
      d.observedAt < d.connectionStartedAt + 10 * second then
    match relatedObservation db d key with
    | some related =>
      { plain with
        identity := "reconnect_ambiguous"
        reasons := ["matching_observation_after_reconnect"]
        related := [related] }
    | none => plain
  else plain

/-- `COALESCE(sum(pg_column_size(payload)), 0)` over a channel. -/
def payloadBytes (B : Backend) (db : Db) (channel : String) : Int :=
  ((db.donations.select fun _ row => row.channelID = channel).filterMap
    fun row => row.2.payload.map B.columnSize).sum

/-- The tail of `AppendDonation` for an event that is not in the journal. -/
def appendNew (B : Backend) (t : Clocks) (db : Db) (c : ChannelRow) (g : OwnerGrant)
    (d : Donation) (acceptedAt : Time) : Except StoreErr (Db × Donation) :=
  match enabledTX db d.channelID with
  | .error e => .error e
  | .ok () =>
    match db.grants.find g.token with
    | none => .error .owner
    | some row =>
      if !row.accepts g acceptedAt (t.clk 1) then .error .owner
      else if c.nextOffset = maxUint64 then .error (.new "journal offset exhausted")
      else if d.sourceID ≠ none then .error (.new "unverified SOOP source identity")
      else
        let key := contentKey B d
        let d := withIdentity db
          { d with generation := c.generation, offset := c.nextOffset + 1 } key
        match B.marshalLen d with
        | none => .error (.new "json: unsupported value")
        | some len =>
          if 2 ^ 30 < payloadBytes B db d.channelID + len then .error .journalFull
          else if !B.storable d then .error (.new "unsupported text")
          else if db.donations.any (fun _ row =>
              row.channelID = d.channelID ∧ row.generation = d.generation ∧
                row.channelOffset = d.offset) then .error .uniqueViolation
          else
            match db.donations.insert d.eventID
                { channelID := d.channelID, generation := d.generation
                  channelOffset := d.offset, contentKey := key
                  connectionEpoch := d.connectionEpoch, observedAt := d.observedAt
                  payload := some d, storedAt := t.clk 2 } with
            | none => .error .uniqueViolation
            | some donations =>
              match db.outbox.insert d.eventID
                  { channelID := d.channelID, createdAt := t.clk 3 } with
              | none => .error .uniqueViolation
              | some outbox =>
                .ok
                  ({ db with
                     donations
                     outbox
                     channels := db.channels.modify d.channelID fun c =>
                       { c with
                         nextOffset := d.offset
                         lastReceivedAt := some d.observedAt } }, d)

def appendDonation (B : Backend) (t : Clocks) (db : Db) (g : OwnerGrant) (d : Donation)
    (acceptedAt : Time) : Except StoreErr (Db × Donation) :=
  match d.validate with
  | .error e => .error e
  | .ok () =>
    if acceptedAt + 30 * day < t.now 0 then .error .cursorExpired
    else if d.channelID ≠ g.channel ∨ !B.allowsCollection d.channelID then
      .error .collectionDisabled
    else
      match db.channels.find d.channelID with
      | none => .error .noRows
      | some c =>
        if g.generation ≠ c.generation then .error .generation
        else
          match db.donations.find d.eventID with
          | some row =>
            -- The tombstone outlives the payload; a replay never recreates it.
            match row.payload with
            | none => .error .cursorExpired
            | some old =>
              if (old.unmarshalInto d).sameObservation d then
                .ok (db, old.unmarshalInto d)
              else .error .conflict
          | none => appendNew B t db c g d acceptedAt

/-- One `DELETE` of `DispatchDonationOutbox`, after its notification. -/
def dispatchOutbox (db : Db) (eventID : String) : Db :=
  { db with outbox := db.outbox.delete fun id _ => id = eventID }

end RogiCollector.Ports.Journal
