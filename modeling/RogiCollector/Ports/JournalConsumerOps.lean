import RogiCollector.Ports.JournalOps

/-!
# The donation journal: consumers, recovery and retention

The second half of the store: `collector_consumer.go` and
`collector_maintenance.go`.  Loops of the source are recursions here under a
name of their own: `scanDonations` is the row loop of `ReadDonations`,
`coverRanges` the covering loop of `ResolveRecovery`, `expireLoop` the
retention loop of `ExpireDonations`.
-/

namespace RogiCollector.Ports.Journal

open Verified

/-! ## Reading and acknowledging -/

/-- The payloads of a channel's generation after an offset, in offset order. -/
def selectPayloads (db : Db) (channel generation : String) (after limit : Nat) :
    List Donation :=
  ((orderBy (fun row => row.2.channelOffset)
      (db.donations.select fun _ row =>
        row.channelID = channel ∧ row.generation = generation ∧
          after < row.channelOffset ∧ row.payload.isSome)).take limit).filterMap
    fun row => row.2.payload

/-- The row loop of `ReadDonations`: offsets have to follow one another. -/
def scanDonations (next : Nat) : List Donation → Except StoreErr (List Donation × Nat)
  | [] => .ok ([], next)
  | d :: ds =>
    if d.offset ≠ succUint64 next then .error .cursorExpired
    else
      match scanDonations d.offset ds with
      | .error e => .error e
      | .ok (rest, last) => .ok (d :: rest, last)

/-- The effective page size of `ReadDonations`. -/
def pageLimit (limit : Int) : Nat :=
  if limit < 1 ∨ 500 < limit then 100 else limit.toNat

/-- `INSERT … ON CONFLICT DO NOTHING` of a brand new consumer, which starts at
the retained beginning. -/
def withConsumer (db : Db) (key : String × String) (generation : String)
    (baseline : Nat) : Table (String × String) ConsumerRow :=
  match db.consumers.insert key
      { generation, baseline, ackOffset := none, offeredOffset := baseline
        recoveryRevision := 0 } with
  | none => db.consumers
  | some consumers => consumers

def readDonations (t : Clocks) (db : Db) (consumer channel generation : String)
    (after revision : Nat) (limit : Int) :
    Except StoreErr (Db × List Donation × CollectionState) :=
  match db.channels.find channel with
  | none => .error .noRows
  | some c =>
    if generation ≠ c.generation then .error .generation
    else if after < c.expiredThrough then .error .cursorExpired
    else if c.nextOffset < after then .error .cursor
    else
      let consumers := withConsumer db (consumer, channel) generation c.expiredThrough
      match consumers.find (consumer, channel) with
      | none => .error .noRows
      | some p =>
        if p.generation ≠ generation then .error .generation
        else if p.recoveryRevision ≠ revision then .error .revision
        else if after < p.baseline ∨ p.offeredOffset < after then .error .cursor
        else
          match scanDonations after
              (selectPayloads db channel generation after (pageLimit limit)) with
          | .error e => .error e
          | .ok (result, next) =>
            .ok
              ({ db with
                 consumers :=
                   if p.offeredOffset < next then
                     consumers.modify (consumer, channel) fun p =>
                       { p with offeredOffset := next }
                   else consumers },
               result, scanCollection db (t.clk 0) channel c)

def ackDonations (db : Db) (consumer channel generation : String)
    (offset revision : Nat) : Except StoreErr Db :=
  match db.channels.find channel with
  | none => .error .noRows
  | some c =>
    if c.generation ≠ generation then .error .generation
    else if offset < c.expiredThrough then .error .cursorExpired
    else
      match db.consumers.find (consumer, channel) with
      | none => .error .cursor
      | some p =>
        if p.generation ≠ generation then .error .generation
        else if p.recoveryRevision ≠ revision then .error .revision
        else if offset ≤ p.baseline ∨ p.offeredOffset < offset ∨
            p.ackOffset.any (fun ack => offset < ack) then .error .cursor
        else
          .ok { db with
                consumers := db.consumers.modify (consumer, channel) fun p =>
                  { p with ackOffset := some offset } }

/-! ## Idempotent requests -/

/-- `requestResult`: the saved answer of a request that was applied before. -/
def requestResult (B : Backend) (db : Db) (key : RequestKey) (body : String) :
    Except StoreErr (Option SavedResult) :=
  match db.requests.find key with
  | none => .ok none
  | some row =>
    if row.bodyHash ≠ B.requestHash body then .error .conflict else .ok (some row.result)

def saveRequest (B : Backend) (t : Time) (db : Db) (key : RequestKey) (body : String)
    (result : SavedResult) : Except StoreErr Db :=
  match db.requests.insert key
      { bodyHash := B.requestHash body, result, createdAt := t } with
  | none => .error .uniqueViolation
  | some requests => .ok { db with requests }

/-- `json.Marshal` of a boolean. -/
def marshalBool (b : Bool) : String := if b then "true" else "false"

/-- Close every grant of a channel that is still open. -/
def closeGrants (db : Db) (channel : String) (t : Time) : Table String GrantRow :=
  db.grants.update fun _ row => if row.channelID = channel then row.close t else row

def setSubscription (B : Backend) (t : Clocks) (db : Db) (consumer channel key : String)
    (enabled : Bool) : Except StoreErr (Db × Bool) :=
  if key = "" ∨ 200 < key.utf8ByteSize then .error .cursor
  else
    match db.channels.find channel with
    | none => .error .noRows
    | some _ =>
      match requestResult B db ⟨consumer, channel, .subscription, key⟩
          (marshalBool enabled) with
      | .error e => .error e
      | .ok (some (.subscription old)) => .ok (db, old)
      | .ok (some (.recovery _)) => .error .conflict
      | .ok none =>
        if enabled ∧ channel ∈ db.optOuts then .error .collectionDisabled
        else
          match saveRequest B (t.clk 2)
              { db with
                channels := db.channels.modify channel fun c =>
                  { c with subscribed := enabled }
                grants :=
                  if enabled then db.grants else closeGrants db channel (t.clk 1) }
              ⟨consumer, channel, .subscription, key⟩ (marshalBool enabled)
              (.subscription enabled) with
          | .error e => .error e
          | .ok db' => .ok (db', enabled)

/-! ## Recovery -/

/-- The covering loop of `ResolveRecovery`: how far the declared ranges reach
without a hole, `none` when one is malformed or starts behind a hole. -/
def coverRanges (previous : String) (covered : Nat) : List LossRange → Option Nat
  | [] => some covered
  | r :: rs =>
    if r.startGeneration ≠ previous ∨ r.endGeneration ≠ previous ∨
        r.endOffset < r.startOffset then none
    else if succUint64 covered < r.startOffset then none
    else coverRanges previous (if covered < r.endOffset then r.endOffset else covered) rs

/-- Skipping retained events of one generation needs an explicit inclusive
loss range for each of them. -/
def lossDeclared (B : Backend) (previous next : String) (old resume : Nat)
    (request : String) : Bool :=
  if previous = next ∧ old < resume then
    match B.unrecoveredRanges request with
    | none => false
    | some ranges => coverRanges previous old ranges = some resume
  else true

/-- The progress `ResolveRecovery` decides on; a consumer without a row is in
the generation it names. -/
def recoveryProgress (db : Db) (key : String × String) (previous : String) :
    ConsumerRow :=
  (db.consumers.find key).getD
    { generation := previous, baseline := 0, ackOffset := none, offeredOffset := 0
      recoveryRevision := 0 }

def resolveRecovery (B : Backend) (t : Clocks) (db : Db)
    (consumer channel key previous next : String) (resume expected : Nat)
    (request : String) : Except StoreErr (Db × RecoveryDecision) :=
  match db.channels.find channel with
  | none => .error .noRows
  | some c =>
    match requestResult B db ⟨consumer, channel, .recovery, key⟩ request with
    | .error e => .error e
    | .ok (some (.recovery saved)) => .ok (db, saved)
    | .ok (some (.subscription _)) => .error (.new "json: cannot unmarshal")
    | .ok none =>
      if next ≠ c.generation then .error .generation
      else if resume < c.expiredThrough ∨ c.nextOffset < resume then .error .cursor
      else
        let p := recoveryProgress db (consumer, channel) previous
        if p.generation ≠ previous then .error .generation
        else if expected = maxUint64 then .error .revision
        else if expected ≠ p.recoveryRevision then .error .revision
        else if previous = next ∧ resume < p.position then .error .cursor
        else if !lossDeclared B previous next p.position resume request then
          .error .cursor
        else
          let result : RecoveryDecision :=
            { previousGeneration := previous, newGeneration := next
              previousOffset := p.position, resumeFrom := resume
              revision := expected + 1 }
          match saveRequest B (t.clk 1)
              { db with
                consumers := db.consumers.upsert (consumer, channel)
                  { generation := next, baseline := resume, ackOffset := none
                    offeredOffset := resume, recoveryRevision := expected + 1 } }
              ⟨consumer, channel, .recovery, key⟩ request (.recovery result) with
          | .error e => .error e
          | .ok db' =>
            if !B.jsonb request then .error (.new "invalid input syntax for type json")
            else
              .ok
                ({ db' with
                   audit := db'.audit ++
                     [{ consumerID := consumer, channelID := channel
                        entry := .decision request result, createdAt := t.clk 2 }] },
                 result)

/-! ## Retention -/

/-- One row of the candidate query of `ExpireDonations`. -/
structure Candidate where
  offset : Nat
  storedAt : Time
  size : Int
  deriving Repr, DecidableEq

/-- The oldest 500 payloads of the channel's generation. -/
def candidates (B : Backend) (db : Db) (channel generation : String) : List Candidate :=
  ((orderBy (fun row => row.2.channelOffset)
      (db.donations.select fun _ row =>
        row.channelID = channel ∧ row.generation = generation ∧
          row.payload.isSome)).take 500).filterMap
    fun row =>
      row.2.payload.map fun d => ⟨row.2.channelOffset, row.2.storedAt, B.columnSize d⟩

/-- No consumer at all, or one that has not come as far as `offset` in the
current generation. -/
def unacked (db : Db) (channel generation : String) (offset : Nat) : Bool :=
  !db.consumers.any (fun key _ => key.2 = channel) ||
    db.consumers.any fun key p =>
      key.2 = channel ∧ (p.generation ≠ generation ∨ p.position < offset)

/-- `time.Since(at)`, which is negative for an instant still to come. -/
def since (now at_ : Time) : Int := (now : Int) - at_

/-- The retention loop: how far payloads may go.  Candidate `i` reads the
process clock at most twice. -/
def expireLoop (db : Db) (channel generation : String) (now : Nat → Time)
    (minAge maxAge maxPayloadBytes : Int) :
    Nat → Nat → Int → List Candidate → Nat
  | _, through, _, [] => through
  | i, through, total, v :: vs =>
    if since (now (2 * i)) v.storedAt > maxAge ∨ total > maxPayloadBytes then
      expireLoop db channel generation now minAge maxAge maxPayloadBytes
        (i + 1) v.offset (total - v.size) vs
    else if since (now (2 * i + 1)) v.storedAt < minAge then through
    else if unacked db channel generation v.offset then through
    else
      expireLoop db channel generation now minAge maxAge maxPayloadBytes
        (i + 1) v.offset (total - v.size) vs

def expireDonations (B : Backend) (t : Clocks) (db : Db) (channel : String)
    (minAge maxAge maxPayloadBytes : Int) : Except StoreErr Db :=
  if minAge < 0 ∨ maxAge < minAge ∨ maxPayloadBytes ≤ 0 then
    .error (.new "invalid retention policy")
  else
    match db.channels.find channel with
    | none => .error .noRows
    | some c =>
      let through := expireLoop db channel c.generation t.now minAge maxAge
        maxPayloadBytes 0 c.expiredThrough (payloadBytes B db channel)
        (candidates B db channel c.generation)
      if c.expiredThrough < through then
        .ok { db with
              donations := db.donations.update fun _ row =>
                if row.channelID = channel ∧ row.generation = c.generation ∧
                    row.channelOffset ≤ through then { row with payload := none }
                else row
              channels := db.channels.modify channel fun c =>
                { c with expiredThrough := through } }
      else .ok db

/-! ## Maintenance -/

/-- `created_at < clock_timestamp() - interval '… days'`. -/
def olderThan (t at_ : Time) (days : Nat) : Bool := at_ + days * day < t

/-- The second transaction of `MaintainCollection`: five deletes in order.
A tombstone goes only once its outbox entry is gone, a grant only when the
channel does not point at it. -/
def purgeCollection (t : Clocks) (db : Db) (channel : String) : Db :=
  let outbox := db.outbox.delete fun _ row =>
    row.channelID = channel ∧ olderThan (t.clk 0) row.createdAt 90
  { db with
    outbox
    donations := db.donations.delete fun eventID row =>
      row.channelID = channel ∧ row.payload = none ∧
        olderThan (t.clk 1) row.storedAt 90 ∧ !outbox.any (fun id _ => id = eventID)
    grants := db.grants.delete fun token row =>
      row.channelID = channel ∧ olderThan (t.clk 2) row.validUntil 90 ∧
        (db.channels.find channel).bind (·.ownerToken) ≠ some token
    requests := db.requests.delete fun key row =>
      key.channelID = channel ∧ olderThan (t.clk 3) row.createdAt 90
    audit := db.audit.filter fun row =>
      !(row.channelID = channel ∧ olderThan (t.clk 4) row.createdAt 365) }

/-- `MaintainCollection`: retention with the product's limits, then the purge
in a transaction of its own. -/
def maintainCollection (B : Backend) (t : Clocks) (db : Db) (channel : String) :
    Except StoreErr Db :=
  match expireDonations B t db channel (7 * day) (30 * day) (2 ^ 30 - 2 ^ 20) with
  | .error e => .error e
  | .ok db' => .ok (purgeCollection t db' channel)

/-- `RotateJournal`; `uuid` is the generation it draws.  Tombstones move to
the new generation too, and a payload changes in `journalGeneration` only. -/
def rotateJournal (t : Clocks) (uuid : String) (db : Db)
    (channel expected reason : String) : Except StoreErr (Db × String) :=
  if channel = "" ∨ expected = "" ∨ reason = "" then
    .error (.new "channel, expected generation and restore reason required")
  else
    match db.channels.find channel with
    | none => .error .noRows
    | some c =>
      if c.generation ≠ expected then .error .generation
      else if db.donations.any (fun _ kept =>
          kept.channelID = channel ∧ kept.generation = uuid ∧ uuid ≠ c.generation ∧
            db.donations.any (fun _ moved =>
              moved.channelID = channel ∧ moved.generation = c.generation ∧
                moved.channelOffset = kept.channelOffset)) then
        .error .uniqueViolation
      else
        .ok
          ({ db with
             grants := closeGrants db channel (t.clk 0)
             donations := db.donations.update fun _ row =>
               if row.channelID = channel ∧ row.generation = c.generation then
                 { row with
                   generation := uuid
                   payload := row.payload.map fun d => { d with generation := uuid } }
               else row
             channels := db.channels.modify channel fun c =>
               { c with
                 generation := uuid
                 ownerToken := none
                 runtimeState := "recovery_required"
                 stateAt := t.clk 1 }
             audit := db.audit ++
               [{ consumerID := "collector_restore", channelID := channel
                  entry := .restore reason c.generation uuid, createdAt := t.clk 2 }] },
           uuid)

end RogiCollector.Ports.Journal
