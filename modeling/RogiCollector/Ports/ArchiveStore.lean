import RogiCollector.Verified.OrderBy
import RogiCollector.Ports.JournalSchema

/-!
# The chat archive: rows, segments and transactions

`shared/store/postgres_chat_archive.go`, `query/archive/postgres.go`,
`segment.go` and `object_store.go`, with the tables of migrations 007 and
009.  A chat is a hot row until an exporter has moved it into an immutable
object; `archive_event_ids` remembers every chat for good.

The transactions that take the advisory lock run one after the other, so each
is a function on the database that either fails, and is rolled back, or
commits.  The identity column hands its values in from outside, increasing,
whether or not the transaction that drew one commits.

Encoding, compression and hashing are library code and stay parameters
(`Codec`), with the laws their documentation promises.  Everything the
repository computes itself (limits, order and identity checks, counts, keys)
is spelled out.
-/

namespace RogiCollector.Ports.Archive

open Verified
open Journal (Time Backend second)

/-! ## Data -/

/-- `model.Platform`. -/
inductive Platform where
  | chzzk
  | soop
  | cime
  deriving Repr, DecidableEq

/-- `ChatRow`: an `archive_chat_hot` row, and a line of a segment. -/
structure ChatRow where
  sessionID : String
  position : Nat
  eventID : String
  receivedAt : Time
  userIDVersion : Int
  publicUserID : String
  displayName : String
  message : String
  deriving Repr, DecidableEq

/-- `ArchiveChatRecord`. -/
structure ChatRecord where
  spoolID : String
  eventID : String
  platform : Platform
  channelID : String
  receivedAt : Time
  userIDVersion : Int
  publicUserID : String
  displayName : String
  message : String
  deriving Repr, DecidableEq

/-- What `AppendArchiveChat` reads of `broadcast_sessions`. -/
structure BroadcastRow where
  platform : Platform
  channelID : String
  startedAt : Time
  sessionSeq : Nat
  startedObservedAt : Time
  lastSeenAt : Time
  endedObservedAt : Option Time
  deriving Repr, DecidableEq

/-- `archive_sessions`, keyed by `session_id`. -/
structure SessionRow where
  platform : Platform
  channelID : String
  sourceStartedAt : Time
  sourceSessionSeq : Nat
  recordingStartedAt : Option Time
  deriving Repr, DecidableEq

/-- The `reason` column of `archive_unassigned_chat`. -/
inductive Unassigned where
  | noOpenSession
  | ambiguousSession
  deriving Repr, DecidableEq

/-- `archive_segments`, keyed by `(session_id, first_position, last_position)`. -/
structure SegmentRow where
  messageCount : Nat
  objectBucket : String
  objectKey : String
  sha256 : String
  byteLength : Nat
  deriving Repr, DecidableEq

/-- The key of a segment in the index. -/
structure Range where
  sessionID : String
  first : Nat
  last : Nat
  deriving Repr, DecidableEq

/-- `session_id = session AND position BETWEEN first AND last`. -/
def Range.covers (g : Range) (session : String) (position : Nat) : Bool :=
  g.sessionID = session ∧ g.first ≤ position ∧ position ≤ g.last

/-- Errors of the archive; `tooLarge` is `ErrSegmentTooLarge`, `notFound`
`ErrSessionNotFound`, `disabled` `ErrCollectionDisabled`, `io` an error of a
library or the network, and `wrap` what `fmt.Errorf` makes of `%w`. -/
inductive ArchiveErr where
  | tooLarge
  | notFound
  | disabled
  | uniqueViolation
  | io
  | new (text : String)
  | wrap (text : String) (e : ArchiveErr)
  deriving Repr, DecidableEq

structure Segment (β : Type) where
  body : β
  sha256 : String
  sessionID : String
  firstPosition : Nat
  lastPosition : Nat
  count : Nat
  deriving DecidableEq

/-- `Segment.ObjectKey`. -/
def objectKey (session : String) (first last : Nat) (sha256 : String) : String :=
  "v1/soop/h66rogi/" ++ session ++ "/" ++ toString first ++ "-" ++ toString last ++ "-" ++
    sha256 ++ ".jsonl.gz"

def Segment.objectKey {β : Type} (g : Segment β) : String :=
  Archive.objectKey g.sessionID g.firstPosition g.lastPosition g.sha256

def Segment.range {β : Type} (g : Segment β) : Range :=
  ⟨g.sessionID, g.firstPosition, g.lastPosition⟩

/-! ## Library code -/

/-- What the archive calls from `encoding/json`, `compress/gzip`,
`crypto/sha256`, `uuid` and `regexp`.  `β` is the type of object bodies. -/
structure Codec (β : Type) where
  /-- Length of `json.Marshal row`, `none` when it fails. -/
  lineLen : ChatRow → Option Nat
  /-- The rows as newline-terminated JSON, compressed. -/
  encode : List ChatRow → β
  size : β → Nat
  sha256Hex : β → String
  /-- Length of the decompressed text, `none` for a damaged body. -/
  plainLen : β → Option Nat
  /-- The rows the JSON decoder yields, and whether it then meets the end. -/
  decode : β → List ChatRow × Bool
  parseUUID : String → Bool
  validObject : String → String → Bool
  round_trip : ∀ rows : List ChatRow, (∀ r ∈ rows, (lineLen r).isSome = true) →
    decode (encode rows) = (rows, true)
  plain_encode : ∀ rows : List ChatRow,
    plainLen (encode rows) = some (rows.map fun r => (lineLen r).getD 0 + 1).sum
  sha256_slash : ∀ body, '/' ∉ (sha256Hex body).toList

/-! ## Segments -/

def maxSegmentRows : Nat := 1000
def maxSegmentPlainBytes : Nat := 2 ^ 24
def maxSegmentGzipBytes : Nat := 2 ^ 24

variable {β : Type}

/-- The row loop of `Build`: `previous` and the length written so far. -/
def buildRows (K : Codec β) (session : String) : Nat → Nat → List ChatRow →
    Except ArchiveErr Nat
  | previous, _, [] => .ok previous
  | previous, plain, row :: rest =>
    if row.sessionID ≠ session ∨ row.position ≤ previous ∨ row.eventID = "" ∨
        row.receivedAt = 0 then
      .error (.new "unordered or invalid archive rows")
    else
      match K.lineLen row with
      | none => .error (.new "json: unsupported value")
      | some len =>
        if maxSegmentPlainBytes < plain + len + 1 then .error .tooLarge
        else buildRows K session row.position (plain + len + 1) rest

def build (K : Codec β) (rows : List ChatRow) : Except ArchiveErr (Segment β) :=
  match rows with
  | [] => .error (.new "invalid segment row count")
  | first :: _ =>
    if maxSegmentRows < rows.length then .error (.new "invalid segment row count")
    else if !K.parseUUID first.sessionID ∨ first.position = 0 then
      .error (.new "invalid first archive row")
    else
      match buildRows K first.sessionID 0 0 rows with
      | .error e => .error e
      | .ok last =>
        if maxSegmentGzipBytes < K.size (K.encode rows) then .error .tooLarge
        else
          .ok
            { body := K.encode rows, sha256 := K.sha256Hex (K.encode rows)
              sessionID := first.sessionID, firstPosition := first.position
              lastPosition := last, count := rows.length }

/-- The loop of `RunOnce`: halve the batch while the segment is too large.
The batch shrinks each time, so its length bounds the number of rounds. -/
def buildLoop (K : Codec β) : Nat → List ChatRow → Except ArchiveErr (Segment β)
  | 0, rows => build K rows
  | fuel + 1, rows =>
    match build K rows with
    | .error .tooLarge =>
      if 1 < rows.length then buildLoop K fuel (rows.take (rows.length / 2))
      else .error .tooLarge
    | result => result

def buildHalving (K : Codec β) (rows : List ChatRow) : Except ArchiveErr (Segment β) :=
  buildLoop K rows.length rows

/-- The row loop of `Decode`: `n` rows were taken before. -/
def decodeRows (g : Segment β) : Nat → Nat → List ChatRow → Except ArchiveErr Nat
  | previous, _, [] => .ok previous
  | previous, n, row :: rest =>
    if row.sessionID ≠ g.sessionID ∨ row.position ≤ previous ∨ row.eventID = "" ∨
        row.receivedAt = 0 then
      .error (.new "segment row identity or order mismatch")
    else if g.count < n + 1 then .error (.new "segment row count exceeded")
    else decodeRows g row.position (n + 1) rest

def decode (K : Codec β) (g : Segment β) : Except ArchiveErr (List ChatRow) :=
  if !K.parseUUID g.sessionID ∨ K.size g.body = 0 ∨ maxSegmentGzipBytes < K.size g.body ∨
      g.count < 1 ∨ maxSegmentRows < g.count ∨ g.firstPosition = 0 ∨
      g.lastPosition < g.firstPosition then
    .error (.new "invalid segment metadata")
  else if K.sha256Hex g.body ≠ g.sha256 then .error (.new "segment checksum mismatch")
  else
    match K.plainLen g.body with
    | none => .error (.new "gzip: invalid header")
    | some len =>
      if maxSegmentPlainBytes < len then .error (.new "segment decompression limit")
      else
        match decodeRows g 0 0 (K.decode g.body).1 with
        | .error e => .error e
        | .ok previous =>
          if !(K.decode g.body).2 then .error (.wrap "decode archive row" .io)
          else if (K.decode g.body).1.length ≠ g.count ∨
              (K.decode g.body).1.head?.map (·.position) ≠ some g.firstPosition ∨
              previous ≠ g.lastPosition then
            .error (.new "segment range or count mismatch")
          else .ok (K.decode g.body).1

/-! ## The database -/

/-- The archive's tables, the identity column's last value, and the rows ever
inserted in the order of their positions (`log`, which no transaction reads). -/
structure Db where
  broadcasts : List BroadcastRow
  sessions : Table String SessionRow
  eventIDs : Table (String × String) Nat
  hot : Table Nat ChatRow
  unassigned : Table String (ChatRecord × Unassigned)
  segments : Table Range SegmentRow
  lastPosition : Nat
  log : List ChatRow

def Db.empty : Db :=
  ⟨[], Table.empty, Table.empty, Table.empty, Table.empty, Table.empty, 0, []⟩

/-- `hex.DecodeString` succeeds with 32 bytes. -/
def hex32 (s : String) : Bool :=
  s.toList.length = 64 ∧ s.toList.all fun c =>
    ('0' ≤ c ∧ c ≤ '9') ∨ ('a' ≤ c ∧ c ≤ 'f') ∨ ('A' ≤ c ∧ c ≤ 'F')

/-- `ArchiveChatRecord.Validate`. -/
def ChatRecord.validate (K : Codec β) (r : ChatRecord) : Except ArchiveErr Unit :=
  if !K.parseUUID r.spoolID then .error (.new "invalid archive spool ID")
  else if r.eventID = "" ∨ 255 < r.eventID.utf8ByteSize ∨ r.platform ≠ .soop ∨
      r.channelID = "" ∨ r.receivedAt = 0 ∨ r.userIDVersion < 1 ∨
      65536 < r.message.utf8ByteSize ∨ 2048 < r.displayName.utf8ByteSize then
    .error (.new "invalid archive chat record")
  else if !hex32 r.publicUserID then .error (.new "invalid public user ID")
  else .ok ()

/-- The broadcasts a record may belong to, latest first, at most two. -/
def matchingBroadcasts (db : Db) (r : ChatRecord) : List BroadcastRow :=
  ((db.broadcasts.filter fun b =>
      b.platform = r.platform ∧ b.channelID = r.channelID ∧
        b.startedObservedAt ≤ r.receivedAt + 30 * second ∧
        b.startedAt ≤ r.receivedAt + 30 * second ∧
        r.receivedAt ≤ b.lastSeenAt + 600 * second ∧
        b.endedObservedAt.all fun ended => r.receivedAt ≤ ended)
    |>.insertionSort fun a b => b.startedAt ≤ a.startedAt).take 2

/-- The session of a broadcast. -/
def sessionOf (db : Db) (r : ChatRecord) (b : BroadcastRow) : Option String :=
  (db.sessions.select fun _ row =>
    row.platform = r.platform ∧ row.channelID = r.channelID ∧
      row.sourceStartedAt = b.startedAt ∧ row.sourceSessionSeq = b.sessionSeq).head?.map Prod.fst

/-- `INSERT INTO archive_sessions ... ON CONFLICT DO NOTHING`; `uuid` is drawn
in any case. -/
def ensureSession (db : Db) (uuid : String) (r : ChatRecord) (b : BroadcastRow) :
    Except ArchiveErr (Table String SessionRow × String) :=
  match sessionOf db r b with
  | some session => .ok (db.sessions, session)
  | none =>
    match db.sessions.insert uuid
        ⟨r.platform, r.channelID, b.startedAt, b.sessionSeq, none⟩ with
    | none => .error .uniqueViolation
    | some sessions => .ok (sessions, uuid)

/-- The hot row of a record. -/
def ChatRecord.row (r : ChatRecord) (session : String) (position : Nat) : ChatRow :=
  { sessionID := session, position, eventID := r.eventID, receivedAt := r.receivedAt
    userIDVersion := r.userIDVersion, publicUserID := r.publicUserID
    displayName := r.displayName, message := r.message }

/-- `AppendArchiveChat`; `position` is what the identity column hands out. -/
def appendArchiveChat (K : Codec β) (B : Backend) (uuid : String) (position : Nat) (db : Db)
    (r : ChatRecord) : Except ArchiveErr (Db × Bool) :=
  match r.validate K with
  | .error e => .error e
  | .ok () =>
    if !B.allowsCollection r.channelID then .error .disabled
    else
      match matchingBroadcasts db r with
      | [b] =>
        match ensureSession db uuid r b with
        | .error e => .error e
        | .ok (sessions, session) =>
          match db.eventIDs.insert (session, r.eventID) position with
          | none =>
            -- Journaled before: only the review queue is cleaned up.
            .ok
              ({ db with
                 sessions
                 unassigned := db.unassigned.delete fun id _ => id = r.spoolID }, true)
          | some eventIDs =>
            match db.hot.insert position (r.row session position) with
            | none => .error (.wrap "insert hot archive row" .uniqueViolation)
            | some hot =>
              .ok
                ({ db with
                   sessions := sessions.modify session fun row =>
                     { row with
                       recordingStartedAt :=
                         some (min (row.recordingStartedAt.getD r.receivedAt)
                           r.receivedAt) }
                   eventIDs
                   hot
                   unassigned := db.unassigned.delete fun id _ => id = r.spoolID
                   log := db.log ++ [r.row session position] }, true)
      | matches_ =>
        let reason := if 1 < matches_.length then .ambiguousSession else .noOpenSession
        match db.unassigned.insert r.spoolID (r, reason) with
        | none => .ok (db, false)
        | some unassigned => .ok ({ db with unassigned }, false)

/-! ## Exporting -/

/-- A session of the configured channel. -/
def owned (db : Db) (channel session : String) : Bool :=
  (db.sessions.find session).any fun row => row.platform = .soop ∧ row.channelID = channel

/-- The first hot row that has aged past `cutoff` and is not indexed. -/
def firstCandidate (db : Db) (channel : String) (cutoff : Time) : Option ChatRow :=
  (orderBy Prod.fst (db.hot.select fun position row =>
    owned db channel row.sessionID ∧ row.receivedAt < cutoff ∧
      !db.segments.any fun g _ => g.covers row.sessionID position)).head?.map Prod.snd

/-- `MIN(first_position)` of the session's segments behind `first`. -/
def nextIndexed (db : Db) (session : String) (first : Nat) : Option Nat :=
  ((db.segments.select fun g _ => g.sessionID = session ∧ first < g.first).map
    fun g => g.1.first).min?

/-- Hot rows of a session from `first` on, before `bound`, by position. -/
def hotRows (db : Db) (session : String) (first : Nat) (bound : Option Nat) : List ChatRow :=
  (orderBy Prod.fst (db.hot.select fun position row =>
    row.sessionID = session ∧ first ≤ position ∧ bound.all fun b => position < b)).map Prod.snd

def nextBatch (db : Db) (channel : String) (cutoff : Time) (limit : Nat) :
    Except ArchiveErr (List ChatRow) :=
  if limit < 1 ∨ maxSegmentRows < limit then .error (.new "invalid export batch limit")
  else
    match firstCandidate db channel cutoff with
    | none => .ok []
    | some first =>
      let rows := (hotRows db first.sessionID first.position
        (nextIndexed db first.sessionID first.position)).take limit
      if rows = [] then .error (.new "archive candidate vanished") else .ok rows

/-- The indexed segments that overlap a range. -/
def overlapping (db : Db) (g : Range) : List (Range × SegmentRow) :=
  db.segments.select fun g' _ =>
    g'.sessionID = g.sessionID ∧ ¬(g'.last < g.first ∨ g.last < g'.first)

/-- The index row of a segment. -/
def Segment.row (K : Codec β) (bucket : String) (g : Segment β) : SegmentRow :=
  ⟨g.count, bucket, g.objectKey, g.sha256, K.size g.body⟩

/-- `CommitSegment`; `pick` chooses the row `LIMIT 1` returns. -/
def commitSegment (K : Codec β) (channel bucket : String) (pick : Nat) (db : Db)
    (g : Segment β) : Except ArchiveErr Db :=
  if bucket = "" then .error (.new "archive bucket required")
  else
    match decode K g with
    | .error e => .error (.wrap "unverified segment" e)
    | .ok _ =>
      if !owned db channel g.sessionID then
        .error (.new "archive session outside configured channel")
      else
        match (overlapping db g.range)[pick % (overlapping db g.range).length]? with
        | some (range, row) =>
          if row.objectKey = g.objectKey ∧ row.sha256 = g.sha256 ∧
              row.objectBucket = bucket ∧ row.messageCount = g.count ∧
              range = g.range then .ok db
          else .error (.new "overlapping archive segment")
        | none =>
          if db.segments.any (fun _ row => row.objectKey = g.objectKey) then
            .error .uniqueViolation
          else
            match db.segments.insert g.range (g.row K bucket) with
            | none => .error .uniqueViolation
            | some segments =>
              let affected := (db.hot.select fun position row =>
                g.range.covers row.sessionID position).length
              if affected ≠ g.count then
                .error (.new ("archive hot row count changed: got " ++
                  toString affected ++ " want " ++ toString g.count))
              else
                .ok
                  { db with
                    segments
                    hot := db.hot.delete fun position row =>
                      g.range.covers row.sessionID position }

end RogiCollector.Ports.Archive
