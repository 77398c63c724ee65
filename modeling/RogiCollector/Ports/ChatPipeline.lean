import RogiCollector.Ports.ChatReaders
import RogiCollector.Ports.ChatFile
import RogiCollector.Ports.SoopSession

/-!
# The way of a chat to the public

From a packet of one connection to what anybody may read: the connector makes
a message of it, `forwardMessages` (`worker/internal/manager.go`) hands the
message to the chat archive and to Redis, and the public endpoints read the
stream.  The archive side ends with the record that `AppendArchiveChat` gets.

Time, UUIDs, the identifiers of stream entries, failures and the order of
everything are inputs.  Left out are the ClickHouse writers, opt-outs (a
message that is dropped is one that is not forwarded) and the private readers
of the stream.

A value in Redis is any bytes.  The model of the stream has strings there:
`redisText` gives every byte one character.
-/

namespace RogiCollector.Ports.ChatPipeline

open Verified
open Verified.Json
open Journal (Time Backend)
open Archive (Codec hex32)
open SpoolFile (Encoding omitEmpty)
open ChatSpool (RawChat chatRecord)
open Soop (SoopPacket SoopConnector ChatMessage MessageType EmoteToken)
open ChatStream (Redis Entry ChatCursor Response)

/-! ## Stream fields -/

/-- Bytes as a string of characters below 256. -/
def redisText (b : Bytes) : String := String.ofList (b.map fun x => Char.ofNat x.toNat)

/-- A string that is text. -/
def redisString (s : String) : String := redisText (bytesOf s)

def typeText : MessageType → String
  | .chat => "chat"
  | .donation => "donation"
  | .subscription => "subscription"
  | .system => "system"

variable (E : Encoding)

/-- `json.Marshal` of an emote. -/
def emoteText (e : EmoteToken) : Text :=
  object ([("code", E.bytes e.code), ("start", intText e.start), ("end", intText e.stop)] ++
    omitEmpty "imageUrl" (if e.imageURL = [] then none else some (E.bytes e.imageURL)) ++
    omitEmpty "animated" (if e.animated then some "true".toList else none) ++
    omitEmpty "source" (if e.source = "" then none else some (E.string e.source)))

/-- `ToStreamFields` without `raw`; `timestamp` is the text of the time. -/
def streamFields (m : ChatMessage) (timestamp : String) : List (String × String) :=
  [("id", redisString m.id), ("type", typeText m.type), ("platform", redisString m.platform),
    ("channelId", redisString m.channelID), ("streamerName", redisString m.streamerName),
    ("userId", redisText m.userID), ("nickname", redisText m.nickname),
    ("message", redisText m.message), ("timestamp", timestamp)] ++
  if m.emotes = [] then []
  else [("emotes", redisText (utf8 (array (m.emotes.map (emoteText E)))))]

/-! ## The system -/

/-- The answers of the outside to the connector, the reader's configuration, and
what the worker takes from libraries: `hmacHex` is the hexadecimal HMAC-SHA-256
under the key of the chat spool and `formatTime` the RFC 3339 text of a time. -/
structure Config (β : Type) where
  answers : Nat → Soop.Answers
  reader : ChatStream.Config
  codec : Codec β
  encoding : Encoding
  backend : Backend
  hmacHex : Bytes → String
  formatTime : Time → String
  hmacHex_hex : ∀ b, hex32 (hmacHex b) = true
  sha256_hex : ∀ t, hex32 (encoding.sha256Hex t) = true

/-- The connection, how many of its messages were forwarded, the chats that were
saved with their records, Redis with the readers of the stream, the archive, and
what `recent` answered. -/
structure State where
  session : Soop.Session
  forwarded : Nat
  saved : List (ChatMessage × RawChat)
  chat : ChatStream.State
  db : Archive.Db
  answered : List Response

def State.init (c : SoopConnector) : State where
  session := Soop.Session.start c
  forwarded := 0
  saved := []
  chat := ChatStream.State.init
  db := Archive.Db.empty
  answered := []

/-- What one message meets in `forwardMessages`: the UUID and the time of its
record, whether the spool takes it (it has room and its file can be written), and if
it is published, the script's arguments and the identifier that Redis gives the entry. -/
structure Forward where
  spoolID : String
  receivedAt : Time
  written : Bool
  published : Bool
  uuid : String
  minID : Nat
  id : StreamID
  deriving Repr, DecidableEq

inductive Input where
  | packet (p : SoopPacket)
  | forward (f : Forward)
  | archive (k : Nat) (uuid : String) (position : Nat)
  | broadcasts (rows : List Archive.BroadcastRow)
  | trim (minID : Nat)
  | deleteStream
  | expireGeneration
  | stream (cursor : Option ChatCursor) (ok : Bool) (sent : Nat)
  | iterate (k : Nat) (ok : Bool) (sent : Nat)
  | leave (k : Nat)
  | recent (cursor : Option ChatCursor) (limit : Int) (ok : Bool)

variable {β : Type} (C : Config β)

/-- The record of a message, if `Save` writes it. -/
def savedRecord (f : Forward) (m : ChatMessage) : Option RawChat :=
  match ChatSpool.save C.codec C.encoding C.hmacHex f.spoolID m f.receivedAt with
  | .ok (some _) =>
    if f.written then some (chatRecord C.hmacHex f.spoolID m f.receivedAt) else none
  | _ => none

/-- The entry of a message. -/
def entryOf (f : Forward) (m : ChatMessage) : Entry :=
  ⟨f.id, streamFields C.encoding m (C.formatTime m.timestamp)⟩

/-- One message through `forwardMessages`. -/
def forward (s : State) (f : Forward) (m : ChatMessage) : State :=
  { s with
    forwarded := s.forwarded + 1
    saved := s.saved ++ ((savedRecord C f m).map fun r => (m, r)).toList
    chat :=
      if f.published then ChatStream.step C.reader s.chat (.publish f.uuid f.minID (entryOf C f m))
      else s.chat }

/-- `Drain` brings a record to `AppendArchiveChat`; an error leaves the archive. -/
def archive (db : Archive.Db) (uuid : String) (position : Nat) (r : RawChat) : Archive.Db :=
  match ChatSpool.appendArchiveChat C.codec C.backend uuid position db r.text.record with
  | .ok (db, _) => db
  | .error _ => db

def step (s : State) : Input → State
  | .packet p => { s with session := Soop.handlePacket C.answers s.session p }
  | .forward f =>
    match s.session.emitted[s.forwarded]? with
    | none => s
    | some m => forward C s f m
  | .archive k uuid position =>
    match s.saved[k]? with
    | none => s
    | some (_, r) => { s with db := archive C s.db uuid position r }
  | .broadcasts rows => { s with db := { s.db with broadcasts := rows } }
  | .trim minID => { s with chat := ChatStream.step C.reader s.chat (.trim minID) }
  | .deleteStream => { s with chat := ChatStream.step C.reader s.chat .deleteStream }
  | .expireGeneration => { s with chat := ChatStream.step C.reader s.chat .expireGeneration }
  | .stream cursor ok sent =>
    { s with chat := ChatStream.step C.reader s.chat (.stream cursor ok sent) }
  | .iterate k ok sent => { s with chat := ChatStream.step C.reader s.chat (.iterate k ok sent) }
  | .leave k => { s with chat := ChatStream.step C.reader s.chat (.leave k) }
  | .recent cursor limit ok =>
    let answer := ChatStream.recent C.reader cursor limit
      (ChatStream.readLatestProductChat s.chat.redis ok)
      (fun after => ChatStream.readProductChat s.chat.redis after ok)
    { s with answered := s.answered ++ [answer] }

/-- The way of the chats of one connection. -/
def machine : Machine State Input Unit where
  admits _ _ := True
  step s i := (step C s i, ())

end RogiCollector.Ports.ChatPipeline
