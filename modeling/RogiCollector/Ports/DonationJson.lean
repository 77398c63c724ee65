import RogiCollector.Ports.DonationSpool
import RogiCollector.Ports.SpoolEncoding

/-!
# The text of a spool file

`spool.go` and `donation.go` at the level of bytes.  A donation that a
connector hands to `Save` has whatever bytes the platform sent in its strings.
`Save` writes the record as JSON, puts that text with its checksum into an
envelope, and writes the envelope as JSON again; `drain` reads the envelope,
compares the checksum with the record's text as it stands in the file, and only
then decodes the record.

A string in a decoded value is text: `json.Unmarshal` puts U+FFFD for what is
not.  So `Journal.Donation`, with Lean's strings, is what `drain` gets, and
`RawDonation` is what `Save` is given.

## Main definitions

* `RawDonation.members`, `decodeDonation` — `model.Donation` as JSON.
* `saveFile`, `readFile` — what `Save` writes and how `drain` reads it.
-/

namespace RogiCollector.Ports.SpoolFile

open Verified
open Verified.Json
open Journal (Time StoreErr Donation OwnerGrant day)
open DonationSpool (SpoolRecord SpoolErr)

/-! ## Donations as they are observed -/

/-- `model.Donation` with the bytes of its strings. -/
structure RawDonation where
  eventID : Bytes
  channelID : Bytes
  count : Int
  kind : Bytes
  donorID : Bytes
  displayName : Bytes
  message : Bytes
  connectionEpoch : Bytes
  sequence : Nat
  observedAt : Time
  connectionStartedAt : Time
  sourceID : Option Bytes
  broadcastID : Option Bytes
  identity : Bytes
  reasons : List Bytes
  related : List Bytes
  generation : Bytes
  offset : Nat
  deriving Repr, DecidableEq

/-- `Donation.Validate`. -/
def RawDonation.validate (d : RawDonation) : Except StoreErr Unit :=
  if 256 < d.eventID.length ∨ 100 < d.channelID.length ∨ 256 < d.donorID.length ∨
      4096 < d.displayName.length ∨ 65536 < d.message.length ∨ 256 < d.connectionEpoch.length then
    .error (.new "donation observation too large")
  else if d.eventID = [] ∨ d.channelID = [] ∨ d.donorID = [] ∨ d.connectionEpoch = [] ∨
      d.sequence = 0 ∨ d.count ≤ 0 ∨ 9007199254740991 < d.count ∨ d.kind ≠ bytesOf "balloon" ∨
      d.observedAt = 0 then
    .error (.new "invalid donation observation")
  else .ok ()

/-- What is left of a donation once it was JSON. -/
def RawDonation.text (d : RawDonation) : Donation where
  eventID := textOf d.eventID
  channelID := textOf d.channelID
  count := d.count
  kind := textOf d.kind
  donorID := textOf d.donorID
  displayName := textOf d.displayName
  message := textOf d.message
  connectionEpoch := textOf d.connectionEpoch
  sequence := d.sequence
  observedAt := d.observedAt
  connectionStartedAt := d.connectionStartedAt
  sourceID := d.sourceID.map textOf
  broadcastID := d.broadcastID.map textOf
  identity := textOf d.identity
  reasons := d.reasons.map textOf
  related := d.related.map textOf
  generation := textOf d.generation
  offset := d.offset

/-- A donation that consists of text. -/
def rawOf (d : Donation) : RawDonation where
  eventID := bytesOf d.eventID
  channelID := bytesOf d.channelID
  count := d.count
  kind := bytesOf d.kind
  donorID := bytesOf d.donorID
  displayName := bytesOf d.displayName
  message := bytesOf d.message
  connectionEpoch := bytesOf d.connectionEpoch
  sequence := d.sequence
  observedAt := d.observedAt
  connectionStartedAt := d.connectionStartedAt
  sourceID := d.sourceID.map bytesOf
  broadcastID := d.broadcastID.map bytesOf
  identity := bytesOf d.identity
  reasons := d.reasons.map bytesOf
  related := d.related.map bytesOf
  generation := bytesOf d.generation
  offset := d.offset

/-! ## JSON -/

variable (E : Encoding)

/-- A member with the option `omitempty`. -/
def omitEmpty (name : String) : Option Text → List (String × Text)
  | none => []
  | some v => [(name, v)]

def Encoding.strings : List Bytes → Option Text
  | [] => none
  | bs => some (array (bs.map E.bytes))

/-- The members of a donation with the texts of its two instants. -/
def RawDonation.members (d : RawDonation) (observedAt connectionStartedAt : Text) :
    List (String × Text) :=
  [("eventId", E.bytes d.eventID), ("channelId", E.bytes d.channelID),
    ("nativeBalloonCount", intText d.count), ("donationKind", E.bytes d.kind),
    ("donorId", E.bytes d.donorID), ("displayName", E.bytes d.displayName),
    ("message", E.bytes d.message), ("connectionEpoch", E.bytes d.connectionEpoch),
    ("connectionSequence", quotedNat d.sequence), ("observedAt", observedAt),
    ("connectionStartedAt", connectionStartedAt)] ++
  omitEmpty "sourceEventId" (d.sourceID.map E.bytes) ++
  omitEmpty "broadcastId" (d.broadcastID.map E.bytes) ++
  [("identityStatus", E.bytes d.identity)] ++
  omitEmpty "qualityReasons" (E.strings d.reasons) ++
  omitEmpty "relatedObservationIds" (E.strings d.related) ++
  [("journalGeneration", E.bytes d.generation), ("channelOffset", quotedNat d.offset)]

/-- `json.Marshal(d)`; it fails on an instant without a text. -/
def RawDonation.marshal (d : RawDonation) : Option Text := do
  let observedAt ← E.time d.observedAt
  let connectionStartedAt ← E.time d.connectionStartedAt
  return object (d.members E observedAt connectionStartedAt)

/-- `json.Marshal` of a grant. -/
def marshalGrant (g : OwnerGrant) : Option Text := do
  let grantedAt ← E.time g.grantedAt
  let validUntil ← E.time g.validUntil
  return object
    [("token", E.string g.token), ("channel", E.string g.channel),
      ("generation", E.string g.generation), ("grantedAt", grantedAt), ("validUntil", validUntil)]

/-- `json.Marshal(spoolRecord{g, d, accepted})`. -/
def marshalRecord (g : OwnerGrant) (d : RawDonation) (acceptedAt : Time) : Option Text := do
  let grant ← marshalGrant E g
  let donation ← d.marshal E
  let acceptedAt ← E.time acceptedAt
  return object [("grant", grant), ("donation", donation), ("acceptedAt", acceptedAt)]

/-- `json.Marshal(spoolEnvelope{1, checksum, raw})`: the raw message is compacted. -/
def marshalEnvelope (checksum : String) (raw : Text) : Text :=
  object [("version", intText 1), ("checksum", E.string checksum), ("record", compact raw)]

/-- The file `Save` writes. -/
def saveFile (g : OwnerGrant) (d : RawDonation) (acceptedAt : Time) : Option Text :=
  (marshalRecord E g d acceptedAt).map fun raw => marshalEnvelope E (E.sha256Hex raw) raw

/-! ## Reading -/

/-- The zero `model.Donation`. -/
def zeroDonation : Donation where
  eventID := ""
  channelID := ""
  count := 0
  kind := ""
  donorID := ""
  displayName := ""
  message := ""
  connectionEpoch := ""
  sequence := 0
  observedAt := 0
  connectionStartedAt := 0
  sourceID := none
  broadcastID := none
  identity := ""
  reasons := []
  related := []
  generation := ""
  offset := 0

/-- `json.Unmarshal` into a `model.Donation`. -/
def decodeDonation (held : Donation) (raw : Text) : Option Donation :=
  if raw = nullText then some held
  else do
    let ms ← readObject raw
    return {
      eventID := ← field stringValue "eventId" held.eventID ms
      channelID := ← field stringValue "channelId" held.channelID ms
      count := ← field (intValue (-2 ^ 63) (2 ^ 63 - 1)) "nativeBalloonCount" held.count ms
      kind := ← field stringValue "donationKind" held.kind ms
      donorID := ← field stringValue "donorId" held.donorID ms
      displayName := ← field stringValue "displayName" held.displayName ms
      message := ← field stringValue "message" held.message ms
      connectionEpoch := ← field stringValue "connectionEpoch" held.connectionEpoch ms
      sequence := ← field quotedNatValue "connectionSequence" held.sequence ms
      observedAt := ← field E.timeValue "observedAt" held.observedAt ms
      connectionStartedAt := ← field E.timeValue "connectionStartedAt" held.connectionStartedAt ms
      sourceID := ← field pointerValue "sourceEventId" held.sourceID ms
      broadcastID := ← field pointerValue "broadcastId" held.broadcastID ms
      identity := ← field stringValue "identityStatus" held.identity ms
      reasons := ← field stringsValue "qualityReasons" held.reasons ms
      related := ← field stringsValue "relatedObservationIds" held.related ms
      generation := ← field stringValue "journalGeneration" held.generation ms
      offset := ← field quotedNatValue "channelOffset" held.offset ms }

def decodeGrant (held : OwnerGrant) (raw : Text) : Option OwnerGrant :=
  if raw = nullText then some held
  else do
    let ms ← readObject raw
    return {
      token := ← field stringValue "token" held.token ms
      channel := ← field stringValue "channel" held.channel ms
      generation := ← field stringValue "generation" held.generation ms
      grantedAt := ← field E.timeValue "grantedAt" held.grantedAt ms
      validUntil := ← field E.timeValue "validUntil" held.validUntil ms }

def zeroRecord : SpoolRecord := ⟨⟨"", "", "", 0, 0⟩, zeroDonation, 0⟩

/-- `json.Unmarshal(envelope.Record, &record)`. -/
def decodeRecord (raw : Text) : Option SpoolRecord := do
  let raw ← document raw
  if raw = nullText then return zeroRecord
  let ms ← readObject raw
  return {
    grant := ← field (decodeGrant E) "grant" zeroRecord.grant ms
    donation := ← field (decodeDonation E) "donation" zeroRecord.donation ms
    acceptedAt := ← field E.timeValue "acceptedAt" zeroRecord.acceptedAt ms }

/-- `spoolEnvelope`; the record stays text. -/
structure Envelope where
  version : Int
  checksum : String
  record : Text

/-- `json.Unmarshal(body, &envelope)`. -/
def decodeEnvelope (body : Text) : Option Envelope := do
  let raw ← document body
  if raw = nullText then return ⟨0, "", []⟩
  let ms ← readObject raw
  return {
    version := ← field (intValue (-2 ^ 63) (2 ^ 63 - 1)) "version" 0 ms
    checksum := ← field stringValue "checksum" "" ms
    record := ← field (fun _ raw => some raw) "record" [] ms }

/-- What `drain` does with a file before it calls the journal. -/
def readFile (now : Time) (body : Text) : Except SpoolErr SpoolRecord :=
  if 2 ^ 20 < size body then .error (.new "spool record too large")
  else
    match decodeEnvelope body with
    | none => .error (.new "corrupt spool record")
    | some envelope =>
      if envelope.version ≠ 1 then .error (.new "corrupt spool record")
      else if E.sha256Hex envelope.record ≠ envelope.checksum then
        .error (.new "spool checksum mismatch")
      else
        match decodeRecord E envelope.record with
        | none => .error (.new "corrupt spool payload")
        | some record =>
          if record.acceptedAt + 30 * day < now then
            .error (.new "old spool record: recovery required")
          else .ok record

end RogiCollector.Ports.SpoolFile
