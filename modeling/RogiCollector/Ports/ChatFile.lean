import RogiCollector.Ports.ArchiveStore
import RogiCollector.Ports.SoopPacket

/-!
# The text of a chat spool file

`worker/internal/pipeline/chat_archive.go` at the level of bytes.  `Save` takes
the checksum of the record's JSON text and writes the record once more inside
of the envelope.  `validChatArchiveEnvelope` does not look at that text again:
it decodes the record, encodes what it got, and compares the checksum of this
second encoding.

The display name and the message of a record are whatever bytes the platform
sent; its other strings are made by the worker.
-/

namespace RogiCollector.Ports.ChatSpool

open Verified
open Verified.Json
open Journal (Time Backend)
open Archive (Codec ArchiveErr hex32)
open SpoolFile (Encoding textAccepts IsTime isTime)
open Soop (ChatMessage)

/-! ## Records -/

/-- `store.ArchiveChatRecord` with the bytes of the two strings that are not
the worker's. -/
structure RawChat where
  spoolID : String
  eventID : String
  platform : String
  channelID : String
  receivedAt : Time
  userIDVersion : Int
  publicUserID : String
  displayName : Bytes
  message : Bytes
  deriving Repr, DecidableEq

variable {β : Type} (K : Codec β)

/-- `ArchiveChatRecord.Validate`. -/
def RawChat.validate (r : RawChat) : Except ArchiveErr Unit :=
  if !K.parseUUID r.spoolID then .error (.new "invalid archive spool ID")
  else if r.eventID = "" ∨ 255 < r.eventID.utf8ByteSize ∨ r.platform ≠ "soop" ∨
      r.channelID = "" ∨ r.receivedAt = 0 ∨ r.userIDVersion < 1 ∨
      65536 < r.message.length ∨ 2048 < r.displayName.length then
    .error (.new "invalid archive chat record")
  else if !hex32 r.publicUserID then .error (.new "invalid public user ID")
  else .ok ()

/-- The record with U+FFFD for every invalid byte. -/
def RawChat.text (r : RawChat) : RawChat :=
  { r with displayName := bytesOf (textOf r.displayName), message := bytesOf (textOf r.message) }

/-- `publicUserID`; `hmacHex` is the hexadecimal HMAC-SHA-256 under the spool's key. -/
def publicUserID (hmacHex : Bytes → String) (m : ChatMessage) : String :=
  hmacHex (bytesOf m.platform ++ 0 :: bytesOf m.channelID ++ 0 :: m.userID)

/-- The record `Save` makes; `spoolID` is a fresh UUID. -/
def chatRecord (hmacHex : Bytes → String) (spoolID : String) (m : ChatMessage)
    (receivedAt : Time) : RawChat where
  spoolID
  eventID := m.id
  platform := m.platform
  channelID := m.channelID
  receivedAt
  userIDVersion := 1
  publicUserID := publicUserID hmacHex m
  displayName := m.nickname
  message := m.message

/-! ## Files -/

variable (E : Encoding)

def RawChat.members (r : RawChat) (receivedAt : Text) : List (String × Text) :=
  [("spoolId", E.string r.spoolID), ("eventId", E.string r.eventID),
    ("platform", E.string r.platform), ("channelId", E.string r.channelID),
    ("receivedAt", receivedAt), ("userIdVersion", intText r.userIDVersion),
    ("publicUserId", E.string r.publicUserID), ("displayName", E.bytes r.displayName),
    ("message", E.bytes r.message)]

/-- `json.Marshal(record)`. -/
def RawChat.marshal (r : RawChat) : Option Text :=
  (E.time r.receivedAt).map fun receivedAt => object (r.members E receivedAt)

/-- `json.Marshal(chatArchiveEnvelope{1, checksum, record})`. -/
def marshalEnvelope (checksum : String) (record : Text) : Text :=
  object [("version", intText 1), ("sha256", E.string checksum), ("record", record)]

/-- The envelope with the checksum of its record. -/
def sealed (record : Text) : Text := marshalEnvelope E (E.sha256Hex record) record

/-- The file `Save` writes for a record, as far as the record decides. -/
def saveRecord (r : RawChat) : Except ArchiveErr Text :=
  match r.validate K with
  | .error e => .error e
  | .ok () =>
    match r.marshal E with
    | none => .error (.new "json: unsupported value")
    | some raw =>
      if 2 ^ 20 < size (sealed E raw) then .error (.new "chat archive spool full")
      else .ok (sealed E raw)

/-- `Save`: only chats are archived. -/
def save (hmacHex : Bytes → String) (spoolID : String) (m : ChatMessage) (receivedAt : Time) :
    Except ArchiveErr (Option Text) :=
  if m.type ≠ .chat then .ok none
  else (saveRecord K E (chatRecord hmacHex spoolID m receivedAt)).map some

def zeroChat : RawChat := ⟨"", "", "", "", 0, 0, "", [], []⟩

/-- A string that is kept as bytes. -/
def bytesValue (held : Bytes) (raw : Text) : Option Bytes :=
  if raw = nullText then some held else (unquote raw).map utf8

/-- `json.Unmarshal` into a record. -/
def decodeChat (held : RawChat) (raw : Text) : Option RawChat :=
  if raw = nullText then some held
  else do
    let ms ← readObject raw
    return {
      spoolID := ← field stringValue "spoolId" held.spoolID ms
      eventID := ← field stringValue "eventId" held.eventID ms
      platform := ← field stringValue "platform" held.platform ms
      channelID := ← field stringValue "channelId" held.channelID ms
      receivedAt := ← field E.timeValue "receivedAt" held.receivedAt ms
      userIDVersion := ← field (intValue (-2 ^ 15) (2 ^ 15 - 1)) "userIdVersion"
        held.userIDVersion ms
      publicUserID := ← field stringValue "publicUserId" held.publicUserID ms
      displayName := ← field bytesValue "displayName" held.displayName ms
      message := ← field bytesValue "message" held.message ms }

/-- `chatArchiveEnvelope`. -/
structure Envelope where
  version : Int
  sha256 : String
  record : RawChat

/-- `json.Unmarshal(body, &envelope)`. -/
def decodeEnvelope (body : Text) : Option Envelope := do
  let raw ← document body
  if raw = nullText then return ⟨0, "", zeroChat⟩
  let ms ← readObject raw
  return {
    version := ← field (intValue (-2 ^ 63) (2 ^ 63 - 1)) "version" 0 ms
    sha256 := ← field stringValue "sha256" "" ms
    record := ← field (decodeChat E) "record" zeroChat ms }

def validChatArchiveEnvelope (body : Text) : Except ArchiveErr RawChat :=
  if size body = 0 ∨ 2 ^ 20 < size body then
    .error (.new "invalid chat archive spool record size")
  else
    match decodeEnvelope E body with
    | none => .error (.new "corrupt chat archive spool record")
    | some envelope =>
      if envelope.version ≠ 1 then .error (.new "corrupt chat archive spool record")
      else
        match envelope.record.marshal E with
        | none => .error (.new "json: unsupported value")
        | some raw =>
          if envelope.sha256 ≠ E.sha256Hex raw then
            .error (.new "chat archive spool checksum mismatch")
          else
            match envelope.record.validate K with
            | .error e => .error e
            | .ok () => .ok envelope.record

/-- What `recoverPending` does with a pending file. -/
inductive Recovery where
  | renamed
  | quarantined
  deriving Repr, DecidableEq

def recoverPending (body : Text) : Recovery :=
  match validChatArchiveEnvelope K E body with
  | .ok _ => .renamed
  | .error _ => .quarantined

/-! ## The archive -/

/-- `Validate` refuses every platform but the first. -/
def platformOf (platform : String) : Archive.Platform :=
  if platform = "soop" then .soop else if platform = "chzzk" then .chzzk else .cime

/-- The record as the store's model has it. -/
def RawChat.record (r : RawChat) : Archive.ChatRecord where
  spoolID := r.spoolID
  eventID := r.eventID
  platform := platformOf r.platform
  channelID := r.channelID
  receivedAt := r.receivedAt
  userIDVersion := r.userIDVersion
  publicUserID := r.publicUserID
  displayName := textOf r.displayName
  message := textOf r.message

/-- The event is in the record's session already, so that neither the display
name nor the message is sent. -/
def archived (db : Archive.Db) (uuid : String) (r : Archive.ChatRecord) : Bool :=
  match Archive.matchingBroadcasts db r with
  | [b] =>
    match Archive.ensureSession db uuid r b with
    | .ok (_, session) => (db.eventIDs.find (session, r.eventID)).isSome
    | .error _ => false
  | _ => false

/-- `AppendArchiveChat` with PostgreSQL's check of the `text` parameters; a
statement that fails rolls the transaction back. -/
def appendArchiveChat (B : Backend) (uuid : String) (position : Nat) (db : Archive.Db)
    (r : Archive.ChatRecord) : Except ArchiveErr (Archive.Db × Bool) :=
  match Archive.appendArchiveChat K B uuid position db r with
  | .error e => .error e
  | .ok out =>
    if textAccepts r.channelID ∧ textAccepts r.eventID ∧
        (archived db uuid r ∨ textAccepts r.displayName ∧ textAccepts r.message) then .ok out
    else .error .io

/-- What `Drain` does with one file, the file system aside. -/
def drainFile (B : Backend) (uuid : String) (position : Nat) (db : Archive.Db) (body : Text) :
    Except ArchiveErr (Archive.Db × Bool) :=
  match validChatArchiveEnvelope K E body with
  | .error e => .error e
  | .ok r => appendArchiveChat K B uuid position db r.record

/-! ## A file that `Save` wrote -/

section File

variable {K} {E} {r : RawChat} {receivedAt : Text}

theorem isMembers (ht : Written receivedAt) : Members (r.members E receivedAt) 13 := by
  constructor
  · simp only [RawChat.members, List.map_cons, List.map_nil]
    decide
  · simp only [RawChat.members, List.forall_mem_cons, List.not_mem_nil, false_imp_iff,
      implies_true, and_true]
    exact ⟨SpoolFile.Written.bytes _, SpoolFile.Written.bytes _, SpoolFile.Written.bytes _,
      SpoolFile.Written.bytes _, ht, Written.int _, SpoolFile.Written.bytes _,
      SpoolFile.Written.bytes _, SpoolFile.Written.bytes _⟩

theorem bytesValue_bytes (held b : Bytes) :
    bytesValue held (E.bytes b) = some (bytesOf (textOf b)) := by
  rw [bytesValue, Encoding.bytes, if_neg (quote_ne_null _ _), unquote_quote, Option.map_some,
    bytesOf, textOf, String.toList_ofList]
  rfl

/-- Decoding a record gives back its text. -/
theorem decodeChat_members (ht : IsTime E r.receivedAt receivedAt)
    (hversion : r.userIDVersion = 1) :
    decodeChat E zeroChat (object (r.members E receivedAt)) = some r.text := by
  have hms := isMembers (E := E) (r := r) ht.written
  have hstring := fun name s => hms.field_some name (SpoolFile.stringValue_string (E := E) "" s)
  have hbytes := fun name b => hms.field_some name (bytesValue_bytes (E := E) [] b)
  have htime := hms.field_some "receivedAt" (ht.read 0) (by simp [RawChat.members])
  have hone : intValue (-2 ^ 15) (2 ^ 15 - 1) 0 (intText r.userIDVersion) =
      some r.userIDVersion := by
    rw [hversion]
    exact intValue_intText 0 (by decide) (by decide) (by decide)
  have hint := hms.field_some "userIdVersion" hone (by simp [RawChat.members])
  have hspoolID := hstring "spoolId" r.spoolID (by simp [RawChat.members])
  have heventID := hstring "eventId" r.eventID (by simp [RawChat.members])
  have hplatform := hstring "platform" r.platform (by simp [RawChat.members])
  have hchannelID := hstring "channelId" r.channelID (by simp [RawChat.members])
  have hpublicUserID := hstring "publicUserId" r.publicUserID (by simp [RawChat.members])
  have hdisplayName := hbytes "displayName" r.displayName (by simp [RawChat.members])
  have hmessage := hbytes "message" r.message (by simp [RawChat.members])
  rw [decodeChat, if_neg (object_ne_null _)]
  exact bind_of_eq_some hms.readObject_eq <|
    bind_of_eq_some hspoolID <| bind_of_eq_some heventID <| bind_of_eq_some hplatform <|
    bind_of_eq_some hchannelID <| bind_of_eq_some htime <| bind_of_eq_some hint <|
    bind_of_eq_some hpublicUserID <| bind_of_eq_some hdisplayName <| bind_of_eq_some hmessage rfl

/-- The members of an envelope. -/
theorem envelopeMembers (checksum : String) {record : Text} (h : Written record) :
    Members [("version", intText 1), ("sha256", E.string checksum), ("record", record)] 7 := by
  refine ⟨by simp only [List.map_cons, List.map_nil]; decide, ?_⟩
  simp only [List.forall_mem_cons, List.not_mem_nil, false_imp_iff, implies_true, and_true]
  exact ⟨Written.int 1, SpoolFile.Written.bytes _, h⟩

theorem decodeEnvelope_marshal (checksum : String) (ht : IsTime E r.receivedAt receivedAt)
    (hversion : r.userIDVersion = 1) :
    decodeEnvelope E (marshalEnvelope E checksum (object (r.members E receivedAt))) =
      some ⟨1, checksum, r.text⟩ := by
  have hdecode := decodeChat_members ht hversion
  have hms := envelopeMembers (E := E) checksum (isMembers (E := E) (r := r) ht.written).object
  refine bind_of_eq_some hms.object.value.document_eq ?_
  rw [if_neg (object_ne_null _)]
  refine bind_of_eq_some hms.readObject_eq ?_
  refine bind_of_eq_some (hms.field_some "version"
    (intValue_intText (n := 1) 0 (by decide) (by decide) (by decide)) (by simp)) ?_
  refine bind_of_eq_some (hms.field_some "sha256"
    (SpoolFile.stringValue_string (E := E) "" checksum) (by simp)) ?_
  exact bind_of_eq_some (hms.field_some "record" hdecode (by simp)) rfl

/-- The second encoding of a record is shorter by every invalid byte that was
written as an escape. -/
theorem length_members (hescapes : E.escapesInvalid = true) (receivedAt : Text) :
    (object (r.members E receivedAt)).length =
      (object (r.text.members E receivedAt)).length +
        5 * ((runes r.displayName).count none + (runes r.message).count none) := by
  have hname := SpoolFile.length_bytes hescapes r.displayName
  have hmessage := SpoolFile.length_bytes hescapes r.message
  simp only [object, RawChat.members, RawChat.text, List.map_cons, List.map_nil, joined,
    memberText, List.flatMap_cons, List.flatMap_nil, List.length_append, List.length_cons,
    List.length_nil]
  omega

theorem members_text_eq_iff (receivedAt : Text) :
    object (r.text.members E receivedAt) = object (r.members E receivedAt) ↔
      E.escapesInvalid = false ∨ ValidUtf8 r.displayName ∧ ValidUtf8 r.message := by
  constructor
  · intro heq
    by_cases hescapes : E.escapesInvalid = true
    · have hlen := length_members (r := r) hescapes receivedAt
      rw [heq] at hlen
      have hnone : (runes r.displayName).count none = 0 ∧ (runes r.message).count none = 0 := by
        omega
      exact Or.inr ⟨List.count_eq_zero.mp hnone.1, List.count_eq_zero.mp hnone.2⟩
    · exact Or.inl (Bool.eq_false_of_not_eq_true hescapes)
  · intro h
    have hname : E.bytes (bytesOf (textOf r.displayName)) = E.bytes r.displayName :=
      SpoolFile.bytes_text_eq (h.imp id And.left)
    have hmessage : E.bytes (bytesOf (textOf r.message)) = E.bytes r.message :=
      SpoolFile.bytes_text_eq (h.imp id And.right)
    simp only [RawChat.members, RawChat.text, hname, hmessage]

theorem saveRecord_ok {body : Text} (h : saveRecord K E r = .ok body) :
    r.validate K = .ok () ∧ size body ≤ 2 ^ 20 ∧ ∃ receivedAt, IsTime E r.receivedAt receivedAt ∧
      E.time r.receivedAt = some receivedAt ∧
      body = sealed E (object (r.members E receivedAt)) := by
  rw [saveRecord] at h
  split at h
  · cases h
  rename_i hvalid
  split at h
  · cases h
  rename_i raw hraw
  obtain ⟨receivedAt, ht, rfl⟩ := Option.map_eq_some_iff.mp hraw
  split at h
  · cases h
  rename_i hsize
  cases h
  exact ⟨hvalid, Nat.le_of_not_lt hsize, receivedAt, isTime ht, ht, rfl⟩

/-- What becomes of a file that `Save` wrote: the text of its record, if that has
the checksum of the record and is valid again. -/
theorem validChatArchiveEnvelope_eq (ht : IsTime E r.receivedAt receivedAt)
    (htime : E.time r.receivedAt = some receivedAt) (hversion : r.userIDVersion = 1)
    (hsize : size (sealed E (object (r.members E receivedAt))) ≤ 2 ^ 20) :
    validChatArchiveEnvelope K E (sealed E (object (r.members E receivedAt))) =
      if E.sha256Hex (object (r.members E receivedAt)) ≠
          E.sha256Hex (object (r.text.members E receivedAt)) then
        .error (.new "chat archive spool checksum mismatch")
      else
        match r.text.validate K with
        | .error e => .error e
        | .ok () => .ok r.text := by
  have hdecode := decodeEnvelope_marshal (E.sha256Hex (object (r.members E receivedAt))) ht hversion
  have hmarshal : r.text.marshal E = some (object (r.text.members E receivedAt)) := by
    rw [RawChat.marshal]
    exact congrArg (Option.map _) htime
  have hopen : 0 < '{'.utf8Size := by decide
  have hpos : 0 < size (sealed E (object (r.members E receivedAt))) := by
    rw [sealed, marshalEnvelope, object, List.cons_append, size_cons]
    omega
  rw [validChatArchiveEnvelope, if_neg (by omega), sealed, hdecode]
  simp only [ne_eq, not_true_eq_false, if_false, hmarshal]

/-! ### Sizes -/

theorem size_members_le (ht : IsTime E r.receivedAt receivedAt) (hversion : r.userIDVersion = 1) :
    size (object (r.members E receivedAt)) ≤
      6 * (r.spoolID.utf8ByteSize + r.eventID.utf8ByteSize + r.platform.utf8ByteSize +
        r.channelID.utf8ByteSize + r.publicUserID.utf8ByteSize + r.displayName.length +
        r.message.length) + 1100 := by
  have hobject := (isMembers (E := E) (r := r) ht.written).size_le
  have hstring : ∀ s : String, size (E.string s) ≤ 6 * s.utf8ByteSize + 2 := by
    intro s
    have hs := SpoolFile.size_bytes_le (E := E) (bytesOf s)
    rwa [length_bytesOf] at hs
  have hspool := hstring r.spoolID
  have hevent := hstring r.eventID
  have hplatform := hstring r.platform
  have hchannel := hstring r.channelID
  have hpublic := hstring r.publicUserID
  have hname := SpoolFile.size_bytes_le (E := E) r.displayName
  have hmessage := SpoolFile.size_bytes_le (E := E) r.message
  have hone : size (intText r.userIDVersion) = 1 := by
    rw [hversion]
    decide
  have hreceived := ht.size_le
  simp only [RawChat.members, List.map_cons, List.map_nil, List.sum_cons, List.sum_nil,
    List.length_cons, List.length_nil] at hobject ⊢
  omega

theorem size_sealed_le {record : Text} (h : Written record) :
    size (sealed E record) ≤ size record + 700 := by
  rw [sealed, marshalEnvelope]
  have hobject := (envelopeMembers (E := E) (E.sha256Hex record) h).size_le
  have hhash := E.sha256Hex_size record
  have hsum := SpoolFile.size_bytes_le (E := E) (bytesOf (E.sha256Hex record))
  have hone : size (intText 1) = 1 := by decide
  simp only [List.map_cons, List.map_nil, List.sum_cons, List.sum_nil, List.length_cons,
    List.length_nil, Encoding.string, length_bytesOf] at hobject hsum ⊢
  omega

end File

end RogiCollector.Ports.ChatSpool
