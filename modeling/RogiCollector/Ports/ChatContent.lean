import RogiCollector.Ports.ChatFile
import RogiCollector.Ports.ArchiveTiers

/-!
# What a chat can do to the chat archive

`Drain` stops at the first file that fails, and the next one starts with it
again.  `Save` validates a record as it was received; the file is validated as
it was decoded, and then by PostgreSQL.  Three things can go wrong in between.

* A zero byte is valid JSON and no PostgreSQL text.
* An invalid byte that was written as an escape comes back as a character,
  which the second encoding writes as itself: the checksum does not fit.
* An invalid byte that was written as U+FFFD has become three bytes, and the
  record too long.
-/

namespace RogiCollector.Ports.ChatSpool

open Verified
open Verified.Json
open Journal (Time Backend)
open Archive (Codec ArchiveErr ChatRecord hex32)
open SpoolFile (Encoding textAccepts IsTime isTime)
open Soop (ChatMessage convertChatPacket fixtureConnector soopCmdChatMessage)

variable {β : Type}

/-- The condition on a nickname and a message: nothing of that happens. -/
def TextFits (E : Encoding) (name message : Bytes) : Prop :=
  (E.escapesInvalid = false ∨ ValidUtf8 name ∧ ValidUtf8 message) ∧
    ((textOf name).utf8ByteSize ≤ 2048 ∧ (textOf message).utf8ByteSize ≤ 65536) ∧
    0 ∉ name ∧ 0 ∉ message

/-- The record without what the platform sent. -/
def RawChat.bare (r : RawChat) : RawChat := { r with displayName := [], message := [] }

/-- The file of a record is accepted again as the record's text, also when it
was left pending, and the archive takes it wherever it would take the record
with empty texts. -/
def Archives (K : Codec β) (E : Encoding) (r : RawChat) (body : Text) : Prop :=
  validChatArchiveEnvelope K E body = .ok r.text ∧ recoverPending K E body = .renamed ∧
    ∀ B uuid position db,
      (∃ out, appendArchiveChat K B uuid position db r.bare.record = .ok out) →
        ∃ out, drainFile K E B uuid position db body = .ok out

/-- The two encodings of a record are not confused by the hash. -/
def NoCollision (E : Encoding) (r : RawChat) : Prop :=
  ∀ receivedAt, E.sha256Hex (object (r.members E receivedAt)) =
    E.sha256Hex (object (r.text.members E receivedAt)) →
      object (r.text.members E receivedAt) = object (r.members E receivedAt)

/-! ## The second validation -/

section Record

variable {K : Codec β} {E : Encoding} {r : RawChat}

/-- What `Validate` checks beside the lengths of the two texts. -/
structure RawChat.Addressed (K : Codec β) (r : RawChat) : Prop where
  spoolID : K.parseUUID r.spoolID = true
  eventID : r.eventID ≠ "" ∧ r.eventID.utf8ByteSize ≤ 255
  platform : r.platform = "soop"
  channelID : r.channelID ≠ ""
  receivedAt : r.receivedAt ≠ 0
  userIDVersion : 1 ≤ r.userIDVersion
  publicUserID : hex32 r.publicUserID = true

theorem validate_iff : r.validate K = .ok () ↔
    r.Addressed K ∧ r.displayName.length ≤ 2048 ∧ r.message.length ≤ 65536 := by
  rw [RawChat.validate]
  constructor
  · intro h
    split at h
    · cases h
    rename_i huuid
    split at h
    · cases h
    rename_i hfields
    split at h
    · cases h
    rename_i hhex
    simp only [Bool.not_eq_true', Bool.not_eq_false] at huuid hhex
    push Not at hfields
    obtain ⟨hevent, hlen, hplatform, hchannel, hreceived, hversion, hmessage, hname⟩ := hfields
    exact ⟨⟨huuid, ⟨hevent, hlen⟩, hplatform, hchannel, hreceived, hversion, hhex⟩, hname, hmessage⟩
  · rintro ⟨h, hname, hmessage⟩
    have hfields : ¬(r.eventID = "" ∨ 255 < r.eventID.utf8ByteSize ∨ r.platform ≠ "soop" ∨
        r.channelID = "" ∨ r.receivedAt = 0 ∨ r.userIDVersion < 1 ∨ 65536 < r.message.length ∨
        2048 < r.displayName.length) := by
      push Not
      exact ⟨h.eventID.1, h.eventID.2, h.platform, h.channelID, h.receivedAt, h.userIDVersion,
        hmessage, hname⟩
    rw [if_neg hfields]
    simp [h.spoolID, h.publicUserID]

/-- The store's check of a record that passed the spool's. -/
theorem validate_record (h : r.Addressed K) (hname : (textOf r.displayName).utf8ByteSize ≤ 2048)
    (hmessage : (textOf r.message).utf8ByteSize ≤ 65536) : r.record.validate K = .ok () := by
  have hfields : ¬(r.record.eventID = "" ∨ 255 < r.record.eventID.utf8ByteSize ∨
      r.record.platform ≠ .soop ∨ r.record.channelID = "" ∨ r.record.receivedAt = 0 ∨
      r.record.userIDVersion < 1 ∨ 65536 < r.record.message.utf8ByteSize ∨
      2048 < r.record.displayName.utf8ByteSize) := by
    push Not
    exact ⟨h.eventID.1, h.eventID.2, if_pos h.platform, h.channelID, h.receivedAt,
      h.userIDVersion, hmessage, hname⟩
  have huuid : K.parseUUID r.record.spoolID = true := h.spoolID
  have hhex : hex32 r.record.publicUserID = true := h.publicUserID
  rw [Archive.ChatRecord.validate, if_neg hfields]
  simp [huuid, hhex]

theorem validate_text_iff (h : r.validate K = .ok ()) :
    r.text.validate K = .ok () ↔
      (textOf r.displayName).utf8ByteSize ≤ 2048 ∧ (textOf r.message).utf8ByteSize ≤ 65536 := by
  have haddressed : r.text.Addressed K := { (validate_iff.mp h).1 with }
  rw [validate_iff, RawChat.text, length_bytesOf, length_bytesOf]
  exact ⟨And.right, fun hsizes => ⟨haddressed, hsizes⟩⟩

/-- The worker's own names are short. -/
def RawChat.ShortNames (r : RawChat) : Prop :=
  r.spoolID.utf8ByteSize + r.channelID.utf8ByteSize + r.publicUserID.utf8ByteSize ≤ 2 ^ 16

/-- The limits of a record keep its text below the limit of `Save`. -/
theorem size_record_le {E : Encoding} {receivedAt : Text} (hvalid : r.validate K = .ok ())
    (hversion : r.userIDVersion = 1) (htime : E.time r.receivedAt = some receivedAt)
    (hnames : r.ShortNames) : size (object (r.members E receivedAt)) ≤ 2 ^ 20 - 700 := by
  obtain ⟨haddressed, hname, hmessage⟩ := validate_iff.mp hvalid
  have hevent := haddressed.eventID.2
  have hplatform : r.platform.utf8ByteSize = 4 := by
    rw [haddressed.platform]
    decide
  have hrecord := size_members_le (isTime htime) hversion
  rw [RawChat.ShortNames] at hnames
  omega

theorem saveRecord_of_valid {E : Encoding} {receivedAt : Text} (hvalid : r.validate K = .ok ())
    (hversion : r.userIDVersion = 1) (htime : E.time r.receivedAt = some receivedAt)
    (hnames : r.ShortNames) :
    saveRecord K E r = .ok (sealed E (object (r.members E receivedAt))) := by
  have hrecord := size_record_le hvalid hversion htime hnames
  have hwritten := (isMembers (E := E) (r := r) (isTime htime).written).object
  have hsealed := size_sealed_le (E := E) hwritten
  have hsize : size (sealed E (object (r.members E receivedAt))) ≤ 2 ^ 20 := by omega
  have hmarshal : r.marshal E = some (object (r.members E receivedAt)) := by
    rw [RawChat.marshal, htime, Option.map_some]
  simp only [saveRecord, hvalid, hmarshal]
  rw [if_neg (Nat.not_lt.mpr hsize)]

end Record

/-! ## The archive -/

section Append

variable {K : Codec β} {E : Encoding} {B : Backend} {uuid : String} {position : Nat}
  {db : Archive.Db}

/-- Where an empty text goes, every valid one does. -/
theorem append_of_empty {r r' : ChatRecord} {out : Archive.Db × Bool}
    (hr : r' = { r with displayName := "", message := "" }) (hvalid : r.validate K = .ok ())
    (h : Archive.appendArchiveChat K B uuid position db r' = .ok out) :
    ∃ out, Archive.appendArchiveChat K B uuid position db r = .ok out := by
  have hmatch : Archive.matchingBroadcasts db r' = Archive.matchingBroadcasts db r := by
    rw [hr]
    rfl
  have hsession : ∀ b, Archive.ensureSession db uuid r' b = Archive.ensureSession db uuid r b := by
    rw [hr]
    exact fun b => rfl
  have hids : r'.channelID = r.channelID ∧ r'.eventID = r.eventID ∧ r'.spoolID = r.spoolID := by
    rw [hr]
    exact ⟨rfl, rfl, rfl⟩
  unfold Archive.appendArchiveChat at h ⊢
  rw [hvalid]
  split at h
  · cases h
  dsimp only
  by_cases hallowed : (!B.allowsCollection r.channelID) = true
  · rw [hids.1, if_pos hallowed] at h
    cases h
  rw [hids.1, if_neg hallowed, hmatch] at h
  rw [if_neg hallowed]
  rcases hlist : Archive.matchingBroadcasts db r with _ | ⟨b, _ | ⟨b', rest⟩⟩
  · -- The row goes into the review queue, or does not, whatever it holds.
    dsimp only
    generalize db.unassigned.insert r.spoolID _ = queue
    cases queue with
    | none | some => exact ⟨_, rfl⟩
  · rw [hlist] at h
    dsimp only at h ⊢
    rw [hsession] at h
    cases hensure : Archive.ensureSession db uuid r b with
    | error e =>
      rw [hensure] at h
      cases h
    | ok found =>
      obtain ⟨sessions, session⟩ := found
      rw [hensure, hids.2.1] at h
      dsimp only at h ⊢
      cases hevent : db.eventIDs.insert (session, r.eventID) position with
      | none => exact ⟨_, rfl⟩
      | some eventIDs =>
        rw [hevent] at h
        dsimp only at h ⊢
        cases hhot : db.hot.insert position (r'.row session position) with
        | none =>
          rw [hhot] at h
          cases h
        | some hot =>
          obtain ⟨hot', hhot'⟩ :=
            Table.insert_isSome (r.row session position) (Table.insert_eq_some hhot).1
          rw [hhot']
          exact ⟨_, rfl⟩
  · -- The row goes into the review queue, or does not, whatever it holds.
    dsimp only
    generalize db.unassigned.insert r.spoolID _ = queue
    cases queue with
    | none | some => exact ⟨_, rfl⟩

/-- Both halves of an append that went through. -/
theorem append_ok_iff {r : ChatRecord} :
    (∃ out, appendArchiveChat K B uuid position db r = .ok out) ↔
      (∃ out, Archive.appendArchiveChat K B uuid position db r = .ok out) ∧
        textAccepts r.channelID = true ∧ textAccepts r.eventID = true ∧
        (archived db uuid r = true ∨
          textAccepts r.displayName = true ∧ textAccepts r.message = true) := by
  rw [appendArchiveChat]
  cases Archive.appendArchiveChat K B uuid position db r with
  | error e => simp
  | ok out =>
    dsimp only
    split
    · rename_i htext
      exact ⟨fun _ => ⟨⟨out, rfl⟩, htext⟩, fun _ => ⟨out, rfl⟩⟩
    · rename_i htext
      constructor
      · rintro ⟨out', hout⟩
        cases hout
      · exact fun h => absurd h.2 htext

variable {r : RawChat}

theorem record_bare : r.bare.record = { r.record with displayName := "", message := "" } := rfl

theorem zero_mem_text (b : Bytes) : 0 ∈ bytesOf (textOf b) ↔ 0 ∈ b := by
  rw [zero_mem_bytesOf, nul_mem_textOf]

theorem textAccepts_textOf (b : Bytes) : textAccepts (textOf b) = true ↔ 0 ∉ b := by
  rw [textAccepts, decide_eq_true_eq, nul_mem_textOf]

/-- A text without zero bytes goes wherever an empty one does. -/
theorem append_of_plain (hvalid : r.record.validate K = .ok ()) (hname : 0 ∉ r.displayName)
    (hmessage : 0 ∉ r.message)
    (h : ∃ out, appendArchiveChat K B uuid position db r.bare.record = .ok out) :
    ∃ out, appendArchiveChat K B uuid position db r.record = .ok out := by
  rw [append_ok_iff] at h ⊢
  obtain ⟨⟨out, hout⟩, hchannel, hevent, -⟩ := h
  exact ⟨append_of_empty record_bare hvalid hout, hchannel, hevent,
    Or.inr ⟨(textAccepts_textOf _).mpr hname, (textAccepts_textOf _).mpr hmessage⟩⟩

/-- A backend that collects every channel. -/
def openBackend : Backend where
  collectionChannel := none
  sha256Hex := id
  marshalLen := fun _ => none
  columnSize := fun _ => 0
  storable := fun _ => true
  jsonb := fun _ => true
  unrecoveredRanges := fun _ => none

/-- An archive without broadcasts puts every valid record into the review queue. -/
theorem append_empty {r : ChatRecord} (hvalid : r.validate K = .ok ()) :
    ∃ out, Archive.appendArchiveChat K openBackend uuid position Archive.Db.empty r = .ok out := by
  rw [Archive.appendArchiveChat, hvalid]
  exact ⟨_, rfl⟩

/-- There, a text with a zero byte is refused. -/
theorem plain_of_append (h : ∃ out, appendArchiveChat K openBackend uuid position Archive.Db.empty
    r.record = .ok out) : 0 ∉ r.displayName ∧ 0 ∉ r.message := by
  obtain ⟨-, -, -, harchived | ⟨hname, hmessage⟩⟩ := append_ok_iff.mp h
  · contradiction
  · exact ⟨(textAccepts_textOf _).mp hname, (textAccepts_textOf _).mp hmessage⟩

end Append

/-! ## Both directions -/

section Main

variable {K : Codec β} {E : Encoding} {r : RawChat} {body : Text}

/-- A file is accepted again exactly if its checksum fits and its texts are not
too long. -/
theorem valid_iff (hversion : r.userIDVersion = 1) (hsave : saveRecord K E r = .ok body)
    (hhash : NoCollision E r) :
    validChatArchiveEnvelope K E body = .ok r.text ↔
      (E.escapesInvalid = false ∨ ValidUtf8 r.displayName ∧ ValidUtf8 r.message) ∧
        (textOf r.displayName).utf8ByteSize ≤ 2048 ∧ (textOf r.message).utf8ByteSize ≤ 65536 := by
  obtain ⟨hvalid, hsize, receivedAt, ht, htime, rfl⟩ := saveRecord_ok hsave
  rw [validChatArchiveEnvelope_eq ht htime hversion hsize, ← validate_text_iff hvalid,
    ← members_text_eq_iff receivedAt]
  constructor
  · intro h
    split at h
    · cases h
    rename_i hsum
    refine ⟨hhash receivedAt (not_not.mp hsum), ?_⟩
    split at h
    · cases h
    · assumption
  · rintro ⟨heq, htext⟩
    rw [heq, if_neg (not_not_intro rfl), htext]

theorem fits_of_archives (hversion : r.userIDVersion = 1) (hid : textAccepts r.eventID = true)
    (hchannel : textAccepts r.channelID = true) (hsave : saveRecord K E r = .ok body)
    (hhash : NoCollision E r) (h : Archives K E r body) : TextFits E r.displayName r.message := by
  obtain ⟨hread, -, hdrain⟩ := h
  obtain ⟨hchecksum, hsizes⟩ := (valid_iff hversion hsave hhash).mp hread
  refine ⟨hchecksum, hsizes, ?_⟩
  have haddressed : r.bare.Addressed K := { (validate_iff.mp (saveRecord_ok hsave).1).1 with }
  have hempty : (textOf []).utf8ByteSize = 0 := by decide
  have hbare : r.bare.record.validate K = .ok () := by
    apply validate_record haddressed
    · rw [RawChat.bare, hempty]
      exact Nat.zero_le _
    · rw [RawChat.bare, hempty]
      exact Nat.zero_le _
  have hdrained := hdrain openBackend "" 1 Archive.Db.empty
    (append_ok_iff.mpr ⟨append_empty hbare, hchannel, hid, Or.inr ⟨rfl, rfl⟩⟩)
  rw [drainFile, hread] at hdrained
  have hplain := plain_of_append hdrained
  rw [RawChat.text, zero_mem_text, zero_mem_text] at hplain
  exact hplain

theorem archives_of_fits (hversion : r.userIDVersion = 1) (hsave : saveRecord K E r = .ok body)
    (hhash : NoCollision E r) (h : TextFits E r.displayName r.message) : Archives K E r body := by
  obtain ⟨hchecksum, hsizes, hname, hmessage⟩ := h
  have hread := (valid_iff hversion hsave hhash).mpr ⟨hchecksum, hsizes⟩
  refine ⟨hread, by rw [recoverPending, hread], ?_⟩
  intro B uuid position db hbare
  have haddressed : r.text.Addressed K := { (validate_iff.mp (saveRecord_ok hsave).1).1 with }
  have hvalid : r.text.record.validate K = .ok () := by
    apply validate_record haddressed
    · rw [RawChat.text, textOf_bytesOf]
      exact hsizes.1
    · rw [RawChat.text, textOf_bytesOf]
      exact hsizes.2
  rw [drainFile, hread]
  rw [← zero_mem_text] at hname hmessage
  exact append_of_plain hvalid hname hmessage hbare

variable {hmacHex : Bytes → String} {spoolID : String} {m : ChatMessage} {receivedAt : Time}

theorem save_ok (h : save K E hmacHex spoolID m receivedAt = .ok (some body)) :
    saveRecord K E (chatRecord hmacHex spoolID m receivedAt) = .ok body := by
  rw [save] at h
  split at h
  · cases h
  cases hrecord : saveRecord K E (chatRecord hmacHex spoolID m receivedAt) with
  | error e =>
    rw [hrecord] at h
    cases h
  | ok body' =>
    rw [hrecord] at h
    cases h
    rfl

theorem save_of_chat (hchat : m.type = .chat)
    (h : saveRecord K E (chatRecord hmacHex spoolID m receivedAt) = .ok body) :
    save K E hmacHex spoolID m receivedAt = .ok (some body) := by
  rw [save, if_neg (not_not_intro hchat), h]
  rfl

/-- A chat that `Save` accepted goes through the checks of its file, and into
every archive that would take it with empty texts, exactly if its nickname and
message have no zero byte, were written without an escape for an invalid byte,
and are not too long as text. -/
theorem archives_iff (hid : textAccepts m.id = true) (hchannel : textAccepts m.channelID = true)
    (hsave : save K E hmacHex spoolID m receivedAt = .ok (some body))
    (hhash : NoCollision E (chatRecord hmacHex spoolID m receivedAt)) :
    Archives K E (chatRecord hmacHex spoolID m receivedAt) body ↔
      TextFits E m.nickname m.message :=
  ⟨fits_of_archives rfl hid hchannel (save_ok hsave) hhash,
    archives_of_fits rfl (save_ok hsave) hhash⟩

/-- Whatever comes out of a file is the text of its record. -/
theorem read_ok (hsave : saveRecord K E r = .ok body) (hversion : r.userIDVersion = 1)
    {r' : RawChat} (h : validChatArchiveEnvelope K E body = .ok r') : r' = r.text := by
  obtain ⟨-, hsize, receivedAt, ht, htime, rfl⟩ := saveRecord_ok hsave
  rw [validChatArchiveEnvelope_eq ht htime hversion hsize] at h
  by_cases hsum : E.sha256Hex (object (r.members E receivedAt)) ≠
      E.sha256Hex (object (r.text.members E receivedAt))
  · rw [if_pos hsum] at h
    cases h
  · rw [if_neg hsum] at h
    cases hvalid : r.text.validate K with
    | error e =>
      rw [hvalid] at h
      cases h
    | ok _ =>
      rw [hvalid] at h
      exact (Except.ok.inj h).symm

/-- A zero byte stops every drain that does not find the event archived. -/
theorem drain_stuck (hsave : saveRecord K E r = .ok body) (hversion : r.userIDVersion = 1)
    (hzero : 0 ∈ r.displayName ∨ 0 ∈ r.message) (B : Backend) (uuid : String) (position : Nat)
    {db : Archive.Db} (hnew : archived db uuid r.text.record = false) :
    ∃ e, drainFile K E B uuid position db body = .error e := by
  rw [drainFile]
  cases hread : validChatArchiveEnvelope K E body with
  | error e => exact ⟨e, rfl⟩
  | ok r' =>
    obtain rfl := read_ok hsave hversion hread
    cases happend : appendArchiveChat K B uuid position db r.text.record with
    | error e => exact ⟨e, happend⟩
    | ok out =>
      obtain ⟨-, -, -, harchived | ⟨hname, hmessage⟩⟩ := append_ok_iff.mp ⟨out, happend⟩
      · rw [hnew] at harchived
        contradiction
      · have hplain := (textAccepts_textOf _).mp hname
        have hplain' := (textAccepts_textOf _).mp hmessage
        rw [RawChat.text, zero_mem_text] at hplain hplain'
        exact absurd hzero (not_or.mpr ⟨hplain, hplain'⟩)

/-- A text that is too long once it is decoded is refused by every reader of the file. -/
theorem drain_refused (hsave : saveRecord K E r = .ok body) (hversion : r.userIDVersion = 1)
    (hlong : 2048 < (textOf r.displayName).utf8ByteSize) :
    recoverPending K E body = .quarantined ∧ ∀ B uuid position db,
      ∃ e, drainFile K E B uuid position db body = .error e := by
  have hrefused : ∃ e, validChatArchiveEnvelope K E body = .error e := by
    cases hread : validChatArchiveEnvelope K E body with
    | error e => exact ⟨e, rfl⟩
    | ok r' =>
      obtain ⟨hvalid, hsize, receivedAt, ht, htime, rfl⟩ := saveRecord_ok hsave
      rw [validChatArchiveEnvelope_eq ht htime hversion hsize] at hread
      split at hread
      · cases hread
      split at hread
      · cases hread
      · rename_i htext
        exact absurd ((validate_text_iff hvalid).mp htext).1 (Nat.not_le.mpr hlong)
  obtain ⟨e, he⟩ := hrefused
  refine ⟨by rw [recoverPending, he], fun B uuid position db => ⟨e, ?_⟩⟩
  rw [drainFile, he]

end Main

/-! ## The first chat of a connector -/

/-- The message of a chat packet with this nickname and text. -/
def fixtureChat (nickname text : Bytes) : ChatMessage :=
  convertChatPacket fixtureConnector
    { cmd := soopCmdChatMessage, ret := 0
      fields := [text, bytesOf "fixture_user", [], [], [], nickname], raw := [] } 5

/-- Every user has the same pseudonym. -/
def fixtureHmac (_ : Bytes) : String := String.ofList (List.replicate 64 '0')

def fixtureSpoolID : String := "9b1deb4d-3b7d-4bad-9bdd-2b0d7b3dcb6d"

def fixtureSave (nickname text : Bytes) : Except ArchiveErr (Option Text) :=
  save Archive.fixtureCodec SpoolFile.fixtureEncoding fixtureHmac fixtureSpoolID
    (fixtureChat nickname text) 6

def fixtureChatRecord (nickname text : Bytes) : RawChat :=
  chatRecord fixtureHmac fixtureSpoolID (fixtureChat nickname text) 6

/-- The file, or nothing. -/
def fixtureBody (nickname text : Bytes) : Text :=
  match fixtureSave nickname text with
  | .ok (some body) => body
  | _ => []

/-- The time of the fixtures in its file. -/
def fixtureReceivedAt : Text := quote false [some '6']

theorem fixtureTime : SpoolFile.fixtureEncoding.time 6 = some fixtureReceivedAt := by
  decide

theorem fixtureNames {nickname text : Bytes} : (fixtureChatRecord nickname text).ShortNames := by
  have hnames : fixtureSpoolID.utf8ByteSize + fixtureConnector.channelID.utf8ByteSize +
      (fixtureHmac []).utf8ByteSize ≤ 2 ^ 16 := by decide
  exact hnames

theorem fixtureSave_eq {nickname text : Bytes}
    (hvalid : (fixtureChatRecord nickname text).validate Archive.fixtureCodec = .ok ()) :
    fixtureSave nickname text = .ok (some (fixtureBody nickname text)) ∧
      fixtureBody nickname text = sealed SpoolFile.fixtureEncoding (object
        ((fixtureChatRecord nickname text).members SpoolFile.fixtureEncoding
          fixtureReceivedAt)) := by
  have hsave : fixtureSave nickname text = _ :=
    save_of_chat rfl (saveRecord_of_valid hvalid rfl fixtureTime fixtureNames)
  unfold fixtureBody
  generalize fixtureSave nickname text = saved at hsave
  rw [hsave]
  exact ⟨rfl, rfl⟩

/-- A chat in two alphabets is archived. -/
theorem archives_iff_fixture :
    Archives Archive.fixtureCodec SpoolFile.fixtureEncoding
      (fixtureChatRecord (bytesOf "viewer") (bytesOf "안녕"))
      (fixtureBody (bytesOf "viewer") (bytesOf "안녕")) := by
  have hrecord : (fixtureChatRecord (bytesOf "viewer") (bytesOf "안녕")).validate
      Archive.fixtureCodec = .ok () := by decide
  have hsave := (fixtureSave_eq hrecord).1
  have hvalid : ValidUtf8 (bytesOf "viewer") ∧ ValidUtf8 (bytesOf "안녕") := by decide
  have hhash : NoCollision SpoolFile.fixtureEncoding
      (fixtureChatRecord (bytesOf "viewer") (bytesOf "안녕")) := by
    intro receivedAt _
    rw [members_text_eq_iff]
    exact Or.inr hvalid
  exact (archives_iff (by decide) (by decide) hsave hhash).mpr
    ⟨Or.inr hvalid, by decide, by decide⟩

/-- A nickname of 683 invalid bytes. -/
def invalidNickname : Bytes := List.replicate 683 0xFF

theorem decodeRune_ff (rest : Bytes) : decodeRune (0xFF :: rest) = none := by
  have hsize : 0 < (List.toByteArray (0xFF :: rest)).size := by simp
  have hget : (List.toByteArray (0xFF :: rest))[0] = 0xFF := by
    simp [ByteArray.getElem_eq_getElem_data, List.data_toByteArray]
  have hfirst : ByteArray.utf8DecodeChar?.parseFirstByte 0xFF = .invalid := rfl
  rw [decodeRune, ByteArray.utf8DecodeChar?, dif_pos hsize]
  split
  · rfl
  all_goals
    rename_i h
    rw [hget, hfirst] at h
    cases h

/-- As text it has three bytes for each of them. -/
theorem size_invalidNickname : (textOf invalidNickname).utf8ByteSize = 2049 := by
  have hlossy : ∀ n, lossy (List.replicate n 0xFF) = List.replicate n replacementRune := by
    intro n
    induction n with
    | zero => rfl
    | succ n ih =>
      rw [List.replicate_succ, lossy, runes_invalid (decodeRune_ff _), List.map_cons]
      exact congrArg (replacementRune :: ·) ih
  have hsize : ∀ n, size (List.replicate n replacementRune) = n * replacementRune.utf8Size := by
    intro n
    induction n with
    | zero => simp
    | succ n ih => rw [List.replicate_succ, size_cons, ih, Nat.succ_mul, Nat.add_comm]
  rw [textOf, ← length_utf8, invalidNickname, hlossy]
  exact hsize 683

/-- `Save` accepts a chat with a zero byte, which no archive takes, and one whose
nickname is too long when its file is read. -/
theorem accepted_chat_blocks :
    (fixtureSave (bytesOf "viewer") [0x61, 0x00] =
        .ok (some (fixtureBody (bytesOf "viewer") [0x61, 0x00])) ∧
      ∀ B uuid position db,
        archived db uuid (fixtureChatRecord (bytesOf "viewer") [0x61, 0x00]).text.record = false →
          ∃ e, drainFile Archive.fixtureCodec SpoolFile.fixtureEncoding B uuid position db
            (fixtureBody (bytesOf "viewer") [0x61, 0x00]) = .error e) ∧
    fixtureSave invalidNickname (bytesOf "hello") =
        .ok (some (fixtureBody invalidNickname (bytesOf "hello"))) ∧
      recoverPending Archive.fixtureCodec SpoolFile.fixtureEncoding
        (fixtureBody invalidNickname (bytesOf "hello")) = .quarantined ∧
      ∀ B uuid position db,
        ∃ e, drainFile Archive.fixtureCodec SpoolFile.fixtureEncoding B uuid position db
          (fixtureBody invalidNickname (bytesOf "hello")) = .error e := by
  have hzero : (fixtureChatRecord (bytesOf "viewer") [0x61, 0x00]).validate
      Archive.fixtureCodec = .ok () := by decide
  have hlong : (fixtureChatRecord invalidNickname (bytesOf "hello")).validate
      Archive.fixtureCodec = .ok () := by
    have haddressed : (fixtureChatRecord invalidNickname (bytesOf "hello")).Addressed
        Archive.fixtureCodec := { (validate_iff.mp hzero).1 with }
    have hlength : invalidNickname.length ≤ 2048 := by
      rw [invalidNickname, List.length_replicate]
      decide
    exact validate_iff.mpr ⟨haddressed, hlength, by decide⟩
  have hsave := (fixtureSave_eq hzero).1
  have hsave' := (fixtureSave_eq hlong).1
  have htext : 2048 < (textOf invalidNickname).utf8ByteSize := by
    rw [size_invalidNickname]
    decide
  refine ⟨⟨hsave, ?_⟩, hsave', drain_refused (save_ok hsave') rfl htext⟩
  intro B uuid position db hnew
  exact drain_stuck (save_ok hsave) rfl (Or.inr (by decide)) B uuid position hnew

end RogiCollector.Ports.ChatSpool
