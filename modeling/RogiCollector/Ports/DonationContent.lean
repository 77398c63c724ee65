import RogiCollector.Ports.DonationFile
import RogiCollector.Ports.JournalSpec
import RogiCollector.Ports.SoopPacket

/-!
# What a balloon packet can do to the donation journal

`drain` stops at the first file that fails and starts with it again the next
time.  A file whose donation the journal refuses for good therefore holds back
every later one, and `Save` does not report it: it takes the refusal for an
outage.

The bytes of a packet's fields reach the journal as text, in a `jsonb` payload.
Two things can go wrong on the way.  A zero byte becomes the escape U+0000,
which `jsonb` refuses.  And `AppendDonation` validates the donation again, after
every byte that is not part of a character has become the three bytes of
U+FFFD: a donor ID of 90 such bytes passes in `Save` and is too long here.
-/

namespace RogiCollector.Ports.SpoolFile

open Verified
open Verified.Json
open Journal (Time StoreErr Donation OwnerGrant Backend Clocks Db ChannelRow
  GrantRow maxUint64 appendDonation appendNew withIdentity contentKey payloadBytes
  relatedObservation enabledTX journaled day)
open DonationSpool (SpoolRecord SpoolErr)
open Soop

/-! ## PostgreSQL -/

/-- `jsonb` accepts the well-formed texts without an escaped U+0000. -/
def jsonbAccepts (t : Text) : Bool := (document t).isSome && !escapesNul t

/-- The backend's parameters are those of this encoding and of PostgreSQL. -/
structure Conforms (E : Encoding) (B : Backend) : Prop where
  marshalLen : ∀ d, B.marshalLen d = ((rawOf d).marshal E).map size
  storable : ∀ d, B.storable d =
    ([d.eventID, d.channelID, d.generation, d.connectionEpoch].all textAccepts &&
      ((rawOf d).marshal E).any jsonbAccepts)

/-! ## One file -/

/-- What `drain` does with one file, the file system aside. -/
def drainFile (E : Encoding) (B : Backend) (t : Clocks) (db : Db) (now : Time) (file : Text) :
    Except SpoolErr Db :=
  match readFile E now file with
  | .error e => .error e
  | .ok r =>
    match appendDonation B t db r.grant r.donation r.acceptedAt with
    | .error e => .error (SpoolErr.ofAppend e)
    | .ok (db, _) => .ok db

/-- A grant with a token and a generation that are UUIDs. -/
structure Issued (g : OwnerGrant) (channel : String) : Prop where
  channel : g.channel = channel
  token_size : g.token.utf8ByteSize = 36
  generation_size : g.generation.utf8ByteSize = 36
  generation_text : '\x00' ∉ g.generation.toList

/-- A journal that takes donations of this channel: a valid grant, a subscribed
channel, a working database with room for the donation.  The event is new, or
it is in the journal already. -/
structure Ready (E : Encoding) (B : Backend) (g : OwnerGrant) (d : Donation) (acceptedAt : Time)
    (t : Clocks) (db : Db) (c : ChannelRow) (now : Time) : Prop where
  conforms : Conforms E B
  recent : now ≤ acceptedAt + 30 * day
  storeRecent : t.now 0 ≤ acceptedAt + 30 * day
  channel : d.channelID = g.channel
  allowed : B.allowsCollection d.channelID = true
  row : db.channels.find d.channelID = some c
  subscribed : c.subscribed = true
  optedIn : d.channelID ∉ db.optOuts
  generation : g.generation = c.generation
  generation_text : '\x00' ∉ c.generation.toList
  events_text : ∀ {e row}, db.donations.Has e row → '\x00' ∉ e.toList
  grant : ∃ row, db.grants.find g.token = some row ∧ row.accepts g acceptedAt (t.clk 1) = true
  offset : c.nextOffset < maxUint64
  offsets : ∀ {e row}, db.donations.Has e row → row.channelID = d.channelID →
    row.channelOffset ≤ c.nextOffset
  event : (db.donations.find d.eventID = none ∧ db.outbox.find d.eventID = none) ∨
    ∃ row old, db.donations.find d.eventID = some row ∧ row.payload = some old ∧
      (old.unmarshalInto d).sameObservation d = true
  room : ∀ len, B.marshalLen (journaled B db c d) = some len →
    payloadBytes B db d.channelID + len ≤ 2 ^ 30

/-! ## Appending -/

section Append

variable {E : Encoding} {B : Backend} {g : OwnerGrant} {d : Donation} {acceptedAt now : Time}
  {t : Clocks} {db : Db} {c : ChannelRow}

/-- Only the donation itself can make a ready journal refuse it. -/
theorem append_of_ready (h : Ready E B g d acceptedAt t db c now) (hvalid : d.validate = .ok ())
    (hsource : d.sourceID = none) {len : Nat}
    (hlen : B.marshalLen (journaled B db c d) = some len)
    (hstorable : B.storable (journaled B db c d) = true) :
    ∃ r, appendDonation B t db g d acceptedAt = .ok r := by
  have hrecent : ¬acceptedAt + 30 * day < t.now 0 := Nat.not_lt.mpr h.storeRecent
  have hchannel : ¬(d.channelID ≠ g.channel ∨ (!B.allowsCollection d.channelID) = true) := by
    rintro (hne | hnot)
    · exact hne h.channel
    · rw [h.allowed] at hnot
      contradiction
  have hgeneration : ¬g.generation ≠ c.generation := fun hne => hne h.generation
  simp only [appendDonation, hvalid, if_neg hrecent, if_neg hchannel, h.row, if_neg hgeneration]
  rcases h.event with ⟨hnew, houtbox⟩ | ⟨row, old, hrow, hold, hsame⟩
  · obtain ⟨grant, hgrant, haccepts⟩ := h.grant
    have henabled : enabledTX db d.channelID = .ok () := by
      simp [enabledTX, h.row, h.subscribed, h.optedIn]
    have hoffset : c.nextOffset ≠ maxUint64 := h.offset.ne
    have hunverified : ¬d.sourceID ≠ none := fun hne => hne hsource
    have hroom : ¬2 ^ 30 < payloadBytes B db d.channelID + len := not_lt.mpr (h.room len hlen)
    have hfree : db.donations.any (fun _ row => decide (row.channelID = d.channelID ∧
        row.generation = c.generation ∧ row.channelOffset = c.nextOffset + 1)) = false := by
      rw [Table.any_eq_false]
      intro e row hrow
      rw [decide_eq_false_iff_not]
      rintro ⟨hch, -, hoff⟩
      have hle := h.offsets hrow hch
      omega
    have hj : withIdentity db { d with generation := c.generation, offset := c.nextOffset + 1 }
        (contentKey B d) = journaled B db c d := rfl
    obtain ⟨donations, hdonations⟩ := Table.insert_isSome (Journal.journalRow B t db c d) hnew
    obtain ⟨outbox, houtbox⟩ := Table.insert_isSome
      (⟨d.channelID, t.clk 3⟩ : Journal.OutboxRow) houtbox
    rw [Journal.journalRow] at hdonations
    simp only [hnew, appendNew, henabled, hgrant, haccepts, hoffset, if_neg hunverified, hj, hlen,
      Journal.journaled_channelID, hroom, hstorable, Journal.journaled_generation,
      Journal.journaled_offset, hfree, Journal.journaled_eventID, hdonations, houtbox,
      Bool.not_true, Bool.false_eq_true, if_false]
    exact ⟨_, rfl⟩
  · simp only [hrow, hold, hsame, if_true]
    exact ⟨_, rfl⟩

/-- A new event that was journaled passed both checks of its content. -/
theorem append_new_ok {r : Db × Donation} (hnew : db.donations.find d.eventID = none)
    (h : appendDonation B t db g d acceptedAt = .ok r) :
    d.validate = .ok () ∧ ∃ c, B.storable (journaled B db c d) = true := by
  unfold appendDonation at h
  split at h
  · cases h
  rename_i hvalid
  refine ⟨hvalid, ?_⟩
  split at h
  · cases h
  split at h
  · cases h
  split at h
  · cases h
  rename_i c hc
  split at h
  · cases h
  rw [hnew] at h
  by_cases hstorable : B.storable (journaled B db c d) = true
  · exact ⟨c, hstorable⟩
  · have hj : withIdentity db { d with generation := c.generation, offset := c.nextOffset + 1 }
        (contentKey B d) = journaled B db c d := rfl
    unfold appendNew at h
    simp only [hj, hstorable, Bool.not_false, if_true] at h
    repeat' split at h
    all_goals cases h

/-! ### What is stored -/

theorem jsonbAccepts_marshal {d : RawDonation} {payload : Text} (h : d.marshal E = some payload) :
    jsonbAccepts payload = true ↔ ∀ b ∈ d.strings, 0 ∉ b := by
  obtain ⟨observedAt, connectionStartedAt, hobserved, hstarted, rfl⟩ :=
    RawDonation.marshal_eq_some h
  have hdocument :=
    (RawDonation.isMembers (E := E) (d := d) hobserved.written
      hstarted.written).object.value.document_eq
  rw [jsonbAccepts, hdocument, RawDonation.escapesNul_members hobserved hstarted]
  simp

/-- PostgreSQL takes a donation whose strings have no zero byte. -/
theorem storable_iff (hB : Conforms E B) :
    B.storable d = true ↔
      ((rawOf d).marshal E).isSome = true ∧ ∀ b ∈ (rawOf d).strings, 0 ∉ b := by
  rw [hB.storable, Bool.and_eq_true]
  cases hmarshal : (rawOf d).marshal E with
  | none => simp
  | some payload =>
    rw [Option.any_some, jsonbAccepts_marshal hmarshal, Option.isSome_some]
    constructor
    · rintro ⟨-, hplain⟩
      exact ⟨rfl, hplain⟩
    · rintro ⟨-, hplain⟩
      refine ⟨?_, hplain⟩
      have hcolumn : ∀ s : String, bytesOf s ∈ (rawOf d).strings → textAccepts s = true := by
        intro s hs
        have hzero := hplain _ hs
        rw [zero_mem_bytesOf] at hzero
        exact decide_eq_true hzero
      simp only [List.all_cons, List.all_nil, Bool.and_true, Bool.and_eq_true]
      exact ⟨hcolumn _ (by simp [rawOf, RawDonation.strings]),
        hcolumn _ (by simp [rawOf, RawDonation.strings]),
        hcolumn _ (by simp [rawOf, RawDonation.strings]),
        hcolumn _ (by simp [rawOf, RawDonation.strings])⟩

theorem relatedObservation_has {key e : String} (h : relatedObservation db d key = some e) :
    ∃ row, db.donations.Has e row := by
  obtain ⟨⟨e, row⟩, hhead, rfl⟩ := Option.map_eq_some_iff.mp h
  have hmem := (List.mem_insertionSort _).mp (List.mem_of_head? hhead)
  exact ⟨row, (Table.mem_select.mp hmem).1⟩

/-- What `AppendDonation` changes in a donation. -/
theorem journaled_eq (B : Backend) (db : Db) (c : ChannelRow) (d : Donation) :
    ∃ identity reasons related,
    journaled B db c d =
      { d with
        generation := c.generation
        offset := c.nextOffset + 1
        identity := identity
        reasons := reasons
        related := related } ∧
    ('\x00' ∉ identity.toList ∧ identity.utf8ByteSize ≤ 19) ∧
    (reasons = d.reasons ∧ related = d.related ∨
      ∃ e row, db.donations.Has e row ∧ reasons = ["matching_observation_after_reconnect"] ∧
        related = [e]) := by
  unfold journaled withIdentity
  split
  · cases hrelated : relatedObservation db _ _ with
    | none => exact ⟨_, _, _, rfl, by decide, Or.inl ⟨rfl, rfl⟩⟩
    | some e =>
      obtain ⟨row, hrow⟩ := relatedObservation_has hrelated
      exact ⟨_, _, _, rfl, by decide, Or.inr ⟨e, row, hrow, rfl, rfl⟩⟩
  · exact ⟨_, _, _, rfl, by decide, Or.inl ⟨rfl, rfl⟩⟩

theorem isSome_marshal_journaled :
    ((rawOf (journaled B db c d)).marshal E).isSome = ((rawOf d).marshal E).isSome := by
  obtain ⟨identity, reasons, related, hj, -⟩ := journaled_eq B db c d
  rw [hj, Bool.eq_iff_iff, RawDonation.isSome_marshal_iff, RawDonation.isSome_marshal_iff]
  rfl

/-- Beside the strings of the donation there are the generation and, as related
observation, the ID of another event. -/
theorem plain_journaled (hd : ∀ b ∈ (rawOf d).strings, 0 ∉ b)
    (hgeneration : '\x00' ∉ c.generation.toList)
    (hevents : ∀ {e row}, db.donations.Has e row → '\x00' ∉ e.toList) :
    ∀ b ∈ (rawOf (journaled B db c d)).strings, 0 ∉ b := by
  obtain ⟨identity, reasons, related, hj, ⟨hidentity, -⟩, hlists⟩ :=
    journaled_eq B db c d
  simp only [rawOf, RawDonation.strings, List.forall_mem_append, List.forall_mem_cons,
    List.not_mem_nil, false_imp_iff, implies_true, and_true] at hd
  have hplain : (∀ b ∈ reasons.map bytesOf, 0 ∉ b) ∧ ∀ b ∈ related.map bytesOf, 0 ∉ b := by
    rcases hlists with ⟨rfl, rfl⟩ | ⟨e, row, hrow, rfl, rfl⟩
    · tauto
    · have he := hevents hrow
      rw [← zero_mem_bytesOf] at he
      refine ⟨by decide, ?_⟩
      simpa using he
  rw [hj]
  rw [← zero_mem_bytesOf] at hidentity hgeneration
  simp only [rawOf, RawDonation.strings, List.forall_mem_append, List.forall_mem_cons,
    List.not_mem_nil, false_imp_iff, implies_true, and_true]
  tauto

/-- The content is not lost on the way. -/
theorem plain_of_storable (hB : Conforms E B)
    (h : B.storable (journaled B db c d) = true) :
    '\x00' ∉ d.donorID.toList ∧ '\x00' ∉ d.displayName.toList := by
  obtain ⟨identity, reasons, related, hj, -⟩ := journaled_eq B db c d
  have hplain := ((storable_iff hB).mp h).2
  rw [hj] at hplain
  rw [← zero_mem_bytesOf, ← zero_mem_bytesOf]
  exact ⟨hplain _ (by simp [rawOf, RawDonation.strings]),
    hplain _ (by simp [rawOf, RawDonation.strings])⟩

end Append

/-! ## Balloon packets -/

/-- The condition on a packet: no zero byte in the donor's ID and name, and
the texts of both within the limits of `Validate`. -/
def FieldsFit (p : SoopPacket) : Prop :=
  (0 ∉ stripUserIDSuffix (fieldAt p.fields 1) ∧
    (textOf (stripUserIDSuffix (fieldAt p.fields 1))).utf8ByteSize ≤ 256) ∧
  0 ∉ fieldAt p.fields 2 ∧ (textOf (fieldAt p.fields 2)).utf8ByteSize ≤ 4096

/-- The file of a donation passes the checks of `drain`, and every journal that
is ready for the donation takes it. -/
def Drains (E : Encoding) (g : OwnerGrant) (d : RawDonation) (acceptedAt : Time) (file : Text) :
    Prop :=
  (∀ now, now ≤ acceptedAt + 30 * day → readFile E now file = .ok ⟨g, d.text, acceptedAt⟩) ∧
    ∀ B t db c now, Ready E B g d.text acceptedAt t db c now →
      ∃ db', drainFile E B t db now file = .ok db'

section Balloon

variable {E : Encoding} {conn : SoopConnector} {p : SoopPacket} {observedAt acceptedAt : Time}
  {g : OwnerGrant} {d : RawDonation} {file : Text}

/-- What is used of a packet's donation. -/
structure IsBalloon (conn : SoopConnector) (p : SoopPacket) (d : RawDonation) : Prop where
  inRange : d.InRange
  donorID : d.donorID = stripUserIDSuffix (fieldAt p.fields 1)
  displayName : d.displayName = fieldAt p.fields 2
  channelID : d.channelID = bytesOf conn.channelID
  event : ∃ s : String, d.eventID = bytesOf s ∧ '\x00' ∉ s.toList
  connectionEpoch : d.connectionEpoch = bytesOf conn.epoch
  kind : d.kind = bytesOf "balloon"
  message : d.message = []
  sourceID : d.sourceID = none
  broadcastID : d.broadcastID = none
  identity : d.identity = []
  reasons : d.reasons = []
  related : d.related = []
  generation : d.generation = []

theorem IsBalloon.strings (hb : IsBalloon conn p d) : d.strings =
    [d.eventID, d.channelID, d.kind, d.donorID, d.displayName, [], d.connectionEpoch, [], []] := by
  rw [RawDonation.strings, hb.message, hb.sourceID, hb.broadcastID, hb.identity, hb.reasons,
    hb.related, hb.generation]
  rfl

theorem isBalloon (h : balloonDonation conn p observedAt = some d) : IsBalloon conn p d := by
  rw [balloonDonation] at h
  by_cases hcmd : p.cmd = soopCmdSendBalloon
  · rw [if_neg (not_not_intro hcmd)] at h
    obtain ⟨count, hcount, rfl⟩ := Option.map_eq_some_iff.mp h
    refine
      { inRange := ⟨parseInt64_range hcount, UInt64.toNat_lt _, Nat.two_pow_pos 64⟩
        donorID := rfl
        displayName := rfl
        channelID := rfl
        event := ⟨_, rfl, ?_⟩
        connectionEpoch := rfl
        kind := rfl
        message := rfl
        sourceID := rfl
        broadcastID := rfl
        identity := rfl
        reasons := rfl
        related := rfl
        generation := rfl }
    have hdigits : ∀ n : Nat, '\x00' ∉ (toString n).toList := by
      intro n hmem
      rw [toList_toString] at hmem
      exact absurd (isDigit_of_mem_natText hmem) (by decide)
    simp only [String.toList_append, List.mem_append, not_or]
    exact ⟨⟨conn.epoch_plain, by decide⟩, hdigits _⟩
  · rw [if_pos hcmd] at h
    contradiction

theorem sizes_of_validate (hvalid : d.validate = .ok ()) :
    d.eventID.length ≤ 256 ∧ d.channelID.length ≤ 100 ∧ d.donorID.length ≤ 256 ∧
      d.displayName.length ≤ 4096 ∧ d.connectionEpoch.length ≤ 256 := by
  rw [RawDonation.validate] at hvalid
  split at hvalid
  · cases hvalid
  · omega

/-- All that can be wrong with the text of a valid donation is its length. -/
theorem validate_text_iff (hb : IsBalloon conn p d) (hvalid : d.validate = .ok ()) :
    d.text.validate = .ok () ↔
      (textOf d.donorID).utf8ByteSize ≤ 256 ∧ (textOf d.displayName).utf8ByteSize ≤ 4096 := by
  obtain ⟨event, hevent, -⟩ := hb.event
  rw [RawDonation.validate] at hvalid
  split at hvalid
  · cases hvalid
  rename_i hsize
  split at hvalid
  · cases hvalid
  rename_i hform
  rw [hevent, hb.channelID, hb.message, hb.connectionEpoch, length_bytesOf, length_bytesOf,
    length_bytesOf] at hsize
  have hnonempty : ¬(d.text.eventID = "" ∨ d.text.channelID = "" ∨ d.text.donorID = "" ∨
      d.text.connectionEpoch = "" ∨ d.text.sequence = 0 ∨ d.text.count ≤ 0 ∨
      9007199254740991 < d.text.count ∨ d.text.kind ≠ "balloon" ∨ d.text.observedAt = 0) := by
    simp only [RawDonation.text, textOf_eq_empty, hb.kind, textOf_bytesOf, ne_eq,
      not_true_eq_false, false_or] at hform ⊢
    tauto
  have hevent' : d.text.eventID = event := by rw [RawDonation.text, hevent, textOf_bytesOf]
  have hchannel : d.text.channelID = conn.channelID := by
    rw [RawDonation.text, hb.channelID, textOf_bytesOf]
  have hmessage : d.text.message = "" := by
    rw [RawDonation.text, hb.message]
    rfl
  have hepoch : d.text.connectionEpoch = conn.epoch := by
    rw [RawDonation.text, hb.connectionEpoch, textOf_bytesOf]
  have hlimits : ¬(256 < d.text.eventID.utf8ByteSize ∨ 100 < d.text.channelID.utf8ByteSize ∨
      256 < d.text.donorID.utf8ByteSize ∨ 4096 < d.text.displayName.utf8ByteSize ∨
      65536 < d.text.message.utf8ByteSize ∨ 256 < d.text.connectionEpoch.utf8ByteSize) ↔
      (textOf d.donorID).utf8ByteSize ≤ 256 ∧ (textOf d.displayName).utf8ByteSize ≤ 4096 := by
    rw [hevent', hchannel, hmessage, hepoch, String.utf8ByteSize_empty]
    simp only [RawDonation.text]
    omega
  rw [← hlimits, Journal.Donation.validate]
  constructor
  · intro hok hlarge
    rw [if_pos hlarge] at hok
    cases hok
  · intro hfits
    rw [if_neg hfits, if_neg hnonempty]

/-! ### Both directions -/

/-- The file of a packet's donation passes the checks of `drain`. -/
theorem readFile_balloon (hgrant : Issued g conn.channelID) (hb : IsBalloon conn p d)
    (hvalid : d.validate = .ok ()) (hsave : saveFile E g d acceptedAt = some file) (now : Time) :
    readFile E now file =
      if acceptedAt + 30 * day < now then .error (.new "old spool record: recovery required")
      else .ok ⟨g, d.text, acceptedAt⟩ := by
  refine readFile_saveFile hb.inRange ?_ hsave
  have hsizes := sizes_of_validate hvalid
  have htoken := hgrant.token_size
  have hgeneration := hgrant.generation_size
  have hchannel : g.channel.utf8ByteSize = d.channelID.length := by
    rw [hgrant.channel, hb.channelID, length_bytesOf]
  have hkind : d.kind.length = 7 := by
    rw [hb.kind]
    decide
  simp only [recordWidth, hb.strings, List.map_cons, List.map_nil, List.sum_cons, List.sum_nil,
    RawDonation.width, List.length_nil]
  omega

theorem plain_text_iff (hb : IsBalloon conn p d) :
    (∀ b ∈ (rawOf d.text).strings, 0 ∉ b) ↔ 0 ∉ d.donorID ∧ 0 ∉ d.displayName := by
  obtain ⟨event, hevent, heventPlain⟩ := hb.event
  have hchannel := conn.channelID_plain
  have hepoch := conn.epoch_plain
  have hkind : 0 ∉ bytesOf "balloon" := by decide
  rw [← zero_mem_bytesOf] at heventPlain hchannel hepoch
  rw [RawDonation.strings_rawOf_text, List.forall_mem_map, hb.strings, hevent, hb.channelID,
    hb.kind, hb.connectionEpoch]
  simp [zero_mem_bytesOf, nul_mem_textOf, heventPlain, hchannel, hepoch, hkind]

theorem fieldsFit_iff (hb : IsBalloon conn p d) (hvalid : d.validate = .ok ()) :
    FieldsFit p ↔ d.text.validate = .ok () ∧ 0 ∉ d.donorID ∧ 0 ∉ d.displayName := by
  rw [validate_text_iff hb hvalid, FieldsFit, hb.donorID, hb.displayName]
  tauto

/-- Without the condition, the file fails in every drain that finds the event
not in the journal. -/
theorem drain_stuck (hgrant : Issued g conn.channelID) (hb : IsBalloon conn p d)
    (hvalid : d.validate = .ok ()) (hsave : saveFile E g d acceptedAt = some file)
    (hfit : ¬FieldsFit p) {B : Backend} (hB : Conforms E B) (t : Clocks) {db : Db} (now : Time)
    (hnew : db.donations.find d.text.eventID = none) :
    ∃ e, drainFile E B t db now file = .error e := by
  rw [drainFile, readFile_balloon hgrant hb hvalid hsave now]
  by_cases hnow : acceptedAt + 30 * day < now
  · rw [if_pos hnow]
    exact ⟨_, rfl⟩
  · rw [if_neg hnow]
    cases happend : appendDonation B t db g d.text acceptedAt with
    | error e => exact ⟨SpoolErr.ofAppend e, by simp only [happend]⟩
    | ok r =>
      obtain ⟨hvalidText, c, hstorable⟩ := append_new_ok hnew happend
      have hplain := plain_of_storable hB hstorable
      simp only [RawDonation.text, nul_mem_textOf] at hplain
      exact absurd ((fieldsFit_iff hb hvalid).mpr ⟨hvalidText, hplain⟩) hfit

/-- With it, a ready journal takes the donation. -/
theorem drain_ok (hgrant : Issued g conn.channelID) (hb : IsBalloon conn p d)
    (hvalid : d.validate = .ok ()) (hsave : saveFile E g d acceptedAt = some file)
    (hfit : FieldsFit p) {B : Backend} {t : Clocks} {db : Db} {c : ChannelRow} {now : Time}
    (hready : Ready E B g d.text acceptedAt t db c now) :
    ∃ db', drainFile E B t db now file = .ok db' := by
  obtain ⟨hvalidText, hplain⟩ := (fieldsFit_iff hb hvalid).mp hfit
  have hmarshal : ((rawOf (journaled B db c d.text)).marshal E).isSome = true := by
    have hsome := isSome_marshal_of_saveFile hsave
    rw [RawDonation.isSome_marshal_iff] at hsome
    rw [isSome_marshal_journaled, RawDonation.isSome_marshal_iff]
    exact hsome
  obtain ⟨payload, hpayload⟩ := Option.isSome_iff_exists.mp hmarshal
  have hlen : B.marshalLen (journaled B db c d.text) = some (size payload) := by
    rw [hready.conforms.marshalLen, hpayload, Option.map_some]
  have hstorable : B.storable (journaled B db c d.text) = true :=
    (storable_iff hready.conforms).mpr ⟨hmarshal, plain_journaled ((plain_text_iff hb).mpr hplain)
      hready.generation_text hready.events_text⟩
  have hsource : d.text.sourceID = none := by
    rw [RawDonation.text, hb.sourceID, Option.map_none]
  obtain ⟨r, hr⟩ := append_of_ready hready hvalidText hsource hlen hstorable
  rw [drainFile, readFile_balloon hgrant hb hvalid hsave now, if_neg (Nat.not_lt.mpr hready.recent)]
  simp only [hr]
  exact ⟨_, rfl⟩

/-! ### A journal that is ready -/

/-- A backend of this encoding that collects every channel. -/
def conformingBackend (E : Encoding) : Backend where
  collectionChannel := none
  sha256Hex := id
  marshalLen := fun d => ((rawOf d).marshal E).map size
  columnSize := fun _ => 0
  storable := fun d =>
    [d.eventID, d.channelID, d.generation, d.connectionEpoch].all textAccepts &&
      ((rawOf d).marshal E).any jsonbAccepts
  jsonb := fun _ => true
  unrecoveredRanges := fun _ => none

theorem conforms_conformingBackend (E : Encoding) : Conforms E (conformingBackend E) :=
  ⟨fun _ => rfl, fun _ => rfl⟩

/-- The row of a channel that nothing was received from. -/
def emptyChannel (g : OwnerGrant) : ChannelRow where
  generation := g.generation
  nextOffset := 0
  expiredThrough := 0
  subscribed := true
  ownerToken := some g.token
  runtimeState := "connecting"
  stateAt := 0
  lastReceivedAt := none

/-- A database with the channel of a grant, and the grant at this time. -/
def emptyJournal (g : OwnerGrant) (acceptedAt : Time) : Db :=
  { Db.empty with
    channels := Table.empty.upsert g.channel (emptyChannel g)
    grants := Table.empty.upsert g.token
      { channelID := g.channel, workerID := "", generation := g.generation
        grantedAt := acceptedAt, validUntil := acceptedAt, closedAt := none } }

theorem find_emptyJournal (g : OwnerGrant) (acceptedAt : Time) (e : String) :
    (emptyJournal g acceptedAt).donations.find e = none :=
  rfl

/-- The payload of a packet's donation fits into an empty journal. -/
theorem size_payload_le (hgrant : Issued g conn.channelID) (hb : IsBalloon conn p d)
    (hvalid : d.validate = .ok ()) {payload : Text}
    (h : (rawOf (journaled (conformingBackend E) (emptyJournal g acceptedAt) (emptyChannel g)
      d.text)).marshal E = some payload) : size payload ≤ 2 ^ 30 := by
  obtain ⟨identity, reasons, related, hj, ⟨-, hidentity⟩, hlists⟩ :=
    journaled_eq (conformingBackend E) (emptyJournal g acceptedAt) (emptyChannel g) d.text
  rcases hlists with ⟨rfl, rfl⟩ | ⟨e, row, hrow, -, -⟩
  · rw [hj] at h
    obtain ⟨observed, started, hobserved, hstarted, rfl⟩ := RawDonation.marshal_eq_some h
    have hcount : d.count.natAbs < 2 ^ 64 := by
      have := hb.inRange.count
      omega
    have hsize := RawDonation.size_members_le hobserved hstarted hcount hb.inRange.sequence
      (show 0 + 1 < 2 ^ 64 by decide)
    have hsizes := sizes_of_validate hvalid
    have hevent := utf8ByteSize_textOf_le d.eventID
    have hchannel := utf8ByteSize_textOf_le d.channelID
    have hdonor := utf8ByteSize_textOf_le d.donorID
    have hname := utf8ByteSize_textOf_le d.displayName
    have hepoch := utf8ByteSize_textOf_le d.connectionEpoch
    have hkind : (textOf d.kind).utf8ByteSize = 7 := by
      rw [hb.kind, textOf_bytesOf]
      decide
    have hempty : (textOf []).utf8ByteSize = 0 := by decide
    have hgeneration : (emptyChannel g).generation.utf8ByteSize = 36 := hgrant.generation_size
    refine hsize.trans ?_
    simp only [rawOf, RawDonation.strings, RawDonation.text, hb.message, hb.sourceID,
      hb.broadcastID, hb.reasons, hb.related, Option.map_none, Option.toList_none, List.map_nil,
      List.append_nil, List.cons_append, List.nil_append, List.map_cons, List.sum_cons,
      List.sum_nil, RawDonation.width, length_bytesOf, hempty, hkind, hgeneration]
    omega
  · exact absurd hrow (Table.has_empty _ _)

variable (E acceptedAt) in
theorem ready_emptyJournal (hgrant : Issued g conn.channelID) (hb : IsBalloon conn p d)
    (hvalid : d.validate = .ok ()) :
    Ready E (conformingBackend E) g d.text acceptedAt (Clocks.still acceptedAt)
      (emptyJournal g acceptedAt) (emptyChannel g) acceptedAt := by
  have hchannel : d.text.channelID = g.channel := by
    rw [RawDonation.text, hb.channelID, textOf_bytesOf, hgrant.channel]
  refine
    { conforms := conforms_conformingBackend E
      recent := Nat.le_add_right _ _
      storeRecent := Nat.le_add_right _ _
      channel := hchannel
      allowed := rfl
      row := ?row
      subscribed := rfl
      optedIn := List.not_mem_nil
      generation := rfl
      generation_text := hgrant.generation_text
      events_text := fun h => absurd h (Table.has_empty _ _)
      grant := ?grant
      offset := show 0 < maxUint64 by decide
      offsets := fun h => absurd h (Table.has_empty _ _)
      event := Or.inl ⟨rfl, rfl⟩
      room := ?room }
  case row =>
    rw [hchannel]
    exact Table.find_upsert_self
  case grant =>
    refine ⟨_, Table.find_upsert_self, ?_⟩
    simp [GrantRow.accepts, Clocks.still]
  case room =>
    intro len hlen
    obtain ⟨payload, hpayload, rfl⟩ := Option.map_eq_some_iff.mp hlen
    have hsize := size_payload_le hgrant hb hvalid hpayload
    have hbytes : payloadBytes (conformingBackend E) (emptyJournal g acceptedAt)
        d.text.channelID = 0 := rfl
    rw [hbytes]
    omega

theorem fieldsFit_of_drains (hgrant : Issued g conn.channelID) (hb : IsBalloon conn p d)
    (hvalid : d.validate = .ok ()) (hsave : saveFile E g d acceptedAt = some file)
    (hdrains : Drains E g d acceptedAt file) : FieldsFit p := by
  by_contra hfit
  have hready := ready_emptyJournal E acceptedAt hgrant hb hvalid
  obtain ⟨db', hok⟩ := hdrains.2 _ _ _ _ _ hready
  obtain ⟨e, herror⟩ := drain_stuck hgrant hb hvalid hsave hfit hready.conforms
    (Clocks.still acceptedAt) acceptedAt (find_emptyJournal g acceptedAt d.text.eventID)
  rw [hok] at herror
  cases herror

/-- A donation that `Save` accepted from a packet reaches every journal that is
ready for it, exactly if the donor's ID and name have no zero byte and are not
too long as text. -/
theorem drains_iff (hgrant : Issued g conn.channelID)
    (hd : balloonDonation conn p observedAt = some d) (hvalid : d.validate = .ok ())
    (hsave : saveFile E g d acceptedAt = some file) :
    Drains E g d acceptedAt file ↔ FieldsFit p := by
  have hb := isBalloon hd
  constructor
  · exact fieldsFit_of_drains hgrant hb hvalid hsave
  · intro hfit
    refine ⟨?_, fun B t db c now => drain_ok hgrant hb hvalid hsave hfit⟩
    intro now hnow
    rw [readFile_balloon hgrant hb hvalid hsave now, if_neg (Nat.not_lt.mpr hnow)]

end Balloon

instance (p : SoopPacket) : Decidable (FieldsFit p) := inferInstanceAs (Decidable (_ ∧ _))

/-! ## A connector with its first packet -/

def fixtureGrant : OwnerGrant where
  token := "6ecd8c99-4036-403d-bf84-cf8400f67836"
  channel := "fixture_channel"
  generation := "3f333df6-90a4-4fda-8dd3-9485d27cee36"
  grantedAt := 4
  validUntil := 400

/-- A packet of 33 balloons from this donor. -/
def fixturePacket (donor : Bytes) : SoopPacket where
  cmd := soopCmdSendBalloon
  ret := 0
  fields := [bytesOf "fixture_channel", donor, bytesOf "name", bytesOf "33"]
  raw := []

def fixtureBalloon (donor : Bytes) : RawDonation where
  eventID := bytesOf "1b671a64-40d5-491e-99b0-da01ff1f3341-1"
  channelID := bytesOf "fixture_channel"
  count := 33
  kind := bytesOf "balloon"
  donorID := stripUserIDSuffix donor
  displayName := bytesOf "name"
  message := []
  connectionEpoch := bytesOf "1b671a64-40d5-491e-99b0-da01ff1f3341"
  sequence := 1
  observedAt := 5
  connectionStartedAt := 3
  sourceID := none
  broadcastID := none
  identity := []
  reasons := []
  related := []
  generation := []
  offset := 0

theorem balloonDonation_fixture (donor : Bytes) :
    balloonDonation fixtureConnector (fixturePacket donor) 5 = some (fixtureBalloon donor) := by
  have hcount : parseInt64 (lossy (bytesOf "33")) = some 33 := by decide
  have hevent : bytesOf (fixtureConnector.epoch ++ "-" ++
      toString fixtureConnector.next.toUInt64.toNat) =
        bytesOf "1b671a64-40d5-491e-99b0-da01ff1f3341-1" := by decide
  simp only [balloonDonation, fixturePacket, ne_eq, not_true_eq_false, if_false, fieldAt,
    List.getD_cons_succ, List.getD_cons_zero, hcount, Option.map_some, hevent]
  rfl

theorem issued_fixtureGrant : Issued fixtureGrant fixtureConnector.channelID :=
  ⟨rfl, by decide, by decide, by decide⟩

def fixtureFile (donor : Bytes) : Text :=
  (saveFile fixtureEncoding fixtureGrant (fixtureBalloon donor) 6).getD []

theorem saveFile_fixture (donor : Bytes) :
    saveFile fixtureEncoding fixtureGrant (fixtureBalloon donor) 6 = some (fixtureFile donor) :=
  rfl

/-- The journal takes a donation like those of the tests. -/
theorem drains_iff_fixture :
    Drains fixtureEncoding fixtureGrant (fixtureBalloon (bytesOf "fixture_donor(2)")) 6
      (fixtureFile (bytesOf "fixture_donor(2)")) :=
  (drains_iff issued_fixtureGrant (balloonDonation_fixture _) (by decide)
    (saveFile_fixture _)).mpr (by decide)

/-- `Save` accepts the donation of this donor, and every drain fails from then on. -/
def Blocks (donor : Bytes) : Prop :=
  balloonDonation fixtureConnector (fixturePacket donor) 5 = some (fixtureBalloon donor) ∧
  (fixtureBalloon donor).validate = .ok () ∧
  saveFile fixtureEncoding fixtureGrant (fixtureBalloon donor) 6 = some (fixtureFile donor) ∧
  ¬Drains fixtureEncoding fixtureGrant (fixtureBalloon donor) 6 (fixtureFile donor) ∧
  ∀ B t db now, Conforms fixtureEncoding B →
    db.donations.find (fixtureBalloon donor).text.eventID = none →
      ∃ e, drainFile fixtureEncoding B t db now (fixtureFile donor) = .error e

theorem blocks_of_not_fieldsFit {donor : Bytes} (hvalid : (fixtureBalloon donor).validate = .ok ())
    (hfit : ¬FieldsFit (fixturePacket donor)) : Blocks donor := by
  have hb := isBalloon (balloonDonation_fixture donor)
  refine ⟨balloonDonation_fixture donor, hvalid, saveFile_fixture donor, ?_, ?_⟩
  · exact fun hdrains =>
      hfit (fieldsFit_of_drains issued_fixtureGrant hb hvalid (saveFile_fixture donor) hdrains)
  · intro B t db now hB hnew
    exact drain_stuck issued_fixtureGrant hb hvalid (saveFile_fixture donor) hfit hB t now hnew

/-- A donor ID with a zero byte, and one of 86 bytes that are no text. -/
theorem accepted_donation_blocks : Blocks [0x61, 0x00] ∧ Blocks (List.replicate 86 0xFF) :=
  ⟨blocks_of_not_fieldsFit (by decide) (by decide),
    blocks_of_not_fieldsFit (by decide +kernel) (by decide +kernel)⟩

end RogiCollector.Ports.SpoolFile
