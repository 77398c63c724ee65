import RogiCollector.Ports.DonationJson

/-!
# Packets of the SOOP connector

`worker/internal/connector/soop.go`: what `handlePacket` makes of a packet that
carries a chat or a donation.  The fields of a packet are the bytes between form
feeds, and nothing says that they are text.
-/

namespace RogiCollector.Ports.Soop

open Verified
open Verified.Json (Text parseInt64)
open Journal (Time)
open SpoolFile (RawDonation)

structure SoopPacket where
  cmd : Int
  ret : Int
  fields : List Bytes
  raw : Bytes
  deriving Repr, DecidableEq

def soopCmdChatMessage : Int := 5
def soopCmdSendBalloon : Int := 18
def soopCmdOGQEmoticon : Int := 109

def fieldAt (fields : List Bytes) (idx : Nat) : Bytes := fields.getD idx []

def isDigit (b : UInt8) : Bool := 0x30 ≤ b ∧ b ≤ 0x39

/-- `soopUserIDSuffix.ReplaceAllString(id, "")`: the expression is `\(\d+\)$`. -/
def stripUserIDSuffix (id : Bytes) : Bytes :=
  match id.reverse with
  | 0x29 :: rest =>
    match rest.dropWhile isDigit with
    | 0x28 :: before => if rest.head?.any isDigit then before.reverse else id
    | _ => id
  | _ => id

/-- What `handlePacket` reads of a connector.  `epoch` is a UUID and `channelID`
comes from the database. -/
structure SoopConnector where
  channelID : String
  streamerName : String
  epoch : String
  startedAt : Time
  seq : Int64
  epoch_plain : '\x00' ∉ epoch.toList
  channelID_plain : '\x00' ∉ channelID.toList

/-- `c.seq.Add(1)`. -/
def SoopConnector.next (c : SoopConnector) : Int64 := c.seq + 1

/-! ## Chats -/

/-- `model.MessageType`. -/
inductive MessageType where
  | chat
  | donation
  | subscription
  | system
  deriving Repr, DecidableEq

/-- `model.EmoteToken`. -/
structure EmoteToken where
  code : Bytes
  start : Int
  stop : Int
  imageURL : Bytes
  animated : Bool
  source : String
  deriving Repr, DecidableEq

/-- `model.ChatMessage` without the members of a donation.  The strings that
come from a packet are any bytes. -/
structure ChatMessage where
  id : String
  type : MessageType
  platform : String
  channelID : String
  streamerName : String
  userID : Bytes
  nickname : Bytes
  message : Bytes
  timestamp : Time
  raw : Bytes
  emotes : List EmoteToken
  deriving Repr, DecidableEq

/-- The identifier of the connector's next message. -/
def SoopConnector.messageID (c : SoopConnector) : String :=
  "soop-" ++ c.channelID ++ "-" ++ c.epoch ++ "-" ++ toString c.next

/-- `strings.ReplaceAll(s, "\r", "")`. -/
def dropReturns (s : Bytes) : Bytes := s.filter fun b => b ≠ 0x0D

/-- The name under which a message is shown. -/
def shownName (nickname userID : Bytes) : Bytes :=
  if nickname ≠ [] then nickname else if userID ≠ [] then userID else bytesOf "?"

def convertChatPacket (c : SoopConnector) (packet : SoopPacket) (now : Time) : ChatMessage :=
  let userID := stripUserIDSuffix (fieldAt packet.fields 1)
  { id := c.messageID
    type := .chat
    platform := "soop"
    channelID := c.channelID
    streamerName := c.streamerName
    userID
    nickname := shownName (fieldAt packet.fields 5) userID
    message := dropReturns (fieldAt packet.fields 0)
    timestamp := now
    raw := packet.raw
    emotes := [] }

def isOGQChar (b : UInt8) : Bool :=
  (0x41 ≤ b ∧ b ≤ 0x5A) ∨ (0x61 ≤ b ∧ b ≤ 0x7A) ∨ isDigit b ∨ b = 0x5F ∨ b = 0x2D

/-- `soopOGQID`: `^[A-Za-z0-9_-]{1,80}$`. -/
def soopOGQID (s : Bytes) : Bool := 1 ≤ s.length ∧ s.length ≤ 80 ∧ s.all isOGQChar

/-- `soopOGQNumber`: `^[1-9][0-9]{0,5}$`. -/
def soopOGQNumber (s : Bytes) : Bool :=
  1 ≤ s.length ∧ s.length ≤ 6 ∧ s.all isDigit ∧ s.head? ≠ some 0x30

/-- `convertOGQPacket`; `none` is a message without an ID, which is not emitted. -/
def convertOGQPacket (c : SoopConnector) (packet : SoopPacket) (now : Time) :
    Option ChatMessage :=
  let groupID := fieldAt packet.fields 2
  let subID := fieldAt packet.fields 3
  if !soopOGQID groupID ∨ !soopOGQNumber subID then none
  else
    let animated : Bool := fieldAt packet.fields 17 = bytesOf "1"
    let userID := stripUserIDSuffix (fieldAt packet.fields 5)
    some
      { id := c.messageID
        type := .chat
        platform := "soop"
        channelID := c.channelID
        streamerName := c.streamerName
        userID
        nickname := shownName (fieldAt packet.fields 6) userID
        message := dropReturns (fieldAt packet.fields 1)
        timestamp := now
        raw := packet.raw
        emotes :=
          [{ code := groupID ++ bytesOf ":" ++ subID, start := -1, stop := -1
             imageURL := bytesOf "https://ogq-sticker-global-cdn-z01.sooplive.com/sticker/" ++
               groupID ++ bytesOf "/" ++ subID ++ bytesOf "_160." ++
               bytesOf (if animated then "webp" else "png")
             animated
             source := "soop_ogq" }] }

/-! ## Donations -/

/-- The donation of a balloon packet; `none` when the count is no number. -/
def balloonDonation (c : SoopConnector) (packet : SoopPacket) (now : Time) : Option RawDonation :=
  if packet.cmd ≠ soopCmdSendBalloon then none
  else (parseInt64 (lossy (fieldAt packet.fields 3))).map fun count =>
    let seq := c.next.toUInt64.toNat
    { eventID := bytesOf (c.epoch ++ "-" ++ toString seq)
      channelID := bytesOf c.channelID
      count
      kind := bytesOf "balloon"
      donorID := stripUserIDSuffix (fieldAt packet.fields 1)
      displayName := fieldAt packet.fields 2
      message := []
      connectionEpoch := bytesOf c.epoch
      sequence := seq
      observedAt := now
      connectionStartedAt := c.startedAt
      sourceID := none
      broadcastID := none
      identity := []
      reasons := []
      related := []
      generation := []
      offset := 0 }

/-- The count fits its type. -/
theorem parseInt64_range {s : Text} {n : Int} (h : parseInt64 s = some n) :
    -2 ^ 63 ≤ n ∧ n ≤ 2 ^ 63 - 1 := by
  obtain ⟨m, -, hm⟩ := Option.bind_eq_some_iff.mp h
  by_cases hrange : -2 ^ 63 ≤ m ∧ m < 2 ^ 63
  · rw [if_pos hrange] at hm
    obtain rfl := Option.some.inj hm
    omega
  · rw [if_neg hrange] at hm
    contradiction

example : stripUserIDSuffix (bytesOf "user(2)") = bytesOf "user" := by decide
example : stripUserIDSuffix (bytesOf "user(a2)") = bytesOf "user(a2)" := by decide
example : stripUserIDSuffix (bytesOf "user()") = bytesOf "user()" := by decide

/-- A connector before its first message. -/
def fixtureConnector : SoopConnector where
  channelID := "fixture_channel"
  streamerName := "fixture_streamer"
  epoch := "1b671a64-40d5-491e-99b0-da01ff1f3341"
  startedAt := 3
  seq := 0
  epoch_plain := by decide
  channelID_plain := by decide

end RogiCollector.Ports.Soop
