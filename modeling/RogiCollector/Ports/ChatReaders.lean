import RogiCollector.Verified.Machine
import RogiCollector.Ports.ChatStream

/-!
# Readers of the product chat

The three ways to read the stream: `WatchChat`
(`query/internal/collector_chat.go`), the public stream loop and
`GET recent` (`query/publicapi/server.go`).  The two loops poll; one iteration
is one atomic read of Redis and what is then sent.  A send may fail, which
ends the reader with what was sent before.

Left out are the parts that touch no chat: authorisation, connection limits,
heartbeats and broadcast status messages.  Cursors are the decoded pair; their
text (base64 of JSON) is not modelled.
-/

namespace RogiCollector.Ports.ChatStream

open Verified
open Journal (Time)

/-- The channel read, and `time.Parse` with `time.RFC3339Nano`. -/
structure Config where
  channel : String
  parseTime : String → Option Time

/-- `chatCursor`, and `pb.ChatCursor` without its flag. -/
structure ChatCursor where
  generation : String
  id : String
  deriving Repr, DecidableEq

/-- What `decodeCursor` and `WatchChat` require of a cursor. -/
def ChatCursor.valid (c : ChatCursor) : Bool := c.generation ≠ "" ∧ validStreamID c.id

/-- The identifier every entry lies behind. -/
def zeroID : String := "0-0"

/-- `if after == "" { after = "0-0" }`. -/
def orZero (id : String) : String := if id = "" then zeroID else id

/-- A chat with its user, before the timestamp is looked at. -/
def isUserChat (values : List (String × String)) : Bool :=
  value values "type" = "chat" ∧ value values "userId" ≠ ""

/-! ## `WatchChat` -/

/-- `pb.ChatEvent`. -/
structure ChatEvent where
  eventID : String
  channelID : String
  userID : String
  message : String
  emotesJSON : String
  cursor : ChatCursor
  gapBefore : Bool
  observedAt : Time
  schemaVersion : String
  platformChannelID : String
  userDisplayName : String
  deriving Repr, DecidableEq

/-- How a call of `WatchChat` ends. -/
inductive Status where
  | unavailable (text : String)
  | failedPrecondition (text : String)
  | invalidArgument (text : String)
  deriving Repr, DecidableEq

/-- The local variables of `WatchChat`. -/
structure WatchState where
  after : String
  generation : String
  gap : Bool
  deriving Repr, DecidableEq

/-- `WatchChat` up to its loop. -/
def watchChat : Option ChatCursor → Except Status WatchState
  | none => .ok ⟨zeroID, "", false⟩
  | some c =>
    if !c.valid then .error (.invalidArgument "invalid chat cursor")
    else .ok ⟨c.id, c.generation, false⟩

/-- The event of a message. -/
def chatEvent (C : Config) (generation : String) (gap : Bool) (msg : StreamMessage) (t : Time) :
    ChatEvent where
  eventID := value msg.values "id"
  channelID := C.channel
  userID := value msg.values "userId"
  message := value msg.values "message"
  emotesJSON := value msg.values "emotes"
  cursor := ⟨generation, msg.streamID⟩
  gapBefore := gap
  observedAt := t
  schemaVersion := "v1"
  platformChannelID := C.channel
  userDisplayName := value msg.values "nickname"

/-- The loop over the messages of a batch. -/
def watchMessages (C : Config) : WatchState → List StreamMessage → List ChatEvent × WatchState
  | st, [] => ([], st)
  | st, msg :: msgs =>
    if !isUserChat msg.values then watchMessages C { st with after := msg.streamID } msgs
    else
      match C.parseTime (value msg.values "timestamp") with
      | none => watchMessages C { st with after := msg.streamID, gap := true } msgs
      | some t =>
        let rest := watchMessages C { st with after := msg.streamID, gap := false } msgs
        (chatEvent C st.generation st.gap msg t :: rest.1, rest.2)

/-- One iteration of `WatchChat` on what it read. -/
def watchIteration (C : Config) (st : WatchState) :
    Option ChatBatch → List ChatEvent × Except Status WatchState
  | none => ([], .error (.unavailable "chat buffer unavailable"))
  | some batch =>
    if batch.generation = "" ∧ batch.messages ≠ [] then
      ([], .error (.failedPrecondition
        "chat generation unavailable; explicit resubscription required"))
    else if st.generation ≠ "" ∧ st.generation ≠ batch.generation then
      ([], .error (.failedPrecondition
        "chat stream reset; explicit resubscription required"))
    else
      let st := if st.generation = "" then { st with generation := batch.generation } else st
      let st :=
        if st.after ≠ zeroID ∧ batch.earliest ≠ "" ∧ streamIDBefore st.after batch.earliest then
          { st with gap := true }
        else st
      if batch.latest ≠ "" ∧ streamIDBefore batch.latest st.after then
        ([], .error (.invalidArgument "chat cursor beyond stream"))
      else
        let sent := watchMessages C st batch.messages
        (sent.1, .ok sent.2)

/-! ## The public endpoints -/

/-- A `chat.message`. -/
structure ChatMessage where
  eventID : String
  cursor : ChatCursor
  receivedAt : Time
  displayName : String
  message : String
  deriving Repr, DecidableEq

/-- The message of an entry. -/
def chatMessage (generation : String) (msg : StreamMessage) (t : Time) : ChatMessage where
  eventID := value msg.values "id"
  cursor := ⟨generation, msg.streamID⟩
  receivedAt := t
  displayName := value msg.values "nickname"
  message := value msg.values "message"

/-- The loop of `chatMessages`: events, the cursor behind the last message and
whether one was invalid. -/
def chatMessagesLoop (C : Config) (generation : String) :
    String → List StreamMessage → List ChatMessage × String × Bool
  | after, [] => ([], after, false)
  | _, msg :: msgs =>
    let rest := chatMessagesLoop C generation msg.streamID msgs
    if !isUserChat msg.values then rest
    else
      match C.parseTime (value msg.values "timestamp") with
      | none => (rest.1, rest.2.1, true)
      | some t => (chatMessage generation msg t :: rest.1, rest.2)

def chatMessages (C : Config) (batch : ChatBatch) (after : String) :
    List ChatMessage × String × Bool :=
  chatMessagesLoop C batch.generation after batch.messages

/-- The answer of `GET recent`. -/
inductive Response where
  | messages (events : List ChatMessage) (next : Option ChatCursor)
  | failure (status : Nat) (code : String)
  deriving Repr, DecidableEq

/-- `recent`; `latest` and `read` are the two reads it may make. -/
def recent (C : Config) (cursor : Option ChatCursor) (limit : Int)
    (latest : Option ChatBatch) (read : String → Option ChatBatch) : Response :=
  if cursor.any fun c => !c.valid then .failure 400 "invalid_cursor"
  else if limit < 1 ∨ 100 < limit then .failure 400 "invalid_limit"
  else
    let after := (cursor.map (·.id)).getD zeroID
    match if cursor = none then latest else read after with
    | none => .failure 503 "chat_unavailable"
    | some batch =>
      if batch.generation = "" ∧ batch.messages ≠ [] then
        .failure 503 "chat_generation_unavailable"
      else if cursor.any fun c => c.generation ≠ batch.generation then
        .failure 409 "cursor_expired"
      else if cursor.any fun c => batch.earliest ≠ "" ∧ streamIDBefore c.id batch.earliest then
        .failure 409 "cursor_expired"
      else
        let (events, nextRaw, invalid) := chatMessages C batch after
        if invalid then .failure 503 "chat_data_invalid"
        else
          let events :=
            if cursor = none then events.drop (events.length - limit.toNat)
            else events.take limit.toNat
          let next :=
            match events.getLast? with
            | some event => some event.cursor
            | none =>
              if nextRaw ≠ after ∧ batch.generation ≠ "" then
                some ⟨batch.generation, nextRaw⟩
              else none
          .messages events next

/-- What the stream loop writes about chats. -/
inductive WsMessage where
  | hello (current earliest : Option ChatCursor)
  | gap (reason : String)
  | error (code : String)
  | chat (event : ChatMessage)
  deriving Repr, DecidableEq

/-- The local variables of the stream loop. -/
structure LoopState where
  after : String
  generation : String
  deriving Repr, DecidableEq

/-- A cursor for `hello`, when there is one. -/
def helloCursor (generation id : String) : Option ChatCursor :=
  if generation ≠ "" ∧ id ≠ "" then some ⟨generation, id⟩ else none

/-- `stream` up to its loop, on what it read. -/
def streamStart (cursor : Option ChatCursor) :
    Option ChatBatch → List WsMessage × Option LoopState
  | none => ([.error "chat_unavailable"], none)
  | some initial =>
    if initial.generation = "" ∧ initial.messages ≠ [] then
      ([.error "chat_generation_unavailable"], none)
    else
      let hello := WsMessage.hello (helloCursor initial.generation initial.latest)
        (helloCursor initial.generation initial.earliest)
      match cursor with
      | none => ([hello], some ⟨orZero initial.latest, initial.generation⟩)
      | some c =>
        if c.generation ≠ initial.generation ∨
            (initial.earliest ≠ "" ∧ streamIDBefore c.id initial.earliest) then
          ([hello, .gap "cursor_expired"],
            some ⟨orZero initial.latest, initial.generation⟩)
        else ([hello], some ⟨c.id, initial.generation⟩)

/-- One iteration of the stream loop on what it read. -/
def streamIteration (C : Config) (st : LoopState) :
    Option ChatBatch → List WsMessage × Option LoopState
  | none => ([.error "chat_unavailable"], none)
  | some batch =>
    if batch.generation = "" ∧ batch.messages ≠ [] then
      ([.error "chat_generation_unavailable"], none)
    else if st.generation ≠ "" ∧ batch.generation ≠ st.generation then
      ([.gap "stream_reset"], some ⟨orZero batch.latest, batch.generation⟩)
    else if st.after ≠ zeroID ∧ batch.earliest ≠ "" ∧
        streamIDBefore st.after batch.earliest then
      ([.gap "cursor_expired"], some { st with after := orZero batch.latest })
    else
      let (events, next, invalid) := chatMessages C batch st.after
      ((if invalid then [.gap "invalid_event"] else []) ++ events.map .chat,
        some ⟨next, if st.generation = "" then batch.generation else st.generation⟩)

/-! ## The system -/

/-- What a reader receives. -/
inductive Item where
  | event (e : ChatEvent)
  | ws (m : WsMessage)
  | status (s : Status)
  deriving Repr, DecidableEq

/-- Where a reader is. -/
inductive Point where
  | watch (st : WatchState)
  | loop (st : LoopState)
  | ended
  deriving Repr, DecidableEq

/-- A reader: where it started, where it is and what it received. -/
structure Session where
  start : ChatCursor
  point : Point
  items : List Item
  deriving Repr, DecidableEq

/-- Redis and the readers. -/
structure State where
  redis : Redis
  sessions : List Session

def State.init : State := ⟨Redis.init, []⟩

/-- A step of the system. -/
inductive Input where
  | publish (uuid : String) (minID : Nat) (entry : Entry)
  | trim (minID : Nat)
  | deleteStream
  | expireGeneration
  | watch (cursor : Option ChatCursor)
  | stream (cursor : Option ChatCursor) (ok : Bool) (sent : Nat)
  | iterate (k : Nat) (ok : Bool) (sent : Nat)
  | leave (k : Nat)

/-- Of `items`, the first `sent` are sent.  If that is all, the reader goes on. -/
def Session.receive (session : Session) (items : List Item) (sent : Nat) (point : Point) :
    Session :=
  { session with
    items := session.items ++ items.take sent
    point := if items.length ≤ sent then point else .ended }

/-- Where the stream loop starts: at the cursor, or at what is latest. -/
def streamFrom (cursor : Option ChatCursor) (initial : Option ChatBatch) : ChatCursor :=
  match cursor, initial with
  | some c, _ => c
  | none, some initial => ⟨initial.generation, orZero initial.latest⟩
  | none, none => ⟨"", zeroID⟩

/-- One iteration of a reader. -/
def Session.iterate (C : Config) (r : Redis) (ok : Bool) (sent : Nat) (session : Session) :
    Session :=
  match session.point with
  | .watch st =>
    match watchIteration C st (readProductChat r st.after ok) with
    | (events, .ok st) => session.receive (events.map .event) sent (.watch st)
    | (events, .error status) =>
      session.receive (events.map .event ++ [.status status]) sent .ended
  | .loop st =>
    match streamIteration C st (readProductChat r st.after ok) with
    | (messages, some st) => session.receive (messages.map .ws) sent (.loop st)
    | (messages, none) => session.receive (messages.map .ws) sent .ended
  | .ended => session

/-- One step. -/
def step (C : Config) (s : State) : Input → State
  | .publish uuid minID entry => { s with redis := publishProductChat s.redis uuid minID entry }
  | .trim minID => { s with redis := trimProductChat s.redis minID }
  | .deleteStream => { s with redis := ChatStream.deleteStream s.redis }
  | .expireGeneration => { s with redis := ChatStream.expireGeneration s.redis }
  | .watch cursor =>
    match watchChat cursor with
    | .ok st => { s with sessions := s.sessions ++ [⟨⟨st.generation, st.after⟩, .watch st, []⟩] }
    | .error _ => s
  | .stream cursor ok sent =>
    if cursor.any fun c => !c.valid then s
    else
      let initial := readProductChat s.redis ((cursor.map (·.id)).getD zeroID) ok
      let session : Session := ⟨streamFrom cursor initial, .ended, []⟩
      match streamStart cursor initial with
      | (messages, some st) =>
        { s with sessions := s.sessions ++ [session.receive (messages.map .ws) sent (.loop st)] }
      | (messages, none) =>
        { s with sessions := s.sessions ++ [session.receive (messages.map .ws) sent .ended] }
  | .iterate k ok sent => { s with sessions := s.sessions.modify k (·.iterate C s.redis ok sent) }
  | .leave k => { s with sessions := s.sessions.modify k ({ · with point := .ended }) }

/-- Identifiers increase within one stream, and a UUID is drawn once. -/
def admits (s : State) : Input → Prop
  | .publish uuid _ entry =>
    uuid ∉ s.redis.minted ∧ uuid ≠ "" ∧ s.redis.current.last < entry.id.key
  | _ => True

instance (s : State) : (i : Input) → Decidable (admits s i)
  | .publish .. => inferInstanceAs (Decidable (_ ∧ _ ∧ _))
  | .trim .. | .deleteStream | .expireGeneration | .watch .. | .stream .. | .iterate ..
  | .leave .. => inferInstanceAs (Decidable True)

/-- Publishers, maintenance and readers around one stream. -/
def machine (C : Config) : Machine State Input Unit where
  admits := admits
  step s i := (step C s i, ())

instance (C : Config) (s : State) (i : Input) : Decidable ((machine C).admits s i) :=
  inferInstanceAs (Decidable (admits s i))

end RogiCollector.Ports.ChatStream
