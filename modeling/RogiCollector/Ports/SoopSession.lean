import RogiCollector.Ports.SoopFrame

/-!
# One connection of the SOOP connector

`readLoop`, `handleFrame` and `handlePacket` of
`worker/internal/connector/soop.go`, for a connector with a donation sink: the
manager sets one before every `Connect`, so that `convertDonationPacket` is
never reached.

What the outside answers while a packet is handled is an input, `Answers`: the
clock, a UUID, whether a write to the socket succeeds, whether the sink accepts
and whether the message channel has room.  A frame that makes the parser panic
ends the process.  `ReadMessage` may still return a buffered frame after the
socket was closed, but then the read deadline cannot be set any more.

`handled` counts the packets and `balloons` remembers what became of every
balloon packet behind the join acknowledgement.  Neither is read by the code.
-/

namespace RogiCollector.Ports.Soop

open Verified
open Journal (Time)
open SpoolFile (RawDonation)

/-! ## Subscriptions and notices -/

/-- `unicode.IsSpace`. -/
def spaces : List Char :=
  [0x09, 0x0A, 0x0B, 0x0C, 0x0D, 0x20, 0x85, 0xA0, 0x1680, 0x2000, 0x2001, 0x2002, 0x2003, 0x2004,
    0x2005, 0x2006, 0x2007, 0x2008, 0x2009, 0x200A, 0x2028, 0x2029, 0x202F, 0x205F, 0x3000].map
    Char.ofNat

/-- Spaces off the front, at most `n` of them. -/
def trimLeft : Nat → Bytes → Bytes
  | 0, s => s
  | n + 1, s =>
    match (spaces.map String.utf8EncodeChar).find? fun e => e.isPrefixOf s with
    | some e => trimLeft n (s.drop e.length)
    | none => s

/-- Spaces off the end, at most `n` of them. -/
def trimRight : Nat → Bytes → Bytes
  | 0, s => s
  | n + 1, s =>
    match (spaces.map String.utf8EncodeChar).find? fun e => e.isSuffixOf s with
    | some e => trimRight n (s.take (s.length - e.length))
    | none => s

/-- `strings.TrimSpace`. -/
def trimSpace (s : Bytes) : Bytes := trimRight s.length (trimLeft s.length s)

def nonEmptyFields (fields : List Bytes) : List Bytes :=
  (fields.map trimSpace).filter fun field => field ≠ []

def convertSubscriptionPacket (c : SoopConnector) (packet : SoopPacket) (now : Time) :
    ChatMessage where
  id := c.messageID
  type := .subscription
  platform := "soop"
  channelID := c.channelID
  streamerName := c.streamerName
  userID := stripUserIDSuffix (fieldAt packet.fields 1)
  nickname := shownName (fieldAt packet.fields 0) (fieldAt packet.fields 1)
  message := [0x20].intercalate (nonEmptyFields (packet.fields.take 3))
  timestamp := now
  raw := packet.raw
  emotes := []

/-- `convertSystemPacket`; `none` is a message without an ID, which is not emitted. -/
def convertSystemPacket (c : SoopConnector) (packet : SoopPacket) (now : Time) :
    Option ChatMessage :=
  if fieldAt packet.fields 0 = [] then none
  else some
    { id := c.messageID
      type := .system
      platform := "soop"
      channelID := c.channelID
      streamerName := c.streamerName
      userID := []
      nickname := bytesOf "system"
      message := fieldAt packet.fields 0
      timestamp := now
      raw := packet.raw
      emotes := [] }

/-- The message for a kind of donation that is not collected. -/
def unsupportedDonation (c : SoopConnector) (uuid : String) (now : Time) : ChatMessage where
  id := uuid
  type := .system
  platform := "soop"
  channelID := c.channelID
  streamerName := ""
  userID := []
  nickname := []
  message := bytesOf "unsupported_donation_kind"
  timestamp := now
  raw := []
  emotes := []

/-! ## The connection -/

/-- The commands that `handlePacket` tells apart. -/
inductive Command where
  | login
  | join
  | chatMessage
  | ogqEmoticon
  | sendBalloon
  | otherDonation
  | subscription
  | notice
  | unknown
  deriving Repr, DecidableEq

/-- The `switch` of `handlePacket`. -/
def commandOf (cmd : Int) : Command :=
  if cmd = 1 then .login
  else if cmd = 2 then .join
  else if cmd = soopCmdChatMessage then .chatMessage
  else if cmd = soopCmdOGQEmoticon then .ogqEmoticon
  else if cmd = soopCmdSendBalloon then .sendBalloon
  else if cmd = 37 ∨ cmd = 41 ∨ cmd = 121 then .otherDonation
  else if cmd = 91 ∨ cmd = 93 ∨ cmd = 108 then .subscription
  else if cmd = 10 ∨ cmd = 104 then .notice
  else .unknown

/-- What the outside answers while one packet is handled. -/
structure Answers where
  now : Time
  uuid : String
  sends : Bool
  accepts : Bool
  room : Bool
  deriving Repr, DecidableEq

/-- What becomes of a balloon packet. -/
inductive Outcome where
  | badCount
  | invalid (d : RawDonation)
  | refused (d : RawDonation)
  | accepted (d : RawDonation)
  deriving Repr, DecidableEq

/-- The donation was passed to the sink. -/
def Outcome.passed : Outcome → Bool
  | .refused _ => true
  | .accepted _ => true
  | _ => false

/-- The acceptance failed. -/
def Outcome.failed : Outcome → Bool
  | .accepted _ => false
  | _ => true

/-- The donation, if it was accepted. -/
def Outcome.donation : Outcome → Option RawDonation
  | .accepted d => some d
  | _ => none

theorem Outcome.donation_of_failed {o : Outcome} (h : o.failed = true) : o.donation = none := by
  cases o <;> first | rfl | contradiction

theorem Outcome.donation_of_not_passed {o : Outcome} (h : o.passed = false) :
    o.donation = none := by
  cases o <;> first | rfl | contradiction

/-- What is offered to `errCh`. -/
inductive Report where
  | loginRejected (ret : Int)
  | sendJoin
  | joinRejected (ret : Int)
  | acceptanceFailed
  deriving Repr, DecidableEq

/-- A connection.  `reading` says that `readLoop` has not returned, and `closed`
that `closeConn` closed the socket. -/
structure Session where
  connector : SoopConnector
  reading : Bool
  joinRequested : Bool
  joined : Bool
  alive : Bool
  closed : Bool
  lastReceived : Time
  emitted : List ChatMessage
  reports : List Report
  handled : Nat
  balloons : List (SoopPacket × Outcome)

/-- The connection as `Connect` starts it. -/
def Session.start (c : SoopConnector) : Session where
  connector := c
  reading := true
  joinRequested := false
  joined := false
  alive := true
  closed := false
  lastReceived := 0
  emitted := []
  reports := []
  handled := 0
  balloons := []

/-- `emitMessage`. -/
def Session.emit (s : Session) (A : Answers) (m : ChatMessage) : Session :=
  if A.room then { s with emitted := s.emitted ++ [m] } else s

/-- `c.seq.Add(1)`. -/
def Session.count (s : Session) : Session :=
  { s with connector := { s.connector with seq := s.connector.next } }

def Session.report (s : Session) (r : Report) : Session := { s with reports := s.reports ++ [r] }

def Session.closeConn (s : Session) : Session := { s with alive := false, closed := true }

/-- The acceptance of a balloon packet. -/
def acceptBalloon (A : Answers) (c : SoopConnector) (packet : SoopPacket) : Outcome :=
  match balloonDonation c packet A.now with
  | none => .badCount
  | some d =>
    match d.validate with
    | .error _ => .invalid d
    | .ok () => if A.accepts then .accepted d else .refused d

/-- The branch of `handlePacket` for a balloon packet. -/
def Session.balloon (s : Session) (A : Answers) (packet : SoopPacket) : Session :=
  let outcome := acceptBalloon A s.connector packet
  let s := { s.count with balloons := s.balloons ++ [(packet, outcome)] }
  if outcome.failed then (s.report .acceptanceFailed).closeConn else s

/-- The `switch` of `handlePacket`. -/
def Session.dispatch (s : Session) (A : Answers) (packet : SoopPacket) : Session :=
  match commandOf packet.cmd with
  | .login =>
    if packet.ret ≠ 0 then s.report (.loginRejected packet.ret)
    -- `writePacket` fails on a connection that is not alive
    else if !s.alive ∨ !A.sends then s.report .sendJoin
    else { s with joinRequested := true }
  | .join =>
    if !s.joinRequested then s
    else if packet.ret ≠ 0 then s.report (.joinRejected packet.ret)
    else { s with joined := true }
  | .chatMessage => s.count.emit A (convertChatPacket s.connector packet A.now)
  | .ogqEmoticon =>
    match convertOGQPacket s.connector packet A.now with
    | none => s
    | some m => s.count.emit A m
  | .sendBalloon => s.balloon A packet
  | .otherDonation => s.emit A (unsupportedDonation s.connector A.uuid A.now)
  | .subscription => s.count.emit A (convertSubscriptionPacket s.connector packet A.now)
  | .notice =>
    match convertSystemPacket s.connector packet A.now with
    | none => s
    | some m => s.count.emit A m
  | .unknown => s

/-- A packet that is looked at before the join acknowledgement. -/
def handshake (packet : SoopPacket) : Bool :=
  commandOf packet.cmd = .login ∨ commandOf packet.cmd = .join

/-- A packet that shows that the channel is being received. -/
def received (packet : SoopPacket) : Bool :=
  commandOf packet.cmd = .chatMessage ∨ commandOf packet.cmd = .ogqEmoticon ∨
    commandOf packet.cmd = .sendBalloon

/-- `handlePacket`; `answers` has an entry for every packet. -/
def handlePacket (answers : Nat → Answers) (s : Session) (packet : SoopPacket) : Session :=
  let A := answers s.handled
  let s := { s with handled := s.handled + 1 }
  if !s.joined ∧ !handshake packet then s
  else
    let s := if received packet then { s with lastReceived := A.now } else s
    s.dispatch A packet

/-- The loop of `handleFrame`. -/
def handlePackets (answers : Nat → Answers) (s : Session) (packets : List SoopPacket) : Session :=
  packets.foldl (handlePacket answers) s

/-- What `ReadMessage` returns, and whether the read deadline can be set on a
socket that is open. -/
inductive Read where
  | failed
  | frame (data : Bytes) (deadline : Bool)
  deriving Repr, DecidableEq

/-- The frame that `readLoop` hands to `handleFrame`. -/
def Session.frame (s : Session) : Read → Option Bytes
  | .failed => none
  | .frame data deadline => if s.reading ∧ !s.closed ∧ deadline then some data else none

/-- `readLoop` ends. -/
def Session.stop (s : Session) : Session := { s with reading := false, alive := false }

/-- One pass of `readLoop`, with `handleFrame` when there is a frame. -/
def readStep (answers : Nat → Answers) (s : Session) (read : Read) : Session :=
  match s.frame read with
  | none => s.stop
  | some data =>
    match parseSoopPackets data with
    | none => s.stop
    | some packets => handlePackets answers s packets

/-- The connection, driven by what `ReadMessage` returns. -/
def machine (answers : Nat → Answers) : Machine Session Read Unit where
  admits _ _ := True
  step s read := (readStep answers s read, ())

/-! ## What a packet does to the donations -/

def isBalloon (packet : SoopPacket) : Bool := commandOf packet.cmd = .sendBalloon

/-- What handling a packet leaves of the donations: at most one number is taken. -/
structure Quiet (s s' : Session) : Prop where
  balloons : s'.balloons = s.balloons
  closed : s'.closed = s.closed
  handled : s'.handled = s.handled
  connector : s'.connector = s.connector ∨ s'.connector = s.count.connector

section Packet

variable {answers : Nat → Answers} {s : Session} {A : Answers} {packet : SoopPacket}

theorem Quiet.refl (s : Session) : Quiet s s := ⟨rfl, rfl, rfl, Or.inl rfl⟩

theorem Quiet.report (s : Session) (r : Report) : Quiet s (s.report r) :=
  ⟨rfl, rfl, rfl, Or.inl rfl⟩

theorem Quiet.emit (s : Session) (A : Answers) (m : ChatMessage) : Quiet s (s.emit A m) := by
  rw [Session.emit]
  split <;> exact ⟨rfl, rfl, rfl, Or.inl rfl⟩

theorem Quiet.count_emit (s : Session) (A : Answers) (m : ChatMessage) :
    Quiet s (s.count.emit A m) := by
  rw [Session.emit]
  split <;> exact ⟨rfl, rfl, rfl, Or.inr rfl⟩

theorem dispatch_quiet (h : isBalloon packet = false) : Quiet s (s.dispatch A packet) := by
  rw [isBalloon, decide_eq_false_iff_not] at h
  rw [Session.dispatch]
  cases hcmd : commandOf packet.cmd with
  | login =>
    dsimp only
    split
    · exact Quiet.report s _
    · split
      · exact Quiet.report s _
      · exact ⟨rfl, rfl, rfl, Or.inl rfl⟩
  | join =>
    dsimp only
    split
    · exact Quiet.refl s
    · split
      · exact Quiet.report s _
      · exact ⟨rfl, rfl, rfl, Or.inl rfl⟩
  | chatMessage | subscription => exact Quiet.count_emit s A _
  | ogqEmoticon =>
    cases convertOGQPacket s.connector packet A.now with
    | none => exact Quiet.refl s
    | some m => exact Quiet.count_emit s A m
  | sendBalloon => exact absurd hcmd h
  | otherDonation => exact Quiet.emit s A _
  | notice =>
    cases convertSystemPacket s.connector packet A.now with
    | none => exact Quiet.refl s
    | some m => exact Quiet.count_emit s A m
  | unknown => exact Quiet.refl s

/-- The state in which the `switch` is entered. -/
def Session.entered (s : Session) (A : Answers) (packet : SoopPacket) : Session :=
  { s with
    handled := s.handled + 1
    lastReceived := if received packet then A.now else s.lastReceived }

/-- A packet is passed over while the join is waited for, or goes to the `switch`. -/
theorem handlePacket_eq :
    handlePacket answers s packet =
      if !s.joined ∧ !handshake packet then { s with handled := s.handled + 1 }
      else (s.entered (answers s.handled) packet).dispatch (answers s.handled) packet := by
  rw [handlePacket]
  congr 2
  rw [Session.entered]
  split <;> rfl

variable (answers) in
/-- A packet that is no balloon packet behind the join acknowledgement leaves the
donations alone. -/
theorem handlePacket_quiet (h : s.joined = false ∨ isBalloon packet = false) :
    Quiet { s with handled := s.handled + 1 } (handlePacket answers s packet) := by
  rw [handlePacket_eq]
  by_cases hwait : !s.joined ∧ !handshake packet
  · rw [if_pos hwait]
    exact Quiet.refl _
  · have hballoon : isBalloon packet = false := by
      rcases h with hjoined | hballoon
      · rw [hjoined] at hwait
        by_contra hb
        simp only [Bool.not_eq_false, isBalloon, decide_eq_true_eq] at hb
        simp [handshake, hb] at hwait
      · exact hballoon
    have hquiet := dispatch_quiet (s := s.entered (answers s.handled) packet)
      (A := answers s.handled) hballoon
    rw [if_neg hwait]
    exact ⟨hquiet.balloons, hquiet.closed, hquiet.handled, hquiet.connector⟩

theorem balloon_effect (s : Session) (A : Answers) (packet : SoopPacket) :
    (s.balloon A packet).balloons =
        s.balloons ++ [(packet, acceptBalloon A s.connector packet)] ∧
      (s.balloon A packet).closed =
        (s.closed || (acceptBalloon A s.connector packet).failed) ∧
      (s.balloon A packet).handled = s.handled ∧
      (s.balloon A packet).connector = s.count.connector := by
  rw [Session.balloon]
  by_cases hfailed : (acceptBalloon A s.connector packet).failed = true
  · rw [if_pos hfailed, hfailed, Bool.or_true]
    exact ⟨rfl, rfl, rfl, rfl⟩
  · rw [if_neg hfailed, Bool.eq_false_of_not_eq_true hfailed, Bool.or_false]
    exact ⟨rfl, rfl, rfl, rfl⟩

variable (answers) in
/-- A balloon packet takes a number, and closes the connection if it is not accepted. -/
theorem handlePacket_balloon (hjoined : s.joined = true) (h : isBalloon packet = true) :
    (handlePacket answers s packet).balloons =
        s.balloons ++ [(packet, acceptBalloon (answers s.handled) s.connector packet)] ∧
      (handlePacket answers s packet).closed =
        (s.closed || (acceptBalloon (answers s.handled) s.connector packet).failed) ∧
      (handlePacket answers s packet).handled = s.handled + 1 ∧
      (handlePacket answers s packet).connector = s.count.connector := by
  rw [isBalloon, decide_eq_true_eq] at h
  rw [handlePacket_eq, if_neg (by simp [hjoined]), Session.dispatch, h]
  exact balloon_effect (s.entered (answers s.handled) packet) (answers s.handled) packet

end Packet

/-! ## Stopping at a failure -/

/-- Nothing is passed to the sink after a failure. -/
def Stops (balloons : List (SoopPacket × Outcome)) : Prop :=
  balloons.Pairwise fun a b => a.2.failed = true → b.2.passed = false

/-- The accepted packets are the first ones. -/
def AcceptsFirst (balloons : List (SoopPacket × Outcome)) : Prop :=
  ∃ taken rest, balloons = taken ++ rest ∧ (∀ b ∈ taken, b.2.failed = false) ∧
    ∀ b ∈ rest, b.2.donation = none

/-- Every balloon packet of a frame that has another one behind it is accepted. -/
def AcceptsAhead (answers : Nat → Answers) (s : Session) (packets : List SoopPacket) : Prop :=
  ∀ before packet behind, packets = before ++ packet :: behind → isBalloon packet = true →
    behind.any isBalloon = true →
      let t := handlePackets answers s before
      t.joined = true → (acceptBalloon (answers t.handled) t.connector packet).failed = false

/-- The same for the frame of a pass, if it has one. -/
def FrameAcceptsAhead (answers : Nat → Answers) (s : Session) (read : Read) : Prop :=
  ∀ data packets, s.frame read = some data → parseSoopPackets data = some packets →
    AcceptsAhead answers s packets

section Stopping

variable {answers : Nat → Answers} {s : Session} {packet : SoopPacket}
  {packets : List SoopPacket}

variable {balloons : List (SoopPacket × Outcome)}

theorem Stops.of_all (h : ∀ b ∈ balloons, b.2.failed = false) : Stops balloons := by
  refine List.pairwise_of_forall_mem_list ?_
  intro a ha b hb hfailed
  rw [h a ha] at hfailed
  contradiction

/-- One more outcome, behind accepted ones. -/
theorem Stops.append (h : ∀ b ∈ balloons, b.2.failed = false) (last : SoopPacket × Outcome) :
    Stops (balloons ++ [last]) := by
  refine List.pairwise_append.mpr ⟨Stops.of_all h, List.pairwise_singleton _ _, ?_⟩
  intro a ha b hb hfailed
  rw [h a ha] at hfailed
  contradiction

/-- What was passed to the sink without a failure before it comes first. -/
theorem Stops.acceptsFirst (h : Stops balloons) : AcceptsFirst balloons := by
  induction balloons with
  | nil => exact ⟨[], [], rfl, by simp, by simp⟩
  | cons b balloons ih =>
    obtain ⟨hb, htail⟩ := List.pairwise_cons.mp h
    by_cases hfailed : b.2.failed = true
    · refine ⟨[], b :: balloons, rfl, by simp, ?_⟩
      intro a ha
      rcases List.mem_cons.mp ha with rfl | ha
      · exact Outcome.donation_of_failed hfailed
      · exact Outcome.donation_of_not_passed (hb a ha hfailed)
    · obtain ⟨taken, rest, rfl, htaken, hrest⟩ := ih htail
      refine ⟨b :: taken, rest, rfl, ?_, hrest⟩
      intro a ha
      rcases List.mem_cons.mp ha with rfl | ha
      · exact Bool.eq_false_of_not_eq_true hfailed
      · exact htaken a ha

variable (answers) in
/-- Without a balloon packet the donations stay. -/
theorem handlePackets_quiet (h : packets.any isBalloon = false) :
    (handlePackets answers s packets).balloons = s.balloons ∧
      (handlePackets answers s packets).closed = s.closed := by
  induction packets generalizing s with
  | nil => exact ⟨rfl, rfl⟩
  | cons packet packets ih =>
    rw [List.any_cons, Bool.or_eq_false_iff] at h
    have hquiet := handlePacket_quiet answers (s := s) (Or.inr h.1)
    obtain ⟨hballoons, hclosed⟩ := ih (s := handlePacket answers s packet) h.2
    exact ⟨hballoons.trans hquiet.balloons, hclosed.trans hquiet.closed⟩

theorem AcceptsAhead.tail (h : AcceptsAhead answers s (packet :: packets)) :
    AcceptsAhead answers (handlePacket answers s packet) packets := by
  intro before p behind hpackets
  exact h (packet :: before) p behind (by rw [hpackets, List.cons_append])

/-- A frame keeps that nothing failed while the connection is open, and nothing
is passed to the sink after a failure. -/
theorem handlePackets_stops (h : AcceptsAhead answers s packets)
    (hclean : ∀ b ∈ s.balloons, b.2.failed = false) (hopen : s.closed = false) :
    Stops (handlePackets answers s packets).balloons ∧
      ((handlePackets answers s packets).closed = false →
        ∀ b ∈ (handlePackets answers s packets).balloons, b.2.failed = false) := by
  induction packets generalizing s with
  | nil => exact ⟨Stops.of_all hclean, fun _ => hclean⟩
  | cons packet packets ih =>
    by_cases hballoon : s.joined = true ∧ isBalloon packet = true
    · obtain ⟨hballoons, hclosed, -⟩ :=
        handlePacket_balloon answers hballoon.1 hballoon.2
      cases hfailed : (acceptBalloon (answers s.handled) s.connector packet).failed with
      | false =>
        refine ih h.tail ?_ (by rw [hclosed, hopen, hfailed]; rfl)
        rw [hballoons]
        intro b hb
        rcases List.mem_append.mp hb with hb | hb
        · exact hclean b hb
        · rw [List.mem_singleton.mp hb]
          exact hfailed
      | true =>
        -- no balloon packet is left in the frame
        have hlast : packets.any isBalloon = false := by
          by_contra hany
          have hahead := h [] packet packets rfl hballoon.2 (Bool.eq_true_of_not_eq_false hany)
            hballoon.1
          rw [handlePackets, List.foldl_nil, hfailed] at hahead
          contradiction
        obtain ⟨hballoons', hclosed'⟩ := handlePackets_quiet answers
          (s := handlePacket answers s packet) hlast
        rw [hclosed, hfailed, Bool.or_true] at hclosed'
        refine ⟨?_, fun hnot => absurd (hclosed'.symm.trans hnot) (by decide)⟩
        have hall := hballoons'.trans hballoons
        exact (congrArg Stops hall).mpr (Stops.append hclean _)
    · rw [not_and_or, Bool.not_eq_true, Bool.not_eq_true] at hballoon
      have hquiet := handlePacket_quiet answers hballoon
      refine ih h.tail ?_ (hquiet.closed.trans hopen)
      rw [hquiet.balloons]
      exact hclean

/-- What holds between two frames. -/
structure Stopped (s : Session) : Prop where
  stops : Stops s.balloons
  clean : s.closed = false → ∀ b ∈ s.balloons, b.2.failed = false

theorem frame_eq_some {read : Read} {data : Bytes} (h : s.frame read = some data) :
    s.closed = false := by
  cases read with
  | failed => contradiction
  | frame data' deadline =>
    rw [Session.frame] at h
    by_cases hcond : s.reading ∧ !s.closed ∧ deadline
    · simpa using hcond.2.1
    · rw [if_neg hcond] at h
      contradiction

theorem readStep_cases (answers : Nat → Answers) (s : Session) (read : Read) :
    readStep answers s read = s.stop ∨
      ∃ data packets, s.frame read = some data ∧ parseSoopPackets data = some packets ∧
        readStep answers s read = handlePackets answers s packets := by
  rw [readStep]
  cases hframe : s.frame read with
  | none => exact Or.inl rfl
  | some data =>
    cases hparse : parseSoopPackets data with
    | none =>
      left
      simp only [hparse]
    | some packets =>
      right
      exact ⟨data, packets, rfl, hparse, by simp only [hparse]⟩

theorem Stopped.readStep {read : Read} (hs : Stopped s)
    (h : FrameAcceptsAhead answers s read) : Stopped (readStep answers s read) := by
  rcases readStep_cases answers s read with hstep | ⟨data, packets, hframe, hparse, hstep⟩
  · rw [hstep]
    exact ⟨hs.stops, hs.clean⟩
  · have hopen := frame_eq_some hframe
    obtain ⟨hstops, hclean⟩ :=
      handlePackets_stops (h data packets hframe hparse) (hs.clean hopen) hopen
    rw [hstep]
    exact ⟨hstops, hclean⟩

end Stopping

/-! ## Numbers -/

/-- The last number taken. -/
def Session.seqNo (s : Session) : Nat := s.connector.seq.toUInt64.toNat

/-- The accepted donations, oldest first. -/
def Session.donations (s : Session) : List RawDonation :=
  s.balloons.filterMap fun b => b.2.donation

/-- The accepted donations have increasing numbers, and events named after them. -/
def Increasing (epoch : String) (donations : List RawDonation) : Prop :=
  (donations.Pairwise fun d d' => d.sequence < d'.sequence) ∧
    ∀ d ∈ donations, d.eventID = bytesOf (epoch ++ "-" ++ toString d.sequence)

/-- What holds after every packet, before the numbers start again. -/
structure Numbered (epoch : String) (s : Session) : Prop where
  epoch_eq : s.connector.epoch = epoch
  seqNo_le : s.handled < 2 ^ 64 → s.seqNo ≤ s.handled
  sequence_le : s.handled < 2 ^ 64 → ∀ d ∈ s.donations, d.sequence ≤ s.seqNo
  increasing : s.handled < 2 ^ 64 → Increasing epoch s.donations

section Numbers

variable {answers : Nat → Answers} {s : Session} {packet : SoopPacket}
  {packets : List SoopPacket} {epoch : String}

theorem next_eq (c : SoopConnector) :
    c.next.toUInt64.toNat = (c.seq.toUInt64.toNat + 1) % 2 ^ 64 := by
  rw [SoopConnector.next, Int64.toUInt64_add, UInt64.toNat_add]
  rfl

theorem seqNo_count (h : s.seqNo + 1 < 2 ^ 64) : s.count.seqNo = s.seqNo + 1 :=
  (next_eq s.connector).trans (Nat.mod_eq_of_lt h)

/-- The number and the event of an accepted donation. -/
theorem acceptBalloon_eq {A : Answers} {d : RawDonation}
    (h : (acceptBalloon A s.connector packet).donation = some d) :
    d.sequence = s.count.seqNo ∧
      d.eventID = bytesOf (s.connector.epoch ++ "-" ++ toString d.sequence) := by
  rw [acceptBalloon] at h
  cases hd : balloonDonation s.connector packet A.now with
  | none =>
    rw [hd] at h
    contradiction
  | some d' =>
    rw [hd] at h
    dsimp only at h
    cases hvalid : d'.validate with
    | error e =>
      rw [hvalid] at h
      contradiction
    | ok _ =>
      rw [hvalid] at h
      by_cases haccepts : A.accepts = true
      · rw [if_pos haccepts] at h
        obtain rfl := Option.some.inj h
        rw [balloonDonation] at hd
        split at hd
        · contradiction
        obtain ⟨count, -, rfl⟩ := Option.map_eq_some_iff.mp hd
        exact ⟨rfl, rfl⟩
      · rw [if_neg haccepts] at h
        contradiction

/-- A step takes at most one number, and a new donation has it. -/
theorem Numbered.step {s' : Session} (hs : Numbered epoch s) (new : Option RawDonation)
    (hhandled : s'.handled = s.handled + 1)
    (hconnector : s'.connector = s.connector ∨ s'.connector = s.count.connector)
    (hdonations : s'.donations = s.donations ++ new.toList)
    (hnew : ∀ d, new = some d → s'.connector = s.count.connector ∧ d.sequence = s.count.seqNo ∧
      d.eventID = bytesOf (s.connector.epoch ++ "-" ++ toString d.sequence)) :
    Numbered epoch s' := by
  have hepoch : s'.connector.epoch = s.connector.epoch := by
    rcases hconnector with h | h
    · rw [h]
    · rw [h]
      rfl
  by_cases hsmall : s'.handled < 2 ^ 64
  · have hbefore : s.handled < 2 ^ 64 := by omega
    have hle := hs.seqNo_le hbefore
    have hcount : s.count.seqNo = s.seqNo + 1 := seqNo_count (by omega)
    have hseqNo : s.seqNo ≤ s'.seqNo ∧ s'.seqNo ≤ s.seqNo + 1 := by
      rcases hconnector with h | h
      · rw [Session.seqNo, Session.seqNo, h]
        omega
      · rw [← hcount, Session.seqNo, Session.seqNo, Session.seqNo, h]
        rw [Session.seqNo, Session.seqNo] at hcount
        omega
    obtain ⟨hpairwise, hids⟩ := hs.increasing hbefore
    have hold := hs.sequence_le hbefore
    refine ⟨hepoch.trans hs.epoch_eq, fun _ => by omega, fun _ => ?_, fun _ => ?_⟩
    · intro d hd
      rw [hdonations, List.mem_append, Option.mem_toList] at hd
      rcases hd with hd | hd
      · exact Nat.le_trans (hold d hd) hseqNo.1
      · obtain ⟨hconn, hseq, -⟩ := hnew d hd
        rw [hseq, Session.seqNo, Session.seqNo, hconn]
    · rw [hdonations]
      refine ⟨List.pairwise_append.mpr ⟨hpairwise, ?_, ?_⟩, ?_⟩
      · cases new with
        | none => exact List.Pairwise.nil
        | some d => exact List.pairwise_singleton _ _
      · intro d hd d' hd'
        have hlt := hold d hd
        have hseq := (hnew d' (Option.mem_toList.mp hd')).2.1
        omega
      · intro d hd
        rcases List.mem_append.mp hd with hd | hd
        · exact hids d hd
        · rw [← hs.epoch_eq]
          exact (hnew d (Option.mem_toList.mp hd)).2.2
  · exact ⟨hepoch.trans hs.epoch_eq, fun h => absurd h hsmall, fun h => absurd h hsmall,
      fun h => absurd h hsmall⟩

theorem Numbered.handlePacket (hs : Numbered epoch s) :
    Numbered epoch (handlePacket answers s packet) := by
  by_cases hballoon : s.joined = true ∧ isBalloon packet = true
  · obtain ⟨hballoons, -, hhandled, hconnector⟩ :=
      handlePacket_balloon answers hballoon.1 hballoon.2
    refine hs.step (acceptBalloon (answers s.handled) s.connector packet).donation hhandled
       (Or.inr hconnector) ?_ fun d hd => ⟨hconnector, acceptBalloon_eq hd⟩
    rw [Session.donations, hballoons, List.filterMap_append, Session.donations]
    cases (acceptBalloon (answers s.handled) s.connector packet) <;> rfl
  · rw [not_and_or, Bool.not_eq_true, Bool.not_eq_true] at hballoon
    have hquiet := handlePacket_quiet answers hballoon
    refine hs.step none hquiet.handled hquiet.connector ?_ (by simp)
    rw [Session.donations, hquiet.balloons, Option.toList_none, List.append_nil]
    rfl

theorem Numbered.handlePackets (hs : Numbered epoch s) :
    Numbered epoch (handlePackets answers s packets) := by
  induction packets generalizing s with
  | nil => exact hs
  | cons packet packets ih => exact ih hs.handlePacket

theorem Numbered.readStep {read : Read} (hs : Numbered epoch s) :
    Numbered epoch (readStep answers s read) := by
  rcases readStep_cases answers s read with hstep | ⟨data, packets, -, -, hstep⟩
  · rw [hstep]
    exact ⟨hs.epoch_eq, hs.seqNo_le, hs.sequence_le, hs.increasing⟩
  · rw [hstep]
    exact hs.handlePackets

theorem Numbered.start (c : SoopConnector) (h : c.seq = 0) :
    Numbered c.epoch (Session.start c) := by
  refine ⟨rfl, fun _ => ?_, fun _ => by simp [Session.start, Session.donations],
    fun _ => ⟨List.Pairwise.nil, by simp [Session.start, Session.donations]⟩⟩
  rw [Session.seqNo, Session.start, h]
  exact Nat.le_refl 0

end Numbers

/-! ## Every run -/

/-- In a run in which every balloon packet that has another one behind it in its
frame is accepted, nothing is passed to the sink after a failure: the accepted
donations are those of the first balloon packets, and their numbers increase
until they start again. -/
theorem collection_stops (answers : Nat → Answers) (c : SoopConnector) (hseq : c.seq = 0)
    {tr : List (Read × Unit)} {s : Session}
    (hrun : ((machine answers).restrict (FrameAcceptsAhead answers)).Run (Session.start c) tr s) :
    Stops s.balloons ∧ AcceptsFirst s.balloons ∧
      (s.handled < 2 ^ 64 → Increasing c.epoch s.donations) := by
  have hstopped : Stopped s :=
    hrun.invariant (fun s read hs hadmits => hs.readStep hadmits.2)
      ⟨List.Pairwise.nil, by simp [Session.start]⟩
  have hnumbered : Numbered c.epoch s :=
    hrun.invariant (fun s read hs _ => hs.readStep) (Numbered.start c hseq)
  exact ⟨hstopped.stops, hstopped.stops.acceptsFirst, hnumbered.increasing⟩

/-! ## Two connections -/

/-- A frame of built packets. -/
def framed (items : List (Int × Bytes)) : Read :=
  .frame (items.flatMap fun item => buildSoopPacket item.1 item.2) true

/-- The packets of a frame can be built. -/
def Buildable (items : List (Int × Bytes)) : Prop :=
  ∀ item ∈ items, (0 ≤ item.1 ∧ item.1 ≤ 9999) ∧ item.2.length ≤ 999999

instance (items : List (Int × Bytes)) : Decidable (Buildable items) :=
  inferInstanceAs (Decidable (∀ item ∈ items, _))

/-- One pass of `readLoop` on a frame of built packets. -/
def playFrame (answers : Nat → Answers) (s : Session) (items : List (Int × Bytes)) : Session :=
  if s.reading ∧ !s.closed then
    handlePackets answers s (items.map fun item => builtPacket item.1 item.2)
  else s.stop

section Frames

variable {answers : Nat → Answers} {s : Session} {items : List (Int × Bytes)}

theorem readStep_framed (h : Buildable items) :
    readStep answers s (framed items) = playFrame answers s items := by
  have hparse := parseSoopPackets_frames (fun item hitem => (h item hitem).1)
    (fun item hitem => (h item hitem).2)
  rw [readStep, framed, Session.frame, playFrame]
  by_cases hopen : s.reading ∧ !s.closed
  · simp only [hopen.1, hopen.2, and_self, if_true, hparse]
  · rw [if_neg hopen, if_neg fun hall => hopen ⟨hall.1, hall.2.1⟩]

/-- A run over frames of built packets. -/
theorem exec_framed {frames : List (List (Int × Bytes))} (h : ∀ items ∈ frames, Buildable items) :
    ((machine answers).exec s (frames.map framed)).1 = frames.foldl (playFrame answers) s := by
  induction frames generalizing s with
  | nil => rfl
  | cons items frames ih =>
    have hrest := ih (s := playFrame answers s items)
      fun items' hmem => h items' (List.mem_cons_of_mem _ hmem)
    rw [List.map_cons, Machine.exec, List.foldl_cons, ← hrest,
      ← readStep_framed (h items List.mem_cons_self)]
    rfl

/-- A frame with one balloon packet has none ahead of another. -/
theorem AcceptsAhead.of_count {packets : List SoopPacket} (h : packets.countP isBalloon ≤ 1) :
    AcceptsAhead answers s packets := by
  intro before packet behind hpackets hballoon hany
  have hpos : 0 < behind.countP isBalloon :=
    List.countP_pos_iff.mpr (List.any_eq_true.mp hany)
  rw [hpackets, List.countP_append, List.countP_cons_of_pos hballoon] at h
  omega

theorem FrameAcceptsAhead.of_count (h : Buildable items)
    (hcount : (items.map fun item => builtPacket item.1 item.2).countP isBalloon ≤ 1) :
    FrameAcceptsAhead answers s (framed items) := by
  intro data packets hframe hparse
  have hbuilt := parseSoopPackets_frames (fun item hitem => (h item hitem).1)
    (fun item hitem => (h item hitem).2)
  rw [framed, Session.frame] at hframe
  split at hframe
  · obtain rfl := Option.some.inj hframe
    obtain rfl := Option.some.inj (hbuilt.symm.trans hparse)
    exact AcceptsAhead.of_count hcount
  · contradiction

end Frames

/-- A body of these fields. -/
def bodyOf (fields : List String) : Bytes :=
  soopFieldSep :: fields.flatMap fun field => bytesOf field ++ [soopFieldSep]

/-- A balloon packet with this count. -/
def balloonItem (count : String) : Int × Bytes :=
  (soopCmdSendBalloon, bodyOf ["fixture_channel", "fixture_donor", "donor", count])

/-- Everything succeeds. -/
def fixtureAnswers (n : Nat) : Answers := ⟨100 + n, "", true, true, true⟩

/-- The acknowledgements of login and join, then three frames with a balloon packet
each: the second count is no number, and the third packet is not handled. -/
def orderlyFrames : List (List (Int × Bytes)) :=
  [[(1, [])], [(2, [])], [balloonItem "33"], [balloonItem "-"], [balloonItem "5"]]

theorem collection_stops_orderly :
    ∃ tr s, ((machine fixtureAnswers).restrict (FrameAcceptsAhead fixtureAnswers)).Run
        (Session.start fixtureConnector) tr s ∧
      (s.balloons.map fun b => b.2.failed) = [false, true] ∧
      Stops s.balloons ∧ AcceptsFirst s.balloons ∧
      (s.handled < 2 ^ 64 → Increasing fixtureConnector.epoch s.donations) := by
  have hbuild : ∀ items ∈ orderlyFrames, Buildable items := by decide
  have hcounts : ∀ items ∈ orderlyFrames,
      (items.map fun item => builtPacket item.1 item.2).countP isBalloon ≤ 1 := by
    decide
  have hadmits : ∀ s, ∀ read ∈ orderlyFrames.map framed,
      ((machine fixtureAnswers).restrict (FrameAcceptsAhead fixtureAnswers)).admits s read := by
    intro s read hread
    obtain ⟨items, hitems, rfl⟩ := List.mem_map.mp hread
    exact ⟨trivial, FrameAcceptsAhead.of_count (hbuild items hitems) (hcounts items hitems)⟩
  have hrun := Machine.run_exec (Session.start fixtureConnector) (orderlyFrames.map framed)
    (Machine.Admitted.of_forall hadmits _)
  have hfailed : (((machine fixtureAnswers).exec (Session.start fixtureConnector)
      (orderlyFrames.map framed)).1.balloons.map fun b => b.2.failed) = [false, true] := by
    rw [exec_framed hbuild]
    decide
  exact ⟨_, _, hrun, hfailed, collection_stops fixtureAnswers fixtureConnector rfl hrun⟩

/-- The acknowledgements, then one frame with two balloon packets of which the
first has no count. -/
def batchedFrames : List (List (Int × Bytes)) :=
  [[(1, [])], [(2, [])], [balloonItem "-", balloonItem "33"]]

/-- The second packet of the frame is passed to the sink and accepted. -/
theorem donation_after_failure :
    ∃ tr s, (machine fixtureAnswers).Run (Session.start fixtureConnector) tr s ∧
      (s.balloons.map fun b => b.2.failed) = [true, false] ∧
      (s.balloons.map fun b => b.2.passed) = [false, true] := by
  have hbuild : ∀ items ∈ batchedFrames, Buildable items := by decide
  have hrun := Machine.run_exec (M := machine fixtureAnswers) (Session.start fixtureConnector)
    (batchedFrames.map framed) ⟨trivial, trivial, trivial, trivial⟩
  refine ⟨_, _, hrun, ?_⟩
  rw [exec_framed hbuild]
  decide

end RogiCollector.Ports.Soop
