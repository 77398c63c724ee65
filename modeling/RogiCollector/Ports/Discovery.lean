import RogiCollector.Ports.ArchiveExport
import RogiCollector.Ports.HistoryStore
import RogiCollector.Ports.LiveChannels

/-!
# Discovery cycles

`runDiscoveryCycle` of `discover/internal/discover.go` with history enabled,
and the emitter of `discover/internal/history/emitter.go`.  A cycle fetches the
channels a platform lists as live, writes them to `live_channels`, opens and
refreshes their sessions, and decides which of the tracked channels have
ended.  Three stores take part, and none of them in a transaction with
another: the emitter's memory, `live_channels` and `broadcast_sessions`.

A call that fails may have taken effect (`Fate.lost`).  The emitter's errors
are only logged.  Metadata and viewer intervals are left out; of
`InsertMetadata` the result remains, since a new channel is tracked only after
it.

## Main definitions

* `processDiscovered`, `detectEndedChannels`, `validateEndedCandidates`,
  `commitEnded`, `recoverState` — the parts of a cycle and the recovery.
* `runDiscoveryCycle` — one cycle.
* `machine` — cycles, recoveries and opt-outs.
-/

namespace RogiCollector.Ports.Discovery

open Verified
open Journal (Time)
open Archive (Platform BroadcastRow Fate)
open History
open Live

/-! ## Data -/

/-- `channelState` without the metadata hash and the viewer interval. -/
structure ChannelState where
  sessionSeq : Nat
  missedPolls : Nat
  deriving Repr, DecidableEq

/-- The emitter's map.  Its keys are `platform:channel`, and no platform has a
colon in its name. -/
abbrev States : Type := Table ChannelKey ChannelState

structure DiscoveredChannel where
  channelID : String
  viewerCount : Nat
  startedAt : Option Time
  deriving Repr, DecidableEq

/-- The answer of `IsChannelLive`. -/
inductive LiveCheck where
  | live
  | notLive
  | error
  deriving Repr, DecidableEq

/-- The optional allowlist. -/
structure Config where
  allowlist : Option (Platform → List String)

/-- How the calls made for one listed channel end. -/
structure Calls where
  insertSession : Fate
  insertMetadata : Bool
  updateLastSeen : Fate
  deriving DecidableEq

/-- What a cycle meets: whether the instance leads, what the platform lists
(`true` for a partial result) and who opted out, whether the lease is still
valid at the two places where it is checked, how the calls end and at which
instants, and what the live checks answer. -/
structure Cycle where
  platform : Platform
  leader : Bool
  fetch : Option (List DiscoveredChannel × Bool)
  optedOut : List String
  leaseUpsert : Bool
  upsert : Fate
  upsertAt : Time
  now : Time
  calls : String → Calls
  isLive : String → LiveCheck
  leaseMark : Bool
  markEnded : Fate
  markedAt : Time
  closedAt : Time
  close : String → Fate

/-- How the calls of a recovery end; `ordered` is what `ListOpenSessions`
returns. -/
structure Recovery where
  now : Time
  orphans : Fate
  ordered : List BroadcastRow
  list : Bool
  close : BroadcastRow → Fate

/-- The three stores; `ready` says that the leader has recovered its state. -/
structure State where
  live : Db
  sessions : List BroadcastRow
  states : States
  ready : Bool

def State.init : State := ⟨Db.empty, [], Table.empty, false⟩

/-- What a cycle did: whether the emitter saw the list, which candidates were
checked, and which lists went to `MarkEndedChannels` and `CommitEnded`. -/
structure Report where
  processed : Bool
  checked : List String
  verifiedLive : List String
  passed : Option (List String × List String)
  deriving Repr, DecidableEq

/-! ## The emitter -/

variable {α : Type}

/-- The store behind a call, and whether the caller learns of a success;
`none` is a statement that the database refuses. -/
def call (fate : Fate) (old : α) : Option α → α × Bool
  | none => (old, false)
  | some new =>
    match fate with
    | .failed => (old, false)
    | .lost => (new, false)
    | .answered => (new, true)

/-- The entry of `discoveredMap`: of two channels of one ID the later. -/
def lookup (channels : List DiscoveredChannel) (channelID : String) : Option DiscoveredChannel :=
  channels.reverse.find? fun ch => ch.channelID = channelID

/-- The session a new channel gets. -/
def newSession (platform : Platform) (now : Time) (r : UpsertResult) (ch : DiscoveredChannel) :
    BroadcastRow where
  platform := platform
  channelID := r.key.channelID
  startedAt := ch.startedAt.getD now
  sessionSeq := r.sessionSeq
  startedObservedAt := now
  lastSeenAt := now
  endedObservedAt := none

/-- `ProcessDiscovered` for one result. -/
def processResult (c : Cycle) (channels : List DiscoveredChannel) (r : UpsertResult)
    (sessions : List BroadcastRow) (states : States) : List BroadcastRow × States :=
  match lookup channels r.key.channelID with
  | none => (sessions, states)
  | some ch =>
    match r.isInsert, states.find r.key with
    | false, some st =>
      ((call (c.calls r.key.channelID).updateLastSeen sessions
          (some (updateSessionLastSeen sessions c.platform r.key.channelID st.sessionSeq
            c.now))).1,
        states.upsert r.key { st with missedPolls := 0 })
    | _, _ =>
      let inserted := call (c.calls r.key.channelID).insertSession sessions
        (insertSession sessions (newSession c.platform c.now r ch))
      if inserted.2 ∧ (c.calls r.key.channelID).insertMetadata then
        (inserted.1, states.upsert r.key ⟨r.sessionSeq, 0⟩)
      else (inserted.1, states)

def processDiscovered (c : Cycle) (channels : List DiscoveredChannel) :
    List UpsertResult → List BroadcastRow → States → List BroadcastRow × States
  | [], sessions, states => (sessions, states)
  | r :: rest, sessions, states =>
    let done := processResult c channels r sessions states
    processDiscovered c channels rest done.1 done.2

/-- What `DetectEndedChannels` leaves and returns. -/
structure Detected where
  states : States
  active : List String
  toEnd : List String

/-- The poll of a tracked channel that `active` does not list. -/
def missed (platform : Platform) (active : List String) (key : ChannelKey) : Bool :=
  key.platform = platform ∧ key.channelID ∉ active

def detectEndedChannels (platform : Platform) (active : List String) (isPartial : Bool)
    (states : States) : Detected where
  states := states.update fun key st =>
    if key.platform = platform ∧ key.channelID ∈ active then { st with missedPolls := 0 }
    else if missed platform active key ∧ isPartial = false then
      { st with missedPolls := st.missedPolls + 1 }
    else st
  active :=
    active ++ (states.select fun key st =>
      missed platform active key ∧ (isPartial ∨ st.missedPolls + 1 < 2)).map
        fun row => row.1.channelID
  toEnd :=
    (states.select fun key st =>
      missed platform active key ∧ ¬(isPartial ∨ st.missedPolls + 1 < 2)).map
        fun row => row.1.channelID

/-- What `validateEndedCandidates` returns and resets. -/
structure Validated where
  active : List String
  confirmed : List String
  verifiedLive : List String

/-- `validateEndedCandidates`: a candidate ends only when the check says so. -/
def validateEndedCandidates (isLive : String → LiveCheck) (active toEnd : List String) :
    Validated where
  active := active ++ toEnd.filter fun id => isLive id ≠ .notLive
  confirmed := toEnd.filter fun id => isLive id = .notLive
  verifiedLive := toEnd.filter fun id => isLive id = .live

def resetMissedPolls (platform : Platform) (channelIDs : List String) (states : States) :
    States :=
  states.update fun key st =>
    if key.platform = platform ∧ key.channelID ∈ channelIDs then { st with missedPolls := 0 }
    else st

def commitEnded (c : Cycle) : List String → List BroadcastRow → States →
    List BroadcastRow × States
  | [], sessions, states => (sessions, states)
  | id :: rest, sessions, states =>
    match states.find ⟨c.platform, id⟩ with
    | none => commitEnded c rest sessions states
    | some st =>
      let closed := call (c.close id) sessions
        (closeSession sessions c.platform id st.sessionSeq c.closedAt c.closedAt)
      commitEnded c rest closed.1
        (if closed.2 then states.delete fun key _ => key = ⟨c.platform, id⟩ else states)

/-! ## A cycle -/

/-- The list behind both filters, and whether it is partial; `none` when the
instance does not lead or the fetch fails. -/
def Cycle.channels (C : Config) (c : Cycle) : Option (List DiscoveredChannel × Bool) :=
  if c.leader then
    c.fetch.map fun (fetched, isPartial) =>
      (fetched.filter fun ch =>
        (C.allowlist.all fun allowed => ch.channelID ∈ allowed c.platform) ∧
          ch.channelID ∉ c.optedOut, isPartial)
  else none

/-- The rows a cycle upserts. -/
def Cycle.liveChannels (c : Cycle) (channels : List DiscoveredChannel) : List LiveChannel :=
  channels.map fun ch => ⟨⟨c.platform, ch.channelID⟩, ch.viewerCount, ch.startedAt⟩

/-- A complete cycle behind `ProcessDiscovered`: the second half of
`runDiscoveryCycle`. -/
def endPhase (c : Cycle) (s : State) (activeIDs : List String) : State × Report :=
  let d := detectEndedChannels c.platform activeIDs false s.states
  let v := validateEndedCandidates c.isLive d.active d.toEnd
  let s := { s with states := resetMissedPolls c.platform v.verifiedLive d.states }
  if !c.leaseMark then (s, ⟨true, d.toEnd, v.verifiedLive, none⟩)
  else
    let report : Report := ⟨true, d.toEnd, v.verifiedLive, some (v.active, v.confirmed)⟩
    let live := (markEndedChannels c.markedAt s.live c.platform v.active).1
    match c.markEnded with
    | .failed => (s, report)
    | .lost => ({ s with live }, report)
    | .answered =>
      let done := commitEnded c v.confirmed s.sessions s.states
      ({ s with live, sessions := done.1, states := done.2 }, report)

def runDiscoveryCycle (C : Config) (s : State) (c : Cycle) : State × Report :=
  match c.channels C with
  | none => (s, ⟨false, [], [], none⟩)
  | some (channels, isPartial) =>
    if !c.leaseUpsert then (s, ⟨false, [], [], none⟩)
    else
      let upserted := upsertLiveChannelsWithHistory c.upsertAt s.live (c.liveChannels channels)
      match c.upsert with
      | .failed => (s, ⟨false, [], [], none⟩)
      | .lost => ({ s with live := upserted.1 }, ⟨false, [], [], none⟩)
      | .answered =>
        let done := processDiscovered c channels upserted.2 s.sessions s.states
        let s := { s with live := upserted.1, sessions := done.1, states := done.2 }
        let activeIDs := channels.map DiscoveredChannel.channelID
        if isPartial then
          ({ s with
             states := (detectEndedChannels c.platform activeIDs true s.states).states },
            ⟨true, [], [], none⟩)
        else endPhase c s activeIDs

/-! ## Recovery -/

/-- The row loop of `RecoverState`: the first session of a channel is tracked,
another one is closed. -/
def recoverSessions (r : Recovery) : List BroadcastRow → List BroadcastRow → States →
    List BroadcastRow × States
  | [], sessions, states => (sessions, states)
  | b :: rest, sessions, states =>
    match states.find ⟨b.platform, b.channelID⟩ with
    | some _ =>
      recoverSessions r rest
        (call (r.close b) sessions
          (closeSession sessions b.platform b.channelID b.sessionSeq b.lastSeenAt r.now)).1
        states
    | none =>
      recoverSessions r rest sessions
        (states.upsert ⟨b.platform, b.channelID⟩ ⟨b.sessionSeq, 0⟩)

/-- The channels with a live or pending row. -/
def liveKeys (db : Db) : List (Platform × String) :=
  (db.channels.select fun _ row => row.status ≠ .ended).map fun row =>
    (row.1.platform, row.1.channelID)

/-- `CloseOrphanedSessions` at the start of a recovery. -/
def Recovery.closeOrphans (r : Recovery) (s : State) : List BroadcastRow × Bool :=
  call r.orphans s.sessions (closeOrphanedSessions s.sessions (liveKeys s.live) r.now)

/-- `RecoverState`, by an instance that has become the leader. -/
def recoverState (s : State) (r : Recovery) : State :=
  let closed := r.closeOrphans s
  if closed.2 ∧ r.list then
    let done := recoverSessions r r.ordered closed.1 Table.empty
    { s with sessions := done.1, states := done.2, ready := true }
  else { s with sessions := closed.1, ready := false }

/-! ## The machine -/

inductive Input where
  | cycle (c : Cycle)
  | recover (r : Recovery)
  | optOutEnd (now : Time) (key : ChannelKey)

/-- The report of a cycle. -/
abbrev Output : Type := Option Report

def step (C : Config) (s : State) : Input → State × Output
  | .cycle c => ((runDiscoveryCycle C s c).1, some (runDiscoveryCycle C s c).2)
  | .recover r => (recoverState s r, none)
  | .optOutEnd now key =>
    ({ s with live := (endCollectionOptedOutLiveChannel now s.live key).1 }, none)

/-- What `ListOpenSessions` may return for the rows: all open ones, those of
one channel by descending number. -/
def ListsOpen (rows ordered : List BroadcastRow) : Prop :=
  ordered.Perm (rows.filter fun b => b.endedObservedAt = none) ∧
    ordered.Pairwise fun a b =>
      a.platform = b.platform → a.channelID = b.channelID → b.sessionSeq ≤ a.sessionSeq

instance (rows ordered : List BroadcastRow) : Decidable (ListsOpen rows ordered) :=
  inferInstanceAs (Decidable (_ ∧ _))

/-- Cycles run only after a recovery that succeeded. -/
def admits (s : State) : Input → Prop
  | .cycle _ => s.ready = true
  | .recover r => ListsOpen (r.closeOrphans s).1 r.ordered
  | .optOutEnd _ _ => True

instance (s : State) : (i : Input) → Decidable (admits s i)
  | .cycle _ => inferInstanceAs (Decidable (_ = _))
  | .recover _ => inferInstanceAs (Decidable (ListsOpen _ _))
  | .optOutEnd _ _ => inferInstanceAs (Decidable True)

/-- Discovery around the three stores. -/
def machine (C : Config) : Machine State Input Output where
  admits := admits
  step := step C

instance (C : Config) (s : State) (i : Input) : Decidable ((machine C).admits s i) :=
  inferInstanceAs (Decidable (admits s i))

/-! ## The ways through a cycle -/

/-- What the upsert of a cycle leaves and returns. -/
def Cycle.upserted (c : Cycle) (s : State) (channels : List DiscoveredChannel) :
    Db × List UpsertResult :=
  upsertLiveChannelsWithHistory c.upsertAt s.live (c.liveChannels channels)

/-- The stores behind `ProcessDiscovered`. -/
def Cycle.processed (c : Cycle) (s : State) (channels : List DiscoveredChannel) : State :=
  let done := processDiscovered c channels (c.upserted s channels).2 s.sessions s.states
  { s with live := (c.upserted s channels).1, sessions := done.1, states := done.2 }

/-- A cycle stops before the emitter sees its list, has a partial list, or goes
all the way. -/
inductive CycleRun (C : Config) (s : State) (c : Cycle) : State × Report → Prop
  | skipped (hout : c.channels C = none ∨ c.leaseUpsert = false ∨ c.upsert = .failed) :
      CycleRun C s c (s, ⟨false, [], [], none⟩)
  | lost (channels : List DiscoveredChannel) (isPartial : Bool)
      (hchannels : c.channels C = some (channels, isPartial)) (hlease : c.leaseUpsert = true)
      (hupsert : c.upsert = .lost) :
      CycleRun C s c ({ s with live := (c.upserted s channels).1 }, ⟨false, [], [], none⟩)
  | partial_ (channels : List DiscoveredChannel)
      (hchannels : c.channels C = some (channels, true)) (hlease : c.leaseUpsert = true)
      (hupsert : c.upsert = .answered) :
      CycleRun C s c
        ({ c.processed s channels with
           states := (detectEndedChannels c.platform
             (channels.map DiscoveredChannel.channelID) true
             (c.processed s channels).states).states }, ⟨true, [], [], none⟩)
  | complete (channels : List DiscoveredChannel)
      (hchannels : c.channels C = some (channels, false)) (hlease : c.leaseUpsert = true)
      (hupsert : c.upsert = .answered) :
      CycleRun C s c (endPhase c (c.processed s channels)
        (channels.map DiscoveredChannel.channelID))

theorem runDiscoveryCycle_run (C : Config) (s : State) (c : Cycle) :
    CycleRun C s c (runDiscoveryCycle C s c) := by
  unfold runDiscoveryCycle
  split
  · rename_i hnone
    exact .skipped (Or.inl hnone)
  · rename_i channels isPartial hchannels
    split
    · rename_i hlease
      exact .skipped (Or.inr (Or.inl (by simpa using hlease)))
    · rename_i hlease
      have hlease : c.leaseUpsert = true := by simpa using hlease
      split
      · rename_i hupsert
        exact .skipped (Or.inr (Or.inr hupsert))
      · rename_i hupsert
        exact .lost channels isPartial hchannels hlease hupsert
      · rename_i hupsert
        cases isPartial with
        | true => exact .partial_ channels hchannels hlease hupsert
        | false => exact .complete channels hchannels hlease hupsert

end RogiCollector.Ports.Discovery
