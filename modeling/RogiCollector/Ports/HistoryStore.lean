import RogiCollector.Ports.ArchiveStore

/-!
# Broadcast sessions

`broadcast_sessions` and the statements of `shared/store/history_store.go`
that write it.  A row is open while `ended_at` is null.  The primary key has
the start time in it, but rows are seen again and closed by channel and session
number alone.

Of the columns, those a modelled statement reads are kept; names, titles,
viewer counts and the gap mark are left out.
-/

namespace RogiCollector.Ports.History

open Journal (Time)
open Archive

/-- The primary key of `broadcast_sessions`. -/
def sameBroadcast (a b : BroadcastRow) : Bool :=
  a.startedAt = b.startedAt ∧ a.platform = b.platform ∧ a.channelID = b.channelID ∧
    a.sessionSeq = b.sessionSeq

/-- `InsertSession`; `none` is a conflict on the primary key. -/
def insertSession (rows : List BroadcastRow) (b : BroadcastRow) : Option (List BroadcastRow) :=
  if rows.any (sameBroadcast b) then none
  else some (rows ++ [{ b with endedObservedAt := none }])

/-- The rows `UpdateSessionLastSeen` and `CloseSession` address: by number,
not by primary key.  Every statement that sets `ended_at` sets
`ended_observed_at`. -/
def isOpen (platform : Platform) (channelID : String) (sessionSeq : Nat) (b : BroadcastRow) :
    Bool :=
  b.platform = platform ∧ b.channelID = channelID ∧ b.sessionSeq = sessionSeq ∧
    b.endedObservedAt = none

def updateSessionLastSeen (rows : List BroadcastRow) (platform : Platform) (channelID : String)
    (sessionSeq : Nat) (lastSeenAt : Time) : List BroadcastRow :=
  rows.map fun b =>
    if isOpen platform channelID sessionSeq b then { b with lastSeenAt } else b

/-- `UPDATE broadcast_sessions SET ended_at, ended_observed_at`, `none` when a
row would violate `CHECK (ended_at >= started_at)`. -/
def endSessions (rows : List BroadcastRow) (cond : BroadcastRow → Bool)
    (endedAt : BroadcastRow → Time) (observedAt : Time) : Option (List BroadcastRow) :=
  if rows.any fun b => cond b && decide (endedAt b < b.startedAt) then none
  else some (rows.map fun b => if cond b then { b with endedObservedAt := some observedAt } else b)

def closeSession (rows : List BroadcastRow) (platform : Platform) (channelID : String)
    (sessionSeq : Nat) (endedAt observedAt : Time) : Option (List BroadcastRow) :=
  endSessions rows (isOpen platform channelID sessionSeq) (fun _ => endedAt) observedAt

/-- `CloseOrphanedSessions`; `live` are the channels with a live or pending
row. -/
def closeOrphanedSessions (rows : List BroadcastRow) (live : List (Platform × String))
    (now : Time) : Option (List BroadcastRow) :=
  endSessions rows (fun b => b.endedObservedAt = none ∧ (b.platform, b.channelID) ∉ live)
    BroadcastRow.lastSeenAt now

end RogiCollector.Ports.History
