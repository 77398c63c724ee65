import RogiCollector.Verified.Machine
import RogiCollector.Ports.ArchiveStore

/-!
# The chat archive as a machine

Workers append chats; any number of exporters run `RunOnce`
(`query/archive/exporter.go`), each at its own point between `NextBatch`,
`Build`, the upload, its read-back and `CommitSegment`.  A process may stop at
any point, an upload may fail before or after it is stored, and a transaction
may be rolled back or commit without its caller learning of it.
-/

namespace RogiCollector.Ports.Archive

open Verified
open Journal (Time Backend)

/-- One deployment: its library code, store configuration, channel and bucket. -/
structure Config (β : Type) where
  codec : Codec β
  backend : Backend
  channel : String
  bucket : String

/-- Where an exporter is in `RunOnce`. -/
inductive Point (β : Type) where
  | idle
  | selected (rows : List ChatRow)
  | built (g : Segment β)
  | stored (g : Segment β)
  | verified (g : Segment β)
  deriving DecidableEq

/-- The database, the bucket and the exporters. -/
structure State (β : Type) where
  db : Db
  objects : Table String β
  exporters : List (Point β)
  minted : List String

def State.init (β : Type) : State β := ⟨Db.empty, Table.empty, [], []⟩

/-- What becomes of a transaction that would succeed. -/
inductive Fate where
  | failed
  | lost
  | answered
  deriving DecidableEq

/-- A step of a worker, an exporter or another service. -/
inductive Input where
  | broadcasts (rows : List BroadcastRow)
  | append (r : ChatRecord) (uuid : String) (position : Nat) (fate : Fate)
  | start
  | select (k : Nat) (cutoff : Time) (fate : Fate)
  | build (k : Nat)
  | put (k : Nat) (stored answered : Bool)
  | get (k : Nat) (ok : Bool)
  | commit (k pick : Nat) (fate : Fate)
  | stop (k : Nat)

/-- What the caller of a transaction learns. -/
inductive Output where
  | quiet
  | lost
  | appended (result : Except ArchiveErr Bool)
  | committed (result : Except ArchiveErr Unit)
  deriving DecidableEq

variable {β : Type} [DecidableEq β]

/-- Put exporter `k` at a point. -/
def State.at (s : State β) (k : Nat) (point : Point β) : State β :=
  { s with exporters := s.exporters.set k point }

/-- The checks of `PutVerified` before it uploads. -/
def uploadable (C : Config β) (g : Segment β) : Bool :=
  C.codec.validObject g.objectKey g.sha256 ∧ C.codec.size g.body ≠ 0 ∧
    C.codec.size g.body ≤ maxSegmentGzipBytes ∧ C.codec.sha256Hex g.body = g.sha256

/-- `GetVerified` on what the bucket holds under the key. -/
def getVerified (C : Config β) (objects : Table String β) (key checksum : String) :
    Except ArchiveErr β :=
  if !C.codec.validObject key checksum then
    .error (.new "invalid archive object reference")
  else
    match objects.find key with
    | none => .error .io
    | some body =>
      if C.codec.size body = 0 ∨ maxSegmentGzipBytes < C.codec.size body then
        .error (.new "archive object size limit")
      else if C.codec.sha256Hex body ≠ checksum then
        .error (.new "archive object checksum mismatch")
      else .ok body

/-- Settle a transaction: on failure the old database stays. -/
def settle {α : Type} (s : State β) (fate : Fate) (out : Except ArchiveErr α → Output) :
    Except ArchiveErr (Db × α) → State β × Output
  | .error e => (s, out (.error e))
  | .ok (db, a) =>
    match fate with
    | .failed => (s, out (.error .io))
    | .lost => ({ s with db }, .lost)
    | .answered => ({ s with db }, out (.ok a))

/-- One step. -/
def step (C : Config β) (s : State β) : Input → State β × Output
  | .broadcasts rows => ({ s with db := { s.db with broadcasts := rows } }, .quiet)
  | .append r uuid position fate =>
    -- The identity column does not take a value back.
    settle
      { s with
        db := { s.db with lastPosition := position }
        minted := uuid :: s.minted } fate .appended
      (appendArchiveChat C.codec C.backend uuid position
        { s.db with lastPosition := position } r)
  | .start => ({ s with exporters := s.exporters ++ [.idle] }, .quiet)
  | .select k cutoff fate =>
    match s.exporters[k]? with
    | some .idle =>
      match nextBatch s.db C.channel cutoff maxSegmentRows with
      | .ok (row :: rows) =>
        if fate = .answered then (s.at k (.selected (row :: rows)), .quiet)
        else (s, .quiet)
      | _ => (s, .quiet)
    | _ => (s, .quiet)
  | .build k =>
    match s.exporters[k]? with
    | some (.selected rows) =>
      match buildHalving C.codec rows with
      | .ok g => (s.at k (.built g), .quiet)
      | .error _ => (s.at k .idle, .quiet)
    | _ => (s, .quiet)
  | .put k stored answered =>
    match s.exporters[k]? with
    | some (.built g) =>
      if !uploadable C g then (s.at k .idle, .quiet)
      else
        let s :=
          if stored then { s with objects := s.objects.upsert g.objectKey g.body } else s
        if stored ∧ answered then (s.at k (.stored g), .quiet) else (s.at k .idle, .quiet)
    | _ => (s, .quiet)
  | .get k ok =>
    match s.exporters[k]? with
    | some (.stored g) =>
      match getVerified C s.objects g.objectKey g.sha256 with
      | .ok body =>
        if ok ∧ body = g.body then (s.at k (.verified g), .quiet)
        else (s.at k .idle, .quiet)
      | .error _ => (s.at k .idle, .quiet)
    | _ => (s, .quiet)
  | .commit k pick fate =>
    match s.exporters[k]? with
    | some (.verified g) =>
      settle (s.at k .idle) fate .committed
        ((commitSegment C.codec C.channel C.bucket pick s.db g).map (·, ()))
    | _ => (s, .quiet)
  | .stop k => (s.at k .idle, .quiet)

/-- The identity column increases, and a UUID is drawn once. -/
def admits (s : State β) : Input → Prop
  | .append _ uuid position _ => uuid ∉ s.minted ∧ s.db.lastPosition < position
  | _ => True

instance (s : State β) : (i : Input) → Decidable (admits s i)
  | .append .. => inferInstanceAs (Decidable (_ ∧ _))
  | .broadcasts .. | .start | .select .. | .build .. | .put .. | .get .. | .commit ..
  | .stop .. => inferInstanceAs (Decidable True)

/-- Workers and exporters against one database and bucket. -/
def machine (C : Config β) : Machine (State β) Input Output where
  admits := admits
  step := step C

instance (C : Config β) (s : State β) (i : Input) : Decidable ((machine C).admits s i) :=
  inferInstanceAs (Decidable (admits s i))

end RogiCollector.Ports.Archive
