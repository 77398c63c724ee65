import RogiCollector.Verified.CrashDir
import RogiCollector.Ports.ChatFile

/-!
# The chat archive spool

`worker/internal/pipeline/chat_archive.go`, one file-system step at a time.  `Save`
holds the mutex from its first look at the counters to its last step.  `Drain` holds
it while it lists the directory and while it removes one file; it reads files and
calls the journal without it, so that a `Save` may run in between.  `saving` and
`draining` are the points the two are at; the mutex and the drain mutex admit one of
each.

Any step may fail, the process may stop between any two steps, and the next process
starts with `NewChatArchiveSpool`.  If it is the machine that stops, unsynced content
may be lost with it: while there is no process, content that was never synced may
change, a draft may vanish and a removed file may come back.  Synced content and
renames last.

Files are texts: a file that was cut off inside of a character is as unreadable as
another text of its length.
-/

namespace RogiCollector.Ports.ChatArchiveSpool

open Verified
open Verified.Json
open Journal (Time)
open Archive (Codec ArchiveErr)
open SpoolFile (Encoding)
open Soop (ChatMessage)
open ChatSpool (RawChat chatRecord saveRecord validChatArchiveEnvelope
  recoverPending)

/-- The arguments of `NewChatArchiveSpool`, as far as they are read. -/
structure Config (β : Type) where
  codec : Codec β
  encoding : Encoding
  absolute : Bool
  keyLen : Nat
  hmacHex : Bytes → String
  maxBytes : Nat

def Config.accepted {β : Type} (C : Config β) : Bool :=
  C.absolute ∧ 32 ≤ C.keyLen ∧ 2 ^ 20 ≤ C.maxBytes

def maxFiles : Nat := 100000

/-- What one `Save` writes. -/
structure Job where
  name : String
  record : RawChat
  body : Text
  deriving DecidableEq

/-- `fmt.Sprintf("%020d-%s", receivedAt.UnixNano(), record.SpoolID)`. -/
def nameOf (receivedAt : Time) (spoolID : String) : String :=
  String.ofList (zeroPadded 20 receivedAt ++ '-' :: spoolID.toList)

/-- The next step of `Save`. -/
inductive Point where
  | create
  | write
  | sync
  | close
  | rename
  | syncDir
  deriving DecidableEq

/-- The next step of `Drain`. -/
inductive Draining where
  | idle
  | next (queue : List String)
  | append (name : String) (body : Text) (r : RawChat) (rest : List String)
  | remove (name : String) (body : Text) (rest : List String)
  | syncDir (name : String) (body : Text) (rest : List String)
  deriving DecidableEq

/-- `Drain` has the mutex. -/
def Draining.locked : Draining → Bool
  | .syncDir .. => true
  | _ => false

/-- Whether there is a spool, or how far `NewChatArchiveSpool` is: `recover` and
`settle` are the body of the loop in `recoverPending` up to the rename and behind it. -/
inductive Phase where
  | down
  | recover (queue : List String)
  | settle (queue : List String)
  | list
  | up
  deriving DecidableEq

/-- The directory and the process.  `held` says whether the limits held when
`NewChatArchiveSpool` returned, `accepted` are the records whose `Save` returned nil,
and `appended` those for which `AppendArchiveChat` returned success. -/
structure State where
  dir : CrashDir String Text
  quarantine : Table String Text
  phase : Phase
  files : Int
  usedBytes : Int
  broken : Bool
  saving : Option (Point × Job)
  draining : Draining
  held : Bool
  accepted : List Job
  appended : List RawChat

/-- No process yet. -/
def State.init (dir : CrashDir String Text) : State where
  dir
  quarantine := Table.empty
  phase := .down
  files := 0
  usedBytes := 0
  broken := false
  saving := none
  draining := .idle
  held := false
  accepted := []
  appended := []

/-- Nobody holds `mu`. -/
def State.mutexFree (s : State) : Bool := s.saving = none ∧ s.draining.locked = false

/-- One step of the worker or of its surroundings: `ok` is false if the step fails,
and then `left` is the content of the file that was written.  The last three are
what a stop of the machine may do. -/
inductive Input where
  | start (ok : Bool)
  | boot (ok : Bool)
  | save (spoolID : String) (m : ChatMessage) (receivedAt : Time)
  | saveStep (ok : Bool) (left : Text)
  | drain (ok : Bool)
  | drainStep (ok : Bool)
  | close
  | crash
  | tear (name : String) (left : Text)
  | vanish (name : String)
  | reappear (name : String)

/-- What returns. -/
inductive Output where
  | running
  | opened (err : Option ArchiveErr)
  | saved (err : Option ArchiveErr)
  | drained (err : Option ArchiveErr)
  deriving DecidableEq

/-! ## `NewChatArchiveSpool` -/

/-- The number of the files. -/
def fileCount (d : CrashDir String Text) : Nat := d.files.weigh fun _ => 1

/-- Their sizes, added up. -/
def fileBytes (d : CrashDir String Text) : Nat := d.files.weigh fun f => size f.body

/-- The `.json` names in their order. -/
def names (d : CrashDir String Text) : List String := orderBy (fun n => n ++ ".json") d.files.keys

/-- The `.pending` names in their order. -/
def pendingNames (d : CrashDir String Text) : List String :=
  orderBy (fun n => n ++ ".pending") d.drafts.keys

/-- `list`, up to what it adds up. -/
def list (d : CrashDir String Text) (ok : Bool) : Except ArchiveErr (List String) :=
  if !ok then .error .io
  else if d.drafts.keys ≠ [] then .error (.new "unexpected or incomplete chat spool entry")
  else .ok (names d)

variable {β : Type} (C : Config β)

/-- `NewChatArchiveSpool` up to `recoverPending`, with the `ReadDir` there. -/
def start (s : State) (ok : Bool) : State × Output :=
  if C.accepted = false then
    (s, .opened (some (.new
      "absolute chat archive path, 32-byte key, journal and spool limit required")))
  else if s.phase ≠ .down then (s, .opened (some (.new "chat archive spool already owned")))
  else if ok then ({ s with phase := .recover (pendingNames s.dir) }, .running)
  else (s, .opened (some .io))

/-- `NewChatArchiveSpool` fails. -/
def State.abort (s : State) (e : ArchiveErr) : State × Output :=
  ({ s with phase := .down }, .opened (some e))

/-- The next step of `NewChatArchiveSpool`. -/
def boot (s : State) (ok : Bool) : State × Output :=
  match s.phase with
  | .down | .up => (s, .running)
  | .recover [] => ({ s with phase := .list }, .running)
  | .recover (name :: queue) =>
    if !ok then s.abort .io
    else
      match s.dir.drafts.find name with
      | none => s.abort .io
      | some f =>
        match recoverPending C.codec C.encoding f.body with
        | .renamed => ({ s with dir := s.dir.rename name, phase := .settle queue }, .running)
        | .quarantined =>
          ({ s with
             dir := s.dir.vanish name
             quarantine := s.quarantine.upsert name f.body
             phase := .settle queue }, .running)
  | .settle queue =>
    if ok then ({ s with dir := s.dir.syncDir, phase := .recover queue }, .running)
    else s.abort .io
  | .list =>
    match list s.dir ok with
    | .error e => s.abort e
    | .ok _ =>
      ({ s with
         phase := .up
         files := fileCount s.dir
         usedBytes := fileBytes s.dir
         broken := false
         held := fileCount s.dir ≤ maxFiles ∧ fileBytes s.dir ≤ C.maxBytes }, .opened none)

/-! ## `Save` -/

/-- `Save` until it has a name for its file. -/
def save (s : State) (spoolID : String) (m : ChatMessage) (receivedAt : Time) : State × Output :=
  if m.type ≠ .chat then (s, .saved none)
  else if s.broken then (s, .saved (some (.new "chat archive spool unavailable")))
  else
    let record := chatRecord C.hmacHex spoolID m receivedAt
    match saveRecord C.codec C.encoding record with
    | .error e => (s, .saved (some e))
    | .ok body =>
      if C.maxBytes < s.usedBytes + size body ∨ maxFiles ≤ s.files then
        (s, .saved (some (.new "chat archive spool full")))
      else ({ s with saving := some (.create, ⟨nameOf receivedAt spoolID, record, body⟩) },
        .running)

/-- `Save` gives up for good. -/
def State.breakSave (s : State) : State × Output :=
  ({ s with saving := none, broken := true }, .saved (some .io))

/-- `Save` goes on. -/
def State.goto (s : State) (dir : CrashDir String Text) (point : Point) (job : Job) :
    State × Output :=
  ({ s with dir, saving := some (point, job) }, .running)

/-- The next step of `Save`. -/
def saveStep (s : State) (ok : Bool) (left : Text) : State × Output :=
  match s.saving with
  | none => (s, .running)
  | some (.create, job) =>
    -- `O_EXCL`; the spool is not broken by this.
    if ok ∧ s.dir.drafts.find job.name = none then
      s.goto (s.dir.create job.name []) .write job
    else ({ s with saving := none }, .saved (some .io))
  | some (.write, job) =>
    if ok then s.goto (s.dir.write job.name job.body) .sync job
    else State.breakSave { s with dir := s.dir.write job.name left }
  | some (.sync, job) =>
    if ok then s.goto (s.dir.sync job.name) .close job
    else State.breakSave { s with dir := s.dir.write job.name left }
  | some (.close, job) => if ok then s.goto s.dir .rename job else s.breakSave
  | some (.rename, job) =>
    if ok then s.goto (s.dir.rename job.name) .syncDir job else s.breakSave
  | some (.syncDir, job) =>
    if ok then
      ({ s with
         dir := s.dir.syncDir
         usedBytes := s.usedBytes + size job.body
         files := s.files + 1
         saving := none
         accepted := s.accepted ++ [job] }, .saved none)
    else s.breakSave

/-! ## `Drain` -/

/-- `Drain` returns. -/
def State.stop (s : State) (err : Option ArchiveErr) : State × Output :=
  ({ s with draining := .idle }, .drained err)

/-- `Drain` until it has its list. -/
def drain (s : State) (ok : Bool) : State × Output :=
  if s.broken then s.stop (some (.new "chat archive spool unavailable"))
  else
    match list s.dir ok with
    | .error e => s.stop (some e)
    | .ok queue => ({ s with draining := .next queue }, .running)

/-- The next step of `Drain`. -/
def drainStep (s : State) (ok : Bool) : State × Output :=
  match s.draining with
  | .idle => (s, .running)
  | .next [] => s.stop none
  | .next (name :: rest) =>
    if !ok then s.stop (some .io)
    else
      match s.dir.files.find name with
      | none => s.stop (some .io)
      | some f =>
        match validChatArchiveEnvelope C.codec C.encoding f.body with
        | .error e => s.stop (some e)
        | .ok r => ({ s with draining := .append name f.body r rest }, .running)
  | .append name body r rest =>
    if ok then
      ({ s with draining := .remove name body rest, appended := s.appended ++ [r] }, .running)
    else s.stop (some .io)
  | .remove name body rest =>
    if ok then ({ s with dir := s.dir.remove name, draining := .syncDir name body rest }, .running)
    else State.stop { s with broken := true } (some .io)
  | .syncDir _ body rest =>
    if ok then
      ({ s with
         dir := s.dir.syncDir
         files := s.files - 1
         usedBytes := s.usedBytes - size body
         draining := .next rest }, .running)
    else State.stop { s with broken := true } (some .io)

/-! ## The machine -/

/-- The process stops. -/
def State.crash (s : State) : State := { s with phase := .down, saving := none, draining := .idle }

/-- One step.  A closed spool refuses everything and gives up the writer lock, so
that it is as if its process had stopped. -/
def step (s : State) : Input → State × Output
  | .start ok => start C s ok
  | .boot ok => boot C s ok
  | .save spoolID m receivedAt => save C s spoolID m receivedAt
  | .saveStep ok left => saveStep s ok left
  | .drain ok => drain s ok
  | .drainStep ok => drainStep C s ok
  | .close => (s.crash, .running)
  | .crash => (s.crash, .running)
  | .tear name left => ({ s with dir := s.dir.tear name left }, .running)
  | .vanish name => ({ s with dir := s.dir.vanish name }, .running)
  | .reappear name => ({ s with dir := s.dir.reappear name }, .running)

/-- The size of what `Save` writes. -/
def State.room (s : State) : Nat := s.saving.elim 0 fun x => size x.2.body

/-- What may happen when.  The mutex and the drain mutex decide who may begin, and
whether `Drain` may remove a file.  A UUID is new.  A failed write leaves no more
than was written, and lost content makes no file larger. -/
def admits (s : State) : Input → Prop
  | .start _ | .boot _ | .crash => True
  | .save spoolID _ receivedAt =>
    s.phase = .up ∧ s.mutexFree = true ∧ s.dir.files.find (nameOf receivedAt spoolID) = none ∧
      s.dir.removed.find (nameOf receivedAt spoolID) = none
  | .saveStep _ left => size left ≤ s.room
  | .drain _ => s.phase = .up ∧ s.mutexFree = true ∧ s.draining = .idle
  | .drainStep _ =>
    match s.draining with
    | .remove .. => s.mutexFree = true
    | _ => True
  | .close => s.phase = .up ∧ s.mutexFree = true ∧ s.draining = .idle
  | .tear name left =>
    s.phase = .down ∧ ∀ f, s.dir.files.Has name f ∨ s.dir.drafts.Has name f →
      f.synced = false → size left ≤ size f.body
  | .vanish _ | .reappear _ => s.phase = .down

/-- The spool in its surroundings. -/
def machine : Machine State Input Output where
  admits := admits
  step := step C

end RogiCollector.Ports.ChatArchiveSpool
