import RogiCollector.Verified.Decimal
import RogiCollector.Ports.JournalMachine

/-!
# The donation spool

`worker/internal/pipeline/spool.go`, one file-system step at a time.  `Save`
and `Drain` run under one mutex, and the writer lock keeps a second process
out of the directory, so at any time one of them is at one point of its code:
`Ctl` is that point.  Every file-system step may fail, the process may stop
between any two of them, and the next process finds the directory as it was.
A write that was synced and a rename are durable.

The journal is the store's machine.  An append may never reach it, may be
executed with its response lost, or may be answered.

A file holds the decoded record: `json.Unmarshal` gives back what
`json.Marshal` was given, and reading the file fails (`io false`) where the
source reports a corrupt one.
-/

namespace RogiCollector.Ports.DonationSpool

open Verified
open Journal (Time StoreErr Donation OwnerGrant Clocks Backend Sys Call
  Op Reply second day)

structure SpoolRecord where
  grant : OwnerGrant
  donation : Donation
  acceptedAt : Time
  deriving Repr, DecidableEq

/-- `fmt.Sprintf("%020d-%s", accepted.UnixNano(), d.EventID)`. -/
def SpoolRecord.name (r : SpoolRecord) : String :=
  String.ofList (padded 20 r.acceptedAt ++ '-' :: r.donation.eventID.toList)

/-- The name of the accepted file. -/
def SpoolRecord.file (r : SpoolRecord) : String := r.name ++ ".json"

/-- The name of the file while it is written. -/
def SpoolRecord.pending (r : SpoolRecord) : String := r.name ++ ".pending"

/-- Errors of the spool; `store` is passed through, `unavailable` is
`journalUnavailable`, `io` an error of the file system or the context. -/
inductive SpoolErr where
  | store (e : StoreErr)
  | unavailable
  | new (text : String)
  | io
  deriving Repr, DecidableEq

/-- Which answers of `AppendDonation` stop the drain for the caller to see. -/
def SpoolErr.ofAppend : StoreErr → SpoolErr
  | .owner => .store .owner
  | .generation => .store .generation
  | .collectionDisabled => .store .collectionDisabled
  | .cursorExpired => .store .cursorExpired
  | .conflict => .store .conflict
  | _ => .unavailable

/-- Configuration, the length of an encoded envelope (`none` when it cannot
be encoded), and the event IDs drawn by this worker's connectors. -/
structure Config where
  maxBytes : Nat
  bodyLen : SpoolRecord → Option Nat
  own : String → Bool

def maxFiles : Nat := 10000

/-- Where the process is.  `caller` is the record of the `Save` that drains,
or `none` for `Drain`. -/
inductive Ctl where
  | idle
  | create (r : SpoolRecord) (deadline : Time)
  | write (r : SpoolRecord) (deadline : Time)
  | rename (r : SpoolRecord)
  | saveSync (r : SpoolRecord)
  | list (caller : Option SpoolRecord)
  | next (caller : Option SpoolRecord) (queue : List String)
  | append (caller : Option SpoolRecord) (name : String) (r : SpoolRecord)
      (rest : List String)
  | remove (caller : Option SpoolRecord) (name : String) (rest : List String)
  | removeSync (caller : Option SpoolRecord) (rest : List String)
  deriving DecidableEq

/-- The database, the directory and the process.  `seen` lists the event IDs
handed to `Save` so far. -/
structure State where
  journal : Sys
  json : Table String SpoolRecord
  pending : List String
  ctl : Ctl
  seen : List String

def State.init : State := ⟨Sys.init, Table.empty, [], .idle, []⟩

/-- What happens to one `AppendDonation` of the drain. -/
inductive Delivery where
  | refused
  | lost
  | answered
  deriving DecidableEq

/-- One step of the worker or of its surroundings. -/
inductive Input where
  | save (g : OwnerGrant) (d : Donation) (deadline : Time) (now : Nat → Time) (ok : Bool)
  | drain
  | io (ok : Bool) (now : Time)
  | append (clocks : Clocks) (uuid : String) (delivery : Delivery)
  | crash
  | other (call : Call)

/-- What callers and the directory show. -/
inductive Output where
  | running
  | accepted (r : SpoolRecord)
  | appended (name : String) (r : SpoolRecord) (reply : Reply)
  | saveReturned (d : Donation) (err : Option SpoolErr)
  | drainReturned (err : Option SpoolErr)
  | replied (reply : Except StoreErr Reply)
  deriving DecidableEq

/-! ## The directory -/

/-- The sorted names of the accepted files. -/
def names (json : Table String SpoolRecord) : List String :=
  orderBy id json.keys

/-- `files`: a `.pending` file asks for an operator. -/
def files (s : State) (ok : Bool) : Except SpoolErr (List String) :=
  if !ok then .error .io
  else if s.pending ≠ [] then .error (.new "incomplete spool record: recovery required")
  else .ok (names s.json)

/-- The size `files` adds up. -/
def size (C : Config) (s : State) : Nat :=
  ((s.json.select fun _ _ => true).map fun file => (C.bodyLen file.2).getD 0).sum

/-! ## `Save` and `drain` -/

/-- `Save` up to the creation of the pending file: `now 0` is compared with
the deadline, `now 1` becomes the acceptance time. -/
def saveBegin (C : Config) (s : State) (g : OwnerGrant) (d : Donation) (deadline : Time)
    (now : Nat → Time) (ok : Bool) : Except SpoolErr Ctl :=
  match d.validate with
  | .error e => .error (.store e)
  | .ok () =>
    if ¬now 0 < deadline then .error (.store .owner)
    else
      match files s ok with
      | .error e => .error e
      | .ok files =>
        if maxFiles ≤ files.length then .error (.new "donation spool full")
        else
          match C.bodyLen ⟨g, d, now 1⟩ with
          | none => .error (.new "json: unsupported value")
          | some len =>
            if C.maxBytes < size C s + len then .error (.new "donation spool full")
            else if '/' ∈ (SpoolRecord.name ⟨g, d, now 1⟩).toList then
              .error (.new "invalid event ID")
            else .ok (.create ⟨g, d, now 1⟩ deadline)

/-- The end of a drain: `Save` hides that the journal is unavailable. -/
def finish (s : State) (caller : Option SpoolRecord) (err : Option SpoolErr) :
    State × Output :=
  ({ s with ctl := .idle },
    match caller with
    | none => .drainReturned err
    | some r => .saveReturned r.donation (if err = some .unavailable then none else err))

/-- `Save` gives up. -/
def fail (s : State) (r : SpoolRecord) (err : SpoolErr) : State × Output :=
  ({ s with ctl := .idle }, .saveReturned r.donation (some err))

/-- The next file-system step of whoever holds the mutex. -/
def fileStep (C : Config) (s : State) (ok : Bool) (now : Time) : State × Output :=
  match s.ctl with
  | .idle | .append .. => (s, .running)
  | .create r deadline =>
    -- `O_EXCL`.
    if ok ∧ r.pending ∉ s.pending then
      ({ s with pending := r.pending :: s.pending, ctl := .write r deadline }, .running)
    else fail s r .io
  | .write r deadline =>
    if !ok then fail s r .io
    else if ¬now < deadline then fail s r (.store .owner)
    else ({ s with ctl := .rename r }, .running)
  | .rename r =>
    if ok then
      ({ s with
         json := s.json.upsert r.file r
         pending := s.pending.erase r.pending
         ctl := .saveSync r }, .accepted r)
    else fail s r .io
  | .saveSync r =>
    if ok then ({ s with ctl := .list (some r) }, .running) else fail s r .io
  | .list caller =>
    match files s ok with
    | .error e => finish s caller (some e)
    | .ok queue => ({ s with ctl := .next caller queue }, .running)
  | .next caller [] => finish s caller none
  | .next caller (name :: rest) =>
    if !ok then finish s caller (some .io)
    else
      match s.json.find name with
      | none => finish s caller (some .io)
      | some r =>
        if 2 ^ 20 < (C.bodyLen r).getD 0 then
          finish s caller (some (.new "spool record too large"))
        else if r.acceptedAt + 30 * day < now then
          finish s caller (some (.new "old spool record: recovery required"))
        else ({ s with ctl := .append caller name r rest }, .running)
  | .remove caller name rest =>
    if ok then
      ({ s with json := s.json.delete fun n _ => n = name, ctl := .removeSync caller rest },
        .running)
    else finish s caller (some .io)
  | .removeSync caller rest =>
    if ok then ({ s with ctl := .next caller rest }, .running)
    else finish s caller (some .io)

/-- The call the drain makes for a record. -/
def appendCall (clocks : Clocks) (uuid : String) (r : SpoolRecord) : Call :=
  ⟨clocks, uuid, .append r.grant r.donation r.acceptedAt⟩

/-- `AppendDonation`, on its way and back. -/
def appendStep (B : Backend) (s : State) (clocks : Clocks) (uuid : String)
    (delivery : Delivery) : State × Output :=
  match s.ctl with
  | .append caller name r rest =>
    let after := (Journal.machine B).step s.journal (appendCall clocks uuid r)
    match delivery with
    | .refused => finish s caller (some .unavailable)
    | .lost => finish { s with journal := after.1 } caller (some .unavailable)
    | .answered =>
      match after.2 with
      | .error e => finish { s with journal := after.1 } caller (some (.ofAppend e))
      | .ok reply =>
        ({ s with journal := after.1, ctl := .remove caller name rest },
          .appended name r reply)
  | _ => (s, .running)

/-- One step. -/
def step (C : Config) (B : Backend) (s : State) : Input → State × Output
  | .save g d deadline now ok =>
    match saveBegin C s g d deadline now ok with
    | .error e => ({ s with seen := d.eventID :: s.seen }, .saveReturned d (some e))
    | .ok ctl => ({ s with ctl, seen := d.eventID :: s.seen }, .running)
  | .drain => ({ s with ctl := .list none }, .running)
  | .io ok now => fileStep C s ok now
  | .append clocks uuid delivery => appendStep B s clocks uuid delivery
  | .crash => ({ s with ctl := .idle }, .running)
  | .other call =>
    let after := (Journal.machine B).step s.journal call
    ({ s with journal := after.1 }, .replied after.2)

/-- An append of one of this worker's events. -/
def ownAppend (C : Config) : Op → Bool
  | .append _ d _ => C.own d.eventID
  | _ => false

/-- What the surroundings may do.  The mutex admits one `Save` or `Drain` at a
time.  A connector draws an event ID once and offers the event once.  Host and
database clocks are synchronised; all that matters is that they are less than
fifty-nine days apart when the drain appends.  Others call the journal as
they like, but not with this worker's events. -/
def admits (C : Config) (s : State) : Input → Prop
  | .save _ d _ now _ =>
    s.ctl = .idle ∧ C.own d.eventID = true ∧ d.eventID ∉ s.seen ∧ now 1 < 2 ^ 63
  | .drain => s.ctl = .idle
  | .io _ _ => True
  | .append clocks uuid _ =>
    s.journal.clock ≤ clocks.clk 0 ∧ uuid ∉ s.journal.minted ∧
      s.journal.clock ≤ clocks.now 0 + 59 * day
  | .crash => True
  | .other call => call.admits s.journal ∧ ownAppend C call.op = false

instance (C : Config) (s : State) : (i : Input) → Decidable (admits C s i)
  | .save .. => inferInstanceAs (Decidable (_ ∧ _))
  | .drain => inferInstanceAs (Decidable (_ = _))
  | .io .. => inferInstanceAs (Decidable True)
  | .append .. => inferInstanceAs (Decidable (_ ∧ _))
  | .crash => inferInstanceAs (Decidable True)
  | .other .. => inferInstanceAs (Decidable (_ ∧ _))

/-- The worker's spool against the journal. -/
def machine (C : Config) (B : Backend) : Machine State Input Output where
  admits := admits C
  step := step C B

instance (C : Config) (B : Backend) (s : State) (i : Input) :
    Decidable ((machine C B).admits s i) :=
  inferInstanceAs (Decidable (admits C s i))

/-! ## What a check that passed decided -/

theorem files_ok {s : State} {ok : Bool} {queue : List String} (h : files s ok = .ok queue) :
    queue = names s.json := by
  unfold files at h
  split at h
  · cases h
  split at h
  · cases h
  · cases h
    rfl

theorem saveBegin_ok {C : Config} {s : State} {g : OwnerGrant} {d : Donation} {deadline : Time}
    {now : Nat → Time} {ok : Bool} {ctl : Ctl} (h : saveBegin C s g d deadline now ok = .ok ctl) :
    ctl = .create ⟨g, d, now 1⟩ deadline := by
  unfold saveBegin at h
  split at h
  · cases h
  split at h
  · cases h
  split at h
  · cases h
  split at h
  · cases h
  split at h
  · cases h
  split at h
  · cases h
  split at h
  · cases h
  · cases h
    rfl

end RogiCollector.Ports.DonationSpool
