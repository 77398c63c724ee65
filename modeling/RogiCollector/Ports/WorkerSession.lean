import RogiCollector.Ports.DonationSpool

/-!
# The worker's collection session

`prepareCollection` of `worker/internal/collection.go` with the connector it
serves and the teardown of `worker/internal/manager.go`, on top of the
donation spool and the journal.

A session holds the grant it acquired and a local deadline.  Its renewal loop
moves the deadline; the donation sink reads grant and deadline under the
session's mutex and hands them to `Save`, which may have to wait for the
spool.  `Manager.Disconnect`, `DisconnectAll` and `handleErrors` release the
grant *before* they disconnect the connector; a failed renewal disconnects
first and releases then.  `release` and `disconnect` are therefore separate
steps in either order, and packets reach the sink until the connector is
disconnected.

Worker and database read one clock, `time`, which does not run backwards.
-/

namespace RogiCollector.Ports.WorkerSession

open Verified
open Journal (Time StoreErr Donation OwnerGrant Clocks Backend Sys Call
  Op Reply second)
open DonationSpool (SpoolRecord Config Delivery Ctl)

/-- `acquireStarted.Add(30 * time.Second)` and its sibling in the loop. -/
def localLease : Nat := 30 * second

/-- Where the renewal loop is: between ticks, before `RenewCollection`, or
with its answer in hand. -/
inductive Renewal where
  | idle
  | started (at_ : Time)
  | answered (at_ until_ : Time)
  | stopped
  deriving DecidableEq

/-- What the closures of `prepareCollection` share. -/
structure Session where
  grant : OwnerGrant
  deadline : Time
  renewal : Renewal
  connected : Bool
  released : Bool
  deriving DecidableEq

/-- A call of `prepareCollection`. -/
inductive Point where
  | acquiring (channel : String) (started : Time)
  | live (session : Session)
  | ended
  deriving DecidableEq

/-- A sink that waits for the spool's mutex. -/
structure Offer where
  grant : OwnerGrant
  donation : Donation
  deadline : Time
  deriving DecidableEq

/-- The worker process with its spool and the journal. -/
structure State where
  spool : DonationSpool.State
  time : Time
  sessions : List Point
  waiting : List Offer

def State.init : State := ⟨DonationSpool.State.init, 0, [], []⟩

/-- A step of the worker, the manager or their surroundings.  `k` numbers the
sessions, `j` the waiting sinks. -/
inductive Input where
  | connect (channel : String) (now : Time)
  | acquire (k : Nat) (worker : String) (clocks : Clocks) (uuid : String) (delivered : Bool)
  | renew (k : Nat) (now : Time)
  | renewCall (k : Nat) (clocks : Clocks) (uuid : String) (delivered : Bool)
  | renewApply (k : Nat)
  | release (k : Nat) (clocks : Clocks) (uuid : String)
  | disconnect (k : Nat)
  | sink (k : Nat) (d : Donation) (now : Time)
  | save (j : Nat) (now : Nat → Time) (ok : Bool)
  | drain
  | io (ok : Bool) (now : Time)
  | append (clocks : Clocks) (uuid : String) (delivery : Delivery)
  | crash
  | other (call : Call)

/-- What is seen of a step. -/
inductive Output where
  | quiet
  | spool (o : DonationSpool.Output)
  | replied (reply : Except StoreErr Reply)
  deriving DecidableEq

/-- The state after a call of the journal. -/
def State.called (s : State) (journal : Sys) (now : Time) : State :=
  { s with spool := { s.spool with journal }, time := now }

/-- Change a live session. -/
def updateSession (f : Session → Session) : Point → Point
  | .live session => .live (f session)
  | point => point

/-- The session `AcquireCollection` opens, if its answer arrives. -/
def opened (started : Time) (delivered : Bool) : Except StoreErr Reply → Point
  | .ok (.grant g) =>
    if delivered then .live ⟨g, started + localLease, .idle, true, false⟩ else .ended
  | _ => .ended

/-- What the loop makes of `RenewCollection`: on an error it disconnects. -/
def renewed (started : Time) (delivered : Bool) (session : Session) :
    Except StoreErr Reply → Session
  | .ok (.until until_) =>
    if delivered then { session with renewal := .answered started until_ }
    else { session with renewal := .stopped, connected := false }
  | _ => { session with renewal := .stopped, connected := false }

/-- `grant.ValidUntil = until; deadline = renewStarted.Add(30 * time.Second)`. -/
def applyRenewal (session : Session) : Session :=
  match session.renewal with
  | .answered started until_ =>
    { session with
      grant := { session.grant with validUntil := until_ }
      deadline := started + localLease
      renewal := .idle }
  | _ => session

/-- One step. -/
def step (C : Config) (B : Backend) (s : State) : Input → State × Output
  | .connect channel now =>
    ({ s with time := now, sessions := s.sessions ++ [.acquiring channel now] }, .quiet)
  | .acquire k worker clocks uuid delivered =>
    match s.sessions[k]? with
    | some (.acquiring channel started) =>
      let after := (Journal.machine B).step s.spool.journal
        ⟨clocks, uuid, .acquire channel worker⟩
      ({ s.called after.1 clocks.commit with
         sessions := s.sessions.set k (opened started delivered after.2) },
        .replied after.2)
    | _ => (s, .quiet)
  | .renew k now =>
    ({ s with
       time := now
       sessions := s.sessions.modify k (updateSession fun session =>
         if session.renewal = .idle then { session with renewal := .started now }
         else session) }, .quiet)
  | .renewCall k clocks uuid delivered =>
    match s.sessions[k]? with
    | some (.live session) =>
      match session.renewal with
      | .started started =>
        let after := (Journal.machine B).step s.spool.journal
          ⟨clocks, uuid, .renew session.grant⟩
        ({ s.called after.1 clocks.commit with
           sessions := s.sessions.set k
             (.live (renewed started delivered session after.2)) }, .replied after.2)
      | _ => (s, .quiet)
    | _ => (s, .quiet)
  | .renewApply k =>
    ({ s with sessions := s.sessions.modify k (updateSession applyRenewal) }, .quiet)
  | .release k clocks uuid =>
    match s.sessions[k]? with
    | some (.live session) =>
      -- `once.Do`.
      if session.released then (s, .quiet)
      else
        let after := (Journal.machine B).step s.spool.journal
          ⟨clocks, uuid, .release session.grant⟩
        ({ s.called after.1 clocks.commit with
           sessions := s.sessions.set k (.live { session with released := true }) },
          .replied after.2)
    | _ => (s, .quiet)
  | .disconnect k =>
    ({ s with
       sessions := s.sessions.modify k (updateSession fun session =>
         { session with connected := false }) }, .quiet)
  | .sink k d now =>
    match s.sessions[k]? with
    | some (.live session) =>
      if session.connected ∧ now < session.deadline then
        ({ s with
           time := now
           waiting := s.waiting ++ [⟨session.grant, d, session.deadline⟩] }, .quiet)
      else ({ s with time := now }, .quiet)
    | _ => ({ s with time := now }, .quiet)
  | .save j now ok =>
    match s.waiting[j]? with
    | some offer =>
      let after := DonationSpool.step C B s.spool
        (.save offer.grant offer.donation offer.deadline now ok)
      ({ s with spool := after.1, time := now 1, waiting := s.waiting.eraseIdx j },
        .spool after.2)
    | none => (s, .quiet)
  | .drain =>
    let after := DonationSpool.step C B s.spool .drain
    ({ s with spool := after.1 }, .spool after.2)
  | .io ok now =>
    let after := DonationSpool.step C B s.spool (.io ok now)
    ({ s with spool := after.1, time := now }, .spool after.2)
  | .append clocks uuid delivery =>
    let after := DonationSpool.step C B s.spool (.append clocks uuid delivery)
    ({ s with spool := after.1, time := clocks.commit }, .spool after.2)
  | .crash =>
    let after := DonationSpool.step C B s.spool .crash
    ({ s with spool := after.1, sessions := [], waiting := [] }, .spool after.2)
  | .other call =>
    let after := (Journal.machine B).step s.spool.journal call
    (s.called after.1 call.clocks.commit, .replied after.2)

/-- One clock, fresh UUIDs, and the spool's mutex. -/
def admits (s : State) : Input → Prop
  | .connect _ now | .renew _ now | .sink _ _ now | .io _ now => s.time ≤ now
  | .acquire _ _ clocks uuid _ | .renewCall _ clocks uuid _ | .release _ clocks uuid
  | .append clocks uuid _ => s.time ≤ clocks.clk 0 ∧ uuid ∉ s.spool.journal.minted
  | .other call => s.time ≤ call.clocks.clk 0 ∧ call.uuid ∉ s.spool.journal.minted
  | .save _ now _ => s.spool.ctl = .idle ∧ s.time ≤ now 1
  | .drain => s.spool.ctl = .idle
  | .renewApply _ | .disconnect _ | .crash => True

instance (s : State) : (i : Input) → Decidable (admits s i)
  | .connect .. | .renew .. | .sink .. | .io .. => inferInstanceAs (Decidable (_ ≤ _))
  | .acquire .. | .renewCall .. | .release .. | .append .. | .other .. =>
    inferInstanceAs (Decidable (_ ∧ _))
  | .save .. => inferInstanceAs (Decidable (_ ∧ _))
  | .drain => inferInstanceAs (Decidable (_ = _))
  | .renewApply .. | .disconnect .. | .crash => inferInstanceAs (Decidable True)

/-- The worker against the journal. -/
def machine (C : Config) (B : Backend) : Machine State Input Output where
  admits := admits
  step := step C B

instance (C : Config) (B : Backend) (s : State) (i : Input) :
    Decidable ((machine C B).admits s i) :=
  inferInstanceAs (Decidable (admits s i))

end RogiCollector.Ports.WorkerSession
