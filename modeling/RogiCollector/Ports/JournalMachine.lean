import RogiCollector.Verified.Machine
import RogiCollector.Ports.JournalConsumerOps

/-!
# The donation journal as a machine

One input is one call of the store, by whichever process: its clocks, the
UUID `uuid.NewString()` returns if the call draws one, and the operation with
its arguments.  Arguments are arbitrary.  The environment has two
obligations, `Call.admits`: the database clock does not run backwards, and a
UUID is never drawn twice.

A call that fails is rolled back.  `MaintainCollection` is two transactions;
its second one is also an operation of its own, so that a run may put other
calls between the two.
-/

namespace RogiCollector.Ports.Journal

open Verified

/-- The operations of the store, and what other parts of the system do to
the rows the store reads. -/
inductive Op where
  | ensure (channel : String)
  | setState (channel state : String)
  | heartbeat (g : OwnerGrant) (state : String) (last : Time)
  | acquire (channel worker : String)
  | renew (g : OwnerGrant)
  | release (g : OwnerGrant)
  | append (g : OwnerGrant) (d : Donation) (acceptedAt : Time)
  | dispatch (eventID : String)
  | read (consumer channel generation : String) (after revision : Nat) (limit : Int)
  | ack (consumer channel generation : String) (offset revision : Nat)
  | subscribe (consumer channel key : String) (enabled : Bool)
  | resolve (consumer channel key previous next : String) (resume expected : Nat)
      (request : String)
  | expire (channel : String) (minAge maxAge maxPayloadBytes : Int)
  | purge (channel : String)
  | maintain (channel : String)
  | rotate (channel expected reason : String)
  | optOut (channels : List String)
  | assign (live : List (String × String))
  deriving DecidableEq

/-- What a successful call returns. -/
inductive Reply where
  | done
  | grant (g : OwnerGrant)
  | until (t : Time)
  | donation (d : Donation)
  | page (ds : List Donation) (state : CollectionState)
  | enabled (b : Bool)
  | decision (r : RecoveryDecision)
  | generation (g : String)
  deriving DecidableEq

/-- Run one operation on the database. -/
def apply (B : Backend) (t : Clocks) (uuid : String) (db : Db) :
    Op → Except StoreErr (Db × Reply)
  | .ensure channel => (ensureCollection B t uuid db channel).map (·, .done)
  | .setState channel state => .ok (setCollectionState t db channel state, .done)
  | .heartbeat g state last => .ok (collectionHeartbeat t db g state last, .done)
  | .acquire channel worker =>
    (acquireCollection B t uuid db channel worker).map fun r => (r.1, .grant r.2)
  | .renew g => (renewCollection t db g).map fun r => (r.1, .until r.2)
  | .release g => .ok (releaseCollection t db g, .done)
  | .append g d acceptedAt =>
    (appendDonation B t db g d acceptedAt).map fun r => (r.1, .donation r.2)
  | .dispatch eventID => .ok (dispatchOutbox db eventID, .done)
  | .read consumer channel generation after revision limit =>
    (readDonations t db consumer channel generation after revision limit).map
      fun r => (r.1, .page r.2.1 r.2.2)
  | .ack consumer channel generation offset revision =>
    (ackDonations db consumer channel generation offset revision).map (·, .done)
  | .subscribe consumer channel key enabled =>
    (setSubscription B t db consumer channel key enabled).map
      fun r => (r.1, .enabled r.2)
  | .resolve consumer channel key previous next resume expected request =>
    (resolveRecovery B t db consumer channel key previous next resume expected
      request).map fun r => (r.1, .decision r.2)
  | .expire channel minAge maxAge maxPayloadBytes =>
    (expireDonations B t db channel minAge maxAge maxPayloadBytes).map (·, .done)
  | .purge channel => .ok (purgeCollection t db channel, .done)
  | .maintain channel => (maintainCollection B t db channel).map (·, .done)
  | .rotate channel expected reason =>
    (rotateJournal t uuid db channel expected reason).map
      fun r => (r.1, .generation r.2)
  | .optOut channels => .ok ({ db with optOuts := channels }, .done)
  | .assign live => .ok ({ db with live }, .done)

/-- One call. -/
structure Call where
  clocks : Clocks
  uuid : String
  op : Op

/-- The database with its clock and every UUID drawn so far. -/
structure Sys where
  db : Db
  clock : Time
  minted : List String

/-- The state after the migration. -/
def Sys.init : Sys := ⟨Db.empty, 0, []⟩

/-- What the environment may supply. -/
def Call.admits (s : Sys) (call : Call) : Prop :=
  s.clock ≤ call.clocks.clk 0 ∧ call.uuid ∉ s.minted

instance (s : Sys) (call : Call) : Decidable (call.admits s) :=
  inferInstanceAs (Decidable (_ ∧ _))

/-- The store as a machine. -/
def machine (B : Backend) : Machine Sys Call (Except StoreErr Reply) where
  admits s call := call.admits s
  step s call :=
    match apply B call.clocks call.uuid s.db call.op with
    | .ok (db, reply) => (⟨db, call.clocks.commit, call.uuid :: s.minted⟩, .ok reply)
    | .error e => (⟨s.db, call.clocks.commit, call.uuid :: s.minted⟩, .error e)

instance (B : Backend) (s : Sys) (call : Call) : Decidable ((machine B).admits s call) :=
  inferInstanceAs (Decidable (call.admits s))

variable {B : Backend}

@[simp] theorem step_clock (s : Sys) (call : Call) :
    ((machine B).step s call).1.clock = call.clocks.commit := by
  simp only [machine]
  split <;> rfl

@[simp] theorem step_minted (s : Sys) (call : Call) :
    ((machine B).step s call).1.minted = call.uuid :: s.minted := by
  simp only [machine]
  split <;> rfl

/-- A call either commits what `apply` computed or changes no row. -/
theorem step_db (s : Sys) (call : Call) :
    (∃ reply, apply B call.clocks call.uuid s.db call.op =
        .ok (((machine B).step s call).1.db, reply) ∧
        ((machine B).step s call).2 = .ok reply) ∨
      (∃ e, apply B call.clocks call.uuid s.db call.op = .error e ∧
        ((machine B).step s call).1.db = s.db ∧
        ((machine B).step s call).2 = .error e) := by
  cases h : apply B call.clocks call.uuid s.db call.op with
  | ok r => exact Or.inl ⟨r.2, by simp [machine, h], by simp [machine, h]⟩
  | error e => exact Or.inr ⟨e, rfl, by simp [machine, h], by simp [machine, h]⟩

/-- A database invariant that every committed operation keeps. -/
theorem step_db_invariant {I : Db → Prop}
    (happly : ∀ t uuid db op db' reply, I db →
      apply B t uuid db op = .ok (db', reply) → I db')
    (s : Sys) (call : Call) (h : I s.db) : I ((machine B).step s call).1.db := by
  rcases step_db (B := B) s call with ⟨reply, hok, -⟩ | ⟨e, -, hdb, -⟩
  · exact happly _ _ _ _ _ _ h hok
  · rw [hdb]
    exact h

/-- States the store can be in. -/
def Reachable (B : Backend) (s : Sys) : Prop := ∃ tr, (machine B).Run Sys.init tr s

/-- A database invariant of the empty schema holds in every reachable state. -/
theorem Reachable.db_invariant {I : Db → Prop} (h0 : I Db.empty)
    (happly : ∀ t uuid db op db' reply, I db →
      apply B t uuid db op = .ok (db', reply) → I db')
    {s : Sys} (hs : Reachable B s) : I s.db := by
  obtain ⟨tr, hr⟩ := hs
  exact hr.invariant (fun s call h _ => step_db_invariant happly s call h) h0

/-! ## The fixture of `shared/testutil`

One channel, one worker that is assigned to it, and one donation.  The stand-in
for SHA-256 is the identity, which keeps different texts apart.
-/

def fixtureBackend : Backend where
  collectionChannel := some "fixture_channel"
  sha256Hex := id
  marshalLen := fun _ => some 400
  columnSize := fun _ => 400
  storable := fun _ => true
  jsonb := fun _ => true
  unrecoveredRanges := fun _ => some []

/-- `donation(g, id, epoch)` of the integration test. -/
def fixtureDonation (id : Nat) (epoch : String) (at_ : Time) : Donation :=
  { eventID := epoch ++ "-" ++ toString id, channelID := "fixture_channel", count := 33
    kind := "balloon", donorID := "fixture_donor", displayName := "", message := ""
    connectionEpoch := epoch, sequence := id, observedAt := at_
    connectionStartedAt := at_ - second, sourceID := none, broadcastID := none
    identity := "", reasons := [], related := [], generation := "", offset := 0 }

/-- A call at a standing clock. -/
def Call.at (t : Time) (uuid : String) (op : Op) : Call := ⟨Clocks.still t, uuid, op⟩

/-- The grant the fixture's worker acquires at `t`. -/
def fixtureGrant (t : Time) : OwnerGrant :=
  ⟨"token-a", "fixture_channel", "generation-a", t, t + leaseTime⟩

/-- Register the channel, assign the worker, acquire. -/
def fixtureCalls (t : Time) : List Call :=
  [ .at t "generation-a" (.ensure "fixture_channel")
  , .at t "unused-1" (.assign [("fixture_channel", "fixture_worker")])
  , .at t "token-a" (.acquire "fixture_channel" "fixture_worker") ]

/-- A list of calls that the environment may make leads to a reachable state. -/
theorem reachable_exec (calls : List Call) (h : (machine B).Admitted Sys.init calls) :
    Reachable B ((machine B).exec Sys.init calls).1 :=
  ⟨_, Machine.run_exec _ _ h⟩

end RogiCollector.Ports.Journal
