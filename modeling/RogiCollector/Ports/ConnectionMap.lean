import Mathlib.Data.Finset.Card
import RogiCollector.Verified.Machine
import RogiCollector.Ports.LiveChannels

/-!
# The connection map of a worker

`Manager` of `worker/internal/manager.go` and `collection.go`: a map from
`platform:channel` to the active connection, guarded by one mutex, with the
slow steps (acquiring the collection, dialling, releasing, closing) outside of
it.  A step of the machine is one lock section, or what a goroutine does
between two of them.

`Connect` reserves its key, prepares, dials, looks at its context, stores the
connection and returns.  `Disconnect` takes the entry of a key out of the map
and tears it down; `DisconnectAll` does so with all of them.  Each connection
has three goroutines of its own.  On a connector error `handleErrors` tears the
connection down and then deletes the entry of the *key*.  When a renewal fails,
the renewal goroutine closes its connector and then calls `Disconnect` for the
*key*, and so does `forwardMessages` when the channel has opted out.  Between
the start of such a cleanup and its step on the map the key may have got
another connection.

The collection store is taken to be configured, so that there is a grant to
release.  `ReconcilePlatform` is a sequence of `Connect` and `Disconnect` calls.

## Main definitions

* `Conn`, `State`, `step` — connections and the manager.
* `Integrity` — what the map promises.
-/

namespace RogiCollector.Ports.Manager

open Verified
open Live (ChannelKey)

/-! ## Connections -/

/-- Where the `Connect` call of a connection is. -/
inductive Phase where
  | reserved
  | prepared
  | dialed
  | checked
  | leaving
  | returned
  deriving Repr, DecidableEq

/-- One connection, from its reservation on: how far its `Connect` has come,
what has become of its context, connector and grant, and which of its
goroutines still wait for something to happen. -/
structure Conn where
  key : ChannelKey
  phase : Phase
  /-- `prepareCollection` succeeded, so there is a grant to release. -/
  prepared : Bool
  /-- The connector's `Connect` succeeded. -/
  dialed : Bool
  /-- The connection was put into the map. -/
  stored : Bool
  cancelled : Bool
  disconnected : Bool
  /-- The `sync.Once` of `releaseCollection`, and how often its body ran. -/
  once : Bool
  releases : Nat
  handler : Bool
  renewal : Bool
  forward : Bool
  /-- The dialling goroutine whose `Connect` has given up waiting for it. -/
  late : Bool
  deriving Repr, DecidableEq

/-- A connection as `Connect` reserves it. -/
def Conn.new (key : ChannelKey) : Conn where
  key := key
  phase := .reserved
  prepared := false
  dialed := false
  stored := false
  cancelled := false
  disconnected := false
  once := false
  releases := 0
  handler := false
  renewal := false
  forward := false
  late := false

/-- `releaseCollection`. -/
def Conn.release (c : Conn) : Conn :=
  { c with once := true, releases := if c.once then c.releases else c.releases + 1 }

/-- `cancel`, `releaseCollection`, `connector.Disconnect`. -/
def Conn.teardown (c : Conn) : Conn :=
  { c.release with cancelled := true, disconnected := true }

/-- The connection in the map, with its two goroutines started. -/
def Conn.store (c : Conn) : Conn :=
  { c with phase := .leaving, stored := true, handler := true, forward := true }

/-- What the deferred functions of `Connect` do to it: release a grant that no
entry of the map holds. -/
def Conn.finish (c : Conn) : Conn :=
  { (if c.prepared ∧ !c.stored then c.release else c) with phase := .returned }

/-! ## The manager -/

/-- Which goroutine of a connection cleans up. -/
inductive Cleaner where
  | handler
  | renewal
  | forward
  deriving Repr, DecidableEq

/-- The manager: all connections so far, the map, the reservations, the
connections that a `Disconnect` call (`false`) or `DisconnectAll` (`true`) has
taken out of the map and not yet torn down, the cleanups whose step on the map
is still to come, whether `connCtx` is cancelled, and whether `DisconnectAll`
has emptied the map. -/
structure State where
  all : Table Nat Conn
  nextID : Nat
  conns : Table ChannelKey Nat
  connecting : List ChannelKey
  dialing : Nat
  teardowns : List (Nat × Bool)
  cleanups : List (Cleaner × Nat)
  shutdown : Bool
  emptied : Bool

def State.init : State :=
  ⟨Table.empty, 0, Table.empty, [], 0, [], [], false, false⟩

/-- A lock section, or a stretch between two. -/
inductive Input where
  | connect (key : ChannelKey)
  | prepare (id : Nat) (ok : Bool)
  | dial (id : Nat) (ok : Bool)
  | timeout (id : Nat)
  | lateDial (id : Nat)
  | check (id : Nat)
  | store (id : Nat)
  | finish (id : Nat)
  | disconnect (key : ChannelKey)
  | teardown (k : Nat)
  | connectorError (id : Nat)
  | renewFailed (id : Nat)
  | optedOut (id : Nat)
  | cleanup (k : Nat)
  | cancelAll
  | disconnectAll
  deriving DecidableEq

def State.edit (s : State) (id : Nat) (f : Conn → Conn) : State :=
  { s with all := s.all.modify id f }

/-- The lock section of `Disconnect`: the entry of the key leaves the map. -/
def State.take (s : State) (key : ChannelKey) : State :=
  match s.conns.find key with
  | none => s
  | some id =>
    { s with
      conns := s.conns.delete fun key' _ => key' = key
      teardowns := s.teardowns ++ [(id, false)] }

/-- The first lock section of `Connect`. -/
def State.reserve (maxConn : Nat) (s : State) (key : ChannelKey) : State :=
  if (s.conns.find key).isSome ∨ key ∈ s.connecting then s
  else if 0 < maxConn ∧ maxConn ≤ s.conns.keys.length + s.dialing then s
  else
    { s with
      all := s.all.upsert s.nextID (Conn.new key)
      nextID := s.nextID + 1
      connecting := key :: s.connecting
      dialing := s.dialing + 1 }

/-- The second one: store the connection, unless the key has one. -/
def State.store (s : State) (id : Nat) (c : Conn) : State :=
  if (s.conns.find c.key).isSome then
    s.edit id fun c => { c with phase := .leaving, cancelled := true, disconnected := true }
  else
    { s.edit id Conn.store with conns := s.conns.upsert c.key id }

/-- The deferred functions of `Connect`, the last lock section among them. -/
def State.finish (s : State) (id : Nat) (c : Conn) : State :=
  { s.edit id Conn.finish with
    connecting := s.connecting.erase c.key
    dialing := s.dialing - 1 }

/-- One step; what concerns a connection gets its record. -/
def step (maxConn : Nat) (s : State) (i : Input) : State :=
  match i with
  | .connect key => s.reserve maxConn key
  | .prepare id ok =>
    if ok then
      s.edit id fun c => { c with phase := .prepared, prepared := true, renewal := true }
    else s.edit id fun c => { c with phase := .leaving, cancelled := true }
  | .dial id ok =>
    if ok then s.edit id fun c => { c with phase := .dialed, dialed := true }
    else s.edit id fun c => { c with phase := .leaving, cancelled := true }
  | .timeout id =>
    s.edit id fun c => { c with phase := .leaving, cancelled := true, late := true }
  | .lateDial id => s.edit id fun c => { c with dialed := true, late := false }
  | .check id =>
    s.edit id fun c =>
      if c.cancelled ∨ s.shutdown then { c with phase := .leaving, disconnected := true }
      else { c with phase := .checked }
  | .store id =>
    match s.all.find id with
    | none => s
    | some c => s.store id c
  | .finish id =>
    match s.all.find id with
    | none => s
    | some c => s.finish id c
  | .disconnect key => s.take key
  | .teardown k =>
    match s.teardowns[k]? with
    | none => s
    | some (id, _) =>
      { s.edit id Conn.teardown with teardowns := s.teardowns.eraseIdx k }
  | .connectorError id =>
    { s.edit id fun c => { c.teardown with handler := false }
      with cleanups := s.cleanups ++ [(.handler, id)] }
  | .renewFailed id =>
    { s.edit id fun c => { c with cancelled := true, disconnected := true, renewal := false }
      with cleanups := s.cleanups ++ [(.renewal, id)] }
  | .optedOut id =>
    { s.edit id fun c => { c with forward := false }
      with cleanups := s.cleanups ++ [(.forward, id)] }
  | .cleanup k =>
    match s.cleanups[k]? with
    | none => s
    | some (cleaner, id) =>
      let s := { s with cleanups := s.cleanups.eraseIdx k }
      match s.all.find id with
      | none => s
      | some c =>
        if cleaner = .handler then
          { s with conns := s.conns.delete fun key _ => key = c.key }
        else s.take c.key
  | .cancelAll => { s with shutdown := true }
  | .disconnectAll =>
    { s with
      conns := Table.empty
      teardowns :=
        s.teardowns ++ (s.conns.select fun _ _ => true).map fun row => (row.2, true)
      emptied := true }

/-- The connection is at that point of its life. -/
def State.at (s : State) (id : Nat) (p : Conn → Bool) : Bool := (s.all.find id).any p

/-- The order of the steps of one goroutine. -/
def admits (s : State) : Input → Bool
  | .connect _ | .disconnect _ | .teardown _ | .cleanup _ | .cancelAll => true
  | .prepare id _ => s.at id fun c => c.phase = .reserved
  | .dial id _ | .timeout id => s.at id fun c => c.phase = .prepared
  | .lateDial id => s.at id Conn.late
  | .check id => s.at id fun c => c.phase = .dialed
  | .store id => s.at id fun c => c.phase = .checked
  | .finish id => s.at id fun c => c.phase = .leaving
  | .connectorError id => s.at id Conn.handler
  | .renewFailed id => s.at id Conn.renewal
  | .optedOut id => s.at id Conn.forward
  | .disconnectAll => s.shutdown ∧ !s.emptied

/-- The goroutines of one manager, interleaved. -/
def machine (maxConn : Nat) : Machine State Input Unit where
  admits s i := admits s i = true
  step s i := (step maxConn s i, ())

instance (maxConn : Nat) (s : State) (i : Input) : Decidable ((machine maxConn).admits s i) :=
  inferInstanceAs (Decidable (admits s i = true))

/-! ## What the map promises -/

/-- A connection that was stored and that nothing has cancelled, disconnected
or taken out of the map to do so. -/
def State.live (s : State) (id : Nat) (c : Conn) : Bool :=
  c.stored ∧ !c.cancelled ∧ !c.disconnected ∧ !s.shutdown ∧
    !s.teardowns.any fun task => task.1 = id

/-- `DisconnectAll` and every `Connect` call have returned. -/
def State.closed (s : State) : Prop :=
  s.emptied = true ∧ (∀ id, (id, true) ∉ s.teardowns) ∧
    ∀ id c, s.all.Has id c → c.phase = .returned

structure Integrity (maxConn : Nat) (s : State) : Prop where
  /-- A later `Disconnect` of the key reaches the connection. -/
  reach : ∀ id c, s.all.Has id c → s.live id c = true → s.conns.Has c.key id
  single : ∀ id id' c c', s.all.Has id c → s.all.Has id' c' → s.live id c = true →
    s.live id' c' = true → c.key = c'.key → id = id'
  bound : 0 < maxConn → (s.all.select s.live).length ≤ maxConn
  /-- The step on the map that a goroutine of a connection has ahead can only
  meet this connection. -/
  own : ∀ cleaner id c, (cleaner, id) ∈ s.cleanups → s.all.Has id c →
    ∀ id', s.conns.Has c.key id' → id' = id
  once : ∀ id c, s.all.Has id c → c.releases ≤ 1
  /-- A grant is released once its connection has left `Connect` and the map
  and is not being torn down. -/
  released : ∀ id c, s.all.Has id c → c.prepared = true → c.releases = 1 ∨
    c.phase ≠ .returned ∨ s.conns.Has c.key id ∨ ∃ b, (id, b) ∈ s.teardowns
  /-- After the shutdown the map is empty and every connector is disconnected. -/
  shutdown : s.closed → (∀ key id, ¬s.conns.Has key id) ∧
    ∀ id c, s.all.Has id c → c.dialed = true → c.disconnected = true

end RogiCollector.Ports.Manager
