import RogiCollector.Ports.ConnectionIntegrity

/-!
# Shutdown of a worker

The drain of `worker/cmd/main.go` on the manager's connection map, while the other
goroutines go on: `opsCancel` does not wait for the `Connect` and `Disconnect` calls
of the reconciler and the command subscriber, nor for the goroutines of the single
connections.  What they do between two steps of `main` is a `Schedule`.  Errors of the
database are logged and passed over, except that a drain that is not complete when its
deadline comes calls `DisconnectAll` again, which closes a channel that is closed.

Where a connection can be is counted: its entries of the map, the teardowns it waits
for and the times it was disconnected.  As long as no step takes an open connection
out of this account the sum stays one.  If no `Connect` call is past its look at the
context when `DisconnectAll` empties the map, the map stays empty, and the drain is
complete with the first answer of `ListAckedHandoffs`.
-/

namespace RogiCollector.Ports.WorkerShutdown

open Verified
open Live (ChannelKey)
open Manager

/-! ## The worker -/

inductive WorkerStatus
  | draining
  | dead
  deriving Repr, DecidableEq

/-- Calls to the database and to Redis; `ok` is false if the call failed. -/
inductive Call
  | updateWorkerStatus (status : WorkerStatus) (ok : Bool)
  | publishDrainStarted (ok : Bool)
  | listAckedHandoffs (ok : Bool)
  | clearHandoff (id : Nat) (ok : Bool)
  | unassignWorkerChannels (ok : Bool)
  deriving Repr, DecidableEq

inductive Panic
  | closeOfClosedChannel
  deriving Repr, DecidableEq

/-- What `main` does not decide: the steps of the other goroutines before its `n`-th
step, and the order in which it goes through a map. -/
structure Schedule where
  others : Nat → List Input
  order : List Nat → List Nat
  perm : ∀ ids, (order ids).Perm ids

/-- A worker: the flags of the drain, whether `stopSnap` is closed, the manager, and
the connections that `main` has taken out of the map to close them.  `turn` counts the
steps of `main`; `history` are the manager's steps, each with the state before it. -/
structure Worker where
  maxConn : Nat
  draining : Bool
  ready : Bool
  stopSnap : Bool
  mgr : State
  own : List Nat
  turn : Nat
  history : List (State × Input)
  calls : List Call

def Worker.call (w : Worker) (c : Call) : Worker := { w with calls := w.calls ++ [c] }

def Worker.act (w : Worker) (i : Input) : Worker :=
  { w with mgr := step w.maxConn w.mgr i, history := w.history ++ [(w.mgr, i)] }

/-- What another goroutine can do: `main` alone calls `DisconnectAll`, and what it has
taken out of the map it closes itself. -/
def Worker.allows (w : Worker) : Input → Bool
  | .cancelAll | .disconnectAll => false
  | .teardown k => w.mgr.teardowns[k]?.all fun task => task.1 ∉ w.own
  | i => admits w.mgr i

def Worker.other (w : Worker) (i : Input) : Worker := if w.allows i then w.act i else w

/-- The other goroutines, up to the next step of `main`. -/
def Worker.pause (bg : Schedule) (w : Worker) : Worker :=
  { (bg.others w.turn).foldl Worker.other w with turn := w.turn + 1 }

/-- The connectors that a step of the manager disconnects. -/
def closedBy (s : State) : Input → List Nat
  | .teardown k => (s.teardowns[k]?.map Prod.fst).toList
  | .connectorError id | .renewFailed id => [id]
  | .check id => if s.at id fun c => c.cancelled ∨ s.shutdown then [id] else []
  | .store id => if s.at id fun c => (s.conns.find c.key).isSome then [id] else []
  | _ => []

def Worker.closed (w : Worker) : List Nat := w.history.flatMap fun e => closedBy e.1 e.2

def Worker.activeCount (w : Worker) : Nat := w.mgr.conns.rows.length

/-- `main` closes a connection that it has taken out of the map. -/
def Worker.close (bg : Schedule) (w : Worker) (id : Nat) : Worker :=
  let w := w.pause bg
  match w.mgr.teardowns.findIdx? (·.1 = id) with
  | none => w
  | some k => w.act (.teardown k)

/-- The loop over the snapshot of `DisconnectAll`. -/
def Worker.closeAll (bg : Schedule) (w : Worker) : List Nat → Worker
  | [] => w
  | id :: ids => Worker.closeAll bg { w.close bg id with own := ids } ids

/-- `Disconnect`; its error is only logged. -/
def Worker.disconnect (bg : Schedule) (w : Worker) (key : ChannelKey) : Worker :=
  let w := w.pause bg
  match w.mgr.conns.find key with
  | none => w
  | some id => { { w.act (.disconnect key) with own := [id] }.close bg id with own := [] }

def Worker.disconnectAll (bg : Schedule) (w : Worker) : Worker × Option Panic :=
  let w := ((w.pause bg).act .cancelAll).pause bg
  if w.stopSnap then (w, some .closeOfClosedChannel)
  else
    let ids := bg.order (w.mgr.conns.rows.map Prod.snd)
    (Worker.closeAll bg { w.act .disconnectAll with stopSnap := true, own := ids } ids, none)

/-! ## The drain -/

/-- A channel that `ListAckedHandoffs` returns, and whether `ClearHandoff` succeeds. -/
structure Acked where
  id : Nat
  key : ChannelKey
  cleared : Bool
  deriving Repr, DecidableEq

def Worker.handedOff (bg : Schedule) (w : Worker) (ch : Acked) : Worker :=
  (w.disconnect bg ch.key).call (.clearHandoff ch.id ch.cleared)

/-- The answer of `ListAckedHandoffs`; `none` is an error. -/
abbrev Poll := Option (List Acked)

/-- `waitForHandoffs` with the polls of the ticks before its deadline; the error is
the number of connections that remain. -/
def Worker.waitForHandoffs (bg : Schedule) (w : Worker) : List Poll → Worker × Option Nat
  | [] => (w.pause bg, some (w.pause bg).activeCount)
  | none :: polls => (w.call (.listAckedHandoffs false)).waitForHandoffs bg polls
  | some acked :: polls =>
    let w := (acked.foldl (Worker.handedOff bg) (w.call (.listAckedHandoffs true))).pause bg
    if w.activeCount = 0 then (w, none) else w.waitForHandoffs bg polls

/-- What the database and Redis answer during the shutdown. -/
structure Answers where
  markDraining : Bool
  publish : Bool
  polls : List Poll
  unassign : Bool
  markDead : Bool

/-- The last calls of `main`. -/
def Worker.finish (bg : Schedule) (w : Worker) (answers : Answers) : Worker :=
  ((w.call (.unassignWorkerChannels answers.unassign)).call
    (.updateWorkerStatus .dead answers.markDead)).pause bg

/-- What `main` does after the drain. -/
def Worker.cleanup (bg : Schedule) (w : Worker) (drainErr : Option Nat) (answers : Answers) :
    Worker × Option Panic :=
  match drainErr with
  | none => (w.finish bg answers, none)
  | some _ =>
    match w.disconnectAll bg with
    | (w, some panic) => (w, some panic)
    | (w, none) => (w.finish bg answers, none)

/-- The shutdown sequence of `main`. -/
def Worker.shutdown (bg : Schedule) (w : Worker) (answers : Answers) : Worker × Option Panic :=
  let w := { w with draining := true, ready := false }
  let w := w.call (.updateWorkerStatus .draining answers.markDraining)
  let w := w.call (.publishDrainStarted answers.publish)
  match w.disconnectAll bg with
  | (w, some panic) => (w, some panic)
  | (w, none) =>
    let (w, drainErr) := w.waitForHandoffs bg answers.polls
    w.cleanup bg drainErr answers

/-! ## What the shutdown promises, and when -/

/-- The connection is open: it is in the map, and nothing has disconnected it. -/
def isOpen (s : State) (id : Nat) : Bool :=
  (s.conns.any fun _ id' => id' = id) && s.at id fun c => !c.disconnected

/-- The step leaves the connections that were open in `s0` to the calls that take them
out of the map: none of them fails by itself, no `handleErrors` deletes the entry of
one, and `DisconnectAll` overtakes no `Connect` call that has looked at its context. -/
def quiet (s0 s : State) : Input → Bool
  | .connectorError id | .renewFailed id => !isOpen s0 id
  | .cleanup k =>
    s.cleanups[k]?.all fun task => task.1 ≠ .handler ∨
      (s.all.find task.2).all fun c => (s.conns.find c.key).all fun id => !isOpen s0 id
  | .disconnectAll => !s.all.any fun _ c => c.phase = .checked
  | _ => true

/-- All steps so far were quiet. -/
def Worker.Quiet (s0 : State) (w : Worker) : Prop := ∀ e ∈ w.history, quiet s0 e.1 e.2 = true

/-- And no `Disconnect` call of another goroutine is still at work on a connection that
was open in `s0`. -/
def Calm (s0 : State) (w : Worker) : Prop :=
  w.Quiet s0 ∧ ∀ task ∈ w.mgr.teardowns, isOpen s0 task.1 = true → task.2 = true

/-! ## The account of a connection -/

/-- The entries of the map and the teardowns of a connection. -/
def load (s : State) (id : Nat) : Nat :=
  (s.conns.rows.map Prod.snd).count id + (s.teardowns.map Prod.fst).count id

/-- The connections whose entry or teardown a step removes. -/
def removed (s : State) : Input → List Nat
  | .teardown k => (s.teardowns[k]?.map Prod.fst).toList
  | .cleanup k =>
    match s.cleanups[k]? with
    | some (.handler, id) => ((s.all.find id).bind fun c => s.conns.find c.key).toList
    | _ => []
  | _ => []

/-- The connections that a step puts into the map. -/
def added (s : State) : Input → List Nat
  | .store id => if s.at id fun c => (s.conns.find c.key).isNone then [id] else []
  | _ => []

variable {s0 s : State} {id : Nat} {i : Input} {maxConn : Nat}

/-- The rows of a key, which are at most one. -/
theorem filter_key (key : ChannelKey) :
    (s.conns.rows.filter fun row => row.1 = key).map Prod.snd = (s.conns.find key).toList := by
  cases hfind : s.conns.find key with
  | none =>
    have hnone := Table.find_eq_none_iff.mp hfind
    rw [List.filter_eq_nil_iff.mpr]
    · rfl
    · rintro ⟨key', id⟩ hrow hkey
      exact hnone id (of_decide_eq_true hkey ▸ hrow)
  | some id =>
    have hrow : (key, id) ∈ s.conns.rows := Table.find_eq_some_iff.mp hfind
    have hnodup : (s.conns.rows.filter fun row => row.1 = key).Nodup :=
      (List.Nodup.of_map Prod.fst s.conns.nodup).filter _
    have hone : s.conns.rows.filter (fun row => row.1 = key) = [(key, id)] := by
      refine List.perm_singleton.mp ((List.perm_ext_iff_of_nodup hnodup (by simp)).mpr ?_)
      rintro ⟨key', id'⟩
      simp only [List.mem_filter, decide_eq_true_eq, List.mem_singleton, Prod.mk.injEq]
      constructor
      · rintro ⟨hmem, rfl⟩
        exact ⟨rfl, Table.Has.unique (t := s.conns) hmem hrow⟩
      · rintro ⟨rfl, rfl⟩
        exact ⟨hrow, rfl⟩
    rw [hone]
    rfl

/-- The entry of a key leaves the map. -/
theorem count_delete (s : State) (id : Nat) (key : ChannelKey) :
    ((s.conns.delete fun key' _ => key' = key).rows.map Prod.snd).count id +
      (s.conns.find key).toList.count id = (s.conns.rows.map Prod.snd).count id := by
  have hperm := List.filter_append_perm (fun row : ChannelKey × Nat => row.1 = key) s.conns.rows
  have hcount := (hperm.map Prod.snd).count_eq id
  rw [List.map_append, List.count_append, filter_key] at hcount
  rw [← hcount, Nat.add_comm]
  rfl

theorem load_take (key : ChannelKey) : load (s.take key) id = load s id := by
  have hcount := count_delete s id key
  rw [State.take]
  cases hfind : s.conns.find key with
  | none => rfl
  | some id' =>
    rw [hfind, Option.toList_some] at hcount
    simp only [load, List.map_append, List.count_append, List.map_cons, List.map_nil]
    omega

theorem load_store {id' : Nat} :
    load (step maxConn s (.store id')) id = load s id + (added s (.store id')).count id := by
  rcases Option.eq_none_or_eq_some (s.all.find id') with hnone | ⟨c, hc⟩
  · simp [step, added, State.at, hnone]
  cases hfind : s.conns.find c.key with
  | some _ => simp [step, added, State.at, State.store, hc, hfind, load, State.edit]
  | none =>
    have hfree : c.key ∉ s.conns.rows.map Prod.fst := by
      intro hmem
      obtain ⟨id'', hrow⟩ := Table.mem_keys.mp hmem
      exact Table.find_eq_none_iff.mp hfind id'' hrow
    have hrows : (s.conns.upsert c.key id').rows = s.conns.rows ++ [(c.key, id')] := by
      simp [Table.upsert, Table.insert, hfree]
    simp [step, added, State.at, State.store, hc, hfind, load, State.edit, hrows]
    omega

theorem load_cleanup (k : Nat) :
    load (step maxConn s (.cleanup k)) id + (removed s (.cleanup k)).count id = load s id := by
  simp only [step, removed]
  cases hk : s.cleanups[k]? with
  | none => rfl
  | some task =>
    obtain ⟨cleaner, id'⟩ := task
    cases hfind : s.all.find id' with
    | none => cases cleaner <;> simp [hfind, load]
    | some c =>
      cases cleaner with
      | handler =>
        have hcount := count_delete s id c.key
        simp only [hfind, if_true, Option.bind_some, load]
        omega
      | renewal | forward =>
        simp only [hfind, reduceCtorEq, if_false, List.count_nil]
        exact load_take c.key

theorem load_teardown (k : Nat) :
    load (step maxConn s (.teardown k)) id + (removed s (.teardown k)).count id = load s id := by
  simp only [step, removed]
  cases hk : s.teardowns[k]? with
  | none => rfl
  | some task =>
    obtain ⟨hlt, hget⟩ := List.getElem?_eq_some_iff.mp hk
    have hcount := ((List.getElem_cons_eraseIdx_perm hlt).map Prod.fst).count_eq id
    rw [hget, List.map_cons, List.count_cons] at hcount
    simp only [load, State.edit, Option.map_some, Option.toList_some, List.count_singleton]
    omega

theorem load_disconnectAll (maxConn : Nat) :
    load (step maxConn s .disconnectAll) id = load s id := by
  have hids : Prod.fst ∘ (fun row : ChannelKey × Nat => (row.2, true)) = Prod.snd := rfl
  simp only [step, load, Table.select, Table.empty, List.map_append, List.map_map,
    List.count_append, List.map_nil, List.count_nil, List.filter_true, hids]
  omega

/-- The account of a step. -/
theorem load_step : load (step maxConn s i) id + (removed s i).count id =
    load s id + (added s i).count id := by
  cases i with
  | connect key =>
    simp only [step, State.reserve]
    split
    · rfl
    · split <;> rfl
  | prepare _ ok | dial _ ok => cases ok <;> rfl
  | timeout _ | lateDial _ | check _ | connectorError _ | renewFailed _ | optedOut _
  | cancelAll => rfl
  | store id' => exact load_store
  | finish id' =>
    simp only [step]
    cases s.all.find id' <;> rfl
  | disconnect key => exact load_take key
  | teardown k => exact load_teardown k
  | cleanup k => exact load_cleanup k
  | disconnectAll => exact load_disconnectAll maxConn

/-! ## What a step can do -/

/-- The `Connect` call of the connection is past its store section. -/
def Conn.past (c : Conn) : Prop := c.phase = .leaving ∨ c.phase = .returned

/-- A step of a connection: it does not go back, and it does not pass its look at the
context once that is cancelled. -/
structure Moves (shutdown : Bool) (c c' : Conn) : Prop where
  past : Conn.past c → Conn.past c'
  checked : shutdown = true → c'.phase = .checked → c.phase = .checked

/-- A step of the manager other than the snapshot of `DisconnectAll`, as far as the
shutdown is concerned. -/
structure Effect (s s' : State) : Prop where
  all : (∃ key, s'.all = s.all.upsert s.nextID (Conn.new key) ∧ s'.nextID = s.nextID + 1) ∨
    s'.nextID = s.nextID ∧ (s'.all = s.all ∨
      ∃ id f, s'.all = s.all.modify id f ∧ ∀ c, s.all.Has id c → Moves s.shutdown c (f c))
  shutdown : s.shutdown = true → s'.shutdown = true
  conns : s.conns.rows = [] → (∀ id c, s.all.Has id c → c.phase ≠ .checked) →
    s'.conns.rows = []
  snapshot : ∀ id, (id, true) ∈ s'.teardowns → (id, true) ∈ s.teardowns

theorem Effect.refl (s : State) : Effect s s where
  all := Or.inr ⟨rfl, Or.inl rfl⟩
  shutdown h := h
  conns h _ := h
  snapshot _ h := h

/-- One connection changes. -/
theorem Effect.edit {id' : Nat} {f : Conn → Conn}
    (hf : ∀ c, s.all.Has id' c → Moves s.shutdown c (f c)) : Effect s (s.edit id' f) where
  __ := Effect.refl s
  all := Or.inr ⟨rfl, Or.inr ⟨id', f, rfl, hf⟩⟩

/-- A goroutine sets out to clean up. -/
theorem Effect.push {s' : State} (h : Effect s s') (cleanups : List (Cleaner × Nat)) :
    Effect s { s' with cleanups := cleanups } :=
  { h with }

/-- A step that a `Connect` call takes before its store section. -/
theorem Moves.early {c c' : Conn} {phase : Phase} (h : c.phase = phase) (hl : phase ≠ .leaving)
    (hr : phase ≠ .returned) (hchecked : s.shutdown = true → c'.phase ≠ .checked) :
    Moves s.shutdown c c' where
  past hpast := absurd (h ▸ hpast : phase = .leaving ∨ phase = .returned) (not_or.mpr ⟨hl, hr⟩)
  checked hshut hc' := absurd hc' (hchecked hshut)

theorem Effect.take (s : State) (key : ChannelKey) : Effect s (s.take key) := by
  rw [State.take]
  cases hfind : s.conns.find key with
  | none => exact Effect.refl s
  | some id =>
    refine { Effect.refl s with conns := ?_, snapshot := ?_ }
    · intro hrows _
      simp [Table.delete, hrows]
    · intro id' hmem
      simpa using hmem

theorem Effect.cleanup (k : Nat) : Effect s (step maxConn s (.cleanup k)) := by
  simp only [step]
  cases s.cleanups[k]? with
  | none => exact Effect.refl s
  | some task =>
    dsimp only
    cases s.all.find task.2 with
    | none => exact { Effect.refl s with }
    | some c =>
      dsimp only
      split
      · refine { Effect.refl s with conns := ?_ }
        intro hrows _
        simp [Table.delete, hrows]
      · exact { Effect.take { s with cleanups := s.cleanups.eraseIdx k } c.key with }

theorem Effect.teardown (k : Nat) : Effect s (step maxConn s (.teardown k)) := by
  simp only [step]
  cases s.teardowns[k]? with
  | none => exact Effect.refl s
  | some task =>
    have hedit : Effect s (s.edit task.1 Conn.teardown) :=
      Effect.edit fun _ _ => ⟨fun h => h, fun _ h => h⟩
    exact { hedit with snapshot := fun _ h => List.mem_of_mem_eraseIdx h }

theorem Effect.store {id' : Nat} (hadm : admits s (.store id') = true) :
    Effect s (step maxConn s (.store id')) := by
  obtain ⟨c, hc, hphase⟩ := State.at_iff.mp hadm
  simp only [step, Table.find_eq_some_iff.mpr hc, State.store]
  split
  · exact Effect.edit fun _ _ => ⟨fun _ => Or.inl rfl, fun _ h => Phase.noConfusion h⟩
  · have hedit : Effect s (s.edit id' Conn.store) :=
      Effect.edit fun _ _ => ⟨fun _ => Or.inl rfl, fun _ h => Phase.noConfusion h⟩
    refine { hedit with conns := ?_ }
    exact fun _ hno => absurd (of_decide_eq_true hphase) (hno id' c hc)

theorem effect_step (hadm : admits s i = true) (hi : i ≠ .disconnectAll) :
    Effect s (step maxConn s i) := by
  cases i with
  | connect key =>
    simp only [step, State.reserve]
    split
    · exact Effect.refl s
    split
    · exact Effect.refl s
    · exact { Effect.refl s with all := Or.inl ⟨key, rfl, rfl⟩ }
  | prepare id' ok | dial id' ok =>
    cases ok <;> refine Effect.edit ?_ <;> intro c hc <;>
      exact .early (of_decide_eq_true (State.at_all hadm hc)) (by simp) (by simp) (by simp)
  | timeout id' =>
    refine Effect.edit ?_
    intro c hc
    exact .early (of_decide_eq_true (State.at_all hadm hc)) (by simp) (by simp) (by simp)
  | check id' =>
    refine Effect.edit ?_
    intro c hc
    refine .early (of_decide_eq_true (State.at_all hadm hc)) (by simp) (by simp) ?_
    intro hshut
    simp [hshut]
  | lateDial id' => exact Effect.edit fun _ _ => ⟨fun h => h, fun _ h => h⟩
  | connectorError id' | renewFailed id' | optedOut id' =>
    refine Effect.push (Effect.edit ?_) _
    exact fun _ _ => ⟨fun h => h, fun _ h => h⟩
  | store id' => exact Effect.store hadm
  | finish id' =>
    obtain ⟨c, hc, -⟩ := State.at_iff.mp hadm
    simp only [step, Table.find_eq_some_iff.mpr hc]
    have hedit : Effect s (s.edit id' Conn.finish) :=
      Effect.edit fun _ _ => ⟨fun _ => Or.inr rfl, fun _ h => Phase.noConfusion h⟩
    exact { hedit with }
  | disconnect key => exact Effect.take s key
  | teardown k => exact Effect.teardown k
  | cleanup k => exact Effect.cleanup k
  | cancelAll => exact { Effect.refl s with shutdown := fun _ => rfl }
  | disconnectAll => exact absurd rfl hi

/-! ## What holds in every state -/

/-- A connection has at most one entry or teardown, and then it was stored. -/
structure Sound (s : State) : Prop where
  fresh : ∀ id c, s.all.Has id c → id < s.nextID
  load : ∀ id, WorkerShutdown.load s id ≤ 1
  past : ∀ id, 0 < WorkerShutdown.load s id → ∃ c, s.all.Has id c ∧ Conn.past c

variable {s' : State}

/-- Where a connection after a step comes from. -/
theorem Effect.has (h : Effect s s') {c' : Conn} (hc' : s'.all.Has id c') :
    (∃ key, id = s.nextID ∧ s'.nextID = s.nextID + 1 ∧ c' = Conn.new key) ∨
      s.nextID ≤ s'.nextID ∧ ∃ c, s.all.Has id c ∧ Moves s.shutdown c c' := by
  have hsame : ∀ c, Moves s.shutdown c c := fun _ => ⟨fun h => h, fun _ h => h⟩
  rcases h.all with ⟨key, hall, hnext⟩ | ⟨hnext, hall | ⟨id', f, hall, hf⟩⟩
  · rw [hall, Table.has_upsert] at hc'
    rcases hc' with ⟨hid, hnew⟩ | ⟨-, hold⟩
    · exact Or.inl ⟨key, hid, hnext, hnew⟩
    · exact Or.inr ⟨by omega, c', hold, hsame c'⟩
  · exact Or.inr ⟨hnext.ge, c', hall ▸ hc', hsame c'⟩
  · rw [hall, Table.has_modify] at hc'
    rcases hc' with ⟨rfl, c, hc, rfl⟩ | ⟨-, hold⟩
    · exact Or.inr ⟨hnext.ge, c, hc, hf c hc⟩
    · exact Or.inr ⟨hnext.ge, c', hold, hsame c'⟩

/-- A stored connection stays one. -/
theorem Effect.past (h : Effect s s') {c : Conn} (hlt : id < s.nextID) (hc : s.all.Has id c)
    (hpast : Conn.past c) : ∃ c', s'.all.Has id c' ∧ Conn.past c' := by
  rcases h.all with ⟨key, hall, -⟩ | ⟨-, hall | ⟨id', f, hall, hf⟩⟩
  · exact ⟨c, by rw [hall, Table.has_upsert]; exact Or.inr ⟨hlt.ne, hc⟩, hpast⟩
  · exact ⟨c, hall ▸ hc, hpast⟩
  · rw [hall]
    by_cases hid : id = id'
    · subst hid
      exact ⟨f c, Table.has_modify.mpr (Or.inl ⟨rfl, c, hc, rfl⟩), (hf c hc).past hpast⟩
    · exact ⟨c, Table.has_modify.mpr (Or.inr ⟨hid, hc⟩), hpast⟩

theorem Sound.not_past (h : Sound s) {c : Conn} (hc : s.all.Has id c) (hpast : ¬Conn.past c) :
    WorkerShutdown.load s id = 0 := by
  by_contra hne
  obtain ⟨c', hc', hpast'⟩ := h.past id (Nat.pos_of_ne_zero hne)
  exact hpast (hc.unique hc' ▸ hpast')

/-- What a step adds comes from the store section. -/
theorem added_store (hadm : admits s i = true) (hmem : id ∈ added s i) :
    i = .store id ∧ added s i = [id] ∧
      ∃ c, s.all.Has id c ∧ c.phase = .checked ∧ s.conns.find c.key = none := by
  cases i with
  | store id' =>
    obtain ⟨c, hc, hphase⟩ := State.at_iff.mp hadm
    rw [added] at hmem ⊢
    split at hmem
    · rename_i hfree
      obtain rfl := List.mem_singleton.mp hmem
      refine ⟨rfl, if_pos hfree, c, hc, of_decide_eq_true hphase, ?_⟩
      exact Option.isNone_iff_eq_none.mp (State.at_all hfree hc)
    · exact absurd hmem List.not_mem_nil
  | _ => exact absurd hmem List.not_mem_nil

theorem Sound.init : Sound State.init where
  fresh _ _ h := absurd h (Table.has_empty _ _)
  load _ := Nat.zero_le _
  past _ h := absurd h (lt_irrefl 0)

theorem Sound.step (h : Sound s) (hadm : admits s i = true) (hi : i ≠ .disconnectAll) :
    Sound (step maxConn s i) := by
  have heffect : Effect s (Manager.step maxConn s i) := effect_step hadm hi
  have haccount : ∀ id, WorkerShutdown.load (Manager.step maxConn s i) id +
      (removed s i).count id = WorkerShutdown.load s id + (added s i).count id := fun _ => load_step
  constructor
  case fresh =>
    intro id c' hc'
    rcases heffect.has hc' with ⟨-, rfl, hnext, -⟩ | ⟨hle, c, hc, -⟩
    · exact hnext ▸ Nat.lt_succ_self _
    · exact lt_of_lt_of_le (h.fresh id c hc) hle
  case load =>
    intro id
    have hacc := haccount id
    have hload := h.load id
    by_cases hmem : id ∈ added s i
    · obtain ⟨-, hadded, c, hc, hphase, -⟩ := added_store hadm hmem
      have hzero := h.not_past hc (by simp [Conn.past, hphase])
      rw [hadded, List.count_singleton_self] at hacc
      omega
    · rw [List.count_eq_zero.mpr hmem] at hacc
      omega
  case past =>
    intro id hpos
    have hacc := haccount id
    by_cases hmem : id ∈ added s i
    · obtain ⟨rfl, -, c, hc, -, hnone⟩ := added_store hadm hmem
      refine ⟨c.store, ?_, Or.inl rfl⟩
      simp only [Manager.step, Table.find_eq_some_iff.mpr hc, State.store, hnone]
      exact Table.has_modify.mpr (Or.inl ⟨rfl, c, hc, rfl⟩)
    · rw [List.count_eq_zero.mpr hmem] at hacc
      obtain ⟨c, hc, hpast⟩ := h.past id (by omega)
      exact heffect.past (h.fresh id c hc) hc hpast

theorem Sound.disconnectAll (maxConn : Nat) (h : Sound s) :
    Sound (Manager.step maxConn s .disconnectAll) := by
  refine ⟨h.fresh, ?_, ?_⟩
  · intro id
    rw [load_disconnectAll]
    exact h.load id
  · intro id hpos
    rw [load_disconnectAll] at hpos
    exact h.past id hpos

/-- A step that is about a connection in an earlier phase is about another one. -/
theorem other_of_at {id' : Nat} {phase : Phase} {c : Conn} (hc : s.all.Has id c)
    (hpast : Conn.past c) (hat : s.at id' (fun c => c.phase = phase) = true)
    (hl : phase ≠ .leaving) (hr : phase ≠ .returned) : id ≠ id' := by
  rintro rfl
  have hphase : c.phase = phase := of_decide_eq_true (State.at_all hat hc)
  rw [Conn.past, hphase] at hpast
  exact hpast.elim hl hr

/-- A quiet step disconnects an open connection exactly when it ends its teardown. -/
theorem closed_eq_removed {c : Conn} (hadm : admits s i = true) (hquiet : quiet s0 s i = true)
    (hopen : isOpen s0 id = true) (hc : s.all.Has id c) (hpast : Conn.past c) :
    (closedBy s i).count id = (removed s i).count id := by
  have hother : ∀ id', id ≠ id' → [id'].count id = 0 := by
    intro id' hne
    simp [hne.symm]
  cases i with
  | teardown k => rfl
  | connectorError id' | renewFailed id' =>
    refine hother id' ?_
    rintro rfl
    simp [quiet, hopen] at hquiet
  | check id' =>
    rw [closedBy]
    split
    · exact hother id' (other_of_at hc hpast hadm (by simp) (by simp))
    · rfl
  | store id' =>
    rw [closedBy]
    split
    · exact hother id' (other_of_at hc hpast hadm (by simp) (by simp))
    · rfl
  | cleanup k =>
    have hnot : id ∉ removed s (.cleanup k) := by
      intro hmem
      simp only [removed] at hmem
      split at hmem
      · rename_i id' hk
        rw [Option.mem_toList, Option.bind_eq_some_iff] at hmem
        obtain ⟨c', hc', hentry⟩ := hmem
        simp [quiet, hk, hc', hentry, hopen] at hquiet
      · exact absurd hmem List.not_mem_nil
    exact (List.count_eq_zero.mpr hnot).symm
  | _ => rfl

/-- The account of an open connection. -/
theorem account_step {c : Conn} (hadm : admits s i = true) (hquiet : quiet s0 s i = true)
    (hopen : isOpen s0 id = true) (hc : s.all.Has id c) (hpast : Conn.past c) :
    load (step maxConn s i) id + (closedBy s i).count id = load s id := by
  have hnot : id ∉ added s i := by
    intro hmem
    obtain ⟨-, -, c', hc', hphase, -⟩ := added_store hadm hmem
    rw [hc.unique hc', Conn.past, hphase] at hpast
    simp at hpast
  rw [closed_eq_removed hadm hquiet hopen hc hpast, load_step, List.count_eq_zero.mpr hnot,
    Nat.add_zero]

/-! ## The worker's steps -/

variable {w : Worker} {bg : Schedule} {q : Prop}

theorem closed_act : (w.act i).closed = w.closed ++ closedBy w.mgr i := by
  simp [Worker.closed, Worker.act]

theorem quiet_act : (w.act i).Quiet s0 ↔ w.Quiet s0 ∧ quiet s0 w.mgr i = true := by
  simp [Worker.Quiet, Worker.act, or_imp, forall_and]

theorem admits_of_allows (h : w.allows i = true) :
    admits w.mgr i = true ∧ i ≠ .disconnectAll := by
  cases i with
  | cancelAll | disconnectAll => cases h
  | teardown k => exact ⟨rfl, nofun⟩
  | _ => exact ⟨h, nofun⟩

/-- What every step of another goroutine keeps. -/
theorem pause_rule {P : Worker → Prop}
    (hact : ∀ w i, P w → admits w.mgr i = true → i ≠ .disconnectAll → P (w.act i))
    (hturn : ∀ w n, P w → P { w with turn := n }) (h : P w) : P (w.pause bg) := by
  refine hturn _ _ ?_
  generalize bg.others w.turn = steps
  induction steps generalizing w with
  | nil => exact h
  | cons i steps ih =>
    refine ih ?_
    rw [Worker.other]
    split
    · rename_i hallows
      obtain ⟨hadm, hi⟩ := admits_of_allows hallows
      exact hact w i h hadm hi
    · exact h

/-- The other goroutines touch only the manager. -/
theorem pause_frame (bg : Schedule) (w : Worker) :
    (w.pause bg).own = w.own ∧ (w.pause bg).stopSnap = w.stopSnap ∧
      (w.pause bg).calls = w.calls := by
  refine pause_rule (P := fun w' => w'.own = w.own ∧ w'.stopSnap = w.stopSnap ∧
    w'.calls = w.calls) ?_ ?_ ⟨rfl, rfl, rfl⟩
  · exact fun _ _ h _ _ => h
  · exact fun _ _ h => h

theorem pause_shutdown (h : w.mgr.shutdown = true) : (w.pause bg).mgr.shutdown = true := by
  refine pause_rule (P := fun w => w.mgr.shutdown = true) ?_ (fun _ _ h => h) h
  exact fun w i h hadm hi => (effect_step hadm hi).shutdown h

/-- The worker at any time of the shutdown: the account of the connections that were
open in `s0` is right, and `main` knows what is left to close for it.  `q` is what the
quiet steps up to an earlier time are known for. -/
structure Running (s0 : State) (q : Prop) (w : Worker) : Prop where
  sound : Sound w.mgr
  past : ∀ id, isOpen s0 id = true → ∃ c, w.mgr.all.Has id c ∧ Conn.past c
  counted : w.Quiet s0 → ∀ id, isOpen s0 id = true → load w.mgr id + w.closed.count id = 1
  mine : ∀ id, (id, true) ∈ w.mgr.teardowns → id ∈ w.own
  later : w.Quiet s0 → q

theorem Running.act (h : Running s0 q w) (hadm : admits w.mgr i = true)
    (hi : i ≠ .disconnectAll) : Running s0 q (w.act i) where
  sound := h.sound.step hadm hi
  past id hopen := by
    obtain ⟨c, hc, hpast⟩ := h.past id hopen
    exact (effect_step hadm hi).past (h.sound.fresh id c hc) hc hpast
  counted hquiet id hopen := by
    obtain ⟨hquiet, hstep⟩ := quiet_act.mp hquiet
    obtain ⟨c, hc, hpast⟩ := h.past id hopen
    have haccount : load (w.act i).mgr id + (closedBy w.mgr i).count id = load w.mgr id :=
      account_step hadm hstep hopen hc hpast
    have hcounted := h.counted hquiet id hopen
    rw [closed_act, List.count_append]
    omega
  mine id hmem := h.mine id ((effect_step hadm hi).snapshot id hmem)
  later hquiet := h.later (quiet_act.mp hquiet).1

theorem Running.pause (h : Running s0 q w) : Running s0 q (w.pause bg) :=
  pause_rule (P := Running s0 q) (fun _ _ h hadm hi => h.act hadm hi)
    (fun _ _ h => { h with }) h

/-! ## After the snapshot -/

/-- The map is empty, and no `Connect` call can store a connection any more. -/
structure Emptied (s : State) : Prop where
  conns : s.conns.rows = []
  shutdown : s.shutdown = true
  checked : ∀ id c, s.all.Has id c → c.phase ≠ .checked

theorem Emptied.step (h : Emptied s) (hadm : admits s i = true) (hi : i ≠ .disconnectAll) :
    Emptied (step maxConn s i) where
  conns := (effect_step hadm hi).conns h.conns h.checked
  shutdown := (effect_step hadm hi).shutdown h.shutdown
  checked id c' hc' hchecked := by
    rcases (effect_step hadm hi).has hc' with ⟨key, -, -, rfl⟩ | ⟨-, c, hc, hmoves⟩
    · cases hchecked
    · exact h.checked id c hc (hmoves.checked h.shutdown hchecked)

/-- The worker after the snapshot of `DisconnectAll`. -/
structure Drains (s0 : State) (q : Prop) (w : Worker) : Prop extends Running s0 q w where
  emptied : w.Quiet s0 → Emptied w.mgr
  stopSnap : w.stopSnap = true

theorem Drains.act (h : Drains s0 q w) (hadm : admits w.mgr i = true) (hi : i ≠ .disconnectAll) :
    Drains s0 q (w.act i) where
  toRunning := h.toRunning.act hadm hi
  emptied hquiet := (h.emptied (quiet_act.mp hquiet).1).step hadm hi
  stopSnap := h.stopSnap

theorem Drains.pause (h : Drains s0 q w) : Drains s0 q (w.pause bg) :=
  pause_rule (P := Drains s0 q) (fun _ _ h hadm hi => h.act hadm hi)
    (fun _ _ h => { h with }) h

theorem Drains.call (h : Drains s0 q w) (c : Call) : Drains s0 q (w.call c) := { h with }

/-- A connection has no teardown left after its teardown. -/
theorem teardown_last (maxConn : Nat) {k : Nat} (h : Sound s)
    (hk : s.teardowns.findIdx? (·.1 = id) = some k) :
    (id, true) ∉ (step maxConn s (.teardown k)).teardowns := by
  intro hmem
  obtain ⟨hlt, htask, -⟩ := List.findIdx?_eq_some_iff_getElem.mp hk
  have hid : s.teardowns[k].1 = id := of_decide_eq_true htask
  have hremoved : removed s (.teardown k) = [id] := by
    rw [removed, List.getElem?_eq_getElem hlt, Option.map_some, hid, Option.toList_some]
  have haccount : load (step maxConn s (.teardown k)) id + _ = _ := load_teardown k
  rw [hremoved, List.count_singleton_self] at haccount
  have hle := h.load id
  have hpos : 0 < ((step maxConn s (.teardown k)).teardowns.map Prod.fst).count id :=
    List.count_pos_iff.mpr (List.mem_map.mpr ⟨(id, true), hmem, rfl⟩)
  rw [load] at haccount
  omega

/-- `main` closes the next one of its connections. -/
theorem Drains.close {ids : List Nat} (h : Drains s0 q w) (hown : w.own = id :: ids) :
    Drains s0 q { w.close bg id with own := ids } := by
  have hpause : Drains s0 q (w.pause bg) := h.pause
  have hown' : (w.pause bg).own = id :: ids := (pause_frame bg w).1.trans hown
  rw [Worker.close]
  cases hk : (w.pause bg).mgr.teardowns.findIdx? (·.1 = id) with
  | none =>
    refine { hpause with mine := ?_ }
    intro id' hmem
    have hne := List.findIdx?_eq_none_iff.mp hk _ hmem
    have hmine := hpause.mine id' hmem
    rw [hown'] at hmine
    exact List.mem_of_ne_of_mem (of_decide_eq_false hne) hmine
  | some k =>
    have hact : Drains s0 q ((w.pause bg).act (.teardown k)) := hpause.act rfl nofun
    refine { hact with mine := ?_ }
    intro id' hmem
    have hmine : id' ∈ (w.pause bg).own := hact.mine id' hmem
    rw [hown'] at hmine
    refine List.mem_of_ne_of_mem ?_ hmine
    rintro rfl
    exact teardown_last (w.pause bg).maxConn hpause.sound hk hmem

theorem Drains.closeAll {ids : List Nat} (h : Drains s0 q w) (hown : w.own = ids) :
    Drains s0 q (w.closeAll bg ids) ∧ (w.closeAll bg ids).own = [] := by
  induction ids generalizing w with
  | nil => exact ⟨h, hown⟩
  | cons id ids ih => exact ih (h.close hown) rfl

theorem Drains.disconnect (h : Drains s0 q w) (hown : w.own = []) (key : ChannelKey) :
    Drains s0 q (w.disconnect bg key) ∧ (w.disconnect bg key).own = [] := by
  have hpause : Drains s0 q (w.pause bg) := h.pause
  have hown' : (w.pause bg).own = [] := (pause_frame bg w).1.trans hown
  rw [Worker.disconnect]
  cases (w.pause bg).mgr.conns.find key with
  | none => exact ⟨hpause, hown'⟩
  | some id =>
    have hact : Drains s0 q ((w.pause bg).act (.disconnect key)) := hpause.act rfl nofun
    have htaken : Drains s0 q { (w.pause bg).act (.disconnect key) with own := [id] } := by
      refine { hact with mine := ?_ }
      intro id' hmem
      exact absurd (hown' ▸ hact.mine id' hmem) List.not_mem_nil
    exact ⟨htaken.close rfl, rfl⟩

theorem Drains.handedOff (bg : Schedule) (acked : List Acked) (h : Drains s0 q w)
    (hown : w.own = []) :
    Drains s0 q (acked.foldl (Worker.handedOff bg) w) ∧
      (acked.foldl (Worker.handedOff bg) w).own = [] := by
  induction acked generalizing w with
  | nil => exact ⟨h, hown⟩
  | cons ch acked ih =>
    obtain ⟨hdrains, hnone⟩ := h.disconnect hown ch.key
    exact ih (hdrains.call _) hnone

/-- The drain, which is complete with the first answer if its steps are quiet. -/
theorem Drains.waitForHandoffs (polls : List Poll) (h : Drains s0 q w) (hown : w.own = []) :
    Drains s0 q (w.waitForHandoffs bg polls).1 ∧ (w.waitForHandoffs bg polls).1.own = [] ∧
      ((w.waitForHandoffs bg polls).1.Quiet s0 →
        ((w.waitForHandoffs bg polls).2 = none ↔ ∃ acked, some acked ∈ polls)) := by
  induction polls generalizing w q with
  | nil =>
    refine ⟨h.pause, (pause_frame bg w).1.trans hown, fun _ => ?_⟩
    simp [Worker.waitForHandoffs]
  | cons poll polls ih =>
    cases poll with
    | none =>
      obtain ⟨hdrains, hnone, hiff⟩ := ih (h.call (.listAckedHandoffs false)) hown
      refine ⟨hdrains, hnone, fun hquiet => (hiff hquiet).trans ?_⟩
      simp
    | some acked =>
      obtain ⟨hacked, hnone⟩ :=
        (h.call (.listAckedHandoffs true)).handedOff bg acked hown
      rw [Worker.waitForHandoffs]
      generalize hw1 : (acked.foldl (Worker.handedOff bg)
        (w.call (.listAckedHandoffs true))).pause bg = w1
      have hdrains : Drains s0 q w1 := hw1 ▸ hacked.pause
      have hnone1 : w1.own = [] := hw1 ▸ (pause_frame bg _).1.trans hnone
      split
      · exact ⟨hdrains, hnone1, fun _ => ⟨fun _ => ⟨acked, List.mem_cons_self⟩, fun _ => rfl⟩⟩
      · rename_i hcount
        -- Connections are left, so an earlier step was not quiet.
        obtain ⟨hrest, hnone', -⟩ := ih { hdrains with later := fun hquiet => hquiet } hnone1
        refine ⟨{ hrest with later := fun hquiet => hdrains.later (hrest.later hquiet) }, hnone',
          ?_⟩
        intro hquiet
        have hempty := (hdrains.emptied (hrest.later hquiet)).conns
        exact absurd (by rw [Worker.activeCount, hempty, List.length_nil]) hcount

/-! ## The whole shutdown -/

/-- The first `DisconnectAll`. -/
theorem Running.disconnectAll (bg : Schedule) (h : Running s0 q w) (hown : w.own = [])
    (hopen : w.stopSnap = false) :
    (w.disconnectAll bg).2 = none ∧ Drains s0 q (w.disconnectAll bg).1 ∧
      (w.disconnectAll bg).1.own = [] := by
  have hcancel : Running s0 q ((w.pause bg).act .cancelAll) := h.pause.act rfl nofun
  have hrunning : Running s0 q (((w.pause bg).act .cancelAll).pause bg) := hcancel.pause
  have hframe := pause_frame bg ((w.pause bg).act .cancelAll)
  have hnone := hframe.1.trans ((pause_frame bg w).1.trans hown)
  have hstop := hframe.2.1.trans ((pause_frame bg w).2.1.trans hopen)
  have hshut : (((w.pause bg).act .cancelAll).pause bg).mgr.shutdown = true :=
    pause_shutdown rfl
  rw [Worker.disconnectAll]
  generalize ((w.pause bg).act .cancelAll).pause bg = w1 at hrunning hnone hstop hshut
  simp only [hstop, Bool.false_eq_true, if_false, true_and]
  refine Drains.closeAll ?_ rfl
  refine ⟨⟨hrunning.sound.disconnectAll w1.maxConn, hrunning.past, ?_, ?_, ?_⟩, ?_, rfl⟩
  · intro hquiet id hid
    have hclosed : (w1.act .disconnectAll).closed = w1.closed ++ [] := closed_act
    have hcounted := hrunning.counted (quiet_act.mp hquiet).1 id hid
    have hload : load (w1.act .disconnectAll).mgr id = load w1.mgr id :=
      load_disconnectAll w1.maxConn
    rwa [← List.append_nil w1.closed, ← hclosed, ← hload] at hcounted
  · intro id hmem
    rcases List.mem_append.mp hmem with hold | hnew
    · exact absurd (hnone ▸ hrunning.mine id hold) List.not_mem_nil
    · obtain ⟨row, hrow, heq⟩ := List.mem_map.mp hnew
      refine (bg.perm _).mem_iff.mpr (List.mem_map.mpr ⟨row, (Table.mem_select.mp hrow).1, ?_⟩)
      exact congrArg Prod.fst heq
  · exact fun hquiet => hrunning.later (quiet_act.mp hquiet).1
  · intro hquiet
    have hchecked := (quiet_act.mp hquiet).2
    rw [quiet, Bool.not_eq_true', Table.any_eq_false] at hchecked
    exact ⟨rfl, hshut, fun id c hc => of_decide_eq_false (hchecked id c hc)⟩

/-- The second one closes `stopSnap` again. -/
theorem Drains.disconnectAll_panics (bg : Schedule) (h : Drains s0 q w) :
    (w.disconnectAll bg).2 = some .closeOfClosedChannel ∧
      ((w.disconnectAll bg).1.Quiet s0 → q) := by
  have hcancel : Drains s0 q ((w.pause bg).act .cancelAll) := h.pause.act rfl nofun
  have hdrains : Drains s0 q (((w.pause bg).act .cancelAll).pause bg) := hcancel.pause
  simp only [Worker.disconnectAll, hdrains.stopSnap, if_true]
  exact ⟨trivial, hdrains.later⟩

/-- A connection that was open is in no map and in no teardown in the end. -/
theorem Drains.closed_once (h : Drains s0 q w) (hown : w.own = []) (hcalm : Calm s0 w)
    (hopen : isOpen s0 id = true) : w.closed.count id = 1 := by
  have hcounted := h.counted hcalm.1 id hopen
  have hconns : (w.mgr.conns.rows.map Prod.snd).count id = 0 := by
    rw [(h.emptied hcalm.1).conns]
    rfl
  have htasks : (w.mgr.teardowns.map Prod.fst).count id = 0 := by
    rw [List.count_eq_zero, List.mem_map]
    rintro ⟨⟨id', b⟩, hmem, rfl⟩
    obtain rfl : b = true := hcalm.2 _ hmem hopen
    exact absurd (hown ▸ h.mine id' hmem) List.not_mem_nil
  rw [load, hconns, htasks] at hcounted
  omega

/-- What `main` does after the drain. -/
theorem Drains.cleanup (bg : Schedule) (answers : Answers) (drainErr : Option Nat)
    (h : Drains s0 q w) (hown : w.own = []) :
    ((w.cleanup bg drainErr answers).1.Quiet s0 → q) ∧
      (drainErr ≠ none → (w.cleanup bg drainErr answers).2 ≠ none) ∧
      (drainErr = none → Calm s0 (w.cleanup bg drainErr answers).1 →
        (w.cleanup bg drainErr answers).2 = none ∧
          (∀ id, isOpen s0 id = true → (w.cleanup bg drainErr answers).1.closed.count id = 1) ∧
          ∃ ok, Call.unassignWorkerChannels ok ∈ (w.cleanup bg drainErr answers).1.calls) := by
  cases drainErr with
  | none =>
    have hfinish : Drains s0 q (w.finish bg answers) := ((h.call _).call _).pause
    have hframe := pause_frame bg ((w.call (.unassignWorkerChannels answers.unassign)).call
      (.updateWorkerStatus .dead answers.markDead))
    refine ⟨hfinish.later, fun hne => absurd rfl hne, fun _ hcalm => ⟨rfl, ?_, ?_⟩⟩
    · exact fun id hopen => hfinish.closed_once (hframe.1.trans hown) hcalm hopen
    · refine ⟨answers.unassign, ?_⟩
      have hcalls : (w.finish bg answers).calls = _ := hframe.2.2
      rw [Worker.cleanup, hcalls]
      simp [Worker.call]
  | some remaining =>
    obtain ⟨hpanic, hlater⟩ := h.disconnectAll_panics bg
    rw [Worker.cleanup]
    generalize w.disconnectAll bg = out at hpanic hlater
    obtain ⟨w', panic⟩ := out
    obtain rfl : panic = _ := hpanic
    exact ⟨hlater, fun _ => nofun, nofun⟩

/-- The manager after these steps. -/
def after (inputs : List Input) : State := ((machine 0).exec State.init inputs).1

/-- A `Connect` call up to its look at the context. -/
def dialing (id : Nat) (key : ChannelKey) : List Input :=
  [.connect key, .prepare id true, .dial id true]

def connecting (id : Nat) (key : ChannelKey) : List Input :=
  dialing id key ++ [.check id, .store id, .finish id]

end RogiCollector.Ports.WorkerShutdown
