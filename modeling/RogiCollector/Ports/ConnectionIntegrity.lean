import Mathlib.Data.List.Perm.Subperm
import RogiCollector.Ports.ConnectionInvariant

/-!
# Integrity of the connection map

The manager's cleanups address connections by key.  They are harmless as long
as the key still belongs to the connection whose goroutine cleans up:

* a goroutine finds an error, a failed renewal or an opt-out only while the map
  holds its own connection under the key, or none, and
* `Connect` stores a connection only when no cleanup of an older connection of
  the key is under way.

The shutdown is complete if `DisconnectAll` empties the map when no `Disconnect`
call is at work and no `Connect` call is past its look at the context, and if no
dial succeeds after `Connect` has given up on it.  In every run whose steps keep
to this (`orderly`) the map has its `Integrity` in every state.

Without it a connection can be lost: the deletion by `handleErrors` of an old
connection removes the entry of a newer one.
-/

namespace RogiCollector.Ports.Manager

open Verified
open Live (ChannelKey)

/-- The step cannot meet a connection other than the one it is about, and the
shutdown overtakes nothing. -/
def orderly (s : State) : Input → Bool
  | .store id =>
    s.at id fun c => !s.cleanups.any fun task => task.2 ≠ id ∧ s.at task.2 fun c' => c'.key = c.key
  | .connectorError id | .renewFailed id | .optedOut id =>
    s.at id fun c => (s.conns.find c.key).all (· = id)
  | .lateDial _ => false
  | .disconnectAll => s.teardowns.isEmpty ∧ !s.all.any fun _ c => c.phase = .checked
  | .connect _ | .prepare .. | .dial .. | .timeout _ | .check _ | .finish _ | .disconnect _
  | .teardown _ | .cleanup _ | .cancelAll => true

/-! ## Steps -/

theorem State.at_iff {s : State} {id : Nat} {p : Conn → Bool} :
    s.at id p = true ↔ ∃ c, s.all.Has id c ∧ p c = true := by
  simp only [State.at, Option.any_eq_true, Table.find_eq_some_iff]

theorem State.at_all {s : State} {id : Nat} {p : Conn → Bool} (h : s.at id p = true) {c : Conn}
    (hc : s.all.Has id c) : p c = true := by
  obtain ⟨c', hc', hp⟩ := State.at_iff.mp h
  rwa [hc.unique hc']

section Edits

variable {maxConn : Nat} {s : State} {id : Nat}

/-- A step of `Connect` from the phase it was in, outside the map. -/
theorem Inv.advance (h : Inv maxConn s) {phase : Phase} (f : Conn → Conn)
    (hphase : ∀ c, s.all.Has id c → c.phase = phase)
    (hf : ∀ c : Conn, c.phase = phase → c.Evolves (f c))
    (hchecked : s.shutdown = true → ∀ c, (f c).phase ≠ .checked) :
    Inv maxConn (s.edit id f) :=
  h.edit f (fun c hc => hf c (hphase c hc)) fun hshut c _ hchk => absurd hchk (hchecked hshut c)

/-- A `Connect` that has not dialled gives up. -/
theorem Conn.Evolves.fail {c : Conn} (hphase : c.phase = .reserved ∨ c.phase = .prepared)
    (late : Bool) : c.Evolves { c with phase := .leaving, cancelled := true, late } := by
  refine ⟨rfl, rfl, fun hset => ⟨hset.1, rfl, hset.2.2⟩, fun hret => ?_, fun hok => ?_⟩
  · simp [hret] at hphase
  · constructor <;> grind [Conn.Ok]

theorem Inv.prepare (h : Inv maxConn s) (ok : Bool)
    (hphase : ∀ c, s.all.Has id c → c.phase = .reserved) :
    Inv maxConn (step maxConn s (.prepare id ok)) := by
  cases ok with
  | true =>
    refine h.advance _ hphase (fun c hc => ⟨rfl, rfl, fun h => h, by simp [hc], fun hok => ?_⟩)
      (by simp)
    constructor <;> grind [Conn.Ok]
  | false => exact h.advance _ hphase (fun c hc => .fail (.inl hc) c.late) (by simp)

theorem Inv.dial (h : Inv maxConn s) (ok : Bool)
    (hphase : ∀ c, s.all.Has id c → c.phase = .prepared) :
    Inv maxConn (step maxConn s (.dial id ok)) := by
  cases ok with
  | true =>
    refine h.advance _ hphase (fun c hc => ⟨rfl, rfl, fun h => h, by simp [hc], fun hok => ?_⟩)
      (by simp)
    constructor <;> grind [Conn.Ok]
  | false => exact h.advance _ hphase (fun c hc => .fail (.inr hc) c.late) (by simp)

theorem Inv.timeout (h : Inv maxConn s) (hphase : ∀ c, s.all.Has id c → c.phase = .prepared) :
    Inv maxConn (step maxConn s (.timeout id)) :=
  h.advance _ hphase (fun _ hc => .fail (.inr hc) true) (by simp)

theorem Inv.check (h : Inv maxConn s) (hphase : ∀ c, s.all.Has id c → c.phase = .dialed) :
    Inv maxConn (step maxConn s (.check id)) := by
  refine h.advance _ hphase (fun c hc => ?_) (fun hshut c => by simp [hshut])
  split
  · refine ⟨rfl, rfl, fun hset => ⟨hset.1, hset.2.1, rfl⟩, by simp [hc], fun hok => ?_⟩
    constructor <;> grind [Conn.Ok]
  · refine ⟨rfl, rfl, fun hset => hset, by simp [hc], fun hok => ?_⟩
    constructor <;> grind [Conn.Ok]

/-- The deferred functions of `Connect`. -/
theorem Inv.finish (h : Inv maxConn s) {c : Conn} (hc : s.all.Has id c)
    (hphase : c.phase = .leaving) : Inv maxConn (s.finish id c) := by
  have hopen : c.phase ≠ .returned := by simp [hphase]
  apply Inv.leave
  · apply h.edit
    · intro c' hc'
      obtain rfl := hc'.unique hc
      exact .finish hphase
    · exact fun _ _ _ hchk => Phase.noConfusion hchk
  · exact (h.conn id c hc).2.2.1 hopen
  · intro id' c' hc' hkey
    obtain ⟨c0, hc0, ⟨rfl, rfl⟩ | ⟨hne, rfl⟩⟩ := has_edit hc'
    · rfl
    · by_contra hphase'
      exact hne (h.alone id' id c' c hc0 hc hphase' hopen hkey)

/-- Tearing a connection down. -/
theorem Inv.edit_teardown (h : Inv maxConn s) (id : Nat) :
    Inv maxConn (s.edit id Conn.teardown) := by
  apply h.edit
  · exact fun c _ => Conn.Evolves.teardown c
  · exact fun _ _ _ hchk => hchk

theorem Inv.teardown (h : Inv maxConn s) (k : Nat) :
    Inv maxConn (step maxConn s (.teardown k)) := by
  simp only [step]
  cases hk : s.teardowns[k]? with
  | none => exact h
  | some task =>
    refine Inv.untask (h.edit_teardown task.1) hk ?_
    intro c' hc'
    obtain ⟨c, -, ⟨-, rfl⟩ | ⟨hne, -⟩⟩ := has_edit hc'
    · exact c.teardown_settled
    · exact absurd rfl hne

/-- The goroutine of a connection finds only this connection under its key. -/
theorem own_of_orderly (hown : s.at id (fun c => (s.conns.find c.key).all (· = id)) = true) :
    ∀ c, s.all.Has id c → ∀ id', s.conns.Has c.key id' → id' = id := by
  intro c hc id' hentry
  have hall := State.at_all hown hc
  rw [Table.find_eq_some_iff.mpr hentry] at hall
  simpa using hall

/-- A goroutine changes its connection and sets out to clean up. -/
theorem Inv.edit_push (h : Inv maxConn s) (cleaner : Cleaner) (f : Conn → Conn)
    (hhas : ∃ c, s.all.Has id c)
    (hown : ∀ c, s.all.Has id c → ∀ id', s.conns.Has c.key id' → id' = id)
    (hf : ∀ c : Conn, c.Evolves (f c))
    (hphase : ∀ c, (f c).phase = c.phase)
    (htorn : cleaner = .handler → ∀ c, (f c).settled) :
    Inv maxConn { s.edit id f with cleanups := s.cleanups ++ [(cleaner, id)] } := by
  have hedit : Inv maxConn (s.edit id f) :=
    h.edit f (fun c _ => hf c) (fun _ c _ hchk => hphase c ▸ hchk)
  refine hedit.push cleaner ?_ ?_
  · obtain ⟨c, hc⟩ := hhas
    exact (h.conn id c hc).2.1
  · intro c' hc'
    obtain ⟨c, hc, ⟨-, rfl⟩ | ⟨hne, -⟩⟩ := has_edit hc'
    · rw [(hf c).key]
      exact ⟨hown c hc, fun hhandler => htorn hhandler c⟩
    · exact absurd rfl hne

/-- The step of a cleanup on the map: by `own` it meets its own connection. -/
theorem Inv.cleanup (h : Inv maxConn s) (k : Nat) :
    Inv maxConn (step maxConn s (.cleanup k)) := by
  simp only [step]
  cases hk : s.cleanups[k]? with
  | none => exact h
  | some task =>
    obtain ⟨cleaner, id⟩ := task
    have htask : (cleaner, id) ∈ s.cleanups := List.mem_of_getElem? hk
    have hpop := h.pop k
    dsimp only
    cases hfind : s.all.find id with
    | none => exact hpop
    | some c =>
      have hc : s.all.Has id c := Table.find_eq_some_iff.mp hfind
      dsimp only
      by_cases hhandler : cleaner = .handler
      · subst hhandler
        rw [if_pos rfl]
        refine hpop.remove c.key (List.Subset.refl _) ?_ fun hdone => (h.emptied hdone).2.2.1
        intro id' c' hentry hc'
        have hmeets := (h.meets _ id htask).2
        obtain rfl := (hmeets c hc).1 id' hentry
        exact Or.inl ((hmeets c' hc').2 rfl)
      · rw [if_neg hhandler]
        exact hpop.take c.key

end Edits

/-- Every orderly step keeps the invariant. -/
theorem Inv.step {maxConn : Nat} {s : State} (h : Inv maxConn s) (i : Input)
    (hadm : admits s i = true) (hord : orderly s i = true) :
    Inv maxConn (Manager.step maxConn s i) := by
  cases i with
  | connect key => exact h.reserve key
  | prepare id ok => exact h.prepare ok fun c hc => of_decide_eq_true (State.at_all hadm hc)
  | dial id ok => exact h.dial ok fun c hc => of_decide_eq_true (State.at_all hadm hc)
  | timeout id => exact h.timeout fun c hc => of_decide_eq_true (State.at_all hadm hc)
  | lateDial id => exact absurd hord Bool.false_ne_true
  | check id => exact h.check fun c hc => of_decide_eq_true (State.at_all hadm hc)
  | store id =>
    simp only [Manager.step]
    cases hfind : s.all.find id with
    | none => exact h
    | some c =>
      have hc : s.all.Has id c := Table.find_eq_some_iff.mp hfind
      refine h.store hc (of_decide_eq_true (State.at_all hadm hc)) ?_
      intro cleaner id' c' htask hc' hkey
      have hno := State.at_all hord hc
      by_contra hne
      have hold : s.at id' (fun c'' => c''.key = c.key) = true :=
        State.at_iff.mpr ⟨c', hc', decide_eq_true hkey⟩
      simp only [Bool.not_eq_true', List.any_eq_false] at hno
      exact hno (cleaner, id') htask (decide_eq_true ⟨hne, hold⟩)
  | finish id =>
    simp only [Manager.step]
    cases hfind : s.all.find id with
    | none => exact h
    | some c =>
      have hc : s.all.Has id c := Table.find_eq_some_iff.mp hfind
      exact h.finish hc (of_decide_eq_true (State.at_all hadm hc))
  | disconnect key => exact h.take key
  | teardown k => exact h.teardown k
  | connectorError id =>
    obtain ⟨c, hc, -⟩ := State.at_iff.mp hadm
    refine h.edit_push .handler _ ⟨c, hc⟩ (own_of_orderly hord) (fun c => ?_) (fun _ => rfl)
      fun _ _ => ⟨rfl, rfl, rfl⟩
    refine ⟨rfl, rfl, fun _ => ⟨rfl, rfl, rfl⟩, fun hret => hret, fun hok => ?_⟩
    exact { hok.teardown with }
  | renewFailed id =>
    obtain ⟨c, hc, -⟩ := State.at_iff.mp hadm
    refine h.edit_push .renewal _ ⟨c, hc⟩ (own_of_orderly hord) (fun c => ?_) (fun _ => rfl)
      (by simp)
    exact ⟨rfl, rfl, fun hset => ⟨hset.1, rfl, rfl⟩, fun hret => hret,
      fun hok => { hok with dialed := fun _ => Or.inl rfl }⟩
  | optedOut id =>
    obtain ⟨c, hc, -⟩ := State.at_iff.mp hadm
    exact h.edit_push .forward _ ⟨c, hc⟩ (own_of_orderly hord)
      (fun c => ⟨rfl, rfl, fun hset => hset, fun hret => hret, fun hok => { hok with }⟩)
      (fun _ => rfl) (by simp)
  | cleanup k => exact h.cleanup k
  | cancelAll =>
    refine { h with emptied := ?_ }
    intro hemptied
    exact ⟨rfl, (h.emptied hemptied).2⟩
  | disconnectAll =>
    obtain ⟨hidle, hphase⟩ := of_decide_eq_true hord
    refine h.disconnectAll (of_decide_eq_true hadm).1 (List.isEmpty_iff.mp hidle) ?_
    intro id c hc hchk
    rw [Bool.not_eq_true', Table.any_eq_false] at hphase
    exact of_decide_eq_false (hphase id c hc) hchk

/-! ## Integrity -/

section Integrity

variable {maxConn : Nat} {s : State}

theorem State.live_iff {id : Nat} {c : Conn} :
    s.live id c = true ↔ c.stored = true ∧ c.cancelled = false ∧ c.disconnected = false ∧
      s.shutdown = false ∧ ∀ b, (id, b) ∉ s.teardowns := by
  have hnone : (s.teardowns.any fun task => task.1 = id) = false ↔
      ∀ b, (id, b) ∉ s.teardowns := by
    rw [List.any_eq_false]
    constructor
    · exact fun hno b hmem => hno (id, b) hmem (decide_eq_true rfl)
    · rintro hno ⟨id', b⟩ hmem hid
      exact hno b (of_decide_eq_true hid ▸ hmem)
  simp only [State.live, decide_eq_true_eq, Bool.not_eq_true', hnone]

/-- A live connection can only be in the map. -/
theorem Inv.reach (h : Inv maxConn s) {id : Nat} {c : Conn} (hc : s.all.Has id c)
    (hlive : s.live id c = true) : s.conns.Has c.key id := by
  obtain ⟨hstored, hcancelled, -, -, htask⟩ := State.live_iff.mp hlive
  rcases (h.conn id c hc).2.2.2 hstored with hsettled | hentry | ⟨b, hmem⟩
  · rw [hsettled.2.1] at hcancelled
    contradiction
  · exact hentry
  · exact absurd hmem (htask b)

/-- There are no more live connections than entries. -/
theorem Inv.live_le (h : Inv maxConn s) :
    (s.all.select s.live).length ≤ s.conns.keys.length := by
  have hsub : (s.all.select s.live).map Prod.fst ⊆ s.conns.rows.map Prod.snd := by
    intro id hid
    obtain ⟨⟨id, c⟩, hrow, rfl⟩ := List.mem_map.mp hid
    obtain ⟨hc, hlive⟩ := Table.mem_select.mp hrow
    exact List.mem_map.mpr ⟨(c.key, id), h.reach hc hlive, rfl⟩
  have hle := ((s.all.nodup_select_keys s.live).subperm hsub).length_le
  simpa [Table.keys] using hle

theorem Inv.integrity (h : Inv maxConn s) : Integrity maxConn s where
  reach id c hc hlive := h.reach hc hlive
  single id id' c c' hc hc' hlive hlive' hkey :=
    (hkey ▸ h.reach hc hlive).unique (h.reach hc' hlive')
  bound hmax := by
    calc
      _ ≤ s.conns.keys.length := h.live_le
      _ = s.conns.keys.toFinset.card := (List.toFinset_card_of_nodup s.conns.nodup_keys).symm
      _ ≤ (s.conns.keys.toFinset ∪ s.connecting.toFinset).card :=
        Finset.card_le_card Finset.subset_union_left
      _ ≤ maxConn := h.bound hmax
  own cleaner id c htask hc := ((h.meets cleaner id htask).2 c hc).1
  once id c hc := by
    rw [(h.conn id c hc).1.releases]
    split <;> simp
  released id c hc hprepared := by
    obtain ⟨hok, -, -, hplaced⟩ := h.conn id c hc
    have hdone : c.once = true → c.releases = 1 := fun honce => by rw [hok.releases, if_pos honce]
    by_cases hphase : c.phase = .returned
    · cases hstored : c.stored with
      | true =>
        rcases hplaced hstored with hsettled | hrest
        · exact Or.inl (hdone hsettled.1)
        · exact Or.inr (Or.inr hrest)
      | false => exact Or.inl (hdone (hok.released hprepared hstored hphase))
    · exact Or.inr (Or.inl hphase)
  shutdown hclosed := by
    obtain ⟨hemptied, htasks, hreturned⟩ := hclosed
    obtain ⟨-, hconns, hfalse, -⟩ := h.emptied hemptied
    refine ⟨hconns, ?_⟩
    intro id c hc hdialed
    have hphase := hreturned id c hc
    obtain ⟨hok, -, -, hplaced⟩ := h.conn id c hc
    rcases hok.dialed hdialed with hdone | hdial | hchk | hstored
    · exact hdone
    · simp [hphase] at hdial
    · simp [hphase] at hchk
    · rcases hplaced hstored with hsettled | hentry | ⟨b, htask⟩
      · exact hsettled.2.2
      · exact absurd hentry (hconns c.key id)
      · cases b with
        | true => exact absurd htask (htasks id)
        | false => exact absurd htask (hfalse id)

end Integrity

/-- In every run whose steps are orderly, the connection map has its integrity
in every state. -/
theorem integrity_kept (maxConn : Nat) (tr : List (Input × Unit)) (s : State)
    (hrun : ((machine maxConn).restrict fun s i => orderly s i = true).Run State.init tr s) :
    Integrity maxConn s := by
  have hinv : Inv maxConn s := by
    refine hrun.invariant ?_ (Inv.init maxConn)
    intro s i h hadm
    exact h.step i hadm.1 hadm.2
  exact hinv.integrity

/-- A worker with one channel: it connects, loses the connection to an error,
connects again and shuts down. -/
def fixtureKey : ChannelKey := ⟨.soop, "one"⟩

def orderlyInputs : List Input :=
  [.connect fixtureKey, .prepare 0 true, .dial 0 true, .check 0, .store 0, .finish 0,
    .connectorError 0, .cleanup 0,
    .connect fixtureKey, .prepare 1 true, .dial 1 true, .check 1, .store 1, .finish 1,
    .cancelAll, .disconnectAll, .teardown 0]

theorem integrity_kept_orderlyInputs :
    ∃ tr s, ((machine 1).restrict fun s i => orderly s i = true).Run State.init tr s ∧
      s.closed ∧ Integrity 1 s := by
  have hrun := Machine.run_exec (M := (machine 1).restrict fun s i => orderly s i = true)
    State.init orderlyInputs (by decide)
  refine ⟨_, _, hrun, ⟨by decide, ?_, ?_⟩, integrity_kept 1 _ _ hrun⟩
  · have hdone : (((machine 1).restrict fun s i => orderly s i = true).exec State.init
        orderlyInputs).1.teardowns = [] := by
      decide
    simp [hdone]
  · have hreturned : ((((machine 1).restrict fun s i => orderly s i = true).exec State.init
        orderlyInputs).1.all.any fun _ c => c.phase ≠ .returned) = false := by
      decide
    intro id c hc
    simpa using Table.any_eq_false.mp hreturned id c hc

/-- The error handler of connection 0 has torn it down when a `Disconnect` of
the channel takes it out of the map.  The channel is connected again before the
handler gets to its deletion, which removes connection 1: it is live, and no
`Disconnect` reaches it. -/
def newerInputs : List Input :=
  [.connect fixtureKey, .prepare 0 true, .dial 0 true, .check 0, .store 0, .finish 0,
    .connectorError 0, .disconnect fixtureKey, .teardown 0,
    .connect fixtureKey, .prepare 1 true, .dial 1 true, .check 1, .store 1, .finish 1,
    .cleanup 0]

theorem handler_deletes_newer :
    ∃ tr s, (machine 1).Run State.init tr s ∧ ¬Integrity 1 s := by
  refine ⟨_, _, Machine.run_exec State.init newerInputs (by decide), ?_⟩
  intro h
  have hlost : ((machine 1).exec State.init newerInputs).1.at 1 (fun c =>
      ((machine 1).exec State.init newerInputs).1.live 1 c ∧ c.key = fixtureKey) = true := by
    decide
  obtain ⟨c, hc, hlive⟩ := State.at_iff.mp hlost
  obtain ⟨hlive, hkey⟩ := of_decide_eq_true hlive
  have hentry := Table.find_eq_some_iff.mpr (h.reach 1 c hc hlive)
  rw [hkey] at hentry
  revert hentry
  decide

end RogiCollector.Ports.Manager
