import Mathlib.Data.Finset.Card
import RogiCollector.Ports.ConnectionMap

/-!
# The invariant of the connection map

What holds of the manager in every state of a run in which no cleanup meets a
newer connection (`ConnectionIntegrity`): where a stored connection can be,
which connection a cleanup can meet, and what the reservations count.

The lemmas follow the parts of a step: an edit of one connection, an entry that
comes or goes, a cleanup or a teardown that starts or ends.

## Main definitions

* `Conn.Ok` — a single connection.
* `Inv` — the manager.
-/

namespace RogiCollector.Ports.Manager

open Verified
open Live (ChannelKey)

/-! ## Single connections -/

/-- Everything a teardown does has been done. -/
def Conn.settled (c : Conn) : Prop :=
  c.once = true ∧ c.cancelled = true ∧ c.disconnected = true

/-- What holds of a connection at every point of its life. -/
structure Conn.Ok (c : Conn) : Prop where
  stored : c.stored = true → c.phase = .leaving ∨ c.phase = .returned
  releases : c.releases = if c.once then 1 else 0
  released : c.prepared = true → c.stored = false → c.phase = .returned → c.once = true
  dialed : c.dialed = true → c.disconnected = true ∨ c.phase = .dialed ∨ c.phase = .checked ∨
    c.stored = true

theorem Conn.Ok.new (key : ChannelKey) : (Conn.new key).Ok where
  stored h := by simp [Conn.new] at h
  releases := rfl
  released h := by simp [Conn.new] at h
  dialed h := by simp [Conn.new] at h

variable {c : Conn}

theorem Conn.Ok.release (h : c.Ok) : c.release.Ok where
  stored := h.stored
  releases := by
    have hr := h.releases
    cases ho : c.once <;> simp_all [Conn.release]
  released _ _ _ := rfl
  dialed := h.dialed

theorem Conn.Ok.teardown (h : c.Ok) : c.teardown.Ok where
  stored := h.release.stored
  releases := h.release.releases
  released := h.release.released
  dialed _ := Or.inl rfl

theorem Conn.Ok.store (h : c.Ok) : c.store.Ok where
  stored _ := Or.inl rfl
  releases := h.releases
  released _ hstored := by simp [Conn.store] at hstored
  dialed _ := Or.inr (Or.inr (Or.inr rfl))

/-- `Connect` leaves nothing behind that it has not stored. -/
theorem Conn.Ok.finish (h : c.Ok) (hphase : c.phase = .leaving) : c.finish.Ok := by
  unfold Conn.finish
  split
  · constructor <;> grind [Conn.Ok, Conn.release]
  · constructor <;> grind [Conn.Ok]

theorem Conn.teardown_settled (c : Conn) : c.teardown.settled := ⟨rfl, rfl, rfl⟩

/-- A change of a connection that moves it neither into the map nor out of a
teardown or a finished call. -/
structure Conn.Evolves (c c' : Conn) : Prop where
  key : c'.key = c.key
  stored : c'.stored = c.stored
  settled : c.settled → c'.settled
  returned : c.phase = .returned → c'.phase = .returned
  ok : c.Ok → c'.Ok

/-! ## The invariant -/

structure Inv (maxConn : Nat) (s : State) : Prop where
  /-- A stored connection is in the map, on its way out, or done with. -/
  conn : ∀ id c, s.all.Has id c → c.Ok ∧ id < s.nextID ∧
    (c.phase ≠ .returned → c.key ∈ s.connecting) ∧
    (c.stored = true → c.settled ∨ s.conns.Has c.key id ∨ ∃ b, (id, b) ∈ s.teardowns)
  entry : ∀ key id, s.conns.Has key id → ∃ c, s.all.Has id c ∧ c.key = key ∧ c.stored = true
  /-- The error handler tears down before it deletes. -/
  meets : ∀ cleaner id, (cleaner, id) ∈ s.cleanups → id < s.nextID ∧
    ∀ c, s.all.Has id c → (∀ id', s.conns.Has c.key id' → id' = id) ∧
      (cleaner = .handler → c.settled)
  alone : ∀ id id' c c', s.all.Has id c → s.all.Has id' c' → c.phase ≠ .returned →
    c'.phase ≠ .returned → c.key = c'.key → id = id'
  dialing : s.dialing = s.connecting.length
  nodup : s.connecting.Nodup
  bound : 0 < maxConn → (s.conns.keys.toFinset ∪ s.connecting.toFinset).card ≤ maxConn
  emptied : s.emptied = true → s.shutdown = true ∧ (∀ key id, ¬s.conns.Has key id) ∧
    (∀ id, (id, false) ∉ s.teardowns) ∧ ∀ id c, s.all.Has id c → c.phase ≠ .checked

theorem Inv.init (maxConn : Nat) : Inv maxConn State.init where
  conn _ _ h := absurd h (Table.has_empty _ _)
  entry _ _ h := absurd h (Table.has_empty _ _)
  meets _ _ h := absurd h List.not_mem_nil
  alone _ _ _ _ h := absurd h (Table.has_empty _ _)
  dialing := rfl
  nodup := List.nodup_nil
  bound _ := Nat.zero_le _
  emptied h := by simp [State.init] at h

theorem Conn.Evolves.refl (c : Conn) : c.Evolves c :=
  ⟨rfl, rfl, fun h => h, fun h => h, fun h => h⟩

theorem Conn.Evolves.teardown (c : Conn) : c.Evolves c.teardown :=
  ⟨rfl, rfl, fun _ => c.teardown_settled, fun h => h, Conn.Ok.teardown⟩

theorem Conn.Evolves.finish (hphase : c.phase = .leaving) : c.Evolves c.finish := by
  refine ⟨?_, ?_, ?_, fun _ => rfl, fun h => h.finish hphase⟩
  all_goals
    unfold Conn.finish
    split
  · rfl
  · rfl
  · rfl
  · rfl
  · exact fun h => ⟨rfl, h.2⟩
  · exact fun h => h

section Step

variable {maxConn : Nat} {s : State} {id : Nat}

variable {f : Conn → Conn} {id' : Nat}

/-- A connection after an edit comes from one before. -/
theorem has_edit {c' : Conn} (h : (s.edit id f).all.Has id' c') :
    ∃ c, s.all.Has id' c ∧ (id' = id ∧ c' = f c ∨ id' ≠ id ∧ c' = c) := by
  rcases Table.has_modify.mp h with ⟨rfl, c, hc, rfl⟩ | ⟨hne, hc⟩
  · exact ⟨c, hc, Or.inl ⟨rfl, rfl⟩⟩
  · exact ⟨c', hc, Or.inr ⟨hne, rfl⟩⟩

theorem edit_has (h : s.all.Has id' c) :
    (s.edit id f).all.Has id' (if id' = id then f c else c) := by
  by_cases hid : id' = id
  · rw [if_pos hid]
    exact Table.has_modify.mpr (Or.inl ⟨hid, c, hid ▸ h, rfl⟩)
  · rw [if_neg hid]
    exact Table.has_modify.mpr (Or.inr ⟨hid, h⟩)

/-- The one argument behind every edit: connections before and after it
correspond. -/
theorem edit_evolves (hf : ∀ c, s.all.Has id c → c.Evolves (f c)) {c' : Conn}
    (h : (s.edit id f).all.Has id' c') :
    ∃ c, s.all.Has id' c ∧ c.Evolves c' := by
  obtain ⟨c, hc, ⟨rfl, rfl⟩ | ⟨-, rfl⟩⟩ := has_edit h
  · exact ⟨c, hc, hf c hc⟩
  · exact ⟨c', hc, Conn.Evolves.refl c'⟩

/-- An edit of one connection. -/
theorem Inv.edit (h : Inv maxConn s) (f : Conn → Conn)
    (hf : ∀ c, s.all.Has id c → c.Evolves (f c))
    (hchecked : s.shutdown = true → ∀ c, s.all.Has id c → (f c).phase = .checked →
      c.phase = .checked) :
    Inv maxConn (s.edit id f) := by
  refine
    { h with
      conn := ?conn
      entry := ?entry
      meets := ?meets
      alone := ?alone
      emptied := ?emptied }
  case conn =>
    intro id' c' hc'
    obtain ⟨c, hc, hev⟩ := edit_evolves hf hc'
    obtain ⟨hok, hfresh, hreserved, hplaced⟩ := h.conn id' c hc
    rw [hev.key, hev.stored]
    exact ⟨hev.ok hok, hfresh, fun hphase => hreserved (mt hev.returned hphase),
      fun hstored => (hplaced hstored).imp_left hev.settled⟩
  case entry =>
    intro key id' hentry
    obtain ⟨c, hc, rfl, hstored⟩ := h.entry key id' hentry
    refine ⟨_, edit_has hc, ?_⟩
    by_cases hid : id' = id
    · rw [if_pos hid]
      have hev := hf c (hid ▸ hc)
      exact ⟨hev.key, hev.stored.trans hstored⟩
    · rw [if_neg hid]
      exact ⟨rfl, hstored⟩
  case meets =>
    intro cleaner id' htask
    obtain ⟨hknown, hold⟩ := h.meets cleaner id' htask
    refine ⟨hknown, ?_⟩
    intro c' hc'
    obtain ⟨c, hc, hev⟩ := edit_evolves hf hc'
    rw [hev.key]
    exact ⟨(hold c hc).1, fun hhandler => hev.settled ((hold c hc).2 hhandler)⟩
  case alone =>
    intro id1 id2 c1' c2' hc1' hc2' hphase1 hphase2 hkey
    obtain ⟨c1, hc1, hev1⟩ := edit_evolves hf hc1'
    obtain ⟨c2, hc2, hev2⟩ := edit_evolves hf hc2'
    rw [hev1.key, hev2.key] at hkey
    exact h.alone id1 id2 c1 c2 hc1 hc2 (mt hev1.returned hphase1) (mt hev2.returned hphase2) hkey
  case emptied =>
    intro hemptied
    obtain ⟨hshut, hconns, htasks, hphase⟩ := h.emptied hemptied
    refine ⟨hshut, hconns, htasks, ?_⟩
    intro id' c' hc' hchk
    obtain ⟨c, hc, ⟨rfl, rfl⟩ | ⟨-, rfl⟩⟩ := has_edit hc'
    · exact hphase _ c hc (hchecked hshut c hc hchk)
    · exact hphase id' c' hc hchk

/-- A goroutine sets out to clean up after its connection. -/
theorem Inv.push (h : Inv maxConn s) (cleaner : Cleaner) (hknown : id < s.nextID)
    (hnew : ∀ c, s.all.Has id c → (∀ id', s.conns.Has c.key id' → id' = id) ∧
      (cleaner = .handler → c.settled)) :
    Inv maxConn { s with cleanups := s.cleanups ++ [(cleaner, id)] } := by
  refine { h with meets := ?_ }
  intro cleaner' id' htask
  rcases List.mem_append.mp htask with hold | hhere
  · exact h.meets cleaner' id' hold
  · obtain ⟨rfl, rfl⟩ := Prod.mk.injEq .. ▸ List.mem_singleton.mp hhere
    exact ⟨hknown, hnew⟩

/-- Its step on the map has come. -/
theorem Inv.pop (h : Inv maxConn s) (k : Nat) :
    Inv maxConn { s with cleanups := s.cleanups.eraseIdx k } where
  __ := h
  meets cleaner id htask := h.meets cleaner id (List.mem_of_mem_eraseIdx htask)

/-- An entry leaves the map: its connection is torn down, or will be. -/
theorem Inv.remove (h : Inv maxConn s) (key : ChannelKey) {tasks : List (Nat × Bool)}
    (hold : s.teardowns ⊆ tasks)
    (hgone : ∀ id c, s.conns.Has key id → s.all.Has id c → c.settled ∨ ∃ b, (id, b) ∈ tasks)
    (hemptied : s.emptied = true → ∀ id, (id, false) ∉ tasks) :
    Inv maxConn
      { s with conns := s.conns.delete fun key' _ => key' = key, teardowns := tasks } := by
  refine
    { h with
      conn := ?conn
      entry := ?entry
      meets := ?meets
      bound := ?bound
      emptied := ?emptied }
  case conn =>
    intro id c hc
    obtain ⟨hok, hfresh, hreserved, hplaced⟩ := h.conn id c hc
    refine ⟨hok, hfresh, hreserved, fun hstored => ?_⟩
    rcases hplaced hstored with hsettled | hentry | ⟨b, htask⟩
    · exact Or.inl hsettled
    · by_cases hk : c.key = key
      · exact (hgone id c (hk ▸ hentry) hc).imp_right Or.inr
      · exact Or.inr (Or.inl (Table.has_delete.mpr ⟨hentry, decide_eq_false hk⟩))
    · exact Or.inr (Or.inr ⟨b, hold htask⟩)
  case entry =>
    intro key' id hentry
    exact h.entry key' id (Table.has_delete.mp hentry).1
  case meets =>
    intro cleaner id htask
    obtain ⟨hknown, hmeets⟩ := h.meets cleaner id htask
    refine ⟨hknown, fun c hc => ⟨fun id' hentry => ?_, (hmeets c hc).2⟩⟩
    exact (hmeets c hc).1 id' (Table.has_delete.mp hentry).1
  case bound =>
    intro hmax
    refine le_trans (Finset.card_le_card ?_) (h.bound hmax)
    apply Finset.union_subset_union_left
    intro key' hkey'
    simp only [List.mem_toFinset, Table.mem_keys, Table.has_delete] at hkey' ⊢
    obtain ⟨id, hentry, -⟩ := hkey'
    exact ⟨id, hentry⟩
  case emptied =>
    intro hdone
    obtain ⟨hshut, hconns, -, hphase⟩ := h.emptied hdone
    refine ⟨hshut, ?_, hemptied hdone, hphase⟩
    intro key' id hentry
    exact hconns key' id (Table.has_delete.mp hentry).1

/-- `Disconnect` takes an entry. -/
theorem Inv.take (h : Inv maxConn s) (key : ChannelKey) : Inv maxConn (s.take key) := by
  unfold State.take
  cases hfind : s.conns.find key with
  | none => exact h
  | some id =>
    have hid : s.conns.Has key id := Table.find_eq_some_iff.mp hfind
    refine h.remove key (List.subset_append_left _ _) ?_ ?_
    · intro id' c hentry _
      obtain rfl := hentry.unique hid
      exact Or.inr ⟨false, List.mem_append_right _ (List.mem_singleton.mpr rfl)⟩
    · intro hdone
      exact absurd hid ((h.emptied hdone).2.1 key id)

/-- The teardown of a connection is over. -/
theorem Inv.untask (h : Inv maxConn s) {k : Nat} {b : Bool} (hk : s.teardowns[k]? = some (id, b))
    (hsettled : ∀ c, s.all.Has id c → c.settled) :
    Inv maxConn { s with teardowns := s.teardowns.eraseIdx k } := by
  refine
    { h with
      conn := ?conn
      emptied := ?emptied }
  case conn =>
    intro id' c hc
    obtain ⟨hok, hfresh, hreserved, hplaced⟩ := h.conn id' c hc
    refine ⟨hok, hfresh, hreserved, fun hstored => ?_⟩
    rcases hplaced hstored with hset | hentry | ⟨b', htask⟩
    · exact Or.inl hset
    · exact Or.inr (Or.inl hentry)
    · by_cases hid : id' = id
      · exact Or.inl (hsettled c (hid ▸ hc))
      · have hkept : (id', b') ∈ s.teardowns.eraseIdx k := by
          rw [List.mem_eraseIdx_iff_getElem?]
          obtain ⟨j, hj⟩ := List.getElem?_of_mem htask
          refine ⟨j, ?_, hj⟩
          rintro rfl
          rw [hk] at hj
          exact hid (Prod.mk.inj (Option.some.inj hj)).1.symm
        exact Or.inr (Or.inr ⟨b', hkept⟩)
  case emptied =>
    intro hemptied
    obtain ⟨hshut, hconns, htasks, hphase⟩ := h.emptied hemptied
    exact ⟨hshut, hconns, fun id' htask => htasks id' (List.mem_of_mem_eraseIdx htask), hphase⟩

/-- `Connect` gives its reservation back. -/
theorem Inv.leave (h : Inv maxConn s) {key : ChannelKey} (hkey : key ∈ s.connecting)
    (hgone : ∀ id c, s.all.Has id c → c.key = key → c.phase = .returned) :
    Inv maxConn { s with connecting := s.connecting.erase key, dialing := s.dialing - 1 } := by
  refine
    { h with
      conn := ?conn
      dialing := ?dialing
      nodup := ?nodup
      bound := ?bound }
  case conn =>
    intro id c hc
    obtain ⟨hok, hfresh, hreserved, hplaced⟩ := h.conn id c hc
    refine ⟨hok, hfresh, fun hphase => ?_, hplaced⟩
    have hne : c.key ≠ key := fun heq => hphase (hgone id c hc heq)
    exact (List.mem_erase_of_ne hne).mpr (hreserved hphase)
  case dialing => exact (congrArg (· - 1) h.dialing).trans (List.length_erase_of_mem hkey).symm
  case nodup => exact h.nodup.erase key
  case bound =>
    intro hmax
    refine le_trans (Finset.card_le_card ?_) (h.bound hmax)
    apply Finset.union_subset_union_right
    intro key' hkey'
    rw [List.mem_toFinset] at hkey' ⊢
    exact List.mem_of_mem_erase hkey'

/-- A key is reserved. -/
theorem Inv.reserve (h : Inv maxConn s) (key : ChannelKey) :
    Inv maxConn (s.reserve maxConn key) := by
  unfold State.reserve
  by_cases htaken : (s.conns.find key).isSome ∨ key ∈ s.connecting
  · rwa [if_pos htaken]
  rw [if_neg htaken]
  by_cases hfull : 0 < maxConn ∧ maxConn ≤ s.conns.keys.length + s.dialing
  · rwa [if_pos hfull]
  rw [if_neg hfull]
  have hnew : key ∉ s.connecting := fun hmem => htaken (Or.inr hmem)
  -- A connection is the new one or an old one, with a smaller number.
  have hall : ∀ id c, (s.all.upsert s.nextID (Conn.new key)).Has id c →
      id = s.nextID ∧ c = Conn.new key ∨ id < s.nextID ∧ s.all.Has id c := by
    intro id c hc
    rcases Table.has_upsert.mp hc with hhere | ⟨-, hold⟩
    · exact Or.inl hhere
    · exact Or.inr ⟨(h.conn id c hold).2.1, hold⟩
  constructor
  case conn =>
    intro id c hc
    rcases hall id c hc with ⟨rfl, rfl⟩ | ⟨hlt, hold⟩
    · exact ⟨Conn.Ok.new key, Nat.lt_succ_self _, fun _ => List.mem_cons_self, nofun⟩
    · obtain ⟨hok, -, hreserved, hplaced⟩ := h.conn id c hold
      exact ⟨hok, Nat.lt_succ_of_lt hlt, fun hphase => List.mem_cons_of_mem _ (hreserved hphase),
        hplaced⟩
  case entry =>
    intro key' id hentry
    obtain ⟨c, hc, hrest⟩ := h.entry key' id hentry
    exact ⟨c, Table.has_upsert.mpr (Or.inr ⟨(h.conn id c hc).2.1.ne, hc⟩), hrest⟩
  case meets =>
    intro cleaner id htask
    obtain ⟨hknown, hmeets⟩ := h.meets cleaner id htask
    refine ⟨Nat.lt_succ_of_lt hknown, fun c hc => ?_⟩
    rcases hall id c hc with ⟨rfl, -⟩ | ⟨-, hold⟩
    · exact absurd hknown (lt_irrefl _)
    · exact hmeets c hold
  case alone =>
    intro id1 id2 c1 c2 hc1 hc2 hphase1 hphase2 hkey
    rcases hall id1 c1 hc1 with ⟨rfl, rfl⟩ | ⟨-, hold1⟩ <;>
      rcases hall id2 c2 hc2 with ⟨rfl, rfl⟩ | ⟨-, hold2⟩
    · rfl
    · exact absurd ((h.conn id2 c2 hold2).2.2.1 hphase2) (hkey ▸ hnew)
    · exact absurd ((h.conn id1 c1 hold1).2.2.1 hphase1) (hkey ▸ hnew)
    · exact h.alone id1 id2 c1 c2 hold1 hold2 hphase1 hphase2 hkey
  case dialing => exact congrArg (· + 1) h.dialing
  case nodup => exact List.nodup_cons.mpr ⟨hnew, h.nodup⟩
  case bound =>
    intro hmax
    have hroom : s.conns.keys.length + s.dialing < maxConn := by
      by_contra hge
      exact hfull ⟨hmax, Nat.le_of_not_lt hge⟩
    rw [h.dialing] at hroom
    calc
      _ ≤ s.conns.keys.toFinset.card + (key :: s.connecting).toFinset.card :=
        Finset.card_union_le _ _
      _ ≤ s.conns.keys.length + (key :: s.connecting).length :=
        Nat.add_le_add (List.toFinset_card_le _) (List.toFinset_card_le _)
      _ ≤ maxConn := hroom
  case emptied =>
    intro hemptied
    obtain ⟨hshut, hconns, htasks, hphase⟩ := h.emptied hemptied
    refine ⟨hshut, hconns, htasks, ?_⟩
    intro id c hc
    rcases hall id c hc with ⟨-, rfl⟩ | ⟨-, hold⟩
    · exact Phase.noConfusion
    · exact hphase id c hold

/-- The store section of `Connect`. -/
theorem Inv.store (h : Inv maxConn s) (hc : s.all.Has id c) (hphase : c.phase = .checked)
    (hclean : ∀ cleaner id' c', (cleaner, id') ∈ s.cleanups → s.all.Has id' c' → c'.key = c.key →
      id' = id) :
    Inv maxConn (s.store id c) := by
  unfold State.store
  by_cases hsome : (s.conns.find c.key).isSome
  · rw [if_pos hsome]
    apply h.edit
    · intro c' hc'
      obtain rfl := hc'.unique hc
      refine ⟨rfl, rfl, fun hset => ⟨hset.1, rfl, rfl⟩, fun hret => by simp [hphase] at hret, ?_⟩
      exact fun hok => ⟨fun _ => Or.inl rfl, hok.releases, nofun, fun _ => Or.inl rfl⟩
    · exact fun _ _ _ hchk => Phase.noConfusion hchk
  rw [if_neg hsome]
  have hnone : ∀ id', ¬s.conns.Has c.key id' := by
    rw [← Table.find_eq_none_iff]
    exact Option.not_isSome_iff_eq_none.mp hsome
  have hopen : c.phase ≠ .returned := by simp [hphase]
  obtain ⟨hok, hfresh, hreserved, -⟩ := h.conn id c hc
  -- A connection is the one that is stored or has not changed.
  have hnew : (s.edit id Conn.store).all.Has id c.store :=
    Table.has_modify.mpr (Or.inl ⟨rfl, c, hc, rfl⟩)
  have hall : ∀ id' c', (s.edit id Conn.store).all.Has id' c' →
      id' = id ∧ c' = c.store ∨ id' ≠ id ∧ s.all.Has id' c' := by
    intro id' c' hc'
    rcases Table.has_modify.mp hc' with ⟨rfl, c0, hc0, rfl⟩ | hother
    · exact Or.inl ⟨rfl, by rw [hc0.unique hc]⟩
    · exact Or.inr hother
  have hentries : ∀ key id', (s.conns.upsert c.key id).Has key id' →
      key = c.key ∧ id' = id ∨ s.conns.Has key id' := by
    intro key id' hentry
    exact (Table.has_upsert.mp hentry).imp_right And.right
  have hkept : ∀ key id', s.conns.Has key id' → (s.conns.upsert c.key id).Has key id' := by
    intro key id' hentry
    have hne : key ≠ c.key := fun heq => hnone id' (heq ▸ hentry)
    exact Table.has_upsert.mpr (Or.inr ⟨hne, hentry⟩)
  refine
    { h with
      conn := ?conn
      entry := ?entry
      meets := ?meets
      alone := ?alone
      bound := ?bound
      emptied := ?emptied }
  case conn =>
    intro id' c' hc'
    rcases hall id' c' hc' with ⟨rfl, rfl⟩ | ⟨-, hold⟩
    · refine ⟨hok.store, hfresh, fun _ => hreserved hopen, fun _ => Or.inr (Or.inl ?_)⟩
      exact Table.has_upsert.mpr (Or.inl ⟨rfl, rfl⟩)
    · obtain ⟨hok', hfresh', hreserved', hplaced'⟩ := h.conn id' c' hold
      exact ⟨hok', hfresh', hreserved', fun hstored =>
        (hplaced' hstored).imp_right (Or.imp_left (hkept c'.key id'))⟩
  case entry =>
    intro key id' hentry
    rcases hentries key id' hentry with ⟨rfl, rfl⟩ | hold
    · exact ⟨c.store, hnew, rfl, rfl⟩
    · obtain ⟨c', hc', hkey, hstored⟩ := h.entry key id' hold
      by_cases hid : id' = id
      · obtain rfl := (hid ▸ hc').unique hc
        exact ⟨c'.store, hid ▸ hnew, hkey, rfl⟩
      · exact ⟨c', Table.has_modify.mpr (Or.inr ⟨hid, hc'⟩), hkey, hstored⟩
  case meets =>
    intro cleaner id' htask
    obtain ⟨hknown, hmeets⟩ := h.meets cleaner id' htask
    refine ⟨hknown, fun c' hc' => ?_⟩
    rcases hall id' c' hc' with ⟨rfl, rfl⟩ | ⟨hne, hold⟩
    · refine ⟨fun id'' hentry => ?_, (hmeets c hc).2⟩
      rcases hentries _ id'' hentry with ⟨-, rfl⟩ | hentry'
      · rfl
      · exact absurd hentry' (hnone id'')
    · refine ⟨fun id'' hentry => ?_, (hmeets c' hold).2⟩
      rcases hentries _ id'' hentry with ⟨hkey, rfl⟩ | hentry'
      · exact (hclean cleaner id' c' htask hold hkey).symm
      · exact (hmeets c' hold).1 id'' hentry'
  case alone =>
    intro id1 id2 c1 c2 hc1 hc2 hphase1 hphase2 hkey
    rcases hall id1 c1 hc1 with ⟨rfl, rfl⟩ | ⟨-, hold1⟩ <;>
      rcases hall id2 c2 hc2 with ⟨rfl, rfl⟩ | ⟨-, hold2⟩
    · rfl
    · exact h.alone _ id2 c c2 hc hold2 hopen hphase2 hkey
    · exact h.alone id1 _ c1 c hold1 hc hphase1 hopen hkey
    · exact h.alone id1 id2 c1 c2 hold1 hold2 hphase1 hphase2 hkey
  case bound =>
    intro hmax
    refine le_trans (Finset.card_le_card ?_) (h.bound hmax)
    -- The key was reserved, so it was counted before.
    intro key hkey
    simp only [Finset.mem_union, List.mem_toFinset, Table.mem_keys] at hkey ⊢
    rcases hkey with ⟨id', hentry⟩ | hmem
    · rcases hentries key id' hentry with ⟨rfl, -⟩ | hold
      · exact Or.inr (hreserved hopen)
      · exact Or.inl ⟨id', hold⟩
    · exact Or.inr hmem
  case emptied =>
    intro hemptied
    exact absurd hphase ((h.emptied hemptied).2.2.2 id c hc)

/-- The snapshot of `DisconnectAll`. -/
theorem Inv.disconnectAll (h : Inv maxConn s) (hshut : s.shutdown = true)
    (hidle : s.teardowns = []) (hphase : ∀ id c, s.all.Has id c → c.phase ≠ .checked) :
    Inv maxConn (step maxConn s .disconnectAll) := by
  unfold step
  refine
    { h with
      conn := ?conn
      entry := ?entry
      meets := ?meets
      bound := ?bound
      emptied := ?emptied }
  case conn =>
    intro id c hc
    obtain ⟨hok, hfresh, hreserved, hplaced⟩ := h.conn id c hc
    refine ⟨hok, hfresh, hreserved, fun hstored => ?_⟩
    rcases hplaced hstored with hsettled | hentry | ⟨b, htask⟩
    · exact Or.inl hsettled
    · refine Or.inr (Or.inr ⟨true, List.mem_append_right _ (List.mem_map.mpr ?_)⟩)
      exact ⟨(c.key, id), Table.mem_select.mpr ⟨hentry, rfl⟩, rfl⟩
    · exact Or.inr (Or.inr ⟨b, List.mem_append_left _ htask⟩)
  case entry => exact fun key id hentry => absurd hentry (Table.has_empty key id)
  case meets =>
    intro cleaner id htask
    obtain ⟨hknown, hmeets⟩ := h.meets cleaner id htask
    exact ⟨hknown, fun c hc =>
      ⟨fun id' hentry => absurd hentry (Table.has_empty c.key id'), (hmeets c hc).2⟩⟩
  case bound =>
    intro hmax
    refine le_trans (Finset.card_le_card ?_) (h.bound hmax)
    exact Finset.union_subset (Finset.empty_subset _) Finset.subset_union_right
  case emptied =>
    intro _
    refine ⟨hshut, Table.has_empty, ?_, hphase⟩
    intro id htask
    simp [hidle] at htask

end Step

end RogiCollector.Ports.Manager
