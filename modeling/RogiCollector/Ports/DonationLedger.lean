import RogiCollector.Ports.JournalInvariant

/-!
# What a call does to the journaled events

An event is given its place when `AppendDonation` inserts its row: the
channel, the offset and the database time.  Retention, rotation and
maintenance rewrite other columns, and only maintenance deletes a row, ninety
days after it was stored.
-/

namespace RogiCollector.Ports.Journal

open Verified

/-- Where and when an event was journaled. -/
structure Place where
  channel : String
  offset : Nat
  storedAt : Time
  deriving Repr, DecidableEq

/-- The columns of a row that no statement updates. -/
def DonationRow.place (row : DonationRow) : Place :=
  ⟨row.channelID, row.channelOffset, row.storedAt⟩

/-- The event has a row at this place. -/
def Placed (db : Db) (e : String) (p : Place) : Prop :=
  ∃ row, db.donations.Has e row ∧ row.place = p

variable {e : String} {p : Place}

theorem Placed.unique {db : Db} {p' : Place} (h : Placed db e p) (h' : Placed db e p') :
    p = p' := by
  obtain ⟨row, hrow, rfl⟩ := h
  obtain ⟨row', hrow', rfl⟩ := h'
  rw [hrow.unique hrow']

/-- A row `op` inserted: an append of an event without a row, accepted at most
a second after the row was stored and tried at most thirty days after that. -/
structure Inserted (t : Clocks) (op : Op) (db : Db) (e : String) (p : Place) : Prop where
  append : ∃ g d acceptedAt, op = .append g d acceptedAt ∧ e = d.eventID ∧
    p.channel = d.channelID ∧ acceptedAt ≤ p.storedAt + second ∧
    t.now 0 ≤ acceptedAt + 30 * day
  free : ∀ p', ¬Placed db e p'
  offset : ∃ c, db.channels.Has p.channel c ∧ p.offset = c.nextOffset + 1
  stored : p.storedAt ≤ t.commit

/-- All a call can do to the places of events. -/
structure LedgerStep (t : Clocks) (op : Op) (db db' : Db) : Prop where
  counter : ∀ {ch c}, db.channels.Has ch c →
    ∃ c', db'.channels.Has ch c' ∧ c.nextOffset ≤ c'.nextOffset
  forth : ∀ {e p}, Placed db e p → Placed db' e p ∨ p.storedAt + 90 * day < t.commit
  back : ∀ {e p}, Placed db' e p → Placed db e p ∨ Inserted t op db e p

variable {t : Clocks} {op : Op} {db db' : Db}

variable {c : ChannelRow}

/-- The counters are where they were. -/
theorem counter_refl {db : Db} {ch : String} (hc : db.channels.Has ch c) :
    ∃ c', db.channels.Has ch c' ∧ c.nextOffset ≤ c'.nextOffset :=
  ⟨c, hc, Nat.le_refl _⟩

/-- An update of one channel row that does not lower its counter. -/
theorem counter_modify {channels : Table String ChannelRow} {channel ch : String}
    {f : ChannelRow → ChannelRow}
    (hf : ∀ c, channels.Has channel c → c.nextOffset ≤ (f c).nextOffset)
    (hc : channels.Has ch c) :
    ∃ c', (channels.modify channel f).Has ch c' ∧ c.nextOffset ≤ c'.nextOffset := by
  by_cases hk : ch = channel
  · subst hk
    exact ⟨f c, Table.has_modify.mpr (Or.inl ⟨rfl, c, hc, rfl⟩), hf c hc⟩
  · exact ⟨c, Table.has_modify.mpr (Or.inr ⟨hk, hc⟩), Nat.le_refl _⟩

/-- An update of the rows that leaves every place alone. -/
theorem placed_update {rows : Table String DonationRow} {f : String → DonationRow → DonationRow}
    (hf : ∀ e row, (f e row).place = row.place) :
    (∃ row, (rows.update f).Has e row ∧ row.place = p) ↔
      ∃ row, rows.Has e row ∧ row.place = p := by
  constructor
  · rintro ⟨row, hrow, rfl⟩
    obtain ⟨row0, hrow0, rfl⟩ := Table.has_update.mp hrow
    exact ⟨row0, hrow0, (hf e row0).symm⟩
  · rintro ⟨row, hrow, rfl⟩
    exact ⟨f e row, Table.has_update.mpr ⟨row, hrow, rfl⟩, hf e row⟩

/-- No place changes. -/
theorem LedgerStep.of_placed
    (hcounter : ∀ {ch c}, db.channels.Has ch c →
      ∃ c', db'.channels.Has ch c' ∧ c.nextOffset ≤ c'.nextOffset)
    (hplaced : ∀ {e p}, Placed db' e p ↔ Placed db e p) : LedgerStep t op db db' where
  counter := hcounter
  forth h := Or.inl (hplaced.mpr h)
  back h := Or.inl (hplaced.mp h)

/-- The rows are not touched. -/
theorem LedgerStep.of_donations
    (hcounter : ∀ {ch c}, db.channels.Has ch c →
      ∃ c', db'.channels.Has ch c' ∧ c.nextOffset ≤ c'.nextOffset)
    (hdon : db'.donations = db.donations) : LedgerStep t op db db' :=
  .of_placed hcounter (by simp only [Placed, hdon, implies_true])

/-- Neither rows nor channels are touched. -/
theorem LedgerStep.of_eq (hchan : db'.channels = db.channels)
    (hdon : db'.donations = db.donations) : LedgerStep t op db db' :=
  .of_donations (fun hc => ⟨_, hchan ▸ hc, Nat.le_refl _⟩) hdon

/-- Retention blanks payloads, which no place depends on. -/
theorem placed_expired {channel : String} {through : Nat} :
    Placed (expired db channel c through) e p ↔ Placed db e p := by
  refine placed_update ?_
  intro e row
  split <;> rfl

/-- The five deletes of maintenance: a row goes ninety days after it was stored. -/
theorem LedgerStep.purge (channel : String) :
    LedgerStep t op db (purgeCollection t db channel) where
  counter := counter_refl
  forth := by
    rintro e p ⟨row, hrow, rfl⟩
    by_cases hold : row.storedAt + 90 * day < t.clk 1
    · exact Or.inr (Nat.lt_of_lt_of_le hold (t.le_commit 1))
    · refine Or.inl ⟨row, Table.has_delete.mpr ⟨hrow, ?_⟩, rfl⟩
      simp [olderThan, hold]
  back := by
    rintro e p ⟨row, hrow, rfl⟩
    exact Or.inl ⟨row, (Table.has_delete.mp hrow).1, rfl⟩

variable {B : Backend}

/-- A new row at the channel's next offset. -/
theorem LedgerStep.append {g : OwnerGrant} {d d' : Donation} {acceptedAt : Time}
    (hop : op = .append g d acceptedAt) (hage : t.now 0 ≤ acceptedAt + 30 * day)
    (hc : db.channels.Has d.channelID c) (hnone : db.donations.find d.eventID = none)
    (hnew : appendNew B t db c g d acceptedAt = .ok (db', d')) :
    LedgerStep t op db db' := by
  obtain ⟨grant, donations, outbox, -, hacc, -, hins, -, -, -, rfl⟩ := appendNew_ok hnew
  obtain ⟨-, hhas⟩ := Table.insert_eq_some hins
  simp only [GrantRow.accepts, decide_eq_true_eq] at hacc
  constructor
  case counter =>
    intro ch c0 hc0
    refine counter_modify ?_ hc0
    intro c1 hc1
    rw [hc1.unique hc]
    exact Nat.le_succ _
  case forth =>
    rintro e p ⟨row, hrow, rfl⟩
    exact Or.inl ⟨row, (hhas e row).mpr (Or.inl hrow), rfl⟩
  case back =>
    rintro e p ⟨row, hrow, rfl⟩
    rcases (hhas e row).mp hrow with hrow | ⟨rfl, rfl⟩
    · exact Or.inl ⟨row, hrow, rfl⟩
    · have hclk : t.clk 1 ≤ t.clk 2 := t.mono (by decide)
      exact Or.inr
        { append := ⟨g, d, acceptedAt, hop, rfl, rfl,
            Nat.le_trans hacc.2.2.2.2.2 (Nat.add_le_add_right hclk _), hage⟩
          free := fun p' hp' => by
            obtain ⟨row', hrow', -⟩ := hp'
            exact Table.find_eq_none_iff.mp hnone row' hrow'
          offset := ⟨c, hc, rfl⟩
          stored := t.le_commit 2 }

/-- Every committed call. -/
theorem apply_ledger {uuid : String} {reply : Reply}
    (hop : apply B t uuid db op = .ok (db', reply)) : LedgerStep t op db db' := by
  cases apply_commits hop with
  | ensure hins =>
    refine .of_donations ?_ rfl
    intro ch c hc
    exact ⟨c, ((Table.insert_eq_some hins).2 _ _).mpr (Or.inl hc), Nat.le_refl _⟩
  | setState | acquire | subscribe =>
    refine .of_donations (counter_modify ?_) rfl
    exact fun _ _ => Nat.le_refl _
  | heartbeat =>
    refine .of_donations (counter_modify ?_) rfl
    intro c _
    split <;> exact Nat.le_refl _
  | append hage hc hnone hnew =>
    exact .append rfl hage (Table.find_eq_some_iff.mp hc) hnone hnew
  | expire =>
    refine .of_placed (counter_modify ?_) placed_expired
    exact fun _ _ => Nat.le_refl _
  | purge channel => exact .purge channel
  | @maintain channel _ hexp =>
    obtain ⟨c, -, ⟨-, rfl⟩ | ⟨-, rfl⟩⟩ := expireDonations_ok hexp
    · exact .purge channel
    · have hpurge : LedgerStep t (.maintain channel)
          (expired db channel c (expiresThrough B t db channel c (7 * day) (30 * day)
            (2 ^ 30 - 2 ^ 20))) _ := .purge channel
      constructor
      case counter =>
        refine fun hc => counter_modify ?_ hc
        exact fun _ _ => Nat.le_refl _
      case forth => exact fun hp => hpurge.forth (placed_expired.mpr hp)
      case back =>
        rintro e p ⟨row, hrow, rfl⟩
        exact Or.inl (placed_expired.mp ⟨row, (Table.has_delete.mp hrow).1, rfl⟩)
  | rotate =>
    refine .of_placed (counter_modify ?_) (placed_update ?_)
    · exact fun _ _ => Nat.le_refl _
    · intro e row
      split <;> rfl
  | _ => exact .of_eq rfl rfl

/-- One step of the store, failing calls included. -/
theorem step_ledger (s : Sys) (call : Call) :
    LedgerStep call.clocks call.op s.db ((machine B).step s call).1.db := by
  rcases step_db (B := B) s call with ⟨reply, hok, -⟩ | ⟨e, -, hdb, -⟩
  · exact apply_ledger hok
  · rw [hdb]
    exact .of_eq rfl rfl

/-- After a successful append the event has a row, its own or the one it
replayed. -/
theorem step_append_placed {s : Sys} {t : Clocks} {uuid : String} {g : OwnerGrant}
    {d : Donation} {acceptedAt : Time} {reply : Reply}
    (h : ((machine B).step s ⟨t, uuid, .append g d acceptedAt⟩).2 = .ok reply) :
    ∃ p, Placed ((machine B).step s ⟨t, uuid, .append g d acceptedAt⟩).1.db d.eventID p := by
  rcases step_db (B := B) s ⟨t, uuid, .append g d acceptedAt⟩ with
    ⟨reply', hok, -⟩ | ⟨e, -, -, he⟩
  · obtain ⟨⟨db', d'⟩, happ, heq⟩ := map_ok hok
    injection heq with hdb hreply
    rw [← hdb]
    obtain ⟨-, -, c, -, -, ⟨row, -, hrow, -, -, hsame⟩ | ⟨-, hnew⟩⟩ := appendDonation_ok happ
    · have hsame : db' = s.db := hsame
      rw [hsame]
      exact ⟨_, row, Table.find_eq_some_iff.mp hrow, rfl⟩
    · obtain ⟨grant, donations, outbox, -, -, -, hins, -, -, -, rfl⟩ := appendNew_ok hnew
      obtain ⟨-, hhas⟩ := Table.insert_eq_some hins
      exact ⟨_, _, (hhas _ _).mpr (Or.inr ⟨rfl, rfl⟩), rfl⟩
  · rw [he] at h
    cases h

end RogiCollector.Ports.Journal
