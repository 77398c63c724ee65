import RogiCollector.Ports.JournalSpec

/-!
# The representation invariant of the journal

Four tables describe one sequence.  `JournalInv` says how they agree: the
channel row's two counters delimit the retained offsets, every retained
offset is one donation row with a payload, every other row of the channel is
a tombstone at or below `expired_through`, and no consumer's cursor leaves
the window the counters describe.

The invariant is stated for every row of the channel, tombstones included,
and for every consumer row, whatever its generation; the statement about rows of
the current generation is an instance.
-/

namespace RogiCollector.Ports.Journal

open Verified

/-- How the tables of the journal agree. -/
structure JournalInv (db : Db) : Prop where
  counters : ∀ {ch c}, db.channels.Has ch c →
    c.expiredThrough ≤ c.nextOffset ∧ c.nextOffset ≤ maxUint64
  row_channel : ∀ {e row}, db.donations.Has e row → ∃ c, db.channels.Has row.channelID c
  row : ∀ {e row c}, db.donations.Has e row → db.channels.Has row.channelID c →
    row.generation = c.generation ∧ row.channelOffset ≤ c.nextOffset ∧
      (row.payload.isSome = true ↔ c.expiredThrough < row.channelOffset)
  row_unique : ∀ {e e' row row'}, db.donations.Has e row → db.donations.Has e' row' →
    row.channelID = row'.channelID → row.channelOffset = row'.channelOffset → e = e'
  payload : ∀ {e row d}, db.donations.Has e row → row.payload = some d →
    d.eventID = e ∧ d.channelID = row.channelID ∧ d.generation = row.generation ∧
      d.offset = row.channelOffset
  retained : ∀ {ch c o}, db.channels.Has ch c → c.expiredThrough < o → o ≤ c.nextOffset →
    ∃ e row, db.donations.Has e row ∧ row.channelID = ch ∧ row.channelOffset = o
  consumer : ∀ {k p}, db.consumers.Has k p → ∃ c, db.channels.Has k.2 c ∧
    p.baseline ≤ p.position ∧ p.position ≤ p.offeredOffset ∧ p.offeredOffset ≤ c.nextOffset

theorem JournalInv.empty : JournalInv Db.empty where
  counters h := absurd h (Table.has_empty _ _)
  row_channel h := absurd h (Table.has_empty _ _)
  row h := absurd h (Table.has_empty _ _)
  row_unique h := absurd h (Table.has_empty _ _)
  payload h := absurd h (Table.has_empty _ _)
  retained h := absurd h (Table.has_empty _ _)
  consumer h := absurd h (Table.has_empty _ _)

section Rows

variable {db : Db} (h : JournalInv db) {c : ChannelRow}

include h

theorem JournalInv.expired_le {channel : String} (hc : db.channels.Has channel c) :
    c.expiredThrough ≤ c.nextOffset :=
  (h.counters hc).1

theorem JournalInv.cursor {k : String × String} {p : ConsumerRow} (hp : db.consumers.Has k p)
    (hc : db.channels.Has k.2 c) :
    p.baseline ≤ p.position ∧ p.position ≤ p.offeredOffset ∧ p.offeredOffset ≤ c.nextOffset := by
  obtain ⟨c', hc', hcursor⟩ := h.consumer hp
  rw [hc.unique hc']
  exact hcursor

variable {e : String} {row : DonationRow} (hr : db.donations.Has e row)
  (hc : db.channels.Has row.channelID c)

include hr hc

theorem JournalInv.row_current : row.generation = c.generation := (h.row hr hc).1

theorem JournalInv.row_le : row.channelOffset ≤ c.nextOffset := (h.row hr hc).2.1

theorem JournalInv.row_live :
    row.payload.isSome = true ↔ c.expiredThrough < row.channelOffset :=
  (h.row hr hc).2.2

end Rows

/-! ## Operations that do not touch the sequence -/

/-- The two channel rows agree on the journal's counters and generation. -/
def SameJournal (c c' : ChannelRow) : Prop :=
  c'.generation = c.generation ∧ c'.nextOffset = c.nextOffset ∧
    c'.expiredThrough = c.expiredThrough

/-- Nothing of the sequence changed. -/
structure JournalFrame (db db' : Db) : Prop where
  donations : db'.donations = db.donations
  consumers : db'.consumers = db.consumers
  back : ∀ {ch c'}, db'.channels.Has ch c' → ∃ c, db.channels.Has ch c ∧ SameJournal c c'
  forth : ∀ {ch c}, db.channels.Has ch c → ∃ c', db'.channels.Has ch c'

variable {db db' : Db}

theorem JournalFrame.of_eq (hd : db'.donations = db.donations)
    (hc : db'.consumers = db.consumers) (hch : db'.channels = db.channels) :
    JournalFrame db db' where
  donations := hd
  consumers := hc
  back h := ⟨_, hch ▸ h, rfl, rfl, rfl⟩
  forth h := ⟨_, hch ▸ h⟩

variable {channel : String}

/-- An update of one channel row that keeps its journal columns. -/
theorem JournalFrame.of_modify {f : ChannelRow → ChannelRow}
    {grants outbox requests audit optOuts live} (hf : ∀ c, SameJournal c (f c)) :
    JournalFrame db
      ⟨db.channels.modify channel f, grants, db.donations, outbox, db.consumers,
        requests, audit, optOuts, live⟩ where
  donations := rfl
  consumers := rfl
  back := by
    intro ch c' h
    rw [Table.has_modify] at h
    rcases h with ⟨rfl, c, hc', rfl⟩ | ⟨-, h⟩
    · exact ⟨c, hc', hf c⟩
    · exact ⟨c', h, rfl, rfl, rfl⟩
  forth h := Table.exists_has_modify channel f h

/-- The sequence keeps its places: a channel keeps its next offset and expires no less, a
row keeps its channel and offset, and a row that is not expired stays. -/
structure Reshapes (db db' : Db) : Prop where
  consumers : db'.consumers = db.consumers
  forth : ∀ {ch c}, db.channels.Has ch c → ∃ c', db'.channels.Has ch c'
  back : ∀ {ch c'}, db'.channels.Has ch c' → ∃ c, db.channels.Has ch c ∧
    c'.nextOffset = c.nextOffset ∧ c.expiredThrough ≤ c'.expiredThrough ∧
      c'.expiredThrough ≤ c.nextOffset
  row : ∀ {e row'}, db'.donations.Has e row' → ∃ row, db.donations.Has e row ∧
    row'.channelID = row.channelID ∧ row'.channelOffset = row.channelOffset ∧
    (∀ d, row'.payload = some d → d.eventID = e ∧ d.channelID = row.channelID ∧
      d.generation = row'.generation ∧ d.offset = row.channelOffset) ∧
    ∀ c', db'.channels.Has row.channelID c' → row'.generation = c'.generation ∧
      (row'.payload.isSome = true ↔ c'.expiredThrough < row.channelOffset)
  kept : ∀ {e row c'}, db.donations.Has e row → db'.channels.Has row.channelID c' →
    c'.expiredThrough < row.channelOffset → ∃ row', db'.donations.Has e row' ∧
      row'.channelID = row.channelID ∧ row'.channelOffset = row.channelOffset

theorem JournalInv.reshape (h : JournalInv db) (hs : Reshapes db db') : JournalInv db' where
  counters hc := by
    obtain ⟨c, hc0, hn, -, hle⟩ := hs.back hc
    rw [hn]
    exact ⟨hle, (h.counters hc0).2⟩
  row_channel hr := by
    obtain ⟨row, hr0, hch, -⟩ := hs.row hr
    obtain ⟨c, hc⟩ := h.row_channel hr0
    rw [hch]
    exact hs.forth hc
  row hr hc := by
    obtain ⟨row, hr0, hch, ho, -, hrow⟩ := hs.row hr
    obtain ⟨c, hc0, hn, -⟩ := hs.back hc
    obtain ⟨hgeneration, hlive⟩ := hrow _ (hch ▸ hc)
    rw [ho, hn]
    exact ⟨hgeneration, h.row_le hr0 (hch ▸ hc0), hlive⟩
  row_unique hr hr' hch ho := by
    obtain ⟨r1, hr1, hc1, ho1, -⟩ := hs.row hr
    obtain ⟨r2, hr2, hc2, ho2, -⟩ := hs.row hr'
    exact h.row_unique hr1 hr2 (by rw [← hc1, ← hc2, hch]) (by rw [← ho1, ← ho2, ho])
  payload hr hd := by
    obtain ⟨row, -, hch, ho, hpay, -⟩ := hs.row hr
    rw [hch, ho]
    exact hpay _ hd
  retained hc hlt hle := by
    obtain ⟨c, hc0, hn, hexp, -⟩ := hs.back hc
    obtain ⟨e, row, hr, rfl, rfl⟩ := h.retained hc0 (Nat.lt_of_le_of_lt hexp hlt) (hn ▸ hle)
    exact ⟨e, hs.kept hr hc hlt⟩
  consumer hp := by
    rw [hs.consumers] at hp
    obtain ⟨c, hc, -⟩ := h.consumer hp
    obtain ⟨c', hc'⟩ := hs.forth hc
    obtain ⟨c0, hc0, hn, -⟩ := hs.back hc'
    exact ⟨c', hc', hn ▸ h.cursor hp hc0⟩

theorem JournalInv.frame (h : JournalInv db) (hf : JournalFrame db db') : JournalInv db' := by
  refine h.reshape ⟨hf.consumers, hf.forth, ?_, ?_, ?_⟩
  · intro ch c' hc
    obtain ⟨c, hc0, -, hn, he⟩ := hf.back hc
    exact ⟨c, hc0, hn, he.ge, he ▸ h.expired_le hc0⟩
  · intro e row hr
    rw [hf.donations] at hr
    refine ⟨row, hr, rfl, rfl, fun d => h.payload hr, ?_⟩
    intro c' hc
    obtain ⟨c, hc0, hg, -, he⟩ := hf.back hc
    rw [hg, he]
    exact ⟨h.row_current hr hc0, h.row_live hr hc0⟩
  · intro e row c' hr _ _
    exact ⟨row, hf.donations ▸ hr, rfl, rfl⟩

/-! ## A new channel and a new donation -/

variable {t : Clocks} {uuid : String}

theorem JournalInv.ensure {channels : Table String ChannelRow} (h : JournalInv db)
    (hins : db.channels.insert channel (freshChannel t uuid) = some channels) :
    JournalInv { db with channels } := by
  obtain ⟨hfree, hhas⟩ := Table.insert_eq_some hins
  have hnone := Table.find_eq_none_iff.mp hfree
  -- No row and no consumer belongs to a channel that did not exist.
  have hback : ∀ {ch c}, channels.Has ch c → (∃ c0, db.channels.Has ch c0) →
      db.channels.Has ch c := by
    intro ch c hc hold
    rcases (hhas ch c).mp hc with hc | ⟨rfl, rfl⟩
    · exact hc
    · obtain ⟨c0, hc0⟩ := hold
      exact absurd hc0 (hnone c0)
  have hcases : ∀ {ch c}, channels.Has ch c →
      db.channels.Has ch c ∨ (c.expiredThrough = 0 ∧ c.nextOffset = 0) := by
    intro ch c hc
    rcases (hhas ch c).mp hc with hc | ⟨rfl, rfl⟩
    · exact Or.inl hc
    · exact Or.inr ⟨rfl, rfl⟩
  constructor
  case counters =>
    intro ch c hc
    rcases hcases hc with hc | ⟨he, hn⟩
    · exact h.counters hc
    · omega
  case row_channel =>
    intro e row hr
    obtain ⟨c, hc⟩ := h.row_channel hr
    exact ⟨c, (hhas _ _).mpr (Or.inl hc)⟩
  case row => exact fun hr hc => h.row hr (hback hc (h.row_channel hr))
  case row_unique => exact h.row_unique
  case payload => exact h.payload
  case retained =>
    intro ch c o hc hlt hle
    rcases hcases hc with hc | ⟨he, hn⟩
    · exact h.retained hc hlt hle
    · omega
  case consumer =>
    intro k p hp
    obtain ⟨c, hc, hcursor⟩ := h.consumer hp
    exact ⟨c, (hhas _ _).mpr (Or.inl hc), hcursor⟩

variable {B : Backend} {c : ChannelRow}

/-- The row journaled at the next offset, with the channel's counter moved. -/
theorem JournalInv.append {d : Donation} {donations : Table String DonationRow}
    {f : ChannelRow → ChannelRow} {grants outbox requests audit optOuts live}
    (h : JournalInv db) (hc : db.channels.Has d.channelID c) (hmax : c.nextOffset ≠ maxUint64)
    (hins : db.donations.insert d.eventID (journalRow B t db c d) = some donations)
    (hfg : (f c).generation = c.generation) (hfn : (f c).nextOffset = c.nextOffset + 1)
    (hfe : (f c).expiredThrough = c.expiredThrough) :
    JournalInv
      ⟨db.channels.modify d.channelID f, grants, donations, outbox, db.consumers,
        requests, audit, optOuts, live⟩ := by
  obtain ⟨-, hhas⟩ := Table.insert_eq_some hins
  have hmod : ∀ {ch c'}, (db.channels.modify d.channelID f).Has ch c' →
      (ch = d.channelID ∧ c' = f c) ∨ (ch ≠ d.channelID ∧ db.channels.Has ch c') :=
    (Table.has_modify_of_has hc).mp
  have hrow : ∀ {e row}, donations.Has e row →
      db.donations.Has e row ∨ (e = d.eventID ∧ row = journalRow B t db c d) :=
    (hhas _ _).mp
  have hexp := h.expired_le hc
  have hlt : c.nextOffset < maxUint64 := Nat.lt_of_le_of_ne (h.counters hc).2 hmax
  -- Every old row of the channel lies strictly below the new offset.
  have hold : ∀ {e row}, db.donations.Has e row → row.channelID = d.channelID →
      row.channelOffset ≤ c.nextOffset := by
    intro e row hr hch
    exact h.row_le hr (hch ▸ hc)
  constructor
  case counters =>
    intro ch c' hch
    rcases hmod hch with ⟨rfl, rfl⟩ | ⟨-, hch⟩
    · omega
    · exact h.counters hch
  case row_channel =>
    intro e row hr
    rcases hrow hr with hr | ⟨rfl, rfl⟩
    · obtain ⟨c0, hc0⟩ := h.row_channel hr
      exact Table.exists_has_modify _ f hc0
    · exact Table.exists_has_modify _ f hc
  case row =>
    intro e row c' hr hch
    rcases hrow hr with hr | ⟨rfl, rfl⟩
    · rcases hmod hch with ⟨hk, rfl⟩ | ⟨-, hch⟩
      · obtain ⟨hgeneration, hle, hlive⟩ := h.row hr (hk ▸ hc)
        rw [hfg, hfe, hfn]
        exact ⟨hgeneration, Nat.le_succ_of_le hle, hlive⟩
      · exact h.row hr hch
    · rcases hmod hch with ⟨-, rfl⟩ | ⟨hk, -⟩
      · refine ⟨hfg.symm, Nat.le_of_eq hfn.symm, ?_⟩
        simp only [hfe, journalRow, Option.isSome_some, true_iff]
        omega
      · exact absurd rfl hk
  case row_unique =>
    intro e e' row row' hr hr' hch ho
    rcases hrow hr with hr | ⟨rfl, rfl⟩ <;> rcases hrow hr' with hr' | ⟨rfl, rfl⟩
    · exact h.row_unique hr hr' hch ho
    · have hle := hold hr hch
      simp only [journalRow] at ho
      omega
    · have hle := hold hr' hch.symm
      simp only [journalRow] at ho
      omega
    · rfl
  case payload =>
    intro e row d' hr hpay
    rcases hrow hr with hr | ⟨rfl, rfl⟩
    · exact h.payload hr hpay
    · simp only [journalRow, Option.some.injEq] at hpay
      subst hpay
      simp [journalRow]
  case retained =>
    intro ch c' o hch hlo hhi
    rcases hmod hch with ⟨rfl, rfl⟩ | ⟨-, hch⟩
    · rw [hfe] at hlo
      rw [hfn] at hhi
      by_cases ho : o ≤ c.nextOffset
      · obtain ⟨e, row, hr, hrc, hro⟩ := h.retained hc hlo ho
        exact ⟨e, row, (hhas _ _).mpr (Or.inl hr), hrc, hro⟩
      · refine ⟨d.eventID, journalRow B t db c d, ?_, rfl, ?_⟩
        · exact (hhas _ _).mpr (Or.inr ⟨rfl, rfl⟩)
        · simp only [journalRow]
          omega
    · obtain ⟨e, row, hr, hrc, hro⟩ := h.retained hch hlo hhi
      exact ⟨e, row, (hhas _ _).mpr (Or.inl hr), hrc, hro⟩
  case consumer =>
    intro k p hp
    obtain ⟨c0, hc0, hcursor⟩ := h.consumer hp
    obtain ⟨c', hch⟩ := Table.exists_has_modify d.channelID f hc0
    refine ⟨c', hch, ?_⟩
    rcases hmod hch with ⟨hk, rfl⟩ | ⟨-, hch⟩
    · obtain ⟨h1, h2, h3⟩ := h.cursor hp (hk ▸ hc)
      omega
    · exact h.cursor hp hch

/-! ## Consumers -/

/-- Only consumer rows changed, and each is where the window allows. -/
theorem JournalInv.with_consumers (h : JournalInv db)
    {consumers : Table (String × String) ConsumerRow}
    (hp : ∀ {k p}, consumers.Has k p → ∃ c, db.channels.Has k.2 c ∧ p.baseline ≤ p.position ∧
      p.position ≤ p.offeredOffset ∧ p.offeredOffset ≤ c.nextOffset) :
    JournalInv { db with consumers } :=
  { h with consumer := hp }

/-! ## The page query -/

/-- Payload offsets are the row offsets. -/
theorem JournalInv.filterMap_offset (h : JournalInv db) (rows : List (String × DonationRow))
    (hrows : ∀ row ∈ rows, db.donations.Has row.1 row.2 ∧ row.2.payload.isSome) :
    (rows.filterMap fun row => row.2.payload).map Donation.offset =
      rows.map fun row => row.2.channelOffset := by
  induction rows with
  | nil => rfl
  | cons row rows ih =>
    obtain ⟨hhas, hsome⟩ := hrows row (by simp)
    obtain ⟨d, hd⟩ := Option.isSome_iff_exists.mp hsome
    obtain ⟨-, -, -, hoff⟩ := h.payload hhas hd
    have hrest := ih fun row hr => hrows row (List.mem_cons_of_mem _ hr)
    simp only [List.filterMap_cons, hd, List.map_cons, hoff, hrest]

variable {after : Nat}

/-- The retained offsets after a cursor of the window are consecutive. -/
theorem JournalInv.orderBy_offset (h : JournalInv db) (hc : db.channels.Has channel c)
    (hexp : c.expiredThrough ≤ after) :
    (orderBy (fun row : String × DonationRow => row.2.channelOffset)
      (db.donations.select fun _ row =>
        row.channelID = channel ∧ row.generation = c.generation ∧
          after < row.channelOffset ∧ row.payload.isSome)).map
            (fun row => row.2.channelOffset) =
      List.range' (after + 1) (c.nextOffset - after) := by
  apply map_orderBy_eq_range'
  · apply List.Nodup.map_on _ (Table.nodup_select _ _)
    intro x hx y hy hxy
    simp only [Table.mem_select, decide_eq_true_eq] at hx hy
    have hkey : x.1 = y.1 :=
      h.row_unique hx.1 hy.1 (hx.2.1.trans hy.2.1.symm) hxy
    obtain ⟨e, row⟩ := x
    obtain ⟨e', row'⟩ := y
    obtain rfl : e = e' := hkey
    have hrow : row = row' := Table.Has.unique hx.1 hy.1
    rw [hrow]
  · intro o
    simp only [List.mem_map, Table.mem_select, decide_eq_true_eq, Prod.exists]
    constructor
    · rintro ⟨e, row, ⟨hr, hch, -, hlt, -⟩, rfl⟩
      exact ⟨hlt, h.row_le hr (hch ▸ hc)⟩
    · rintro ⟨hlo, hhi⟩
      obtain ⟨e, row, hr, hch, ho⟩ := h.retained hc (by omega) hhi
      have hrc : db.channels.Has row.channelID c := hch ▸ hc
      refine ⟨e, row, ⟨hr, hch, h.row_current hr hrc, by omega, ?_⟩, ho⟩
      exact (h.row_live hr hrc).mpr (by omega)

variable {generation : String}

/-- What a page holds: rows of the channel with their payload. -/
theorem mem_selectPayloads {limit : Nat} {d : Donation}
    (hd : d ∈ selectPayloads db channel generation after limit) :
    ∃ e row, db.donations.Has e row ∧ row.channelID = channel ∧ row.payload = some d := by
  simp only [selectPayloads, List.mem_filterMap] at hd
  obtain ⟨⟨e, row⟩, hrow, hpay⟩ := hd
  have hsel := (mem_orderBy _).mp (List.mem_of_mem_take hrow)
  simp only [Table.mem_select, decide_eq_true_eq] at hsel
  exact ⟨e, row, hsel.1, hsel.2.1, hpay⟩

/-- The page query returns the next `limit` offsets, or as many as there are. -/
theorem JournalInv.selectPayloads_offset (h : JournalInv db) (hc : db.channels.Has channel c)
    (hexp : c.expiredThrough ≤ after) (limit : Nat) :
    (selectPayloads db channel c.generation after limit).map Donation.offset =
      List.range' (after + 1) (min limit (c.nextOffset - after)) := by
  rw [selectPayloads, h.filterMap_offset, List.map_take, h.orderBy_offset hc hexp]
  · rcases Nat.le_total limit (c.nextOffset - after) with hle | hle
    · rw [List.take_range'_of_length_ge hle, Nat.min_eq_left hle]
    · rw [List.take_range'_of_length_le hle, Nat.min_eq_right hle]
  · intro row hrow
    have hsel := (mem_orderBy _).mp (List.mem_of_mem_take hrow)
    simp only [Table.mem_select, decide_eq_true_eq] at hsel
    exact ⟨hsel.1, hsel.2.2.2.2⟩

/-- The row loop accepts consecutive offsets that stay below the wrap. -/
theorem scanDonations_range (ds : List Donation) (next n : Nat)
    (hds : ds.map Donation.offset = List.range' (next + 1) n)
    (hmax : next + n ≤ maxUint64) : scanDonations next ds = .ok (ds, next + n) := by
  induction ds generalizing next n with
  | nil =>
    cases n with
    | zero => rfl
    | succ n => simp [List.range'_succ] at hds
  | cons d ds ih =>
    cases n with
    | zero => simp at hds
    | succ n =>
      rw [List.range'_succ, List.map_cons, List.cons.injEq] at hds
      have hsucc : succUint64 next = next + 1 := by
        apply Nat.mod_eq_of_lt
        simp only [maxUint64] at hmax
        omega
      have hrest := ih (next + 1) n hds.2 (by omega)
      simp only [scanDonations, hds.1, hsucc, ne_eq, not_true_eq_false, if_false,
        hrest]
      rw [show next + 1 + n = next + (n + 1) by omega]

/-- The row loop of `ReadDonations` never meets a hole. -/
theorem JournalInv.scanDonations_ok (h : JournalInv db) (hc : db.channels.Has channel c)
    (hexp : c.expiredThrough ≤ after) (hcur : after ≤ c.nextOffset) (limit : Nat) :
    scanDonations after (selectPayloads db channel c.generation after limit) =
      .ok (selectPayloads db channel c.generation after limit,
        after + min limit (c.nextOffset - after)) := by
  apply scanDonations_range _ _ _ (h.selectPayloads_offset hc hexp limit)
  have := (h.counters hc).2
  omega

/-! ## Reading, acknowledging, recovering -/

variable {consumer : String} {revision : Nat}

theorem JournalInv.read {limit : Int} {ds : List Donation} {st : CollectionState}
    (h : JournalInv db)
    (hread : readDonations t db consumer channel generation after revision limit =
      .ok (db', ds, st)) :
    JournalInv db' := by
  obtain ⟨c, p, next, hfind, rfl, hexp, hcur, hp, -, -, -, hoff, hscan, rfl, -⟩ :=
    readDonations_ok hread
  have hc := Table.find_eq_some_iff.mp hfind
  have hnext : next ≤ c.nextOffset := by
    rw [h.scanDonations_ok hc hexp hcur] at hscan
    injection hscan with hscan
    injection hscan with _ hnext
    omega
  -- Every row of the table the page was offered from lies in the window.
  have hwith : ∀ {k q}, (withConsumer db (consumer, channel) c.generation
      c.expiredThrough).Has k q → ∃ c, db.channels.Has k.2 c ∧ q.baseline ≤ q.position ∧
        q.position ≤ q.offeredOffset ∧ q.offeredOffset ≤ c.nextOffset := by
    intro k q hq
    rcases withConsumer_has.mp hq with hq | ⟨-, rfl, rfl⟩
    · exact h.consumer hq
    · exact ⟨c, hc, Nat.le_refl _, Nat.le_refl _, h.expired_le hc⟩
  apply h.with_consumers
  intro k q hq
  split at hq
  · rename_i hlt
    rw [Table.has_modify_of_has hp] at hq
    rcases hq with ⟨rfl, rfl⟩ | ⟨-, hq⟩
    · obtain ⟨c', -, h1, h2, -⟩ := hwith hp
      exact ⟨c, hc, h1, Nat.le_trans h2 (Nat.le_of_lt hlt), hnext⟩
    · exact hwith hq
  · exact hwith hq

theorem JournalInv.ack {offset : Nat} (h : JournalInv db)
    (hack : ackDonations db consumer channel generation offset revision = .ok db') :
    JournalInv db' := by
  obtain ⟨c, p, hfind, -, -, hp, -, -, hbase, hoff, -, rfl⟩ := ackDonations_ok hack
  have hc := Table.find_eq_some_iff.mp hfind
  apply h.with_consumers
  intro k q hq
  rw [Table.has_modify_of_has hp] at hq
  rcases hq with ⟨rfl, rfl⟩ | ⟨-, hq⟩
  · obtain ⟨-, -, h3⟩ := h.cursor hp hc
    exact ⟨c, hc, Nat.le_of_lt hbase, hoff, h3⟩
  · exact h.consumer hq

theorem JournalInv.resolve {key previous next : String} {resume expected : Nat}
    {request : String} {r : RecoveryDecision} (h : JournalInv db)
    (happ : RecoveryApplied B t db db' consumer channel key previous next resume expected request
      r) :
    JournalInv db' := by
  obtain ⟨c, hfind, -, -, hres⟩ := happ.generation
  have hc := Table.find_eq_some_iff.mp hfind
  obtain ⟨requests, -, rfl⟩ := happ.written
  have hbody : JournalInv { db with
      consumers := db.consumers.upsert (consumer, channel)
        ⟨next, resume, none, resume, expected + 1⟩ } := by
    apply h.with_consumers
    intro k q hq
    rw [Table.has_upsert] at hq
    rcases hq with ⟨rfl, rfl⟩ | ⟨-, hq⟩
    · exact ⟨c, hc, Nat.le_refl _, Nat.le_refl _, hres⟩
    · exact h.consumer hq
  exact hbody.frame (JournalFrame.of_eq rfl rfl rfl)

/-! ## Retention -/

/-- The retention loop stops at its start or at one of the candidates. -/
theorem expireLoop_mem (db : Db) (channel generation : String) (now : Nat → Time)
    (minAge maxAge maxPayloadBytes : Int) (vs : List Candidate) (i through : Nat)
    (total : Int) :
    expireLoop db channel generation now minAge maxAge maxPayloadBytes i through total vs =
        through ∨
      ∃ v ∈ vs, expireLoop db channel generation now minAge maxAge maxPayloadBytes i
        through total vs = v.offset := by
  induction vs generalizing i through total with
  | nil => exact Or.inl rfl
  | cons v vs ih =>
    -- Both ways to go on leave the loop at `v` or later.
    have hgo : ∀ total', ∃ w ∈ v :: vs,
        expireLoop db channel generation now minAge maxAge maxPayloadBytes (i + 1)
          v.offset total' vs = w.offset := by
      intro total'
      rcases ih (i + 1) v.offset total' with heq | ⟨w, hw, heq⟩
      · exact ⟨v, by simp, heq⟩
      · exact ⟨w, List.mem_cons_of_mem _ hw, heq⟩
    simp only [expireLoop]
    split
    · exact Or.inr (hgo _)
    split
    · exact Or.inl rfl
    split
    · exact Or.inl rfl
    · exact Or.inr (hgo _)

/-- Where a candidate of the batch comes from. -/
theorem mem_candidates {v : Candidate} (hv : v ∈ candidates B db channel generation) :
    ∃ e row d, db.donations.Has e row ∧ row.channelID = channel ∧ row.payload = some d ∧
      v = ⟨row.channelOffset, row.storedAt, B.columnSize d⟩ := by
  simp only [candidates, List.mem_filterMap] at hv
  obtain ⟨⟨e, row⟩, hrow, hpay⟩ := hv
  have hsel := (mem_orderBy _).mp (List.mem_of_mem_take hrow)
  simp only [Table.mem_select, decide_eq_true_eq] at hsel
  obtain ⟨d, hd, rfl⟩ := Option.map_eq_some_iff.mp hpay
  exact ⟨e, row, d, hsel.1, hsel.2.1, hd, rfl⟩

/-- Retention stays inside the journal. -/
theorem JournalInv.expiresThrough_le (h : JournalInv db) (hc : db.channels.Has channel c)
    (minAge maxAge maxPayloadBytes : Int) :
    expiresThrough B t db channel c minAge maxAge maxPayloadBytes ≤ c.nextOffset := by
  rcases expireLoop_mem db channel c.generation t.now minAge maxAge maxPayloadBytes
      (candidates B db channel c.generation) 0 c.expiredThrough
      (payloadBytes B db channel) with heq | ⟨v, hv, heq⟩
  · rw [expiresThrough, heq]
    exact h.expired_le hc
  · obtain ⟨e, row, d, hr, hch, -, rfl⟩ := mem_candidates hv
    rw [expiresThrough, heq]
    exact h.row_le hr (hch ▸ hc)

/-- A row of the channel keeps its payload exactly when it lies above
`through`. -/
theorem JournalInv.has_expired (h : JournalInv db) (hc : db.channels.Has channel c)
    {through : Nat} {e : String} {row' : DonationRow}
    (hr : (expired db channel c through).donations.Has e row') :
    ∃ row, db.donations.Has e row ∧ row'.channelID = row.channelID ∧
      row'.generation = row.generation ∧ row'.channelOffset = row.channelOffset ∧
      row'.payload =
        if row.channelID = channel ∧ row.channelOffset ≤ through then none
        else row.payload := by
  rw [expired, Table.has_update] at hr
  obtain ⟨row, hr, rfl⟩ := hr
  refine ⟨row, hr, ?_⟩
  by_cases hch : row.channelID = channel
  · have hgen : row.generation = c.generation := h.row_current hr (hch ▸ hc)
    by_cases ho : row.channelOffset ≤ through <;> simp [hch, hgen, ho]
  · simp [hch]

theorem JournalInv.retention (h : JournalInv db) (hc : db.channels.Has channel c)
    {through : Nat} (hlo : c.expiredThrough < through) (hhi : through ≤ c.nextOffset) :
    JournalInv (expired db channel c through) := by
  refine h.reshape ⟨rfl, Table.exists_has_modify _ _, ?_, ?_, ?_⟩
  · intro ch c' hch
    rcases (Table.has_modify_of_has hc).mp hch with ⟨rfl, rfl⟩ | ⟨-, hch⟩
    · exact ⟨c, hc, rfl, hlo.le, hhi⟩
    · exact ⟨c', hch, rfl, le_rfl, h.expired_le hch⟩
  · intro e row' hr'
    obtain ⟨row, hr, hrc, hrg, hro, hpay⟩ := h.has_expired hc hr'
    rw [hpay, hrg]
    refine ⟨row, hr, hrc, hro, ?_, ?_⟩
    · intro d hd
      split at hd
      · cases hd
      · exact h.payload hr hd
    · intro c' hch
      rcases (Table.has_modify_of_has hc).mp hch with ⟨hk, rfl⟩ | ⟨hk, hch⟩
      · refine ⟨h.row_current (c := c) hr (hk ▸ hc), ?_⟩
        have hlive := h.row_live hr (hk ▸ hc)
        by_cases ho : row.channelOffset ≤ through
        · simp [hk, ho]
        · simp only [hk, ho, and_false, if_false, hlive]
          omega
      · simp only [hk, false_and, if_false]
        exact ⟨h.row_current hr hch, h.row_live hr hch⟩
  · intro e row c' hr _ _
    refine ⟨_, Table.has_update.mpr ⟨row, hr, rfl⟩, ?_, ?_⟩ <;> split <;> rfl

theorem JournalInv.expire {minAge maxAge maxPayloadBytes : Int} (h : JournalInv db)
    (hexp : expireDonations B t db channel minAge maxAge maxPayloadBytes = .ok db') :
    JournalInv db' := by
  obtain ⟨c, hfind, ⟨-, rfl⟩ | ⟨hlt, rfl⟩⟩ := expireDonations_ok hexp
  · exact h
  · have hc := Table.find_eq_some_iff.mp hfind
    exact h.retention hc hlt (h.expiresThrough_le hc _ _ _)

/-- The purge removes tombstones only. -/
theorem JournalInv.purge (h : JournalInv db) : JournalInv (purgeCollection t db channel) := by
  refine h.reshape ⟨rfl, fun hc => ⟨_, hc⟩, ?_, ?_, ?_⟩
  · exact fun hc => ⟨_, hc, rfl, le_rfl, h.expired_le hc⟩
  · intro e row hr
    have hr0 := (Table.has_delete.mp hr).1
    exact ⟨row, hr0, rfl, rfl, fun d => h.payload hr0,
      fun c' hc => ⟨h.row_current hr0 hc, h.row_live hr0 hc⟩⟩
  · intro e row c' hr hc hlt
    obtain ⟨d, hd⟩ := Option.isSome_iff_exists.mp ((h.row_live hr hc).mpr hlt)
    refine ⟨row, Table.has_delete.mpr ⟨hr, ?_⟩, rfl, rfl⟩
    simp [hd]

/-! ## Rotation -/

theorem JournalInv.rotate (h : JournalInv db) {reason : String} (hc : db.channels.Has channel c) :
    JournalInv (rotated t uuid db channel reason c) := by
  refine h.reshape ⟨rfl, Table.exists_has_modify _ _, ?_, ?_, ?_⟩
  · intro ch c' hch
    rcases (Table.has_modify_of_has hc).mp hch with ⟨rfl, rfl⟩ | ⟨-, hch⟩
    · exact ⟨c, hc, rfl, le_rfl, h.expired_le (c := c) hc⟩
    · exact ⟨c', hch, rfl, le_rfl, h.expired_le hch⟩
  · intro e row' hr'
    obtain ⟨row, hr, rfl⟩ := Table.has_update.mp hr'
    by_cases hk : row.channelID = channel
    · -- All rows of the channel move, since all of them carry its generation.
      rw [if_pos ⟨hk, h.row_current hr (hk ▸ hc)⟩]
      refine ⟨row, hr, rfl, rfl, ?_, ?_⟩
      · intro d hd
        obtain ⟨d0, hd0, rfl⟩ := Option.map_eq_some_iff.mp hd
        obtain ⟨h1, h2, -, h4⟩ := h.payload hr hd0
        exact ⟨h1, h2, rfl, h4⟩
      · intro c' hch
        rcases (Table.has_modify_of_has hc).mp hch with ⟨-, rfl⟩ | ⟨hne, -⟩
        · rw [DonationRow.rotate, Option.isSome_map]
          exact ⟨rfl, h.row_live (c := c) hr (hk ▸ hc)⟩
        · exact absurd hk hne
    · rw [if_neg fun hch => hk hch.1]
      refine ⟨row, hr, rfl, rfl, fun d => h.payload hr, ?_⟩
      intro c' hch
      rcases (Table.has_modify_of_has hc).mp hch with ⟨hch, -⟩ | ⟨-, hch⟩
      · exact absurd hch hk
      · exact ⟨h.row_current hr hch, h.row_live hr hch⟩
  · intro e row c' hr _ _
    refine ⟨_, Table.has_update.mpr ⟨row, hr, rfl⟩, ?_, ?_⟩ <;> split <;> rfl

/-! ## Every operation -/

theorem map_ok {α β : Type} {x : Except StoreErr α} {f : α → β} {b : β}
    (h : x.map f = .ok b) : ∃ a, x = .ok a ∧ f a = b := by
  cases x with
  | error e => cases h
  | ok a => exact ⟨a, rfl, by injection h⟩

/-- What a committed operation has checked and written.  `same` are the calls that
find done what they ask for. -/
inductive Commits (B : Backend) (t : Clocks) (uuid : String) (db : Db) : Op → Db → Reply → Prop
  | same (op : Op) (reply : Reply) : Commits B t uuid db op db reply
  | ensure {channel channels}
      (hins : db.channels.insert channel (freshChannel t uuid) = some channels) :
      Commits B t uuid db (.ensure channel) { db with channels } .done
  | setState (channel state : String) :
      Commits B t uuid db (.setState channel state) (setCollectionState t db channel state) .done
  | heartbeat (g : OwnerGrant) (state : String) (last : Time) :
      Commits B t uuid db (.heartbeat g state last) (collectionHeartbeat t db g state last) .done
  | acquire {channel worker c grants} (reply : Reply) (hc : db.channels.find channel = some c)
      (hvalid : ownerValid db (t.clk 0) c.ownerToken = .ok false)
      (hins : db.grants.insert uuid (freshGrant t channel worker c.generation) = some grants) :
      Commits B t uuid db (.acquire channel worker)
        { db with
          grants
          channels := db.channels.modify channel fun c =>
            { c with ownerToken := some uuid, runtimeState := "connecting", stateAt := t.clk 3 } }
        reply
  | renew {g c row} (reply : Reply) (hc : db.channels.find g.channel = some c)
      (howner : c.ownerToken = some g.token) (hrow : db.grants.find g.token = some row)
      (hvalid : row.valid (t.clk 0) = true) :
      Commits B t uuid db (.renew g)
        { db with
          grants := db.grants.modify g.token fun row =>
            { row with validUntil := t.clk 1 + leaseTime } } reply
  | release (g : OwnerGrant) : Commits B t uuid db (.release g) (releaseCollection t db g) .done
  | append {g d d' acceptedAt c db'} (hage : t.now 0 ≤ acceptedAt + 30 * day)
      (hc : db.channels.find d.channelID = some c) (hnone : db.donations.find d.eventID = none)
      (hnew : appendNew B t db c g d acceptedAt = .ok (db', d')) :
      Commits B t uuid db (.append g d acceptedAt) db' (.donation d')
  | read {consumer channel generation after revision limit consumers ds st}
      (hread : readDonations t db consumer channel generation after revision limit =
        .ok ({ db with consumers }, ds, st)) :
      Commits B t uuid db (.read consumer channel generation after revision limit)
        { db with consumers } (.page ds st)
  | ack {consumer channel generation offset revision consumers}
      (hack : ackDonations db consumer channel generation offset revision =
        .ok { db with consumers }) :
      Commits B t uuid db (.ack consumer channel generation offset revision)
        { db with consumers } .done
  | subscribe {consumer channel key saved requests} (enabled : Bool)
      (hins : db.requests.insert ⟨consumer, channel, .subscription, key⟩ saved = some requests) :
      Commits B t uuid db (.subscribe consumer channel key enabled)
        { db with
          channels := db.channels.modify channel fun c => { c with subscribed := enabled }
          grants := if enabled then db.grants else closeGrants db channel (t.clk 1)
          requests } (.enabled enabled)
  | resolve {consumer channel key previous next resume expected request r saved}
      {consumers requests audit}
      (hins : db.requests.insert ⟨consumer, channel, .recovery, key⟩ saved = some requests)
      (happ : RecoveryApplied B t db { db with consumers, requests, audit } consumer channel key
        previous next resume expected request r) :
      Commits B t uuid db (.resolve consumer channel key previous next resume expected request)
        { db with consumers, requests, audit } (.decision r)
  | expire {channel minAge maxAge maxPayloadBytes c} (hc : db.channels.find channel = some c)
      (hlt : c.expiredThrough < expiresThrough B t db channel c minAge maxAge maxPayloadBytes) :
      Commits B t uuid db (.expire channel minAge maxAge maxPayloadBytes)
        (expired db channel c (expiresThrough B t db channel c minAge maxAge maxPayloadBytes)) .done
  | purge (channel : String) : Commits B t uuid db (.purge channel)
    (purgeCollection t db channel) .done
  | maintain {channel db1}
      (hexp : expireDonations B t db channel (7 * day) (30 * day) (2 ^ 30 - 2 ^ 20) = .ok db1) :
      Commits B t uuid db (.maintain channel) (purgeCollection t db1 channel) .done
  | rotate {channel : String} {c : ChannelRow} (expected reason : String)
      (hc : db.channels.find channel = some c) :
      Commits B t uuid db (.rotate channel expected reason) (rotated t uuid db channel reason c)
        (.generation uuid)
  | aside {outbox optOuts live} (op : Op) :
      Commits B t uuid db op { db with outbox, optOuts, live } .done

theorem apply_commits {op : Op} {reply : Reply}
    (hop : Journal.apply B t uuid db op = .ok (db', reply)) : Commits B t uuid db op db' reply := by
  cases op with
  | ensure channel =>
    obtain ⟨db1, hens, heq⟩ := map_ok hop
    cases heq
    rcases ensureCollection_ok hens with rfl | ⟨channels, hins, rfl⟩
    · exact .same _ _
    · exact .ensure hins
  | setState | heartbeat | release | purge =>
    cases hop
    constructor
  | dispatch | optOut | assign =>
    cases hop
    exact .aside _
  | acquire channel worker =>
    obtain ⟨⟨db1, g⟩, hacq, heq⟩ := map_ok hop
    cases heq
    obtain ⟨c, grants, hc, hvalid, hins, rfl, -⟩ := acquireCollection_ok hacq
    exact .acquire _ hc hvalid hins
  | renew g =>
    obtain ⟨⟨db1, until_⟩, hren, heq⟩ := map_ok hop
    cases heq
    obtain ⟨c, row, hc, howner, -, hrow, hvalid, rfl, -⟩ := renewCollection_ok hren
    exact .renew _ hc howner hrow hvalid
  | append g d acceptedAt =>
    obtain ⟨⟨db1, d'⟩, happ, heq⟩ := map_ok hop
    cases heq
    obtain ⟨hage, -, c, hc, -, ⟨-, -, -, -, -, rfl⟩ | ⟨hnone, hnew⟩⟩ := appendDonation_ok happ
    · exact .same _ _
    · exact .append hage hc hnone hnew
  | read consumer channel generation after revision limit =>
    obtain ⟨⟨db1, ds, st⟩, hread, heq⟩ := map_ok hop
    cases heq
    obtain ⟨c, p, next, -, -, -, -, -, -, -, -, -, -, rfl, -⟩ := readDonations_ok hread
    exact .read hread
  | ack consumer channel generation offset revision =>
    obtain ⟨db1, hack, heq⟩ := map_ok hop
    cases heq
    obtain ⟨c, p, -, -, -, -, -, -, -, -, -, rfl⟩ := ackDonations_ok hack
    exact .ack hack
  | subscribe consumer channel key enabled =>
    obtain ⟨⟨db1, b⟩, hsub, heq⟩ := map_ok hop
    cases heq
    rcases setSubscription_ok hsub with ⟨-, -, -, -, rfl⟩ | ⟨rfl, c, requests, -, hins, rfl⟩
    · exact .same _ _
    · exact .subscribe _ hins
  | resolve consumer channel key previous next resume expected request =>
    obtain ⟨⟨db1, r⟩, hres, heq⟩ := map_ok hop
    cases heq
    rcases resolveRecovery_ok hres with ⟨-, -, -, -, rfl⟩ | happ
    · exact .same _ _
    · obtain ⟨requests, hins, rfl⟩ := happ.written
      exact .resolve hins happ
  | expire channel minAge maxAge maxPayloadBytes =>
    obtain ⟨db1, hexp, heq⟩ := map_ok hop
    cases heq
    obtain ⟨c, hc, ⟨-, rfl⟩ | ⟨hlt, rfl⟩⟩ := expireDonations_ok hexp
    · exact .same _ _
    · exact .expire hc hlt
  | maintain channel =>
    obtain ⟨db1, hmain, heq⟩ := map_ok hop
    cases heq
    obtain ⟨db2, hexp, rfl⟩ := maintainCollection_ok hmain
    exact .maintain hexp
  | rotate channel expected reason =>
    obtain ⟨⟨db1, n⟩, hrot, heq⟩ := map_ok hop
    cases heq
    obtain ⟨rfl, c, hc, -, rfl⟩ := rotateJournal_ok hrot
    exact .rotate expected reason hc

/-- Every committed operation keeps the invariant. -/
theorem JournalInv.apply {op : Op} {reply : Reply} (h : JournalInv db)
    (hop : Journal.apply B t uuid db op = .ok (db', reply)) : JournalInv db' := by
  cases apply_commits hop with
  | same => exact h
  | ensure hins => exact h.ensure hins
  | setState | acquire | subscribe =>
    refine h.frame (JournalFrame.of_modify ?_)
    exact fun _ => ⟨rfl, rfl, rfl⟩
  | heartbeat =>
    refine h.frame (JournalFrame.of_modify ?_)
    intro c
    split <;> exact ⟨rfl, rfl, rfl⟩
  | renew | release | aside =>
    exact h.frame (JournalFrame.of_eq rfl rfl rfl)
  | append _ hc _ hnew =>
    obtain ⟨row, donations, outbox, -, -, hmax, hins, -, -, -, rfl⟩ := appendNew_ok hnew
    exact h.append (Table.find_eq_some_iff.mp hc) hmax hins rfl rfl rfl
  | read hread => exact h.read hread
  | ack hack => exact h.ack hack
  | resolve _ happ => exact h.resolve happ
  | expire hc hlt =>
    have hc' := Table.find_eq_some_iff.mp hc
    exact h.retention hc' hlt (h.expiresThrough_le hc' _ _ _)
  | purge => exact h.purge
  | maintain hexp => exact (h.expire hexp).purge
  | rotate _ _ hc => exact h.rotate (Table.find_eq_some_iff.mp hc)

/-- The invariant holds in every reachable state. -/
theorem Reachable.journalInv {s : Sys} (hs : Reachable B s) : JournalInv s.db :=
  hs.db_invariant JournalInv.empty fun _ _ _ _ _ _ h hop => h.apply hop

/-- Every step keeps the invariant, and so does every run. -/
theorem step_journalInv (s : Sys) (call : Call) (h : JournalInv s.db) :
    JournalInv ((machine B).step s call).1.db :=
  step_db_invariant (fun _ _ _ _ _ _ h hop => h.apply hop) s call h

theorem run_journalInv {s s' : Sys} {tr : List (Call × Except StoreErr Reply)}
    (hr : (machine B).Run s tr s') (h : JournalInv s.db) : JournalInv s'.db :=
  hr.invariant (I := fun s => JournalInv s.db) (fun s call h _ => step_journalInv s call h) h

/-! ## What the invariant says about one channel -/

/-- The journal of one channel, as its consumers may rely on it. -/
structure Represents (db : Db) (channel : String) (c : ChannelRow) : Prop where
  /-- The counters are in order. -/
  counters : c.expiredThrough ≤ c.nextOffset
  /-- Each retained offset is one row with a payload. -/
  retained : ∀ o, c.expiredThrough < o → o ≤ c.nextOffset →
    ∃! e, ∃ row, db.donations.Has e row ∧ row.channelID = channel ∧
      row.channelOffset = o ∧ row.payload.isSome
  /-- A row with a payload is at a retained offset, and column and payload
  agree on generation and offset. -/
  live : ∀ e row d, db.donations.Has e row → row.channelID = channel →
    row.payload = some d →
      c.expiredThrough < row.channelOffset ∧ row.channelOffset ≤ c.nextOffset ∧
        row.generation = c.generation ∧ d.generation = c.generation ∧
        d.offset = row.channelOffset
  /-- A tombstone is below the retained offsets. -/
  tombstone : ∀ e row, db.donations.Has e row → row.channelID = channel →
    row.payload = none → row.channelOffset ≤ c.expiredThrough
  /-- Cursors of the current generation stay in order inside the journal. -/
  cursors : ∀ consumer p, db.consumers.Has (consumer, channel) p →
    p.generation = c.generation →
      p.baseline ≤ p.position ∧ p.position ≤ p.offeredOffset ∧
        p.offeredOffset ≤ c.nextOffset
  /-- The row loop of `ReadDonations` meets no hole from any cursor that
  passes the window checks. -/
  no_hole : ∀ after limit, c.expiredThrough ≤ after → after ≤ c.nextOffset →
    ∃ ds next, scanDonations after
      (selectPayloads db channel c.generation after limit) = .ok (ds, next)
  /-- A successful read returns the payloads of the next offsets, in order. -/
  page : ∀ t db' consumer generation after revision limit ds st,
    readDonations t db consumer channel generation after revision limit =
        .ok (db', ds, st) →
      ds.map Donation.offset =
          List.range' (after + 1) (min (pageLimit limit) (c.nextOffset - after)) ∧
        ∀ d ∈ ds, ∃ e row, db.donations.Has e row ∧ row.channelID = channel ∧
          row.payload = some d

/-- What a successful read returns. -/
theorem JournalInv.read_page (h : JournalInv db) {limit : Int} {ds : List Donation}
    {st : CollectionState} (hc : db.channels.Has channel c)
    (hread : readDonations t db consumer channel generation after revision limit =
      .ok (db', ds, st)) :
    ds = selectPayloads db channel c.generation after (pageLimit limit) ∧
      ds.map Donation.offset =
        List.range' (after + 1) (min (pageLimit limit) (c.nextOffset - after)) := by
  obtain ⟨c', p, next, hfind, rfl, hexp, hcur, -, -, -, -, -, hscan, -, -⟩ :=
    readDonations_ok hread
  obtain rfl : c' = c := (Table.find_eq_some_iff.mp hfind).unique hc
  rw [h.scanDonations_ok hc hexp hcur] at hscan
  injection hscan with hscan
  injection hscan with hds _
  exact ⟨hds.symm, hds ▸ h.selectPayloads_offset hc hexp _⟩

/-- **Representation invariant.**  In every reachable state every channel's
rows represent one contiguous journal. -/
theorem journal_represents {B : Backend} {s : Sys} (hs : Reachable B s)
    {channel : String} {c : ChannelRow} (hc : s.db.channels.Has channel c) :
    Represents s.db channel c := by
  have h := hs.journalInv
  constructor
  case counters => exact h.expired_le hc
  case retained =>
    intro o hlo hhi
    obtain ⟨e, row, hr, hch, ho⟩ := h.retained hc hlo hhi
    have hsome := (h.row_live hr (hch ▸ hc)).mpr (by omega)
    refine ⟨e, ⟨row, hr, hch, ho, hsome⟩, ?_⟩
    rintro e' ⟨row', hr', hch', ho', -⟩
    exact h.row_unique hr' hr (hch'.trans hch.symm) (ho'.trans ho.symm)
  case live =>
    rintro e row d hr rfl hd
    obtain ⟨-, -, hg, ho⟩ := h.payload hr hd
    have hgen := h.row_current hr hc
    exact ⟨(h.row_live hr hc).mp (by simp [hd]), h.row_le hr hc, hgen,
      hg.trans hgen, ho⟩
  case tombstone =>
    rintro e row hr rfl hnone
    have hlive := h.row_live hr hc
    simp only [hnone, Option.isSome_none, Bool.false_eq_true, false_iff] at hlive
    exact Nat.le_of_not_lt hlive
  case cursors => exact fun consumer p hp _ => h.cursor hp hc
  case no_hole => exact fun after limit hlo hhi => ⟨_, _, h.scanDonations_ok hc hlo hhi limit⟩
  case page =>
    intro t db' consumer generation after revision limit ds st hread
    obtain ⟨hds, hoff⟩ := h.read_page hc hread
    refine ⟨hoff, fun d hd => ?_⟩
    rw [hds] at hd
    exact mem_selectPayloads hd

/-- One donation journaled and read by a new consumer. -/
def readOnce : List Call :=
  fixtureCalls (40 * day) ++
    [ .at (40 * day) "unused-2"
        (.append (fixtureGrant (40 * day)) (fixtureDonation 1 "epoch-a" (40 * day))
          (40 * day))
    , .at (40 * day) "unused-3"
        (.read "fixture_consumer" "fixture_channel" "generation-a" 0 0 100) ]

theorem journal_represents_readOnce :
    ∃ c, ((machine fixtureBackend).exec Sys.init readOnce).1.db.channels.Has
        "fixture_channel" c ∧ c.nextOffset = 1 ∧
      Represents ((machine fixtureBackend).exec Sys.init readOnce).1.db
        "fixture_channel" c := by
  have hc : ∃ c, ((machine fixtureBackend).exec Sys.init readOnce).1.db.channels.find
      "fixture_channel" = some c ∧ c.nextOffset = 1 := by
    refine ⟨_, rfl, rfl⟩
  obtain ⟨c, hfind, hnext⟩ := hc
  have hhas := Table.find_eq_some_iff.mp hfind
  exact ⟨c, hhas, hnext, journal_represents (reachable_exec readOnce (by decide)) hhas⟩

end RogiCollector.Ports.Journal
