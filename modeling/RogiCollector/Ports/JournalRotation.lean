import RogiCollector.Ports.OwnerLease
import RogiCollector.Ports.ConsumerProgress

/-!
# Restore rotation

`RotateJournal` moves a channel's journal to a new generation.  Everything a
consumer could lose stays: observations, counters, cursors, saved requests.
Everything that worked in the old generation stops: cursors until a recovery
names both generations, grants for good.

The cut rests on one fact about UUIDs.  Every generation in the database was
drawn at some point (`Drawn`), so the generation a rotation draws is none of
them, and a generation a channel has left never comes back (`Left.of_step`).
-/

namespace RogiCollector.Ports.Journal

open Verified

variable {B : Backend} {t : Clocks} {uuid : String} {db db' : Db}

/-! ## Generations are drawn once -/

/-- Every generation in the database was drawn before. -/
structure Drawn (s : Sys) : Prop where
  channel : ∀ {ch c}, s.db.channels.Has ch c → c.generation ∈ s.minted
  consumer : ∀ {consumer channel p}, s.db.consumers.Has (consumer, channel) p →
    p.generation ∈ s.minted

theorem Drawn.init : Drawn Sys.init where
  channel h := absurd h (Table.has_empty _ _)
  consumer h := absurd h (Table.has_empty _ _)

variable {s : Sys}

/-- After a call a channel is in the generation it was in, or in the one the
call drew. -/
theorem step_generation (call : Call) {ch : String} {c' : ChannelRow}
    (hc' : ((machine B).step s call).1.db.channels.Has ch c') :
    (∃ c, s.db.channels.Has ch c ∧ c'.generation = c.generation) ∨
      c'.generation = call.uuid := by
  cases step_ownerStep (B := B) s call with
  | quiet hq =>
    rcases hq.chan hc' with ⟨c, hc, -, heq⟩ | ⟨-, heq, -⟩
    · exact Or.inl ⟨c, hc, heq⟩
    · exact Or.inr heq
  | acquire f hc hvalid hgrants hchannels hf hfg =>
    rw [hchannels] at hc'
    rcases (Table.has_modify_of_has hc).mp hc' with ⟨rfl, rfl⟩ | ⟨-, hc'⟩
    · exact Or.inl ⟨_, hc, hfg⟩
    · exact Or.inl ⟨c', hc', rfl⟩
  | renew hc ho hrow hvalid hgrants hchannels =>
    rw [hchannels] at hc'
    exact Or.inl ⟨c', hc', rfl⟩

variable {consumer channel : String}

/-- A consumer's row after a call is in the generation it was in, or in the
channel's. -/
theorem ProgressStep.generation {op : Op} {reply : Reply} {old new : Option ConsumerRow}
    {p' : ConsumerRow} (h : ProgressStep B t db db' op reply consumer channel old new)
    (hnew : new = some p') :
    (∃ p, old = some p ∧ p'.generation = p.generation) ∨
      ∃ c, db.channels.Has channel c ∧ p'.generation = c.generation := by
  cases h with
  | same => exact Or.inl ⟨p', hnew, rfl⟩
  | read hop hreply hc hgen hrow hrev hlo hhi hpage | ack hop hc hgen hrev hpos hhi =>
    injection hnew with hnew
    subst hnew
    exact Or.inr ⟨_, hc, hgen⟩
  | resolve hop hreply hold happ =>
    injection hnew with hnew
    subst hnew
    obtain ⟨c, hfind, hnext, -⟩ := happ.generation
    exact Or.inr ⟨c, Table.find_eq_some_iff.mp hfind, hnext⟩

theorem Drawn.of_step (h : Drawn s) (hinv : JournalInv s.db) (call : Call) :
    Drawn ((machine B).step s call).1 where
  channel := by
    intro ch c' hc'
    rw [step_minted]
    rcases step_generation call hc' with ⟨c, hc, heq⟩ | heq
    · rw [heq]
      exact List.mem_cons_of_mem _ (h.channel hc)
    · rw [heq]
      exact List.mem_cons_self
  consumer := by
    intro consumer channel p' hp'
    rw [step_minted]
    apply List.mem_cons_of_mem
    rcases step_db (B := B) s call with ⟨reply, hok, -⟩ | ⟨e, -, hdb, -⟩
    · have hstep := apply_progress hinv hok consumer channel
      rcases hstep.generation (Table.find_eq_some_iff.mpr hp') with
        ⟨p, hp, heq⟩ | ⟨c, hc, heq⟩
      · rw [heq]
        exact h.consumer (Table.find_eq_some_iff.mp hp)
      · rw [heq]
        exact h.channel hc
    · rw [hdb] at hp'
      exact h.consumer hp'

theorem Reachable.drawn (hs : Reachable B s) : Drawn s := by
  obtain ⟨tr, hr⟩ := hs
  have hboth : JournalInv s.db ∧ Drawn s := by
    refine hr.invariant (I := fun s => JournalInv s.db ∧ Drawn s) ?_
      ⟨JournalInv.empty, Drawn.init⟩
    intro s call h _
    exact ⟨step_journalInv s call h.1, h.2.of_step h.1 call⟩
  exact hboth.2

/-- The channel is in another generation than `generation`, which was drawn. -/
structure Left (s : Sys) (channel generation : String) : Prop where
  drawn : generation ∈ s.minted
  other : ∀ {c}, s.db.channels.Has channel c → c.generation ≠ generation

variable {generation : String} {call : Call}

/-- A generation a channel has left never comes back. -/
theorem Left.of_step (h : Left s channel generation) (hadm : call.admits s) :
    Left ((machine B).step s call).1 channel generation
    where
  drawn := by
    rw [step_minted]
    exact List.mem_cons_of_mem _ h.drawn
  other := by
    intro c' hc'
    rcases step_generation call hc' with ⟨c, hc, heq⟩ | heq
    · rw [heq]
      exact h.other hc
    · rw [heq]
      rintro rfl
      exact hadm.2 h.drawn

variable {tr : History}

theorem Left.of_run {s' : Sys} (h : Left s channel generation) (hr : (machine B).Run s tr s') :
    Left s' channel generation :=
  hr.invariant (I := fun s => Left s channel generation) (fun _ _ h hadm => h.of_step hadm) h

/-! ## Grants issued before -/

/-- The history holds an acquisition that returned `g`. -/
def Issued (tr : History) (g : OwnerGrant) : Prop := ∃ call, (call, .ok (.grant g)) ∈ tr

variable {g : OwnerGrant}

/-- Only an acquisition returns a grant, in the generation of its channel. -/
theorem step_grant (h : ((machine B).step s call).2 = .ok (.grant g)) :
    ∃ ch c, s.db.channels.Has ch c ∧ g.generation = c.generation := by
  rcases step_db (B := B) s call with ⟨reply, hok, hout⟩ | ⟨e, -, -, hout⟩
  · rw [hout] at h
    injection h with h
    subst h
    generalize hop : call.op = op at hok
    cases op with
    | acquire channel worker =>
      obtain ⟨⟨db1, g'⟩, hacq, heq⟩ := map_ok hok
      injection heq with _ hg
      injection hg with hg
      obtain ⟨c, grants, hfind, -, -, -, hgrant⟩ := acquireCollection_ok hacq
      rw [← hg, hgrant]
      exact ⟨channel, c, Table.find_eq_some_iff.mp hfind, rfl⟩
    | setState | heartbeat | release | dispatch | purge | optOut | assign =>
      simp [apply] at hok
    | ensure | renew | append | read | ack | subscribe | resolve | expire | maintain | rotate =>
      obtain ⟨a, -, heq⟩ := map_ok hok
      simp at heq
  · rw [hout] at h
    cases h

/-- The generation of an issued grant was drawn before. -/
theorem issued_drawn (hr : (machine B).Run Sys.init tr s) (hg : Issued tr g) :
    g.generation ∈ s.minted := by
  induction hr with
  | nil =>
    obtain ⟨call, hmem⟩ := hg
    cases hmem
  | @snoc tr s hr call hadm ih =>
    rw [step_minted]
    apply List.mem_cons_of_mem
    obtain ⟨call', hmem⟩ := hg
    rcases List.mem_append.mp hmem with hmem | hmem
    · exact ih ⟨call', hmem⟩
    · simp only [List.mem_singleton, Prod.mk.injEq] at hmem
      obtain ⟨ch, c, hc, heq⟩ := step_grant hmem.2.symm
      rw [heq]
      exact (Reachable.drawn ⟨tr, hr⟩).channel hc

/-- A renewal outside the grant's generation fails. -/
theorem renew_left (h : Left s g.channel g.generation) (hop : call.op = .renew g) :
    ∃ e, ((machine B).step s call).2 = .error e := by
  rcases step_db (B := B) s call with ⟨reply, hok, -⟩ | ⟨e, -, -, hout⟩
  · rw [hop] at hok
    obtain ⟨⟨db1, until_⟩, hren, -⟩ := map_ok hok
    obtain ⟨c, row, hfind, -, hgen, -⟩ := renewCollection_ok hren
    exact absurd hgen (h.other (Table.find_eq_some_iff.mp hfind))
  · exact ⟨e, hout⟩

/-- What `AppendDonation` answers to a grant of an older generation: the error of the
first check that fails, the generation being looked at last. -/
def refusal (B : Backend) (t : Clocks) (channel : String) (d : Donation)
    (acceptedAt : Time) : StoreErr :=
  match d.validate with
  | .error e => e
  | .ok () =>
    if acceptedAt + 30 * day < t.now 0 then .cursorExpired
    else if d.channelID ≠ channel ∨ B.allowsCollection channel = false then
      .collectionDisabled
    else .generation

variable {c : ChannelRow}

theorem appendDonation_left {d : Donation} {acceptedAt : Time} {t : Clocks}
    (h : Left s g.channel g.generation) (hc : s.db.channels.Has g.channel c) :
    appendDonation B t s.db g d acceptedAt =
      .error (refusal B t g.channel d acceptedAt) := by
  have hgen : g.generation ≠ c.generation := fun heq => h.other hc heq.symm
  rw [appendDonation, refusal]
  cases d.validate with
  | error e => rfl
  | ok _ =>
    dsimp only
    split
    · rfl
    by_cases hch : d.channelID = g.channel
    · rw [hch, Table.find_eq_some_iff.mpr hc]
      cases B.allowsCollection g.channel with
      | false => simp
      | true => simp [hgen]
    · simp [hch]

/-- An append outside the grant's generation fails and writes nothing. -/
theorem append_left {d : Donation} {acceptedAt : Time} (h : Left s g.channel g.generation)
    (hc : s.db.channels.Has g.channel c) (hop : call.op = .append g d acceptedAt) :
    ((machine B).step s call).1.db = s.db ∧
      ((machine B).step s call).2 = .error (refusal B call.clocks g.channel d acceptedAt) := by
  have happ : apply B call.clocks call.uuid s.db call.op =
      .error (refusal B call.clocks g.channel d acceptedAt) := by
    rw [hop, apply, appendDonation_left h hc]
    rfl
  rcases step_db (B := B) s call with ⟨reply, hok, -⟩ | ⟨e, herr, hdb, hout⟩
  · rw [happ] at hok
    cases hok
  · rw [happ] at herr
    cases herr
    exact ⟨hdb, hout⟩

/-! ## Cursors of an older generation -/

/-- A read or an acknowledgement of the consumer. -/
def CursorCall (call : Call) (consumer channel : String) : Prop :=
  (∃ generation after revision limit,
      call.op = .read consumer channel generation after revision limit) ∨
    ∃ generation offset revision, call.op = .ack consumer channel generation offset revision

/-- It only succeeds when the consumer's row is in the channel's generation. -/
theorem cursorCall_generation {p : ConsumerRow} {reply : Reply}
    (hcall : CursorCall call consumer channel) (hp : s.db.consumers.Has (consumer, channel) p)
    (hok : apply B call.clocks call.uuid s.db call.op = .ok (db', reply)) :
    ∃ c, s.db.channels.Has channel c ∧ c.generation = p.generation := by
  rcases hcall with ⟨generation, after, revision, limit, hop⟩ |
    ⟨generation, offset, revision, hop⟩
  · rw [hop] at hok
    obtain ⟨⟨db1, ds, st⟩, hread, -⟩ := map_ok hok
    obtain ⟨c, p', next, hfind, rfl, -, -, hp', hgen, -⟩ := readDonations_ok hread
    rcases withConsumer_has.mp hp' with hp' | ⟨hnone, -, -⟩
    · rw [hp'.unique hp] at hgen
      exact ⟨c, Table.find_eq_some_iff.mp hfind, hgen.symm⟩
    · exact absurd hp (Table.find_eq_none_iff.mp hnone p)
  · rw [hop] at hok
    obtain ⟨db1, hack, -⟩ := map_ok hok
    obtain ⟨c, p', hfind, hcg, -, hp', hgen, -⟩ := ackDonations_ok hack
    rw [hp'.unique hp] at hgen
    exact ⟨c, Table.find_eq_some_iff.mp hfind, hcg.trans hgen.symm⟩

/-- In state `s` the call is a successful recovery of the consumer that names
`previous` and the channel's generation. -/
def Recovers (s : Sys) (call : Call) (out : Except StoreErr Reply)
    (consumer channel previous : String) : Prop :=
  ∃ c key resume expected request r, s.db.channels.Has channel c ∧
    call.op = .resolve consumer channel key previous c.generation resume expected request ∧
    out = .ok (.decision r)

/-- Until it is recovered, the row of a left generation stays as it is. -/
theorem run_row_left {s' : Sys} {p : ConsumerRow} (hinv : JournalInv s.db)
    (h : Left s channel p.generation) (hp : s.db.consumers.Has (consumer, channel) p)
    (hr : (machine B).Run s tr s')
    (huntil : ∀ tr1 call out tr2 s1, tr = tr1 ++ (call, out) :: tr2 → (machine B).Run s tr1 s1 →
      ¬Recovers s1 call out consumer channel p.generation) :
    s'.db.consumers.Has (consumer, channel) p := by
  induction hr with
  | nil => exact hp
  | @snoc tr s' hr call hadm ih =>
    have hp' : s'.db.consumers.Has (consumer, channel) p := by
      apply ih
      intro tr1 call1 out1 tr2 s1 htr hr1
      exact huntil tr1 call1 out1 (tr2 ++ [(call, ((machine B).step s' call).2)]) s1
        (by rw [htr, List.append_assoc, List.cons_append]) hr1
    have hleft := h.of_run hr
    have hlast := huntil tr call _ [] s' rfl hr
    rcases step_db (B := B) s' call with ⟨reply, hok, hout⟩ | ⟨e, -, hdb, -⟩
    · have hstep := apply_progress (run_journalInv hr hinv) hok consumer channel
      rw [Table.find_eq_some_iff.mpr hp'] at hstep
      rw [hout] at hlast
      generalize hnew : ((machine B).step s' call).1.db.consumers.find (consumer, channel) =
        new at hstep
      cases hstep with
      | same => exact Table.find_eq_some_iff.mp hnew
      | read hop hreply hc hgen hrow hrev hlo hhi hpage =>
        rcases hrow with hrow | ⟨hnone, -⟩
        · cases hrow
          exact absurd hgen.symm (hleft.other hc)
        · cases hnone
      | ack hop hc hgen hrev hpos hhi => exact absurd hgen.symm (hleft.other hc)
      | @resolve _ key previous next resume expected request r hop hreply hold happ =>
        obtain ⟨c, hfind, hnext, -⟩ := happ.generation
        have hprog := happ.progress
        rw [recoveryProgress, ← hold] at hprog
        have hprev : previous = p.generation := hprog.symm
        subst hnext hprev hreply
        exact absurd ⟨c, key, resume, expected, request, r,
          Table.find_eq_some_iff.mp hfind, hop, rfl⟩ hlast
    · rw [hdb]
      exact hp'

/-! ## The retained donations -/

/-- The donations of a channel that still have their payload, by offset. -/
def retainedDonations (db : Db) (channel : String) : List Donation :=
  (orderBy (fun row => row.2.channelOffset)
      (db.donations.select fun _ row => row.channelID = channel ∧ row.payload.isSome)).filterMap
    fun row => row.2.payload

/-- Rows of one channel are determined by their offset. -/
theorem JournalInv.row_eq {rows rows' : List (String × DonationRow)} (h : JournalInv db)
    (channel : String)
    (hrows : ∀ row ∈ rows, db.donations.Has row.1 row.2 ∧ row.2.channelID = channel)
    (hrows' : ∀ row ∈ rows', db.donations.Has row.1 row.2 ∧ row.2.channelID = channel)
    (hoff : rows.map (fun row => row.2.channelOffset) =
      rows'.map fun row => row.2.channelOffset) : rows = rows' := by
  apply eq_of_map_eq _ hoff
  rintro ⟨e, row⟩ hrow ⟨e', row'⟩ hrow' ho
  obtain ⟨hr, hch⟩ := hrows _ hrow
  obtain ⟨hr', hch'⟩ := hrows' _ hrow'
  obtain rfl : e = e' := h.row_unique hr hr' (hch.trans hch'.symm) ho
  obtain rfl : row = row' := Table.Has.unique hr hr'
  rfl

variable {after : Nat}

/-- The page query is a window of the retained donations. -/
theorem JournalInv.selectPayloads_eq (h : JournalInv db) (hc : db.channels.Has channel c)
    (hexp : c.expiredThrough ≤ after) (limit : Nat) :
    selectPayloads db channel c.generation after limit =
      ((retainedDonations db channel).drop (after - c.expiredThrough)).take limit := by
  -- Without the cursor the query selects every row with a payload.
  have hall : (db.donations.select fun _ row =>
        row.channelID = channel ∧ row.generation = c.generation ∧
          c.expiredThrough < row.channelOffset ∧ row.payload.isSome) =
      db.donations.select fun _ row => row.channelID = channel ∧ row.payload.isSome := by
    apply Table.select_congr
    intro e row hr
    rw [decide_eq_decide]
    constructor
    · rintro ⟨hch, -, -, hsome⟩
      exact ⟨hch, hsome⟩
    · rintro ⟨hch, hsome⟩
      have hrc : db.channels.Has row.channelID c := hch ▸ hc
      exact ⟨hch, h.row_current hr hrc, (h.row_live hr hrc).mp hsome, hsome⟩
  have hoff := h.orderBy_offset hc (Nat.le_refl c.expiredThrough)
  rw [hall] at hoff
  have hdrop : orderBy (fun row : String × DonationRow => row.2.channelOffset)
        (db.donations.select fun _ row =>
          row.channelID = channel ∧ row.generation = c.generation ∧
            after < row.channelOffset ∧ row.payload.isSome) =
      (orderBy (fun row : String × DonationRow => row.2.channelOffset)
        (db.donations.select fun _ row =>
          row.channelID = channel ∧ row.payload.isSome)).drop (after - c.expiredThrough) := by
    apply h.row_eq channel
    · intro row hrow
      have hsel := (mem_orderBy _).mp hrow
      simp only [Table.mem_select, decide_eq_true_eq] at hsel
      exact ⟨hsel.1, hsel.2.1⟩
    · intro row hrow
      have hsel := (mem_orderBy _).mp (List.mem_of_mem_drop hrow)
      simp only [Table.mem_select, decide_eq_true_eq] at hsel
      exact ⟨hsel.1, hsel.2.1⟩
    · rw [List.map_drop, hoff, h.orderBy_offset hc hexp, List.drop_range']
      congr 1 <;> omega
  rw [selectPayloads, hdrop, retainedDonations]
  have hsome : ∀ row ∈ orderBy (fun row : String × DonationRow => row.2.channelOffset)
      (db.donations.select fun _ row => row.channelID = channel ∧ row.payload.isSome),
        row.2.payload.isSome := by
    intro row hrow
    have hsel := (mem_orderBy _).mp hrow
    simp only [Table.mem_select, decide_eq_true_eq] at hsel
    exact hsel.2.2
  exact filterMap_window _ _ _ hsome

/-- The retained donations fill the window of the counters. -/
theorem JournalInv.retained_length (h : JournalInv db) (hc : db.channels.Has channel c) :
    (retainedDonations db channel).length = c.nextOffset - c.expiredThrough := by
  have hexp := Nat.le_refl c.expiredThrough
  -- A limit beyond both lengths cuts nothing off.
  have hoff := h.selectPayloads_offset hc hexp
    ((retainedDonations db channel).length + (c.nextOffset - c.expiredThrough))
  rw [h.selectPayloads_eq hc hexp, Nat.sub_self, List.drop_zero,
    List.take_of_length_le (Nat.le_add_right _ _), Nat.min_eq_right (Nat.le_add_left _ _)]
    at hoff
  have hlen := congrArg List.length hoff
  simpa using hlen

/-- The row function of a rotation. -/
def rotateRow (uuid channel : String) (c : ChannelRow) (row : DonationRow) : DonationRow :=
  if row.channelID = channel ∧ row.generation = c.generation then row.rotate uuid else row

@[simp] theorem rotateRow_channelID (channel : String) (c : ChannelRow) (row : DonationRow) :
    (rotateRow uuid channel c row).channelID = row.channelID := by
  unfold rotateRow
  split <;> rfl

@[simp] theorem rotateRow_channelOffset (channel : String) (c : ChannelRow)
    (row : DonationRow) :
    (rotateRow uuid channel c row).channelOffset = row.channelOffset := by
  unfold rotateRow
  split <;> rfl

@[simp] theorem rotateRow_isSome (channel : String) (c : ChannelRow) (row : DonationRow) :
    (rotateRow uuid channel c row).payload.isSome = row.payload.isSome := by
  unfold rotateRow
  split
  · simp [DonationRow.rotate]
  · rfl

variable {reason : String}

/-- The retained donations after a rotation: the same ones, in the same order,
with the new generation. -/
theorem rotate_retained (h : JournalInv db) (hc : db.channels.Has channel c) :
    retainedDonations (rotated t uuid db channel reason c) channel =
      (retainedDonations db channel).map fun d => { d with generation := uuid } := by
  have hdon : (rotated t uuid db channel reason c).donations =
      db.donations.update fun _ row => rotateRow uuid channel c row := rfl
  unfold retainedDonations
  rw [hdon, Table.select_update, orderBy_map]
  simp only [rotateRow_channelID, rotateRow_channelOffset, rotateRow_isSome]
  rw [List.filterMap_map, List.map_filterMap]
  apply List.filterMap_congr
  rintro ⟨e, row⟩ hrow
  have hsel := (mem_orderBy _).mp hrow
  simp only [Table.mem_select, decide_eq_true_eq] at hsel
  have hgen : row.generation = c.generation := h.row_current hsel.1 (hsel.2.1 ▸ hc)
  simp [rotateRow, hsel.2.1, hgen, DonationRow.rotate]

/-! ## Paging -/

/-- Reads that follow one another, each from the last offset of the page
before it, as `WatchDonations` makes them. -/
def readPages (t : Clocks) (consumer channel generation : String) (revision : Nat) :
    Db → Nat → List Int → Except StoreErr (Db × List Donation)
  | db, _, [] => .ok (db, [])
  | db, after, limit :: limits =>
    match readDonations t db consumer channel generation after revision limit with
    | .error e => .error e
    | .ok (db', ds, _) =>
      match readPages t consumer channel generation revision db'
          ((ds.getLast?.map Donation.offset).getD after) limits with
      | .error e => .error e
      | .ok (db'', rest) => .ok (db'', ds ++ rest)

/-- The consumer may read on from `after`. -/
def MayRead (db : Db) (consumer channel : String) (c : ChannelRow) (after revision : Nat) :
    Prop :=
  (db.consumers.find (consumer, channel) = none ∧ after = c.expiredThrough ∧ revision = 0) ∨
    ∃ p, db.consumers.find (consumer, channel) = some p ∧ p.generation = c.generation ∧
      p.recoveryRevision = revision ∧ p.baseline ≤ after ∧ after ≤ p.offeredOffset

/-- Such a read returns its window and the consumer may read on behind it. -/
theorem JournalInv.read_next (h : JournalInv db) (hc : db.channels.Has channel c)
    {revision : Nat} (hexp : c.expiredThrough ≤ after) (hcur : after ≤ c.nextOffset)
    (hmay : MayRead db consumer channel c after revision) (limit : Int) :
    ∃ db' st, readDonations t db consumer channel c.generation after revision limit =
        .ok (db', selectPayloads db channel c.generation after (pageLimit limit), st) ∧
      db'.channels = db.channels ∧ db'.donations = db.donations ∧
      MayRead db' consumer channel c
        (after + min (pageLimit limit) (c.nextOffset - after)) revision := by
  have hrow : ∃ p, (withConsumer db (consumer, channel) c.generation c.expiredThrough).Has
      (consumer, channel) p ∧ p.generation = c.generation ∧ p.recoveryRevision = revision ∧
        p.baseline ≤ after ∧ after ≤ p.offeredOffset := by
    rcases hmay with ⟨hnone, rfl, rfl⟩ | ⟨p, hp, hrest⟩
    · exact ⟨⟨c.generation, c.expiredThrough, none, c.expiredThrough, 0⟩,
        withConsumer_has.mpr (Or.inr ⟨hnone, rfl, rfl⟩), rfl, rfl, Nat.le_refl _, Nat.le_refl _⟩
    · exact ⟨p, withConsumer_has.mpr (Or.inl (Table.find_eq_some_iff.mp hp)), hrest⟩
  obtain ⟨p, hp, hgen, hrev, hlo, hhi⟩ := hrow
  have hwin : ¬(after < p.baseline ∨ p.offeredOffset < after) := by omega
  have hread : ∃ db' st, readDonations t db consumer channel c.generation after revision
      limit = .ok (db', selectPayloads db channel c.generation after (pageLimit limit), st) := by
    simp only [readDonations, Table.find_eq_some_iff.mpr hc, Table.find_eq_some_iff.mpr hp,
      hgen, hrev, hwin, Nat.not_lt.mpr hexp, Nat.not_lt.mpr hcur,
      h.scanDonations_ok hc hexp hcur, ne_eq, not_true_eq_false, if_false]
    exact ⟨_, _, rfl⟩
  obtain ⟨db', st, hread⟩ := hread
  obtain ⟨c', p', next, hfind, -, -, -, hp', -, -, -, -, hscan, hdb, -⟩ :=
    readDonations_ok hread
  obtain rfl : c' = c := (Table.find_eq_some_iff.mp hfind).unique hc
  obtain rfl : p' = p := hp'.unique hp
  rw [h.scanDonations_ok hc hexp hcur] at hscan
  injection hscan with hscan
  injection hscan with _ hnext
  refine ⟨db', st, hread, by rw [hdb], by rw [hdb], Or.inr ?_⟩
  rw [hnext, hdb]
  by_cases hlt : p'.offeredOffset < next
  · refine ⟨{ p' with offeredOffset := next }, ?_, hgen, hrev, ?_, Nat.le_refl _⟩
    swap
    · dsimp only
      omega
    simp only [hlt, if_true]
    exact Table.find_modify_self hp
  · refine ⟨p', ?_, hgen, hrev, by omega, Nat.le_of_not_lt hlt⟩
    simp only [hlt, if_false]
    exact Table.find_eq_some_iff.mpr hp

/-- Paging from a cursor of the window returns the retained donations after
it, page after page. -/
theorem JournalInv.readPages_window (h : JournalInv db) (hc : db.channels.Has channel c)
    {revision : Nat} (hexp : c.expiredThrough ≤ after) (hcur : after ≤ c.nextOffset)
    (hmay : MayRead db consumer channel c after revision) (limits : List Int) :
    ∃ db', readPages t consumer channel c.generation revision db after limits =
      .ok (db', ((retainedDonations db channel).drop (after - c.expiredThrough)).take
        (limits.map pageLimit).sum) := by
  induction limits generalizing db after with
  | nil => exact ⟨db, by simp [readPages]⟩
  | cons limit limits ih =>
    obtain ⟨db1, st, hread, hchan, hdon, hmay1⟩ := h.read_next (t := t) hc hexp hcur hmay limit
    have hoff := h.selectPayloads_offset hc hexp (pageLimit limit)
    -- The next page starts at the last offset of this one.
    have hlast : ((selectPayloads db channel c.generation after
          (pageLimit limit)).getLast?.map Donation.offset).getD after =
        after + min (pageLimit limit) (c.nextOffset - after) := by
      rw [← List.getLast?_map, hoff, List.getLast?_range']
      split
      · simp only [Option.getD_none]
        omega
      · simp only [Option.getD_some]
        omega
    have h1 : JournalInv db1 := h.read hread
    have hret : retainedDonations db1 channel = retainedDonations db channel := by
      rw [retainedDonations, retainedDonations, hdon]
    obtain ⟨db2, hrest⟩ := ih h1 (hchan ▸ hc) (Nat.le_add_right_of_le hexp)
      (by omega) hmay1
    refine ⟨db2, ?_⟩
    simp only [readPages, hread, hlast, hrest, hret, List.map_cons, List.sum_cons]
    rw [h.selectPayloads_eq hc hexp, List.take_add, List.drop_drop]
    -- A page that is not full is the last one: both rests are empty.
    have hdrop : (retainedDonations db channel).drop
          (after + min (pageLimit limit) (c.nextOffset - after) - c.expiredThrough) =
        (retainedDonations db channel).drop
          (after - c.expiredThrough + pageLimit limit) := by
      have hlen := h.retained_length hc
      rcases Nat.le_total (pageLimit limit) (c.nextOffset - after) with hle | hle
      · rw [Nat.min_eq_left hle]
        congr 1
        omega
      · rw [List.drop_eq_nil_of_le (by omega), List.drop_eq_nil_of_le (by omega)]
    rw [hdrop]

/-! ## The rotation -/

/-- What of a donation row a rotation must not change. -/
def observation (row : String × DonationRow) : String × String × Nat × Option Donation :=
  (row.1, row.2.channelID, row.2.channelOffset,
    row.2.payload.map fun d => { d with generation := "" })

theorem observation_rotateRow (channel : String) (c : ChannelRow) (row : String × DonationRow) :
    observation (row.1, rotateRow uuid channel c row.2) = observation row := by
  unfold observation rotateRow
  split
  · simp [DonationRow.rotate, Function.comp_def]
  · rfl

theorem rotated_observations (db : Db) (channel reason : String) (c : ChannelRow) :
    (rotated t uuid db channel reason c).donations.rows.map observation =
      db.donations.rows.map observation := by
  have hdon : (rotated t uuid db channel reason c).donations.rows =
      db.donations.rows.map fun row => (row.1, rotateRow uuid channel c row.2) := rfl
  rw [hdon, List.map_map]
  apply List.map_congr_left
  intro row _
  exact observation_rotateRow channel c row

/-- A successful rotation writes `rotated`. -/
theorem rotate_step {expected n : String} (hop : call.op = .rotate channel expected reason)
    (hout : ((machine B).step s call).2 = .ok (.generation n)) :
    n = call.uuid ∧ ∃ c, s.db.channels.Has channel c ∧
      ((machine B).step s call).1.db = rotated call.clocks call.uuid s.db channel reason c := by
  rcases step_db (B := B) s call with ⟨reply, hok, hout'⟩ | ⟨e, -, -, hout'⟩
  · rw [hout'] at hout
    injection hout with hout
    subst hout
    rw [hop] at hok
    obtain ⟨⟨db1, n'⟩, hrot, heq⟩ := map_ok hok
    injection heq with hdb hn
    injection hn with hn
    obtain ⟨hn', c, hfind, -, hdb'⟩ := rotateJournal_ok hrot
    exact ⟨hn.symm.trans hn', c, Table.find_eq_some_iff.mp hfind, hdb.symm.trans hdb'⟩
  · rw [hout'] at hout
    cases hout

/-- Right after a rotation the channel has left every generation drawn before. -/
theorem rotated_left (hadm : call.admits s) (hc : s.db.channels.Has channel c)
    (hdb : ((machine B).step s call).1.db = rotated call.clocks call.uuid s.db channel reason c)
    (hdrawn : generation ∈ s.minted) : Left ((machine B).step s call).1 channel generation where
  drawn := by
    rw [step_minted]
    exact List.mem_cons_of_mem _ hdrawn
  other := by
    intro c' hc'
    rw [hdb] at hc'
    rcases (Table.has_modify_of_has hc).mp hc' with ⟨-, rfl⟩ | ⟨hne, -⟩
    · rintro rfl
      exact hadm.2 hdrawn
    · exact absurd rfl hne

/-- Every append with a grant issued before a rotation reports
`ErrGeneration`. -/
def AppendsReportGeneration (B : Backend) : Prop :=
  ∀ tr0 s call channel expected reason n g tr s' call' d acceptedAt,
    (machine B).Run Sys.init tr0 s → call.admits s →
    call.op = .rotate channel expected reason →
    ((machine B).step s call).2 = .ok (.generation n) →
    Issued tr0 g → g.channel = channel →
    (machine B).Run ((machine B).step s call).1 tr s' → call'.admits s' →
    call'.op = .append g d acceptedAt → ((machine B).step s' call').2 = .error .generation

/-- The fixture's journal is restored right after its worker acquired. -/
def restoreCall : Call :=
  .at (40 * day) "generation-b" (.rotate "fixture_channel" "generation-a" "restored")

/-- A record accepted 40 days before it is presented. -/
def staleAppend : Call :=
  .at (80 * day) "unused-2"
    (.append (fixtureGrant (40 * day)) (fixtureDonation 1 "epoch-a" (40 * day)) (40 * day))

/-- The limit on a record's age is checked before the generation. -/
theorem append_refused_otherwise : ¬AppendsReportGeneration fixtureBackend := by
  intro h
  have hissued : Issued ((machine fixtureBackend).exec Sys.init (fixtureCalls (40 * day))).2
      (fixtureGrant (40 * day)) :=
    ⟨_, List.Mem.tail _ (List.Mem.tail _ (List.Mem.head _))⟩
  have hout := h _ _ restoreCall "fixture_channel" "generation-a" "restored" "generation-b"
    (fixtureGrant (40 * day)) [] _ staleAppend (fixtureDonation 1 "epoch-a" (40 * day))
    (40 * day) (Machine.run_exec Sys.init (fixtureCalls (40 * day)) (by decide)) (by decide)
    rfl (by decide) hissued rfl Machine.Run.nil (by decide) rfl
  revert hout
  decide

/-- What a rotation of `channel` to generation `n` keeps and cuts off: `s` is
the state before it with history `tr0`, `s1` the state after it. -/
structure RotationCuts (B : Backend) (tr0 : History) (s s1 : Sys) (channel n : String) :
    Prop where
  /-- Observations of every channel stay, row by row. -/
  observations : s1.db.donations.rows.map observation = s.db.donations.rows.map observation
  /-- So do the counters of every channel. -/
  counters : ∀ ch c', s1.db.channels.Has ch c' → ∃ c, s.db.channels.Has ch c ∧
    c'.nextOffset = c.nextOffset ∧ c'.expiredThrough = c.expiredThrough
  channels : ∀ ch c, s.db.channels.Has ch c → ∃ c', s1.db.channels.Has ch c'
  consumers : s1.db.consumers = s.db.consumers
  requests : s1.db.requests = s.db.requests
  /-- A cursor of an older generation fails until a recovery names its
  generation and the current one. -/
  cursors : ∀ {consumer p tr s2 call}, s1.db.consumers.Has (consumer, channel) p →
    (machine B).Run s1 tr s2 →
    (∀ tr1 call1 out1 tr2 s', tr = tr1 ++ (call1, out1) :: tr2 →
      (machine B).Run s1 tr1 s' → ¬Recovers s' call1 out1 consumer channel p.generation) →
    CursorCall call consumer channel → ∃ e, ((machine B).step s2 call).2 = .error e
  /-- A grant issued before is never renewed. -/
  renewals : ∀ {g tr s2 call}, Issued tr0 g → g.channel = channel →
    (machine B).Run s1 tr s2 → call.op = .renew g → ∃ e, ((machine B).step s2 call).2 = .error e
  /-- And appends nothing, whether or not the event is journaled; the error is
  `ErrGeneration` unless an earlier check fails, and then that check's. -/
  appends : ∀ {g tr s2 call d acceptedAt}, Issued tr0 g → g.channel = channel →
    (machine B).Run s1 tr s2 → call.op = .append g d acceptedAt →
      ((machine B).step s2 call).1.db = s2.db ∧
        ((machine B).step s2 call).2 = .error (refusal B call.clocks channel d acceptedAt)
  /-- A new consumer pages through exactly what was retained, at the same
  offsets, in generation `n`. -/
  retained : ∀ {c} (t : Clocks) (consumer : String) (limits : List Int),
    s1.db.channels.Has channel c → s1.db.consumers.find (consumer, channel) = none →
      ∃ db', readPages t consumer channel n 0 s1.db c.expiredThrough limits =
        .ok (db', ((retainedDonations s.db channel).map
          fun d => { d with generation := n }).take (limits.map pageLimit).sum)

/-- **Restore rotation.**  Every successful rotation from a reachable state
keeps the observations and cuts off the old generation. -/
theorem rotation_cuts {tr0 : History} {s : Sys} {call : Call}
    {channel expected reason n : String} (hr0 : (machine B).Run Sys.init tr0 s)
    (hadm : call.admits s) (hop : call.op = .rotate channel expected reason)
    (hout : ((machine B).step s call).2 = .ok (.generation n)) :
    RotationCuts B tr0 s ((machine B).step s call).1 channel n := by
  have hs : Reachable B s := ⟨tr0, hr0⟩
  have hinv := hs.journalInv
  have hinv1 : JournalInv ((machine B).step s call).1.db := step_journalInv s call hinv
  obtain ⟨rfl, c, hc, hdb⟩ := rotate_step hop hout
  have hleft : ∀ {generation}, generation ∈ s.minted →
      Left ((machine B).step s call).1 channel generation := rotated_left hadm hc hdb
  have hc1 : ((machine B).step s call).1.db.channels.Has channel
      { c with
        generation := call.uuid
        ownerToken := none
        runtimeState := "recovery_required"
        stateAt := call.clocks.clk 1 } := by
    rw [hdb]
    exact (Table.has_modify_of_has hc).mpr (Or.inl ⟨rfl, rfl⟩)
  constructor
  case observations =>
    rw [hdb]
    exact rotated_observations s.db channel reason c
  case counters =>
    intro ch c' hc'
    rw [hdb] at hc'
    rcases (Table.has_modify_of_has hc).mp hc' with ⟨rfl, rfl⟩ | ⟨-, hc'⟩
    · exact ⟨c, hc, rfl, rfl⟩
    · exact ⟨c', hc', rfl, rfl⟩
  case channels => exact fun ch c0 hc0 => step_channel call hc0
  case consumers =>
    rw [hdb]
    rfl
  case requests =>
    rw [hdb]
    rfl
  case cursors =>
    intro consumer p tr s2 call2 hp hr huntil hcall
    have hdrawn : p.generation ∈ s.minted := by
      have hcons : ((machine B).step s call).1.db.consumers = s.db.consumers := by
        rw [hdb]
        rfl
      rw [hcons] at hp
      exact hs.drawn.consumer hp
    have hp2 := run_row_left hinv1 (hleft hdrawn) hp hr huntil
    rcases step_db (B := B) s2 call2 with ⟨reply, hok, -⟩ | ⟨e, -, -, hout2⟩
    · obtain ⟨c2, hc2, hgen⟩ := cursorCall_generation hcall hp2 hok
      exact absurd hgen (((hleft hdrawn).of_run hr).other hc2)
    · exact ⟨e, hout2⟩
  case renewals =>
    rintro g tr s2 call2 hg rfl hr hop2
    exact renew_left ((hleft (issued_drawn hr0 hg)).of_run hr) hop2
  case appends =>
    rintro g tr s2 call2 d acceptedAt hg rfl hr hop2
    obtain ⟨c2, hc2⟩ := run_channel hr hc1
    exact append_left ((hleft (issued_drawn hr0 hg)).of_run hr) hc2 hop2
  case retained =>
    intro c' t consumer limits hc' hnone
    obtain rfl := hc'.unique hc1
    obtain ⟨db', hpages⟩ := hinv1.readPages_window (t := t) hc1 (Nat.le_refl _)
      (hinv1.expired_le hc1) (Or.inl ⟨hnone, rfl, rfl⟩) limits
    have hret : retainedDonations ((machine B).step s call).1.db channel =
        (retainedDonations s.db channel).map fun d => { d with generation := call.uuid } := by
      rw [hdb]
      exact rotate_retained hinv hc
    rw [Nat.sub_self, List.drop_zero, hret] at hpages
    exact ⟨db', hpages⟩

/-- The fixture's journal with one donation is restored. -/
theorem rotation_cuts_restoreCall :
    (retainedDonations ((machine fixtureBackend).exec Sys.init readOnce).1.db
        "fixture_channel").length = 1 ∧
      RotationCuts fixtureBackend ((machine fixtureBackend).exec Sys.init readOnce).2
        ((machine fixtureBackend).exec Sys.init readOnce).1
        ((machine fixtureBackend).step ((machine fixtureBackend).exec Sys.init readOnce).1
          restoreCall).1 "fixture_channel" "generation-b" :=
  ⟨by decide, rotation_cuts (Machine.run_exec Sys.init readOnce (by decide)) (by decide) rfl
    (by decide)⟩

end RogiCollector.Ports.Journal
