import Mathlib.Algebra.BigOperators.Group.List.Basic
import RogiCollector.Ports.JournalInvariant

/-!
# What retention removes

`ExpireDonations` walks over the oldest 500 payloads of a channel with a
running byte total and stops at the first one it may not take.  The payloads
it takes are therefore a run of consecutive offsets after `expired_through`,
and the running total at an offset is what the channel stores from that
offset on.
-/

namespace RogiCollector.Ports.Journal

open Verified

variable {B : Backend} {db : Db} {channel : String} {c : ChannelRow}

/-! ## What may go -/

/-- The bytes the channel's payloads take from `offset` on. -/
def retainedBytes (B : Backend) (db : Db) (channel : String) (offset : Nat) : Int :=
  ((db.donations.select fun _ row =>
      row.channelID = channel ∧ offset ≤ row.channelOffset).filterMap
    fun row => row.2.payload.map B.columnSize).sum

/-- The channel has a consumer, and each of them has come as far as `offset`
in the current generation. -/
def AckedByAll (db : Db) (channel generation : String) (offset : Nat) : Prop :=
  (∃ key p, db.consumers.Has key p ∧ key.2 = channel) ∧
    ∀ key p, db.consumers.Has key p → key.2 = channel →
      p.generation = generation ∧ offset ≤ p.position

/-- The three grounds on which the payload of candidate `i` may go.  The two
ages are of the instants at which the loop reads the clock for it. -/
def Expirable (db : Db) (channel generation : String) (now : Nat → Time)
    (minAge maxAge maxPayloadBytes : Int) (i offset : Nat) (storedAt : Time)
    (bytes : Int) : Prop :=
  maxAge < since (now (2 * i)) storedAt ∨ maxPayloadBytes < bytes ∨
    (minAge ≤ since (now (2 * i + 1)) storedAt ∧ AckedByAll db channel generation offset)

theorem unacked_eq_false_iff {generation : String} {offset : Nat} :
    unacked db channel generation offset = false ↔
      AckedByAll db channel generation offset := by
  simp only [unacked, AckedByAll, Bool.or_eq_false_iff, Bool.not_eq_false',
    Table.any_eq_true, Table.any_eq_false, decide_eq_true_eq, decide_eq_false_iff_not]
  constructor
  · rintro ⟨hsome, hall⟩
    refine ⟨hsome, fun key p hp hkey => ?_⟩
    have hno := hall key p hp
    simp only [hkey, true_and, not_or, not_not, Nat.not_lt] at hno
    exact hno
  · rintro ⟨hsome, hall⟩
    refine ⟨hsome, fun key p hp => ?_⟩
    rintro ⟨hkey, hbad⟩
    have hgood := hall key p hp hkey
    rcases hbad with hgen | hlt
    · exact hgen hgood.1
    · omega

/-! ## The loop -/

/-- A loop over `vs` that numbers its rounds from `i` and breaks at the first
row that may not go took the first `k` rows. -/
structure Stops (may : Nat → Candidate → Prop) (i : Nat) (vs : List Candidate) (k : Nat) :
    Prop where
  taken : ∀ j v, j < k → vs[j]? = some v → may (i + j) v
  kept : ∀ v, vs[k]? = some v → ¬ may (i + k) v

theorem Stops.nil (may : Nat → Candidate → Prop) (i : Nat) : Stops may i [] 0 where
  taken j _ hj _ := absurd hj (Nat.not_lt_zero j)
  kept v hv := by simp at hv

theorem Stops.break {may : Nat → Candidate → Prop} {i : Nat} {v : Candidate}
    (vs : List Candidate) (hnot : ¬ may i v) : Stops may i (v :: vs) 0 where
  taken j _ hj _ := absurd hj (Nat.not_lt_zero j)
  kept w hw := by
    rw [List.getElem?_cons_zero, Option.some.injEq] at hw
    rw [← hw]
    exact hnot

theorem Stops.cons {may : Nat → Candidate → Prop} {i k : Nat} {v : Candidate}
    {vs : List Candidate} (hmay : may i v) (h : Stops may (i + 1) vs k) :
    Stops may i (v :: vs) (k + 1) where
  taken j w hj hw := by
    cases j with
    | zero =>
      rw [List.getElem?_cons_zero, Option.some.injEq] at hw
      rw [← hw]
      exact hmay
    | succ j =>
      rw [List.getElem?_cons_succ] at hw
      rw [show i + (j + 1) = i + 1 + j by omega]
      exact h.taken j w (by omega) hw
  kept w hw := by
    rw [List.getElem?_cons_succ] at hw
    rw [show i + (k + 1) = i + 1 + k by omega]
    exact h.kept w hw

/-- The loop over a batch of consecutive offsets.  `bytes` is any function of
the offset from which the sizes of the candidates are the differences. -/
theorem expireLoop_spec (generation : String) (now : Nat → Time)
    (minAge maxAge maxPayloadBytes : Int) (bytes : Nat → Int) (vs : List Candidate)
    (i through n : Nat) (total : Int)
    (hoff : vs.map Candidate.offset = List.range' (through + 1) n)
    (hsize : ∀ v ∈ vs, bytes v.offset = v.size + bytes (v.offset + 1))
    (htotal : total = bytes (through + 1)) :
    ∃ k ≤ n,
      expireLoop db channel generation now minAge maxAge maxPayloadBytes i through total
          vs = through + k ∧
        Stops (fun i v => Expirable db channel generation now minAge maxAge
          maxPayloadBytes i v.offset v.storedAt (bytes v.offset)) i vs k := by
  induction vs generalizing i through n total with
  | nil => exact ⟨0, Nat.zero_le n, rfl, .nil _ i⟩
  | cons v vs ih =>
    cases n with
    | zero => simp at hoff
    | succ n =>
      rw [List.range'_succ, List.map_cons, List.cons.injEq] at hoff
      have hbytes : bytes v.offset = total := by rw [hoff.1, htotal]
      -- Taking `v` leaves the loop with the bytes from the next offset on.
      have hrest : total - v.size = bytes (through + 1 + 1) := by
        have h := hsize v (by simp)
        rw [hbytes, hoff.1] at h
        omega
      obtain ⟨k, hk, hres, hstops⟩ := ih (i + 1) (through + 1) n (total - v.size)
        hoff.2 (fun w hw => hsize w (List.mem_cons_of_mem v hw)) hrest
      rw [← hoff.1] at hres
      rw [expireLoop]
      by_cases hforced : since (now (2 * i)) v.storedAt > maxAge ∨ total > maxPayloadBytes
      · rw [if_pos hforced]
        refine ⟨k + 1, by omega, by omega, .cons ?_ hstops⟩
        rw [Expirable, hbytes, ← or_assoc]
        exact Or.inl hforced
      · rw [if_neg hforced]
        have hmay : Expirable db channel generation now minAge maxAge maxPayloadBytes i
            v.offset v.storedAt (bytes v.offset) ↔
            minAge ≤ since (now (2 * i + 1)) v.storedAt ∧
              AckedByAll db channel generation v.offset := by
          rw [Expirable, hbytes, ← or_assoc]
          exact or_iff_right hforced
        by_cases hyoung : since (now (2 * i + 1)) v.storedAt < minAge
        · rw [if_pos hyoung]
          refine ⟨0, by omega, by omega, .break vs ?_⟩
          intro h
          exact absurd (hmay.mp h).1 (by omega)
        · rw [if_neg hyoung]
          by_cases hack : unacked db channel generation v.offset = true
          · rw [if_pos hack]
            refine ⟨0, by omega, by omega, .break vs ?_⟩
            intro h
            rw [unacked_eq_false_iff.mpr (hmay.mp h).2] at hack
            cases hack
          · rw [if_neg hack]
            refine ⟨k + 1, by omega, by omega, .cons (hmay.mpr ⟨by omega, ?_⟩) hstops⟩
            rw [← unacked_eq_false_iff]
            exact Bool.eq_false_iff.mpr hack

/-! ## The batch -/

/-- A row of the channel that still has its payload is selected as a
candidate. -/
theorem JournalInv.select_retained (h : JournalInv db) (hc : db.channels.Has channel c) :
    (db.donations.select fun _ row =>
        row.channelID = channel ∧ row.generation = c.generation ∧ row.payload.isSome) =
      db.donations.select fun _ row =>
        row.channelID = channel ∧ row.generation = c.generation ∧
          c.expiredThrough < row.channelOffset ∧ row.payload.isSome := by
  apply Table.select_congr
  intro e row hr
  by_cases hch : row.channelID = channel
  · have hlive := h.row_live hr (hch ▸ hc)
    simp only [hch, true_and, decide_eq_decide]
    constructor
    · intro ⟨hgen, hsome⟩
      exact ⟨hgen, hlive.mp hsome, hsome⟩
    · intro ⟨hgen, _, hsome⟩
      exact ⟨hgen, hsome⟩
  · simp [hch]

/-- The batch is the run of offsets after `expired_through`. -/
theorem JournalInv.candidates_offset (h : JournalInv db)
    (hc : db.channels.Has channel c) :
    (candidates B db channel c.generation).map Candidate.offset =
      List.range' (c.expiredThrough + 1) (min 500 (c.nextOffset - c.expiredThrough)) := by
  have hmap : ∀ rows : List (String × DonationRow),
      (∀ row ∈ rows, row.2.payload.isSome = true) →
      (rows.filterMap fun row => row.2.payload.map fun d =>
        (⟨row.2.channelOffset, row.2.storedAt, B.columnSize d⟩ : Candidate)).map
          Candidate.offset = rows.map fun row => row.2.channelOffset := by
    intro rows hrows
    induction rows with
    | nil => rfl
    | cons row rows ih =>
      have hrest := ih fun row hr => hrows row (List.mem_cons_of_mem _ hr)
      obtain ⟨d, hd⟩ := Option.isSome_iff_exists.mp (hrows row (by simp))
      simp only [List.filterMap_cons, hd, Option.map_some, List.map_cons, hrest]
  rw [candidates, hmap, List.map_take, h.select_retained hc,
    h.orderBy_offset hc (Nat.le_refl _)]
  · by_cases hle : 500 ≤ c.nextOffset - c.expiredThrough
    · rw [List.take_range'_of_length_ge hle, Nat.min_eq_left hle]
    · rw [List.take_range'_of_length_le (by omega), Nat.min_eq_right (by omega)]
  · intro row hrow
    have hsel := (mem_orderBy _).mp (List.mem_of_mem_take hrow)
    simp only [Table.mem_select, decide_eq_true_eq] at hsel
    exact hsel.2.2.2

variable {e : String} {row : DonationRow}

/-- The candidate at a place of the batch is the row with that offset. -/
theorem JournalInv.candidate_at (h : JournalInv db) (hc : db.channels.Has channel c)
    (hr : db.donations.Has e row) (hch : row.channelID = channel) {j : Nat} (hj : j < 500)
    (ho : row.channelOffset = c.expiredThrough + 1 + j) :
    ∃ v, (candidates B db channel c.generation)[j]? = some v ∧
      v.offset = row.channelOffset ∧ v.storedAt = row.storedAt := by
  have hle : row.channelOffset ≤ c.nextOffset := h.row_le hr (hch ▸ hc)
  have hat : ((candidates B db channel c.generation).map Candidate.offset)[j]? =
      some (c.expiredThrough + 1 + j) := by
    rw [h.candidates_offset hc, List.getElem?_range' (by omega)]
    simp
  rw [List.getElem?_map, Option.map_eq_some_iff] at hat
  obtain ⟨v, hv, hoff⟩ := hat
  obtain ⟨e', row', d, hr', hch', -, heq⟩ :=
    mem_candidates (List.mem_of_getElem? hv)
  have hsame : row'.channelOffset = row.channelOffset := by
    rw [heq] at hoff
    rw [ho]
    exact hoff
  have hkey : e' = e := h.row_unique hr' hr (hch'.trans hch.symm) hsame
  have hrow : row' = row := Table.Has.unique (hkey ▸ hr') hr
  rw [hrow] at heq
  exact ⟨v, hv, by rw [heq], by rw [heq]⟩

/-! ## The running total -/

/-- At the start the loop counts every payload of the channel. -/
theorem JournalInv.payloadBytes_eq (h : JournalInv db) (hc : db.channels.Has channel c) :
    payloadBytes B db channel = retainedBytes B db channel (c.expiredThrough + 1) := by
  rw [payloadBytes, retainedBytes, Table.select, Table.select, List.filterMap_filter,
    List.filterMap_filter]
  congr 1
  apply List.filterMap_congr
  rintro ⟨e, row⟩ hr
  by_cases hch : row.channelID = channel
  · have hlive := h.row_live hr (hch ▸ hc)
    by_cases ho : c.expiredThrough + 1 ≤ row.channelOffset
    · simp [hch, ho]
    · have hnone : row.payload = none := by
        rw [← Option.not_isSome_iff_eq_none, hlive]
        omega
      simp [hch, hnone]
  · simp [hch]

/-- One payload less to count. -/
theorem JournalInv.retainedBytes_succ (h : JournalInv db) {d : Donation}
    (hr : db.donations.Has e row) (hch : row.channelID = channel) (hd : row.payload = some d) :
    retainedBytes B db channel row.channelOffset =
      B.columnSize d + retainedBytes B db channel (row.channelOffset + 1) := by
  have hperm : (db.donations.select fun _ r =>
        r.channelID = channel ∧ row.channelOffset ≤ r.channelOffset).Perm
      ((e, row) :: db.donations.select fun _ r =>
        r.channelID = channel ∧ row.channelOffset + 1 ≤ r.channelOffset) := by
    apply (List.perm_ext_iff_of_nodup (Table.nodup_select _ _) ?_).mpr
    · rintro ⟨e', r⟩
      simp only [Table.mem_select, List.mem_cons, Prod.mk.injEq, decide_eq_true_eq]
      constructor
      · rintro ⟨hr', hch', hle⟩
        by_cases ho : row.channelOffset = r.channelOffset
        · have hkey := h.row_unique hr' hr (hch'.trans hch.symm) ho.symm
          exact Or.inl ⟨hkey, Table.Has.unique (hkey ▸ hr') hr⟩
        · exact Or.inr ⟨hr', hch', by omega⟩
      · rintro (⟨rfl, rfl⟩ | ⟨hr', hch', hlt⟩)
        · exact ⟨hr, hch, Nat.le_refl _⟩
        · exact ⟨hr', hch', by omega⟩
    · rw [List.nodup_cons]
      constructor
      · simp
      · exact Table.nodup_select _ _
  have hsum := ((hperm.filterMap fun r => r.2.payload.map B.columnSize)).sum_eq
  simp only [List.filterMap_cons, hd, Option.map_some, List.sum_cons] at hsum
  exact hsum

/-! ## The transaction -/

/-- What one call of `ExpireDonations` did to the donations of its channel. -/
theorem JournalInv.expireDonations_removed (h : JournalInv db) (hc : db.channels.Has channel c)
    {t : Clocks} {minAge maxAge maxPayloadBytes : Int} {db' : Db}
    (hok : expireDonations B t db channel minAge maxAge maxPayloadBytes = .ok db') {k : Nat}
    (hk : expiresThrough B t db channel c minAge maxAge maxPayloadBytes = c.expiredThrough + k)
    (hr : db.donations.Has e row) :
    (∃ row', db'.donations.Has e row' ∧ row.payload.isSome = true ∧ row'.payload = none) ↔
      row.channelID = channel ∧ c.expiredThrough < row.channelOffset ∧
        row.channelOffset ≤ c.expiredThrough + k := by
  obtain ⟨c0, hc0, hres⟩ := expireDonations_ok hok
  have hcc : c0 = c := Table.Has.unique (Table.find_eq_some_iff.mp hc0) hc
  rw [hcc, hk] at hres
  rcases hres with ⟨hle, hsame⟩ | ⟨hlt, hnew⟩
  · rw [hsame]
    constructor
    · intro ⟨row', hr', hsome, hnone⟩
      rw [hr'.unique hr] at hnone
      rw [hnone] at hsome
      cases hsome
    · intro ⟨_, hlo, hhi⟩
      omega
  · rw [hnew]
    constructor
    · intro ⟨row', hr', hsome, hnone⟩
      obtain ⟨row0, hr0, -, -, -, hpay⟩ := h.has_expired hc hr'
      rw [hr0.unique hr] at hpay
      by_cases hgone : row.channelID = channel ∧ row.channelOffset ≤ c.expiredThrough + k
      · have hlive := (h.row_live hr (hgone.1 ▸ hc)).mp hsome
        exact ⟨hgone.1, hlive, hgone.2⟩
      · rw [if_neg hgone] at hpay
        rw [← hpay, hnone] at hsome
        cases hsome
    · intro ⟨hch, hlo, hhi⟩
      have hgen : row.generation = c.generation := h.row_current hr (hch ▸ hc)
      refine ⟨{ row with payload := none }, ?_, (h.row_live hr (hch ▸ hc)).mpr hlo, rfl⟩
      rw [expired, Table.has_update]
      refine ⟨row, hr, ?_⟩
      rw [if_pos ⟨hch, hgen, hhi⟩]

/-- For every state of the journal, policy and clock: the payloads that
retention removes are those of a run of at most 500 offsets after
`expired_through`; each of them was beyond the maximal age, over the byte
limit or acknowledged by every consumer; and if the batch was not used up, the
first offset kept was none of the three. -/
theorem retention_justified {s : Sys} (hs : Reachable B s) {t : Clocks}
    {minAge maxAge maxPayloadBytes : Int} {db' : Db}
    (hok : expireDonations B t s.db channel minAge maxAge maxPayloadBytes = .ok db') :
    ∃ c k, s.db.channels.Has channel c ∧ k ≤ 500 ∧
      (∀ e row, s.db.donations.Has e row →
        ((∃ row', db'.donations.Has e row' ∧ row.payload.isSome = true ∧
            row'.payload = none) ↔
          row.channelID = channel ∧ c.expiredThrough < row.channelOffset ∧
            row.channelOffset ≤ c.expiredThrough + k)) ∧
      (∀ j, j < k → ∃ e row, s.db.donations.Has e row ∧ row.channelID = channel ∧
        row.channelOffset = c.expiredThrough + 1 + j ∧
        Expirable s.db channel c.generation t.now minAge maxAge maxPayloadBytes j
          row.channelOffset row.storedAt
          (retainedBytes B s.db channel row.channelOffset)) ∧
      (k < 500 → ∀ e row, s.db.donations.Has e row → row.channelID = channel →
        row.channelOffset = c.expiredThrough + 1 + k →
        ¬ Expirable s.db channel c.generation t.now minAge maxAge maxPayloadBytes k
          row.channelOffset row.storedAt
          (retainedBytes B s.db channel row.channelOffset)) := by
  have h : JournalInv s.db := hs.journalInv
  obtain ⟨c, hc, -⟩ := expireDonations_ok hok
  replace hc := Table.find_eq_some_iff.mp hc
  obtain ⟨k, hk, hthrough, hstops⟩ := expireLoop_spec c.generation t.now minAge
    maxAge maxPayloadBytes (retainedBytes B s.db channel)
    (candidates B s.db channel c.generation) 0 c.expiredThrough _
    (payloadBytes B s.db channel) (h.candidates_offset hc)
    (fun v hv => by
      obtain ⟨e, row, d, hr, hch, hd, rfl⟩ := mem_candidates hv
      exact h.retainedBytes_succ hr hch hd)
    (h.payloadBytes_eq hc)
  refine ⟨c, k, hc, by omega, ?_, ?_, ?_⟩
  · intro e row hr
    exact h.expireDonations_removed hc hok hthrough hr
  · intro j hj
    obtain ⟨e, row, hr, hch, ho⟩ :=
      h.retained hc (show c.expiredThrough < c.expiredThrough + 1 + j by omega) (by omega)
    obtain ⟨v, hv, hoff, hat⟩ := h.candidate_at hc hr hch (by omega) ho
    have hmay := hstops.taken j v hj hv
    rw [hoff, hat, Nat.zero_add] at hmay
    exact ⟨e, row, hr, hch, ho, hmay⟩
  · intro hlt e row hr hch ho
    obtain ⟨v, hv, hoff, hat⟩ := h.candidate_at hc hr hch hlt ho
    have hnot := hstops.kept v hv
    rw [hoff, hat, Nat.zero_add] at hnot
    exact hnot

/-- Two donations of which the only consumer has acknowledged the first. -/
def ackedFirst : Sys :=
  ((machine fixtureBackend).exec Sys.init
    (fixtureCalls (40 * day) ++
      [ .at (40 * day) "unused-2"
          (.append (fixtureGrant (40 * day)) (fixtureDonation 1 "epoch-a" (40 * day))
            (40 * day)),
        .at (40 * day) "unused-3"
          (.append (fixtureGrant (40 * day)) (fixtureDonation 2 "epoch-a" (40 * day))
            (40 * day)),
        .at (40 * day) "unused-4"
          (.read "fixture_consumer" "fixture_channel" "generation-a" 0 0 100),
        .at (40 * day) "unused-5"
          (.ack "fixture_consumer" "fixture_channel" "generation-a" 1 0) ])).1

theorem retention_justified_ackedFirst :
    ∃ db' c, expireDonations fixtureBackend (Clocks.still (50 * day)) ackedFirst.db
        "fixture_channel" (7 * day) (30 * day) (2 ^ 30) = .ok db' ∧
      ackedFirst.db.channels.Has "fixture_channel" c ∧
      ∃ e row, ackedFirst.db.donations.Has e row ∧
        row.channelOffset = c.expiredThrough + 1 ∧
        Expirable ackedFirst.db "fixture_channel" c.generation (fun _ => 50 * day) (7 * day)
          (30 * day) (2 ^ 30) 0 row.channelOffset row.storedAt
          (retainedBytes fixtureBackend ackedFirst.db "fixture_channel"
            row.channelOffset) := by
  have hreach : Reachable fixtureBackend ackedFirst := reachable_exec _ (by decide)
  have hgone : ((expireDonations fixtureBackend (Clocks.still (50 * day)) ackedFirst.db
      "fixture_channel" (7 * day) (30 * day) (2 ^ 30)).toOption.bind
        fun db => db.donations.find "epoch-a-1").map DonationRow.payload = some none := by
    decide
  have hwas : (ackedFirst.db.donations.find "epoch-a-1").map
      (fun row => (row.payload.isSome, row.channelOffset)) = some (true, 1) := by decide
  obtain ⟨row, hrow, hsome⟩ := Option.map_eq_some_iff.mp hwas
  cases hok : expireDonations fixtureBackend (Clocks.still (50 * day)) ackedFirst.db
      "fixture_channel" (7 * day) (30 * day) (2 ^ 30) with
  | error e =>
    rw [hok] at hgone
    cases hgone
  | ok db' =>
    rw [hok] at hgone
    obtain ⟨row', hrow', hnone⟩ := Option.map_eq_some_iff.mp hgone
    obtain ⟨c, k, hc, -, hiff, htaken, -⟩ := retention_justified hreach hok
    have hk := (hiff "epoch-a-1" row (Table.find_eq_some_iff.mp hrow)).mp
      ⟨row', Table.find_eq_some_iff.mp hrow', (Prod.mk.inj hsome).1, hnone⟩
    obtain ⟨e, r, hr, -, ho, hmay⟩ := htaken 0 (by omega)
    exact ⟨db', c, rfl, hc, e, r, hr, ho, hmay⟩

end RogiCollector.Ports.Journal
