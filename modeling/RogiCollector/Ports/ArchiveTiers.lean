import RogiCollector.Ports.JournalMachine
import RogiCollector.Ports.ArchiveExport
import RogiCollector.Ports.ArchiveSegment

/-!
# The tiers of the chat archive

A chat is either hot or in one indexed segment.  What makes this safe under
stale batches is that a batch is *exact*: `NextBatch` takes every chat of the
session between its first and its last position, no later append lands in
that range, and a segment built from it therefore says the same thing
whenever it is committed.  Two segments of one range are the same segment,
under the same key and with the same body.
-/

namespace RogiCollector.Ports.Archive

open Verified
open Journal (Time Backend)

variable {β : Type} {C : Config β} {s : State β} {log : List ChatRow}

/-! ## Exact batches -/

variable {g : Range} {session : String} {position : Nat}

theorem Range.covers_iff :
    g.covers session position = true ↔
      g.sessionID = session ∧ g.first ≤ position ∧ position ≤ g.last := by
  simp [Range.covers]

/-- Positions increase along the log. -/
def Increasing (log : List ChatRow) : Prop :=
  log.Pairwise fun a b => a.position < b.position

/-- The chats of a range. -/
def window (log : List ChatRow) (g : Range) : List ChatRow :=
  log.filter fun r => g.covers r.sessionID r.position

variable {r : ChatRow}

theorem mem_window :
    r ∈ window log g ↔ r ∈ log ∧ g.sessionID = r.sessionID ∧ g.first ≤ r.position ∧
      r.position ≤ g.last := by
  rw [window, List.mem_filter, Range.covers_iff]

/-- The rows are all chats of the range, and the range is no wider than needed. -/
structure Batch (log rows : List ChatRow) (g : Range) : Prop where
  rows_eq : rows = window log g
  first : rows.head?.map (·.position) = some g.first
  last : rows.getLast?.map (·.position) = some g.last

variable {rows : List ChatRow}

theorem Batch.exists_last (h : Batch log rows g) : ∃ r ∈ log, r.position = g.last := by
  obtain ⟨r, hr, hlast⟩ := Option.map_eq_some_iff.mp h.last
  have hmem : r ∈ window log g := h.rows_eq ▸ List.mem_of_getLast? hr
  exact ⟨r, (mem_window.mp hmem).1, hlast⟩

/-- A chat appended behind the range changes nothing. -/
theorem Batch.append (h : Batch log rows g) (hr : ∀ r' ∈ log, r'.position < r.position) :
    Batch (log ++ [r]) rows g where
  rows_eq := by
    obtain ⟨last, hlast, heq⟩ := h.exists_last
    have hout : g.covers r.sessionID r.position = false := by
      rw [← Bool.not_eq_true, Range.covers_iff]
      have hlt := hr last hlast
      omega
    rw [h.rows_eq, window, window, List.filter_append, List.filter_singleton, hout]
    simp
  first := h.first
  last := h.last

/-- A first part of an exact batch is exact. -/
theorem Batch.take (hlog : Increasing log) (h : Batch log rows g) {n : Nat} {last : ChatRow}
    (hlast : (rows.take n).getLast? = some last) :
    Batch log (rows.take n) ⟨g.sessionID, g.first, last.position⟩ where
  rows_eq := by
    have hrows : rows.Pairwise fun a b => a.position < b.position := by
      rw [h.rows_eq]
      exact hlog.filter _
    apply eq_of_key_lt_of_mem_iff (hrows.sublist (List.take_sublist n rows)) (hlog.filter _)
    intro r
    rw [mem_take_iff_key_le hrows hlast, h.rows_eq]
    have hle : last.position ≤ g.last := by
      have hmem : last ∈ window log g := h.rows_eq ▸
        List.mem_of_mem_take (List.mem_of_getLast? hlast)
      exact (mem_window.mp hmem).2.2.2
    change r ∈ window log g ∧ _ ↔ r ∈ window log _
    simp only [mem_window]
    constructor
    · rintro ⟨⟨hr, hs, hf, -⟩, hl⟩
      exact ⟨hr, hs, hf, hl⟩
    · rintro ⟨hr, hs, hf, hl⟩
      exact ⟨⟨hr, hs, hf, Nat.le_trans hl hle⟩, hl⟩
  first := by
    rw [← h.first]
    cases n with
    | zero => simp at hlast
    | succ n =>
      cases rows with
      | nil => simp at hlast
      | cons row rows => rfl
  last := by
    rw [hlast]
    rfl

/-- A segment that says exactly what its range holds. -/
def Exact (C : Config β) (log : List ChatRow) (x : Segment β) : Prop :=
  ∃ rows, Batch log rows x.range ∧ build C.codec rows = .ok x

variable {x : Segment β}

theorem Exact.append (h : Exact C log x) (hr : ∀ r' ∈ log, r'.position < r.position) :
    Exact C (log ++ [r]) x := by
  obtain ⟨rows, hbatch, hbuild⟩ := h
  exact ⟨rows, hbatch.append hr, hbuild⟩

/-- A segment built from an exact batch. -/
theorem Batch.exact (h : Batch log rows g) (hbuild : build C.codec rows = .ok x) :
    Exact C log x := by
  have hb := build_ok hbuild
  have hrange : x.range = g := by
    obtain ⟨row, hrow, hsession⟩ := Option.map_eq_some_iff.mp hb.session
    have hmem : row ∈ window log g := h.rows_eq ▸ List.mem_of_mem_head? hrow
    have hfirst := hb.first.symm.trans h.first
    have hlast := hb.last.symm.trans h.last
    rw [Segment.range, ← hsession, ← (mem_window.mp hmem).2.1, Option.some.inj hfirst,
      Option.some.inj hlast]
  exact ⟨rows, hrange ▸ h, hbuild⟩

/-- Halving keeps it exact. -/
theorem Batch.exact_halving (hlog : Increasing log) (h : Batch log rows g)
    (hbuild : buildHalving C.codec rows = .ok x) :
    Exact C log x := by
  obtain ⟨n, hn⟩ := buildHalving_ok hbuild
  obtain ⟨last, hlast, -⟩ := Option.map_eq_some_iff.mp (build_ok hn).last
  exact (h.take hlog hlast).exact hn

/-- Equal keys, equal segments. -/
theorem Exact.unique {x' : Segment β} (h : Exact C log x) (h' : Exact C log x')
    (hkey : x.objectKey = x'.objectKey) : x = x' := by
  obtain ⟨rows, hbatch, hbuild⟩ := h
  obtain ⟨rows', hbatch', hbuild'⟩ := h'
  have hrange :=
    objectKey_inj (build_ok hbuild).slash_notMem (build_ok hbuild').slash_notMem hkey
  have hrows : rows = rows' := by
    rw [hbatch.rows_eq, hbatch'.rows_eq, hrange]
  rw [hrows] at hbuild
  exact Except.ok.inj (hbuild.symm.trans hbuild')

/-! ## The invariant -/

/-- The bucket holds the segment under its key, and `GetVerified` accepts it. -/
structure Stored (C : Config β) (objects : Table String β) (x : Segment β) : Prop where
  object : objects.Has x.objectKey x.body
  size : C.codec.size x.body ≠ 0
  valid : C.codec.validObject x.objectKey x.sha256 = true

variable {objects : Table String β}

theorem Stored.mono {objects' : Table String β} (h : Stored C objects x)
    (hkeep : ∀ {key body}, objects.Has key body → objects'.Has key body) :
    Stored C objects' x :=
  ⟨hkeep h.object, h.size, h.valid⟩

/-- What an exporter carries. -/
def PointInv (C : Config β) (log : List ChatRow) (objects : Table String β) : Point β → Prop
  | .idle => True
  | .selected rows => ∃ g, Batch log rows g
  | .built x | .stored x => Exact C log x
  | .verified x => Exact C log x ∧ Stored C objects x

/-- An indexed segment: exact, uploaded, and readable. -/
def Indexed (C : Config β) (log : List ChatRow) (objects : Table String β) (g : Range)
    (row : SegmentRow) : Prop :=
  ∃ x, Exact C log x ∧ x.range = g ∧ row = x.row C.codec C.bucket ∧ Stored C objects x

/-- How the tables, the bucket and the exporters agree. -/
structure TierInv (C : Config β) (s : State β) : Prop where
  increasing : Increasing s.db.log
  position : ∀ {r}, r ∈ s.db.log → 0 < r.position ∧ r.position ≤ s.db.lastPosition
  ids : ∀ {session e p}, s.db.eventIDs.Has (session, e) p →
    ∃ r ∈ s.db.log, r.sessionID = session ∧ r.eventID = e ∧ r.position = p
  hot_log : ∀ {p row}, s.db.hot.Has p row → row ∈ s.db.log ∧ row.position = p
  hot_free : ∀ {p row g seg}, s.db.hot.Has p row → s.db.segments.Has g seg →
    g.covers row.sessionID p = false
  disjoint : ∀ {g seg g' seg'}, s.db.segments.Has g seg → s.db.segments.Has g' seg' →
    g ≠ g' → g.sessionID = g'.sessionID → g.last < g'.first ∨ g'.last < g.first
  kept : ∀ {r}, r ∈ s.db.log → s.db.hot.Has r.position r ∨
    ∃ g seg, s.db.segments.Has g seg ∧ g.covers r.sessionID r.position = true
  segment : ∀ {g seg}, s.db.segments.Has g seg → Indexed C s.db.log s.objects g seg
  objects : ∀ {key body}, s.objects.Has key body →
    ∃ x, Exact C s.db.log x ∧ x.objectKey = key ∧ x.body = body
  exporters : ∀ {k : Nat} {point}, s.exporters[k]? = some point →
    PointInv C s.db.log s.objects point

theorem TierInv.init : TierInv C (State.init β) where
  increasing := List.Pairwise.nil
  position := nofun
  ids h := absurd h (Table.has_empty _ _)
  hot_log h := absurd h (Table.has_empty _ _)
  hot_free h := absurd h (Table.has_empty _ _)
  disjoint h := absurd h (Table.has_empty _ _)
  kept := nofun
  segment h := absurd h (Table.has_empty _ _)
  objects h := absurd h (Table.has_empty _ _)
  exporters := nofun

variable {row : ChatRow} {seg : SegmentRow}

theorem TierInv.outside (h : TierInv C s) {p : Nat} (hp : s.db.hot.Has p row)
    (hg : s.db.segments.Has g seg) (hs : g.sessionID = row.sessionID) :
    p < g.first ∨ g.last < p := by
  have hout := h.hot_free hp hg
  by_contra hin
  push Not at hin
  rw [Range.covers_iff.mpr ⟨hs, hin⟩] at hout
  cases hout

/-! ## Where a chat is -/

/-- The rows of an indexed segment, from the object its index row names. -/
def indexedRows (C : Config β) (s : State β) (g : Range) (seg : SegmentRow) :
    Except ArchiveErr (List ChatRow) :=
  match s.objects.find seg.objectKey with
  | none => .error .io
  | some body =>
    decode C.codec
      { body, sha256 := seg.sha256, sessionID := g.sessionID, firstPosition := g.first
        lastPosition := g.last, count := seg.messageCount }

/-- The chat is one row of the segment's object. -/
def InObject (C : Config β) (s : State β) (g : Range) (row : ChatRow) : Prop :=
  ∃ seg rows, s.db.segments.Has g seg ∧ indexedRows C s g seg = .ok rows ∧
    rows.filter (fun r => r.position = row.position) = [row]

/-- The segment's object cannot be read, or has no row at the position. -/
def NotInObject (C : Config β) (s : State β) (g : Range) (p : Nat) : Prop :=
  ∀ seg rows, s.db.segments.Has g seg → indexedRows C s g seg = .ok rows →
    ∀ r ∈ rows, r.position ≠ p

/-- The chat is a hot row, or a row of exactly one indexed segment, not both. -/
def InOneTier (C : Config β) (s : State β) (row : ChatRow) : Prop :=
  (s.db.hot.Has row.position row ∧ ∀ g, NotInObject C s g row.position) ∨
    ((∀ r, ¬s.db.hot.Has row.position r) ∧ ∃ g, InObject C s g row ∧
      ∀ g', g' ≠ g → NotInObject C s g' row.position)

/-- Positions name chats. -/
theorem Increasing.unique (h : Increasing log) {r' : ChatRow} (hr : r ∈ log) (hr' : r' ∈ log)
    (hp : r.position = r'.position) : r = r' := by
  have hnodup : (log.map (·.position)).Nodup :=
    List.pairwise_map.mpr (h.imp fun hlt => Nat.ne_of_lt hlt)
  exact List.inj_on_of_nodup_map hnodup hr hr' hp

/-- The object of an indexed segment holds the chats of its range. -/
theorem TierInv.indexedRows (h : TierInv C s) (hg : s.db.segments.Has g seg) :
    Archive.indexedRows C s g seg = .ok (window s.db.log g) := by
  obtain ⟨x, ⟨rows, hbatch, hbuild⟩, rfl, rfl, hstored⟩ := h.segment hg
  have hfind : s.objects.find (x.row C.codec C.bucket).objectKey = some x.body :=
    Table.find_eq_some_iff.mpr hstored.object
  rw [Archive.indexedRows, hfind, ← hbatch.rows_eq]
  exact decode_build hbuild hstored.size

/-- A row of an indexed object at the position of a chat is that chat. -/
theorem TierInv.covers_of_mem (h : TierInv C s) (hrow : row ∈ s.db.log)
    (hr : r ∈ window s.db.log g) (hp : r.position = row.position) :
    g.covers row.sessionID row.position = true := by
  obtain ⟨hlog, hcov⟩ := List.mem_filter.mp hr
  obtain rfl := h.increasing.unique hlog hrow hp
  exact hcov

/-- The object of a range that does not cover a chat does not hold it. -/
theorem TierInv.notInObject (h : TierInv C s) (hrow : row ∈ s.db.log)
    (hout : ∀ seg, s.db.segments.Has g seg → g.covers row.sessionID row.position = false) :
    NotInObject C s g row.position := by
  intro seg rows hg hrows r hr hp
  rw [h.indexedRows hg] at hrows
  cases hrows
  have hcov := h.covers_of_mem hrow hr hp
  rw [hout seg hg] at hcov
  cases hcov

/-- The object of a range that covers a chat holds it once. -/
theorem TierInv.inObject (h : TierInv C s) (hrow : row ∈ s.db.log)
    (hg : s.db.segments.Has g seg) (hcov : g.covers row.sessionID row.position = true) :
    InObject C s g row := by
  refine ⟨seg, _, hg, h.indexedRows hg, ?_⟩
  refine eq_of_key_lt_of_mem_iff ((h.increasing.filter _).filter _)
    (List.pairwise_singleton (fun a b : ChatRow => a.position < b.position) row) ?_
  intro r
  simp only [List.mem_filter, List.mem_singleton, decide_eq_true_eq]
  constructor
  · rintro ⟨hwin, hp⟩
    exact h.increasing.unique (mem_window.mp hwin).1 hrow hp
  · rintro rfl
    exact ⟨List.mem_filter.mpr ⟨hrow, hcov⟩, rfl⟩

/-- Every chat is in one tier. -/
theorem TierInv.inOneTier (h : TierInv C s) (hrow : row ∈ s.db.log) : InOneTier C s row := by
  rcases h.kept hrow with hhot | ⟨g, seg, hg, hcov⟩
  · exact Or.inl ⟨hhot, fun g => h.notInObject hrow fun seg hg => h.hot_free hhot hg⟩
  · refine Or.inr ⟨?_, g, h.inObject hrow hg hcov, ?_⟩
    · intro r hr
      obtain ⟨hlog, hp⟩ := h.hot_log hr
      obtain rfl := h.increasing.unique hlog hrow hp
      rw [h.hot_free hr hg] at hcov
      cases hcov
    · intro g' hne
      refine h.notInObject hrow ?_
      intro seg' hg'
      rw [← Bool.not_eq_true]
      intro hcov'
      -- Two ranges of one session that share a position.
      obtain ⟨hs, hf, hl⟩ := Range.covers_iff.mp hcov
      obtain ⟨hs', hf', hl'⟩ := Range.covers_iff.mp hcov'
      rcases h.disjoint hg' hg hne (hs'.trans hs.symm) with hlt | hlt <;> omega

/-! ## Selecting a batch -/

variable {db : Db}

theorem mem_hotRows {first : Nat} {bound : Option Nat} :
    row ∈ hotRows db session first bound ↔ ∃ p, db.hot.Has p row ∧
      row.sessionID = session ∧ first ≤ p ∧ bound.all (fun b => p < b) = true := by
  simp [hotRows, Table.Has]

theorem hotRows_increasing (h : ∀ {p row}, db.hot.Has p row → row.position = p)
    (session : String) (first : Nat) (bound : Option Nat) :
    Increasing (hotRows db session first bound) := by
  have hlt := List.pairwise_map.mp
    (orderBy_lt Prod.fst (db.hot.nodup_select_keys fun position row =>
      row.sessionID = session ∧ first ≤ position ∧ bound.all fun b => position < b))
  refine List.pairwise_map.mpr (hlt.imp_of_mem ?_)
  intro a b ha hb hab
  rw [mem_orderBy, Table.mem_select] at ha hb
  rw [h ha.1, h hb.1]
  exact hab

/-- The rows are those of the log: behind the candidate and before the next
segment nothing of the session is indexed. -/
theorem mem_hotRows_iff (h : TierInv C s) {first : ChatRow}
    (hfree : ∀ g seg, s.db.segments.Has g seg → g.covers first.sessionID first.position = false)
    (r : ChatRow) :
    r ∈ hotRows s.db first.sessionID first.position
        (nextIndexed s.db first.sessionID first.position) ↔
      r ∈ s.db.log ∧ r.sessionID = first.sessionID ∧ first.position ≤ r.position ∧
        (nextIndexed s.db first.sessionID first.position).all (fun b => r.position < b) =
          true := by
  rw [mem_hotRows]
  constructor
  · rintro ⟨p, hp, hs, hle, hbound⟩
    obtain ⟨hlog, rfl⟩ := h.hot_log hp
    exact ⟨hlog, hs, hle, hbound⟩
  · rintro ⟨hlog, hs, hle, hbound⟩
    rcases h.kept hlog with hhot | ⟨g, seg, hseg, hcov⟩
    · exact ⟨r.position, hhot, hs, hle, hbound⟩
    · obtain ⟨hgs, hgf, hgl⟩ := Range.covers_iff.mp hcov
      have hout := hfree g seg hseg
      rw [← Bool.not_eq_true, Range.covers_iff, hgs, hs] at hout
      -- So the segment begins behind the candidate, and bounds the query.
      have hmem : g.first ∈ (s.db.segments.select fun g _ =>
          g.sessionID = first.sessionID ∧ first.position < g.first).map fun g => g.1.first := by
        refine List.mem_map.mpr ⟨(g, seg), Table.mem_select.mpr ⟨hseg, ?_⟩, rfl⟩
        have hlt : first.position < g.first := by
          by_contra hge
          exact hout ⟨rfl, Nat.le_of_not_lt hge, Nat.le_trans hle hgl⟩
        simp [hgs, hs, hlt]
      cases hnext : nextIndexed s.db first.sessionID first.position with
      | none =>
        rw [nextIndexed, List.min?_eq_none_iff] at hnext
        rw [hnext] at hmem
        cases hmem
      | some b =>
        rw [hnext] at hbound
        have hmin := (List.min?_eq_some_iff.mp hnext).2 _ hmem
        simp only [Option.all_some, decide_eq_true_eq] at hbound
        omega

/-- `NextBatch` returns all chats of a range. -/
theorem nextBatch_exact (h : TierInv C s) {channel : String} {cutoff : Time} {limit : Nat}
    (hb : nextBatch s.db channel cutoff limit = .ok rows) (hne : rows ≠ []) :
    ∃ g, Batch s.db.log rows g := by
  unfold nextBatch at hb
  split at hb
  · cases hb
  split at hb
  · cases hb
    exact absurd rfl hne
  rename_i first hcand
  -- The candidate is a hot row outside every segment.
  obtain ⟨⟨p, row⟩, hhead, rfl⟩ := Option.map_eq_some_iff.mp hcand
  have hsel := List.mem_of_mem_head? hhead
  rw [mem_orderBy, Table.mem_select] at hsel
  obtain ⟨hhot, -⟩ := hsel
  dsimp only at hhot hb
  obtain ⟨hlog, rfl⟩ := h.hot_log hhot
  have hfree : ∀ g seg, s.db.segments.Has g seg →
      g.covers row.sessionID row.position = false := fun g seg hseg => h.hot_free hhot hseg
  have hincr := hotRows_increasing (fun hp => (h.hot_log hp).2) row.sessionID row.position
    (nextIndexed s.db row.sessionID row.position)
  have hmem := mem_hotRows_iff h hfree
  generalize hotRows s.db row.sessionID row.position
    (nextIndexed s.db row.sessionID row.position) = all at hb hincr hmem
  split at hb
  · cases hb
  cases hb
  have hrow : row ∈ all := by
    refine (hmem row).mpr ⟨hlog, rfl, Nat.le_refl _, ?_⟩
    cases hnext : nextIndexed s.db row.sessionID row.position with
    | none => rfl
    | some b =>
      obtain ⟨⟨g, seg⟩, hg, rfl⟩ := List.mem_map.mp (List.min?_eq_some_iff.mp hnext).1
      simp only [Table.mem_select, decide_eq_true_eq] at hg
      simpa using hg.2.2
  obtain ⟨last, hlast⟩ : ∃ last, all.getLast? = some last := by
    cases hgl : all.getLast? with
    | none =>
      rw [List.getLast?_eq_none_iff.mp hgl] at hrow
      cases hrow
    | some last => exact ⟨last, rfl⟩
  have hle : ∀ r ∈ all, r.position ≤ last.position := by
    intro r hr
    have htake := mem_take_iff_key_le (n := all.length) hincr (by rwa [List.take_length]) r
    rw [List.take_length] at htake
    exact (htake.mp hr).2
  have hall : Batch s.db.log all ⟨row.sessionID, row.position, last.position⟩ := by
    refine ⟨?_, ?_, by rw [hlast]; rfl⟩
    · apply eq_of_key_lt_of_mem_iff hincr (h.increasing.filter _)
      intro r
      change r ∈ all ↔ r ∈ window s.db.log _
      rw [mem_window]
      constructor
      · intro hr
        obtain ⟨hlog, hs, hfirst, -⟩ := (hmem r).mp hr
        exact ⟨hlog, hs.symm, hfirst, hle r hr⟩
      · rintro ⟨hlog, hs, hfirst, hl⟩
        refine (hmem r).mpr ⟨hlog, hs.symm, hfirst, ?_⟩
        have hbound := ((hmem last).mp (List.mem_of_getLast? hlast)).2.2.2
        cases hnext : nextIndexed s.db row.sessionID row.position with
        | none => rfl
        | some b =>
          rw [hnext] at hbound
          simp only [Option.all_some, decide_eq_true_eq] at hbound ⊢
          exact Nat.lt_of_le_of_lt hl hbound
    · cases all with
      | nil => cases hrow
      | cons a all =>
        rcases List.mem_cons.mp hrow with rfl | hin
        · rfl
        · have hlt := (List.pairwise_cons.mp hincr).1 row hin
          have hge := ((hmem a).mp List.mem_cons_self).2.2.1
          omega
  obtain ⟨last', hlast'⟩ : ∃ last', (all.take limit).getLast? = some last' := by
    cases hgl : (all.take limit).getLast? with
    | none => exact absurd (List.getLast?_eq_none_iff.mp hgl) hne
    | some last' => exact ⟨last', rfl⟩
  exact ⟨_, hall.take h.increasing hlast'⟩

/-! ## What a transaction did -/

/-- Neither chats nor segments changed. -/
def SameTiers (db db' : Db) : Prop :=
  ∃ broadcasts sessions unassigned lastPosition, db.lastPosition ≤ lastPosition ∧
    db' = { db with broadcasts, sessions, unassigned, lastPosition }

/-- A new chat at the position handed out. -/
def NewChat (db db' : Db) (position : Nat) (row : ChatRow) : Prop :=
  row.position = position ∧ ∃ sessions eventIDs hot unassigned,
    db.eventIDs.insert (row.sessionID, row.eventID) position = some eventIDs ∧
    db.hot.insert position row = some hot ∧
    db' = { db with sessions, eventIDs, hot, unassigned, log := db.log ++ [row] }

variable {db' : Db}

theorem appendArchiveChat_ok {K : Codec β} {B : Backend} {uuid : String} {r : ChatRecord}
    {assigned : Bool} (h : appendArchiveChat K B uuid position db r = .ok (db', assigned)) :
    SameTiers db db' ∨ ∃ session, NewChat db db' position (r.row session position) := by
  have hsame : ∀ {sessions unassigned}, SameTiers db { db with sessions, unassigned } :=
    ⟨_, _, _, _, Nat.le_refl _, rfl⟩
  unfold appendArchiveChat at h
  split at h
  · cases h
  split at h
  · cases h
  split at h
  · split at h
    · cases h
    rename_i sessions session hsession
    split at h
    · cases h
      exact Or.inl hsame
    rename_i eventIDs hids
    split at h
    · cases h
    rename_i hot hhot
    cases h
    exact Or.inr ⟨session, rfl, _, _, _, _, hids, hhot, rfl⟩
  · dsimp only at h
    split at h
    · cases h
      exact Or.inl hsame
    · cases h
      exact Or.inl hsame

/-- A new segment: no indexed one overlaps it, and its hot rows go. -/
def NewSegment (K : Codec β) (bucket : String) (db db' : Db) (x : Segment β) : Prop :=
  (∀ g row, db.segments.Has g row → g.sessionID = x.sessionID →
    g.last < x.firstPosition ∨ x.lastPosition < g.first) ∧
  ∃ segments, db.segments.insert x.range (x.row K bucket) = some segments ∧
    db' = { db with
      segments
      hot := db.hot.delete fun position row => x.range.covers row.sessionID position }

theorem commitSegment_ok {K : Codec β} {channel bucket : String} {pick : Nat}
    (h : commitSegment K channel bucket pick db x = .ok db') :
    db' = db ∨ NewSegment K bucket db db' x := by
  unfold commitSegment at h
  split at h
  · cases h
  split at h
  · cases h
  split at h
  · cases h
  split at h
  · split at h
    · cases h
      exact Or.inl rfl
    · cases h
  rename_i hpick
  split at h
  · cases h
  split at h
  · cases h
  rename_i segments hins
  dsimp only at h
  split at h
  · cases h
  cases h
  -- `pick` is in range, so nothing was found because nothing overlaps.
  have hnil : overlapping db x.range = [] := by
    by_contra hne
    have hlt := Nat.mod_lt pick (List.length_pos_iff.mpr hne)
    rw [List.getElem?_eq_none_iff] at hpick
    omega
  refine Or.inr ⟨?_, _, hins, rfl⟩
  intro g row hrow hs
  by_contra hover
  have hmem : (g, row) ∈ overlapping db x.range := by
    refine Table.mem_select.mpr ⟨hrow, ?_⟩
    simp only [decide_eq_true_eq]
    exact ⟨hs, hover⟩
  rw [hnil] at hmem
  cases hmem

/-! ## Every step -/

/-- The exporters move, the rest stays. -/
theorem TierInv.exporters_move (h : TierInv C s) {exporters : List (Point β)}
    (hpoints : ∀ {k : Nat} {point}, exporters[k]? = some point →
      s.exporters[k]? = some point ∨ PointInv C s.db.log s.objects point) :
    TierInv C { s with exporters } :=
  { h with exporters := fun hk => (hpoints hk).elim h.exporters id }

/-- One exporter moves. -/
theorem TierInv.at (h : TierInv C s) (k : Nat) {point : Point β}
    (hpoint : PointInv C s.db.log s.objects point) : TierInv C (s.at k point) := by
  refine h.exporters_move ?_
  intro j point' hj
  rw [List.getElem?_set] at hj
  split at hj
  · split at hj
    · rw [← Option.some.inj hj]
      exact Or.inr hpoint
    · cases hj
  · exact Or.inl hj

/-- A database with the same chats and segments. -/
theorem TierInv.same (h : TierInv C s) {minted : List String} (hsame : SameTiers s.db db') :
    TierInv C { s with db := db', minted } := by
  obtain ⟨_, _, _, _, hle, rfl⟩ := hsame
  refine { h with position := ?_ }
  intro r hr
  obtain ⟨hpos, hlast⟩ := h.position hr
  exact ⟨hpos, Nat.le_trans hlast hle⟩

theorem PointInv.append {point : Point β} (h : PointInv C log objects point)
    (hr : ∀ r' ∈ log, r'.position < r.position) :
    PointInv C (log ++ [r]) objects point := by
  cases point with
  | idle => trivial
  | selected rows =>
    obtain ⟨g, hg⟩ := h
    exact ⟨g, hg.append hr⟩
  | built | stored => exact Exact.append h hr
  | verified x => exact ⟨h.1.append hr, h.2⟩

/-- A chat is appended: it is hot, behind every batch and every segment. -/
theorem TierInv.newChat (h : TierInv C s) {minted : List String}
    (hnew : NewChat { s.db with lastPosition := position } db' position r)
    (hpos : s.db.lastPosition < position) : TierInv C { s with db := db', minted } := by
  obtain ⟨hrpos, _, _, _, _, hids, hhot, rfl⟩ := hnew
  have hbehind : ∀ r' ∈ s.db.log, r'.position < r.position := by
    intro r' hr'
    have hle := (h.position hr').2
    omega
  -- No range reaches the new position.
  have hout : ∀ {g seg}, s.db.segments.Has g seg → g.covers r.sessionID r.position = false := by
    intro g seg hg
    obtain ⟨x, ⟨rows, hbatch, -⟩, rfl, -⟩ := h.segment hg
    obtain ⟨last, hlast, heq⟩ := hbatch.exists_last
    have hlt := hbehind last hlast
    rw [← Bool.not_eq_true, Range.covers_iff]
    omega
  have hhas := (Table.insert_eq_some hhot).2
  constructor
  case increasing =>
    refine List.pairwise_append.mpr ⟨h.increasing, List.pairwise_singleton _ _, ?_⟩
    intro a ha b hb
    rw [List.mem_singleton.mp hb]
    exact hbehind a ha
  case position =>
    intro r' hr'
    rcases List.mem_append.mp hr' with hr' | hr'
    · obtain ⟨hp, hle⟩ := h.position hr'
      exact ⟨hp, Nat.le_trans hle (Nat.le_of_lt hpos)⟩
    · rw [List.mem_singleton.mp hr', hrpos]
      exact ⟨Nat.zero_lt_of_lt hpos, Nat.le_refl _⟩
  case ids =>
    intro session e p hp
    rcases ((Table.insert_eq_some hids).2 _ _).mp hp with hp | ⟨hk, rfl⟩
    · obtain ⟨r', hr', hfields⟩ := h.ids hp
      exact ⟨r', List.mem_append_left _ hr', hfields⟩
    · obtain ⟨rfl, rfl⟩ := Prod.mk.inj hk
      exact ⟨r, by simp, rfl, rfl, hrpos⟩
  case hot_log =>
    intro p row hp
    rcases (hhas _ _).mp hp with hp | ⟨rfl, rfl⟩
    · obtain ⟨hmem, heq⟩ := h.hot_log hp
      exact ⟨List.mem_append_left _ hmem, heq⟩
    · exact ⟨by simp, hrpos⟩
  case hot_free =>
    intro p row g seg hp hg
    rcases (hhas _ _).mp hp with hp | ⟨rfl, rfl⟩
    · exact h.hot_free hp hg
    · rw [← hrpos]
      exact hout hg
  case disjoint => exact h.disjoint
  case kept =>
    intro r' hr'
    rcases List.mem_append.mp hr' with hr' | hr'
    · rcases h.kept hr' with hp | hg
      · exact Or.inl ((hhas _ _).mpr (Or.inl hp))
      · exact Or.inr hg
    · rw [List.mem_singleton.mp hr']
      exact Or.inl ((hhas _ _).mpr (Or.inr ⟨hrpos, rfl⟩))
  case segment =>
    intro g seg hg
    obtain ⟨x, hx, hrest⟩ := h.segment hg
    exact ⟨x, hx.append hbehind, hrest⟩
  case objects =>
    intro key body hb
    obtain ⟨x, hx, hrest⟩ := h.objects hb
    exact ⟨x, hx.append hbehind, hrest⟩
  case exporters => exact fun hk => (h.exporters hk).append hbehind

/-- An upload: a key that exists already gets the body it has. -/
theorem TierInv.upload (h : TierInv C s) (hx : Exact C s.db.log x) :
    TierInv C { s with objects := s.objects.upsert x.objectKey x.body } := by
  have hkeep : ∀ {key body}, s.objects.Has key body →
      (s.objects.upsert x.objectKey x.body).Has key body := by
    intro key body hb
    rw [Table.has_upsert]
    by_cases hkey : key = x.objectKey
    · obtain ⟨x', hx', hkey', rfl⟩ := h.objects hb
      rw [hx'.unique hx (hkey'.trans hkey)]
      exact Or.inl ⟨hkey, rfl⟩
    · exact Or.inr ⟨hkey, hb⟩
  refine
    { h with
      segment := ?segment
      objects := ?objects
      exporters := ?exporters }
  case segment =>
    intro g seg hg
    obtain ⟨x', hx', hrange, hrow, hstored⟩ := h.segment hg
    exact ⟨x', hx', hrange, hrow, hstored.mono hkeep⟩
  case objects =>
    intro key body hb
    rcases Table.has_upsert.mp hb with ⟨rfl, rfl⟩ | ⟨-, hb⟩
    · exact ⟨x, hx, rfl, rfl⟩
    · exact h.objects hb
  case exporters =>
    intro k point hk
    have hinv := h.exporters hk
    cases point with
    | verified x' => exact ⟨hinv.1, hinv.2.mono hkeep⟩
    | _ => exact hinv

/-- A segment is indexed: what it holds was hot, and is hot no longer. -/
theorem TierInv.newSegment (h : TierInv C s) (hx : Exact C s.db.log x)
    (hstored : Stored C s.objects x) (hnew : NewSegment C.codec C.bucket s.db db' x) :
    TierInv C { s with db := db' } := by
  obtain ⟨hfree, _, hins, rfl⟩ := hnew
  have hhas := (Table.insert_eq_some hins).2
  refine
    { h with
      hot_log := ?hot_log
      hot_free := ?hot_free
      disjoint := ?disjoint
      kept := ?kept
      segment := ?segment }
  case hot_log => exact fun hp => h.hot_log (Table.has_delete.mp hp).1
  case hot_free =>
    intro p row g seg hp hg
    obtain ⟨hp, hout⟩ := Table.has_delete.mp hp
    rcases (hhas _ _).mp hg with hg | ⟨rfl, rfl⟩
    · exact h.hot_free hp hg
    · exact hout
  case disjoint =>
    intro g seg g' seg' hg hg' hne hs
    rcases (hhas _ _).mp hg with hg | ⟨rfl, rfl⟩ <;>
      rcases (hhas _ _).mp hg' with hg' | ⟨rfl, rfl⟩
    · exact h.disjoint hg hg' hne hs
    · exact hfree g seg hg hs
    · exact (hfree g' seg' hg' hs.symm).symm
    · exact absurd rfl hne
  case kept =>
    intro r hr
    rcases h.kept hr with hp | ⟨g, seg, hg, hcov⟩
    · by_cases hcov : x.range.covers r.sessionID r.position = true
      · exact Or.inr ⟨x.range, _, (hhas _ _).mpr (Or.inr ⟨rfl, rfl⟩), hcov⟩
      · exact Or.inl (Table.has_delete.mpr ⟨hp, by simpa using hcov⟩)
    · exact Or.inr ⟨g, seg, (hhas _ _).mpr (Or.inl hg), hcov⟩
  case segment =>
    intro g seg hg
    rcases (hhas _ _).mp hg with hg | ⟨rfl, rfl⟩
    · exact h.segment hg
    · exact ⟨x, hx, rfl, rfl, hstored⟩

/-- A settled transaction left the state as it was, or put its database there. -/
theorem settle_db {α : Type} (s : State β) (fate : Fate) (out : Except ArchiveErr α → Output)
    (result : Except ArchiveErr (Db × α)) :
    (settle s fate out result).1 = s ∨
      ∃ db a, result = .ok (db, a) ∧ (settle s fate out result).1 = { s with db } := by
  cases result with
  | error e => exact Or.inl rfl
  | ok r =>
    cases fate with
    | failed => exact Or.inl rfl
    | lost | answered => exact Or.inr ⟨r.1, r.2, rfl, rfl⟩

/-- `GetVerified` answers with what the bucket holds. -/
theorem getVerified_ok {key checksum : String} {body : β}
    (h : getVerified C objects key checksum = .ok body) :
    objects.Has key body ∧ C.codec.size body ≠ 0 ∧ C.codec.validObject key checksum = true := by
  unfold getVerified at h
  split at h
  · cases h
  rename_i hvalid
  split at h
  · cases h
  rename_i body' hfind
  split at h
  · cases h
  rename_i hsize
  split at h
  · cases h
  cases h
  exact ⟨Table.find_eq_some_iff.mp hfind, fun h0 => hsize (Or.inl h0), by simpa using hvalid⟩

variable [DecidableEq β]

theorem TierInv.step_append (h : TierInv C s) {r : ChatRecord} {uuid : String} {fate : Fate}
    (hpos : s.db.lastPosition < position) :
    TierInv C (step C s (.append r uuid position fate)).1 := by
  have hdrawn : SameTiers s.db { s.db with lastPosition := position } :=
    ⟨_, _, _, _, Nat.le_of_lt hpos, rfl⟩
  simp only [step]
  rcases settle_db
    { s with db := { s.db with lastPosition := position }, minted := uuid :: s.minted } fate
    .appended (appendArchiveChat C.codec C.backend uuid position
      { s.db with lastPosition := position } r) with heq | ⟨db, assigned, hok, heq⟩
  · rw [heq]
    exact h.same hdrawn
  · rw [heq]
    rcases appendArchiveChat_ok hok with hsame | ⟨session, hnew⟩
    · exact (h.same hdrawn).same hsame
    · exact h.newChat hnew hpos

theorem TierInv.step_select (h : TierInv C s) (k : Nat) (cutoff : Time) (fate : Fate) :
    TierInv C (step C s (.select k cutoff fate)).1 := by
  simp only [step]
  split
  · split
    · rename_i row rows hbatch
      split
      · exact h.at k (nextBatch_exact h hbatch (by simp))
      · exact h
    · exact h
  · exact h

theorem TierInv.step_build (h : TierInv C s) (k : Nat) :
    TierInv C (step C s (.build k)).1 := by
  simp only [step]
  split
  · rename_i rows hk
    obtain ⟨g, hbatch⟩ := h.exporters hk
    split
    · rename_i x hbuild
      exact h.at k (hbatch.exact_halving h.increasing hbuild)
    · exact h.at k trivial
  · exact h

theorem TierInv.step_put (h : TierInv C s) (k : Nat) (stored answered : Bool) :
    TierInv C (step C s (.put k stored answered)).1 := by
  simp only [step]
  split
  · rename_i x hk
    have hx : Exact C s.db.log x := h.exporters hk
    split
    · exact h.at k trivial
    cases stored with
    | false => exact h.at k trivial
    | true =>
      have hup := h.upload hx
      cases answered with
      | false => exact hup.at k trivial
      | true => exact hup.at k hx
  · exact h

theorem TierInv.step_get (h : TierInv C s) (k : Nat) (ok : Bool) :
    TierInv C (step C s (.get k ok)).1 := by
  simp only [step]
  split
  · rename_i x hk
    have hx : Exact C s.db.log x := h.exporters hk
    split
    · rename_i body hget
      obtain ⟨hobj, hsize, hvalid⟩ := getVerified_ok hget
      split
      · rename_i hsame
        obtain rfl := hsame.2
        exact h.at k ⟨hx, hobj, hsize, hvalid⟩
      · exact h.at k trivial
    · exact h.at k trivial
  · exact h

theorem map_unit_ok {result : Except ArchiveErr Db} {a : Unit}
    (h : result.map (·, ()) = .ok (db, a)) : result = .ok db := by
  cases result with
  | error e => cases h
  | ok db' =>
    cases h
    rfl

theorem TierInv.step_commit (h : TierInv C s) (k pick : Nat) (fate : Fate) :
    TierInv C (step C s (.commit k pick fate)).1 := by
  simp only [step]
  split
  · rename_i x hk
    obtain ⟨hx, hstored⟩ := h.exporters hk
    have hidle : TierInv C (s.at k .idle) := h.at k trivial
    rcases settle_db (s.at k .idle) fate .committed
      ((commitSegment C.codec C.channel C.bucket pick s.db x).map (·, ())) with
      heq | ⟨db, a, hok, heq⟩
    · rw [heq]
      exact hidle
    · rw [heq]
      rcases commitSegment_ok (map_unit_ok hok) with rfl | hnew
      · exact hidle
      · exact hidle.newSegment hx hstored hnew
  · exact h

/-- Every step keeps the tiers in order. -/
theorem TierInv.step (h : TierInv C s) {i : Input} (hi : admits s i) :
    TierInv C (step C s i).1 := by
  cases i with
  | broadcasts rows => exact h.same ⟨_, _, _, _, Nat.le_refl _, rfl⟩
  | append r uuid position fate => exact h.step_append hi.2
  | start =>
    refine h.exporters_move ?_
    intro k point hk
    rw [List.getElem?_append] at hk
    split at hk
    · exact Or.inl hk
    · have hidle := List.mem_of_getElem? hk
      rw [List.mem_singleton] at hidle
      rw [hidle]
      exact Or.inr trivial
  | select k cutoff fate => exact h.step_select k cutoff fate
  | build k => exact h.step_build k
  | put k stored answered => exact h.step_put k stored answered
  | get k ok => exact h.step_get k ok
  | commit k pick fate => exact h.step_commit k pick fate
  | stop k => exact h.at k trivial

variable {tr : List (Input × Output)}

/-- The invariant holds along every run. -/
theorem run_tierInv (hr : (machine C).Run (State.init β) tr s) : TierInv C s :=
  hr.invariant (fun _ _ h hi => h.step hi) TierInv.init

/-! ## Along a run -/

/-- The step that put the chat into `archive_event_ids`. -/
def Inserted (C : Config β) (tr : List (Input × Output)) (session : String) (p : Nat)
    (r : ChatRecord) : Prop :=
  ∃ tr1 uuid fate o tr2 s1, tr = tr1 ++ (.append r uuid p fate, o) :: tr2 ∧
    (machine C).Run (State.init β) tr1 s1 ∧ ¬s1.db.eventIDs.Has (session, r.eventID) p ∧
    (step C s1 (.append r uuid p fate)).1.db.eventIDs.Has (session, r.eventID) p

/-- Only an append changes the chats, and positions are never taken back. -/
theorem step_log {i : Input} (hi : admits s i) :
    ((step C s i).1.db.log = s.db.log ∧ (step C s i).1.db.eventIDs = s.db.eventIDs ∧
        s.db.lastPosition ≤ (step C s i).1.db.lastPosition) ∨
      ∃ r uuid p fate session, i = .append r uuid p fate ∧ s.db.lastPosition < p ∧
        NewChat { s.db with lastPosition := p } (step C s i).1.db p (r.row session p) := by
  cases i with
  | broadcasts | start | stop => exact Or.inl ⟨rfl, rfl, Nat.le_refl _⟩
  | append r uuid p fate =>
    simp only [step]
    rcases settle_db { s with db := { s.db with lastPosition := p }, minted := uuid :: s.minted }
      fate .appended (appendArchiveChat C.codec C.backend uuid p
        { s.db with lastPosition := p } r) with heq | ⟨db, assigned, hok, heq⟩
    · rw [heq]
      exact Or.inl ⟨rfl, rfl, Nat.le_of_lt hi.2⟩
    · rw [heq]
      rcases appendArchiveChat_ok hok with ⟨_, _, _, _, hle, rfl⟩ | ⟨session, hnew⟩
      · exact Or.inl ⟨rfl, rfl, Nat.le_trans (Nat.le_of_lt hi.2) hle⟩
      · exact Or.inr ⟨r, uuid, p, fate, session, rfl, hi.2, hnew⟩
  | select | build | put | get =>
    simp only [step]
    repeat' split
    all_goals exact Or.inl ⟨rfl, rfl, Nat.le_refl _⟩
  | commit k pick fate =>
    simp only [step]
    split
    · rename_i x hk
      rcases settle_db (s.at k .idle) fate .committed
        ((commitSegment C.codec C.channel C.bucket pick s.db x).map (·, ())) with
        heq | ⟨db, a, hok, heq⟩
      · rw [heq]
        exact Or.inl ⟨rfl, rfl, Nat.le_refl _⟩
      · rw [heq]
        rcases commitSegment_ok (map_unit_ok hok) with rfl | ⟨-, _, -, rfl⟩
        · exact Or.inl ⟨rfl, rfl, Nat.le_refl _⟩
        · exact Or.inl ⟨rfl, rfl, Nat.le_refl _⟩
    · exact Or.inl ⟨rfl, rfl, Nat.le_refl _⟩

/-- Chats stay in the log. -/
theorem run_log {s' : State β} (hr : (machine C).Run s tr s') (hmem : r ∈ s.db.log) :
    r ∈ s'.db.log := by
  refine hr.invariant (I := fun s' => r ∈ s'.db.log) ?_ hmem
  intro s1 i hmem' hi
  change r ∈ (step C s1 i).1.db.log
  rcases step_log hi with ⟨hlog, -⟩ | ⟨_, _, _, _, _, -, -, -, _, _, _, _, -, -, hnew⟩
  · rw [hlog]
    exact hmem'
  · rw [hnew]
    exact List.mem_append_left _ hmem'

/-- A chat that was inserted is in the log. -/
theorem Inserted.mem_log (hr : (machine C).Run (State.init β) tr s) {p : Nat} {r : ChatRecord}
    (h : Inserted C tr session p r) :
    r.row session p ∈ s.db.log := by
  obtain ⟨tr1, uuid, fate, o, tr2, s1, rfl, hr1, hnot, hhas⟩ := h
  obtain ⟨s1', hr1', hi, ho, hr2⟩ := hr.event
  obtain rfl := hr1'.unique hr1
  refine run_log hr2 ?_
  change _ ∈ (step C s1' (.append r uuid p fate)).1.db.log
  have hi : admits s1' (.append r uuid p fate) := hi
  rcases step_log (C := C) hi with
    ⟨-, hids, -⟩ | ⟨r', _, _, _, session', hin, -, -, _, _, _, _, hids, -, hnew⟩
  · exact absurd (hids ▸ hhas) hnot
  · cases hin
    rw [hnew] at hhas ⊢
    rcases ((Table.insert_eq_some hids).2 _ _).mp hhas with hold | ⟨hk, -⟩
    · exact absurd hold hnot
    · obtain ⟨rfl, -⟩ := Prod.mk.inj hk
      simp [ChatRecord.row]

/-- Every row of the log was put there by an append. -/
theorem exists_inserted (hr : (machine C).Run (State.init β) tr s) (h : row ∈ s.db.log) :
    ∃ r, row = r.row row.sessionID row.position ∧
      Inserted C tr row.sessionID row.position r := by
  induction hr with
  | nil => cases h
  | @snoc tr1 s1 hr i hi ih =>
    have hold : row ∈ s1.db.log → ∃ r, row = r.row row.sessionID row.position ∧
        Inserted C (tr1 ++ [(i, ((machine C).step s1 i).2)]) row.sessionID row.position r := by
      intro hmem
      obtain ⟨r, hrow, tr0, uuid, fate, o, tr2, s0, rfl, hrest⟩ := ih hmem
      exact ⟨r, hrow, tr0, uuid, fate, o, tr2 ++ [_], s0, List.append_assoc .., hrest⟩
    change row ∈ (step C s1 i).1.db.log at h
    rcases step_log (C := C) hi with
      ⟨hlog, -⟩ | ⟨r, uuid, p, fate, session, rfl, -, -, _, _, _, _, hids, -, hnew⟩
    · exact hold (hlog ▸ h)
    · rw [hnew] at h
      rcases List.mem_append.mp h with h | h
      · exact hold h
      · obtain rfl := List.mem_singleton.mp h
        obtain ⟨hnot, hhas⟩ := Table.insert_eq_some hids
        refine ⟨r, rfl, tr1, uuid, fate, _, [], s1, rfl, hr, ?_, ?_⟩
        · exact Table.find_eq_none_iff.mp hnot p
        · change (step C s1 (.append r uuid p fate)).1.db.eventIDs.Has _ _
          rw [hnew]
          exact (hhas _ _).mpr (Or.inr ⟨rfl, rfl⟩)

/-- What the two tiers hold after a run. -/
structure TiersPartition (C : Config β) (tr : List (Input × Output)) (s : State β) : Prop where
  disjoint : ∀ g seg g' seg', s.db.segments.Has g seg → s.db.segments.Has g' seg' →
    g.sessionID = g'.sessionID → g ≠ g' → g.last < g'.first ∨ g'.last < g.first
  hot_outside : ∀ p row g seg, s.db.hot.Has p row → s.db.segments.Has g seg →
    row.sessionID = g.sessionID → ¬(g.first ≤ p ∧ p ≤ g.last)
  inserted : ∀ session e p, s.db.eventIDs.Has (session, e) p →
    ∃ r, r.eventID = e ∧ Inserted C tr session p r
  placed : ∀ session p r, Inserted C tr session p r → InOneTier C s (r.row session p)
  failed : ∀ k pick fate e, (step C s (.commit k pick fate)).2 = .committed (.error e) →
    (step C s (.commit k pick fate)).1.db.hot = s.db.hot ∧
      (step C s (.commit k pick fate)).1.db.segments = s.db.segments

/-- A commit that reports an error changed no table. -/
theorem step_commit_error {k pick : Nat} {fate : Fate} {e : ArchiveErr}
    (h : (step C s (.commit k pick fate)).2 = .committed (.error e)) :
    (step C s (.commit k pick fate)).1.db = s.db := by
  simp only [step] at h ⊢
  split
  · rename_i x hk
    rw [hk] at h
    dsimp only at h
    cases hresult : commitSegment C.codec C.channel C.bucket pick s.db x with
    | error e => rfl
    | ok db =>
      rw [hresult] at h
      cases fate with
      | failed => rfl
      | lost | answered => cases h
  · rfl

/-- Appends and exports, in any interleaving and with any failures, keep every
chat in exactly one tier. -/
theorem tiers_partition (C : Config β) (tr : List (Input × Output)) (s : State β)
    (hr : (machine C).Run (State.init β) tr s) : TiersPartition C tr s := by
  have h := run_tierInv hr
  constructor
  case disjoint => exact fun g seg g' seg' hg hg' hs hne => h.disjoint hg hg' hne hs
  case hot_outside =>
    intro p row g seg hp hg hs hin
    have hout := h.outside hp hg hs.symm
    omega
  case inserted =>
    intro session e p hp
    obtain ⟨row, hrow, rfl, rfl, rfl⟩ := h.ids hp
    obtain ⟨r, heq, hins⟩ := exists_inserted hr hrow
    exact ⟨r, congrArg ChatRow.eventID heq.symm, hins⟩
  case placed => exact fun session p r hins => h.inOneTier (hins.mem_log hr)
  case failed =>
    intro k pick fate e herr
    rw [step_commit_error herr]
    exact ⟨rfl, rfl⟩

/-! ## Two exporters with one batch -/

/-- A body is its rows. -/
def fixtureCodec : Codec (List ChatRow) where
  lineLen _ := some 100
  encode := id
  size rows := 20 * rows.length
  sha256Hex rows := toString rows.length
  plainLen rows := some (rows.map fun _ => 101).sum
  decode rows := (rows, true)
  parseUUID := canonicalUUID
  validObject _ _ := true
  round_trip _ _ := rfl
  plain_encode _ := rfl
  sha256_slash rows := notMem_toString (by decide) rows.length

def fixtureConfig : Config (List ChatRow) :=
  ⟨fixtureCodec, Journal.fixtureBackend, "fixture_channel", "fixture_bucket"⟩

def sessionA : String := "1b671a64-40d5-491e-99b0-da01ff1f33aa"
def sessionB : String := "1b671a64-40d5-491e-99b0-da01ff1f33bb"
def sessionC : String := "1b671a64-40d5-491e-99b0-da01ff1f33cc"

def fixtureRecord (id : String) (t : Time) : ChatRecord :=
  { spoolID := "9b1deb4d-3b7d-4bad-9bdd-2b0d7b3dcb6" ++ id, eventID := id
    platform := .soop, channelID := "fixture_channel"
    receivedAt := t, userIDVersion := 1
    publicUserID := "0123456789abcdef0123456789abcdef0123456789abcdef0123456789abcdef"
    displayName := "viewer", message := "message " ++ id }

/-- Two exporters select the same two chats and upload them.  The first one's
commit is not answered; a third chat arrives; the second one commits. -/
def staleRun : State (List ChatRow) × List (Input × Output) :=
  (machine fixtureConfig).exec (State.init (List ChatRow))
    [ .broadcasts [⟨.soop, "fixture_channel", 1, 1, 1, 100, none⟩]
    , .append (fixtureRecord "a" 10) sessionA 1 .answered
    , .append (fixtureRecord "b" 20) sessionB 2 .answered
    , .start, .start
    , .select 0 50 .answered, .select 1 50 .answered
    , .build 0, .build 1, .put 0 true true, .put 1 true true, .get 0 true, .get 1 true
    , .commit 0 0 .lost
    , .append (fixtureRecord "c" 30) sessionC 4 .answered
    , .commit 1 0 .answered ]

theorem run_staleRun :
    (machine fixtureConfig).Run (State.init (List ChatRow)) staleRun.2 staleRun.1 :=
  Machine.run_exec _ _ (by decide +kernel)

theorem tiers_partition_staleRun :
    staleRun.1.db.segments.keys = [⟨sessionA, 1, 2⟩] ∧ staleRun.1.db.hot.keys = [4] ∧
      staleRun.2.getLast?.map Prod.snd = some (.committed (.ok ())) ∧
      TiersPartition fixtureConfig staleRun.2 staleRun.1 :=
  ⟨by decide +kernel, by decide +kernel, by decide +kernel, tiers_partition _ _ _ run_staleRun⟩

end RogiCollector.Ports.Archive
