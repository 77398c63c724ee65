import Mathlib.Data.Prod.Lex
import Mathlib.Data.Set.Card
import Mathlib.Data.String.Basic
import RogiCollector.Verified.Like
import RogiCollector.Verified.Select
import RogiCollector.Ports.LiveChannels

/-!
# Searching broadcasts

`SearchBroadcastChannels` of `shared/store/postgres.go`, one query: the rows of
`broadcast_metadata_history` that match, the newest of them for each channel, joined with the
sessions of its number and with the live channel, ordered, a page of it, and the count of all.

The rows are matched before the newest is taken.  So a channel is found by what it was called
earlier in the window, not by what it is called last.  A session number may be given twice,
which joins a channel with two sessions; a page without rows has no row to say the count; and
a tag that is null cannot be scanned.

Each page is a query with its own `NOW()`: rows leave the window between two pages, and a live
channel that was not seen for ten minutes moves to another place.  Rows stand in the order in
which the query meets them, which decides between rows of the same time; it is the same on
every page.
-/

namespace RogiCollector.Ports.BroadcastSearch

open Verified
open Journal (Time day)
open Live (ChannelStatus)

/-! ## Tables -/

/-- A channel: `(platform, channel_id)`. -/
abbrev Key := String × String

/-- The primary key of `broadcast_metadata_history`. -/
structure MetadataKey where
  validFrom : Time
  platform : String
  channelID : String
  sessionSeq : Int
  deriving Repr, DecidableEq

/-- What the query reads of `broadcast_metadata_history`; elements of an array can be null. -/
structure Metadata where
  title : String
  category : Option String
  tags : List (Option String)
  thumbnailURL : Option String
  deriving Repr, DecidableEq

/-- The primary key of `broadcast_sessions`. -/
structure SessionKey where
  startedAt : Time
  platform : String
  channelID : String
  sessionSeq : Int
  deriving Repr, DecidableEq

/-- What the query reads of `broadcast_sessions`. -/
structure Session where
  streamerName : String
  endedAt : Option Time
  peakViewerCount : Int
  deriving Repr, DecidableEq

/-- What the query reads of `live_channels`. -/
structure LiveRow where
  viewerCount : Option Int
  status : ChannelStatus
  lastSeenAt : Time
  deriving Repr, DecidableEq

structure Db where
  metadata : Table MetadataKey Metadata
  sessions : Table SessionKey Session
  live : Table Key LiveRow

/-- A row of a table with its key. -/
abbrev MetadataRow := MetadataKey × Metadata

abbrev SessionRow := SessionKey × Session

def channelOf (r : MetadataRow) : Key := (r.1.platform, r.1.channelID)

/-! ## The query -/

/-- Lower case as the database's locale has it: characters of patterns have none. -/
structure Locale where
  lower : Char → Char
  lower_special : ∀ c, Like.special c = true → lower c = c
  special_lower : ∀ c, Like.special (lower c) = Like.special c

/-- The arguments of a search, and `NOW()`. -/
structure Query where
  keyword : String
  platform : String
  lookbackDays : Int
  now : Time

variable (L : Locale)

def Locale.fold (s : String) : List Char := s.toList.map L.lower

/-- `text ILIKE '%' || keyword || '%'`. -/
def ilike (keyword text : String) : Bool :=
  Like.like (('%' :: keyword.toList ++ ['%']).map L.lower) (L.fold text)

/-- `t > NOW() - ($3 * INTERVAL '1 day')`. -/
def Query.recent (q : Query) (t : Time) : Bool := (q.now : Int) - q.lookbackDays * day < t

/-- The row is in the window and of the platform. -/
def Query.inWindow (q : Query) (r : MetadataRow) : Bool :=
  q.recent r.1.validFrom ∧ (q.platform = "" ∨ r.1.platform = q.platform)

/-- Title, category or a tag is like the keyword; what is null is like nothing. -/
def Query.hits (q : Query) (r : MetadataRow) : Bool :=
  ilike L q.keyword r.2.title || r.2.category.any (ilike L q.keyword) ||
    r.2.tags.any fun t => t.any (ilike L q.keyword)

/-- The order of `ORDER BY platform, channel_id, valid_from DESC`. -/
abbrev MatchOrder := Lex (String × Lex (String × OrderDual Time))

def matchOrder (r : MetadataRow) : MatchOrder :=
  toLex (r.1.platform, toLex (r.1.channelID, OrderDual.toDual r.1.validFrom))

/-- The rows that meet the `WHERE` condition. -/
def candidates (db : Db) (q : Query) : List MetadataRow :=
  db.metadata.rows.filter fun r => q.inWindow r && q.hits L r

/-- `WITH matched AS (SELECT DISTINCT ON (platform, channel_id) …)`. -/
def matched (db : Db) (q : Query) : List MetadataRow :=
  distinctOn channelOf (orderBy matchOrder (candidates L db q))

/-- The condition of the join with `broadcast_sessions`. -/
def sameSession (q : Query) (m : MetadataRow) (s : SessionRow) : Bool :=
  s.1.platform = m.1.platform ∧ s.1.channelID = m.1.channelID ∧
    s.1.sessionSeq = m.1.sessionSeq ∧ q.recent s.1.startedAt

/-- The columns of the result, with tags as the database or as the program has them. -/
structure Columns (τ : Type) where
  platform : String
  channelID : String
  streamerName : String
  title : String
  category : Option String
  tags : List τ
  thumbnailURL : Option String
  lastStartedAt : Option Time
  lastEndedAt : Option Time
  peakViewerCount : Int
  isLive : Bool
  currentViewerCount : Int
  deriving Repr, DecidableEq

/-- `model.BroadcastChannel`. -/
abbrev BroadcastChannel := Columns String

abbrev ResultRow := Columns (Option String)

def Columns.key {τ : Type} (ch : Columns τ) : Key := (ch.platform, ch.channelID)

/-- The channel was seen live in the last ten minutes. -/
def LiveRow.isLive (q : Query) (lc : LiveRow) : Bool :=
  (lc.status = .live ∨ lc.status = .pending) ∧
    (q.now : Int) - 10 * 60 * Journal.second < lc.lastSeenAt

/-- The columns of a joined row. -/
def project (db : Db) (q : Query) (x : MetadataRow × Option SessionRow) : ResultRow :=
  let lc := db.live.find (channelOf x.1)
  { platform := x.1.1.platform
    channelID := x.1.1.channelID
    streamerName := (x.2.map (·.2.streamerName)).getD ""
    title := x.1.2.title
    category := x.1.2.category
    tags := x.1.2.tags
    thumbnailURL := x.1.2.thumbnailURL
    lastStartedAt := x.2.map (·.1.startedAt)
    lastEndedAt := x.2.bind (·.2.endedAt)
    peakViewerCount := (x.2.map (·.2.peakViewerCount)).getD 0
    isLive := lc.any (LiveRow.isLive q)
    currentViewerCount := (lc.bind (·.viewerCount)).getD 0 }

/-- The order of the result: live channels and many viewers first. -/
abbrev ResultOrder := Lex (OrderDual Bool × Lex (OrderDual Int × Lex (String × String)))

def ResultRow.order (ch : ResultRow) : ResultOrder :=
  toLex (OrderDual.toDual ch.isLive,
    toLex (OrderDual.toDual (max ch.currentViewerCount ch.peakViewerCount),
      toLex (ch.platform, ch.channelID)))

/-- All rows of the result, in their order. -/
def joined (db : Db) (q : Query) : List ResultRow :=
  orderBy ResultRow.order
    ((leftJoin (sameSession q) (matched L db q) db.sessions.rows).map (project db q))

/-- `Scan` reads the tags into strings, and fails at one that is null. -/
def ResultRow.scans (row : ResultRow) : Bool := row.tags.all Option.isSome

def ResultRow.scan (row : ResultRow) : BroadcastChannel :=
  { row with tags := row.tags.filterMap id }

/-- `SearchBroadcastChannels`: a page, and the count that each of its rows has; `none` is the
error of a scan. -/
def search (db : Db) (q : Query) (limit offset : Nat) : Option (List BroadcastChannel × Nat) :=
  let rows := page (joined L db q) limit offset
  if rows.all ResultRow.scans then
    some (rows.map ResultRow.scan, if rows = [] then 0 else (joined L db q).length)
  else none

/-! ## What should be found -/

/-- No row of the channel in the window is newer. -/
def Latest (db : Db) (q : Query) (r : MetadataRow) : Prop :=
  r ∈ db.metadata.rows ∧ q.inWindow r = true ∧
    ∀ r' ∈ db.metadata.rows, q.inWindow r' = true → channelOf r' = channelOf r →
      r'.1.validFrom ≤ r.1.validFrom

/-- The text contains the keyword, upper and lower case alike. -/
def Within (keyword text : String) : Prop := L.fold keyword <:+: L.fold text

/-- Title, category or a tag contains the keyword. -/
def Contains (q : Query) (r : MetadataRow) : Prop :=
  Within L q.keyword r.2.title ∨ (∃ c, r.2.category = some c ∧ Within L q.keyword c) ∨
    ∃ t, some t ∈ r.2.tags ∧ Within L q.keyword t

/-- The channel's latest row contains the keyword. -/
def Expected (db : Db) (q : Query) (key : Key) : Prop :=
  ∃ r, Latest db q r ∧ Contains L q r ∧ channelOf r = key

/-- The channel is shown with the row's title, category and tags. -/
def Shows (ch : BroadcastChannel) (r : MetadataRow) : Prop :=
  ch.key = channelOf r ∧ ch.title = r.2.title ∧ ch.category = r.2.category ∧
    ch.tags.map some = r.2.tags

section Pages

variable (db : Db) (q : Query) (times : Nat → Time) (limit : Nat)

/-- The page with this number, at its own time. -/
def pageAt (k : Nat) : Option (List BroadcastChannel) :=
  (search L db { q with now := times k } limit (k * limit)).map Prod.fst

/-- The first pages, one after the other. -/
def pages (count : Nat) : List BroadcastChannel :=
  (List.range count).flatMap fun k => (pageAt L db q times limit k).getD []

/-- Read to their end, the pages show each expected channel once and no other. -/
structure Exact : Prop where
  answered : ∀ k, (pageAt L db q times limit k).isSome
  once : ∀ count, pageAt L db q times limit count = some [] → ∀ key, Expected L db q key →
    ((pages L db q times limit count).filter fun ch => ch.key = key).length = 1
  only : ∀ count, pageAt L db q times limit count = some [] →
    ∀ ch ∈ pages L db q times limit count, ∃ r, Latest db q r ∧ Contains L q r ∧ Shows ch r

end Pages

/-- At this time the same rows are recent and the same channels live as at `q.now`. -/
structure Steady (db : Db) (q : Query) (now : Time) : Prop where
  metadata : ∀ r ∈ db.metadata.rows,
    { q with now := now }.recent r.1.validFrom = q.recent r.1.validFrom
  sessions : ∀ s ∈ db.sessions.rows,
    { q with now := now }.recent s.1.startedAt = q.recent s.1.startedAt
  live : ∀ key lc, db.live.Has key lc → lc.isLive { q with now := now } = lc.isLive q

/-- A channel is shown with this row: of its rows that match it is the newest, and the first
of them. -/
def Shown (db : Db) (q : Query) (r : MetadataRow) : Prop :=
  r ∈ candidates L db q ∧ ∀ r' ∈ candidates L db q, channelOf r' = channelOf r →
    r' = r ∨ r'.1.validFrom < r.1.validFrom ∨
      r'.1.validFrom = r.1.validFrom ∧ [r, r'].Sublist (candidates L db q)

/-- A channel that matches anywhere in the window matches in its latest row; the row it is
shown with has no null among its tags, and its session number was given once in the window. -/
structure Plain (db : Db) (q : Query) : Prop where
  latest : ∀ r ∈ db.metadata.rows, q.inWindow r = true → q.hits L r = true →
    ∃ r', Latest db q r' ∧ q.hits L r' = true ∧ channelOf r' = channelOf r
  single : ∀ r, Shown L db q r → (db.sessions.rows.filter (sameSession q r)).length ≤ 1
  tags : ∀ r, Shown L db q r → none ∉ r.2.tags

/-! ## Matching -/

variable {L} {db : Db} {q : Query}

/-- The keyword has no character with a meaning in a pattern. -/
def Literal (keyword : String) : Prop := ∀ c ∈ keyword.toList, Like.special c = false

theorem ilike_iff {keyword : String} (h : Literal keyword) (text : String) :
    ilike L keyword text = true ↔ Within L keyword text := by
  have hpercent : L.lower '%' = '%' := L.lower_special _ (by decide)
  have hplain : ∀ c ∈ L.fold keyword, Like.special c = false := by
    intro c hc
    obtain ⟨c', hc', rfl⟩ := List.mem_map.mp hc
    rw [L.special_lower]
    exact h c' hc'
  have hpattern : ('%' :: keyword.toList ++ ['%']).map L.lower =
      '%' :: L.fold keyword ++ ['%'] := by
    simp [Locale.fold, hpercent]
  rw [ilike, hpattern]
  exact Like.like_contains hplain _

theorem hits_iff (h : Literal q.keyword) (r : MetadataRow) :
    q.hits L r = true ↔ Contains L q r := by
  have htags : (∃ t ∈ r.2.tags, ∃ x, t = some x ∧ Within L q.keyword x) ↔
      ∃ t, some t ∈ r.2.tags ∧ Within L q.keyword t := by
    constructor
    · rintro ⟨-, hmem, t, rfl, hwithin⟩
      exact ⟨t, hmem, hwithin⟩
    · rintro ⟨t, hmem, hwithin⟩
      exact ⟨some t, hmem, t, rfl, hwithin⟩
  simp only [Query.hits, Contains, Bool.or_eq_true, ilike_iff h, Option.any_eq_true,
    List.any_eq_true, or_assoc, htags]

/-! ## The newest row that matches -/

variable {m : MetadataRow}

theorem mem_candidates {r : MetadataRow} : r ∈ candidates L db q ↔
    r ∈ db.metadata.rows ∧ q.inWindow r = true ∧ q.hits L r = true := by
  rw [candidates, List.mem_filter, Bool.and_eq_true]

theorem exists_matched {r : MetadataRow} (hr : r ∈ candidates L db q) :
    ∃ m ∈ matched L db q, channelOf m = channelOf r :=
  exists_distinctOn ((mem_orderBy _).mpr hr)

theorem nodup_matched (db : Db) (q : Query) : ((matched L db q).map channelOf).Nodup :=
  nodup_distinctOn _

theorem shown_of_matched (hm : m ∈ matched L db q) : Shown L db q m := by
  refine ⟨(mem_orderBy _).mp (mem_of_mem_distinctOn hm), ?_⟩
  intro r hr hkey
  obtain ⟨hplatform, hchannel⟩ := Prod.mk.inj hkey
  rcases distinctOn_first (orderBy_stable matchOrder _) hm ((mem_orderBy _).mpr hr) hkey with
    rfl | hlt | ⟨heq, hsub⟩
  · exact Or.inl rfl
  · simp only [matchOrder, hplatform, hchannel, Prod.Lex.toLex_lt_toLex, lt_irrefl, true_and,
      false_or, OrderDual.toDual_lt_toDual] at hlt
    exact Or.inr (Or.inl hlt)
  · have hvalid : m.1.validFrom = r.1.validFrom :=
      OrderDual.toDual.injective (congrArg (fun o : MatchOrder => (ofLex (ofLex o).2).2) heq)
    exact Or.inr (Or.inr ⟨hvalid.symm, hsub⟩)

/-- Two rows cannot stand in front of each other. -/
theorem not_sublist_both {α : Type} {l : List α} (hl : l.Nodup) {a b : α} (hab : [a, b].Sublist l)
    (hba : [b, a].Sublist l) : False := by
  induction l with
  | nil => cases hab
  | cons c l ih =>
    rw [List.nodup_cons] at hl
    cases hab with
    | cons _ hab =>
      cases hba with
      | cons _ hba => exact ih hl.2 hab hba
      | cons_cons _ hba => exact hl.1 (hab.subset (by simp))
    | cons_cons _ hab =>
      cases hba with
      | cons _ hba => exact hl.1 (hba.subset (by simp))
      | cons_cons _ hba => exact hl.1 (hab.subset (by simp))

theorem mem_matched : m ∈ matched L db q ↔ Shown L db q m := by
  refine ⟨shown_of_matched, fun h => ?_⟩
  obtain ⟨m', hm', hkey⟩ := exists_matched h.1
  have h' := shown_of_matched hm'
  have hnodup : (candidates L db q).Nodup :=
    (List.Nodup.of_map Prod.fst db.metadata.nodup).filter _
  rcases h.2 m' h'.1 hkey with rfl | hlt | ⟨heq, hsub⟩
  · exact hm'
  · rcases h'.2 m h.1 hkey.symm with rfl | hlt' | ⟨heq', -⟩
    · exact hm'
    · exact absurd hlt (Nat.lt_asymm hlt')
    · exact absurd heq' (Nat.ne_of_gt hlt)
  · rcases h'.2 m h.1 hkey.symm with rfl | hlt' | ⟨-, hsub'⟩
    · exact hm'
    · exact absurd heq (Nat.ne_of_gt hlt')
    · exact (not_sublist_both hnodup hsub hsub').elim

/-- In a plain database what is matched is the latest row. -/
theorem Plain.latest_matched (h : Plain L db q) (hm : m ∈ matched L db q) : Latest db q m := by
  obtain ⟨hcandidate, hnewest⟩ := mem_matched.mp hm
  obtain ⟨hmem, hwindow, hhits⟩ := mem_candidates.mp hcandidate
  obtain ⟨r, hr, hrhits, hkey⟩ := h.latest m hmem hwindow hhits
  refine ⟨hmem, hwindow, fun r' hr' hwindow' hkey' => ?_⟩
  have hle : r.1.validFrom ≤ m.1.validFrom := by
    rcases hnewest r (mem_candidates.mpr ⟨hr.1, hr.2.1, hrhits⟩) hkey with rfl | hlt | ⟨heq, -⟩
    · exact Nat.le_refl _
    · exact Nat.le_of_lt hlt
    · exact Nat.le_of_eq heq
  exact Nat.le_trans (hr.2.2 r' hr' hwindow' (hkey'.trans hkey.symm)) hle

/-! ## Rows and pages -/

theorem joined_perm (db : Db) (q : Query) :
    (joined L db q).Perm
      ((leftJoin (sameSession q) (matched L db q) db.sessions.rows).map (project db q)) :=
  orderBy_perm _ _

/-- A row shows a matched row, with the tags as they are. -/
theorem mem_joined {row : ResultRow} (h : row ∈ joined L db q) :
    ∃ m ∈ matched L db q, row.key = channelOf m ∧ row.title = m.2.title ∧
      row.category = m.2.category ∧ row.tags = m.2.tags := by
  obtain ⟨x, hx, rfl⟩ := List.mem_map.mp ((joined_perm db q).mem_iff.mp h)
  exact ⟨x.1, fst_mem_of_mem_leftJoin hx, rfl, rfl, rfl, rfl⟩

/-- A matched row is joined with each of its sessions. -/
theorem count_joined (h : m ∈ matched L db q) :
    ((joined L db q).filter fun row => row.key = channelOf m).length =
      max 1 (db.sessions.rows.filter (sameSession q m)).length := by
  rw [((joined_perm db q).filter _).length_eq, List.filter_map, List.length_map]
  have hkey : (fun row : ResultRow => decide (row.key = channelOf m)) ∘ project db q =
      fun x => decide (channelOf x.1 = channelOf m) := rfl
  rw [hkey, filter_leftJoin (nodup_matched db q) h, length_matchRows]

theorem scan_tags {row : ResultRow} (h : row.scans = true) :
    row.scan.tags.map some = row.tags := by
  rw [ResultRow.scans, List.all_eq_true] at h
  have hmap : ∀ tags : List (Option String), (∀ t ∈ tags, t.isSome = true) →
      (tags.filterMap id).map some = tags := by
    intro tags
    induction tags with
    | nil => exact fun _ => rfl
    | cons t tags ih =>
      intro hsome
      obtain ⟨x, rfl⟩ := Option.isSome_iff_exists.mp (hsome t List.mem_cons_self)
      rw [List.filterMap_cons_some (rfl : id (some x) = some x), List.map_cons,
        ih fun t ht => hsome t (List.mem_cons_of_mem _ ht)]
  exact hmap row.tags h

/-- Time passes, and the result stays the same. -/
theorem Steady.joined_eq {now : Time} (h : Steady db q now) :
    joined L db { q with now := now } = joined L db q := by
  have hcandidates : candidates L db { q with now := now } = candidates L db q := by
    refine List.filter_congr fun r hr => ?_
    rw [Query.inWindow, h.metadata r hr]
    rfl
  have hsessions : ∀ m, ∀ s ∈ db.sessions.rows,
      sameSession { q with now := now } m s = sameSession q m s := by
    intro m s hs
    rw [sameSession, h.sessions s hs]
    rfl
  have hproject : project db { q with now := now } = project db q := by
    funext x
    cases hfind : db.live.find (channelOf x.1) with
    | none => simp [project, hfind]
    | some lc => simp [project, hfind, h.live _ lc (Table.find_eq_some_iff.mp hfind)]
  rw [joined, joined, matched, hcandidates, leftJoin_congr hsessions, hproject]
  rfl

variable {times : Nat → Time} {limit : Nat}

/-- Every row of the result can be scanned. -/
def Scans (L : Locale) (db : Db) (q : Query) : Prop := ∀ row ∈ joined L db q, row.scans = true

theorem Plain.scans (h : Plain L db q) : Scans L db q := by
  intro row hrow
  obtain ⟨m, hm, -, -, -, htags⟩ := mem_joined hrow
  rw [ResultRow.scans, List.all_eq_true, htags]
  intro t ht
  cases t with
  | none => exact absurd ht (h.tags m (mem_matched.mp hm))
  | some t => rfl

theorem search_of_scans (h : Scans L db q) (limit offset : Nat) :
    search L db q limit offset = some ((page (joined L db q) limit offset).map ResultRow.scan,
      if page (joined L db q) limit offset = [] then 0 else (joined L db q).length) := by
  refine if_pos (List.all_eq_true.mpr fun row hrow => h row ?_)
  exact List.mem_of_mem_drop (List.mem_of_mem_take hrow)

theorem pageAt_of_scans (h : Scans L db q) (hsteady : ∀ k, Steady db q (times k)) (k : Nat) :
    pageAt L db q times limit k =
      some ((page (joined L db q) limit (k * limit)).map ResultRow.scan) := by
  have hscans : Scans L db { q with now := times k } := by
    rw [Scans, (hsteady k).joined_eq]
    exact h
  rw [pageAt, search_of_scans hscans, (hsteady k).joined_eq]
  rfl

/-- Pages that are all answered have every row of the result on them. -/
theorem Exact.scans (h : Exact L db q times limit) (hsteady : ∀ k, Steady db q (times k))
    (hlimit : 1 ≤ limit) : Scans L db q := by
  intro row hrow
  obtain ⟨k, hk⟩ := exists_page hlimit hrow
  have hanswered := h.answered k
  rw [pageAt, Option.isSome_map, search, (hsteady k).joined_eq] at hanswered
  by_cases hall : (page (joined L db q) limit (k * limit)).all ResultRow.scans = true
  · exact List.all_eq_true.mp hall row hk
  · rw [if_neg hall] at hanswered
    cases hanswered

theorem pages_eq {count : Nat} (h : Scans L db q) (hsteady : ∀ k, Steady db q (times k))
    (hlimit : 1 ≤ limit) (hempty : pageAt L db q times limit count = some []) :
    pages L db q times limit count = (joined L db q).map ResultRow.scan := by
  rw [pageAt_of_scans h hsteady, Option.some.injEq, List.map_eq_nil_iff,
    page_eq_nil hlimit] at hempty
  have hpages : ∀ k, (pageAt L db q times limit k).getD [] =
      (page (joined L db q) limit (k * limit)).map ResultRow.scan := by
    intro k
    rw [pageAt_of_scans h hsteady, Option.getD_some]
  simp only [pages, hpages]
  rw [← List.map_flatMap, flatMap_pages, List.take_of_length_le hempty]

/-- Some page is empty. -/
theorem exists_empty_page (h : Scans L db q) (hsteady : ∀ k, Steady db q (times k))
    (hlimit : 1 ≤ limit) : ∃ count, pageAt L db q times limit count = some [] := by
  refine ⟨(joined L db q).length, ?_⟩
  rw [pageAt_of_scans h hsteady, (page_eq_nil hlimit).mpr (Nat.le_mul_of_pos_right _ hlimit)]
  rfl

theorem count_scanned (key : Key) :
    (((joined L db q).map ResultRow.scan).filter fun ch => ch.key = key).length =
      ((joined L db q).filter fun row => row.key = key).length := by
  rw [List.filter_map, List.length_map]
  rfl

/-! ## The result -/

theorem Plain.expected_iff (h : Plain L db q) (hkeyword : Literal q.keyword) (key : Key) :
    Expected L db q key ↔ key ∈ (matched L db q).map channelOf := by
  rw [List.mem_map]
  constructor
  · rintro ⟨r, hr, hcontains, rfl⟩
    have hhits := (hits_iff hkeyword r).mpr hcontains
    obtain ⟨m, hm, hkey⟩ := exists_matched (mem_candidates.mpr ⟨hr.1, hr.2.1, hhits⟩)
    exact ⟨m, hm, hkey⟩
  · rintro ⟨m, hm, rfl⟩
    have hhits := (mem_candidates.mp (mem_matched.mp hm).1).2.2
    exact ⟨m, h.latest_matched hm, (hits_iff hkeyword m).mp hhits, rfl⟩

theorem Plain.exact (h : Plain L db q) (hsteady : ∀ k, Steady db q (times k))
    (hkeyword : Literal q.keyword) (hlimit : 1 ≤ limit) : Exact L db q times limit where
  answered k := by
    rw [pageAt_of_scans h.scans hsteady]
    rfl
  once count hempty key hexpected := by
    rw [pages_eq h.scans hsteady hlimit hempty, count_scanned]
    obtain ⟨m, hm, rfl⟩ := List.mem_map.mp ((h.expected_iff hkeyword key).mp hexpected)
    have hsingle := h.single m (mem_matched.mp hm)
    rw [count_joined hm]
    omega
  only count hempty ch hch := by
    rw [pages_eq h.scans hsteady hlimit hempty] at hch
    obtain ⟨row, hrow, rfl⟩ := List.mem_map.mp hch
    obtain ⟨m, hm, hkey, htitle, hcategory, htags⟩ := mem_joined hrow
    have hhits := (mem_candidates.mp (mem_matched.mp hm).1).2.2
    refine ⟨m, h.latest_matched hm, (hits_iff hkeyword m).mp hhits, hkey, htitle, hcategory, ?_⟩
    exact (scan_tags (h.scans row hrow)).trans htags

theorem Plain.count (h : Plain L db q) (hkeyword : Literal q.keyword) :
    Set.ncard {key | Expected L db q key} = (matched L db q).length := by
  have hset : {key | Expected L db q key} = ((matched L db q).map channelOf).toFinset := by
    ext key
    simp only [Set.mem_ofPred_eq, List.coe_toFinset]
    exact h.expected_iff hkeyword key
  rw [hset, Set.ncard_coe_finset, List.toFinset_card_of_nodup (nodup_matched db q),
    List.length_map]

/-- What is shown for a row that matches is shown by a latest row. -/
theorem Exact.plain (h : Exact L db q times limit) (hsteady : ∀ k, Steady db q (times k))
    (hkeyword : Literal q.keyword) (hlimit : 1 ≤ limit) : Plain L db q := by
  have hscans := h.scans hsteady hlimit
  obtain ⟨count, hempty⟩ := exists_empty_page hscans hsteady hlimit
  have honce := h.once count hempty
  have honly := h.only count hempty
  rw [pages_eq hscans hsteady hlimit hempty] at honce honly
  have hrow : ∀ m ∈ matched L db q, ∃ row ∈ joined L db q, row.key = channelOf m := by
    intro m hm
    have hpos : 0 < ((joined L db q).filter fun row => row.key = channelOf m).length := by
      rw [count_joined hm]
      omega
    obtain ⟨row, hrow⟩ := List.exists_mem_of_length_pos hpos
    obtain ⟨hrow, hkey⟩ := List.mem_filter.mp hrow
    exact ⟨row, hrow, of_decide_eq_true hkey⟩
  have hlatest : ∀ m ∈ matched L db q, ∃ r, Latest db q r ∧ Contains L q r ∧
      channelOf r = channelOf m := by
    intro m hm
    obtain ⟨row, hrow, hkey⟩ := hrow m hm
    obtain ⟨r, hr, hcontains, hshows⟩ := honly row.scan (List.mem_map_of_mem hrow)
    exact ⟨r, hr, hcontains, hshows.1.symm.trans hkey⟩
  refine ⟨?_, ?_, ?_⟩
  · intro r hr hwindow hhits
    obtain ⟨m, hm, hkey⟩ := exists_matched (mem_candidates.mpr ⟨hr, hwindow, hhits⟩)
    obtain ⟨r', hr', hcontains, hkey'⟩ := hlatest m hm
    exact ⟨r', hr', (hits_iff hkeyword r').mpr hcontains, hkey'.trans hkey⟩
  · intro m hshown
    have hm := mem_matched.mpr hshown
    obtain ⟨r, hr, hcontains, hkey⟩ := hlatest m hm
    have hone := honce (channelOf m) ⟨r, hr, hcontains, hkey⟩
    rw [count_scanned, count_joined hm] at hone
    omega
  · intro m hshown hnull
    have hm := mem_matched.mpr hshown
    obtain ⟨row, hrow, hkey⟩ := hrow m hm
    -- Rows of one channel are of one matched row, so this one has the null tag.
    obtain ⟨m', hm', hkey', -, -, htags⟩ := mem_joined hrow
    obtain rfl : m' = m := List.inj_on_of_nodup_map (nodup_matched db q) hm' hm
      (hkey'.symm.trans hkey)
    have hall := hscans row hrow
    rw [ResultRow.scans, List.all_eq_true, htags] at hall
    exact absurd (hall none hnull) (by decide)

def titled (title : String) : Metadata := ⟨title, none, [], none⟩

/-- A channel that was called "rust" and is called "chat" now. -/
def renamed : Db where
  metadata := ⟨[(⟨1, "soop", "channel", 1⟩, titled "rust"),
    (⟨2, "soop", "channel", 1⟩, titled "chat")], by decide⟩
  sessions := Table.empty
  live := Table.empty

end RogiCollector.Ports.BroadcastSearch
