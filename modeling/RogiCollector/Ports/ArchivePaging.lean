import RogiCollector.Verified.Weave
import RogiCollector.Ports.ArchiveTiers

/-!
# Paging through the chat archive

`query/archive/read.go`.  A page merges the hot rows of one snapshot with the
objects of at most four segments.  A fifth segment bounds the page: hot rows
behind its first position have to wait.  What is merged is therefore a window
of the log, cut off at the boundary or at the limit, and a reader who follows
`NextPosition` gets every chat once, whatever is appended or exported between
two pages.
-/

namespace RogiCollector.Ports.Archive

open Verified
open Journal (Time Backend)

variable {β : Type}

/-! ## `ReadChatsPage` -/

structure ChatPage where
  rows : List ChatRow
  nextPosition : Option Nat
  hasMore : Bool
  deriving Repr, DecidableEq

def maxObjectsPerPage : Nat := 4

/-- The closure `appendHotBefore`: the rows so far and the hot rows that are left. -/
def appendHotBefore (limit position : Nat) :
    List ChatRow → List ChatRow → List ChatRow × List ChatRow
  | rows, [] => (rows, [])
  | rows, row :: hot =>
    if row.position < position ∧ rows.length ≤ limit then
      appendHotBefore limit position (rows ++ [row]) hot
    else (rows, row :: hot)

/-- The loop over the decoded rows of a segment. -/
def appendDecoded (after limit : Nat) (hot : List ChatRow) :
    List ChatRow → List ChatRow → Except ArchiveErr (List ChatRow)
  | rows, [] => .ok rows
  | rows, row :: decoded =>
    if after < row.position then
      if hot.head?.any fun first => first.position ≤ row.position then
        .error (.new "archive hot row overlaps segment")
      else if limit < (rows ++ [row]).length then .ok (rows ++ [row])
      else appendDecoded after limit hot (rows ++ [row]) decoded
    else appendDecoded after limit hot rows decoded

/-- The loop over the segments. -/
def mergeSegments (C : Config β) (get : String → String → Except ArchiveErr β)
    (session : String) (after limit : Nat) : List (Range × SegmentRow) → List ChatRow →
    List ChatRow → Except ArchiveErr (List ChatRow × List ChatRow)
  | [], rows, hot => .ok (rows, hot)
  | (g, seg) :: segments, rows, hot =>
    let (rows, hot) := appendHotBefore limit g.first rows hot
    if limit < rows.length then .ok (rows, hot)
    else if seg.objectBucket ≠ C.bucket then .error (.new "archive bucket mismatch")
    else if seg.objectKey ≠ objectKey session g.first g.last seg.sha256 then
      .error (.new "archive segment key mismatch")
    else
      match get seg.objectKey seg.sha256 with
      | .error e => .error (.wrap "read archive object" e)
      | .ok body =>
        match decode C.codec
            { body, sha256 := seg.sha256, sessionID := session, firstPosition := g.first
              lastPosition := g.last, count := seg.messageCount } with
        | .error e => .error e
        | .ok decoded =>
          match appendDecoded after limit hot rows decoded with
          | .error e => .error e
          | .ok rows =>
            if limit < rows.length then .ok (rows, hot)
            else mergeSegments C get session after limit segments rows hot

/-- The trailing hot rows. -/
def appendHot (limit : Nat) : List ChatRow → List ChatRow → List ChatRow
  | rows, [] => rows
  | rows, row :: hot =>
    if rows.length ≤ limit then appendHot limit (rows ++ [row]) hot else rows

/-- Two neighbours at one position. -/
def repeats : List ChatRow → Bool
  | a :: b :: rows => a.position = b.position ∨ repeats (b :: rows)
  | _ => false

/-- The segment query: at most one more than a page may open. -/
def pageSegments (db : Db) (session : String) (after : Nat) : List (Range × SegmentRow) :=
  (orderBy (fun g => g.1.first) (db.segments.select fun g _ =>
    g.sessionID = session ∧ after < g.last)).take (maxObjectsPerPage + 1)

/-- The first position of the segment that has to wait. -/
def pageBoundary (db : Db) (session : String) (after : Nat) : Option Nat :=
  (pageSegments db session after)[maxObjectsPerPage]?.map fun g => g.1.first

/-- The hot row query without its limit. -/
def pageHot (db : Db) (session : String) (after : Nat) (boundary : Option Nat) : List ChatRow :=
  (orderBy Prod.fst (db.hot.select fun position row =>
    row.sessionID = session ∧ after < position ∧
      boundary.all fun b => position < b)).map Prod.snd

/-- The page a merge ends in. -/
def ChatPage.of (boundary : Option Nat) (limit : Nat) (rows : List ChatRow) :
    Except ArchiveErr ChatPage :=
  if repeats rows then .error (.new "archive position appears twice")
  else
    let hasMore := boundary.isSome ∨ limit < rows.length
    .ok
      { rows := rows.take limit
        nextPosition := if hasMore then (rows.take limit).getLast?.map (·.position) else none
        hasMore }

/-- `ReadChatsPage` on one snapshot; `get` is the `GetVerified` of the object
store it is given. -/
def readChatsPage (C : Config β) (get : String → String → Except ArchiveErr β) (db : Db)
    (session : String) (after limit : Int) : Except ArchiveErr ChatPage :=
  if !C.codec.parseUUID session ∨ after < 0 ∨ limit < 1 ∨ 200 < limit then
    .error (.new "invalid archive page request")
  else if !owned db C.channel session then .error .notFound
  else
    let after := after.toNat
    let limit := limit.toNat
    let boundary := pageBoundary db session after
    match mergeSegments C get session after limit
        ((pageSegments db session after).take maxObjectsPerPage) []
        ((pageHot db session after boundary).take (limit + 1)) with
    | .error e => .error e
    | .ok (rows, hot) =>
      ChatPage.of boundary limit (if rows.length ≤ limit then appendHot limit rows hot else rows)

/-! ## The loops fill up -/

theorem appendHotBefore_eq (limit position : Nat) (rows hot : List ChatRow) :
    (appendHotBefore limit position rows hot).1 =
        fill (limit + 1) rows (hot.takeWhile fun row => row.position < position) ∧
      ((appendHotBefore limit position rows hot).1.length ≤ limit →
        (appendHotBefore limit position rows hot).2 =
          hot.dropWhile fun row => row.position < position) := by
  induction hot generalizing rows with
  | nil => simp [appendHotBefore]
  | cons row hot ih =>
    rw [appendHotBefore]
    by_cases hpos : row.position < position
    · rw [List.takeWhile_cons_of_pos (by simpa using hpos),
        List.dropWhile_cons_of_pos (by simpa using hpos)]
      by_cases hlen : rows.length ≤ limit
      · rw [if_pos ⟨hpos, hlen⟩, fill_cons (Nat.lt_succ_of_le hlen)]
        exact ih (rows ++ [row])
      · rw [if_neg fun h => hlen h.2, fill_of_le (by omega)]
        exact ⟨rfl, fun h => absurd h hlen⟩
    · rw [if_neg fun h => hpos h.1, List.takeWhile_cons_of_neg (by simpa using hpos),
        List.dropWhile_cons_of_neg (by simpa using hpos), fill_nil_right]
      exact ⟨rfl, fun _ => rfl⟩

/-- Without a hot row in the way the decoded rows behind the cursor are taken. -/
theorem appendDecoded_eq (after : Nat) {limit : Nat} {hot rows decoded : List ChatRow}
    (hlen : rows.length ≤ limit)
    (hfree : ∀ first, hot.head? = some first → ∀ row ∈ decoded, row.position < first.position) :
    appendDecoded after limit hot rows decoded =
      .ok (fill (limit + 1) rows (decoded.filter fun row => after < row.position)) := by
  induction decoded generalizing rows with
  | nil => simp [appendDecoded]
  | cons row decoded ih =>
    have hrest : ∀ first, hot.head? = some first → ∀ row ∈ decoded,
        row.position < first.position :=
      fun first h r hr => hfree first h r (List.mem_cons_of_mem _ hr)
    rw [appendDecoded]
    by_cases hafter : after < row.position
    · rw [if_pos hafter, List.filter_cons_of_pos (by simpa using hafter),
        fill_cons (Nat.lt_succ_of_le hlen), if_neg]
      · by_cases hfull : limit < (rows ++ [row]).length
        · rw [if_pos hfull, fill_of_le hfull]
        · rw [if_neg hfull]
          exact ih (Nat.le_of_not_lt hfull) hrest
      · cases hhead : hot.head? with
        | none => simp
        | some first =>
          have hlt := hfree first hhead row List.mem_cons_self
          simpa using hlt
    · rw [if_neg hafter, List.filter_cons_of_neg (by simpa using hafter)]
      exact ih hlen hrest

theorem appendHot_eq (limit : Nat) (rows hot : List ChatRow) :
    appendHot limit rows hot = fill (limit + 1) rows hot := by
  induction hot generalizing rows with
  | nil => simp [appendHot]
  | cons row hot ih =>
    rw [appendHot]
    by_cases hlen : rows.length ≤ limit
    · rw [if_pos hlen, ih, fill_cons (Nat.lt_succ_of_le hlen)]
    · rw [if_neg hlen, fill_of_le (by omega)]

theorem repeats_of_increasing {rows : List ChatRow} (h : Increasing rows) :
    repeats rows = false := by
  induction rows with
  | nil => rfl
  | cons a rows ih =>
    obtain ⟨ha, hrows⟩ := List.pairwise_cons.mp h
    cases rows with
    | nil => rfl
    | cons b rows =>
      have hlt := ha b List.mem_cons_self
      have hrest := ih hrows
      simp only [repeats, hrest, Bool.false_eq_true, or_false, decide_eq_false_iff_not]
      omega

/-! ## The merge -/

/-- The chats of a range behind the cursor, as a block. -/
def windowBlock {log : List ChatRow} (hlog : Increasing log) (after : Nat) (g : Range) :
    Block (fun row : ChatRow => row.position) where
  first := g.first
  last := g.last
  rows := (window log g).filter fun row => after < row.position
  inside _ hrow := (mem_window.mp (List.mem_filter.mp hrow).1).2.2
  increasing := (hlog.filter _).filter _

/-- An index row whose object reads as `decoded`. -/
def Reads (C : Config β) (get : String → String → Except ArchiveErr β) (session : String)
    (g : Range) (seg : SegmentRow) (decoded : List ChatRow) : Prop :=
  seg.objectBucket = C.bucket ∧ seg.objectKey = objectKey session g.first g.last seg.sha256 ∧
    ∃ body, get seg.objectKey seg.sha256 = .ok body ∧
      decode C.codec
        { body, sha256 := seg.sha256, sessionID := session, firstPosition := g.first
          lastPosition := g.last, count := seg.messageCount } = .ok decoded

variable {C : Config β} {s : State β} {get : String → String → Except ArchiveErr β}
  {session : String} {log : List ChatRow}

/-- The loop and the hot rows behind it fill up with the woven rows. -/
theorem mergeSegments_eq (hlog : Increasing log) (after : Nat) {limit : Nat}
    {segments : List (Range × SegmentRow)} {rows hot : List ChatRow}
    (hread : ∀ x ∈ segments, Reads C get session x.1 x.2 (window log x.1))
    (hhot : Increasing hot)
    (hout : ∀ x ∈ segments, ∀ row ∈ hot, row.position < x.1.first ∨ x.1.last < row.position)
    (hlen : rows.length ≤ limit) :
    ∃ rows' hot', mergeSegments C get session after limit segments rows hot = .ok (rows', hot') ∧
      (if rows'.length ≤ limit then appendHot limit rows' hot' else rows') =
        fill (limit + 1) rows
          (weave _ (segments.map fun x => windowBlock hlog after x.1) hot) := by
  induction segments generalizing rows hot with
  | nil =>
    refine ⟨rows, hot, rfl, ?_⟩
    rw [if_pos hlen, appendHot_eq]
    rfl
  | cons x segments ih =>
    obtain ⟨g, seg⟩ := x
    obtain ⟨hbucket, hkey, body, hget, hdecode⟩ := hread (g, seg) List.mem_cons_self
    have hbefore := appendHotBefore_eq limit g.first rows hot
    rw [mergeSegments, List.map_cons, weave]
    obtain ⟨hrows1, hhot1⟩ := hbefore
    generalize appendHotBefore limit g.first rows hot = merged at hrows1 hhot1
    obtain ⟨rows1, hot1⟩ := merged
    dsimp only at hrows1 hhot1 ⊢
    rw [← fill_append]
    change ∃ rows' hot', _ ∧ _ = fill (limit + 1) (fill (limit + 1) rows
      (hot.takeWhile fun row => row.position < g.first)) _
    rw [← hrows1]
    by_cases hfull1 : limit < rows1.length
    · refine ⟨rows1, hot1, by rw [if_pos hfull1], ?_⟩
      rw [if_neg (Nat.not_le.mpr hfull1), fill_of_le hfull1]
    have hlen1 := Nat.le_of_not_lt hfull1
    have hhot1 := hhot1 hlen1
    have hsub : hot1.Sublist hot := hhot1 ▸ List.dropWhile_sublist _
    -- The hot rows that are left lie behind the segment.
    have hfree : ∀ first, hot1.head? = some first → ∀ row ∈ window log g,
        row.position < first.position := by
      intro first hfirst row hrow
      have hmem := List.mem_of_mem_head? hfirst
      have hge : g.first ≤ first.position := le_key_of_mem_dropWhile hhot (hhot1 ▸ hmem)
      have hle := (mem_window.mp hrow).2.2.2
      rcases hout (g, seg) List.mem_cons_self first (hsub.subset hmem) with hlt | hlt
      · exact absurd hge (Nat.not_le.mpr hlt)
      · exact Nat.lt_of_le_of_lt hle hlt
    have hdecoded := appendDecoded_eq after hlen1 hfree
    rw [if_neg hfull1, if_neg (not_not.mpr hbucket), if_neg (not_not.mpr hkey), hget]
    dsimp only
    rw [hdecode]
    dsimp only
    rw [hdecoded]
    dsimp only
    rw [← fill_append]
    change ∃ rows' hot', _ ∧ _ = fill (limit + 1) (fill (limit + 1) rows1
      ((window log g).filter fun row => after < row.position)) _
    generalize fill (limit + 1) rows1
      ((window log g).filter fun row => after < row.position) = rows2
    by_cases hfull2 : limit < rows2.length
    · refine ⟨rows2, hot1, by rw [if_pos hfull2], ?_⟩
      rw [if_neg (Nat.not_le.mpr hfull2), fill_of_le hfull2]
    · rw [if_neg hfull2]
      change ∃ rows' hot', _ ∧ _ = fill (limit + 1) rows2 (weave _ _
        (hot.dropWhile fun row => row.position < g.first))
      rw [← hhot1]
      exact ih (fun x hx => hread x (List.mem_cons_of_mem _ hx)) (hhot.sublist hsub)
        (fun x hx row hrow => hout x (List.mem_cons_of_mem _ hx) row (hsub.subset hrow))
        (Nat.le_of_not_lt hfull2)

/-! ## What is woven -/

/-- The chats of a session behind a cursor and before a boundary. -/
def chats (log : List ChatRow) (session : String) (after : Nat) (boundary : Option Nat) :
    List ChatRow :=
  log.filter fun row =>
    row.sessionID = session ∧ after < row.position ∧ boundary.all fun b => row.position < b

variable {row : ChatRow}

theorem mem_chats {after : Nat} {boundary : Option Nat} :
    row ∈ chats log session after boundary ↔ row ∈ log ∧ row.sessionID = session ∧
      after < row.position ∧ boundary.all (fun b => row.position < b) = true := by
  simp [chats]

/-- The segments behind a cursor, without the query's limit. -/
def indexedAfter (db : Db) (session : String) (after : Nat) : List (Range × SegmentRow) :=
  orderBy (fun g => g.1.first) (db.segments.select fun g _ =>
    g.sessionID = session ∧ after < g.last)

variable {x : Range × SegmentRow}

theorem mem_indexedAfter {db : Db} {after : Nat} :
    x ∈ indexedAfter db session after ↔
      db.segments.Has x.1 x.2 ∧ x.1.sessionID = session ∧ after < x.1.last := by
  rw [indexedAfter, mem_orderBy, Table.mem_select, decide_eq_true_eq]

theorem take_pageSegments (db : Db) (after : Nat) :
    (pageSegments db session after).take maxObjectsPerPage =
      (indexedAfter db session after).take maxObjectsPerPage := by
  rw [pageSegments, List.take_take]
  rfl

theorem pageBoundary_eq (db : Db) (after : Nat) :
    pageBoundary db session after =
      (indexedAfter db session after)[maxObjectsPerPage]?.map fun g => g.1.first := by
  rw [pageBoundary, pageSegments, List.getElem?_take_of_lt (Nat.lt_succ_self _)]
  rfl

theorem TierInv.first_le_last (h : TierInv C s) {g : Range} {seg : SegmentRow}
    (hg : s.db.segments.Has g seg) : g.first ≤ g.last := by
  obtain ⟨x, ⟨rows, -, hbuild⟩, rfl, -⟩ := h.segment hg
  exact (build_ok hbuild).first_le_last

/-- The segments of a session come one behind the other. -/
theorem indexedAfter_increasing (h : TierInv C s) (session : String) (after : Nat) :
    (indexedAfter s.db session after).Pairwise fun x y => x.1.last < y.1.first := by
  have hkeys : (indexedAfter s.db session after).Pairwise fun x y => x.1 ≠ y.1 := by
    have hnodup := s.db.segments.nodup_select_keys fun g _ =>
      g.sessionID = session ∧ after < g.last
    rw [← ((orderBy_perm (fun g => g.1.first) _).map Prod.fst).nodup_iff] at hnodup
    exact List.pairwise_map.mp hnodup
  refine ((orderBy_le _ _).and hkeys).imp_of_mem ?_
  rintro x y hx hy ⟨hle, hne⟩
  obtain ⟨hx, hxs, -⟩ := mem_indexedAfter.mp hx
  obtain ⟨hy, hys, -⟩ := mem_indexedAfter.mp hy
  have hlast := h.first_le_last hy
  rcases h.disjoint hx hy hne (hxs.trans hys.symm) with hlt | hlt
  · exact hlt
  · omega

/-- A segment is opened, or begins at the boundary or behind it. -/
theorem mem_take_or_boundary (h : TierInv C s) {after n : Nat}
    (hx : x ∈ indexedAfter s.db session after) :
    x ∈ (indexedAfter s.db session after).take n ∨
      ∃ b, (indexedAfter s.db session after)[n]? = some b ∧ b.1.first ≤ x.1.first := by
  have hlt := indexedAfter_increasing h session after
  have hle : ∀ y ∈ indexedAfter s.db session after, y.1.first ≤ y.1.last :=
    fun y hy => h.first_le_last (mem_indexedAfter.mp hy).1
  generalize indexedAfter s.db session after = all at hx hlt hle
  rw [← List.take_append_drop n all] at hx
  rcases List.mem_append.mp hx with hx | hx
  · exact Or.inl hx
  · refine Or.inr ?_
    obtain ⟨b, rest, hdrop⟩ := List.exists_cons_of_ne_nil (List.ne_nil_of_mem hx)
    have hb : all[n]? = some b := by
      rw [← List.head?_drop, hdrop]
      rfl
    refine ⟨b, hb, ?_⟩
    have hsub := hlt.sublist (List.drop_sublist n all)
    rw [hdrop] at hx hsub
    rcases List.mem_cons.mp hx with rfl | hx
    · exact Nat.le_refl _
    · have hbx := (List.pairwise_cons.mp hsub).1 x hx
      have hbl := hle b (List.mem_of_getElem? hb)
      omega

/-- An opened segment ends before the boundary. -/
theorem last_lt_boundary (h : TierInv C s) {after n : Nat} {b : Range × SegmentRow}
    (hx : x ∈ (indexedAfter s.db session after).take n)
    (hb : (indexedAfter s.db session after)[n]? = some b) : x.1.last < b.1.first := by
  have hlt := indexedAfter_increasing h session after
  rw [← List.take_append_drop n (indexedAfter s.db session after)] at hlt
  refine (List.pairwise_append.mp hlt).2.2 x hx b ?_
  rw [← List.head?_drop] at hb
  exact List.mem_of_mem_head? hb

/-- What a page weaves is a window of the log. -/
theorem woven_eq (h : TierInv C s) (session : String) (after : Nat) :
    weave (fun row : ChatRow => row.position)
        (((pageSegments s.db session after).take maxObjectsPerPage).map
          fun x => windowBlock h.increasing after x.1)
        (pageHot s.db session after (pageBoundary s.db session after)) =
      chats s.db.log session after (pageBoundary s.db session after) := by
  rw [take_pageSegments]
  have hmem : ∀ {x}, x ∈ (indexedAfter s.db session after).take maxObjectsPerPage →
      s.db.segments.Has x.1 x.2 ∧ x.1.sessionID = session ∧ after < x.1.last :=
    fun hx => mem_indexedAfter.mp (List.mem_of_mem_take hx)
  refine eq_of_key_lt_of_mem_iff (weave_increasing ?_ ?_ ?_ ?_) (h.increasing.filter _) ?_
  · exact hotRows_increasing (fun hp => (h.hot_log hp).2) session (after + 1) _
  · intro b hb
    obtain ⟨x, hx, rfl⟩ := List.mem_map.mp hb
    exact h.first_le_last (hmem hx).1
  · exact List.pairwise_map.mpr
      ((indexedAfter_increasing h session after).sublist (List.take_sublist _ _))
  · intro b hb row hrow
    obtain ⟨x, hx, rfl⟩ := List.mem_map.mp hb
    obtain ⟨p, hp, hs, -⟩ := mem_hotRows.mp hrow
    obtain ⟨-, rfl⟩ := h.hot_log hp
    exact h.outside hp (hmem hx).1 ((hmem hx).2.1.trans hs.symm)
  · intro row
    rw [mem_weave]
    rw [mem_chats, pageBoundary_eq]
    constructor
    · rintro (hrow | ⟨b, hb, hrow⟩)
      · obtain ⟨p, hp, hs, hle, hbound⟩ := mem_hotRows.mp hrow
        obtain ⟨hlog, rfl⟩ := h.hot_log hp
        exact ⟨hlog, hs, hle, hbound⟩
      · obtain ⟨x, hx, rfl⟩ := List.mem_map.mp hb
        obtain ⟨hwin, hafter⟩ := List.mem_filter.mp hrow
        obtain ⟨hlog, hs, -, hlast⟩ := mem_window.mp hwin
        refine ⟨hlog, hs.symm.trans (hmem hx).2.1, by simpa using hafter, ?_⟩
        cases hb : (indexedAfter s.db session after)[maxObjectsPerPage]? with
        | none => rfl
        | some b =>
          have hlt := last_lt_boundary h hx hb
          simp only [Option.map_some, Option.all_some, decide_eq_true_eq]
          exact Nat.lt_of_le_of_lt hlast hlt
    · rintro ⟨hlog, hs, hafter, hbound⟩
      rcases h.kept hlog with hhot | ⟨g, seg, hg, hcov⟩
      · exact Or.inl (mem_hotRows.mpr ⟨row.position, hhot, hs, hafter, hbound⟩)
      · refine Or.inr ⟨windowBlock h.increasing after g, ?_, ?_⟩
        · obtain ⟨hgs, hgf, hgl⟩ := Range.covers_iff.mp hcov
          have hin : (g, seg) ∈ indexedAfter s.db session after :=
            mem_indexedAfter.mpr ⟨hg, hgs.trans hs, Nat.lt_of_lt_of_le hafter hgl⟩
          rcases mem_take_or_boundary h hin with hx | ⟨b, hb, hle⟩
          · exact List.mem_map.mpr ⟨(g, seg), hx, rfl⟩
          · rw [hb] at hbound
            simp only [Option.map_some, Option.all_some, decide_eq_true_eq] at hbound
            exact absurd hbound (Nat.not_lt.mpr (Nat.le_trans hle hgf))
        · exact List.mem_filter.mpr ⟨List.mem_filter.mpr ⟨hlog, hcov⟩, by simpa using hafter⟩

/-! ## A page -/

/-- Objects are readable and intact: what the bucket holds under an indexed key
is what the reader gets. -/
def Intact (s : State β) (get : String → String → Except ArchiveErr β) : Prop :=
  ∀ g seg body, s.db.segments.Has g seg → s.objects.Has seg.objectKey body →
    get seg.objectKey seg.sha256 = .ok body

/-- `GetVerified` accepts every indexed object. -/
theorem intact_getVerified (h : TierInv C s) : Intact s (getVerified C s.objects) := by
  intro g seg body hg hbody
  obtain ⟨x, ⟨rows, -, hbuild⟩, rfl, rfl, hstored⟩ := h.segment hg
  obtain rfl := hbody.unique hstored.object
  have hb := build_ok hbuild
  have hfind := Table.find_eq_some_iff.mpr hbody
  have hsha : C.codec.sha256Hex x.body = x.sha256 := by rw [hb.sha256, hb.body]
  unfold getVerified
  rw [hfind]
  simp only [Segment.row, hstored.valid, hsha]
  have hle : ¬(C.codec.size x.body = 0 ∨ maxSegmentGzipBytes < C.codec.size x.body) := by
    rintro (hzero | hlt)
    · exact hstored.size hzero
    · exact absurd hb.size (Nat.not_le.mpr hlt)
  simp [hle]

theorem TierInv.reads (h : TierInv C s) (hget : Intact s get) {g : Range} {seg : SegmentRow}
    (hg : s.db.segments.Has g seg) :
    Reads C get g.sessionID g seg (window s.db.log g) := by
  obtain ⟨x, ⟨rows, hbatch, hbuild⟩, rfl, rfl, hstored⟩ := h.segment hg
  refine ⟨rfl, rfl, x.body, hget _ _ _ hg hstored.object, ?_⟩
  rw [← hbatch.rows_eq]
  exact decode_build hbuild hstored.size

/-- The page of a window. -/
theorem readChatsPage_ok (h : TierInv C s) (hget : Intact s get) {after : Nat} {limit : Int}
    (hvalid : C.codec.parseUUID session = true) (hlimit : 1 ≤ limit ∧ limit ≤ 200)
    (howned : owned s.db C.channel session = true) :
    readChatsPage C get s.db session after limit =
      ChatPage.of (pageBoundary s.db session after) limit.toNat
        ((chats s.db.log session after (pageBoundary s.db session after)).take
          (limit.toNat + 1)) := by
  have hrequest : ¬((!C.codec.parseUUID session) = true ∨ (after : Int) < 0 ∨ limit < 1 ∨
      200 < limit) := by
    rw [hvalid]
    simp only [Bool.not_true, Bool.false_eq_true, false_or]
    omega
  have hin : ∀ {x}, x ∈ (pageSegments s.db session after).take maxObjectsPerPage →
      s.db.segments.Has x.1 x.2 ∧ x.1.sessionID = session ∧ after < x.1.last := by
    intro x hx
    rw [take_pageSegments] at hx
    exact mem_indexedAfter.mp (List.mem_of_mem_take hx)
  have hread : ∀ x ∈ (pageSegments s.db session after).take maxObjectsPerPage,
      Reads C get session x.1 x.2 (window s.db.log x.1) := by
    intro x hx
    obtain ⟨hx, hs, -⟩ := hin hx
    exact hs ▸ h.reads hget hx
  have hhot : Increasing (pageHot s.db session after (pageBoundary s.db session after)) :=
    hotRows_increasing (fun hp => (h.hot_log hp).2) session (after + 1) _
  have hout : ∀ x ∈ (pageSegments s.db session after).take maxObjectsPerPage,
      ∀ row ∈ (pageHot s.db session after (pageBoundary s.db session after)).take
        (limit.toNat + 1), row.position < x.1.first ∨ x.1.last < row.position := by
    intro x hx row hrow
    obtain ⟨p, hp, hs, -⟩ := mem_hotRows.mp (List.mem_of_mem_take hrow)
    obtain ⟨-, rfl⟩ := h.hot_log hp
    exact h.outside hp (hin hx).1 ((hin hx).2.1.trans hs.symm)
  have hempty : ([] : List ChatRow).length ≤ limit.toNat := Nat.zero_le _
  obtain ⟨rows, hot, hmerge, hrows⟩ := mergeSegments_eq h.increasing after hread
    (hhot.sublist (List.take_sublist _ _)) hout hempty
  -- The limit on the hot rows does not show in the first `limit + 1` woven rows.
  rw [fill, List.nil_append, List.length_nil, Nat.sub_zero, take_weave (Nat.le_refl _),
    woven_eq h] at hrows
  unfold readChatsPage
  rw [if_neg hrequest, howned, if_neg (by decide)]
  dsimp only [Int.toNat_natCast]
  rw [hmerge]
  dsimp only
  rw [hrows]

/-- A boundary leaves something before it. -/
theorem chats_ne_nil (h : TierInv C s) (session : String) (after : Nat)
    (hb : (pageBoundary s.db session after).isSome = true) :
    chats s.db.log session after (pageBoundary s.db session after) ≠ [] := by
  rw [pageBoundary_eq, Option.isSome_map] at hb
  obtain ⟨b, hb⟩ := Option.isSome_iff_exists.mp hb
  -- The first segment is opened, and ends with a chat.
  have hlen := (List.getElem?_eq_some_iff.mp hb).1
  obtain ⟨x, rest, hall⟩ := List.exists_cons_of_ne_nil
    (List.length_pos_iff.mp (Nat.lt_of_le_of_lt (Nat.zero_le _) hlen))
  have hx : x ∈ (indexedAfter s.db session after).take maxObjectsPerPage := by
    rw [hall]
    exact List.mem_cons_self
  obtain ⟨hg, hs, hafter⟩ := mem_indexedAfter.mp (List.mem_of_mem_take hx)
  obtain ⟨y, ⟨rows, hbatch, -⟩, hrange, -⟩ := h.segment hg
  obtain ⟨row, hrow, hlast⟩ := Option.map_eq_some_iff.mp hbatch.last
  have hwin : row ∈ window s.db.log y.range := hbatch.rows_eq ▸ List.mem_of_getLast? hrow
  obtain ⟨hlog, hys, -⟩ := mem_window.mp hwin
  rw [hrange] at hlast hys
  have hlt := last_lt_boundary h hx hb
  refine List.ne_nil_of_mem (mem_chats.mpr ⟨hlog, hys.symm.trans hs, ?_, ?_⟩) (a := row)
  · rw [hlast]
    exact hafter
  · rw [pageBoundary_eq, hb]
    simpa [hlast] using hlt

/-- A page against the log it was read from. -/
inductive PageOf (log : List ChatRow) (session : String) (after : Nat) : ChatPage → Prop
  | more (last : ChatRow) (rows : List ChatRow)
      (hrows : rows = log.filter fun row =>
      row.sessionID = session ∧ after < row.position ∧ row.position ≤ last.position)
    (hlast : rows.getLast? = some last) :
    PageOf log session after ⟨rows, some last.position, true⟩
  | all : PageOf log session after ⟨chats log session after none, none, false⟩

/-- A page is the rest of the log, or a first part of it with the cursor to
go on from. -/
theorem readChatsPage_page (h : TierInv C s) (hget : Intact s get) {after : Nat} {limit : Int}
    (hvalid : C.codec.parseUUID session = true) (hlimit : 1 ≤ limit ∧ limit ≤ 200)
    (howned : owned s.db C.channel session = true) :
    ∃ page, readChatsPage C get s.db session after limit = .ok page ∧
      PageOf s.db.log session after page := by
  rw [readChatsPage_ok h hget hvalid hlimit howned]
  have hne := chats_ne_nil h session after
  generalize hboundary : pageBoundary s.db session after = boundary at hne
  have hincr : Increasing (chats s.db.log session after boundary) := h.increasing.filter _
  have hrep := repeats_of_increasing (hincr.sublist (List.take_sublist (limit.toNat + 1) _))
  rw [ChatPage.of, if_neg (by rw [hrep]; decide)]
  rw [List.take_take, Nat.min_eq_left (Nat.le_succ _)]
  refine ⟨_, rfl, ?_⟩
  by_cases hmore : boundary.isSome = true ∨
      limit.toNat < ((chats s.db.log session after boundary).take (limit.toNat + 1)).length
  · have htake : (chats s.db.log session after boundary).take limit.toNat ≠ [] := by
      intro hnil
      rcases List.take_eq_nil_iff.mp hnil with hzero | hnil
      · omega
      · rcases hmore with hb | hlt
        · exact hne hb hnil
        · rw [hnil] at hlt
          simp at hlt
    obtain ⟨last, hlast⟩ := Option.isSome_iff_exists.mp (List.getLast?_isSome.mpr htake)
    rw [if_pos hmore, hlast, decide_eq_true hmore]
    refine .more last _ ?_ hlast
    have hbound := (mem_chats.mp (List.mem_of_mem_take (List.mem_of_getLast? hlast))).2.2.2
    refine eq_of_key_lt_of_mem_iff (hincr.sublist (List.take_sublist _ _))
      (h.increasing.filter _) ?_
    intro row
    rw [mem_take_iff_key_le hincr hlast, mem_chats, List.mem_filter, decide_eq_true_eq]
    constructor
    · rintro ⟨⟨hlog, hs, hafter, -⟩, hle⟩
      exact ⟨hlog, hs, hafter, hle⟩
    · rintro ⟨hlog, hs, hafter, hle⟩
      refine ⟨⟨hlog, hs, hafter, ?_⟩, hle⟩
      cases boundary with
      | none => rfl
      | some b =>
        simp only [Option.all_some, decide_eq_true_eq] at hbound ⊢
        exact Nat.lt_of_le_of_lt hle hbound
  · rw [if_neg hmore, decide_eq_false hmore]
    push Not at hmore
    obtain ⟨hnone, hlen⟩ := hmore
    obtain rfl : boundary = none := by simpa using hnone
    rw [List.length_take] at hlen
    rw [List.take_of_length_le (by omega)]
    exact .all

/-! ## Following the cursor -/

/-- A reader that started at the beginning and has followed `NextPosition`
while `HasMore`: the run so far, its state, the cursor and the rows it has
got.  Any number of steps may be taken between two pages, and the limit may
change. -/
inductive Paging [DecidableEq β] (C : Config β) (session : String) :
    List (Input × Output) → State β → Nat → List ChatRow → Prop
  | start {tr : List (Input × Output)} {s : State β}
      (hr : (machine C).Run (State.init β) tr s) : Paging C session tr s 0 []
  | wait {tr tr' : List (Input × Output)} {s s' : State β} {after : Nat} {rows : List ChatRow}
      (h : Paging C session tr s after rows) (hr : (machine C).Run s tr' s') :
      Paging C session (tr ++ tr') s' after rows
  | page {tr : List (Input × Output)} {s : State β} {after next : Nat} {rows : List ChatRow}
      (h : Paging C session tr s after rows) {get : String → String → Except ArchiveErr β}
      (hget : Intact s get) {limit : Int} {page : ChatPage}
      (hpage : readChatsPage C get s.db session after limit = .ok page)
      (hmore : page.hasMore = true) (hnext : page.nextPosition = some next) :
      Paging C session tr s next (rows ++ page.rows)

/-- A reader has the chats up to its cursor. -/
def chatsUpTo (log : List ChatRow) (session : String) (after : Nat) : List ChatRow :=
  log.filter fun row => row.sessionID = session ∧ row.position ≤ after

theorem mem_chatsUpTo {after : Nat} :
    row ∈ chatsUpTo log session after ↔
      row ∈ log ∧ row.sessionID = session ∧ row.position ≤ after := by
  rw [chatsUpTo, List.mem_filter, decide_eq_true_eq]

/-- Rows behind the cursor come after those up to it. -/
theorem chatsUpTo_append_increasing (hlog : Increasing log) {after : Nat} {rows : List ChatRow}
    (hrows : Increasing rows) (hafter : ∀ row ∈ rows, after < row.position) :
    Increasing (chatsUpTo log session after ++ rows) := by
  refine List.pairwise_append.mpr ⟨hlog.filter _, hrows, ?_⟩
  intro a ha b hb
  exact Nat.lt_of_le_of_lt (mem_chatsUpTo.mp ha).2.2 (hafter b hb)

/-- A page that is not the last one moves the cursor. -/
theorem chatsUpTo_append_more (hlog : Increasing log) {after next : Nat} (hle : after ≤ next) :
    chatsUpTo log session after ++ (log.filter fun row =>
        row.sessionID = session ∧ after < row.position ∧ row.position ≤ next) =
      chatsUpTo log session next := by
  refine eq_of_key_lt_of_mem_iff (chatsUpTo_append_increasing hlog (hlog.filter _) ?_)
    (hlog.filter _) ?_
  · intro row hrow
    rw [List.mem_filter, decide_eq_true_eq] at hrow
    exact hrow.2.2.1
  · intro row
    rw [List.mem_append, mem_chatsUpTo, mem_chatsUpTo, List.mem_filter, decide_eq_true_eq]
    constructor
    · rintro (⟨hmem, hs, hpos⟩ | ⟨hmem, hs, -, hpos⟩)
      · exact ⟨hmem, hs, Nat.le_trans hpos hle⟩
      · exact ⟨hmem, hs, hpos⟩
    · rintro ⟨hmem, hs, hpos⟩
      rcases Nat.lt_or_ge after row.position with hlt | hge
      · exact Or.inr ⟨hmem, hs, hlt, hpos⟩
      · exact Or.inl ⟨hmem, hs, hge⟩

/-- The last page completes the session. -/
theorem mem_chatsUpTo_append_all {after : Nat} :
    row ∈ chatsUpTo log session after ++ chats log session after none ↔
      row ∈ log ∧ row.sessionID = session := by
  rw [List.mem_append, mem_chatsUpTo, mem_chats]
  constructor
  · rintro (⟨hmem, hs, -⟩ | ⟨hmem, hs, -⟩) <;> exact ⟨hmem, hs⟩
  · rintro ⟨hmem, hs⟩
    rcases Nat.lt_or_ge after row.position with hlt | hge
    · exact Or.inr ⟨hmem, hs, hlt, rfl⟩
    · exact Or.inl ⟨hmem, hs, hge⟩

theorem PageOf.increasing {after : Nat} {page : ChatPage} (hlog : Increasing log)
    (h : PageOf log session after page) :
    Increasing page.rows ∧ ∀ row ∈ page.rows, row ∈ log ∧ row.sessionID = session ∧
      after < row.position := by
  cases h with
  | more last rows hrows hlast =>
    subst hrows
    refine ⟨hlog.filter _, ?_⟩
    intro row hrow
    rw [List.mem_filter, decide_eq_true_eq] at hrow
    exact ⟨hrow.1, hrow.2.1, hrow.2.2.1⟩
  | all =>
    refine ⟨hlog.filter _, ?_⟩
    intro row hrow
    obtain ⟨hmem, hs, hlt, -⟩ := mem_chats.mp hrow
    exact ⟨hmem, hs, hlt⟩

/-- A request is refused as such, or answered with a page of the log. -/
theorem readChatsPage_cases (h : TierInv C s) (hget : Intact s get) (session : String)
    (after : Nat) (limit : Int) :
    readChatsPage C get s.db session after limit =
        .error (.new "invalid archive page request") ∨
      readChatsPage C get s.db session after limit = .error .notFound ∨
      ∃ page, readChatsPage C get s.db session after limit = .ok page ∧
        PageOf s.db.log session after page := by
  by_cases hvalid : C.codec.parseUUID session = true ∧ 1 ≤ limit ∧ limit ≤ 200
  · by_cases howned : owned s.db C.channel session = true
    · exact Or.inr (Or.inr (readChatsPage_page h hget hvalid.1 hvalid.2 howned))
    · refine Or.inr (Or.inl ?_)
      unfold readChatsPage
      rw [if_neg, if_pos (by simpa using howned)]
      rw [hvalid.1]
      simp only [Bool.not_true, Bool.false_eq_true, false_or]
      omega
  · refine Or.inl ?_
    unfold readChatsPage
    rw [if_pos]
    by_contra hreq
    push Not at hreq
    refine hvalid ⟨?_, by omega, by omega⟩
    simpa using hreq.1

variable [DecidableEq β] {tr : List (Input × Output)} {after : Nat} {rows : List ChatRow}

/-- What is appended later lies behind every cursor handed out. -/
theorem run_chatsUpTo {s' : State β} (hr : (machine C).Run s tr s')
    (hle : after ≤ s.db.lastPosition) :
    chatsUpTo s'.db.log session after = chatsUpTo s.db.log session after ∧
      after ≤ s'.db.lastPosition := by
  refine hr.invariant (I := fun s' => chatsUpTo s'.db.log session after =
    chatsUpTo s.db.log session after ∧ after ≤ s'.db.lastPosition) ?_ ⟨rfl, hle⟩
  rintro s1 i ⟨heq, hle1⟩ hi
  change chatsUpTo (step C s1 i).1.db.log session after = _ ∧
    after ≤ (step C s1 i).1.db.lastPosition
  rcases step_log hi with
    ⟨hlog, -, hpos⟩ | ⟨r, uuid, p, fate, session', -, hlt, hrow, _, _, _, _, -, -, hnew⟩
  · rw [hlog]
    exact ⟨heq, Nat.le_trans hle1 hpos⟩
  · rw [hnew]
    refine ⟨?_, by dsimp only; omega⟩
    rw [chatsUpTo, List.filter_append, List.filter_cons_of_neg, List.filter_nil, List.append_nil]
    · exact heq
    · rw [hrow, decide_eq_true_eq]
      omega

/-- What a reader has, all along. -/
structure PagingInv (C : Config β) (session : String) (tr : List (Input × Output)) (s : State β)
    (after : Nat) (rows : List ChatRow) : Prop where
  run : (machine C).Run (State.init β) tr s
  rows : rows = chatsUpTo s.db.log session after
  cursor : after ≤ s.db.lastPosition

theorem Paging.inv (h : Paging C session tr s after rows) :
    PagingInv C session tr s after rows := by
  induction h with
  | @start tr s hr =>
    refine ⟨hr, ?_, Nat.zero_le _⟩
    rw [chatsUpTo, eq_comm, List.filter_eq_nil_iff]
    intro row hrow
    have hpos := ((run_tierInv hr).position hrow).1
    rw [decide_eq_true_eq]
    omega
  | wait _ hr ih =>
    obtain ⟨heq, hle⟩ := run_chatsUpTo hr ih.cursor
    exact ⟨ih.run.trans hr, ih.rows.trans heq.symm, hle⟩
  | page _ hget hpage hmore hnext ih =>
    have h := run_tierInv ih.run
    rcases readChatsPage_cases h hget _ _ _ with herr | herr | ⟨page, hok, hof⟩
    · rw [herr] at hpage
      cases hpage
    · rw [herr] at hpage
      cases hpage
    · rw [hok] at hpage
      cases hpage
      cases hof with
      | more last rows' hrows hlast =>
        cases hnext
        subst hrows
        have hmem := List.mem_filter.mp (List.mem_of_getLast? hlast)
        have hle := (h.position hmem.1).2
        have hlt := hmem.2
        rw [decide_eq_true_eq] at hlt
        refine ⟨ih.run, ?_, hle⟩
        rw [ih.rows]
        exact chatsUpTo_append_more h.increasing (Nat.le_of_lt hlt.2.1)
      | all => cases hmore

/-- What the next page is, for a reader that has followed the cursor. -/
structure PageSound (C : Config β) (session : String) (tr : List (Input × Output)) (s : State β)
    (rows : List ChatRow) (limit : Int) (result : Except ArchiveErr ChatPage) : Prop where
  answered : C.codec.parseUUID session = true → owned s.db C.channel session = true →
    1 ≤ limit → limit ≤ 200 → ∃ page, result = .ok page
  no_overlap : result ≠ .error (.new "archive hot row overlaps segment")
  no_repeat : result ≠ .error (.new "archive position appears twice")
  more : ∀ page, result = .ok page → page.hasMore = true →
    page.nextPosition ≠ none ∧ page.rows ≠ []
  increasing : ∀ page, result = .ok page →
    (rows ++ page.rows).Pairwise fun a b => a.position < b.position
  genuine : ∀ page, result = .ok page → ∀ row ∈ rows ++ page.rows,
    ∃ p r, Inserted C tr session p r ∧ row = r.row session p
  complete : ∀ page, result = .ok page → page.hasMore = false → ∀ p r,
    Inserted C tr session p r → (rows ++ page.rows).count (r.row session p) = 1

/-- Paging is ordered, complete and free of duplicates, whatever happens
between two pages. -/
theorem paging_complete (C : Config β) (session : String) (tr : List (Input × Output))
    (s : State β) (after : Nat) (rows : List ChatRow) (h : Paging C session tr s after rows)
    (get : String → String → Except ArchiveErr β) (hget : Intact s get) (limit : Int) :
    PageSound C session tr s rows limit (readChatsPage C get s.db session after limit) := by
  obtain ⟨hr, rfl, -⟩ := h.inv
  have h := run_tierInv hr
  have hcases := readChatsPage_cases h hget session after limit
  have hanswer : C.codec.parseUUID session = true → owned s.db C.channel session = true →
      1 ≤ limit → limit ≤ 200 →
      ∃ page, readChatsPage C get s.db session after limit = .ok page := by
    intro hvalid howned h1 h2
    obtain ⟨page, hok, -⟩ := readChatsPage_page h hget hvalid ⟨h1, h2⟩ howned
    exact ⟨page, hok⟩
  generalize readChatsPage C get s.db session after limit = result at hcases hanswer
  have hpage : ∀ page, result = .ok page → PageOf s.db.log session after page := by
    intro page hok
    rcases hcases with rfl | rfl | ⟨page', rfl, hof⟩
    · cases hok
    · cases hok
    · cases hok
      exact hof
  have hincr : ∀ page, result = .ok page →
      Increasing (chatsUpTo s.db.log session after ++ page.rows) := by
    intro page hok
    obtain ⟨hrows, hmem⟩ := (hpage page hok).increasing h.increasing
    exact chatsUpTo_append_increasing h.increasing hrows fun row hrow => (hmem row hrow).2.2
  refine ⟨hanswer, ?_, ?_, ?_, hincr, ?_, ?_⟩
  · rcases hcases with rfl | rfl | ⟨page, rfl, -⟩ <;> simp
  · rcases hcases with rfl | rfl | ⟨page, rfl, -⟩ <;> simp
  · intro page hok hmore
    cases hpage page hok with
    | more last rows hrows hlast =>
      refine ⟨by simp, ?_⟩
      rintro rfl
      cases hlast
    | all => cases hmore
  · intro page hok row hrow
    have hlog : row ∈ s.db.log ∧ row.sessionID = session := by
      rcases List.mem_append.mp hrow with hrow | hrow
      · obtain ⟨hmem, hs, -⟩ := mem_chatsUpTo.mp hrow
        exact ⟨hmem, hs⟩
      · obtain ⟨hmem, hs, -⟩ := ((hpage page hok).increasing h.increasing).2 row hrow
        exact ⟨hmem, hs⟩
    obtain ⟨hmem, rfl⟩ := hlog
    obtain ⟨r, heq, hins⟩ := exists_inserted hr hmem
    exact ⟨_, r, hins, heq⟩
  · intro page hok hmore p r hins
    have hnodup : (chatsUpTo s.db.log session after ++ page.rows).Nodup :=
      (hincr page hok).imp fun hlt heq => (heq ▸ hlt).false
    refine List.count_eq_one_of_mem hnodup ?_
    cases hpage page hok with
    | more => cases hmore
    | all => exact mem_chatsUpTo_append_all.mpr ⟨hins.mem_log hr, rfl⟩

/-- A reader of `staleRun`'s session that has taken its first chat from the
exported segment. -/
theorem paging_staleRun :
    Paging fixtureConfig sessionA staleRun.2 staleRun.1 1
      [(fixtureRecord "a" 10).row sessionA 1] := by
  have hpage : readChatsPage fixtureConfig (getVerified fixtureConfig staleRun.1.objects)
      staleRun.1.db sessionA (0 : Nat) 1 =
        .ok ⟨[(fixtureRecord "a" 10).row sessionA 1], some 1, true⟩ := by decide +kernel
  exact .page (.start run_staleRun) (intact_getVerified (run_tierInv run_staleRun)) hpage rfl rfl

theorem paging_complete_staleRun :
    readChatsPage fixtureConfig (getVerified fixtureConfig staleRun.1.objects) staleRun.1.db
        sessionA 1 200 =
      .ok
        { rows :=
            [(fixtureRecord "b" 20).row sessionA 2, (fixtureRecord "c" 30).row sessionA 4]
          nextPosition := none, hasMore := false } ∧
      PageSound fixtureConfig sessionA staleRun.2 staleRun.1
        [(fixtureRecord "a" 10).row sessionA 1] 200
        (readChatsPage fixtureConfig (getVerified fixtureConfig staleRun.1.objects) staleRun.1.db
          sessionA 1 200) :=
  ⟨by decide +kernel,
    paging_complete _ _ _ _ _ _ paging_staleRun _
      (intact_getVerified (run_tierInv run_staleRun)) _⟩

end RogiCollector.Ports.Archive
