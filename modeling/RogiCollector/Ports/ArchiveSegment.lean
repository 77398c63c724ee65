import RogiCollector.Verified.TextKey
import RogiCollector.Ports.ArchiveStore

/-!
# What a built segment says

`Build` and `Decode` check the same things in two loops.  A segment that was
built names its session, its first and its last position and its row count,
and `Decode` gives back the rows it was built from.
-/

namespace RogiCollector.Ports.Archive

open Verified

variable {β : Type} {K : Codec β} {session : String} {rows : List ChatRow} {x : Segment β}

/-! ## The row loops -/

variable {previous plain : Nat}

theorem buildRows_cons {last : Nat} {row : ChatRow}
    (h : buildRows K session previous plain (row :: rows) = .ok last) :
    ∃ len, ¬(row.sessionID ≠ session ∨ row.position ≤ previous ∨ row.eventID = "" ∨
        row.receivedAt = 0) ∧ K.lineLen row = some len ∧
      plain + len + 1 ≤ maxSegmentPlainBytes ∧
      buildRows K session row.position (plain + len + 1) rows = .ok last := by
  rw [buildRows] at h
  split at h
  · cases h
  rename_i hrow
  split at h
  · cases h
  rename_i len hlen
  split at h
  · cases h
  rename_i hplain
  exact ⟨len, hrow, hlen, Nat.le_of_not_lt hplain, h⟩

/-- Every row could be encoded. -/
theorem buildRows_lines {last : Nat} (h : buildRows K session previous plain rows = .ok last) :
    ∀ r ∈ rows, (K.lineLen r).isSome = true := by
  induction rows generalizing previous plain with
  | nil => nofun
  | cons row rows ih =>
    obtain ⟨len, -, hlen, -, hrest⟩ := buildRows_cons h
    intro r hr
    rcases List.mem_cons.mp hr with rfl | hr
    · rw [hlen]
      rfl
    · exact ih hrest r hr

/-- The text stays under its limit. -/
theorem buildRows_plain {last : Nat} (h : buildRows K session previous plain rows = .ok last)
    (hplain : plain ≤ maxSegmentPlainBytes) :
    plain + (rows.map fun r => (K.lineLen r).getD 0 + 1).sum ≤ maxSegmentPlainBytes := by
  induction rows generalizing previous plain with
  | nil => simpa using hplain
  | cons row rows ih =>
    obtain ⟨len, -, hlen, hle, hrest⟩ := buildRows_cons h
    have hsum := ih hrest hle
    simp only [List.map_cons, List.sum_cons, hlen, Option.getD_some]
    omega

/-- The result is the last position. -/
theorem buildRows_last {last : Nat} (h : buildRows K session previous plain rows = .ok last) :
    last = (rows.getLast?.map (·.position)).getD previous := by
  induction rows generalizing previous plain with
  | nil =>
    cases h
    rfl
  | cons row rows ih =>
    obtain ⟨len, -, -, -, hrest⟩ := buildRows_cons h
    rw [ih hrest]
    cases rows with
    | nil => rfl
    | cons next rows => rw [List.getLast?_cons_cons, List.getLast?_cons, Option.map_some]; rfl

theorem buildRows_le {last : Nat} (h : buildRows K session previous plain rows = .ok last) :
    previous ≤ last := by
  induction rows generalizing previous plain with
  | nil =>
    cases h
    exact Nat.le_refl _
  | cons row rows ih =>
    obtain ⟨len, hrow, -, -, hrest⟩ := buildRows_cons h
    have hle := ih hrest
    push Not at hrow
    omega

/-- The checks of `Decode` are those of `Build`. -/
theorem decodeRows_of_buildRows {last n : Nat}
    (h : buildRows K x.sessionID previous plain rows = .ok last)
    (hcount : n + rows.length ≤ x.count) : decodeRows x previous n rows = .ok last := by
  induction rows generalizing previous plain n with
  | nil =>
    cases h
    rfl
  | cons row rows ih =>
    obtain ⟨len, hrow, -, -, hrest⟩ := buildRows_cons h
    rw [List.length_cons] at hcount
    rw [decodeRows, if_neg hrow, if_neg (by omega)]
    exact ih hrest (by omega)

/-! ## Building and decoding -/

/-- The parts of a built segment. -/
structure Built (K : Codec β) (rows : List ChatRow) (x : Segment β) : Prop where
  body : x.body = K.encode rows
  sha256 : x.sha256 = K.sha256Hex (K.encode rows)
  count : x.count = rows.length
  le_rows : rows.length ≤ maxSegmentRows
  uuid : K.parseUUID x.sessionID = true
  size : K.size x.body ≤ maxSegmentGzipBytes
  session : rows.head?.map (·.sessionID) = some x.sessionID
  first : rows.head?.map (·.position) = some x.firstPosition
  first_pos : 0 < x.firstPosition
  loop : buildRows K x.sessionID 0 0 rows = .ok x.lastPosition

theorem build_ok (h : build K rows = .ok x) : Built K rows x := by
  unfold build at h
  split at h
  · cases h
  rename_i first rest
  split at h
  · cases h
  rename_i hlen
  split at h
  · cases h
  rename_i hfirst
  push Not at hfirst
  split at h
  · cases h
  rename_i last hloop
  split at h
  · cases h
  rename_i hsize
  cases h
  exact
    { body := rfl, sha256 := rfl, count := rfl, le_rows := Nat.le_of_not_lt hlen
      uuid := by simpa using hfirst.1
      size := Nat.le_of_not_lt hsize
      session := rfl, first := rfl
      first_pos := Nat.pos_of_ne_zero hfirst.2
      loop := hloop }

theorem Built.slash_notMem (h : Built K rows x) : '/' ∉ x.sha256.toList := by
  rw [h.sha256]
  exact K.sha256_slash _

theorem Built.ne_nil (h : Built K rows x) : rows ≠ [] := by
  intro heq
  have hfirst := h.first
  rw [heq] at hfirst
  cases hfirst

theorem Built.last (h : Built K rows x) :
    rows.getLast?.map (·.position) = some x.lastPosition := by
  have hlast := buildRows_last h.loop
  cases hrows : rows.getLast? with
  | none => exact absurd (List.getLast?_eq_none_iff.mp hrows) h.ne_nil
  | some row =>
    rw [hrows] at hlast
    rw [hlast]
    rfl

theorem Built.first_le_last (h : Built K rows x) : x.firstPosition ≤ x.lastPosition := by
  cases rows with
  | nil => exact absurd rfl h.ne_nil
  | cons row rows =>
    obtain ⟨len, -, -, -, hrest⟩ := buildRows_cons h.loop
    have hfirst : row.position = x.firstPosition := Option.some.inj h.first
    rw [← hfirst]
    exact buildRows_le hrest

/-- The checksum of a body that came back intact, and its rows. -/
theorem Built.decode (h : Built K rows x) (hsize : K.size x.body ≠ 0) :
    Archive.decode K x = .ok rows := by
  have hround := K.round_trip rows (buildRows_lines h.loop)
  have hplain := buildRows_plain h.loop (Nat.zero_le _)
  have hcount : 0 < rows.length := List.length_pos_iff.mpr h.ne_nil
  rw [Archive.decode, if_neg, if_neg]
  · rw [h.body, K.plain_encode]
    dsimp only
    rw [if_neg (by omega), hround]
    dsimp only
    rw [decodeRows_of_buildRows h.loop (by rw [h.count, Nat.zero_add])]
    dsimp only
    rw [if_neg (by decide), if_neg]
    rw [h.count, h.first]
    simp
  · rw [h.sha256, h.body]
    simp
  · have huuid := h.uuid
    have hle := h.size
    have hrows := h.le_rows
    have hpos := h.first_pos
    have hrange := h.first_le_last
    have hn := h.count
    simp only [huuid, Bool.not_true, Bool.false_eq_true, false_or]
    omega

/-- Decoding is the inverse of building. -/
theorem decode_build (h : build K rows = .ok x) (hsize : K.size x.body ≠ 0) :
    decode K x = .ok rows :=
  (build_ok h).decode hsize

/-! ## Halving -/

/-- With the length as a bound the loop never runs out of rounds. -/
theorem buildLoop_fuel {n m : Nat} (hn : rows.length ≤ n) (hm : rows.length ≤ m) :
    buildLoop K n rows = buildLoop K m rows := by
  induction n generalizing m rows with
  | zero =>
    cases m with
    | zero => rfl
    | succ m =>
      obtain rfl := List.length_eq_zero_iff.mp (Nat.le_zero.mp hn)
      rfl
  | succ n ih =>
    cases m with
    | zero =>
      obtain rfl := List.length_eq_zero_iff.mp (Nat.le_zero.mp hm)
      rfl
    | succ m =>
      rw [buildLoop, buildLoop]
      split
      · split
        · apply ih
          · rw [List.length_take]
            omega
          · rw [List.length_take]
            omega
        · rfl
      · rfl

/-- The loop of `RunOnce`, as the source has it. -/
theorem buildHalving_eq (K : Codec β) (rows : List ChatRow) :
    buildHalving K rows =
      match build K rows with
      | .error .tooLarge =>
        if 1 < rows.length then buildHalving K (rows.take (rows.length / 2))
        else .error .tooLarge
      | result => result := by
  unfold buildHalving
  cases hlen : rows.length with
  | zero =>
    obtain rfl := List.length_eq_zero_iff.mp hlen
    rfl
  | succ n =>
    rw [buildLoop, hlen]
    cases build K rows with
    | ok x => rfl
    | error e =>
      cases e with
      | tooLarge =>
        dsimp only
        split
        · apply buildLoop_fuel
          · rw [List.length_take]
            omega
          · exact Nat.le_refl _
        · rfl
      | _ => rfl

/-- What is built is a first part of the batch. -/
theorem buildHalving_ok (h : buildHalving K rows = .ok x) :
    ∃ n, build K (rows.take n) = .ok x := by
  unfold buildHalving at h
  generalize rows.length = fuel at h
  induction fuel generalizing rows with
  | zero => exact ⟨rows.length, by rwa [List.take_length]⟩
  | succ fuel ih =>
    rw [buildLoop] at h
    split at h
    · split at h
      · obtain ⟨n, hn⟩ := ih h
        rw [List.take_take] at hn
        exact ⟨_, hn⟩
      · cases h
    · exact ⟨rows.length, by rwa [List.take_length]⟩

/-! ## Keys -/

theorem toList_objectKey (session : String) (first last : Nat) (sha256 : String) :
    (objectKey session first last sha256).toList =
      "v1/soop/h66rogi/".toList ++ (session.toList ++ '/' :: ((toString first).toList ++
        '-' :: ((toString last).toList ++ '-' :: (sha256.toList ++ ".jsonl.gz".toList)))) := by
  have hslash : "/".toList = ['/'] := rfl
  have hdash : "-".toList = ['-'] := rfl
  unfold objectKey
  repeat rw [String.toList_append]
  rw [hslash, hdash]
  -- The two literals are opaque from here on.
  generalize "v1/soop/h66rogi/".toList = start
  generalize ".jsonl.gz".toList = stop
  simp

/-- Nothing behind the session has a slash. -/
theorem slash_notMem_behind (first last : Nat) {sha256 : List Char} (h : '/' ∉ sha256) :
    '/' ∉ (toString first).toList ++
      '-' :: ((toString last).toList ++ '-' :: (sha256 ++ ".jsonl.gz".toList)) := by
  have hfirst := notMem_toString (c := '/') (by decide) first
  have hlast := notMem_toString (c := '/') (by decide) last
  have hstop : '/' ∉ ".jsonl.gz".toList := by decide
  simp only [List.mem_append, List.mem_cons, not_or]
  exact ⟨hfirst, by decide, hlast, by decide, h, hstop⟩

/-- The key determines session and range. -/
theorem objectKey_inj {x' : Segment β} (hx : '/' ∉ x.sha256.toList)
    (hx' : '/' ∉ x'.sha256.toList) (h : x.objectKey = x'.objectKey) :
    x.range = x'.range := by
  have hlist := congrArg String.toList h
  unfold Segment.objectKey at hlist
  rw [toList_objectKey, toList_objectKey] at hlist
  generalize "v1/soop/h66rogi/".toList = start at hlist
  replace hlist := List.append_cancel_left hlist
  obtain ⟨hs, hrest⟩ := append_cons_inj_last (slash_notMem_behind _ _ hx)
    (slash_notMem_behind _ _ hx') hlist
  have hdash := notMem_toString (c := '-') (by decide)
  obtain ⟨hf, hrest⟩ := append_cons_inj (hdash _) (hdash _) hrest
  obtain ⟨hl, -⟩ := append_cons_inj (hdash _) (hdash _) hrest
  simp only [Segment.range, Range.mk.injEq]
  exact ⟨String.toList_injective hs, toString_inj hf, toString_inj hl⟩

end RogiCollector.Ports.Archive
