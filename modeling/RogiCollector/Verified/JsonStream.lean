import RogiCollector.Verified.JsonScan

/-!
# Streams of JSON values

A decoder of a stream takes one value after the other, with any space between them,
until the text ends.  It stops at the first value that it cannot decode.
-/

namespace RogiCollector.Verified.Json

/-- The values at the head of a text, and whether it ends behind them.  A round takes
at least one character, so the length of the text bounds their number. -/
def readStream : Nat → Text → List Text × Bool
  | 0, _ => ([], false)
  | fuel + 1, t =>
    if skipSpace t = [] then ([], true)
    else
      match readValue (skipSpace t) with
      | none => ([], false)
      | some (v, rest) => ((v :: (readStream fuel rest).1), (readStream fuel rest).2)

def values (t : Text) : List Text × Bool := readStream (t.length + 1) t

/-- The values decoded one by one, and whether the stream was read to its end. -/
def decodeEach {ρ : Type} (decode : Text → Option ρ) (ended : Bool) : List Text → List ρ × Bool
  | [] => ([], ended)
  | v :: vs =>
    match decode v with
    | none => ([], false)
    | some r => (r :: (decodeEach decode ended vs).1, (decodeEach decode ended vs).2)

/-- A text with a newline behind each value. -/
def lines (ts : List Text) : Text := ts.flatMap fun t => t ++ ['\n']

/-! ## Reading what was written -/

/-- A value that ends whatever stands behind it. -/
structure Delimited (v : Text) : Prop where
  reads : ∀ rest, readValue (v ++ rest) = some (v, rest)
  starts : ∃ c t, v = c :: t ∧ isSpace c = false

theorem Delimited.object {ms : List (String × Text)} (hms : ∀ m ∈ ms, IsValue m.2) :
    Delimited (object ms) where
  reads rest := by
    have hfuel : (Json.object ms).length < (Json.object ms ++ rest).length + 1 := by
      rw [List.length_append]
      omega
    have hskip := skip_object hms rest hfuel
    rw [readValue, hskip, Option.map_some]
    simp
  starts := ⟨'{', _, rfl, by decide⟩

theorem readStream_newline (fuel : Nat) (t : Text) :
    readStream fuel ('\n' :: t) = readStream fuel t := by
  have hskip : skipSpace ('\n' :: t) = skipSpace t := by simp [skipSpace, isSpace]
  cases fuel with
  | zero => rfl
  | succ fuel => rw [readStream, readStream, hskip]

theorem readStream_lines {ts : List Text} (h : ∀ t ∈ ts, Delimited t) {fuel : Nat}
    (hfuel : ts.length < fuel) : readStream fuel (lines ts) = (ts, true) := by
  induction ts generalizing fuel with
  | nil =>
    cases fuel with
    | zero => simp at hfuel
    | succ fuel => rfl
  | cons t ts ih =>
    cases fuel with
    | zero => simp at hfuel
    | succ fuel =>
      have ht := h t List.mem_cons_self
      have hrest := ih (fun t' ht' => h t' (List.mem_cons_of_mem t ht'))
        (Nat.lt_of_succ_lt_succ hfuel)
      have hlines : lines (t :: ts) = t ++ '\n' :: lines ts := by simp [lines]
      obtain ⟨c, u, hcu, hspace⟩ := ht.starts
      have hskip : skipSpace (t ++ '\n' :: lines ts) = t ++ '\n' :: lines ts := by
        rw [hcu]
        exact skipSpace_cons hspace _
      rw [hlines, readStream, hskip, if_neg (by simp [hcu]), ht.reads]
      simp only [readStream_newline, hrest]

/-- Objects with a newline behind each are read one by one. -/
theorem values_lines {ts : List Text} (h : ∀ t ∈ ts, Delimited t) :
    values (lines ts) = (ts, true) := by
  refine readStream_lines h ?_
  have hlength : ts.length ≤ (lines ts).length := by
    clear h
    induction ts with
    | nil => simp
    | cons t ts ih =>
      simp only [lines, List.flatMap_cons, List.length_append, List.length_cons] at ih ⊢
      omega
  omega

/-- Values that can be decoded give their results. -/
theorem decodeEach_map {ρ : Type} {decode : Text → Option ρ} {encode : ρ → Text} {rs : List ρ}
    (h : ∀ r ∈ rs, decode (encode r) = some r) (ended : Bool) :
    decodeEach decode ended (rs.map encode) = (rs, ended) := by
  induction rs with
  | nil => rfl
  | cons r rs ih =>
    have hrest := ih fun r' hr' => h r' (List.mem_cons_of_mem r hr')
    rw [List.map_cons, decodeEach, h r List.mem_cons_self]
    simp only [hrest]

theorem size_lines (ts : List Text) : size (lines ts) = (ts.map fun t => size t + 1).sum := by
  have hnewline : '\n'.utf8Size = 1 := by decide
  induction ts with
  | nil => rfl
  | cons t ts ih =>
    have hlines : lines (t :: ts) = t ++ '\n' :: lines ts := by simp [lines]
    rw [hlines, size_append, size_cons, hnewline, ih, List.map_cons, List.sum_cons]
    omega

end RogiCollector.Verified.Json
