import RogiCollector.Verified.Machine
import RogiCollector.Verified.Utf8

/-!
# Exporting a day of chats as a Parquet file

`run` of `chat-exporter` has two goroutines and a pipe between them.  One reads the rows of
the query, hands them to the Parquet writer in batches and closes the pipe when it is done;
the other uploads what comes out of the pipe.  A write to the pipe waits until the uploader
has taken the bytes or has closed its side, so the uploader may take them in pieces, and
either side may fail at any point.

What an upload stores is decided by how its reader ended: with the end of the file.  The
first goroutine ends the file with `defer pw.Close()`, also when it returns an error, so a
query that breaks off is uploaded as far as it came.

The Parquet library is a parameter: what it emits for a batch and at the end.  A file of
some rows is what it emits when exactly these rows are written in some batches and the
writer is closed.

## Main definitions

* `exporter` — the two goroutines, with every outcome of their calls as an input.
* `Published` — what the object is when `run` returned.
* `harmless` — the outcomes of a run for which that is so.
-/

namespace RogiCollector.Ports.ParquetExport

open RogiCollector.Verified

/-- A Parquet writer: the bytes of a batch, and those of the end of the file. -/
structure Parquet (Row : Type) where
  State : Type
  init : State
  write : State → List Row → State × Bytes
  close : State → Bytes

variable {Row : Type}

namespace Parquet

variable (P : Parquet Row)

/-- The writer behind some batches, and what it emitted. -/
def outputs (batches : List (List Row)) : P.State × Bytes :=
  batches.foldl (fun acc batch => ((P.write acc.1 batch).1, acc.2 ++ (P.write acc.1 batch).2))
    (P.init, [])

/-- The file of some batches. -/
def file (batches : List (List Row)) : Bytes :=
  (P.outputs batches).2 ++ P.close (P.outputs batches).1

/-- A complete file of these rows, each written once. -/
def IsFile (rows : List Row) (bytes : Bytes) : Prop :=
  ∃ batches : List (List Row), batches.flatten = rows ∧ P.file batches = bytes

theorem outputs_append (batches : List (List Row)) (batch : List Row) :
    P.outputs (batches ++ [batch]) =
      ((P.write (P.outputs batches).1 batch).1,
        (P.outputs batches).2 ++ (P.write (P.outputs batches).1 batch).2) := by
  simp only [outputs, List.foldl_append, List.foldl_cons, List.foldl_nil]

end Parquet

/-! ## The export -/

inductive ExportErr where
  | preflight
  | query
  | scan
  | iterate
  | parquetWrite
  | parquetClose
  | upload
  | zeroRows
  deriving Repr, DecidableEq

/-- Where the first goroutine goes on when its bytes have been taken. -/
inductive After (P : Parquet Row) where
  | batch (st : P.State) (n : Nat) (last : Bool)
  | file

/-- The first goroutine, `idle` before it is started; `sending` is a `Write` or `Close` with the
bytes not yet taken. -/
inductive Writer (P : Parquet Row) where
  | idle
  | query
  | iterate (batch : List Row) (st : P.State)
  | sending (pending : Bytes) (after : After P)
  | returning (err : Option ExportErr)
  | done (err : Option ExportErr)

/-- The second one, with what it has read. -/
inductive Uploader where
  | reading (got : Bytes)
  | stored (got : Bytes)
  | failed
  deriving Repr, DecidableEq

/-- The object at the key; every upload makes a new version. -/
structure Object where
  version : Nat
  bytes : Option Bytes
  deriving Repr, DecidableEq

/-- `run`; `batches` and `rows` are the history of what was written and delivered. -/
structure Export (P : Parquet Row) where
  writer : Writer P
  uploader : Uploader
  firstErr : Option ExportErr
  dedupRows : Nat
  object : Object
  result : Option (Option ExportErr)
  batches : List (List Row)
  rows : List Row

def Export.init (P : Parquet Row) (object : Object) : Export P :=
  ⟨.idle, .reading [], none, 0, object, none, [], []⟩

/-- `rows.Next()` with `Scan`, or with `rows.Err()` when there is no next row. -/
inductive NextRow (Row : Type) where
  | row (r : Row)
  | scanFails
  | ends
  | breaksOff

inductive Input (Row : Type) where
  -- Everything before the goroutines start: `run` may return there, with an error or not.
  | go
  | stop (failed : Bool)
  | query (ok : Bool)
  | next (o : NextRow Row)
  -- The uploader takes some bytes of the pending ones.
  | take (n : Nat)
  | written
  -- The Parquet writer fails, or the uploader has closed the pipe.
  | writeFails
  | leave
  -- The uploader reads the end of the file and stores the object.
  | put
  | uploadFails
  | wait

/-- The error of a `Write` or `Close` that fails. -/
def After.error {P : Parquet Row} : After P → ExportErr
  | .batch _ _ _ => .parquetWrite
  | .file => .parquetClose

def Uploader.got : Uploader → Bytes
  | .reading got | .stored got => got
  | .failed => []

namespace Export

variable {P : Parquet Row}

/-- `flush` of a batch that is not empty: the writer takes it and emits bytes. -/
def flush (s : Export P) (batch : List Row) (st : P.State) (last : Bool) : Export P :=
  { s with
    writer := .sending (P.write st batch).2 (.batch (P.write st batch).1 batch.length last)
    batches := s.batches ++ [batch] }

/-- One round of the loop over the rows, or what follows it. -/
def next (batchSize : Nat) (s : Export P) (batch : List Row) (st : P.State) :
    NextRow Row → Export P
  | .row r =>
    let s := { s with rows := s.rows ++ [r] }
    if batchSize ≤ (batch ++ [r]).length then s.flush (batch ++ [r]) st false
    else { s with writer := .iterate (batch ++ [r]) st }
  | .scanFails => { s with writer := .returning (some .scan) }
  | .ends =>
    if batch = [] then { s with writer := .sending (P.close st) .file }
    else s.flush batch st true
  | .breaksOff => { s with writer := .returning (some .iterate) }

/-- A `Write` or `Close` returns without an error. -/
def sent (s : Export P) : After P → Export P
  | .batch st n last =>
    { s with
      dedupRows := s.dedupRows + n
      writer := if last then .sending (P.close st) .file else .iterate [] st }
  | .file => { s with writer := .returning none }

/-- `g.Wait()` and what follows it. -/
def finalResult (s : Export P) : Option ExportErr :=
  s.firstErr <|> if s.dedupRows = 0 then some .zeroRows else none

def step (batchSize : Nat) (s : Export P) (i : Input Row) : Export P :=
  match i, s.writer with
  | .go, _ => { s with writer := .query }
  | .stop failed, _ => { s with result := some (if failed then some .preflight else none) }
  | .query ok, _ => { s with writer := if ok then .iterate [] P.init else .returning (some .query) }
  | .next o, .iterate batch st => s.next batchSize batch st o
  | .take n, .sending pending after =>
    { s with
      writer := .sending (pending.drop n) after
      uploader := .reading (s.uploader.got ++ pending.take n) }
  | .written, .sending _ after => s.sent after
  | .writeFails, .sending _ after => { s with writer := .returning (some after.error) }
  -- A goroutine closes its side of the pipe and returns at once; in between, the other one
  -- can only make its own error the first.
  | .leave, .returning err => { s with writer := .done err, firstErr := s.firstErr <|> err }
  | .put, _ =>
    { s with
      uploader := .stored s.uploader.got
      object := ⟨s.object.version + 1, some s.uploader.got⟩ }
  | .uploadFails, _ => { s with uploader := .failed, firstErr := s.firstErr <|> some .upload }
  | .wait, _ => { s with result := some s.finalResult }
  | _, _ => s

def admits (s : Export P) (i : Input Row) : Bool :=
  s.result.isNone && match i, s.writer, s.uploader with
    | .go, .idle, _ | .stop _, .idle, _ | .query _, .query, _ => true
    | .next _, .iterate _ _, _ => true
    | .take n, .sending pending _, .reading _ => 0 < n && !pending.isEmpty
    | .written, .sending pending _, _ => pending.isEmpty
    | .writeFails, .sending _ _, _ => true
    | .leave, .returning _, _ => true
    | .put, .done _, .reading _ => true
    | .uploadFails, .idle, _ => false
    | .uploadFails, _, .reading _ => true
    | .wait, .done _, .stored _ | .wait, .done _, .failed => true
    | _, _, _ => false

end Export

/-- The goroutines of `run` with this `BatchSize`. -/
def exporter (P : Parquet Row) (batchSize : Nat) : Machine (Export P) (Input Row) Unit where
  admits s i := s.admits i = true
  step s i := (s.step batchSize i, ())

instance {P : Parquet Row} {batchSize : Nat} (s : Export P) (i : Input Row) :
    Decidable ((exporter P batchSize).admits s i) :=
  inferInstanceAs (Decidable (_ = true))

/-! ## What should be published -/

/-- When `run` returned an error the object is what it was, and when it returned nil behind an
upload the object is the complete file of all rows of the result. -/
def Published {P : Parquet Row} (object : Object) (s : Export P) : Prop :=
  match s.result with
  | none => True
  | some (some _) => s.object = object
  | some none => ∀ got, s.uploader = .stored got →
      s.object = ⟨object.version + 1, some got⟩ ∧ P.IsFile s.rows got

namespace Input

/-- `run` returns before the goroutines start. -/
def stops : Input Row → Bool
  | .stop _ => true
  | _ => false

def isUploadFailure : Input Row → Bool
  | .uploadFails => true
  | _ => false

/-- A failure in the first goroutine. -/
def fails : Input Row → Bool
  | .query ok => !ok
  | .next .scanFails | .next .breaksOff | .writeFails => true
  | _ => false

def delivers : Input Row → Bool
  | .next (.row _) => true
  | _ => false

end Input

/-- The export stops early, or the upload fails, or the first goroutine has no failure and
there is a row. -/
def harmless (inputs : List (Input Row)) : Bool :=
  inputs.any Input.stops || inputs.any Input.isUploadFailure ||
    (!inputs.any Input.fails && inputs.any Input.delivers)

/-! ## What a step needs and does -/

variable {P : Parquet Row} {batchSize : Nat} {object : Object} {s s' : Export P} {i : Input Row}

/-- The upload has returned. -/
def Uploader.over : Uploader → Bool
  | .stored _ | .failed => true
  | _ => false

theorem Uploader.over_iff {u : Uploader} :
    u.over = true ↔ u = .failed ∨ ∃ got, u = .stored got := by
  cases u <;> simp [Uploader.over]

/-- What the writer and the uploader are before a step, and what it changes. -/
inductive Moves (batchSize : Nat) (s : Export P) : Input Row → Export P → Prop where
  | go (hw : s.writer = .idle) : Moves batchSize s .go { s with writer := .query }
  | stop (failed : Bool) (hw : s.writer = .idle) : Moves batchSize s (.stop failed)
      { s with result := some (if failed then some .preflight else none) }
  | query (ok : Bool) (hw : s.writer = .query) : Moves batchSize s (.query ok)
      { s with writer := if ok then .iterate [] P.init else .returning (some .query) }
  | next {batch : List Row} {st : P.State} (o : NextRow Row) (hw : s.writer = .iterate batch st) :
      Moves batchSize s (.next o) (s.next batchSize batch st o)
  | take {pending got : Bytes} {after : After P} (n : Nat) (hw : s.writer = .sending pending after)
      (hu : s.uploader = .reading got) : Moves batchSize s (.take n)
        { s with
          writer := .sending (pending.drop n) after
          uploader := .reading (got ++ pending.take n) }
  | written {after : After P} (hw : s.writer = .sending [] after) :
      Moves batchSize s .written (s.sent after)
  | writeFails {pending : Bytes} {after : After P} (hw : s.writer = .sending pending after) :
      Moves batchSize s .writeFails { s with writer := .returning (some after.error) }
  | leave {err : Option ExportErr} (hw : s.writer = .returning err) : Moves batchSize s .leave
      { s with writer := .done err, firstErr := s.firstErr <|> err }
  | put {err : Option ExportErr} {got : Bytes} (hw : s.writer = .done err)
      (hu : s.uploader = .reading got) : Moves batchSize s .put
      { s with uploader := .stored got, object := ⟨s.object.version + 1, some got⟩ }
  | uploadFails {got : Bytes} (hw : s.writer ≠ .idle) (hu : s.uploader = .reading got) :
      Moves batchSize s .uploadFails
        { s with uploader := .failed, firstErr := s.firstErr <|> some .upload }
  | wait {err : Option ExportErr} (hw : s.writer = .done err) (hu : s.uploader.over = true) :
      Moves batchSize s .wait { s with result := some s.finalResult }

theorem step_moves (hi : s.admits i = true) :
    s.result = none ∧ Moves batchSize s i (s.step batchSize i) := by
  unfold Export.admits at hi
  rw [Bool.and_eq_true, Option.isNone_iff_eq_none] at hi
  obtain ⟨hresult, hi⟩ := hi
  refine ⟨hresult, ?_⟩
  unfold Export.step
  split at hi
  · rename_i hw
    exact .go hw
  · rename_i hw
    exact .stop _ hw
  · rename_i hw
    exact .query _ hw
  · rename_i hw
    rw [hw]
    exact .next _ hw
  · rename_i hw hu
    rw [hw, hu]
    exact .take _ hw hu
  · rename_i hw
    rw [List.isEmpty_iff.mp hi] at hw
    rw [hw]
    exact .written hw
  · rename_i hw
    rw [hw]
    exact .writeFails hw
  · rename_i hw
    rw [hw]
    exact .leave hw
  · rename_i hw hu
    rw [hu]
    exact .put hw hu
  · contradiction
  · rename_i hu hw
    exact .uploadFails hw hu
  · rename_i hw hu
    exact .wait hw (by rw [hu]; rfl)
  · rename_i hw hu
    exact .wait hw (by rw [hu]; rfl)
  · contradiction

/-! ## What every state satisfies -/

def Writer.failed : Writer P → Bool
  | .returning (some _) | .done (some _) => true
  | _ => false

/-- The bytes that wait to be taken. -/
def Writer.pending : Writer P → Bytes
  | .sending pending _ => pending
  | _ => []

/-- What the first goroutine returned. -/
def Writer.result : Writer P → Option ExportErr
  | .done err => err
  | _ => none

/-- What the Parquet writer has emitted so far. -/
def Writer.emitted (s : Export P) : Writer P → Bytes
  | .idle | .query => []
  | .iterate _ _ => (P.outputs s.batches).2
  | .sending _ (.batch _ _ _) => (P.outputs s.batches).2
  | _ => P.file s.batches

/-- The rows delivered are those of the batches and of the one that is being filled, and
those of the batches that were written are counted. -/
def Writer.Counted (s : Export P) : Writer P → Prop
  | .idle | .query => s.batches = [] ∧ s.rows = [] ∧ s.dedupRows = 0
  | .iterate batch st => st = (P.outputs s.batches).1 ∧ s.rows = s.batches.flatten ++ batch ∧
      s.dedupRows = s.batches.flatten.length
  | .sending _ (.batch st n _) => st = (P.outputs s.batches).1 ∧ s.rows = s.batches.flatten ∧
      s.dedupRows + n = s.batches.flatten.length
  | .returning (some _) | .done (some _) => True
  | _ => s.rows = s.batches.flatten ∧ s.dedupRows = s.batches.flatten.length

/-- What is known of the first goroutine.  While nothing has failed, the bytes taken and those
pending are the bytes emitted. -/
structure Writer.Known (s : Export P) (w : Writer P) : Prop where
  bytes : w.failed = false → s.uploader ≠ .failed → s.uploader.got ++ w.pending = w.emitted s
  counted : w.Counted s

variable {w : Writer P} {batch : List Row} {st : P.State} {after : After P}

theorem Writer.Known.of_failed (h : w.failed = true) : w.Known s := by
  refine ⟨fun hok => absurd (hok.symm.trans h) Bool.false_ne_true, ?_⟩
  unfold Writer.failed at h
  split at h
  · trivial
  · trivial
  · contradiction

/-- A new batch is written behind the others. -/
theorem flush_known {last : Bool} (h : (Writer.iterate batch st).Known s) :
    (s.flush batch st last).writer.Known (s.flush batch st last) := by
  obtain ⟨hbytes, rfl, hrows, hcount⟩ := h
  refine ⟨fun hok hu => ?_, ?_, ?_, ?_⟩
  · have hgot := hbytes rfl hu
    simp only [Writer.pending, Writer.emitted, List.append_nil] at hgot
    simp only [Export.flush, Writer.pending, Writer.emitted, P.outputs_append, hgot]
  · simp only [Export.flush, P.outputs_append]
  · simpa only [Export.flush, List.flatten_append, List.flatten_singleton] using hrows
  · simp only [Export.flush, List.flatten_append, List.flatten_singleton, List.length_append]
    rw [hcount]

/-- Behind the last batch the writer is closed. -/
theorem close_known (hbytes : s.uploader ≠ .failed → s.uploader.got = (P.outputs s.batches).2)
    (hcounted : s.rows = s.batches.flatten ∧ s.dedupRows = s.batches.flatten.length) :
    (Writer.sending (P.close (P.outputs s.batches).1) .file).Known s :=
  ⟨fun _ hu => by rw [hbytes hu]; rfl, hcounted⟩

/-- The object behind what the uploader did. -/
def Uploader.publish (object : Object) : Uploader → Object
  | .stored got => ⟨object.version + 1, some got⟩
  | _ => object

/-- What holds until `run` returns. -/
structure Sound (object : Object) (s : Export P) : Prop where
  known : s.writer.Known s
  object : s.object = s.uploader.publish object
  fresh : s.writer = .idle → s.uploader = .reading []
  firstErr : s.firstErr = none ↔ s.uploader ≠ .failed ∧ s.writer.result = none

namespace Sound

theorem init (P : Parquet Row) (object : Object) : Sound object (Export.init P object) where
  known := ⟨fun _ _ => rfl, rfl, rfl, rfl⟩
  object := rfl
  fresh _ := rfl
  firstErr := ⟨fun _ => ⟨nofun, rfl⟩, fun _ => rfl⟩

variable (h : Sound object s)

include h

/-- The first goroutine goes on and does not return. -/
theorem work (hwas : s.writer.result = none)
    {batches : List (List Row)} {rows : List Row} {n : Nat}
    (hknown : w.Known { s with writer := w, batches := batches, rows := rows, dedupRows := n })
    (hgoes : w.result = none) (hstarted : w ≠ .idle) : Sound object
      { s with writer := w, batches := batches, rows := rows, dedupRows := n } where
  known := hknown
  object := h.object
  fresh hidle := absurd hidle hstarted
  firstErr := by
    rw [hgoes]
    exact hwas ▸ h.firstErr

theorem next (hw : s.writer = .iterate batch st) (o : NextRow Row) :
    Sound object (s.next batchSize batch st o) := by
  have hknown : (Writer.iterate batch st).Known s := hw ▸ h.known
  have hwas : s.writer.result = none := by rw [hw]; rfl
  cases o with
  | row r =>
    have hrow : (Writer.iterate (batch ++ [r]) st).Known { s with rows := s.rows ++ [r] } := by
      refine ⟨hknown.bytes, hknown.counted.1, ?_, hknown.counted.2.2⟩
      rw [← List.append_assoc, ← hknown.counted.2.1]
    rw [Export.next]
    split
    · exact h.work hwas (flush_known hrow) rfl nofun
    · exact h.work hwas ⟨hrow.bytes, hrow.counted⟩ rfl nofun
  | scanFails | breaksOff => exact h.work hwas (.of_failed rfl) rfl nofun
  | ends =>
    rw [Export.next]
    split
    · rename_i hempty
      obtain ⟨hbytes, rfl, hrows, hcount⟩ := hknown
      rw [hempty, List.append_nil] at hrows
      refine h.work hwas (close_known (fun hu => ?_) ⟨hrows, hcount⟩) rfl nofun
      exact (List.append_nil _).symm.trans (hbytes rfl hu)
    · exact h.work hwas (flush_known hknown) rfl nofun

theorem sent (hw : s.writer = .sending [] after) : Sound object (s.sent after) := by
  have hknown : (Writer.sending [] after).Known s := hw ▸ h.known
  have hwas : s.writer.result = none := by rw [hw]; rfl
  cases after with
  | batch st n last =>
    obtain ⟨hbytes, rfl, hrows, hcount⟩ := hknown
    cases last with
    | true =>
      refine h.work hwas (close_known (fun hu => ?_) ⟨hrows, hcount⟩) rfl nofun
      exact (List.append_nil _).symm.trans (hbytes rfl hu)
    | false =>
      refine h.work hwas ⟨hbytes, rfl, ?_, hcount⟩ rfl nofun
      rw [List.append_nil]
      exact hrows
  | file => exact h.work hwas ⟨fun _ hu => hknown.bytes rfl hu, hknown.counted⟩ rfl nofun

/-- The uploader takes some of the pending bytes. -/
theorem take {pending got : Bytes} (hw : s.writer = .sending pending after)
    (hu : s.uploader = .reading got) (n : Nat) :
    Sound object
      { s with
        writer := .sending (pending.drop n) after
        uploader := .reading (got ++ pending.take n) } where
  known := by
    have hknown : (Writer.sending pending after).Known s := hw ▸ h.known
    have hall := hknown.bytes rfl (by rw [hu]; nofun)
    rw [hu] at hall
    cases after with
    | batch | file =>
      refine ⟨fun _ _ => ?_, hknown.counted⟩
      simp only [Writer.pending, Writer.emitted, Uploader.got] at hall ⊢
      rw [List.append_assoc, List.take_append_drop, hall]
  object := by
    rw [h.object, hu]
    rfl
  fresh := nofun
  firstErr := by
    have hfirst := h.firstErr
    rw [hw, hu] at hfirst
    exact hfirst.trans ⟨fun _ => ⟨nofun, rfl⟩, fun _ => ⟨nofun, rfl⟩⟩

/-- The first goroutine returns. -/
theorem leave {err : Option ExportErr} (hw : s.writer = .returning err) :
    Sound object ({ s with writer := .done err, firstErr := s.firstErr <|> err } : Export P) where
  known := by
    have hknown : (Writer.returning err).Known s := hw ▸ h.known
    cases err with
    | some e => exact .of_failed rfl
    | none => exact ⟨hknown.bytes, hknown.counted⟩
  object := h.object
  fresh := nofun
  firstErr := by
    have hfirst := h.firstErr
    rw [hw] at hfirst
    have horElse : (s.firstErr <|> err) = none ↔ s.firstErr = none ∧ err = none := by
      cases s.firstErr <;> simp
    rw [horElse, hfirst]
    exact and_congr_left fun _ => and_iff_left rfl

/-- The upload succeeds. -/
theorem put {err : Option ExportErr} {got : Bytes} (hw : s.writer = .done err)
    (hu : s.uploader = .reading got) : Sound object
      { s with uploader := .stored got, object := ⟨s.object.version + 1, some got⟩ } where
  known := by
    refine ⟨fun hok _ => ?_, h.known.counted⟩
    have hbytes := h.known.bytes hok (by rw [hu]; nofun)
    rw [hu] at hbytes
    exact hbytes
  object := by
    rw [h.object, hu]
    rfl
  fresh hidle := nomatch hw.symm.trans hidle
  firstErr := by
    have hfirst := h.firstErr
    rw [hu] at hfirst
    exact hfirst.trans (and_congr_left fun _ => iff_of_true nofun nofun)

theorem step (hm : Moves batchSize s i s') (hrunning : s'.result = none) : Sound object s' := by
  cases hm with
  | stop | wait => contradiction
  | go hw =>
    have hknown : Writer.idle.Known s := hw ▸ h.known
    exact h.work (by rw [hw]; rfl) ⟨hknown.bytes, hknown.counted⟩ rfl nofun
  | query ok hw =>
    have hknown : Writer.query.Known s := hw ▸ h.known
    obtain ⟨hbytes, hbatches, hrows, hcount⟩ := hknown
    have hwas : s.writer.result = none := by rw [hw]; rfl
    cases ok with
    | false => exact h.work hwas (.of_failed rfl) rfl nofun
    | true =>
      refine h.work hwas ⟨fun _ hu => ?_, ?_⟩ rfl nofun
      · simp only [if_true, Writer.emitted, hbatches]
        exact hbytes rfl hu
      · simp only [if_true, Writer.Counted, hbatches, hrows, hcount]
        exact ⟨rfl, rfl, rfl⟩
  | next o hw => exact h.next hw o
  | take n hw hu => exact h.take hw hu n
  | written hw => exact h.sent hw
  | writeFails hw => exact h.work (by rw [hw]; rfl) (.of_failed rfl) rfl nofun
  | leave hw => exact h.leave hw
  | put hw hu => exact h.put hw hu
  | uploadFails hw hu =>
    refine ⟨⟨fun _ hlive => absurd rfl hlive, h.known.counted⟩, ?_,
      fun hidle => absurd hidle hw, ?_⟩
    · rw [h.object, hu]
      rfl
    · cases s.firstErr <;> simp

end Sound

/-! ## What the outcomes say about the state -/

variable {inputs : List (Input Row)}

/-- The outcomes so far and the state they lead to. -/
structure Traced (inputs : List (Input Row)) (s : Export P) : Prop where
  stops : inputs.any Input.stops = false
  upload : inputs.any Input.isUploadFailure = true ↔ s.uploader = .failed
  fails : inputs.any Input.fails = s.writer.failed
  delivers : inputs.any Input.delivers = true ↔ s.rows ≠ []

theorem Traced.init (P : Parquet Row) (object : Object) : Traced [] (Export.init P object) := by
  constructor <;> simp [Export.init, Writer.failed]

theorem Traced.snoc (h : Traced inputs s) (hstops : i.stops = false)
    (hupload : s'.uploader = .failed ↔ s.uploader = .failed ∨ i.isUploadFailure = true)
    (hfails : s'.writer.failed = (s.writer.failed || i.fails))
    (hrows : s'.rows ≠ [] ↔ s.rows ≠ [] ∨ i.delivers = true) : Traced (inputs ++ [i]) s' := by
  have hany (f : Input Row → Bool) : (inputs ++ [i]).any f = (inputs.any f || f i) := by simp
  constructor
  · rw [hany, h.stops, hstops]
    rfl
  · rw [hany, Bool.or_eq_true, h.upload, hupload]
  · rw [hany, hfails, h.fails]
  · rw [hany, Bool.or_eq_true, h.delivers, hrows]

theorem Traced.step (h : Traced inputs s) (hm : Moves batchSize s i s')
    (hrunning : s'.result = none) : Traced (inputs ++ [i]) s' := by
  cases hm with
  | stop | wait => contradiction
  | query ok hw =>
    refine h.snoc rfl (by simp [Input.isUploadFailure]) ?_ (by simp [Input.delivers])
    cases ok <;> simp [hw, Writer.failed, Input.fails]
  | next o hw =>
    cases o with
    | row | ends =>
      rw [Export.next]
      split <;> refine h.snoc rfl ?_ ?_ ?_ <;>
        simp [Export.flush, hw, Writer.failed, Input.isUploadFailure, Input.fails, Input.delivers]
    | scanFails | breaksOff =>
      refine h.snoc rfl ?_ ?_ ?_ <;>
        simp [Export.next, Writer.failed, Input.isUploadFailure, Input.fails, Input.delivers]
  | @written after hw =>
    rcases after with ⟨st, n, _ | _⟩ | _ <;> refine h.snoc rfl ?_ ?_ ?_ <;>
      simp [Export.sent, hw, Writer.failed, Input.isUploadFailure, Input.fails, Input.delivers]
  | @leave err hw =>
    cases err <;> refine h.snoc rfl ?_ ?_ ?_ <;>
      simp [hw, Writer.failed, Input.isUploadFailure, Input.fails, Input.delivers]
  | _ =>
    refine h.snoc rfl ?_ ?_ ?_ <;>
      simp [*, Writer.failed, Input.isUploadFailure, Input.fails, Input.delivers]

/-! ## Every run -/

theorem run_sound {tr : List (Input Row × Unit)}
    (hr : (exporter P batchSize).Run (Export.init P object) tr s) (hrunning : s.result = none) :
    Sound object s ∧ Traced (tr.map Prod.fst) s := by
  induction hr with
  | nil => exact ⟨Sound.init P object, Traced.init P object⟩
  | snoc hr i hi ih =>
    obtain ⟨hresult, hm⟩ := step_moves hi
    obtain ⟨hsound, htraced⟩ := ih hresult
    rw [List.map_append]
    exact ⟨hsound.step hm hrunning, htraced.step hm hrunning⟩

/-- A step that ends `run` is the last one: it stops early or waits for both goroutines. -/
theorem Moves.ends (hm : Moves batchSize s i s') (hrunning : s.result = none)
    (hreturned : s'.result.isSome = true) : (s.writer = .idle ∧
        ∃ failed r, i = .stop failed ∧ s' = { s with result := some r }) ∨
      (i = .wait ∧ (∃ err, s.writer = .done err) ∧ s.uploader.over = true ∧
        s' = { s with result := some s.finalResult }) := by
  cases hm with
  | stop failed hw => exact .inl ⟨hw, failed, _, rfl, rfl⟩
  | wait hw hu => exact .inr ⟨rfl, ⟨_, hw⟩, hu, rfl⟩
  | next o =>
    cases o with
    | row | ends =>
      rw [Export.next] at hreturned
      split at hreturned <;> simp [Export.flush, hrunning] at hreturned
    | scanFails | breaksOff => simp [Export.next, hrunning] at hreturned
  | @written after => cases after <;> simp [Export.sent, hrunning] at hreturned
  | _ => simp [hrunning] at hreturned

namespace Sound

variable (h : Sound object s) {got : Bytes} {err : Option ExportErr}

include h

/-- An upload that succeeded behind a first goroutine without an error took the whole file. -/
theorem isFile (hw : s.writer = .done none) (hu : s.uploader = .stored got) :
    P.IsFile s.rows got ∧ s.dedupRows = s.rows.length := by
  have hknown : (Writer.done none).Known s := hw ▸ h.known
  obtain ⟨hbytes, hrows, hcount⟩ := hknown
  have hfile := hbytes rfl (by rw [hu]; nofun)
  rw [hu, show (Writer.done none : Writer P).pending = [] from rfl, List.append_nil] at hfile
  exact ⟨⟨s.batches, hrows.symm, hfile.symm⟩, by rw [hcount, hrows]⟩

/-- A stored upload is right exactly if the first goroutine returned no error, which it
returns for an error of the pipe as well, and there are rows. -/
theorem published_stored (hw : s.writer = .done err) (hu : s.uploader = .stored got) :
    Published object { s with result := some s.finalResult } ↔ err = none ∧ s.rows ≠ [] := by
  have hpublish := h.object
  rw [hu] at hpublish
  have hchanged : s.object ≠ object := by
    rw [hpublish]
    intro heq
    have hversion : object.version + 1 = object.version := congrArg Object.version heq
    omega
  have hfirst := h.firstErr
  rw [hw, hu] at hfirst
  unfold Published
  rw [Export.finalResult]
  cases err with
  | some e =>
    obtain ⟨e', he⟩ := Option.ne_none_iff_exists'.mp fun hnone => nomatch (hfirst.mp hnone).2
    simp [he, hchanged]
  | none =>
    have hnone : s.firstErr = none := hfirst.mpr ⟨nofun, rfl⟩
    obtain ⟨hfile, hcount⟩ := h.isFile hw hu
    rw [hnone, hcount]
    by_cases hrows : s.rows = []
    · -- An empty file was stored before the rows were counted.
      simp [hrows, hchanged]
    · have hlength : s.rows.length ≠ 0 := fun hzero => hrows (List.length_eq_zero_iff.mp hzero)
      simp [hrows, hlength, hu, hpublish, Uploader.publish, hfile]

end Sound

/-- Whatever the calls return and however the goroutines interleave: when `run` has returned,
what it published is right exactly if the outcomes are harmless. -/
theorem export_published (P : Parquet Row) (batchSize : Nat) (object : Object)
    (tr : List (Input Row × Unit)) (s : Export P)
    (hr : (exporter P batchSize).Run (Export.init P object) tr s)
    (hreturned : s.result.isSome = true) :
    Published object s ↔ harmless (tr.map Prod.fst) = true := by
  cases hr with
  | nil => contradiction
  | @snoc tr s hr i hi =>
    obtain ⟨hrunning, hm⟩ := step_moves hi
    obtain ⟨hsound, htraced⟩ := run_sound hr hrunning
    change Published object (s.step batchSize i) ↔ _
    rw [List.map_append, List.map_singleton]
    rcases hm.ends hrunning hreturned with
      ⟨hw, failed, r, rfl, hs⟩ | ⟨rfl, ⟨err, hw⟩, hover, hs⟩
    · have hu := hsound.fresh hw
      have hobject := hsound.object
      rw [hu] at hobject
      refine iff_of_true ?_ (by simp [harmless, Input.stops])
      rw [hs, Published]
      cases r with
      | some e => exact hobject
      | none => exact fun got hgot => nomatch hu.symm.trans hgot
    · have hharmless : harmless (tr.map Prod.fst ++ [.wait]) = true ↔
          s.uploader = .failed ∨ (tr.map Prod.fst).any Input.fails = false ∧ s.rows ≠ [] := by
        simp [harmless, htraced.stops, ← htraced.upload, ← htraced.delivers, Input.stops,
          Input.isUploadFailure, Input.fails, Input.delivers, -List.any_map]
      rw [hs, hharmless]
      rcases Uploader.over_iff.mp hover with hu | ⟨got, hu⟩
      · obtain ⟨e, he⟩ := Option.ne_none_iff_exists'.mp
          fun hnone => (hsound.firstErr.mp hnone).1 hu
        have hobject := hsound.object
        rw [hu] at hobject
        refine iff_of_true ?_ (.inl hu)
        rw [Published, Export.finalResult, he]
        exact hobject
      · rw [hsound.published_stored hw hu, htraced.fails, hu, hw]
        cases err with
        | none | some => simp [Writer.failed]

/-- Rows of one byte behind each other, and a byte at the end. -/
def plain : Parquet UInt8 := ⟨Unit, (), fun _ batch => ((), batch), fun _ => [255]⟩

/-- The object of an earlier export. -/
def earlier : Object := ⟨1, some [9, 255]⟩

/-- Three rows in batches of two; the uploader takes the bytes one or two at a time. -/
def wholeRun : Export plain × List (Input UInt8 × Unit) :=
  (exporter plain 2).exec (Export.init plain earlier)
    [ .go, .query true, .next (.row 1), .next (.row 2), .take 1, .take 1, .written, .next (.row 3)
    , .next .ends, .take 2, .written, .take 1, .written, .leave, .put, .wait ]

theorem wholeRun_run :
    (exporter plain 2).Run (Export.init plain earlier) wholeRun.2 wholeRun.1 :=
  Machine.run_exec _ _ (by decide +kernel)

theorem export_published_whole :
    wholeRun.1.result = some none ∧ wholeRun.1.object = ⟨2, some [1, 2, 3, 255]⟩ ∧
      Published earlier wholeRun.1 := by
  refine ⟨by decide +kernel, by decide +kernel, ?_⟩
  exact (export_published plain 2 earlier _ _ wholeRun_run (by decide +kernel)).mpr
    (by decide +kernel)

/-- The query breaks off behind two rows. -/
def truncatedRun : Export plain × List (Input UInt8 × Unit) :=
  (exporter plain 2).exec (Export.init plain earlier)
    [ .go, .query true, .next (.row 1), .next (.row 2), .take 2, .written, .next .breaksOff
    , .leave, .put, .wait ]

/-- The rows that were counted before are gone. -/
def emptyRun : Export plain × List (Input UInt8 × Unit) :=
  (exporter plain 2).exec (Export.init plain earlier)
    [ .go, .query true, .next .ends, .take 1, .written, .leave, .put, .wait ]

/-- Both runs return an error and replace the object, by a file without its end and by one
without rows. -/
theorem truncated_published :
    ((exporter plain 2).Run (Export.init plain earlier) truncatedRun.2 truncatedRun.1 ∧
      truncatedRun.1.result = some (some .iterate) ∧
      truncatedRun.1.object = ⟨2, some [1, 2]⟩) ∧
    (exporter plain 2).Run (Export.init plain earlier) emptyRun.2 emptyRun.1 ∧
      emptyRun.1.result = some (some .zeroRows) ∧ emptyRun.1.object = ⟨2, some [255]⟩ := by
  have htruncated : (exporter plain 2).Run (Export.init plain earlier) truncatedRun.2
      truncatedRun.1 := Machine.run_exec _ _ (by decide +kernel)
  have hempty : (exporter plain 2).Run (Export.init plain earlier) emptyRun.2 emptyRun.1 :=
    Machine.run_exec _ _ (by decide +kernel)
  refine ⟨⟨htruncated, ?_, ?_⟩, hempty, ?_, ?_⟩
  · decide +kernel
  · decide +kernel
  · decide +kernel
  · decide +kernel

end RogiCollector.Ports.ParquetExport
