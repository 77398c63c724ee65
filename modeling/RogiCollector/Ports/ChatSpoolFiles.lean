import RogiCollector.Ports.ChatArchiveSpool

/-!
# Where the files of the chat spool are

Which drafts and files there are at every point of `NewChatArchiveSpool`, `Save` and
`Drain`.  `Save` and `Drain` change the directory under the mutex only, so that each
finds at its next step what it left at its last one.
-/

namespace RogiCollector.Ports.ChatArchiveSpool

open Verified
open Verified.Json
open Journal (Time)
open Soop (ChatMessage)
open ChatSpool (RawChat saveRecord validChatArchiveEnvelope)

variable {β : Type}

/-! ## Where the files are -/

/-- The journal has the record of a file. -/
def Taken (C : Config β) (appended : List RawChat) (body : Text) : Prop :=
  ∃ r, validChatArchiveEnvelope C.codec C.encoding body = .ok r ∧ r ∈ appended

/-- The file of a job has the job's record. -/
def Writes (C : Config β) (job : Job) : Prop :=
  saveRecord C.codec C.encoding job.record = .ok job.body ∧ job.record.userIDVersion = 1

/-- What `Save` finds at one of its points. -/
def At (d : CrashDir String Text) (job : Job) : Point → Prop
  | .create => d.files.find job.name = none ∧ d.removed.find job.name = none
  | .write => d.drafts.Has job.name ⟨[], false⟩
  | .sync => d.drafts.Has job.name ⟨job.body, false⟩
  | .close | .rename => d.drafts.Has job.name ⟨job.body, true⟩
  | .syncDir => d.files.Has job.name ⟨job.body, true⟩

/-- `Save` has a draft. -/
def Point.drafts : Point → Bool
  | .create | .syncDir => false
  | _ => true

/-- The files that are yet to be drained. -/
def Queued (d : CrashDir String Text) (queue : List String) : Prop :=
  queue.Nodup ∧ ∀ n ∈ queue, ∃ f, d.files.Has n f

/-- What `Drain` finds at one of its points. -/
def DrainInv (C : Config β) (d : CrashDir String Text) (appended : List RawChat) : Draining → Prop
  | .idle => True
  | .next queue => Queued d queue
  | .append n body r rest =>
    Queued d (n :: rest) ∧ (∃ y, d.files.Has n ⟨body, y⟩) ∧
      validChatArchiveEnvelope C.codec C.encoding body = .ok r
  | .remove n body rest =>
    Queued d (n :: rest) ∧ (∃ y, d.files.Has n ⟨body, y⟩) ∧ Taken C appended body
  | .syncDir _ _ rest => Queued d rest

/-- Which drafts there are. -/
def PendingInv (d : CrashDir String Text) (broken : Bool) (saving : Option (Point × Job)) :
    Phase → Prop
  | .down => True
  | .recover queue | .settle queue => ∀ n f, d.drafts.Has n f → n ∈ queue
  | .list => ∀ n f, ¬d.drafts.Has n f
  | .up => broken = false → ∀ n f, d.drafts.Has n f →
      ∃ point job, saving = some (point, job) ∧ n = job.name ∧ point.drafts = true

/-- What `Save` has made sure of. -/
structure SaveInv (C : Config β) (s : State) (point : Point) (job : Job) : Prop where
  broken : s.broken = false
  unlocked : s.draining.locked = false
  record : Writes C job
  at_ : At s.dir job point

structure FilesInv (C : Config β) (s : State) : Prop where
  apart : s.dir.Apart
  idle : s.phase ≠ .up → s.saving = none ∧ s.draining = .idle
  pending : PendingInv s.dir s.broken s.saving s.phase
  saving : ∀ point job, s.saving = some (point, job) → SaveInv C s point job
  draining : DrainInv C s.dir s.appended s.draining

/-! ## What a step can do -/

/-- All a step can do: to start the spool, to save, to drain, and what a stop of the
process or of the machine does. -/
inductive Effect (C : Config β) (s : State) (i : Input) : State → Prop
  | same : Effect C s i s
  | abort (hphase : s.phase ≠ .up) : Effect C s i { s with phase := .down }
  | start (hphase : s.phase = .down) :
      Effect C s i { s with phase := .recover (pendingNames s.dir) }
  | recovered (hphase : s.phase = .recover []) : Effect C s i { s with phase := .list }
  | rename {n : String} {f : File Text} {queue : List String}
      (hphase : s.phase = .recover (n :: queue)) (hf : s.dir.drafts.Has n f) :
      Effect C s i { s with dir := s.dir.rename n, phase := .settle queue }
  | quarantine {n : String} {t : Table String Text} {queue : List String}
      (hphase : s.phase = .recover (n :: queue)) :
      Effect C s i { s with dir := s.dir.vanish n, quarantine := t, phase := .settle queue }
  | settle {queue : List String} (hphase : s.phase = .settle queue) :
      Effect C s i { s with dir := s.dir.syncDir, phase := .recover queue }
  | opened (hphase : s.phase = .list) : Effect C s i
      { s with
        phase := .up
        files := fileCount s.dir
        usedBytes := fileBytes s.dir
        broken := false
        held := fileCount s.dir ≤ maxFiles ∧ fileBytes s.dir ≤ C.maxBytes }
  | begin {job : Job} (hup : s.phase = .up) (hfree : s.mutexFree = true)
      (hbroken : s.broken = false) (hwrites : Writes C job)
      (hbytes : s.usedBytes + size job.body ≤ C.maxBytes) (hfiles : s.files < maxFiles)
      (hat : At s.dir job .create) : Effect C s i { s with saving := some (.create, job) }
  | create {job : Job} (hsaving : s.saving = some (.create, job))
      (hfree : s.dir.drafts.find job.name = none) :
      Effect C s i { s with dir := s.dir.create job.name [], saving := some (.write, job) }
  | exists_ {job : Job} (hsaving : s.saving = some (.create, job)) :
      Effect C s i { s with saving := none }
  | write {job : Job} (hsaving : s.saving = some (.write, job)) :
      Effect C s i { s with dir := s.dir.write job.name job.body, saving := some (.sync, job) }
  | sync {job : Job} (hsaving : s.saving = some (.sync, job)) :
      Effect C s i { s with dir := s.dir.sync job.name, saving := some (.close, job) }
  | close {job : Job} (hsaving : s.saving = some (.close, job)) :
      Effect C s i { s with saving := some (.rename, job) }
  | renamed {job : Job} (hsaving : s.saving = some (.rename, job)) :
      Effect C s i { s with dir := s.dir.rename job.name, saving := some (.syncDir, job) }
  | saved {job : Job} (hsaving : s.saving = some (.syncDir, job)) : Effect C s i
      { s with
        dir := s.dir.syncDir
        usedBytes := s.usedBytes + size job.body
        files := s.files + 1
        saving := none
        accepted := s.accepted ++ [job] }
  | torn {point : Point} {job : Job} {left : Text} (hsaving : s.saving = some (point, job))
      (hpoint : point = .write ∨ point = .sync) (hleft : size left ≤ size job.body) :
      Effect C s i { s with dir := s.dir.write job.name left, saving := none, broken := true }
  | failed {x : Point × Job} (hsaving : s.saving = some x) :
      Effect C s i { s with saving := none, broken := true }
  | stop (hx : s.draining.locked = false) : Effect C s i { s with draining := .idle }
  | list (hup : s.phase = .up) (hx : s.draining = .idle) :
      Effect C s i { s with draining := .next (names s.dir) }
  | read {n : String} {f : File Text} {r : RawChat} {rest : List String}
      (hx : s.draining = .next (n :: rest)) (hf : s.dir.files.Has n f)
      (hvalid : validChatArchiveEnvelope C.codec C.encoding f.body = .ok r) :
      Effect C s i { s with draining := .append n f.body r rest }
  | append {n : String} {body : Text} {r : RawChat} {rest : List String}
      (hx : s.draining = .append n body r rest) :
      Effect C s i { s with draining := .remove n body rest, appended := s.appended ++ [r] }
  | remove {n : String} {body : Text} {rest : List String} (hx : s.draining = .remove n body rest)
      (hsaving : s.saving = none) :
      Effect C s i { s with dir := s.dir.remove n, draining := .syncDir n body rest }
  | removed {n : String} {body : Text} {rest : List String}
      (hx : s.draining = .syncDir n body rest) : Effect C s i
      { s with
        dir := s.dir.syncDir
        files := s.files - 1
        usedBytes := s.usedBytes - size body
        draining := .next rest }
  | unremoved (hx : s.draining ≠ .idle) (hfree : s.draining.locked = true ∨ s.saving = none) :
      Effect C s i { s with broken := true, draining := .idle }
  | crash : Effect C s i s.crash
  | tear {n : String} {left : Text} (hdown : s.phase = .down)
      (hleft : ∀ f, s.dir.files.Has n f ∨ s.dir.drafts.Has n f → f.synced = false →
        size left ≤ size f.body) : Effect C s i { s with dir := s.dir.tear n left }
  | vanish {n : String} (hdown : s.phase = .down) :
      Effect C s i { s with dir := s.dir.vanish n }
  | reappear {n : String} (hi : i = .reappear n) (hdown : s.phase = .down) :
      Effect C s i { s with dir := s.dir.reappear n }

section Effects

variable {C : Config β} {s : State} {d : CrashDir String Text} {i : Input} {ok : Bool}

theorem start_effect (ok : Bool) : Effect C s (.start ok) (start C s ok).1 := by
  rw [start]
  split
  · exact .same
  split
  · exact .same
  rename_i hphase
  split
  · exact .start (not_not.mp hphase)
  · exact .same

theorem boot_effect (ok : Bool) : Effect C s (.boot ok) (boot C s ok).1 := by
  rw [boot]
  cases hphase : s.phase with
  | down | up => exact .same
  | recover queue =>
    have hne : s.phase ≠ .up := by simp [hphase]
    cases queue with
    | nil => exact .recovered hphase
    | cons n queue =>
      dsimp only
      split
      · exact .abort hne
      · cases hfind : s.dir.drafts.find n with
        | none => exact .abort hne
        | some f =>
          dsimp only
          split
          · exact .rename hphase (Table.find_eq_some_iff.mp hfind)
          · exact .quarantine hphase
  | settle queue =>
    dsimp only
    split
    · exact .settle hphase
    · exact .abort (by simp [hphase])
  | list =>
    dsimp only
    split
    · exact .abort (by simp [hphase])
    · exact .opened hphase

theorem save_effect {spoolID : String} {m : ChatMessage} {receivedAt : Time}
    (hadmits : admits s (.save spoolID m receivedAt)) :
    Effect C s i (save C s spoolID m receivedAt).1 := by
  obtain ⟨hup, hfree, hfiles, hremoved⟩ := hadmits
  rw [save]
  split
  · exact .same
  split
  · exact .same
  rename_i hbroken
  dsimp only
  cases hrecord : saveRecord C.codec C.encoding
      (ChatSpool.chatRecord C.hmacHex spoolID m receivedAt) with
  | error e => exact .same
  | ok body =>
    dsimp only
    split
    · exact .same
    · rename_i hroom
      rw [not_or, not_lt, not_le] at hroom
      exact .begin hup hfree (by simpa using hbroken) ⟨hrecord, rfl⟩ hroom.1 hroom.2
        ⟨hfiles, hremoved⟩

theorem saveStep_effect {left : Text} (hleft : size left ≤ s.room) :
    Effect C s i (saveStep s ok left).1 := by
  rw [saveStep]
  cases hsaving : s.saving with
  | none => exact .same
  | some x =>
    obtain ⟨point, job⟩ := x
    rw [State.room, hsaving] at hleft
    cases point with
    | create =>
      dsimp only
      split
      · rename_i hfree
        exact .create hsaving hfree.2
      · exact .exists_ hsaving
    | write =>
      cases ok with
      | false => exact .torn hsaving (Or.inl rfl) hleft
      | true => exact .write hsaving
    | sync =>
      cases ok with
      | false => exact .torn hsaving (Or.inr rfl) hleft
      | true => exact .sync hsaving
    | close =>
      cases ok with
      | false => exact .failed hsaving
      | true => exact .close hsaving
    | rename =>
      cases ok with
      | false => exact .failed hsaving
      | true => exact .renamed hsaving
    | syncDir =>
      cases ok with
      | false => exact .failed hsaving
      | true => exact .saved hsaving

theorem list_ok {queue : List String} (h : list d ok = .ok queue) :
    queue = names d ∧ ∀ n f, ¬d.drafts.Has n f := by
  rw [list] at h
  split at h
  · contradiction
  · split at h
    · contradiction
    · rename_i hkeys
      refine ⟨(Except.ok.inj h).symm, ?_⟩
      intro n f hf
      rw [ne_eq, not_not] at hkeys
      have hmem : n ∈ d.drafts.keys := Table.mem_keys.mpr ⟨f, hf⟩
      rw [hkeys] at hmem
      contradiction

theorem drain_effect (hadmits : admits s (.drain ok)) : Effect C s i (drain s ok).1 := by
  obtain ⟨hup, -, hx⟩ := hadmits
  have hstop : s.draining.locked = false := by rw [hx]; rfl
  rw [drain]
  split
  · exact .stop hstop
  · cases hlist : list s.dir ok with
    | error e => exact .stop hstop
    | ok queue =>
      rw [(list_ok hlist).1]
      exact .list hup hx

theorem drainStep_effect (hadmits : admits s (.drainStep ok)) :
    Effect C s i (drainStep C s ok).1 := by
  rw [drainStep]
  cases hx : s.draining with
  | idle => exact .same
  | next queue =>
    have hstop : s.draining.locked = false := by rw [hx]; rfl
    cases queue with
    | nil => exact .stop hstop
    | cons n rest =>
      dsimp only
      split
      · exact .stop hstop
      · cases hfind : s.dir.files.find n with
        | none => exact .stop hstop
        | some f =>
          dsimp only
          cases hvalid : validChatArchiveEnvelope C.codec C.encoding f.body with
          | error e => exact .stop hstop
          | ok r => exact .read hx (Table.find_eq_some_iff.mp hfind) hvalid
  | append n body r rest =>
    cases ok with
    | false => exact .stop (by rw [hx]; rfl)
    | true => exact .append hx
  | remove n body rest =>
    rw [admits, hx] at hadmits
    have hsaving : s.saving = none := (of_decide_eq_true hadmits).1
    cases ok with
    | false => exact .unremoved (by simp [hx]) (Or.inr hsaving)
    | true => exact .remove hx hsaving
  | syncDir n body rest =>
    cases ok with
    | false => exact .unremoved (by simp [hx]) (Or.inl (by rw [hx]; rfl))
    | true => exact .removed hx

theorem step_effect (hadmits : admits s i) : Effect C s i (step C s i).1 := by
  cases i with
  | start ok => exact start_effect ok
  | boot ok => exact boot_effect ok
  | save spoolID m receivedAt => exact save_effect hadmits
  | saveStep ok left => exact saveStep_effect hadmits
  | drain ok => exact drain_effect hadmits
  | drainStep ok => exact drainStep_effect hadmits
  | close | crash => exact .crash
  | tear n left => exact .tear hadmits.1 hadmits.2
  | vanish n => exact .vanish hadmits
  | reappear n => exact .reappear rfl hadmits

end Effects

/-! ## Every step keeps them there -/

section Steps

variable {C : Config β} {s s' : State} {d d' : CrashDir String Text} {i : Input} {point : Point}
  {job : Job}

theorem Queued.mono {queue : List String} (h : Queued d queue)
    (hkeep : ∀ n ∈ queue, ∀ f, d.files.Has n f → ∃ f', d'.files.Has n f') : Queued d' queue := by
  refine ⟨h.1, ?_⟩
  intro n hn
  obtain ⟨f, hf⟩ := h.2 n hn
  exact hkeep n hn f hf

theorem Taken.mono {appended appended' : List RawChat} {body : Text} (h : Taken C appended body)
    (hsub : appended ⊆ appended') : Taken C appended' body := by
  obtain ⟨r, hr, hmem⟩ := h
  exact ⟨r, hr, hsub hmem⟩

theorem DrainInv.mono {appended : List RawChat} {x : Draining} (h : DrainInv C d appended x)
    (hkeep : ∀ n f, d.files.Has n f → d'.files.Has n f) : DrainInv C d' appended x := by
  have hqueued : ∀ queue, Queued d queue → Queued d' queue :=
    fun queue hqueue => hqueue.mono fun n _ f hf => ⟨f, hkeep n f hf⟩
  cases x with
  | idle => trivial
  | next queue => exact hqueued queue h
  | append n body r rest =>
    obtain ⟨hqueue, ⟨y, hy⟩, hvalid⟩ := h
    exact ⟨hqueued _ hqueue, ⟨y, hkeep n _ hy⟩, hvalid⟩
  | remove n body rest =>
    obtain ⟨hqueue, ⟨y, hy⟩, htaken⟩ := h
    exact ⟨hqueued _ hqueue, ⟨y, hkeep n _ hy⟩, htaken⟩
  | syncDir n body rest => exact hqueued rest h

/-- Nothing is being saved. -/
theorem FilesInv.unsaved (hapart : s.dir.Apart) (hsaving : s.saving = none)
    (hidle : s.phase = .up ∨ s.draining = .idle)
    (hpending : PendingInv s.dir s.broken none s.phase)
    (hdraining : DrainInv C s.dir s.appended s.draining) : FilesInv C s where
  apart := hapart
  idle hphase := ⟨hsaving, hidle.resolve_left hphase⟩
  pending := by
    rw [hsaving]
    exact hpending
  saving point job heq := by
    rw [hsaving] at heq
    contradiction
  draining := hdraining

theorem FilesInv.up_of_saving (h : FilesInv C s) {x : Point × Job} (hx : s.saving = some x) :
    s.phase = .up := by
  by_contra hphase
  rw [(h.idle hphase).1] at hx
  contradiction

theorem FilesInv.up_of_draining (h : FilesInv C s) (hx : s.draining ≠ .idle) : s.phase = .up := by
  by_contra hphase
  exact hx (h.idle hphase).2

theorem FilesInv.draft_of_saving (h : FilesInv C s)
    (hsaving : s.saving = some (point, job)) {n : String} {f : File Text}
    (hf : s.dir.drafts.Has n f) : n = job.name ∧ point.drafts = true := by
  have hpending := h.pending
  rw [h.up_of_saving hsaving] at hpending
  obtain ⟨point', job', heq, hn, hdrafts⟩ :=
    hpending (h.saving point job hsaving).broken n f hf
  obtain ⟨rfl, rfl⟩ := Prod.mk.inj (Option.some.inj (hsaving.symm.trans heq))
  exact ⟨hn, hdrafts⟩

/-- `Save` has no draft. -/
theorem FilesInv.no_draft (h : FilesInv C s) (hsaving : s.saving = some (point, job))
    (hpoint : point.drafts = false) (n : String) (f : File Text) : ¬s.dir.drafts.Has n f := by
  intro hf
  have hdrafts := (h.draft_of_saving hsaving hf).2
  rw [hpoint] at hdrafts
  contradiction

/-- `Save` goes on with another directory. -/
theorem FilesInv.goto (h : FilesInv C s) {point' : Point}
    (hsaving : s.saving = some (point, job)) (hapart : d.Apart)
    (hkeep : ∀ n f, s.dir.files.Has n f → d.files.Has n f)
    (hdrafts : ∀ n f, d.drafts.Has n f → n = job.name ∧ point'.drafts = true)
    (hat : At d job point') : FilesInv C { s with dir := d, saving := some (point', job) } where
  apart := hapart
  idle hphase := absurd (h.up_of_saving hsaving) hphase
  pending := by
    rw [h.up_of_saving hsaving]
    intro _ n f hf
    exact ⟨point', job, rfl, hdrafts n f hf⟩
  saving p j heq := by
    obtain ⟨rfl, rfl⟩ := Prod.mk.inj (Option.some.inj heq)
    obtain ⟨hbroken, hunlocked, hrecord, -⟩ := h.saving point job hsaving
    exact ⟨hbroken, hunlocked, hrecord, hat⟩
  draining := h.draining.mono hkeep

/-- `Save` returns. -/
theorem FilesInv.leave (h : FilesInv C s) {x : Point × Job} (hsaving : s.saving = some x)
    (hapart : d.Apart) (hkeep : ∀ n f, s.dir.files.Has n f → d.files.Has n f) {broken : Bool}
    {files usedBytes : Int} {accepted : List Job}
    (hnone : broken = false → ∀ n f, ¬d.drafts.Has n f) :
    FilesInv C { s with dir := d, files, usedBytes, broken, saving := none, accepted } := by
  have hup := h.up_of_saving hsaving
  refine .unsaved hapart rfl (.inl hup) ?_ (h.draining.mono hkeep)
  simp only [hup]
  exact fun hbroken n f hf => absurd hf (hnone hbroken n f)

/-- `Drain` goes on in the same directory. -/
theorem FilesInv.setDraining (h : FilesInv C s) (hup : s.phase = .up) {x : Draining}
    {appended : List RawChat} (hlocked : x.locked = false) (hx : DrainInv C s.dir appended x) :
    FilesInv C { s with draining := x, appended } where
  apart := h.apart
  idle hphase := absurd hup hphase
  pending := h.pending
  saving point job heq := by
    obtain ⟨hbroken, -, hrecord, hat⟩ := h.saving point job heq
    exact ⟨hbroken, hlocked, hrecord, hat⟩
  draining := hx

/-- `Drain` returns. -/
theorem FilesInv.stop (h : FilesInv C s) : FilesInv C { s with draining := .idle } where
  apart := h.apart
  idle hphase := ⟨(h.idle hphase).1, rfl⟩
  pending := h.pending
  saving point job heq := by
    obtain ⟨hbroken, -, hrecord, hat⟩ := h.saving point job heq
    exact ⟨hbroken, rfl, hrecord, hat⟩
  draining := trivial

theorem FilesInv.not_saving (h : FilesInv C s) (hlocked : s.draining.locked = true) :
    s.saving = none := by
  cases hsome : s.saving with
  | none => rfl
  | some x =>
    have hunlocked := (h.saving x.1 x.2 hsome).unlocked
    rw [hlocked] at hunlocked
    contradiction

theorem mem_names {n : String} : n ∈ names d ↔ ∃ f, d.files.Has n f := by
  rw [names, mem_orderBy, Table.mem_keys]

theorem queued_names (d : CrashDir String Text) : Queued d (names d) :=
  ⟨(orderBy_perm _ _).nodup_iff.mpr d.files.nodup_keys, fun _ hn => mem_names.mp hn⟩

/-- Without a process everything but the names is free. -/
theorem FilesInv.down (h : FilesInv C s) (hphase : s.phase = .down) (hapart : d.Apart) :
    FilesInv C { s with dir := d } := by
  obtain ⟨hsaving, hidle⟩ := h.idle (by simp [hphase])
  refine .unsaved hapart hsaving (.inr hidle) ?_ ?_
  · simp only [hphase]
    trivial
  · simp only [hidle]
    trivial

/-- `NewChatArchiveSpool` goes on. -/
theorem FilesInv.setPhase (h : FilesInv C s) (hphase : s.phase ≠ .up) (hapart : d.Apart)
    {quarantine : Table String Text} {next : Phase}
    (hnext : PendingInv d s.broken none next) :
    FilesInv C { s with dir := d, quarantine, phase := next } := by
  obtain ⟨hsaving, hidle⟩ := h.idle hphase
  refine .unsaved hapart hsaving (.inr hidle) hnext ?_
  simp only [hidle]
  trivial

/-- `recoverPending` has dealt with one draft. -/
theorem FilesInv.rest (h : FilesInv C s) {n : String} {queue : List String}
    (hphase : s.phase = .recover (n :: queue)) (n' : String) (f : File Text)
    (hf : (s.dir.drafts.delete fun k _ => k = n).Has n' f) : n' ∈ queue := by
  have hpending := h.pending
  rw [hphase] at hpending
  obtain ⟨hf, hne⟩ := Table.has_delete.mp hf
  rcases List.mem_cons.mp (hpending n' f hf) with rfl | hmem
  · simp at hne
  · exact hmem

theorem FilesInv.step (h : FilesInv C s) (he : Effect C s i s') : FilesInv C s' := by
  have hpending := h.pending
  have hdraining := h.draining
  have hkeep : ∀ n f, s.dir.files.Has n f → s.dir.files.Has n f := fun _ _ hf => hf
  cases he with
  | same => exact h
  | abort hphase => exact h.setPhase hphase h.apart trivial
  | start hphase =>
    refine h.setPhase (by simp [hphase]) h.apart ?_
    intro n f hf
    rw [pendingNames, mem_orderBy, Table.mem_keys]
    exact ⟨f, hf⟩
  | recovered hphase =>
    rw [hphase] at hpending
    exact h.setPhase (by simp [hphase]) h.apart fun n f hf =>
      absurd (hpending n f hf) List.not_mem_nil
  | rename hphase hf =>
    refine h.setPhase (by simp [hphase]) (h.apart.rename _) ?_
    rw [CrashDir.rename_of_has hf]
    exact h.rest hphase
  | quarantine hphase => exact h.setPhase (by simp [hphase]) h.apart.vanish (h.rest hphase)
  | settle hphase =>
    rw [hphase] at hpending
    exact h.setPhase (by simp [hphase]) h.apart.syncDir hpending
  | opened hphase =>
    rw [hphase] at hpending
    obtain ⟨hsaving, hidle⟩ := h.idle (by simp [hphase])
    refine .unsaved h.apart hsaving (.inl rfl) (fun _ n f hf => absurd hf (hpending n f)) ?_
    simp only [hidle]
    trivial
  | begin hup hfree hbroken hwrites _ _ hat =>
    obtain ⟨hsaving, hlocked⟩ := of_decide_eq_true hfree
    rw [hup] at hpending
    refine {
      apart := h.apart
      idle := fun hphase => absurd hup hphase
      pending := ?_
      saving := ?_
      draining := hdraining }
    · rw [hup]
      intro _ n f hf
      obtain ⟨point, job', hsome, -⟩ := hpending hbroken n f hf
      rw [hsaving] at hsome
      contradiction
    · intro point job' hsome
      obtain ⟨rfl, rfl⟩ := Prod.mk.inj (Option.some.inj hsome)
      exact ⟨hbroken, hlocked, hwrites, hat⟩
  | create hsaving =>
    have hat := (h.saving _ _ hsaving).at_
    refine h.goto hsaving (h.apart.create hat.1 hat.2) hkeep ?_
      (Table.has_upsert.mpr (Or.inl ⟨rfl, rfl⟩))
    intro n f hf
    rcases Table.has_upsert.mp hf with ⟨rfl, -⟩ | ⟨-, hf⟩
    · exact ⟨rfl, rfl⟩
    · exact absurd hf (h.no_draft hsaving rfl n f)
  | write hsaving | sync hsaving =>
    have hat := (h.saving _ _ hsaving).at_
    refine h.goto hsaving (by first | exact h.apart.write | exact h.apart.sync) hkeep ?_
      (Table.has_modify.mpr (Or.inl ⟨rfl, _, hat, rfl⟩))
    intro n f hf
    obtain ⟨f0, hf0⟩ := CrashDir.has_of_has_modify hf
    exact ⟨(h.draft_of_saving hsaving hf0).1, rfl⟩
  | close hsaving =>
    exact h.goto hsaving h.apart hkeep (fun n f hf => ⟨(h.draft_of_saving hsaving hf).1, rfl⟩)
      (h.saving _ _ hsaving).at_
  | renamed hsaving =>
    have hat := (h.saving _ _ hsaving).at_
    refine h.goto hsaving (h.apart.rename _)
      (fun n f hf => CrashDir.has_rename_of_has h.apart hf) ?_ (CrashDir.has_rename hat)
    intro n f hf
    rw [CrashDir.rename_of_has hat] at hf
    obtain ⟨hf, hne⟩ := Table.has_delete.mp hf
    exact absurd (h.draft_of_saving hsaving hf).1 (by simpa using hne)
  | exists_ hsaving => exact h.leave hsaving h.apart hkeep fun _ => h.no_draft hsaving rfl
  | saved hsaving => exact h.leave hsaving h.apart.syncDir hkeep fun _ => h.no_draft hsaving rfl
  | torn hsaving => exact h.leave hsaving h.apart.write hkeep nofun
  | failed hsaving => exact h.leave hsaving h.apart hkeep nofun
  | stop => exact h.stop
  | list hup => exact h.setDraining hup rfl (queued_names s.dir)
  | read hx hf hvalid =>
    rw [hx] at hdraining
    exact h.setDraining (h.up_of_draining (by simp [hx])) rfl ⟨hdraining, ⟨_, hf⟩, hvalid⟩
  | @append n body r rest hx =>
    rw [hx] at hdraining
    obtain ⟨hqueue, hfile, hvalid⟩ := hdraining
    exact h.setDraining (h.up_of_draining (by simp [hx])) rfl
      ⟨hqueue, hfile, r, hvalid, by simp⟩
  | @remove n body rest hx hsaving =>
    have hup := h.up_of_draining (by simp [hx])
    rw [hx] at hdraining
    obtain ⟨hqueue, ⟨y, hy⟩, -⟩ := hdraining
    obtain ⟨hn, hrest⟩ := List.nodup_cons.mp hqueue.1
    rw [hsaving] at hpending
    refine .unsaved (h.apart.remove n) hsaving (.inl hup) ?_ ⟨hrest, ?_⟩
    · rw [CrashDir.remove_of_has hy]
      exact hpending
    · intro m hm
      obtain ⟨f, hf⟩ := hqueue.2 m (List.mem_cons_of_mem n hm)
      exact ⟨f, CrashDir.has_remove_of_ne hf fun heq => hn (heq ▸ hm)⟩
  | removed hx =>
    have hsaving := h.not_saving (by rw [hx]; rfl)
    have hup := h.up_of_draining (by simp [hx])
    rw [hx] at hdraining
    rw [hsaving] at hpending
    exact .unsaved h.apart.syncDir hsaving (.inl hup) hpending hdraining
  | unremoved hx hfree =>
    have hsaving : s.saving = none := hfree.elim h.not_saving id
    have hup := h.up_of_draining hx
    refine .unsaved h.apart hsaving (.inl hup) ?_ trivial
    simp only [hup]
    exact nofun
  | crash => exact .unsaved h.apart rfl (.inr rfl) trivial trivial
  | tear hdown => exact h.down hdown h.apart.tear
  | vanish hdown => exact h.down hdown h.apart.vanish
  | @reappear n _ hdown => exact h.down hdown (h.apart.reappear n)

theorem FilesInv.init (h : d.Apart) : FilesInv C (State.init d) :=
  .unsaved h rfl (.inr rfl) trivial trivial

end Steps

end RogiCollector.Ports.ChatArchiveSpool
