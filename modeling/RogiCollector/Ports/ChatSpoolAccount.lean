import RogiCollector.Ports.ChatSpoolFiles
import RogiCollector.Ports.ChatContent

/-!
# What the chat spool keeps

The counters agree with the directory whenever nobody holds the mutex and no step
has failed, a file leaves the directory only when the journal has its record, and
after any crash the next process finds its way.
-/

namespace RogiCollector.Ports.ChatArchiveSpool

open Verified
open Verified.Json
open Journal (Time)
open Soop (ChatMessage)
open ChatSpool (RawChat saveRecord validChatArchiveEnvelope)

variable {β : Type}

/-! ## The counters -/

/-- What `Drain` has removed without counting it. -/
def Draining.uncounted (w : Text → Nat) : Draining → Nat
  | .syncDir _ body _ => w body
  | _ => 0

/-- What `Save` has renamed without counting it. -/
def uncounted (w : Text → Nat) : Option (Point × Job) → Nat
  | some (.syncDir, job) => w job.body
  | _ => 0

/-- A counter of a running spool is the sum over the files, but for what is being
added or removed. -/
def Counts (s : State) (w : Text → Nat) (c : Int) : Prop :=
  s.phase = .up → s.broken = false →
    c + uncounted w s.saving = s.dir.files.weigh (fun f => w f.body) + s.draining.uncounted w

section Counters

variable {C : Config β} {s s' : State} {i : Input} {w : Text → Nat} {c : Int}

theorem counts_of_broken {s : State} (h : s.broken = true) : Counts s w c := by
  intro _ hbroken
  rw [h] at hbroken
  contradiction

theorem counts_of_down {s : State} (h : s.phase ≠ .up) : Counts s w c := fun hup => absurd hup h

/-- Steps that neither change the files nor the counter. -/
theorem Counts.congr (hc : Counts s w c) (hphase : s'.phase = s.phase)
    (hbroken : s'.broken = s.broken) (hfiles : s'.dir.files = s.dir.files)
    (hsaving : uncounted w s'.saving = uncounted w s.saving)
    (hdraining : s'.draining.uncounted w = s.draining.uncounted w) : Counts s' w c := by
  intro hup hnot
  rw [hfiles, hsaving, hdraining]
  exact hc (hphase ▸ hup) (hbroken ▸ hnot)

theorem Counts.renamed (hc : Counts s w c) (h : FilesInv C s) {job : Job}
    (hsaving : s.saving = some (.rename, job)) :
    Counts { s with dir := s.dir.rename job.name, saving := some (.syncDir, job) } w c := by
  intro hup hbroken
  have hsum := hc hup hbroken
  have hrename := CrashDir.weigh_rename (w := w) h.apart (h.saving _ _ hsaving).at_
  rw [hsaving] at hsum
  simp only [hrename, uncounted] at hsum ⊢
  omega

theorem Counts.saved (hc : Counts s w c) {job : Job} (hsaving : s.saving = some (.syncDir, job))
    {files usedBytes : Int} {accepted : List Job} :
    Counts { s with dir := s.dir.syncDir, files, usedBytes, saving := none, accepted } w
      (c + w job.body) := by
  intro hup hbroken
  have hsum := hc hup hbroken
  rw [hsaving] at hsum
  simp only [uncounted, CrashDir.syncDir] at hsum ⊢
  omega

theorem Counts.remove (hc : Counts s w c) (h : FilesInv C s) {n : String} {body : Text}
    {rest : List String} (hx : s.draining = .remove n body rest) :
    Counts { s with dir := s.dir.remove n, draining := .syncDir n body rest } w c := by
  have hdraining := h.draining
  rw [hx] at hdraining
  obtain ⟨-, ⟨y, hy⟩, -⟩ := hdraining
  intro hup hbroken
  have hsum := hc hup hbroken
  have hremove := CrashDir.weigh_remove (w := w) hy
  rw [hx] at hsum
  simp only [Draining.uncounted] at hsum hremove ⊢
  omega

theorem Counts.removed (hc : Counts s w c) {n : String} {body : Text} {rest : List String}
    (hx : s.draining = .syncDir n body rest) {files usedBytes : Int} :
    Counts { s with dir := s.dir.syncDir, files, usedBytes, draining := .next rest } w
      (c - w body) := by
  intro hup hbroken
  have hsum := hc hup hbroken
  rw [hx] at hsum
  simp only [Draining.uncounted, CrashDir.syncDir] at hsum ⊢
  omega

theorem uncounted_of_unlocked {x : Draining} (h : x.locked = false) : x.uncounted w = 0 := by
  cases x with
  | syncDir n body rest => contradiction
  | idle | next | append | remove => rfl

/-- Both counters. -/
structure Accounted (s : State) : Prop where
  files : Counts s (fun _ => 1) s.files
  bytes : Counts s size s.usedBytes

theorem accounted_of_down (h : s.phase ≠ .up) : Accounted s := ⟨counts_of_down h, counts_of_down h⟩

/-- Steps that leave the files and the counters. -/
theorem Accounted.congr (hc : Accounted s) (hphase : s'.phase = s.phase)
    (hbroken : s'.broken = s.broken) (hdir : s'.dir.files = s.dir.files)
    (hfiles : s'.files = s.files) (hbytes : s'.usedBytes = s.usedBytes)
    (hsaving : ∀ w, uncounted w s'.saving = uncounted w s.saving)
    (hdraining : ∀ w, s'.draining.uncounted w = s.draining.uncounted w) : Accounted s' := by
  constructor
  · rw [hfiles]
    exact hc.files.congr hphase hbroken hdir (hsaving _) (hdraining _)
  · rw [hbytes]
    exact hc.bytes.congr hphase hbroken hdir (hsaving _) (hdraining _)

theorem Accounted.step (hc : Accounted s) (h : FilesInv C s) (he : Effect C s i s') :
    Accounted s' := by
  cases he with
  | same => exact hc
  | abort | start | recovered | rename | quarantine | settle | crash =>
    exact accounted_of_down (by simp [State.crash])
  | opened hphase =>
    obtain ⟨hsaving, hdraining⟩ := h.idle (by simp [hphase])
    constructor
    · intro _ _
      simp [uncounted, Draining.uncounted, hsaving, hdraining, fileCount]
    · intro _ _
      simp [uncounted, Draining.uncounted, hsaving, hdraining, fileBytes]
  | begin _ hfree =>
    have hsaving : s.saving = none := (of_decide_eq_true hfree).1
    exact hc.congr rfl rfl rfl rfl rfl (fun w => by rw [hsaving]; rfl) fun _ => rfl
  | create hsaving | exists_ hsaving | write hsaving | sync hsaving | close hsaving =>
    exact hc.congr rfl rfl rfl rfl rfl (fun w => by rw [hsaving]; rfl) fun _ => rfl
  | renamed hsaving => exact ⟨hc.files.renamed h hsaving, hc.bytes.renamed h hsaving⟩
  | saved hsaving => exact ⟨hc.files.saved hsaving, hc.bytes.saved hsaving⟩
  | torn | failed | unremoved => exact ⟨counts_of_broken rfl, counts_of_broken rfl⟩
  | stop hx =>
    exact hc.congr rfl rfl rfl rfl rfl (fun _ => rfl) fun w => (uncounted_of_unlocked hx).symm
  | list _ hx | read hx | append hx =>
    exact hc.congr rfl rfl rfl rfl rfl (fun _ => rfl) fun w => by rw [hx]; rfl
  | remove hx => exact ⟨hc.files.remove h hx, hc.bytes.remove h hx⟩
  | removed hx => exact ⟨hc.files.removed hx, hc.bytes.removed hx⟩
  | tear hdown | vanish hdown | reappear _ hdown => exact accounted_of_down (by simp [hdown])

end Counters

/-! ## The limits -/

/-- The counters are within the limits, with what `Save` is about to add. -/
def Within (C : Config β) (s : State) : Prop :=
  s.files ≤ maxFiles ∧ s.usedBytes ≤ C.maxBytes ∧
    ∀ point job, s.saving = some (point, job) →
      s.files + 1 ≤ maxFiles ∧ s.usedBytes + size job.body ≤ C.maxBytes

/-- If the limits held when the spool was opened, they hold. -/
def HeldInv (C : Config β) (s : State) : Prop := s.phase = .up → s.held = true → Within C s

section Limits

variable {C : Config β} {s s' : State} {i : Input}

theorem heldInv_of_down (h : s.phase ≠ .up) : HeldInv C s := fun hup => absurd hup h

/-- `Save` goes on with the job it has. -/
theorem HeldInv.goto (h : HeldInv C s) {point point' : Point} {job : Job}
    (hsaving : s.saving = some (point, job)) {dir : CrashDir String Text} :
    HeldInv C { s with dir, saving := some (point', job) } := by
  intro hup hheld
  obtain ⟨hfiles, hbytes, hroom⟩ := h hup hheld
  refine ⟨hfiles, hbytes, ?_⟩
  intro p job' heq
  obtain ⟨-, rfl⟩ := Prod.mk.inj (Option.some.inj heq)
  exact hroom point job hsaving

theorem HeldInv.leave (h : HeldInv C s) {dir : CrashDir String Text} {broken : Bool} :
    HeldInv C { s with dir, broken, saving := none } := by
  intro hup hheld
  obtain ⟨hfiles, hbytes, -⟩ := h hup hheld
  exact ⟨hfiles, hbytes, nofun⟩

theorem HeldInv.step (h : HeldInv C s) (hinv : FilesInv C s) (he : Effect C s i s') :
    HeldInv C s' := by
  cases he with
  | same | stop | list | read | append | remove | unremoved | tear | vanish | reappear => exact h
  | abort | start | recovered | rename | quarantine | settle | crash =>
    exact heldInv_of_down (by simp [State.crash])
  | opened hphase =>
    intro _ hheld
    obtain ⟨hcount, hbytes⟩ := of_decide_eq_true hheld
    refine ⟨Int.ofNat_le.mpr hcount, Int.ofNat_le.mpr hbytes, ?_⟩
    intro point job heq
    rw [(hinv.idle (by simp [hphase])).1] at heq
    contradiction
  | begin _ _ _ _ hroom hcount =>
    intro hup hheld
    obtain ⟨hfiles, hbytes, -⟩ := h hup hheld
    refine ⟨hfiles, hbytes, ?_⟩
    intro point job' hsome
    obtain ⟨-, rfl⟩ := Prod.mk.inj (Option.some.inj hsome)
    exact ⟨hcount, hroom⟩
  | create hsaving | write hsaving | sync hsaving | close hsaving | renamed hsaving =>
    exact h.goto hsaving
  | exists_ | torn | failed => exact h.leave
  | saved hsaving =>
    intro hup hheld
    obtain ⟨-, -, hroom⟩ := h hup hheld
    obtain ⟨hone, hsize⟩ := hroom _ _ hsaving
    exact ⟨hone, hsize, nofun⟩
  | removed hx =>
    intro hup hheld
    obtain ⟨hfiles, hbytes, hroom⟩ := h hup hheld
    refine ⟨by dsimp only; omega, by dsimp only; omega, ?_⟩
    intro point job heq
    obtain ⟨hone, hsize⟩ := hroom point job heq
    dsimp only
    omega

end Limits

/-! ## Files and records stay -/

/-- Every accepted record is in its file, or in the journal. -/
def Kept (C : Config β) (s : State) : Prop :=
  ∀ job ∈ s.accepted, Writes C job ∧
    (s.dir.files.Has job.name ⟨job.body, true⟩ ∨ Taken C s.appended job.body)

section Kept

variable {C : Config β} {s s' : State} {i : Input}

/-- The journal forgets nothing. -/
theorem appended_step (he : Effect C s i s') : s.appended ⊆ s'.appended := by
  cases he with
  | append => exact List.subset_append_left _ _
  | _ => exact List.Subset.refl _

/-- A file stays, with its content if it was synced, unless the journal has its
record. -/
theorem files_step (h : FilesInv C s) (he : Effect C s i s') {n : String} {f : File Text}
    (hf : s.dir.files.Has n f) :
    (∃ f', s'.dir.files.Has n f' ∧ (f.synced = true → f' = f)) ∨ Taken C s.appended f.body := by
  have hsame : ∀ {d : CrashDir String Text}, d.files.Has n f →
      (∃ f', d.files.Has n f' ∧ (f.synced = true → f' = f)) ∨ Taken C s.appended f.body :=
    fun hd => Or.inl ⟨f, hd, fun _ => rfl⟩
  cases he with
  | rename | renamed => exact hsame (CrashDir.has_rename_of_has h.apart hf)
  | @remove n' _ _ hx =>
    have hdraining := h.draining
    rw [hx] at hdraining
    obtain ⟨-, ⟨y, hy⟩, htaken⟩ := hdraining
    by_cases hn : n = n'
    · subst hn
      obtain rfl := hf.unique hy
      exact Or.inr htaken
    · exact hsame (CrashDir.has_remove_of_ne hf hn)
  | tear => exact Or.inl (CrashDir.has_tear_of_has hf)
  | reappear => exact hsame (CrashDir.has_reappear_of_has h.apart hf)
  | _ => exact hsame hf

/-- A record is accepted when its file is there. -/
theorem accepted_step (h : FilesInv C s) (he : Effect C s i s') {job : Job}
    (hjob : job ∈ s'.accepted) :
    job ∈ s.accepted ∨ Writes C job ∧ s'.dir.files.Has job.name ⟨job.body, true⟩ := by
  cases he with
  | saved hsaving =>
    have hinv := h.saving _ _ hsaving
    rcases List.mem_append.mp hjob with hjob | hjob
    · exact Or.inl hjob
    · rw [List.mem_singleton.mp hjob]
      exact Or.inr ⟨hinv.record, hinv.at_⟩
  | _ => exact Or.inl hjob

theorem Kept.step (hkept : Kept C s) (h : FilesInv C s) (he : Effect C s i s') : Kept C s' := by
  intro job hjob
  rcases accepted_step h he hjob with hold | ⟨hrecord, hfile⟩
  · obtain ⟨hrecord, hfile | htaken⟩ := hkept job hold
    · refine ⟨hrecord, ?_⟩
      rcases files_step h he hfile with ⟨f', hf', hsynced⟩ | htaken
      · exact Or.inl (hsynced rfl ▸ hf')
      · exact Or.inr (htaken.mono (appended_step he))
    · exact ⟨hrecord, Or.inr (htaken.mono (appended_step he))⟩
  · exact ⟨hrecord, Or.inl hfile⟩

/-- What the journal gets is the text of the record. -/
theorem Writes.text_mem {job : Job} (h : Writes C job) {appended : List RawChat}
    (htaken : Taken C appended job.body) : job.record.text ∈ appended := by
  obtain ⟨r, hr, hmem⟩ := htaken
  rw [← ChatSpool.read_ok h.1 h.2 hr]
  exact hmem

end Kept

/-! ## Across restarts -/

/-- The files and drafts are within a limit, with what `Save` is about to write. -/
structure LoadInv (w : Text → Nat) (limit : Nat) (s : State) : Prop where
  load : s.dir.load w ≤ limit
  create : ∀ job, s.saving = some (.create, job) → s.dir.load w + w job.body ≤ limit
  write : ∀ job, s.saving = some (.write, job) → s.dir.load w + w job.body ≤ limit + w []

section Load

variable {C : Config β} {s s' : State} {i : Input} {w : Text → Nat} {limit : Nat}
  {d : CrashDir String Text}

/-- Nothing is about to be written. -/
theorem loadInv_of_load {s : State} (h : s.dir.load w ≤ limit)
    (hcreate : ∀ job, s.saving ≠ some (.create, job))
    (hwrite : ∀ job, s.saving ≠ some (.write, job)) : LoadInv w limit s where
  load := h
  create job hsaving := absurd hsaving (hcreate job)
  write job hsaving := absurd hsaving (hwrite job)

theorem loadInv_of_idle {s : State} (h : s.dir.load w ≤ limit) (hsaving : s.saving = none) :
    LoadInv w limit s :=
  loadInv_of_load h (fun job => by rw [hsaving]; simp) fun job => by rw [hsaving]; simp

/-- A `Save` begins when the counters have room. -/
theorem LoadInv.save (hl : LoadInv w limit s) (h : FilesInv C s) {c : Int} (hc : Counts s w c)
    (hup : s.phase = .up) (hbroken : s.broken = false) (hfree : s.mutexFree = true) {job : Job}
    (hroom : c + w job.body ≤ limit) :
    LoadInv w limit { s with saving := some (.create, job) } := by
  obtain ⟨hsaving, hlocked⟩ := of_decide_eq_true hfree
  have hdrafts : s.dir.drafts.weigh (fun f => w f.body) = 0 := by
    refine Table.weigh_eq_zero fun n f hf => ?_
    have hpending := h.pending
    rw [hup] at hpending
    obtain ⟨point, job', hsome, -⟩ := hpending hbroken n f hf
    rw [hsaving] at hsome
    contradiction
  have hdraining : s.draining.uncounted w = 0 := uncounted_of_unlocked hlocked
  have hsum := hc hup hbroken
  rw [hsaving, hdraining] at hsum
  have hload : (s.dir.load w : Int) = c := by
    rw [CrashDir.load, hdrafts]
    simp only [uncounted] at hsum
    omega
  refine ⟨hl.load, ?_, ?_⟩
  · intro job' heq
    obtain ⟨-, rfl⟩ := Prod.mk.inj (Option.some.inj heq)
    dsimp only
    omega
  · intro job' heq
    simp at heq

/-- What is written of a job does not weigh more than the job. -/
theorem LoadInv.torn (hl : LoadInv w limit s) (h : FilesInv C s)
    (hw : ∀ a b, size a ≤ size b → w a ≤ w b) {point : Point} {job : Job} {left : Text}
    (hsaving : s.saving = some (point, job)) (hpoint : point = .write ∨ point = .sync)
    (hleft : size left ≤ size job.body) : (s.dir.write job.name left).load w ≤ limit := by
  have hload := hl.load
  have hroom := hw left job.body hleft
  rcases hpoint with rfl | rfl
  · have hjob := hl.write job hsaving
    have hwrite := CrashDir.load_write (b := left) (w := w) (h.saving _ _ hsaving).at_
    dsimp only at hwrite
    omega
  · have hwrite := CrashDir.load_write (b := left) (w := w) (h.saving _ _ hsaving).at_
    dsimp only at hwrite
    omega

/-- Every step but a removed file that comes back keeps a limit; `hroom` is what
`Save` has checked. -/
theorem LoadInv.step (hl : LoadInv w limit s) (h : FilesInv C s)
    (hw : ∀ a b, size a ≤ size b → w a ≤ w b) {c : Int} (hc : Counts s w c)
    (he : Effect C s i s') (hi : ∀ n, i ≠ .reappear n)
    (hroom : ∀ job : Job, s.usedBytes + size job.body ≤ C.maxBytes → s.files < maxFiles →
      c + w job.body ≤ limit) : LoadInv w limit s' := by
  have hload := hl.load
  have hidle : s.phase ≠ .up → s.saving = none := fun hne => (h.idle hne).1
  cases he with
  | same | abort | start | recovered | settle | opened | stop | list | read | append | removed
  | unremoved => exact ⟨hl.load, hl.create, hl.write⟩
  | rename hphase hf =>
    exact loadInv_of_idle ((CrashDir.load_rename h.apart hf).le.trans hload)
      (hidle (by simp [hphase]))
  | quarantine hphase =>
    exact loadInv_of_idle (CrashDir.load_vanish_le.trans hload) (hidle (by simp [hphase]))
  | begin hup hfree hbroken _ hbytes hfiles =>
    exact hl.save h hc hup hbroken hfree (hroom _ hbytes hfiles)
  | @create job hsaving hfree =>
    have hjob := hl.create job hsaving
    have hcreate := CrashDir.load_create (b := []) (w := w) hfree
    have hempty : w [] ≤ w job.body := hw [] job.body (Nat.zero_le _)
    refine ⟨by dsimp only; omega, nofun, ?_⟩
    intro job' heq
    obtain ⟨-, rfl⟩ := Prod.mk.inj (Option.some.inj heq)
    dsimp only
    omega
  | @write job hsaving =>
    have hjob := hl.write job hsaving
    have hwrite := CrashDir.load_write (b := job.body) (w := w) (h.saving _ _ hsaving).at_
    refine loadInv_of_load ?_ nofun nofun
    dsimp only at hwrite ⊢
    omega
  | sync hsaving =>
    have hsync := CrashDir.load_sync (w := w) (h.saving _ _ hsaving).at_
    exact loadInv_of_load (hsync.le.trans hload) nofun nofun
  | close => exact loadInv_of_load hload nofun nofun
  | renamed hsaving =>
    have hrename := CrashDir.load_rename (w := w) h.apart (h.saving _ _ hsaving).at_
    exact loadInv_of_load (hrename.le.trans hload) nofun nofun
  | exists_ | saved | failed | crash => exact loadInv_of_idle hload rfl
  | torn hsaving hpoint hleft => exact loadInv_of_idle (hl.torn h hw hsaving hpoint hleft) rfl
  | remove hx hsaving =>
    have hdraining := h.draining
    rw [hx] at hdraining
    obtain ⟨-, ⟨y, hy⟩, -⟩ := hdraining
    exact loadInv_of_idle ((CrashDir.load_remove_le hy).trans hload) hsaving
  | tear hdown hleft =>
    have htear := CrashDir.load_tear_le (w := w) fun f hf hsynced =>
      hw _ f.body (hleft f hf hsynced)
    exact loadInv_of_idle (htear.trans hload) (hidle (by simp [hdown]))
  | vanish hdown =>
    exact loadInv_of_idle (CrashDir.load_vanish_le.trans hload) (hidle (by simp [hdown]))
  | reappear heq => exact absurd heq (hi _)

/-- With the files within the limits, they hold when the spool is opened. -/
theorem held_of_load (hfiles : s.dir.load (fun _ => 1) ≤ maxFiles)
    (hbytes : s.dir.load size ≤ C.maxBytes) :
    fileCount s.dir ≤ maxFiles ∧ fileBytes s.dir ≤ C.maxBytes :=
  ⟨(Nat.le_add_right _ _).trans hfiles, (Nat.le_add_right _ _).trans hbytes⟩

/-- `held` is set when the spool is opened. -/
theorem held_step (hheld : s.phase = .up → s.held = true)
    (hfiles : s.dir.load (fun _ => 1) ≤ maxFiles) (hbytes : s.dir.load size ≤ C.maxBytes)
    (he : Effect C s i s') (hup : s'.phase = .up) : s'.held = true := by
  cases he with
  | opened => exact decide_eq_true (held_of_load hfiles hbytes)
  | abort | start | recovered | rename | quarantine | settle | crash => contradiction
  | _ => exact hheld hup

end Load

/-! ## Starting again -/

section Reboot

variable {C : Config β}

/-- `NewChatArchiveSpool` without a failure. -/
def reboot (s : State) : List Input :=
  .start true :: List.replicate (2 * (pendingNames s.dir).length + 2) (.boot true)

/-- The steps of `recoverPending` and of the listing behind it. -/
theorem exec_boot {queue : List String} {s : State} (h : FilesInv C s)
    (hphase : s.phase = .recover queue) (hnodup : queue.Nodup)
    (hdrafts : ∀ n ∈ queue, ∃ f, s.dir.drafts.Has n f) :
    let t := ((machine C).exec s (List.replicate (2 * queue.length + 2) (.boot true))).1
    t.phase = .up ∧ t.broken = false ∧ FilesInv C t ∧ t.saving = none ∧ t.draining = .idle ∧
      t.files = fileCount t.dir ∧ t.usedBytes = fileBytes t.dir := by
  induction queue generalizing s with
  | nil =>
    have hlist : (boot C s true).1 = { s with phase := .list } := by rw [boot, hphase]
    have hnext := hlist ▸ h.step (boot_effect true)
    have hempty : list s.dir true = .ok (names s.dir) := by
      have hnone : s.dir.drafts.keys = [] := by
        refine List.eq_nil_iff_forall_not_mem.mpr fun n hn => ?_
        obtain ⟨f, hf⟩ := Table.mem_keys.mp hn
        exact hnext.pending n f hf
      simp [list, hnone]
    have hdone := hnext.step (boot_effect true)
    have hidle := h.idle (by rw [hphase]; simp)
    have hup : (boot C { s with phase := .list } true).1 =
        { s with
          phase := .up
          files := fileCount s.dir
          usedBytes := fileBytes s.dir
          broken := false
          held := fileCount s.dir ≤ maxFiles ∧ fileBytes s.dir ≤ C.maxBytes } := by
      simp only [boot, hempty]
    simp only [List.length_nil, Nat.mul_zero, List.replicate, Machine.exec, machine, step, hlist]
    rw [hup] at hdone ⊢
    exact ⟨rfl, rfl, hdone, hidle.1, hidle.2, rfl, rfl⟩
  | cons n queue ih =>
    obtain ⟨hn, hrest⟩ := List.nodup_cons.mp hnodup
    obtain ⟨f, hf⟩ := hdrafts n List.mem_cons_self
    have hkeep : ∀ m ∈ queue, ∃ f, (s.dir.drafts.delete fun k _ => k = n).Has m f := by
      intro m hm
      obtain ⟨f, hf⟩ := hdrafts m (List.mem_cons_of_mem n hm)
      have hne : m ≠ n := fun heq => hn (heq ▸ hm)
      exact ⟨f, Table.has_delete.mpr ⟨hf, by simpa using hne⟩⟩
    -- the draft leaves, and the directory is synced
    have hsettle : (boot C s true).1.phase = .settle queue ∧
        ∀ m ∈ queue, ∃ f, (boot C s true).1.dir.drafts.Has m f := by
      rw [boot, hphase]
      simp only [Bool.not_true, Bool.false_eq_true, if_false, Table.find_eq_some_iff.mpr hf]
      split
      · rw [CrashDir.rename_of_has hf]
        exact ⟨rfl, hkeep⟩
      · exact ⟨rfl, hkeep⟩
    have hagain : (boot C (boot C s true).1 true).1.phase = .recover queue ∧
        (boot C (boot C s true).1 true).1.dir.drafts = (boot C s true).1.dir.drafts := by
      rw [boot, hsettle.1]
      exact ⟨rfl, rfl⟩
    have hfiles := (h.step (boot_effect true)).step (boot_effect true)
    have htwo : 2 * (n :: queue).length + 2 = (2 * queue.length + 2) + 1 + 1 := by
      rw [List.length_cons]
      omega
    rw [htwo, List.replicate_succ, List.replicate_succ]
    exact ih hfiles hagain.1 hrest (hagain.2.symm ▸ hsettle.2)

/-- After any crash the spool can be opened, and then there is no draft. -/
theorem reboot_up {s : State} (h : FilesInv C s) (hC : C.accepted = true)
    (hdown : s.phase = .down) :
    let t := ((machine C).exec s (reboot s)).1
    t.phase = .up ∧ (∀ n f, ¬t.dir.drafts.Has n f) ∧
      t.files = fileCount t.dir ∧ t.usedBytes = fileBytes t.dir := by
  have hstart : (start C s true).1 = { s with phase := .recover (pendingNames s.dir) } := by
    rw [start, if_neg (by simp [hC]), if_neg (not_not_intro hdown), if_pos rfl]
  have hdrafts : ∀ n ∈ pendingNames s.dir, ∃ f, s.dir.drafts.Has n f := by
    intro n hn
    rw [pendingNames, mem_orderBy] at hn
    exact Table.mem_keys.mp hn
  have hnodup : (pendingNames s.dir).Nodup :=
    (orderBy_perm _ _).nodup_iff.mpr s.dir.drafts.nodup_keys
  have hbooting := h.step (start_effect true)
  rw [hstart] at hbooting
  obtain ⟨hup, hbroken, hfiles, hsaving, -, hcount, hbytes⟩ :=
    exec_boot hbooting rfl hnodup hdrafts
  rw [reboot, Machine.exec]
  simp only [machine, step, hstart] at hup hbroken hfiles hsaving hcount hbytes ⊢
  refine ⟨hup, ?_, hcount, hbytes⟩
  intro n f hf
  have hpending := hfiles.pending
  rw [hup] at hpending
  obtain ⟨point, job, hsome, -⟩ := hpending hbroken n f hf
  rw [hsaving] at hsome
  contradiction

end Reboot

/-! ## Every run -/

/-- What holds of a spool after a run that began with the directory `d`. -/
structure Sound (C : Config β) (d : CrashDir String Text) (tr : List (Input × Output))
    (s : State) : Prop where
  counted : s.phase = .up → s.broken = false → s.mutexFree = true →
    s.files = fileCount s.dir ∧ s.usedBytes = fileBytes s.dir
  limits : s.phase = .up → s.held = true → s.files ≤ maxFiles ∧ s.usedBytes ≤ C.maxBytes
  held : (∀ e ∈ tr, ∀ n, e.1 ≠ .reappear n) → d.load (fun _ => 1) ≤ maxFiles →
    d.load size ≤ C.maxBytes → s.phase = .up → s.held = true
  removed : ∀ i, admits s i → ∀ n f, s.dir.files.Has n f →
    (∀ f', ¬(step C s i).1.dir.files.Has n f') →
      ∃ r, validChatArchiveEnvelope C.codec C.encoding f.body = .ok r ∧ r ∈ s.appended
  accepted : ∀ job ∈ s.accepted,
    s.dir.files.Has job.name ⟨job.body, true⟩ ∨ job.record.text ∈ s.appended
  reboots : C.accepted = true → s.phase = .down →
    ((machine C).exec s (reboot s)).1.phase = .up ∧
      ∀ n f, ¬((machine C).exec s (reboot s)).1.dir.drafts.Has n f

section Runs

variable {C : Config β} {d : CrashDir String Text} {tr : List (Input × Output)} {s : State}

/-- What every step keeps. -/
structure SpoolInv (C : Config β) (s : State) : Prop where
  files : FilesInv C s
  accounted : Accounted s
  held : HeldInv C s
  kept : Kept C s

theorem run_spoolInv (hd : d.Apart) (hr : (machine C).Run (State.init d) tr s) :
    SpoolInv C s := by
  refine hr.invariant (fun s i h hadmits => ?_) ⟨FilesInv.init hd, ?_, ?_, ?_⟩
  · have he := step_effect (C := C) hadmits
    exact ⟨h.files.step he, h.accounted.step h.files he, h.held.step h.files he,
      h.kept.step h.files he⟩
  · exact accounted_of_down (by simp [State.init])
  · exact heldInv_of_down (by simp [State.init])
  · intro job hjob
    exact absurd hjob List.not_mem_nil

/-- Limits that hold in the beginning hold whenever the spool is opened. -/
theorem run_held (hd : d.Apart) (hr : (machine C).Run (State.init d) tr s)
    (hstays : ∀ e ∈ tr, ∀ n, e.1 ≠ .reappear n) (hfiles : d.load (fun _ => 1) ≤ maxFiles)
    (hbytes : d.load size ≤ C.maxBytes) :
    LoadInv (fun _ => 1) maxFiles s ∧ LoadInv size C.maxBytes s ∧
      (s.phase = .up → s.held = true) := by
  induction hr with
  | nil => exact ⟨loadInv_of_idle hfiles rfl, loadInv_of_idle hbytes rfl, nofun⟩
  | @snoc tr s hr i hadmits ih =>
    obtain ⟨hcount, hsize, hheld⟩ := ih fun e he => hstays e (List.mem_append_left _ he)
    have hi : ∀ n, i ≠ .reappear n := fun n =>
      hstays (i, ((machine C).step s i).2) (List.mem_append_right _ (List.mem_singleton_self _)) n
    have hinv := run_spoolInv hd hr
    have he := step_effect (C := C) hadmits
    refine ⟨?_, ?_, held_step hheld hcount.load hsize.load he⟩
    · exact hcount.step hinv.files (fun _ _ _ => le_rfl) hinv.accounted.files he hi
        fun job _ hroom => by omega
    · exact hsize.step hinv.files (fun _ _ hle => hle) hinv.accounted.bytes he hi
        fun job hroom _ => hroom

theorem SpoolInv.counted (h : SpoolInv C s) (hup : s.phase = .up) (hbroken : s.broken = false)
    (hfree : s.mutexFree = true) :
    s.files = fileCount s.dir ∧ s.usedBytes = fileBytes s.dir := by
  obtain ⟨hsaving, hlocked⟩ := of_decide_eq_true hfree
  have hfiles := h.accounted.files hup hbroken
  have hbytes := h.accounted.bytes hup hbroken
  have hdraining : ∀ w, s.draining.uncounted w = 0 := fun w => uncounted_of_unlocked hlocked
  rw [hsaving, hdraining] at hfiles hbytes
  simp only [uncounted] at hfiles hbytes
  exact ⟨by rw [fileCount]; omega, by rw [fileBytes]; omega⟩

theorem spool_accounting (C : Config β) (d : CrashDir String Text) (hd : d.Apart)
    (tr : List (Input × Output)) (s : State) (hr : (machine C).Run (State.init d) tr s) :
    Sound C d tr s := by
  have hinv := run_spoolInv hd hr
  refine {
    counted := hinv.counted
    limits := ?_
    held := ?_
    removed := ?_
    accepted := ?_
    reboots := ?_ }
  · intro hup hheld
    obtain ⟨hfiles, hbytes, -⟩ := hinv.held hup hheld
    exact ⟨hfiles, hbytes⟩
  · intro hstays hfiles hbytes
    exact (run_held hd hr hstays hfiles hbytes).2.2
  · intro i hadmits n f hf hgone
    rcases files_step hinv.files (step_effect hadmits) hf with ⟨f', hf', -⟩ | htaken
    · exact absurd hf' (hgone f')
    · exact htaken
  · intro job hjob
    obtain ⟨hwrites, hfile | htaken⟩ := hinv.kept job hjob
    · exact Or.inl hfile
    · exact Or.inr (hwrites.text_mem htaken)
  · intro hC hdown
    obtain ⟨hup, hdrafts, -, -⟩ := reboot_up hinv.files hC hdown
    exact ⟨hup, hdrafts⟩

end Runs

/-! ## One chat -/

/-- `Save` without a failure. -/
def saves (spoolID : String) (m : ChatMessage) (receivedAt : Time) : List Input :=
  .save spoolID m receivedAt :: List.replicate 6 (.saveStep true [])

/-- A chat is accepted if its record is valid, there is room, and nothing fails. -/
theorem accepted_saves {C : Config β} {s : State} {spoolID : String} {m : ChatMessage}
    {receivedAt : Time} {body : Text} (hchat : m.type = .chat) (hbroken : s.broken = false)
    (hrecord : saveRecord C.codec C.encoding
      (ChatSpool.chatRecord C.hmacHex spoolID m receivedAt) = .ok body)
    (hbytes : s.usedBytes + size body ≤ C.maxBytes) (hfiles : s.files < maxFiles)
    (hdraft : s.dir.drafts.find (nameOf receivedAt spoolID) = none) :
    ((machine C).exec s (saves spoolID m receivedAt)).1.accepted = s.accepted ++
      [⟨nameOf receivedAt spoolID, ChatSpool.chatRecord C.hmacHex spoolID m receivedAt, body⟩] := by
  have hroom : ¬(C.maxBytes < s.usedBytes + size body ∨ maxFiles ≤ s.files) := by omega
  have hbegin : (save C s spoolID m receivedAt).1 = { s with
      saving := some (.create, ⟨nameOf receivedAt spoolID,
        ChatSpool.chatRecord C.hmacHex spoolID m receivedAt, body⟩) } := by
    rw [save, if_neg (not_not_intro hchat), if_neg (by simp [hbroken])]
    dsimp only
    rw [hrecord]
    dsimp only
    rw [if_neg hroom]
  simp only [saves, List.replicate, Machine.exec, machine, step, hbegin]
  simp only [saveStep, State.goto, hdraft, and_self, if_true]

def fixtureSpool : Config (List Archive.ChatRow) where
  codec := Archive.fixtureCodec
  encoding := SpoolFile.fixtureEncoding
  absolute := true
  keyLen := 32
  hmacHex := ChatSpool.fixtureHmac
  maxBytes := 2 ^ 30

/-- A spool that was just opened. -/
def opened : State :=
  ((machine fixtureSpool).exec (State.init (CrashDir.ofFiles Table.empty))
    [.start true, .boot true, .boot true]).1

def savedChat : List Input :=
  saves ChatSpool.fixtureSpoolID (ChatSpool.fixtureChat (bytesOf "viewer") (bytesOf "hello")) 6

/-- The spool has accepted a chat. -/
def savedState : State := ((machine fixtureSpool).exec opened savedChat).1

theorem accepted_savedState : savedState.accepted.length = 1 := by
  have hvalid : (ChatSpool.fixtureChatRecord (bytesOf "viewer") (bytesOf "hello")).validate
      Archive.fixtureCodec = .ok () := by decide
  have hrecord := ChatSpool.saveRecord_of_valid hvalid rfl ChatSpool.fixtureTime
    ChatSpool.fixtureNames
  have hsize := (ChatSpool.saveRecord_ok hrecord).2.1
  have hzero : opened.usedBytes = 0 := rfl
  have hlimit : fixtureSpool.maxBytes = 2 ^ 30 := rfl
  have haccepted : ((machine fixtureSpool).exec opened savedChat).1.accepted = [] ++ [_] :=
    accepted_saves rfl rfl hrecord (by omega) (by decide) rfl
  rw [savedState, haccepted]
  rfl

theorem run_saved : ∃ tr s, (machine fixtureSpool).Run
    (State.init (CrashDir.ofFiles Table.empty)) tr s ∧ s.accepted.length = 1 := by
  have hopen : (machine fixtureSpool).Admitted (State.init (CrashDir.ofFiles Table.empty))
      [.start true, .boot true, .boot true] := ⟨trivial, trivial, trivial, trivial⟩
  have hsave : (machine fixtureSpool).Admitted opened savedChat :=
    ⟨⟨rfl, rfl, rfl, rfl⟩, Nat.zero_le _, Nat.zero_le _, Nat.zero_le _, Nat.zero_le _,
      Nat.zero_le _, Nat.zero_le _, trivial⟩
  have hrun := Machine.run_exec (M := machine fixtureSpool) opened savedChat hsave
  have haccepted := accepted_savedState
  rw [savedState] at haccepted
  exact ⟨_, _, (Machine.run_exec _ _ hopen).trans hrun, haccepted⟩

/-- The process stops. -/
theorem spool_accounting_stopped :
    ∃ tr s, (machine fixtureSpool).Run (State.init (CrashDir.ofFiles Table.empty)) tr s ∧
      s.phase = .down ∧ s.accepted.length = 1 ∧
      Sound fixtureSpool (CrashDir.ofFiles Table.empty) tr s := by
  obtain ⟨tr, s, hsaved, haccepted⟩ := run_saved
  have hrun := hsaved.snoc .crash trivial
  exact ⟨_, _, hrun, rfl, haccepted,
    spool_accounting fixtureSpool _ (CrashDir.Apart.ofFiles Table.empty) _ _ hrun⟩

end RogiCollector.Ports.ChatArchiveSpool
