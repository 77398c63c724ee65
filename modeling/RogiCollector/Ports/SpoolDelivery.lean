import RogiCollector.Ports.DonationLedger
import RogiCollector.Ports.DonationSpool

/-!
# Exactly once from the spool to the journal

Three invariants, each over the state and the history that led to it.
`FilesInv` follows the directory: a record that was accepted is a file until
an append of it has been answered.  `LedgerInv` follows the journal: an event
that was ever given a place keeps it, or lost its row more than ninety days
after it was stored, when no replay of its record is tried any more.
`OrderInv` puts the two together: files are drained in the order of their
names, which is the order of acceptance, so a record is given its place after
everything accepted before it.
-/

namespace RogiCollector.Ports.DonationSpool

open Verified
open Journal (Time StoreErr Donation OwnerGrant Clocks Backend Sys Call
  Op Reply second hour day Place Placed LedgerStep Inserted JournalInv step_ledger
  step_journalInv step_append_placed)

/-! ## File names -/

theorem toList_file (r : SpoolRecord) :
    r.file.toList =
      padded 20 r.acceptedAt ++ ('-' :: (r.donation.eventID.toList ++ ".json".toList)) := by
  simp [SpoolRecord.file, SpoolRecord.name]

variable {r r' : SpoolRecord}

/-- Files sort by acceptance time. -/
theorem file_lt (h : r.acceptedAt < r'.acceptedAt) (hr' : r'.acceptedAt < 2 ^ 63) :
    r.file < r'.file := by
  rw [String.lt_iff_toList_lt, toList_file, toList_file]
  exact padded_append_lt h (Nat.lt_trans hr' (by norm_num)) _ _

/-- The event ID can be read off the file name. -/
theorem eventID_of_file (h : r.file = r'.file) : r.donation.eventID = r'.donation.eventID := by
  have hlist := congrArg String.toList h
  rw [toList_file, toList_file] at hlist
  have htail := (List.append_inj hlist (by simp)).2
  have hid := List.append_cancel_right (List.cons.inj htail).2
  exact String.toList_injective hid

/-! ## The queue -/

variable {json : Table String SpoolRecord}

theorem mem_names {n : String} : n ∈ names json ↔ ∃ r, json.Has n r := by
  rw [names, mem_orderBy, Table.mem_keys]

theorem names_lt (json : Table String SpoolRecord) : (names json).Pairwise (· < ·) := by
  have hnodup : (json.keys.map id).Nodup := by
    rw [List.map_id]
    exact json.nodup_keys
  have hlt := orderBy_lt id hnodup
  rwa [List.map_id] at hlt

/-- Removing the first file leaves the rest of the queue. -/
theorem names_delete {n : String} {rest : List String} (h : n :: rest = names json) :
    rest = names (json.delete fun k _ => k = n) := by
  have hlt := names_lt json
  rw [← h] at hlt
  obtain ⟨hfirst, hrest⟩ := List.pairwise_cons.mp hlt
  apply eq_of_lt_of_mem_iff hrest (names_lt _)
  intro k
  have hk : k ∈ n :: rest ↔ ∃ r, json.Has k r := by rw [h, mem_names]
  simp only [mem_names, Table.has_delete, decide_eq_false_iff_not]
  constructor
  · intro hmem
    obtain ⟨r, hr⟩ := hk.mp (List.mem_cons_of_mem _ hmem)
    exact ⟨r, hr, (hfirst k hmem).ne'⟩
  · rintro ⟨r, hr, hne⟩
    exact (List.mem_cons.mp (hk.mpr ⟨r, hr⟩)).resolve_left hne

/-! ## Histories -/

abbrev History := List (Input × Output)

/-- The records accepted so far, in the order of their `Save`s. -/
def acceptedOf (tr : History) : List SpoolRecord :=
  tr.filterMap fun event =>
    match event.2 with
    | .accepted r => some r
    | _ => none

theorem acceptedOf_snoc_accepted (tr : History) (i : Input) (r : SpoolRecord) :
    acceptedOf (tr ++ [(i, .accepted r)]) = acceptedOf tr ++ [r] := by
  simp [acceptedOf]

variable {o : Output}

theorem acceptedOf_snoc (ho : ∀ r, o ≠ .accepted r) (tr : History) (i : Input) :
    acceptedOf (tr ++ [(i, o)]) = acceptedOf tr := by
  cases o with
  | accepted r => exact absurd rfl (ho r)
  | _ => simp [acceptedOf]

/-- `AppendDonation` returned success for the file. -/
def Appended (tr : History) (name : String) (r : SpoolRecord) : Prop :=
  ∃ i reply, (i, .appended name r reply) ∈ tr

/-- `Save` returned `nil` for the donation. -/
def SaveReturned (tr : History) (d : Donation) : Prop :=
  ∃ i, (i, .saveReturned d none) ∈ tr

variable {C : Config} {B : Backend} {tr : History} {s : State}

/-- At some point of the run the event had a row at this place. -/
def Given (C : Config) (B : Backend) (tr : History) (e : String) (p : Place) : Prop :=
  (machine C B).Sometime (fun s => Placed s.journal.db e p) State.init tr

/-! ## Invariants -/

/-- A record on its way to becoming a file. -/
structure Fresh (C : Config) (tr : History) (seen : List String) (r : SpoolRecord) : Prop where
  own : C.own r.donation.eventID = true
  seen : r.donation.eventID ∈ seen
  new : ∀ r' ∈ acceptedOf tr, r'.donation.eventID ≠ r.donation.eventID
  small : r.acceptedAt < 2 ^ 63

/-- What the process knows at its point of the code. -/
def CtlInv (C : Config) (B : Backend) (tr : History) (json : Table String SpoolRecord)
    (seen : List String) : Ctl → Prop
  | .idle => True
  | .create r _ | .write r _ | .rename r => Fresh C tr seen r
  | .saveSync r => r ∈ acceptedOf tr
  | .list caller => ∀ r, caller = some r → r ∈ acceptedOf tr
  | .next caller queue =>
    (∀ r, caller = some r → r ∈ acceptedOf tr) ∧ queue = names json
  | .append caller name r rest =>
    (∀ r, caller = some r → r ∈ acceptedOf tr) ∧ name :: rest = names json ∧
      json.Has name r
  | .remove caller name rest =>
    (∀ r, caller = some r → r ∈ acceptedOf tr) ∧ name :: rest = names json ∧
      ∃ r, json.Has name r ∧ Appended tr name r ∧ ∃ p, Given C B tr r.donation.eventID p
  | .removeSync caller rest =>
    (∀ r, caller = some r → r ∈ acceptedOf tr) ∧ rest = names json

/-- The directory. -/
structure FilesInv (C : Config) (B : Backend) (tr : History) (s : State) : Prop where
  file : ∀ {name r}, s.json.Has name r → name = r.file ∧ r ∈ acceptedOf tr
  accepted : ∀ {r}, r ∈ acceptedOf tr →
    C.own r.donation.eventID = true ∧ r.donation.eventID ∈ s.seen ∧ r.acceptedAt < 2 ^ 63
  nodup : ((acceptedOf tr).map (·.donation.eventID)).Nodup
  ctl : CtlInv C B tr s.json s.seen s.ctl
  kept : ∀ {r}, r ∈ acceptedOf tr →
    s.json.Has r.file r ∨ ∃ p, Given C B tr r.donation.eventID p
  returned : ∀ {d}, SaveReturned tr d → ∃ r ∈ acceptedOf tr, r.donation = d

/-- The journal. -/
structure LedgerInv (C : Config) (B : Backend) (tr : History) (s : State) : Prop where
  journal : JournalInv s.journal.db
  /-- A place of one of our events comes from its accepted record. -/
  own_given : ∀ {e p}, C.own e = true → Given C B tr e p →
    ∃ r ∈ acceptedOf tr, r.donation.eventID = e ∧ p.channel = r.donation.channelID ∧
      r.acceptedAt ≤ p.storedAt + second
  /-- A place is kept for ninety days. -/
  still : ∀ {e p}, Given C B tr e p →
    Placed s.journal.db e p ∨ p.storedAt + 90 * day < s.journal.clock
  once : ∀ {e p p'}, C.own e = true → Given C B tr e p → Given C B tr e p' → p = p'
  below : ∀ {e p}, Given C B tr e p →
    ∃ c, s.journal.db.channels.Has p.channel c ∧ p.offset ≤ c.nextOffset

/-- The later record is given its place after the earlier one. -/
def Follows (C : Config) (B : Backend) (tr : History) (r1 r2 : SpoolRecord) : Prop :=
  ∀ p2, Given C B tr r2.donation.eventID p2 →
    (∃ p1, Given C B tr r1.donation.eventID p1) ∧
      ∀ p1, Given C B tr r1.donation.eventID p1 → p1.channel = p2.channel →
        p1.offset < p2.offset

/-- Places are given in the order of acceptance, if that can be read off the
clock. -/
def OrderInv (C : Config) (B : Backend) (tr : History) : Prop :=
  (acceptedOf tr).Pairwise (fun r1 r2 => r1.acceptedAt < r2.acceptedAt) →
    (acceptedOf tr).Pairwise (Follows C B tr)

/-- All three. -/
structure SpoolInv (C : Config) (B : Backend) (tr : History) (s : State) : Prop where
  files : FilesInv C B tr s
  ledger : LedgerInv C B tr s
  order : OrderInv C B tr

/-! ## The file steps -/

/-- Neither an acceptance nor a `Save` that returns `nil` without one. -/
structure Silent (tr : History) (o : Output) : Prop where
  accepted : ∀ r, o ≠ .accepted r
  returned : ∀ d, o = .saveReturned d none → ∃ r ∈ acceptedOf tr, r.donation = d

theorem silent_running : Silent tr .running where
  accepted := nofun
  returned := nofun

theorem silent_fail (s : State) (r : SpoolRecord) (err : SpoolErr) :
    Silent tr (fail s r err).2 where
  accepted := nofun
  returned d h := by simp [fail] at h

variable {caller : Option SpoolRecord}

theorem silent_finish (s : State) (err : Option SpoolErr)
    (hcaller : ∀ r, caller = some r → r ∈ acceptedOf tr) :
    Silent tr (finish s caller err).2 := by
  cases caller with
  | none => exact ⟨nofun, nofun⟩
  | some r =>
    refine ⟨nofun, fun d h => ⟨r, hcaller r rfl, ?_⟩⟩
    injection h

/-- An append of one of our events is the drain's, for the first file, and
the clocks are synchronised. -/
def Drained (C : Config) (s : State) (call : Call) : Prop :=
  ∀ g d acceptedAt, call.op = .append g d acceptedAt → C.own d.eventID = true →
    ∃ name r rest, name :: rest = names s.json ∧ s.json.Has name r ∧ d = r.donation ∧
      acceptedAt = r.acceptedAt ∧ s.journal.clock ≤ call.clocks.now 0 + 59 * day

/-- All a step can do: move on in the code, accept a record, remove a file whose append
was answered, or call the journal. -/
inductive Move (C : Config) (B : Backend) (tr : History) (s : State) (i : Input) :
    State × Output → Prop
  | quiet {s' : State} {o : Output} (hjournal : s'.journal = s.journal)
      (hjson : s'.json = s.json) (hseen : ∀ e ∈ s.seen, e ∈ s'.seen) (ho : Silent tr o)
      (hctl : CtlInv C B tr s.json s'.seen s'.ctl) : Move C B tr s i (s', o)
  | accept (r : SpoolRecord) (pending : List String) (hfresh : Fresh C tr s.seen r) :
      Move C B tr s i
        ({ s with json := s.json.upsert r.file r, pending, ctl := .saveSync r }, .accepted r)
  | remove {caller : Option SpoolRecord} {name : String} {rest : List String}
      (hctl : CtlInv C B tr s.json s.seen (.remove caller name rest)) :
      Move C B tr s i
        ({ s with json := s.json.delete fun n _ => n = name, ctl := .removeSync caller rest },
          .running)
  | call {call : Call} {ctl : Ctl} {o : Output} (hclk : s.journal.clock ≤ call.clocks.clk 0)
      (hd : Drained C s call) (ho : Silent tr o)
      (hctl : CtlInv C B (tr ++ [(i, o)]) s.json s.seen ctl) :
      Move C B tr s i
        ({ s with journal := ((Journal.machine B).step s.journal call).1, ctl }, o)

variable {i : Input}

theorem Move.fail (s : State) (r : SpoolRecord) (err : SpoolErr) :
    Move C B tr s i (fail s r err) :=
  .quiet rfl rfl (fun _ he => he) (silent_fail s r err) trivial

theorem Move.finish (s : State) (err : Option SpoolErr)
    (hcaller : ∀ r, caller = some r → r ∈ acceptedOf tr) :
    Move C B tr s i (finish s caller err) :=
  .quiet rfl rfl (fun _ he => he) (silent_finish s err hcaller) trivial

theorem Move.goto (s : State) {ctl : Ctl} (hctl : CtlInv C B tr s.json s.seen ctl)
    (pending : List String) : Move C B tr s i ({ s with pending, ctl }, .running) :=
  .quiet rfl rfl (fun _ he => he) silent_running hctl

theorem fileStep_move (s : State) (h : CtlInv C B tr s.json s.seen s.ctl) (ok : Bool)
    (now : Time) : Move C B tr s i (fileStep C s ok now) := by
  unfold fileStep
  cases hctl : s.ctl with
  | idle | append => exact .quiet rfl rfl (fun _ he => he) silent_running h
  | create r deadline =>
    rw [hctl] at h
    dsimp only
    split
    · refine .goto s ?_ _
      exact h
    · exact .fail s r _
  | write r deadline =>
    rw [hctl] at h
    dsimp only
    split
    · exact .fail s r _
    split
    · exact .fail s r _
    · refine .goto s ?_ _
      exact h
  | rename r =>
    rw [hctl] at h
    dsimp only
    split
    · exact .accept r _ h
    · exact .fail s r _
  | saveSync r =>
    rw [hctl] at h
    dsimp only
    split
    · refine .goto s ?_ _
      rintro r' ⟨⟩
      exact h
    · exact .fail s r _
  | list caller =>
    rw [hctl] at h
    dsimp only
    split
    · exact .finish s _ h
    · rename_i queue hqueue
      refine .goto s ?_ _
      exact ⟨h, files_ok hqueue⟩
  | next caller queue =>
    rw [hctl] at h
    obtain ⟨hcaller, hqueue⟩ := h
    cases queue with
    | nil => exact .finish s _ hcaller
    | cons name rest =>
      dsimp only
      split
      · exact .finish s _ hcaller
      split
      · exact .finish s _ hcaller
      rename_i r hfind
      split
      · exact .finish s _ hcaller
      split
      · exact .finish s _ hcaller
      · refine .goto s ?_ _
        exact ⟨hcaller, hqueue, Table.find_eq_some_iff.mp hfind⟩
  | remove caller name rest =>
    rw [hctl] at h
    dsimp only
    split
    · exact .remove h
    · exact .finish s _ h.1
  | removeSync caller rest =>
    rw [hctl] at h
    dsimp only
    split
    · refine .goto s ?_ _
      exact h
    · exact .finish s _ h.1

/-! ## The directory across a step -/

variable {e : String} {p : Place}

/-- The journal's places after one more step. -/
theorem given_snoc (hr : (machine C B).Run State.init tr s) (hi : admits C s i) :
    Given C B (tr ++ [(i, (step C B s i).2)]) e p ↔
      Given C B tr e p ∨ Placed (step C B s i).1.journal.db e p :=
  Machine.sometime_snoc hr i hi

theorem Given.of_placed (hr : (machine C B).Run State.init tr s) (h : Placed s.journal.db e p) :
    Given C B tr e p :=
  Machine.Sometime.last hr h

theorem Given.snoc (h : Given C B tr e p) (event : Input × Output) :
    Given C B (tr ++ [event]) e p :=
  Machine.Sometime.append h _

variable {name : String}

theorem Appended.snoc (h : Appended tr name r) (event : Input × Output) :
    Appended (tr ++ [event]) name r := by
  obtain ⟨i, reply, hmem⟩ := h
  exact ⟨i, reply, List.mem_append_left _ hmem⟩

theorem Fresh.snoc {seen : List String} (h : Fresh C tr seen r) (ho : ∀ r, o ≠ .accepted r) :
    Fresh C (tr ++ [(i, o)]) seen r where
  own := h.own
  seen := h.seen
  new := by
    rw [acceptedOf_snoc ho]
    exact h.new
  small := h.small

/-- What the process knows survives events that accept nothing. -/
theorem CtlInv.snoc {seen : List String} {ctl : Ctl} (h : CtlInv C B tr json seen ctl)
    (ho : ∀ r, o ≠ .accepted r) :
    CtlInv C B (tr ++ [(i, o)]) json seen ctl := by
  have hacc := acceptedOf_snoc ho tr i
  cases ctl with
  | idle => trivial
  | create | write | rename => exact Fresh.snoc h ho
  | saveSync | list | next | append | removeSync => simpa only [CtlInv, hacc] using h
  | remove caller name rest =>
    obtain ⟨hcaller, hqueue, r, hfile, happ, p, hp⟩ := h
    rw [CtlInv, hacc]
    exact ⟨hcaller, hqueue, r, hfile, happ.snoc _, p, hp.snoc _⟩

variable {s' : State}

/-- A step that leaves the files alone, whatever the journal does. -/
theorem FilesInv.advance (h : FilesInv C B tr s) (hjson : s'.json = s.json)
    (hseen : ∀ e ∈ s.seen, e ∈ s'.seen) (ho : Silent tr o)
    (hctl : CtlInv C B (tr ++ [(i, o)]) s.json s'.seen s'.ctl) :
    FilesInv C B (tr ++ [(i, o)]) s' := by
  have hacc := acceptedOf_snoc ho.accepted tr i
  constructor
  case file =>
    rw [hacc, hjson]
    exact h.file
  case accepted =>
    rw [hacc]
    intro r hr
    obtain ⟨hown, hmem, hsmall⟩ := h.accepted hr
    exact ⟨hown, hseen _ hmem, hsmall⟩
  case nodup =>
    rw [hacc]
    exact h.nodup
  case ctl =>
    rw [hjson]
    exact hctl
  case kept =>
    rw [hacc, hjson]
    intro r hr
    rcases h.kept hr with hfile | ⟨p, hp⟩
    · exact Or.inl hfile
    · exact Or.inr ⟨p, hp.snoc _⟩
  case returned =>
    rw [hacc]
    rintro d ⟨j, hj⟩
    rcases List.mem_append.mp hj with hj | hj
    · exact h.returned ⟨j, hj⟩
    · obtain ⟨-, heq⟩ := Prod.mk.inj (List.mem_singleton.mp hj)
      exact ho.returned d heq.symm

/-- The rename: the record becomes a file under a name no other file has. -/
theorem FilesInv.accept (h : FilesInv C B tr s) (pending : List String)
    (hfresh : Fresh C tr s.seen r) :
    FilesInv C B (tr ++ [(i, .accepted r)])
      { s with json := s.json.upsert r.file r, pending, ctl := .saveSync r } := by
  have hacc := acceptedOf_snoc_accepted tr i r
  constructor
  case file =>
    intro name r' hfile
    rw [hacc]
    rcases Table.has_upsert.mp hfile with ⟨rfl, rfl⟩ | ⟨-, hfile⟩
    · exact ⟨rfl, by simp⟩
    · obtain ⟨hname, hmem⟩ := h.file hfile
      exact ⟨hname, List.mem_append_left _ hmem⟩
  case accepted =>
    intro r' hr'
    rw [hacc] at hr'
    rcases List.mem_append.mp hr' with hr' | hr'
    · exact h.accepted hr'
    · rw [List.mem_singleton.mp hr']
      exact ⟨hfresh.own, hfresh.seen, hfresh.small⟩
  case nodup =>
    rw [hacc, List.map_append, List.map_singleton]
    refine List.nodup_append.mpr ⟨h.nodup, List.nodup_singleton _, ?_⟩
    intro e he e' he'
    obtain ⟨r', hr', rfl⟩ := List.mem_map.mp he
    rw [List.mem_singleton.mp he']
    exact hfresh.new r' hr'
  case ctl =>
    rw [CtlInv, hacc]
    simp
  case kept =>
    intro r' hr'
    rw [hacc] at hr'
    rcases List.mem_append.mp hr' with hr' | hr'
    · rcases h.kept hr' with hfile | ⟨p, hp⟩
      · refine Or.inl (Table.has_upsert.mpr (Or.inr ⟨?_, hfile⟩))
        intro heq
        exact hfresh.new r' hr' (eventID_of_file heq)
      · exact Or.inr ⟨p, hp.snoc _⟩
    · rw [List.mem_singleton.mp hr']
      exact Or.inl (Table.has_upsert.mpr (Or.inl ⟨rfl, rfl⟩))
  case returned =>
    rintro d ⟨j, hj⟩
    rcases List.mem_append.mp hj with hj | hj
    · obtain ⟨r', hr', hd⟩ := h.returned ⟨j, hj⟩
      rw [hacc]
      exact ⟨r', List.mem_append_left _ hr', hd⟩
    · cases (Prod.mk.inj (List.mem_singleton.mp hj)).2

/-- The removal: the record was given a place. -/
theorem FilesInv.remove (h : FilesInv C B tr s) {rest : List String}
    (hctl : CtlInv C B tr s.json s.seen (.remove caller name rest)) :
    FilesInv C B (tr ++ [(i, .running)])
      { s with json := s.json.delete fun n _ => n = name, ctl := .removeSync caller rest } := by
  obtain ⟨hcaller, hqueue, removed, hremoved, -, hgiven⟩ := hctl
  have hacc := acceptedOf_snoc (o := .running) nofun tr i
  have hquiet : FilesInv C B (tr ++ [(i, .running)]) { s with ctl := .idle } :=
    h.advance rfl (fun _ he => he) silent_running trivial
  constructor
  case file => exact fun hfile => hquiet.file (Table.has_delete.mp hfile).1
  case accepted => exact hquiet.accepted
  case nodup => exact hquiet.nodup
  case ctl =>
    rw [CtlInv, hacc]
    exact ⟨hcaller, names_delete hqueue⟩
  case kept =>
    intro r hr
    rcases hquiet.kept hr with hfile | hp
    · by_cases hname : r.file = name
      · obtain ⟨p, hp⟩ := hgiven
        rw [hname] at hfile
        rw [hfile.unique hremoved]
        exact Or.inr ⟨p, hp.snoc _⟩
      · exact Or.inl (Table.has_delete.mpr ⟨hfile, by simpa using hname⟩)
    · exact Or.inr hp
  case returned => exact hquiet.returned

/-! ## The journal across a step -/

/-- A step that does not call the journal gives no places. -/
theorem given_snoc_of_journal (hr : (machine C B).Run State.init tr s) (hi : admits C s i)
    (hj : (step C B s i).1.journal = s.journal) :
    Given C B (tr ++ [(i, (step C B s i).2)]) e p ↔ Given C B tr e p := by
  rw [given_snoc hr hi, hj]
  exact or_iff_left_of_imp (Given.of_placed hr)

/-- The accepted records only grow. -/
theorem mem_acceptedOf_snoc (h : r ∈ acceptedOf tr) (event : Input × Output) :
    r ∈ acceptedOf (tr ++ [event]) := by
  rw [acceptedOf, List.filterMap_append]
  exact List.mem_append_left _ h

theorem LedgerInv.frame (h : LedgerInv C B tr s) {event : Input × Output}
    (hj : s'.journal = s.journal)
    (hgiven : ∀ {e p}, Given C B (tr ++ [event]) e p ↔ Given C B tr e p) :
    LedgerInv C B (tr ++ [event]) s' where
  journal := by
    rw [hj]
    exact h.journal
  own_given := by
    intro e p hown hp
    obtain ⟨r, hr, hplace⟩ := h.own_given hown (hgiven.mp hp)
    exact ⟨r, mem_acceptedOf_snoc hr _, hplace⟩
  still := by
    intro e p hp
    rw [hj]
    exact h.still (hgiven.mp hp)
  once := fun hown hp hp' => h.once hown (hgiven.mp hp) (hgiven.mp hp')
  below := by
    intro e p hp
    rw [hj]
    exact h.below (hgiven.mp hp)

/-- Rewriting places with equivalent ones. -/
theorem Follows.congr {tr' : History} {r1 r2 : SpoolRecord} (h : Follows C B tr r1 r2)
    (hgiven : ∀ {e p}, Given C B tr' e p ↔ Given C B tr e p) : Follows C B tr' r1 r2 := by
  intro p2 hp2
  obtain ⟨⟨p1, hp1⟩, hlt⟩ := h p2 (hgiven.mp hp2)
  exact ⟨⟨p1, hgiven.mpr hp1⟩, fun p hp => hlt p (hgiven.mp hp)⟩

theorem OrderInv.frame (h : OrderInv C B tr) (ho : ∀ r, o ≠ .accepted r)
    (hgiven : ∀ {e p}, Given C B (tr ++ [(i, o)]) e p ↔ Given C B tr e p) :
    OrderInv C B (tr ++ [(i, o)]) := by
  intro hlt
  rw [acceptedOf_snoc ho] at hlt ⊢
  exact (h hlt).imp fun hf => hf.congr hgiven

/-- The newest record has no place yet. -/
theorem OrderInv.accept (h : OrderInv C B tr) (hl : LedgerInv C B tr s)
    (hfresh : Fresh C tr s.seen r)
    (hgiven : ∀ {e p}, Given C B (tr ++ [(i, .accepted r)]) e p ↔ Given C B tr e p) :
    OrderInv C B (tr ++ [(i, .accepted r)]) := by
  intro hlt
  rw [acceptedOf_snoc_accepted] at hlt ⊢
  obtain ⟨hlt, -, -⟩ := List.pairwise_append.mp hlt
  refine List.pairwise_append.mpr
    ⟨(h hlt).imp fun hf => hf.congr hgiven, List.pairwise_singleton _ _, ?_⟩
  intro r1 _ r2 hr2 p2 hp2
  rw [List.mem_singleton.mp hr2] at hp2
  obtain ⟨r', hr', he, -⟩ := hl.own_given hfresh.own (hgiven.mp hp2)
  exact absurd he (hfresh.new r' hr')

/-! ## Journal calls -/

/-- A record is determined by its event. -/
theorem FilesInv.record_unique (h : FilesInv C B tr s) (hr : r ∈ acceptedOf tr)
    (hr' : r' ∈ acceptedOf tr) (he : r.donation.eventID = r'.donation.eventID) : r = r' :=
  List.inj_on_of_nodup_map h.nodup hr hr' he

/-- The record behind a row that one of our events was given: the first file,
with an event that never had a place. -/
theorem LedgerInv.first_file (hl : LedgerInv C B tr s) (hf : FilesInv C B tr s) {call : Call}
    (hown : C.own e = true) (hd : Drained C s call)
    (h : Inserted call.clocks call.op s.journal.db e p) :
    ∃ name r rest, name :: rest = names s.json ∧ s.json.Has name r ∧
      r.donation.eventID = e ∧ p.channel = r.donation.channelID ∧
      r.acceptedAt ≤ p.storedAt + second ∧ ∀ p', ¬Given C B tr e p' := by
  obtain ⟨g, d, acceptedAt, hop, rfl, hch, hle, hage⟩ := h.append
  obtain ⟨name, r, rest, hqueue, hfile, rfl, rfl, hsync⟩ := hd g d acceptedAt hop hown
  refine ⟨name, r, rest, hqueue, hfile, rfl, hch, hle, ?_⟩
  intro p' hp'
  -- Its row is gone, so it was stored ninety days ago; the record is no younger
  -- than that, up to a second, and the drain gives up on it after thirty.
  have hgone := (hl.still hp').resolve_left (h.free p')
  obtain ⟨r', hr', he, -, hstored⟩ := hl.own_given hown hp'
  rw [hf.record_unique hr' (hf.file hfile).2 he] at hstored
  have hday : 2 * second ≤ day := by decide
  lia

/-- The ledger after a call of the journal. -/
theorem LedgerInv.call (hl : LedgerInv C B tr s) (hf : FilesInv C B tr s) {call : Call}
    (hclk : s.journal.clock ≤ call.clocks.clk 0) (hd : Drained C s call)
    (ho : ∀ r, o ≠ .accepted r) (hj : s'.journal = ((Journal.machine B).step s.journal call).1)
    (hr : (machine C B).Run State.init tr s)
    (hgiven : ∀ {e p}, Given C B (tr ++ [(i, o)]) e p ↔ Given C B tr e p ∨
      Placed s'.journal.db e p) :
    LedgerInv C B (tr ++ [(i, o)]) s' := by
  have hstep := step_ledger (B := B) s.journal call
  rw [← hj] at hstep
  have hinv := step_journalInv (B := B) s.journal call hl.journal
  rw [← hj] at hinv
  have hclock : s'.journal.clock = call.clocks.commit := by
    rw [hj, Journal.step_clock]
  have hcommit := Nat.le_trans hclk (call.clocks.le_commit 0)
  have hacc := acceptedOf_snoc ho tr i
  -- A place of the new state is old, or was given by this call.
  have hnew : ∀ {e p}, Given C B (tr ++ [(i, o)]) e p →
      Given C B tr e p ∨
        (Placed s'.journal.db e p ∧ Inserted call.clocks call.op s.journal.db e p) := by
    intro e p hp
    rcases hgiven.mp hp with hp | hp
    · exact Or.inl hp
    · rcases hstep.back hp with hold | hins
      · exact Or.inl (Given.of_placed hr hold)
      · exact Or.inr ⟨hp, hins⟩
  constructor
  case journal => exact hinv
  case own_given =>
    intro e p hown hp
    rw [hacc]
    rcases hnew hp with hp | ⟨-, hins⟩
    · exact hl.own_given hown hp
    · obtain ⟨name, r, rest, -, hfile, he, hch, hle, -⟩ := hl.first_file hf hown hd hins
      exact ⟨r, (hf.file hfile).2, he, hch, hle⟩
  case still =>
    intro e p hp
    rw [hclock]
    rcases hnew hp with hp | ⟨hp, -⟩
    · rcases hl.still hp with hp | hlt
      · exact hstep.forth hp
      · exact Or.inr (Nat.lt_of_lt_of_le hlt hcommit)
    · exact Or.inl hp
  case once =>
    intro e p p' hown hp hp'
    rcases hnew hp with hp | ⟨hp, hins⟩ <;> rcases hnew hp' with hp' | ⟨hp', hins'⟩
    · exact hl.once hown hp hp'
    · obtain ⟨-, -, -, -, -, -, -, -, hnone⟩ := hl.first_file hf hown hd hins'
      exact absurd hp (hnone p)
    · obtain ⟨-, -, -, -, -, -, -, -, hnone⟩ := hl.first_file hf hown hd hins
      exact absurd hp' (hnone p')
    · exact hp.unique hp'
  case below =>
    intro e p hp
    rcases hnew hp with hp | ⟨⟨row, hrow, rfl⟩, -⟩
    · obtain ⟨c, hc, hle⟩ := hl.below hp
      obtain ⟨c', hc', hle'⟩ := hstep.counter hc
      exact ⟨c', hc', Nat.le_trans hle hle'⟩
    · obtain ⟨c, hc⟩ := hinv.row_channel hrow
      exact ⟨c, hc, hinv.row_le hrow hc⟩

/-- The order after a call of the journal: the first file is the oldest, so
everything accepted before it has its place already. -/
theorem OrderInv.call (h : OrderInv C B tr) (hl : LedgerInv C B tr s) (hf : FilesInv C B tr s)
    {call : Call} (hd : Drained C s call) (ho : ∀ r, o ≠ .accepted r)
    (hl' : LedgerInv C B (tr ++ [(i, o)]) s')
    (hj : s'.journal = ((Journal.machine B).step s.journal call).1)
    (hr : (machine C B).Run State.init tr s)
    (hgiven : ∀ {e p}, Given C B (tr ++ [(i, o)]) e p ↔ Given C B tr e p ∨
      Placed s'.journal.db e p) :
    OrderInv C B (tr ++ [(i, o)]) := by
  intro hlt
  rw [acceptedOf_snoc ho] at hlt ⊢
  refine (hlt.and (h hlt)).imp_of_mem ?_
  rintro r1 r2 hr1 hr2 ⟨htime, hfollows⟩ p2 hp2
  obtain ⟨hown1, -, -⟩ := hf.accepted hr1
  obtain ⟨hown2, -, hsmall⟩ := hf.accepted hr2
  -- Whichever place the earlier record has, it is this one.
  have hfix : ∀ {p1}, Given C B tr r1.donation.eventID p1 →
      (p1.channel = p2.channel → p1.offset < p2.offset) →
      (∃ p, Given C B (tr ++ [(i, o)]) r1.donation.eventID p) ∧
        ∀ p, Given C B (tr ++ [(i, o)]) r1.donation.eventID p → p.channel = p2.channel →
          p.offset < p2.offset := by
    intro p1 hp1 hoff
    refine ⟨⟨p1, hp1.snoc _⟩, ?_⟩
    intro p hp
    rw [hl'.once hown1 hp (hp1.snoc _)]
    exact hoff
  have hstep := step_ledger (B := B) s.journal call
  rw [← hj] at hstep
  have hcases : Given C B tr r2.donation.eventID p2 ∨
      Inserted call.clocks call.op s.journal.db r2.donation.eventID p2 := by
    rcases hgiven.mp hp2 with hp | hp
    · exact Or.inl hp
    · exact (hstep.back hp).imp_left (Given.of_placed hr)
  rcases hcases with hp2 | hins
  · obtain ⟨⟨p1, hp1⟩, hoff⟩ := hfollows p2 hp2
    exact hfix hp1 (hoff p1 hp1)
  · obtain ⟨name, r, rest, hqueue, hfile, he, -, -⟩ := hl.first_file hf hown2 hd hins
    obtain rfl : r = r2 := hf.record_unique (hf.file hfile).2 hr2 he
    rcases hf.kept hr1 with hfile1 | ⟨p1, hp1⟩
    · -- The earlier record would sort before the first file.
      have hname := (hf.file hfile).1
      have hmem : r1.file ∈ name :: rest := hqueue ▸ mem_names.mpr ⟨r1, hfile1⟩
      have hsorted := names_lt s.json
      rw [← hqueue] at hsorted
      have hfirst : name ≤ r1.file := by
        rcases List.mem_cons.mp hmem with heq | hin
        · exact heq.symm.le
        · exact ((List.pairwise_cons.mp hsorted).1 _ hin).le
      rw [hname] at hfirst
      exact absurd (file_lt htime hsmall) (not_lt_of_ge hfirst)
    · refine hfix hp1 ?_
      intro hch
      obtain ⟨c, hc, hle⟩ := hl.below hp1
      obtain ⟨c', hc', hoff⟩ := hins.offset
      rw [hch] at hc
      rw [hc.unique hc'] at hle
      omega

/-! ## Every step -/

theorem step_move (h : FilesInv C B tr s) (hr : (machine C B).Run State.init tr s)
    (hi : admits C s i) : Move C B tr s i (step C B s i) := by
  cases i with
  | save g d deadline now ok =>
    obtain ⟨hidle, hown, hnew, hsmall⟩ := hi
    have hseen : ∀ e ∈ s.seen, e ∈ d.eventID :: s.seen := fun _ he => List.mem_cons_of_mem _ he
    rw [step]
    cases hbegin : saveBegin C s g d deadline now ok with
    | error e =>
      refine .quiet rfl rfl hseen ⟨nofun, nofun⟩ ?_
      rw [hidle]
      trivial
    | ok ctl =>
      refine .quiet rfl rfl hseen silent_running ?_
      rw [saveBegin_ok hbegin]
      refine ⟨hown, List.mem_cons_self, fun r' hr' heq => ?_, hsmall⟩
      exact hnew (heq ▸ (h.accepted hr').2.1)
  | drain => exact .quiet rfl rfl (fun _ he => he) silent_running nofun
  | io ok now => exact fileStep_move s h.ctl ok now
  | append clocks uuid delivery =>
    have hgiven := fun e p => given_snoc hr hi (e := e) (p := p)
    have hctl := h.ctl
    simp only [step, appendStep] at hgiven ⊢
    generalize s.ctl = ctl at hctl hgiven ⊢
    cases ctl with
    | append caller name r rest =>
      obtain ⟨hcaller, hqueue, hfile⟩ := hctl
      have hd : Drained C s (appendCall clocks uuid r) := by
        intro g d acceptedAt hop _
        cases hop
        exact ⟨name, r, rest, hqueue, hfile, rfl, rfl, hi.2.2⟩
      cases delivery with
      | refused => exact .finish s _ hcaller
      | lost => exact .call hi.1 hd (silent_finish s _ hcaller) trivial
      | answered =>
        dsimp only at hgiven ⊢
        cases hreply : ((Journal.machine B).step s.journal (appendCall clocks uuid r)).2 with
        | error e => exact .call hi.1 hd (silent_finish s _ hcaller) trivial
        | ok reply =>
          rw [hreply] at hgiven
          obtain ⟨p, hp⟩ := step_append_placed hreply
          refine .call hi.1 hd ⟨nofun, nofun⟩ ?_
          rw [CtlInv, acceptedOf_snoc (o := .appended name r reply) nofun]
          exact ⟨hcaller, hqueue, r, hfile,
            ⟨_, reply, List.mem_append_right _ List.mem_cons_self⟩, p,
            (hgiven _ p).mpr (Or.inr hp)⟩
    | _ => exact .quiet rfl rfl (fun _ he => he) silent_running h.ctl
  | crash => exact .quiet rfl rfl (fun _ he => he) silent_running trivial
  | other call =>
    refine .call hi.1.1 ?_ ⟨nofun, nofun⟩ (h.ctl.snoc nofun)
    intro g d acceptedAt hop hown
    have hother := hi.2
    rw [hop, ownAppend, hown] at hother
    cases hother

/-- Every step keeps the invariants. -/
theorem SpoolInv.step (h : SpoolInv C B tr s) (hr : (machine C B).Run State.init tr s)
    (i : Input) (hi : admits C s i) :
    SpoolInv C B (tr ++ [(i, (DonationSpool.step C B s i).2)])
      (DonationSpool.step C B s i).1 := by
  have hmove := step_move h.files hr hi
  have hgiven := fun e p => given_snoc hr hi (e := e) (p := p)
  have hsame := fun hj e p => given_snoc_of_journal hr hi hj (e := e) (p := p)
  generalize DonationSpool.step C B s i = out at hmove hgiven hsame ⊢
  cases hmove with
  | quiet hjournal hjson hseen ho hctl =>
    have hsame := hsame hjournal
    exact ⟨h.files.advance hjson hseen ho (hctl.snoc ho.accepted),
      h.ledger.frame hjournal (hsame _ _), h.order.frame ho.accepted (hsame _ _)⟩
  | accept r pending hfresh =>
    have hsame := hsame rfl
    exact ⟨h.files.accept pending hfresh, h.ledger.frame rfl (hsame _ _),
      h.order.accept h.ledger hfresh (hsame _ _)⟩
  | remove hctl =>
    have hsame := hsame rfl
    exact ⟨h.files.remove hctl, h.ledger.frame rfl (hsame _ _), h.order.frame nofun (hsame _ _)⟩
  | call hclk hd ho hctl =>
    have hledger := h.ledger.call h.files hclk hd ho.accepted rfl hr (hgiven _ _)
    exact ⟨h.files.advance rfl (fun _ he => he) ho hctl, hledger,
      h.order.call h.ledger h.files hd ho.accepted hledger rfl hr (hgiven _ _)⟩

theorem SpoolInv.init : SpoolInv C B [] State.init := by
  have hnone : ∀ {e p}, ¬Given C B [] e p := by
    intro e p hp
    obtain ⟨row, hrow, -⟩ := Machine.sometime_nil.mp hp
    exact Table.has_empty _ _ hrow
  exact
    { files :=
        { file := fun h => absurd h (Table.has_empty _ _)
          accepted := nofun
          nodup := List.nodup_nil
          ctl := trivial
          kept := nofun
          returned := nofun }
      ledger :=
        { journal := JournalInv.empty
          own_given := fun _ hp => absurd hp hnone
          still := fun hp => absurd hp hnone
          once := fun _ hp => absurd hp hnone
          below := fun hp => absurd hp hnone }
      order := fun _ => List.Pairwise.nil }

/-- Every run keeps the invariants. -/
theorem run_spoolInv (hr : (machine C B).Run State.init tr s) : SpoolInv C B tr s := by
  induction hr with
  | nil => exact SpoolInv.init
  | snoc hr i hi ih => exact ih.step hr i hi

/-! ## Exactly once -/

/-- A file that a step removes was appended. -/
theorem SpoolInv.removed (h : SpoolInv C B tr s) (hr : (machine C B).Run State.init tr s)
    (hi : admits C s i) (hfile : s.json.Has name r)
    (hgone : ∀ r', ¬(DonationSpool.step C B s i).1.json.Has name r') : Appended tr name r := by
  have hmove := step_move h.files hr hi
  generalize DonationSpool.step C B s i = out at hmove hgone
  cases hmove with
  | quiet _ hjson => exact absurd (hjson ▸ hfile) (hgone r)
  | call => exact absurd hfile (hgone r)
  | accept r' pending hfresh =>
    by_cases hname : name = r'.file
    · exact absurd (Table.has_upsert.mpr (Or.inl ⟨hname, rfl⟩)) (hgone r')
    · exact absurd (Table.has_upsert.mpr (Or.inr ⟨hname, hfile⟩)) (hgone r)
  | @remove caller name' rest hctl =>
    obtain ⟨-, -, r', hfile', happ, -⟩ := hctl
    by_cases hname : name = name'
    · subst hname
      rw [hfile.unique hfile']
      exact happ
    · refine absurd (Table.has_delete.mpr ⟨hfile, ?_⟩) (hgone r)
      simpa using hname

/-- What the worker promises about a run: nothing `Save` accepted is lost, a
file goes only after its append was answered, an event keeps its first place
for good, and the places of one channel's records are given in the order of
their `Save`s when the worker's clock tells them apart. -/
structure ExactlyOnce (C : Config) (B : Backend) (tr : History) (s : State) : Prop where
  kept : ∀ d, SaveReturned tr d →
    (∃ name r, s.json.Has name r ∧ r.donation = d) ∨ ∃ p, Given C B tr d.eventID p
  removed : ∀ tr1 i o tr2 s1 name r, tr = tr1 ++ (i, o) :: tr2 →
    (machine C B).Run State.init tr1 s1 → s1.json.Has name r →
    (∀ r', ¬((machine C B).step s1 i).1.json.Has name r') → Appended tr1 name r
  once : ∀ e p p', C.own e = true → Given C B tr e p → Given C B tr e p' → p = p'
  ordered : (acceptedOf tr).Pairwise (fun r1 r2 => r1.acceptedAt < r2.acceptedAt) →
    (acceptedOf tr).Pairwise fun r1 r2 =>
      r1.donation.channelID = r2.donation.channelID → ∀ p1 p2,
        Given C B tr r1.donation.eventID p1 → Given C B tr r2.donation.eventID p2 →
          p1.offset < p2.offset

/-- Exactly-once acceptance, for every schedule of saves, drains, failures,
crashes, lost responses, retention and maintenance. -/
theorem exactly_once (C : Config) (B : Backend) (tr : History) (s : State)
    (hr : (machine C B).Run State.init tr s) : ExactlyOnce C B tr s := by
  have h := run_spoolInv hr
  constructor
  case kept =>
    intro d hd
    obtain ⟨r, hmem, rfl⟩ := h.files.returned hd
    rcases h.files.kept hmem with hfile | hp
    · exact Or.inl ⟨_, r, hfile, rfl⟩
    · exact Or.inr hp
  case removed =>
    rintro tr1 i o tr2 s1 name r rfl hr1 hfile hgone
    obtain ⟨s1', hr1', hi, -⟩ := hr.event
    obtain rfl := hr1'.unique hr1
    exact (run_spoolInv hr1).removed hr1 hi hfile hgone
  case once => exact fun e p p' hown hp hp' => h.ledger.once hown hp hp'
  case ordered =>
    intro hlt
    refine (h.order hlt).imp_of_mem ?_
    intro r1 r2 hr1 hr2 hfollows hch p1 p2 hp1 hp2
    -- The channel of a place is the channel of its record.
    have hplace : ∀ {r p}, r ∈ acceptedOf tr → Given C B tr r.donation.eventID p →
        p.channel = r.donation.channelID := by
      intro r p hmem hp
      obtain ⟨r', hr', he, hch', -⟩ := h.ledger.own_given (h.files.accepted hmem).1 hp
      rw [h.files.record_unique hmem hr' he.symm]
      exact hch'
    refine (hfollows p2 hp2).2 p1 hp1 ?_
    rw [hplace hr1 hp1, hplace hr2 hp2, hch]

/-! ### A commit whose response is lost -/

/-- The fixture's donation, one second after the grant. -/
def lostDonation : Donation :=
  Journal.fixtureDonation 1 "epoch" (Journal.hour + second)

def lostConfig : Config :=
  ⟨2 ^ 30, fun _ => some 900, fun e => e = lostDonation.eventID⟩

/-- Set up the journal, save; the append commits but its response is lost, so
the next drain replays it. -/
def lostResponse : List Input :=
  (Journal.fixtureCalls Journal.hour).map .other ++
  [ .save (Journal.fixtureGrant Journal.hour) lostDonation (Journal.hour + 30 * second)
      (fun _ => Journal.hour + second) true ] ++
  List.replicate 6 (.io true (Journal.hour + second)) ++
  [ .append (Clocks.still (Journal.hour + second)) "unused-2" .lost, .drain ] ++
  List.replicate 2 (.io true (Journal.hour + 3 * second)) ++
  [ .append (Clocks.still (Journal.hour + 3 * second)) "unused-3" .answered ] ++
  List.replicate 3 (.io true (Journal.hour + 3 * second))

/-- The run with its history. -/
def lostRun : State × History :=
  (machine lostConfig Journal.fixtureBackend).exec State.init lostResponse

theorem exactly_once_lostResponse :
    .saveReturned lostDonation none ∈ lostRun.2.map Prod.snd ∧ lostRun.1.json.keys = [] ∧
      (lostRun.1.journal.db.donations.find lostDonation.eventID).map (·.channelOffset) =
        some 1 ∧
      ExactlyOnce lostConfig Journal.fixtureBackend lostRun.2 lostRun.1 :=
  ⟨by decide, by decide, by decide, exactly_once _ _ _ _ (Machine.run_exec _ _ (by decide))⟩

end RogiCollector.Ports.DonationSpool
