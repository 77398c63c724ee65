import RogiCollector.Ports.DonationJson

/-!
# A spool file reads back

Whatever bytes a donation has in its strings, the file `Save` writes for it
passes the checks `drain` makes before it calls the journal, and the donation
that comes out is the text of the one that went in.
-/

namespace RogiCollector.Ports.SpoolFile

open Verified
open Verified.Json
open Journal (Time StoreErr Donation OwnerGrant day)
open DonationSpool (SpoolRecord SpoolErr)

variable {E : Encoding}

/-! ## Parts of a record -/

theorem mem_omitEmpty {name : String} {o : Option Text} {m : String × Text} :
    m ∈ omitEmpty name o ↔ ∃ v, o = some v ∧ m = (name, v) := by
  cases o with
  | none | some => simp [omitEmpty]

theorem written_strings {bs : List Bytes} {v : Text} (h : E.strings bs = some v) : Written v := by
  cases bs with
  | nil => simp [Encoding.strings] at h
  | cons b bs =>
    obtain rfl := Option.some.inj h
    apply Written.array
    intro v hv
    obtain ⟨b', -, rfl⟩ := List.mem_map.mp hv
    exact Written.bytes b'

theorem forall_mem_omitEmpty {P : String × Text → Prop} {name : String} {o : Option Text} :
    (∀ m ∈ omitEmpty name o, P m) ↔ ∀ v, o = some v → P (name, v) := by
  cases o with
  | none | some => simp [omitEmpty]

/-! ## Donations -/

/-- The names of a donation's members, the optional ones where they are there. -/
def donationNames (source broadcast reasons related : Bool) : List String :=
  ["eventId", "channelId", "nativeBalloonCount", "donationKind", "donorId", "displayName",
    "message", "connectionEpoch", "connectionSequence", "observedAt", "connectionStartedAt"] ++
  (if source then ["sourceEventId"] else []) ++ (if broadcast then ["broadcastId"] else []) ++
  ["identityStatus"] ++ (if reasons then ["qualityReasons"] else []) ++
  (if related then ["relatedObservationIds"] else []) ++ ["journalGeneration", "channelOffset"]

/-- The optional names are not there when they were omitted. -/
theorem donationNames_spec : ∀ source broadcast reasons related,
    Names (donationNames source broadcast reasons related) 21 ∧
    foldName "sourceEventId".toList ∉
      (donationNames false broadcast reasons related).map (foldName ·.toList) ∧
    foldName "broadcastId".toList ∉
      (donationNames source false reasons related).map (foldName ·.toList) ∧
    foldName "qualityReasons".toList ∉
      (donationNames source broadcast false related).map (foldName ·.toList) ∧
    foldName "relatedObservationIds".toList ∉
      (donationNames source broadcast reasons false).map (foldName ·.toList) := by
  decide

theorem length_donationNames_le : ∀ source broadcast reasons related,
    (donationNames source broadcast reasons related).length ≤ 18 := by
  decide

theorem map_fst_omitEmpty (name : String) (o : Option Text) :
    (omitEmpty name o).map Prod.fst = if o.isSome then [name] else [] := by
  cases o with
  | none | some => rfl

namespace RawDonation

/-- Every string of a donation. -/
def strings (d : RawDonation) : List Bytes :=
  [d.eventID, d.channelID, d.kind, d.donorID, d.displayName, d.message, d.connectionEpoch] ++
    d.sourceID.toList ++ d.broadcastID.toList ++ [d.identity] ++ d.reasons ++ d.related ++
    [d.generation]

variable (E) (d : RawDonation) (observedAt connectionStartedAt : Text)

theorem map_fst_members :
    (d.members E observedAt connectionStartedAt).map Prod.fst =
      donationNames d.sourceID.isSome d.broadcastID.isSome (E.strings d.reasons).isSome
        (E.strings d.related).isSome := by
  simp only [members, List.map_append, map_fst_omitEmpty, Option.isSome_map]
  rfl

theorem length_members_le : (d.members E observedAt connectionStartedAt).length ≤ 18 := by
  have hlen := congrArg List.length (map_fst_members E d observedAt connectionStartedAt)
  rw [List.length_map] at hlen
  rw [hlen]
  exact length_donationNames_le _ _ _ _

variable {E} {d} {observedAt connectionStartedAt}

theorem isMembers (hobserved : Written observedAt) (hstarted : Written connectionStartedAt) :
    Members (d.members E observedAt connectionStartedAt) 21 := by
  have hpointer : ∀ o : Option Bytes, ∀ v, o.map E.bytes = some v → Written v := by
    intro o v hv
    obtain ⟨b, -, rfl⟩ := Option.map_eq_some_iff.mp hv
    exact Written.bytes b
  have hnat : ∀ n, Written (quotedNat n) := fun n => Written.quote _ _
  constructor
  · rw [map_fst_members]
    exact (donationNames_spec _ _ _ _).1
  · simp only [members, List.forall_mem_append, List.forall_mem_cons, forall_mem_omitEmpty,
      List.not_mem_nil, false_imp_iff, implies_true, and_true, Written.bytes, Written.int, hnat,
      hobserved, hstarted, true_and]
    exact ⟨⟨⟨hpointer _, hpointer _⟩, fun v => written_strings⟩, fun v => written_strings⟩

/-- A field whose member may have been omitted. -/
theorem field_optional {α : Type} (decode : α → Text → Option α) (held : α) (name : String)
    (o : Option Text) (hms : Members (d.members E observedAt connectionStartedAt) 21)
    (hin : ∀ raw, o = some raw → (name, raw) ∈ d.members E observedAt connectionStartedAt)
    (hout : o = none → foldName name.toList ∉ (donationNames d.sourceID.isSome
      d.broadcastID.isSome (E.strings d.reasons).isSome (E.strings d.related).isSome).map
        (foldName ·.toList)) :
    field decode name held
      ((d.members E observedAt connectionStartedAt).map fun m => (m.1.toList, m.2)) =
        o.elim (some held) (decode held) := by
  cases o with
  | none =>
    have hnames := hout rfl
    rw [← map_fst_members E d observedAt connectionStartedAt] at hnames
    exact Members.field_eq_held hnames
  | some raw => exact hms.field_eq (hin raw rfl)

theorem elim_pointerValue (o : Option Bytes) :
    (o.map E.bytes).elim (some none) (pointerValue none) = some (o.map textOf) := by
  cases o with
  | none => rfl
  | some b => exact pointerValue_bytes none b

theorem elim_stringsValue (bs : List Bytes) :
    (E.strings bs).elim (some []) (stringsValue []) = some (bs.map textOf) := by
  cases bs with
  | nil => rfl
  | cons b bs => exact stringsValue_bytes [] (b :: bs)

theorem field_sourceID (hms : Members (d.members E observedAt connectionStartedAt) 21) :
    field pointerValue "sourceEventId" none
      ((d.members E observedAt connectionStartedAt).map fun m => (m.1.toList, m.2)) =
        some (d.sourceID.map textOf) := by
  rw [field_optional pointerValue none "sourceEventId" (d.sourceID.map E.bytes) hms,
    elim_pointerValue]
  · intro raw hraw
    simp [members, mem_omitEmpty, hraw]
  · intro hnone
    rw [Option.map_eq_none_iff.mp hnone]
    exact (donationNames_spec false _ _ _).2.1

theorem field_broadcastID (hms : Members (d.members E observedAt connectionStartedAt) 21) :
    field pointerValue "broadcastId" none
      ((d.members E observedAt connectionStartedAt).map fun m => (m.1.toList, m.2)) =
        some (d.broadcastID.map textOf) := by
  rw [field_optional pointerValue none "broadcastId" (d.broadcastID.map E.bytes) hms,
    elim_pointerValue]
  · intro raw hraw
    simp [members, mem_omitEmpty, hraw]
  · intro hnone
    rw [Option.map_eq_none_iff.mp hnone]
    exact (donationNames_spec _ false _ _).2.2.1

theorem field_reasons (hms : Members (d.members E observedAt connectionStartedAt) 21) :
    field stringsValue "qualityReasons" []
      ((d.members E observedAt connectionStartedAt).map fun m => (m.1.toList, m.2)) =
        some (d.reasons.map textOf) := by
  rw [field_optional stringsValue [] "qualityReasons" (E.strings d.reasons) hms,
    elim_stringsValue]
  · intro raw hraw
    simp [members, mem_omitEmpty, hraw]
  · intro hnone
    rw [hnone]
    exact (donationNames_spec _ _ false _).2.2.2.1

theorem field_related (hms : Members (d.members E observedAt connectionStartedAt) 21) :
    field stringsValue "relatedObservationIds" []
      ((d.members E observedAt connectionStartedAt).map fun m => (m.1.toList, m.2)) =
        some (d.related.map textOf) := by
  rw [field_optional stringsValue [] "relatedObservationIds" (E.strings d.related) hms,
    elim_stringsValue]
  · intro raw hraw
    simp [members, mem_omitEmpty, hraw]
  · intro hnone
    rw [hnone]
    exact (donationNames_spec _ _ _ false).2.2.2.2

/-- Decoding a donation gives its text. -/
theorem decodeDonation_members (hobserved : IsTime E d.observedAt observedAt)
    (hstarted : IsTime E d.connectionStartedAt connectionStartedAt)
    (hcount : -2 ^ 63 ≤ d.count ∧ d.count ≤ 2 ^ 63 - 1) (hsequence : d.sequence < 2 ^ 64)
    (hoffset : d.offset < 2 ^ 64) :
    decodeDonation E zeroDonation (object (d.members E observedAt connectionStartedAt)) =
      some d.text := by
  have hms := isMembers (E := E) (d := d) hobserved.written hstarted.written
  have hstring := fun name b => hms.field_some name (stringValue_bytes (E := E) "" b)
  have hnative := hms.field_some "nativeBalloonCount"
    (intValue_intText 0 (by omega) hcount.1 hcount.2) (by simp [members])
  have heventID := hstring "eventId" d.eventID (by simp [members])
  have hchannelID := hstring "channelId" d.channelID (by simp [members])
  have hkind := hstring "donationKind" d.kind (by simp [members])
  have hdonorID := hstring "donorId" d.donorID (by simp [members])
  have hdisplayName := hstring "displayName" d.displayName (by simp [members])
  have hmessage := hstring "message" d.message (by simp [members])
  have hepoch := hstring "connectionEpoch" d.connectionEpoch (by simp [members])
  have hidentity := hstring "identityStatus" d.identity (by simp [members])
  have hgeneration := hstring "journalGeneration" d.generation (by simp [members])
  have hseq := hms.field_some "connectionSequence" (quotedNatValue_quotedNat 0 hsequence)
    (by simp [members])
  have hoff := hms.field_some "channelOffset" (quotedNatValue_quotedNat 0 hoffset)
    (by simp [members])
  have hobs := hms.field_some "observedAt" (hobserved.read 0) (by simp [members])
  have hstart := hms.field_some "connectionStartedAt" (hstarted.read 0) (by simp [members])
  rw [decodeDonation, if_neg (object_ne_null _)]
  exact bind_of_eq_some hms.readObject_eq <|
    bind_of_eq_some heventID <| bind_of_eq_some hchannelID <| bind_of_eq_some hnative <|
    bind_of_eq_some hkind <| bind_of_eq_some hdonorID <| bind_of_eq_some hdisplayName <|
    bind_of_eq_some hmessage <| bind_of_eq_some hepoch <| bind_of_eq_some hseq <|
    bind_of_eq_some hobs <| bind_of_eq_some hstart <| bind_of_eq_some (field_sourceID hms) <|
    bind_of_eq_some (field_broadcastID hms) <| bind_of_eq_some hidentity <|
    bind_of_eq_some (field_reasons hms) <| bind_of_eq_some (field_related hms) <|
    bind_of_eq_some hgeneration <| bind_of_eq_some hoff rfl

/-! ### Escaped zero bytes -/

theorem escapesNul_quotedNat (n : Nat) : escapesNul (quotedNat n) = false := by
  rw [quotedNat, escapesNul_quote_eq, decide_eq_false_iff_not]
  intro hmem
  obtain ⟨c, hc, heq⟩ := List.mem_map.mp hmem
  have hdigit := isDigit_of_mem_natText hc
  rw [Option.some.inj heq] at hdigit
  contradiction

theorem any_omitEmpty (name : String) (o : Option Text) :
    (omitEmpty name o).any (fun m => escapesNul m.2) = o.any escapesNul := by
  cases o with
  | none => rfl
  | some v => simp [omitEmpty]

theorem any_escapesNul_strings (bs : List Bytes) :
    (E.strings bs).any escapesNul = bs.any fun b => decide (0 ∈ b) := by
  cases bs with
  | nil => rfl
  | cons b bs =>
    have hcomplete : ∀ v ∈ (b :: bs).map E.bytes, Complete v := by
      intro v hv
      obtain ⟨b', -, rfl⟩ := List.mem_map.mp hv
      exact (Written.bytes b').complete
    rw [Encoding.strings, Option.any_some, (Complete.array hcomplete).2, List.any_map]
    simp only [Function.comp_def, escapesNul_bytes]
    simp

theorem any_escapesNul_pointer (o : Option Bytes) :
    (o.map E.bytes).any escapesNul = o.toList.any fun b => decide (0 ∈ b) := by
  cases o with
  | none => rfl
  | some b => simp [escapesNul_bytes]

/-- The text of a donation has an escaped U+0000 for every zero byte of its
strings, and no other. -/
theorem escapesNul_members (hobserved : IsTime E d.observedAt observedAt)
    (hstarted : IsTime E d.connectionStartedAt connectionStartedAt) :
    escapesNul (object (d.members E observedAt connectionStartedAt)) =
      d.strings.any fun b => decide (0 ∈ b) := by
  have hcount := (Complete.plain (backslash_notMem_intText d.count)).2
  rw [(isMembers hobserved.written hstarted.written).escapesNul_eq]
  simp only [members, strings, List.any_append, List.any_cons, List.any_nil, any_omitEmpty,
    any_escapesNul_pointer, any_escapesNul_strings, escapesNul_bytes, escapesNul_quotedNat, hcount,
    hobserved.plain, hstarted.plain, Bool.or_false, Bool.false_or, Bool.or_assoc]

/-! ### Sizes -/

theorem size_quotedNat_le {n : Nat} (h : n < 2 ^ 64) : size (quotedNat n) ≤ 482 := by
  have hdigits := size_natText_le (n := n) (k := 20) (by decide) (by omega)
  have hquote := size_quote_map_le false (natText n)
  rw [quotedNat]
  omega

theorem size_intText_le {n : Int} (h : n.natAbs < 2 ^ 64) : size (intText n) ≤ 81 := by
  cases n with
  | ofNat n =>
    have hdigits := size_natText_le (n := n) (k := 20) (by decide) (by simp at h; omega)
    rw [intText]
    omega
  | negSucc n =>
    have hdigits := size_natText_le (n := n + 1) (k := 20) (by decide) (by simp at h; omega)
    have hminus : '-'.utf8Size = 1 := by decide
    rw [intText, size_cons, hminus]
    omega

/-- What a string takes at most, with the comma behind it. -/
def width (b : Bytes) : Nat := 6 * b.length + 3

theorem sum_size_pointer_le (name : String) (o : Option Bytes) :
    ((omitEmpty name (o.map E.bytes)).map fun m => size m.2).sum ≤ (o.toList.map width).sum := by
  cases o with
  | none => simp [omitEmpty]
  | some b =>
    have hb := size_bytes_le (E := E) b
    simp only [omitEmpty, Option.map_some, List.map_cons, List.map_nil, List.sum_cons,
      List.sum_nil, Option.toList_some, width]
    omega

theorem sum_size_strings_le (name : String) (bs : List Bytes) :
    ((omitEmpty name (E.strings bs)).map fun m => size m.2).sum ≤ (bs.map width).sum + 2 := by
  cases bs with
  | nil => simp [omitEmpty, Encoding.strings]
  | cons b bs =>
    have harray := size_array_le ((b :: bs).map E.bytes)
    have hsum : (((b :: bs).map E.bytes).map fun v => size v + 1).sum ≤
        ((b :: bs).map width).sum := by
      rw [List.map_map]
      exact List.sum_le_sum fun b' _ => Nat.succ_le_succ (size_bytes_le b')
    simp only [omitEmpty, Encoding.strings, List.map_cons, List.map_nil, List.sum_cons,
      List.sum_nil] at harray hsum ⊢
    omega

theorem size_members_le (hobserved : IsTime E d.observedAt observedAt)
    (hstarted : IsTime E d.connectionStartedAt connectionStartedAt)
    (hcount : d.count.natAbs < 2 ^ 64)
    (hsequence : d.sequence < 2 ^ 64) (hoffset : d.offset < 2 ^ 64) :
    size (object (d.members E observedAt connectionStartedAt)) ≤
      (d.strings.map width).sum + 4000 := by
  have hlen := length_members_le E d observedAt connectionStartedAt
  have hobject := (isMembers (E := E) (d := d) hobserved.written hstarted.written).size_le
  have hvalues : ((d.members E observedAt connectionStartedAt).map fun m => size m.2).sum ≤
      (d.strings.map width).sum + 1500 := by
    have hb := fun b => size_bytes_le (E := E) b
    have hsource := sum_size_pointer_le (E := E) "sourceEventId" d.sourceID
    have hbroadcast := sum_size_pointer_le (E := E) "broadcastId" d.broadcastID
    have hreasons := sum_size_strings_le (E := E) "qualityReasons" d.reasons
    have hrelated := sum_size_strings_le (E := E) "relatedObservationIds" d.related
    have hseq := size_quotedNat_le hsequence
    have hoff := size_quotedNat_le hoffset
    have hnum := size_intText_le hcount
    have hobs := hobserved.size_le
    have hstart := hstarted.size_le
    have hevent := hb d.eventID
    have hchannel := hb d.channelID
    have hkind := hb d.kind
    have hdonor := hb d.donorID
    have hname := hb d.displayName
    have hmessage := hb d.message
    have hepoch := hb d.connectionEpoch
    have hidentity := hb d.identity
    have hgeneration := hb d.generation
    simp only [members, strings, List.map_append, List.map_cons, List.map_nil, List.sum_append,
      List.sum_cons, List.sum_nil, width] at hsource hbroadcast hreasons hrelated ⊢
    omega
  omega

theorem marshal_eq_some {t : Text} (h : d.marshal E = some t) : ∃ observedAt connectionStartedAt,
    IsTime E d.observedAt observedAt ∧ IsTime E d.connectionStartedAt connectionStartedAt ∧
      t = object (d.members E observedAt connectionStartedAt) := by
  obtain ⟨observedAt, hobserved, hrest⟩ := Option.bind_eq_some_iff.mp h
  obtain ⟨connectionStartedAt, hstarted, heq⟩ := Option.bind_eq_some_iff.mp hrest
  exact ⟨observedAt, connectionStartedAt, isTime hobserved, isTime hstarted,
    (Option.some.inj heq).symm⟩

/-- The strings of a donation's text are the texts of its strings. -/
theorem strings_rawOf_text :
    (rawOf d.text).strings = d.strings.map fun b => bytesOf (textOf b) := by
  cases hsource : d.sourceID <;> cases hbroadcast : d.broadcastID <;>
    simp [rawOf, text, strings, hsource, hbroadcast, Function.comp_def]

theorem isSome_marshal_iff :
    (d.marshal E).isSome = true ↔
      (E.time d.observedAt).isSome = true ∧ (E.time d.connectionStartedAt).isSome = true := by
  rw [RawDonation.marshal]
  cases E.time d.observedAt with
  | none => simp
  | some observedAt =>
    cases E.time d.connectionStartedAt with
    | none | some => simp

end RawDonation

/-! ## Grants -/

/-- How a grant is encoded. -/
structure IsGrant (E : Encoding) (g : OwnerGrant) (t : Text) : Prop where
  written : Written t
  read : ∀ held, decodeGrant E held t = some g
  size_le : size t ≤
    6 * (g.token.utf8ByteSize + g.channel.utf8ByteSize + g.generation.utf8ByteSize) + 1000

variable {g : OwnerGrant}

theorem isGrant {t : Text} (h : marshalGrant E g = some t) : IsGrant E g t := by
  obtain ⟨grantedAt, hgranted, hrest⟩ := Option.bind_eq_some_iff.mp h
  obtain ⟨validUntil, hvalid, heq⟩ := Option.bind_eq_some_iff.mp hrest
  obtain rfl := Option.some.inj heq
  have hgranted := isTime hgranted
  have hvalid := isTime hvalid
  have hms : Members [("token", E.string g.token), ("channel", E.string g.channel),
      ("generation", E.string g.generation), ("grantedAt", grantedAt),
      ("validUntil", validUntil)] 10 := by
    refine ⟨by simp only [List.map_cons, List.map_nil]; decide, ?_⟩
    simp only [List.forall_mem_cons, List.not_mem_nil, false_imp_iff, implies_true, and_true]
    exact ⟨Written.bytes _, Written.bytes _, Written.bytes _, hgranted.written, hvalid.written⟩
  refine ⟨hms.object, ?_, ?_⟩
  · intro held
    have hstring := fun name s held => hms.field_some name (stringValue_string (E := E) held s)
    rw [decodeGrant, if_neg (object_ne_null _)]
    exact bind_of_eq_some hms.readObject_eq <|
      bind_of_eq_some (hstring "token" g.token _ (by simp)) <|
      bind_of_eq_some (hstring "channel" g.channel _ (by simp)) <|
      bind_of_eq_some (hstring "generation" g.generation _ (by simp)) <|
      bind_of_eq_some (hms.field_some "grantedAt" (hgranted.read _) (by simp)) <|
      bind_of_eq_some (hms.field_some "validUntil" (hvalid.read _) (by simp)) rfl
  · have hobject := hms.size_le
    have htoken := size_bytes_le (E := E) (bytesOf g.token)
    have hchannel := size_bytes_le (E := E) (bytesOf g.channel)
    have hgeneration := size_bytes_le (E := E) (bytesOf g.generation)
    have hgrantedSize := hgranted.size_le
    have hvalidSize := hvalid.size_le
    simp only [List.map_cons, List.map_nil, List.sum_cons, List.sum_nil, List.length_cons,
      List.length_nil, Encoding.string, length_bytesOf] at hobject htoken hchannel hgeneration ⊢
    omega

/-! ## Records and files -/

/-- The numbers of a donation fit their types. -/
structure RawDonation.InRange (d : RawDonation) : Prop where
  count : -2 ^ 63 ≤ d.count ∧ d.count ≤ 2 ^ 63 - 1
  sequence : d.sequence < 2 ^ 64
  offset : d.offset < 2 ^ 64

/-- What the strings of a record take at most. -/
def recordWidth (g : OwnerGrant) (d : RawDonation) : Nat :=
  6 * (g.token.utf8ByteSize + g.channel.utf8ByteSize + g.generation.utf8ByteSize) +
    (d.strings.map RawDonation.width).sum

/-- How a record is encoded. -/
structure IsRecord (E : Encoding) (g : OwnerGrant) (d : RawDonation) (acceptedAt : Time)
    (t : Text) : Prop where
  written : Written t
  read : decodeRecord E t = some ⟨g, d.text, acceptedAt⟩
  size_le : size t ≤ recordWidth g d + 6000

variable {acceptedAt : Time}

theorem isRecord {d : RawDonation} {t : Text} (hd : d.InRange)
    (h : marshalRecord E g d acceptedAt = some t) :
    IsRecord E g d acceptedAt t := by
  obtain ⟨grant, hgrant, hrest⟩ := Option.bind_eq_some_iff.mp h
  obtain ⟨donation, hdonation, hrest⟩ := Option.bind_eq_some_iff.mp hrest
  obtain ⟨accepted, haccepted, heq⟩ := Option.bind_eq_some_iff.mp hrest
  obtain rfl := Option.some.inj heq
  have hgrant := isGrant hgrant
  have haccepted := isTime haccepted
  obtain ⟨observedAt, connectionStartedAt, hobserved, hstarted, rfl⟩ :=
    RawDonation.marshal_eq_some hdonation
  have hdonationWritten :=
    (RawDonation.isMembers (E := E) (d := d) hobserved.written hstarted.written).object
  have hdecode :=
    RawDonation.decodeDonation_members hobserved hstarted hd.count hd.sequence hd.offset
  have hdonationSize := RawDonation.size_members_le hobserved hstarted
    (by have := hd.count; omega) hd.sequence hd.offset
  generalize object (d.members E observedAt connectionStartedAt) = donation at *
  have hms : Members [("grant", grant), ("donation", donation), ("acceptedAt", accepted)] 10 := by
    refine ⟨by simp only [List.map_cons, List.map_nil]; decide, ?_⟩
    simp only [List.forall_mem_cons, List.not_mem_nil, false_imp_iff, implies_true, and_true]
    exact ⟨hgrant.written, hdonationWritten, haccepted.written⟩
  refine ⟨hms.object, ?_, ?_⟩
  · refine bind_of_eq_some hms.object.value.document_eq ?_
    rw [if_neg (object_ne_null _)]
    refine bind_of_eq_some hms.readObject_eq ?_
    exact bind_of_eq_some (hms.field_some "grant" (hgrant.read _) (by simp)) <|
      bind_of_eq_some (hms.field_some "donation" hdecode (by simp)) <|
      bind_of_eq_some (hms.field_some "acceptedAt" (haccepted.read _) (by simp)) rfl
  · have hobject := hms.size_le
    have hgrantSize := hgrant.size_le
    have hacceptedSize := haccepted.size_le
    simp only [List.map_cons, List.map_nil, List.sum_cons, List.sum_nil, List.length_cons,
      List.length_nil] at hobject ⊢
    rw [recordWidth]
    omega

/-- An envelope around a record that the encoder wrote. -/
theorem decodeEnvelope_marshal (checksum : String) {raw : Text} (h : Written raw) :
    decodeEnvelope (marshalEnvelope E checksum raw) = some ⟨1, checksum, raw⟩ ∧
      size (marshalEnvelope E checksum raw) ≤ 6 * checksum.utf8ByteSize + size raw + 300 := by
  rw [marshalEnvelope, h.settled.compact_eq]
  have hms :
      Members [("version", intText 1), ("checksum", E.string checksum), ("record", raw)] 8 := by
    refine ⟨by simp only [List.map_cons, List.map_nil]; decide, ?_⟩
    simp only [List.forall_mem_cons, List.not_mem_nil, false_imp_iff, implies_true, and_true]
    exact ⟨Written.int 1, Written.bytes _, h⟩
  constructor
  · refine bind_of_eq_some hms.object.value.document_eq ?_
    rw [if_neg (object_ne_null _)]
    refine bind_of_eq_some hms.readObject_eq ?_
    refine bind_of_eq_some (hms.field_some "version"
      (intValue_intText (n := 1) 0 (by decide) (by decide) (by decide)) (by simp)) ?_
    refine bind_of_eq_some (hms.field_some "checksum"
      (stringValue_string (E := E) "" checksum) (by simp)) ?_
    exact bind_of_eq_some (hms.field_eq (by simp : ("record", raw) ∈ _)) rfl
  · have hobject := hms.size_le
    have hsum := size_bytes_le (E := E) (bytesOf checksum)
    have hone : size (intText 1) = 1 := by decide
    simp only [List.map_cons, List.map_nil, List.sum_cons, List.sum_nil, List.length_cons,
      List.length_nil, Encoding.string, length_bytesOf] at hobject hsum ⊢
    omega

/-- Compacting leaves the record alone, so that its checksum still fits and
`drain` gets the donation's text. -/
theorem readFile_saveFile {d : RawDonation} {now : Time} {file : Text} (hd : d.InRange)
    (hwidth : recordWidth g d ≤ 1000000) (h : saveFile E g d acceptedAt = some file) :
    readFile E now file =
      if acceptedAt + 30 * day < now then .error (.new "old spool record: recovery required")
      else .ok ⟨g, d.text, acceptedAt⟩ := by
  obtain ⟨raw, hraw, rfl⟩ := Option.map_eq_some_iff.mp h
  have hrecord := isRecord hd hraw
  have hrecordSize := hrecord.size_le
  have hhash := E.sha256Hex_size raw
  obtain ⟨hdecode, hsize⟩ :=
    decodeEnvelope_marshal (E := E) (E.sha256Hex raw) hrecord.written
  have hlimit : ¬2 ^ 20 < size (marshalEnvelope E (E.sha256Hex raw) raw) := by omega
  rw [readFile, if_neg hlimit, hdecode]
  simp only [ne_eq, not_true_eq_false, if_false, hrecord.read]

theorem isSome_marshal_of_saveFile {d : RawDonation} {file : Text}
    (h : saveFile E g d acceptedAt = some file) : (d.marshal E).isSome = true := by
  obtain ⟨raw, hraw, -⟩ := Option.map_eq_some_iff.mp h
  obtain ⟨grant, -, hrest⟩ := Option.bind_eq_some_iff.mp hraw
  obtain ⟨donation, hdonation, -⟩ := Option.bind_eq_some_iff.mp hrest
  rw [hdonation]
  rfl

end RogiCollector.Ports.SpoolFile
