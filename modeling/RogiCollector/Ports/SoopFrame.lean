import RogiCollector.Ports.SoopPacket

/-!
# Frames of the SOOP connector

`buildSoopPacket` and `parseSoopPackets` of `worker/internal/connector/soop.go`.
A packet is a header of fourteen bytes, `0x1B 0x09` and three decimal numbers
of fixed width, and as many bytes as the second of them says.  The parser looks
for a header at every position and moves on by one byte where there is none, or
where the body is not there in full.

The numbers are read by `strconv.Atoi`, which accepts a sign, and the slices of
the source panic when they are out of range: `none` below.
-/

namespace RogiCollector.Ports.Soop

open Verified
open Verified.Json (Text parseInt64)

def soopHeaderLen : Nat := 14

def soopFieldSep : UInt8 := 0x0C

/-! ## Building -/

def buildSoopPacket (cmd : Int) (body : Bytes) : Bytes :=
  0x1B :: 0x09 :: utf8 (zeroPadded 4 cmd) ++ utf8 (zeroPadded 6 body.length) ++ bytesOf "00" ++ body

/-! ## Parsing -/

/-- `strconv.Atoi`. -/
def atoi (s : Bytes) : Option Int := parseInt64 (lossy s)

/-- `raw[i]`. -/
def index (raw : Bytes) (i : Int) : Option UInt8 :=
  if 0 ≤ i ∧ i < raw.length then raw[i.toNat]? else none

/-- `raw[lo:hi]`. -/
def slice (raw : Bytes) (lo hi : Int) : Option Bytes :=
  if 0 ≤ lo ∧ lo ≤ hi ∧ hi ≤ raw.length then some ((raw.drop lo.toNat).take (hi - lo).toNat)
  else none

/-- `strings.TrimPrefix(body, soopFieldSep)`. -/
def trimPrefix (body : Bytes) : Bytes :=
  if body.head? = some soopFieldSep then body.tail else body

/-- `strings.TrimSuffix(body, soopFieldSep)`. -/
def trimSuffix (body : Bytes) : Bytes :=
  if body.getLast? = some soopFieldSep then body.dropLast else body

/-- The fields of a body. -/
def splitFields (body : Bytes) : List Bytes :=
  if trimSuffix (trimPrefix body) = [] then []
  else (trimSuffix (trimPrefix body)).splitOn soopFieldSep

/-- One pass of the loop of `parseSoopPackets`: the packet found at `pos`, if any,
and where the next pass looks. -/
def parseStep (raw : Bytes) (pos : Nat) : Option (Option SoopPacket × Nat) := do
  if (← index raw pos) ≠ 0x1B then return (none, pos + 1)
  if (← index raw (pos + 1)) ≠ 0x09 then return (none, pos + 1)
  match atoi (← slice raw (pos + 2) (pos + 6)), atoi (← slice raw (pos + 6) (pos + 12)),
      atoi (← slice raw (pos + 12) (pos + 14)) with
  | some cmd, some bodyLen, some ret =>
    if raw.length < pos + soopHeaderLen + bodyLen then return (none, pos + 1)
    let frame ← slice raw pos (pos + soopHeaderLen + bodyLen)
    let body ← slice raw (pos + soopHeaderLen) (pos + soopHeaderLen + bodyLen)
    return (some { cmd, ret, fields := splitFields body, raw := frame },
      (pos + soopHeaderLen + bodyLen).toNat)
  | _, _, _ => return (none, pos + 1)

/-! ### What one pass does -/

/-- The three numbers of a header. -/
structure Header where
  cmd : Int
  bodyLen : Int
  ret : Int
  deriving Repr, DecidableEq

/-- The bytes `raw[i:i+n]` of an input that is long enough. -/
def part (raw : Bytes) (i n : Nat) : Bytes := (raw.drop i).take n

/-- The header at a position, if the bytes there are one. -/
def headerAt (raw : Bytes) (pos : Nat) : Option Header :=
  if part raw pos 2 ≠ [0x1B, 0x09] then none
  else
    match atoi (part raw (pos + 2) 4), atoi (part raw (pos + 6) 6),
      atoi (part raw (pos + 12) 2) with
    | some cmd, some bodyLen, some ret => some { cmd, bodyLen, ret }
    | _, _, _ => none

/-- The packet with this header at a position. -/
def packetAt (raw : Bytes) (pos : Nat) (h : Header) : SoopPacket where
  cmd := h.cmd
  ret := h.ret
  fields := splitFields (part raw (pos + soopHeaderLen) h.bodyLen.toNat)
  raw := part raw pos (soopHeaderLen + h.bodyLen.toNat)

section Pass

variable {raw : Bytes} {pos : Nat}

theorem slice_eq {i n : Nat} (h : i + n ≤ raw.length) {lo hi : Int} (hlo : lo = i)
    (hhi : hi = i + n) : slice raw lo hi = some (part raw i n) := by
  rw [slice, if_pos (by omega), part, hlo, hhi]
  congr 3
  omega

theorem length_part {i n : Nat} (h : i + n ≤ raw.length) : (part raw i n).length = n := by
  rw [part, List.length_take, List.length_drop]
  omega

theorem index_eq (h : pos < raw.length) : index raw pos = some raw[pos] := by
  rw [index, if_pos (by omega), Int.toNat_natCast, List.getElem?_eq_getElem h]

theorem part_two (h : pos + 2 ≤ raw.length) :
    part raw pos 2 = [raw[pos], raw[pos + 1]] := by
  rw [part, List.drop_eq_getElem_cons (by omega), List.take_succ_cons,
    List.drop_eq_getElem_cons (by omega), List.take_succ_cons, List.take_zero]

/-- The part of a pass behind the header. -/
theorem parseBody_eq (h : Header) :
    (if (raw.length : Int) < pos + soopHeaderLen + h.bodyLen then
        some ((none : Option SoopPacket), pos + 1)
      else
        (slice raw pos (pos + soopHeaderLen + h.bodyLen)).bind fun frame =>
          (slice raw (pos + soopHeaderLen) (pos + soopHeaderLen + h.bodyLen)).bind fun body =>
            some (some { cmd := h.cmd, ret := h.ret, fields := splitFields body, raw := frame },
              (pos + soopHeaderLen + h.bodyLen).toNat)) =
      if (raw.length : Int) < pos + soopHeaderLen + h.bodyLen then some (none, pos + 1)
      else if h.bodyLen < 0 then none
      else some (some (packetAt raw pos h), pos + soopHeaderLen + h.bodyLen.toNat) := by
  by_cases hfits : (raw.length : Int) < pos + soopHeaderLen + h.bodyLen
  · rw [if_pos hfits, if_pos hfits]
  · rw [if_neg hfits, if_neg hfits]
    by_cases hneg : h.bodyLen < 0
    · have hbody : slice raw (pos + soopHeaderLen) (pos + soopHeaderLen + h.bodyLen) = none := by
        rw [slice, if_neg (by omega)]
      rw [if_pos hneg, hbody]
      cases slice raw pos (pos + soopHeaderLen + h.bodyLen) with
      | none | some => rfl
    · have hframe : slice raw pos (pos + soopHeaderLen + h.bodyLen) =
          some (part raw pos (soopHeaderLen + h.bodyLen.toNat)) :=
        slice_eq (by omega) rfl (by omega)
      have hbody : slice raw (pos + soopHeaderLen) (pos + soopHeaderLen + h.bodyLen) =
          some (part raw (pos + soopHeaderLen) h.bodyLen.toNat) :=
        slice_eq (by omega) (by omega) (by omega)
      have hnext : (pos + soopHeaderLen + h.bodyLen).toNat =
          pos + soopHeaderLen + h.bodyLen.toNat := by omega
      rw [if_neg hneg, hframe, hbody, Option.bind_some, Option.bind_some, hnext]
      rfl

/-- What one pass does, by the header it finds. -/
theorem parseStep_eq (hpos : pos + soopHeaderLen ≤ raw.length) :
    parseStep raw pos =
      match headerAt raw pos with
      | none => some (none, pos + 1)
      | some h =>
        if raw.length < pos + soopHeaderLen + h.bodyLen then some (none, pos + 1)
        else if h.bodyLen < 0 then none
        else some (some (packetAt raw pos h), pos + soopHeaderLen + h.bodyLen.toNat) := by
  have hlen : pos + 14 ≤ raw.length := hpos
  have hcmd : slice raw (pos + 2) (pos + 6) = some (part raw (pos + 2) 4) :=
    slice_eq (by omega) (by omega) (by omega)
  have hbodyLen : slice raw (pos + 6) (pos + 12) = some (part raw (pos + 6) 6) :=
    slice_eq (by omega) (by omega) (by omega)
  have hret : slice raw (pos + 12) (pos + 14) = some (part raw (pos + 12) 2) :=
    slice_eq (by omega) (by omega) (by omega)
  have hfirst : index raw pos = some raw[pos] := index_eq (by omega)
  have hnext : pos + 1 < raw.length := by omega
  have hsecond : index raw ((pos : Int) + 1) = some raw[pos + 1] := index_eq hnext
  rw [parseStep, headerAt, part_two (by omega)]
  simp only [hfirst, hsecond, hcmd, hbodyLen, hret, Option.bind_eq_bind, Option.bind_some,
    Option.pure_def]
  by_cases hmark : raw[pos] = 0x1B ∧ raw[pos + 1] = 0x09
  · rw [if_neg (not_not_intro hmark.1), if_neg (not_not_intro hmark.2),
      if_neg (by rw [hmark.1, hmark.2]; exact not_not_intro rfl)]
    cases atoi (part raw (pos + 2) 4) with
    | none => rfl
    | some cmd =>
      cases atoi (part raw (pos + 6) 6) with
      | none => rfl
      | some bodyLen =>
        cases atoi (part raw (pos + 12) 2) with
        | none => rfl
        | some ret => exact parseBody_eq { cmd, bodyLen, ret }
  · have hpart : [raw[pos], raw[pos + 1]] ≠ [0x1B, 0x09] := by
      intro heq
      simp only [List.cons.injEq, and_true] at heq
      exact hmark heq
    rw [if_pos hpart]
    by_cases hone : raw[pos] = 0x1B
    · have htwo : raw[pos + 1] ≠ 0x09 := fun htwo => hmark ⟨hone, htwo⟩
      rw [if_neg (not_not_intro hone), if_pos htwo]
    · rw [if_pos hone]

/-- A pass panics exactly at a header with a negative length. -/
theorem parseStep_eq_none_iff (hpos : pos + soopHeaderLen ≤ raw.length) :
    parseStep raw pos = none ↔ ∃ h, headerAt raw pos = some h ∧ h.bodyLen < 0 := by
  rw [parseStep_eq hpos]
  cases headerAt raw pos with
  | none => simp
  | some h =>
    by_cases hneg : h.bodyLen < 0
    · have hfits : ¬(raw.length : Int) < pos + soopHeaderLen + h.bodyLen := by omega
      simp only [if_neg hfits, if_pos hneg, true_iff]
      exact ⟨h, rfl, hneg⟩
    · simp only [Option.some.injEq, exists_eq_left', hneg, iff_false]
      split <;> exact Option.some_ne_none _

/-- A pass that returns found a packet that is there in full, or nothing. -/
theorem parseStep_cases (hpos : pos + soopHeaderLen ≤ raw.length) {found : Option SoopPacket}
    {next : Nat} (hstep : parseStep raw pos = some (found, next)) :
    (found = none ∧ next = pos + 1 ∧
        ∀ h, headerAt raw pos = some h → (raw.length : Int) < pos + soopHeaderLen + h.bodyLen) ∨
      ∃ h, headerAt raw pos = some h ∧ 0 ≤ h.bodyLen ∧
        pos + soopHeaderLen + h.bodyLen.toNat ≤ raw.length ∧
        found = some (packetAt raw pos h) ∧ next = pos + soopHeaderLen + h.bodyLen.toNat := by
  rw [parseStep_eq hpos] at hstep
  cases hheader : headerAt raw pos with
  | none =>
    simp only [hheader, Option.some.injEq, Prod.mk.injEq] at hstep
    exact Or.inl ⟨hstep.1.symm, hstep.2.symm, fun h hh => (Option.some_ne_none h hh.symm).elim⟩
  | some h =>
    simp only [hheader] at hstep
    by_cases hfits : (raw.length : Int) < pos + soopHeaderLen + h.bodyLen
    · simp only [if_pos hfits, Option.some.injEq, Prod.mk.injEq] at hstep
      refine Or.inl ⟨hstep.1.symm, hstep.2.symm, ?_⟩
      intro h' hh
      rwa [← Option.some.inj hh]
    · by_cases hneg : h.bodyLen < 0
      · rw [if_neg hfits, if_pos hneg] at hstep
        contradiction
      · simp only [if_neg hfits, if_neg hneg, Option.some.injEq, Prod.mk.injEq] at hstep
        exact Or.inr ⟨h, rfl, by omega, by omega, hstep.1.symm, hstep.2.symm⟩

theorem parseStep_lt (hpos : pos + soopHeaderLen ≤ raw.length) {found : Option SoopPacket}
    {next : Nat} (hstep : parseStep raw pos = some (found, next)) : pos < next := by
  rcases parseStep_cases hpos hstep with ⟨-, hnext, -⟩ | ⟨h, -, -, -, -, hnext⟩
  · omega
  · rw [soopHeaderLen] at hnext
    omega

end Pass

/-- The loop of `parseSoopPackets` from `pos` on. -/
def parseFrom (raw : Bytes) (pos : Nat) : Option (List SoopPacket) :=
  if hpos : pos + soopHeaderLen ≤ raw.length then
    match hstep : parseStep raw pos with
    | none => none
    | some (found, next) => (parseFrom raw next).map fun packets => found.toList ++ packets
  else some []
termination_by raw.length - pos
decreasing_by
  have hlt := parseStep_lt hpos hstep
  have hheader : 0 < soopHeaderLen := by decide
  omega

def parseSoopPackets (raw : Bytes) : Option (List SoopPacket) := parseFrom raw 0

section Loop

variable {raw : Bytes} {pos : Nat}

theorem parseFrom_end (hpos : raw.length < pos + soopHeaderLen) : parseFrom raw pos = some [] := by
  rw [parseFrom, dif_neg (by omega)]

theorem parseFrom_step (hpos : pos + soopHeaderLen ≤ raw.length) :
    parseFrom raw pos =
      match parseStep raw pos with
      | none => none
      | some (found, next) =>
        (parseFrom raw next).map fun packets => found.toList ++ packets := by
  rw [parseFrom, dif_pos hpos]
  split
  · rename_i hstep
    rw [hstep]
  · rename_i hstep
    rw [hstep]

end Loop

/-! ## Any input -/

/-- The positions at which the parser looks for a header: behind a packet that is
there in full, and one byte on from anything else. -/
inductive Scans (raw : Bytes) : Nat → Prop
  | start : Scans raw 0
  | skip {pos : Nat} (hscan : Scans raw pos) (hpos : pos + soopHeaderLen ≤ raw.length)
      (hnone : ∀ h, headerAt raw pos = some h →
        (raw.length : Int) < pos + soopHeaderLen + h.bodyLen) :
      Scans raw (pos + 1)
  | packet {pos : Nat} {h : Header} (hscan : Scans raw pos) (hheader : headerAt raw pos = some h)
      (hlen : 0 ≤ h.bodyLen) (hfits : pos + soopHeaderLen + h.bodyLen.toNat ≤ raw.length) :
      Scans raw (pos + soopHeaderLen + h.bodyLen.toNat)

/-- No header that the parser comes across has a negative length. -/
def NoNegativeLength (raw : Bytes) : Prop :=
  ∀ pos h, Scans raw pos → pos + soopHeaderLen ≤ raw.length → headerAt raw pos = some h →
    0 ≤ h.bodyLen

/-- Packets with the positions of their frames: every frame is a part of the
input from `pos` on with a header in front, and none begins before the end of
the one before. -/
structure LaidOut (raw : Bytes) (pos : Nat) (located : List (Nat × SoopPacket)) : Prop where
  frame : ∀ l ∈ located, pos ≤ l.1 ∧ slice raw l.1 (l.1 + l.2.raw.length) = some l.2.raw
  header : ∀ l ∈ located, soopHeaderLen ≤ l.2.raw.length ∧ l.2.raw.take 2 = [0x1B, 0x09]
  ordered : located.Pairwise fun a b => a.1 + a.2.raw.length ≤ b.1

section Total

variable {raw : Bytes} {pos : Nat}

theorem mark_of_headerAt {h : Header} (hheader : headerAt raw pos = some h) :
    part raw pos 2 = [0x1B, 0x09] := by
  rw [headerAt] at hheader
  by_contra hmark
  rw [if_pos hmark] at hheader
  contradiction

theorem LaidOut.cons {h : Header} {located : List (Nat × SoopPacket)}
    (hheader : headerAt raw pos = some h)
    (hfits : pos + soopHeaderLen + h.bodyLen.toNat ≤ raw.length)
    (hrest : LaidOut raw (pos + soopHeaderLen + h.bodyLen.toNat) located) :
    LaidOut raw pos ((pos, packetAt raw pos h) :: located) := by
  have hlength : (packetAt raw pos h).raw.length = soopHeaderLen + h.bodyLen.toNat :=
    length_part (by omega)
  have hmark : (packetAt raw pos h).raw.take 2 = [0x1B, 0x09] := by
    rw [← mark_of_headerAt hheader, packetAt, part, part, List.take_take, soopHeaderLen]
    congr 1
    omega
  constructor
  · intro l hl
    rcases List.mem_cons.mp hl with rfl | hl
    · rw [hlength]
      exact ⟨Nat.le_refl _, slice_eq (by omega) rfl rfl⟩
    · obtain ⟨hle, hslice⟩ := hrest.frame l hl
      exact ⟨by omega, hslice⟩
  · intro l hl
    rcases List.mem_cons.mp hl with rfl | hl
    · exact ⟨by rw [hlength]; omega, hmark⟩
    · exact hrest.header l hl
  · refine List.pairwise_cons.mpr ⟨?_, hrest.ordered⟩
    intro l hl
    have hle := (hrest.frame l hl).1
    rw [hlength]
    omega

theorem LaidOut.of_le {pos' : Nat} {located : List (Nat × SoopPacket)} (hle : pos ≤ pos')
    (h : LaidOut raw pos' located) : LaidOut raw pos located := by
  refine ⟨?_, h.header, h.ordered⟩
  intro l hl
  exact ⟨Nat.le_trans hle (h.frame l hl).1, (h.frame l hl).2⟩

/-- A panic at a position the parser comes to is a panic of the parser. -/
theorem parseSoopPackets_panics (hscan : Scans raw pos) (hpanic : parseFrom raw pos = none) :
    parseSoopPackets raw = none := by
  induction hscan with
  | start => exact hpanic
  | @skip pos hscan hpos hnone ih =>
    apply ih
    rw [parseFrom_step hpos, parseStep_eq hpos]
    cases hheader : headerAt raw pos with
    | none => simp only [hpanic, Option.map_none]
    | some h => simp only [if_pos (hnone h hheader), hpanic, Option.map_none]
  | @packet pos h hscan hheader hlen hfits ih =>
    apply ih
    have hpos : pos + soopHeaderLen ≤ raw.length := by omega
    have hin : ¬(raw.length : Int) < pos + soopHeaderLen + h.bodyLen := by omega
    rw [parseFrom_step hpos, parseStep_eq hpos, hheader]
    simp only [if_neg hin, if_neg (Int.not_lt.mpr hlen), hpanic, Option.map_none]

/-- From a position it comes to, the parser returns if it meets no negative length. -/
theorem parseFrom_laidOut (hneg : NoNegativeLength raw) (hscan : Scans raw pos) :
    ∃ located, parseFrom raw pos = some (located.map Prod.snd) ∧ LaidOut raw pos located := by
  induction pos using parseFrom.induct raw with
  | case1 pos hpos hpanic =>
    obtain ⟨h, hheader, hlt⟩ := (parseStep_eq_none_iff hpos).mp hpanic
    exact absurd (hneg pos h hscan hpos hheader) (Int.not_le.mpr hlt)
  | case2 pos hpos found next hstep ih =>
    rw [parseFrom_step hpos, hstep]
    rcases parseStep_cases hpos hstep with
      ⟨rfl, rfl, hnone⟩ | ⟨h, hheader, hlen, hfits, rfl, rfl⟩
    · obtain ⟨located, hparse, hlaid⟩ := ih (hscan.skip hpos hnone)
      refine ⟨located, ?_, hlaid.of_le (Nat.le_succ pos)⟩
      simp only [hparse, Option.map_some, Option.toList_none, List.nil_append]
    · obtain ⟨located, hparse, hlaid⟩ := ih (hscan.packet hheader hlen hfits)
      refine ⟨(pos, packetAt raw pos h) :: located, ?_, hlaid.cons hheader hfits⟩
      simp only [hparse, Option.map_some, Option.toList_some, List.singleton_append, List.map_cons]
  | case3 pos hpos =>
    exact ⟨[], parseFrom_end (by omega), by simp, by simp, List.Pairwise.nil⟩

/-- The parser returns, with frames that lie one behind the other in the input,
exactly if it comes across no header with a negative length. -/
theorem parseSoopPackets_iff (raw : Bytes) :
    (∃ located, parseSoopPackets raw = some (located.map Prod.snd) ∧ LaidOut raw 0 located) ↔
      NoNegativeLength raw := by
  constructor
  · rintro ⟨located, hparse, -⟩ pos h hscan hpos hheader
    by_contra hneg
    have hstep := (parseStep_eq_none_iff hpos).mpr ⟨h, hheader, Int.not_le.mp hneg⟩
    have hpanic : parseFrom raw pos = none := by rw [parseFrom_step hpos, hstep]
    rw [parseSoopPackets_panics hscan hpanic] at hparse
    contradiction
  · exact fun hneg => parseFrom_laidOut hneg Scans.start

/-- A frame of one header with the length −1. -/
def negativeFrame : Bytes := bytesOf "\x1b\t0005-0000100"

theorem negative_length_panics : parseSoopPackets negativeFrame = none := by
  have hstep : parseStep negativeFrame 0 = none := by decide
  have hpos : 0 + soopHeaderLen ≤ negativeFrame.length := by decide
  rw [parseSoopPackets, parseFrom_step hpos, hstep]

end Total

/-! ## Built packets -/

section Build

variable {cmd : Int} {body : Bytes}

theorem part_append (a b c : Bytes) : part (a ++ b ++ c) a.length b.length = b := by
  rw [part, List.append_assoc, List.drop_left, List.take_left]

theorem part_of_eq {raw a b c : Bytes} {i n : Nat} (hraw : raw = a ++ b ++ c) (hi : i = a.length)
    (hn : n = b.length) : part raw i n = b := by
  rw [hraw, hi, hn, part_append]

theorem length_utf8_zeroPadded {w n : Nat} (hw : 0 < w) (hn : n < 10 ^ w) :
    (utf8 (zeroPadded w n)).length = w := by
  rw [length_utf8_digits fun c hc => isDigit_of_mem_zeroPadded hc, length_zeroPadded hw hn]

/-- `strconv.Atoi` reads a padded number. -/
theorem atoi_zeroPadded {n : Nat} (w : Nat) (hn : n < 2 ^ 63) :
    atoi (utf8 (zeroPadded w n)) = some (n : Int) := by
  have hparse := parseUint_zeroPadded (n := n) w (by omega)
  have hsign : ∀ c : Char, c.isDigit = false → (zeroPadded w n).head? ≠ some c := by
    intro c hc hhead
    have hdigit := isDigit_of_mem_zeroPadded (List.mem_of_mem_head? hhead)
    rw [hc] at hdigit
    contradiction
  have hint : Json.parseInt (zeroPadded w n) = some (n : Int) := by
    rw [Json.parseInt, if_neg (hsign '-' (by decide)), hparse, if_pos rfl]
  rw [atoi, lossy_utf8, parseInt64, if_neg (hsign '+' (by decide)), hint, Option.bind_some,
    if_pos (by omega)]

/-- The packet that the parser finds in a built one. -/
def builtPacket (cmd : Int) (body : Bytes) : SoopPacket where
  cmd
  ret := 0
  fields := splitFields body
  raw := buildSoopPacket cmd body

variable {pre rest : Bytes}

theorem length_buildSoopPacket {cmd : Nat} (hcmd : cmd ≤ 9999) (hbody : body.length ≤ 999999) :
    (buildSoopPacket cmd body).length = soopHeaderLen + body.length := by
  have hnumber := length_utf8_zeroPadded (w := 4) (n := cmd) (by decide) (by omega)
  have hlength := length_utf8_zeroPadded (w := 6) (n := body.length) (by decide) (by omega)
  have hret : (bytesOf "00").length = 2 := by decide
  simp only [buildSoopPacket, List.length_cons, List.length_append, hnumber, hlength, hret,
    soopHeaderLen]

theorem drop_buildSoopPacket {cmd : Nat} (hcmd : cmd ≤ 9999) (hbody : body.length ≤ 999999) :
    (buildSoopPacket cmd body).drop soopHeaderLen = body := by
  have hlength := length_buildSoopPacket hcmd hbody
  obtain ⟨header, hheader⟩ : ∃ header, buildSoopPacket cmd body = header ++ body := ⟨_, rfl⟩
  have hlen : header.length = soopHeaderLen := by
    rw [hheader, List.length_append] at hlength
    omega
  rw [hheader, ← hlen, List.drop_left]

variable (pre rest) in
/-- The header of a built packet, wherever the packet stands. -/
theorem headerAt_build {cmd : Nat} (hcmd : cmd ≤ 9999) (hbody : body.length ≤ 999999) :
    headerAt (pre ++ buildSoopPacket cmd body ++ rest) pre.length =
      some { cmd, bodyLen := body.length, ret := 0 } := by
  have hnumber := length_utf8_zeroPadded (w := 4) (n := cmd) (by decide) (by omega)
  have hlength := length_utf8_zeroPadded (w := 6) (n := body.length) (by decide) (by omega)
  have hret : (bytesOf "00").length = 2 := by decide
  set raw := pre ++ buildSoopPacket cmd body ++ rest with hraw
  have hmark : part raw pre.length 2 = [0x1B, 0x09] :=
    part_of_eq (a := pre) (c := utf8 (zeroPadded 4 cmd) ++ utf8 (zeroPadded 6 body.length) ++
      bytesOf "00" ++ body ++ rest) (by simp [hraw, buildSoopPacket]) rfl rfl
  have hcmdPart : part raw (pre.length + 2) 4 = utf8 (zeroPadded 4 cmd) :=
    part_of_eq (a := pre ++ [0x1B, 0x09]) (c := utf8 (zeroPadded 6 body.length) ++
      bytesOf "00" ++ body ++ rest) (by simp [hraw, buildSoopPacket]) (by simp) hnumber.symm
  have hlenPart : part raw (pre.length + 6) 6 = utf8 (zeroPadded 6 body.length) :=
    part_of_eq (a := pre ++ [0x1B, 0x09] ++ utf8 (zeroPadded 4 cmd))
      (c := bytesOf "00" ++ body ++ rest) (by simp [hraw, buildSoopPacket])
      (by simp [hnumber]) hlength.symm
  have hretPart : part raw (pre.length + 12) 2 = bytesOf "00" :=
    part_of_eq (a := pre ++ [0x1B, 0x09] ++ utf8 (zeroPadded 4 cmd) ++
      utf8 (zeroPadded 6 body.length)) (c := body ++ rest) (by simp [hraw, buildSoopPacket])
      (by simp [hnumber, hlength]) hret.symm
  have hzero : atoi (bytesOf "00") = some 0 := by decide
  rw [headerAt, if_neg (not_not_intro hmark), hcmdPart, hlenPart, hretPart,
    atoi_zeroPadded 4 (by omega), atoi_zeroPadded 6 (by omega), hzero]

variable (pre rest) in
/-- A built packet is found where it stands, and the next pass looks behind it. -/
theorem parseFrom_build {cmd : Nat} (hcmd : cmd ≤ 9999) (hbody : body.length ≤ 999999) :
    parseFrom (pre ++ buildSoopPacket cmd body ++ rest) pre.length =
      (parseFrom (pre ++ buildSoopPacket cmd body ++ rest)
        (pre ++ buildSoopPacket cmd body).length).map fun packets =>
          builtPacket cmd body :: packets := by
  have hlength := length_buildSoopPacket hcmd hbody
  have hheader := headerAt_build pre rest hcmd hbody
  set raw := pre ++ buildSoopPacket cmd body ++ rest with hraw
  have htotal : raw.length = pre.length + (soopHeaderLen + body.length) + rest.length := by
    rw [hraw, List.length_append, List.length_append, hlength]
  have hfits : ¬(raw.length : Int) < pre.length + soopHeaderLen + (body.length : Int) := by omega
  have hframe : part raw pre.length (soopHeaderLen + body.length) = buildSoopPacket cmd body :=
    part_of_eq hraw rfl hlength.symm
  have hbodyPart : part raw (pre.length + soopHeaderLen) body.length = body := by
    have hdrop : part raw (pre.length + soopHeaderLen) body.length =
        (part raw pre.length (soopHeaderLen + body.length)).drop soopHeaderLen := by
      rw [part, part, List.drop_take, List.drop_drop, Nat.add_sub_cancel_left]
    rw [hdrop, hframe]
    exact drop_buildSoopPacket hcmd hbody
  have hpacket : packetAt raw pre.length { cmd, bodyLen := body.length, ret := 0 } =
      builtPacket cmd body := by
    rw [packetAt, builtPacket, Int.toNat_natCast, hframe, hbodyPart]
  rw [parseFrom_step (by omega), parseStep_eq (by omega), hheader]
  simp only [if_neg hfits, if_neg (Int.not_lt.mpr (Int.natCast_nonneg body.length)), hpacket,
    Int.toNat_natCast, Option.toList_some, List.singleton_append]
  rw [List.length_append, hlength, Nat.add_assoc]

/-- Bytes in front that hold no `0x1B` are passed over. -/
theorem parseFrom_skip {raw : Bytes} {n : Nat} (h : ∀ i, i < n → raw[i]? ≠ some 0x1B) :
    parseFrom raw n = parseSoopPackets raw := by
  induction n with
  | zero => rfl
  | succ n ih =>
    rw [← ih fun i hi => h i (Nat.lt_succ_of_lt hi)]
    by_cases hpos : n + soopHeaderLen ≤ raw.length
    · have hlen : n + 2 ≤ raw.length := Nat.le_trans (Nat.add_le_add_left (by decide) n) hpos
      have hnone : headerAt raw n = none := by
        have hbyte := h n (Nat.lt_succ_self n)
        rw [List.getElem?_eq_getElem (by omega), ne_eq, Option.some.injEq] at hbyte
        rw [headerAt, part_two hlen, if_pos fun heq => hbyte (List.cons.inj heq).1]
      rw [parseFrom_step hpos, parseStep_eq hpos, hnone]
      simp only [Option.toList_none, List.nil_append, Option.map_id']
    · rw [parseFrom_end (by omega), parseFrom_end (by omega)]

variable (pre) in
theorem parseFrom_buildAll (post : Bytes) {items : List (Int × Bytes)}
    (hcmd : ∀ item ∈ items, 0 ≤ item.1 ∧ item.1 ≤ 9999)
    (hbody : ∀ item ∈ items, item.2.length ≤ 999999) (hpost : post.length < soopHeaderLen) :
    parseFrom (pre ++ items.flatMap (fun item => buildSoopPacket item.1 item.2) ++ post)
        pre.length =
      some (items.map fun item => builtPacket item.1 item.2) := by
  -- what was parsed already moves into `pre`
  induction items generalizing pre with
  | nil =>
    apply parseFrom_end
    rw [List.flatMap_nil, List.append_nil, List.length_append]
    omega
  | cons item items ih =>
    obtain ⟨cmd, hcmd'⟩ := Int.eq_ofNat_of_zero_le (hcmd item List.mem_cons_self).1
    have hle : cmd ≤ 9999 := by
      have h := (hcmd item List.mem_cons_self).2
      omega
    have hrest := ih (pre ++ buildSoopPacket cmd item.2)
      (fun i hi => hcmd i (List.mem_cons_of_mem _ hi))
      (fun i hi => hbody i (List.mem_cons_of_mem _ hi))
    have hfirst := parseFrom_build pre
      (items.flatMap (fun item => buildSoopPacket item.1 item.2) ++ post) hle
      (hbody item List.mem_cons_self)
    simp only [List.append_assoc] at hfirst hrest
    simp only [List.flatMap_cons, List.map_cons, hcmd', List.append_assoc, hfirst, hrest,
      Option.map_some]

theorem parseSoopPackets_frames {items : List (Int × Bytes)}
    (hcmd : ∀ item ∈ items, 0 ≤ item.1 ∧ item.1 ≤ 9999)
    (hbody : ∀ item ∈ items, item.2.length ≤ 999999) :
    parseSoopPackets (items.flatMap fun item => buildSoopPacket item.1 item.2) =
      some (items.map fun item => builtPacket item.1 item.2) := by
  have hparse := parseFrom_buildAll [] [] hcmd hbody (by decide)
  rwa [List.nil_append, List.append_nil] at hparse

/-- Packets built one behind the other are read back, with bytes in front that hold
no `0x1B` and less than a header behind. -/
theorem parseSoopPackets_build (pre post : Bytes) (items : List (Int × Bytes))
    (hcmd : ∀ item ∈ items, 0 ≤ item.1 ∧ item.1 ≤ 9999)
    (hbody : ∀ item ∈ items, item.2.length ≤ 999999) (hpre : 0x1B ∉ pre)
    (hpost : post.length < soopHeaderLen) :
    parseSoopPackets
        (pre ++ items.flatMap (fun item => buildSoopPacket item.1 item.2) ++ post) =
      some (items.map fun item =>
        { cmd := item.1, ret := 0, fields := splitFields item.2
          raw := buildSoopPacket item.1 item.2 }) := by
  rw [← parseFrom_skip (n := pre.length), parseFrom_buildAll pre post hcmd hbody hpost]
  · rfl
  · intro i hi hbyte
    rw [List.append_assoc, List.getElem?_append_left hi] at hbyte
    exact hpre (List.mem_of_getElem? hbyte)

/-- A body that looks like a header is a field like any other. -/
theorem parseSoopPackets_build_header :
    parseSoopPackets ([0x00] ++
        [(5, bytesOf "\x0chello\x0cuser1\x0c\x0c\x0cnick1\x0c"), (10, negativeFrame)].flatMap
          (fun item => buildSoopPacket item.1 item.2) ++ [0x0A]) =
      some
        [{ cmd := 5, ret := 0
           fields := [bytesOf "hello", bytesOf "user1", [], [], bytesOf "nick1"]
           raw := buildSoopPacket 5 (bytesOf "\x0chello\x0cuser1\x0c\x0c\x0cnick1\x0c") },
         { cmd := 10, ret := 0, fields := [negativeFrame]
           raw := buildSoopPacket 10 negativeFrame }] :=
  (parseSoopPackets_build _ _ _ (by decide) (by decide) (by decide) (by decide)).trans
    (by decide)

end Build

end RogiCollector.Ports.Soop
