import Mathlib.Data.List.Infix
import RogiCollector.Ports.CookieWriter
import RogiCollector.Verified.JsonScan

/-!
# The cookie snapshot as the collector reads it

`Header` reads the snapshot for a request to the player API.  It checks names, values and
paths once more, in its own way, and one cookie that does not pass makes it refuse the
whole file.  Everything that `cookie-auth` stores passes, with two exceptions that have to
do with the size of numbers: an expiry or a time from 2⁶³ on does not fit the fields, and
the age is counted from the whole second of the time.

## Main definitions

* `header` — the `Cookie` header for a target, or an error.
* `Readable` — the numbers of a snapshot fit, and it is not too old.
-/

namespace RogiCollector.Ports.Cookies

open Verified
open Verified.Json

/-- Times of Go are nanoseconds since 1970. -/
def second : Int := 1000000000

/-! ## Decoding -/

structure Cookie where
  name : String
  value : String
  domain : String
  path : String
  secure : Bool
  expires : Int
  deriving Repr, DecidableEq

def zeroCookie : Cookie := ⟨"", "", "", "", false, 0⟩

structure State where
  version : Int
  updatedAt : Int
  cookies : List Cookie
  deriving Repr, DecidableEq

def zeroState : State := ⟨0, 0, []⟩

/-- `int64`, and `int` where the collector runs. -/
def int64Value : Int → Text → Option Int := intValue (-2 ^ 63) (2 ^ 63 - 1)

def cookieValue (held : Cookie) (raw : Text) : Option Cookie :=
  if raw = nullText then some held
  else do
    let ms ← readObject raw
    return {
      name := ← field stringValue "name" held.name ms
      value := ← field stringValue "value" held.value ms
      domain := ← field stringValue "domain" held.domain ms
      path := ← field stringValue "path" held.path ms
      secure := ← field boolValue "secure" held.secure ms
      expires := ← field int64Value "expires" held.expires ms }

/-- A slice of cookies: an element is decoded over the one that stands in its place. -/
def cookiesValue (held : List Cookie) (raw : Text) : Option (List Cookie) :=
  if raw = nullText then some []
  else do
    let elements ← readArray raw
    elements.zipIdx.mapM fun e => cookieValue (held.getD e.2 zeroCookie) e.1

/-- `json.Unmarshal(data, &state)`. -/
def readSnapshot (data : Text) : Option State := do
  let raw ← document data
  if raw = nullText then return zeroState
  let ms ← readObject raw
  return {
    version := ← field int64Value "version" 0 ms
    updatedAt := ← field int64Value "updated_at" 0 ms
    cookies := ← field cookiesValue "cookies" [] ms }

/-! ## Matching -/

/-- A URL, as far as it is looked at. -/
structure Target where
  scheme : String
  user : Option String
  hostname : String
  escapedPath : String
  deriving Repr, DecidableEq

/-- The player API. -/
def playerAPI : Target := ⟨"https", none, "live.sooplive.com", "/afreeca/player_live_api.php"⟩

inductive HeaderErr where
  | targetRejected
  | cookieUnavailable
  deriving Repr, DecidableEq

section Reader

variable (U : Unicode)

/-- `strings.ToLower`. -/
def toLower (t : Text) : Text := t.map U.runeLower

def allowedHost (host : Text) : Bool :=
  ["sooplive.co.kr", "sooplive.com"].any fun root =>
    toLower U host = root.toList ∨ ('.' :: root.toList) <:+ toLower U host

def pathMatches (path cookiePath : Text) : Bool :=
  path = cookiePath ∨
    (cookiePath <+: path ∧ (['/'] <:+ cookiePath ∨ path[cookiePath.length]? = some '/'))

/-- `strings.TrimPrefix(domain, ".")`. -/
def trimDot (domain : Text) : Text := if domain.head? = some '.' then domain.tail else domain

/-- The cookie belongs to the host. -/
def hostMatches (host domain : Text) : Bool :=
  allowedHost U (trimDot domain) ∧
    (host = trimDot domain ∨ (domain.head? = some '.' ∧ ('.' :: trimDot domain) <:+ host))

/-- `now.Unix()`. -/
def unix (now : Int) : Int := now / second

/-- The cookie is sent to the host and path: not skipped by a `continue`. -/
def selected (host path : Text) (now : Int) (c : Cookie) : Bool :=
  hostMatches U host (toLower U c.domain.toList) ∧ c.path.toList.head? = some '/' ∧
    pathMatches path c.path.toList ∧ ¬c.expires < 0 ∧ ¬(c.expires ≠ 0 ∧ c.expires ≤ unix now)

/-- A character of a token of RFC 7230. -/
def isTokenChar (c : Char) : Bool :=
  c.isAlphanum ∨ c ∈ "!#$%&'*+-.^_`|~".toList

def validValueChar (c : Char) : Bool :=
  0x20 ≤ c.toNat ∧ c.toNat < 0x7f ∧ c ≠ '"' ∧ c ≠ ';' ∧ c ≠ '\\'

def validPathChar (c : Char) : Bool := 0x20 ≤ c.toNat ∧ c.toNat < 0x7f ∧ c ≠ ';'

/-- `Valid` of an `http.Cookie` with name, value and path. -/
def Cookie.valid (c : Cookie) : Bool :=
  c.name ≠ "" ∧ c.name.toList.all isTokenChar ∧ c.value.toList.all validValueChar ∧
    c.path.toList.all validPathChar

/-- The loop over the cookies: those that are sent, none if one of them is not valid. -/
def collect (host path : Text) (now : Int) : List Cookie → Option (List Cookie)
  | [] => some []
  | c :: cs =>
    if selected U host path now c then
      if c.value = "" ∨ ¬c.valid then none
      else (collect host path now cs).map (c :: ·)
    else collect host path now cs

/-- `name=value` as `AddCookie` writes it, in quotation marks if there is a space or comma. -/
def Cookie.pair (c : Cookie) : Text :=
  let name := c.name.toList.map fun r => if r = '\n' ∨ r = '\r' then '-' else r
  let value := c.value.toList.filter validValueChar
  if ' ' ∈ value ∨ ',' ∈ value then name ++ '=' :: '"' :: (value ++ ['"'])
  else name ++ '=' :: value

/-- The header, cookies with longer paths first. -/
def headerText (matched : List Cookie) : Text :=
  (((matched.mergeSort fun c c' => c'.path.utf8ByteSize ≤ c.path.utf8ByteSize).map
    Cookie.pair).intersperse "; ".toList).flatten

def maxSnapshotAge : Int := 48 * 3600 * second

/-- `Header` from where the snapshot was decoded. -/
def State.header (state : State) (host path : Text) (now : Int) : Except HeaderErr Text :=
  if state.version ≠ 1 ∨ state.updatedAt ≤ 0 ∨ 300 < state.cookies.length then
    .error .cookieUnavailable
  else if now - state.updatedAt * second < -60 * second ∨
      maxSnapshotAge ≤ now - state.updatedAt * second then
    .error .cookieUnavailable
  else
    match collect U host path now state.cookies with
    | none => .error .cookieUnavailable
    | some matched =>
      if matched.any (·.name = "AuthTicket") ∧ matched.any (·.name = "UserTicket") then
        .ok (headerText matched)
      else .error .cookieUnavailable

/-- The path of a URL without one. -/
def Target.path (target : Target) : Text :=
  if target.escapedPath = "" then ['/'] else target.escapedPath.toList

/-- `Header`; there is no file, or it has this text. -/
def header (file : Option Text) (target : Option Target) (now : Int) :
    Except HeaderErr Text :=
  match target with
  | none => .error .targetRejected
  | some target =>
    if target.scheme ≠ "https" ∨ target.user.isSome ∨ !allowedHost U target.hostname.toList then
      .error .targetRejected
    else
      match file with
      | none => .error .cookieUnavailable
      | some data =>
        if maxBytes < size data then .error .cookieUnavailable
        else
          match readSnapshot data with
          | none => .error .cookieUnavailable
          | some state =>
            state.header U (toLower U target.hostname.toList) target.path now

end Reader

/-! ## Reading what was written -/

/-- The cookie as it is decoded. -/
def StoredCookie.received (c : StoredCookie) : Cookie :=
  ⟨String.ofList (Json.received c.name), String.ofList (Json.received c.value),
    String.ofList (Json.received c.domain), String.ofList (Json.received c.path), c.secure,
    c.expires⟩

def fitsInt64 (n : Int) : Bool := -2 ^ 63 ≤ n ∧ n ≤ 2 ^ 63 - 1

theorem int64Value_intText (held n : Int) :
    int64Value held (intText n) = if fitsInt64 n then some n else none := by
  rw [int64Value, intValue_eq (by norm_num) (by norm_num)]
  simp only [fitsInt64, decide_eq_true_eq]

theorem isValue_members (c : StoredCookie) : ∀ m ∈ c.members, IsValue m.2 := by
  simp only [StoredCookie.members, List.forall_mem_cons, List.not_mem_nil, false_imp_iff,
    implies_true, and_true]
  exact ⟨IsValue.dumps _, IsValue.dumps _, IsValue.dumps _, IsValue.dumps _, IsValue.bool _,
    IsValue.bool _, IsValue.int _⟩

theorem nodup_members (c : StoredCookie) :
    (c.members.map fun m => foldName m.1.toList).Nodup := by
  have hnames : (["name", "value", "domain", "path", "secure", "httpOnly", "expires"].map
      fun n => foldName n.toList).Nodup := by decide
  exact hnames

/-- A cookie is decoded unless its expiry does not fit. -/
theorem cookieValue_text (c : StoredCookie) :
    cookieValue zeroCookie c.text = if fitsInt64 c.expires then some c.received else none := by
  have hname : ("name", dumps c.name) ∈ c.members := by simp [StoredCookie.members]
  have hvalue : ("value", dumps c.value) ∈ c.members := by simp [StoredCookie.members]
  have hdomain : ("domain", dumps c.domain) ∈ c.members := by simp [StoredCookie.members]
  have hpath : ("path", dumps c.path) ∈ c.members := by simp [StoredCookie.members]
  have hsecure : ("secure", boolText c.secure) ∈ c.members := by simp [StoredCookie.members]
  have hexpires : ("expires", intText c.expires) ∈ c.members := by simp [StoredCookie.members]
  have hnodup := nodup_members c
  have hnull : c.text ≠ nullText := object_ne_null _
  rw [cookieValue, if_neg hnull, StoredCookie.text, readObject_object (isValue_members c)]
  simp only [Option.bind_eq_bind, Option.bind_some, field_of_mem hnodup hname,
    field_of_mem hnodup hvalue, field_of_mem hnodup hdomain, field_of_mem hnodup hpath,
    field_of_mem hnodup hsecure, field_of_mem hnodup hexpires, stringValue_dumps,
    boolValue_boolText, int64Value_intText]
  split <;> rfl

theorem mapM_cookieValue (cookies : List StoredCookie) :
    cookies.mapM (fun c => cookieValue zeroCookie c.text) =
      if cookies.all fun c => fitsInt64 c.expires then some (cookies.map StoredCookie.received)
      else none := by
  induction cookies with
  | nil => rfl
  | cons c cookies ih =>
    rw [List.mapM_cons, ih, cookieValue_text]
    by_cases hc : fitsInt64 c.expires = true
    · by_cases hcs : (cookies.all fun c => fitsInt64 c.expires) = true <;> simp [hc, hcs]
    · simp [hc]

theorem isValue_text (c : StoredCookie) : IsValue c.text := IsValue.object (isValue_members c)

theorem cookiesValue_array (cookies : List StoredCookie) :
    cookiesValue [] (array (cookies.map StoredCookie.text)) =
      if cookies.all fun c => fitsInt64 c.expires then some (cookies.map StoredCookie.received)
      else none := by
  have hvalues : ∀ v ∈ cookies.map StoredCookie.text, IsValue v := by
    intro v hv
    obtain ⟨c, -, rfl⟩ := List.mem_map.mp hv
    exact isValue_text c
  have hnull : array (cookies.map StoredCookie.text) ≠ nullText := by
    intro h
    exact absurd (List.cons.inj h).1 (by decide)
  rw [cookiesValue, if_neg hnull, readArray_array hvalues]
  calc (cookies.map StoredCookie.text).zipIdx.mapM (fun e => cookieValue zeroCookie e.1)
      = ((cookies.map StoredCookie.text).zipIdx.map Prod.fst).mapM (cookieValue zeroCookie) := by
        rw [List.mapM_map]
        rfl
    _ = (cookies.map StoredCookie.text).mapM (cookieValue zeroCookie) := by
        rw [List.zipIdx_map_fst]
    _ = cookies.mapM (fun c => cookieValue zeroCookie c.text) := by
        rw [List.mapM_map]
        rfl
    _ = _ := mapM_cookieValue cookies

namespace Snapshot

variable (s : Snapshot)

/-- Every number of the snapshot fits its field. -/
def fits : Bool :=
  fitsInt64 s.version && fitsInt64 s.updatedAt && s.cookies.all fun c => fitsInt64 c.expires

theorem isValue_members : ∀ m ∈ s.members, IsValue m.2 := by
  have hcookies : ∀ v ∈ s.cookies.map StoredCookie.text, IsValue v := by
    intro v hv
    obtain ⟨c, -, rfl⟩ := List.mem_map.mp hv
    exact isValue_text c
  simp only [members, List.forall_mem_cons, List.not_mem_nil, false_imp_iff, implies_true, and_true]
  exact ⟨IsValue.int _, IsValue.dumps _, IsValue.int _, IsValue.array hcookies⟩

theorem nodup_members : (s.members.map fun m => foldName m.1.toList).Nodup := by
  have hnames : (["version", "account_key", "updated_at", "cookies"].map
      fun n => foldName n.toList).Nodup := by decide
  exact hnames

/-- A snapshot is decoded exactly if its numbers fit. -/
theorem readSnapshot_text :
    readSnapshot s.text =
      if s.fits then some ⟨s.version, s.updatedAt, s.cookies.map StoredCookie.received⟩
      else none := by
  have hversion : ("version", intText s.version) ∈ s.members := by simp [members]
  have hupdated : ("updated_at", intText s.updatedAt) ∈ s.members := by simp [members]
  have hcookies : ("cookies", array (s.cookies.map StoredCookie.text)) ∈ s.members := by
    simp [members]
  have hnodup := nodup_members s
  have hnull : object s.members ≠ nullText := object_ne_null _
  rw [readSnapshot, text, (IsValue.object (isValue_members s)).document_eq]
  simp only [Option.bind_eq_bind, Option.bind_some, hnull, if_false,
    readObject_object (isValue_members s), field_of_mem hnodup hversion,
    field_of_mem hnodup hupdated, field_of_mem hnodup hcookies, int64Value_intText,
    cookiesValue_array, fits]
  by_cases hv : fitsInt64 s.version = true
  · by_cases hu : fitsInt64 s.updatedAt = true
    · by_cases hc : (s.cookies.all fun c => fitsInt64 c.expires) = true <;> simp [hv, hu, hc]
    · simp [hv, hu]
  · simp [hv]

end Snapshot

/-! ## No kept cookie is refused -/

/-- Unicode with the letters of ASCII only. -/
def asciiUnicode : Unicode where
  lower s := s.map fun c => if 0x41 ≤ c ∧ c ≤ 0x5a then c + 0x20 else c
  lower_idem s := by
    rw [List.map_map]
    refine List.map_congr_left fun c _ => ?_
    simp only [Function.comp_apply]
    split
    · rw [if_neg (by omega)]
    · rfl
  runeLower := Char.toLower
  runeLower_ascii _ _ := rfl

variable {U : Unicode} {now : ℚ} {c : StoredCookie}

/-- The characters of a usable name make a token. -/
theorem isTokenChar_of_usable :
    ∀ n < 0x80, printable n = true → n ∉ separators → isTokenChar (Char.ofNat n) = true := by
  decide

theorem validValueChar_of_usable :
    ∀ n < 0x80, printable n = true → n ∉ pyString "\";,\\" →
      validValueChar (Char.ofNat n) = true := by
  decide

theorem lt_of_printable {n : Nat} (h : printable n = true) : n < 0x80 := by
  simp only [printable, decide_eq_true_eq] at h
  omega

/-- The path the cookies are sent to, and its host. -/
def playerPath : Text := playerAPI.escapedPath.toList

def playerHost : Text := playerAPI.hostname.toList

theorem valid_of_pathMatches {path : Text} (h : pathMatches playerPath path = true) :
    path.all validPathChar = true := by
  have hplayer : ∀ r ∈ playerPath, validPathChar r = true :=
    List.all_eq_true.mp (by decide)
  have hleading : path <+: playerPath := by
    simp only [pathMatches, decide_eq_true_eq] at h
    rcases h with rfl | ⟨h, -⟩
    · exact List.prefix_rfl
    · exact h
  exact List.all_eq_true.mpr fun r hr => hplayer r (hleading.subset hr)

namespace Normal

variable (h : Normal U now c)

include h

theorem received_name : Json.received c.name = c.name.map Char.ofNat ∧ c.name ≠ [] ∧
    ∀ n ∈ c.name, printable n = true ∧ n ∉ separators := by
  have hname := h.name
  simp only [usableName, Bool.and_eq_true, Bool.not_eq_true', List.isEmpty_eq_false_iff,
    List.all_eq_true, decide_eq_true_eq] at hname
  obtain ⟨⟨hne, hprintable⟩, hseparators⟩ := hname
  refine ⟨received_ascii fun n hn => lt_of_printable (hprintable n hn), hne, fun n hn => ?_⟩
  exact ⟨hprintable n hn, fun hsep => hseparators n hsep hn⟩

theorem received_value : Json.received c.value = c.value.map Char.ofNat ∧ c.value ≠ [] ∧
    ∀ n ∈ c.value, printable n = true ∧ n ∉ pyString "\";,\\" := by
  have hvalue := h.value
  simp only [usableValue, Bool.and_eq_true, Bool.not_eq_true', List.isEmpty_eq_false_iff,
    List.all_eq_true, decide_eq_true_eq] at hvalue
  obtain ⟨hne, hchars⟩ := hvalue
  exact ⟨received_ascii fun n hn => lt_of_printable (hchars n hn).1, hne, hchars⟩

/-- A kept cookie that is sent is valid for Go, and has a value. -/
theorem valid_received (hpath : pathMatches playerPath c.received.path.toList = true) :
    c.received.value ≠ "" ∧ c.received.valid = true := by
  obtain ⟨hname, hnameNe, hnameChars⟩ := h.received_name
  obtain ⟨hvalue, hvalueNe, hvalueChars⟩ := h.received_value
  have hnonempty : ∀ s : PyString, s ≠ [] → String.ofList (s.map Char.ofNat) ≠ "" := by
    intro s hs heq
    have hlist := congrArg String.toList heq
    rw [String.toList_ofList] at hlist
    exact hs (List.map_eq_nil_iff.mp hlist)
  have htoken : ∀ r ∈ c.name.map Char.ofNat, isTokenChar r = true := by
    intro r hr
    obtain ⟨n, hn, rfl⟩ := List.mem_map.mp hr
    obtain ⟨hprintable, hsep⟩ := hnameChars n hn
    exact isTokenChar_of_usable n (lt_of_printable hprintable) hprintable hsep
  have hchars : ∀ r ∈ c.value.map Char.ofNat, validValueChar r = true := by
    intro r hr
    obtain ⟨n, hn, rfl⟩ := List.mem_map.mp hr
    obtain ⟨hprintable, hsep⟩ := hvalueChars n hn
    exact validValueChar_of_usable n (lt_of_printable hprintable) hprintable hsep
  have hpathChars := valid_of_pathMatches hpath
  constructor
  · rw [StoredCookie.received, hvalue]
    exact hnonempty _ hvalueNe
  · rw [Cookie.valid, decide_eq_true_eq]
    refine ⟨?_, ?_, ?_, hpathChars⟩
    · rw [StoredCookie.received, hname]
      exact hnonempty _ hnameNe
    · rw [StoredCookie.received, hname, String.toList_ofList]
      exact List.all_eq_true.mpr htoken
    · rw [StoredCookie.received, hvalue, String.toList_ofList]
      exact List.all_eq_true.mpr hchars

end Normal

/-- The loop keeps all cookies that are sent. -/
theorem collect_received {host : Text} {t : Int} {cookies : List StoredCookie}
    (h : ∀ c ∈ cookies, Normal U now c) :
    collect U host playerPath t (cookies.map StoredCookie.received) =
      some ((cookies.map StoredCookie.received).filter (selected U host playerPath t)) := by
  induction cookies with
  | nil => rfl
  | cons c cookies ih =>
    have hrest := ih fun c' hc' => h c' (List.mem_cons_of_mem _ hc')
    rw [List.map_cons, collect, hrest]
    by_cases hsel : selected U host playerPath t c.received = true
    · have hpath : pathMatches playerPath c.received.path.toList = true := by
        simp only [selected, decide_eq_true_eq] at hsel
        exact hsel.2.2.1
      obtain ⟨hvalue, hvalid⟩ := (h c List.mem_cons_self).valid_received hpath
      rw [if_pos hsel, if_neg (by simp [hvalue, hvalid]), List.filter_cons_of_pos hsel]
      rfl
    · rw [if_neg hsel, List.filter_cons_of_neg hsel]

/-! ## Which cookies belong to the player API -/

def pyHost : PyString := pyString playerAPI.hostname

def pyPath : PyString := pyString playerAPI.escapedPath

/-- The domain of the cookie covers the host: it is the host, or starts with a dot and the
host is what follows or ends with it. -/
def StoredCookie.coversHost (c : StoredCookie) : Bool :=
  c.domain = pyHost ∨
    (c.domain.head? = some dot ∧ (c.domain.tail = pyHost ∨ c.domain <:+ pyHost))

/-- The path of the cookie is the path of the API or a directory above it. -/
def StoredCookie.coversPath (c : StoredCookie) : Bool :=
  c.path = pyPath ∨
    (c.path <+: pyPath ∧ ([slash] <:+ c.path ∨ pyPath[c.path.length]? = some slash))

def StoredCookie.unexpired (c : StoredCookie) (t : Int) : Bool :=
  c.expires = 0 ∨ t < c.expires * second

/-- There is an unexpired ticket that matches the host and path. -/
def Snapshot.hasTicket (s : Snapshot) (name : String) (t : Int) : Bool :=
  s.cookies.any fun c =>
    c.name = pyString name ∧ c.unexpired t ∧ c.coversHost ∧ c.coversPath

theorem map_ofNat_pyString (s : String) : (pyString s).map Char.ofNat = s.toList := by
  rw [pyString, List.map_map]
  exact List.map_id'' (fun r => Char.ofNat_toNat r) s.toList

theorem received_pyString {s : String} (h : ∀ r ∈ s.toList, r.toNat < 0x80) :
    received (pyString s) = s.toList := by
  rw [received_ascii, map_ofNat_pyString]
  intro n hn
  obtain ⟨r, hr, rfl⟩ := List.mem_map.mp hn
  exact h r hr

theorem ascii_of_all {t : Text} (h : (t.all fun r => r.toNat < 0x80) = true) :
    ∀ r ∈ t, r.toNat < 0x80 := by
  simpa using h

theorem toLower_ascii {t : Text} (h : ∀ r ∈ t, r.toNat < 0x80) : toLower U t = t.map Char.toLower :=
  List.map_congr_left fun r hr => U.runeLower_ascii r (h r hr)

theorem hostMatches_ascii {host domain : Text} (h : ∀ r ∈ domain, r.toNat < 0x80) :
    hostMatches U host domain = hostMatches asciiUnicode host domain := by
  have htrim : ∀ r ∈ trimDot domain, r.toNat < 0x80 := by
    unfold trimDot
    split
    · exact fun r hr => h r (List.mem_of_mem_tail hr)
    · exact h
  simp only [hostMatches, allowedHost, toLower_ascii htrim]

/-- The domains that cover the host. -/
theorem Normal.domain_cases (h : Normal U now c) (hc : c.coversHost = true) :
    c.domain ∈ [pyString "live.sooplive.com", pyString ".live.sooplive.com",
      pyString ".sooplive.com"] := by
  have hall : ∀ d ∈ pyHost.tails, d.head? = some dot →
      d = pyString ".sooplive.com" ∨ d = pyString ".com" := by decide
  have hcom : domains.any (fun root => lstripDots (pyString ".com") = root ∨
      (dot :: root) <:+ lstripDots (pyString ".com")) = false := by decide
  simp only [StoredCookie.coversHost, decide_eq_true_eq] at hc
  simp only [List.mem_cons, List.not_mem_nil, or_false]
  rcases hc with hhost | ⟨hdot, htail | hsuffix⟩
  · exact Or.inl hhost
  · refine Or.inr (Or.inl ?_)
    rw [List.eq_cons_of_mem_head? (Option.mem_def.mpr hdot), htail]
    rfl
  · rcases hall c.domain ((List.mem_tails _ _).mpr hsuffix) hdot with hlive | htop
    · exact Or.inr (Or.inr hlive)
    · have hallowed := h.domain
      rw [allowedDomain, h.lowered, htop, hcom] at hallowed
      contradiction

theorem Normal.hostMatches_received (h : Normal U now c) (hc : c.coversHost = true) :
    hostMatches U playerHost (toLower U c.received.domain.toList) = true := by
  have hcases : ∀ d ∈ ["live.sooplive.com", ".live.sooplive.com", ".sooplive.com"],
      (d.toList.all fun r => r.toNat < 0x80) = true ∧ d.toList.map Char.toLower = d.toList ∧
        hostMatches asciiUnicode playerHost d.toList = true := by decide
  obtain ⟨d, hd, hdomain⟩ : ∃ d ∈ ["live.sooplive.com", ".live.sooplive.com", ".sooplive.com"],
      pyString d = c.domain := List.mem_map.mp (h.domain_cases hc)
  obtain ⟨hall, hlower, hmatch⟩ := hcases d hd
  have hascii := ascii_of_all hall
  rw [StoredCookie.received, String.toList_ofList, ← hdomain, received_pyString hascii,
    toLower_ascii hascii, hlower, hostMatches_ascii hascii]
  exact hmatch

theorem ascii_playerPath : ∀ n ∈ pyPath, n < 0x80 := by decide

theorem map_pyPath : pyPath.map Char.ofNat = playerPath := map_ofNat_pyString _

theorem Normal.pathMatches_received (h : Normal U now c) (hc : c.coversPath = true) :
    c.received.path.toList.head? = some '/' ∧
      pathMatches playerPath c.received.path.toList = true := by
  simp only [StoredCookie.coversPath, decide_eq_true_eq] at hc
  have hleading : c.path <+: pyPath := by
    rcases hc with hpath | ⟨hpath, -⟩
    · rw [hpath]
    · exact hpath
  have hreceived : c.received.path.toList = c.path.map Char.ofNat := by
    rw [StoredCookie.received, String.toList_ofList]
    exact received_ascii fun n hn => ascii_playerPath n (hleading.subset hn)
  have hslash : Char.ofNat slash = '/' := rfl
  rw [hreceived]
  constructor
  · have hhead := h.path
    simp only [usablePath, decide_eq_true_eq] at hhead
    rw [List.head?_map, hhead, Option.map_some, hslash]
  · simp only [pathMatches, decide_eq_true_eq]
    rcases hc with hpath | ⟨hpath, hend⟩
    · exact Or.inl (by rw [hpath, map_pyPath])
    · refine Or.inr ⟨map_pyPath ▸ hpath.map Char.ofNat, ?_⟩
      rcases hend with hsuffix | hnext
      · exact Or.inl (hsuffix.map Char.ofNat)
      · refine Or.inr ?_
        rw [← map_pyPath, List.length_map, List.getElem?_map, hnext, Option.map_some, hslash]

theorem Normal.selected_received (h : Normal U now c) {t : Int} (hlive : c.unexpired t = true)
    (hhost : c.coversHost = true) (hpath : c.coversPath = true) :
    selected U playerHost playerPath t c.received = true := by
  obtain ⟨hslash, hmatch⟩ := h.pathMatches_received hpath
  have hnonneg := h.expires_nonneg
  simp only [StoredCookie.unexpired, decide_eq_true_eq] at hlive
  have hunix : ¬(c.expires ≠ 0 ∧ c.expires ≤ unix t) := by
    rintro ⟨hne, hle⟩
    rcases hlive with hzero | hlt
    · exact hne hzero
    · have hdiv := (Int.le_ediv_iff_mul_le (by decide : (0 : Int) < second)).mp hle
      exact absurd hlt (not_lt.mpr hdiv)
  simp only [selected, decide_eq_true_eq]
  exact ⟨h.hostMatches_received hhost, hslash, hmatch, not_lt.mpr hnonneg, hunix⟩

/-! ## Agreement -/

/-- The numbers of a snapshot fit their fields, and it is less than 48 hours old. -/
def Snapshot.readable (s : Snapshot) (t : Int) : Bool :=
  0 < s.updatedAt ∧ s.updatedAt < 2 ^ 63 ∧ (∀ c ∈ s.cookies, c.expires < 2 ^ 63) ∧
    t < s.updatedAt * second + maxSnapshotAge

/-- What is known of a stored snapshot. -/
theorem snapshot_eq_ok {uid : PyString → Option (List PyString)} {a : Account} {raw : PyValue}
    {later : ℚ} {s : Snapshot} (h : snapshot U uid a raw now later = .ok s) :
    normalizeCookies U raw now = .ok s.cookies ∧ authenticatedCookies uid s.cookies a.id = true ∧
      s.version = 1 ∧ s.accountKey = a.key ∧ s.updatedAt = truncate later ∧
      size s.text ≤ maxBytes := by
  unfold snapshot at h
  split at h
  · contradiction
  · rename_i cookies hnormal
    split at h
    · rename_i hauth
      simp only at h
      split at h
      · simp at h
      · rename_i hsize
        obtain rfl := Except.ok.inj h
        exact ⟨hnormal, hauth, rfl, rfl, rfl, not_lt.mp hsize⟩
    · contradiction

theorem ascii_player : ∀ r ∈ playerAPI.hostname.toList, r.toNat < 0x80 :=
  ascii_of_all (by decide)

/-- The player API is an allowed target. -/
theorem allowedHost_player : allowedHost U playerAPI.hostname.toList = true := by
  have hallowed : allowedHost asciiUnicode playerAPI.hostname.toList = true := by decide
  rw [← hallowed]
  simp only [allowedHost, toLower_ascii ascii_player]

theorem toLower_player : toLower U playerAPI.hostname.toList = playerHost := by
  have hlower : playerAPI.hostname.toList.map Char.toLower = playerHost := by decide
  rw [toLower_ascii ascii_player, hlower]

theorem Snapshot.fits_iff {s : Snapshot} (hversion : s.version = 1)
    (hnormal : ∀ c ∈ s.cookies, Normal U now c) :
    s.fits = true ↔ fitsInt64 s.updatedAt = true ∧ ∀ c ∈ s.cookies, c.expires < 2 ^ 63 := by
  have hone : fitsInt64 1 = true := by decide
  have hexpires : ∀ c ∈ s.cookies, (fitsInt64 c.expires = true ↔ c.expires < 2 ^ 63) := by
    intro c hc
    have hnonneg := (hnormal c hc).expires_nonneg
    simp only [fitsInt64, decide_eq_true_eq]
    omega
  simp only [fits, hversion, hone, Bool.true_and, Bool.and_eq_true, List.all_eq_true]
  constructor
  · rintro ⟨hupdated, hall⟩
    exact ⟨hupdated, fun c hc => (hexpires c hc).mp (hall c hc)⟩
  · rintro ⟨hupdated, hall⟩
    exact ⟨hupdated, fun c hc => (hexpires c hc).mpr (hall c hc)⟩

/-- `Header` on a stored snapshot gets as far as decoding it. -/
theorem header_text {s : Snapshot} {t : Int} (hsize : size s.text ≤ maxBytes) :
    header U (some s.text) (some playerAPI) t =
      if s.fits then
        State.header U ⟨s.version, s.updatedAt, s.cookies.map StoredCookie.received⟩ playerHost
          playerPath t
      else .error .cookieUnavailable := by
  have hpath : playerAPI.path = playerPath := rfl
  have hscheme : playerAPI.scheme = "https" := rfl
  have huser : playerAPI.user = none := rfl
  simp only [header, hscheme, huser, allowedHost_player, toLower_player, hpath,
    Snapshot.readSnapshot_text, not_lt.mpr hsize, ne_eq, not_true_eq_false, Option.isSome_none,
    Bool.not_true, Bool.false_eq_true, or_self, if_false]
  by_cases hfits : s.fits = true
  · simp only [hfits, if_true]
  · simp only [hfits, Bool.false_eq_true, if_false]

/-- The cookies of a snapshot that are sent. -/
def Snapshot.sent (U : Unicode) (s : Snapshot) (t : Int) : List Cookie :=
  (s.cookies.map StoredCookie.received).filter (selected U playerHost playerPath t)

/-- A snapshot that is readable fails only for want of a ticket, one that is not fails. -/
theorem header_eq {s : Snapshot} {t : Int} (hversion : s.version = 1)
    (hnormal : ∀ c ∈ s.cookies, Normal U now c) (hlength : s.cookies.length ≤ 300)
    (hsize : size s.text ≤ maxBytes) (hlater : 0 < s.updatedAt → s.updatedAt * second ≤ t) :
    header U (some s.text) (some playerAPI) t =
      if s.readable t ∧ (s.sent U t).any (·.name = "AuthTicket") ∧
          (s.sent U t).any (·.name = "UserTicket") then
        .ok (headerText (s.sent U t))
      else .error .cookieUnavailable := by
  have hfits := Snapshot.fits_iff hversion hnormal
  rw [header_text hsize]
  by_cases hreadable : s.readable t = true
  · have hnumbers := hreadable
    simp only [Snapshot.readable, decide_eq_true_eq] at hnumbers
    obtain ⟨hpos, hlt, hexpires, hage⟩ := hnumbers
    have hupdated : fitsInt64 s.updatedAt = true := by
      simp only [fitsInt64, decide_eq_true_eq]
      omega
    have hchecks : ¬(s.version ≠ 1 ∨ s.updatedAt ≤ 0 ∨
        300 < (s.cookies.map StoredCookie.received).length) := by
      rw [List.length_map]
      omega
    have hages : ¬(t - s.updatedAt * second < -60 * second ∨
        maxSnapshotAge ≤ t - s.updatedAt * second) := by
      have hsecond : second = 1000000000 := rfl
      omega
    rw [if_pos (hfits.mpr ⟨hupdated, hexpires⟩), State.header, if_neg hchecks, if_neg hages,
      collect_received hnormal]
    simp only [hreadable, true_and]
    rfl
  · have herror : ¬(s.readable t = true ∧ (s.sent U t).any (·.name = "AuthTicket") = true ∧
        (s.sent U t).any (·.name = "UserTicket") = true) := fun h => hreadable h.1
    rw [if_neg herror]
    by_cases hf : s.fits = true
    · obtain ⟨hupdated, hexpires⟩ := hfits.mp hf
      rw [if_pos hf, State.header]
      by_cases hpos : 0 < s.updatedAt
      · have hage : maxSnapshotAge ≤ t - s.updatedAt * second := by
          by_contra hyoung
          simp only [fitsInt64, decide_eq_true_eq] at hupdated
          simp only [Snapshot.readable, decide_eq_true_eq] at hreadable
          exact hreadable ⟨hpos, by omega, hexpires, by omega⟩
        split
        · rfl
        · rw [if_pos (Or.inr hage)]
      · rw [if_pos (Or.inr (Or.inl (not_lt.mp hpos)))]
    · rw [if_neg hf]

/-- A ticket is sent if it matches. -/
theorem Snapshot.sent_any {s : Snapshot} {t : Int} {name : String}
    (hnormal : ∀ c ∈ s.cookies, Normal U now c) (hascii : ∀ r ∈ name.toList, r.toNat < 0x80)
    (h : s.hasTicket name t = true) : (s.sent U t).any (·.name = name) = true := by
  simp only [hasTicket, List.any_eq_true, decide_eq_true_eq] at h
  obtain ⟨c, hc, hname, hlive, hhost, hpath⟩ := h
  have hselected := (hnormal c hc).selected_received hlive hhost hpath
  have hreceived : c.received.name = name := by
    rw [StoredCookie.received, hname, received_pyString hascii, String.ofList_toList]
  exact List.any_eq_true.mpr ⟨c.received,
    List.mem_filter.mpr ⟨List.mem_map_of_mem hc, hselected⟩, decide_eq_true hreceived⟩

/-- Reader and writer agree on a snapshot that was stored at `now`: normalizing its cookies
changes nothing, and `Header` fails at `t` only if one of the two tickets is missing. -/
def Agrees (U : Unicode) (now : ℚ) (s : Snapshot) (t : Int) : Prop :=
  normalizeCookies U (storedValue s.cookies) now = .ok s.cookies ∧
    ∀ e, header U (some s.text) (some playerAPI) t = .error e →
      s.hasTicket "AuthTicket" t = false ∨ s.hasTicket "UserTicket" t = false

/-- For whatever a login returned, the reader and the writer agree at a later time exactly if
the snapshot is readable then or one of the tickets is missing.  A clock that counts fractions
of a second makes the snapshot up to a second older than it is. -/
theorem snapshot_agrees (U : Unicode) (uid : PyString → Option (List PyString)) (a : Account)
    (raw : PyValue) (now later : ℚ) (s : Snapshot) (t : Int)
    (hstored : snapshot U uid a raw now later = .ok s) (hlater : later ≤ (t : ℚ) / second) :
    Agrees U now s t ↔
      s.readable t = true ∨ s.hasTicket "AuthTicket" t = false ∨
        s.hasTicket "UserTicket" t = false := by
  obtain ⟨hraw, -, hversion, -, hupdated, hsize⟩ := snapshot_eq_ok hstored
  obtain ⟨hnormal, -, hlength⟩ := normalizeCookies_eq_ok hraw
  have hage : 0 < s.updatedAt → s.updatedAt * second ≤ t := by
    intro hpos
    rw [hupdated] at hpos ⊢
    have hnonneg : 0 ≤ later := by
      by_contra hneg
      exact absurd hpos (not_lt.mpr (truncate_nonpos (le_of_not_ge hneg)))
    have hle : (truncate later : ℚ) ≤ (t : ℚ) / second := (truncate_le hnonneg).trans hlater
    have hsecond : (0 : ℚ) < (second : ℚ) := by norm_num [second]
    rw [le_div_iff₀ hsecond] at hle
    exact_mod_cast hle
  have hheader := header_eq (U := U) (t := t) hversion hnormal hlength hsize hage
  constructor
  · rintro ⟨-, hfails⟩
    by_cases hreadable : s.readable t = true
    · exact Or.inl hreadable
    · rw [if_neg fun h => hreadable h.1] at hheader
      exact Or.inr (hfails _ hheader)
  · intro h
    refine ⟨normalizeCookies_stored hraw, fun e he => ?_⟩
    rcases h with hreadable | hmissing
    · by_contra htickets
      rw [not_or, Bool.not_eq_false, Bool.not_eq_false] at htickets
      have hauth := Snapshot.sent_any (U := U) hnormal (ascii_of_all (by decide)) htickets.1
      have huser := Snapshot.sent_any (U := U) hnormal (ascii_of_all (by decide)) htickets.2
      rw [hheader, if_pos ⟨hreadable, hauth, huser⟩] at he
      simp at he
    · exact hmissing

/-! A login with the two tickets and a third cookie. -/

def fixtureCookie (name value : String) (expires : Int) : StoredCookie :=
  ⟨pyString name, pyString value, pyString ".sooplive.com", pyString "/", true, false, expires⟩

def fixtureCookies (expires : Int) : List StoredCookie :=
  [fixtureCookie "AuthTicket" "ticket" 0, fixtureCookie "UserTicket" "uid=rogi" 0,
    fixtureCookie "Language" "ko" expires]

def fixtureAccount : Account := ⟨pyString "rogi", pyString "key"⟩

/-- The value behind `uid=`. -/
def fixtureUid (value : PyString) : Option (List PyString) :=
  if pyString "uid=" <+: value then some [value.drop 4] else none

def fixtureSnapshot (expires : Int) : Snapshot :=
  ⟨1, fixtureAccount.key, 1700000000, fixtureCookies expires⟩

theorem snapshot_agrees_session :
    snapshot asciiUnicode fixtureUid fixtureAccount (storedValue (fixtureCookies 1800000000))
        1700000000 1700000000 = .ok (fixtureSnapshot 1800000000) ∧
      (fixtureSnapshot 1800000000).hasTicket "AuthTicket" (1700000001 * second) = true ∧
      (fixtureSnapshot 1800000000).hasTicket "UserTicket" (1700000001 * second) = true ∧
      Agrees asciiUnicode 1700000000 (fixtureSnapshot 1800000000) (1700000001 * second) := by
  have hstored : snapshot asciiUnicode fixtureUid fixtureAccount
      (storedValue (fixtureCookies 1800000000)) 1700000000 1700000000 =
        .ok (fixtureSnapshot 1800000000) := by decide +kernel
  have hreadable : (fixtureSnapshot 1800000000).readable (1700000001 * second) = true := by
    decide
  refine ⟨hstored, by decide, by decide, ?_⟩
  exact (snapshot_agrees _ _ _ _ _ _ _ _ hstored (by norm_num [second])).mpr (Or.inl hreadable)

/-- The third cookie of the login expires at 10¹⁹.  The writer keeps it and stores the
snapshot; the reader cannot decode the number and has no cookie a second later, although
both tickets are there. -/
theorem expiry_unreadable :
    snapshot asciiUnicode fixtureUid fixtureAccount (storedValue (fixtureCookies (10 ^ 19)))
        1700000000 1700000000 = .ok (fixtureSnapshot (10 ^ 19)) ∧
      (fixtureSnapshot (10 ^ 19)).hasTicket "AuthTicket" (1700000001 * second) = true ∧
      (fixtureSnapshot (10 ^ 19)).hasTicket "UserTicket" (1700000001 * second) = true ∧
      header asciiUnicode (some (fixtureSnapshot (10 ^ 19)).text) (some playerAPI)
        (1700000001 * second) = .error .cookieUnavailable := by
  have hstored : snapshot asciiUnicode fixtureUid fixtureAccount
      (storedValue (fixtureCookies (10 ^ 19))) 1700000000 1700000000 =
        .ok (fixtureSnapshot (10 ^ 19)) := by decide +kernel
  have hfits : (fixtureSnapshot (10 ^ 19)).fits = false := by decide
  obtain ⟨-, -, -, -, -, hsize⟩ := snapshot_eq_ok hstored
  refine ⟨hstored, by decide, by decide, ?_⟩
  rw [header_text hsize, hfits]
  rfl

end RogiCollector.Ports.Cookies
