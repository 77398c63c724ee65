import Mathlib.Data.List.ReduceOption
import Mathlib.Data.Rat.Floor
import RogiCollector.Verified.PythonJson

/-!
# The cookie snapshot as `cookie-auth` writes it

A login returns any JSON value.  `normalize_cookies` keeps the cookies of the platform that
have a usable name, value, path and expiry, `authenticated_cookies` looks for the two
tickets of the account, and `atomic_store` writes the result with the time.

Two things come from elsewhere and are parameters: how Unicode lowers letters, of which
only that lowering twice is lowering once matters here, and what `parse_qs` finds under
`uid` in the value of a ticket.

## Main definitions

* `normalizeCookies`, `authenticatedCookies` — the checks.
* `snapshot` — what an attempt stores, or why it stores nothing.
-/

namespace RogiCollector.Ports.Cookies

open Verified
open Verified.Json

/-- Lowering letters, as Python does it for strings and Go for runes. -/
structure Unicode where
  lower : PyString → PyString
  lower_idem : ∀ s, lower (lower s) = lower s
  runeLower : Char → Char
  runeLower_ascii : ∀ c : Char, c.toNat < 0x80 → runeLower c = c.toLower

/-! ## Values -/

/-- From here on an `int` has no `float`; every `float` is below. -/
def floatLimit : Int := 2 ^ 1024 - 2 ^ 970

structure FiniteFloat where
  value : ℚ
  bounded : |value| < floatLimit

/-- What `json.loads` returns.  The `float` that is none is infinite or not a number. -/
inductive PyValue where
  | none
  | bool (b : Bool)
  | int (n : Int)
  | float (x : Option FiniteFloat)
  | str (s : PyString)
  | list (items : List PyValue)
  | dict (entries : List (PyString × PyValue))

/-- `bool(value)`. -/
def PyValue.truthy : PyValue → Bool
  | .none => false
  | .bool b => b
  | .int n => n ≠ 0
  | .float Option.none => true
  | .float (some x) => x.value ≠ 0
  | .str s => !s.isEmpty
  | .list items => !items.isEmpty
  | .dict entries => !entries.isEmpty

/-- `item.get(key)`, none if there is no such key. -/
def get (entries : List (PyString × PyValue)) (key : String) : Option PyValue :=
  entries.lookup (pyString key)

/-- `int(x)`. -/
def truncate (x : ℚ) : Int := x.num.tdiv x.den

/-- An exception: a `CookieError` with its code, or any other. -/
inductive Failure where
  | cookieError (code : String)
  | exception
  deriving Repr, DecidableEq

/-- The error code of an attempt that an exception ended. -/
def errorCode : Failure → String
  | .cookieError code => code
  | .exception => "refresh_failed"

/-! ## Normalizing -/

structure StoredCookie where
  name : PyString
  value : PyString
  domain : PyString
  path : PyString
  secure : Bool
  httpOnly : Bool
  expires : Int
  deriving Repr, DecidableEq

def dot : Nat := 0x2e

def slash : Nat := 0x2f

/-- `s.lstrip(".")`. -/
def lstripDots (s : PyString) : PyString := s.dropWhile (· = dot)

def domains : List PyString := [pyString "sooplive.co.kr", pyString "sooplive.com"]

/-- `allowed_domain` of a string. -/
def allowedDomain (U : Unicode) (domain : PyString) : Bool :=
  domains.any fun root =>
    lstripDots (U.lower domain) = root ∨ (dot :: root) <:+ lstripDots (U.lower domain)

def printable (c : Nat) : Bool := 33 ≤ c ∧ c ≤ 126

def separators : PyString := pyString "()<>@,;:\\\"/[]?=\x7b\x7d \t\r\n"

def usableName (name : PyString) : Bool :=
  !name.isEmpty && name.all printable && separators.all (· ∉ name)

def usableValue (value : PyString) : Bool :=
  !value.isEmpty && value.all fun c => printable c && c ∉ pyString "\";,\\"

def usablePath (path : PyString) : Bool := path.head? = some slash

/-- `item.get("expiry", item.get("expires", 0)) or 0`. -/
def expiryField (entries : List (PyString × PyValue)) : PyValue :=
  let found := (get entries "expiry").getD ((get entries "expires").getD (.int 0))
  if found.truthy then found else .int 0

/-- The seconds of an expiry, none if it is not a finite number.  `math.isfinite` raises
`OverflowError` for an `int` that has no `float`. -/
def expirySeconds : PyValue → Except Failure (Option Int)
  | .int n => if floatLimit ≤ |n| then .error .exception else .ok (some (max 0 n))
  | .float (some x) => .ok (some (max 0 (truncate x.value)))
  | _ => .ok none

/-- Name, value, domain and path, if all of them are usable. -/
def usableTexts (U : Unicode) (entries : List (PyString × PyValue)) :
    Option (PyString × PyString × PyString × PyString) :=
  match get entries "domain" with
  | some (.str domain) =>
    match get entries "name" with
    | some (.str name) =>
      match get entries "value" with
      | some (.str value) =>
        match (get entries "path").getD (.str [slash]) with
        | .str path =>
          if allowedDomain U domain && usableName name && usableValue value &&
              usablePath path then
            some (name, value, domain, path)
          else none
        | _ => none
      | _ => none
    | _ => none
  | _ => none

def truthyField (entries : List (PyString × PyValue)) (key : String) : Bool :=
  ((get entries key).getD .none).truthy

/-- One round of `normalize_cookies`: the cookie that is kept, none for `continue`. -/
def normalizeItem (U : Unicode) (now : ℚ) : PyValue → Except Failure (Option StoredCookie)
  | .dict entries =>
    match usableTexts U entries with
    | none => .ok none
    | some (name, value, domain, path) =>
      match expirySeconds (expiryField entries) with
      | .error failure => .error failure
      | .ok none => .ok none
      | .ok (some expires) =>
        if expires ≠ 0 ∧ (expires : ℚ) ≤ now then .ok none
        else
          .ok (some {
            name, value, domain := U.lower domain, path
            secure := truthyField entries "secure"
            httpOnly := truthyField entries "httpOnly"
            expires })
  | _ => .ok none

/-- `normalize_cookies`. -/
def normalizeCookies (U : Unicode) (raw : PyValue) (now : ℚ) :
    Except Failure (List StoredCookie) :=
  match raw with
  | .list items =>
    if 300 < items.length then .error (.cookieError "invalid_cookie_result")
    else do
      let result ← items.mapM (normalizeItem U now)
      if result.reduceOption = [] then .error (.cookieError "no_usable_cookies")
      else .ok result.reduceOption
  | _ => .error (.cookieError "invalid_cookie_result")

/-- `authenticated_cookies`; `uid` is what `parse_qs` finds in a value. -/
def authenticatedCookies (uid : PyString → Option (List PyString)) (cookies : List StoredCookie)
    (userID : PyString) : Bool :=
  let authDomains := (cookies.filter fun c =>
    c.name = pyString "AuthTicket" ∧ c.value ≠ []).map fun c => lstripDots c.domain
  cookies.any fun c =>
    c.name = pyString "UserTicket" ∧ lstripDots c.domain ∈ authDomains ∧ uid c.value = some [userID]

/-! ## Storing -/

structure Snapshot where
  version : Int
  accountKey : PyString
  updatedAt : Int
  cookies : List StoredCookie
  deriving Repr, DecidableEq

def StoredCookie.members (c : StoredCookie) : List (String × Text) :=
  [("name", dumps c.name), ("value", dumps c.value), ("domain", dumps c.domain),
    ("path", dumps c.path), ("secure", boolText c.secure), ("httpOnly", boolText c.httpOnly),
    ("expires", intText c.expires)]

def StoredCookie.text (c : StoredCookie) : Text := object c.members

def Snapshot.members (s : Snapshot) : List (String × Text) :=
  [("version", intText s.version), ("account_key", dumps s.accountKey),
    ("updated_at", intText s.updatedAt), ("cookies", array (s.cookies.map StoredCookie.text))]

/-- `json.dumps(snapshot)` with separators that have no space. -/
def Snapshot.text (s : Snapshot) : Text := object s.members

@[irreducible] def maxBytes : Nat := 256 * 1024

/-- An account: its name and the digest of the name. -/
structure Account where
  id : PyString
  key : PyString

/-- What an attempt stores after `login` returned `raw`; the clock is read before the
cookies are normalized and again for the time of the snapshot. -/
def snapshot (U : Unicode) (uid : PyString → Option (List PyString)) (a : Account) (raw : PyValue)
    (now later : ℚ) : Except Failure Snapshot :=
  match normalizeCookies U raw now with
  | .error failure => .error failure
  | .ok cookies =>
    if authenticatedCookies uid cookies a.id then
      let s : Snapshot := ⟨1, a.key, truncate later, cookies⟩
      -- `atomic_store` looks at the size before it touches the file.
      if maxBytes < size s.text then .error (.cookieError "cookie_result_too_large") else .ok s
    else .error (.cookieError "login_not_confirmed")

/-! ## What is kept -/

/-- What is known of a cookie that is kept at time `now`. -/
structure Normal (U : Unicode) (now : ℚ) (c : StoredCookie) : Prop where
  name : usableName c.name = true
  value : usableValue c.value = true
  path : usablePath c.path = true
  domain : allowedDomain U c.domain = true
  lowered : U.lower c.domain = c.domain
  expires_nonneg : 0 ≤ c.expires
  expires_lt : c.expires < floatLimit
  live : c.expires = 0 ∨ now < c.expires

variable {U : Unicode} {now : ℚ}

theorem floatLimit_pos : 0 < floatLimit := by
  rw [floatLimit, sub_pos]
  exact pow_lt_pow_right₀ (by decide) (by decide)

/-- Cutting off what is behind the point of a number that is not negative. -/
theorem truncate_le {x : ℚ} (h : 0 ≤ x) : (truncate x : ℚ) ≤ x := by
  have hfloor : truncate x = ⌊x⌋ := by
    rw [truncate, Int.tdiv_eq_ediv_of_nonneg (Rat.num_nonneg.mpr h), Rat.floor_def']
  rw [hfloor]
  exact Int.floor_le x

theorem truncate_nonpos {x : ℚ} (h : x ≤ 0) : truncate x ≤ 0 := by
  have hnum : x.num ≤ 0 := Rat.num_nonpos.mpr h
  have hneg : 0 ≤ (-x.num).tdiv x.den := Int.tdiv_nonneg (by omega) (Int.natCast_nonneg _)
  rw [Int.neg_tdiv] at hneg
  rw [truncate]
  omega

theorem truncate_lt (x : FiniteFloat) : truncate x.value < floatLimit := by
  have hbounded := abs_lt.mp x.bounded
  by_cases hx : 0 ≤ x.value
  · have hlt : (truncate x.value : ℚ) < floatLimit := (truncate_le hx).trans_lt hbounded.2
    exact_mod_cast hlt
  · exact (truncate_nonpos (le_of_not_ge hx)).trans_lt floatLimit_pos

theorem expirySeconds_eq_some {v : PyValue} {expires : Int}
    (h : expirySeconds v = .ok (some expires)) : 0 ≤ expires ∧ expires < floatLimit := by
  unfold expirySeconds at h
  split at h
  · rename_i n
    split at h
    · contradiction
    · rename_i hn
      have hlt := (abs_lt.mp (not_le.mp hn)).2
      simp only [Except.ok.injEq, Option.some.injEq] at h
      rw [← h]
      exact ⟨le_max_left 0 n, max_lt floatLimit_pos hlt⟩
  · rename_i x
    simp only [Except.ok.injEq, Option.some.injEq] at h
    rw [← h]
    exact ⟨le_max_left 0 _, max_lt floatLimit_pos (truncate_lt x)⟩
  · simp at h

theorem allowedDomain_lower {domain : PyString} (h : allowedDomain U domain = true) :
    allowedDomain U (U.lower domain) = true := by
  rw [allowedDomain, U.lower_idem]
  exact h

theorem usableTexts_eq_some {entries : List (PyString × PyValue)}
    {name value domain path : PyString}
    (h : usableTexts U entries = some (name, value, domain, path)) :
    allowedDomain U domain = true ∧ usableName name = true ∧ usableValue value = true ∧
      usablePath path = true := by
  unfold usableTexts at h
  repeat' split at h
  all_goals try contradiction
  rename_i hok
  obtain ⟨rfl, rfl, rfl, rfl⟩ := h
  simp only [Bool.and_eq_true] at hok
  exact ⟨hok.1.1.1, hok.1.1.2, hok.1.2, hok.2⟩

/-- A round keeps only what is normal. -/
theorem normalizeItem_eq_some {item : PyValue} {c : StoredCookie}
    (h : normalizeItem U now item = .ok (some c)) : Normal U now c := by
  unfold normalizeItem at h
  split at h
  · rename_i entries
    split at h
    · simp at h
    · rename_i name value domain path htexts
      obtain ⟨hdomain, hname, hvalue, hpath⟩ := usableTexts_eq_some htexts
      split at h
      · contradiction
      · simp at h
      · rename_i expires hexpires
        obtain ⟨hnonneg, hlt⟩ := expirySeconds_eq_some hexpires
        split at h
        · simp at h
        · rename_i hlive
          simp only [Except.ok.injEq, Option.some.injEq] at h
          subst h
          constructor
          · exact hname
          · exact hvalue
          · exact hpath
          · exact allowedDomain_lower hdomain
          · exact U.lower_idem domain
          · exact hnonneg
          · exact hlt
          · rw [not_and_or, not_not, not_le] at hlive
            exact hlive
  · simp at h

/-! ## Normalizing twice -/

/-- The dictionary of a kept cookie. -/
def StoredCookie.entries (c : StoredCookie) : List (PyString × PyValue) :=
  [(pyString "name", .str c.name), (pyString "value", .str c.value),
    (pyString "domain", .str c.domain), (pyString "path", .str c.path),
    (pyString "secure", .bool c.secure), (pyString "httpOnly", .bool c.httpOnly),
    (pyString "expires", .int c.expires)]

theorem get_entries (c : StoredCookie) :
    get c.entries "name" = some (.str c.name) ∧ get c.entries "value" = some (.str c.value) ∧
      get c.entries "domain" = some (.str c.domain) ∧ get c.entries "path" = some (.str c.path) ∧
      get c.entries "secure" = some (.bool c.secure) ∧
      get c.entries "httpOnly" = some (.bool c.httpOnly) ∧
      get c.entries "expiry" = none ∧ get c.entries "expires" = some (.int c.expires) :=
  ⟨rfl, rfl, rfl, rfl, rfl, rfl, rfl, rfl⟩

theorem expiryField_entries (c : StoredCookie) : expiryField c.entries = .int c.expires := by
  obtain ⟨-, -, -, -, -, -, hexpiry, hexpires⟩ := get_entries c
  rw [expiryField, hexpiry, hexpires]
  by_cases hzero : c.expires = 0 <;> simp [PyValue.truthy, hzero]

namespace Normal

variable {c : StoredCookie} (h : Normal U now c)

include h

theorem expirySeconds_eq : expirySeconds (.int c.expires) = .ok (some c.expires) := by
  have hlt : ¬floatLimit ≤ |c.expires| := by
    rw [abs_of_nonneg h.expires_nonneg]
    exact not_le.mpr h.expires_lt
  rw [expirySeconds, if_neg hlt, max_eq_right h.expires_nonneg]

theorem usableTexts_entries :
    usableTexts U c.entries = some (c.name, c.value, c.domain, c.path) := by
  obtain ⟨hname, hvalue, hdomain, hpath, -⟩ := get_entries c
  simp only [usableTexts, hname, hvalue, hdomain, hpath, Option.getD_some, h.name, h.value, h.path,
    h.domain, Bool.and_self, if_true]

/-- A normal cookie is kept as it is. -/
theorem normalizeItem_entries : normalizeItem U now (.dict c.entries) = .ok (some c) := by
  obtain ⟨-, -, -, -, hsecure, hhttpOnly, -⟩ := get_entries c
  have hlive : ¬(c.expires ≠ 0 ∧ (c.expires : ℚ) ≤ now) := by
    rw [not_and_or, not_not, not_le]
    exact h.live
  simp only [normalizeItem, h.usableTexts_entries, expiryField_entries, h.expirySeconds_eq,
    if_neg hlive, h.lowered, truthyField, hsecure, hhttpOnly, Option.getD_some, PyValue.truthy]

end Normal

/-- The value of stored cookies, as `json.loads` returns it. -/
def storedValue (cookies : List StoredCookie) : PyValue :=
  .list (cookies.map fun c => .dict c.entries)

/-- The rounds keep normal cookies, and no more than there are items. -/
theorem mapM_normalizeItem {items : List PyValue} {result : List (Option StoredCookie)}
    (h : items.mapM (normalizeItem U now) = .ok result) :
    (∀ c ∈ result.reduceOption, Normal U now c) ∧ result.length = items.length := by
  induction items generalizing result with
  | nil =>
    obtain rfl : [] = result := Except.ok.inj h
    simp
  | cons item items ih =>
    rw [List.mapM_cons] at h
    cases hitem : normalizeItem U now item with
    | error failure =>
      rw [hitem] at h
      contradiction
    | ok kept =>
      cases hitems : items.mapM (normalizeItem U now) with
      | error failure =>
        rw [hitem, hitems] at h
        contradiction
      | ok rest =>
        rw [hitem, hitems] at h
        obtain rfl := Except.ok.inj h
        obtain ⟨hrest, hlength⟩ := ih hitems
        refine ⟨?_, by rw [List.length_cons, List.length_cons, hlength]⟩
        intro c hc
        cases kept with
        | none => exact hrest c hc
        | some kept =>
          rw [List.reduceOption_cons_of_some] at hc
          rcases List.mem_cons.mp hc with rfl | hc
          · exact normalizeItem_eq_some hitem
          · exact hrest c hc

variable {cookies : List StoredCookie}

theorem mapM_entries (h : ∀ c ∈ cookies, Normal U now c) :
    (cookies.map fun c => PyValue.dict c.entries).mapM (normalizeItem U now) =
      .ok (cookies.map some) := by
  induction cookies with
  | nil => rfl
  | cons c cookies ih =>
    rw [List.map_cons, List.mapM_cons, (h c List.mem_cons_self).normalizeItem_entries,
      ih fun c' hc' => h c' (List.mem_cons_of_mem _ hc')]
    rfl

variable {raw : PyValue}

/-- What `normalize_cookies` returns: normal cookies, at least one and at most 300. -/
theorem normalizeCookies_eq_ok (h : normalizeCookies U raw now = .ok cookies) :
    (∀ c ∈ cookies, Normal U now c) ∧ cookies ≠ [] ∧ cookies.length ≤ 300 := by
  unfold normalizeCookies at h
  split at h
  · rename_i items
    split at h
    · contradiction
    · rename_i hitems
      cases hresult : items.mapM (normalizeItem U now) with
      | error failure =>
        rw [hresult] at h
        contradiction
      | ok result =>
        rw [hresult] at h
        obtain ⟨hnormal, hlength⟩ := mapM_normalizeItem hresult
        have hle := List.reduceOption_length_le result
        by_cases hempty : result.reduceOption = []
        · have herror : Except.error (Failure.cookieError "no_usable_cookies") =
              Except.ok cookies := by
            rw [← h]
            exact (if_pos hempty).symm
          contradiction
        · have hok : (Except.ok result.reduceOption : Except Failure _) = Except.ok cookies := by
            rw [← h]
            exact (if_neg hempty).symm
          obtain rfl := Except.ok.inj hok
          exact ⟨hnormal, hempty, by omega⟩
  · contradiction

/-- Normalizing what was kept changes nothing. -/
theorem normalizeCookies_stored (h : normalizeCookies U raw now = .ok cookies) :
    normalizeCookies U (storedValue cookies) now = .ok cookies := by
  obtain ⟨hnormal, hne, hlength⟩ := normalizeCookies_eq_ok h
  have hmapM := mapM_entries hnormal
  have hreduce : (cookies.map some).reduceOption = cookies := by
    rw [List.reduceOption, List.filterMap_map]
    exact List.filterMap_some
  simp only [normalizeCookies, storedValue, List.length_map]
  rw [if_neg (by omega), hmapM]
  change (if (cookies.map some).reduceOption = [] then _ else _) = _
  rw [hreduce, if_neg hne]

/-! ## Failures -/

variable {failure : Failure}

/-- A round raises nothing but `OverflowError`. -/
theorem normalizeItem_error {item : PyValue} (h : normalizeItem U now item = .error failure) :
    failure = .exception := by
  unfold normalizeItem at h
  repeat' split at h
  all_goals try contradiction
  rename_i hexpires
  obtain rfl := Except.error.inj h
  unfold expirySeconds at hexpires
  repeat' split at hexpires
  all_goals try contradiction
  exact (Except.error.inj hexpires).symm

theorem mapM_normalizeItem_error {items : List PyValue}
    (h : items.mapM (normalizeItem U now) = .error failure) : failure = .exception := by
  induction items with
  | nil => contradiction
  | cons item items ih =>
    rw [List.mapM_cons] at h
    cases hitem : normalizeItem U now item with
    | error failure' =>
      rw [hitem] at h
      obtain rfl := Except.error.inj h
      exact normalizeItem_error hitem
    | ok kept =>
      cases hitems : items.mapM (normalizeItem U now) with
      | error failure' =>
        rw [hitem, hitems] at h
        obtain rfl := Except.error.inj h
        exact ih hitems
      | ok rest =>
        rw [hitem, hitems] at h
        contradiction

/-- Normalizing fails with a code. -/
theorem errorCode_normalizeCookies (h : normalizeCookies U raw now = .error failure) :
    errorCode failure ≠ "" := by
  unfold normalizeCookies at h
  split at h
  · rename_i items
    split at h
    · obtain rfl := Except.error.inj h
      decide
    · cases hresult : items.mapM (normalizeItem U now) with
      | error failure' =>
        rw [hresult] at h
        obtain rfl := Except.error.inj h
        rw [mapM_normalizeItem_error hresult]
        decide
      | ok result =>
        rw [hresult] at h
        change (if result.reduceOption = [] then _ else _) = _ at h
        split at h
        · obtain rfl := Except.error.inj h
          decide
        · contradiction
  · obtain rfl := Except.error.inj h
    decide

end RogiCollector.Ports.Cookies
