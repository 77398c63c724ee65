import RogiCollector.Verified.Utf8

/-!
# Base64 without padding

The URL-safe alphabet of RFC 4648, as `base64.RawURLEncoding` of Go: six bits a
character, no padding, and a decoder that passes over line breaks and does not
look at the bits that the last character has too many.
-/

namespace RogiCollector.Verified.Base64

def alphabet : List Char :=
  "ABCDEFGHIJKLMNOPQRSTUVWXYZabcdefghijklmnopqrstuvwxyz0123456789-_".toList

def digitChar (n : Nat) : Char := alphabet.getD n 'A'

def digit (c : Char) : Option Nat :=
  if alphabet.idxOf c < 64 then some (alphabet.idxOf c) else none

/-- The bytes six bits at a time. -/
def sextets : Bytes → List Nat
  | [] => []
  | [a] => [a.toNat / 4, a.toNat % 4 * 16]
  | [a, b] => [a.toNat / 4, a.toNat % 4 * 16 + b.toNat / 16, b.toNat % 16 * 4]
  | a :: b :: c :: rest =>
    a.toNat / 4 :: (a.toNat % 4 * 16 + b.toNat / 16) :: (b.toNat % 16 * 4 + c.toNat / 64) ::
      (c.toNat % 64) :: sextets rest

/-- The bytes of six bits at a time; one character alone is no byte. -/
def octets : List Nat → Option Bytes
  | [] => some []
  | [_] => none
  | [w, x] => some [UInt8.ofNat (w * 4 + x / 16)]
  | [w, x, y] => some [UInt8.ofNat (w * 4 + x / 16), UInt8.ofNat (x % 16 * 16 + y / 4)]
  | w :: x :: y :: z :: rest =>
    (octets rest).map fun bs =>
      UInt8.ofNat (w * 4 + x / 16) :: UInt8.ofNat (x % 16 * 16 + y / 4) ::
        UInt8.ofNat (y % 4 * 64 + z) :: bs

def encode (b : Bytes) : List Char := (sextets b).map digitChar

def decode (t : List Char) : Option Bytes :=
  ((t.filter fun c => c ≠ '\r' ∧ c ≠ '\n').mapM digit).bind octets

/-! ## Sextets -/

theorem sextets_lt (b : Bytes) : ∀ n ∈ sextets b, n < 64 := by
  induction b using sextets.induct with
  | case1 => simp [sextets]
  | case2 a =>
    have ha := a.toNat_lt
    simp only [sextets, List.forall_mem_cons, List.not_mem_nil, false_imp_iff, implies_true,
      and_true]
    omega
  | case3 a b =>
    have ha := a.toNat_lt
    have hb := b.toNat_lt
    simp only [sextets, List.forall_mem_cons, List.not_mem_nil, false_imp_iff, implies_true,
      and_true]
    omega
  | case4 a b c rest ih =>
    have ha := a.toNat_lt
    have hb := b.toNat_lt
    have hc := c.toNat_lt
    simp only [sextets, List.forall_mem_cons]
    refine ⟨by omega, by omega, by omega, by omega, ih⟩

theorem ofNat_eq {n : Nat} {a : UInt8} (h : n = a.toNat) : UInt8.ofNat n = a := by
  rw [h, UInt8.ofNat_toNat]

theorem octets_sextets (b : Bytes) : octets (sextets b) = some b := by
  induction b using sextets.induct with
  | case1 => rfl
  | case2 a =>
    have h1 : UInt8.ofNat (a.toNat / 4 * 4 + a.toNat % 4 * 16 / 16) = a := ofNat_eq (by omega)
    rw [sextets, octets, h1]
  | case3 a b =>
    have hb := b.toNat_lt
    have h1 : UInt8.ofNat (a.toNat / 4 * 4 + (a.toNat % 4 * 16 + b.toNat / 16) / 16) = a :=
      ofNat_eq (by omega)
    have h2 : UInt8.ofNat ((a.toNat % 4 * 16 + b.toNat / 16) % 16 * 16 + b.toNat % 16 * 4 / 4) =
        b := ofNat_eq (by omega)
    rw [sextets, octets, h1, h2]
  | case4 a b c rest ih =>
    have hb := b.toNat_lt
    have hc := c.toNat_lt
    have h1 : UInt8.ofNat (a.toNat / 4 * 4 + (a.toNat % 4 * 16 + b.toNat / 16) / 16) = a :=
      ofNat_eq (by omega)
    have h2 : UInt8.ofNat ((a.toNat % 4 * 16 + b.toNat / 16) % 16 * 16 +
        (b.toNat % 16 * 4 + c.toNat / 64) / 4) = b := ofNat_eq (by omega)
    have h3 : UInt8.ofNat ((b.toNat % 16 * 4 + c.toNat / 64) % 4 * 64 + c.toNat % 64) = c :=
      ofNat_eq (by omega)
    rw [sextets, octets, ih, Option.map_some, h1, h2, h3]

theorem length_sextets (b : Bytes) : (sextets b).length = (4 * b.length + 2) / 3 := by
  induction b using sextets.induct with
  | case1 => rfl
  | case2 | case3 => simp [sextets]
  | case4 a b c rest ih =>
    simp only [sextets, List.length_cons, ih]
    omega

/-! ## Characters -/

theorem digit_digitChar {n : Nat} (h : n < 64) : digit (digitChar n) = some n := by
  revert n
  decide

theorem digitChar_mem {n : Nat} (h : n < 64) : digitChar n ∈ alphabet := by
  revert n
  decide

theorem mapM_digit {ns : List Nat} (h : ∀ n ∈ ns, n < 64) :
    (ns.map digitChar).mapM digit = some ns := by
  induction ns with
  | nil => rfl
  | cons n ns ih =>
    rw [List.map_cons, List.mapM_cons, digit_digitChar (h n List.mem_cons_self),
      ih fun m hm => h m (List.mem_cons_of_mem n hm)]
    rfl

/-- The text has only characters of the alphabet. -/
theorem notMem_encode {c : Char} (h : c ∉ alphabet) (b : Bytes) : c ∉ encode b := by
  intro hmem
  obtain ⟨n, hn, rfl⟩ := List.mem_map.mp hmem
  exact h (digitChar_mem (sextets_lt b n hn))

/-- Decoding inverts encoding. -/
theorem decode_encode (b : Bytes) : decode (encode b) = some b := by
  have hbreaks : (encode b).filter (fun c => c ≠ '\r' ∧ c ≠ '\n') = encode b := by
    refine List.filter_eq_self.mpr ?_
    intro c hc
    have hcr : c ≠ '\r' := fun heq => notMem_encode (by decide) b (heq ▸ hc)
    have hlf : c ≠ '\n' := fun heq => notMem_encode (by decide) b (heq ▸ hc)
    simp [hcr, hlf]
  rw [decode, hbreaks, encode, mapM_digit (sextets_lt b), Option.bind_some, octets_sextets]

/-- Four characters for three bytes. -/
theorem length_encode (b : Bytes) : (encode b).length = (4 * b.length + 2) / 3 := by
  rw [encode, List.length_map, length_sextets]

end RogiCollector.Verified.Base64
