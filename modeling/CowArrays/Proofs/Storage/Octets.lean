import CowArrays.Proofs.Attempt
import CowArrays.Scalar.Octets

/-!
Scalars and their octets. Numbers below a power of 256 and that many octets correspond, so do scalars
and the octets of one, and lists of scalars and octets that are a multiple as many. A cast succeeds
with the scalars whose octets these are, and with no others.
-/

namespace CowArrays

namespace Octets

theorem toNat_lt (octets : Octets) : octets.toNat < 256 ^ octets.length := by
  induction octets with
  | nil => exact Nat.one_pos
  | cons b rest ih =>
    have hb : b.toNat < 256 := b.toNat_lt
    rw [toNat, List.length_cons, Nat.pow_succ]
    omega

theorem toNat_ofNat (count n : Nat) : (ofNat count n).toNat = n % 256 ^ count := by
  induction count generalizing n with
  | zero => simp [ofNat, toNat, Nat.mod_one]
  | succ count ih =>
    rw [ofNat, toNat, ih, Nat.pow_succ', Nat.mod_mul]
    simp

theorem ofNat_toNat (octets : Octets) : ofNat octets.length octets.toNat = octets := by
  induction octets with
  | nil => rfl
  | cons b rest ih =>
    have hb : b.toNat < 256 := b.toNat_lt
    have hfirst : UInt8.ofNat (b.toNat + 256 * toNat rest) = b := UInt8.toNat_inj.1 (by simp)
    have hrest : (b.toNat + 256 * toNat rest) / 256 = toNat rest := by omega
    rw [List.length_cons, toNat, ofNat, hfirst, hrest, ih]

end Octets

theorem Precision.pow_byteSize (p : Precision) : 256 ^ p.byteSize = 2 ^ p.bitSize := by
  cases p <;> decide

theorem Precision.byteSize_pos (p : Precision) : 0 < p.byteSize := by
  cases p <;> decide

namespace Scalar

variable {p : Precision}

theorem bits_ofBits {n : Nat} (h : n < 2 ^ p.bitSize) : (ofBits n : Scalar p).bits = n := by
  have hp : 2 ^ p.bitSize = 2 * 2 ^ (p.bitSize - 1) := by cases p <;> decide
  have hsign : n / 2 ^ (p.bitSize - 1) < 2 := Nat.div_lt_of_lt_mul (by rwa [Nat.mul_comm, ← hp])
  have hsplit := Nat.div_add_mod n (2 ^ (p.bitSize - 1))
  rcases Nat.le_one_iff_eq_zero_or_eq_one.1 (Nat.le_of_lt_succ hsign) with h0 | h1
  · simpa [bits, ofBits, h0] using hsplit
  · simpa [bits, ofBits, h1] using hsplit

/-! ### One scalar -/

@[simp] theorem length_octets (x : Scalar p) : x.octets.length = p.byteSize :=
  Octets.length_ofNat _ _

theorem ofOctets_octets (x : Scalar p) : ofOctets x.octets = x := by
  rw [ofOctets, octets, Octets.toNat_ofNat, p.pow_byteSize, Nat.mod_eq_of_lt x.bits_lt, ofBits_bits]

theorem octets_ofOctets {octets : Octets} (h : octets.length = p.byteSize) :
    (ofOctets octets : Scalar p).octets = octets := by
  have hlt : octets.toNat < 2 ^ p.bitSize := by
    rw [← p.pow_byteSize, ← h]
    exact octets.toNat_lt
  rw [Scalar.octets, ofOctets, bits_ofBits hlt, ← h, octets.ofNat_toNat]

/-! ### Scalars back to back -/

@[simp] theorem length_encode (xs : List (Scalar p)) :
    (encode xs).length = xs.length * p.byteSize := by
  simp [encode, List.length_flatMap, List.map_const']

theorem encode_cons (x : Scalar p) (xs : List (Scalar p)) :
    encode (x :: xs) = x.octets ++ encode xs :=
  List.flatMap_cons

theorem decode_encode (xs : List (Scalar p)) : decode xs.length (encode xs) = xs := by
  induction xs with
  | nil => rfl
  | cons x xs ih =>
    rw [List.length_cons, decode, encode_cons, List.take_left' x.length_octets,
      List.drop_left' x.length_octets, ofOctets_octets, ih]

theorem encode_decode {count : Nat} {octets : Octets} (h : octets.length = count * p.byteSize) :
    encode (decode (p := p) count octets) = octets := by
  induction count generalizing octets with
  | zero =>
    rw [Nat.zero_mul] at h
    rw [List.length_eq_zero_iff.1 h]
    rfl
  | succ count ih =>
    have hle : p.byteSize ≤ octets.length := by
      rw [h, Nat.succ_mul]
      exact Nat.le_add_left _ _
    have hfirst : (octets.take p.byteSize).length = p.byteSize := List.length_take_of_le hle
    have hrest : (octets.drop p.byteSize).length = count * p.byteSize := by
      rw [List.length_drop, h, Nat.succ_mul, Nat.add_sub_cancel]
    rw [decode, encode_cons, octets_ofOctets hfirst, ih hrest, List.take_append_drop]

theorem drop_encode (n : Nat) (xs : List (Scalar p)) :
    (encode xs).drop (n * p.byteSize) = encode (xs.drop n) := by
  induction n generalizing xs with
  | zero => simp
  | succ n ih =>
    cases xs with
    | nil => simp [encode]
    | cons x xs =>
      have hskip : (n + 1) * p.byteSize = x.octets.length + n * p.byteSize := by
        rw [length_octets, Nat.succ_mul, Nat.add_comm]
      rw [encode_cons, hskip, List.drop_length_add_append, ih, List.drop_succ_cons]

theorem take_decode {m n : Nat} (h : m ≤ n) (bytes : Octets) :
    (decode (p := p) n bytes).take m = decode m bytes := by
  induction m generalizing n bytes with
  | zero => rfl
  | succ m ih =>
    obtain ⟨n, rfl⟩ : ∃ k, n = k + 1 := ⟨n - 1, by omega⟩
    simp [decode, ih (Nat.le_of_succ_le_succ h)]

theorem drop_decode (m n : Nat) (bytes : Octets) :
    (decode (p := p) n bytes).drop m = decode (n - m) (bytes.drop (m * p.byteSize)) := by
  induction m generalizing n bytes with
  | zero => simp
  | succ m ih =>
    cases n with
    | zero => simp [decode]
    | succ n =>
      have hskip : p.byteSize + m * p.byteSize = (m + 1) * p.byteSize := by
        rw [Nat.succ_mul, Nat.add_comm]
      rw [decode, List.drop_succ_cons, ih, List.drop_drop, hskip, Nat.succ_sub_succ]

end Scalar

/-! ### Casts -/

variable {p : Precision} {s t : Slice} {xs ys : List (Scalar p)}

theorem Slice.length_octets (s : Slice) : s.octets.length = s.whole.length - s.offset :=
  List.length_drop

theorem castCount_eq_ok {count : Nat} : castCount p s = .ok count ↔
    p.byteSize ∣ s.offset ∧ s.octets.length = count * p.byteSize := by
  rw [castCount, s.length_octets, Nat.dvd_iff_mod_eq_zero]
  split
  · rename_i h
    rw [Except.ok.injEq, and_iff_right h.1,
      Nat.div_eq_iff_eq_mul_left p.byteSize_pos (Nat.dvd_of_mod_eq_zero h.2)]
  · rename_i h
    exact iff_of_false nofun fun ⟨hoffset, hlength⟩ =>
      h ⟨hoffset, by rw [hlength, Nat.mul_mod_left]⟩

theorem cast_eq_ok : cast p s = .ok xs ↔ p.byteSize ∣ s.offset ∧ Scalar.encode xs = s.octets := by
  rw [cast, Attempt.bind_eq_ok]
  constructor
  · rintro ⟨count, hcount, heq⟩
    obtain ⟨hoffset, hlength⟩ := castCount_eq_ok.1 hcount
    obtain rfl := Except.ok.inj heq
    exact ⟨hoffset, Scalar.encode_decode hlength⟩
  · rintro ⟨hoffset, hencode⟩
    have hlength : s.octets.length = xs.length * p.byteSize := by
      rw [← hencode, Scalar.length_encode]
    exact ⟨xs.length, castCount_eq_ok.2 ⟨hoffset, hlength⟩,
      by rw [← hencode, Scalar.decode_encode]; rfl⟩

/-- A cast succeeds where the octets are aligned and make up whole scalars. -/
theorem exists_cast_iff : (∃ xs, cast p s = .ok xs) ↔
    p.byteSize ∣ s.offset ∧ p.byteSize ∣ s.octets.length := by
  constructor
  · rintro ⟨xs, hxs⟩
    obtain ⟨hoffset, hencode⟩ := cast_eq_ok.1 hxs
    exact ⟨hoffset, by rw [← hencode, Scalar.length_encode]; exact Nat.dvd_mul_left _ _⟩
  · rintro ⟨hoffset, count, hlength⟩
    rw [Nat.mul_comm] at hlength
    exact ⟨_, cast_eq_ok.2 ⟨hoffset, Scalar.encode_decode hlength⟩⟩

theorem cast_eq_misaligned (h : ¬(p.byteSize ∣ s.offset ∧ p.byteSize ∣ s.octets.length)) :
    cast p s = .error (.refused .misaligned) := by
  rw [Nat.dvd_iff_mod_eq_zero, Nat.dvd_iff_mod_eq_zero, s.length_octets] at h
  rw [cast, castCount, if_neg h]
  rfl

/-- Where no octets are left, the offset still has to be aligned. -/
example : cast .single ⟨List.replicate 12 0, 12, by decide⟩ = .ok [] ∧
    cast .double ⟨List.replicate 12 0, 12, by decide⟩ = .error (.refused .misaligned) := ⟨rfl, rfl⟩

/-- What is cast from a later offset is the end of what is cast from an earlier one. -/
theorem suffix_of_cast (hwhole : s.whole = t.whole) (hle : s.offset ≤ t.offset)
    (hs : cast p s = .ok xs) (ht : cast p t = .ok ys) : ys <:+ xs := by
  obtain ⟨hoffset, hencode⟩ := cast_eq_ok.1 hs
  obtain ⟨hoffset', -⟩ := cast_eq_ok.1 ht
  obtain ⟨n, hn⟩ := Nat.dvd_sub hoffset' hoffset
  have hdrop : Scalar.encode (xs.drop n) = t.octets := by
    rw [← Scalar.drop_encode, hencode, Slice.octets, Slice.octets, List.drop_drop, Nat.mul_comm,
      ← hn, Nat.add_sub_of_le hle, hwhole]
  have heq := cast_eq_ok.2 ⟨hoffset', hdrop⟩
  rw [Except.ok.inj (ht.symm.trans heq)]
  exact List.drop_suffix n xs

end CowArrays
