import CowArrays.Decimal.Style
import CowArrays.Proofs.Json.Kinds
import CowArrays.Proofs.Scalar.Extents
import CowArrays.Proofs.Text.Decimals

/-!
Scalars in JSON: what is written of a finite scalar is a numeral.
-/

namespace CowArrays

namespace Decimal

variable {p : Precision} {tie : Tie} {code d : Nat} {e : Int}

/-- Nothing that reads back to a positive scalar is zero. -/
theorem not_holds_zero (hcode : 0 < code) (e : Int) :
    let q := unitsOf p 0 e
    (Interval.ofCode p code).holds q.1 q.2 = false := by
  have hpos := p.units_pos hcode
  have hnum : (unitsOf p 0 e).1 = 0 := by
    unfold unitsOf
    split <;> simp
  have hden : 0 < (unitsOf p 0 e).2 := (unitsOf_spec p ⟨0, e⟩).1
  have hlow : 0 < (Interval.ofCode p code).low * (unitsOf p 0 e).2 :=
    Nat.mul_pos (Nat.add_pos_right _ hpos) hden
  simp only [Interval.holds, hnum, Nat.mul_zero]
  split
  · simp only [Bool.and_eq_false_iff, decide_eq_false_iff_not]
    omega
  · simp

theorem candidate_pos (hcode : 0 < code) (h : candidate p tie code e = some d) : 0 < d := by
  have hzero := not_holds_zero (p := p) hcode e
  unfold candidate at h
  grind

theorem trimZeros_pos {fuel : Nat} {x : Decimal} (h : 0 < x.digits) :
    0 < (trimZeros fuel x).digits := by
  induction fuel generalizing x with
  | zero => exact h
  | succ fuel ih =>
    rw [trimZeros]
    split
    · refine ih (x := ⟨x.digits / 10, x.exponent + 1⟩) ?_
      show 0 < x.digits / 10
      omega
    · exact h

theorem onGrid_pos {num den : Nat} (hnum : 0 < num) (hden : 0 < den) (he : e ≤ magnitude num den) :
    0 < (onGrid num den e).1 / (onGrid num den e).2 := by
  obtain ⟨hpos, hquotient⟩ := onGrid_spec num hden e
  have hlow := (magnitude_spec hnum hden).1
  have hpower : (10 : ℚ) ^ e ≤ num / den := (zpow_le_zpow_right₀ (by norm_num) he).trans hlow
  have hone : (1 : ℚ) ≤ (onGrid num den e).1 / (onGrid num den e).2 := by
    rw [hquotient, one_le_div (by positivity)]
    exact hpower
  rw [one_le_div (by exact_mod_cast hpos)] at hone
  exact Nat.div_pos (by exact_mod_cast hone) hpos

theorem search_pos (hcode : 0 < code) {fuel : Nat}
    (he : e ≤ magnitude (p.units code) p.one) : 0 < (search p tie code fuel e).digits := by
  induction fuel generalizing e with
  | zero => exact onGrid_pos (p.units_pos hcode) p.one_pos he
  | succ fuel ih =>
    rw [search]
    cases hcandidate : candidate p tie code e with
    | some d => exact trimZeros_pos (candidate_pos hcode hcandidate)
    | none => exact ih (by omega)

theorem shortest_pos (hcode : 0 < code) : 0 < (shortest p tie code).digits :=
  search_pos hcode (Int.le_refl _)

end Decimal

namespace Json

/-! ### Numerals from characters -/

def IsUnsigned (s : String) : Prop :=
  ∀ negative : Bool, ∃ n : Numeral, n.negative = negative ∧ n.unsigned = s.toUTF8.toList

theorem isUnsigned_of_toList {s : String} {whole fraction mark : List Char} (power : Option Power)
    (hs : s.toList = whole ++ (Decimal.behindPoint fraction ++ mark)) (hne : whole ≠ [])
    (hwhole : ∀ c ∈ whole, c.isDigit = true) (hzero : whole.head? = some '0' → whole = ['0'])
    (hfraction : ∀ c ∈ fraction, c.isDigit = true) (hmark : ∀ c ∈ mark, Text.IsVisible c)
    (hpower : power.elim [] Power.text = mark.map octetOf) : IsUnsigned s := by
  intro negative
  have hbehind : ∀ c ∈ Decimal.behindPoint fraction, Text.IsVisible c := by
    unfold Decimal.behindPoint
    split
    · exact nofun
    · exact List.forall_mem_cons.2 ⟨by decide, fun c hc => visible_of_isDigit (hfraction c hc)⟩
  have hvisible : ∀ c ∈ s.toList, Text.IsVisible c := by
    rw [hs]
    simp only [List.mem_append]
    rintro c (hc | hc | hc)
    · exact visible_of_isDigit (hwhole c hc)
    · exact hbehind c hc
    · exact hmark c hc
  refine ⟨⟨negative, whole.map octetOf, fraction.map octetOf, power, areDigits_map hwhole hne,
    noLeadingZero_map hwhole hzero, fun b hb => ?_⟩, rfl, ?_⟩
  · obtain ⟨c, hc, rfl⟩ := List.mem_map.1 hb
    exact isDigit_octetOf (hfraction c hc)
  · have hpoint : octetOf '.' = point := rfl
    rw [octets_of_visible hvisible, word_eq, hs, Numeral.unsigned, Numeral.behindWhole, hpower]
    by_cases hnil : fraction = [] <;> simp [Decimal.behindPoint, hnil, hpoint]

theorem exists_power (e : Int) : ∃ power : Power, power.text =
    ('e' :: ((if 0 ≤ e then ['+'] else []) ++ (toString e).toList)).map octetOf := by
  have hdigits (n : Nat) : AreDigits ((Nat.toDigits 10 n).map octetOf) :=
    areDigits_map (fun _ hc => isDigit_of_mem_toDigits hc) Nat.toDigits_ne_nil
  rw [toList_toString_int]
  split
  · exact ⟨⟨0x65, some true, _, rfl, hdigits e.toNat⟩, rfl⟩
  · exact ⟨⟨0x65, some false, _, rfl, hdigits (-e).toNat⟩, rfl⟩

/-! ### Decimals -/

section

variable {d : Decimal}

theorem all_text (d : Decimal) : ∀ c ∈ d.text, c.isDigit = true :=
  fun _ hc => isDigit_of_mem_toDigits hc

theorem head_text (hd : 0 < d.digits) : d.text.head? ≠ some '0' := by
  intro hhead
  cases htext : d.text with
  | nil => exact Nat.toDigits_ne_nil htext
  | cons c cs =>
    rw [htext] at hhead
    obtain rfl := Option.some.inj hhead
    have hzero := (toDigits_leading htext).1
    omega

theorem isUnsigned_writeScientific (d : Decimal) :
    IsUnsigned (NumberStyle.writeScientific true d) := by
  obtain ⟨first, rest, htext, hfirst, hrest, -⟩ := d.text_cases
  obtain ⟨power, hpower⟩ := exists_power d.leading
  have hmark : ∀ c ∈ 'e' :: ((if 0 ≤ d.leading then ['+'] else []) ++ (toString d.leading).toList),
      Text.IsVisible c := by
    intro c hc
    rcases List.mem_cons.1 hc with rfl | hc
    · decide
    rcases List.mem_append.1 hc with hc | hc
    · split at hc
      · rw [List.mem_singleton.1 hc]
        decide
      · cases hc
    · exact (Decimal.field_of_mem_toString hc).1
  have htoList : (NumberStyle.writeScientific true d).toList = [first] ++
      (Decimal.behindPoint rest ++
        'e' :: ((if 0 ≤ d.leading then ['+'] else []) ++ (toString d.leading).toList)) := by
    by_cases hsign : 0 ≤ d.leading <;> cases rest <;>
      simp [NumberStyle.writeScientific, htext, Decimal.behindPoint, hsign]
  exact isUnsigned_of_toList (some power) htoList (List.cons_ne_nil _ _) (by simpa using hfirst)
    (fun h => by rw [Option.some.inj h]) hrest hmark hpower

theorem isUnsigned_ofList {whole fraction : List Char} (hne : whole ≠ [])
    (hwhole : ∀ c ∈ whole, c.isDigit = true) (hzero : whole.head? = some '0' → whole = ['0'])
    (hfraction : ∀ c ∈ fraction, c.isDigit = true) :
    IsUnsigned (.ofList (whole ++ Decimal.behindPoint fraction)) := by
  have htoList : (String.ofList (whole ++ Decimal.behindPoint fraction)).toList =
      whole ++ (Decimal.behindPoint fraction ++ []) := by
    rw [String.toList_ofList, List.append_nil]
  exact isUnsigned_of_toList none htoList hne hwhole hzero hfraction nofun rfl

theorem isDigit_of_mem_zeros {n : Nat} : ∀ c ∈ List.replicate n '0', c.isDigit = true := by
  intro c hc
  rw [(List.mem_replicate.1 hc).2]
  rfl

/-- Zeros may be written behind digits that do not start with one, and behind a point. -/
theorem isUnsigned_writePositional (hd : 0 < d.digits ∨ d = ⟨0, 0⟩) :
    IsUnsigned (NumberStyle.json.writePositional d) := by
  have hall := all_text d
  have hne : d.text ≠ [] := Nat.toDigits_ne_nil
  unfold NumberStyle.writePositional
  dsimp only
  split
  case isTrue hexponent =>
    -- an integer: zeros behind its digits, and a fraction of one zero
    have hpoint : ".0" = String.ofList (Decimal.behindPoint ['0']) := rfl
    rw [NumberStyle.json, if_pos rfl, hpoint, ← String.ofList_append]
    refine isUnsigned_ofList (by simp [hne]) ?_ ?_ (by simp)
    · exact List.forall_mem_append.2 ⟨hall, isDigit_of_mem_zeros⟩
    · rcases hd with hpos | rfl
      · rw [List.head?_append_of_ne_nil _ hne]
        exact fun h => absurd h (head_text hpos)
      · exact fun _ => rfl
  case isFalse hexponent =>
    have hpos : 0 < d.digits := by
      rcases hd with hpos | rfl
      · exact hpos
      · exact absurd (Int.le_refl 0) hexponent
    have hcount := Decimal.length_text d hpos
    have hleading : d.leading + 1 = d.exponent + Decimal.length d.digits := by
      unfold Decimal.leading
      omega
    split
    case isTrue hpoint =>
      -- the point is among the digits, and the first of them is no zero
      have hdrop : d.text.drop (d.leading + 1).toNat ≠ [] := by
        rw [Ne, List.drop_eq_nil_iff]
        omega
      have hcut : (d.leading + 1).toNat ≠ 0 := by omega
      have htake : d.text.take (d.leading + 1).toNat ≠ [] :=
        fun h => (List.take_eq_nil_iff.1 h).elim hcut hne
      have hhead : (d.text.take (d.leading + 1).toNat).head? ≠ some '0' := by
        rw [List.head?_take, if_neg hcut]
        exact head_text hpos
      have hfraction : ∀ c ∈ d.text.drop (d.leading + 1).toNat, c.isDigit = true :=
        fun c hc => hall c (List.mem_of_mem_drop hc)
      have hbehind := isUnsigned_ofList htake (fun c hc => hall c (List.mem_of_mem_take hc))
        (fun h => absurd h hhead) hfraction
      rwa [Decimal.behindPoint, if_neg hdrop] at hbehind
    case isFalse hpoint =>
      -- below one: a zero before the point, zeros and all digits behind it
      have hbehind : List.replicate (-(d.leading + 1)).toNat '0' ++ d.text ≠ [] := by simp [hne]
      have hfraction : ∀ c ∈ List.replicate (-(d.leading + 1)).toNat '0' ++ d.text,
          c.isDigit = true := List.forall_mem_append.2 ⟨isDigit_of_mem_zeros, hall⟩
      have hwritten := isUnsigned_ofList (List.cons_ne_nil '0' []) (by simp) (fun _ => rfl)
        hfraction
      rwa [Decimal.behindPoint, if_neg hbehind] at hwritten

theorem isUnsigned_writeDecimal (hd : 0 < d.digits ∨ d = ⟨0, 0⟩) :
    IsUnsigned (NumberStyle.json.writeDecimal d) := by
  unfold NumberStyle.writeDecimal
  split
  · exact isUnsigned_writePositional hd
  · exact isUnsigned_writeScientific d

end

/-- What is written of a finite scalar is a numeral. -/
theorem exists_numeral {x : Scalar .double} (hx : x.isFinite = true) :
    ∃ n : Numeral, n.text = (x.write .json).toUTF8.toList := by
  have hfinite : IsUnsigned (if x.isZero then NumberStyle.json.writeDecimal ⟨0, 0⟩ else
      NumberStyle.json.writeDecimal (Decimal.shortest .double NumberStyle.json.tie x.code)) := by
    split
    · exact isUnsigned_writeDecimal (.inr rfl)
    · rename_i hzero
      have hcode : 0 < x.code := Nat.pos_of_ne_zero (by simpa [Scalar.isZero] using hzero)
      exact isUnsigned_writeDecimal (.inl (Decimal.shortest_pos hcode))
  obtain ⟨n, hnegative, hunsigned⟩ := hfinite x.negative
  have hminus : "-".toUTF8.toList = [minus] := by
    rw [Text.toList_toUTF8]
    decide
  have hempty : "".toUTF8.toList = [] := by
    rw [Text.toList_toUTF8]
    decide
  refine ⟨n, ?_⟩
  rw [Scalar.write, Scalar.writeWith, Scalar.isNaN_of_isFinite hx, if_neg Bool.false_ne_true,
    Scalar.isInfinite_of_isFinite hx, if_neg Bool.false_ne_true, Text.toUTF8_append, ← hunsigned,
    Numeral.text, hnegative, Scalar.signText]
  cases x.negative
  · rw [if_neg Bool.false_ne_true, if_neg Bool.false_ne_true, hempty]
  · rw [if_pos rfl, if_pos rfl, hminus]

end Json
end CowArrays
