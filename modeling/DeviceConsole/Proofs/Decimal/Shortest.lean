import DeviceConsole.Decimal.Shortest
import DeviceConsole.Proofs.Text.Trimming
import Mathlib.Algebra.Order.Field.Power
import Mathlib.Data.Rat.Cast.Order
import Mathlib.Tactic.Linarith
import Mathlib.Tactic.NormNum
import Mathlib.Tactic.Ring

/-!
The search for the shortest digits of a float succeeds.

A grid with seventeen digits is finer than the interval of reals that round to the float, so one of
the two neighbours of the value lies inside (`exists_neighbour`); the search never reaches its end.
Zero lies in no such interval, so the digits are those of a positive number without the zeros at its
end: there is a first one, and it is no zero (`shortest_proper`).
-/
namespace DeviceConsole.Decimal

/-! ### Digits -/

theorem isDigit_of_mem_digitsOf {n : Nat} {c : Char} (h : c ∈ digitsOf n) : c.isDigit = true :=
  Nat.isDigit_of_mem_toDigits (by decide) (by decide) h

theorem digitsOf_eq (n : Nat) :
    digitsOf n = if n < 10 then [n.digitChar] else digitsOf (n / 10) ++ [(n % 10).digitChar] :=
  Nat.toDigits_eq_if (by decide)

/-- A positive number has no zero in front. -/
theorem exists_digitsOf_eq_cons {n : Nat} (h : 0 < n) :
    ∃ c cs, digitsOf n = c :: cs ∧ c ≠ '0' := by
  induction n using Nat.strongRecOn with
  | ind n ih =>
    rw [digitsOf_eq]
    by_cases hn : n < 10
    · refine ⟨n.digitChar, [], if_pos hn, fun hzero => ?_⟩
      rw [Nat.digitChar_eq_zero] at hzero
      omega
    · obtain ⟨c, cs, hdigits, hc⟩ := ih (n / 10) (by omega) (by omega)
      exact ⟨c, cs ++ [(n % 10).digitChar], by rw [if_neg hn, hdigits]; rfl, hc⟩

theorem length_digitsOf_pos (n : Nat) : 0 < (digitsOf n).length :=
  Nat.length_toDigits_pos

theorem lt_pow_length_digitsOf (n : Nat) : n < 10 ^ (digitsOf n).length :=
  (Nat.length_toDigits_le_iff (by decide) (length_digitsOf_pos n)).1 (Nat.le_refl _)

theorem pow_length_digitsOf_le {n : Nat} (h : 0 < n) : 10 ^ ((digitsOf n).length - 1) ≤ n := by
  by_cases hlen : (digitsOf n).length - 1 = 0
  · rw [hlen]
    exact h
  · have hpos := length_digitsOf_pos n
    have hlt : ¬ n < 10 ^ ((digitsOf n).length - 1) := fun hlt => by
      have hle := (Nat.length_toDigits_le_iff (b := 10) (by decide) (Nat.pos_of_ne_zero hlen)).2 hlt
      have hsame : (Nat.toDigits 10 n).length = (digitsOf n).length := rfl
      omega
    exact Nat.le_of_not_lt hlt

/-- Digits that a number is written with: some, and no zero in front. -/
structure Scientific.Proper (s : Scientific) : Prop where
  digits : ∀ c ∈ s.digits, c.isDigit = true
  leading : ∃ c cs, s.digits = c :: cs ∧ c ≠ '0'

theorem proper_ofUnits {units : Nat} (h : 0 < units) (exponent : Int) :
    (Scientific.ofUnits units exponent).Proper := by
  obtain ⟨c, cs, hdigits, hc⟩ := exists_digitsOf_eq_cons h
  have hkept : (Scientific.ofUnits units exponent).digits =
      Text.dropEnd (· == '0') (digitsOf units) := rfl
  refine ⟨fun d hd => ?_, ?_⟩
  · rw [hkept] at hd
    exact isDigit_of_mem_digitsOf (Text.mem_of_mem_dropEnd hd)
  · obtain ⟨zeros, hzeros, hall⟩ := Text.exists_dropEnd_append (· == '0') (digitsOf units)
    rw [hkept]
    cases hdrop : Text.dropEnd (· == '0') (digitsOf units) with
    | nil =>
      rw [hdrop, hdigits, List.nil_append] at hzeros
      have hzero := hall c (hzeros ▸ List.mem_cons_self)
      exact absurd (by simpa using hzero) hc
    | cons d ds =>
      have hhead := Text.head?_of_dropEnd (p := (· == '0')) (c := d) (by rw [hdrop]; rfl)
      rw [hdigits] at hhead
      obtain rfl := Option.some_inj.1 hhead
      exact ⟨c, ds, rfl, hc⟩

/-! ### Powers -/

theorem power_pos {base : Nat} (h : 0 < base) (e : Int) :
    0 < (power base e).1 ∧ 0 < (power base e).2 := by
  unfold power
  split
  · exact ⟨Nat.pow_pos h, Nat.one_pos⟩
  · exact ⟨Nat.one_pos, Nat.pow_pos h⟩

theorem power_div (base : Nat) (e : Int) :
    ((power base e).1 : ℚ) / (power base e).2 = (base : ℚ) ^ e := by
  unfold power
  split
  · next he =>
    obtain ⟨n, rfl⟩ := Int.eq_ofNat_of_zero_le he
    simp
  · next he =>
    obtain ⟨n, rfl⟩ : ∃ n : Nat, e = -(n : Int) := ⟨(-e).toNat, by omega⟩
    simp

/-- A power is compared with a quotient by its two factors. -/
theorem zpow_le_div_iff {base num den : Nat} (hbase : 0 < base) (hden : 0 < den) (e : Int) :
    (base : ℚ) ^ e ≤ num / den ↔ den * (power base e).1 ≤ num * (power base e).2 := by
  have hdenQ : (0 : ℚ) < den := by exact_mod_cast hden
  have hdown : (0 : ℚ) < (power base e).2 := by exact_mod_cast (power_pos hbase e).2
  rw [← power_div, div_le_div_iff₀ hdown hdenQ, mul_comm ((power base e).1 : ℚ)]
  exact_mod_cast Iff.rfl

/-- The leading digit of a quotient is not beyond its value. -/
theorem leadingExponent_le {num den : Nat} (hnum : 0 < num) (hden : 0 < den) :
    (10 : ℚ) ^ leadingExponent num den ≤ (num : ℚ) / den := by
  unfold leadingExponent
  dsimp only
  split
  · next hle => exact_mod_cast (zpow_le_div_iff (by decide) hden _).2 hle
  · have hlow : (10 : ℚ) ^ ((digitsOf num).length - 1) ≤ num := by
      exact_mod_cast pow_length_digitsOf_le hnum
    have hhigh : (den : ℚ) ≤ 10 ^ (digitsOf den).length := by
      exact_mod_cast (lt_pow_length_digitsOf den).le
    have hlen := length_digitsOf_pos num
    have hexponent : ((digitsOf num).length - (digitsOf den).length - 1 : Int) =
        ((digitsOf num).length - 1 : Nat) - ((digitsOf den).length : Nat) := by omega
    calc (10 : ℚ) ^ ((digitsOf num).length - (digitsOf den).length - 1 : Int)
        = 10 ^ ((digitsOf num).length - 1) / 10 ^ (digitsOf den).length := by
          rw [hexponent, zpow_sub₀ (by norm_num), zpow_natCast, zpow_natCast]
      _ ≤ num / den := by gcongr

/-! ### Neighbours -/

/-- The distance of two neighbours on the grid of `10 ^ e`, in some unit. -/
def gridOf (m : Magnitude) (e : Int) : Nat :=
  (power 10 e).1 * (power 2 (m.exponent - 2)).2

/-- A quarter of the last binary place, in the same unit. -/
def placeOf (m : Magnitude) (e : Int) : Nat :=
  (power 2 (m.exponent - 2)).1 * (power 10 e).2

theorem gridOf_pos (m : Magnitude) (e : Int) : 0 < gridOf m e :=
  Nat.mul_pos (power_pos (by decide) e).1 (power_pos (by decide) (m.exponent - 2)).2

theorem placeOf_pos (m : Magnitude) (e : Int) : 0 < placeOf m e :=
  Nat.mul_pos (power_pos (by decide) (m.exponent - 2)).1 (power_pos (by decide) e).2

/-- The value, in the same unit. -/
def valueOf (m : Magnitude) (e : Int) : Nat :=
  4 * m.significand * placeOf m e

/-- The lower end of the interval, in the same unit. -/
def lowOf (m : Magnitude) (e : Int) : Nat :=
  (4 * m.significand - (if m.tight then 1 else 2)) * placeOf m e

/-- The upper end of the interval, in the same unit. -/
def highOf (m : Magnitude) (e : Int) : Nat :=
  (4 * m.significand + 2) * placeOf m e

/-- Whether a point of the grid lies in the interval, to which the ends belong if the significand
is even. -/
def isInside (m : Magnitude) (e : Int) (n : Nat) : Bool :=
  if m.significand % 2 == 0 then lowOf m e ≤ n * gridOf m e && n * gridOf m e ≤ highOf m e
  else lowOf m e < n * gridOf m e && n * gridOf m e < highOf m e

theorem lowOf_le {m : Magnitude} {e : Int} {n : Nat} (h : isInside m e n = true) :
    lowOf m e ≤ n * gridOf m e := by
  unfold isInside at h
  split at h <;> simp only [Bool.and_eq_true, decide_eq_true_eq] at h <;> omega

theorem isInside_of_lt {m : Magnitude} {e : Int} {n : Nat} (hlow : lowOf m e < n * gridOf m e)
    (hhigh : n * gridOf m e < highOf m e) : isInside m e n = true := by
  unfold isInside
  split <;> simp only [Bool.and_eq_true, decide_eq_true_eq] <;> omega

theorem neighbour?_eq (m : Magnitude) (e : Int) :
    neighbour? m e =
      let below := valueOf m e / gridOf m e
      match isInside m e below, isInside m e (below + 1) with
      | true, true =>
        let fromBelow := valueOf m e - below * gridOf m e
        let fromAbove := (below + 1) * gridOf m e - valueOf m e
        if fromBelow < fromAbove || (fromBelow == fromAbove && below % 2 == 0) then some below
        else some (below + 1)
      | true, false => some below
      | false, true => some (below + 1)
      | false, false => none :=
  rfl

/-- A neighbour that is found lies inside, and one is found if either does. -/
theorem neighbour?_cases (m : Magnitude) (e : Int) :
    (∃ n, neighbour? m e = some n ∧ isInside m e n = true) ∨
      (neighbour? m e = none ∧ isInside m e (valueOf m e / gridOf m e) = false ∧
        isInside m e (valueOf m e / gridOf m e + 1) = false) := by
  rw [neighbour?_eq]
  dsimp only
  cases hbelow : isInside m e (valueOf m e / gridOf m e) <;>
    cases habove : isInside m e (valueOf m e / gridOf m e + 1)
  · exact .inr ⟨rfl, rfl, rfl⟩
  · exact .inl ⟨_, rfl, habove⟩
  · exact .inl ⟨_, rfl, hbelow⟩
  · dsimp only
    split
    · exact .inl ⟨_, rfl, hbelow⟩
    · exact .inl ⟨_, rfl, habove⟩

/-- No neighbour that is found is zero. -/
theorem neighbour?_pos {m : Magnitude} {e : Int} {n : Nat} (hm : 0 < m.significand)
    (h : neighbour? m e = some n) : 0 < n := by
  have hlow : 0 < lowOf m e := by
    refine Nat.mul_pos ?_ (placeOf_pos m e)
    split <;> omega
  rcases neighbour?_cases m e with ⟨n', hn, hinside⟩ | ⟨hnone, -⟩
  · obtain rfl := Option.some_inj.1 (h.symm.trans hn)
    exact Nat.pos_of_mul_pos_right (Nat.lt_of_lt_of_le hlow (lowOf_le hinside))
  · rw [h] at hnone
    cases hnone

/-! ### Magnitudes of floats -/

/-- A significand fits fifty-three bits, and is the smallest with as many where the next smaller
magnitude is nearer. -/
structure Usual (m : Magnitude) : Prop where
  positive : 0 < m.significand
  lt : m.significand < 2 ^ 53
  tight : m.tight = true → m.significand = 2 ^ 52

/-- On a grid of which the value has seventeen digits, a neighbour is found. -/
theorem exists_neighbour {m : Magnitude} (hm : Usual m) {e : Int}
    (hfine : 10 ^ 16 * gridOf m e ≤ valueOf m e) : ∃ n, neighbour? m e = some n := by
  have hplace := placeOf_pos m e
  have hpos := hm.positive
  have hdiv := Nat.div_add_mod' (valueOf m e) (gridOf m e)
  have hmod := Nat.mod_lt (valueOf m e) (gridOf_pos m e)
  have habove : (valueOf m e / gridOf m e + 1) * gridOf m e =
      valueOf m e / gridOf m e * gridOf m e + gridOf m e := Nat.succ_mul _ _
  have hhigh : highOf m e = valueOf m e + 2 * placeOf m e := Nat.add_mul _ _ _
  rcases neighbour?_cases m e with ⟨n, hn, -⟩ | ⟨-, hbelow, hnext⟩
  · exact ⟨n, hn⟩
  exfalso
  cases htight : m.tight with
  | true =>
    -- the grid is finer than half a place, so the neighbour above is inside
    have hlow : lowOf m e + placeOf m e = valueOf m e := by
      rw [lowOf, valueOf, if_pos htight, ← Nat.succ_mul]
      congr 1
      omega
    have hvalue : valueOf m e = (4 * 2 ^ 52) * placeOf m e := by
      rw [valueOf, hm.tight htight]
    rw [isInside_of_lt (by omega) (by omega)] at hnext
    cases hnext
  | false =>
    -- the grid is finer than a place, so the nearer neighbour is inside
    have hlow : lowOf m e + 2 * placeOf m e = valueOf m e := by
      rw [lowOf, valueOf, if_neg (by simp [htight]), ← Nat.add_mul]
      congr 1
      omega
    have hvalue : valueOf m e ≤ (4 * 2 ^ 53) * placeOf m e :=
      Nat.mul_le_mul_right _ (Nat.mul_le_mul_left 4 hm.lt.le)
    by_cases hnear : valueOf m e % gridOf m e < 2 * placeOf m e
    · rw [isInside_of_lt (by omega) (by omega)] at hbelow
      cases hbelow
    · rw [isInside_of_lt (by omega) (by omega)] at hnext
      cases hnext

theorem place_div_grid (m : Magnitude) (e : Int) :
    (placeOf m e : ℚ) / gridOf m e = 2 ^ (m.exponent - 2) / 10 ^ e := by
  have htwo := power_div 2 (m.exponent - 2)
  have hten := power_div 10 e
  rw [Nat.cast_ofNat] at htwo hten
  rw [placeOf, gridOf, ← htwo, ← hten, div_div_div_eq, Nat.cast_mul, Nat.cast_mul,
    mul_comm ((power 10 e).1 : ℚ)]

/-- The value has seventeen digits on the grid on which the search ends. -/
theorem fine_of_leading {m : Magnitude} (hm : 0 < m.significand) {e : Int}
    (he : e = leadingExponent (m.significand * (power 2 m.exponent).1) (power 2 m.exponent).2 - 16) :
    10 ^ 16 * gridOf m e ≤ valueOf m e := by
  have hbinary := power_pos (show 0 < 2 by decide) m.exponent
  have hgrid : (0 : ℚ) < gridOf m e := by exact_mod_cast gridOf_pos m e
  have hten : (0 : ℚ) < 10 ^ e := zpow_pos (by norm_num) e
  have hscale : (10 : ℚ) ^ 16 * 10 ^ e ≤ m.significand * 2 ^ m.exponent := by
    have htwo := power_div 2 m.exponent
    rw [Nat.cast_ofNat] at htwo
    calc (10 : ℚ) ^ 16 * 10 ^ e
        = 10 ^ leadingExponent (m.significand * (power 2 m.exponent).1)
            (power 2 m.exponent).2 := by
          rw [he, ← zpow_natCast, ← zpow_add₀ (by norm_num)]
          congr 1
          omega
      _ ≤ ((m.significand * (power 2 m.exponent).1 : Nat) : ℚ) / (power 2 m.exponent).2 :=
          leadingExponent_le (Nat.mul_pos hm hbinary.1) hbinary.2
      _ = m.significand * 2 ^ m.exponent := by rw [Nat.cast_mul, mul_div_assoc, htwo]
  have hquarter : (2 : ℚ) ^ m.exponent = 4 * 2 ^ (m.exponent - 2) := by
    rw [zpow_sub₀ (by norm_num)]
    norm_num
    ring
  have hgoal : (10 : ℚ) ^ 16 * gridOf m e ≤ 4 * m.significand * placeOf m e := by
    rw [← le_div_iff₀ hgrid, mul_div_assoc, place_div_grid, ← mul_div_assoc, le_div_iff₀ hten]
    calc (10 : ℚ) ^ 16 * 10 ^ e ≤ m.significand * 2 ^ m.exponent := hscale
      _ = 4 * m.significand * 2 ^ (m.exponent - 2) := by rw [hquarter]; ring
  exact_mod_cast hgoal

theorem search_proper {m : Magnitude} (hm : Usual m) {leading : Int} {fuel count : Nat}
    (h : ∃ k < fuel, ∃ n, neighbour? m (leading - (count + k : Nat) + 1) = some n) :
    (search m leading fuel count).Proper := by
  induction fuel generalizing count with
  | zero =>
    obtain ⟨k, hk, -⟩ := h
    exact absurd hk (Nat.not_lt_zero k)
  | succ fuel ih =>
    obtain ⟨k, hk, n, hn⟩ := h
    rw [search]
    cases hfirst : neighbour? m (leading - count + 1) with
    | some units => exact proper_ofUnits (neighbour?_pos hm.positive hfirst) _
    | none =>
      cases k with
      | zero =>
        rw [Nat.add_zero, hfirst] at hn
        cases hn
      | succ k =>
        refine ih ⟨k, Nat.lt_of_succ_lt_succ hk, n, ?_⟩
        rw [← hn]
        congr 3
        omega

/-- The shortest digits of a float are proper ones. -/
theorem shortest_proper {m : Magnitude} (hm : Usual m) : (shortest m).Proper := by
  unfold shortest
  dsimp only
  obtain ⟨n, hn⟩ := exists_neighbour hm (fine_of_leading hm.positive rfl)
  refine search_proper hm ⟨16, by decide, n, ?_⟩
  rw [← hn]
  congr 1
  push_cast
  omega

theorem usual_of_read {x : Float} {negative : Bool} {m : Magnitude}
    (h : read x = .finite negative m) (hm : m.significand ≠ 0) : Usual m := by
  have hbit : leadingBit = 2 ^ 52 := by decide
  have hfraction : x.toBits.toNat % leadingBit < leadingBit := Nat.mod_lt _ (by decide)
  unfold read readBits at h
  dsimp only at h
  split at h
  · split at h <;> cases h
  · split at h
    · obtain ⟨-, rfl⟩ := Reading.finite.inj h
      exact ⟨Nat.pos_of_ne_zero hm, by dsimp only; omega, nofun⟩
    · obtain ⟨-, rfl⟩ := Reading.finite.inj h
      refine ⟨Nat.pos_of_ne_zero hm, by dsimp only; omega, fun htight => ?_⟩
      simp only [Bool.and_eq_true, beq_iff_eq] at htight
      dsimp only
      omega

end DeviceConsole.Decimal
