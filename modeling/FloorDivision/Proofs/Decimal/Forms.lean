import FloorDivision.Object
import FloorDivision.Proofs.Decimal.Shortest
import FloorDivision.Proofs.Decimal.Written

/-!
# Which form a double is written in

A form with a point and one with an exponent are told apart by where the point falls in the
shortest digits.  The host switches to an exponent below `10 ^ -4`; the text of an object does so
below `10 ^ -5`, and is the host's everywhere else.

* `PositionalText`, `ScientificText` — the two forms, as relations between digits and texts.
* `SwitchedText` — the form that belongs to the place of the point, `HostText` for the host's range.
* `Decimal.lt_point_iff` — where the point falls tells the magnitude from a power of ten.
* `float_text_layout` — the text of a finite double.
-/

namespace FloorDivision

open Double (cast_unit_pos unit)

/-! ## The two forms -/

/-- Digits with a point, which comes after so many of them: at least one digit stands on each side,
and zeros fill what is missing. -/
inductive PositionalText (digits : List Char) : Int → List Char → Prop
  | before (zeros : Nat) :
    PositionalText digits (-zeros) ('0' :: '.' :: (List.replicate zeros '0' ++ digits))
  | inside {whole fraction : List Char} (hsplit : digits = whole ++ fraction) (hwhole : whole ≠ [])
      (hfraction : fraction ≠ []) :
    PositionalText digits whole.length (whole ++ '.' :: fraction)
  | after (zeros : Nat) :
    PositionalText digits (digits.length + zeros) (digits ++ List.replicate zeros '0' ++ ['.', '0'])

/-- The mark of an exponent, its sign, and its digits: two at least, and no more than it needs. -/
inductive ExponentText (exponent : Int) : List Char → Prop
  | intro {digits : List Char} (hdigits : AllDigits digits)
      (hvalue : Nat.ofDigitChars 10 digits 0 = exponent.natAbs) (htwo : 2 ≤ digits.length)
      (hfewest : digits.length = 2 ∨ 10 ^ (digits.length - 1) ≤ exponent.natAbs) :
    ExponentText exponent ('e' :: (if exponent < 0 then '-' else '+') :: digits)

/-- The first digit, a point if others follow, and an exponent. -/
inductive ScientificText (exponent : Int) : List Char → List Char → Prop
  | single {first : Char} {tail : List Char} (htail : ExponentText exponent tail) :
    ScientificText exponent [first] (first :: tail)
  | several {first : Char} {rest tail : List Char} (hrest : rest ≠ [])
      (htail : ExponentText exponent tail) :
    ScientificText exponent (first :: rest) (first :: '.' :: rest ++ tail)

/-- Positional where the point falls after `least` and at most sixteen, with an exponent
elsewhere. -/
inductive SwitchedText (least : Int) (digits : List Char) (point : Int) (text : List Char) : Prop
  | positional (hnear : least < point ∧ point ≤ 16) (htext : PositionalText digits point text)
  | scientific (hfar : ¬ (least < point ∧ point ≤ 16))
      (htext : ScientificText (point - 1) digits text)

/-- The form that the host writes. -/
def HostText : List Char → Int → List Char → Prop := SwitchedText (-4)

/-- After so many of its digits a decimal has the point. -/
def Decimal.point (d : Decimal) : Int := (Nat.toDigits 10 d.digits).length + d.exponent

namespace Layout

theorem positionalText_positional (digits : List Char) (point : Int) :
    PositionalText digits point (positional digits point) := by
  unfold positional
  split
  · rename_i hafter
    have hpoint : point = digits.length + (point.toNat - digits.length : Nat) := by omega
    have htext : PositionalText digits _ _ := PositionalText.after (point.toNat - digits.length)
    rwa [← hpoint] at htext
  · rename_i hinside
    split
    · rename_i hpos
      have hlength : ((digits.take point.toNat).length : Int) = point := by
        rw [List.length_take]
        omega
      have htext : PositionalText digits (digits.take point.toNat).length
          (digits.take point.toNat ++ '.' :: digits.drop point.toNat) := by
        apply PositionalText.inside (List.take_append_drop _ _).symm
        · rw [← List.length_pos_iff]
          omega
        · rw [← List.length_pos_iff, List.length_drop]
          omega
      rwa [hlength] at htext
    · rename_i hbefore
      have hpoint : point = -((-point).toNat : Int) := by omega
      have htext : PositionalText digits _ _ := PositionalText.before (-point).toNat
      rwa [← hpoint] at htext

theorem length_toDigits (n : Nat) : (Nat.toDigits 10 n).length = Decimal.digitCount n := by
  rw [Decimal.digitCount, ← String.length_toList, Nat.toList_repr]

theorem exponentText_zeroPad (exponent : Int) :
    ExponentText exponent ('e' :: (if exponent < 0 then '-' else '+') ::
      zeroPad 2 (Nat.toDigits 10 exponent.natAbs)) := by
  have hlength : (zeroPad 2 (Nat.toDigits 10 exponent.natAbs)).length =
      2 - Decimal.digitCount exponent.natAbs + Decimal.digitCount exponent.natAbs := by
    simp [zeroPad, length_toDigits]
  apply ExponentText.intro
  · exact (allDigits_replicate _).append (allDigits_toDigits _)
  · rw [zeroPad, Nat.ofDigitChars_append]
    simp
  · omega
  · by_cases hfew : Decimal.digitCount exponent.natAbs ≤ 2
    · left
      omega
    · right
      have hne : exponent.natAbs ≠ 0 := by
        intro hzero
        rw [hzero] at hfew
        exact hfew (by decide)
      have hleast := Decimal.ten_pow_digitCount_le hne
      have hsame : (zeroPad 2 (Nat.toDigits 10 exponent.natAbs)).length =
          Decimal.digitCount exponent.natAbs := by omega
      rwa [hsame]

theorem scientificText_scientific {digits : List Char} (hne : digits ≠ []) (exponent : Int) :
    ScientificText exponent digits (scientific 2 digits exponent) := by
  have htail := exponentText_zeroPad exponent
  unfold scientific
  cases digits with
  | nil => exact absurd rfl hne
  | cons first rest =>
    cases rest with
    | nil => exact ScientificText.single htail
    | cons second rest => exact ScientificText.several (List.cons_ne_nil _ _) htail

/-- A literal is positional from `10 ^ -5` on. -/
theorem switchedText_magnitude (d : Decimal) :
    SwitchedText (-5) (Nat.toDigits 10 d.digits) d.point (literal.magnitude d) := by
  unfold magnitude Decimal.point
  dsimp only
  split
  · rename_i hnear
    exact SwitchedText.positional hnear (positionalText_positional _ _)
  · rename_i hfar
    exact SwitchedText.scientific hfar (scientificText_scientific Nat.toDigits_ne_nil _)

end Layout

/-! ## The forms exclude each other -/

theorem ExponentText.mark_mem {exponent : Int} {text : List Char} (h : ExponentText exponent text) :
    'e' ∈ text := by
  cases h
  exact List.mem_cons_self

theorem ScientificText.mark_mem {exponent : Int} {digits text : List Char}
    (h : ScientificText exponent digits text) : 'e' ∈ text := by
  cases h with
  | single htail => exact List.mem_cons_of_mem _ htail.mark_mem
  | several hrest htail => exact List.mem_append_right _ htail.mark_mem

theorem PositionalText.mark_not_mem {digits text : List Char} {point : Int}
    (h : PositionalText digits point text) (hdigits : AllDigits digits) : 'e' ∉ text := by
  have hnot : 'e' ∉ digits := hdigits.not_mem rfl
  cases h with
  | before zeros => simp [hnot]
  | inside hsplit =>
    subst hsplit
    simpa using hnot
  | after zeros => simp [hnot]

/-- Two ranges of positional texts lead to the same text where both have the point or neither. -/
theorem SwitchedText.iff_of_digits {least least' point : Int} {digits text : List Char}
    (h : SwitchedText least digits point text) (hdigits : AllDigits digits) :
    SwitchedText least' digits point text ↔
      (least < point ∧ point ≤ 16 ↔ least' < point ∧ point ≤ 16) := by
  constructor
  · intro h'
    cases h with
    | positional hnear htext =>
      cases h' with
      | positional hnear' _ => exact iff_of_true hnear hnear'
      | scientific _ htext' => exact absurd htext'.mark_mem (htext.mark_not_mem hdigits)
    | scientific hfar htext =>
      cases h' with
      | positional _ htext' => exact absurd htext.mark_mem (htext'.mark_not_mem hdigits)
      | scientific hfar' _ => exact iff_of_false hfar hfar'
  · intro hsame
    cases h with
    | positional hnear htext => exact SwitchedText.positional (hsame.mp hnear) htext
    | scientific hfar htext => exact SwitchedText.scientific (hfar ∘ hsame.mpr) htext

/-! ## Where the point falls -/

namespace Decimal

variable {q : Nat}

theorem point_eq (d : Decimal) : d.point = digitCount d.digits + d.exponent := by
  rw [point, Layout.length_toDigits]

/-- The first digit stands right before the power of ten at the point. -/
theorem value_bounds {d : Decimal} (h0 : d.digits ≠ 0) :
    (10 : ℚ) ^ (d.point - 1) ≤ d.value ∧ d.value < 10 ^ d.point := by
  have hcount := digitCount_pos d.digits
  have hlow : (10 : ℚ) ^ ((digitCount d.digits - 1 : Nat) : Int) ≤ d.digits := by
    rw [zpow_natCast]
    exact_mod_cast ten_pow_digitCount_le h0
  have hhigh : (d.digits : ℚ) < 10 ^ (digitCount d.digits : Int) := by
    rw [zpow_natCast]
    exact_mod_cast lt_ten_pow_digitCount d.digits
  have hplaces : (0 : ℚ) < 10 ^ d.exponent := by positivity
  have hfirst : d.point - 1 = ((digitCount d.digits - 1 : Nat) : Int) + d.exponent := by
    rw [point_eq]
    omega
  rw [hfirst, point_eq, zpow_add₀ (by norm_num), zpow_add₀ (by norm_num)]
  exact ⟨mul_le_mul_of_nonneg_right hlow hplaces.le, mul_lt_mul_of_pos_right hhigh hplaces⟩

theorem shortest_digits_ne_zero (hq : Representable q) (h0 : q ≠ 0) : (shortest q).digits ≠ 0 := by
  intro hzero
  have hlast := (isShortest_shortest hq h0).last
  rw [hzero] at hlast
  exact hlast rfl

/-- The number that a magnitude is read from, in quanta. -/
theorem roundQuanta_shortest (hq : Representable q) :
    roundQuanta (shortest q).numerator (shortest q).denominator = q :=
  (toDouble_eq_finite_iff hq).mp (toDouble_shortest false hq)

/-- Magnitudes are in the order of the numbers they are read from. -/
theorem le_of_value_le {r : Nat} (hq : Representable q) (hr : Representable r)
    (h : (shortest q).value ≤ (shortest r).value) : q ≤ r := by
  rw [← roundQuanta_shortest hq, ← roundQuanta_shortest hr]
  apply roundQuanta_mono (denominator_pos _) (denominator_pos _)
  rw [numerator_div_denominator, numerator_div_denominator]
  exact mul_le_mul_of_nonneg_right h cast_unit_pos.le

/-- The double of a power of ten, written as that power and not below it. -/
structure IsPower (k : Int) (r : Nat) : Prop where
  fits : Representable r
  written : shortest r = ⟨1, k⟩
  least : numerator ⟨1, k⟩ ≤ r * denominator ⟨1, k⟩

theorem IsPower.ne_zero {k : Int} {r : Nat} (hr : IsPower k r) : r ≠ 0 := by
  rintro rfl
  have hdigits : (0 : Nat) = 1 := congrArg Decimal.digits hr.written
  omega

/-- **Where the point falls tells a magnitude from a power of ten.** -/
theorem lt_point_iff (hq : Representable q) (h0 : q ≠ 0) {k : Int} {r : Nat} (hr : IsPower k r) :
    k < (shortest q).point ↔ (10 : ℚ) ^ k ≤ q / unit := by
  have hunit := cast_unit_pos
  have hbounds := value_bounds (shortest_digits_ne_zero hq h0)
  have hvalue : value ⟨1, k⟩ = 10 ^ k := by simp [value]
  have hpower : (shortest r).value = 10 ^ k := by rw [hr.written, hvalue]
  constructor
  · intro hpoint
    have horder : r ≤ q := by
      apply le_of_value_le hr.fits hq
      rw [hpower]
      exact (zpow_le_zpow_right₀ (by norm_num) (by omega)).trans hbounds.1
    have hleast : (numerator ⟨1, k⟩ : ℚ) / denominator ⟨1, k⟩ ≤ r := by
      have hden : (0 : ℚ) < denominator ⟨1, k⟩ := by exact_mod_cast denominator_pos _
      rw [div_le_iff₀ hden]
      exact_mod_cast hr.least
    have hcast : (r : ℚ) ≤ q := by exact_mod_cast horder
    rw [numerator_div_denominator, hvalue] at hleast
    exact (le_div_iff₀ hunit).mpr (hleast.trans hcast)
  · intro hreach
    by_contra hpoint
    have hbelow : q ≤ r := by
      apply le_of_value_le hq hr.fits
      rw [hpower]
      exact hbounds.2.le.trans (zpow_le_zpow_right₀ (by norm_num) (by omega))
    have habove : r ≤ q := by
      rw [← roundQuanta_shortest hr.fits]
      apply roundQuanta_le (denominator_pos _) hq
      rw [numerator_div_denominator, hpower]
      exact (le_div_iff₀ hunit).mp hreach
    have hsame : q = r := Nat.le_antisymm hbelow habove
    subst hsame
    apply hpoint
    rw [hr.written, point_eq]
    show k < digitCount 1 + k
    have := digitCount_pos 1
    omega

/-- The digits of a magnitude of a known size. -/
theorem shortest_eq_onGrids {r : Nat} (size : Nat) (hsize : 0 < size)
    (hlow : 10 ^ size ≤ r * quantumScale) (hhigh : r * quantumScale < 10 ^ (size + 1)) :
    shortest r = onGrids r (size + 1) := by
  have h0 : r ≠ 0 := by
    rintro rfl
    rw [Nat.zero_mul] at hlow
    exact absurd hlow (Nat.not_le.mpr (Nat.pow_pos (by omega)))
  rw [shortest_eq h0, digitCount_eq hsize hlow hhigh]

theorem isPower_neg_five : IsPower (-5) (5902958103587057 * 2 ^ 1005) := by
  refine ⟨⟨5902958103587057, 1005, by decide, by decide, by decide +kernel⟩, ?_, by decide +kernel⟩
  rw [shortest_eq_onGrids 1069 (by omega) (by decide +kernel) (by decide +kernel)]
  decide +kernel

theorem isPower_neg_four : IsPower (-4) (7378697629483821 * 2 ^ 1008) := by
  refine ⟨⟨7378697629483821, 1008, by decide, by decide, by decide +kernel⟩, ?_, by decide +kernel⟩
  rw [shortest_eq_onGrids 1070 (by omega) (by decide +kernel) (by decide +kernel)]
  decide +kernel

theorem isPower_sixteen : IsPower 16 (5000000000000000 * 2 ^ 1075) := by
  refine ⟨⟨5000000000000000, 1075, by decide, by decide, by decide +kernel⟩, ?_, by decide +kernel⟩
  rw [shortest_eq_onGrids 1090 (by omega) (by decide +kernel) (by decide +kernel)]
  decide +kernel

end Decimal

/-! ## The text of an object -/

theorem Object.repr_finite (level : Level) (negative : Bool) {q : Nat} (hq : Representable q) :
    (Object.float (.finite negative q hq)).repr level = .ofList
      (if negative then '-' :: Layout.literal.magnitude (Decimal.shortest q)
        else Layout.literal.magnitude (Decimal.shortest q)) := rfl

/-- **The text of a finite double**: its sign and its shortest digits, with a point from `10 ^ -5`
to below `10 ^ 16` and for zero, with an exponent elsewhere.  The host switches at `10 ^ -4`, so it
is the host's text for all magnitudes but those from `10 ^ -5` to below `10 ^ -4`. -/
theorem float_text_layout (level : Level) (negative : Bool) {q : Nat} (hq : Representable q) :
    ∃ text, (Object.float (.finite negative q hq)).repr level =
        .ofList (if negative then '-' :: text else text) ∧
      (q = 0 → text = ['0', '.', '0']) ∧
      (q ≠ 0 →
        let d := Decimal.shortest q
        let digits := Nat.toDigits 10 d.digits
        d.IsShortest hq ∧ SwitchedText (-5) digits d.point text ∧
          (-5 < d.point ∧ d.point ≤ 16 ↔
            (10 : ℚ) ^ (-5 : Int) ≤ q / unit ∧ (q : ℚ) / unit < 10 ^ (16 : Int)) ∧
          (HostText digits d.point text ↔
            ¬ ((10 : ℚ) ^ (-5 : Int) ≤ q / unit ∧ (q : ℚ) / unit < 10 ^ (-4 : Int)))) := by
  refine ⟨Layout.literal.magnitude (Decimal.shortest q), Object.repr_finite level negative hq, ?_,
    ?_⟩
  · rintro rfl
    rfl
  · intro h0
    have htext := Layout.switchedText_magnitude (Decimal.shortest q)
    have hfive := Decimal.lt_point_iff hq h0 Decimal.isPower_neg_five
    have hfour : (q : ℚ) / unit < 10 ^ (-4 : Int) ↔ (Decimal.shortest q).point ≤ -4 := by
      rw [← not_le, ← Decimal.lt_point_iff hq h0 Decimal.isPower_neg_four, not_lt]
    have hsixteen : (q : ℚ) / unit < 10 ^ (16 : Int) ↔ (Decimal.shortest q).point ≤ 16 := by
      rw [← not_le, ← Decimal.lt_point_iff hq h0 Decimal.isPower_sixteen, not_lt]
    refine ⟨Decimal.isShortest_shortest hq h0, htext, ?_, ?_⟩
    · rw [hfive, hsixteen]
    · rw [← hfive, hfour]
      apply (htext.iff_of_digits (allDigits_toDigits _)).trans
      generalize (Decimal.shortest q).point = point
      omega

/-- The double of `10 ^ -5` is written with a point, where the host writes an exponent. -/
theorem float_text_layout_small :
    ∃ hq : Representable (5902958103587057 * 2 ^ 1005),
      (Object.float (.finite false _ hq)).repr .modern = "0.00001" ∧
        ¬ HostText ['1'] (-4) "0.00001".toList ∧ HostText ['1'] (-4) "1e-05".toList := by
  have hpower := Decimal.isPower_neg_five
  obtain ⟨text, htext, -, hlayout⟩ := float_text_layout .modern false hpower.fits
  obtain ⟨-, hswitched, -, -⟩ := hlayout hpower.ne_zero
  have hrepr : (Object.float (.finite false _ hpower.fits)).repr .modern = "0.00001" := by
    rw [Object.repr_finite, hpower.written]
    rfl
  have hsame : text = "0.00001".toList := by
    rw [← hrepr, htext]
    simp
  refine ⟨hpower.fits, hrepr, ?_, ?_⟩
  · rw [hpower.written, hsame] at hswitched
    have hiff : HostText ['1'] (-4) "0.00001".toList ↔ _ :=
      hswitched.iff_of_digits (allDigits_toDigits _)
    exact fun hhost => absurd (hiff.mp hhost) (by decide)
  · have htail : ExponentText (-5) ['e', '-', '0', '5'] :=
      ExponentText.intro (by decide) (by decide) (by decide) (Or.inl rfl)
    exact SwitchedText.scientific (by decide) (ScientificText.single htail)

end FloorDivision
