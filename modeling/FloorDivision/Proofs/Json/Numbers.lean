import FloorDivision.Proofs.Decimal.Written
import FloorDivision.Proofs.Json.Reading
import FloorDivision.Proofs.Json.Scaled

/-!
# Numbers of a document are read

* `fraction_digits`, `exponentBody_scientific` — the fraction and the exponent of a number.
* `Decimal.shown`, `number_magnitude` — a decimal is read as the digits that are shown and the power
  of ten that they are scaled by.
* `integer_toString` — an integer of the machine is read from its digits and its sign.
-/

namespace FloorDivision

/-! ## The decimal that is shown -/

/-- The decimal whose digits a document shows: a whole number is shown with a zero after the
point. -/
def Decimal.shown (d : Decimal) : Decimal :=
  if 0 ≤ d.exponent ∧ (Nat.toDigits 10 d.digits).length + d.exponent ≤ 16 then
    ⟨d.digits * 10 ^ (d.exponent.toNat + 1), -1⟩
  else d

namespace Decimal

theorem toDouble_shown (negative : Bool) (d : Decimal) :
    d.shown.toDouble negative = d.toDouble negative := by
  unfold shown
  split
  · rename_i h
    have hshift := toDouble_shift negative d.digits (d.exponent.toNat + 1) d.exponent
    rwa [show d.exponent - (d.exponent.toNat + 1 : Nat) = -1 by omega] at hshift
  · rfl

/-- The digits that are shown fit a machine word. -/
theorem shown_digits_lt {d : Decimal} (hd : d.digits ≤ 10 ^ 17) : d.shown.digits < 2 ^ 64 := by
  unfold shown
  split
  · rename_i h
    have hlength : d.digits < 10 ^ (Nat.toDigits 10 d.digits).length :=
      (Nat.length_toDigits_le_iff (by omega) Nat.length_toDigits_pos).mp (Nat.le_refl _)
    calc d.digits * 10 ^ (d.exponent.toNat + 1)
        ≤ 10 ^ (Nat.toDigits 10 d.digits).length * 10 ^ (d.exponent.toNat + 1) :=
          Nat.mul_le_mul_right _ hlength.le
      _ = 10 ^ ((Nat.toDigits 10 d.digits).length + (d.exponent.toNat + 1)) :=
          (Nat.pow_add 10 _ _).symm
      _ ≤ 10 ^ 17 := Nat.pow_le_pow_right (by omega) (by omega)
      _ < 2 ^ 64 := by norm_num
  · calc d.digits ≤ 10 ^ 17 := hd
      _ < 2 ^ 64 := by norm_num

end Decimal

/-! ## The parts of a number -/

namespace Json.Reader

variable {rest : List Char} {negative : Bool}

theorem allDigits_zero : AllDigits ['0'] := allDigits_replicate 1

theorem dropWhile_isDigit (h : StopsDigits rest) : rest.dropWhile Char.isDigit = rest := by
  cases rest with
  | nil => rfl
  | cons c rest => simp [h c rfl]

/-- Digits after a point. -/
theorem fraction_digits {digits : List Char} (hd : AllDigits digits) (hne : digits ≠ [])
    (hr : StopsDigits rest) {n : Nat} (hn : Nat.ofDigitChars 10 digits n < UInt64.size)
    (exponent : Int) :
    fraction negative n exponent (digits ++ rest) =
      exponentPart negative (Nat.ofDigitChars 10 digits n) (exponent - digits.length) rest := by
  have hsignificand := significand_digits hd hr hn
  obtain ⟨c, digits, rfl⟩ := List.exists_cons_of_ne_nil hne
  have hc : c.isDigit = true := hd c List.mem_cons_self
  have hcount : (((c :: digits) ++ rest).length : Int) - rest.length = (c :: digits).length := by
    rw [List.length_append]
    omega
  rw [List.cons_append] at hsignificand hcount ⊢
  simp only [fraction, hc, if_true, hsignificand, hcount, dropWhile_isDigit hr]

theorem exponentPart_ends (h : Ends rest) (n : Nat) (exponent : Int) :
    exponentPart negative n exponent rest = finish negative n exponent rest := by
  unfold exponentPart
  split
  · exact absurd (h 'e' rfl) (by decide)
  · exact absurd (h 'E' rfl) (by decide)
  · rfl

/-- An exponent with its sign. -/
theorem exponentBody_scientific (h : Ends rest) (n width : Nat) (exponent shift : Int) :
    exponentBody negative n exponent ((if shift < 0 then '-' else '+') ::
      (Layout.zeroPad width (Nat.toDigits 10 shift.natAbs) ++ rest)) =
        finish negative n (exponent + shift) rest := by
  have hdigits : AllDigits (Layout.zeroPad width (Nat.toDigits 10 shift.natAbs)) :=
    (allDigits_replicate _).append (allDigits_toDigits _)
  have hvalue : Nat.ofDigitChars 10 (Layout.zeroPad width (Nat.toDigits 10 shift.natAbs)) 0 =
      shift.natAbs := by
    rw [Layout.zeroPad, Nat.ofDigitChars_append]
    simp
  have hne : Layout.zeroPad width (Nat.toDigits 10 shift.natAbs) ≠ [] := by
    simp [Layout.zeroPad, Nat.toDigits_ne_nil]
  generalize Layout.zeroPad width (Nat.toDigits 10 shift.natAbs) = digits at *
  have hspan := span_isDigit hdigits h.stopsDigits
  obtain ⟨c, digits, rfl⟩ := List.exists_cons_of_ne_nil hne
  have hc : c.isDigit = true := hdigits c List.mem_cons_self
  rw [List.cons_append] at hspan ⊢
  by_cases hneg : shift < 0
  · have hsum : exponent - shift.natAbs = exponent + shift := by omega
    simp only [hneg, if_true, exponentBody, hc, hspan, hvalue, hsum]
  · have hsum : exponent + shift.natAbs = exponent + shift := by omega
    simp only [hneg, if_false, exponentBody, hc, if_true, hspan, hvalue, hsum, Bool.false_eq_true]

/-! ## Decimals -/

/-- Digits on both sides of a point. -/
theorem number_point {whole digits : List Char} (hw : AllDigits whole) (hne : whole ≠ [])
    (hfirst : BeginsNumber whole) (hd : AllDigits digits) (hdne : digits ≠ [])
    (hr : StopsDigits rest) (hn : Nat.ofDigitChars 10 (whole ++ digits) 0 < UInt64.size) :
    number negative (whole ++ '.' :: (digits ++ rest)) =
      exponentPart negative (Nat.ofDigitChars 10 (whole ++ digits) 0) (-digits.length) rest := by
  rw [Nat.ofDigitChars_append] at hn ⊢
  have hwhole := (le_ofDigitChars digits _).trans_lt hn
  rw [number_whole hw hne hfirst (stopsDigits_cons Numeral.point_not_isDigit _) hwhole]
  show fraction negative _ 0 (digits ++ rest) = _
  rw [fraction_digits hd hdne hr hn, Int.zero_sub]

section Positional

variable {digits : List Char} {point : Int}

/-- The point after the last digit, and after zeros that fill the gap. -/
theorem number_positional_after (hd : AllDigits digits) (hne : digits ≠ [])
    (hfirst : BeginsNumber digits) (hzero : digits = ['0'] → point = 1)
    (hpoint : digits.length ≤ point)
    (hn : Nat.ofDigitChars 10 digits 0 * 10 ^ (point.toNat - digits.length + 1) < UInt64.size)
    (h : Ends rest) :
    number negative (Layout.positional digits point ++ rest) =
      finish negative (Nat.ofDigitChars 10 digits 0 * 10 ^ (point.toNat - digits.length + 1)) (-1)
        rest := by
  have hvalue : Nat.ofDigitChars 10
      (digits ++ List.replicate (point.toNat - digits.length) '0' ++ ['0']) 0 =
        Nat.ofDigitChars 10 digits 0 * 10 ^ (point.toNat - digits.length + 1) := by
    rw [List.append_assoc, ← List.replicate_succ', Nat.ofDigitChars_append,
      Nat.ofDigitChars_replicate_zero, Nat.mul_comm]
  have hbegins : BeginsNumber (digits ++ List.replicate (point.toNat - digits.length) '0') := by
    rcases hfirst with hone | hfirst
    · rw [hzero hone, hone]
      exact Or.inl rfl
    · obtain ⟨c, digits, rfl⟩ := List.exists_cons_of_ne_nil hne
      exact Or.inr hfirst
  have htext : Layout.positional digits point ++ rest =
      digits ++ List.replicate (point.toNat - digits.length) '0' ++ '.' :: (['0'] ++ rest) := by
    rw [Layout.positional, if_pos hpoint, List.append_assoc _ ['.', '0'] rest]
    rfl
  rw [htext, number_point (hd.append (allDigits_replicate _)) (by simp [hne]) hbegins
    allDigits_zero (by simp) h.stopsDigits (by rwa [hvalue]), hvalue, exponentPart_ends h]
  rfl

/-- The point among the digits. -/
theorem number_positional_inside (hd : AllDigits digits) (hfirst : digits.head? ≠ some '0')
    (hpoint : ¬digits.length ≤ point) (hpos : 0 < point)
    (hn : Nat.ofDigitChars 10 digits 0 < UInt64.size) (h : Ends rest) :
    number negative (Layout.positional digits point ++ rest) =
      finish negative (Nat.ofDigitChars 10 digits 0) (point - digits.length) rest := by
  have hwhole : digits.take point.toNat ≠ [] := by
    rw [Ne, List.take_eq_nil_iff]
    rintro (h0 | rfl)
    · omega
    · simp at hpoint
      omega
  have hrest : digits.drop point.toNat ≠ [] := by
    rw [Ne, List.drop_eq_nil_iff]
    omega
  have hbegins : BeginsNumber (digits.take point.toNat) := by
    right
    rwa [List.head?_take, if_neg (by omega)]
  have htext : Layout.positional digits point ++ rest =
      digits.take point.toNat ++ '.' :: (digits.drop point.toNat ++ rest) := by
    rw [Layout.positional, if_neg hpoint, if_pos hpos, List.append_assoc, List.cons_append]
  have hexponent : -((digits.drop point.toNat).length : Int) = point - digits.length := by
    rw [List.length_drop]
    omega
  have hall := List.take_append_drop point.toNat digits
  rw [htext, number_point (hd.take _) hwhole hbegins (hd.drop _) hrest h.stopsDigits
    (by rwa [hall]), hall, hexponent, exponentPart_ends h]

/-- The point before the digits. -/
theorem number_positional_before (hd : AllDigits digits) (hne : digits ≠ [])
    (hpoint : ¬digits.length ≤ point) (hpos : ¬0 < point)
    (hn : Nat.ofDigitChars 10 digits 0 < UInt64.size) (h : Ends rest) :
    number negative (Layout.positional digits point ++ rest) =
      finish negative (Nat.ofDigitChars 10 digits 0) (point - digits.length) rest := by
  have hvalue : Nat.ofDigitChars 10
      (['0'] ++ (List.replicate (-point).toNat '0' ++ digits)) 0 =
        Nat.ofDigitChars 10 digits 0 := by
    have hzeros : ['0'] ++ List.replicate (-point).toNat '0' =
        List.replicate ((-point).toNat + 1) '0' := rfl
    rw [← List.append_assoc, hzeros, Nat.ofDigitChars_append, Nat.ofDigitChars_replicate_zero,
      Nat.mul_zero]
  have htext : Layout.positional digits point ++ rest =
      ['0'] ++ '.' :: (List.replicate (-point).toNat '0' ++ digits ++ rest) := by
    rw [Layout.positional, if_neg hpoint, if_neg hpos]
    rfl
  have hexponent : -((List.replicate (-point).toNat '0' ++ digits).length : Int) =
      point - digits.length := by
    rw [List.length_append, List.length_replicate]
    omega
  rw [htext, number_point allDigits_zero (by simp) (Or.inl rfl)
    ((allDigits_replicate _).append hd) (by simp [hne]) h.stopsDigits (by rwa [hvalue]), hvalue,
    hexponent, exponentPart_ends h]

end Positional

/-- One digit before the point, and an exponent. -/
theorem number_scientific {digits : List Char} (hd : AllDigits digits) (hne : digits ≠ [])
    (hfirst : digits.head? ≠ some '0') (hn : Nat.ofDigitChars 10 digits 0 < UInt64.size)
    (h : Ends rest) (width : Nat) (exponent : Int) :
    number negative (Layout.scientific width digits exponent ++ rest) =
      finish negative (Nat.ofDigitChars 10 digits 0) (exponent - (digits.length - 1 : Nat))
        rest := by
  have hmark : ∀ after, StopsDigits ('e' :: after) := fun after => stopsDigits_cons rfl after
  have hbody : ∀ (n : Nat) (start : Int), exponentBody negative n start
      ((if exponent < 0 then '-' else '+') ::
        (Layout.zeroPad width (Nat.toDigits 10 exponent.natAbs) ++ rest)) =
          finish negative n (start + exponent) rest :=
    fun n start => exponentBody_scientific h n width start exponent
  unfold Layout.scientific
  dsimp only
  generalize Layout.zeroPad width (Nat.toDigits 10 exponent.natAbs) = shift at hbody ⊢
  generalize (if exponent < 0 then '-' else '+') = sign at hbody ⊢
  obtain ⟨first, digits, rfl⟩ := List.exists_cons_of_ne_nil hne
  have hone : AllDigits [first] := hd.take 1
  cases digits with
  | nil =>
    have htext : [first] ++ 'e' :: sign :: shift ++ rest =
        [first] ++ 'e' :: sign :: (shift ++ rest) := by simp
    dsimp only
    rw [htext, number_whole hone hne (Or.inr hfirst) (hmark _) hn]
    show exponentBody negative _ 0 (sign :: (shift ++ rest)) = _
    rw [hbody]
    simp
  | cons second digits =>
    have htext : first :: '.' :: second :: digits ++ 'e' :: sign :: shift ++ rest =
        [first] ++ '.' :: ((second :: digits) ++ 'e' :: sign :: (shift ++ rest)) := by simp
    have hrest : AllDigits (second :: digits) := hd.drop 1
    dsimp only
    rw [htext, number_point hone (by simp) (Or.inr hfirst) hrest (by simp) (hmark _) hn]
    show exponentBody negative _ _ (sign :: (shift ++ rest)) = _
    rw [hbody]
    congr 1
    simp
    omega

/-- **A written decimal is read as the digits that are shown**, scaled by their power of ten. -/
theorem number_magnitude {d : Decimal} (h0 : d.digits ≠ 0 ∨ d.exponent = 0)
    (hd : d.digits ≤ 10 ^ 17) (h : Ends rest) (layout : Layout) :
    number negative (layout.magnitude d ++ rest) =
      finish negative d.shown.digits d.shown.exponent rest := by
  have hshown := Decimal.shown_digits_lt hd
  have hdigits := allDigits_toDigits d.digits
  have hne : Nat.toDigits 10 d.digits ≠ [] := Nat.toDigits_ne_nil
  have hlength : 0 < (Nat.toDigits 10 d.digits).length := Nat.length_toDigits_pos
  have hvalue : Nat.ofDigitChars 10 (Nat.toDigits 10 d.digits) 0 = d.digits :=
    Nat.ofDigitChars_ten_toDigits
  have hfirst : d.digits ≠ 0 → (Nat.toDigits 10 d.digits).head? ≠ some '0' := head?_toDigits
  have hzero : d.digits = 0 → Nat.toDigits 10 d.digits = ['0'] := fun h => by rw [h]; rfl
  unfold Decimal.shown at hshown ⊢
  unfold Layout.magnitude
  dsimp only
  generalize Nat.toDigits 10 d.digits = digits at *
  have hword : d.digits < UInt64.size := hd.trans_lt (by decide)
  split
  · rename_i hnear
    by_cases hexponent : 0 ≤ d.exponent
    · rw [if_pos ⟨hexponent, hnear.2⟩] at hshown ⊢
      have hcount : ((digits.length : Int) + d.exponent).toNat - digits.length + 1 =
          d.exponent.toNat + 1 := by omega
      have hbegins : BeginsNumber digits := by
        by_cases hd0 : d.digits = 0
        · exact Or.inl (hzero hd0)
        · exact Or.inr (hfirst hd0)
      rw [number_positional_after hdigits hne hbegins ?_ (by omega) ?_ h, hvalue, hcount]
      · intro hone
        have : d.digits = 0 := by
          rw [← hvalue, hone]
          rfl
        rw [hone]
        simp
        omega
      · rw [hvalue, hcount]
        exact hshown
    · rw [if_neg (by omega)]
      have hhead := hfirst (by omega)
      have hpower : (digits.length : Int) + d.exponent - digits.length = d.exponent := by omega
      by_cases hpos : 0 < (digits.length : Int) + d.exponent
      · rw [number_positional_inside hdigits hhead (by omega) hpos (by rwa [hvalue]) h, hvalue,
          hpower]
      · rw [number_positional_before hdigits hne (by omega) hpos (by rwa [hvalue]) h, hvalue,
          hpower]
  · rename_i hfar
    have hd0 : d.digits ≠ 0 := by
      intro hd0
      have hexponent : d.exponent = 0 := h0.resolve_left (fun hne => hne hd0)
      rw [hzero hd0, hexponent] at hfar
      simp at hfar
    rw [if_neg (by omega), number_scientific hdigits hne (hfirst hd0) (by rwa [hvalue]) h, hvalue]
    congr 1
    omega

/-! ## Integers -/

/-- A number that begins with a digit. -/
theorem numberOr_digit {c : Char} (hc : c.isDigit = true) (expected : String)
    (remaining : List Char) : numberOr expected (c :: remaining) = number false (c :: remaining) := by
  have hminus : c ≠ '-' := by
    rintro rfl
    cases hc
  unfold numberOr
  rw [run_bind_ok (next?_cons (isBlank_of_isDigit hc))]
  dsimp only
  rw [if_neg hminus, if_pos hc]

theorem numberOr_minus (expected : String) (remaining : List Char) :
    numberOr expected ('-' :: remaining) = number true remaining := by
  unfold numberOr
  rw [run_bind_ok (next?_cons (by decide))]
  rfl

/-- A number after a sign or none. -/
theorem numberOr_sign {first : Char} (hfirst : first.isDigit = true) (expected : String)
    (digits : List Char) :
    numberOr expected ((if negative then ['-'] else []) ++ first :: digits) =
      number negative (first :: digits) := by
  cases negative with
  | false => exact numberOr_digit hfirst expected digits
  | true => exact numberOr_minus expected (first :: digits)

/-- An integer as it is written. -/
theorem toList_toString (n : Int) :
    (toString n).toList = (if n < 0 then ['-'] else []) ++ Nat.toDigits 10 n.natAbs := by
  rw [Int.toString_eq_repr, Int.repr_eq_if]
  split
  · rename_i h
    rw [if_neg (by omega), Nat.toList_repr, show n.toNat = n.natAbs by omega, List.nil_append]
  · rename_i h
    rw [if_pos (by omega), String.toList_append, Nat.toList_repr,
      show (-n).toNat = n.natAbs by omega]
    rfl

theorem whole_natAbs {n : Int} (hlow : -2 ^ 63 ≤ n) :
    whole (n < 0) n.natAbs = .integer n := by
  unfold whole
  by_cases hneg : n < 0
  · have hword : ¬(n.natAbs = 0 ∨ Int64.minValue.toInt.natAbs < n.natAbs) := by
      have : Int64.minValue.toInt.natAbs = 2 ^ 63 := by decide
      omega
    rw [if_pos (by simpa using hneg), if_neg hword]
    congr 1
    omega
  · rw [if_neg (by simpa using hneg)]
    congr 1
    omega

/-- **An integer is read from its sign and its digits.** -/
theorem integer_toString {n : Int} (hlow : -2 ^ 63 ≤ n) (hhigh : n < 2 ^ 64) (h : Ends rest)
    {least greatest : Int} (hle : least ≤ n) (hge : n ≤ greatest) (expected : String) :
    integer least greatest expected ((toString n).toList ++ rest) = .ok (n, rest) := by
  have hnumber : numberOr expected ((toString n).toList ++ rest) = .ok (.integer n, rest) := by
    obtain ⟨first, digits, hdigits⟩ :=
      List.exists_cons_of_ne_nil (Nat.toDigits_ne_nil (b := 10) (n := n.natAbs))
    have hfirst : first.isDigit = true := allDigits_toDigits n.natAbs first (by simp [hdigits])
    have hsign : (if n < 0 then ['-'] else []) = (if decide (n < 0) = true then ['-'] else []) := by
      simp
    rw [toList_toString, hsign, List.append_assoc, hdigits, List.cons_append,
      numberOr_sign hfirst, ← List.cons_append, ← hdigits,
      number_toDigits (by simp only [UInt64.size]; omega) h, whole_natAbs hlow]
  unfold integer
  rw [run_bind_ok hnumber]
  dsimp only
  rw [if_pos ⟨hle, hge⟩]
  rfl

/-- A machine integer is read from its sign and its digits. -/
theorem int64_toString (n : Int64) (h : Ends rest) :
    int64 ((toString n.toInt).toList ++ rest) = .ok (n, rest) := by
  have hlow := n.minValue_le_toInt
  have hhigh := n.toInt_le
  have hmin : Int64.minValue.toInt = -2 ^ 63 := by decide
  have hmax : Int64.maxValue.toInt = 2 ^ 63 - 1 := by decide
  unfold int64
  rw [run_map_ok _ (integer_toString (by omega) (by omega) h (by omega) (by omega) _)]
  simp

end Json.Reader

end FloorDivision
