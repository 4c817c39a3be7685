import FloorDivision.Decimal.Layout
import FloorDivision.Decimal.Numeral
import FloorDivision.Proofs.Decimal.Value
import Mathlib.Data.List.TakeDrop

/-!
# Written numbers are read back

* `Numeral.integer?_toString` — the digits of an integer name that integer.
* `Numeral.decimal?_magnitude` — a decimal, positional or with an exponent, is read as one of the
  same value.
* `Numeral.double?_text` — the text of a double other than a NaN names that double.
* `Layout.isPart_of_mem_magnitude`, `Layout.point_or_mark_mem` — which characters a decimal has:
  one at least that no integer has, and none that marks a long.
-/

namespace FloorDivision

/-! ## Digits -/

/-- Nothing but digits. -/
def AllDigits (text : List Char) : Prop := ∀ c ∈ text, c.isDigit = true

instance (text : List Char) : Decidable (AllDigits text) :=
  List.decidableBAll (fun c : Char => c.isDigit = true) text

theorem allDigits_toDigits (n : Nat) : AllDigits (Nat.toDigits 10 n) :=
  fun _ hc => Nat.isDigit_of_mem_toDigits (by omega) (by omega) hc

theorem allDigits_replicate (n : Nat) : AllDigits (List.replicate n '0') := by
  intro c hc
  rw [List.eq_of_mem_replicate hc]
  rfl

namespace AllDigits

variable {text first rest : List Char}

theorem append (h : AllDigits first) (h' : AllDigits rest) : AllDigits (first ++ rest) := by
  intro c hc
  rcases List.mem_append.mp hc with hc | hc
  · exact h c hc
  · exact h' c hc

theorem take (h : AllDigits text) (n : Nat) : AllDigits (text.take n) :=
  fun c hc => h c (List.mem_of_mem_take hc)

theorem drop (h : AllDigits text) (n : Nat) : AllDigits (text.drop n) :=
  fun c hc => h c (List.mem_of_mem_drop hc)

theorem not_mem (h : AllDigits text) {c : Char} (hc : c.isDigit = false) : c ∉ text := by
  intro hmem
  simp [h c hmem] at hc

theorem all (h : AllDigits text) : text.all Char.isDigit = true := List.all_eq_true.mpr h

end AllDigits

/-- The next character, if there is one, is no digit. -/
def StopsDigits (rest : List Char) : Prop := ∀ c, rest.head? = some c → c.isDigit = false

theorem stopsDigits_nil : StopsDigits [] := by simp [StopsDigits]

theorem stopsDigits_cons {c : Char} (h : c.isDigit = false) (rest : List Char) :
    StopsDigits (c :: rest) := by
  intro d hd
  cases hd
  exact h

/-- Digits are taken off the front of a text up to the first other character. -/
theorem span_isDigit {digits rest : List Char} (h : AllDigits digits) (hr : StopsDigits rest) :
    (digits ++ rest).span Char.isDigit = (digits, rest) := by
  have htake : rest.takeWhile Char.isDigit = [] := by
    cases rest with
    | nil => rfl
    | cons c rest => simp [hr c rfl]
  have hdrop : rest.dropWhile Char.isDigit = rest := by
    cases rest with
    | nil => rfl
    | cons c rest => simp [hr c rfl]
  rw [List.span_eq_takeWhile_dropWhile, List.takeWhile_append_of_pos h,
    List.dropWhile_append_of_pos h, htake, hdrop, List.append_nil]

namespace Numeral

/-! ## Integers -/

theorem digitsValue_eq {digits : List Char} (h : AllDigits digits) :
    digitsValue digits = Nat.ofDigitChars 10 digits 0 := by
  unfold digitsValue
  congr 1
  apply List.filter_eq_self.mpr
  intro c hc
  have hdigit := h c hc
  rw [decide_eq_true_iff]
  rintro rfl
  simp at hdigit

theorem natural?_digits {digits : List Char} (hne : digits ≠ []) (h : AllDigits digits) :
    natural? digits = some (Nat.ofDigitChars 10 digits 0) := by
  cases digits with
  | nil => exact absurd rfl hne
  | cons first rest =>
    have hfirst := h first (by simp)
    have hrest : rest.all (fun c => c.isDigit || c == '_') = true := by
      rw [List.all_eq_true]
      intro c hc
      simp [h c (by simp [hc])]
    simp [natural?, hfirst, hrest, digitsValue_eq h]

theorem integer?_minus (rest : List Char) :
    integer? ('-' :: rest) = (natural? rest).map fun n : Nat => -(n : Int) := by
  simp only [integer?]
  cases natural? rest <;> rfl

theorem integer?_plus (rest : List Char) :
    integer? ('+' :: rest) = (natural? rest).map Int.ofNat := rfl

theorem integer?_digits {digits : List Char} (hne : digits ≠ []) (h : AllDigits digits) :
    integer? digits = some (Nat.ofDigitChars 10 digits 0 : Int) := by
  have hsign : ∀ c, c.isDigit = false → ∀ rest, digits ≠ c :: rest := by
    rintro c hc rest rfl
    exact h.not_mem hc (by simp)
  unfold integer?
  split
  · exact absurd rfl (hsign '-' rfl _)
  · exact absurd rfl (hsign '+' rfl _)
  · rw [natural?_digits hne h]
    rfl

/-- **The digits of an integer name that integer.** -/
theorem integer?_toString (n : Int) : integer? (toString n).toList = some n := by
  have hdigits (k : Nat) : natural? k.repr.toList = some k := by
    rw [Nat.toList_repr, natural?_digits Nat.toDigits_ne_nil (allDigits_toDigits k),
      Nat.ofDigitChars_ten_toDigits]
  rw [Int.toString_eq_repr, Int.repr_eq_if]
  split
  · rename_i h
    rw [Nat.toList_repr, integer?_digits Nat.toDigits_ne_nil (allDigits_toDigits _),
      Nat.ofDigitChars_ten_toDigits, Int.toNat_of_nonneg h]
  · rename_i h
    have htext : ("-" ++ (-n).toNat.repr).toList = '-' :: (-n).toNat.repr.toList := by simp
    rw [htext, integer?_minus, hdigits, Option.map_some, Int.toNat_of_nonneg (by omega),
      Int.neg_neg]

/-- A text with a character that is neither digit, underscore nor sign is no integer. -/
theorem integer?_eq_none {text : List Char} {c : Char} (hc : c ∈ text)
    (hdigit : c.isDigit = false) (hother : c ≠ '_' ∧ c ≠ '-' ∧ c ≠ '+') : integer? text = none := by
  have hnatural : ∀ rest, c ∈ rest → natural? rest = none := by
    intro rest hmem
    cases rest with
    | nil => simp at hmem
    | cons first rest =>
      have hnot : (first.isDigit && rest.all fun c => c.isDigit || c == '_') = false := by
        rw [Bool.and_eq_false_iff, List.all_eq_false]
        rcases List.mem_cons.mp hmem with rfl | hmem
        · exact Or.inl hdigit
        · exact Or.inr ⟨c, hmem, by simp [hdigit, hother.1]⟩
      simp only [natural?, hnot, Bool.false_eq_true, if_false]
  unfold integer?
  split
  · rw [hnatural _ (by simpa [hother.2.1] using hc)]
    rfl
  · rw [hnatural _ (by simpa [hother.2.2] using hc)]
    rfl
  · rw [hnatural _ hc]
    rfl

/-! ## Decimals -/

/-- A text without a sign. -/
theorem sign_of_isDigit {c : Char} (h : c.isDigit = true) (rest : List Char) :
    sign (c :: rest) = (false, c :: rest) := by
  unfold sign
  split
  · simp_all
  · simp_all
  · rfl

/-- The digits of an exponent may have zeros before them. -/
theorem exponentPart?_scientific (width : Nat) (exponent : Int) :
    exponentPart? ('e' :: (if exponent < 0 then '-' else '+') ::
      Layout.zeroPad width (Nat.toDigits 10 exponent.natAbs)) = some exponent := by
  have hdigits : AllDigits (Layout.zeroPad width (Nat.toDigits 10 exponent.natAbs)) :=
    (allDigits_replicate _).append (allDigits_toDigits _)
  have hvalue : digitsValue (Layout.zeroPad width (Nat.toDigits 10 exponent.natAbs)) =
      exponent.natAbs := by
    rw [digitsValue_eq hdigits, Layout.zeroPad, Nat.ofDigitChars_append]
    simp
  have hne : Layout.zeroPad width (Nat.toDigits 10 exponent.natAbs) ≠ [] := by
    simp [Layout.zeroPad, Nat.toDigits_ne_nil]
  by_cases h : exponent < 0
  · have hsign : -(exponent.natAbs : Int) = exponent := by omega
    simp only [h, if_true, exponentPart?, exponent?, sign, hdigits.all, hvalue,
      List.isEmpty_eq_false_iff.mpr hne, hsign, Bool.not_true, Bool.or_self, Bool.false_eq_true,
      if_false]
  · have hsign : (exponent.natAbs : Int) = exponent := by omega
    simp only [h, if_false, exponentPart?, exponent?, sign, hdigits.all, hvalue,
      List.isEmpty_eq_false_iff.mpr hne, hsign, Bool.not_true, Bool.or_self, Bool.false_eq_true]

theorem point_not_isDigit : Char.isDigit '.' = false := rfl

theorem decimal?_point {whole fraction rest : List Char} (hw : AllDigits whole)
    (hf : AllDigits fraction) (hne : whole ≠ []) (hr : StopsDigits rest) :
    decimal? (whole ++ '.' :: (fraction ++ rest)) = (exponentPart? rest).map fun exponent =>
      ⟨Nat.ofDigitChars 10 (whole ++ fraction) 0, exponent - fraction.length⟩ := by
  have hnot : whole.isEmpty = false := List.isEmpty_eq_false_iff.mpr hne
  simp only [decimal?, span_isDigit hw (stopsDigits_cons point_not_isDigit _),
    span_isDigit hf hr, hnot, Bool.false_and, Bool.false_eq_true, if_false]

theorem decimal?_whole {whole rest : List Char} (hw : AllDigits whole) (hne : whole ≠ [])
    (hr : StopsDigits rest) (hpoint : ∀ after, rest ≠ '.' :: after) :
    decimal? (whole ++ rest) = (exponentPart? rest).map fun exponent =>
      ⟨Nat.ofDigitChars 10 whole 0, exponent⟩ := by
  have hnot : whole.isEmpty = false := List.isEmpty_eq_false_iff.mpr hne
  cases rest with
  | nil =>
    rw [decimal?, span_isDigit hw hr]
    simp [hnot]
  | cons c after =>
    rw [decimal?, span_isDigit hw hr]
    simp [hnot]

/-- A decimal that is written with a point. -/
theorem decimal?_positional {digits : List Char} (h : AllDigits digits) (hne : digits ≠ [])
    (point : Int) :
    ∃ j : Nat, decimal? (Layout.positional digits point) =
      some ⟨Nat.ofDigitChars 10 digits 0 * 10 ^ j, point - digits.length - j⟩ := by
  unfold Layout.positional
  split
  · rename_i hafter
    have htext : ['.', '0'] = '.' :: (List.replicate 1 '0' ++ []) := rfl
    refine ⟨point.toNat - digits.length + 1, ?_⟩
    rw [htext, decimal?_point (h.append (allDigits_replicate _)) (allDigits_replicate 1)
      (by simp [hne]) stopsDigits_nil]
    simp only [exponentPart?, Option.map_some, Nat.ofDigitChars_append,
      Nat.ofDigitChars_replicate_zero]
    simp
    constructor
    · ring
    · omega
  · rename_i hinside
    split
    · rename_i hpos
      have htext : digits.drop point.toNat = digits.drop point.toNat ++ [] := by simp
      refine ⟨0, ?_⟩
      rw [htext, decimal?_point (h.take _) (h.drop _) (by simp [hne]; omega) stopsDigits_nil]
      simp [exponentPart?]
      omega
    · rename_i hbefore
      refine ⟨0, ?_⟩
      have htext : ('0' :: '.' :: (List.replicate (-point).toNat '0' ++ digits)) =
        List.replicate 1 '0' ++ '.' :: ((List.replicate (-point).toNat '0' ++ digits) ++ []) := by
        simp
      rw [htext, decimal?_point (allDigits_replicate 1) ((allDigits_replicate _).append h)
        (by simp) stopsDigits_nil]
      simp [exponentPart?]
      constructor
      · rw [← List.cons_append, ← List.replicate_succ, Nat.ofDigitChars_append]
        simp
      · omega

/-- A decimal that is written with an exponent. -/
theorem decimal?_scientific {digits : List Char} (h : AllDigits digits) (hne : digits ≠ [])
    (width : Nat) (exponent : Int) :
    decimal? (Layout.scientific width digits exponent) =
      some ⟨Nat.ofDigitChars 10 digits 0, exponent - (digits.length - 1 : Nat)⟩ := by
  have hmark : ∀ rest, StopsDigits ('e' :: rest) := fun rest => stopsDigits_cons rfl rest
  have hread := exponentPart?_scientific width exponent
  unfold Layout.scientific
  dsimp only
  generalize (if exponent < 0 then '-' else '+') ::
    Layout.zeroPad width (Nat.toDigits 10 exponent.natAbs) = tail at hread ⊢
  cases digits with
  | nil => exact absurd rfl hne
  | cons first rest =>
    cases rest with
    | nil =>
      rw [decimal?_whole h hne (hmark tail) (by simp), hread]
      simp
    | cons second rest =>
      have htext : first :: '.' :: second :: rest ++ 'e' :: tail =
          [first] ++ '.' :: ((second :: rest) ++ 'e' :: tail) := rfl
      have hfirst : AllDigits [first] := h.take 1
      have hrest : AllDigits (second :: rest) := h.drop 1
      dsimp only
      rw [htext, decimal?_point hfirst hrest (by simp) (hmark tail), hread]
      rfl

/-- **A written decimal is read as one of the same value**: some zeros may come after its digits. -/
theorem decimal?_magnitude (layout : Layout) (d : Decimal) :
    ∃ j : Nat, decimal? (layout.magnitude d) = some ⟨d.digits * 10 ^ j, d.exponent - j⟩ := by
  have hdigits := allDigits_toDigits d.digits
  have hne : Nat.toDigits 10 d.digits ≠ [] := Nat.toDigits_ne_nil
  unfold Layout.magnitude
  dsimp only
  split
  · obtain ⟨j, hj⟩ := decimal?_positional hdigits hne
      ((Nat.toDigits 10 d.digits).length + d.exponent)
    refine ⟨j, ?_⟩
    rw [hj, Nat.ofDigitChars_ten_toDigits]
    simp
  · refine ⟨0, ?_⟩
    have hlength : 0 < (Nat.toDigits 10 d.digits).length := Nat.length_toDigits_pos
    rw [decimal?_scientific hdigits hne, Nat.ofDigitChars_ten_toDigits]
    simp
    omega

end Numeral

/-! ## Doubles -/

namespace Layout

variable (layout : Layout) (d : Decimal)

theorem positional_eq_cons {digits : List Char} (h : AllDigits digits) (hne : digits ≠ [])
    (point : Int) :
    ∃ first rest, positional digits point = first :: rest ∧ first.isDigit = true := by
  obtain ⟨first, rest, rfl⟩ := List.exists_cons_of_ne_nil hne
  have hfirst : first.isDigit = true := h first (by simp)
  unfold positional
  split
  · exact ⟨first, _, rfl, hfirst⟩
  · split
    · have hpoint : point.toNat = point.toNat - 1 + 1 := by omega
      rw [hpoint]
      exact ⟨first, _, rfl, hfirst⟩
    · exact ⟨'0', _, rfl, rfl⟩

theorem scientific_eq_cons {digits : List Char} (h : AllDigits digits) (hne : digits ≠ [])
    (width : Nat) (exponent : Int) :
    ∃ first rest, scientific width digits exponent = first :: rest ∧ first.isDigit = true := by
  obtain ⟨first, rest, rfl⟩ := List.exists_cons_of_ne_nil hne
  have hfirst : first.isDigit = true := h first (by simp)
  cases rest with
  | nil => exact ⟨first, _, rfl, hfirst⟩
  | cons second rest => exact ⟨first, _, rfl, hfirst⟩

/-- A decimal begins with a digit. -/
theorem magnitude_eq_cons :
    ∃ first rest, layout.magnitude d = first :: rest ∧ first.isDigit = true := by
  unfold magnitude
  dsimp only
  split
  · exact positional_eq_cons (allDigits_toDigits _) Nat.toDigits_ne_nil _
  · exact scientific_eq_cons (allDigits_toDigits _) Nat.toDigits_ne_nil _ _

/-- What stands in a decimal: digits, a point, the mark of an exponent and the exponent's sign. -/
def IsPart (c : Char) : Prop := c.isDigit = true ∨ c ∈ ['.', 'e', '+', '-']

theorem isPart_of_mem_positional {digits : List Char} (h : AllDigits digits) (point : Int)
    {c : Char} (hc : c ∈ positional digits point) : IsPart c := by
  have hzero : ∀ n, c ∈ List.replicate n '0' → IsPart c :=
    fun n hmem => Or.inl (allDigits_replicate n c hmem)
  unfold positional at hc
  split at hc
  · rcases List.mem_append.mp hc with hc | hc
    · rcases List.mem_append.mp hc with hc | hc
      · exact Or.inl (h c hc)
      · exact hzero _ hc
    · rcases List.mem_cons.mp hc with rfl | hc
      · exact Or.inr (by simp)
      · exact hzero 1 hc
  · split at hc
    · rcases List.mem_append.mp hc with hc | hc
      · exact Or.inl (h.take _ c hc)
      · rcases List.mem_cons.mp hc with rfl | hc
        · exact Or.inr (by simp)
        · exact Or.inl (h.drop _ c hc)
    · rcases List.mem_cons.mp hc with rfl | hc
      · exact Or.inl rfl
      · rcases List.mem_cons.mp hc with rfl | hc
        · exact Or.inr (by simp)
        · rcases List.mem_append.mp hc with hc | hc
          · exact hzero _ hc
          · exact Or.inl (h c hc)

theorem isPart_of_mem_scientific {digits : List Char} (h : AllDigits digits) (width : Nat)
    (exponent : Int) {c : Char} (hc : c ∈ scientific width digits exponent) : IsPart c := by
  unfold scientific at hc
  dsimp only at hc
  rcases List.mem_append.mp hc with hc | hc
  · split at hc
    · rename_i first second rest
      simp only [List.mem_cons] at hc
      rcases hc with rfl | rfl | hc
      · exact Or.inl (h _ (by simp))
      · exact Or.inr (by simp)
      · exact Or.inl (h _ (by simp [hc]))
    · exact Or.inl (h c hc)
  · rcases List.mem_cons.mp hc with rfl | hc
    · exact Or.inr (by simp)
    · rcases List.mem_cons.mp hc with rfl | hc
      · right
        split <;> simp
      · exact Or.inl ((allDigits_replicate _).append (allDigits_toDigits _) c hc)

theorem isPart_of_mem_magnitude {c : Char} (hc : c ∈ layout.magnitude d) : IsPart c := by
  unfold magnitude at hc
  dsimp only at hc
  split at hc
  · exact isPart_of_mem_positional (allDigits_toDigits _) _ hc
  · exact isPart_of_mem_scientific (allDigits_toDigits _) _ _ hc

/-- A decimal has a point or the mark of an exponent. -/
theorem point_or_mark_mem : '.' ∈ layout.magnitude d ∨ 'e' ∈ layout.magnitude d := by
  unfold magnitude
  dsimp only
  split
  · left
    unfold positional
    split
    · simp
    · split <;> simp
  · right
    simp [scientific]

theorem toList_text (negative : Bool) {q : Nat} (hq : Representable q) :
    (layout.text (.finite negative q hq)).toList =
      (if negative then ['-'] else []) ++ layout.magnitude (Decimal.shortest q) := by
  cases negative <;> simp [text]

end Layout

namespace Numeral

/-- **The text of a double other than a NaN names that double.** -/
theorem double?_text {x : Double} (hx : x ≠ .nan) :
    double? (Layout.literal.text x).toList = some x := by
  cases x with
  | nan => exact absurd rfl hx
  | infinite negative => cases negative <;> rfl
  | finite negative q hq =>
    obtain ⟨first, rest, hmagnitude, hfirst⟩ :=
      Layout.literal.magnitude_eq_cons (Decimal.shortest q)
    obtain ⟨j, hj⟩ := decimal?_magnitude Layout.literal (Decimal.shortest q)
    have hsign : sign (Layout.literal.text (.finite negative q hq)).toList =
        (negative, Layout.literal.magnitude (Decimal.shortest q)) := by
      rw [Layout.toList_text, hmagnitude]
      cases negative with
      | false => exact sign_of_isDigit hfirst rest
      | true => rfl
    unfold double?
    rw [hsign]
    simp only [hj]
    rw [Decimal.toDouble_shift, Decimal.toDouble_shortest negative hq]

end Numeral

end FloorDivision
