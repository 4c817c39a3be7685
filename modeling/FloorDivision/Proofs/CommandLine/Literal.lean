import FloorDivision.CommandLine.Literal
import FloorDivision.Proofs.Decimal.Written
import FloorDivision.Proofs.Number.Floor

/-!
# Written objects are read back as literals

Writing and reading share no grammar: a literal is tried as a word, a marked integer, an integer
and a double, in this order, so each text must fail all the readings before its own.

* `readLiteral_eq_readNumber` — a text that begins like a number is no word for a constant.
* `readNumber_unmarked`, `readNumber_marked` — the reading of a number with and without the mark of
  a long.
* `integerObject_eq` — which integers are machine integers.
* `repr_read_back` — every object that has a literal is read from its own text, and from no other
  object's.
-/

namespace FloorDivision

/-- The objects that have a literal.  The modern level has one for a long only if it is no machine
integer. -/
def Object.HasLiteral (level : Level) : Object → Prop
  | .none | .bool _ | .int _ => True
  | .float x => x ≠ .nan
  | .long n => level = .legacy ∨ ¬FitsWord n
  | .notImplemented | .instanceOf _ => False

namespace CommandLine

variable {level : Level} {literal : String}

/-! ## Words and marks -/

/-- The characters that a number begins with. -/
def BeginsNumber (c : Char) : Prop := c.isDigit = true ∨ c ∈ ['-', '+']

theorem not_beginsNumber {c : Char} (h : c ∈ ['N', 'T', 'F']) : ¬BeginsNumber c := by
  intro hbegins
  simp only [List.mem_cons, List.not_mem_nil, or_false] at h
  rcases h with rfl | rfl | rfl <;> simp [BeginsNumber] at hbegins

/-- The words for constants do not begin like a number. -/
theorem readLiteral_eq_readNumber {first : Char} {rest : List Char}
    (h : literal.toList = first :: rest) (hfirst : BeginsNumber first) :
    readLiteral level literal = readNumber level literal := by
  have hword : ∀ word, literal.toList = word → word.head? = some first := by
    rintro _ rfl
    simp [h]
  have hnot : ∀ c ∈ ['N', 'T', 'F'], c ≠ first := by
    rintro c hc rfl
    exact not_beginsNumber hc hfirst
  unfold readLiteral
  split
  · exact absurd (Option.some.inj (hword ['N', 'o', 'n', 'e'] rfl)) (hnot 'N' (by simp))
  · exact absurd (Option.some.inj (hword ['T', 'r', 'u', 'e'] rfl)) (hnot 'T' (by simp))
  · exact absurd (Option.some.inj (hword ['F', 'a', 'l', 's', 'e'] rfl)) (hnot 'F' (by simp))
  · rfl

theorem unmarked?_append {text : List Char} {mark : Char} (h : mark = 'L' ∨ mark = 'l') :
    unmarked? (text ++ [mark]) = some text := by
  rcases h with rfl | rfl <;> simp [unmarked?]

theorem unmarked?_eq_none {text : List Char} (hL : 'L' ∉ text) (hl : 'l' ∉ text) :
    unmarked? text = none := by
  unfold unmarked?
  split
  · exact absurd (List.mem_of_getLast? ‹_›) hL
  · exact absurd (List.mem_of_getLast? ‹_›) hl
  · rfl

/-- A number whose further characters are digits has no mark. -/
theorem unmarked?_number {first : Char} {rest : List Char} (hfirst : BeginsNumber first)
    (hrest : AllDigits rest) : unmarked? (first :: rest) = none := by
  have hnot : ∀ c, ¬BeginsNumber c → c ∉ first :: rest := by
    intro c hc hmem
    rcases List.mem_cons.mp hmem with rfl | hmem
    · exact hc hfirst
    · exact hc (Or.inl (hrest c hmem))
  exact unmarked?_eq_none (hnot 'L' (by simp [BeginsNumber])) (hnot 'l' (by simp [BeginsNumber]))

/-! ## Integers -/

theorem integerObject_toInt (a : Int64) : integerObject a.toInt = .int a := by
  simp [integerObject]

theorem integerObject_eq (n : Int) :
    integerObject n = if FitsWord n then .int (.ofInt n) else .long n := by
  simp only [integerObject, toInt_ofInt_iff]

/-- Without a mark the value decides the kind. -/
theorem readNumber_unmarked {n : Int} (hmark : unmarked? literal.toList = none)
    (h : Numeral.integer? literal.toList = some n) :
    readNumber level literal = .ok (integerObject n) := by
  simp [readNumber, hmark, h]

/-- With a mark it is a long of any size. -/
theorem readNumber_marked {digits : List Char} {n : Int}
    (hmark : unmarked? literal.toList = some digits) (h : Numeral.integer? digits = some n) :
    readNumber .legacy literal = .ok (.long n) := by
  simp [readNumber, hmark, h]

/-- The text of an integer is digits but for a minus sign in front. -/
theorem toString_eq_cons (n : Int) :
    ∃ first rest, (toString n).toList = first :: rest ∧ BeginsNumber first ∧ AllDigits rest := by
  have hcons : ∀ k : Nat, ∃ first rest, k.repr.toList = first :: rest ∧ first.isDigit = true ∧
      AllDigits rest := by
    intro k
    obtain ⟨first, rest, htext⟩ := List.exists_cons_of_ne_nil (Nat.toDigits_ne_nil (n := k))
    have hdigits := allDigits_toDigits k
    rw [htext] at hdigits
    exact ⟨first, rest, by rw [Nat.toList_repr, htext], hdigits first (by simp), hdigits.drop 1⟩
  rw [Int.toString_eq_repr, Int.repr_eq_if]
  split
  · obtain ⟨first, rest, htext, hfirst, hrest⟩ := hcons n.toNat
    exact ⟨first, rest, htext, Or.inl hfirst, hrest⟩
  · obtain ⟨first, rest, htext, hfirst, hrest⟩ := hcons (-n).toNat
    refine ⟨'-', first :: rest, by simp [htext], Or.inr (by simp), ?_⟩
    intro c hc
    rcases List.mem_cons.mp hc with rfl | hc
    · exact hfirst
    · exact hrest c hc

/-- An integer is read from its own text as the kind that its value calls for. -/
theorem readLiteral_toString (level : Level) (n : Int) :
    readLiteral level (toString n) = .ok (integerObject n) := by
  obtain ⟨first, rest, htext, hfirst, hrest⟩ := toString_eq_cons n
  have hmark : unmarked? (toString n).toList = none := by
    rw [htext]
    exact unmarked?_number hfirst hrest
  rw [readLiteral_eq_readNumber htext hfirst]
  exact readNumber_unmarked hmark (Numeral.integer?_toString n)

/-- The mark makes a long of any integer. -/
theorem readLiteral_toString_mark (n : Int) :
    readLiteral .legacy (toString n ++ "L") = .ok (.long n) := by
  obtain ⟨first, rest, htext, hfirst, -⟩ := toString_eq_cons n
  have happend : (toString n ++ "L").toList = (toString n).toList ++ ['L'] := String.toList_append
  have hmark : unmarked? (toString n ++ "L").toList = some (toString n).toList := by
    rw [happend]
    exact unmarked?_append (Or.inl rfl)
  rw [readLiteral_eq_readNumber (by rw [happend, htext, List.cons_append]) hfirst]
  exact readNumber_marked hmark (Numeral.integer?_toString n)

/-! ## Doubles -/

/-- What stands in a decimal marks no long. -/
theorem not_isPart {c : Char} (h : c ∈ ['L', 'l']) : ¬Layout.IsPart c := by
  intro hpart
  simp only [List.mem_cons, List.not_mem_nil, or_false] at h
  rcases h with rfl | rfl <;> simp [Layout.IsPart] at hpart

theorem readLiteral_decimal (level : Level) (negative : Bool) {q : Nat} (hq : Representable q) :
    readLiteral level (Layout.literal.text (.finite negative q hq)) =
      .ok (.float (.finite negative q hq)) := by
  have hread := Numeral.double?_text (x := .finite negative q hq) (by simp)
  have htext := Layout.toList_text Layout.literal negative hq
  obtain ⟨first, rest, hmagnitude, hfirst⟩ :=
    Layout.literal.magnitude_eq_cons (Decimal.shortest q)
  generalize Layout.literal.text (.finite negative q hq) = literal at hread htext ⊢
  have hpart : ∀ c ∈ literal.toList, Layout.IsPart c := by
    intro c hc
    rw [htext] at hc
    rcases List.mem_append.mp hc with hc | hc
    · cases negative <;> simp at hc
      exact Or.inr (by simp [hc])
    · exact Layout.isPart_of_mem_magnitude _ _ hc
  have hmark : unmarked? literal.toList = none :=
    unmarked?_eq_none (fun hmem => not_isPart (by simp) (hpart 'L' hmem))
      (fun hmem => not_isPart (by simp) (hpart 'l' hmem))
  have hinteger : Numeral.integer? literal.toList = none := by
    have hmem : ∀ c, c ∈ Layout.literal.magnitude (Decimal.shortest q) → c ∈ literal.toList := by
      intro c hc
      rw [htext]
      exact List.mem_append_right _ hc
    rcases Layout.point_or_mark_mem Layout.literal (Decimal.shortest q) with hpoint | he
    · exact Numeral.integer?_eq_none (hmem '.' hpoint) rfl (by decide)
    · exact Numeral.integer?_eq_none (hmem 'e' he) rfl (by decide)
  have hnumber : readLiteral level literal = readNumber level literal := by
    cases negative with
    | true => exact readLiteral_eq_readNumber htext (Or.inr (by simp))
    | false => exact readLiteral_eq_readNumber (htext.trans hmagnitude) (Or.inl hfirst)
  rw [hnumber]
  simp [readNumber, hmark, hinteger, hread]

/-- **A double is read from its own text**, unless it is a NaN. -/
theorem readLiteral_text (level : Level) {x : Double} (hx : x ≠ .nan) :
    readLiteral level (Layout.literal.text x) = .ok (.float x) := by
  cases x with
  | nan => exact absurd rfl hx
  | infinite negative => cases negative <;> rfl
  | finite negative q hq => exact readLiteral_decimal level negative hq

/-! ## All objects with a literal -/

theorem readLiteral_repr (level : Level) {o : Object} (h : o.HasLiteral level) :
    readLiteral level (o.repr level) = .ok o := by
  cases o with
  | none => rfl
  | notImplemented => exact h.elim
  | bool value => cases value <;> rfl
  | int value =>
    exact (readLiteral_toString level value.toInt).trans (by rw [integerObject_toInt])
  | long value =>
    cases level with
    | legacy => exact readLiteral_toString_mark value
    | modern =>
      have hwide : ¬FitsWord value := by
        rcases h with h | h
        · cases h
        · exact h
      exact (readLiteral_toString .modern value).trans (by rw [integerObject_eq, if_neg hwide])
  | float value => exact readLiteral_text level h
  | instanceOf typeName => exact h.elim

/-- **Every object that has a literal is read back from its own text, which no other such object
has.** -/
theorem repr_read_back (level : Level) {o : Object} (h : o.HasLiteral level) :
    readLiteral level (o.repr level) = .ok o ∧
      ∀ other : Object, other.HasLiteral level → other.repr level = o.repr level → other = o := by
  refine ⟨readLiteral_repr level h, ?_⟩
  intro other hother htext
  have hread := readLiteral_repr level hother
  rw [htext, readLiteral_repr level h] at hread
  exact (Except.ok.inj hread).symm

/-- The least machine integer is another literal than the long of the same value. -/
theorem repr_read_back_least_long :
    readLiteral .legacy "-9223372036854775808L" = .ok (.long (-9223372036854775808)) ∧
      ∀ other : Object, other.HasLiteral .legacy →
        other.repr .legacy = "-9223372036854775808L" → other = .long (-9223372036854775808) := by
  have h : (Object.long (-9223372036854775808)).HasLiteral .legacy := Or.inl rfl
  exact repr_read_back .legacy h

end CommandLine

end FloorDivision
