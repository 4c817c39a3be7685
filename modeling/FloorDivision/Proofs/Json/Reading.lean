import FloorDivision.Json.Decoder
import FloorDivision.Proofs.Json.Grammar

/-!
# Parts of JSON texts are read

What the grammar tells of a text is what the readers take off it.

* `next?_blanks`, `Reader.IgnoresBlanks` — blanks before a part make no difference.
* `text_spelled` — a text is read as what it spells, however it is written.
* `number_toDigits`, `uint64_digits` — a whole number and a machine word are read from their digits.
-/

namespace FloorDivision.Json

open Grammar

variable {α β : Type} {text rest : List Char}

theorem Grammar.Blanks.refl (rest : List Char) : Blanks rest rest := ⟨[], by simp, rfl⟩

/-! ## Lengths -/

theorem Grammar.Blanks.length_le (h : Blanks text rest) : rest.length ≤ text.length := by
  obtain ⟨blanks, -, rfl⟩ := h
  simp

theorem Grammar.HexQuad.length_eq {n : Nat} (h : HexQuad text n rest) :
    text.length = rest.length + 4 := by
  obtain ⟨rest, _, _, _, _⟩ := h
  rfl

theorem Grammar.SpelledChar.length_lt {c : Char} (h : SpelledChar c text rest) :
    rest.length < text.length := by
  cases h with
  | plain => simp
  | letter =>
    simp only [List.length_cons]
    omega
  | number hquad =>
    have := hquad.length_eq
    simp only [List.length_cons]
    omega
  | halves hhigh hlow =>
    have := hhigh.length_eq
    have := hlow.length_eq
    simp only [List.length_cons] at *
    omega

theorem Grammar.SpelledChars.length_lt {chars : List Char} (h : SpelledChars chars text rest) :
    chars.length + rest.length < text.length := by
  induction h with
  | close rest => simp
  | cons hchar _ ih =>
    have := hchar.length_lt
    simp only [List.length_cons]
    omega

theorem Grammar.Spelled.length_lt {value : String} (h : Spelled value text rest) :
    rest.length < text.length := by
  obtain ⟨hchars⟩ := h
  have := hchars.length_lt
  simp only [List.length_cons]
  omega

namespace Reader

/-! ## Readers in turn -/

theorem run_bind_ok {a : Reader α} {f : α → Reader β} {x : α} (h : a text = .ok (x, rest)) :
    (a >>= f) text = f x rest := by
  show (a text >>= fun pair => f pair.1 pair.2) = _
  rw [h]
  rfl

theorem run_map_ok {a : Reader α} {x : α} (f : α → β) (h : a text = .ok (x, rest)) :
    (f <$> a) text = .ok (f x, rest) := by
  show (a text >>= fun pair => pure (f pair.1, pair.2)) = _
  rw [h]
  rfl

theorem run_get (text : List Char) : (get : Reader (List Char)) text = .ok (text, text) := rfl

/-! ## Blanks -/

@[simp] theorem isBlank_iff (c : Char) : isBlank c = true ↔ c ∈ [' ', '\n', '\t', '\r'] := by
  simp [isBlank, or_assoc]

theorem isBlank_of_isDigit {c : Char} (h : c.isDigit = true) : isBlank c = false := by
  rw [Bool.eq_false_iff, ne_eq, isBlank_iff]
  intro hc
  simp only [List.mem_cons, List.not_mem_nil, or_false] at hc
  rcases hc with rfl | rfl | rfl | rfl <;> cases h

theorem next?_eq (text : List Char) :
    next? text = .ok ((text.dropWhile isBlank).head?, text.dropWhile isBlank) := rfl

theorem next?_blanks (h : Blanks text rest) : next? text = next? rest := by
  obtain ⟨blanks, hblanks, rfl⟩ := h
  have hdrop : (blanks ++ rest).dropWhile isBlank = rest.dropWhile isBlank :=
    List.dropWhile_append_of_pos fun c hc => (isBlank_iff c).mpr (hblanks c hc)
  rw [next?_eq, next?_eq, hdrop]

theorem next?_cons {c : Char} (hc : isBlank c = false) :
    next? (c :: rest) = .ok (some c, c :: rest) := by
  rw [next?_eq, List.dropWhile_cons_of_neg (by simp [hc])]
  rfl

/-- The next character is the first one that is not blank. -/
theorem next?_of_blanks {c : Char} (h : Blanks text (c :: rest)) (hc : isBlank c = false) :
    next? text = .ok (some c, c :: rest) := (next?_blanks h).trans (next?_cons hc)

/-- Blanks before what is read make no difference. -/
def IgnoresBlanks (read : Reader α) : Prop :=
  ∀ ⦃text rest⦄, Blanks text rest → read text = read rest

theorem ignoresBlanks_next? : IgnoresBlanks next? := fun _ _ h => next?_blanks h

theorem IgnoresBlanks.bind {a : Reader α} (ha : a.IgnoresBlanks) (f : α → Reader β) :
    (a >>= f).IgnoresBlanks := by
  intro text rest h
  show (a text >>= _) = (a rest >>= _)
  rw [ha h]

theorem IgnoresBlanks.map {a : Reader α} (ha : a.IgnoresBlanks) (f : α → β) :
    (f <$> a).IgnoresBlanks := by
  intro text rest h
  show (a text >>= _) = (a rest >>= _)
  rw [ha h]

/-! ## Texts -/

theorem hexValue?_digit {c : Char} {n : Nat} (h : HexDigit c n) : hexValue? c = some n := by
  have digit : ∀ n < 16, hexValue? (Nat.digitChar n) = some n ∧
      hexValue? (Nat.digitChar n).toUpper = some n := by decide
  obtain ⟨hn, rfl | rfl⟩ := h
  · exact (digit n hn).1
  · exact (digit n hn).2

theorem hexQuad_of_grammar {n : Nat} (h : HexQuad text n rest) : hexQuad text = .ok (n, rest) := by
  obtain ⟨rest, h₁, h₂, h₃, h₄⟩ := h
  simp only [hexQuad, List.take, List.drop, List.mapM_cons, List.mapM_nil, hexValue?_digit h₁,
    hexValue?_digit h₂, hexValue?_digit h₃, hexValue?_digit h₄]
  simp only [bind, Option.bind, pure]
  congr 2
  omega

theorem simpleEscape?_of_mem {letter c : Char} (h : (letter, c) ∈ escapes) :
    simpleEscape? letter = some c ∧ letter ≠ 'u' := by
  simp only [escapes, List.mem_cons, Prod.mk.injEq, List.not_mem_nil, or_false] at h
  rcases h with ⟨rfl, rfl⟩ | ⟨rfl, rfl⟩ | ⟨rfl, rfl⟩ | ⟨rfl, rfl⟩ | ⟨rfl, rfl⟩ | ⟨rfl, rfl⟩ |
    ⟨rfl, rfl⟩ | ⟨rfl, rfl⟩ <;> exact ⟨rfl, by decide⟩

/-- The number of a character is never that of half of one. -/
theorem not_surrogate (c : Char) : c.toNat < 0xD800 ∨ 0xDFFF < c.toNat := by
  rcases c.valid with h | ⟨h, _⟩
  · exact Or.inl h
  · exact Or.inr h

theorem unicodeEscape_number {c : Char} (h : HexQuad text c.toNat rest) :
    unicodeEscape text = .ok (c, rest) := by
  have hc := not_surrogate c
  unfold unicodeEscape
  rw [run_bind_ok (hexQuad_of_grammar h), if_neg (by omega), if_pos (by omega), Char.ofNat_toNat]
  rfl

theorem expectInEscape_self (c : Char) (rest : List Char) :
    expectInEscape c (c :: rest) = .ok ((), rest) := if_pos rfl

theorem unicodeEscape_halves {c : Char} {high low : Nat} {text' : List Char}
    (hhigh : HexQuad text high ('\\' :: 'u' :: text')) (hlow : HexQuad text' low rest)
    (h₁ : 0xD800 ≤ high) (h₂ : high ≤ 0xDBFF) (h₃ : 0xDC00 ≤ low) (h₄ : low ≤ 0xDFFF)
    (hc : c.toNat = 0x10000 + 0x400 * (high - 0xD800) + (low - 0xDC00)) :
    unicodeEscape text = .ok (c, rest) := by
  have hcode : (high - 0xD800) * 0x400 + (low - 0xDC00) + 0x10000 = c.toNat := by omega
  unfold unicodeEscape
  rw [run_bind_ok (hexQuad_of_grammar hhigh), if_neg (by omega), if_neg (by omega),
    run_bind_ok (expectInEscape_self _ _), run_bind_ok (expectInEscape_self _ _),
    run_bind_ok (hexQuad_of_grammar hlow), if_neg (by omega), hcode, Char.ofNat_toNat]
  rfl

/-- A character is read as it is spelled. -/
theorem textLoop_char {c : Char} (h : SpelledChar c text rest) (fuel : Nat) (read : List Char) :
    textLoop (fuel + 1) read text = textLoop fuel (c :: read) rest := by
  have escaped : ∀ {text}, escape text = .ok (c, rest) →
      textLoop (fuel + 1) read ('\\' :: text) = textLoop fuel (c :: read) rest := by
    intro text h
    simp only [textLoop, h]
  cases h with
  | plain _ hplain hquote hbackslash =>
    have hcontrol : ¬c < ' ' := Char.not_lt.mpr hplain
    simp [textLoop, hcontrol]
  | letter _ hletter =>
    obtain ⟨hsimple, hu⟩ := simpleEscape?_of_mem hletter
    exact escaped (by simp [escape, hsimple])
  | number hquad => exact escaped (unicodeEscape_number hquad)
  | halves hhigh hlow h₁ h₂ h₃ h₄ hc =>
    exact escaped (unicodeEscape_halves hhigh hlow h₁ h₂ h₃ h₄ hc)

theorem textLoop_chars {chars : List Char} (h : SpelledChars chars text rest) (fuel : Nat)
    (read : List Char) :
    textLoop (fuel + chars.length + 1) read text = .ok (read.reverse ++ chars, rest) := by
  induction h generalizing read with
  | close rest => simp [textLoop]
  | cons hchar _ ih => rw [textLoop_char hchar, List.length_cons, ← Nat.add_assoc, ih]; simp

/-- **A text is read as what it spells.** -/
theorem text_spelled {value : String} (h : Spelled value text rest) :
    Reader.text text = .ok (value, rest) := by
  cases h with
  | @mk body _ hchars =>
    obtain ⟨fuel, hfuel⟩ := Nat.exists_eq_add_of_lt hchars.length_lt
    have hloop : textLoop (body.length + 1) [] body = .ok (value.toList, rest) := by
      rw [hfuel, show value.toList.length + rest.length + fuel + 1 + 1 =
        rest.length + fuel + 1 + value.toList.length + 1 by omega, textLoop_chars hchars]
      rfl
    show (next? >>= _) ('"' :: body) = _
    rw [run_bind_ok (next?_cons (by decide))]
    show textBody body = _
    unfold textBody
    rw [hloop]
    simp

/-! ## Machine words -/

theorem le_ofDigitChars (digits : List Char) (n : Nat) : n ≤ Nat.ofDigitChars 10 digits n := by
  induction digits generalizing n with
  | nil => simp
  | cons c digits ih =>
    rw [Nat.ofDigitChars_cons]
    exact Nat.le_trans (by omega) (ih _)

/-- All digits go into the significand if it stays a machine word. -/
theorem significand_digits {digits : List Char} (h : AllDigits digits) (hr : StopsDigits rest)
    {n : Nat} (hn : Nat.ofDigitChars 10 digits n < UInt64.size) :
    significand n (digits ++ rest) = (Nat.ofDigitChars 10 digits n, rest) := by
  induction digits generalizing n with
  | nil =>
    cases rest with
    | nil => rfl
    | cons c rest => simp [significand, hr c rfl]
  | cons c digits ih =>
    have hstep : n * 10 + (c.toNat - '0'.toNat) < UInt64.size := by
      rw [Nat.ofDigitChars_cons] at hn
      have := le_ofDigitChars digits (10 * n + (c.toNat - '0'.toNat))
      omega
    have hcons : n * 10 + (c.toNat - '0'.toNat) = 10 * n + (c.toNat - '0'.toNat) := by omega
    rw [Nat.ofDigitChars_cons] at hn ⊢
    rw [List.cons_append, significand, h c (by simp), decide_eq_true hstep, Bool.and_self,
      if_pos rfl, hcons]
    exact ih (fun d hd => h d (by simp [hd])) hn

/-- The digits of a number that is not zero do not begin with one. -/
theorem head?_toDigits {n : Nat} (hn : n ≠ 0) : (Nat.toDigits 10 n).head? ≠ some '0' := by
  induction n using Nat.strongRecOn with
  | ind n ih =>
    by_cases hsmall : n < 10
    · have digit : ∀ n < 10, n ≠ 0 → Nat.digitChar n ≠ '0' := by decide
      rw [Nat.toDigits_of_lt_base hsmall]
      simpa using digit n hsmall hn
    · have first := ih (n / 10) (by omega) (by omega)
      rw [Nat.toDigits_of_base_le (by omega) (by omega), List.head?_append]
      obtain ⟨c, rest, hdigits⟩ := List.exists_cons_of_ne_nil (Nat.toDigits_ne_nil (n := n / 10))
      rw [hdigits] at first ⊢
      exact first

/-- What may follow a number inside a document. -/
def Ends (rest : List Char) : Prop :=
  ∀ c, rest.head? = some c → c ∈ [' ', '\n', '\t', '\r', ',', ']', '\x7d']

theorem ends_of_blanks {last : List Char} (h : Blanks rest last)
    (hlast : ∀ c, last.head? = some c → c ∈ [',', ']', '\x7d']) : Ends rest := by
  obtain ⟨blanks, hblanks, rfl⟩ := h
  intro c hc
  cases blanks with
  | nil => exact List.mem_append_right [' ', '\n', '\t', '\r'] (hlast c hc)
  | cons blank blanks =>
    cases hc
    exact List.mem_append_left [',', ']', '\x7d'] (hblanks c List.mem_cons_self)

theorem Ends.stopsDigits (h : Ends rest) : StopsDigits rest := by
  intro c hc
  have := h c hc
  simp only [List.mem_cons, List.not_mem_nil, or_false] at this
  rcases this with rfl | rfl | rfl | rfl | rfl | rfl | rfl <;> rfl

theorem StopsDigits.head?_map (h : StopsDigits rest) :
    (rest.head?.map Char.isDigit).getD false = false := by
  cases hhead : rest.head? with
  | none => rfl
  | some c => exact h c hhead

/-- Digits that a number may begin with: a single zero, or none in front. -/
def BeginsNumber (digits : List Char) : Prop := digits = ['0'] ∨ digits.head? ≠ some '0'

/-- Digits before a point or an exponent. -/
theorem number_whole {negative : Bool} {whole : List Char} (hw : AllDigits whole) (hne : whole ≠ [])
    (hfirst : BeginsNumber whole) (hr : StopsDigits rest)
    (hn : Nat.ofDigitChars 10 whole 0 < UInt64.size) :
    number negative (whole ++ rest) = numberTail negative (Nat.ofDigitChars 10 whole 0) rest := by
  rcases hfirst with rfl | hfirst
  · rw [List.singleton_append]
    show (if _ then _ else numberTail negative 0 rest) = _
    rw [StopsDigits.head?_map hr, if_neg Bool.false_ne_true]
    rfl
  · obtain ⟨c, digits, rfl⟩ := List.exists_cons_of_ne_nil hne
    have hc : c.isDigit = true := hw c List.mem_cons_self
    have hc0 : c ≠ '0' := fun h => hfirst (by rw [h]; rfl)
    have hsignificand := significand_digits hw hr hn
    rw [List.cons_append] at hsignificand ⊢
    simp [number, hc, hsignificand, StopsDigits.head?_map hr]

/-- A number that ends is whole. -/
theorem numberTail_ends {negative : Bool} (h : Ends rest) (n : Nat) :
    numberTail negative n rest = .ok (whole negative n, rest) := by
  unfold numberTail
  split
  · exact absurd (h '.' rfl) (by decide)
  · exact absurd (h 'e' rfl) (by decide)
  · exact absurd (h 'E' rfl) (by decide)
  · rfl

/-- **A whole number is read from its digits.** -/
theorem number_toDigits {negative : Bool} {n : Nat} (hn : n < UInt64.size) (h : Ends rest) :
    number negative (Nat.toDigits 10 n ++ rest) = .ok (whole negative n, rest) := by
  have hfirst : BeginsNumber (Nat.toDigits 10 n) := by
    by_cases h0 : n = 0
    · rw [h0]
      exact Or.inl rfl
    · exact Or.inr (head?_toDigits h0)
  have hvalue : Nat.ofDigitChars 10 (Nat.toDigits 10 n) 0 = n := Nat.ofDigitChars_ten_toDigits
  rw [number_whole (allDigits_toDigits n) Nat.toDigits_ne_nil hfirst h.stopsDigits
    (by rwa [hvalue]), hvalue, numberTail_ends h]

/-- **A machine word is read from its digits.** -/
theorem uint64_digits (n : UInt64) (h : Ends rest) :
    uint64 (Nat.toDigits 10 n.toNat ++ rest) = .ok (n, rest) := by
  have hrange : (0 : Int) ≤ n.toNat ∧ (n.toNat : Int) ≤ UInt64.size - 1 := by
    have := n.toNat_lt
    simp only [UInt64.size]
    omega
  have hnumber : numberOr "usize" (Nat.toDigits 10 n.toNat ++ rest) =
      .ok (.integer n.toNat, rest) := by
    obtain ⟨c, digits, hdigits⟩ := List.exists_cons_of_ne_nil (Nat.toDigits_ne_nil (n := n.toNat))
    have hc : c.isDigit = true := allDigits_toDigits n.toNat c (by rw [hdigits]; simp)
    have hdigits' : Nat.toDigits 10 n.toNat ++ rest = c :: (digits ++ rest) := by
      rw [hdigits, List.cons_append]
    have hminus : c ≠ '-' := by
      rintro rfl
      cases hc
    unfold numberOr
    rw [hdigits', run_bind_ok (next?_cons (isBlank_of_isDigit hc))]
    dsimp only
    rw [if_neg hminus, if_pos hc, ← hdigits']
    exact number_toDigits n.toNat_lt h
  have hinteger : integer 0 (UInt64.size - 1) "usize" (Nat.toDigits 10 n.toNat ++ rest) =
      .ok ((n.toNat : Int), rest) := by
    unfold integer
    rw [run_bind_ok hnumber]
    dsimp only
    rw [if_pos hrange]
    rfl
  unfold uint64
  rw [run_map_ok _ hinteger]
  simp

end Reader

end FloorDivision.Json
