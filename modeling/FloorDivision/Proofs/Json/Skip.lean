import FloorDivision.Proofs.Json.Reading

/-!
# Values of any kind are passed over

Values nest to any depth, and the readers keep the brackets that are open in a list and count their
steps.  A value takes two steps for each of its characters at most.

* `skipText_body`, `skipNumber_of_grammar` — texts and numbers.
* `skipItem_value` — a value leads from one state of the readers to the next.
* `skipValue_value` — a value of any kind is passed over as a whole.
-/

namespace FloorDivision.Json

open Grammar Reader

variable {text rest : List Char}

/-! ## Texts -/

/-- A character takes a step or, if it is written in halves, two. -/
theorem skipTextLoop_char {c : Char} (h : SpelledChar c text rest) :
    ∃ steps, steps + rest.length ≤ text.length ∧
      ∀ fuel, skipTextLoop (fuel + steps) text = skipTextLoop fuel rest := by
  have escaped : ∀ {text rest : List Char}, skipEscape text = .ok ((), rest) →
      ∀ fuel, skipTextLoop (fuel + 1) ('\\' :: text) = skipTextLoop fuel rest := by
    intro text rest h fuel
    simp only [skipTextLoop, h]
  have number : ∀ {text rest : List Char} {n : Nat}, HexQuad text n rest →
      skipEscape ('u' :: text) = .ok ((), rest) := by
    intro text rest n h
    simp only [skipEscape, hexQuad_of_grammar h]
    rfl
  cases h with
  | plain _ hplain hquote hbackslash =>
    have hcontrol : ¬c < ' ' := Char.not_lt.mpr hplain
    refine ⟨1, by simp; omega, fun fuel => ?_⟩
    simp [skipTextLoop, hcontrol]
  | letter _ hletter =>
    obtain ⟨hsimple, hu⟩ := simpleEscape?_of_mem hletter
    refine ⟨1, by simp; omega, escaped ?_⟩
    simp [skipEscape, hsimple]
  | number hquad =>
    have := hquad.length_eq
    exact ⟨1, by simp only [List.length_cons]; omega, escaped (number hquad)⟩
  | halves hhigh hlow =>
    have := hhigh.length_eq
    have := hlow.length_eq
    refine ⟨2, by simp only [List.length_cons] at *; omega, fun fuel => ?_⟩
    rw [show fuel + 2 = fuel + 1 + 1 from rfl, escaped (number hhigh), escaped (number hlow)]

theorem skipTextLoop_body (h : TextBody text rest) :
    ∃ steps, steps + rest.length ≤ text.length ∧
      ∀ fuel, skipTextLoop (fuel + steps) text = .ok ((), rest) := by
  induction h with
  | close rest => exact ⟨1, by simp; omega, fun fuel => rfl⟩
  | char hchar _ ih =>
    obtain ⟨first, hfirst, hskip⟩ := skipTextLoop_char hchar
    obtain ⟨steps, hsteps, hrest⟩ := ih
    refine ⟨steps + first, by omega, fun fuel => ?_⟩
    rw [← Nat.add_assoc, hskip, hrest]
  | half hquad _ ih =>
    obtain ⟨steps, hsteps, hrest⟩ := ih
    have := hquad.length_eq
    refine ⟨steps + 1, by simp only [List.length_cons]; omega, fun fuel => ?_⟩
    rw [← Nat.add_assoc, ← hrest fuel]
    simp only [skipTextLoop, skipEscape, hexQuad_of_grammar hquad]
    rfl

theorem Grammar.TextBody.length_le (h : TextBody text rest) : rest.length ≤ text.length := by
  obtain ⟨steps, hsteps, -⟩ := skipTextLoop_body h
  omega

theorem skipText_body (h : TextBody text rest) : skipText text = .ok ((), rest) := by
  obtain ⟨steps, hsteps, hskip⟩ := skipTextLoop_body h
  obtain ⟨fuel, hfuel⟩ := Nat.exists_eq_add_of_le (show steps ≤ text.length + 1 by omega)
  unfold skipText
  rw [hfuel, Nat.add_comm, hskip]

/-! ## Numbers -/

theorem skipDigits_digits (h : Digits text rest) (hr : StopsDigits rest) :
    skipDigits text = .ok ((), rest) := by
  obtain ⟨digits, hne, hdigits, rfl⟩ := h
  obtain ⟨c, digits, rfl⟩ := List.exists_cons_of_ne_nil hne
  have hspan := span_isDigit (hdigits.drop 1) hr
  rw [List.span_eq_takeWhile_dropWhile] at hspan
  have hdrop : (digits ++ rest).dropWhile Char.isDigit = rest := congrArg Prod.snd hspan
  simp only [List.cons_append, skipDigits, hdigits c (by simp), if_true, hdrop]

theorem Grammar.Whole.first (h : Whole text rest) :
    ∃ c digits, c.isDigit = true ∧ text = c :: digits := by
  cases h with
  | zero => exact ⟨_, _, rfl, rfl⟩
  | digits _ hfirst _ _ => exact ⟨_, _, hfirst, rfl⟩

/-- What may follow an exponent is neither a point nor another one. -/
theorem not_mark_of_ends (h : Ends rest) :
    ∀ rest', rest ≠ '.' :: rest' ∧ rest ≠ 'e' :: rest' ∧ rest ≠ 'E' :: rest' := by
  intro rest'
  refine ⟨?_, ?_, ?_⟩ <;> rintro rfl <;> exact absurd (h _ rfl) (by decide)

theorem skipExponent_of_grammar (h : Exponent text rest) (hends : Ends rest) :
    skipExponent text = .ok ((), rest) := by
  cases h with
  | absent =>
    unfold skipExponent
    split
    · exact absurd rfl (not_mark_of_ends hends _).2.1
    · exact absurd rfl (not_mark_of_ends hends _).2.2
    · rfl
  | present hmark hsign hdigits =>
    have hskip := skipDigits_digits hdigits hends.stopsDigits
    obtain ⟨digits, hne, hall, rfl⟩ := hdigits
    obtain ⟨d, digits, rfl⟩ := List.exists_cons_of_ne_nil hne
    have hplus : d ≠ '+' := fun h => absurd (hall d (by simp)) (by simp [h])
    have hminus : d ≠ '-' := fun h => absurd (hall d (by simp)) (by simp [h])
    simp only [List.mem_cons, List.not_mem_nil, or_false] at hmark hsign
    rw [List.cons_append] at hskip ⊢
    rcases hmark with rfl | rfl <;> rcases hsign with rfl | rfl | rfl <;>
      simp [skipExponent, hplus, hminus, hskip]

theorem stopsDigits_exponent (h : Exponent text rest) (hends : Ends rest) : StopsDigits text := by
  cases h with
  | absent => exact hends.stopsDigits
  | present hmark _ _ =>
    simp only [List.mem_cons, List.not_mem_nil, or_false] at hmark
    rcases hmark with rfl | rfl
    · exact stopsDigits_cons rfl _
    · exact stopsDigits_cons rfl _

theorem stopsDigits_fraction {text' : List Char} (h : Fraction text text')
    (h' : Exponent text' rest) (hends : Ends rest) : StopsDigits text := by
  cases h with
  | absent => exact stopsDigits_exponent h' hends
  | present => exact stopsDigits_cons rfl _

/-- What follows the digits before a point. -/
def skipFraction : Reader Unit := do
  match ← get with
  | '.' :: rest =>
    set rest
    skipDigits
    skipExponent
  | _ => skipExponent

theorem skipFraction_plain (h : ∀ rest, text ≠ '.' :: rest) :
    skipFraction text = skipExponent text := by
  unfold skipFraction
  rw [run_bind_ok (run_get text)]
  split
  · exact absurd rfl (h _)
  · rfl

theorem skipFraction_of_grammar {text' : List Char} (h : Fraction text text')
    (h' : Exponent text' rest) (hends : Ends rest) : skipFraction text = .ok ((), rest) := by
  have hexponent := skipExponent_of_grammar h' hends
  cases h with
  | absent =>
    rw [skipFraction_plain, hexponent]
    intro rest' hpoint
    cases h' with
    | absent => exact (not_mark_of_ends hends _).1 hpoint
    | present hmark _ _ =>
      obtain ⟨rfl, -⟩ := List.cons.inj hpoint
      exact absurd hmark (by decide)
  | present hdigits =>
    show (skipDigits >>= fun _ => skipExponent) _ = _
    rw [run_bind_ok (skipDigits_digits hdigits (stopsDigits_exponent h' hends)), hexponent]

theorem skipNumber_digits (h : ∀ rest, text ≠ '0' :: rest) :
    skipNumber text = (skipDigits >>= fun _ => skipFraction) text := by
  unfold skipNumber
  rw [run_bind_ok (run_get text)]
  dsimp only
  split
  · exact absurd rfl (h _)
  · rfl

/-- **A number after its sign is passed over.** -/
theorem skipNumber_of_grammar {afterWhole afterFraction : List Char}
    (hwhole : Whole text afterWhole) (hfraction : Fraction afterWhole afterFraction)
    (hexponent : Exponent afterFraction rest) (hends : Ends rest) :
    skipNumber text = .ok ((), rest) := by
  have hskip := skipFraction_of_grammar hfraction hexponent hends
  have hstops := stopsDigits_fraction hfraction hexponent hends
  cases hwhole with
  | zero =>
    have hstop : (afterWhole.head?.map Char.isDigit).getD false = false := by
      cases hhead : afterWhole.head? with
      | none => rfl
      | some c => exact hstops c hhead
    show (if (afterWhole.head?.map Char.isDigit).getD false then _ else
      (set afterWhole >>= fun _ => skipFraction) : Reader Unit) _ = _
    rw [if_neg (by simp [hstop])]
    exact hskip
  | @digits first digits _ hfirst hne hdigits =>
    have hdigits' : Digits (first :: (digits ++ afterWhole)) afterWhole := by
      refine ⟨first :: digits, by simp, ?_, rfl⟩
      intro c hc
      rcases List.mem_cons.mp hc with rfl | hc
      · exact hfirst
      · exact hdigits c hc
    have hhead : ∀ rest, first :: (digits ++ afterWhole) ≠ '0' :: rest := fun _ heq =>
      hne (List.cons.inj heq).1
    rw [skipNumber_digits hhead, run_bind_ok (skipDigits_digits hdigits' hstops), hskip]

/-! ## Values without parts -/

theorem skipScalar_word {word : List Char} (rest : List Char)
    (h : word ∈ ["null".toList, "true".toList, "false".toList]) :
    skipScalar (word ++ rest) = .ok (none, rest) := by
  simp only [List.mem_cons, List.not_mem_nil, or_false] at h
  rcases h with rfl | rfl | rfl <;> rfl

theorem skipScalar_text (h : TextBody text rest) : skipScalar ('"' :: text) = .ok (none, rest) := by
  show (skipText >>= fun _ => pure none) text = _
  rw [run_bind_ok (skipText_body h)]
  rfl

theorem skipScalar_digit {c : Char} (hc : c.isDigit = true) (text : List Char) :
    skipScalar (c :: text) = (skipNumber >>= fun _ => pure none) (c :: text) := by
  unfold skipScalar
  rw [run_bind_ok (next?_cons (isBlank_of_isDigit hc))]
  dsimp only
  split
  · cases hc
  · cases hc
  · cases hc
  · cases hc
  · cases hc
  · cases hc
  · cases hc
  · rw [if_pos hc]

theorem skipScalar_number (h : Grammar.Number text rest) (hends : Ends rest) :
    skipScalar text = .ok (none, rest) := by
  cases h with
  | @mk _ digits _ _ _ hsign hwhole hfraction hexponent =>
    have hskip := skipNumber_of_grammar hwhole hfraction hexponent hends
    simp only [List.mem_cons, List.not_mem_nil, or_false] at hsign
    rcases hsign with rfl | rfl
    · obtain ⟨c, digits, hc, rfl⟩ := hwhole.first
      rw [List.nil_append, skipScalar_digit hc, run_bind_ok hskip]
      rfl
    · rw [List.singleton_append]
      show (skipNumber >>= fun _ => pure none) digits = _
      rw [run_bind_ok hskip]
      rfl

theorem skipScalar_opening (bracket : Bracket) (text : List Char) :
    skipScalar (opening bracket :: text) = .ok (some bracket, text) := by
  cases bracket <;> rfl

/-! ## What a value begins with -/

theorem Grammar.ValueText.first (h : ValueText text rest) :
    ∃ c text', text = c :: text' ∧ isBlank c = false ∧
      ∀ bracket : Bracket, c ≠ closing bracket := by
  have digit : ∀ {c : Char}, c.isDigit = true → isBlank c = false ∧
      ∀ bracket : Bracket, c ≠ closing bracket := by
    intro c hc
    refine ⟨isBlank_of_isDigit hc, ?_⟩
    rintro (_ | _) rfl <;> cases hc
  cases h with
  | word _ hword =>
    simp only [List.mem_cons, List.not_mem_nil, or_false] at hword
    rcases hword with rfl | rfl | rfl <;> exact ⟨_, _, rfl, rfl, by rintro (_ | _) <;> decide⟩
  | number hnumber =>
    cases hnumber with
    | mk hsign hwhole _ _ =>
      simp only [List.mem_cons, List.not_mem_nil, or_false] at hsign
      rcases hsign with rfl | rfl
      · obtain ⟨c, digits, hc, rfl⟩ := hwhole.first
        exact ⟨c, digits, rfl, digit hc⟩
      · exact ⟨_, _, rfl, rfl, by rintro (_ | _) <;> decide⟩
  | text => exact ⟨_, _, rfl, rfl, by rintro (_ | _) <;> decide⟩
  | empty bracket | filled bracket =>
    refine ⟨_, _, rfl, ?_⟩
    cases bracket <;> exact ⟨rfl, by rintro (_ | _) <;> decide⟩

/-! ## Lengths -/

theorem Grammar.Digits.length_lt (h : Digits text rest) : rest.length < text.length := by
  obtain ⟨digits, hne, -, rfl⟩ := h
  have := List.length_pos_iff.mpr hne
  simp only [List.length_append]
  omega

theorem Grammar.Whole.length_lt (h : Whole text rest) : rest.length < text.length := by
  cases h <;> simp only [List.length_cons, List.length_append] <;> omega

theorem Grammar.Fraction.length_le (h : Fraction text rest) : rest.length ≤ text.length := by
  cases h with
  | absent => exact Nat.le_refl _
  | present hdigits =>
    have := hdigits.length_lt
    simp only [List.length_cons]
    omega

theorem Grammar.Exponent.length_le (h : Exponent text rest) : rest.length ≤ text.length := by
  cases h with
  | absent => exact Nat.le_refl _
  | present _ _ hdigits =>
    have := hdigits.length_lt
    simp only [List.length_cons, List.length_append]
    omega

theorem Grammar.Number.length_lt (h : Grammar.Number text rest) : rest.length < text.length := by
  cases h with
  | mk _ hwhole hfraction hexponent =>
    have := hwhole.length_lt
    have := hfraction.length_le
    have := hexponent.length_le
    simp only [List.length_append]
    omega

theorem Grammar.Lead.length_le {bracket : Bracket} (h : Lead bracket text rest) :
    rest.length ≤ text.length := by
  cases h with
  | list hblanks => exact hblanks.length_le
  | object hquote hkey hcolon hblanks =>
    have := hquote.length_le
    have := hkey.length_le
    have := hcolon.length_le
    have := hblanks.length_le
    simp only [List.length_cons] at *
    omega

/-! ## Values with parts -/

/-- One step more is taken for the next value inside the open brackets. -/
def skipNext (fuel : Nat) (bracket : Bracket) (opened : List Bracket) : Reader Unit := do
  skipItemStart bracket
  skipItem fuel (bracket :: opened)

theorem ignoresBlanks_skipItem (fuel : Nat) (opened : List Bracket) :
    (skipItem fuel opened).IgnoresBlanks := by
  cases fuel with
  | zero => exact fun _ _ _ => rfl
  | succ fuel => 
    unfold skipItem
    exact (ignoresBlanks_next?.bind _).bind _

theorem ignoresBlanks_skipNext (fuel : Nat) (bracket : Bracket) (opened : List Bracket) :
    (skipNext fuel bracket opened).IgnoresBlanks := by
  cases bracket with
  | list => exact ignoresBlanks_skipItem fuel _
  | object => exact (ignoresBlanks_next?.bind _).bind _

/-- A key after its opening quotation mark, and the colon. -/
def skipKeyText : Reader Unit := do
  skipText
  match ← next? with
  | some ':' => advance
  | some _ => fail .expectedColon
  | none => fail .endInObject

theorem skipKey_of_grammar {key afterKey : List Char} (h : Blanks text ('"' :: key))
    (hkey : TextBody key afterKey) (hcolon : Blanks afterKey (':' :: rest)) :
    skipKey text = .ok ((), rest) := by
  unfold skipKey
  rw [run_bind_ok (next?_of_blanks h rfl)]
  show skipKeyText key = _
  unfold skipKeyText
  rw [run_bind_ok (skipText_body hkey), run_bind_ok (next?_of_blanks hcolon rfl)]
  rfl

theorem skipNext_lead {bracket : Bracket} {value : List Char} (h : Lead bracket text value)
    (fuel : Nat) (opened : List Bracket) :
    skipNext fuel bracket opened text = skipItem fuel (bracket :: opened) value := by
  cases h with
  | list hblanks => exact ignoresBlanks_skipNext fuel .list opened hblanks
  | object hquote hkey hcolon hblanks =>
    show (skipKey >>= fun _ => skipItem fuel (.object :: opened)) text = _
    rw [run_bind_ok (skipKey_of_grammar hquote hkey hcolon)]
    exact ignoresBlanks_skipItem fuel _ hblanks

variable {bracket : Bracket}

theorem isBlank_closing (bracket : Bracket) : isBlank (closing bracket) = false := by
  cases bracket <;> rfl

@[simp] theorem isClosedBy_iff (bracket : Bracket) (c : Char) :
    bracket.isClosedBy c = true ↔ c = closing bracket := by
  cases bracket <;> simp [Bracket.isClosedBy, closing]

theorem ends_closing (h : Blanks text (closing bracket :: rest)) : Ends text := by
  refine ends_of_blanks h ?_
  rintro c ⟨⟩
  cases bracket <;> decide

theorem ends_comma (h : Blanks text (',' :: rest)) : Ends text := by
  refine ends_of_blanks h ?_
  rintro c ⟨⟩
  decide

theorem skipRest_closing (h : Blanks text (closing bracket :: rest)) (fuel : Nat)
    (opened : List Bracket) :
    skipRest (fuel + 1) (bracket :: opened) text = skipRest fuel opened rest := by
  have hcomma : closing bracket ≠ ',' := by cases bracket <;> decide
  conv_lhs => unfold skipRest
  rw [run_bind_ok (next?_of_blanks h (isBlank_closing bracket))]
  dsimp only
  rw [if_neg hcomma, if_pos ((isClosedBy_iff _ _).mpr rfl)]
  rfl

theorem skipRest_comma (h : Blanks text (',' :: rest)) (fuel : Nat) (opened : List Bracket) :
    skipRest (fuel + 1) (bracket :: opened) text = skipNext fuel bracket opened rest := by
  unfold skipRest
  rw [run_bind_ok (next?_of_blanks h rfl)]
  rfl

theorem skipItem_scalar (h : skipScalar text = .ok (none, rest)) (fuel : Nat)
    (opened : List Bracket) : skipItem (fuel + 1) opened text = skipRest fuel opened rest := by
  unfold skipItem
  rw [run_bind_ok h]

theorem skipItem_empty (h : Blanks text (closing bracket :: rest)) (fuel : Nat)
    (opened : List Bracket) :
    skipItem (fuel + 1) opened (opening bracket :: text) = skipRest fuel opened rest := by
  unfold skipItem
  rw [run_bind_ok (skipScalar_opening bracket text)]
  dsimp only
  rw [run_bind_ok (next?_of_blanks h (isBlank_closing bracket))]
  dsimp only
  rw [if_pos ((isClosedBy_iff _ _).mpr rfl)]
  rfl

/-- What begins with another character than the closing one is the next value. -/
theorem skipItem_opening {c : Char} (h : Blanks text (c :: rest)) (hc : isBlank c = false)
    (hopen : c ≠ closing bracket) (fuel : Nat) (opened : List Bracket) :
    skipItem (fuel + 1) opened (opening bracket :: text) = skipNext fuel bracket opened text := by
  rw [ignoresBlanks_skipNext fuel bracket opened h]
  unfold skipItem
  rw [run_bind_ok (skipScalar_opening bracket text)]
  dsimp only
  rw [run_bind_ok (next?_of_blanks h hc)]
  dsimp only
  rw [if_neg (fun hclosed => hopen ((isClosedBy_iff _ _).mp hclosed))]
  rfl

/-- The first value inside a bracket does not close it. -/
theorem Grammar.Lead.first {value : List Char} (h : Lead bracket text value)
    (hvalue : ValueText value rest) :
    ∃ c text', Blanks text (c :: text') ∧ isBlank c = false ∧ c ≠ closing bracket := by
  cases h with
  | list hblanks =>
    obtain ⟨c, text', rfl, hc, hopen⟩ := hvalue.first
    exact ⟨c, text', hblanks, hc, hopen _⟩
  | object hquote => exact ⟨_, _, hquote, rfl, by decide⟩

theorem Grammar.Items.first (h : Items bracket text rest) :
    ∃ c text', Blanks text (c :: text') ∧ isBlank c = false ∧ c ≠ closing bracket := by
  cases h with
  | last hlead hvalue => exact hlead.first hvalue
  | next hlead hvalue => exact hlead.first hvalue

mutual

/-- **A value leads from one state to the next**, whatever brackets are open. -/
theorem skipItem_value {text rest : List Char} : ValueText text rest → Ends rest →
    ∃ steps, steps + 2 * rest.length ≤ 2 * text.length ∧
      ∀ fuel opened, skipItem (fuel + steps) opened text = skipRest fuel opened rest
  | .word rest h, _ => by
    refine ⟨1, ?_, skipItem_scalar (skipScalar_word rest h)⟩
    simp only [List.mem_cons, List.not_mem_nil, or_false] at h
    rcases h with rfl | rfl | rfl <;> simp <;> omega
  | .number h, hends => by
    have := h.length_lt
    exact ⟨1, by omega, skipItem_scalar (skipScalar_number h hends)⟩
  | .text h, _ => by
    have := h.length_le
    exact ⟨1, by simp only [List.length_cons]; omega, skipItem_scalar (skipScalar_text h)⟩
  | .empty bracket h, _ => by
    have := h.length_le
    exact ⟨1, by simp only [List.length_cons] at *; omega, skipItem_empty h⟩
  | .filled bracket h, _ => by
    obtain ⟨c, text', hblanks, hc, hopen⟩ := h.first
    obtain ⟨steps, hsteps, hskip⟩ := skipNext_items h
    refine ⟨steps + 1, ?_, fun fuel opened => ?_⟩
    · simp only [List.length_cons]
      omega
    · rw [← Nat.add_assoc, skipItem_opening hblanks hc hopen, hskip]

theorem skipNext_items {bracket : Bracket} {text rest : List Char} : Items bracket text rest →
    ∃ steps, steps + 2 * rest.length ≤ 2 * text.length ∧
      ∀ fuel opened, skipNext (fuel + steps) bracket opened text = skipRest fuel opened rest
  | .last hlead hvalue hclosing => by
    obtain ⟨steps, hsteps, hskip⟩ := skipItem_value hvalue (ends_closing hclosing)
    have := hlead.length_le
    have := hclosing.length_le
    refine ⟨steps + 1, ?_, fun fuel opened => ?_⟩
    · simp only [List.length_cons] at *
      omega
    · rw [Nat.add_comm steps, ← Nat.add_assoc, skipNext_lead hlead, hskip,
        skipRest_closing hclosing]
  | .next hlead hvalue hcomma hitems => by
    obtain ⟨steps, hsteps, hskip⟩ := skipItem_value hvalue (ends_comma hcomma)
    obtain ⟨steps', hsteps', hskip'⟩ := skipNext_items hitems
    have := hlead.length_le
    have := hcomma.length_le
    refine ⟨steps' + 1 + steps, ?_, fun fuel opened => ?_⟩
    · simp only [List.length_cons] at *
      omega
    · rw [← Nat.add_assoc, skipNext_lead hlead, hskip, ← Nat.add_assoc, skipRest_comma hcomma,
        hskip']

end

theorem Grammar.ValueText.length_le (h : ValueText text rest) (hends : Ends rest) :
    rest.length ≤ text.length := by
  obtain ⟨steps, hsteps, -⟩ := skipItem_value h hends
  omega

/-- **A value of any kind is passed over.** -/
theorem skipValue_value {value : List Char} (hblanks : Blanks text value) (h : ValueText value rest)
    (hends : Ends rest) : skipValue text = .ok ((), rest) := by
  obtain ⟨steps, hsteps, hskip⟩ := skipItem_value h hends
  have := hblanks.length_le
  obtain ⟨fuel, hfuel⟩ := Nat.exists_eq_add_of_le (show steps ≤ 2 * text.length + 2 by omega)
  show skipItem (2 * text.length + 2) [] text = _
  rw [hfuel, Nat.add_comm, ignoresBlanks_skipItem _ _ hblanks, hskip]
  cases fuel <;> rfl

end FloorDivision.Json
