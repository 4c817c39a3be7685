import FloorDivision.CommandLine.Options
import FloorDivision.Proofs.CommandLine.Literal

/-!
# Command lines that divide integers

* `Switch` — the switches that choose level, configuration and truth, and `Switch.requests`, what
  they ask for.
* `IntegerLiteral` — the written integers, with their values.
* `ofArguments_switches` — switches may stand anywhere beside two operands, later ones overriding
  earlier ones.
* `IntegerLiteral.readLiteral_text` — a written integer is read as an object of its value.
-/

namespace FloorDivision.CommandLine

/-! ## Switches -/

/-- A switch that asks for a level, for a configuration or for the truth of the quotient. -/
inductive Switch where
  | level (level : Level)
  | config (path : String)
  | truth
deriving DecidableEq

namespace Switch

def arguments : Switch → List String
  | .level .legacy => ["--legacy"]
  | .level .modern => ["--modern"]
  | .config path => ["--config", path]
  | .truth => ["--bool"]

def level? : Switch → Option Level
  | .level chosen => some chosen
  | .config _ | .truth => none

def path? : Switch → Option String
  | .config path => some path
  | .level _ | .truth => none

/-- What switches ask for beside some operands: the last level and configuration, and truth if it
is asked for at all. -/
def requests (switches : List Switch) (operands : List String) : Options :=
  { level := (switches.filterMap level?).getLast?
    configPath := (switches.filterMap path?).getLast?
    asTruth := switches.contains .truth
    operands := operands }

end Switch

namespace Options

/-- One switch more overrides what was asked for before. -/
def override (options : Options) : Switch → Options
  | .level chosen => { options with level := some chosen }
  | .config path => { options with configPath := some path }
  | .truth => { options with asTruth := true }

theorem read_switch (options : Options) (switch : Switch) (rest : List String) :
    options.read (switch.arguments ++ rest) = (options.override switch).read rest := by
  cases switch with
  | level chosen => cases chosen <;> rfl
  | config path => rfl
  | truth => rfl

theorem override_requests (switches : List Switch) (operands : List String) (switch : Switch) :
    (Switch.requests switches operands).override switch =
      Switch.requests (switches ++ [switch]) operands := by
  cases switch <;> simp [override, Switch.requests, Switch.level?, Switch.path?]

theorem read_switches (asked switches : List Switch) (operands rest : List String) :
    (Switch.requests asked operands).read (switches.flatMap Switch.arguments ++ rest) =
      (Switch.requests (asked ++ switches) operands).read rest := by
  induction switches generalizing asked with
  | nil => simp
  | cons switch switches ih =>
    rw [List.flatMap_cons, List.append_assoc, read_switch, override_requests, ih]
    simp

/-- What does not begin with two dashes is an operand. -/
theorem read_operand (options : Options) {operand : String} (rest : List String)
    (h : ¬['-', '-'] <+: operand.toList) :
    options.read (operand :: rest) =
      { options with operands := options.operands ++ [operand] }.read rest := by
  have hstarts : operand.startsWith "--" = false := by
    rw [Bool.eq_false_iff, ne_eq, String.startsWith_string_iff]
    exact h
  have hne : ∀ option : String, ['-', '-'] <+: option.toList → operand = option → False := by
    rintro option hoption rfl
    exact h hoption
  rw [read, hstarts]
  · rfl
  · exact hne "--legacy" (by decide)
  · exact hne "--modern" (by decide)
  · exact fun heq _ => hne "--config" (by decide) heq
  · exact fun _ _ heq _ => hne "--config" (by decide) heq
  · exact hne "--trace" (by decide)
  · exact hne "--profile" (by decide)
  · exact hne "--bool" (by decide)
  · exact hne "--json" (by decide)

/-- **Switches may stand anywhere beside two operands.** -/
theorem ofArguments_switches (before between after : List Switch) {left right : String}
    (hleft : ¬['-', '-'] <+: left.toList) (hright : ¬['-', '-'] <+: right.toList) :
    ofArguments (before.flatMap Switch.arguments ++ left :: (between.flatMap Switch.arguments ++
      right :: after.flatMap Switch.arguments)) =
        .ok (Switch.requests (before ++ between ++ after) [left, right]) := by
  have hread : read {} (before.flatMap Switch.arguments ++ left ::
      (between.flatMap Switch.arguments ++ right :: after.flatMap Switch.arguments)) =
        .ok (Switch.requests (before ++ between ++ after) [left, right]) := by
    calc read (Switch.requests [] []) (before.flatMap Switch.arguments ++ left ::
          (between.flatMap Switch.arguments ++ right :: after.flatMap Switch.arguments))
      _ = read (Switch.requests before [left])
          (between.flatMap Switch.arguments ++ right :: after.flatMap Switch.arguments) := by
        rw [read_switches, read_operand _ _ hleft]
        rfl
      _ = read (Switch.requests (before ++ between) [left, right])
          (after.flatMap Switch.arguments ++ []) := by
        rw [read_switches, read_operand _ _ hright, List.append_nil]
        rfl
      _ = .ok (Switch.requests (before ++ between ++ after) [left, right]) := by
        rw [read_switches]
        rfl
  unfold ofArguments
  rw [hread]
  rfl

end Options

/-! ## Written integers -/

/-- A written integer: digits with a sign in front or none, and the mark of a long after them or
none. -/
structure IntegerLiteral where
  /-- The sign, of which `true` stands for a minus. -/
  sign? : Option Bool
  digits : List Char
  mark? : Option Char
  digits_ne_nil : digits ≠ []
  allDigits : AllDigits digits
  isMark : ∀ mark, mark? = some mark → mark = 'L' ∨ mark = 'l'

namespace IntegerLiteral

/-- The character of a sign. -/
def signChar (negative : Bool) : Char := if negative then '-' else '+'

def text (literal : IntegerLiteral) : String :=
  .ofList (literal.sign?.toList.map signChar ++ literal.digits ++ literal.mark?.toList)

def value (literal : IntegerLiteral) : Int :=
  let magnitude := Nat.ofDigitChars 10 literal.digits 0
  if literal.sign? = some true then -magnitude else magnitude

variable (literal : IntegerLiteral)

/-- What stands before the mark. -/
def body : List Char := literal.sign?.toList.map signChar ++ literal.digits

theorem toList_text : literal.text.toList = literal.body ++ literal.mark?.toList :=
  String.toList_ofList

theorem integer?_body : Numeral.integer? literal.body = some literal.value := by
  have hdigits := Numeral.integer?_digits literal.digits_ne_nil literal.allDigits
  have hnatural := Numeral.natural?_digits literal.digits_ne_nil literal.allDigits
  unfold body value
  cases literal.sign? with
  | none => exact hdigits
  | some negative =>
    cases negative with
    | true =>
      show Numeral.integer? ('-' :: literal.digits) = _
      rw [Numeral.integer?_minus, hnatural]
      rfl
    | false =>
      show Numeral.integer? ('+' :: literal.digits) = _
      rw [Numeral.integer?_plus, hnatural]
      rfl

/-- A written integer is digits but for a sign in front of them. -/
theorem body_eq_cons : ∃ first rest, literal.body = first :: rest ∧ BeginsNumber first ∧
    AllDigits rest ∧ (first = '-' → rest ≠ []) := by
  obtain ⟨first, rest, hcons⟩ := List.exists_cons_of_ne_nil literal.digits_ne_nil
  have hdigits := literal.allDigits
  rw [hcons] at hdigits
  have hfirst : first.isDigit = true := hdigits first (by simp)
  unfold body
  rw [hcons]
  cases literal.sign? with
  | none =>
    refine ⟨first, rest, rfl, Or.inl hfirst, hdigits.drop 1, ?_⟩
    rintro rfl
    cases hfirst
  | some negative =>
    refine ⟨signChar negative, first :: rest, rfl, Or.inr ?_, hdigits, by simp⟩
    cases negative <;> simp [signChar]

theorem not_dashes : ¬['-', '-'] <+: literal.text.toList := by
  obtain ⟨first, rest, hbody, -, hrest, hdash⟩ := literal.body_eq_cons
  rw [toList_text, hbody]
  intro hprefix
  obtain ⟨hfirst, hsecond⟩ := List.cons_prefix_cons.mp hprefix
  obtain ⟨second, rest', rfl⟩ := List.exists_cons_of_ne_nil (hdash hfirst.symm)
  have hdigit := hrest second (by simp)
  rw [← (List.cons_prefix_cons.mp hsecond).1] at hdigit
  cases hdigit

/-- **A written integer is read as an object of its value**: a long with a mark, and else what the
value calls for. -/
theorem readLiteral_text {level : Level} (h : literal.mark? = none ∨ level = .legacy) :
    readLiteral level literal.text =
      .ok (if literal.mark?.isSome then .long literal.value else integerObject literal.value) := by
  obtain ⟨first, rest, hbody, hfirst, hrest, -⟩ := literal.body_eq_cons
  have htext : literal.text.toList = first :: (rest ++ literal.mark?.toList) := by
    rw [toList_text, hbody, List.cons_append]
  rw [readLiteral_eq_readNumber htext hfirst]
  cases hmark : literal.mark? with
  | none =>
    have hplain : literal.text.toList = literal.body := by
      rw [toList_text, hmark]
      exact List.append_nil _
    have hunmarked : unmarked? literal.body = none := hbody ▸ unmarked?_number hfirst hrest
    exact readNumber_unmarked (hplain ▸ hunmarked) (hplain ▸ literal.integer?_body)
  | some mark =>
    have hlegacy : level = .legacy := by
      rcases h with h | h
      · rw [hmark] at h
        cases h
      · exact h
    subst hlegacy
    refine readNumber_marked ?_ literal.integer?_body
    rw [toList_text, hmark]
    exact unmarked?_append (literal.isMark mark hmark)

end IntegerLiteral

end FloorDivision.CommandLine
