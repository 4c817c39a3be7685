import FloorDivision.Json.Object
import FloorDivision.Proofs.Json.Floats
import FloorDivision.Proofs.Json.Printer
import FloorDivision.Proofs.Json.Record

/-!
# Objects are read from their documents

* `items_intercalate` — a list is read item by item.
* `choice_name`, `choice_object` — an alternative is read from its name, or from an object with the
  one field of that name.
* `Object.ofJson_toJson` — an object other than a float is read back.
* `objects_read_back` — the same for every object: a float is read back up to four units in the last
  place if it is finite, and not at all if it is not.
-/

namespace FloorDivision

open Json Json.Reader

variable {α β : Type} {rest : List Char}

/-! ## Lists -/

namespace Json

/-- The items after the first one, each with the comma before it. -/
def commaItems (items : List String) : List Char := items.flatMap fun item => ',' :: item.toList

theorem toList_intercalate (item : String) (items : List String) :
    (",".intercalate (item :: items)).toList = item.toList ++ commaItems items := by
  induction items generalizing item with
  | nil => simp [commaItems]
  | cons next items ih =>
    rw [String.intercalate_cons_cons]
    simp only [String.toList_append, ih, commaItems, List.flatMap_cons]
    simp

namespace Reader

/-- A part is read from what is written for it where a list or an object may go on. -/
def ReadsItem (read : Reader α) (write : α → String) (x : α) : Prop :=
  ∀ rest, Ends rest → read ((write x).toList ++ rest) = .ok (x, rest)

/-- What is written begins neither with a blank nor with a closing bracket. -/
def BeginsItem (text : String) : Prop :=
  ∃ c body, text.toList = c :: body ∧ isBlank c = false ∧ c ≠ ']'

theorem ends_cons {c : Char} (h : c ∈ [' ', '\n', '\t', '\r', ',', ']', '\x7d'])
    (rest : List Char) : Ends (c :: rest) := by
  intro d hd
  cases hd
  exact h

theorem hasItem_first {c : Char} (hc : isBlank c = false) (hclose : c ≠ ']') :
    hasItem true (c :: rest) = .ok (true, c :: rest) := by
  unfold hasItem
  rw [run_bind_ok (next?_cons hc)]
  generalize hfound : some c = found
  split
  · cases hfound
  · cases hfound
    exact absurd rfl hclose
  · rfl

/-- Whether an item follows the comma that has been read. -/
def hasItemAfterComma : Reader Bool := do
  match ← next? with
  | none => fail .endInValue
  | some ']' => fail .trailingComma
  | some _ => return true

theorem hasItem_comma {c : Char} (hc : isBlank c = false) (hclose : c ≠ ']') :
    hasItem false (',' :: c :: rest) = .ok (true, c :: rest) := by
  unfold hasItem
  rw [run_bind_ok (next?_cons rfl)]
  show hasItemAfterComma (c :: rest) = _
  unfold hasItemAfterComma
  rw [run_bind_ok (next?_cons hc)]
  generalize hfound : some c = found
  split
  · cases hfound
  · cases hfound
    exact absurd rfl hclose
  · rfl

theorem hasItem_close (isFirst : Bool) : hasItem isFirst (']' :: rest) = .ok (false, ']' :: rest) := by
  unfold hasItem
  rw [run_bind_ok (next?_cons rfl)]
  rfl

theorem closeList_bracket : closeList (']' :: rest) = .ok ((), rest) := by
  unfold closeList
  rw [run_bind_ok (next?_cons rfl)]
  rfl

theorem openList_bracket (expected : String) : openList expected ('[' :: rest) = .ok ((), rest) := by
  unfold openList
  rw [run_bind_ok (next?_cons rfl)]
  rfl

section Items

variable {read : Reader α} {write : α → String}

theorem itemsLoop_close (fuel : Nat) (done : List α) :
    itemsLoop read (fuel + 1) done (']' :: rest) = .ok (done.reverse, ']' :: rest) := by
  unfold itemsLoop
  rw [run_bind_ok (hasItem_close _)]
  rfl

/-- **The items after the first one are read in turn.** -/
theorem itemsLoop_commaItems {all : List α} (hread : ∀ x ∈ all, ReadsItem read write x)
    (hbegin : ∀ x ∈ all, BeginsItem (write x)) {done : List α} (hdone : done ≠ []) {fuel : Nat}
    (hfuel : all.length < fuel) :
    itemsLoop read fuel done (commaItems (all.map write) ++ ']' :: rest) =
      .ok (done.reverse ++ all, ']' :: rest) := by
  have hnext : done.isEmpty = false := List.isEmpty_eq_false_iff.mpr hdone
  induction all generalizing done fuel with
  | nil =>
    obtain ⟨fuel, rfl⟩ : ∃ k, fuel = k + 1 := ⟨fuel - 1, by simp at hfuel; omega⟩
    rw [List.append_nil]
    exact itemsLoop_close fuel done
  | cons x all ih =>
    obtain ⟨fuel, rfl⟩ : ∃ k, fuel = k + 1 := ⟨fuel - 1, by omega⟩
    obtain ⟨c, body, htext, hc, hclose⟩ := hbegin x List.mem_cons_self
    have hrest : Ends (commaItems (all.map write) ++ ']' :: rest) := by
      cases all with
      | nil => exact ends_cons (by decide) rest
      | cons y all => exact ends_cons (by decide) _
    have hitem := hread x List.mem_cons_self _ hrest
    have hline : commaItems ((x :: all).map write) ++ ']' :: rest =
        ',' :: c :: (body ++ (commaItems (all.map write) ++ ']' :: rest)) := by
      simp [commaItems, htext]
    rw [htext, List.cons_append] at hitem
    unfold itemsLoop
    rw [hnext, hline, run_bind_ok (hasItem_comma hc hclose), if_pos rfl, run_bind_ok hitem,
      ih (fun y hy => hread y (List.mem_cons_of_mem x hy))
        (fun y hy => hbegin y (List.mem_cons_of_mem x hy)) (by simp) (by simpa using hfuel) (by simp)]
    simp

theorem length_le_commaItems (texts : List String) : texts.length ≤ (commaItems texts).length := by
  induction texts with
  | nil => exact Nat.le_refl _
  | cons text texts ih =>
    simp only [commaItems, List.flatMap_cons, List.length_append, List.length_cons] at ih ⊢
    omega

/-- **A list is read item by item.** -/
theorem items_intercalate {all : List α} (hread : ∀ x ∈ all, ReadsItem read write x)
    (hbegin : ∀ x ∈ all, BeginsItem (write x)) (expected : String) :
    items expected read (("[" ++ ",".intercalate (all.map write) ++ "]").toList ++ rest) =
      .ok (all, rest) := by
  cases all with
  | nil =>
    have htext : ("[" ++ ",".intercalate (([] : List α).map write) ++ "]").toList ++ rest =
        '[' :: ']' :: rest := by simp
    unfold items
    rw [htext, run_bind_ok (openList_bracket expected), run_bind_ok (run_get _),
      run_bind_ok (itemsLoop_close _ _), run_bind_ok closeList_bracket]
    rfl
  | cons x all =>
    obtain ⟨c, body, hbody, hc, hclose⟩ := hbegin x List.mem_cons_self
    have htext : ("[" ++ ",".intercalate ((x :: all).map write) ++ "]").toList ++ rest =
        '[' :: c :: (body ++ (commaItems (all.map write) ++ ']' :: rest)) := by
      rw [List.map_cons, String.toList_append, String.toList_append, toList_intercalate, hbody]
      simp
    have hitem := hread x List.mem_cons_self (commaItems (all.map write) ++ ']' :: rest) (by
      cases all with
      | nil => exact ends_cons (by decide) rest
      | cons y all => exact ends_cons (by decide) _)
    rw [hbody, List.cons_append] at hitem
    have hfuel : all.length <
        (c :: (body ++ (commaItems (all.map write) ++ ']' :: rest))).length := by
      have := length_le_commaItems (all.map write)
      simp only [List.length_map] at this
      simp only [List.length_cons, List.length_append]
      omega
    have hall : itemsLoop read
        ((c :: (body ++ (commaItems (all.map write) ++ ']' :: rest))).length + 1) []
        (c :: (body ++ (commaItems (all.map write) ++ ']' :: rest))) =
          .ok (x :: all, ']' :: rest) := by
      rw [itemsLoop, List.isEmpty_nil, run_bind_ok (hasItem_first hc hclose), if_pos rfl,
        run_bind_ok hitem, itemsLoop_commaItems (fun y hy => hread y (List.mem_cons_of_mem x hy))
          (fun y hy => hbegin y (List.mem_cons_of_mem x hy)) (List.cons_ne_nil x []) hfuel]
      rfl
    unfold items
    rw [htext, run_bind_ok (openList_bracket expected), run_bind_ok (run_get _), run_bind_ok hall,
      run_bind_ok closeList_bracket]
    rfl

end Items

/-- Two parts in a list. -/
theorem pair_comma {first : Reader α} {second : Reader β} {x : α} {y : β} {s t : String}
    (hs : BeginsItem s) (ht : BeginsItem t)
    (hfirst : ∀ rest, Ends rest → first (s.toList ++ rest) = .ok (x, rest))
    (hsecond : ∀ rest, Ends rest → second (t.toList ++ rest) = .ok (y, rest)) :
    pair first second (("[" ++ ",".intercalate [s, t] ++ "]").toList ++ rest) =
      .ok ((x, y), rest) := by
  obtain ⟨c, body, hbody, hc, hclose⟩ := hs
  obtain ⟨d, body', hbody', hd, hclose'⟩ := ht
  have htext : ("[" ++ ",".intercalate [s, t] ++ "]").toList ++ rest =
      '[' :: c :: (body ++ ',' :: d :: (body' ++ ']' :: rest)) := by
    rw [String.toList_append, String.toList_append, toList_intercalate, hbody]
    simp [commaItems, hbody']
  have hx := hfirst (',' :: d :: (body' ++ ']' :: rest)) (ends_cons (by decide) _)
  have hy := hsecond (']' :: rest) (ends_cons (by decide) _)
  rw [hbody, List.cons_append] at hx
  rw [hbody', List.cons_append] at hy
  unfold pair
  dsimp only
  rw [htext, run_bind_ok (openList_bracket _), run_bind_ok (hasItem_first hc hclose)]
  show (first >>= _) _ = _
  rw [run_bind_ok hx, run_bind_ok (hasItem_comma hd hclose')]
  show (second >>= _) _ = _
  rw [run_bind_ok hy, run_bind_ok closeList_bracket]
  rfl

/-! ## Alternatives -/

section Alternatives

variable {alternatives : List (String × Content α)} {name : String} {value : α}

theorem lookUp_of_find? {found : String × Content α}
    (h : alternatives.find? (·.1 == name) = some found) (text : List Char) :
    lookUp alternatives name text = .ok (found.2, text) := by
  unfold lookUp
  rw [h]
  rfl

/-- The end of an object that gives an alternative. -/
def closeChoice (value : α) : Reader α := do
  match ← next? with
  | none => fail .endInObject
  | some '\x7d' => advance
  | some _ => fail .expectedValue
  return value

/-- An alternative after the opening brace of its object. -/
def choiceInObject (alternatives : List (String × Content α)) : Reader α := do
  let chosen ← lookUp alternatives (← choiceName)
  colon
  closeChoice (← content chosen)

theorem choice_brace (alternatives : List (String × Content α)) (text : List Char) :
    choice alternatives ('\x7b' :: text) = choiceInObject alternatives text := by
  unfold choice
  rw [run_bind_ok (next?_cons rfl)]
  rfl

theorem exists_writeText (name : String) (rest : List Char) :
    ∃ body, (writeText name).toList ++ rest = '"' :: body :=
  ⟨name.toList.flatMap writeChar ++ '"' :: rest, by simp [writeText]⟩

/-- The text of an object of one field. -/
theorem toList_oneField (name body : String) (rest : List Char) :
    ("\x7b" ++ ",".intercalate [writeText name ++ ":" ++ body] ++ "\x7d").toList ++ rest =
      '\x7b' :: ((writeText name).toList ++ ':' :: (body.toList ++ '\x7d' :: rest)) := by
  simp

/-- **An alternative without content is read from its name.** -/
theorem choice_name {known : String}
    (h : alternatives.find? (·.1 == name) = some (known, .bare value)) :
    choice alternatives ((writeText name).toList ++ rest) = .ok (value, rest) := by
  have hname := text_spelled (spelled_writeText name rest)
  obtain ⟨body, hbody⟩ := exists_writeText name rest
  rw [hbody] at hname ⊢
  unfold choice
  rw [run_bind_ok (next?_cons rfl)]
  show (Reader.text >>= fun name => lookUp alternatives name >>= fun found => bareChoice found)
    _ = _
  rw [run_bind_ok hname, run_bind_ok (lookUp_of_find? h _)]
  rfl

/-- The content of an alternative, after the name that an object gives. -/
theorem choice_content {known : String} {found : Content α}
    (h : alternatives.find? (·.1 == name) = some (known, found)) (body : String)
    (rest : List Char) :
    choice alternatives
        (("\x7b" ++ ",".intercalate [writeText name ++ ":" ++ body] ++ "\x7d").toList ++ rest) =
      (content found >>= closeChoice) (body.toList ++ '\x7d' :: rest) := by
  have hname := text_spelled (spelled_writeText name (':' :: (body.toList ++ '\x7d' :: rest)))
  obtain ⟨key, hkey⟩ := exists_writeText name (':' :: (body.toList ++ '\x7d' :: rest))
  have hchoice : choiceName ((writeText name).toList ++ ':' :: (body.toList ++ '\x7d' :: rest)) =
      .ok (name, ':' :: (body.toList ++ '\x7d' :: rest)) := by
    rw [hkey] at hname ⊢
    unfold choiceName
    rw [run_bind_ok (next?_cons rfl)]
    exact hname
  rw [toList_oneField, choice_brace]
  unfold choiceInObject
  rw [run_bind_ok hchoice, run_bind_ok (lookUp_of_find? h _), run_bind_ok (colon_of_blanks (.refl _))]

/-- **An alternative with content is read from the one field of an object.** -/
theorem choice_object {known : String} {found : Content α} (body : String)
    (h : alternatives.find? (·.1 == name) = some (known, found))
    (hcontent : ∀ rest, Ends rest → content found (body.toList ++ rest) = .ok (value, rest)) :
    choice alternatives
      (("\x7b" ++ ",".intercalate [writeText name ++ ":" ++ body] ++ "\x7d").toList ++ rest) =
        .ok (value, rest) := by
  rw [choice_content h, run_bind_ok (hcontent _ (ends_cons (by decide) rest))]
  unfold closeChoice
  rw [run_bind_ok (next?_cons rfl)]
  rfl

theorem run_bind_error {a : Reader α} {f : α → Reader β} {error : ReadError} {text : List Char}
    (h : a text = .error error) : (a >>= f) text = .error error := by
  show (a text >>= fun pair => f pair.1 pair.2) = _
  rw [h]
  rfl

/-- Content that is refused refuses the alternative. -/
theorem choice_refused {known : String} {found : Content α} (body : String) {error : ReadError}
    (h : alternatives.find? (·.1 == name) = some (known, found))
    (hcontent : content found (body.toList ++ '\x7d' :: rest) = .error error) :
    choice alternatives
      (("\x7b" ++ ",".intercalate [writeText name ++ ":" ++ body] ++ "\x7d").toList ++ rest) =
        .error error := by
  rw [choice_content h, run_bind_error hcontent]

end Alternatives

/-! ## Records of one field -/

theorem record_brace {σ : Type} (form : RecordForm σ) (start : σ) (text : List Char) :
    record form start ('\x7b' :: text) = recordFromObject form start text := by
  unfold record
  rw [run_bind_ok (next?_cons rfl)]
  rfl

/-- **A record of one field is read from an object that has it.** -/
theorem record_field {σ : Type} (form : RecordForm σ) (field : Field σ) {start state : σ}
    (body : String) (hform : form.fields = [field])
    (hread : ∀ rest, Ends rest → field.read start (body.toList ++ rest) = .ok (state, rest)) :
    record form start
      (("\x7b" ++ ",".intercalate [writeText field.name ++ ":" ++ body] ++ "\x7d").toList ++ rest) =
        .ok (state, rest) := by
  have hname := text_spelled (spelled_writeText field.name (':' :: (body.toList ++ '\x7d' :: rest)))
  obtain ⟨key, hkey⟩ := exists_writeText field.name (':' :: (body.toList ++ '\x7d' :: rest))
  have hfind : form.fields.find? (·.name == field.name) = some field := by simp [hform]
  have hloop : fieldsLoop form.fields (key.length + 1 + 1) true [] start ('"' :: key) =
      .ok (([field.name], state), '\x7d' :: rest) := by
    rw [hkey] at hname
    rw [fieldsLoop, run_bind_ok (hasField_first (.refl _)), if_pos rfl, run_bind_ok hname, hfind]
    dsimp only
    rw [List.contains_nil, if_neg Bool.false_ne_true, run_bind_ok (colon_of_blanks (.refl _)),
      run_bind_ok (hread _ (ends_cons (by decide) rest)), fieldsLoop,
      run_bind_ok (hasField_closing (.refl _) false)]
    rfl
  have hpresent : (form.fields.find? fun other =>
      other.required && !([field.name] : List String).contains other.name) = none := by
    simp [hform]
  rw [toList_oneField, record_brace, hkey]
  unfold recordFromObject
  rw [run_bind_ok (run_get _), List.length_cons, run_bind_ok hloop]
  dsimp only
  rw [hpresent]
  rfl

end Reader

end Json

/-! ## Objects -/

theorem mem_wordsLoop_lt {size fuel n w : Nat} (h : w ∈ wordsLoop size fuel n) :
    w < 1 <<< size := by
  induction fuel generalizing n with
  | zero => simp [wordsLoop] at h
  | succ fuel ih =>
    unfold wordsLoop at h
    split at h
    · simp at h
    · rcases List.mem_cons.mp h with rfl | h
      · exact Nat.mod_lt _ (by rw [Nat.one_shiftLeft]; exact Nat.two_pow_pos size)
      · exact ih h

theorem beginsItem_toString (n : Int) : BeginsItem (toString n) := by
  obtain ⟨first, digits, hdigits⟩ :=
    List.exists_cons_of_ne_nil (Nat.toDigits_ne_nil (b := 10) (n := n.natAbs))
  have hfirst : first.isDigit = true := allDigits_toDigits n.natAbs first (by simp [hdigits])
  have hclose : first ≠ ']' := by
    rintro rfl
    cases hfirst
  unfold BeginsItem
  rw [toList_toString, hdigits]
  by_cases hneg : n < 0
  · rw [if_pos hneg]
    exact ⟨'-', first :: digits, rfl, rfl, by decide⟩
  · rw [if_neg hneg]
    exact ⟨first, digits, rfl, isBlank_of_isDigit hfirst, hclose⟩

theorem beginsItem_list (items : List String) :
    BeginsItem ("[" ++ ",".intercalate items ++ "]") :=
  ⟨'[', _, by rw [String.toList_append, String.toList_append]; rfl, rfl, by decide⟩

/-- The sign of an integer. -/
theorem signReader_toString (n : Int) (h : Ends rest) :
    signReader ((toString n.sign).toList ++ rest) = .ok (n.sign, rest) := by
  have hsign : n.sign = -1 ∨ n.sign = 0 ∨ n.sign = 1 := by
    rcases Int.lt_trichotomy n 0 with hn | rfl | hn
    · exact Or.inl (Int.sign_eq_neg_one_of_neg hn)
    · exact Or.inr (Or.inl rfl)
    · exact Or.inr (Or.inr (Int.sign_eq_one_of_pos hn))
  have hmin : Int8.minValue.toInt = -128 := by decide
  have hmax : Int8.maxValue.toInt = 127 := by decide
  unfold signReader
  rw [run_bind_ok (integer_toString (by omega) (by omega) h (by omega) (by omega) _), if_pos hsign]
  rfl

theorem Json.Document.compactItems_eq (items : List Document) :
    Document.compactItems items = items.map Document.compact := by
  induction items with
  | nil => rfl
  | cons item items ih => rw [Document.compactItems, ih, List.map_cons]

/-- The words of an integer as they are read. -/
theorem items_words (n : Nat) :
    items "a sequence of unsigned 32-bit numbers" (integer 0 (UInt32.size - 1) "u32")
        (("[" ++ ",".intercalate
          (((words writtenWordSize n).map Nat.cast).map fun w : Int => toString w) ++ "]").toList ++
            rest) =
      .ok ((words writtenWordSize n).map Nat.cast, rest) := by
  refine items_intercalate (fun w hw rest h => ?_) (fun w _ => beginsItem_toString w) _
  obtain ⟨w, hmem, rfl⟩ := List.mem_map.mp hw
  have hword : w < 2 ^ 32 := mem_wordsLoop_lt hmem
  have hsize : (UInt32.size : Int) = 2 ^ 32 := rfl
  exact integer_toString (by omega) (by omega) h (by omega) (by omega) _

/-- **An integer of any size is read from its sign and its words.** -/
theorem longReader_compact (n : Int) :
    longReader ((longDocument n).compact.toList ++ rest) = .ok (n, rest) := by
  have htext : (longDocument n).compact = "[" ++ ",".intercalate [toString n.sign,
      "[" ++ ",".intercalate (((words writtenWordSize n.natAbs).map Nat.cast).map
        fun w : Int => toString w) ++ "]"] ++ "]" := by
    simp only [longDocument, Document.compact, Document.compactItems_eq, List.map_cons, List.map_nil,
      List.map_map, Document.scalar?, Option.getD_some]
    rfl
  unfold longReader
  rw [htext, run_bind_ok (pair_comma (beginsItem_toString n.sign) (beginsItem_list _)
    (fun _ h => signReader_toString n h) (fun _ _ => items_words n.natAbs))]
  have hwords : ((words writtenWordSize n.natAbs).map Nat.cast).map Int.toNat =
      words writtenWordSize n.natAbs := by
    rw [List.map_map]
    exact List.map_id _
  dsimp only
  rw [hwords, ofWords_words (by decide), Int.sign_mul_natAbs]
  rfl

namespace Object

theorem bool_toString (value : Bool) (rest : List Char) :
    Reader.bool ((toString value).toList ++ rest) = .ok (value, rest) := by
  cases value <;> rfl

/-- The one field of an instance. -/
def typeNameField : Json.Field String := ⟨"type_name", fun _ => Reader.text, true⟩

theorem record_instance (typeName : String) (rest : List Char) :
    Reader.record instanceForm ""
      (("\x7b" ++ ",".intercalate [writeText typeNameField.name ++ ":" ++ writeText typeName] ++
        "\x7d").toList ++ rest) = .ok (typeName, rest) :=
  record_field instanceForm typeNameField (writeText typeName) rfl fun rest _ =>
    text_spelled (spelled_writeText typeName rest)

/-- An object other than a float is read from what is written for it. -/
theorem reader_compact {object : Object} (hfloat : ∀ x, object ≠ .float x) (rest : List Char) :
    reader (object.toDocument.compact.toList ++ rest) = .ok (object, rest) := by
  cases object with
  | none => exact choice_name rfl
  | notImplemented => exact choice_name rfl
  | bool value =>
    exact choice_object (toString value) rfl fun rest _ => run_map_ok _ (bool_toString value rest)
  | int value =>
    exact choice_object (toString value.toInt) rfl fun _ h => run_map_ok _ (int64_toString value h)
  | long value =>
    exact choice_object (longDocument value).compact rfl fun _ _ =>
      run_map_ok _ (longReader_compact value)
  | float x => exact absurd rfl (hfloat x)
  | instanceOf typeName =>
    exact choice_object
      ("\x7b" ++ ",".intercalate [writeText typeNameField.name ++ ":" ++ writeText typeName] ++ "\x7d")
      rfl fun rest _ => run_map_ok _ (record_instance typeName rest)

theorem decode_of_reader {read : Reader α} {x : α} {text : String}
    (h : read (text.toList ++ []) = .ok (x, [])) : decode read text = .ok x := by
  rw [List.append_nil] at h
  show (read text.toList >>= fun pair => _) = _
  rw [h]
  rfl

/-- **An object other than a float is read back.** -/
theorem ofJson_toJson {object : Object} (hfloat : ∀ x, object ≠ .float x) :
    ofJson object.toJson = .ok object :=
  decode_of_reader (reader_compact hfloat [])

/-- A finite float is read as what its digits are scaled to. -/
theorem ofJson_toJson_scaled {negative : Bool} {q : Nat} (hq : Representable q) {y : Double}
    (hy : scaled (Decimal.shortest q).shown.digits (Decimal.shortest q).shown.exponent = .ok y) :
    ofJson (toJson (.float (.finite negative q hq))) = .ok (.float (signed negative y)) :=
  decode_of_reader (choice_object (Layout.document.text (.finite negative q hq)) rfl fun _ h =>
    run_map_ok _ (double_scaled hq hy h))

/-- **A finite float is read back near what was written**, and as it was if few digits are shown. -/
theorem ofJson_toJson_float {x : Double} (hx : x.isFinite = true) :
    ∃ y, ofJson (toJson (.float x)) = .ok (.float y) ∧ x.WithinUnits 4 y ∧
      (x.IsShownShort → y = x) := by
  obtain ⟨y, hread, hnear, hexact⟩ := double_text hx
  refine ⟨y, decode_of_reader ?_, hnear, hexact⟩
  exact choice_object (Layout.document.text x) rfl fun rest h => run_map_ok _ (hread rest h)

/-- **A float that is not finite is not read back**: it is written as null, which is no float. -/
theorem ofJson_toJson_of_not_finite {x : Double} (hx : x.isFinite = false) :
    ofJson (toJson (.float x)) = .error (.invalidType .null "f64") := by
  have htext : Layout.document.text x = "null" := by
    cases x with
    | nan => rfl
    | infinite negative => cases negative <;> rfl
    | finite => cases hx
  have hrefused : reader ((toJson (.float x)).toList ++ []) = .error (.invalidType .null "f64") := by
    refine choice_refused (Layout.document.text x) rfl ?_
    rw [htext]
    rfl
  rw [List.append_nil] at hrefused
  show (reader (toJson (.float x)).toList >>= fun pair => _) = _
  rw [hrefused]
  rfl

end Object

theorem isShownShort_zero (negative : Bool) : (Double.zero negative).IsShownShort := by
  show (Decimal.shortest 0).shown.digits < 2 ^ 53 ∧ (Decimal.shortest 0).shown.exponent.natAbs ≤ 22
  decide

/-- **Objects are read back**, floats apart: a finite one is read back as a finite one of its sign, at
most four units in the last place away, and as it was if a short whole number and a short power of
ten are shown of it, as of both zeros; one that is not finite is refused. -/
theorem objects_read_back :
    (∀ object : Object, (∀ x, object ≠ .float x) → Object.ofJson object.toJson = .ok object) ∧
      (∀ x : Double, x.isFinite = true →
        ∃ y, Object.ofJson (Object.toJson (.float x)) = .ok (.float y) ∧ x.WithinUnits 4 y ∧
          (x.IsShownShort → y = x)) ∧
      (∀ negative, (Double.zero negative).IsShownShort) ∧
      (∀ x : Double, x.isFinite = false →
        Object.ofJson (Object.toJson (.float x)) = .error (.invalidType .null "f64")) :=
  ⟨fun _ => Object.ofJson_toJson, fun _ => Object.ofJson_toJson_float, isShownShort_zero,
    fun _ => Object.ofJson_toJson_of_not_finite⟩

/-- An infinity is not read back, and neither is a whole number that is shown in 54 bits. -/
theorem float_not_read_back :
    Object.ofJson (Object.toJson (.float (.infinite false))) ≠ .ok (.float (.infinite false)) ∧
      Object.ofJson (Object.toJson (.float (.ofInt 8000000000000001))) =
        .ok (.float (.ofInt 8000000000000002)) ∧
      Double.ofInt 8000000000000001 ≠ Double.ofInt 8000000000000002 := by
  have hx : Double.ofInt 8000000000000001 = .finite false (8000000000000001 * Double.unit) _ :=
    ofInt_of_lt (n := 8000000000000001) (by decide)
  have hy : Double.ofInt 8000000000000002 = .finite false (8000000000000002 * Double.unit) _ :=
    ofInt_of_lt (n := 8000000000000002) (by decide)
  have hshortest : Decimal.shortest (8000000000000001 * Double.unit) = ⟨8000000000000001, 0⟩ := by
    rw [Decimal.shortest_eq (by decide +kernel),
      Decimal.digitCount_eq (k := 1089) (by omega) (by decide +kernel) (by decide +kernel)]
    decide +kernel
  have hshown : (⟨8000000000000001, 0⟩ : Decimal).shown = ⟨80000000000000010, -1⟩ := by decide
  have hquanta : scaledQuanta 80000000000000010 (-1) = 8000000000000002 * Double.unit := by
    decide +kernel
  obtain ⟨hr, hscaled⟩ := scaled_eq (n := 80000000000000010) (by omega) (by omega) (by omega)
    (show scaledQuanta 80000000000000010 (-1) < overflowQuanta by decide +kernel)
  refine ⟨?_, ?_, ?_⟩
  · rw [Object.ofJson_toJson_of_not_finite (x := .infinite false) rfl]
    exact fun h => nomatch h
  · rw [hx, Object.ofJson_toJson_scaled _ (by rw [hshortest, hshown]; exact hscaled), hy]
    simp only [hquanta]
    rfl
  · intro heq
    have hquanta : 8000000000000001 * Double.unit = 8000000000000002 * Double.unit := by
      rw [hx, hy] at heq
      injection heq
    exact absurd (Nat.eq_of_mul_eq_mul_right Double.unit_pos hquanta) (by decide)

end FloorDivision
