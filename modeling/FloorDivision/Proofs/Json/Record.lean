import FloorDivision.Proofs.Json.Skip

/-!
# Records are read from objects

The fields of an object may stand in any order, with others between them that the record does not
have.

* `Reader.Reads` — what a record needs to know of its fields to be read.
* `fieldsLoop_member` — one field is read or passed over.
* `record_object` — the fields of an object are taken in turn.
-/

namespace FloorDivision.Json

open Grammar Reader

variable {σ : Type} {form : RecordForm σ} {spells : String → List Char → List Char → Prop}
  {take : String → σ → σ} {name : String} {names : List String}
  {text key afterKey afterColon value rest : List Char}

/-- A record is read from fields of this form: each known field is taken as it says, and others
hold a value of any kind and change nothing. -/
structure Reader.Reads (form : RecordForm σ) (spells : String → List Char → List Char → Prop)
    (take : String → σ → σ) : Prop where
  known : ∀ {field : Field σ} {text value rest : List Char}, field ∈ form.fields →
    Blanks text value → spells field.name value rest → Ends rest →
      ∀ state, field.read state text = .ok (take field.name state, rest)
  unknown : ∀ {name : String} {text rest : List Char}, name ∉ form.fields.map (·.name) →
    spells name text rest → ValueText text rest ∧ ∀ state, take name state = state
  optional : ∀ field ∈ form.fields, field.required = false
  length_le : ∀ {name : String} {text rest : List Char}, spells name text rest → Ends rest →
    rest.length ≤ text.length

theorem hasField_first (h : Blanks text ('"' :: key)) :
    hasField true text = .ok (true, '"' :: key) := by
  unfold hasField
  rw [run_bind_ok (next?_of_blanks h rfl)]
  rfl

/-- Whether a field follows the comma that has been read. -/
def hasFieldAfterComma : Reader Bool := do
  match ← next? with
  | none => fail .endInValue
  | some '"' => return true
  | some '\x7d' => fail .trailingComma
  | some _ => fail .keyNotText

theorem hasField_next {before : List Char} (hcomma : Blanks before (',' :: text))
    (h : Blanks text ('"' :: key)) : hasField false before = .ok (true, '"' :: key) := by
  unfold hasField
  rw [run_bind_ok (next?_of_blanks hcomma rfl)]
  show hasFieldAfterComma text = _
  unfold hasFieldAfterComma
  rw [run_bind_ok (next?_of_blanks h rfl)]
  rfl

theorem hasField_closing (h : Blanks text ('\x7d' :: rest)) (isFirst : Bool) :
    hasField isFirst text = .ok (false, '\x7d' :: rest) := by
  unfold hasField
  rw [run_bind_ok (next?_of_blanks h rfl)]
  rfl

theorem colon_of_blanks (h : Blanks text (':' :: rest)) : colon text = .ok ((), rest) := by
  unfold colon
  rw [run_bind_ok (next?_of_blanks h rfl)]
  rfl

/-- A name that is among the fields of a record, or one that is not. -/
theorem find?_cases (fields : List (Field σ)) (name : String) :
    (∃ field ∈ fields, field.name = name ∧ fields.find? (·.name == name) = some field) ∨
      name ∉ fields.map (·.name) ∧ fields.find? (·.name == name) = none := by
  cases hfind : fields.find? (·.name == name) with
  | none =>
    refine Or.inr ⟨fun hname => ?_, rfl⟩
    obtain ⟨field, hfield, rfl⟩ := List.mem_map.mp hname
    simpa using List.find?_eq_none.mp hfind field hfield
  | some field =>
    refine Or.inl ⟨field, List.mem_of_find?_eq_some hfind, ?_, rfl⟩
    simpa using List.find?_some hfind

/-- **A field is read or passed over.** -/
theorem fieldsLoop_member (hreads : Reads form spells take) (h : Member spells name text rest)
    (hends : Ends rest) {isFirst : Bool} {before : List Char} {seen : List String}
    (hfield : ∀ key, Blanks text ('"' :: key) → hasField isFirst before = .ok (true, '"' :: key))
    (hseen : (∃ field ∈ form.fields, field.name = name) → name ∉ seen) (fuel : Nat) (state : σ) :
    ∃ seen', (∀ other, other ∈ seen' → other ∈ seen ∨ other = name) ∧
      fieldsLoop form.fields (fuel + 1) isFirst seen state before =
        fieldsLoop form.fields fuel false seen' (take name state) rest := by
  obtain ⟨hblanks, hkey, hcolon, hvalueBlanks, hvalue⟩ := h
  have hkey' := text_spelled hkey
  obtain ⟨-⟩ := hkey
  conv in fieldsLoop _ (fuel + 1) _ _ _ => unfold fieldsLoop
  rw [run_bind_ok (hfield _ hblanks), if_pos rfl, run_bind_ok hkey']
  rcases find?_cases form.fields name with ⟨field, hmem, rfl, hfind⟩ | ⟨hnone, hfind⟩
  · have hfresh : seen.contains field.name = false := by simpa using hseen ⟨field, hmem, rfl⟩
    refine ⟨field.name :: seen, fun other hother => (List.mem_cons.mp hother).symm, ?_⟩
    rw [hfind]
    dsimp only
    rw [hfresh, if_neg Bool.false_ne_true, run_bind_ok (colon_of_blanks hcolon),
      run_bind_ok (hreads.known hmem hvalueBlanks hvalue hends state)]
  · obtain ⟨hany, htake⟩ := hreads.unknown hnone hvalue
    refine ⟨seen, fun _ => Or.inl, ?_⟩
    rw [hfind]
    dsimp only
    rw [run_bind_ok (colon_of_blanks hcolon),
      run_bind_ok (skipValue_value hvalueBlanks hany hends), htake]

/-! ## All fields -/

theorem ends_brace (h : Blanks text ('\x7d' :: rest)) : Ends text :=
  @ends_closing text rest .object h

/-- **The fields of an object are taken in turn**, each known one once at most. -/
theorem fieldsLoop_members (hreads : Reads form spells take) (h : Members spells names text rest)
    {isFirst : Bool} {before : List Char} {seen : List String} {fuel : Nat} (state : σ)
    (hfield : ∀ key, Blanks text ('"' :: key) → hasField isFirst before = .ok (true, '"' :: key))
    (honce : ∀ field ∈ form.fields, names.count field.name ≤ 1 ∧
      (field.name ∈ seen → field.name ∉ names))
    (hfuel : names.length < fuel) :
    ∃ seen', fieldsLoop form.fields fuel isFirst seen state before =
      .ok ((seen', names.foldl (fun state name => take name state) state), '\x7d' :: rest) := by
  induction h generalizing isFirst before seen fuel state with
  | @last name _ afterMember _ hmember hclosing =>
    obtain ⟨fuel, rfl⟩ : ∃ k, fuel = k + 2 := ⟨fuel - 2, by simp at hfuel; omega⟩
    obtain ⟨seen', -, hloop⟩ := fieldsLoop_member hreads hmember (ends_brace hclosing) hfield
      (fun ⟨field, hmem, hname⟩ hseen => (honce field hmem).2 (hname ▸ hseen) (by simp [hname]))
      (fuel + 1) state
    refine ⟨seen', ?_⟩
    rw [hloop, fieldsLoop, run_bind_ok (hasField_closing hclosing false)]
    rfl
  | @next name names _ afterMember text' _ hmember hcomma _ ih =>
    obtain ⟨fuel, rfl⟩ : ∃ k, fuel = k + 1 := ⟨fuel - 1, by omega⟩
    obtain ⟨seen', hseen', hloop⟩ := fieldsLoop_member hreads hmember (ends_comma hcomma) hfield
      (fun ⟨field, hmem, hname⟩ hseen => (honce field hmem).2 (hname ▸ hseen) (by simp [hname]))
      fuel state
    have honce' : ∀ field ∈ form.fields, names.count field.name ≤ 1 ∧
        (field.name ∈ seen' → field.name ∉ names) := by
      intro field hmem
      obtain ⟨hcount, hfresh⟩ := honce field hmem
      refine ⟨Nat.le_trans List.count_le_count_cons hcount, fun hin => ?_⟩
      rcases hseen' _ hin with hin | hname
      · exact fun hlater => hfresh hin (List.mem_cons_of_mem _ hlater)
      · rw [hname, List.count_cons_self] at hcount
        exact hname ▸ List.count_eq_zero.mp (by omega)
    obtain ⟨seen'', hrest⟩ := ih (take name state) (fun key => hasField_next hcomma) honce'
      (by simpa using hfuel)
    exact ⟨seen'', hloop.trans hrest⟩

theorem Grammar.Member.length_lt (hreads : Reads form spells take)
    (h : Member spells name text rest) (hends : Ends rest) : rest.length < text.length := by
  obtain ⟨hblanks, hkey, hcolon, hvalueBlanks, hvalue⟩ := h
  have := hblanks.length_le
  have := hkey.length_lt
  have := hcolon.length_le
  have := hvalueBlanks.length_le
  have := hreads.length_le hvalue hends
  simp only [List.length_cons] at *
  omega

/-- There are no more fields than characters. -/
theorem Grammar.Members.length_lt (hreads : Reads form spells take)
    (h : Members spells names text rest) : names.length + rest.length < text.length := by
  induction h with
  | last hmember hclosing =>
    have := hmember.length_lt hreads (ends_brace hclosing)
    have := hclosing.length_le
    simp only [List.length_cons, List.length_nil] at *
    omega
  | next hmember hcomma _ ih =>
    have := hmember.length_lt hreads (ends_comma hcomma)
    have := hcomma.length_le
    simp only [List.length_cons] at *
    omega

theorem Grammar.ObjectText.length_le (hreads : Reads form spells take)
    (h : ObjectText spells names text rest) : rest.length ≤ text.length := by
  cases h with
  | empty hclosing =>
    have := hclosing.length_le
    simp only [List.length_cons] at *
    omega
  | filled hmembers =>
    have := hmembers.length_lt hreads
    simp only [List.length_cons]
    omega

/-- **A record is read from an object**: its fields are taken in turn. -/
theorem record_object (hreads : Reads form spells take) (h : ObjectText spells names text rest)
    {before : List Char} (hblanks : Blanks before text)
    (honce : ∀ field ∈ form.fields, names.count field.name ≤ 1) (start : σ) :
    record form start before =
      .ok (names.foldl (fun state name => take name state) start, rest) := by
  have hloop : ∀ inner, text = '\x7b' :: inner →
      ∃ seen, fieldsLoop form.fields (inner.length + 1) true [] start inner =
        .ok ((seen, names.foldl (fun state name => take name state) start), '\x7d' :: rest) := by
    rintro inner rfl
    cases h with
    | empty hclosing =>
      refine ⟨[], ?_⟩
      rw [fieldsLoop, run_bind_ok (hasField_closing hclosing true)]
      rfl
    | filled hmembers =>
      have := hmembers.length_lt hreads
      exact fieldsLoop_members hreads hmembers start (fun key => hasField_first)
        (fun field hmem => ⟨honce field hmem, by simp⟩) (by omega)
  have hrequired : ∀ seen : List String,
      (form.fields.find? fun field => field.required && !seen.contains field.name) = none := by
    intro seen
    rw [List.find?_eq_none]
    intro field hmem
    simp [hreads.optional field hmem]
  obtain ⟨inner, rfl⟩ : ∃ inner, text = '\x7b' :: inner := by
    cases h with
    | empty | filled => exact ⟨_, rfl⟩
  obtain ⟨seen, hseen⟩ := hloop inner rfl
  unfold record
  rw [run_bind_ok (next?_of_blanks hblanks rfl)]
  show recordFromObject form start inner = _
  unfold recordFromObject
  rw [run_bind_ok (run_get inner), run_bind_ok hseen]
  dsimp only
  rw [hrequired]
  rfl

end FloorDivision.Json
