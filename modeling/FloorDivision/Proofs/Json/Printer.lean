import FloorDivision.Json.Document
import FloorDivision.Proofs.Json.Reading

/-!
# Documents are written by the grammar

* `spelled_writeText` — a text is written so that it spells itself.
* `object_prettyAt` — an object is written on lines of its own, with its fields in order.
-/

namespace FloorDivision.Json

open Grammar

/-! ## Texts -/

/-- A control character is written by its number. -/
theorem hexQuad_control {c : Char} (h : c < ' ') (rest : List Char) :
    HexQuad ('0' :: '0' :: Nat.digitChar (c.toNat / 16) :: Nat.digitChar (c.toNat % 16) :: rest)
      c.toNat rest := by
  have hc : c.toNat < 32 := h
  have hzero : HexDigit '0' 0 := ⟨by decide, Or.inl rfl⟩
  have hhigh : HexDigit (Nat.digitChar (c.toNat / 16)) (c.toNat / 16) := ⟨by omega, Or.inl rfl⟩
  have hlow : HexDigit (Nat.digitChar (c.toNat % 16)) (c.toNat % 16) := ⟨by omega, Or.inl rfl⟩
  have hquad := HexQuad.mk rest hzero hzero hhigh hlow
  rwa [show 4096 * 0 + 256 * 0 + 16 * (c.toNat / 16) + c.toNat % 16 = c.toNat by omega] at hquad

theorem spelledChar_writeChar (c : Char) (rest : List Char) :
    SpelledChar c (writeChar c ++ rest) rest := by
  unfold writeChar
  split
  · exact .letter rest (by decide)
  · exact .letter rest (by decide)
  · exact .letter rest (by decide)
  · exact .letter rest (by decide)
  · exact .letter rest (by decide)
  · exact .letter rest (by decide)
  · exact .letter rest (by decide)
  · split
    · rename_i hcontrol
      exact .number (hexQuad_control hcontrol rest)
    · rename_i hcontrol
      exact .plain rest (Char.not_lt.mp hcontrol) ‹_› ‹_›

/-- **A text is written so that it spells itself.** -/
theorem spelled_writeText (text : String) (rest : List Char) :
    Spelled text ((writeText text).toList ++ rest) rest := by
  have hchars : ∀ chars : List Char,
      SpelledChars chars (chars.flatMap writeChar ++ '"' :: rest) rest := by
    intro chars
    induction chars with
    | nil => exact .close rest
    | cons c chars ih =>
      rw [List.flatMap_cons, List.append_assoc]
      exact .cons (spelledChar_writeChar c _) ih
  have htext : (writeText text).toList ++ rest =
      '"' :: (text.toList.flatMap writeChar ++ '"' :: rest) := by
    simp [writeText]
  rw [htext]
  exact .mk (hchars _)

/-! ## Lines -/

theorem blanks_newLine (depth : Nat) (rest : List Char) :
    Blanks ((Document.newLine depth).toList ++ rest) rest := by
  refine ⟨(Document.newLine depth).toList, ?_, rfl⟩
  intro c hc
  simp only [Document.newLine, String.toList_append, String.toList_ofList, List.mem_append,
    List.mem_replicate] at hc
  rcases hc with hc | ⟨-, rfl⟩
  · simp at hc
    simp [hc]
  · simp

/-! ## Objects -/

namespace Document

variable {spells : String → List Char → List Char → Prop} {depth : Nat}

theorem member_line {name : String} {value : Document} {rest : List Char}
    (h : spells name ((value.prettyAt depth).toList ++ rest) rest) :
    Member spells name
      ((newLine depth ++ (writeText name ++ ": " ++ value.prettyAt depth)).toList ++ rest)
      rest := by
  have htext : (newLine depth ++ (writeText name ++ ": " ++ value.prettyAt depth)).toList ++ rest =
      (newLine depth).toList ++ ((writeText name).toList ++
        (':' :: ' ' :: ((value.prettyAt depth).toList ++ rest))) := by
    simp
  rw [htext]
  exact .mk (blanks_newLine depth _) (spelled_writeText name _) (.refl _)
    ⟨[' '], by simp, rfl⟩ h

/-- Fields are written one a line, with a comma after each but the last. -/
theorem members_lines {fields : List (String × Document)} (hne : fields ≠ []) {last : List Char}
    {rest : List Char}
    (hlast : Blanks last ('\x7d' :: rest))
    (h : ∀ name value, (name, value) ∈ fields → ∀ rest,
      spells name ((value.prettyAt depth).toList ++ rest) rest) :
    Members spells (fields.map Prod.fst)
      ((newLine depth ++ ("," ++ newLine depth).intercalate (prettyFields depth fields)).toList ++
        last) rest := by
  induction fields with
  | nil => exact absurd rfl hne
  | cons field others ih =>
    obtain ⟨name, value⟩ := field
    have hline := fun rest => member_line (h name value (by simp) rest)
    cases others with
    | nil =>
      rw [prettyFields, prettyFields, String.intercalate_singleton]
      exact .last (hline last) hlast
    | cons other others =>
      have hothers := ih (by simp) fun name value hmem => h name value (List.mem_cons_of_mem _ hmem)
      have htext : (newLine depth ++ ("," ++ newLine depth).intercalate
            (prettyFields depth ((name, value) :: other :: others))).toList ++ last =
          (newLine depth ++ (writeText name ++ ": " ++ value.prettyAt depth)).toList ++
            ',' :: ((newLine depth ++ ("," ++ newLine depth).intercalate
              (prettyFields depth (other :: others))).toList ++ last) := by
        simp only [prettyFields, String.intercalate_cons_cons]
        simp
      rw [htext]
      exact .next (hline _) (.refl _) hothers

/-- **An object is written with its fields in order.** -/
theorem object_prettyAt {fields : List (String × Document)} {names : List String}
    (hnames : fields.map Prod.fst = names) (hne : names ≠ [])
    (h : ∀ name value, (name, value) ∈ fields → ∀ rest,
      spells name ((value.prettyAt (depth + 1)).toList ++ rest) rest) (rest : List Char) :
    ObjectText spells names (((object fields).prettyAt depth).toList ++ rest) rest := by
  subst hnames
  have hne : fields ≠ [] := by simpa using hne
  have hlines : (prettyFields (depth + 1) fields).isEmpty = false := by
    cases fields with
    | nil => exact absurd rfl hne
    | cons => rfl
  have hclosing : Blanks ((newLine depth).toList ++ '\x7d' :: rest) ('\x7d' :: rest) :=
    blanks_newLine depth _
  have hmembers := members_lines hne hclosing h
  have htext : ((object fields).prettyAt depth).toList ++ rest =
      '\x7b' :: ((newLine (depth + 1) ++ ("," ++ newLine (depth + 1)).intercalate
        (prettyFields (depth + 1) fields)).toList ++
          ((newLine depth).toList ++ '\x7d' :: rest)) := by
    rw [prettyAt, bracketed, hlines]
    simp
  rw [htext]
  exact .filled hmembers

end Document

end FloorDivision.Json
