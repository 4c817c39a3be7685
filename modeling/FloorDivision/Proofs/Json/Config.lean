import FloorDivision.Json.Config
import FloorDivision.Proofs.Json.Printer
import FloorDivision.Proofs.Json.Record
import Mathlib.Data.List.TakeWhile

/-!
# Configurations are read from their documents

A document lists some of the fields of a configuration, in any order and in any layout, among fields
that a configuration does not have.

* `Limits.Lists`, `Config.Lists` — the documents that list chosen fields.
* `Limits.onDefault`, `Config.onDefault` — the default with chosen fields taken over.
* `Limits.record_lists`, `Config.ofJson_lists` — what is read from such documents.
* `Config.lists_toJson` — a configuration is written as a document that lists all its fields.
* `documents_configure` — both together.
-/

namespace FloorDivision

open Json Json.Grammar Json.Reader

/-- Among the names those of the fields that are chosen stand once, and those of other fields not
at all. -/
def Once (fields chosen names : List String) : Prop :=
  ∀ name ∈ fields, names.count name = if name ∈ chosen then 1 else 0

instance (fields chosen names : List String) : Decidable (Once fields chosen names) :=
  List.decidableBAll (fun name => names.count name = if name ∈ chosen then 1 else 0) fields

theorem Once.mem_iff {fields chosen names : List String} (h : Once fields chosen names)
    {name : String} (hname : name ∈ fields) : name ∈ names ↔ name ∈ chosen := by
  have hcount := h name hname
  rw [← List.count_pos_iff, hcount]
  split <;> simp [*]

/-- No field of a record stands twice. -/
theorem Once.count_field {fields chosen names : List String} (h : Once fields chosen names)
    {σ : Type} {form : RecordForm σ} (hform : form.fields.map (·.name) = fields) :
    ∀ field ∈ form.fields, names.count field.name ≤ 1 := by
  intro field hfield
  rw [h field.name (hform ▸ List.mem_map_of_mem hfield)]
  split <;> omega

/-! ## Limits -/

/-- A bound is written as its digits, and null stands for none. -/
inductive BoundText : Option UInt64 → List Char → List Char → Prop where
  | absent (rest : List Char) : BoundText none ("null".toList ++ rest) rest
  | bound (n : UInt64) (rest : List Char) :
      BoundText (some n) (Nat.toDigits 10 n.toNat ++ rest) rest

namespace Limits

def fieldNames : List String := ["max_allocations", "max_memory", "max_recursion_depth"]

/-- The values of the fields of an object: those of the limits, and any for other fields. -/
def HasField (limits : Limits) : String → List Char → List Char → Prop
  | "max_allocations" => BoundText limits.maxAllocations
  | "max_memory" => BoundText limits.maxMemory
  | "max_recursion_depth" => BoundText limits.maxDepth
  | _ => ValueText

/-- An object that lists the chosen limits. -/
def Lists (limits : Limits) (chosen : List String) (text rest : List Char) : Prop :=
  ∃ names, ObjectText limits.HasField names text rest ∧ Once fieldNames chosen names

/-- No limits but the chosen ones. -/
def onDefault (limits : Limits) (chosen : List String) : Limits where
  maxAllocations := if "max_allocations" ∈ chosen then limits.maxAllocations else none
  maxMemory := if "max_memory" ∈ chosen then limits.maxMemory else none
  maxDepth := if "max_recursion_depth" ∈ chosen then limits.maxDepth else none

/-- One field is taken over. -/
def take (limits : Limits) (name : String) (state : Limits) : Limits where
  maxAllocations := if name = "max_allocations" then limits.maxAllocations else state.maxAllocations
  maxMemory := if name = "max_memory" then limits.maxMemory else state.maxMemory
  maxDepth := if name = "max_recursion_depth" then limits.maxDepth else state.maxDepth

end Limits

theorem ignoresBlanks_uint64 : uint64.IgnoresBlanks :=
  ((ignoresBlanks_next?.bind _).bind _).map _

variable {text value rest : List Char}

theorem optional_of_ne {α : Type} {read : Reader α} {c : Char} (h : Blanks text (c :: rest))
    (hc : isBlank c = false) (hn : c ≠ 'n') :
    Reader.optional read text = (some <$> read) (c :: rest) := by
  unfold Reader.optional
  rw [run_bind_ok (next?_of_blanks h hc)]
  generalize hfound : some c = found
  split
  · cases hfound
    exact absurd rfl hn
  · rfl

theorem optional_bound {bound : Option UInt64} (hblanks : Blanks text value)
    (h : BoundText bound value rest) (hends : Ends rest) :
    Reader.optional uint64 text = .ok (bound, rest) := by
  cases h with
  | absent =>
    unfold Reader.optional
    rw [run_bind_ok (next?_of_blanks hblanks rfl)]
    rfl
  | bound n =>
    obtain ⟨c, digits, hdigits⟩ := List.exists_cons_of_ne_nil (Nat.toDigits_ne_nil (n := n.toNat))
    have hc : c.isDigit = true := allDigits_toDigits n.toNat c (by rw [hdigits]; simp)
    have hn : c ≠ 'n' := by
      rintro rfl
      cases hc
    have hread := run_map_ok some (uint64_digits n hends)
    rw [hdigits, List.cons_append] at hblanks hread
    rw [optional_of_ne hblanks (isBlank_of_isDigit hc) hn, hread]

theorem BoundText.length_le {bound : Option UInt64} (h : BoundText bound text rest) :
    rest.length ≤ text.length := by
  cases h <;> rw [List.length_append] <;> omega

namespace Limits

variable {limits : Limits}

theorem names_form : form.fields.map (·.name) = fieldNames := rfl

theorem hasField_other {name : String} (h : name ∉ fieldNames) :
    limits.HasField name = ValueText := by
  simp only [fieldNames, List.mem_cons, List.not_mem_nil, or_false, not_or] at h
  unfold HasField
  split
  · exact absurd rfl h.1
  · exact absurd rfl h.2.1
  · exact absurd rfl h.2.2
  · rfl

theorem reads_form (limits : Limits) : Reads form limits.HasField limits.take where
  known := by
    intro field text value rest hmem hblanks hvalue hends state
    simp only [form, List.mem_cons, List.not_mem_nil, or_false] at hmem
    rcases hmem with rfl | rfl | rfl <;>
      exact (run_map_ok _ (optional_bound hblanks hvalue hends)).trans (by simp [take])
  unknown := by
    intro name text rest hother hvalue
    rw [names_form] at hother
    rw [hasField_other hother] at hvalue
    simp only [fieldNames, List.mem_cons, List.not_mem_nil, or_false, not_or] at hother
    simp [take, hother, hvalue]
  optional := by simp [form]
  length_le := by
    intro name text rest h hends
    unfold HasField at h
    split at h
    · exact h.length_le
    · exact h.length_le
    · exact h.length_le
    · exact h.length_le hends

/-- Only the names that limits have matter. -/
theorem onDefault_congr {names chosen : List String}
    (h : ∀ name ∈ fieldNames, (name ∈ names ↔ name ∈ chosen)) :
    limits.onDefault names = limits.onDefault chosen := by
  have hallocations := h "max_allocations" (by decide)
  have hmemory := h "max_memory" (by decide)
  have hdepth := h "max_recursion_depth" (by decide)
  simp only [onDefault, hallocations, hmemory, hdepth]

theorem foldl_take (names : List String) (state : Limits) :
    names.foldl (fun state name => limits.take name state) state =
      { maxAllocations :=
          if "max_allocations" ∈ names then limits.maxAllocations else state.maxAllocations
        maxMemory := if "max_memory" ∈ names then limits.maxMemory else state.maxMemory
        maxDepth :=
          if "max_recursion_depth" ∈ names then limits.maxDepth else state.maxDepth } := by
  induction names generalizing state with
  | nil => simp
  | cons name names ih =>
    rw [List.foldl_cons, ih]
    simp only [take, List.mem_cons, Limits.mk.injEq]
    grind

/-- **The limits that an object lists are taken over.** -/
theorem record_lists {chosen : List String} {before : List Char} (hblanks : Blanks before text)
    (h : limits.Lists chosen text rest) :
    Reader.record form {} before = .ok (limits.onDefault chosen, rest) := by
  obtain ⟨names, hobject, honce⟩ := h
  rw [← onDefault_congr fun name => honce.mem_iff,
    record_object (reads_form limits) hobject hblanks (honce.count_field names_form), foldl_take]
  rfl

end Limits

/-! ## Configurations -/

theorem Level.reader_name {level : Level} (hblanks : Blanks text value)
    (h : Spelled level.name value rest) : Level.reader text = .ok (level, rest) := by
  have htext := text_spelled h
  cases h
  unfold Level.reader Reader.choice
  rw [run_bind_ok (next?_of_blanks hblanks rfl)]
  show (Reader.text >>= fun name =>
    lookUp (Level.all.map fun level => (level.name, .bare level)) name >>= bareChoice) _ = _
  rw [run_bind_ok htext]
  cases level <;> rfl

namespace Config

def fieldNames : List String := ["level", "limits", "heap_capacity"]

/-- The values of the fields of a document: those of the configuration, of its limits only chosen
ones, and any for other fields. -/
def HasField (config : Config) (chosenLimits : List String) :
    String → List Char → List Char → Prop
  | "level" => Spelled config.level.name
  | "limits" => config.limits.Lists chosenLimits
  | "heap_capacity" => fun text rest => text = Nat.toDigits 10 config.heapCapacity.toNat ++ rest
  | _ => ValueText

/-- A document that lists the chosen fields of a configuration, and of its limits chosen ones. -/
def Lists (config : Config) (chosen chosenLimits : List String) (document : String) : Prop :=
  ∃ names object after, Blanks document.toList object ∧
    ObjectText (config.HasField chosenLimits) names object after ∧ Blanks after [] ∧
      Once fieldNames chosen names

/-- The default configuration but for the chosen fields. -/
def onDefault (config : Config) (chosen chosenLimits : List String) : Config where
  level := if "level" ∈ chosen then config.level else ({} : Config).level
  limits :=
    if "limits" ∈ chosen then config.limits.onDefault chosenLimits else ({} : Config).limits
  heapCapacity :=
    if "heap_capacity" ∈ chosen then config.heapCapacity else ({} : Config).heapCapacity

/-- One field is taken over. -/
def take (config : Config) (chosenLimits : List String) (name : String) (state : Config) :
    Config where
  level := if name = "level" then config.level else state.level
  limits := if name = "limits" then config.limits.onDefault chosenLimits else state.limits
  heapCapacity := if name = "heap_capacity" then config.heapCapacity else state.heapCapacity

variable {config : Config} {chosen chosenLimits : List String}

theorem names_form : form.fields.map (·.name) = fieldNames := rfl

theorem hasField_other {name : String} (h : name ∉ fieldNames) :
    config.HasField chosenLimits name = ValueText := by
  simp only [fieldNames, List.mem_cons, List.not_mem_nil, or_false, not_or] at h
  unfold HasField
  split
  · exact absurd rfl h.1
  · exact absurd rfl h.2.1
  · exact absurd rfl h.2.2
  · rfl

theorem reads_form (config : Config) (chosenLimits : List String) :
    Reads form (config.HasField chosenLimits) (config.take chosenLimits) where
  known := by
    intro field text value rest hmem hblanks hvalue hends state
    simp only [form, List.mem_cons, List.not_mem_nil, or_false] at hmem
    rcases hmem with rfl | rfl | rfl
    · refine (run_map_ok _ (Level.reader_name hblanks hvalue)).trans ?_
      simp [take]
    · refine (run_map_ok _ (Limits.record_lists hblanks hvalue)).trans ?_
      simp [take]
    · have hdigits : uint64 text = .ok (config.heapCapacity, rest) := by
        rw [ignoresBlanks_uint64 hblanks, show value = _ from hvalue]
        exact uint64_digits _ hends
      refine (run_map_ok _ hdigits).trans ?_
      simp [take]
  unknown := by
    intro name text rest hother hvalue
    rw [names_form] at hother
    rw [hasField_other hother] at hvalue
    simp only [fieldNames, List.mem_cons, List.not_mem_nil, or_false, not_or] at hother
    simp [take, hother, hvalue]
  optional := by simp [form]
  length_le := by
    intro name text rest h hends
    unfold HasField at h
    split at h
    · exact h.length_lt.le
    · obtain ⟨_, hobject, -⟩ := h
      exact hobject.length_le (Limits.reads_form _)
    · rw [h, List.length_append]
      omega
    · exact h.length_le hends

/-- Only the names that configurations have matter. -/
theorem onDefault_congr {names chosen : List String}
    (h : ∀ name ∈ fieldNames, (name ∈ names ↔ name ∈ chosen)) :
    config.onDefault names chosenLimits = config.onDefault chosen chosenLimits := by
  have hlevel := h "level" (by decide)
  have hlimits := h "limits" (by decide)
  have hcapacity := h "heap_capacity" (by decide)
  simp only [onDefault, hlevel, hlimits, hcapacity]

theorem foldl_take (names : List String) (state : Config) :
    names.foldl (fun state name => config.take chosenLimits name state) state =
      { level := if "level" ∈ names then config.level else state.level
        limits := if "limits" ∈ names then config.limits.onDefault chosenLimits else state.limits
        heapCapacity :=
          if "heap_capacity" ∈ names then config.heapCapacity else state.heapCapacity } := by
  induction names generalizing state with
  | nil => simp
  | cons name names ih =>
    rw [List.foldl_cons, ih]
    simp only [take, List.mem_cons, Config.mk.injEq]
    grind

/-- **The fields that a document lists are taken over**, however it lists them. -/
theorem ofJson_lists {document : String} (h : config.Lists chosen chosenLimits document) :
    ofJson document = .ok (config.onDefault chosen chosenLimits) := by
  obtain ⟨names, object, after, hbefore, hobject, hafter, honce⟩ := h
  have hread := record_object (reads_form config chosenLimits) hobject hbefore
    (honce.count_field names_form) {}
  have hend : after.dropWhile isBlank = [] := by
    obtain ⟨blanks, hblanks, rfl⟩ := hafter
    rw [List.append_nil, List.dropWhile_eq_nil_iff]
    exact fun c hc => (isBlank_iff c).mpr (hblanks c hc)
  have hdecode : decode (record form {}) document = .ok (config.onDefault chosen chosenLimits) := by
    rw [← onDefault_congr fun name => honce.mem_iff]
    show (record form {} document.toList >>= fun pair => _) = _
    rw [hread, foldl_take]
    show (if (after.dropWhile isBlank).isEmpty = true then _ else _) = _
    rw [hend, if_pos List.isEmpty_nil]
    rfl
  unfold ofJson
  rw [hdecode]

/-! ## Written configurations -/

end Config

theorem Once.all {fields : List String} (h : fields.Nodup) : Once fields fields fields := by
  intro name hname
  rw [if_pos hname, h.count, if_pos hname]

/-- A natural number is written as its digits. -/
theorem toString_natCast (n : Nat) : (toString (n : Int)).toList = Nat.toDigits 10 n := by
  simp [toString, Int.repr, Nat.repr]

theorem boundText_document (bound : Option UInt64) (depth : Nat) (rest : List Char) :
    BoundText bound (((boundDocument bound).prettyAt depth).toList ++ rest) rest := by
  cases bound with
  | none => exact .absent rest
  | some n =>
    show BoundText _ ((toString (n.toNat : Int)).toList ++ rest) rest
    rw [toString_natCast]
    exact .bound n rest

theorem Limits.lists_toDocument (limits : Limits) (depth : Nat) (rest : List Char) :
    limits.Lists fieldNames ((limits.toDocument.prettyAt depth).toList ++ rest) rest := by
  refine ⟨fieldNames, Document.object_prettyAt (by rfl) (by decide) ?_ rest, .all (by decide)⟩
  intro name value hmem rest
  simp only [List.mem_cons, List.not_mem_nil, or_false, Prod.mk.injEq] at hmem
  rcases hmem with ⟨rfl, rfl⟩ | ⟨rfl, rfl⟩ | ⟨rfl, rfl⟩ <;> exact boundText_document _ _ rest

theorem Config.object_toJson (config : Config) :
    ObjectText (config.HasField Limits.fieldNames) fieldNames (config.toJson.toList ++ []) [] := by
  refine Document.object_prettyAt (by rfl) (by decide) ?_ []
  intro name value hmem rest
  simp only [List.mem_cons, List.not_mem_nil, or_false, Prod.mk.injEq] at hmem
  rcases hmem with ⟨rfl, rfl⟩ | ⟨rfl, rfl⟩ | ⟨rfl, rfl⟩
  · exact spelled_writeText config.level.name rest
  · exact config.limits.lists_toDocument 1 rest
  · show (toString (config.heapCapacity.toNat : Int)).toList ++ rest = _
    rw [toString_natCast]

/-- **A configuration is written as a document that lists all its fields.** -/
theorem Config.lists_toJson (config : Config) :
    config.Lists fieldNames Limits.fieldNames config.toJson := by
  have hobject := config.object_toJson
  rw [List.append_nil] at hobject
  exact ⟨fieldNames, _, [], .refl _, hobject, .refl _, .all (by decide)⟩

theorem Config.onDefault_all (config : Config) :
    config.onDefault fieldNames Limits.fieldNames = config := by
  simp [onDefault, fieldNames, Limits.onDefault, Limits.fieldNames]

/-- **Documents configure**: whatever lists chosen fields of a configuration, in any order and any
layout and among other fields, is read as the default with those fields taken over; and a
configuration is read back from its own document. -/
theorem documents_configure :
    (∀ (config : Config) (chosen chosenLimits : List String) (document : String),
      config.Lists chosen chosenLimits document →
        Config.ofJson document = .ok (config.onDefault chosen chosenLimits)) ∧
      ∀ config : Config, Config.ofJson config.toJson = .ok config := by
  refine ⟨fun _ _ _ _ => Config.ofJson_lists, fun config => ?_⟩
  rw [Config.ofJson_lists config.lists_toJson, config.onDefault_all]

def sparseConfig : Config := ⟨.legacy, ⟨some 7, none, some 9⟩, 8⟩

/-- A document with an unknown field, an absent limit and a name with an escape in it. -/
def sparseDocument : String :=
  "\x7b" ++ "\"x\": [true]" ++ "," ++ "\"limits\":\x7b\"max_memory\":null\x7d" ++ "," ++
    "\n\"l\\u0065vel\":\"legacy\"" ++ "\x7d\n"

theorem documents_configure_sparse :
    sparseConfig.Lists ["level", "limits"] ["max_memory"] sparseDocument ∧
      Config.ofJson sparseDocument = .ok { level := .legacy } := by
  have hunknown : ∀ rest, Member (sparseConfig.HasField ["max_memory"]) "x"
      ("\"x\": [true]".toList ++ rest) rest := by
    intro rest
    have htrue : ValueText ("true".toList ++ ']' :: rest) (']' :: rest) := .word _ (by simp)
    have hlist : ValueText ('[' :: ("true".toList ++ ']' :: rest)) rest :=
      .filled .list (.last (.list (.refl _)) htrue (.refl _))
    exact .mk (.refl _) (spelled_writeText "x" _) (.refl _) ⟨[' '], by simp, rfl⟩ hlist
  have hlimits : ∀ rest, Member (sparseConfig.HasField ["max_memory"]) "limits"
      ("\"limits\":\x7b\"max_memory\":null\x7d".toList ++ rest) rest := by
    intro rest
    have hmemory : ∀ rest, Member sparseConfig.limits.HasField "max_memory"
        ("\"max_memory\":null".toList ++ rest) rest := fun rest =>
      .mk (.refl _) (spelled_writeText "max_memory" _) (.refl _) (.refl _) (BoundText.absent rest)
    have hobject : sparseConfig.limits.Lists ["max_memory"]
        ("\x7b\"max_memory\":null\x7d".toList ++ rest) rest :=
      ⟨["max_memory"], .filled (.last (hmemory _) (.refl _)), by decide⟩
    exact .mk (.refl _) (spelled_writeText "limits" _) (.refl _) (.refl _) hobject
  have hlevel : ∀ rest, Member (sparseConfig.HasField ["max_memory"]) "level"
      ("\n\"l\\u0065vel\":\"legacy\"".toList ++ rest) rest := by
    intro rest
    have hplain : ∀ {c : Char} (rest : List Char), ' ' ≤ c ∧ c ≠ '"' ∧ c ≠ '\\' →
        SpelledChar c (c :: rest) rest := fun rest h => .plain rest h.1 h.2.1 h.2.2
    have hescaped : ∀ rest, SpelledChar 'e' (['\\', 'u', '0', '0', '6', '5'] ++ rest) rest :=
      fun rest => .number
        (@HexQuad.mk '0' '0' '6' '5' 0 0 6 5 rest (by decide) (by decide) (by decide) (by decide))
    have hname : ∀ rest, SpelledChars ['l', 'e', 'v', 'e', 'l']
        ('l' :: (['\\', 'u', '0', '0', '6', '5'] ++ 'v' :: 'e' :: 'l' :: '"' :: rest)) rest :=
      fun rest => .cons (hplain _ (by decide)) <| .cons (hescaped _) <|
        .cons (hplain _ (by decide)) <| .cons (hplain _ (by decide)) <|
          .cons (hplain _ (by decide)) <| .close rest
    exact .mk ⟨['\n'], by simp, rfl⟩ (.mk (hname _)) (.refl _) (.refl _)
      (spelled_writeText "legacy" rest)
  have hdocument : sparseDocument.toList = '\x7b' :: ("\"x\": [true]".toList ++
      ',' :: ("\"limits\":\x7b\"max_memory\":null\x7d".toList ++
        ',' :: ("\n\"l\\u0065vel\":\"legacy\"".toList ++ ['\x7d', '\n']))) := by
    simp [sparseDocument]
  have hobject : ObjectText (sparseConfig.HasField ["max_memory"]) ["x", "limits", "level"]
      sparseDocument.toList ['\n'] := by
    rw [hdocument]
    exact .filled (.next (hunknown _) (.refl _) (.next (hlimits _) (.refl _)
      (.last (hlevel _) (.refl _))))
  have hlists : sparseConfig.Lists ["level", "limits"] ["max_memory"] sparseDocument :=
    ⟨_, _, _, .refl _, hobject, ⟨['\n'], by simp, rfl⟩, by decide⟩
  exact ⟨hlists, documents_configure.1 _ _ _ _ hlists⟩

end FloorDivision
