import Lineage.Proofs.Json.Trees
import Lineage.Wire.Snapshot

set_option autoImplicit false

/-! # Snapshots read back

A snapshot that was written is read back as it was, if no symbol tree in it has more than 61 levels,
and is refused otherwise (`Snapshot.ofText_toText`).

Every reader here is compared with the writer of its type: on the tree of what was written it gives
the value back where there is room for its brackets, and else complains that the text is malformed.
A position takes one bracket and a range two. A symbol takes one for itself and two for its ranges,
and each further level of children one for the array and one for the child; so the symbols of a
document, four brackets deep in a text that may open 127, have room for 61 levels. -/

namespace Lineage

/-! ## Records -/

section Outcomes

variable {α β : Type}

@[simp] theorem ok_bind (value : α) (next : α → Except ReadError β) :
    (Except.ok value >>= next) = next value := rfl

@[simp] theorem error_bind (error : ReadError) (next : α → Except ReadError β) :
    (Except.error error >>= next) = .error error := rfl

@[simp] theorem map_ok (f : α → β) (value : α) :
    f <$> (Except.ok value : Except ReadError α) = .ok (f value) := rfl

@[simp] theorem pure_eq_ok (value : α) : (pure value : Except ReadError α) = .ok value := rfl

@[simp] theorem map_error (f : α → β) (error : ReadError) :
    f <$> (Except.error error : Except ReadError α) = .error error := rfl

end Outcomes

attribute [simp] Record.noSlots Record.store Record.complete Record.readFields Record.read

/-! ## Simple values -/

theorem toNat?_literal (n : Nat) : (Json.literal n).toNat? = some n := by
  have hdigits : digitsValue 0 (Nat.toDigits 10 n) = n := Nat.ofDigitChars_ten_toDigits
  simp [Json.literal, NumberLiteral.toNat?, NumberLiteral.isInteger, hdigits]

namespace Reader

@[simp] theorem string_string (value : String) : string (Json.string value).tree = .ok value := rfl

@[simp] theorem nullable_string (value : String) :
    nullable string (Json.string value).tree = .ok (some value) := rfl

theorem natBelow_nat {bound n : Nat} (h : n < bound) :
    natBelow bound (Json.nat n).tree = .ok n := by
  simp [Json.nat, Json.tree, natBelow, toNat?_literal, h]

@[simp] theorem word_nat (w : UInt32) : word (Json.nat w.toNat).tree = .ok w := by
  simp [word, natBelow_nat w.toNat_lt]

/-- Items that are each read back or malformed. -/
theorem items_map {α : Type} {item : Reader α} {write : α → Json} {fits : α → Prop}
    [DecidablePred fits] {values : List α}
    (h : ∀ value ∈ values, item (write value).tree =
      if fits value then .ok value else .error .malformed) :
    items item (Json.array (values.map write)).tree =
      if ∀ value ∈ values, fits value then .ok values else .error .malformed := by
  have hmapM : ((values.map write).map Json.tree).mapM item =
      if ∀ value ∈ values, fits value then .ok values else .error .malformed := by
    induction values with
    | nil => rfl
    | cons value values ih =>
      have hvalue := h value List.mem_cons_self
      have hvalues := ih fun value' hvalue' => h value' (List.mem_cons_of_mem _ hvalue')
      rw [List.map_cons, List.map_cons, List.mapM_cons, hvalue, hvalues]
      by_cases hfits : fits value
      · by_cases hrest : ∀ value' ∈ values, fits value'
        · simp [hfits, if_pos hrest]
        · simp [hfits, if_neg hrest]
      · simp [hfits]
  rw [Json.tree_array, items, hmapM]
  split <;> rfl

end Reader

/-! ## Positions, ranges and locations -/

theorem Position.read_toJson (room : Nat) (position : Position) :
    read room position.toJson.tree = if 1 ≤ room then .ok position else .error .malformed := by
  cases room with
  | zero => rfl
  | succ room => simp [read, Reader.opening, toJson, record]

theorem Range.read_toJson (room : Nat) (range : Range) :
    read room range.toJson.tree = if 2 ≤ room then .ok range else .error .malformed := by
  cases room with
  | zero => rfl
  | succ room =>
    by_cases hroom : 1 ≤ room <;>
      simp [read, Reader.opening, toJson, record, Position.read_toJson, hroom]

theorem Location.read_toJson (room : Nat) (location : Location) :
    read room location.toJson.tree = if 3 ≤ room then .ok location else .error .malformed := by
  cases room with
  | zero => rfl
  | succ room =>
    by_cases hroom : 2 ≤ room <;>
      simp [read, Reader.opening, toJson, record, Range.read_toJson, hroom]

/-! ## Symbols -/

theorem Range.isIntegral_toJson (range : Range) : range.toJson.isIntegral = true := rfl

theorem SymbolKind.isIntegral_toJson (kind : SymbolKind) : kind.toJson.isIntegral = true := rfl

theorem SymbolKind.read_toJson (kind : SymbolKind) : read kind.toJson.tree = .ok kind := by
  have hcode : kind.code < 256 := by cases kind <;> decide
  simp [read, toJson, Reader.natBelow_nat hcode, ofCode?_code]

namespace DocumentSymbol

mutual

/-- The number of levels of a symbol tree. -/
def levels : DocumentSymbol → Nat
  | ⟨_, _, _, _, _, children⟩ => 1 + allLevels children

/-- The number of levels of the deepest of some symbol trees. -/
def allLevels : List DocumentSymbol → Nat
  | [] => 0
  | symbol :: rest => max (levels symbol) (allLevels rest)

end

theorem allLevels_le_iff {symbols : List DocumentSymbol} {bound : Nat} :
    allLevels symbols ≤ bound ↔ ∀ symbol ∈ symbols, symbol.levels ≤ bound := by
  induction symbols with
  | nil => simp [allLevels]
  | cons symbol symbols ih => rw [allLevels, Nat.max_le, ih, List.forall_mem_cons]

theorem levels_eq (symbol : DocumentSymbol) : symbol.levels = 1 + allLevels symbol.children := by
  cases symbol
  rw [levels]

theorem allToJson_eq_map (symbols : List DocumentSymbol) : allToJson symbols = symbols.map toJson := by
  induction symbols with
  | nil => rfl
  | cons symbol symbols ih => rw [allToJson, ih, List.map_cons]

/-- The fields that tell more about a symbol and its children, if there is anything to tell. -/
def detailFields : Option String → List (String × Json)
  | some detail => [("detail", .string detail)]
  | none => []

def childFields : List DocumentSymbol → List (String × Json)
  | [] => []
  | children => [("children", .array (allToJson children))]

theorem toJson_eq (symbol : DocumentSymbol) :
    symbol.toJson = .object (("name", .string symbol.name) :: (detailFields symbol.detail ++
      (("kind", symbol.kind.toJson) :: ("range", symbol.range.toJson) ::
        ("selectionRange", symbol.selection.toJson) :: childFields symbol.children))) := by
  obtain ⟨name, detail, kind, range, selection, children⟩ := symbol
  cases detail <;> cases children <;> rfl

section Fields

variable {room : Nat} {reader : Reader (List DocumentSymbol)}

theorem readFields_detail (name : String) (detail : Option String) (rest : List (String × Json)) :
    (record room reader).readFields true
        (Json.fieldTrees (("name", .string name) :: (detailFields detail ++ rest)))
        (none, none, none, none, none, none, ()) =
      (record room reader).readFields true (Json.fieldTrees rest)
        (some name, detail.map some, none, none, none, none, ()) := by
  cases detail <;> simp [record, detailFields]

/-- The ranges of a symbol take two brackets. -/
theorem readFields_ranges (name : String) (detail : Option (Option String)) (kind : SymbolKind)
    (range selection : Range) (rest : List (String × Json)) :
    (record room reader).readFields true
        (Json.fieldTrees (("kind", kind.toJson) :: ("range", range.toJson) ::
          ("selectionRange", selection.toJson) :: rest))
        (some name, detail, none, none, none, none, ()) =
      if 2 ≤ room then
        (record room reader).readFields true (Json.fieldTrees rest)
          (some name, detail, some kind, some range, some selection, none, ())
      else
        .error .malformed := by
  by_cases hroom : 2 ≤ room <;>
    simp [record, SymbolKind.read_toJson, Range.read_toJson, hroom]

theorem readFields_children (name : String) (detail : Option String) (kind : SymbolKind)
    (range selection : Range) {children : List DocumentSymbol} {fits : Prop} [Decidable fits]
    (h : reader (Json.array (allToJson children)).tree =
      if fits then .ok children else .error .malformed) :
    ofRow <$> (record room reader).readFields true (Json.fieldTrees (childFields children))
        (some name, detail.map some, some kind, some range, some selection, none, ()) =
      if children = [] ∨ fits then .ok ⟨name, detail, kind, range, selection, children⟩
      else .error .malformed := by
  have hcomplete : ∀ slot, ofRow <$> (record room reader).complete
      (some name, detail.map some, some kind, some range, some selection, slot, ()) =
        .ok ⟨name, detail, kind, range, selection, slot.getD []⟩ := by
    intro slot
    cases detail <;> cases slot <;> rfl
  cases children with
  | nil =>
    simpa [childFields] using hcomplete none
  | cons child others =>
    by_cases hfits : fits
    · rw [if_pos hfits] at h
      simpa [childFields, record, h, hfits] using hcomplete (some (child :: others))
    · rw [if_neg hfits] at h
      simp [childFields, record, h, hfits]

end Fields

/-- Only the ranges of a symbol and its children, if it has any, may lack room. -/
theorem read_record {room : Nat} {reader : Reader (List DocumentSymbol)} {symbol : DocumentSymbol}
    {fits : Prop} [Decidable fits] (h : reader (Json.array (allToJson symbol.children)).tree =
      if fits then .ok symbol.children else .error .malformed) :
    (record room reader).read ofRow symbol.toJson.tree =
      if 2 ≤ room ∧ (symbol.children = [] ∨ fits) then .ok symbol else .error .malformed := by
  rw [toJson_eq]
  show ofRow <$> (record room reader).readFields true (Json.fieldTrees _)
    (none, none, none, none, none, none, ()) = _
  rw [readFields_detail, readFields_ranges]
  by_cases hroom : 2 ≤ room
  · rw [if_pos hroom, readFields_children _ _ _ _ _ h]
    cases symbol
    simp [hroom]
  · rw [if_neg hroom]
    simp [hroom]

/-- A symbol takes three brackets, and two more for each further level of children. -/
theorem read_toJson : ∀ (room : Nat) (symbol : DocumentSymbol),
    read room symbol.toJson.tree =
      if 2 * symbol.levels + 1 ≤ room then .ok symbol else .error .malformed
  | 0, _ => rfl
  | 1, symbol => by
    have hrecord := @read_record 0 Reader.refuse symbol False _ rfl
    have hlevels := symbol.levels_eq
    rw [read, hrecord, if_neg (by omega), if_neg (by omega)]
  | room + 2, symbol => by
    have hchildren := Reader.items_map fun child (_ : child ∈ symbol.children) =>
      read_toJson room child
    rw [← allToJson_eq_map] at hchildren
    have hroom : 2 ≤ room + 1 ∧
        (symbol.children = [] ∨ ∀ child ∈ symbol.children, 2 * child.levels + 1 ≤ room) ↔
          2 * symbol.levels + 1 ≤ room + 2 := by
      rw [levels_eq]
      constructor
      · rintro ⟨hranges, hnil | hfits⟩
        · rw [hnil, allLevels]
          omega
        · have hlevels : allLevels symbol.children ≤ (room - 1) / 2 := by
            refine allLevels_le_iff.mpr fun child hchild => ?_
            have := hfits child hchild
            omega
          omega
      · intro hlevels
        refine ⟨by omega, .inr fun child hchild => ?_⟩
        have := allLevels_le_iff.mp (Nat.le_refl _) child hchild
        omega
    rw [read, read_record hchildren]
    simp only [hroom]

mutual

theorem isIntegral_toJson : ∀ symbol : DocumentSymbol, symbol.toJson.isIntegral = true
  | ⟨_, detail, _, _, _, []⟩ => by
    cases detail <;> rfl
  | ⟨_, detail, kind, range, selection, child :: others⟩ => by
    have hchildren := allIntegral_allToJson (child :: others)
    cases detail <;>
      simp [toJson, Json.isIntegral, Json.fieldsIntegral, kind.isIntegral_toJson,
        range.isIntegral_toJson, selection.isIntegral_toJson, hchildren]

theorem allIntegral_allToJson : ∀ symbols : List DocumentSymbol,
    Json.allIntegral (allToJson symbols) = true
  | [] => rfl
  | symbol :: rest => by
    simp [allToJson, Json.allIntegral, isIntegral_toJson symbol, allIntegral_allToJson rest]

end

end DocumentSymbol

/-! ## Snapshots -/

theorem SourceDocument.read_toJson (room : Nat) (document : SourceDocument) :
    read (room + 2) document.toJson.tree =
      if ∀ symbol ∈ document.symbols, 2 * symbol.levels + 1 ≤ room then .ok document
      else .error .malformed := by
  obtain ⟨uri, language, text, symbols⟩ := document
  have hsymbols := Reader.items_map fun symbol (_ : symbol ∈ symbols) => symbol.read_toJson room
  rw [← DocumentSymbol.allToJson_eq_map] at hsymbols
  by_cases hfits : ∀ symbol ∈ symbols, 2 * symbol.levels + 1 ≤ room
  · rw [if_pos hfits] at hsymbols ⊢
    cases language <;> simp [read, Reader.opening, toJson, record, Reader.list, hsymbols]
  · rw [if_neg hfits] at hsymbols ⊢
    cases language <;> simp [read, Reader.opening, toJson, record, Reader.list, hsymbols]

theorem DefinitionLink.read_toJson (room : Nat) (link : DefinitionLink) :
    read (room + 5) link.toJson.tree = .ok link := by
  obtain ⟨uri, range, targets⟩ := link
  have htargets := Reader.items_map fun target (_ : target ∈ targets) =>
    Location.read_toJson (room + 3) target
  simp [read, Reader.opening, toJson, record, Reader.list, Range.read_toJson, htargets]

namespace Json

theorem allIntegral_map {α : Type} {write : α → Json}
    (h : ∀ value, (write value).isIntegral = true) (values : List α) :
    allIntegral (values.map write) = true := by
  induction values with
  | nil => rfl
  | cons value values ih => rw [List.map_cons, allIntegral, h value, ih, Bool.and_true]

end Json

theorem SourceDocument.isIntegral_toJson (document : SourceDocument) :
    document.toJson.isIntegral = true := by
  obtain ⟨uri, language, text, symbols⟩ := document
  cases language <;>
    simp [toJson, Json.isIntegral, Json.fieldsIntegral, DocumentSymbol.allIntegral_allToJson]

theorem DefinitionLink.isIntegral_toJson (link : DefinitionLink) :
    link.toJson.isIntegral = true := by
  have htargets := @Json.allIntegral_map _ Location.toJson (fun _ => rfl) link.targets
  simp [toJson, Json.isIntegral, Json.fieldsIntegral, Range.isIntegral_toJson, htargets]

namespace Snapshot

theorem isIntegral_toJson (snapshot : Snapshot) : snapshot.toJson.isIntegral = true := by
  simp [toJson, Json.isIntegral, Json.fieldsIntegral,
    Json.allIntegral_map SourceDocument.isIntegral_toJson,
    Json.allIntegral_map DefinitionLink.isIntegral_toJson]

/-- No symbol tree of a snapshot has more than 61 levels. -/
def Shallow (snapshot : Snapshot) : Prop :=
  ∀ document ∈ snapshot.documents, ∀ symbol ∈ document.symbols, symbol.levels ≤ 61

instance (snapshot : Snapshot) : Decidable snapshot.Shallow :=
  inferInstanceAs (Decidable (∀ document ∈ snapshot.documents, ∀ symbol ∈ document.symbols,
    symbol.levels ≤ 61))

/-- The symbols of a document have room for 123 brackets. -/
theorem read_toJson (snapshot : Snapshot) :
    read Reader.roomOfText snapshot.toJson.tree =
      if snapshot.Shallow then .ok snapshot else .error .malformed := by
  obtain ⟨documents, definitions⟩ := snapshot
  have hdocuments := Reader.items_map fun document (_ : document ∈ documents) =>
    document.read_toJson 123
  have hdefinitions : Reader.items (DefinitionLink.read 125)
      (Json.array (definitions.map DefinitionLink.toJson)).tree = .ok definitions := by
    have hitems := @Reader.items_map _ (DefinitionLink.read 125) DefinitionLink.toJson
      (fun _ => True) _ definitions fun link _ => by simp [link.read_toJson 120]
    simpa using hitems
  have hlevels : (∀ document ∈ documents, ∀ symbol ∈ document.symbols,
      2 * symbol.levels + 1 ≤ 123) ↔ Shallow ⟨documents, definitions⟩ := by
    have hiff : ∀ levels, 2 * levels + 1 ≤ 123 ↔ levels ≤ 61 := by omega
    simp only [hiff, Shallow]
  simp only [hlevels] at hdocuments
  by_cases hshallow : Shallow ⟨documents, definitions⟩
  · rw [if_pos hshallow] at hdocuments ⊢
    simp [read, Reader.roomOfText, Reader.opening, toJson, record, Reader.list, hdocuments,
      hdefinitions]
  · rw [if_neg hshallow] at hdocuments ⊢
    simp [read, Reader.roomOfText, Reader.opening, toJson, record, Reader.list, hdocuments]

/-- A written snapshot is read back as it was, if its symbol trees have at most 61 levels; a deeper
    one is refused. -/
theorem ofText_toText (snapshot : Snapshot) :
    ofText snapshot.toText =
      if snapshot.Shallow then .ok snapshot else .error .malformed := by
  have htree := JsonTree.ofText_compact snapshot.isIntegral_toJson
  have hread := snapshot.read_toJson
  unfold ofText Reader.ofText toText Json.toText
  rw [String.toList_ofList, htree]
  by_cases hshallow : snapshot.Shallow
  · rw [if_pos hshallow] at hread ⊢
    simp [hread]
  · rw [if_neg hshallow] at hread ⊢
    simp [hread]

end Snapshot
end Lineage
