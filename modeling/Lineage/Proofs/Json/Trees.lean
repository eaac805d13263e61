import Lineage.Json.Tree
import Lineage.Proofs.Json.Tokens

set_option autoImplicit false

/-! # The trees of written values

What is read of an integral value, written without blanks, is the tree of the value, whole and
without a fault (`JsonTree.ofText_compact`). Where a value may come next, its tokens take the growing
tree to where it stands behind the complete value (`Grower.foldl_tokens`); that holds for any stack of
open brackets, and so for the values inside of arrays and objects as well. -/

namespace Lineage

namespace Json

mutual

/-- The tree of an integral value. -/
def tree : Json → JsonTree
  | null => .null
  | bool value => .bool value
  | number (.integer value) => .number (literal value)
  | number (.double _) => .broken
  | string value => .string (some value)
  | array items => .array (itemTrees items) true
  | object fields => .object (fieldTrees fields) true

def itemTrees : List Json → List JsonTree
  | [] => []
  | item :: rest => tree item :: itemTrees rest

def fieldTrees : List (String × Json) → List (Option String × JsonTree)
  | [] => []
  | (name, value) :: rest => (some name, tree value) :: fieldTrees rest

end

@[simp] theorem tree_object (fields : List (String × Json)) :
    (object fields).tree = .object (fieldTrees fields) true := rfl

@[simp] theorem fieldTrees_nil : fieldTrees [] = [] := rfl

@[simp] theorem fieldTrees_cons (name : String) (value : Json) (rest : List (String × Json)) :
    fieldTrees ((name, value) :: rest) = (some name, value.tree) :: fieldTrees rest := rfl

theorem tree_array (items : List Json) : (array items).tree = .array (items.map tree) true := by
  have hitems : itemTrees items = items.map tree := by
    induction items with
    | nil => rfl
    | cons item rest ih => rw [itemTrees, ih, List.map_cons]
  rw [tree, hitems]

end Json

namespace JsonTree.Grower

open Json

variable {frames : List Frame} {result : Option JsonTree}

/-- What may come next does not matter once a value is complete. -/
theorem add_expected (expected expected' : Expected) (tree : JsonTree) :
    (⟨frames, result, expected⟩ : Grower).add tree = (⟨frames, result, expected'⟩ : Grower).add tree := by
  rcases frames with _ | ⟨_ | ⟨_, _ | _⟩, _⟩ <;> rfl

/-- Where a value may come next, any token but the end of an array starts one. -/
theorem step_of_value {expected : Expected} {token : JsonToken}
    (hexpected : expected = .value ∨ expected = .itemOrEnd) (htoken : token ≠ .closeArray) :
    (⟨frames, result, expected⟩ : Grower).step token =
      (⟨frames, result, expected⟩ : Grower).beginValue token := by
  rcases hexpected with rfl | rfl
  · rfl
  · unfold step
    cases token <;> first | rfl | exact absurd rfl htoken

theorem step_key {fields : List (Option String × JsonTree)} {expected : Expected}
    (hexpected : expected = .key ∨ expected = .keyOrEnd) (key : Option String) :
    (⟨.object fields none :: frames, result, expected⟩ : Grower).step (.string key) =
      ⟨.object fields (some key) :: frames, result, .colon⟩ := by
  rcases hexpected with rfl | rfl <;> rfl

mutual

/-- The tokens of a value complete it. -/
theorem foldl_tokens : ∀ (value : Json) {frames : List Frame} {result : Option JsonTree}
    {expected : Expected}, value.isIntegral = true → expected = .value ∨ expected = .itemOrEnd →
      value.tokens.foldl step ⟨frames, result, expected⟩ =
        (⟨frames, result, expected⟩ : Grower).add value.tree
  | .null, _, _, _, _, hexpected => step_of_value hexpected (by decide)
  | .bool _, _, _, _, _, hexpected => step_of_value hexpected (by simp)
  | .number (.integer _), _, _, _, _, hexpected => step_of_value hexpected (by simp)
  | .number (.double _), _, _, _, h, _ => by
    simp [isIntegral] at h
  | .string _, _, _, _, _, hexpected => step_of_value hexpected (by simp)
  | .array items, frames, result, expected, h, hexpected => by
    rw [tokens, List.foldl_cons, step_of_value hexpected (by decide), List.foldl_append]
    show (List.foldl step ⟨.array [] :: frames, result, .itemOrEnd⟩ (itemTokens items)).step
      .closeArray = _
    cases items with
    | nil => exact add_expected _ _ _
    | cons item others =>
      rw [foldl_itemTokens (item :: others) (by simp) h (.inr rfl), List.append_nil]
      show (⟨frames, result, .commaOrEnd⟩ : Grower).add
        (.array (itemTrees (item :: others)).reverse.reverse true) = _
      rw [List.reverse_reverse, add_expected _ expected, Json.tree]
  | .object fields, frames, result, expected, h, hexpected => by
    rw [tokens, List.foldl_cons, step_of_value hexpected (by decide), List.foldl_append]
    show (List.foldl step ⟨.object [] none :: frames, result, .keyOrEnd⟩ (fieldTokens fields)).step
      .closeObject = _
    cases fields with
    | nil => exact add_expected _ _ _
    | cons field others =>
      rw [foldl_fieldTokens (field :: others) (by simp) h (.inr rfl), List.append_nil]
      show (⟨frames, result, .commaOrEnd⟩ : Grower).add
        (.object (fieldTrees (field :: others)).reverse.reverse true) = _
      rw [List.reverse_reverse, add_expected _ expected, Json.tree]

/-- The tokens of items go into the open array. -/
theorem foldl_itemTokens : ∀ (items : List Json) {done : List JsonTree} {frames : List Frame}
    {result : Option JsonTree} {expected : Expected}, items ≠ [] → allIntegral items = true →
    expected = .value ∨ expected = .itemOrEnd →
      (itemTokens items).foldl step ⟨.array done :: frames, result, expected⟩ =
        ⟨.array ((itemTrees items).reverse ++ done) :: frames, result, .commaOrEnd⟩
  | [], _, _, _, _, hne, _, _ => absurd rfl hne
  | [item], done, frames, result, expected, _, h, hexpected => by
    have hitem : item.isIntegral = true := by simpa [allIntegral] using h
    rw [itemTokens, foldl_tokens item hitem hexpected]
    rfl
  | item :: next :: others, done, frames, result, expected, _, h, hexpected => by
    rw [allIntegral, Bool.and_eq_true] at h
    have hothers := @foldl_itemTokens (next :: others) (item.tree :: done) frames result .value
      (by simp) h.2 (.inl rfl)
    rw [itemTokens, List.foldl_append, foldl_tokens item h.1 hexpected, List.foldl_cons]
    · refine hothers.trans ?_
      simp [itemTrees]
    · simp

/-- The tokens of fields go into the open object. -/
theorem foldl_fieldTokens : ∀ (fields : List (String × Json))
    {done : List (Option String × JsonTree)} {frames : List Frame} {result : Option JsonTree}
    {expected : Expected}, fields ≠ [] → fieldsIntegral fields = true →
    expected = .key ∨ expected = .keyOrEnd →
      (fieldTokens fields).foldl step ⟨.object done none :: frames, result, expected⟩ =
        ⟨.object ((fieldTrees fields).reverse ++ done) none :: frames, result, .commaOrEnd⟩
  | [], _, _, _, _, hne, _, _ => absurd rfl hne
  | [(name, value)], done, frames, result, expected, _, h, hexpected => by
    have hvalue : value.isIntegral = true := by simpa [fieldsIntegral] using h
    rw [fieldTokens, List.foldl_cons, step_key hexpected, List.foldl_cons]
    exact foldl_tokens value hvalue (.inl rfl)
  | (name, value) :: next :: others, done, frames, result, expected, _, h, hexpected => by
    rw [fieldsIntegral, Bool.and_eq_true] at h
    have hvalue := @foldl_tokens value (.object done (some (some name)) :: frames) result .value h.1
      (.inl rfl)
    have hothers := @foldl_fieldTokens (next :: others) ((some name, value.tree) :: done) frames
      result .key (by simp) h.2 (.inl rfl)
    rw [fieldTokens, List.foldl_cons, step_key hexpected, List.foldl_cons, List.foldl_append]
    · show List.foldl step (List.foldl step
        ⟨.object done (some (some name)) :: frames, result, .value⟩ value.tokens) _ = _
      rw [hvalue]
      refine hothers.trans ?_
      simp [fieldTrees]
    · simp

end

end JsonTree.Grower

/-- What is written is read as the tree of the value, to its end. -/
theorem JsonTree.ofText_compact {value : Json} (h : value.isIntegral = true) :
    JsonTree.ofText value.compact = (value.tree, true) := by
  have hgrown : value.tokens.foldl Grower.step .initial = ⟨[], some value.tree, .nothing⟩ :=
    Grower.foldl_tokens value h (.inl rfl)
  unfold JsonTree.ofText
  rw [Json.ofText_compact h, hgrown]
  rfl

end Lineage
