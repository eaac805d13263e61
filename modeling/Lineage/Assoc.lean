set_option autoImplicit false

/-! # Association lists in order of first insertion

A finite map as a list of pairs. Inserting under a key that is already there replaces the value in
place, so the keys stay in the order in which they first came. -/

namespace Lineage

/-- A finite map as a list of key-value pairs. -/
abbrev Assoc (κ ν : Type) := List (κ × ν)

namespace Assoc

variable {κ ν : Type} [DecidableEq κ]

/-- The value under a key. -/
def get? : Assoc κ ν → κ → Option ν
  | [], _ => none
  | (k, v) :: rest, key => if k = key then some v else get? rest key

/-- Whether there is a value under a key. -/
def has (entries : Assoc κ ν) (key : κ) : Bool :=
  (get? entries key).isSome

/-- Puts a value under a key, in place of an earlier one or else at the end. -/
def insert : Assoc κ ν → κ → ν → Assoc κ ν
  | [], key, value => [(key, value)]
  | (k, v) :: rest, key, value =>
    if k = key then (k, value) :: rest else (k, v) :: insert rest key value

/-- Forgets the value under a key. -/
def erase (entries : Assoc κ ν) (key : κ) : Assoc κ ν :=
  entries.filter fun entry => entry.1 ≠ key

/-- The keys in order. -/
def keys (entries : Assoc κ ν) : List κ :=
  entries.map Prod.fst

/-! ## Looking up after a change -/

@[simp] theorem get?_nil (key : κ) : get? ([] : Assoc κ ν) key = none := rfl

/-- An insertion is seen under its own key and nowhere else. -/
theorem get?_insert (entries : Assoc κ ν) (key other : κ) (value : ν) :
    (entries.insert key value).get? other =
      if key = other then some value else entries.get? other := by
  induction entries with
  | nil => rfl
  | cons entry rest ih =>
    by_cases h : entry.1 = key
    · rw [insert, if_pos h, get?, get?, h]
      split <;> rfl
    · rw [insert, if_neg h, get?, get?, ih]
      by_cases ho : entry.1 = other
      · rw [if_pos ho, if_neg fun hk => h (ho.trans hk.symm), if_pos ho]
      · rw [if_neg ho, if_neg ho]

/-- An erasure is seen under its own key and nowhere else. -/
theorem get?_erase (entries : Assoc κ ν) (key other : κ) :
    (entries.erase key).get? other = if key = other then none else entries.get? other := by
  induction entries with
  | nil => simp [erase]
  | cons entry rest ih =>
    rw [erase] at ih
    by_cases h : entry.1 = key
    · rw [erase, List.filter_cons_of_neg (by simp [h]), ih, get?, h]
      split <;> rfl
    · rw [erase, List.filter_cons_of_pos (by simp [h]), get?, get?, ih]
      by_cases ho : entry.1 = other
      · rw [if_pos ho, if_neg fun hk => h (ho.trans hk.symm), if_pos ho]
      · rw [if_neg ho, if_neg ho]

/-- The keys with a value are those in the list. -/
theorem mem_keys_iff (entries : Assoc κ ν) (key : κ) :
    key ∈ entries.keys ↔ (entries.get? key).isSome := by
  induction entries with
  | nil => simp [keys]
  | cons entry rest ih =>
    rw [keys] at ih
    rw [keys, List.map_cons, List.mem_cons, ih, get?]
    by_cases h : entry.1 = key
    · simp [h]
    · simp [h, Ne.symm h]

/-- What is looked up is in the list. -/
theorem mem_of_get? {entries : Assoc κ ν} {key : κ} {value : ν}
    (h : entries.get? key = some value) : (key, value) ∈ entries := by
  induction entries with
  | nil => cases h
  | cons entry rest ih =>
    rw [get?] at h
    split at h
    · next heq =>
      cases h
      rw [← heq]
      exact List.mem_cons_self
    · exact List.mem_cons_of_mem _ (ih h)

/-- A key keeps its place when its value is replaced, and a new key comes last. -/
theorem keys_insert (entries : Assoc κ ν) (key : κ) (value : ν) :
    (entries.insert key value).keys =
      if key ∈ entries.keys then entries.keys else entries.keys ++ [key] := by
  induction entries with
  | nil => rfl
  | cons entry rest ih =>
    rw [keys, keys] at ih
    by_cases h : entry.1 = key
    · rw [insert, if_pos h, keys, keys, List.map_cons, List.map_cons,
        if_pos (List.mem_cons.mpr (.inl h.symm))]
    · rw [insert, if_neg h, keys, keys, List.map_cons, List.map_cons, ih]
      by_cases hk : key ∈ rest.map Prod.fst
      · rw [if_pos hk, if_pos (List.mem_cons_of_mem _ hk)]
      · rw [if_neg hk, if_neg fun hm => (List.mem_cons.mp hm).elim (fun he => h he.symm) hk,
          List.cons_append]

end Assoc
end Lineage
