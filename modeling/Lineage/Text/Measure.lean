set_option autoImplicit false

/-! # Texts and their measures

A text is a list of characters. Offsets into it count the bytes of its UTF-8 form, columns count
UTF-16 code units; both are sums over the characters, so they add up along concatenation. A text can
be cut only at an offset where a character starts or at its end: `splitAt?` and `between?` answer
`none` everywhere else. -/

namespace Lineage

/-- A text as the list of its characters. -/
abbrev Text := List Char

namespace Text

/-! ## Sizes -/

/-- The number of bytes of the UTF-8 form of a text. -/
def byteSize (t : Text) : Nat :=
  t.foldr (fun c size => c.utf8Size + size) 0

/-- The number of UTF-16 code units of a character: two beyond the basic plane. -/
def unitSize (c : Char) : Nat :=
  if c.toNat < 0x10000 then 1 else 2

/-- The number of UTF-16 code units of a text. -/
def unitCount (t : Text) : Nat :=
  t.foldr (fun c count => unitSize c + count) 0

@[simp] theorem byteSize_nil : byteSize [] = 0 := rfl

@[simp] theorem byteSize_cons (c : Char) (t : Text) :
    byteSize (c :: t) = c.utf8Size + byteSize t := rfl

@[simp] theorem unitCount_nil : unitCount [] = 0 := rfl

@[simp] theorem unitCount_cons (c : Char) (t : Text) :
    unitCount (c :: t) = unitSize c + unitCount t := rfl

theorem byteSize_append (s t : Text) : byteSize (s ++ t) = byteSize s + byteSize t := by
  induction s with
  | nil => simp
  | cons c rest ih => rw [List.cons_append, byteSize_cons, byteSize_cons, ih, Nat.add_assoc]

theorem unitCount_append (s t : Text) : unitCount (s ++ t) = unitCount s + unitCount t := by
  induction s with
  | nil => simp
  | cons c rest ih => rw [List.cons_append, unitCount_cons, unitCount_cons, ih, Nat.add_assoc]

theorem unitSize_pos (c : Char) : 0 < unitSize c := by
  rw [unitSize]
  split <;> decide

/-! ## Cutting -/

/-- Cuts a text in two at a byte offset; `none` inside a character or past the end. -/
def splitAt? : Nat → Text → Option (Text × Text)
  | 0, t => some ([], t)
  | _ + 1, [] => none
  | n + 1, c :: rest =>
    if c.utf8Size ≤ n + 1 then
      (splitAt? (n + 1 - c.utf8Size) rest).map fun (front, back) => (c :: front, back)
    else
      none

/-- What follows a byte offset of a text; `none` inside a character or past the end. -/
def drop? : Nat → Text → Option Text
  | 0, t => some t
  | _ + 1, [] => none
  | n + 1, c :: rest => if c.utf8Size ≤ n + 1 then drop? (n + 1 - c.utf8Size) rest else none

/-- The part of a text from byte offset `start` to byte offset `stop`; `none` if the offsets are
    out of order or one of them is no place to cut. -/
def between? (start stop : Nat) (t : Text) : Option Text := do
  if stop < start then
    none
  else
    let rest ← drop? start t
    let (part, _) ← splitAt? (stop - start) rest
    return part

/-- Dropping a front leaves the second part of the cut behind it. -/
theorem drop?_eq (n : Nat) (t : Text) : drop? n t = (splitAt? n t).map Prod.snd := by
  induction t generalizing n with
  | nil => cases n <;> rfl
  | cons c rest ih =>
    cases n with
    | zero => rfl
    | succ n =>
      rw [drop?, splitAt?]
      split
      · rw [ih, Option.map_map]
        rfl
      · rfl

/-- A text can be cut behind each of its fronts. -/
theorem splitAt?_append (s t : Text) : splitAt? (byteSize s) (s ++ t) = some (s, t) := by
  induction s with
  | nil => rw [byteSize_nil, List.nil_append, splitAt?]
  | cons c rest ih =>
    have hc := c.utf8Size_pos
    obtain ⟨n, hn⟩ : ∃ n, byteSize (c :: rest) = n + 1 :=
      ⟨byteSize (c :: rest) - 1, by rw [byteSize_cons]; omega⟩
    have hr : n + 1 - c.utf8Size = byteSize rest := by rw [← hn, byteSize_cons]; omega
    have hle : c.utf8Size ≤ n + 1 := by rw [← hn, byteSize_cons]; omega
    rw [hn, List.cons_append, splitAt?, if_pos hle, hr, ih]
    rfl

/-- A cut loses nothing, and its front has the size asked for. -/
theorem eq_append_of_splitAt? {n : Nat} {t front back : Text}
    (h : splitAt? n t = some (front, back)) : t = front ++ back ∧ byteSize front = n := by
  induction t generalizing n front with
  | nil =>
    cases n with
    | zero =>
      obtain ⟨rfl, rfl⟩ := by simpa [splitAt?] using h
      exact ⟨rfl, rfl⟩
    | succ n => simp [splitAt?] at h
  | cons c rest ih =>
    cases n with
    | zero =>
      obtain ⟨rfl, rfl⟩ := by simpa [splitAt?] using h
      exact ⟨rfl, rfl⟩
    | succ n =>
      rw [splitAt?] at h
      split at h
      · next hle =>
        obtain ⟨⟨front', back'⟩, hcut, heq⟩ := Option.map_eq_some_iff.mp h
        simp only [Prod.mk.injEq] at heq
        obtain ⟨rfl, rfl⟩ := heq
        obtain ⟨rfl, hsize⟩ := ih hcut
        refine ⟨rfl, ?_⟩
        rw [byteSize_cons, hsize]
        omega
      · cases h

end Text
end Lineage
