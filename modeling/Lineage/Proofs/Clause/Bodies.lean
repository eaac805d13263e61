import Lineage.Proofs.Clause.Meaning

set_option autoImplicit false

/-! # The body of a declaration

The scan of a declaration stops at the brace that opens the body, but at each keyword it looks ahead, for
the rest of the word and for all the blanks behind it. No such look crosses a brace
(`opening?_append`), so the scan takes the same steps whatever the body is, and finds what it finds in
the head alone (`scan_append_body`).

Only the depth of brackets at the end of the head matters: inside of brackets the brace would be passed
over like any other character. -/

namespace Lineage.SupertypeClauses

open Text

/-! ## Looking ahead -/

section Ahead

variable {stop : Char} (body : Text)

/-- Blanks go no further than a character that is none. -/
theorem leadingBlanks_append (hstop : ¬ isBlank stop = true) (t : Text) :
    leadingBlanks (t ++ stop :: body) = leadingBlanks t := by
  rw [leadingBlanks, leadingBlanks, List.takeWhile_append, List.takeWhile_cons_of_neg hstop,
    List.append_nil]
  split
  · next hall => exact ((List.takeWhile_prefix isBlank).eq_of_length hall).symm
  · rfl

/-- A keyword does not go on over a character that no word has. -/
theorem Keyword.isPrefixOf_append (keyword : Keyword) (hstop : ¬ isIdentifierPart stop = true)
    (t : Text) : keyword.letters.isPrefixOf (t ++ stop :: body) = keyword.letters.isPrefixOf t := by
  rw [Bool.eq_iff_iff, List.isPrefixOf_iff_prefix, List.isPrefixOf_iff_prefix]
  refine ⟨?_, fun h => h.trans (List.prefix_append t _)⟩
  rintro ⟨rest, hrest⟩
  rcases List.append_eq_append_iff.mp hrest with ⟨more, ht, -⟩ | ⟨more, hletters, hmore⟩
  · exact ⟨more, ht.symm⟩
  · cases more with
    | nil => exact ⟨[], by rw [hletters, List.append_nil, List.append_nil]⟩
    | cons c more =>
      obtain ⟨rfl, -⟩ := List.cons.inj hmore
      refine absurd (keyword.isIdentifierPart_of_mem_letters ?_) hstop
      rw [hletters]
      exact List.mem_append_right t List.mem_cons_self

theorem Keyword.blanksAfter?_append (keyword : Keyword) (hpart : ¬ isIdentifierPart stop = true)
    (hblank : ¬ isBlank stop = true) (t : Text) :
    keyword.blanksAfter? (t ++ stop :: body) = keyword.blanksAfter? t := by
  rw [Keyword.blanksAfter?, Keyword.blanksAfter?, keyword.isPrefixOf_append body hpart]
  split
  · next hletters =>
    have hlength := (List.isPrefixOf_iff_prefix.mp hletters).length_le
    rw [List.drop_append_of_le_length hlength, leadingBlanks_append body hblank]
  · rfl

/-- **Openings end before a brace.** Whether a clause opens, and how far its opening goes, is settled in
    front of any character that is neither part of a word nor a blank. -/
theorem opening?_append (hpart : ¬ isIdentifierPart stop = true) (hblank : ¬ isBlank stop = true)
    (before : Option Char) (t : Text) : opening? before (t ++ stop :: body) = opening? before t := by
  rw [opening?, opening?, Keyword.extending.blanksAfter?_append body hpart hblank,
    Keyword.implementing.blanksAfter?_append body hpart hblank]

/-- One step of the scan does not see behind a brace. -/
theorem State.step_append (state : State) (c : Char) (rest : Text) :
    state.step c (rest ++ '{' :: body) = state.step c rest := by
  have hopening := @opening?_append '{' body (by decide) (by decide) state.before (c :: rest)
  rw [List.cons_append] at hopening
  rw [State.step, State.step, State.stepOutside, State.stepOutside, hopening]

end Ahead

/-! ## Stopping at the body -/

variable {t : Text} {index : Nat} {rest : Text} {state : State}

/-- At the end of a text the scan is within no opening. -/
theorem State.Reads.skip_eq_zero (h : state.Reads t index) (hindex : t.length ≤ index) :
    state.skip = 0 := by
  refine Classical.byContradiction fun hskip => ?_
  obtain ⟨keyword, start, stop, hopens, hstart, hstop⟩ := h.exists_opens hskip
  obtain ⟨c, hget, -⟩ := hopens.inside (Nat.le_of_lt hstart) hstop
  have hlt := (List.getElem?_eq_some_iff.mp hget).1
  omega

/-- **The run.** A scan that comes to the end of the head outside of all brackets stops at the brace
    behind it. -/
theorem State.Reads.run_append (h : state.Reads t index) (hdrop : t.drop index = rest)
    (hindex : index ≤ t.length) (hdepth : depthAt t t.length = 0) (body : Text) :
    SupertypeClauses.run state (rest ++ '{' :: body) = SupertypeClauses.run state rest := by
  induction rest generalizing index state with
  | nil =>
    have hend : t.length ≤ index := List.drop_eq_nil_iff.mp hdrop
    obtain rfl : index = t.length := Nat.le_antisymm hindex hend
    have hclosed : state.depth = 0 := h.depth.trans hdepth
    have hends : state.endsHead '{' = true := by
      simp [State.endsHead, h.skip_eq_zero hend, hclosed]
    have hstops : SupertypeClauses.run state ('{' :: body) = state.found := by
      rw [SupertypeClauses.run, if_pos hends]
    exact hstops
  | cons c rest ih =>
    have hlt := (List.getElem?_eq_some_iff.mp (getElem?_of_drop hdrop)).1
    rw [List.cons_append, SupertypeClauses.run, SupertypeClauses.run, state.step_append]
    split
    · rfl
    · next hends => exact ih (h.step hdrop hends) (drop_succ_of_drop hdrop) hlt

/-- **The body has no say.** Behind a head that closes its brackets, a brace and any body leave what the
    scan finds as it is. A head that holds such a brace itself is no exception: then both scans
    stop there. -/
theorem scan_append_body {head : Text} (hdepth : depthAt head head.length = 0) (body : Text) :
    scan (head ++ '{' :: body) = scan head :=
  (State.reads_initial head).run_append (List.drop_zero) (Nat.zero_le _) hdepth body

/-- A head with a brace in brackets that ends with a keyword, and a body that starts with what would
    complete it. -/
theorem scan_sampleBody :
    scan ("class A<() => \x7b\x7d> extends B implements".toList ++ '{' :: " C extends D".toList) =
      ⟨some 26, [26], []⟩ := by
  rw [scan_append_body (by decide) " C extends D".toList]
  decide

end Lineage.SupertypeClauses
