import Lineage.Proofs.Clause.Heads

set_option autoImplicit false

/-! # Clauses and names by index

Where clauses open and supertypes are named in a text, said index by index and without a scan. An
index counts if it is outside of all brackets and not behind the brace that opens the body
(`Outside`). There a keyword as a whole word, with a blank behind it, opens a clause (`Opens`). A
supertype is named (`Names`) where an identifier can start in the last clause opened so far, unless
one started before since that clause opened or since the last comma. Nothing here asks that the text
is well formed.

An opening takes up its keyword and all the blanks behind it. There no bracket, no brace and no comma
stands, and no other clause opens (`Opens.stop_le`), so the openings of a text are apart. -/

namespace Lineage.SupertypeClauses

open Text

/-! ## Occurrences by index -/

/-- The depth of brackets at an index: the number of `<` in front of it less the number of `>` there
    that do not stand directly behind `=`. -/
def depthAt (t : Text) (index : Nat) : Int :=
  ((List.range index).countP fun i => t[i]? == some '<') -
    ((List.range index).countP fun i => t[i]? == some '>' && (t.take i).getLast? != some '=')

/-- An index of the head that is outside of all brackets. The head goes up to the first `{` that is
    outside of them. -/
structure Outside (t : Text) (index : Nat) : Prop where
  depth : depthAt t index = 0
  head : ∀ brace < index, t[brace]? = some '{' → depthAt t brace ≠ 0

/-- A clause opens at the index `start`: its keyword stands there, not behind an identifier character
    and with blanks behind it, all of which end at the index `stop`. -/
structure Opens (t : Text) (keyword : Keyword) (start stop : Nat) : Prop where
  outside : Outside t start
  whole : ¬ (t.take start).getLast?.any isIdentifierPart = true
  spelled : ∃ blanks rest, t.drop start = keyword.letters ++ (blanks ++ rest) ∧ blanks ≠ [] ∧
    (∀ c ∈ blanks, isBlank c = true) ∧ leadingBlanks rest = [] ∧
    stop = start + (keyword.letters ++ blanks).length

/-- The clause that was opened last in front of an index. -/
structure Governs (t : Text) (keyword : Keyword) (start stop index : Nat) : Prop where
  opens : Opens t keyword start stop
  before : start < index
  last : ∀ keyword' start' stop', Opens t keyword' start' stop' → start' < index → start' ≤ start

/-- A comma outside of all brackets. -/
def CommaAt (t : Text) (index : Nat) : Prop :=
  Outside t index ∧ t[index]? = some ','

/-- A character outside of all brackets with which an identifier can start. -/
def StartsAt (t : Text) (index : Nat) : Prop :=
  Outside t index ∧ ∃ c, t[index]? = some c ∧ isIdentifierStart c = true

/-- A name is awaited at an index since the index `since`: that is where the opening of the clause
    ends, or behind the last comma from there on, and no identifier has started since then. -/
structure Awaits (t : Text) (stop index since : Nat) : Prop where
  since_eq : since = stop ∨
    ∃ comma, stop ≤ comma ∧ comma < index ∧ CommaAt t comma ∧ since = comma + 1
  no_comma : ∀ comma, since ≤ comma → comma < index → ¬ CommaAt t comma
  no_start : ∀ start, since ≤ start → start < index → ¬ StartsAt t start

/-- A supertype is named at an index, in a clause of `keyword`. -/
structure Names (t : Text) (keyword : Keyword) (index : Nat) : Prop where
  starts : StartsAt t index
  no_opening : ∀ keyword' stop, ¬ Opens t keyword' index stop
  awaited : ∃ start stop since,
    Governs t keyword start stop index ∧ stop ≤ index ∧ Awaits t stop index since

/-- The first clause that a keyword opens. -/
structure OpensFirst (t : Text) (keyword : Keyword) (start stop : Nat) : Prop where
  opens : Opens t keyword start stop
  first : ∀ start' stop', Opens t keyword start' stop' → start ≤ start'

/-- The names found in the clauses of a keyword. -/
def names (clauses : SupertypeClauses) : Keyword → List Nat
  | .extending => clauses.extendedNames
  | .implementing => clauses.implementedNames

/-! ## Characters and cuts at an index -/

section Index

variable {t : Text} {index : Nat} {c : Char} {rest : Text}

theorem getElem?_of_drop (h : t.drop index = c :: rest) : t[index]? = some c := by
  rw [← List.head?_drop, h, List.head?_cons]

theorem drop_succ_of_drop (h : t.drop index = c :: rest) : t.drop (index + 1) = rest := by
  rw [← List.tail_drop, h, List.tail_cons]

theorem take_succ_of_getElem? (h : t[index]? = some c) :
    t.take (index + 1) = t.take index ++ [c] := by
  rw [List.take_add_one, h]
  rfl

theorem depthAt_succ (h : t[index]? = some c) :
    depthAt t (index + 1) = depthAt t index + bracketShift (t.take index).getLast? c := by
  simp only [depthAt, List.range_succ, List.countP_append, List.countP_singleton, h, bracketShift]
  grind

/-- Offsets grow with the index. -/
theorem byteSize_take_lt {earlier : Nat} (hlt : earlier < index) (hget : t[earlier]? = some c) :
    byteSize (t.take earlier) < byteSize (t.take index) := by
  obtain ⟨more, hmore⟩ := List.take_prefix_take_left (l := t) (Nat.succ_le_of_lt hlt)
  have hpos := c.utf8Size_pos
  rw [← hmore, take_succ_of_getElem? hget, byteSize_append, byteSize_append, byteSize_cons]
  omega

/-- The offset behind an opening. -/
theorem byteSize_take_add {spelled later : Text} (h : t.drop index = spelled ++ later) :
    byteSize (t.take (index + spelled.length)) = byteSize (t.take index) + byteSize spelled := by
  rw [List.take_add, h, List.take_left, byteSize_append]

end Index

/-! ## Openings -/

section Openings

variable {t : Text} {keyword keyword' : Keyword} {start stop start' stop' index : Nat}

/-- Where a clause opens, the scan finds its opening. -/
theorem Opens.exists_opening? (h : Opens t keyword start stop) :
    ∃ spelled, opening? (t.take start).getLast? (t.drop start) = some (keyword, spelled) ∧
      stop = start + spelled.length := by
  obtain ⟨blanks, rest, hdrop, hne, hblanks, hrest, hstop⟩ := h.spelled
  have hbefore : (t.take start).getLast?.any isIdentifierPart = false := by
    simpa using h.whole
  refine ⟨keyword.letters ++ blanks, ?_, hstop⟩
  rw [hdrop]
  exact opening?_letters keyword hbefore hne hblanks hrest

/-- What the scan takes for an opening is one, if it is outside of all brackets. -/
theorem Opens.of_opening? {spelled : Text} (houtside : Outside t start)
    (h : opening? (t.take start).getLast? (t.drop start) = some (keyword, spelled)) :
    Opens t keyword start (start + spelled.length) := by
  obtain ⟨blanks, later, hne, hblanks, rfl, hdrop, hbefore, hlater⟩ := exists_of_opening? h
  rw [List.append_assoc] at hdrop
  exact ⟨houtside, hbefore, blanks, later, hdrop, hne, hblanks, hlater, rfl⟩

/-- At an index only one clause can open. -/
theorem Opens.unique (h : Opens t keyword start stop) (h' : Opens t keyword' start stop') :
    keyword = keyword' ∧ stop = stop' := by
  obtain ⟨spelled, hopening, hstop⟩ := h.exists_opening?
  obtain ⟨spelled', hopening', hstop'⟩ := h'.exists_opening?
  rw [hopening] at hopening'
  simp only [Option.some.injEq, Prod.mk.injEq] at hopening'
  exact ⟨hopening'.1, by rw [hstop, hstop', hopening'.2]⟩

/-- A clause that opens no earlier than at an index where none does opens behind it. -/
theorem Opens.lt_of_le (h : Opens t keyword start stop)
    (hopen : ∀ stop', ¬ Opens t keyword index stop') (hle : index ≤ start) : index < start := by
  refine Nat.lt_of_le_of_ne hle ?_
  rintro rfl
  exact hopen stop h

/-- The letters of a keyword. -/
theorem Opens.exists_letter (h : Opens t keyword start stop) (hstart : start ≤ index)
    (hlt : index < start + keyword.letters.length) :
    ∃ c, t[index]? = some c ∧ isIdentifierPart c = true := by
  obtain ⟨blanks, rest, hdrop, -⟩ := h.spelled
  obtain ⟨n, rfl⟩ := Nat.exists_eq_add_of_le hstart
  have hn : n < keyword.letters.length := by omega
  refine ⟨keyword.letters[n], ?_, keyword.isIdentifierPart_of_mem_letters (List.getElem_mem hn)⟩
  rw [← List.getElem?_drop, hdrop, List.getElem?_append_left hn, List.getElem?_eq_getElem hn]

/-- The blanks behind them. -/
theorem Opens.exists_blank (h : Opens t keyword start stop)
    (hstart : start + keyword.letters.length ≤ index) (hlt : index < stop) :
    ∃ c, t[index]? = some c ∧ isBlank c = true := by
  obtain ⟨blanks, rest, hdrop, -, hblanks, -, hstop⟩ := h.spelled
  obtain ⟨n, rfl⟩ := Nat.exists_eq_add_of_le hstart
  have hn : n < blanks.length := by
    rw [List.length_append] at hstop
    omega
  refine ⟨blanks[n], ?_, hblanks _ (List.getElem_mem hn)⟩
  rw [Nat.add_assoc, ← List.getElem?_drop, hdrop, List.getElem?_append_right (Nat.le_add_right _ _),
    Nat.add_sub_cancel_left, List.getElem?_append_left hn, List.getElem?_eq_getElem hn]

theorem Opens.start_lt_stop (h : Opens t keyword start stop) :
    start + keyword.letters.length < stop := by
  obtain ⟨blanks, -, -, hne, -, -, hstop⟩ := h.spelled
  have hpos : 0 < blanks.length := List.length_pos_iff.mpr hne
  rw [hstop, List.length_append]
  omega

theorem Keyword.length_letters_pos (keyword : Keyword) : 0 < keyword.letters.length := by
  cases keyword <;> decide

/-- An opening starts with a letter. -/
theorem Opens.exists_start (h : Opens t keyword start stop) :
    ∃ c, t[start]? = some c ∧ isIdentifierPart c = true :=
  h.exists_letter (Nat.le_refl _) (by have := keyword.length_letters_pos; omega)

/-- An opening holds no bracket, no brace and no comma. -/
theorem Opens.inside (h : Opens t keyword start stop) (hstart : start ≤ index) (hstop : index < stop) :
    ∃ c, t[index]? = some c ∧ c ≠ '<' ∧ c ≠ '>' ∧ c ≠ '{' ∧ c ≠ ',' := by
  by_cases hletter : index < start + keyword.letters.length
  · obtain ⟨c, hget, hc⟩ := h.exists_letter hstart hletter
    exact ⟨c, hget, ne_of_isIdentifierPart hc⟩
  · obtain ⟨c, hget, hc⟩ := h.exists_blank (Nat.le_of_not_lt hletter) hstop
    exact ⟨c, hget, ne_of_isBlank hc⟩

/-- No clause opens within the opening of another: the letters there stand behind letters, and the
    blanks are no letters. -/
theorem Opens.stop_le (h : Opens t keyword start stop) (h' : Opens t keyword' start' stop')
    (hlt : start < start') : stop ≤ start' := by
  refine Nat.le_of_not_lt fun hwithin => ?_
  by_cases hletter : start' ≤ start + keyword.letters.length
  · obtain ⟨n, rfl⟩ : ∃ n, start' = n + 1 := ⟨start' - 1, by omega⟩
    obtain ⟨c, hget, hc⟩ := h.exists_letter (Nat.le_of_lt_succ hlt) (Nat.lt_of_succ_le hletter)
    refine h'.whole ?_
    rw [take_succ_of_getElem? hget, List.getLast?_concat]
    exact hc
  · obtain ⟨c, hget, hc⟩ := h.exists_blank (Nat.le_of_lt (Nat.lt_of_not_le hletter)) hwithin
    obtain ⟨c', hget', hc'⟩ := h'.exists_start
    obtain rfl := Option.some.inj (hget.symm.trans hget')
    exact not_isIdentifierPart_of_isBlank hc hc'

/-! ## The first opening and the last -/

theorem Governs.succ (h : Governs t keyword start stop index)
    (hopen : ∀ keyword' stop', ¬ Opens t keyword' index stop') :
    Governs t keyword start stop (index + 1) := by
  refine ⟨h.opens, Nat.lt_succ_of_lt h.before, ?_⟩
  intro keyword' start' stop' hopens hlt
  by_cases hindex : start' = index
  · exact absurd (hindex ▸ hopens) (hopen keyword' stop')
  · exact h.last keyword' start' stop' hopens (by omega)

theorem Opens.governs (h : Opens t keyword index stop) :
    Governs t keyword index stop (index + 1) := by
  refine ⟨h, Nat.lt_succ_self _, ?_⟩
  intro keyword' start' stop' _ hlt
  exact Nat.le_of_lt_succ hlt

theorem Governs.unique (h : Governs t keyword start stop index)
    (h' : Governs t keyword' start' stop' index) : keyword = keyword' ∧ stop = stop' := by
  have hle := h.last keyword' start' stop' h'.opens h'.before
  have hle' := h'.last keyword start stop h.opens h.before
  obtain rfl : start = start' := Nat.le_antisymm hle' hle
  exact h.opens.unique h'.opens

theorem OpensFirst.unique (h : OpensFirst t keyword start stop)
    (h' : OpensFirst t keyword start' stop') : stop = stop' := by
  obtain rfl : start = start' := Nat.le_antisymm (h.first _ _ h'.opens) (h'.first _ _ h.opens)
  exact (h.opens.unique h'.opens).2

end Openings

/-! ## Awaiting a name -/

section Awaiting

variable {t : Text} {stop index since : Nat}

/-- Where an opening ends, a name is awaited. -/
theorem awaits_stop (h : index ≤ stop) : Awaits t stop index stop := by
  refine ⟨.inl rfl, ?_, ?_⟩ <;> intro other hle hlt <;> omega

/-- Behind a comma a name is awaited. -/
theorem CommaAt.awaits (h : CommaAt t index) (hstop : stop ≤ index) :
    Awaits t stop (index + 1) (index + 1) := by
  refine ⟨.inr ⟨index, hstop, Nat.lt_succ_self _, h, rfl⟩, ?_, ?_⟩ <;>
    intro other hle hlt <;> omega

/-- Behind any other character a name is awaited if it was before and does not start with it. -/
theorem exists_awaits_succ_iff (hstop : stop ≤ index) (hcomma : ¬ CommaAt t index) :
    (∃ since, Awaits t stop (index + 1) since) ↔
      (∃ since, Awaits t stop index since) ∧ ¬ StartsAt t index := by
  constructor
  · rintro ⟨since, h⟩
    have hearlier : since = stop ∨
        ∃ comma, stop ≤ comma ∧ comma < index ∧ CommaAt t comma ∧ since = comma + 1 := by
      refine h.since_eq.imp_right ?_
      rintro ⟨comma, hle, hlt, hat, heq⟩
      have hne : comma ≠ index := by
        rintro rfl
        exact hcomma hat
      exact ⟨comma, hle, by omega, hat, heq⟩
    have hsince : since ≤ index := by
      rcases hearlier with rfl | ⟨comma, -, hlt, -, rfl⟩ <;> omega
    refine ⟨⟨since, hearlier, ?_, ?_⟩, h.no_start index hsince (Nat.lt_succ_self _)⟩
    · intro comma hle hlt
      exact h.no_comma comma hle (by omega)
    · intro start hle hlt
      exact h.no_start start hle (by omega)
  · rintro ⟨⟨since, h⟩, hstart⟩
    refine ⟨since, ?_, ?_, ?_⟩
    · refine h.since_eq.imp_right ?_
      rintro ⟨comma, hle, hlt, hat, heq⟩
      exact ⟨comma, hle, by omega, hat, heq⟩
    · intro comma hle hlt
      by_cases hindex : comma = index
      · rwa [hindex]
      · exact h.no_comma comma hle (by omega)
    · intro start hle hlt
      by_cases hindex : start = index
      · rwa [hindex]
      · exact h.no_start start hle (by omega)

end Awaiting

/-! ## Characters that start nothing -/

section Others

variable {t : Text} {index : Nat} {c : Char}

/-- Neither a clause nor a name starts with a character that is no part of an identifier. -/
theorem not_opens_of_not_part (hget : t[index]? = some c) (hc : ¬ isIdentifierPart c = true) :
    ∀ keyword stop, ¬ Opens t keyword index stop := by
  intro keyword stop hopens
  obtain ⟨c', hget', hc'⟩ := hopens.exists_start
  exact hc (Option.some.inj (hget'.symm.trans hget) ▸ hc')

theorem not_startsAt_of_not_part (hget : t[index]? = some c) (hc : ¬ isIdentifierPart c = true) :
    ¬ StartsAt t index := by
  rintro ⟨-, c', hget', hc'⟩
  rw [hget, Option.some.injEq] at hget'
  exact hc (isIdentifierPart_of_isIdentifierStart (hget' ▸ hc'))

end Others

end Lineage.SupertypeClauses
