import Lineage.Proofs.Outline.HeadWords
import Lineage.Proofs.Workspace.History
import Lineage.Proofs.Workspace.Supertypes

set_option autoImplicit false

/-! # Links of outlined sources

The workspace of some source files has a link for each word of a head that names an outlined type. So
a reference in front of the first brace of a declaration leads to the types that have the name written
there: those of its own file, or if there are none, those of all files (`definitionsAt_reference`).

The links were made from words of the whole documents, and references are found in the texts of single
declarations. That no other link contains the position of a reference rests on the words of its head
(`TypeSpan.filter_headWords`) and on the spans of a document being apart (`exists_spans`). -/

namespace Lineage

open SupertypeClauses

/-! ## Lookups in a workspace -/

namespace Workspace

/-- A first lookup in a workspace: the declarations at the targets of the links over a position. -/
theorem exec_definitionsAt (workspace : Workspace) (uri : String) (position : Position)
    (counts : ServiceCounts) :
    (exec (Lookup.definitionsAt workspace.services uri position) (Lookup.start counts)).1 =
      .ok (((workspace.definitionsAt uri position).filterMap fun location =>
        (workspace.declarations location.uri).find? fun declaration =>
          declaration.range = location.range).filter fun declaration => declaration.kind.isType) := by
  have hlocations : workspace.answers.resolveDefinitions uri position =
    .ok (workspace.definitionsAt uri position) := rfl
  have hfound : (workspace.definitionsAt uri position).mapM (fun location =>
      workspace.answers.findDeclaration location.uri location.range) = .ok _ :=
    mapM_ok (fun _ => rfl) _
  rw [(Lookup.definitionsAt_agrees workspace.answersWith uri position (Lookup.start counts)
    (by rintro _ _ ⟨⟩)).1, Answers.definitionsAt_of_ok hlocations, hfound, Except.map,
    List.filterMap_map]
  rfl

end Workspace

/-! ## Outlined types -/

/-- The types outlined in a source file, in outline order. -/
def outlinedTypes (source : String × String) : List Declaration :=
  (outline source.2.toList).map
    (Declaration.ofSymbol source.1 (LineMap.ofText source.2.toList))

/-- The outlined types with a name, as seen from the file `uri`: those of that file if there are any,
    otherwise those of all files in order. -/
def typesNamed (sources : List (String × String)) (uri name : String) : List Declaration :=
  let named (sources : List (String × String)) : List Declaration :=
    (sources.flatMap outlinedTypes).filter fun declaration => declaration.name = name
  let own := named (sources.filter fun source => source.1 = uri)
  if own = [] then named sources else own

theorem isType_of_mem_outline {source : Text} {symbol : DocumentSymbol}
    (h : symbol ∈ outline source) : symbol.kind.isType = true := by
  obtain ⟨spans, hsymbols, -⟩ := exists_spans source
  rw [hsymbols] at h
  obtain ⟨span, -, rfl⟩ := List.mem_map.mp h
  exact span.exists_announcement.1

/-- Types are looked at, not through. -/
theorem DocumentSymbol.declarationsOf_types (make : DocumentSymbol → Declaration)
    {symbols : List DocumentSymbol} (h : ∀ symbol ∈ symbols, symbol.kind.isType = true) :
    DocumentSymbol.declarationsOf make symbols = symbols.map make := by
  induction symbols with
  | nil => rw [declarationsOf]; rfl
  | cons symbol rest ih =>
    have htype := h symbol List.mem_cons_self
    obtain ⟨name, detail, kind, range, selection, children⟩ := symbol
    rw [declarationsOf, declarations, if_pos htype,
      ih fun other hother => h other (List.mem_cons_of_mem _ hother)]
    rfl

theorem declarations_ofSource (source : String × String) :
    (SourceDocument.ofSource source.1 source.2).declarations = outlinedTypes source :=
  DocumentSymbol.declarationsOf_types _ fun _ h => isType_of_mem_outline h

theorem uri_of_mem_outlinedTypes {source : String × String} {declaration : Declaration}
    (h : declaration ∈ outlinedTypes source) : declaration.uri = source.1 := by
  obtain ⟨symbol, -, rfl⟩ := List.mem_map.mp h
  rfl

/-- The ranges of the types in a file are different. -/
theorem nodup_ranges {source : String × String} (hsize : Text.byteSize source.2.toList < 4294967296) :
    ((outlinedTypes source).map Declaration.range).Nodup := by
  obtain ⟨spans, hsymbols, hordered⟩ := exists_spans source.2.toList
  rw [outlinedTypes, hsymbols, List.map_map, List.map_map, List.Nodup, List.pairwise_map]
  refine hordered.imp ?_
  intro a b hle heq
  have hlt : a.start < b.start := Nat.lt_of_lt_of_le a.start_lt_stop hle
  have hposition := (LineMap.positionAt_lt_iff hsize a.cutsAt_start b.cutsAt_start).mpr hlt
  have hstart : (LineMap.ofText source.2.toList).positionAt a.start =
      (LineMap.ofText source.2.toList).positionAt b.start := congrArg Range.start heq
  rw [hstart, Position.lt_iff_toPlace] at hposition
  exact Place.lt_irrefl _ hposition

theorem find?_of_nodup {α β : Type} [DecidableEq β] {f : α → β} {l : List α} (h : (l.map f).Nodup)
    {a : α} (ha : a ∈ l) : l.find? (fun b => f b = f a) = some a := by
  induction l with
  | nil => cases ha
  | cons b l ih =>
    rw [List.map_cons, List.nodup_cons] at h
    rcases List.mem_cons.mp ha with rfl | ha
    · exact List.find?_cons_of_pos (by simp)
    · have hne : f b ≠ f a := fun heq => h.1 (heq ▸ List.mem_map_of_mem ha)
      rw [List.find?_cons_of_neg (by simpa using hne)]
      exact ih h.2 ha

/-! ## Targets of links -/

/-- The targets of the links of a document whose range contains a position. -/
def targetsAmong (links : List DefinitionLink) (uri : String) (position : Position) : List Location :=
  (links.filter fun link => link.uri = uri && link.range.contains position).flatMap
    DefinitionLink.targets

theorem targetsAmong_flatMap {α : Type} (l : List α) (links : α → List DefinitionLink) (uri : String)
    (position : Position) :
    targetsAmong (l.flatMap links) uri position =
      l.flatMap fun a => targetsAmong (links a) uri position := by
  rw [targetsAmong, List.filter_flatMap, List.flatMap_assoc]
  rfl

theorem targetsAmong_eq_nil {links : List DefinitionLink} {uri : String} {position : Position}
    (h : ∀ link ∈ links, link.uri ≠ uri) : targetsAmong links uri position = [] := by
  rw [targetsAmong, List.filter_eq_nil_iff.mpr, List.flatMap_nil]
  intro link hlink
  simp [h link hlink]

/-- The link of a word, if it names a declared type. -/
def wordLink? (declared : List (String × Location)) (uri : String) (map : LineMap)
    (found : Nat × Text) : Option DefinitionLink :=
  match targetsFor declared (String.ofList found.2) uri with
  | [] => none
  | targets => some ⟨uri, map.rangeBetween found.1 (found.1 + found.2.byteSize), targets⟩

theorem links_eq (declared : List (String × Location)) (document : SourceDocument) :
    document.links declared = document.symbols.flatMap fun symbol =>
      (headWords (LineMap.ofText document.text.toList) symbol).filterMap
        (wordLink? declared document.uri (LineMap.ofText document.text.toList)) := rfl

theorem uri_of_mem_links {declared : List (String × Location)} {document : SourceDocument}
    {link : DefinitionLink} (h : link ∈ document.links declared) : link.uri = document.uri := by
  rw [links_eq] at h
  obtain ⟨symbol, -, hlink⟩ := List.mem_flatMap.mp h
  obtain ⟨found, -, hfound⟩ := List.mem_filterMap.mp hlink
  rw [wordLink?] at hfound
  split at hfound
  · cases hfound
  · cases hfound
    rfl

/-- Among the links of some words, those of the words over a place count. -/
theorem targetsAmong_wordLinks {source : Text} (hsize : source.byteSize < 4294967296) {place : Nat}
    (hplace : source.CutsAt place) (declared : List (String × Location)) (uri : String)
    {words : List (Nat × Text)} (hwords : ∀ found ∈ words,
      source.CutsAt found.1 ∧ source.CutsAt (found.1 + found.2.byteSize)) :
    targetsAmong (words.filterMap (wordLink? declared uri (LineMap.ofText source))) uri
        ((LineMap.ofText source).positionAt place) =
      (words.filter (Text.covers place)).flatMap fun found =>
        targetsFor declared (String.ofList found.2) uri := by
  induction words with
  | nil => rfl
  | cons found words ih =>
    have hrest := ih fun other hother => hwords other (List.mem_cons_of_mem _ hother)
    obtain ⟨hstart, hstop⟩ := hwords found List.mem_cons_self
    have hcontains : ((LineMap.ofText source).rangeBetween found.1
        (found.1 + found.2.byteSize)).contains ((LineMap.ofText source).positionAt place) =
          Text.covers place found := by
      rw [Bool.eq_iff_iff, LineMap.contains_rangeBetween_iff hsize hstart hstop hplace, Text.covers,
        Bool.and_eq_true, decide_eq_true_iff, decide_eq_true_iff]
    cases htargets : targetsFor declared (String.ofList found.2) uri with
    | nil =>
      have hlink : wordLink? declared uri (LineMap.ofText source) found = none := by
        rw [wordLink?, htargets]
      rw [List.filterMap_cons_none hlink, hrest, List.filter_cons]
      split
      · rw [List.flatMap_cons, htargets, List.nil_append]
      · rfl
    | cons target more =>
      have hlink : wordLink? declared uri (LineMap.ofText source) found = some ⟨uri,
          (LineMap.ofText source).rangeBetween found.1 (found.1 + found.2.byteSize),
          target :: more⟩ := by
        rw [wordLink?, htargets]
      rw [List.filterMap_cons_some hlink, targetsAmong, List.filter_cons, hcontains, decide_eq_true rfl,
        Bool.true_and, List.filter_cons]
      split
      · rw [List.flatMap_cons, List.flatMap_cons, htargets, ← hrest]
        rfl
      · exact hrest

namespace TypeSpan

variable {source : Text} {declared : List (String × Location)} {uri : String}

/-- The targets of the links of a span that lies elsewhere. -/
theorem targetsAmong_of_apart (hsize : source.byteSize < 4294967296) (span : TypeSpan source)
    {place : Nat} (hplace : source.CutsAt place) (hapart : span.stop ≤ place ∨ place < span.start) :
    targetsAmong ((headWords (LineMap.ofText source) span.symbol).filterMap
      (wordLink? declared uri (LineMap.ofText source))) uri
        ((LineMap.ofText source).positionAt place) = [] := by
  rw [targetsAmong_wordLinks hsize hplace declared uri, List.filter_eq_nil_iff.mpr, List.flatMap_nil]
  · intro found hfound
    obtain ⟨-, -, hstart, hstop⟩ := span.exists_of_mem_headWords hsize hfound
    simp only [Text.covers, Bool.and_eq_true, decide_eq_true_iff]
    omega
  · intro found hfound
    obtain ⟨hstart, hstop, -⟩ := span.exists_of_mem_headWords hsize hfound
    exact ⟨hstart, hstop⟩

/-- The targets of the links of a span at one of its references. -/
theorem targetsAmong_reference (hsize : source.byteSize < 4294967296) (span : TypeSpan source)
    {front back : Text} (h : span.RefersBetween front back) :
    targetsAmong ((headWords (LineMap.ofText source) span.symbol).filterMap
      (wordLink? declared uri (LineMap.ofText source))) uri
        ((LineMap.ofText source).positionAt (span.start + front.byteSize)) =
      if back.head?.any Text.isIdentifierStart then
        targetsFor declared (String.ofList back.word) uri
      else [] := by
  rw [targetsAmong_wordLinks hsize (span.cutsAt_add h.text_eq) declared uri,
    span.filter_headWords hsize h]
  · split
    · exact List.flatMap_singleton _ _
    · rfl
  · intro found hfound
    obtain ⟨hstart, hstop, -⟩ := span.exists_of_mem_headWords hsize hfound
    exact ⟨hstart, hstop⟩

end TypeSpan

theorem flatMap_eq_of_others {α β : Type} {l before after : List α} {a : α} {f : α → List β}
    (hl : l = before ++ a :: after) (hbefore : ∀ b ∈ before, f b = [])
    (hafter : ∀ b ∈ after, f b = []) : l.flatMap f = f a := by
  rw [hl, List.flatMap_append, List.flatMap_cons, List.flatMap_eq_nil_iff.mpr hbefore,
    List.flatMap_eq_nil_iff.mpr hafter, List.nil_append, List.append_nil]

/-- The targets of the links of a document at a reference of one of its types. -/
theorem targetsAmong_links (declared : List (String × Location)) {uri text : String}
    (hsize : Text.byteSize text.toList < 4294967296) {spans : List (TypeSpan text.toList)}
    (hsymbols : outline text.toList = spans.map TypeSpan.symbol)
    (hordered : spans.Pairwise fun a b => a.stop ≤ b.start) {span : TypeSpan text.toList}
    (hspan : span ∈ spans) {front back : Text} (h : span.RefersBetween front back) :
    targetsAmong ((SourceDocument.ofSource uri text).links declared) uri
        ((LineMap.ofText text.toList).positionAt (span.start + front.byteSize)) =
      if back.head?.any Text.isIdentifierStart then
        targetsFor declared (String.ofList back.word) uri
      else [] := by
  have hplace := h.lt_stop
  obtain ⟨before, after, rfl⟩ := List.append_of_mem hspan
  obtain ⟨-, hafter, hbefore⟩ := List.pairwise_append.mp hordered
  have hsymbols' : (SourceDocument.ofSource uri text).symbols =
      before.map TypeSpan.symbol ++ span.symbol :: after.map TypeSpan.symbol := by
    rw [← List.map_cons, ← List.map_append, ← hsymbols]
    rfl
  rw [links_eq, targetsAmong_flatMap, flatMap_eq_of_others hsymbols']
  · exact span.targetsAmong_reference hsize h
  · intro symbol hsymbol
    obtain ⟨other, hother, rfl⟩ := List.mem_map.mp hsymbol
    have := hbefore other hother span List.mem_cons_self
    exact other.targetsAmong_of_apart hsize (span.cutsAt_add h.text_eq) (.inl (by omega))
  · intro symbol hsymbol
    obtain ⟨other, hother, rfl⟩ := List.mem_map.mp hsymbol
    have := List.rel_of_pairwise_cons hafter hother
    exact other.targetsAmong_of_apart hsize (span.cutsAt_add h.text_eq) (.inr (by omega))

/-! ## Definitions of references -/

section Sources

variable {sources : List (String × String)}

theorem documents_ofSources (sources : List (String × String)) : (Snapshot.ofSources sources).documents =
    sources.map fun source => SourceDocument.ofSource source.1 source.2 := rfl

/-- The declared types are the outlined ones. -/
theorem declaredTypes_eq (sources : List (String × String)) :
    declaredTypes (sources.map fun source => SourceDocument.ofSource source.1 source.2) =
      (sources.flatMap outlinedTypes).map fun declaration =>
        (declaration.name, ⟨declaration.uri, declaration.range⟩) := by
  rw [declaredTypes, List.flatMap_map, List.map_flatMap]
  refine List.flatMap_congr fun source _ => ?_
  rw [outlinedTypes, List.map_map]
  rfl

/-- The types of a file among all. -/
theorem filter_uri_outlinedTypes (sources : List (String × String)) (uri : String) :
    (sources.flatMap outlinedTypes).filter (fun declaration => declaration.uri = uri) =
      (sources.filter fun source => source.1 = uri).flatMap outlinedTypes := by
  induction sources with
  | nil => rfl
  | cons source sources ih =>
    rw [List.flatMap_cons, List.filter_append, ih]
    by_cases huri : source.1 = uri
    · have hall : (outlinedTypes source).filter (fun declaration => declaration.uri = uri) =
          outlinedTypes source := List.filter_eq_self.mpr fun declaration hmem => by
        simp [uri_of_mem_outlinedTypes hmem, huri]
      rw [hall, List.filter_cons_of_pos (by simpa using huri), List.flatMap_cons]
    · have hnone : (outlinedTypes source).filter (fun declaration => declaration.uri = uri) = [] :=
        List.filter_eq_nil_iff.mpr fun declaration hmem => by
          simp [uri_of_mem_outlinedTypes hmem, huri]
      rw [hnone, List.filter_cons_of_neg (by simpa using huri), List.nil_append]

/-- The targets for a name are the places of the types that have it. -/
theorem targetsFor_eq (sources : List (String × String)) (uri name : String) :
    targetsFor (declaredTypes (sources.map fun source => SourceDocument.ofSource source.1 source.2))
        name uri =
      (typesNamed sources uri name).map fun declaration => ⟨declaration.uri, declaration.range⟩ := by
  have hnamed : (((sources.flatMap outlinedTypes).map fun declaration => (declaration.name,
      (⟨declaration.uri, declaration.range⟩ : Location))).filter fun entry => entry.1 = name).map
        Prod.snd =
      ((sources.flatMap outlinedTypes).filter fun declaration => declaration.name = name).map
        fun declaration => ⟨declaration.uri, declaration.range⟩ := by
    rw [List.filter_map, List.map_map]
    rfl
  have hown : (((sources.flatMap outlinedTypes).filter fun declaration =>
      declaration.name = name).map fun declaration =>
        (⟨declaration.uri, declaration.range⟩ : Location)).filter (fun location =>
          location.uri = uri) =
      (((sources.filter fun source => source.1 = uri).flatMap outlinedTypes).filter fun declaration =>
        declaration.name = name).map fun declaration => ⟨declaration.uri, declaration.range⟩ := by
    rw [List.filter_map, ← filter_uri_outlinedTypes, List.filter_filter, List.filter_filter]
    simp only [Bool.and_comm]
    rfl
  rw [targetsFor, declaredTypes_eq, hnamed, hown, typesNamed]
  dsimp only
  by_cases hnone : ((sources.filter fun source => source.1 = uri).flatMap outlinedTypes).filter
      (fun declaration => declaration.name = name) = []
  · rw [if_pos hnone, hnone]
    rfl
  · rw [if_neg hnone]
    obtain ⟨first, more, hcons⟩ := List.exists_cons_of_ne_nil hnone
    rw [hcons]
    rfl

/-- A file lists its outlined types. -/
theorem declarations_ofSources (hdistinct : (sources.map Prod.fst).Nodup) {source : String × String}
    (hmem : source ∈ sources) :
    (Workspace.ofSnapshot (.ofSources sources)).declarations source.1 = outlinedTypes source := by
  have huris : ((Snapshot.ofSources sources).documents.map SourceDocument.uri).Nodup := by
    rw [documents_ofSources, List.map_map]
    exact hdistinct
  rw [← declarations_ofSource]
  exact Workspace.declarations_ofSnapshot_of_mem huris (List.mem_map_of_mem hmem)

theorem exists_of_lists_ofSources (hdistinct : (sources.map Prod.fst).Nodup)
    {declaration : Declaration}
    (h : (Workspace.ofSnapshot (.ofSources sources)).Lists declaration) :
    ∃ source ∈ sources, declaration ∈ outlinedTypes source := by
  obtain ⟨uri, hmem⟩ := h
  by_cases huri : uri ∈ sources.map Prod.fst
  · obtain ⟨source, hsource, rfl⟩ := List.mem_map.mp huri
    rw [declarations_ofSources hdistinct hsource] at hmem
    exact ⟨source, hsource, hmem⟩
  · have huri' : uri ∉ (Snapshot.ofSources sources).documents.map SourceDocument.uri := by
      rw [documents_ofSources, List.map_map]
      exact huri
    rw [Workspace.declarations_ofSnapshot_of_not_mem huri'] at hmem
    cases hmem

/-- An outlined type is found by its place. -/
theorem find?_range_of_mem (hdistinct : (sources.map Prod.fst).Nodup)
    (hsize : ∀ source ∈ sources, Text.byteSize source.2.toList < 4294967296)
    {declaration : Declaration} (h : declaration ∈ sources.flatMap outlinedTypes) :
    ((Workspace.ofSnapshot (.ofSources sources)).declarations declaration.uri).find?
      (fun other => other.range = declaration.range) = some declaration := by
  obtain ⟨source, hsource, hmem⟩ := List.mem_flatMap.mp h
  rw [uri_of_mem_outlinedTypes hmem, declarations_ofSources hdistinct hsource]
  exact find?_of_nodup (nodup_ranges (hsize source hsource)) hmem

/-- The targets at a reference, among the links of all files: those of the other files are not asked. -/
theorem definitionsAt_ofSources (hdistinct : (sources.map Prod.fst).Nodup) {uri text : String}
    (hsource : (uri, text) ∈ sources) (hsize : Text.byteSize text.toList < 4294967296)
    {spans : List (TypeSpan text.toList)}
    (hsymbols : outline text.toList = spans.map TypeSpan.symbol)
    (hordered : spans.Pairwise fun a b => a.stop ≤ b.start) {span : TypeSpan text.toList}
    (hspan : span ∈ spans) {front back : Text} (h : span.RefersBetween front back) :
    (Workspace.ofSnapshot (.ofSources sources)).definitionsAt uri
        ((LineMap.ofText text.toList).positionAt (span.start + front.byteSize)) =
      if back.head?.any Text.isIdentifierStart then
        targetsFor (declaredTypes
          (sources.map fun source => SourceDocument.ofSource source.1 source.2))
          (String.ofList back.word) uri
      else [] := by
  obtain ⟨before, after, rfl⟩ := List.append_of_mem hsource
  have hothers : ∀ source ∈ before ++ after, source.1 ≠ uri := by
    rw [List.map_append, List.map_cons, List.nodup_middle, List.nodup_cons, ← List.map_append]
      at hdistinct
    intro source hmem heq
    exact hdistinct.1 (List.mem_map.mpr ⟨source, hmem, heq⟩)
  have hempty : ∀ source ∈ before ++ after, ∀ declared position,
      targetsAmong ((SourceDocument.ofSource source.1 source.2).links declared) uri position = [] :=
    fun source hmem declared position => targetsAmong_eq_nil fun link hlink =>
      uri_of_mem_links hlink ▸ hothers source hmem
  rw [← targetsAmong_links _ hsize hsymbols hordered hspan h]
  show targetsAmong (Workspace.ofSnapshot _).definitions uri _ = _
  rw [Workspace.definitions_ofSnapshot, Snapshot.ofSources]
  dsimp only
  rw [List.flatMap_map, targetsAmong_flatMap, flatMap_eq_of_others rfl]
  · exact fun source hmem => hempty source (List.mem_append_left _ hmem) _ _
  · exact fun source hmem => hempty source (List.mem_append_right _ hmem) _ _

theorem mem_of_mem_typesNamed {uri name : String} {declaration : Declaration}
    (h : declaration ∈ typesNamed sources uri name) : declaration ∈ sources.flatMap outlinedTypes := by
  rw [typesNamed] at h
  dsimp only at h
  split at h
  · exact (List.mem_filter.mp h).1
  · obtain ⟨source, hsource, hmem⟩ := List.mem_flatMap.mp (List.mem_filter.mp h).1
    exact List.mem_flatMap.mpr ⟨source, (List.mem_filter.mp hsource).1, hmem⟩

/-- A lookup that leads to the places of outlined types finds these types. -/
theorem exec_definitionsAt_of_targets (hdistinct : (sources.map Prod.fst).Nodup)
    (hsize : ∀ source ∈ sources, Text.byteSize source.2.toList < 4294967296) {uri : String}
    {position : Position} {found : List Declaration}
    (hfound : ∀ declaration ∈ found, declaration ∈ sources.flatMap outlinedTypes)
    (h : (Workspace.ofSnapshot (.ofSources sources)).definitionsAt uri position =
      found.map fun declaration => ⟨declaration.uri, declaration.range⟩) (counts : ServiceCounts) :
    (exec (Lookup.definitionsAt (Workspace.ofSnapshot (.ofSources sources)).services uri position)
      (Lookup.start counts)).1 = .ok found := by
  have htypes : ∀ declaration ∈ found, declaration.kind.isType = true := by
    intro declaration hmem
    obtain ⟨source, -, hmem⟩ := List.mem_flatMap.mp (hfound declaration hmem)
    obtain ⟨symbol, hsymbol, rfl⟩ := List.mem_map.mp hmem
    exact isType_of_mem_outline hsymbol
  have hplaces : found.filterMap ((fun location : Location =>
      ((Workspace.ofSnapshot (.ofSources sources)).declarations location.uri).find?
        fun other => decide (other.range = location.range)) ∘
          fun declaration => ⟨declaration.uri, declaration.range⟩) = found := by
    rw [List.filterMap_congr (g := some), List.filterMap_some]
    intro declaration hmem
    exact find?_range_of_mem hdistinct hsize (hfound declaration hmem)
  rw [Workspace.exec_definitionsAt, h, List.filterMap_map, hplaces, List.filter_eq_self.mpr htypes]

/-- **References lead to the types they name.** In the workspace of some files, each reference of a
    declaration stands at a cut of its text. If no brace stands before it, it has a position, and a
    first lookup there finds the types with the name that is written there: those of the same file,
    or else those of all files. Where no name starts, it finds nothing. -/
theorem definitionsAt_reference (hdistinct : (sources.map Prod.fst).Nodup)
    (hsize : ∀ source ∈ sources, Text.byteSize source.2.toList < 2147483648)
    {declaration : Declaration}
    (hlists : (Workspace.ofSnapshot (.ofSources sources)).Lists declaration) {offset : Nat}
    (hoffset : offset ∈ (scan declaration.text.toList).offsets) :
    ∃ front back : Text, declaration.text.toList = front ++ back ∧ front.byteSize = offset ∧
      ('{' ∉ front → ∃ position,
        positionOf (LineMap.ofText declaration.text.toList) declaration.range.start offset =
          some position ∧
        ∀ counts, (exec (Lookup.definitionsAt
            (Workspace.ofSnapshot (.ofSources sources)).services declaration.uri position)
            (Lookup.start counts)).1 =
          .ok (if back.head?.any Text.isIdentifierStart then
              typesNamed sources declaration.uri (String.ofList back.word)
            else [])) := by
  have hsize' : ∀ source ∈ sources, Text.byteSize source.2.toList < 4294967296 :=
    fun source hmem => Nat.lt_trans (hsize source hmem) (by decide)
  obtain ⟨⟨uri, text⟩, hsource, hmem⟩ := exists_of_lists_ofSources hdistinct hlists
  obtain ⟨spans, hsymbols, hordered⟩ := exists_spans text.toList
  obtain ⟨symbol, hsymbol, rfl⟩ := List.mem_map.mp hmem
  rw [hsymbols] at hsymbol
  obtain ⟨span, hspan, rfl⟩ := List.mem_map.mp hsymbol
  have hspanText : (Declaration.ofSymbol uri (LineMap.ofText text.toList) span.symbol).text.toList =
      span.text := by
    rw [Declaration.ofSymbol]
    dsimp only
    rw [span.slice?_range (hsize' _ hsource), Option.getD_some, String.toList_ofList]
  dsimp only at hspanText hoffset ⊢
  rw [hspanText] at hoffset ⊢
  obtain ⟨front, back, htext, rfl, hword⟩ := cutsBetweenWords_of_mem_scan hoffset
  refine ⟨front, back, htext, rfl, fun hbrace => ?_⟩
  refine ⟨_, span.positionOf_eq (hsize' _ hsource) htext, ?_⟩
  have htargets := definitionsAt_ofSources hdistinct hsource (hsize' _ hsource) hsymbols hordered hspan
    ⟨htext, hoffset, hword, hbrace⟩
  by_cases hname : back.head?.any Text.isIdentifierStart = true
  · rw [if_pos hname, targetsFor_eq] at htargets
    rw [if_pos hname]
    exact exec_definitionsAt_of_targets hdistinct hsize' (fun _ hmem => mem_of_mem_typesNamed hmem)
      htargets
  · rw [if_neg hname] at htargets ⊢
    exact exec_definitionsAt_of_targets hdistinct hsize' (by rintro _ ⟨⟩) htargets

end Sources

/-- Two files, the first of which has a class with a reference into the second behind a digit. -/
def sampleSources : List (String × String) :=
  [("a", "interface I {}\r\nclass B extends 1A implements I {}"), ("b", "class A {}")]

/-- The class of the first file. -/
def sampleReferrer : Declaration :=
  ⟨"B", .classType, "a", ⟨⟨1, 0⟩, ⟨1, 34⟩⟩, "class B extends 1A implements I {}", []⟩

theorem definitionsAt_sampleSources :
    ∃ position,
      positionOf (LineMap.ofText sampleReferrer.text.toList) sampleReferrer.range.start 17 =
        some position ∧
      ∀ counts, (exec (Lookup.definitionsAt
          (Workspace.ofSnapshot (.ofSources sampleSources)).services "a" position)
          (Lookup.start counts)).1 =
        .ok [⟨"A", .classType, "b", ⟨⟨0, 0⟩, ⟨0, 10⟩⟩, "class A {}", []⟩] := by
  have hdistinct : (sampleSources.map Prod.fst).Nodup := by decide
  have hsize : ∀ source ∈ sampleSources, Text.byteSize source.2.toList < 2147483648 := by decide
  have hlists : (Workspace.ofSnapshot (.ofSources sampleSources)).Lists sampleReferrer :=
    ⟨"a", by decide +kernel⟩
  have hoffset : 17 ∈ (scan sampleReferrer.text.toList).offsets := by decide +kernel
  obtain ⟨front, back, htext, hfront, hdefinitions⟩ :=
    definitionsAt_reference hdistinct hsize hlists hoffset
  -- the cut at the reference
  have hcut := Text.splitAt?_append front back
  have hcut' : Text.splitAt? 17 sampleReferrer.text.toList =
      some ("class B extends 1".toList, "A implements I {}".toList) := by decide
  rw [← htext, hfront, hcut'] at hcut
  cases hcut
  have hnamed : typesNamed sampleSources "a" "A" =
      [⟨"A", .classType, "b", ⟨⟨0, 0⟩, ⟨0, 10⟩⟩, "class A {}", []⟩] := by decide +kernel
  rw [← hnamed]
  exact hdefinitions (by decide)

end Lineage
