import Lineage.Proofs.Execution
import Lineage.Proofs.Workspace.Listing
import Lineage.Services
import Mathlib.Data.List.Forall2
import Mathlib.Data.List.Induction

set_option autoImplicit false

/-! # What a workspace holds after a history of additions

Documents and definition links are added in any order, and a uri may come again. After all of it the
workspace answers from the history alone (`ofAdditions_stores`): the uris are those added, each where it
first came; a uri has the declarations of the last document added under it; and a position has the
targets of all links over it, in order of addition. A snapshot is a history in which the documents come
first, so what it makes of a workspace follows.

The declarations of a document are said here without the recursion that finds them: out of all symbols
in pre-order, each with the symbols around it, they are the classes and interfaces around which there
are only groups. -/

namespace Lineage

/-! ## Symbols in pre-order -/

mutual

/-- A symbol and all symbols inside it in pre-order, each with the symbols around it from the outermost
    on. Around the first there are `ancestors`. -/
def DocumentSymbol.preorder (ancestors : List DocumentSymbol) :
    DocumentSymbol → List (List DocumentSymbol × DocumentSymbol)
  | ⟨name, detail, kind, range, selection, children⟩ =>
    let symbol := ⟨name, detail, kind, range, selection, children⟩
    (ancestors, symbol) :: DocumentSymbol.preorderOf (ancestors ++ [symbol]) children

/-- All symbols of a forest in pre-order, each with the symbols around it. -/
def DocumentSymbol.preorderOf (ancestors : List DocumentSymbol) :
    List DocumentSymbol → List (List DocumentSymbol × DocumentSymbol)
  | [] => []
  | symbol :: rest => symbol.preorder ancestors ++ DocumentSymbol.preorderOf ancestors rest

end

theorem SymbolKind.isContainer_iff {kind : SymbolKind} :
    kind.isContainer = true ↔
      kind ∈ [SymbolKind.file, .moduleScope, .namespaceScope, .package] := by
  cases kind <;> decide

namespace DocumentSymbol

theorem preorder_eq (ancestors : List DocumentSymbol) (symbol : DocumentSymbol) :
    symbol.preorder ancestors =
      (ancestors, symbol) :: preorderOf (ancestors ++ [symbol]) symbol.children := by
  obtain ⟨name, detail, kind, range, selection, children⟩ := symbol
  rw [preorder]

theorem declarations_eq (make : DocumentSymbol → Declaration) (symbol : DocumentSymbol) :
    symbol.declarations make =
      if symbol.kind.isType then [make symbol]
      else if symbol.kind.isContainer then declarationsOf make symbol.children
      else [] := by
  obtain ⟨name, detail, kind, range, selection, children⟩ := symbol
  rw [declarations]

/-- A class or interface around which there are only files, modules, namespaces and packages. -/
def IsDeclared (ancestors : List DocumentSymbol) (symbol : DocumentSymbol) : Prop :=
  (symbol.kind = .classType ∨ symbol.kind = .interfaceType) ∧
    ∀ ancestor ∈ ancestors, ancestor.kind ∈
      [SymbolKind.file, .moduleScope, .namespaceScope, .package]

instance (ancestors : List DocumentSymbol) (symbol : DocumentSymbol) :
    Decidable (IsDeclared ancestors symbol) :=
  inferInstanceAs (Decidable (_ ∧ _))

/-- The declared symbols of a forest that stands inside of `ancestors`, in pre-order. -/
def declaredOf (ancestors symbols : List DocumentSymbol) : List DocumentSymbol :=
  ((preorderOf ancestors symbols).filter fun entry => IsDeclared entry.1 entry.2).map Prod.snd

mutual

/-- The symbols around a symbol are also around all symbols inside it. -/
theorem subset_of_mem_preorder {ancestors : List DocumentSymbol}
    {entry : List DocumentSymbol × DocumentSymbol} : (symbol : DocumentSymbol) →
    entry ∈ symbol.preorder ancestors → ancestors ⊆ entry.1
  | ⟨name, detail, kind, range, selection, children⟩ => by
    intro h
    rw [preorder] at h
    rcases List.mem_cons.mp h with rfl | hmem
    · exact List.Subset.refl _
    · exact List.Subset.trans (List.subset_append_left _ _) (subset_of_mem_preorderOf children hmem)

theorem subset_of_mem_preorderOf {ancestors : List DocumentSymbol}
    {entry : List DocumentSymbol × DocumentSymbol} : (symbols : List DocumentSymbol) →
    entry ∈ preorderOf ancestors symbols → ancestors ⊆ entry.1
  | [] => by
    intro h
    cases h
  | symbol :: rest => by
    intro h
    rw [preorderOf] at h
    rcases List.mem_append.mp h with hfirst | hrest
    · exact subset_of_mem_preorder symbol hfirst
    · exact subset_of_mem_preorderOf rest hrest

end

/-- Inside of anything but a group nothing is declared. -/
theorem declaredOf_eq_nil {ancestors : List DocumentSymbol} {ancestor : DocumentSymbol}
    (hmem : ancestor ∈ ancestors) (hkind : ¬ ancestor.kind.isContainer = true)
    (symbols : List DocumentSymbol) : declaredOf ancestors symbols = [] := by
  rw [declaredOf, List.map_eq_nil_iff, List.filter_eq_nil_iff]
  intro entry hentry hdeclared
  have hgroup := (of_decide_eq_true hdeclared).2 ancestor
    (subset_of_mem_preorderOf symbols hentry hmem)
  exact hkind (SymbolKind.isContainer_iff.mpr hgroup)

theorem declaredOf_cons (ancestors : List DocumentSymbol) (symbol : DocumentSymbol)
    (rest : List DocumentSymbol) :
    declaredOf ancestors (symbol :: rest) =
      (if IsDeclared ancestors symbol then [symbol] else []) ++
        declaredOf (ancestors ++ [symbol]) symbol.children ++ declaredOf ancestors rest := by
  rw [declaredOf, preorderOf, preorder_eq, List.filter_append, List.map_append, List.filter_cons]
  split <;> simp_all [declaredOf]

theorem isDeclared_iff {ancestors : List DocumentSymbol}
    (hgroups : ∀ ancestor ∈ ancestors, ancestor.kind.isContainer = true) (symbol : DocumentSymbol) :
    IsDeclared ancestors symbol ↔ symbol.kind.isType = true := by
  rw [IsDeclared, SymbolKind.isType_iff]
  exact and_iff_left fun ancestor hmem => SymbolKind.isContainer_iff.mp (hgroups ancestor hmem)

/-- One symbol: a type is declared itself and nothing inside it is, a group only leads to what is
    inside it, and any other symbol has neither. -/
theorem declarations_of_children (make : DocumentSymbol → Declaration)
    {ancestors : List DocumentSymbol}
    (hgroups : ∀ ancestor ∈ ancestors, ancestor.kind.isContainer = true) (symbol : DocumentSymbol)
    (hchildren : symbol.kind.isContainer = true → declarationsOf make symbol.children =
      (declaredOf (ancestors ++ [symbol]) symbol.children).map make) :
    symbol.declarations make = ((if IsDeclared ancestors symbol then [symbol] else []) ++
      declaredOf (ancestors ++ [symbol]) symbol.children).map make := by
  have hnone : ¬ symbol.kind.isContainer = true →
      declaredOf (ancestors ++ [symbol]) symbol.children = [] := fun hgroup =>
    declaredOf_eq_nil List.mem_concat_self hgroup symbol.children
  rw [declarations_eq]
  by_cases htype : symbol.kind.isType = true
  · have hgroup : ¬ symbol.kind.isContainer = true := by
      rcases SymbolKind.isType_iff.mp htype with hkind | hkind <;> rw [hkind] <;> decide
    rw [if_pos htype, if_pos ((isDeclared_iff hgroups symbol).mpr htype), hnone hgroup]
    rfl
  · rw [if_neg htype, if_neg (mt (isDeclared_iff hgroups symbol).mp htype), List.nil_append]
    by_cases hgroup : symbol.kind.isContainer = true
    · rw [if_pos hgroup, hchildren hgroup]
    · rw [if_neg hgroup, hnone hgroup]
      rfl

/-- **Flattening.** The declarations of a forest inside of groups are its declared symbols, in
    pre-order. -/
theorem declarationsOf_eq (make : DocumentSymbol → Declaration) {ancestors : List DocumentSymbol}
    (hgroups : ∀ ancestor ∈ ancestors, ancestor.kind.isContainer = true) :
    (symbols : List DocumentSymbol) →
    declarationsOf make symbols = (declaredOf ancestors symbols).map make
  | [] => rfl
  | ⟨name, detail, kind, range, selection, children⟩ :: rest => by
    rw [declarationsOf, declarationsOf_eq make hgroups rest, declaredOf_cons, List.map_append]
    congr 1
    refine declarations_of_children make hgroups _ fun hgroup => declarationsOf_eq make ?_ children
    exact List.forall_mem_append.mpr ⟨hgroups, List.forall_mem_singleton.mpr hgroup⟩

/-- Groups are looked through at any depth; what is inside a class or an enumeration does not count. -/
example :
    let node (name : String) (kind : SymbolKind) (children : List DocumentSymbol) : DocumentSymbol :=
      ⟨name, none, kind, ⟨.zero, .zero⟩, ⟨.zero, .zero⟩, children⟩
    let inner := node "C" .classType []
    (declaredOf [] [
      node "N" .namespaceScope [node "A" .classType [inner], node "E" .enumeration [inner],
        node "M" .moduleScope [node "I" .interfaceType []]],
      node "B" .classType []]).map DocumentSymbol.name = ["A", "I", "B"] := by
  decide

end DocumentSymbol

/-! ## What a document declares -/

namespace SourceDocument

/-- The text of a range of a document, none for a range outside of it. -/
def textOf (document : SourceDocument) (range : Range) : String :=
  String.ofList (((LineMap.ofText document.text.toList).slice? range).getD [])

/-- A declaration that stands for a symbol of a document: it has the symbol's name, kind and range and
    the text of the range, and its members are the symbol's children. -/
structure Declares (document : SourceDocument) (symbol : DocumentSymbol)
    (declaration : Declaration) : Prop where
  key_eq : declaration.key = ⟨symbol.name, symbol.kind, document.uri, symbol.range⟩
  text_eq : declaration.text = document.textOf symbol.range
  members_eq : declaration.members = symbol.children.map fun child =>
    ⟨child.name, child.kind, document.uri, child.range, document.textOf child.range⟩

/-- A document declares its classes and interfaces, in pre-order. -/
theorem declares_declarations (document : SourceDocument) :
    List.Forall₂ document.Declares (DocumentSymbol.declaredOf [] document.symbols)
      document.declarations := by
  rw [declarations, DocumentSymbol.declarationsOf_eq _ (List.forall_mem_nil _),
    List.forall₂_map_right_iff, List.forall₂_same]
  intro symbol _
  exact ⟨rfl, rfl, rfl⟩

end SourceDocument

/-! ## Histories -/

namespace Workspace

/-- What is added to a workspace at a time. -/
inductive Addition where
  | document (document : SourceDocument)
  | link (link : DefinitionLink)

/-- The document that is added, if it is one. -/
def Addition.document? : Addition → Option SourceDocument
  | .document added => some added
  | .link _ => none

/-- The link that is added, if it is one. -/
def Addition.link? : Addition → Option DefinitionLink
  | .document _ => none
  | .link added => some added

/-- The workspace with one addition. -/
def add (workspace : Workspace) : Addition → Workspace
  | .document document => workspace.addDocument document
  | .link link => workspace.addDefinition link

/-- The workspace after a history of additions. -/
def ofAdditions (additions : List Addition) : Workspace :=
  additions.foldl add empty

/-- The documents of a history, in order of addition. -/
def addedDocuments (additions : List Addition) : List SourceDocument :=
  additions.filterMap Addition.document?

/-- The definition links of a history, in order of addition. -/
def addedLinks (additions : List Addition) : List DefinitionLink :=
  additions.filterMap Addition.link?

/-- The last document of a history with a uri. -/
def lastDocument? (additions : List Addition) (uri : String) : Option SourceDocument :=
  ((addedDocuments additions).filter fun document => document.uri = uri).getLast?

section Concat

variable (additions : List Addition) (addition : Addition)

theorem ofAdditions_concat :
    ofAdditions (additions ++ [addition]) = (ofAdditions additions).add addition := by
  rw [ofAdditions, List.foldl_concat, ofAdditions]

theorem addedDocuments_concat :
    addedDocuments (additions ++ [addition]) =
      addedDocuments additions ++ addition.document?.toList := by
  rw [addedDocuments, List.filterMap_append, addedDocuments]
  cases addition <;> rfl

theorem addedLinks_concat :
    addedLinks (additions ++ [addition]) = addedLinks additions ++ addition.link?.toList := by
  rw [addedLinks, List.filterMap_append, addedLinks]
  cases addition <;> rfl

theorem lastDocument?_concat (uri : String) :
    lastDocument? (additions ++ [addition]) uri =
      (addition.document?.filter fun document => document.uri = uri).or
        (lastDocument? additions uri) := by
  rw [lastDocument?, addedDocuments_concat, List.filter_append, List.getLast?_append, lastDocument?]
  cases addition with
  | link link => rfl
  | document document =>
    by_cases huri : document.uri = uri <;> simp [Addition.document?, Option.filter_some, huri]

end Concat

/-- A uri that is new comes last, and one that is known keeps its place. -/
theorem uris_addDocument {workspace : Workspace} {known : List String}
    (h : workspace.uris = known.eraseDups) (document : SourceDocument) :
    (workspace.addDocument document).uris = (known ++ [document.uri]).eraseDups := by
  have hkeys : workspace.documents.keys = known.eraseDups := h
  rw [uris, addDocument, Assoc.keys_insert, hkeys, List.eraseDups_append]
  by_cases hmem : document.uri ∈ known
  · rw [if_pos (List.mem_eraseDups.mpr hmem)]
    simp [List.removeAll, hmem]
  · rw [if_neg fun hmem' => hmem (List.mem_eraseDups.mp hmem')]
    simp [List.removeAll, hmem, List.eraseDups_cons]

/-- The uris of a history come in the order in which they were first added. -/
theorem uris_ofAdditions (additions : List Addition) :
    (ofAdditions additions).uris =
      ((addedDocuments additions).map SourceDocument.uri).eraseDups := by
  induction additions using List.reverseRecOn with
  | nil => rfl
  | append_singleton additions addition ih =>
    rw [ofAdditions_concat, addedDocuments_concat, List.map_append]
    cases addition with
    | document document => exact uris_addDocument ih document
    | link link =>
      rw [Addition.document?, Option.toList_none, List.map_nil, List.append_nil]
      exact ih

/-- The declarations of a uri are those of the last document added under it. -/
theorem declarations_ofAdditions (additions : List Addition) (uri : String) :
    (ofAdditions additions).declarations uri =
      (lastDocument? additions uri).elim [] SourceDocument.declarations := by
  induction additions using List.reverseRecOn with
  | nil => rfl
  | append_singleton additions addition ih =>
    rw [ofAdditions_concat, lastDocument?_concat]
    cases addition with
    | document document =>
      rw [add, declarations_addDocument, ih]
      by_cases huri : document.uri = uri <;> simp [Addition.document?, Option.filter_some, huri]
    | link link => exact ih

/-- Links are kept in order of addition. -/
theorem definitions_ofAdditions (additions : List Addition) :
    (ofAdditions additions).definitions = addedLinks additions := by
  induction additions using List.reverseRecOn with
  | nil => rfl
  | append_singleton additions addition ih =>
    rw [ofAdditions_concat, addedLinks_concat, ← ih]
    cases addition with
    | document document => exact (List.append_nil _).symm
    | link link => rfl

theorem definitionsAt_eq_flatMap (workspace : Workspace) (uri : String) (position : Position) :
    workspace.definitionsAt uri position = workspace.definitions.flatMap fun link =>
      if link.uri = uri ∧ link.range.start ≤ position ∧ position < link.range.stop then link.targets
      else [] := by
  rw [definitionsAt]
  induction workspace.definitions with
  | nil => rfl
  | cons link rest ih =>
    have hover : (link.uri = uri && link.range.contains position) = true ↔
        link.uri = uri ∧ link.range.start ≤ position ∧ position < link.range.stop := by
      simp [Range.contains]
    rw [List.flatMap_cons, ← ih, List.filter_cons]
    by_cases hlink : link.uri = uri ∧ link.range.start ≤ position ∧ position < link.range.stop
    · rw [if_pos hlink, if_pos (hover.mpr hlink), List.flatMap_cons]
    · rw [if_neg hlink, if_neg (mt hover.mp hlink), List.nil_append]

/-- **A workspace stores what was added.** Whatever the history is, the uris are those added, each where
    it first came; the declarations of a uri stand for the classes and interfaces of the last
    document added under it, in pre-order; and looking up a position gives the targets of all links
    over it, in order of addition. -/
theorem ofAdditions_stores (additions : List Addition) :
    (ofAdditions additions).uris =
      ((addedDocuments additions).map SourceDocument.uri).eraseDups ∧
    (∀ uri, match lastDocument? additions uri with
      | none => (ofAdditions additions).declarations uri = []
      | some document => List.Forall₂ document.Declares
          (DocumentSymbol.declaredOf [] document.symbols) ((ofAdditions additions).declarations uri)) ∧
    ∀ uri position counts,
      exec ((ofAdditions additions).services.resolveDefinitions uri position) counts =
        (.ok ((addedLinks additions).flatMap fun link =>
          if link.uri = uri ∧ link.range.start ≤ position ∧ position < link.range.stop then
            link.targets
          else
            []), counts.countLookup) := by
  refine ⟨uris_ofAdditions additions, ?_, ?_⟩
  · intro uri
    rw [declarations_ofAdditions]
    cases lastDocument? additions uri with
    | none => rfl
    | some document => exact document.declares_declarations
  · intro uri position counts
    rw [← definitions_ofAdditions, ← definitionsAt_eq_flatMap]
    rfl

/-! ## Snapshots -/

/-- A snapshot is a history in which the documents come first. -/
theorem ofSnapshot_eq (snapshot : Snapshot) :
    ofSnapshot snapshot =
      ofAdditions (snapshot.documents.map .document ++ snapshot.definitions.map .link) := by
  rw [ofAdditions, List.foldl_append, List.foldl_map, List.foldl_map]
  rfl

theorem addedDocuments_snapshot (documents : List SourceDocument) (links : List DefinitionLink) :
    addedDocuments (documents.map .document ++ links.map .link) = documents := by
  have hdocuments : Addition.document? ∘ Addition.document = some := rfl
  have hlinks : Addition.document? ∘ Addition.link = fun _ => none := rfl
  rw [addedDocuments, List.filterMap_append, List.filterMap_map, List.filterMap_map, hdocuments,
    hlinks]
  simp

theorem addedLinks_snapshot (documents : List SourceDocument) (links : List DefinitionLink) :
    addedLinks (documents.map .document ++ links.map .link) = links := by
  have hdocuments : Addition.link? ∘ Addition.document = fun _ => none := rfl
  have hlinks : Addition.link? ∘ Addition.link = some := rfl
  rw [addedLinks, List.filterMap_append, List.filterMap_map, List.filterMap_map, hdocuments, hlinks]
  simp

/-- The documents of a workspace come in the order in which the snapshot first names them. -/
theorem uris_ofSnapshot (snapshot : Snapshot) :
    (ofSnapshot snapshot).uris = (snapshot.documents.map SourceDocument.uri).eraseDups := by
  rw [ofSnapshot_eq, uris_ofAdditions, addedDocuments_snapshot]

theorem definitions_ofSnapshot (snapshot : Snapshot) :
    (ofSnapshot snapshot).definitions = snapshot.definitions := by
  rw [ofSnapshot_eq, definitions_ofAdditions, addedLinks_snapshot]

theorem declarations_ofSnapshot (snapshot : Snapshot) (uri : String) :
    (ofSnapshot snapshot).declarations uri =
      (snapshot.documents.filter fun document => document.uri = uri).getLast?.elim []
        SourceDocument.declarations := by
  rw [ofSnapshot_eq, declarations_ofAdditions, lastDocument?, addedDocuments_snapshot]

theorem declarations_ofSnapshot_of_not_mem {snapshot : Snapshot} {uri : String}
    (h : uri ∉ snapshot.documents.map SourceDocument.uri) :
    (ofSnapshot snapshot).declarations uri = [] := by
  have hnone : snapshot.documents.filter (fun document => document.uri = uri) = [] := by
    rw [List.filter_eq_nil_iff]
    intro document hmem huri
    exact h (List.mem_map.mpr ⟨document, hmem, of_decide_eq_true huri⟩)
  rw [declarations_ofSnapshot, hnone]
  rfl

/-- Where no uri comes twice, each document is the last with its uri. -/
theorem declarations_ofSnapshot_of_mem {snapshot : Snapshot}
    (hdistinct : (snapshot.documents.map SourceDocument.uri).Nodup) {document : SourceDocument}
    (hmem : document ∈ snapshot.documents) :
    (ofSnapshot snapshot).declarations document.uri = document.declarations := by
  rw [declarations_ofSnapshot]
  cases hlast : (snapshot.documents.filter fun other => other.uri = document.uri).getLast? with
  | none =>
    rw [List.getLast?_eq_none_iff, List.filter_eq_nil_iff] at hlast
    exact absurd (decide_eq_true rfl) (hlast document hmem)
  | some last =>
    obtain ⟨hlast', huri⟩ := List.mem_filter.mp (List.mem_of_getLast? hlast)
    rw [List.inj_on_of_nodup_map hdistinct hlast' hmem (of_decide_eq_true huri)]
    rfl

end Workspace
end Lineage
