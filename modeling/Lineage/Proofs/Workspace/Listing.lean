import Lineage.Proofs.Clause.Positions
import Lineage.Workspace
import Mathlib.Data.List.Nodup

set_option autoImplicit false

/-! # The declarations of a workspace

A workspace is built by adding documents and definition links. Whatever is added, the declarations that
it lists for a uri are those of one source text (`Built.exists_source`). So the key of a declaration
determines all but its members: the outline of a document may well name two types with the same range
and different members. Where no two declarations have the same key, it determines everything. -/

namespace Lineage

/-! ## Declarations of an outline -/

mutual

/-- The declarations of a symbol stand for types. -/
theorem DocumentSymbol.exists_of_mem_declarations {make : DocumentSymbol → Declaration}
    {declaration : Declaration} : (symbol : DocumentSymbol) →
    declaration ∈ symbol.declarations make →
    ∃ inner : DocumentSymbol, inner.kind.isType = true ∧ declaration = make inner
  | ⟨name, detail, kind, range, selection, children⟩ => by
    intro h
    rw [DocumentSymbol.declarations] at h
    split at h
    · next htype => exact ⟨_, htype, List.mem_singleton.mp h⟩
    · split at h
      · exact exists_of_mem_declarationsOf children h
      · cases h

/-- The declarations of a forest stand for types. -/
theorem DocumentSymbol.exists_of_mem_declarationsOf {make : DocumentSymbol → Declaration}
    {declaration : Declaration} : (symbols : List DocumentSymbol) →
    declaration ∈ DocumentSymbol.declarationsOf make symbols →
    ∃ inner : DocumentSymbol, inner.kind.isType = true ∧ declaration = make inner
  | [] => by
    intro h
    cases h
  | symbol :: rest => by
    intro h
    rw [DocumentSymbol.declarationsOf] at h
    rcases List.mem_append.mp h with hfirst | hrest
    · exact exists_of_mem_declarations symbol hfirst
    · exact exists_of_mem_declarationsOf rest hrest

end

/-! ## A sample -/

/-- A document with an interface, a class that implements it, and a class that extends itself. -/
def Snapshot.sample : Snapshot where
  documents := [{
    uri := "sample"
    languageId := none
    text := "interface I { m } class A implements I { m } class R extends R {}"
    symbols := [
      ⟨"I", none, .interfaceType, ⟨⟨0, 0⟩, ⟨0, 17⟩⟩, ⟨⟨0, 10⟩, ⟨0, 11⟩⟩,
        [⟨"m", none, .method, ⟨⟨0, 14⟩, ⟨0, 15⟩⟩, ⟨⟨0, 14⟩, ⟨0, 15⟩⟩, []⟩]⟩,
      ⟨"A", none, .classType, ⟨⟨0, 18⟩, ⟨0, 44⟩⟩, ⟨⟨0, 24⟩, ⟨0, 25⟩⟩,
        [⟨"m", none, .method, ⟨⟨0, 41⟩, ⟨0, 42⟩⟩, ⟨⟨0, 41⟩, ⟨0, 42⟩⟩, []⟩]⟩,
      ⟨"R", none, .classType, ⟨⟨0, 45⟩, ⟨0, 65⟩⟩, ⟨⟨0, 51⟩, ⟨0, 52⟩⟩, []⟩] }]
  definitions := [
    ⟨"sample", ⟨⟨0, 37⟩, ⟨0, 38⟩⟩, [⟨"sample", ⟨⟨0, 0⟩, ⟨0, 17⟩⟩⟩]⟩,
    ⟨"sample", ⟨⟨0, 61⟩, ⟨0, 62⟩⟩, [⟨"sample", ⟨⟨0, 45⟩, ⟨0, 65⟩⟩⟩]⟩]

namespace Workspace

variable {workspace : Workspace}

/-! ## Building a workspace -/

/-- The workspaces that come about by adding documents of less than 2^31 bytes and definition links, in
    any order. -/
inductive Built : Workspace → Prop where
  | empty : Built empty
  | addDocument {workspace : Workspace} {document : SourceDocument} :
      Built workspace → Text.byteSize document.text.toList < 2147483648 →
      Built (workspace.addDocument document)
  | addDefinition {workspace : Workspace} {link : DefinitionLink} :
      Built workspace → Built (workspace.addDefinition link)

/-- A declaration of one of the documents. -/
def Lists (workspace : Workspace) (declaration : Declaration) : Prop :=
  ∃ uri, declaration ∈ workspace.declarations uri

theorem declarations_addDocument (workspace : Workspace) (document : SourceDocument)
    (uri : String) :
    (workspace.addDocument document).declarations uri =
      if document.uri = uri then document.declarations else workspace.declarations uri := by
  rw [declarations, addDocument, Assoc.get?_insert]
  split
  · next heq =>
    split at heq
    · next huri => rw [if_pos huri]; cases heq; rfl
    · next huri => rw [if_neg huri, declarations, heq]
  · next heq =>
    split at heq
    · cases heq
    · next huri => rw [if_neg huri, declarations, heq]

theorem Built.foldl_addDocument (hw : workspace.Built) {documents : List SourceDocument}
    (hsize : ∀ document ∈ documents, Text.byteSize document.text.toList < 2147483648) :
    (documents.foldl Workspace.addDocument workspace).Built := by
  induction documents generalizing workspace with
  | nil => exact hw
  | cons document rest ih =>
    exact ih (hw.addDocument (hsize document List.mem_cons_self))
      fun other hother => hsize other (List.mem_cons_of_mem _ hother)

theorem Built.foldl_addDefinition (hw : workspace.Built) (links : List DefinitionLink) :
    (links.foldl Workspace.addDefinition workspace).Built := by
  induction links generalizing workspace with
  | nil => exact hw
  | cons link rest ih => exact ih hw.addDefinition

/-- The workspace of a snapshot is built from its documents and links. -/
theorem built_ofSnapshot {snapshot : Snapshot}
    (hsize : ∀ document ∈ snapshot.documents, Text.byteSize document.text.toList < 2147483648) :
    (ofSnapshot snapshot).Built :=
  (Built.empty.foldl_addDocument hsize).foldl_addDefinition snapshot.definitions

/-- The workspace of `Snapshot.sample`. -/
def sample : Workspace := ofSnapshot .sample

theorem built_sample : sample.Built :=
  built_ofSnapshot (by decide)

/-- The class of the sample that implements the interface. -/
def sampleClass : Declaration :=
  ⟨"A", .classType, "sample", ⟨⟨0, 18⟩, ⟨0, 44⟩⟩, "class A implements I { m }",
    [⟨"m", .method, "sample", ⟨⟨0, 41⟩, ⟨0, 42⟩⟩, "m"⟩]⟩

/-- The class of the sample that extends itself. -/
def sampleRing : Declaration :=
  ⟨"R", .classType, "sample", ⟨⟨0, 45⟩, ⟨0, 65⟩⟩, "class R extends R {}", []⟩

theorem lists_sampleClass : sample.Lists sampleClass :=
  ⟨"sample", by decide +kernel⟩

theorem lists_sampleRing : sample.Lists sampleRing :=
  ⟨"sample", by decide +kernel⟩

/-! ## What is known of a listed declaration -/

/-- All declarations listed for a uri are types of one small source text. -/
theorem Built.exists_source (hw : workspace.Built) (uri : String) :
    ∃ source : Text, source.byteSize < 2147483648 ∧
      ∀ declaration ∈ workspace.declarations uri, ∃ symbol : DocumentSymbol,
        symbol.kind.isType = true ∧
          declaration = Declaration.ofSymbol uri (LineMap.ofText source) symbol := by
  induction hw with
  | empty => exact ⟨[], by decide, fun declaration hmem => by cases hmem⟩
  | addDefinition _ ih => exact ih
  | @addDocument workspace document _ hsize ih =>
    rw [declarations_addDocument]
    split
    · next huri =>
      refine ⟨document.text.toList, hsize, fun declaration hmem => ?_⟩
      rw [SourceDocument.declarations, huri] at hmem
      exact DocumentSymbol.exists_of_mem_declarationsOf document.symbols hmem
    · exact ih

theorem Built.uri_eq (hw : workspace.Built) {uri : String} {declaration : Declaration}
    (h : declaration ∈ workspace.declarations uri) : declaration.uri = uri := by
  obtain ⟨source, -, hsource⟩ := hw.exists_source uri
  obtain ⟨symbol, -, rfl⟩ := hsource declaration h
  rfl

theorem Built.isType (hw : workspace.Built) {declaration : Declaration}
    (h : workspace.Lists declaration) : declaration.kind.isType = true := by
  obtain ⟨uri, hmem⟩ := h
  obtain ⟨source, -, hsource⟩ := hw.exists_source uri
  obtain ⟨symbol, htype, rfl⟩ := hsource declaration hmem
  exact htype

/-- The references of a listed declaration have positions. -/
theorem Built.positionOf_ne_none (hw : workspace.Built) {declaration : Declaration}
    (h : workspace.Lists declaration) {offset : Nat}
    (hmem : offset ∈ (SupertypeClauses.scan declaration.text.toList).offsets) :
    SupertypeClauses.positionOf (LineMap.ofText declaration.text.toList) declaration.range.start
      offset ≠ none := by
  obtain ⟨uri, hlisted⟩ := h
  obtain ⟨source, hsize, hsource⟩ := hw.exists_source uri
  obtain ⟨symbol, -, rfl⟩ := hsource declaration hlisted
  exact Declaration.positionOf_ofSymbol_ne_none hsize uri symbol hmem

theorem Built.references?_ne_none (hw : workspace.Built) {declaration : Declaration}
    (h : workspace.Lists declaration) (kind : TypeKind) : declaration.references? kind ≠ none :=
  Declaration.references?_ne_none (fun _ hmem => hw.positionOf_ne_none h hmem) kind

/-- The text of a declaration is that of its range, so it is determined by the key. -/
theorem Built.text_eq_of_key_eq (hw : workspace.Built) {declaration other : Declaration}
    (h : workspace.Lists declaration) (h' : workspace.Lists other)
    (hkey : declaration.key = other.key) : declaration.text = other.text := by
  obtain ⟨uri, hmem⟩ := h
  obtain ⟨uri', hmem'⟩ := h'
  have huri : uri = uri' := by
    rw [← hw.uri_eq hmem, ← hw.uri_eq hmem']
    exact congrArg DeclarationKey.uri hkey
  subst huri
  obtain ⟨source, -, hsource⟩ := hw.exists_source uri
  obtain ⟨symbol, -, rfl⟩ := hsource declaration hmem
  obtain ⟨symbol', -, rfl⟩ := hsource other hmem'
  have hrange : symbol.range = symbol'.range := congrArg DeclarationKey.range hkey
  rw [Declaration.ofSymbol, Declaration.ofSymbol, hrange]

theorem exists_of_mem_declarations {uri : String} {declaration : Declaration}
    (h : declaration ∈ workspace.declarations uri) :
    ∃ document, (uri, document) ∈ workspace.documents ∧ declaration ∈ document.declarations := by
  rw [declarations] at h
  split at h
  · next document hget => exact ⟨document, Assoc.mem_of_get? hget, h⟩
  · cases h

theorem key_mem_declarationKeys {declaration : Declaration} (h : workspace.Lists declaration) :
    declaration.key ∈ workspace.declarationKeys := by
  obtain ⟨uri, hmem⟩ := h
  obtain ⟨document, hentry, hdeclaration⟩ := exists_of_mem_declarations hmem
  exact List.mem_flatMap.mpr ⟨_, hentry, List.mem_map_of_mem hdeclaration⟩

/-- Where all keys are different, the key determines the declaration. -/
theorem Built.eq_of_key_eq (hw : workspace.Built) (hnodup : workspace.declarationKeys.Nodup)
    {declaration other : Declaration} (h : workspace.Lists declaration)
    (h' : workspace.Lists other) (hkey : declaration.key = other.key) : declaration = other := by
  obtain ⟨uri, hmem⟩ := h
  obtain ⟨uri', hmem'⟩ := h'
  have huri : uri = uri' := by
    rw [← hw.uri_eq hmem, ← hw.uri_eq hmem']
    exact congrArg DeclarationKey.uri hkey
  subst huri
  have hlist : ((workspace.declarations uri).map Declaration.key).Nodup := by
    rw [declarations]
    split
    · next document hget =>
      exact (List.nodup_flatMap.mp hnodup).1 _ (Assoc.mem_of_get? hget)
    · exact List.nodup_nil
  exact List.inj_on_of_nodup_map hlist hmem hmem' hkey

end Workspace
end Lineage
