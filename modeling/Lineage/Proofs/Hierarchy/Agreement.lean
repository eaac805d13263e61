import Lineage.Proofs.Hierarchy.Cache
import Lineage.Proofs.Hierarchy.Reference

set_option autoImplicit false

/-! # The builder agrees with resolution without memory

Over services whose answers depend on the question alone, a builder with its claim table and its memo
of lookups gives what `Answers.resolveAlong` gives, and fails as that fails, cycles included.

The heart of it is what happens when a node is found resolved. It was resolved along another chain,
perhaps long before, so one has to see that resolving it again along the present chain would succeed
and give the same node. It would: the keys of the present chain are unresolved, all supertypes of the
node are resolved (`Complete`), and no key comes back below itself because a node is larger than its
supertypes. That is `resolveAlong_of_cached`, a case of `resolveAlong_of_coherent`.

Declarations are compared through a `view` of them. What is needed is that known declarations with
equal keys look the same through it, and that it shows the key and the text, from which supertypes are
read. -/

namespace Lineage

/-! ## Nodes through a view -/

/-- The view that shows everything. -/
def Declaration.whole (declaration : Declaration) : Declaration := declaration

namespace TypeNode

mutual

/-- A node without ids, its declarations seen through `view`. -/
def strip (view : Declaration → Declaration) : TypeNode → TypeNode
  | ⟨_, declaration, superClasses, superInterfaces⟩ =>
    ⟨0, view declaration, stripAll view superClasses, stripAll view superInterfaces⟩

/-- Some nodes without ids, their declarations seen through `view`. -/
def stripAll (view : Declaration → Declaration) : List TypeNode → List TypeNode
  | [] => []
  | node :: rest => strip view node :: stripAll view rest

end

variable (view : Declaration → Declaration)

theorem stripAll_eq_map (nodes : List TypeNode) : stripAll view nodes = nodes.map (strip view) := by
  induction nodes with
  | nil => rfl
  | cons node rest ih => rw [stripAll, ih, List.map_cons]

theorem strip_eq (node : TypeNode) :
    node.strip view = ⟨0, view node.declaration, node.superClasses.map (strip view),
      node.superInterfaces.map (strip view)⟩ := by
  rw [← stripAll_eq_map, ← stripAll_eq_map]
  cases node
  rfl

/-- Nodes that look alike have declarations that look alike. -/
theorem view_declaration_eq {node other : TypeNode} (h : node.strip view = other.strip view) :
    view node.declaration = view other.declaration := by
  rw [strip_eq, strip_eq] at h
  exact congrArg TypeNode.declaration h

mutual

theorem pairings_strip (root : Declaration) :
    (node : TypeNode) → pairings root (node.strip .whole) = pairings root node
  | ⟨_, declaration, superClasses, superInterfaces⟩ => by
    rw [strip, pairings, pairings, pairingsOfAll_strip root superClasses,
      pairingsOfAll_strip root superInterfaces]
    rfl

theorem pairingsOfAll_strip (root : Declaration) :
    (nodes : List TypeNode) → pairingsOfAll root (stripAll .whole nodes) = pairingsOfAll root nodes
  | [] => rfl
  | node :: rest => by
    rw [stripAll, pairingsOfAll, pairingsOfAll, pairings_strip root node,
      pairingsOfAll_strip root rest]

end

/-- Classification does not see ids. -/
theorem classify_strip (node : TypeNode) : (node.strip .whole).classify = node.classify := by
  have hsuper : (node.strip .whole).supertypes = stripAll .whole node.supertypes := by
    rw [strip_eq, stripAll_eq_map, supertypes, supertypes, List.map_append]
  have hroot : (node.strip .whole).declaration = node.declaration := by rw [strip_eq]; rfl
  rw [classify, classify, hsuper, hroot, pairingsOfAll_strip]

end TypeNode

/-! ## Lookups -/

variable {σ : Type} {services : Services σ} {answers : Answers}

/-- What is remembered are the answers. -/
def MemoAgrees (answers : Answers) (memo : LookupMemo) : Prop :=
  ∀ location found, memo.get? location = some found →
    answers.findDeclaration location.uri location.range = .ok found

namespace Lookup

theorem declarationAt_agrees (hanswers : services.AnswersWith answers) (location : Location)
    (s : LookupState σ) (hs : MemoAgrees answers s.memo) :
    (exec (declarationAt services location) s).1 =
        answers.findDeclaration location.uri location.range ∧
      MemoAgrees answers (exec (declarationAt services location) s).2.memo := by
  rw [declarationAt, exec_bind, exec_get]
  dsimp only
  cases hmemo : s.memo.get? location with
  | some found => exact ⟨(hs location found hmemo).symm, hs⟩
  | none =>
    dsimp only
    have hfind := hanswers.findDeclaration location.uri location.range s.world
    rw [exec_bind, exec_call]
    cases hanswer : (exec (services.findDeclaration location.uri location.range) s.world).1 with
    | error failure =>
      rw [hanswer] at hfind
      exact ⟨hfind, hs⟩
    | ok found =>
      rw [hanswer] at hfind
      refine ⟨hfind, ?_⟩
      -- the memo has grown by this very answer
      show MemoAgrees answers (s.memo.insert location found)
      intro other seen hseen
      rw [Assoc.get?_insert] at hseen
      split at hseen
      · next heq =>
        cases hseen
        exact heq ▸ hfind.symm
      · exact hs other seen hseen

theorem definitionsAt_agrees (hanswers : services.AnswersWith answers) (uri : String)
    (position : Position) (s : LookupState σ) (hs : MemoAgrees answers s.memo) :
    (exec (definitionsAt services uri position) s).1 = answers.definitionsAt uri position ∧
      MemoAgrees answers (exec (definitionsAt services uri position) s).2.memo := by
  have hresolve := hanswers.resolveDefinitions uri position s.world
  rw [definitionsAt, exec_bind, exec_call]
  cases hlocations : (exec (services.resolveDefinitions uri position) s.world).1 with
  | error failure =>
    rw [hlocations] at hresolve
    rw [Answers.definitionsAt, ← hresolve]
    exact ⟨rfl, hs⟩
  | ok locations =>
    rw [hlocations] at hresolve
    rw [Answers.definitionsAt_of_ok hresolve.symm]
    dsimp only
    generalize hasked : { s with world := (exec (services.resolveDefinitions uri position)
      s.world).2 } = asked
    have hmemo : MemoAgrees answers asked.memo := by rw [← hasked]; exact hs
    have hfound := exec_mapM_of_answers
      (fun location s' hs' => declarationAt_agrees hanswers location s' hs') locations hmemo
    have hkept := exec_mapM_invariant (I := fun s' : LookupState σ => MemoAgrees answers s'.memo)
      (fun location s' hs' => (declarationAt_agrees hanswers location s' hs').2) locations hmemo
    rw [exec_bind, ← hfound]
    rcases hout : exec (locations.mapM (declarationAt services)) asked with ⟨failure | found, s'⟩ <;>
      rw [hout] at hkept <;> exact ⟨rfl, hkept⟩

end Lookup

namespace Build

theorem lookup_agrees (hanswers : services.AnswersWith answers) (uri : String)
    (position : Position) (s : BuildState σ) (hs : MemoAgrees answers s.lookups.memo) :
    (exec (lookup (Lookup.definitionsAt services uri position)) s).1 =
        answers.lookup uri position ∧
      MemoAgrees answers
        (exec (lookup (Lookup.definitionsAt services uri position)) s).2.lookups.memo := by
  obtain ⟨hanswer, hmemo⟩ := Lookup.definitionsAt_agrees hanswers uri position s.lookups hs
  rw [exec_lookup, Answers.lookup, ← hanswer]
  exact ⟨rfl, hmemo⟩

/-- The targets of references are those of the answers, and the memo keeps to the answers. -/
theorem lookupTargets_agrees (hanswers : services.AnswersWith answers) (uri : String)
    (positions : List Position) (s : BuildState σ) (hs : MemoAgrees answers s.lookups.memo) :
    (exec (lookupTargets services uri positions) s).1.map List.flatten =
        answers.targets uri positions ∧
      MemoAgrees answers (exec (lookupTargets services uri positions) s).2.lookups.memo := by
  constructor
  · rw [Answers.targets, lookupTargets, exec_mapM_of_answers
      (fun position s' hs' => lookup_agrees hanswers uri position s' hs') positions hs]
  · exact exec_mapM_invariant (I := fun s' : BuildState σ => MemoAgrees answers s'.lookups.memo)
      (fun position s' hs' => (lookup_agrees hanswers uri position s' hs').2) positions hs

end Build

/-! ## What is assumed of the declarations -/

/-- The role of a declaration is part of its key. -/
theorem Declaration.typeKind_congr {declaration other : Declaration}
    (hkey : declaration.key = other.key) : declaration.typeKind = other.typeKind := by
  have hname := congrArg DeclarationKey.name hkey
  have hkind := congrArg DeclarationKey.kind hkey
  dsimp only [Declaration.key] at hname hkind
  rw [Declaration.typeKind, Declaration.typeKind, hname, hkind]

/-- References are read from the text and placed by the key. -/
theorem Declaration.references?_congr {declaration other : Declaration}
    (hkey : declaration.key = other.key) (htext : declaration.text = other.text)
    (kind : TypeKind) : declaration.references? kind = other.references? kind := by
  have hrange := congrArg DeclarationKey.range hkey
  dsimp only [Declaration.key] at hrange
  unfold Declaration.references?
  rw [htext, hrange]

/-- What is assumed of the declarations that take part, those `known`: all answers are among them and
    have their keys in `keys`, those with equal keys look alike, and their references lie within the
    32-bit range. -/
structure Consistent (answers : Answers) (view : Declaration → Declaration)
    (known : Declaration → Prop) (keys : List DeclarationKey) : Prop where
  answered : ∀ {uri range declaration},
    answers.findDeclaration uri range = .ok (some declaration) → declaration.kind.isType = true →
      known declaration
  listed : ∀ {uri range declaration},
    answers.findDeclaration uri range = .ok (some declaration) → declaration.kind.isType = true →
      declaration.key ∈ keys
  determined : ∀ {declaration other}, known declaration → known other →
    declaration.key = other.key → view declaration = view other
  fits : ∀ {declaration kind}, known declaration → declaration.typeKind = .ok kind →
    declaration.references? kind ≠ none
  key_view : ∀ declaration, (view declaration).key = declaration.key
  text_view : ∀ declaration, (view declaration).text = declaration.text

namespace Consistent

variable {view : Declaration → Declaration} {known : Declaration → Prop}
  {keys : List DeclarationKey} (hcon : Consistent answers view known keys)

include hcon

theorem key_eq_of_view_eq {declaration other : Declaration} (h : view declaration = view other) :
    declaration.key = other.key := by
  rw [← hcon.key_view declaration, h, hcon.key_view]

/-- Declarations that look alike refer to the same targets. -/
theorem refers_of_view_eq {declaration other : Declaration} {classes interfaces : List Declaration}
    (h : view declaration = view other) (hrefers : answers.Refers declaration classes interfaces) :
    answers.Refers other classes interfaces := by
  have hkey := hcon.key_eq_of_view_eq h
  have htext : declaration.text = other.text := by
    rw [← hcon.text_view declaration, h, hcon.text_view]
  have huri : declaration.uri = other.uri := congrArg DeclarationKey.uri hkey
  obtain ⟨kind, references, hkind, hreferences, hclasses, hinterfaces⟩ := hrefers
  rw [Declaration.typeKind_congr hkey] at hkind
  rw [Declaration.references?_congr hkey htext] at hreferences
  rw [huri] at hclasses hinterfaces
  exact ⟨kind, references, hkind, hreferences, hclasses, hinterfaces⟩

/-- Targets of references are known. -/
theorem known_of_mem_targets {uri : String} {positions : List Position}
    {targets : List Declaration} (h : answers.targets uri positions = .ok targets)
    {target : Declaration} (hmem : target ∈ targets) : known target ∧ target.key ∈ keys := by
  obtain ⟨location, hfind, htype⟩ := Answers.exists_of_mem_targets h hmem
  exact ⟨hcon.answered hfind htype, hcon.listed hfind htype⟩

end Consistent

/-! ## Room for calls -/

/-- A chain of distinct keys with room for one call for each of the other keys, and one more. -/
structure Room (keys chain : List DeclarationKey) (depth : Nat) : Prop where
  nodup : chain.Nodup
  subset : ∀ key ∈ chain, key ∈ keys
  enough : keys.length < chain.length + depth

theorem Room.nil {keys : List DeclarationKey} {depth : Nat} (h : keys.length < depth) :
    Room keys [] depth :=
  ⟨List.nodup_nil, by simp, by simpa using h⟩

/-- A chain holds no more keys than there are, so there is room for another call. -/
theorem Room.exists_succ {keys chain : List DeclarationKey} {depth : Nat}
    (h : Room keys chain depth) : ∃ below, depth = below + 1 := by
  have hlength := h.nodup.length_le_of_subset h.subset
  have henough := h.enough
  exact ⟨depth - 1, by omega⟩

theorem Room.push {keys chain : List DeclarationKey} {depth : Nat} {key : DeclarationKey}
    (h : Room keys chain (depth + 1)) (hmem : key ∉ chain) (hkey : key ∈ keys) :
    Room keys (chain ++ [key]) depth where
  nodup := by
    refine List.nodup_append.mpr ⟨h.nodup, List.nodup_singleton _, ?_⟩
    rintro other hother _ hnew rfl
    exact hmem (List.mem_singleton.mp hnew ▸ hother)
  subset := by
    intro other hother
    rcases List.mem_append.mp hother with hold | hnew
    · exact h.subset other hold
    · exact List.mem_singleton.mp hnew ▸ hkey
  enough := by
    have henough := h.enough
    rw [List.length_append, List.length_singleton]
    omega

/-! ## Cached nodes -/

/-- A node that has the supertypes its declaration refers to, as far as `view` shows. -/
structure Faithful (answers : Answers) (view : Declaration → Declaration)
    (known : Declaration → Prop) (node : TypeNode) : Prop where
  known : known node.declaration
  refers : ∃ classes interfaces, answers.Refers node.declaration classes interfaces ∧
    node.superClasses.map (fun super => view super.declaration) = classes.map view ∧
    node.superInterfaces.map (fun super => view super.declaration) = interfaces.map view

/-- All nodes of a cache are faithful. -/
def NodesAgree (answers : Answers) (view : Declaration → Declaration)
    (known : Declaration → Prop) (nodes : Assoc DeclarationKey TypeNode) : Prop :=
  ∀ key node, nodes.get? key = some node → Faithful answers view known node

section Cached

variable {view : Declaration → Declaration} {known : Declaration → Prop}
  {keys : List DeclarationKey} {nodes : Assoc DeclarationKey TypeNode}

/-- Targets that all resolve to what some cached nodes show. -/
theorem mapM_of_cached {f : Declaration → Except Halt TypeNode}
    {targets : List Declaration} {supers : List TypeNode}
    (hview : supers.map (fun super => view super.declaration) = targets.map view)
    (hrun : ∀ target ∈ targets, ∀ super ∈ supers, view super.declaration = view target →
      ∃ node, f target = .ok node ∧ node.strip view = super.strip view) :
    ∃ found, targets.mapM f = .ok found ∧
      found.map (TypeNode.strip view) = supers.map (TypeNode.strip view) := by
  induction targets generalizing supers with
  | nil =>
    obtain rfl : supers = [] := by simpa using hview
    exact ⟨[], rfl, rfl⟩
  | cons target targets ih =>
    cases supers with
    | nil => simp at hview
    | cons super supers =>
      simp only [List.map_cons, List.cons.injEq] at hview
      obtain ⟨node, hnode, hstrip⟩ :=
        hrun target List.mem_cons_self super List.mem_cons_self hview.1
      obtain ⟨found, hfound, hstrips⟩ := ih hview.2 fun target' htarget super' hsuper =>
        hrun target' (List.mem_cons_of_mem _ htarget) super' (List.mem_cons_of_mem _ hsuper)
      refine ⟨node :: found, ?_, ?_⟩
      · rw [Answers.mapM_cons, hnode]
        dsimp only
        rw [hfound]
      · rw [List.map_cons, List.map_cons, hstrip, hstrips]

/-- Faithful nodes with all their supertypes, of which those with one key look alike. -/
structure Coherent (answers : Answers) (view : Declaration → Declaration)
    (known : Declaration → Prop) (among : TypeNode → Prop) : Prop where
  faithful : ∀ {node}, among node → Faithful answers view known node
  supertypes : ∀ {node}, among node → ∀ super ∈ node.supertypes, among super
  alike : ∀ {node other}, among node → among other → node.key = other.key →
    node.strip view = other.strip view

/-- A node is larger than its supertypes, also through a view. -/
theorem sizeOf_strip_lt (view : Declaration → Declaration) {node super : TypeNode}
    (h : super ∈ node.supertypes) :
    sizeOf (super.strip view) < sizeOf (node.strip view) := by
  refine TypeNode.sizeOf_lt_of_mem_supertypes ?_
  rw [TypeNode.strip_eq view node, TypeNode.supertypes, ← List.map_append]
  exact List.mem_map_of_mem h

/-- **A coherent node resolves again.** Resolving the declaration of such a node anew, along any chain
    none of whose keys lies below it, gives a node that looks the same. -/
theorem resolveAlong_of_coherent (hcon : Consistent answers view known keys)
    {among : TypeNode → Prop} (hamong : Coherent answers view known among) {node : TypeNode}
    {depth : Nat} {chain : List DeclarationKey} {declaration : Declaration}
    (hknown : known declaration) (hkey : declaration.key ∈ keys) (hroom : Room keys chain depth)
    (hnode : among node) (heq : node.key = declaration.key)
    (hchain : ∀ above, among above → above.key ∈ chain →
      sizeOf (node.strip view) < sizeOf (above.strip view)) :
    ∃ found, answers.resolveAlong depth chain declaration = .ok found ∧
      found.strip view = node.strip view := by
  induction hsize : sizeOf (node.strip view) using Nat.strongRecOn
    generalizing node depth chain declaration with
  | ind size ih =>
  subst hsize
  have hmem : declaration.key ∉ chain := fun hmem =>
    Nat.lt_irrefl _ (hchain node hnode (heq ▸ hmem))
  obtain ⟨depth, rfl⟩ := hroom.exists_succ
  obtain ⟨hknown', classes, interfaces, hrefers, hclasses, hinterfaces⟩ := hamong.faithful hnode
  have hview : view node.declaration = view declaration := hcon.determined hknown' hknown heq
  obtain ⟨kind, references, hkind, hreferences, htargets, htargets'⟩ :=
    hcon.refers_of_view_eq hview hrefers
  -- the supertypes are smaller, also than the node itself, which is now on the chain
  have hbelow : ∀ super ∈ node.supertypes, ∀ target, known target ∧ target.key ∈ keys →
      view super.declaration = view target →
      ∃ found, answers.resolveAlong depth (chain ++ [declaration.key]) target = .ok found ∧
        found.strip view = super.strip view := by
    intro super hsuper target htarget hsame
    have hlt := sizeOf_strip_lt view hsuper
    refine ih _ hlt htarget.1 htarget.2 (hroom.push hmem hkey) (hamong.supertypes hnode super hsuper)
      (hcon.key_eq_of_view_eq hsame) ?_ rfl
    intro above habove hmem'
    rcases List.mem_append.mp hmem' with hold | hnew
    · exact Nat.lt_trans hlt (hchain above habove hold)
    · have hsame' := hamong.alike habove hnode ((List.mem_singleton.mp hnew).trans heq.symm)
      rw [hsame']
      exact hlt
  obtain ⟨superClasses, hsuper, hstrip⟩ := mapM_of_cached hclasses
    fun target htarget super hsuper => hbelow super (List.mem_append_left _ hsuper) target
      (hcon.known_of_mem_targets htargets htarget)
  obtain ⟨superInterfaces, hsuper', hstrip'⟩ := mapM_of_cached hinterfaces
    fun target htarget super hsuper => hbelow super (List.mem_append_right _ hsuper) target
      (hcon.known_of_mem_targets htargets' htarget)
  refine ⟨⟨0, declaration, superClasses, superInterfaces⟩, ?_, ?_⟩
  · rw [Answers.resolveAlong_succ, hkind]
    dsimp only
    rw [if_neg hmem, hreferences]
    dsimp only
    rw [Answers.resolveReferences_eq, htargets]
    dsimp only
    rw [hsuper]
    dsimp only
    rw [Answers.resolveReferences_eq, htargets']
    dsimp only
    rw [hsuper']
  · rw [TypeNode.strip_eq, TypeNode.strip_eq view node]
    dsimp only
    rw [hview, hstrip, hstrip']

/-- The nodes of a complete cache are coherent: there is but one for each key. -/
theorem coherent_of_complete (hcomplete : Complete nodes)
    (hagree : NodesAgree answers view known nodes) :
    Coherent answers view known fun node => nodes.get? node.key = some node where
  faithful hnode := hagree _ _ hnode
  supertypes hnode := hcomplete.supertypes hnode
  alike hnode hother heq := by
    rw [heq, hother] at hnode
    rw [Option.some.inj hnode]

/-- **A cached node resolves again**, along any chain of keys that are not resolved. -/
theorem resolveAlong_of_cached (hcon : Consistent answers view known keys) (hcomplete : Complete nodes)
    (hagree : NodesAgree answers view known nodes) {node : TypeNode} {depth : Nat}
    {chain : List DeclarationKey} {declaration : Declaration} (hknown : known declaration)
    (hkey : declaration.key ∈ keys) (hroom : Room keys chain depth)
    (hnode : nodes.get? declaration.key = some node)
    (hchain : ∀ key ∈ chain, nodes.get? key = none) :
    ∃ found, answers.resolveAlong depth chain declaration = .ok found ∧
      found.strip view = node.strip view := by
  have heq := hcomplete.key_eq hnode
  refine resolveAlong_of_coherent hcon (coherent_of_complete hcomplete hagree) hknown hkey hroom
    (heq ▸ hnode) heq ?_
  intro above habove hmem
  rw [hchain _ hmem] at habove
  cases habove

end Cached

/-! ## Resolutions -/

namespace Build

variable {view : Declaration → Declaration} {known : Declaration → Prop}

/-- A state whose memo and nodes keep to the answers. -/
structure Agrees (answers : Answers) (view : Declaration → Declaration)
    (known : Declaration → Prop) (s : BuildState σ) : Prop where
  memo : MemoAgrees answers s.lookups.memo
  nodes : NodesAgree answers view known s.claims.nodes

/-- A result that looks like that of the resolution without memory. -/
def Mirrors (view : Declaration → Declaration) (reference : Except Halt TypeNode) :
    Except Halt TypeNode → Prop
  | .error halt => reference = .error halt
  | .ok node => ∃ found, reference = .ok found ∧ found.strip view = node.strip view

/-- Results that look like those of the resolution without memory. -/
def MirrorsAll (view : Declaration → Declaration) (reference : Except Halt (List TypeNode)) :
    Except Halt (List TypeNode) → Prop
  | .error halt => reference = .error halt
  | .ok nodes => ∃ found, reference = .ok found ∧
      found.map (TypeNode.strip view) = nodes.map (TypeNode.strip view)

/-- A result that is a value or a failure, and no other halt. -/
def Settled {α : Type} (result : Except Halt α) : Prop :=
  ∀ halt, result = .error halt → ∃ error, halt = .failed error

/-- What a resolution along `chain` does over consistent answers. -/
structure Agreement (answers : Answers) (view : Declaration → Declaration)
    (known : Declaration → Prop) (depth : Nat) (chain : List DeclarationKey)
    (declaration : Declaration) (out : Except Halt TypeNode × BuildState σ) : Prop where
  agrees : Agrees answers view known out.2
  mirrors : Mirrors view (answers.resolveAlong depth chain declaration) out.1
  settled : Settled out.1

/-- What the resolution of several declarations does. -/
structure AgreementAll (answers : Answers) (view : Declaration → Declaration)
    (known : Declaration → Prop) (reference : Except Halt (List TypeNode))
    (out : Except Halt (List TypeNode) × BuildState σ) : Prop where
  agrees : Agrees answers view known out.2
  mirrors : MirrorsAll view reference out.1
  settled : Settled out.1

variable {depth : Nat} {chain : List DeclarationKey} {resolve : Declaration → Build σ TypeNode}
  {keys : List DeclarationKey}

theorem mapM_agrees
    (hsound : ∀ target s, Sound chain s.claims →
      Resolved chain target s (exec (resolve target) s))
    (hresolve : ∀ target s, Sound chain s.claims → Agrees answers view known s → known target →
      target.key ∈ keys →
        Agreement answers view known depth chain target (exec (resolve target) s))
    {targets : List Declaration} (htargets : ∀ target ∈ targets, known target ∧ target.key ∈ keys)
    {s : BuildState σ} (hs : Sound chain s.claims) (hagrees : Agrees answers view known s) :
    AgreementAll answers view known (targets.mapM (answers.resolveAlong depth chain))
      (exec (targets.mapM resolve) s) := by
  induction targets generalizing s with
  | nil => exact ⟨hagrees, ⟨[], rfl, rfl⟩, by rintro _ ⟨⟩⟩
  | cons target rest ih =>
    obtain ⟨hknown, hkey⟩ := htargets target List.mem_cons_self
    have hfirst := hresolve target s hs hagrees hknown hkey
    have hfirst' := hsound target s hs
    rw [exec_mapM_cons, Answers.mapM_cons]
    rcases hout : exec (resolve target) s with ⟨halt | node, s'⟩ <;> rw [hout] at hfirst hfirst'
    · have hreference : answers.resolveAlong depth chain target = .error halt := hfirst.mirrors
      rw [hreference]
      refine ⟨hfirst.agrees, rfl, ?_⟩
      rintro _ ⟨⟩
      exact hfirst.settled halt rfl
    · obtain ⟨found, hreference, hstrip⟩ := hfirst.mirrors
      have hrest := ih (fun other hother => htargets other (List.mem_cons_of_mem _ hother))
        hfirst'.sound hfirst.agrees
      rw [hreference]
      dsimp only
      rcases hout' : exec (rest.mapM resolve) s' with ⟨halt | nodes, s''⟩ <;> rw [hout'] at hrest
      · have hreference' : rest.mapM (answers.resolveAlong depth chain) = .error halt :=
          hrest.mirrors
        rw [hreference']
        refine ⟨hrest.agrees, rfl, ?_⟩
        rintro _ ⟨⟩
        exact hrest.settled halt rfl
      · obtain ⟨founds, hreference', hstrips⟩ := hrest.mirrors
        rw [hreference']
        refine ⟨hrest.agrees, ⟨found :: founds, rfl, ?_⟩, by rintro _ ⟨⟩⟩
        rw [List.map_cons, List.map_cons, hstrip, hstrips]

/-- Nodes that look like those of some targets have declarations that look like the targets. -/
theorem view_declarations_eq {targets : List Declaration} {found nodes : List TypeNode}
    (hall : List.Forall₂
      (fun target node => answers.resolveAlong depth chain target = .ok node) targets found)
    (hstrip : found.map (TypeNode.strip view) = nodes.map (TypeNode.strip view)) :
    nodes.map (fun node => view node.declaration) = targets.map view := by
  induction hall generalizing nodes with
  | nil =>
    obtain rfl : nodes = [] := by simpa using hstrip.symm
    rfl
  | cons hnode _ ih =>
    cases nodes with
    | nil => simp at hstrip
    | cons node nodes =>
      simp only [List.map_cons, List.cons.injEq] at hstrip ⊢
      refine ⟨?_, ih hstrip.2⟩
      obtain ⟨below, rfl⟩ := Answers.exists_succ_of_resolveAlong hnode
      rw [← TypeNode.view_declaration_eq view hstrip.1, (Answers.resolveAlong_ok hnode).1]

theorem resolveReferences_agrees (hanswers : services.AnswersWith answers)
    (hcon : Consistent answers view known keys)
    (hsound : ∀ target s, Sound chain s.claims →
      Resolved chain target s (exec (resolve target) s))
    (hresolve : ∀ target s, Sound chain s.claims → Agrees answers view known s → known target →
      target.key ∈ keys →
        Agreement answers view known depth chain target (exec (resolve target) s))
    (uri : String) (positions : List Position) {s : BuildState σ} (hs : Sound chain s.claims)
    (hagrees : Agrees answers view known s) :
    AgreementAll answers view known
      (answers.resolveReferences (answers.resolveAlong depth chain) uri positions)
      (exec (resolveReferences services resolve uri positions) s) := by
  have hclaims := lookupTargets_claims services uri positions s
  obtain ⟨hfound, hmemo⟩ := lookupTargets_agrees hanswers uri positions s hagrees.memo
  rw [exec_resolveReferences, Answers.resolveReferences_eq]
  rcases hout : exec (lookupTargets services uri positions) s with ⟨halt | targets, s'⟩ <;>
    rw [hout] at hclaims hfound hmemo
  · obtain ⟨failure, rfl⟩ := lookupTargets_error (by rw [hout])
    rw [← hfound]
    refine ⟨⟨hmemo, hclaims ▸ hagrees.nodes⟩, rfl, ?_⟩
    rintro _ ⟨⟩
    exact ⟨_, rfl⟩
  · have htargets : ∀ target ∈ targets.flatten, known target ∧ target.key ∈ keys :=
      fun _ htarget => hcon.known_of_mem_targets hfound.symm htarget
    rw [← hfound]
    exact mapM_agrees hsound hresolve htargets (hclaims ▸ hs) ⟨hmemo, hclaims ▸ hagrees.nodes⟩

/-- While a declaration off the chain is built, its result is that of the resolution without memory,
    and a finished node is faithful. -/
theorem buildNode_agrees (hanswers : services.AnswersWith answers)
    (hcon : Consistent answers view known keys) {declaration : Declaration} {kind : TypeKind}
    (hkind : declaration.typeKind = .ok kind) (hmem : declaration.key ∉ chain)
    (hknown : known declaration)
    (hsound : ∀ target s, Sound (chain ++ [declaration.key]) s.claims →
      Resolved (chain ++ [declaration.key]) target s (exec (resolve target) s))
    (hresolve : ∀ target s, Sound (chain ++ [declaration.key]) s.claims →
      Agrees answers view known s → known target → target.key ∈ keys →
        Agreement answers view known depth (chain ++ [declaration.key]) target
          (exec (resolve target) s))
    {s : BuildState σ} (hs : Sound (chain ++ [declaration.key]) s.claims)
    (hagrees : Agrees answers view known s) :
    Agreement answers view known (depth + 1) chain declaration
        (exec (buildNode services resolve declaration kind) s) ∧
      ∀ node, (exec (buildNode services resolve declaration kind) s).1 = .ok node →
        Faithful answers view known node := by
  obtain ⟨references, hreferences⟩ :=
    Option.ne_none_iff_exists'.mp (hcon.fits hknown hkind)
  have hclasses := resolveReferences_agrees hanswers hcon hsound hresolve declaration.uri
    references.superClasses hs hagrees
  have hclasses' := resolveReferences_sound services hsound declaration.uri
    references.superClasses hs
  rw [exec_buildNode, hreferences]
  dsimp only
  rcases hout : exec (resolveReferences services resolve declaration.uri references.superClasses) s
    with ⟨halt | superClasses, s'⟩ <;> rw [hout] at hclasses hclasses'
  · have hreference : answers.resolveReferences
        (answers.resolveAlong depth (chain ++ [declaration.key])) declaration.uri
        references.superClasses = .error halt := hclasses.mirrors
    refine ⟨⟨hclasses.agrees, ?_, ?_⟩, by rintro _ ⟨⟩⟩
    · rw [Answers.resolveAlong_succ, hkind]
      dsimp only
      rw [if_neg hmem, hreferences]
      dsimp only
      rw [hreference]
      rfl
    · rintro _ ⟨⟩
      exact hclasses.settled halt rfl
  · obtain ⟨found, hreference, hstrip⟩ := hclasses.mirrors
    have hinterfaces := resolveReferences_agrees hanswers hcon hsound hresolve declaration.uri
      references.superInterfaces hclasses'.sound hclasses.agrees
    dsimp only
    rcases hout' : exec (resolveReferences services resolve declaration.uri
      references.superInterfaces) s' with ⟨halt | superInterfaces, s''⟩ <;>
      rw [hout'] at hinterfaces
    · have hreference' : answers.resolveReferences
          (answers.resolveAlong depth (chain ++ [declaration.key])) declaration.uri
          references.superInterfaces = .error halt := hinterfaces.mirrors
      refine ⟨⟨hinterfaces.agrees, ?_, ?_⟩, by rintro _ ⟨⟩⟩
      · rw [Answers.resolveAlong_succ, hkind]
        dsimp only
        rw [if_neg hmem, hreferences]
        dsimp only
        rw [hreference]
        dsimp only
        rw [hreference']
        rfl
      · rintro _ ⟨⟩
        exact hinterfaces.settled halt rfl
    · obtain ⟨found', hreference', hstrip'⟩ := hinterfaces.mirrors
      refine ⟨⟨⟨hinterfaces.agrees.memo, hinterfaces.agrees.nodes⟩, ?_, by rintro _ ⟨⟩⟩, ?_⟩
      · refine ⟨⟨0, declaration, found, found'⟩, ?_, ?_⟩
        · rw [Answers.resolveAlong_succ, hkind]
          dsimp only
          rw [if_neg hmem, hreferences]
          dsimp only
          rw [hreference]
          dsimp only
          rw [hreference']
        · rw [TypeNode.strip_eq, TypeNode.strip_eq]
          dsimp only
          rw [hstrip, hstrip']
      · rintro _ ⟨⟩
        obtain ⟨classes, htargets, hall⟩ := Answers.resolveReferences_ok hreference
        obtain ⟨interfaces, htargets', hall'⟩ := Answers.resolveReferences_ok hreference'
        refine ⟨hknown, classes, interfaces,
          ⟨kind, references, hkind, hreferences, htargets, htargets'⟩, ?_, ?_⟩
        · exact view_declarations_eq hall hstrip
        · exact view_declarations_eq hall' hstrip'

/-- **The builder agrees with resolution without memory**, on every sound table that holds faithful
    nodes, if both have room for their calls. -/
theorem resolveFrom_agrees (hanswers : services.AnswersWith answers)
    (hcon : Consistent answers view known keys) {limit : Nat} {declaration : Declaration}
    {s : BuildState σ} (hs : Sound chain s.claims) (hagrees : Agrees answers view known s)
    (hknown : known declaration) (hkey : declaration.key ∈ keys) (hroom : Room keys chain limit)
    (hroom' : Room keys chain depth) :
    Agreement answers view known depth chain declaration
      (exec (resolveFrom services limit chain.getLast? declaration) s) := by
  induction limit generalizing depth chain declaration s with
  | zero =>
    obtain ⟨_, ⟨⟩⟩ := hroom.exists_succ
  | succ limit ih =>
    obtain ⟨depth, rfl⟩ := hroom'.exists_succ
    rw [exec_resolveFrom_succ]
    cases hkind : declaration.typeKind with
    | error error =>
      refine ⟨hagrees, ?_, ?_⟩
      · show answers.resolveAlong (depth + 1) chain declaration = .error (.failed error)
        rw [Answers.resolveAlong_succ, hkind]
      · rintro _ ⟨⟩
        exact ⟨error, rfl⟩
    | ok kind =>
      dsimp only
      cases hnode : s.claims.nodes.get? declaration.key with
      | some node =>
        rw [ClaimTable.claim_of_resolved _ hnode]
        refine ⟨hagrees, ?_, by rintro _ ⟨⟩⟩
        exact resolveAlong_of_cached hcon hs.complete hagrees.nodes hknown hkey hroom' hnode hs.fresh
      | none =>
        by_cases hmem : declaration.key ∈ chain
        · rw [hs.claim_of_mem hmem]
          refine ⟨hagrees, ?_, ?_⟩
          · show answers.resolveAlong (depth + 1) chain declaration = .error (.failed (.cyclic _))
            rw [Answers.resolveAlong_succ, hkind]
            exact if_pos hmem
          · rintro _ ⟨⟩
            exact ⟨_, rfl⟩
        · obtain ⟨claims, hclaim, hnodes, honChain⟩ := hs.claim_of_not_mem hmem hnode
          rw [hclaim]
          dsimp only
          have hsound : ∀ target s', Sound (chain ++ [declaration.key]) s'.claims →
              Resolved (chain ++ [declaration.key]) target s'
                (exec (resolveFrom services limit (some declaration.key) target) s') :=
            fun target s' hs' => by simpa using resolveFrom_sound services limit target s' hs'
          have hnested : ∀ target s', Sound (chain ++ [declaration.key]) s'.claims →
              Agrees answers view known s' → known target → target.key ∈ keys →
              Agreement answers view known depth (chain ++ [declaration.key]) target
                (exec (resolveFrom services limit (some declaration.key) target) s') := by
            intro target s' hs' hagrees' hknown' hkey'
            have hnext := ih hs' hagrees' hknown' hkey' (hroom.push hmem hkey)
              (hroom'.push hmem hkey)
            rwa [List.getLast?_concat] at hnext
          obtain ⟨hagree, hfaithful⟩ := buildNode_agrees hanswers hcon hkind hmem hknown hsound
            hnested (s := { s with claims := claims }) ⟨honChain, hnodes ▸ hs.complete⟩
            ⟨hagrees.memo, hnodes ▸ hagrees.nodes⟩
          rcases hout : exec (buildNode services (resolveFrom services limit
            (some declaration.key)) declaration kind) { s with claims := claims } with
            ⟨halt | node, s'⟩ <;> rw [hout] at hagree hfaithful
          · exact ⟨⟨hagree.agrees.memo, hagree.agrees.nodes⟩, hagree.mirrors, hagree.settled⟩
          · refine ⟨⟨hagree.agrees.memo, ?_⟩, hagree.mirrors, hagree.settled⟩
            show NodesAgree answers view known (s'.claims.nodes.insert declaration.key node)
            intro key found hfound
            rw [Assoc.get?_insert] at hfound
            split at hfound
            · cases hfound
              exact hfaithful node rfl
            · exact hagree.agrees.nodes key found hfound

/-! ## Passes -/

/-- The state of a builder between two resolutions of a pass. -/
structure Ready (answers : Answers) (view : Declaration → Declaration)
    (known : Declaration → Prop) (s : BuildState σ) : Prop where
  sound : Sound [] s.claims
  agrees : Agrees answers view known s

theorem ready_beginPass (state : BuildState σ) : Ready answers view known (beginPass state) where
  sound := Sound.empty state.claims.nextTicket
  agrees := ⟨by rintro _ _ ⟨⟩, by rintro _ _ ⟨⟩⟩

/-- Each resolution of a pass gives what it gives without memory, and the pass can go on. -/
theorem Ready.exec_resolve {s : BuildState σ} (hs : Ready answers view known s)
    (hanswers : services.AnswersWith answers) (hcon : Consistent answers view known keys)
    (hlength : keys.length ≤ services.declarationKeys.length + 1) {root : Declaration}
    (hknown : known root) (hkey : root.key ∈ keys) (hdepth : depthBound services ≤ depth) :
    Agreement answers view known depth [] root (exec (Build.resolve services root) s) ∧
      Ready answers view known (exec (Build.resolve services root) s).2 := by
  have hbound : keys.length < depthBound services := by
    rw [depthBound]
    omega
  have hagreement := resolveFrom_agrees hanswers hcon hs.sound hs.agrees hknown hkey
    (Room.nil hbound) (Room.nil (Nat.lt_of_lt_of_le hbound hdepth))
  exact ⟨hagreement, (resolveFrom_sound services _ root s hs.sound).sound, hagreement.agrees⟩

theorem Ready.foldl_resolve {s : BuildState σ} (hs : Ready answers view known s)
    (hanswers : services.AnswersWith answers) (hcon : Consistent answers view known keys)
    (hlength : keys.length ≤ services.declarationKeys.length + 1) {roots : List Declaration}
    (hroots : ∀ root ∈ roots, known root ∧ root.key ∈ keys) :
    Ready answers view known
      (roots.foldl (fun s root => (exec (Build.resolve services root) s).2) s) := by
  induction roots generalizing s with
  | nil => exact hs
  | cons root rest ih =>
    obtain ⟨hknown, hkey⟩ := hroots root List.mem_cons_self
    exact ih (hs.exec_resolve hanswers hcon hlength hknown hkey (Nat.le_refl _)).2
      fun other hother => hroots other (List.mem_cons_of_mem _ hother)

end Build
end Lineage
