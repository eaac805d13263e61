import Lineage.Claim.Table
import Mathlib.Data.List.Nodup

set_option autoImplicit false

/-! # Claims along a chain

While declarations are resolved one inside the other, the resolutions in flight form a chain: each
has claimed the next one and depends on nothing else, and the last one is at work. `OnChain` says so
of a claim table. It is kept by the two steps that matter, a claim on behalf of the last resolution
(`claim_of_not_mem`) and the publication of its result (`OnChain.publish`), and it decides the search
for a cycle: a claim is refused exactly if its key is on the chain, and the cycle is the part of the
chain from that key on. -/

namespace Lineage

namespace Assoc

variable {κ ν : Type} [DecidableEq κ]

/-- Where keys do not repeat, every pair can be looked up. -/
theorem get?_of_mem {entries : Assoc κ ν} (hnodup : entries.keys.Nodup) {key : κ} {value : ν}
    (hmem : (key, value) ∈ entries) : entries.get? key = some value := by
  induction entries with
  | nil => simp at hmem
  | cons entry rest ih =>
    rw [keys, List.map_cons, List.nodup_cons] at hnodup
    rcases List.mem_cons.mp hmem with heq | hrest
    · subst heq
      exact if_pos rfl
    · have hne : entry.1 ≠ key := by
        rintro rfl
        exact hnodup.1 (List.mem_map.mpr ⟨_, hrest, rfl⟩)
      rw [get?, if_neg hne]
      exact ih hnodup.2 hrest

/-- No insertion makes a key repeat. -/
theorem nodup_keys_insert {entries : Assoc κ ν} (hnodup : entries.keys.Nodup) (key : κ)
    (value : ν) : (entries.insert key value).keys.Nodup := by
  rw [keys_insert]
  split
  · exact hnodup
  · next hmem => simpa using hnodup.concat hmem

end Assoc

/-- What a chain holds from the first occurrence of a key on. -/
theorem dropWhile_ne {key : DeclarationKey} {front : List DeclarationKey} (h : key ∉ front)
    (rest : List DeclarationKey) :
    (front ++ key :: rest).dropWhile (· ≠ key) = key :: rest := by
  rw [List.dropWhile_append_of_pos]
  · simp
  · intro other hother
    simpa using fun heq : other = key => h (heq ▸ hother)

namespace ClaimTable

/-! ## The dependencies in flight -/

/-- The dependencies of some resolutions, by key. -/
def dependencies (entries : Assoc DeclarationKey Flight) :
    Assoc DeclarationKey (List DeclarationKey) :=
  entries.map fun entry => (entry.1, entry.2.dependsOn)

theorem get?_dependencies (entries : Assoc DeclarationKey Flight) (key : DeclarationKey) :
    (dependencies entries).get? key = (entries.get? key).map Flight.dependsOn := by
  induction entries with
  | nil => rfl
  | cons entry rest ih =>
    rw [dependencies] at ih
    rw [dependencies, List.map_cons, Assoc.get?, Assoc.get?, ih]
    split <;> rfl

theorem dependencies_insert (entries : Assoc DeclarationKey Flight) (key : DeclarationKey)
    (flight : Flight) :
    dependencies (entries.insert key flight) =
      (dependencies entries).insert key flight.dependsOn := by
  induction entries with
  | nil => rfl
  | cons entry rest ih =>
    rw [dependencies, dependencies] at ih
    rw [dependencies, dependencies, List.map_cons, Assoc.insert, Assoc.insert]
    split
    · rfl
    · rw [List.map_cons, ih]

theorem dependencies_erase (entries : Assoc DeclarationKey Flight) (key : DeclarationKey) :
    dependencies (entries.erase key) = (dependencies entries).erase key := by
  rw [dependencies, dependencies, Assoc.erase, Assoc.erase, List.filter_map]
  rfl

/-! ## The dependencies of a chain -/

/-- The dependencies of a chain of resolutions: each depends on the next one alone. -/
def links : List DeclarationKey → Assoc DeclarationKey (List DeclarationKey)
  | [] => []
  | key :: rest => (key, rest.head?.toList) :: links rest

theorem keys_links (chain : List DeclarationKey) : (links chain).keys = chain := by
  induction chain with
  | nil => rfl
  | cons key rest ih =>
    rw [Assoc.keys] at ih
    rw [links, Assoc.keys, List.map_cons, ih]

/-- The links of the end of a chain are links of the whole. -/
theorem mem_links_append {front back : List DeclarationKey}
    {link : DeclarationKey × List DeclarationKey} (h : link ∈ links back) :
    link ∈ links (front ++ back) := by
  induction front with
  | nil => exact h
  | cons key rest ih => exact List.mem_cons_of_mem _ ih

/-- A new key behind the last one of a chain makes the last one depend on it. -/
theorem insert_links {chain : List DeclarationKey} {last key : DeclarationKey}
    (hnodup : chain.Nodup) (hlast : chain.getLast? = some last) (hkey : key ∉ chain) :
    ((links chain).insert last [key]).insert key [] = links (chain ++ [key]) := by
  induction chain with
  | nil => simp at hlast
  | cons first rest ih =>
    rw [List.nodup_cons] at hnodup
    rw [List.mem_cons, not_or] at hkey
    cases rest with
    | nil =>
      obtain rfl : first = last := by simpa using hlast
      simp [links, Assoc.insert, Ne.symm hkey.1]
    | cons next rest =>
      rw [List.getLast?_cons_cons] at hlast
      -- the last key is another one than the first, so the first link stays as it is
      have hne : first ≠ last := by
        rintro rfl
        exact hnodup.1 (List.mem_of_getLast? hlast)
      rw [links, Assoc.insert, if_neg hne, Assoc.insert, if_neg (Ne.symm hkey.1),
        ih hnodup.2 hlast hkey.2]
      rfl

/-- Without the last key, the chain ends with the one before it. -/
theorem erase_links {chain : List DeclarationKey} {key : DeclarationKey}
    (hnodup : (chain ++ [key]).Nodup) :
    ((links (chain ++ [key])).erase key).map (fun link => (link.1, link.2.filter (· ≠ key))) =
      links chain := by
  induction chain with
  | nil => simp [links, Assoc.erase]
  | cons first rest ih =>
    rw [List.cons_append, List.nodup_cons] at hnodup
    have hne : first ≠ key := by
      rintro rfl
      exact hnodup.1 (by simp)
    rw [Assoc.erase] at ih
    rw [List.cons_append, links, Assoc.erase, List.filter_cons_of_pos (by simpa using hne),
      List.map_cons, ih hnodup.2, links]
    -- the dependency of `first` is `key` itself or stays on the chain
    cases rest with
    | nil => simp
    | cons next rest =>
      have hnext : next ≠ key := by
        rintro rfl
        simp at hnodup
      simp [hnext]

/-! ## The search along a chain -/

/-- From a resolution that is not the goal, the search goes on with its dependencies. -/
theorem search_of_get? {goal last : DeclarationKey} {unexplored : Assoc DeclarationKey Flight}
    {flight : Flight} {before : List DeclarationKey}
    {pending : List (DeclarationKey × List DeclarationKey)} (hne : last ≠ goal)
    (hflight : unexplored.get? last = some flight) :
    search goal unexplored ((last, before) :: pending) =
      search goal (unexplored.erase last)
        (flight.dependsOn.map (fun next => (next, last :: before)) ++ pending) := by
  rw [search, if_neg hne]
  split
  · next hnone => rw [hnone] at hflight; cases hflight
  · next other hother =>
    obtain rfl : other = flight := Option.some.inj (hother.symm.trans hflight)
    rfl

/-- From a key on a chain, the search follows the chain to its end. -/
theorem search_links {goal key : DeclarationKey} {rest : List DeclarationKey}
    {unexplored : Assoc DeclarationKey Flight} (before : List DeclarationKey)
    (hnodup : (key :: rest).Nodup) (hlast : (key :: rest).getLast? = some goal)
    (hlinks : ∀ link ∈ links (key :: rest), (dependencies unexplored).get? link.1 = some link.2) :
    search goal unexplored [(key, before)] = some (before.reverse ++ key :: rest) := by
  induction rest generalizing key unexplored before with
  | nil =>
    obtain rfl : key = goal := by simpa using hlast
    rw [search, if_pos rfl, List.reverse_cons]
  | cons next rest ih =>
    rw [List.getLast?_cons_cons] at hlast
    rw [List.nodup_cons] at hnodup
    have hne : key ≠ goal := by
      rintro rfl
      exact hnodup.1 (List.mem_of_getLast? hlast)
    have hfirst := hlinks (key, [next]) List.mem_cons_self
    rw [get?_dependencies] at hfirst
    obtain ⟨flight, hflight, hdepends⟩ := Option.map_eq_some_iff.mp hfirst
    have hrest : ∀ link ∈ links (next :: rest),
        (dependencies (unexplored.erase key)).get? link.1 = some link.2 := by
      intro link hlink
      have hmem : link.1 ∈ next :: rest := by
        rw [← keys_links (next :: rest)]
        exact List.mem_map_of_mem hlink
      have hother : key ≠ link.1 := fun h => hnodup.1 (h ▸ hmem)
      rw [dependencies_erase, Assoc.get?_erase, if_neg hother]
      exact hlinks link (List.mem_cons_of_mem _ hlink)
    rw [search_of_get? hne hflight, hdepends, List.map_singleton, List.singleton_append,
      ih _ hnodup.2 hlast hrest, List.reverse_cons, List.append_assoc, List.singleton_append]

/-! ## Tables on a chain -/

variable {ν : Type} {chain : List DeclarationKey} {key : DeclarationKey} {table : ClaimTable ν}

/-- The resolutions in flight are those of a chain of distinct, unresolved keys. -/
structure OnChain (chain : List DeclarationKey) (table : ClaimTable ν) : Prop where
  links_eq : dependencies table.inFlight = links chain
  nodup : chain.Nodup
  fresh : ∀ key ∈ chain, table.nodes.get? key = none

theorem OnChain.get?_inFlight (h : OnChain chain table) (hkey : key ∉ chain) :
    table.inFlight.get? key = none := by
  have hnone : (dependencies table.inFlight).get? key = none := by
    rw [h.links_eq, ← Option.not_isSome_iff_eq_none, ← Assoc.mem_keys_iff, keys_links]
    exact hkey
  rwa [get?_dependencies, Option.map_eq_none_iff] at hnone

theorem OnChain.get?_last (h : OnChain chain table) {last : DeclarationKey}
    (hlast : chain.getLast? = some last) :
    ∃ flight, table.inFlight.get? last = some flight ∧ flight.dependsOn = [] := by
  obtain ⟨front, rfl⟩ := List.getLast?_eq_some_iff.mp hlast
  have hlink : (dependencies table.inFlight).get? last = some [] := by
    rw [h.links_eq]
    refine Assoc.get?_of_mem (by rw [keys_links]; exact h.nodup) ?_
    exact mem_links_append List.mem_cons_self
  rw [get?_dependencies] at hlink
  exact Option.map_eq_some_iff.mp hlink

/-- On a chain, the path from one of its keys to its end is the rest of the chain. -/
theorem OnChain.dependencyPath?_of_mem (h : OnChain chain table) {last : DeclarationKey}
    (hlast : chain.getLast? = some last) (hkey : key ∈ chain) :
    table.dependencyPath? key last = some (chain.dropWhile (· ≠ key)) := by
  obtain ⟨front, rest, rfl, hfront⟩ := List.eq_append_cons_of_mem hkey
  rw [dropWhile_ne hfront, dependencyPath?]
  have hback := h.nodup.of_append_right
  refine search_links [] hback (by simpa using hlast) ?_
  intro link hlink
  rw [h.links_eq]
  exact Assoc.get?_of_mem (by rw [keys_links]; exact h.nodup) (mem_links_append hlink)

theorem OnChain.dependencyPath?_of_not_mem (h : OnChain chain table) {last : DeclarationKey}
    (hlast : chain.getLast? = some last) (hkey : key ∉ chain) :
    table.dependencyPath? key last = none := by
  have hne : key ≠ last := by
    rintro rfl
    exact hkey (List.mem_of_getLast? hlast)
  rw [dependencyPath?, search, if_neg hne]
  split
  · rw [search]
  · next flight hflight => rw [h.get?_inFlight hkey] at hflight; cases hflight

/-! ## Claims and publications -/

theorem claim_of_resolved {node : ν} (requester : Option DeclarationKey)
    (hnode : table.nodes.get? key = some node) :
    table.claim key requester = .ok (.ready node, table) := by
  unfold claim
  rw [hnode]

/-- A claim of a key on the chain is refused with the part of the chain from that key on. -/
theorem OnChain.claim_of_mem (h : OnChain chain table) (hkey : key ∈ chain) :
    table.claim key chain.getLast? = .error (chain.dropWhile (· ≠ key) ++ [key]) := by
  obtain ⟨last, hlast⟩ : ∃ last, chain.getLast? = some last :=
    Option.isSome_iff_exists.mp (by simpa using List.ne_nil_of_mem hkey)
  unfold claim
  rw [h.fresh key hkey, hlast]
  dsimp only
  rw [h.dependencyPath?_of_mem hlast hkey]

/-- A claim of any other unresolved key is granted and makes the chain longer by it. -/
theorem OnChain.claim_of_not_mem (h : OnChain chain table) (hkey : key ∉ chain)
    (hnone : table.nodes.get? key = none) :
    ∃ table', table.claim key chain.getLast? = .ok (.owner, table') ∧
      table'.nodes = table.nodes ∧ OnChain (chain ++ [key]) table' := by
  have hnodup : (chain ++ [key]).Nodup := by
    rw [List.nodup_append]
    refine ⟨h.nodup, List.nodup_singleton key, ?_⟩
    rintro other hother _ hsingle rfl
    exact hkey (List.mem_singleton.mp hsingle ▸ hother)
  have hfresh : ∀ other ∈ chain ++ [key], table.nodes.get? other = none := by
    intro other hother
    rcases List.mem_append.mp hother with hold | hnew
    · exact h.fresh other hold
    · rwa [List.mem_singleton.mp hnew]
  unfold claim
  rw [hnone]
  cases hlast : chain.getLast? with
  | none =>
    obtain rfl : chain = [] := by simpa using hlast
    dsimp only
    rw [enter, h.get?_inFlight hkey]
    refine ⟨_, rfl, rfl, ⟨?_, hnodup, hfresh⟩⟩
    rw [dependencies_insert, h.links_eq]
    rfl
  | some last =>
    obtain ⟨flight, hflight, hdepends⟩ := h.get?_last hlast
    have hne : last ≠ key := by
      rintro rfl
      exact hkey (List.mem_of_getLast? hlast)
    dsimp only
    rw [h.dependencyPath?_of_not_mem hlast hkey, addDependency, hflight]
    dsimp only
    rw [enter]
    dsimp only
    rw [Assoc.get?_insert, if_neg hne, h.get?_inFlight hkey]
    refine ⟨_, rfl, rfl, ⟨?_, hnodup, hfresh⟩⟩
    rw [dependencies_insert, dependencies_insert, h.links_eq, hdepends]
    exact insert_links h.nodup hlast hkey

/-- Only a key that is neither resolved nor on the chain is granted. -/
theorem OnChain.of_owner (h : OnChain chain table) {table' : ClaimTable ν}
    (hclaim : table.claim key chain.getLast? = .ok (.owner, table')) :
    key ∉ chain ∧ table'.nodes = table.nodes ∧ OnChain (chain ++ [key]) table' := by
  have hnone : table.nodes.get? key = none := by
    by_contra hsome
    obtain ⟨node, hnode⟩ := Option.ne_none_iff_exists'.mp hsome
    rw [claim_of_resolved _ hnode] at hclaim
    cases hclaim
  have hmem : key ∉ chain := by
    intro hmem
    rw [h.claim_of_mem hmem] at hclaim
    cases hclaim
  obtain ⟨granted, hgranted, hnodes, honChain⟩ := h.claim_of_not_mem hmem hnone
  rw [hgranted] at hclaim
  cases hclaim
  exact ⟨hmem, hnodes, honChain⟩

theorem dependencies_publish (table : ClaimTable ν) (key : DeclarationKey) (node : Option ν) :
    dependencies (table.publish key node).inFlight =
      ((dependencies table.inFlight).erase key).map fun link =>
        (link.1, link.2.filter (· ≠ key)) := by
  rw [← dependencies_erase]
  simp only [dependencies, publish, List.map_map]
  rfl

/-- Publishing the result of the last resolution, whatever it is, shortens the chain by it. -/
theorem OnChain.publish (h : OnChain (chain ++ [key]) table) (node : Option ν) :
    OnChain chain (table.publish key node) := by
  refine ⟨?_, h.nodup.of_append_left, ?_⟩
  · rw [dependencies_publish, h.links_eq]
    exact erase_links h.nodup
  · intro other hother
    have hold := h.fresh other (List.mem_append_left _ hother)
    cases node with
    | none => exact hold
    | some node =>
      have hne : key ≠ other := by
        rintro rfl
        have hdisjoint := (List.nodup_append.mp h.nodup).2.2
        exact hdisjoint key hother key (List.mem_singleton_self key) rfl
      show (table.nodes.insert key node).get? other = none
      rw [Assoc.get?_insert, if_neg hne]
      exact hold

end ClaimTable
end Lineage
