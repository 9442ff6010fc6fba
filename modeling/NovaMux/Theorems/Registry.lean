import NovaMux.Core.Registry
import Mathlib.Data.List.Basic

/-! What a reconciliation leaves in a registry: the resources of the panes of the session and no others,
    those that were there before among them. It calls the creation of a resource for each missing pane in
    turn, up to the first failure, which leaves the registry alone. -/

namespace NovaMux.PaneRegistry

open Std

variable {T E S : Type} {registry registry' : PaneRegistry T} {session : Session} {s s' : S}
  {create : PaneId → S → Except E T × S}

@[simp] theorem get_set (pane other : PaneId) (resource : T) :
    (registry.set pane resource).get other = if pane = other then some resource else registry.get other := by
  simp [set, get, ExtTreeMap.getElem?_insert]

/-! ### Calls -/

/-- `create` is called on the panes of the list in turn, from the state `s` to the state `s'`, and succeeds
    each time; `created` lists what it returns. -/
inductive Creates (create : PaneId → S → Except E T × S) : List PaneId → S → List (PaneId × T) → S → Prop where
  | nil (t : S) : Creates create [] t [] t
  | cons {pane : PaneId} {missing : List PaneId} {resource : T} {created : List (PaneId × T)} {t t₁ t' : S} :
      create pane t = (.ok resource, t₁) → Creates create missing t₁ created t' →
        Creates create (pane :: missing) t ((pane, resource) :: created) t'

theorem createMissing_ok {missing : List PaneId} {created : List (PaneId × T)}
    (h : createMissing create missing s = (.ok created, s')) : Creates create missing s created s' := by
  induction missing generalizing s created with
  | nil =>
    cases h
    exact .nil _
  | cons pane missing ih =>
    rw [createMissing] at h
    split at h
    · cases h
    · next hcreate =>
      split at h
      · cases h
      · next hrest =>
        cases h
        exact .cons hcreate (ih hrest)

/-- The first failure ends the calls. -/
theorem createMissing_error {missing : List PaneId} {error : E}
    (h : createMissing create missing s = (.error error, s')) :
    ∃ before pane after created s₁, missing = before ++ pane :: after ∧ Creates create before s created s₁ ∧
      create pane s₁ = (.error error, s') := by
  induction missing generalizing s with
  | nil => cases h
  | cons pane missing ih =>
    rw [createMissing] at h
    split at h
    · next hcreate =>
      cases h
      exact ⟨[], pane, missing, [], s, rfl, .nil s, hcreate⟩
    · next hcreate =>
      split at h
      · next hrest =>
        cases h
        obtain ⟨before, pane', after, created, s₁, hm, hc, he⟩ := ih hrest
        exact ⟨pane :: before, pane', after, _, s₁, by rw [hm, List.cons_append], .cons hcreate hc, he⟩
      · cases h

theorem Creates.keys {missing : List PaneId} {created : List (PaneId × T)} (h : Creates create missing s created s') :
    created.map Prod.fst = missing := by
  induction h with
  | nil => rfl
  | cons _ _ ih => rw [List.map_cons, ih]

/-! ### Panes that come and go -/

@[simp] theorem mem_wanted {pane : PaneId} : pane ∈ wanted session ↔ pane ∈ session.panes := by
  simp [wanted]

@[simp] theorem contains_resources (registry : PaneRegistry T) (pane : PaneId) :
    registry.resources.contains pane = (registry.get pane).isSome :=
  ExtTreeMap.isSome_getElem?_eq_contains.symm

/-- The panes of the session that have no resource, in the order in which they get one. -/
def missing (registry : PaneRegistry T) (session : Session) : List PaneId :=
  (wanted session).toList.filter fun pane => !registry.resources.contains pane

def surplus (registry : PaneRegistry T) (session : Session) : List PaneId :=
  registry.resources.keys.filter fun pane => !(wanted session).contains pane

theorem mem_missing {pane : PaneId} :
    pane ∈ registry.missing session ↔ pane ∈ session.panes ∧ registry.get pane = none := by
  rw [missing, List.mem_filter, ExtTreeSet.mem_toList, mem_wanted]
  simp

theorem mem_surplus {pane : PaneId} :
    pane ∈ registry.surplus session ↔ (registry.get pane).isSome ∧ pane ∉ session.panes := by
  rw [surplus, List.mem_filter, ExtTreeMap.mem_keys, ← ExtTreeMap.contains_iff_mem, contains_resources, ← mem_wanted,
    ← ExtTreeSet.contains_iff_mem, Bool.not_eq_true', Bool.not_eq_true]

theorem removeAll_get (removedIds : List PaneId) (resources : ExtTreeMap PaneId T) (pane : PaneId) :
    (removeAll removedIds resources).2[pane]? = if pane ∈ removedIds then none else resources[pane]? := by
  induction removedIds generalizing resources with
  | nil => rfl
  | cons removedId removedIds ih =>
    have hrest : (removeAll (removedId :: removedIds) resources).2 =
        (removeAll removedIds (resources.erase removedId)).2 := by
      simp only [removeAll]
      split <;> rfl
    rw [hrest, ih, ExtTreeMap.getElem?_erase]
    by_cases he : removedId = pane
    · simp [he]
    · simp [he, Ne.symm he]

/-- The resources once those of removed panes are gone. -/
theorem get_remaining (registry : PaneRegistry T) (session : Session) (pane : PaneId) :
    (removeAll (registry.surplus session) registry.resources).2[pane]? =
      if pane ∈ session.panes then registry.get pane else none := by
  rw [removeAll_get]
  by_cases hp : pane ∈ session.panes
  · rw [if_pos hp, if_neg fun h => (mem_surplus.mp h).2 hp]
    rfl
  · rw [if_neg hp]
    split
    · rfl
    · next hn => exact Option.not_isSome_iff_eq_none.mp fun hs => hn (mem_surplus.mpr ⟨hs, hp⟩)

/-! ### Reconciliation -/

/-- How the resources after a reconciliation relate to those before it. -/
structure Reconciled (session : Session) (before after : PaneRegistry T) : Prop where
  kept : ∀ pane ∈ session.panes, ∀ resource, before.get pane = some resource → after.get pane = some resource
  present : ∀ pane ∈ session.panes, (after.get pane).isSome
  dropped : ∀ pane, pane ∉ session.panes → after.get pane = none

theorem reconcile_ok {removed : List (PaneId × T)}
    (h : registry.reconcile session create s = (.ok removed, registry', s')) :
    Reconciled session registry registry' := by
  simp only [reconcile] at h
  split at h
  · cases h
  · next created _ hc =>
    obtain ⟨-, rfl, rfl⟩ : _ ∧ _ = registry' ∧ _ := by simpa only [Prod.mk.injEq] using h
    have hkeys : created.map Prod.fst = registry.missing session := (createMissing_ok hc).keys
    have unchanged : ∀ pane, ¬(pane ∈ session.panes ∧ registry.get pane = none) →
        ((removeAll (registry.surplus session) registry.resources).2.insertMany created)[pane]? =
          if pane ∈ session.panes then registry.get pane else none := by
      intro pane hn
      rw [← get_remaining, ExtTreeMap.getElem?_insertMany_list_of_contains_eq_false]
      rw [hkeys, Bool.eq_false_iff]
      exact fun hc => hn (mem_missing.mp (List.contains_iff_mem.mp hc))
    refine ⟨fun pane hp resource hr => ?_, fun pane hp => ?_, fun pane hp => ?_⟩
    · have hkept := unchanged pane fun h => Option.ne_none_iff_exists'.mpr ⟨resource, hr⟩ h.2
      rw [if_pos hp, hr] at hkept
      exact hkept
    · by_cases hg : registry.get pane = none
      · rw [get, ExtTreeMap.isSome_getElem?_eq_contains, ExtTreeMap.contains_insertMany_list, hkeys,
          List.contains_iff_mem.mpr (mem_missing.mpr ⟨hp, hg⟩), Bool.or_true]
      · have hkept := unchanged pane fun h => hg h.2
        rw [if_pos hp] at hkept
        exact (congrArg Option.isSome hkept).trans (Option.isSome_iff_ne_none.mpr hg)
    · have hgone := unchanged pane fun h => hp h.1
      rw [if_neg hp] at hgone
      exact hgone

theorem reconcile_error {error : E} (h : registry.reconcile session create s = (.error error, registry', s')) :
    registry' = registry := by
  simp only [reconcile] at h
  split at h
  · cases h; rfl
  · cases h

/-- Nothing is created, so nothing can fail, when every pane of the session has a resource. -/
theorem reconcile_of_owned {outcome : Except E (List (PaneId × T))}
    (ho : ∀ pane ∈ session.panes, (registry.get pane).isSome)
    (h : registry.reconcile session create s = (outcome, registry', s')) : (∃ removed, outcome = .ok removed) ∧ s' = s := by
  have hmissing : registry.missing session = [] := by
    refine List.eq_nil_iff_forall_not_mem.mpr fun pane hp => ?_
    obtain ⟨hin, hnone⟩ := mem_missing.mp hp
    have hsome := ho pane hin
    rw [hnone] at hsome
    cases hsome
  rw [missing] at hmissing
  simp only [reconcile, hmissing, createMissing] at h
  cases h
  exact ⟨⟨_, rfl⟩, rfl⟩

/-! ### Orders -/

def Ascending (panes : List PaneId) : Prop := panes.Pairwise fun a b => a.get < b.get

theorem compare_eq_lt {a b : PaneId} : compare a b = .lt ↔ a.get < b.get := by
  show compareOfLessAndEq a.get b.get = .lt ↔ a.get < b.get
  exact compareOfLessAndEq_eq_lt

theorem ascending_missing (registry : PaneRegistry T) (session : Session) : Ascending (registry.missing session) := by
  refine List.Pairwise.filter _ ?_
  exact (wanted session).ordered_toList.imp fun h => compare_eq_lt.mp h

theorem ascending_surplus (registry : PaneRegistry T) (session : Session) : Ascending (registry.surplus session) := by
  refine List.Pairwise.filter _ ?_
  exact registry.resources.ordered_keys.imp fun h => compare_eq_lt.mp h

theorem Ascending.nodup {panes : List PaneId} (h : Ascending panes) : panes.Nodup := by
  refine List.Pairwise.imp (fun {a b} hlt => ?_) h
  intro he
  subst he
  exact UInt64.lt_irrefl _ hlt

/-! ### What is removed -/

/-- The removed resources come with the panes they belonged to, in the order of the removals. -/
theorem removeAll_fst {removedIds : List PaneId} (resources : ExtTreeMap PaneId T) (hn : removedIds.Nodup)
    (hp : ∀ pane ∈ removedIds, (resources[pane]?).isSome) :
    (removeAll removedIds resources).1.map Prod.fst = removedIds ∧
      ∀ entry ∈ (removeAll removedIds resources).1, resources[entry.1]? = some entry.2 := by
  induction removedIds generalizing resources with
  | nil => exact ⟨rfl, fun entry he => absurd he List.not_mem_nil⟩
  | cons removedId removedIds ih =>
    obtain ⟨hnotin, hn⟩ := List.nodup_cons.mp hn
    obtain ⟨hhead, hrest⟩ := List.forall_mem_cons.mp hp
    obtain ⟨resource, hr⟩ := Option.isSome_iff_exists.mp hhead
    have frame : ∀ pane ∈ removedIds, (resources.erase removedId)[pane]? = resources[pane]? := fun pane hp => by
      have hne : removedId ≠ pane := fun he => hnotin (he ▸ hp)
      rw [ExtTreeMap.getElem?_erase, if_neg fun he => hne (LawfulEqOrd.eq_of_compare he)]
    obtain ⟨hfst, hval⟩ := ih (resources.erase removedId) hn fun pane hp => by
      rw [frame pane hp]
      exact hrest pane hp
    have hhere : (removeAll (removedId :: removedIds) resources).1 =
        (removedId, resource) :: (removeAll removedIds (resources.erase removedId)).1 := by
      simp only [removeAll, hr]
    rw [hhere]
    refine ⟨by rw [List.map_cons, hfst], List.forall_mem_cons.mpr ⟨hr, fun entry he => ?_⟩⟩
    rw [← frame entry.1 (hfst ▸ List.mem_map_of_mem he)]
    exact hval entry he

/-! ### Exact reconciliation -/

/-- A reconciliation that succeeds: the panes of the session are the keys, the resources that were there
    and are still wanted are kept, the new ones are those that were created, and the result lists the
    others with their panes in ascending order. -/
structure Exact (session : Session) (before after : PaneRegistry T) (created removed : List (PaneId × T)) :
    Prop where
  keys : ∀ pane, (after.get pane).isSome ↔ pane ∈ session.panes
  kept : ∀ pane ∈ session.panes, ∀ resource, before.get pane = some resource → after.get pane = some resource
  created : ∀ entry ∈ created, after.get entry.1 = some entry.2
  ascending : Ascending (removed.map Prod.fst)
  removed : ∀ pane resource, (pane, resource) ∈ removed ↔ before.get pane = some resource ∧ pane ∉ session.panes

theorem reconcile_exact_ok {created : List (PaneId × T)}
    (hc : createMissing create (registry.missing session) s = (.ok created, s')) :
    ∃ removed registry', registry.reconcile session create s = (.ok removed, registry', s') ∧
      Exact session registry registry' created removed := by
  have hr : registry.reconcile session create s = (.ok (removeAll (registry.surplus session) registry.resources).1,
      ⟨(removeAll (registry.surplus session) registry.resources).2.insertMany created⟩, s') := by
    rw [missing] at hc
    simp only [reconcile, hc]
    rfl
  have hrec := reconcile_ok hr
  obtain ⟨hfst, hval⟩ := removeAll_fst registry.resources (ascending_surplus registry session).nodup
    fun pane hp => (mem_surplus.mp hp).1
  refine ⟨_, _, hr, ?_, hrec.kept, fun entry he => ?_, ?_, fun pane resource => ⟨fun h => ?_, fun h => ?_⟩⟩
  · intro pane
    refine ⟨fun h => ?_, hrec.present pane⟩
    by_contra hp
    rw [hrec.dropped pane hp] at h
    cases h
  -- The created resources have panes of their own, so none replaces another.
  · refine ExtTreeMap.getElem?_insertMany_list_of_mem (k := entry.1) ReflCmp.compare_self ?_ he
    have hn : (created.map Prod.fst).Nodup := by
      rw [(createMissing_ok hc).keys]
      exact (ascending_missing registry session).nodup
    exact (List.pairwise_map.mp hn).imp fun hne he => hne (LawfulEqOrd.eq_of_compare he)
  · rw [hfst]
    exact ascending_surplus registry session
  · exact ⟨hval _ h, (mem_surplus.mp (hfst ▸ List.mem_map_of_mem h)).2⟩
  · obtain ⟨hget, hp⟩ := h
    have hin : pane ∈ (removeAll (registry.surplus session) registry.resources).1.map Prod.fst := by
      rw [hfst]
      exact mem_surplus.mpr ⟨by simp [hget], hp⟩
    obtain ⟨entry, he, rfl⟩ := List.mem_map.mp hin
    have hsame : registry.get entry.1 = some entry.2 := hval entry he
    rw [hget] at hsame
    rw [Option.some.inj hsame]
    exact he

/-- A reconciliation calls the creation on exactly the panes without a resource, in ascending order and up
    to the first failure. If none fails the result is exact; a failure leaves the registry as it was and
    is returned. -/
theorem reconcile_exact (registry : PaneRegistry T) (session : Session) (create : PaneId → S → Except E T × S)
    (s : S) : ∃ missing, Ascending missing ∧
      (∀ pane, pane ∈ missing ↔ pane ∈ session.panes ∧ registry.get pane = none) ∧
      ((∃ created s' removed registry', Creates create missing s created s' ∧
          registry.reconcile session create s = (.ok removed, registry', s') ∧
          Exact session registry registry' created removed) ∨
        ∃ before pane after created s₁ error s', missing = before ++ pane :: after ∧
          Creates create before s created s₁ ∧ create pane s₁ = (.error error, s') ∧
          registry.reconcile session create s = (.error error, registry, s')) := by
  refine ⟨registry.missing session, ascending_missing registry session, fun pane => mem_missing, ?_⟩
  rcases hc : createMissing create (registry.missing session) s with ⟨error | created, s'⟩
  · obtain ⟨before, pane, after, created, s₁, hm, hcreates, he⟩ := createMissing_error hc
    refine Or.inr ⟨before, pane, after, created, s₁, error, s', hm, hcreates, he, ?_⟩
    rw [missing] at hc
    simp only [reconcile, hc]
  · obtain ⟨removed, registry', hr, hexact⟩ := reconcile_exact_ok hc
    exact Or.inl ⟨created, s', removed, registry', createMissing_ok hc, hr, hexact⟩

end NovaMux.PaneRegistry
