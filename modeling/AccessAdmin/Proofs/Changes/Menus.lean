import Mathlib.Logic.Relation
import AccessAdmin.Proofs.Changes.Columns
import AccessAdmin.Proofs.Running.Work

/-!
# What menu mutations change

The work of a menu mutation that succeeds, told by the tables before and after it. Nothing here
depends on how the work is written down; what follows about menus uses these descriptions only.

* `Menus.Added`: a menu is inserted, alone or as a node of a forest.
* `Menus.Updated`: a menu is updated, perhaps moved with everything below it.
* `Menus.Removed`: a menu without children is removed.
-/

namespace AccessAdmin

namespace Menus

open Service
open Store.Tables (find_row)
open Session (ends_ask_then ends_change_then ends_changeAll_then)

variable {env : Surroundings} {s : Session} {d d' : Desk} {t t' : Store.Tables}

/-- A place in the tree that some tables offer: the top, or below a stored menu. -/
def Place (t : Store.Tables) (parentId : String) (path : AncestorPath) : Prop :=
  (parentId = "" ∧ path = .root) ∨
    (parentId ≠ "" ∧ ∃ p ∈ t.menus, p.id = parentId ∧ path = p.childPath)

theorem ends_pathUnder {parentId : String} {path : AncestorPath}
    (h : (pathUnder s parentId).run.Ends env s.id d (.ok path) d') :
    d' = d ∧ Place d.tables parentId path := by
  unfold pathUnder at h
  split at h
  · rename_i he
    obtain ⟨hp, rfl⟩ := ends_pure.1 h
    exact ⟨rfl, .inl ⟨String.isEmpty_iff.1 he, Except.ok.inj hp⟩⟩
  · rename_i hne
    replace h := ends_ask_then.1 h
    cases hf : d.tables.ask (.getMenu parentId) with
    | none =>
      simp only [hf] at h
      exact (not_ends_refuse h).elim
    | some p =>
      simp only [hf] at h
      obtain ⟨hp, rfl⟩ := ends_pure.1 h
      obtain ⟨hmem, hid⟩ := find_row hf
      exact ⟨rfl, .inr ⟨fun h => hne (String.isEmpty_iff.2 h), p, hmem, hid, Except.ok.inj hp⟩⟩

theorem ends_validate {f : MenuForm} {u : Unit}
    (h : (validate f).run.Ends env s.id d (.ok u) d') : d' = d ∧ fault? f = none := by
  unfold validate at h
  split at h
  · exact ⟨(ends_pure.1 h).2, ‹_›⟩
  · exact (not_ends_refuse h).elim

/-! ## Insertions -/

/-- A menu is inserted with its actions and resources. -/
structure Added (env : Surroundings) (input : MenuInput) (t : Store.Tables) (row : Menu)
    (t' : Store.Tables) : Prop where
  id : row.id = env.idName .menu (t.created.menus + 1)
  fresh : ∀ m ∈ t.menus, m.id ≠ row.id
  parent : row.parentId = input.parentId
  place : Place t row.parentId row.parentPath
  tables : t' = { t with
    lastRowId := t.lastRowId + 1
    created := { t.created with menus := t.created.menus + 1 }
    menus := t.menus ++ [row]
    menuActions := t.menuActions ++ input.actionsFor row.id
    menuResources := t.menuResources ++ input.resourcesFor row.id }

theorem ends_insert {actor : String} {input : MenuInput} {menu : Menu}
    (h : (insert s actor input).run.Ends env s.id d (.ok menu) d') :
    ∃ row, Added env input d.tables row d'.tables ∧ menu.id = row.id := by
  rw [insert] at h
  obtain ⟨path, hplace, h⟩ := ends_look (fun _ _ => ends_pathUnder) h
  replace h := ends_freshId_then.1 h
  obtain ⟨now, h⟩ := ends_readClock_then.1 h
  obtain ⟨t₁, h₁, h⟩ := ends_change_then.1 h
  obtain ⟨t₂, h₂, h⟩ := ends_changeAll_then.1 h
  obtain ⟨t₃, h₃, h⟩ := ends_changeAll_then.1 h
  obtain ⟨hfresh, rfl⟩ := Store.Tables.createMenu_eq_ok.1 h₁
  obtain rfl := Store.Amendable.actions.inserts h₂
  obtain rfl := Store.Amendable.resources.inserts h₃
  replace h := ends_ask_then.1 h
  split at h
  · obtain ⟨hm, rfl⟩ := ends_pure.1 h
    obtain rfl := Except.ok.inj hm
    exact ⟨_, ⟨by rfl, by exact hfresh, by rfl, by exact hplace, rfl⟩, by rfl⟩
  · obtain ⟨hm, rfl⟩ := ends_pure.1 h
    obtain rfl := Except.ok.inj hm
    exact ⟨_, ⟨by rfl, by exact hfresh, by rfl, by exact hplace, rfl⟩, by rfl⟩

/-- Any number of menus is inserted, one after the other. -/
def Grown (env : Surroundings) : Store.Tables → Store.Tables → Prop :=
  Relation.ReflTransGen fun t t' =>
    ∃ input row, fault? input.toMenuForm = none ∧ Added env input t row t'

/-- A forest is planted menu by menu: by recursion on the forest, a seed's children, then the seeds
beside it. -/
theorem ends_plant {actor : String} : ∀ {forest : List MenuSeed} {parentId : String} {n : Nat}
    {d d' : Desk}, (plant s actor parentId forest).run.Ends env s.id d (.ok n) d' →
      Grown env d.tables d'.tables
  | [], parentId, n, d, d', h => by
    rw [plant] at h
    obtain ⟨-, rfl⟩ := ends_pure.1 h
    exact .refl
  | .node form children :: rest, parentId, n, d, d', h => by
    rw [plant] at h
    obtain ⟨_, hform, h⟩ := ends_look (fun _ _ => ends_validate) h
    obtain ⟨menu, d₁, hinsert, h⟩ := ends_seq_ok.1 h
    obtain ⟨row, hadded, -⟩ := ends_insert hinsert
    obtain ⟨_, d₂, hbelow, h⟩ := ends_seq_ok.1 h
    obtain ⟨_, d₃, hbeside, h⟩ := ends_seq_ok.1 h
    obtain ⟨-, rfl⟩ := ends_pure.1 h
    have hfirst : Grown env d.tables d₁.tables := .single ⟨_, row, hform, hadded⟩
    exact (hfirst.trans (ends_plant hbelow)).trans (ends_plant hbeside)

theorem ends_seeding {actor : String} {forest : List MenuSeed} {n : Nat}
    (h : (seeding s actor forest).run.Ends env s.id d (.ok n) d') :
    Grown env d.tables d'.tables := by
  replace h := ends_ask_then.1 h
  split at h
  · obtain ⟨-, rfl⟩ := ends_pure.1 h
    exact .refl
  · exact ends_plant h

/-! ## Updates -/

theorem mem_matchingMenus {f : MenuFilter} {m : Menu} :
    m ∈ t.matchingMenus f ↔ m ∈ t.menus ∧ f.admits m = true := by
  rw [Store.Tables.matchingMenus, Menu.inOrder, List.mem_mergeSort, List.mem_filter]

/-- What a series of new paths makes of a menu. -/
def repath (paths : List (String × AncestorPath)) (m : Menu) : Menu :=
  paths.foldl (fun m p => if m.id == p.1 then { m with parentPath := p.2 } else m) m

theorem applyAll_repath {paths : List (String × AncestorPath)}
    (h : t.applyAll (paths.map fun p => .updateMenuParentPath p.1 p.2) = .ok t') :
    t' = { t with menus := t.menus.map (repath paths) } := by
  induction paths generalizing t with
  | nil =>
    obtain rfl := Except.ok.inj h
    rw [show repath [] = fun m => m from rfl, List.map_id']
  | cons p paths ih =>
    obtain ⟨t₁, h₁, h₂⟩ := Store.Tables.applyAll_cons.1 h
    obtain ⟨menus, hmenus, rfl⟩ := Store.Tables.bind_pure_eq_ok.1 h₁
    obtain ⟨-, rfl⟩ := Store.Tables.amend_eq_ok.1 hmenus
    rw [ih h₂]
    simp only [List.map_map]
    rfl

/-- A menu that all paths for its id agree on. -/
theorem repath_eq {paths : List (String × AncestorPath)} {m : Menu} {q : AncestorPath}
    (h : ∀ p ∈ paths, p.1 = m.id → p.2 = q) :
    repath paths m =
      if m.id ∈ paths.map Prod.fst then { m with parentPath := q } else m := by
  induction paths generalizing m with
  | nil => rfl
  | cons p paths ih =>
    simp only [repath, List.foldl_cons, List.map_cons, List.mem_cons]
    by_cases hp : m.id = p.1
    · have hq : p.2 = q := h p (.head _) hp.symm
      rw [if_pos (beq_iff_eq.2 hp), if_pos (.inl hp), hq]
      have := ih (m := { m with parentPath := q }) fun p' hp' he => h p' (.tail _ hp') he
      rw [repath] at this
      rw [this]
      split <;> rfl
    · rw [if_neg fun he => hp (beq_iff_eq.1 he)]
      have := ih fun p' hp' he => h p' (.tail _ hp') he
      rw [repath] at this
      rw [this]
      simp only [hp, false_or]

/-- The menu at its place after everything below `old` has moved below `new`. -/
def rebased (old new : AncestorPath) (m : Menu) : Menu :=
  { m with parentPath := (m.parentPath.rebase old new).getD m.parentPath }

/-- The ids of some menus with the paths that they get. -/
def rebasedPaths (below : List Menu) (old new : AncestorPath) : List (String × AncestorPath) :=
  below.filterMap fun m => (m.parentPath.rebase old new).map fun q => (m.id, q)

theorem rebases_eq (below : List Menu) (old new : AncestorPath) : rebases below old new =
    (rebasedPaths below old new).map fun p => .updateMenuParentPath p.1 p.2 := by
  simp only [rebases, rebasedPaths, List.map_filterMap, Option.map_map]
  rfl

/-- The menus that the search for a subtree finds are those whose path can be rebased. -/
theorem repath_subtree {old new : AncestorPath} {m : Menu} (hnodup : (t.menus.map Menu.id).Nodup)
    (hm : m ∈ t.menus) :
    repath (rebasedPaths (t.matchingMenus (.subtree old)) old new) m = rebased old new m := by
  have hpath (p : String × AncestorPath)
      (hp : p ∈ rebasedPaths (t.matchingMenus (.subtree old)) old new) (he : p.1 = m.id) :
      m.parentPath.rebase old new = some p.2 := by
    obtain ⟨m', hm', hmap⟩ := List.mem_filterMap.1 hp
    obtain ⟨q, hq, rfl⟩ := Option.map_eq_some_iff.1 hmap
    rw [← List.inj_on_of_nodup_map hnodup (mem_matchingMenus.1 hm').1 hm he]
    exact hq
  rw [repath_eq (q := (m.parentPath.rebase old new).getD m.parentPath)
    fun p hp he => by rw [hpath p hp he]; rfl]
  split
  · rfl
  · rename_i hnot
    cases hq : m.parentPath.rebase old new with
    | none => rw [rebased, hq]; rfl
    | some q =>
      have hstart : m.parentPath.startsWith old = true := by
        rw [← AncestorPath.isSome_rebase m.parentPath old new, hq]
        rfl
      have hbelow : m ∈ t.matchingMenus (.subtree old) := mem_matchingMenus.2 ⟨hm, by
        simp only [MenuFilter.admits, MenuFilter.subtree, Option.all_none, Option.all_some, hstart,
          Bool.and_self]⟩
      refine (hnot ?_).elim
      exact List.mem_map.2 ⟨(m.id, q), List.mem_filterMap.2 ⟨m, hbelow, by rw [hq]; rfl⟩, rfl⟩

theorem ends_rebaseSubtree {old new : AncestorPath} {n : Nat}
    (hnodup : (d.tables.menus.map Menu.id).Nodup)
    (h : (rebaseSubtree s old new).run.Ends env s.id d (.ok n) d') :
    d'.tables = { d.tables with menus := d.tables.menus.map (rebased old new) } := by
  replace h := ends_ask_then.1 h
  obtain ⟨t, ht, h⟩ := ends_changeAll_then.1 h
  obtain ⟨-, rfl⟩ := ends_pure.1 h
  rw [rebases_eq] at ht
  have hsame : d.tables.menus.map (repath _) = d.tables.menus.map (rebased old new) :=
    List.map_congr_left fun _ hm => repath_subtree hnodup hm
  show t = _
  rw [applyAll_repath ht, ← hsame]
  rfl

/-- The place of a menu in an update: the old one, or a new one that is not below the menu. -/
def Moved (t : Store.Tables) (old : Menu) (parentId : String) (path : AncestorPath) : Prop :=
  (parentId = old.parentId ∧ path = old.parentPath) ∨
    (parentId ≠ old.parentId ∧ Place t parentId path ∧ path.startsWith old.childPath = false)

/-- The menus after `old` has moved to a place, before its own row is updated. -/
def relocated (menus : List Menu) (old : Menu) (parentId : String) (path : AncestorPath) :
    List Menu :=
  if parentId = old.parentId then menus
  else menus.map (rebased old.childPath (path.child old.id))

theorem ends_move {id parentId parentId' : String} {old : Menu} {path : AncestorPath}
    (hid : old.id = id) (hnodup : (d.tables.menus.map Menu.id).Nodup)
    (h : (move s id old parentId).run.Ends env s.id d (.ok (parentId', path)) d') :
    parentId' = parentId ∧ Moved d.tables old parentId path ∧
      d'.tables = { d.tables with menus := relocated d.tables.menus old parentId path } := by
  unfold move at h
  split at h
  · rename_i heq
    obtain ⟨hp, rfl⟩ := ends_pure.1 h
    obtain ⟨rfl, rfl⟩ := Prod.mk.inj (Except.ok.inj hp)
    exact ⟨heq.symm, .inl ⟨heq, rfl⟩, by rw [relocated, if_pos heq]⟩
  · rename_i hne
    obtain ⟨path', hplace, h⟩ := ends_look (fun _ _ => ends_pathUnder) h
    split at h
    · exact (not_ends_refuse h).elim
    · rename_i hbelow
      obtain ⟨_, d₁, hrebase, h⟩ := ends_seq_ok.1 h
      replace h := ends_count_then.1 h
      obtain ⟨hp, rfl⟩ := ends_pure.1 h
      obtain ⟨rfl, rfl⟩ := Prod.mk.inj (Except.ok.inj hp)
      refine ⟨rfl, .inr ⟨hne, hplace, Bool.eq_false_iff.2 hbelow⟩, ?_⟩
      rw [ends_rebaseSubtree hnodup hrebase, relocated, if_neg hne, hid]

theorem fault?_eq_none {f : MenuForm} (h : fault? f = none) :
    (f.actions.map ActionInput.code).Nodup ∧ (f.resources.map ResourceInput.code).Nodup := by
  unfold fault? at h
  dsimp only at h
  split at h
  · cases h
  · split at h <;> cases h
    exact ⟨firstDuplicate_eq_none.1 ‹_›, firstDuplicate_eq_none.1 ‹_›⟩

theorem owner_actionsFor {f : MenuForm} {id : String} {a : MenuAction} (h : a ∈ f.actionsFor id) :
    a.menuId = id := by
  obtain ⟨_, -, rfl⟩ := List.mem_map.1 h
  rfl

theorem owner_resourcesFor {f : MenuForm} {id : String} {x : MenuResource}
    (h : x ∈ f.resourcesFor id) : x.menuId = id := by
  obtain ⟨_, -, rfl⟩ := List.mem_map.1 h
  rfl

/-- The codes of a description without a fault are distinct. -/
theorem nodup_codes {f : MenuForm} (hf : fault? f = none) (id : String) :
    ((f.actionsFor id).map MenuAction.code).Nodup ∧
      ((f.resourcesFor id).map MenuResource.code).Nodup := by
  rw [MenuForm.actionsFor, MenuForm.resourcesFor, List.map_map, List.map_map]
  exact fault?_eq_none hf

theorem ends_syncChildren {id : String} {f : MenuForm} {u : Unit} (hf : fault? f = none)
    (h : (syncChildren s id f).run.Ends env s.id d (.ok u) d') :
    ∃ actions resources,
      d'.tables = { d.tables with menuActions := actions, menuResources := resources } ∧
      Store.Replaced MenuAction.menuId MenuAction.code id (f.actionsFor id) d.tables.menuActions
        actions ∧
      Store.Replaced MenuResource.menuId MenuResource.code id (f.resourcesFor id)
        d.tables.menuResources resources := by
  obtain ⟨hactions, hresources⟩ := nodup_codes hf id
  rw [syncChildren] at h
  replace h := ends_ask_then.1 h
  obtain ⟨t₁, h₁, h⟩ := ends_changeAll_then.1 h
  obtain ⟨t₂, h₂, h⟩ := ends_changeAll_then.1 h
  obtain ⟨t₃, h₃, h⟩ := ends_changeAll_then.1 h
  obtain ⟨actions, rfl, hactionRows⟩ :=
    Store.Amendable.actions.sync (fun _ => owner_actionsFor) hactions h₁ h₂ h₃
  replace h := ends_ask_then.1 h
  obtain ⟨t₄, h₄, h⟩ := ends_changeAll_then.1 h
  obtain ⟨t₅, h₅, h⟩ := ends_changeAll_then.1 h
  obtain ⟨t₆, h₆, rfl⟩ := Session.ends_changeAll_ok.1 h
  obtain ⟨resources, rfl, hresourceRows⟩ :=
    Store.Amendable.resources.sync (fun _ => owner_resourcesFor) hresources h₄ h₅ h₆
  exact ⟨actions, resources, rfl, hactionRows, hresourceRows⟩

/-- A menu is updated with its actions and resources. With a new parent everything below it moves
with it. -/
structure Updated (id : String) (input : MenuInput) (old row : Menu) (t t' : Store.Tables) :
    Prop where
  old_mem : old ∈ t.menus
  old_id : old.id = id
  parent : row.parentId = input.parentId
  moved : Moved t old input.parentId row.parentPath
  menus : t'.menus = (relocated t.menus old input.parentId row.parentPath).map fun m =>
    if m.id == id then Store.Tables.updatedMenu row m else m
  actions : Store.Replaced MenuAction.menuId MenuAction.code id (input.actionsFor id)
    t.menuActions t'.menuActions
  resources : Store.Replaced MenuResource.menuId MenuResource.code id (input.resourcesFor id)
    t.menuResources t'.menuResources
  frame : t' = { t with
    menus := t'.menus, menuActions := t'.menuActions, menuResources := t'.menuResources }

theorem updateMenu_eq {m : Menu} (h : t.apply (.updateMenu m) = .ok t') :
    ∃ row, row = m ∧ t' = { t with menus := t.menus.map fun x =>
      if x.id == row.id then Store.Tables.updatedMenu row x else x } := by
  obtain ⟨menus, hmenus, rfl⟩ := Store.Tables.bind_pure_eq_ok.1 h
  obtain ⟨-, rfl⟩ := Store.Tables.amend_eq_ok.1 hmenus
  exact ⟨m, rfl, rfl⟩

theorem ends_applyUpdate {id : String} {input : MenuInput} {menu : Menu}
    (hnodup : (d.tables.menus.map Menu.id).Nodup) (hf : fault? input.toMenuForm = none)
    (h : (applyUpdate s id input).run.Ends env s.id d (.ok menu) d') :
    menu.id = id ∧ ∃ old row, Updated id input old row d.tables d'.tables := by
  rw [applyUpdate] at h
  replace h := ends_ask_then.1 h
  cases hold : d.tables.ask (.getMenu id) with
  | none =>
    simp only [hold] at h
    exact (not_ends_refuse h).elim
  | some old =>
    simp only [hold] at h
    obtain ⟨hmem, hid⟩ := find_row hold
    obtain ⟨now, h⟩ := ends_readClock_then.1 h
    obtain ⟨⟨parentId, path⟩, d₁, hmove, h⟩ := ends_seq_ok.1 h
    obtain ⟨rfl, hmoved, htables⟩ := ends_move hid hnodup hmove
    obtain ⟨_, d₂, hsync, h⟩ := ends_seq_ok.1 h
    obtain ⟨actions, resources, htables₂, hactions, hresources⟩ := ends_syncChildren hf hsync
    obtain ⟨t₃, h₃, h⟩ := ends_change_then.1 h
    obtain ⟨hmenu, rfl⟩ := ends_pure.1 h
    obtain ⟨row, hrow, rfl⟩ := updateMenu_eq h₃
    have hrowId : row.id = id := by rw [hrow, ← hid]
    rw [htables] at htables₂ hactions hresources
    refine ⟨by rw [Except.ok.inj hmenu]; exact hid, old, row, hmem, hid, ?_, ?_, ?_, ?_, ?_, ?_⟩
    · rw [hrow]
    · rw [hrow]
      exact hmoved
    · simp only [htables₂, hrowId]
      rw [hrow]
    · simp only [htables₂]
      exact hactions
    · simp only [htables₂]
      exact hresources
    · simp only [htables₂]

/-! ## Removals -/

/-- A menu without children is removed with its actions and resources. -/
structure Removed (id : String) (t t' : Store.Tables) : Prop where
  found : ∃ m ∈ t.menus, m.id = id
  childless : ∀ m ∈ t.menus, m.parentId ≠ id
  tables : t' = { t with
    menus := t.menus.filter (·.id != id)
    menuActions := t.menuActions.filter (·.menuId != id)
    menuResources := t.menuResources.filter (·.menuId != id) }

theorem ends_remove {id : String} {granting : List String}
    (h : (remove s id).run.Ends env s.id d (.ok granting) d') :
    Removed id d.tables d'.tables ∧
      granting = (d.tables.roleMenus.filter (·.menuId == id)).map Grant.roleId := by
  rw [remove] at h
  replace h := ends_ask_then.1 h
  cases hold : d.tables.ask (.getMenu id) with
  | none =>
    simp only [hold] at h
    exact (not_ends_refuse h).elim
  | some m =>
    simp only [hold] at h
    replace h := ends_ask_then.1 h
    split at h
    · exact (not_ends_refuse h).elim
    · rename_i hcount
      replace h := ends_ask_then.1 h
      obtain ⟨t₁, h₁, h⟩ := ends_change_then.1 h
      obtain ⟨t₂, h₂, h⟩ := ends_change_then.1 h
      obtain ⟨t₃, h₃, h⟩ := ends_change_then.1 h
      obtain ⟨hgranting, rfl⟩ := ends_pure.1 h
      obtain rfl := Except.ok.inj h₁
      obtain rfl := Except.ok.inj h₂
      obtain rfl := Except.ok.inj h₃
      refine ⟨⟨⟨m, find_row hold⟩, fun c hc hp => hcount ?_, rfl⟩, Except.ok.inj hgranting⟩
      have hmem : c ∈ d.tables.matchingMenus (.childrenOf id) :=
        mem_matchingMenus.2 ⟨hc, by
          simp only [MenuFilter.admits, MenuFilter.childrenOf, Option.all_none, Option.all_some, hp,
            BEq.rfl, Bool.and_self]⟩
      exact List.length_pos_of_mem hmem

end Menus

end AccessAdmin
