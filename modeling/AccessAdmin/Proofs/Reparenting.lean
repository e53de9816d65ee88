import Mathlib.Data.Set.Card
import AccessAdmin.Proofs.Changes.Keys
import AccessAdmin.Proofs.Outcomes.Menus
import AccessAdmin.Proofs.Subtrees

/-!
# Moving a menu

An update that names another parent moves a menu with everything below it. The menus below are found
by a search for the beginning of their paths and get new paths one by one, and the row of the menu
itself is written apart from them; all of them keep the part of their path below the menu. Nothing
else changes: no other menu, no action or resource of another one, no role, grant, user or
assignment.

* `Store.Tables.SameElsewhere`: what the changes of one menu's actions and resources keep.
* `Menus.Reparented`: what moving a menu changes and what it leaves alone.
* `Menus.runs_rebaseSubtree`: how many paths are rewritten.
* `Menus.update_reparents`: every update that succeeds with another parent moves the menu.
-/

namespace AccessAdmin

open Service

/-! ## What other menus own -/

/-- All menus but one own the same rows, in the same order. -/
structure Store.Tables.SameElsewhere (id : String) (t t' : Tables) : Prop where
  actions : t'.menuActions.filter (·.menuId != id) = t.menuActions.filter (·.menuId != id)
  resources : t'.menuResources.filter (·.menuId != id) = t.menuResources.filter (·.menuId != id)

namespace Menus

variable {env : Surroundings} {s : Session} {t t' : Store.Tables} {id : String}
  {input : MenuInput} {old row m : Menu} {v : World MemoryStore}

/-! ## The menus -/

/-- A menu has moved to another parent, with everything below it; `path` is its new path. -/
structure Reparented (t t' : Store.Tables) (old : Menu) (parentId : String) (path : AncestorPath) :
    Prop where
  /-- The new path is the root path, or the new parent's path with the parent's id. -/
  place : Place t parentId path
  /-- The menu has the new parent and the new path. -/
  node : ∃ row ∈ t'.menus, row.id = old.id ∧ row.parentId = parentId ∧ row.parentPath = path
  /-- Every menu below it has the same rest of its path below the new path, and nothing else about
  it is new. -/
  below : ∀ n ∈ t.menus, t.Below n old → ∃ rest,
    n.parentPath.ids = old.parentPath.ids ++ old.id :: rest ∧
      { n with parentPath := ⟨path.ids ++ old.id :: rest⟩ } ∈ t'.menus
  /-- Every other menu is as it was. -/
  others : ∀ n ∈ t.menus, n.id ≠ old.id → ¬t.Below n old → n ∈ t'.menus
  /-- There are the same menus, in the same order. -/
  ids : t'.menus.map Menu.id = t.menus.map Menu.id
  /-- What other menus own is as it was. -/
  elsewhere : t.SameElsewhere old.id t'
  /-- Roles, grants, users and assignments are as they were. -/
  frame : t' = { t with
    menus := t'.menus, menuActions := t'.menuActions, menuResources := t'.menuResources }

theorem rebased_of_startsWith_eq_false {start new : AncestorPath}
    (h : m.parentPath.startsWith start = false) : rebased start new m = m := by
  rw [rebased, AncestorPath.rebase_eq_self h]

theorem rebased_of_append {start new : AncestorPath} {rest : List String}
    (h : m.parentPath.ids = start.ids ++ rest) :
    rebased start new m = { m with parentPath := ⟨new.ids ++ rest⟩ } := by
  have hstart : m.parentPath.startsWith start = true :=
    AncestorPath.startsWith_iff.mpr (h ▸ List.prefix_append _ _)
  rw [rebased, AncestorPath.rebase, if_pos hstart, h, List.drop_left]
  rfl

/-- A menu that is not updated itself is rebased when the updated one moves. -/
theorem after_of_moved (hne : m.id ≠ old.id) (hmove : row.parentId ≠ old.parentId) :
    after old row m = rebased old.childPath (row.parentPath.child old.id) m := by
  rw [after, if_neg hne, if_neg hmove]

/-- No menu is below itself. -/
theorem below_ne {n : Menu} (hforest : t.Forest) (hnodup : (t.menus.map Menu.id).Nodup)
    (hold : old ∈ t.menus) (hn : n ∈ t.menus) (hbelow : t.Below n old) : n.id ≠ old.id := by
  intro hid
  obtain rfl := List.inj_on_of_nodup_map hnodup hn hold hid
  have hstart := AncestorPath.startsWith_iff.mp
    ((hforest.startsWith_iff_climb hnodup hn hn).mpr hbelow)
  have hlonger : n.parentPath.ids.length + 1 ≤ n.parentPath.ids.length := by
    simpa [Menu.childPath, AncestorPath.child] using hstart.length_le
  omega

/-- An update to another parent moves the menu with everything below it. -/
theorem Updated.reparented (hforest : t.Forest) (hnodup : (t.menus.map Menu.id).Nodup)
    (hu : Updated id input old row t t') (hmove : input.parentId ≠ old.parentId) :
    Reparented t t' old input.parentId row.parentPath := by
  have hmoved : row.parentId ≠ old.parentId := hu.parent ▸ hmove
  have hmem (n : Menu) (hn : n ∈ t.menus) : after old row n ∈ t'.menus :=
    hu.menus_eq ▸ List.mem_map_of_mem hn
  have hplace : Place t input.parentId row.parentPath := by
    obtain ⟨hstays, -⟩ | ⟨-, hplace, -⟩ := hu.moved
    · exact absurd hstays hmove
    · exact hplace
  refine ⟨hplace, ?_, fun n hn hbelow => ?_, fun n hn hne hbelow => ?_, hu.menu_ids,
    hu.old_id ▸ ⟨hu.actions.others, hu.resources.others⟩, hu.frame⟩
  · have hself : (after old row old).parentId = row.parentId ∧
        (after old row old).parentPath = row.parentPath := after_self
    exact ⟨_, hmem old hu.old_mem, after_id, hself.1.trans hu.parent, hself.2⟩
  · have hne := below_ne hforest hnodup hu.old_mem hn hbelow
    have hstart := (hforest.startsWith_iff_climb hnodup hu.old_mem hn).mpr hbelow
    obtain ⟨rest, hrest⟩ := AncestorPath.startsWith_iff.mp hstart
    have hafter := hmem n hn
    rw [after_of_moved hne hmoved, rebased_of_append hrest.symm] at hafter
    rw [Menu.childPath, AncestorPath.child, List.append_assoc] at hrest
    rw [AncestorPath.child, List.append_assoc] at hafter
    exact ⟨rest, hrest.symm, hafter⟩
  · have hstart : n.parentPath.startsWith old.childPath = false := by
      rw [Bool.eq_false_iff, ne_eq, hforest.startsWith_iff_climb hnodup hu.old_mem hn]
      exact hbelow
    have hafter := hmem n hn
    rwa [after_of_moved hne hmoved, rebased_of_startsWith_eq_false hstart] at hafter

/-! ## How many move along -/

/-- The search for a subtree finds as many menus as there are below the menu. -/
theorem length_matching_subtree (hforest : t.Forest) (hnodup : (t.menus.map Menu.id).Nodup)
    (hm : m ∈ t.menus) : (t.matchingMenus (.subtree m.childPath)).length =
      {n | n ∈ t.menus ∧ t.Below n m}.ncard := by
  have hdistinct : (t.matchingMenus (.subtree m.childPath)).Nodup := by
    rw [Store.Tables.matchingMenus, Menu.inOrder]
    exact (List.mergeSort_perm _ _).nodup_iff.mpr ((List.Nodup.of_map _ hnodup).filter _)
  have hset : {n | n ∈ t.menus ∧ t.Below n m} =
      ((t.matchingMenus (.subtree m.childPath)).toFinset : Set Menu) := by
    ext n
    rw [List.coe_toFinset, Set.mem_ofPred_eq, Set.mem_ofPred_eq,
      hforest.below_iff_matching hnodup hm]
  rw [hset, Set.ncard_coe_finset, List.toFinset_card_of_nodup hdistinct]

/-- In an open transaction the paths of all menus below a menu are rewritten, and the answer is how
many there are. -/
theorem runs_rebaseSubtree (hforest : t.Forest) (hnodup : (t.menus.map Menu.id).Nodup)
    (hm : m ∈ t.menus) (hv : v.faults = []) (hw : v.store.shared.writer = some ⟨s.id, t⟩)
    (new : AncestorPath) : ∃ v', World.run env (rebaseSubtree s m.childPath new).run v =
      (some (.ok {n | n ∈ t.menus ∧ t.Below n m}.ncard), v') := by
  have hsteady := Menus.works_rebaseSubtree (s := s) m.childPath new
  have htimeless (e : Effect) (he : e.OfWork s.id) : e.Timeless := he.onDesk.timeless
  obtain ⟨r, v', hrun, -⟩ := hsteady.run (keeps_work env v.tables v.engine s.id) htimeless hv
    ⟨t, hw, rfl, rfl⟩
  have hat : v.At s.id ⟨t, v.engine⟩ :=
    ⟨hv, by simp only [Store.Shared.view, hw, ↓reduceIte], rfl⟩
  obtain ⟨d', hends, -⟩ := hsteady.ends (fun _ he => he.onDesk) hat hrun
  obtain ⟨menus, -, hanswer⟩ := ends_rebaseSubtree_iff env s ⟨t, v.engine⟩ m.childPath new
  obtain ⟨n, hn, rfl, -⟩ := (hanswer r d').mp hends
  rw [hn, length_matching_subtree hforest hnodup hm] at hrun
  exact ⟨v', hrun⟩

/-- Every update that succeeds with another parent moves the menu and everything below it, and
leaves everything else as it was, whatever calls fail on the way. The rewriting of the paths below,
done in the transaction of the update, answers how many menus are below. -/
theorem update_reparents {w w' : World MemoryStore} {ctx : Context} {menu : Menu} (hi : w.Idle)
    (hforest : w.tables.Forest) (hnodup : (w.tables.menus.map Menu.id).Nodup)
    (hold : old ∈ w.tables.menus) (hmove : input.parentId ≠ old.parentId)
    (hrun : World.run env (update ctx old.id input).run w = (some (.ok menu), w')) :
    ∃ path, Reparented w.tables w'.tables old input.parentId path ∧
      ∀ (s : Session) (v : World MemoryStore), v.faults = [] →
        v.store.shared.writer = some ⟨s.id, w.tables⟩ →
        ∃ v', World.run env (rebaseSubtree s old.childPath (path.child old.id)).run v =
          (some (.ok {n | n ∈ w.tables.menus ∧ w.tables.Below n old}.ncard), v') := by
  obtain ⟨hf, -, s, saved, hbody, -⟩ := (contract_updateMenu old.id input).committed hi hrun
  obtain ⟨-, old', row, hupdated⟩ := ends_applyUpdate hnodup hf hbody
  obtain rfl := List.inj_on_of_nodup_map hnodup hupdated.old_mem hold hupdated.old_id
  exact ⟨row.parentPath, hupdated.reparented hforest hnodup hmove,
    fun s v hv hw => runs_rebaseSubtree hforest hnodup hold hv hw _⟩

end Menus

/-- The sample shelf while a session has a transaction open in which nothing was done yet. -/
def Sample.openShelf : World MemoryStore :=
  { shelf with
    faults := []
    store.shared.writer := some ⟨0, shelf.tables⟩ }

/-- On the sample shelf the archive moves below the orderings, with the year in it: one path below
the archive is rewritten. -/
theorem sample_reparented : ∃ old ∈ Sample.shelf.tables.menus, ∃ menu w' path v',
    World.run Sample.env (Menus.update {} "mxx" { name := "Archive", parentId := "mxxxx" }).run
      Sample.shelf = (some (.ok menu), w') ∧
    Menus.Reparented Sample.shelf.tables w'.tables old "mxxxx" path ∧ old.id = "mxx" ∧
    World.run Sample.env (Menus.rebaseSubtree ⟨0⟩ old.childPath (path.child old.id)).run
      Sample.openShelf = (some (.ok 1), v') := by
  obtain ⟨used, hreached, -⟩ := Sample.shelf_reached
  have hold : ∃ old ∈ Sample.shelf.tables.menus, old.id = "mxx" ∧ "mxxxx" ≠ old.parentId ∧
      (Sample.shelf.tables.matchingMenus (.subtree old.childPath)).length = 1 := by
    decide +kernel
  obtain ⟨old, hmem, hid, hmove, hbelow⟩ := hold
  rw [Menus.length_matching_subtree hreached.forest hreached.sound.menus hmem] at hbelow
  have hserved : (World.run Sample.env
      (Menus.update {} "mxx" { name := "Archive", parentId := "mxxxx" }).run
      Sample.shelf).1.any (fun r => r.toOption.isSome) = true := by
    decide +kernel
  rcases hrun : World.run Sample.env
    (Menus.update {} "mxx" { name := "Archive", parentId := "mxxxx" }).run Sample.shelf with
    ⟨_ | _ | menu, w'⟩
  · simp [hrun] at hserved
  · rw [hrun] at hserved
    cases hserved
  · obtain ⟨path, hmoved, hcount⟩ := Menus.update_reparents hreached.idle hreached.forest
      hreached.sound.menus hmem hmove (by rw [hid]; exact hrun)
    obtain ⟨v', hrebased⟩ := hcount ⟨0⟩ Sample.openShelf rfl rfl
    rw [hbelow] at hrebased
    exact ⟨old, hmem, menu, w', path, v', rfl, hmoved, hid, hrebased⟩

end AccessAdmin
