import AccessAdmin.Proofs.Changes.Menus
import AccessAdmin.Proofs.Outcomes.Plans
import AccessAdmin.Proofs.Running.Outcome
import AccessAdmin.Proofs.Running.Surely

/-!
# What becomes of menu updates and deletions

An update of a menu is refused for its description, for a menu that is not stored, or for a place
below the menu itself; a deletion is refused for a menu that is not stored or has children. Nothing
else stands in the way: the paths below a moved menu are rewritten and its actions and resources
replaced without a refusal.

* `Menus.updateRefusal?`, `Menus.removeRefusal?`: why the stored rows do not admit the change.
* `Menus.Saved`: a menu is stored with what it owns, as it is answered.
* `Menus.surely_applyUpdate`, `Menus.remove_outcome`: the change in its transaction.
* `Menus.comes_update`, `Menus.comes_delete`: the whole operation.
-/

namespace AccessAdmin

open Service

namespace Menus

/-- The path under a parent, or why there is none. -/
def pathFor (t : Store.Tables) (parentId : String) : Except ServiceError AncestorPath :=
  if parentId.isEmpty then .ok .root
  else
    match t.menus.find? (·.id == parentId) with
    | some parent => .ok parent.childPath
    | none => .error (.notFound s!"parent menu {parentId} not found")

/-- Why a menu is refused a parent, if it is: the parent is not stored, or it is below the menu. -/
def moveRefusal? (t : Store.Tables) (id : String) (old : Menu) (parentId : String) :
    Option ServiceError :=
  if parentId = old.parentId then none
  else
    match pathFor t parentId with
    | .error e => some e
    | .ok path =>
      if path.startsWith old.childPath then
        some (.validation s!"menu {id} cannot move under its own descendant")
      else none

/-- Why an update of a stored menu is refused, if it is. -/
def storedRefusal? (t : Store.Tables) (id parentId : String) : Option ServiceError :=
  match t.menus.find? (·.id == id) with
  | none => some (.notFound s!"menu {id} not found")
  | some old => moveRefusal? t id old parentId

/-- Why an update of a menu is refused, if it is: it would be its own parent, the description has a
fault, or the stored rows do not admit the update. -/
def updateRefusal? (t : Store.Tables) (id : String) (input : MenuInput) : Option ServiceError :=
  if input.parentId = id then some (.validation "menu cannot be its own parent")
  else
    match fault? input.toMenuForm with
    | some text => some (.validation text)
    | none => storedRefusal? t id input.parentId

/-- Why a deletion of a menu is refused, if it is: the menu is not stored, or it has children. -/
def removeRefusal? (t : Store.Tables) (id : String) : Option ServiceError :=
  if t.menus.any (·.id == id) then
    let count := (t.menus.filter (·.parentId == id)).length
    if 0 < count then
      some (.validation s!"menu {id} has {count} child menus and cannot be deleted")
    else none
  else some (.notFound s!"menu {id} not found")

open Session (ends_ask_then ends_change_sure ends_changeAll_sure surely_ask_then surely_change_then
  surely_changeAll_then)

variable {β : Type} {env : Surroundings} {s : Session} {d d' : Desk} {t : Store.Tables}
  {C : Except ServiceError β → Desk → Prop}

/-! ## Moving -/

/-- What follows a path under a parent, if there is one. -/
theorem surely_pathUnder_then {parentId : String} {f : AncestorPath → Service β}
    (herror : ∀ e, pathFor d.tables parentId = .error e → C (.error e) d)
    (hpath : ∀ path, pathFor d.tables parentId = .ok path → (f path).run.Surely env s.id C d) :
    (pathUnder s parentId >>= f).run.Surely env s.id C d := by
  unfold pathUnder
  unfold pathFor at herror hpath
  by_cases hroot : parentId.isEmpty = true
  · rw [if_pos hroot] at hpath
    rw [if_pos hroot, pure_bind]
    exact hpath _ rfl
  · rw [if_neg hroot] at herror hpath
    rw [if_neg hroot, bind_assoc, surely_ask_then]
    cases hfound : d.tables.menus.find? (·.id == parentId) with
    | none =>
      simp only [hfound] at herror
      have hask : d.tables.ask (.getMenu parentId) = none := hfound
      simp only [hask]
      exact herror _ rfl
    | some parent =>
      simp only [hfound] at hpath
      have hask : d.tables.ask (.getMenu parentId) = some parent := hfound
      simp only [hask, pure_bind]
      exact hpath _ rfl

theorem repath_id (paths : List (String × AncestorPath)) (m : Menu) :
    (repath paths m).id = m.id := by
  induction paths generalizing m with
  | nil => rfl
  | cons p paths ih =>
    have hstep := ih (if m.id == p.1 then { m with parentPath := p.2 } else m)
    rw [repath, List.foldl_cons]
    refine hstep.trans ?_
    split <;> rfl

/-- New paths for stored menus are accepted. By induction on the paths: the ids stay the same. -/
theorem applyAll_paths_sure {paths : List (String × AncestorPath)}
    (h : ∀ p ∈ paths, p.1 ∈ t.menus.map Menu.id) :
    ∃ t', t.applyAll (paths.map fun p => .updateMenuParentPath p.1 p.2) = .ok t' := by
  induction paths generalizing t with
  | nil => exact ⟨t, rfl⟩
  | cons p paths ih =>
    obtain ⟨hp, hpaths⟩ := List.forall_mem_cons.mp h
    obtain ⟨m, hm, hid⟩ := List.mem_map.mp hp
    have hthere : t.menus.any (·.id == p.1) = true := Store.Tables.any_row.mpr ⟨m, hm, hid⟩
    let moved : List Menu :=
      t.menus.map fun x => if x.id == p.1 then { x with parentPath := p.2 } else x
    have hfirst : t.apply (.updateMenuParentPath p.1 p.2) = .ok { t with menus := moved } :=
      Store.Tables.bind_pure_eq_ok.mpr ⟨_, Store.Tables.amend_eq_ok.mpr ⟨hthere, rfl⟩, rfl⟩
    have hids : moved.map Menu.id = t.menus.map Menu.id := by
      rw [List.map_map]
      refine List.map_congr_left fun x _ => ?_
      simp only [Function.comp_apply]
      split <;> rfl
    obtain ⟨t', hrest⟩ := ih (t := { t with menus := moved }) (by rwa [hids])
    exact ⟨t', Store.Tables.applyAll_cons.mpr ⟨_, hfirst, hrest⟩⟩

/-- Every menu that the search for a subtree finds gets a new path. -/
theorem length_rebases (t : Store.Tables) (old new : AncestorPath) :
    (rebases (t.matchingMenus (.subtree old)) old new).length =
      (t.matchingMenus (.subtree old)).length := by
  rw [rebases, List.length_filterMap_eq_countP, List.countP_eq_length]
  intro m hm
  have hadmits : (MenuFilter.subtree old).admits m = true := (mem_matchingMenus.mp hm).2
  rw [Option.isSome_map, AncestorPath.isSome_rebase]
  simpa [MenuFilter.admits, MenuFilter.subtree] using hadmits

/-- The paths below a moved menu are rewritten without a refusal. -/
theorem applyAll_rebases (t : Store.Tables) (old new : AncestorPath) :
    t.applyAll (rebases (t.matchingMenus (.subtree old)) old new) = .ok { t with
      menus := t.menus.map (repath (rebasedPaths (t.matchingMenus (.subtree old)) old new)) } := by
  have hstored : ∀ p ∈ rebasedPaths (t.matchingMenus (.subtree old)) old new,
      p.1 ∈ t.menus.map Menu.id := by
    intro p hp
    obtain ⟨m, hm, hmap⟩ := List.mem_filterMap.mp hp
    obtain ⟨q, -, rfl⟩ := Option.map_eq_some_iff.mp hmap
    exact List.mem_map_of_mem (mem_matchingMenus.mp hm).1
  obtain ⟨t', happly⟩ := applyAll_paths_sure hstored
  obtain rfl := applyAll_repath happly
  rw [rebases_eq]
  exact happly

variable (env) in
/-- The paths below a moved menu are rewritten, and the answer is how many. -/
theorem ends_rebaseSubtree_iff (s : Session) (d : Desk) (old new : AncestorPath) :
    ∃ menus, menus.map Menu.id = d.tables.menus.map Menu.id ∧
      ∀ (r : Except ServiceError Nat) d', (rebaseSubtree s old new).run.Ends env s.id d r d' ↔
        ∃ n, n = (d.tables.matchingMenus (.subtree old)).length ∧ r = .ok n ∧
          d' = { d with tables := { d.tables with menus := menus } } := by
  let paths := rebasedPaths (d.tables.matchingMenus (.subtree old)) old new
  refine ⟨d.tables.menus.map (repath paths), ?_, fun r d' => ?_⟩
  · rw [List.map_map]
    exact List.map_congr_left fun m _ => repath_id _ m
  · have hask : (d.tables.ask (.queryMenus (.subtree old) none)).data =
        d.tables.matchingMenus (.subtree old) := rfl
    rw [rebaseSubtree, ends_ask_then, hask]
    dsimp only
    rw [ends_changeAll_sure (applyAll_rebases d.tables old new), ends_pure, length_rebases,
      exists_eq_left]

/-- What follows the rewriting of the paths below a moved menu. -/
theorem surely_rebaseSubtree_then {old new : AncestorPath} {f : Nat → Service β}
    (h : ∀ n, (f n).run.Surely env s.id C { d with tables := { d.tables with
      menus := d.tables.menus.map
        (repath (rebasedPaths (d.tables.matchingMenus (.subtree old)) old new)) } }) :
    (rebaseSubtree s old new >>= f).run.Surely env s.id C d := by
  rw [rebaseSubtree, bind_assoc, surely_ask_then]
  dsimp only
  rw [bind_assoc]
  refine surely_changeAll_then (applyAll_rebases d.tables old new) ?_
  rw [pure_bind]
  exact h _

/-- A move is refused for one of the reasons, or else what follows goes on with the new parent. -/
theorem surely_move_then {id parentId : String} {old : Menu}
    {f : String × AncestorPath → Service β}
    (hrefused : ∀ e, moveRefusal? d.tables id old parentId = some e → C (.error e) d)
    (hmoved : moveRefusal? d.tables id old parentId = none → ∀ place paths,
      (f place).run.Surely env s.id C
        { d with tables := { d.tables with menus := d.tables.menus.map (repath paths) } }) :
    (move s id old parentId >>= f).run.Surely env s.id C d := by
  unfold move
  unfold moveRefusal? at hrefused hmoved
  by_cases hsame : parentId = old.parentId
  · have hstays := hmoved (if_pos hsame) (old.parentId, old.parentPath) []
    rw [show repath [] = fun m => m from rfl, List.map_id'] at hstays
    rw [if_pos hsame, pure_bind]
    exact hstays
  · rw [if_neg hsame] at hrefused hmoved
    rw [if_neg hsame, bind_assoc]
    refine surely_pathUnder_then (fun e hpath => hrefused e (by rw [hpath])) fun path hpath => ?_
    rw [hpath] at hrefused hmoved
    dsimp only at hrefused hmoved
    by_cases hbelow : path.startsWith old.childPath = true
    · rw [if_pos hbelow] at hrefused
      rw [if_pos hbelow]
      exact hrefused _ rfl
    · rw [if_neg hbelow, bind_assoc]
      refine surely_rebaseSubtree_then fun _ => ?_
      rw [bind_assoc]
      refine surely_count_then ?_
      rw [pure_bind]
      exact hmoved (if_neg hbelow) _ _

/-! ## Actions and resources -/

/-- What follows the replacement of the actions and resources, which always goes through. -/
theorem surely_syncChildren_then {id : String} {form : MenuForm} (hf : fault? form = none)
    {f : Unit → Service β}
    (h : ∀ actions resources,
      Store.Replaced MenuAction.menuId MenuAction.code id (form.actionsFor id)
        d.tables.menuActions actions →
      Store.Replaced MenuResource.menuId MenuResource.code id (form.resourcesFor id)
        d.tables.menuResources resources →
      (f ()).run.Surely env s.id C { d with tables :=
        { d.tables with menuActions := actions, menuResources := resources } }) :
    (syncChildren s id form >>= f).run.Surely env s.id C d := by
  obtain ⟨hactions, hresources⟩ := nodup_codes hf id
  obtain ⟨t₁, t₂, actions, h₁, h₂, h₃, hactionRows⟩ :=
    Store.Amendable.actions.sync_sure d.tables (fun _ => owner_actionsFor) hactions
  obtain ⟨t₄, t₅, resources, h₄, h₅, h₆, hresourceRows⟩ := Store.Amendable.resources.sync_sure
    { d.tables with menuActions := actions } (fun _ => owner_resourcesFor) hresources
  rw [syncChildren, bind_assoc, surely_ask_then]
  dsimp only
  simp only [bind_assoc]
  refine surely_changeAll_then h₁ (surely_changeAll_then h₂ (surely_changeAll_then h₃ ?_))
  rw [surely_ask_then]
  refine surely_changeAll_then h₄ (surely_changeAll_then h₅ (surely_changeAll_then h₆ ?_))
  exact h actions resources hactionRows hresourceRows

/-! ## The update -/

/-- The menu that an update stores. -/
def revised (old : Menu) (input : MenuInput) (place : String × AncestorPath) (now : Timestamp) :
    Menu :=
  { old with
    name := input.name
    sequence := input.sequence
    icon := input.icon
    router := input.router
    hidden := input.hidden
    parentId := place.1
    parentPath := place.2
    updatedAt := now }

/-- A menu is stored with the actions and resources of a description, as it is answered; what other
menus, roles and users own is as it was. -/
structure Saved (form : MenuForm) (t : Store.Tables) (menu : Menu) (t' : Store.Tables) : Prop where
  row : ∃ row, t'.menus.find? (·.id == menu.id) = some row ∧ menu = { row with
    actions := form.actionsFor menu.id, resources := form.resourcesFor menu.id }
  actions : Store.Replaced MenuAction.menuId MenuAction.code menu.id (form.actionsFor menu.id)
    t.menuActions t'.menuActions
  resources : Store.Replaced MenuResource.menuId MenuResource.code menu.id
    (form.resourcesFor menu.id) t.menuResources t'.menuResources
  grants : t'.roleMenus = t.roleMenus
  assignments : t'.userRoles = t.userRoles

/-- An update sets the path of a menu, so it does not matter which one it had. -/
theorem updatedMenu_repath (m : Menu) (paths : List (String × AncestorPath)) (row : Menu) :
    Store.Tables.updatedMenu m (repath paths row) = Store.Tables.updatedMenu m row := by
  induction paths generalizing row with
  | nil => rfl
  | cons p paths ih =>
    rw [repath, List.foldl_cons]
    refine (ih _).trans ?_
    split <;> rfl

/-- The update of a row that is there, after new paths were set. -/
theorem apply_revised {old : Menu} (hold : t.menus.find? (·.id == old.id) = some old)
    (paths : List (String × AncestorPath)) (actions : List MenuAction)
    (resources : List MenuResource) (input : MenuInput) (place : String × AncestorPath)
    (now : Timestamp) :
    ∃ menus, menus.find? (·.id == old.id) = some (revised old input place now) ∧
      Store.Tables.apply
        { t with
          menus := t.menus.map (repath paths), menuActions := actions, menuResources := resources }
        (.updateMenu (revised old input place now)) =
          .ok { t with menus := menus, menuActions := actions, menuResources := resources } := by
  have hfound : (t.menus.map (repath paths)).find? (·.id == old.id) = some (repath paths old) := by
    rw [List.find?_map, show (fun m : Menu => m.id == old.id) ∘ repath paths =
      fun m => m.id == old.id from funext fun m => by rw [Function.comp_apply, repath_id], hold]
    rfl
  refine ⟨_, ?_, Store.Tables.bind_pure_eq_ok.mpr ⟨_, Store.Tables.amend_eq_ok.mpr ⟨?_, rfl⟩, rfl⟩⟩
  · refine (Store.Tables.find_amended Menu.id
      (Store.Tables.updatedMenu (revised old input place now)) (fun _ => rfl) old.id).trans ?_
    rw [hfound, Option.map_some, updatedMenu_repath]
    rfl
  · exact Store.Tables.any_row.mpr ⟨_, Store.Tables.find_row hfound⟩

/-- The update in its transaction is refused for one of the reasons, or else goes through. -/
theorem surely_applyUpdate {id : String} {input : MenuInput} (hf : fault? input.toMenuForm = none) :
    (applyUpdate s id input).run.Surely env s.id (fun r d' =>
      (∃ e, storedRefusal? d.tables id input.parentId = some e ∧ r = .error e) ∨
        storedRefusal? d.tables id input.parentId = none ∧ ∃ menu, r = .ok menu ∧ menu.id = id ∧
          Saved input.toMenuForm d.tables menu d'.tables) d := by
  rw [applyUpdate, surely_ask_then]
  unfold storedRefusal?
  cases hfound : d.tables.menus.find? (·.id == id) with
  | none =>
    have hask : d.tables.ask (.getMenu id) = none := hfound
    simp only [hask]
    exact .inl ⟨_, rfl, rfl⟩
  | some old =>
    have hask : d.tables.ask (.getMenu id) = some old := hfound
    simp only [hask]
    obtain ⟨-, rfl⟩ := Store.Tables.find_row hfound
    refine surely_readClock_then fun now => ?_
    refine surely_move_then (fun e hrefused => .inl ⟨e, hrefused, rfl⟩) fun hnone place paths => ?_
    refine surely_syncChildren_then hf fun actions resources hactions hresources => ?_
    obtain ⟨menus, hrow, happly⟩ :=
      apply_revised hfound paths actions resources input place now
    refine surely_change_then happly ?_
    exact .inr ⟨hnone, _, rfl, rfl, ⟨_, hrow, rfl⟩, hactions, hresources, rfl, rfl⟩

variable (env) in
/-- An update of a menu is refused for one of the reasons and changes nothing, or is a commit. -/
theorem comes_update (ctx : Context) (id : String) (input : MenuInput) :
    Comes env (update ctx id input) fun d r d' =>
      (∃ e, updateRefusal? d.tables id input = some e ∧ r = .error e ∧ d' = d) ∨
      updateRefusal? d.tables id input = none ∧ fault? input.toMenuForm = none ∧
        Committed env (applyUpdate · id input)
          (fun s menu => do
            Projecting.afterCommit (discard (Projection.menuGrantees s menu.id))
            return menu) d r d' := by
  unfold update validate
  by_cases hown : input.parentId = id
  · rw [if_pos hown]
    exact (comes_refuse _).mono fun d r d' h => .inl ⟨_, if_pos hown, h⟩
  · rw [if_neg hown]
    cases hf : fault? input.toMenuForm with
    | some text =>
      refine (comes_refuse (.validation text)).mono fun d r d' h => .inl ⟨_, ?_, h⟩
      rw [updateRefusal?, if_neg hown, hf]
    | none =>
      have hrefusal (t : Store.Tables) :
          updateRefusal? t id input = storedRefusal? t id input.parentId := by
        rw [updateRefusal?, if_neg hown, hf]
      rw [pure_bind]
      refine (comes_commit (fun s => works_applyUpdate id input) fun s menu =>
        (Session.projects_menuGrantees menu.id).discard.afterCommit.bind fun _ =>
          Session.follows_pure menu).mono ?_
      rintro d r d' (⟨s, e, d₁, hends, rfl, rfl⟩ | ⟨s, menu, hends, hafter⟩)
      · obtain ⟨e', href, he⟩ | ⟨-, menu, hok, -⟩ := (surely_applyUpdate hf).ends hends
        · exact .inl ⟨e', (hrefusal _).trans href, he, rfl⟩
        · cases hok
      · obtain ⟨e, -, he⟩ | ⟨hnone, -⟩ := (surely_applyUpdate hf).ends hends
        · cases he
        · exact .inr ⟨(hrefusal _).trans hnone, rfl, s, menu, hends, hafter⟩

/-! ## The deletion -/

/-- The deletion in its transaction is refused for one of the reasons, or else goes through. -/
theorem remove_outcome {id : String} {r : Except ServiceError (List String)}
    (h : (remove s id).run.Ends env s.id d r d') :
    (∃ e, removeRefusal? d.tables id = some e ∧ r = .error e) ∨
      removeRefusal? d.tables id = none ∧ ∃ granting, r = .ok granting := by
  rw [remove, ends_ask_then] at h
  unfold removeRefusal?
  cases hfound : d.tables.ask (.getMenu id) with
  | none =>
    simp only [hfound] at h
    have hnone : ¬d.tables.menus.any (·.id == id) = true := by
      intro hany
      obtain ⟨m, hm, hid⟩ := Store.Tables.any_row.mp hany
      exact Store.Tables.find_row_eq_none.mp hfound m hm hid
    exact .inl ⟨_, if_neg hnone, h.1⟩
  | some m =>
    simp only [hfound] at h
    obtain ⟨hm, hid⟩ := Store.Tables.find_row hfound
    have hthere : d.tables.menus.any (·.id == id) = true :=
      Store.Tables.any_row.mpr ⟨m, hm, hid⟩
    rw [if_pos hthere]
    -- The total of the listing counts the children.
    have hcount : ((d.tables.ask (.queryMenus (.childrenOf id) (some .all))).page.map
        PageInfo.total).getD 0 = (d.tables.menus.filter (·.parentId == id)).length := by
      show (d.tables.matchingMenus (.childrenOf id)).length = _
      rw [Store.Tables.matchingMenus, Menu.inOrder, List.length_mergeSort]
      congr 2
      funext c
      simp [MenuFilter.admits, MenuFilter.childrenOf]
    rw [ends_ask_then] at h
    simp only [hcount] at h
    dsimp only
    split at h
    · rename_i hchildren
      rw [if_pos hchildren]
      exact .inl ⟨_, rfl, h.1⟩
    · rename_i hchildless
      rw [if_neg hchildless]
      rw [ends_ask_then, ends_change_sure rfl, ends_change_sure rfl, ends_change_sure rfl] at h
      exact .inr ⟨rfl, _, h.1⟩

variable (env) in
/-- A deletion of a menu is refused for one of the reasons and changes nothing, or is a commit. -/
theorem comes_delete (ctx : Context) (id : String) :
    Comes env (delete ctx id) fun d r d' =>
      (∃ e, removeRefusal? d.tables id = some e ∧ r = .error e ∧ d' = d) ∨
      removeRefusal? d.tables id = none ∧
        Committed env (remove · id)
          (fun s granting => Projecting.afterCommit
            (Projecting.forAll granting fun role => discard (Projection.role s role))) d r d' := by
  unfold delete
  refine (comes_commit (fun s => works_remove id) fun s granting =>
    (Session.projects_forAll fun role => (Session.projects_role role).discard).afterCommit).mono ?_
  rintro d r d' (⟨s, e, d₁, hends, rfl, rfl⟩ | ⟨s, granting, hends, hafter⟩)
  · obtain ⟨e', href, he⟩ | ⟨-, _, hok⟩ := remove_outcome hends
    · exact .inl ⟨e', href, congrArg _ (Except.error.inj he), rfl⟩
    · cases hok
  · obtain ⟨e, -, he⟩ | ⟨hnone, -⟩ := remove_outcome hends
    · cases he
    · exact .inr ⟨hnone, s, granting, hends, hafter⟩

end Menus

end AccessAdmin
