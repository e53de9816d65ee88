import AccessAdmin.Proofs.ForestAssembly
import AccessAdmin.Proofs.Outcomes.Readings
import AccessAdmin.Proofs.Projecting.Entitlements
import AccessAdmin.Proofs.Subtrees

/-!
# What a user may navigate

The roles of a user grant menus, and on each of them some actions. The user sees the granted menus
that are stored, with all their ancestors, so that every branch hangs from a root. An ancestor comes
without actions unless it is granted itself.

* `Store.Tables.Navigable`, `Store.Tables.shown`: what a user sees, told by the parents of the
  menus.
* `Store.Tables.Barred`: who is shown nothing.
* `Store.Tables.Forest.navigable`: the navigable menus are a forest of their own.
* `Reached.user_navigation`: after every sequence of commands each user is shown just that.
-/

namespace AccessAdmin

open Service

/-! ## Ancestors -/

namespace Store.Tables

variable {t : Tables} {m n p : Menu}

/-- One step more on the way up. -/
theorem climb_parent {k : Nat} (hclimb : t.climb k n = some m) (hparent : t.parentOf m = some p) :
    t.climb (k + 1) n = some p := by
  induction k generalizing n with
  | zero =>
    obtain rfl := Option.some.inj hclimb
    exact climb_succ hparent 0
  | succ k ih =>
    obtain ⟨q, hq, hup⟩ := Option.bind_eq_some_iff.mp hclimb
    rw [climb_succ hq]
    exact ih hup

/-- The path of a menu holds the ids of the menus above it. By induction on the length of the path:
its last id is the parent's. -/
theorem Forest.mem_path_iff_below (h : t.Forest) (hnodup : (t.menus.map Menu.id).Nodup)
    (hm : m ∈ t.menus) (hn : n ∈ t.menus) : m.id ∈ n.parentPath.ids ↔ t.Below n m := by
  induction hdepth : n.parentPath.depth generalizing n with
  | zero =>
    obtain ⟨hroot, hpath⟩ | ⟨p, -, -, -, hpath⟩ := h.parentOf hnodup hn
    · rw [hpath]
      refine iff_of_false List.not_mem_nil fun ⟨k, hk, hclimb⟩ => ?_
      obtain ⟨k, rfl⟩ := Nat.exists_eq_succ_of_ne_zero (Nat.ne_of_gt hk)
      rw [climb_root hroot] at hclimb
      cases hclimb
    · rw [hpath, Menu.childPath, AncestorPath.depth_child] at hdepth
      cases hdepth
  | succ depth ih =>
    obtain ⟨-, hpath⟩ | ⟨p, hp, -, hparent, hpath⟩ := h.parentOf hnodup hn
    · rw [hpath] at hdepth
      cases hdepth
    rw [hpath, Menu.childPath, AncestorPath.depth_child, Nat.succ_inj] at hdepth
    rw [hpath, Menu.childPath, AncestorPath.child, List.mem_append, List.mem_singleton,
      ih hp hdepth]
    constructor
    · rintro (⟨k, hk, hclimb⟩ | hid)
      · exact ⟨k + 1, Nat.succ_pos k, (climb_succ hparent k).trans hclimb⟩
      · obtain rfl := List.inj_on_of_nodup_map hnodup hm hp hid
        exact ⟨1, Nat.one_pos, climb_succ hparent 0⟩
    · rintro ⟨k, hk, hclimb⟩
      obtain ⟨k, rfl⟩ := Nat.exists_eq_succ_of_ne_zero (Nat.ne_of_gt hk)
      rw [climb_succ hparent] at hclimb
      obtain rfl | hk := Nat.eq_zero_or_pos k
      · obtain rfl : p = m := Option.some.inj hclimb
        exact .inr rfl
      · exact .inl ⟨k, hk, hclimb⟩

/-! ## The forest of a forest -/

/-- Of menus whose parents are all there, the tops are the roots. -/
theorem Forest.isTop_iff (h : t.Forest) (hm : m ∈ t.menus) :
    m.IsTop t.menus ↔ m.parentId = "" := by
  refine ⟨fun htop => ?_, .inl⟩
  obtain ⟨hempty, -⟩ | ⟨-, p, hp, hid, -⟩ := h m hm
  · exact hempty
  · rcases htop with hempty | hgone
    · exact hempty
    · exact absurd (hid ▸ List.mem_map_of_mem hp) hgone

/-- From each of them the way up ends. By induction on the length of the path. -/
theorem Forest.rooted (h : t.Forest) (hm : m ∈ t.menus) : m.Rooted t.menus := by
  induction hdepth : m.parentPath.depth generalizing m with
  | zero =>
    refine ⟨m, .refl, (h.isTop_iff hm).mpr ?_⟩
    obtain ⟨hempty, -⟩ | ⟨-, p, -, -, hpath⟩ := h m hm
    · exact hempty
    · rw [hpath, Menu.childPath, AncestorPath.depth_child] at hdepth
      cases hdepth
  | succ depth ih =>
    obtain ⟨hempty, -⟩ | ⟨hne, p, hp, hid, hpath⟩ := h m hm
    · exact ⟨m, .refl, (h.isTop_iff hm).mpr hempty⟩
    · rw [hpath, Menu.childPath, AncestorPath.depth_child, Nat.succ_inj] at hdepth
      obtain ⟨top, hup, htop⟩ := ih hp hdepth
      exact ⟨top, .head ⟨hp, hne, hid.symm⟩ hup, htop⟩

open MenuTree in
/-- Assembly shows each of them once, and the roots on top. -/
theorem Forest.assembled (h : t.Forest) (hnodup : (t.menus.map Menu.id).Nodup) :
    (menusOf (forest t.menus)).Perm t.menus ∧
    (∀ tree ∈ forest t.menus, tree.menu.parentId = "") ∧
    ∀ tree ∈ nodesOf (forest t.menus), ∀ c ∈ tree.children, c.menu.parentId = tree.menu.id := by
  obtain ⟨left, hvisit⟩ := visited_forest t.menus
  have hall : (menusOf (forest t.menus) ++ left).Perm t.menus :=
    hvisit.perm.trans topMenus_append_hanging
  have hdistinct : t.menus.Nodup := .of_map _ hnodup
  refine ⟨?_, fun tree htree => ?_, fun tree htree c hc => ?_⟩
  · have honce := (List.nodup_append.mp (hall.nodup_iff.mpr hdistinct)).1
    exact (List.perm_ext_iff_of_nodup honce hdistinct).mpr fun m =>
      mem_menusOf_forest.trans (and_iff_left_of_imp h.rooted)
  · have htop : tree.menu ∈ topMenus t.menus := hvisit.map_menu ▸ List.mem_map_of_mem htree
    obtain ⟨hmem, htop⟩ := mem_topMenus.mp htop
    exact (h.isTop_iff hmem).mp htop
  · obtain ⟨part, -, hchildren⟩ := hvisit.children tree htree
    have hmem : c.menu ∈ part.filter (·.parentId == tree.menu.id) :=
      hchildren ▸ List.mem_map_of_mem hc
    exact beq_iff_eq.mp (List.mem_filter.mp hmem).2

/-! ## What is granted -/

/-- The grants of the roles that a user holds. -/
def heldGrants (t : Tables) (userId : String) : List Grant :=
  t.roleMenus.filter fun g => t.userRoles.contains ⟨userId, g.roleId⟩

/-- A menu that is granted to a user, or is above a stored menu that is. -/
def Navigable (t : Tables) (userId : String) (m : Menu) : Prop :=
  ∃ n ∈ t.menus, n.id ∈ (t.heldGrants userId).map Grant.menuId ∧ (m = n ∨ t.Below n m)

/-- A menu as a user is shown it, with those of its stored actions whose codes are granted to the
user on this very menu. -/
def shown (t : Tables) (userId : String) (m : Menu) : Menu :=
  { m with
    actions := t.menuActions.filter fun a => a.menuId == m.id &&
      (t.heldGrants userId).any fun g => g.menuId == m.id && g.actions.contains a.code }

/-- A user that is shown nothing. -/
inductive Barred (t : Tables) (userId : String) : Prop
  | unknown : (∀ u ∈ t.users, u.id ≠ userId) → Barred t userId
  | disabled : (∃ u ∈ t.users, u.id = userId ∧ u.status = .disabled) → Barred t userId
  | roleless : (∀ a ∈ t.userRoles, a.userId ≠ userId) → Barred t userId
  | menuless : (∀ g ∈ t.heldGrants userId, ∀ m ∈ t.menus, m.id ≠ g.menuId) → Barred t userId

/-- What a user is to be shown. -/
structure Navigation (t : Tables) (userId : String) (trees : List MenuTree) : Prop where
  /-- No menu is there twice. -/
  once : ((MenuTree.menusOf trees).map Menu.id).Nodup
  /-- The navigable menus are there with what is granted on them, and no others. -/
  holds : ∀ x, x ∈ MenuTree.menusOf trees ↔
    ∃ m ∈ t.menus, t.Navigable userId m ∧ x = t.shown userId m
  /-- On top are roots. -/
  tops : ∀ tree ∈ trees, tree.menu.parentId = ""
  /-- Every other menu is below its parent. -/
  parents : ∀ tree ∈ MenuTree.nodesOf trees, ∀ c ∈ tree.children,
    c.menu.parentId = tree.menu.id
  /-- A menu without a grant has no actions. -/
  ungranted : ∀ x ∈ MenuTree.menusOf trees,
    x.id ∉ (t.heldGrants userId).map Grant.menuId → x.actions = []

variable {userId : String}

/-- An enabled user with a role and a grant of a stored menu is shown something. -/
theorem not_barred {user : User} (hids : (t.users.map User.id).Nodup) (huser : user ∈ t.users)
    (henabled : user.isEnabled = true) (hrole : ¬∀ a ∈ t.userRoles, a.userId ≠ user.id)
    (hmenu : ¬∀ g ∈ t.heldGrants user.id, ∀ m ∈ t.menus, m.id ≠ g.menuId) :
    ¬t.Barred user.id := by
  rintro (hnone | ⟨u, hu, hid, hstatus⟩ | hnone | hnone)
  · exact hnone user huser rfl
  · obtain rfl := List.inj_on_of_nodup_map hids hu huser hid
    rw [User.isEnabled, hstatus] at henabled
    cases henabled
  · exact hrole hnone
  · exact hmenu hnone

theorem actions_shown_of_ungranted (h : m.id ∉ (t.heldGrants userId).map Grant.menuId) :
    (t.shown userId m).actions = [] := by
  refine List.filter_eq_nil_iff.mpr fun a _ hgranted => h ?_
  obtain ⟨-, hany⟩ := Bool.and_eq_true_iff.mp hgranted
  obtain ⟨g, hg, hid⟩ := List.any_eq_true.mp hany
  exact List.mem_map.mpr ⟨g, hg, beq_iff_eq.mp (Bool.and_eq_true_iff.mp hid).1⟩

/-- What is above a navigable menu is navigable. -/
theorem Navigable.parent (h : t.Navigable userId m) (hparent : t.parentOf m = some p) :
    t.Navigable userId p := by
  obtain ⟨n, hn, hgranted, hup⟩ := h
  refine ⟨n, hn, hgranted, .inr ?_⟩
  rcases hup with rfl | ⟨k, -, hclimb⟩
  · exact ⟨1, Nat.one_pos, climb_succ hparent 0⟩
  · exact ⟨k + 1, Nat.succ_pos k, climb_parent hclimb hparent⟩

/-- The menus that a user is shown are a forest of their own. -/
theorem Forest.navigable (h : t.Forest) (hnodup : (t.menus.map Menu.id).Nodup) {menus : List Menu}
    (hmenus : ∀ x, x ∈ menus ↔ ∃ m ∈ t.menus, t.Navigable userId m ∧ x = t.shown userId m) :
    Forest { t with menus := menus } := by
  intro x hx
  obtain ⟨m, hm, hnavigable, rfl⟩ := (hmenus x).mp hx
  obtain ⟨hroot, hpath⟩ | ⟨p, hp, hnot, hparent, hpath⟩ := h.parentOf hnodup hm
  · exact .inl ⟨String.isEmpty_iff.mp hroot, hpath⟩
  · refine .inr ⟨fun hempty => ?_, t.shown userId p,
      (hmenus _).mpr ⟨p, hp, hnavigable.parent hparent, rfl⟩, ?_, hpath⟩
    · rw [Menu.isRoot, Bool.eq_false_iff, ne_eq, String.isEmpty_iff] at hnot
      exact hnot hempty
    · rw [Store.Tables.parentOf, if_neg (Bool.eq_false_iff.mp hnot)] at hparent
      exact (find_row hparent).2

/-- Assembly makes of these menus what the user is to be shown. -/
theorem Forest.navigation (h : t.Forest) (hnodup : (t.menus.map Menu.id).Nodup)
    {menus : List Menu} (hids : (menus.map Menu.id).Nodup)
    (hmenus : ∀ x, x ∈ menus ↔ ∃ m ∈ t.menus, t.Navigable userId m ∧ x = t.shown userId m) :
    t.Navigation userId (MenuTree.forest menus) := by
  obtain ⟨hperm, htops, hparents⟩ := (h.navigable hnodup hmenus).assembled hids
  have hholds (x : Menu) : x ∈ MenuTree.menusOf (MenuTree.forest menus) ↔
      ∃ m ∈ t.menus, t.Navigable userId m ∧ x = t.shown userId m :=
    hperm.mem_iff.trans (hmenus x)
  refine ⟨(hperm.map _).nodup_iff.mpr hids, hholds, htops, hparents, fun x hx hnot => ?_⟩
  obtain ⟨m, -, -, rfl⟩ := (hholds x).mp hx
  exact actions_shown_of_ungranted hnot

end Store.Tables

/-! ## Reading it -/

namespace Menus

variable {env : Surroundings} {s : Session} {d d' : Desk} {t : Store.Tables} {userId : String}

/-- What follows a look for the menus with some ids. -/
theorem ends_matching_then {β : Type} {ids : List String} {f : List Menu → Service β}
    {r : Except ServiceError β} : (withIds s ids >>= f).run.Ends env s.id d r d' ↔
      (f (d.tables.matchingMenus (.withIds ids))).run.Ends env s.id d r d' := by
  unfold withIds
  split
  · rename_i hempty
    obtain rfl := List.isEmpty_iff.mp hempty
    have hnone : d.tables.matchingMenus (.withIds []) = [] :=
      List.eq_nil_iff_forall_not_mem.mpr fun m hm => by
        simpa [MenuFilter.admits, MenuFilter.withIds] using (mem_matchingMenus.mp hm).2
    rw [pure_bind, hnone]
  · rw [bind_assoc, Session.ends_ask_then, pure_bind]
    rfl

theorem mem_matching_ids {ids : List String} {m : Menu} :
    m ∈ t.matchingMenus (.withIds ids) ↔ m ∈ t.menus ∧ m.id ∈ ids := by
  simp [mem_matchingMenus, MenuFilter.admits, MenuFilter.withIds]

theorem nodup_matching {f : MenuFilter} (hnodup : (t.menus.map Menu.id).Nodup) :
    ((t.matchingMenus f).map Menu.id).Nodup :=
  ((List.mergeSort_perm _ _).map _).nodup_iff.mpr (hnodup.sublist (List.filter_sublist.map _))

/-- The grants of a user are found by the roles. -/
theorem ask_heldGrants (t : Store.Tables) (userId : String) :
    t.ask (.listRoleMenus ((t.ask (.listUserRoles [userId])).map Assignment.roleId)) =
      t.heldGrants userId := by
  refine List.filter_congr fun g _ => ?_
  rw [Bool.eq_iff_iff, List.contains_iff_mem, List.contains_iff_mem, List.mem_map]
  constructor
  · rintro ⟨a, ha, hrole⟩
    obtain ⟨ha, huser⟩ := List.mem_filter.mp ha
    rw [List.contains_iff_mem, List.mem_singleton] at huser
    rwa [← hrole, ← huser]
  · intro ha
    exact ⟨_, List.mem_filter.mpr ⟨ha, by simp⟩, rfl⟩

theorem status_of_not_enabled {user : User} (h : ¬user.isEnabled = true) :
    user.status = .disabled := by
  cases hstatus : user.status with
  | disabled => rfl
  | enabled => simp [User.isEnabled, hstatus] at h

/-- The stored menus among those that a user is granted. -/
def grantedRows (t : Store.Tables) (userId : String) : List Menu :=
  t.matchingMenus (.withIds ((t.heldGrants userId).map Grant.menuId).eraseDups)

theorem mem_grantedRows {m : Menu} : m ∈ grantedRows t userId ↔
    m ∈ t.menus ∧ m.id ∈ (t.heldGrants userId).map Grant.menuId := by
  rw [grantedRows, mem_matching_ids, List.mem_eraseDups]

theorem isEmpty_grantedRows : (grantedRows t userId).isEmpty = true ↔
    ∀ g ∈ t.heldGrants userId, ∀ m ∈ t.menus, m.id ≠ g.menuId := by
  rw [List.isEmpty_iff, List.eq_nil_iff_forall_not_mem]
  constructor
  · intro hempty g hg m hm hid
    exact hempty m (mem_grantedRows.mpr ⟨hm, List.mem_map.mpr ⟨g, hg, hid.symm⟩⟩)
  · intro hnone m hmem
    obtain ⟨hm, hgranted⟩ := mem_grantedRows.mp hmem
    obtain ⟨g, hg, hid⟩ := List.mem_map.mp hgranted
    exact hnone g hg m hm hid.symm

theorem isEmpty_heldRoles : ((t.ask (.listUserRoles [userId])).map Assignment.roleId).isEmpty =
    true ↔ ∀ a ∈ t.userRoles, a.userId ≠ userId := by
  rw [List.isEmpty_iff, List.map_eq_nil_iff]
  refine List.filter_eq_nil_iff.trans ?_
  simp only [List.contains_iff_mem, List.mem_singleton, ne_eq]

/-- The navigable menus are found by the paths of the granted ones. -/
theorem mem_matching_navigable (hforest : t.Forest) (hnodup : (t.menus.map Menu.id).Nodup)
    {m : Menu} :
    m ∈ t.matchingMenus (.withIds (((grantedRows t userId).flatMap fun m : Menu =>
      m.id :: m.parentPath.ids).eraseDups)) ↔ m ∈ t.menus ∧ t.Navigable userId m := by
  rw [mem_matching_ids, List.mem_eraseDups]
  refine and_congr_right fun hm => ?_
  simp only [List.mem_flatMap, mem_grantedRows, List.mem_cons, and_assoc]
  refine exists_congr fun n => and_congr_right fun hn => and_congr_right fun _ => ?_
  refine or_congr ⟨List.inj_on_of_nodup_map hnodup hm hn, congrArg Menu.id⟩ ?_
  exact hforest.mem_path_iff_below hnodup hm hn

/-- The actions that are read are reduced to those that are granted. -/
theorem attached_granted (t : Store.Tables) (userId : String) (m : Menu) :
    (fun m : Menu => { m with
      actions := m.actions.filter fun a =>
        (grantedActions (t.heldGrants userId) m.id).contains a.code })
      (attached t { actions := true } m) = t.shown userId m := by
  unfold attached Store.Tables.shown
  simp only [↓reduceIte, List.filter_filter, Bool.false_eq_true]
  congr 1
  refine List.filter_congr fun a _ => ?_
  rw [Bool.and_comm]
  congr 1
  rw [Bool.eq_iff_iff]
  simp only [grantedActions, List.contains_iff_mem, List.mem_flatMap, List.mem_filter,
    List.any_eq_true, Bool.and_eq_true, and_assoc]

/-- The deadline of the whole covers the look for the user. -/
theorem bounded_grantedMenus (ctx : Context) (s : Session) (userId : String) :
    ctx.bounded (grantedMenus ctx s userId) = ctx.bounded (grantedMenus {} s userId) := by
  simp only [grantedMenus, activeUser, bind_assoc, bounded_bind, bounded_of_timeless]

theorem steady_withIds (s : Session) (ids : List String) :
    (withIds s ids).run.Steady (Effect.OfProjection s.id) fun _ => True := by
  unfold withIds
  split
  · exact steady_pure _
  · exact steady_seq (fun _ => trivial) (steady_ask s _) fun _ => steady_pure _

theorem steady_refuse {α : Type} (s : Session) (e : ServiceError) :
    (refuse e : Service α).run.Steady (Effect.OfProjection s.id) fun _ => True :=
  fun _ _ => trivial

theorem steady_ite {α : Type} {c : Prop} [Decidable c] {p q : Service α} {may : Effect → Prop}
    {bad : ServiceError → Prop} (hp : p.run.Steady may bad) (hq : q.run.Steady may bad) :
    (if c then p else q).run.Steady may bad := by
  split
  · exact hp
  · exact hq

theorem steady_grantedMenus (s : Session) (userId : String) :
    (grantedMenus {} s userId).run.Steady (Effect.OfProjection s.id) fun _ => True := by
  have hcount (e : Event) : (Effect.count e).OfProjection s.id := trivial
  simp only [grantedMenus, activeUser, bounded_of_timeless, bind_assoc]
  refine steady_seq hcount (steady_ask s _) fun found => ?_
  cases found with
  | none => exact steady_refuse s _
  | some user =>
    refine steady_seq hcount (steady_ite (steady_pure _) (steady_refuse s _)) fun user => ?_
    refine steady_seq hcount (steady_ask s _) fun edges => ?_
    refine steady_ite (steady_refuse s _) ?_
    refine steady_seq hcount (steady_ask s _) fun grants => ?_
    refine steady_seq hcount (steady_withIds s _) fun found => ?_
    refine steady_ite (steady_refuse s _) ?_
    refine steady_seq hcount (steady_withIds s _) fun menus => ?_
    exact steady_seq hcount (steady_hydrate s _ _) fun _ => steady_pure _

/-- A user is refused, or is answered with the navigable menus. -/
theorem grantedMenus_outcome {r : Except ServiceError (List Menu)} (hforest : d.tables.Forest)
    (hmenus : (d.tables.menus.map Menu.id).Nodup) (husers : (d.tables.users.map User.id).Nodup)
    (h : (grantedMenus {} s userId).run.Ends env s.id d r d') : d' = d ∧
      ((d.tables.Barred userId ∧ ∃ text, r = .error (.forbidden text)) ∨
        ¬d.tables.Barred userId ∧ ∃ menus, r = .ok menus ∧ (menus.map Menu.id).Nodup ∧
          ∀ x, x ∈ menus ↔
            ∃ m ∈ d.tables.menus, d.tables.Navigable userId m ∧ x = d.tables.shown userId m) := by
  simp only [grantedMenus, activeUser, bounded_of_timeless, bind_assoc] at h
  rw [Session.ends_ask_then] at h
  -- The checks come one after the other, each for one way to be barred.
  cases hfound : d.tables.ask (.getUser userId) with
  | none =>
    rw [hfound] at h
    exact ⟨h.2, .inl ⟨.unknown (Store.Tables.find_row_eq_none.mp hfound), _, h.1⟩⟩
  | some user =>
    obtain ⟨huser, rfl⟩ := Store.Tables.find_row hfound
    rw [hfound] at h
    by_cases henabled : user.isEnabled = true
    swap
    · simp only [henabled] at h
      exact ⟨h.2, .inl ⟨.disabled ⟨user, huser, rfl, status_of_not_enabled henabled⟩, _, h.1⟩⟩
    simp only [henabled, ↓reduceIte, pure_bind] at h
    replace h := Session.ends_ask_then.mp h
    split at h
    · rename_i hroleless
      exact ⟨h.2, .inl ⟨.roleless (isEmpty_heldRoles.mp hroleless), _, h.1⟩⟩
    rename_i hroles
    replace h := Session.ends_ask_then.mp h
    rw [ask_heldGrants] at h
    replace h := ends_matching_then.mp h
    rw [← grantedRows] at h
    split at h
    · rename_i hmenuless
      exact ⟨h.2, .inl ⟨.menuless (isEmpty_grantedRows.mp hmenuless), _, h.1⟩⟩
    rename_i hgranted
    replace h := ends_matching_then.mp h
    have hfree : ¬d.tables.Barred user.id := Store.Tables.not_barred husers huser henabled
      (mt isEmpty_heldRoles.mpr hroles) (mt isEmpty_grantedRows.mpr hgranted)
    obtain ⟨e, hread, -⟩ | ⟨menus, d₁, hread, hr, rfl⟩ := (ends_seq.mp h).symm
    · cases (ends_hydrate (nodup_matching hmenus) hread).1
    obtain ⟨hread, rfl⟩ := ends_hydrate (nodup_matching hmenus) hread
    obtain rfl := Except.ok.inj hread
    rw [List.map_map] at hr
    refine ⟨rfl, .inr ⟨hfree, _, hr, ?_, fun x => ?_⟩⟩
    · rw [List.map_map]
      exact nodup_matching hmenus
    · rw [List.mem_map]
      refine exists_congr fun m => ?_
      rw [mem_matching_navigable hforest hmenus, and_assoc]
      refine and_congr_right fun _ => and_congr_right fun _ => ?_
      exact eq_comm.trans (Eq.congr_right (attached_granted d'.tables user.id m))

variable (env) in
/-- A user is refused, or is shown what is to be shown; nothing changes. -/
theorem comes_userTree (ctx : Context) (userId : String) :
    Comes env (userTree ctx userId) fun d r d' => d.tables.Forest →
      (d.tables.menus.map Menu.id).Nodup → (d.tables.users.map User.id).Nodup → d' = d ∧
        ((d.tables.Barred userId ∧ ∃ text, r = .error (.forbidden text)) ∨
          ¬d.tables.Barred userId ∧ ∃ trees, r = .ok trees ∧ d.tables.Navigation userId trees) := by
  refine Comes.session fun s => ?_
  rw [bounded_grantedMenus]
  refine ((comes_bounded ctx (steady_grantedMenus s userId)).bind fun menus =>
    comes_pure (MenuTree.forest menus)).mono ?_
  rintro d r d' (⟨e, ⟨-, hends⟩, rfl⟩ | ⟨menus, d₁, ⟨-, hends⟩, rfl, rfl⟩) hforest hmenus husers
  · obtain ⟨rfl, ⟨hbarred, text, he⟩ | ⟨-, _, hok, -⟩⟩ :=
      grantedMenus_outcome hforest hmenus husers hends
    · obtain rfl := Except.error.inj he
      exact ⟨rfl, .inl ⟨hbarred, text, rfl⟩⟩
    · cases hok
  · obtain ⟨rfl, ⟨-, text, he⟩ | ⟨hfree, _, hok, hids, hmem⟩⟩ :=
      grantedMenus_outcome hforest hmenus husers hends
    · cases he
    · obtain rfl := Except.ok.inj hok
      exact ⟨rfl, .inr ⟨hfree, _, rfl, hforest.navigation hmenus hids hmem⟩⟩

end Menus

/-- After every sequence of commands, served or refused, disturbed or not: a user is refused that is
unknown or disabled, has no role, or is granted no stored menu, and nobody else; everybody else is
shown the granted menus with their ancestors, each once and with the actions granted on it. -/
theorem Reached.user_navigation {admits : Command → Prop} {used : List String}
    {w : World MemoryStore} (h : Reached admits used w) (env : Surroundings) (ctx : Context)
    (userId : String) :
    ∃ r w', World.run env (Menus.userTree ctx userId).run { w with faults := [] } = (some r, w') ∧
      w'.desk = w.desk ∧
      ((∃ text, r = .error (.forbidden text)) ↔ w.tables.Barred userId) ∧
      (¬w.tables.Barred userId → ∃ trees, r = .ok trees ∧ w.tables.Navigation userId trees) := by
  obtain ⟨r, w', hrun, -, -, hcame⟩ :=
    Menus.comes_userTree env ctx userId { w with faults := [] } rfl h.idle
  obtain ⟨hdesk, hanswer⟩ := hcame h.forest h.sound.menus h.sound.users
  refine ⟨r, w', hrun, hdesk, ?_⟩
  obtain ⟨hbarred, hforbidden⟩ | ⟨hfree, trees, rfl, htrees⟩ := hanswer
  · exact ⟨iff_of_true hforbidden hbarred, fun hfree => absurd hbarred hfree⟩
  · exact ⟨iff_of_false (fun ⟨_, he⟩ => nomatch he) hfree, fun _ => ⟨trees, rfl, htrees⟩⟩

/-! ## A sample -/

namespace Sample

/-- Three menus in a chain, and a role that grants the lowest one. -/
def patronCommands : List Command :=
  [ .createMenu { name := "Orders", actions := [⟨"edit", "Edit"⟩] },
    .createMenu { name := "Archive", parentId := "mx", actions := [⟨"sort", "Sort"⟩] },
    .createMenu { name := "Year", parentId := "mxx", actions := [⟨"seal", "Seal"⟩] },
    .createRole { name := "Clerk", grants := [⟨"mxxx", ["seal"], []⟩] },
    .createUser { username := "clerk", password := "secret", roleIds := ["rx"] } ].map command

/-- The world after the sample, served from an empty store. -/
def patrons : World MemoryStore := serveAll patronCommands { store := {} }

theorem patrons_reached : ∃ used, Reached (fun q => q.faults = []) used patrons ∧
    naming.Covers used patrons.tables :=
  reached_serveAll (.start rfl rfl) (fun _ h => nomatch h) fun q hq => by
    obtain ⟨m, _, rfl⟩ := List.mem_map.mp hq
    exact ⟨rfl, rfl⟩

end Sample

/-- In the sample the clerk is shown the orders, which are two steps above the granted menu, without
their action. -/
theorem sample_navigation : ∃ trees w', World.run Sample.env (Menus.userTree {} "ux").run
      { Sample.patrons with faults := [] } = (some (.ok trees), w') ∧
    Sample.patrons.tables.Navigation "ux" trees ∧
    ∃ x ∈ MenuTree.menusOf trees, x.id = "mx" ∧ x.actions = [] := by
  obtain ⟨used, hreached, -⟩ := Sample.patrons_reached
  have hfree : ¬Sample.patrons.tables.Barred "ux" := by
    have huser : ∃ u ∈ Sample.patrons.tables.users, u.id = "ux" ∧ u.isEnabled = true := by
      decide +kernel
    obtain ⟨user, huser, hid, henabled⟩ := huser
    rw [← hid]
    refine Store.Tables.not_barred hreached.sound.users huser henabled ?_ ?_
    · rw [hid]
      decide +kernel
    · rw [hid]
      decide +kernel
  have habove : ∃ m ∈ Sample.patrons.tables.menus, ∃ n ∈ Sample.patrons.tables.menus,
      m.id = "mx" ∧ n.id ∈ (Sample.patrons.tables.heldGrants "ux").map Grant.menuId ∧
      Sample.patrons.tables.climb 2 n = some m ∧
      m.id ∉ (Sample.patrons.tables.heldGrants "ux").map Grant.menuId := by
    decide +kernel
  obtain ⟨m, hm, n, hn, hid, hgranted, hclimb, hnot⟩ := habove
  obtain ⟨r, w', hrun, -, -, hanswer⟩ := hreached.user_navigation Sample.env {} "ux"
  obtain ⟨trees, rfl, htrees⟩ := hanswer hfree
  have hx : Sample.patrons.tables.shown "ux" m ∈ MenuTree.menusOf trees :=
    (htrees.holds _).mpr ⟨m, hm, ⟨n, hn, hgranted, .inr ⟨2, Nat.two_pos, hclimb⟩⟩, rfl⟩
  exact ⟨trees, w', hrun, htrees, _, hx, hid, htrees.ungranted _ hx hnot⟩

end AccessAdmin
