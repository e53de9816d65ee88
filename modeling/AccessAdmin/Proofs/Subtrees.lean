import AccessAdmin.Proofs.MenuTree

/-!
# Subtrees by path and by parent

Moving a menu, refusing a cycle and showing a part of the tree all look for the menus whose path
begins with the path of some menu's children. In a forest with distinct ids these are the menus from
which the way up, from parent to parent, leads to that menu.

* `Store.Tables.Forest.startsWith_iff_climb`: the beginnings of a path are the menus on the way up.
* `Store.Tables.Forest.parent_iff_depth`: the children are the part of a subtree one level down.
* `Store.Tables.Forest.subtree_by_parents`: the same, told by the answers of the store.
-/

namespace AccessAdmin

namespace MenuFilter

variable {m : Menu}

@[simp] theorem admits_subtree {path : AncestorPath} :
    (subtree path).admits m = m.parentPath.startsWith path := by
  simp [subtree, admits]

@[simp] theorem admits_childrenOf {id : String} :
    (childrenOf id).admits m = true ↔ m.parentId = id := by
  simp [childrenOf, admits]

end MenuFilter

/-- A listing that is asked for without paging has the rows that the filter admits. -/
theorem Store.Tables.mem_ask_queryMenus {t : Tables} {f : MenuFilter} {m : Menu} :
    m ∈ (t.ask (.queryMenus f none)).data ↔ m ∈ t.menus ∧ f.admits m = true :=
  Menus.mem_matchingMenus

namespace Store.Tables

variable {t : Tables} {m n p : Menu}

theorem climb_succ (h : t.parentOf n = some p) (k : Nat) : t.climb (k + 1) n = t.climb k p := by
  rw [climb, h, Option.bind_some]

/-- A menu is below another one: following the parents, once or more often, comes to it. -/
def Below (t : Tables) (n m : Menu) : Prop :=
  ∃ k, 0 < k ∧ t.climb k n = some m

/-- There is no way up from a root. -/
theorem climb_root (h : n.isRoot = true) (k : Nat) : t.climb (k + 1) n = none := by
  rw [climb, parentOf, if_pos h, Option.bind_none]

namespace Forest

/-- A path that begins with the path of a menu's children belongs to a menu below it. By induction
on the length of the path: the last id of the path is the parent's. -/
theorem climb_of_startsWith (h : t.Forest) (hnodup : (t.menus.map Menu.id).Nodup)
    (hm : m ∈ t.menus) (hn : n ∈ t.menus) (hstart : n.parentPath.startsWith m.childPath = true) :
    ∃ k, t.climb (k + 1) n = some m := by
  induction hdepth : n.parentPath.depth generalizing n with
  | zero =>
    have hroot : n.parentPath = .root := by
      cases hpath : n.parentPath with
      | mk ids => simpa [hpath, AncestorPath.depth, AncestorPath.root] using hdepth
    rw [hroot, Menu.childPath, AncestorPath.not_startsWith_child_root] at hstart
    cases hstart
  | succ depth ih =>
    obtain ⟨-, hroot⟩ | ⟨p, hp, -, hparent, hpath⟩ := h.parentOf hnodup hn
    · rw [hroot] at hdepth
      cases hdepth
    · rw [hpath, Menu.childPath, AncestorPath.depth_child, Nat.succ_inj] at hdepth
      rw [hpath] at hstart
      -- Either the beginning is the whole path, or it is a beginning of the parent's path.
      obtain hwhole | habove := AncestorPath.startsWith_child.1 hstart
      · have hid : m.id = p.id := AncestorPath.child_id_inj hwhole
        obtain rfl := List.inj_on_of_nodup_map hnodup hm hp hid
        exact ⟨0, climb_succ hparent 0⟩
      · obtain ⟨k, hk⟩ := ih hp habove hdepth
        exact ⟨k + 1, (climb_succ hparent (k + 1)).trans hk⟩

/-- Every menu that the way up comes to has left its path at the beginning. By induction on the
number of steps up. -/
theorem startsWith_of_climb (h : t.Forest) (hnodup : (t.menus.map Menu.id).Nodup)
    (hn : n ∈ t.menus) {k : Nat} (hk : t.climb (k + 1) n = some m) :
    n.parentPath.startsWith m.childPath = true := by
  induction k generalizing n with
  | zero =>
    obtain ⟨hroot, -⟩ | ⟨p, hp, -, hparent, hpath⟩ := h.parentOf hnodup hn
    · rw [climb_root hroot] at hk
      cases hk
    · rw [climb_succ hparent] at hk
      obtain rfl : p = m := Option.some.inj hk
      rw [hpath]
      exact AncestorPath.startsWith_child.2 (.inl rfl)
  | succ k ih =>
    obtain ⟨hroot, -⟩ | ⟨p, hp, -, hparent, hpath⟩ := h.parentOf hnodup hn
    · rw [climb_root hroot] at hk
      cases hk
    · rw [climb_succ hparent] at hk
      rw [hpath]
      exact AncestorPath.startsWith_child.2 (.inr (ih hp hk))

/-- The path of a stored menu begins with the path of another one's children exactly if the way up
comes to that menu. -/
theorem startsWith_iff_climb (h : t.Forest) (hnodup : (t.menus.map Menu.id).Nodup)
    (hm : m ∈ t.menus) (hn : n ∈ t.menus) :
    n.parentPath.startsWith m.childPath = true ↔ ∃ k, 0 < k ∧ t.climb k n = some m := by
  constructor
  · intro hstart
    obtain ⟨k, hk⟩ := h.climb_of_startsWith hnodup hm hn hstart
    exact ⟨k + 1, Nat.succ_pos k, hk⟩
  · rintro ⟨k, hpos, hk⟩
    obtain ⟨k, rfl⟩ := Nat.exists_eq_succ_of_ne_zero (Nat.ne_of_gt hpos)
    exact h.startsWith_of_climb hnodup hn hk

/-- The menus below a menu are those that its search by path finds. -/
theorem below_iff_matching (h : t.Forest) (hnodup : (t.menus.map Menu.id).Nodup)
    (hm : m ∈ t.menus) :
    n ∈ t.matchingMenus (.subtree m.childPath) ↔ n ∈ t.menus ∧ t.Below n m := by
  rw [Menus.mem_matchingMenus, MenuFilter.admits_subtree]
  exact and_congr_right fun hn => h.startsWith_iff_climb hnodup hm hn

/-- The children of a menu are the menus below it whose path is longer by one. -/
theorem parent_iff_depth (h : t.Forest) (hnodup : (t.menus.map Menu.id).Nodup) (hm : m ∈ t.menus)
    (hne : m.id ≠ "") (hn : n ∈ t.menus) :
    n.parentId = m.id ↔ n.parentPath.startsWith m.childPath = true ∧
      n.parentPath.depth = m.parentPath.depth + 1 := by
  have hplace := h n hn
  constructor
  · intro hparent
    obtain ⟨hempty, -⟩ | ⟨-, p, hp, hid, hpath⟩ := hplace
    · exact absurd (hparent.symm.trans hempty) hne
    · obtain rfl := List.inj_on_of_nodup_map hnodup hp hm (hid.trans hparent)
      rw [hpath]
      exact ⟨AncestorPath.startsWith_child.2 (.inl rfl), AncestorPath.depth_child⟩
  · rintro ⟨hstart, hdepth⟩
    -- A beginning as long as the path is the path.
    have hwhole : m.childPath.ids = n.parentPath.ids :=
      (AncestorPath.startsWith_iff.1 hstart).eq_of_length
        (AncestorPath.depth_child.trans hdepth.symm)
    obtain ⟨-, hroot⟩ | ⟨-, p, hp, hid, hpath⟩ := hplace
    · rw [hroot, AncestorPath.root] at hwhole
      exact absurd hwhole (List.append_ne_nil_of_right_ne_nil _ (List.cons_ne_nil _ _))
    · have hsame : m.childPath = p.childPath := by
        cases hq : m.childPath
        cases hq' : p.childPath
        simpa [hq, hq', hpath] using hwhole
      exact hid.symm.trans (AncestorPath.child_id_inj hsame).symm

/-- In a forest of menus with distinct names the store finds, by the paths that it keeps, what the
parents say: below a menu are those from which following the parents, once or more often, comes to
the menu, and its children are those among them that are one level down. -/
theorem subtree_by_parents (h : t.Forest) (hnodup : (t.menus.map Menu.id).Nodup)
    (hne : ∀ m ∈ t.menus, m.id ≠ "") (hm : m ∈ t.menus) :
    (∀ n ∈ t.menus, n ∈ (t.ask (.queryMenus (.subtree m.childPath) none)).data ↔
      ∃ k, 0 < k ∧ t.climb k n = some m) ∧
    ∀ n, n ∈ (t.ask (.queryMenus (.childrenOf m.id) none)).data ↔
      n ∈ (t.ask (.queryMenus (.subtree m.childPath) none)).data ∧
        n.parentPath.depth = m.parentPath.depth + 1 := by
  refine ⟨fun n hn => ?_, fun n => ?_⟩
  · rw [mem_ask_queryMenus, and_iff_right hn, MenuFilter.admits_subtree]
    exact h.startsWith_iff_climb hnodup hm hn
  · rw [mem_ask_queryMenus, mem_ask_queryMenus, MenuFilter.admits_childrenOf,
      MenuFilter.admits_subtree, and_assoc]
    exact and_congr_right fun hn => h.parent_iff_depth hnodup hm (hne m hm) hn

end Forest

end Store.Tables

/-! ## A sample -/

namespace Sample

/-- A menu, a child and a grandchild of it, and beside them a menu with a child whose path, as a
text, begins with the first one's id. -/
def shelfCommands : List Command :=
  [ .createMenu { name := "Orders" },
    .createMenu { name := "Archive", parentId := "mx" },
    .createMenu { name := "Year", parentId := "mxx" },
    .createMenu { name := "Orderings" },
    .createMenu { name := "Drafts", parentId := "mxxxx" } ].map command

/-- The world after the sample, served from an empty store. -/
def shelf : World MemoryStore := serveAll shelfCommands { store := {} }

theorem shelf_reached : ∃ used, Reached (fun q => q.faults = []) used shelf ∧
    naming.Covers used shelf.tables :=
  reached_serveAll (.start rfl rfl) (fun _ h => nomatch h) fun q hq => by
    obtain ⟨m, _, rfl⟩ := List.mem_map.1 hq
    exact ⟨rfl, rfl⟩

end Sample

/-- On the sample shelf the grandchild is below the first menu, two steps up the way from it, and
is none of its children. -/
theorem sample_subtree : ∃ m ∈ Sample.shelf.tables.menus, ∃ n ∈ Sample.shelf.tables.menus,
    m.id = "mx" ∧ n.id = "mxxx" ∧
      n ∈ (Sample.shelf.tables.ask (.queryMenus (.subtree m.childPath) none)).data ∧
      n ∉ (Sample.shelf.tables.ask (.queryMenus (.childrenOf m.id) none)).data := by
  obtain ⟨used, hreached, -⟩ := Sample.shelf_reached
  have hnamed : ∀ m ∈ Sample.shelf.tables.menus, m.id ≠ "" := by decide +kernel
  have hfound : ∃ m ∈ Sample.shelf.tables.menus, ∃ n ∈ Sample.shelf.tables.menus, m.id = "mx" ∧
      n.id = "mxxx" ∧ Sample.shelf.tables.climb 2 n = some m ∧
      n.parentPath.depth ≠ m.parentPath.depth + 1 := by
    decide +kernel
  obtain ⟨m, hm, n, hn, hid, hid', hclimb, hdepth⟩ := hfound
  obtain ⟨hbelow, hchildren⟩ :=
    Store.Tables.Forest.subtree_by_parents hreached.forest hreached.sound.menus hnamed hm
  exact ⟨m, hm, n, hn, hid, hid', (hbelow n hn).2 ⟨2, by decide, hclimb⟩,
    fun hchild => hdepth ((hchildren n).1 hchild).2⟩

end AccessAdmin
