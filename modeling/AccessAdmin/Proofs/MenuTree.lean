import AccessAdmin.Proofs.Sequences

/-!
# The menus form a tree

Each stored menu carries the ids of all its ancestors. The invariant is local: a menu is a root with
the root path, or its parent is stored and its path is that of the parent's children. With distinct
ids this excludes cycles, since the paths get shorter on the way up.

* `Store.Tables.Forest`: the invariant.
* `Menus.Updated.forest`: moving a menu with everything below it keeps it.
* `Reached.seated`: sequences of commands lead to trees only, disturbed or not.
-/

namespace AccessAdmin

open Menus

namespace AncestorPath

variable {p start old new : AncestorPath} {id : String}

theorem startsWith_iff : p.startsWith start = true ↔ start.ids <+: p.ids :=
  List.isPrefixOf_iff_prefix

theorem not_startsWith_child_root : root.startsWith (p.child id) = false := by
  rw [Bool.eq_false_iff, ne_eq, startsWith_iff, root, List.prefix_nil]
  exact List.append_ne_nil_of_right_ne_nil _ (List.cons_ne_nil _ _)

/-- The children's path begins like the menu's own path, or is the beginning itself. -/
theorem startsWith_child :
    (p.child id).startsWith start = true ↔ start = p.child id ∨ p.startsWith start = true := by
  rw [startsWith_iff, startsWith_iff, child, List.prefix_concat_iff]
  refine or_congr_left ⟨fun h => ?_, fun h => congrArg ids h⟩
  rw [← h]

/-- Rebasing goes along with taking children, unless the whole path of the children is replaced. -/
theorem rebase_child (hne : old ≠ p.child id) :
    ((p.child id).rebase old new).getD (p.child id) = ((p.rebase old new).getD p).child id := by
  unfold rebase
  by_cases h : p.startsWith old = true
  · rw [if_pos h, if_pos (startsWith_child.2 (.inr h))]
    have hle : old.ids.length ≤ p.ids.length := (startsWith_iff.1 h).length_le
    simp only [Option.getD_some, child, List.drop_append_of_le_length hle, List.append_assoc]
  · rw [if_neg h, if_neg fun hc => (startsWith_child.1 hc).elim hne h]
    rfl

theorem rebase_self : (old.rebase old new).getD old = new := by
  rw [rebase, if_pos (startsWith_iff.2 (List.prefix_refl _)), List.drop_length, List.append_nil]
  rfl

theorem child_id_inj {q : AncestorPath} {id' : String} (h : p.child id = q.child id') : id = id' :=
  (List.append_inj' (congrArg ids h) rfl).2 |> List.singleton_inj.1

theorem rebase_eq_self (h : p.startsWith old = false) : (p.rebase old new).getD p = p := by
  rw [rebase, h]
  rfl

end AncestorPath

/-! ## The invariant -/

/-- Every stored menu has a place in the tree. -/
def Store.Tables.Forest (t : Tables) : Prop :=
  ∀ m ∈ t.menus, Place t m.parentId m.parentPath

section Forest

variable {env : Surroundings} {used : List String} {t t' : Store.Tables} {id : String}

/-- A place stays as long as the menu above it does. -/
theorem Menus.Place.mono {parentId : String} {path : AncestorPath} (h : Place t parentId path)
    (hsub : ∀ p ∈ t.menus, p.id = parentId → p ∈ t'.menus) : Place t' parentId path := by
  obtain hroot | ⟨hne, p, hp, hid, hpath⟩ := h
  · exact .inl hroot
  · exact .inr ⟨hne, p, hsub p hp hid, hid, hpath⟩

theorem Menus.Added.forest {input : MenuInput} {row : Menu} (h : t.Forest)
    (ha : Added env input t row t') : t'.Forest := by
  have hsub (p : Menu) (hp : p ∈ t.menus) : p ∈ t'.menus := by
    rw [ha.tables]
    exact List.mem_append_left _ hp
  intro m hm
  rw [ha.tables] at hm
  rcases List.mem_append.1 hm with hm | hm
  · exact (h m hm).mono fun p hp _ => hsub p hp
  · obtain rfl := List.mem_singleton.1 hm
    exact ha.place.mono fun p hp _ => hsub p hp

theorem Menus.Grown.forest (h : t.Forest) (hg : Grown env t t') : t'.Forest := by
  induction hg with
  | refl => exact h
  | tail _ hstep ih =>
    obtain ⟨_, _, -, ha⟩ := hstep
    exact ha.forest ih

/-- Only a menu without children is removed. -/
theorem Menus.Removed.forest (h : t.Forest) (hr : Removed id t t') : t'.Forest := by
  intro m hm
  rw [hr.tables] at hm ⊢
  have hm := (List.mem_filter.1 hm).1
  refine (h m hm).mono fun p hp hid => List.mem_filter.2 ⟨hp, bne_iff_ne.2 ?_⟩
  exact hid ▸ hr.childless m hm

/-- What an update of `old` makes of a stored menu. -/
def Menus.after (old row m : Menu) : Menu :=
  let moved := if row.parentId = old.parentId then m
    else rebased old.childPath (row.parentPath.child old.id) m
  if m.id = old.id then Store.Tables.updatedMenu row moved else moved

section Updates

variable {old row m : Menu}

theorem Menus.after_id : (after old row m).id = m.id := by
  unfold after
  dsimp only
  split <;> split <;> rfl

theorem Menus.Updated.menus_eq {input : MenuInput} (hu : Updated id input old row t t') :
    t'.menus = t.menus.map (after old row) := by
  rw [hu.menus, relocated, ← hu.parent]
  split
  · rename_i hparent
    refine List.map_congr_left fun m _ => ?_
    rw [after, if_pos hparent, hu.old_id]
    simp only [beq_iff_eq]
  · rename_i hparent
    rw [List.map_map]
    refine List.map_congr_left fun m _ => ?_
    rw [after, if_neg hparent, hu.old_id]
    simp only [Function.comp_apply, beq_iff_eq, show (rebased _ _ m).id = m.id from rfl]

/-- The updated menu itself is where the update puts it. -/
theorem Menus.after_self : (after old row old).parentId = row.parentId ∧
    (after old row old).parentPath = row.parentPath := by
  rw [after, if_pos rfl]
  exact ⟨rfl, rfl⟩

/-- Every other menu keeps its parent, and its path is rebased if the updated menu moves. -/
theorem Menus.after_of_ne (row : Menu) (hne : m.id ≠ old.id) :
    (after old row m).parentId = m.parentId ∧
    (after old row m).parentPath = if row.parentId = old.parentId then m.parentPath
      else (m.parentPath.rebase old.childPath (row.parentPath.child old.id)).getD m.parentPath := by
  rw [after, if_neg hne]
  split <;> exact ⟨rfl, rfl⟩

/-- An update that leaves the menu where it is leaves all places as they are. -/
theorem Menus.after_stays (hparent : row.parentId = old.parentId)
    (hpath : row.parentPath = old.parentPath) (hone : m.id = old.id → m = old) :
    (after old row m).parentId = m.parentId ∧ (after old row m).parentPath = m.parentPath := by
  by_cases hm : m.id = old.id
  · obtain rfl := hone hm
    rw [after_self.1, after_self.2]
    exact ⟨hparent, hpath⟩
  · obtain ⟨hid, hrebased⟩ := after_of_ne row hm
    rw [if_pos hparent] at hrebased
    exact ⟨hid, hrebased⟩

/-- The place that a menu moves to is there after the move: it is not below the menu, so it does not
move along. -/
theorem Menus.Place.after_move (hone : ∀ m ∈ t.menus, m.id = old.id → m = old)
    (hmem : ∀ m ∈ t.menus, after old row m ∈ t'.menus) (hparent : row.parentId ≠ old.parentId)
    (hplace : Place t row.parentId row.parentPath)
    (hbelow : row.parentPath.startsWith old.childPath = false) :
    Place t' row.parentId row.parentPath := by
  obtain hroot | ⟨hne, q, hq, hid, hpath⟩ := hplace
  · exact .inl hroot
  refine .inr ⟨hne, after old row q, hmem q hq, after_id.trans hid, ?_⟩
  rw [hpath, Menu.childPath] at hbelow
  -- The new parent is neither the menu itself nor below it.
  have hstart := mt AncestorPath.startsWith_child.2 (Bool.eq_false_iff.1 hbelow)
  obtain ⟨hnot, hq'⟩ := not_or.1 hstart
  have hqid : q.id ≠ old.id := fun he => hnot (by rw [hone q hq he]; rfl)
  obtain ⟨-, hrebased⟩ := after_of_ne row hqid
  rw [if_neg hparent, AncestorPath.rebase_eq_self (Bool.eq_false_iff.2 hq')] at hrebased
  rw [hpath, Menu.childPath, Menu.childPath, hrebased, after_id]

/-- Whatever else has a place keeps it while a menu moves: below the menu the paths are rebased, and
elsewhere they stay. -/
theorem Menus.Place.after_other (hone : ∀ m ∈ t.menus, m.id = old.id → m = old)
    (hmem : ∀ m ∈ t.menus, after old row m ∈ t'.menus) (hold : old ∈ t.menus)
    (hparent : row.parentId ≠ old.parentId) (hplace : Place t m.parentId m.parentPath)
    (hm : m.id ≠ old.id) :
    Place t' (after old row m).parentId (after old row m).parentPath := by
  obtain ⟨hid, hrebased⟩ := after_of_ne row hm
  rw [if_neg hparent] at hrebased
  rw [hid, hrebased]
  obtain ⟨hempty, hroot⟩ | ⟨hne, p, hp, hpid, hpath⟩ := hplace
  · have hnot : AncestorPath.root.startsWith old.childPath = false :=
      AncestorPath.not_startsWith_child_root
    rw [hroot, AncestorPath.rebase_eq_self hnot]
    exact .inl ⟨hempty, rfl⟩
  refine .inr ⟨hne, after old row p, hmem p hp, after_id.trans hpid, ?_⟩
  rw [hpath]
  -- A child of the moved menu has its whole path replaced, anything deeper only the beginning.
  by_cases hpold : p.id = old.id
  · obtain rfl := hone p hp hpold
    rw [AncestorPath.rebase_self, Menu.childPath, after_self.2, after_id]
  · obtain ⟨-, hp'⟩ := after_of_ne row hpold
    rw [if_neg hparent] at hp'
    have hnot : old.childPath ≠ p.parentPath.child p.id := fun he =>
      hpold (AncestorPath.child_id_inj he).symm
    rw [Menu.childPath, AncestorPath.rebase_child hnot, ← hp']
    exact congrArg (AncestorPath.child _) after_id.symm

/-- An update keeps the tree, also when it moves a menu with everything below it. -/
theorem Menus.Updated.forest {input : MenuInput} (hnodup : (t.menus.map Menu.id).Nodup)
    (h : t.Forest) (hu : Updated id input old row t t') : t'.Forest := by
  have hone (m : Menu) (hm : m ∈ t.menus) (he : m.id = old.id) : m = old :=
    List.inj_on_of_nodup_map hnodup hm hu.old_mem he
  have hmem (m : Menu) (hm : m ∈ t.menus) : after old row m ∈ t'.menus :=
    hu.menus_eq ▸ List.mem_map_of_mem hm
  intro m' hm'
  rw [hu.menus_eq] at hm'
  obtain ⟨m, hm, rfl⟩ := List.mem_map.1 hm'
  have hmoved := hu.moved
  rw [← hu.parent] at hmoved
  obtain ⟨hparent, hpath⟩ | ⟨hparent, hplace, hbelow⟩ := hmoved
  · obtain ⟨hid, hsame⟩ := after_stays hparent hpath (hone m hm)
    rw [hid, hsame]
    obtain hroot | ⟨hne, p, hp, hpid, hchild⟩ := h m hm
    · exact .inl hroot
    · obtain ⟨-, hsame⟩ := after_stays hparent hpath (hone p hp)
      refine .inr ⟨hne, _, hmem p hp, after_id.trans hpid, ?_⟩
      rw [hchild, Menu.childPath, Menu.childPath, hsame, after_id]
  · by_cases he : m.id = old.id
    · obtain rfl := hone m hm he
      rw [after_self.1, after_self.2]
      exact hplace.after_move hone hmem hparent hbelow
    · exact (h m hm).after_other hone hmem hu.old_mem hparent he

end Updates

/-- Every change keeps the tree. -/
theorem Mutation.Changes.forest {m : Mutation} {a : m.Result} (hs : t.Sound used) (h : t.Forest)
    (hc : m.Changes env t a t') : t'.Forest := by
  cases m with
  | createMenu _ =>
    obtain ⟨_, ha⟩ := hc
    exact ha.forest h
  | updateMenu _ _ =>
    obtain ⟨_, _, hu⟩ := hc
    exact hu.forest hs.menus h
  | deleteMenu _ => exact Menus.Removed.forest h hc
  | seedMenus _ => exact Menus.Grown.forest h hc
  | createRole _ =>
    obtain ⟨_, ha, -⟩ := hc
    rw [ha.tables]
    exact h
  | updateRole _ _ =>
    rw [hc.frame]
    exact h
  | deleteRole _ =>
    rw [hc.tables]
    exact h
  | createUser _ =>
    obtain ⟨_, ha, -⟩ := hc
    rw [ha.tables]
    exact h
  | updateUser _ _ =>
    rw [hc.frame]
    exact h
  | deleteUser _ =>
    rw [hc.tables]
    exact h
  | updateStatus _ _ =>
    obtain ⟨-, rfl⟩ := hc
    exact h
  | updatePassword _ _ | changeOwnPassword _ _ _ =>
    obtain ⟨_, -, rfl⟩ := hc
    exact h

end Forest

/-! ## On the way up -/

/-- The stored parent of a menu. -/
def Store.Tables.parentOf (t : Tables) (m : Menu) : Option Menu :=
  if m.isRoot then none else t.menus.find? (·.id == m.parentId)

/-- The menu some steps up from a menu. -/
def Store.Tables.climb (t : Tables) : Nat → Menu → Option Menu
  | 0, m => some m
  | n + 1, m => (t.parentOf m).bind (t.climb n)

section Climbing

variable {t : Store.Tables} {m : Menu}

/-- A menu is a root with the root path, or its parent is stored and has a path shorter by one. -/
theorem Store.Tables.Forest.parentOf (h : t.Forest) (hnodup : (t.menus.map Menu.id).Nodup)
    (hm : m ∈ t.menus) :
    (m.isRoot = true ∧ m.parentPath = .root) ∨
      ∃ p ∈ t.menus, m.isRoot = false ∧ t.parentOf m = some p ∧ m.parentPath = p.childPath := by
  obtain ⟨hempty, hroot⟩ | ⟨hne, p, hp, hid, hpath⟩ := h m hm
  · exact .inl ⟨String.isEmpty_iff.2 hempty, hroot⟩
  · have hnot : m.isRoot = false := Bool.eq_false_iff.2 fun he => hne (String.isEmpty_iff.1 he)
    refine .inr ⟨p, hp, hnot, ?_, hpath⟩
    rw [Store.Tables.parentOf, if_neg (Bool.eq_false_iff.1 hnot)]
    obtain ⟨q, hq⟩ : ∃ q, t.menus.find? (·.id == m.parentId) = some q :=
      Option.isSome_iff_exists.1 (List.find?_isSome.2 ⟨p, hp, beq_iff_eq.2 hid⟩)
    obtain ⟨hqmem, hqid⟩ := Store.Tables.find_row hq
    rw [hq, List.inj_on_of_nodup_map hnodup hqmem hp (hqid.trans hid.symm)]

theorem AncestorPath.depth_child {p : AncestorPath} {id : String} :
    (p.child id).depth = p.depth + 1 := List.length_append

/-- By induction on the steps: every step up makes the path shorter by one, down to the root. -/
theorem Store.Tables.Forest.climb (h : t.Forest) (hnodup : (t.menus.map Menu.id).Nodup)
    (hm : m ∈ t.menus) {k : Nat} (hk : k ≤ m.parentPath.depth) :
    ∃ x ∈ t.menus, t.climb k m = some x ∧ (x.isRoot = true ↔ k = m.parentPath.depth) := by
  induction k generalizing m with
  | zero =>
    refine ⟨m, hm, rfl, ?_⟩
    obtain ⟨hroot, hpath⟩ | ⟨p, _, hnot, -, hpath⟩ := h.parentOf hnodup hm
    · exact iff_of_true hroot (by rw [hpath]; rfl)
    · refine iff_of_false (Bool.eq_false_iff.1 hnot) ?_
      rw [hpath, Menu.childPath, AncestorPath.depth_child]
      exact (Nat.succ_ne_zero _).symm
  | succ k ih =>
    obtain ⟨_, hpath⟩ | ⟨p, hp, -, hparent, hpath⟩ := h.parentOf hnodup hm
    · rw [hpath] at hk
      exact (Nat.not_succ_le_zero k hk).elim
    · rw [hpath, Menu.childPath, AncestorPath.depth_child] at hk ⊢
      obtain ⟨x, hx, hclimb, hroot⟩ := ih hp (Nat.le_of_succ_le_succ hk)
      refine ⟨x, hx, ?_, hroot.trans Nat.succ_inj.symm⟩
      rw [Store.Tables.climb, hparent]
      exact hclimb

/-- By induction on the depth: an id in the path of a menu belongs to a menu with a shorter path. -/
theorem Store.Tables.Forest.ancestor (h : t.Forest) {id : String} (hm : m ∈ t.menus)
    (hid : id ∈ m.parentPath.ids) :
    ∃ a ∈ t.menus, a.id = id ∧ a.parentPath.depth < m.parentPath.depth := by
  induction hdepth : m.parentPath.depth generalizing m with
  | zero =>
    rw [List.length_eq_zero_iff.1 hdepth] at hid
    exact nomatch hid
  | succ n ih =>
    obtain ⟨-, hpath⟩ | ⟨-, p, hp, -, hpath⟩ := h m hm
    · rw [hpath] at hid
      exact nomatch hid
    · rw [hpath, Menu.childPath, AncestorPath.depth_child, Nat.succ_inj] at hdepth
      rw [hpath] at hid
      rcases List.mem_append.1 hid with hid | hid
      · obtain ⟨a, ha, haid, hlt⟩ := ih hp hid hdepth
        exact ⟨a, ha, haid, Nat.lt_succ_of_lt hlt⟩
      · exact ⟨p, hp, (List.mem_singleton.1 hid).symm, by rw [hdepth]; exact Nat.lt_succ_self n⟩

/-- No menu is below itself. -/
theorem Store.Tables.Forest.id_not_mem (h : t.Forest) (hnodup : (t.menus.map Menu.id).Nodup)
    (hm : m ∈ t.menus) : m.id ∉ m.parentPath.ids := by
  intro hid
  obtain ⟨a, ha, haid, hlt⟩ := h.ancestor hm hid
  obtain rfl := List.inj_on_of_nodup_map hnodup ha hm haid
  exact Nat.lt_irrefl _ hlt

end Climbing

/-! ## Sequences of commands -/

theorem Reached.forest {admits : Command → Prop} {used : List String} {w : World MemoryStore}
    (h : Reached admits used w) : w.tables.Forest :=
  h.invariant (fun _ hm => absurd hm List.not_mem_nil) fun hsound hchanges hforest =>
    hchanges.forest hsound hforest

/-- What it means for a stored menu to have its place in the tree. -/
structure Store.Tables.Seated (t : Tables) (m : Menu) : Prop where
  /-- It is a root with the root path, or its parent is stored and its path extends the parent's. -/
  place : (m.parentId = "" ∧ m.parentPath = .root) ∨
    (m.parentId ≠ "" ∧ ∃ p ∈ t.menus, p.id = m.parentId ∧ m.parentPath = p.parentPath.child p.id)
  /-- It is not among its own ancestors. -/
  acyclic : m.id ∉ m.parentPath.ids
  /-- Going up from parent to parent comes to a root after as many steps as the path is long, and
  not before. -/
  climb : ∀ k ≤ m.parentPath.depth,
    ∃ x ∈ t.menus, t.climb k m = some x ∧ (x.isRoot = true ↔ k = m.parentPath.depth)

/-- After every sequence of commands, served or refused, disturbed or not, every stored menu has its
place in the tree. -/
theorem Reached.seated {admits : Command → Prop} {used : List String} {w : World MemoryStore}
    (h : Reached admits used w) : ∀ m ∈ w.tables.menus, w.tables.Seated m := fun m hm =>
  ⟨h.forest m hm, h.forest.id_not_mem h.sound.menus hm, fun _ => h.forest.climb h.sound.menus hm⟩

/-- In the sample the last menu has moved along with the one above it. -/
theorem sample_seated : ∃ m ∈ Sample.world.tables.menus,
    m.id = "mxxx" ∧ m.parentPath = ⟨["mxx"]⟩ ∧ Sample.world.tables.Seated m := by
  obtain ⟨used, h, -⟩ := Sample.reached
  have hmoved : ∃ m ∈ Sample.world.tables.menus, m.id = "mxxx" ∧ m.parentPath = ⟨["mxx"]⟩ := by
    decide +kernel
  obtain ⟨m, hm, hid, hpath⟩ := hmoved
  exact ⟨m, hm, hid, hpath, h.seated m hm⟩

end AccessAdmin
