import AccessAdmin.Proofs.ForestAssembly

/-!
# Forests told by their menus

A forest whose siblings stand in listing order, with every child naming the menu above it, is what
assembly makes of its menus, in whatever order they come. Any forest becomes such a one when its
siblings are ranked by their sequence.

* `ranked`: siblings by descending sequence, the later ones first on a tie.
* `MenuTree.Standing`: a forest as assembly makes it.
* `MenuTree.Standing.forest_eq`: assembly gives a standing forest back.
* `MenuTree.Standing.of_ranked`: a ranked forest stands.
-/

namespace AccessAdmin

/-! ## Ranking siblings -/

section Ranking

variable {α β : Type} {sequence : α → Int}

/-- Siblings by descending sequence, those that came later first on a tie. -/
def ranked (sequence : α → Int) (xs : List α) : List α :=
  xs.reverse.mergeSort fun a b => decide (sequence b ≤ sequence a)

theorem ranked_perm (sequence : α → Int) (xs : List α) : (ranked sequence xs).Perm xs :=
  (List.mergeSort_perm _ _).trans xs.reverse_perm

theorem map_ranked {f : α → β} (sequence' : β → Int) (h : ∀ a, sequence' (f a) = sequence a)
    (xs : List α) : (ranked sequence xs).map f = ranked sequence' (xs.map f) := by
  unfold ranked
  rw [← List.map_reverse]
  refine List.map_mergeSort fun a _ b _ => ?_
  rw [h, h]

theorem rank_trans (a b c : α) (hab : decide (sequence b ≤ sequence a) = true)
    (hbc : decide (sequence c ≤ sequence b) = true) : decide (sequence c ≤ sequence a) = true := by
  rw [decide_eq_true_eq] at hab hbc ⊢
  omega

theorem rank_total (a b : α) :
    (decide (sequence b ≤ sequence a) || decide (sequence a ≤ sequence b)) = true := by
  rw [Bool.or_eq_true, decide_eq_true_eq, decide_eq_true_eq]
  omega

theorem ranked_sorted (sequence : α → Int) (xs : List α) :
    (ranked sequence xs).Pairwise fun a b => sequence b ≤ sequence a :=
  (List.pairwise_mergeSort rank_trans rank_total xs.reverse).imp of_decide_eq_true

/-- The sort is stable: those with one sequence only change their order for the other way round. -/
theorem filter_ranked (xs : List α) (n : Int) :
    (ranked sequence xs).filter (sequence · = n) = (xs.filter (sequence · = n)).reverse := by
  rw [← List.filter_reverse]
  have hlevel : (xs.reverse.filter (sequence · = n)).Pairwise fun a b =>
      decide (sequence b ≤ sequence a) = true := by
    refine List.pairwise_of_forall_mem_list fun a ha b hb => decide_eq_true ?_
    have ha := of_decide_eq_true (List.mem_filter.mp ha).2
    have hb := of_decide_eq_true (List.mem_filter.mp hb).2
    omega
  have hkept : (xs.reverse.filter (sequence · = n)).Sublist (ranked sequence xs) :=
    List.sublist_mergeSort rank_trans rank_total hlevel List.filter_sublist
  have hsub := hkept.filter (sequence · = n)
  simp only [List.filter_filter, Bool.and_self] at hsub
  exact (hsub.eq_of_length ((List.mergeSort_perm _ _).symm.filter _).length_eq).symm

/-- Rows that have come one after the other are ranked by sequence, and on a tie the other way
round. -/
theorem ranked_pairwise {before : α → α → Prop} {xs : List α} (h : xs.Pairwise before) :
    (ranked sequence xs).Pairwise fun a b =>
      sequence b < sequence a ∨ sequence b = sequence a ∧ before b a := by
  refine List.pairwise_iff_forall_sublist.mpr fun {a b} hab => ?_
  have hle : sequence b ≤ sequence a :=
    List.pairwise_iff_forall_sublist.mp (ranked_sorted sequence xs) hab
  by_cases hlt : sequence b < sequence a
  · exact .inl hlt
  · have htie : sequence b = sequence a := by omega
    have hpair := hab.filter (sequence · = sequence a)
    rw [List.filter_cons_of_pos (by simp), List.filter_cons_of_pos (by simpa), List.filter_nil,
      filter_ranked] at hpair
    have hlater : [b, a].Sublist (xs.filter (sequence · = sequence a)) := by
      simpa using List.reverse_sublist.mpr hpair
    exact .inr ⟨htie, List.pairwise_iff_forall_sublist.mp h (hlater.trans List.filter_sublist)⟩

end Ranking

namespace MenuTree

/-! ## The nodes of a forest -/

variable {trees : List MenuTree} {t : MenuTree}

theorem nodesOf_eq_flatMap (trees : List MenuTree) : nodesOf trees = trees.flatMap nodes := by
  induction trees with
  | nil => rw [nodesOf, List.flatMap_nil]
  | cons t rest ih => rw [nodesOf, List.flatMap_cons, ih]

/-- The tops of a forest come in their order among its menus. -/
theorem map_menu_sublist (trees : List MenuTree) : (trees.map menu).Sublist (menusOf trees) := by
  induction trees with
  | nil => exact .slnil
  | cons t rest ih =>
    obtain ⟨m, below⟩ := t
    rw [menusOf_cons]
    exact .cons_cons m (ih.trans (List.sublist_append_right _ _))

/-- So do the menus below any of its nodes. -/
theorem menusOf_children_sublist : ∀ {trees : List MenuTree}, ∀ t ∈ nodesOf trees,
    (menusOf t.children).Sublist (menusOf trees)
  | [], t, h => by simp [nodesOf] at h
  | node m below :: rest, t, h => by
    rw [nodesOf_cons, List.mem_cons, List.mem_append] at h
    rw [menusOf_cons]
    refine .cons m ?_
    obtain rfl | h | h := h
    · exact List.sublist_append_left _ _
    · exact (menusOf_children_sublist t h).trans (List.sublist_append_left _ _)
    · exact (menusOf_children_sublist t h).trans (List.sublist_append_right _ _)

/-! ## Forests that assembly gives back -/

/-- The menus below the tops of a forest. -/
def lower (trees : List MenuTree) : List Menu := trees.flatMap fun t => menusOf t.children

theorem menusOf_perm_lower (trees : List MenuTree) :
    (menusOf trees).Perm (trees.map menu ++ lower trees) := by
  induction trees with
  | nil => exact .refl _
  | cons t rest ih =>
    obtain ⟨m, below⟩ := t
    rw [menusOf_cons, List.map_cons, lower, List.flatMap_cons, children]
    refine List.Perm.cons m ?_
    calc (menusOf below ++ menusOf rest).Perm (menusOf below ++ (rest.map menu ++ lower rest)) :=
          ih.append_left _
      List.Perm _ (rest.map menu ++ (menusOf below ++ lower rest)) :=
          List.perm_append_comm_assoc _ _ _

/-- Every child names the menu above it, and siblings below a menu are in listing order. -/
structure Hung (trees : List MenuTree) : Prop where
  parents : ∀ t ∈ nodesOf trees, ∀ c ∈ t.children, c.menu.parentId = t.menu.id
  sortedBelow : ∀ t ∈ nodesOf trees, (t.children.map menu).Pairwise Menu.Precedes

theorem Hung.mono {trees' : List MenuTree} (h : Hung trees)
    (hsub : ∀ t ∈ nodesOf trees', t ∈ nodesOf trees) : Hung trees' where
  parents t ht := h.parents t (hsub t ht)
  sortedBelow t ht := h.sortedBelow t (hsub t ht)

theorem Hung.below {m : Menu} {below rest : List MenuTree} (h : Hung (node m below :: rest)) :
    Hung below ∧ Hung rest ∧ ∀ c ∈ below, c.menu.parentId = m.id := by
  refine ⟨h.mono fun t ht => ?_, h.mono fun t ht => ?_, ?_⟩
  · rw [nodesOf_cons]
    exact .tail _ (List.mem_append_left _ ht)
  · rw [nodesOf_cons]
    exact .tail _ (List.mem_append_right _ ht)
  · exact h.parents (node m below) (by simp)

/-- What is below the tops names a menu of the forest as its parent. -/
theorem Hung.parent_of_mem_lower : ∀ {trees : List MenuTree}, Hung trees → ∀ x ∈ lower trees,
    ∃ p ∈ menusOf trees, x.parentId = p.id
  | [], _, x, hx => by simp [lower] at hx
  | node m below :: rest, h, x, hx => by
    obtain ⟨hbelow, hrest, hparent⟩ := h.below
    have hx' : x ∈ menusOf below ∨ x ∈ lower rest := by
      rw [lower, List.flatMap_cons, children, List.mem_append] at hx
      exact hx
    simp only [menusOf_cons, List.mem_cons, List.mem_append, exists_eq_or_imp]
    rcases hx' with hx | hx
    · rcases List.mem_append.mp ((menusOf_perm_lower below).mem_iff.mp hx) with htop | hlow
      · obtain ⟨c, hc, rfl⟩ := List.mem_map.mp htop
        exact .inl (hparent c hc)
      · obtain ⟨p, hp, hid⟩ := hbelow.parent_of_mem_lower x hlow
        exact .inr ⟨p, .inl hp, hid⟩
    · obtain ⟨p, hp, hid⟩ := hrest.parent_of_mem_lower x hx
      exact .inr ⟨p, .inr hp, hid⟩

/-- Two listings of the same menus are equal. -/
theorem eq_of_precedes_perm {xs ys : List Menu} (hxs : xs.Pairwise Menu.Precedes)
    (hys : ys.Pairwise Menu.Precedes) (h : xs.Perm ys) : xs = ys := by
  refine List.Perm.eq_of_pairwise (fun a b _ _ hab hba => ?_) hxs hys h
  unfold Menu.Precedes at hab hba
  omega

/-- A pool splits by a test into the rows that meet it and the others. -/
theorem filter_perm_of_split {α : Type} (test : α → Bool) {pool own others : List α}
    (h : pool.Perm (own ++ others)) (hown : ∀ x ∈ own, test x = true)
    (hothers : ∀ x ∈ others, test x = false) :
    (pool.filter test).Perm own ∧ (pool.filter (!test ·)).Perm others := by
  constructor
  · have hnone : others.filter test = [] :=
      List.filter_eq_nil_iff.mpr fun x hx => by simp [hothers x hx]
    have hall := h.filter test
    rwa [List.filter_append, List.filter_eq_self.mpr hown, hnone, List.append_nil] at hall
  · have hnone : own.filter (!test ·) = [] :=
      List.filter_eq_nil_iff.mpr fun x hx => by simp [hown x hx]
    have hkept : others.filter (!test ·) = others :=
      List.filter_eq_self.mpr fun x hx => by simp [hothers x hx]
    have hall := h.filter (!test ·)
    rwa [List.filter_append, hnone, hkept, List.nil_append] at hall

/-- A visit of the tops with everything below them in a sorted pool gives the forest back and leaves
what hangs from none of its menus. By recursion on the forest: the trees below the first top, then
the trees beside it. -/
theorem Hung.visited : ∀ {trees : List MenuTree} {pool extra : List Menu}, Hung trees →
    ((menusOf trees).map Menu.id).Nodup → pool.Pairwise Menu.Precedes →
    pool.Perm (lower trees ++ extra) → (∀ x ∈ extra, ∀ m ∈ menusOf trees, x.parentId ≠ m.id) →
    ∃ left, Visited (trees.map menu) pool trees left ∧ left.Perm extra
  | [], pool, extra, _, _, _, hpool, _ => ⟨pool, .nil, hpool⟩
  | node m below :: rest, pool, extra, h, hids, hsorted, hpool, hextra => by
    obtain ⟨hbelow, hrest, hparent⟩ := h.below
    rw [menusOf_cons, List.map_cons, List.nodup_cons, List.map_append, List.nodup_append] at hids
    obtain ⟨hm, hidsBelow, hidsRest, hapart⟩ := hids
    simp only [menusOf_cons, List.mem_cons, List.mem_append, forall_eq_or_imp] at hextra
    have hforeign {x p : Menu} (hp : p ∈ menusOf below ++ menusOf rest)
        (hid : x.parentId = p.id) : x.parentId ≠ m.id := fun hown =>
      hm (by rw [← List.map_append, ← hown, hid]; exact List.mem_map_of_mem hp)
    -- The pool has the children of the first top, what is below these, and the rest.
    have hsplit : pool.Perm (below.map menu ++ (lower below ++ (lower rest ++ extra))) := by
      refine hpool.trans ?_
      rw [lower, List.flatMap_cons, children, List.append_assoc, ← List.append_assoc (below.map menu)]
      exact (menusOf_perm_lower below).append_right _
    obtain ⟨hown, hothers⟩ := filter_perm_of_split (·.parentId == m.id) hsplit
      (fun x hx => by
        obtain ⟨c, hc, rfl⟩ := List.mem_map.mp hx
        exact beq_iff_eq.mpr (hparent c hc))
      (fun x hx => by
        rw [beq_eq_false_iff_ne]
        simp only [List.mem_append] at hx
        obtain hx | hx | hx := hx
        · obtain ⟨p, hp, hid⟩ := hbelow.parent_of_mem_lower x hx
          exact hforeign (List.mem_append_left _ hp) hid
        · obtain ⟨p, hp, hid⟩ := hrest.parent_of_mem_lower x hx
          exact hforeign (List.mem_append_right _ hp) hid
        · exact (hextra x hx).1)
    have hchildren : pool.filter (·.parentId == m.id) = below.map menu :=
      eq_of_precedes_perm (hsorted.sublist List.filter_sublist)
        (h.sortedBelow (node m below) (by simp)) hown
    obtain ⟨left, hvisit, hleft⟩ := hbelow.visited hidsBelow
      (hsorted.sublist List.filter_sublist) hothers fun x hx p hp hid => by
        rcases List.mem_append.mp hx with hx | hx
        · obtain ⟨q, hq, hid'⟩ := hrest.parent_of_mem_lower x hx
          exact hapart p.id (List.mem_map_of_mem hp) q.id (List.mem_map_of_mem hq)
            (hid.symm.trans hid')
        · exact (hextra x hx).2 p (.inl hp) hid
    obtain ⟨left', hvisit', hleft'⟩ := hrest.visited hidsRest
      (hsorted.sublist (hvisit.sublist.trans List.filter_sublist)) hleft
      fun x hx p hp => (hextra x hx).2 p (.inr hp)
    exact ⟨left', .cons (hchildren ▸ hvisit) hvisit', hleft'⟩

/-- Visits of the same menus with the same pool come to the same. -/
theorem Visited.unique {ms pool left left' : List Menu} {trees trees' : List MenuTree}
    (h : Visited ms pool trees left) (h' : Visited ms pool trees' left') :
    trees = trees' ∧ left = left' := by
  induction h generalizing trees' left' with
  | nil =>
    cases h'
    exact ⟨rfl, rfl⟩
  | cons _ _ ihbelow ihrest =>
    cases h' with
    | cons hbelow hrest =>
      obtain ⟨rfl, rfl⟩ := ihbelow hbelow
      obtain ⟨rfl, rfl⟩ := ihrest hrest
      exact ⟨rfl, rfl⟩

/-- A forest as assembly makes it of menus whose parents are all there. -/
structure Standing (trees : List MenuTree) : Prop where
  ids : ((menusOf trees).map Menu.id).Nodup
  rows : ((menusOf trees).map Menu.rowId).Nodup
  named : ∀ m ∈ menusOf trees, m.id ≠ ""
  tops : ∀ t ∈ trees, t.menu.parentId = ""
  hung : Hung trees
  sorted : (trees.map menu).Pairwise Menu.Precedes

/-- Assembly gives a standing forest back from its menus, in whatever order they come. -/
theorem Standing.forest_eq (h : Standing trees) {menus : List Menu}
    (hmenus : menus.Perm (menusOf trees)) : forest menus = trees := by
  have hsorted : (Menu.inOrder menus).Pairwise Menu.Precedes :=
    Menu.inOrder_pairwise ((hmenus.map _).nodup_iff.mpr h.rows)
  have hsplit : (Menu.inOrder menus).Perm (trees.map menu ++ lower trees) :=
    (List.mergeSort_perm _ _).trans (hmenus.trans (menusOf_perm_lower trees))
  obtain ⟨htops, hlower⟩ := filter_perm_of_split (!hangs menus ·) hsplit
    (fun x hx => by
      obtain ⟨t, ht, rfl⟩ := List.mem_map.mp hx
      have htop : t.menu.IsTop menus := .inl (h.tops t ht)
      rw [Bool.not_eq_true', ← Bool.not_eq_true, hangs_iff, not_not]
      exact htop)
    (fun x hx => by
      obtain ⟨p, hp, hid⟩ := h.hung.parent_of_mem_lower x hx
      have hnot : ¬x.IsTop menus := by
        rintro (hempty | hgone)
        · exact h.named p hp (hid ▸ hempty)
        · exact hgone (hid ▸ List.mem_map_of_mem (hmenus.mem_iff.mpr hp))
      rw [Bool.not_eq_false', hangs_iff]
      exact hnot)
  simp only [Bool.not_not] at hlower
  have htopMenus : topMenus menus = trees.map menu :=
    eq_of_precedes_perm (hsorted.sublist List.filter_sublist) h.sorted htops
  obtain ⟨left, hvisit⟩ := visited_forest menus
  obtain ⟨left', hvisit', -⟩ := h.hung.visited h.ids (hsorted.sublist List.filter_sublist)
    (hlower.trans (.of_eq (List.append_nil _).symm)) (fun _ hx => nomatch hx)
  exact (hvisit.unique (htopMenus ▸ hvisit')).1

/-! ## Ranked forests -/

mutual

/-- A tree with the siblings ranked at every depth. -/
def rankedTree : MenuTree → MenuTree
  | node m below => node m (ranked (·.menu.sequence) (rankedTrees below))

/-- The trees of a forest with the siblings ranked below their tops. -/
def rankedTrees : List MenuTree → List MenuTree
  | [] => []
  | t :: rest => rankedTree t :: rankedTrees rest

end

/-- A forest with the siblings ranked at every depth. -/
def rankedForest (trees : List MenuTree) : List MenuTree :=
  ranked (·.menu.sequence) (rankedTrees trees)

theorem rankedTrees_eq_map (trees : List MenuTree) : rankedTrees trees = trees.map rankedTree := by
  induction trees with
  | nil => rw [rankedTrees, List.map_nil]
  | cons t rest ih => rw [rankedTrees, List.map_cons, ih]

@[simp] theorem menu_rankedTree (t : MenuTree) : (rankedTree t).menu = t.menu := by
  cases t
  rw [rankedTree, menu, menu]

theorem children_rankedTree (t : MenuTree) :
    (rankedTree t).children = rankedForest t.children := by
  cases t
  rw [rankedTree, children, children, rankedForest]

/-- The tops of a ranked forest are the ranked tops. -/
theorem map_menu_rankedForest (trees : List MenuTree) :
    (rankedForest trees).map menu = ranked Menu.sequence (trees.map menu) := by
  have htops : (trees.map rankedTree).map menu = trees.map menu := by
    rw [List.map_map]
    exact List.map_congr_left fun t _ => menu_rankedTree t
  rw [rankedForest, rankedTrees_eq_map, map_ranked Menu.sequence (fun _ => rfl), htops]

theorem nodesOf_ranked (sequence : MenuTree → Int) (trees : List MenuTree) :
    (nodesOf (ranked sequence trees)).Perm (nodesOf trees) := by
  rw [nodesOf_eq_flatMap, nodesOf_eq_flatMap]
  exact (ranked_perm _ _).flatMap_right nodes

/-- Ranking keeps the nodes of a forest, each with its own children ranked. By recursion on the
forest: the trees below the first top, then the trees beside it. -/
theorem nodesOf_rankedTrees : ∀ trees : List MenuTree,
    (nodesOf (rankedTrees trees)).Perm ((nodesOf trees).map rankedTree)
  | [] => by simp [rankedTrees, nodesOf]
  | node m below :: rest => by
    rw [rankedTrees, rankedTree, nodesOf_cons, nodesOf_cons, List.map_cons, List.map_append,
      rankedTree]
    have hbelow := (nodesOf_ranked (·.menu.sequence) _).trans (nodesOf_rankedTrees below)
    exact (hbelow.append (nodesOf_rankedTrees rest)).cons _

theorem nodesOf_rankedForest (trees : List MenuTree) :
    (nodesOf (rankedForest trees)).Perm ((nodesOf trees).map rankedTree) :=
  (nodesOf_ranked _ _).trans (nodesOf_rankedTrees trees)

theorem menusOf_rankedForest (trees : List MenuTree) :
    (menusOf (rankedForest trees)).Perm (menusOf trees) := by
  refine ((nodesOf_rankedForest trees).map menu).trans (.of_eq ?_)
  rw [List.map_map]
  exact List.map_congr_left fun t _ => menu_rankedTree t

/-- Menus that have come one after the other are ranked in listing order. -/
theorem ranked_precedes {menus : List Menu} (h : menus.Pairwise (·.rowId < ·.rowId)) :
    (ranked Menu.sequence menus).Pairwise Menu.Precedes := ranked_pairwise h

/-- A ranked forest stands, if its menus have come one after the other from the top down and from
left to right and every child names the menu above it. -/
theorem Standing.of_ranked (hids : ((menusOf trees).map Menu.id).Nodup)
    (hrows : (menusOf trees).Pairwise (·.rowId < ·.rowId)) (hnamed : ∀ m ∈ menusOf trees, m.id ≠ "")
    (htops : ∀ t ∈ trees, t.menu.parentId = "")
    (hparents : ∀ t ∈ nodesOf trees, ∀ c ∈ t.children, c.menu.parentId = t.menu.id) :
    Standing (rankedForest trees) := by
  have hmenus := menusOf_rankedForest trees
  have hnode (t : MenuTree) (ht : t ∈ nodesOf (rankedForest trees)) :
      ∃ t₀ ∈ nodesOf trees, rankedTree t₀ = t :=
    List.mem_map.mp ((nodesOf_rankedForest trees).mem_iff.mp ht)
  have htop {trees₀ : List MenuTree} {c : MenuTree} (hc : c ∈ rankedForest trees₀) :
      ∃ c₀ ∈ trees₀, c₀.menu = c.menu := by
    have hmem : c.menu ∈ ranked Menu.sequence (trees₀.map menu) :=
      map_menu_rankedForest trees₀ ▸ List.mem_map_of_mem hc
    exact List.mem_map.mp ((ranked_perm _ _).mem_iff.mp hmem)
  have hdistinct : ((menusOf trees).map Menu.rowId).Nodup :=
    List.pairwise_map.mpr (hrows.imp fun h => by omega)
  refine ⟨(hmenus.map _).nodup_iff.mpr hids, (hmenus.map _).nodup_iff.mpr hdistinct,
    fun m hm => hnamed m (hmenus.mem_iff.mp hm), fun t ht => ?_, ⟨?_, ?_⟩, ?_⟩
  · obtain ⟨t₀, ht₀, hmenu⟩ := htop ht
    exact hmenu ▸ htops t₀ ht₀
  · intro t ht c hc
    obtain ⟨t₀, ht₀, rfl⟩ := hnode t ht
    rw [children_rankedTree] at hc
    obtain ⟨c₀, hc₀, hmenu⟩ := htop hc
    rw [← hmenu, menu_rankedTree]
    exact hparents t₀ ht₀ c₀ hc₀
  · intro t ht
    obtain ⟨t₀, ht₀, rfl⟩ := hnode t ht
    rw [children_rankedTree, map_menu_rankedForest]
    exact ranked_precedes (hrows.sublist
      ((map_menu_sublist _).trans (menusOf_children_sublist t₀ ht₀)))
  · rw [map_menu_rankedForest]
    exact ranked_precedes (hrows.sublist (map_menu_sublist trees))

end MenuTree

end AccessAdmin
