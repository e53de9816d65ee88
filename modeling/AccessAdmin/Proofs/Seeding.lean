import AccessAdmin.Proofs.Outcomes.Planting
import AccessAdmin.Proofs.Outcomes.Readings
import AccessAdmin.Proofs.Sequences

/-!
# Seeding reproduces the document

A forest of seeds that is planted into an empty table is read back as it was, but for the order of
siblings: the higher sequence stands first, and on a tie the later seed. The trees are taken apart
by the planting and put together from ids and row numbers; both go through the forest in the same
way, so no seed gets lost and none comes elsewhere.

* `MenuSeed.rankedForest`: a forest of seeds in the order in which it is read back.
* `Menus.comes_seed`: what becomes of a seeding.
* `seed_reproduced`: the seeding, and the tree after it.
-/

namespace AccessAdmin

open Service

/-! ## The order of the seeds -/

namespace MenuSeed

mutual

/-- A seed with the siblings ranked at every depth. -/
def rankedTree : MenuSeed → MenuSeed
  | node f children => node f (ranked (·.form.sequence) (rankedTrees children))

/-- The seeds of a forest with the siblings ranked below their tops. -/
def rankedTrees : List MenuSeed → List MenuSeed
  | [] => []
  | seed :: rest => rankedTree seed :: rankedTrees rest

end

/-- A forest of seeds with siblings by descending sequence, the later ones first on a tie. -/
def rankedForest (seeds : List MenuSeed) : List MenuSeed :=
  ranked (·.form.sequence) (rankedTrees seeds)

end MenuSeed

namespace MenuTree

theorem sequence_seed (t : MenuTree) : t.seed.form.sequence = t.menu.sequence := by
  cases t
  rw [seed, menu]
  rfl

theorem seedsOf_ranked (trees : List MenuTree) :
    seedsOf (ranked (·.menu.sequence) trees) = ranked (·.form.sequence) (seedsOf trees) := by
  rw [seedsOf_eq_map, seedsOf_eq_map]
  exact map_ranked (fun s : MenuSeed => s.form.sequence) sequence_seed trees

/-- Ranking the siblings of a forest ranks those of its seeds. By recursion on the forest: the trees
below the first top, then the trees beside it. -/
theorem seedsOf_rankedTrees : ∀ trees : List MenuTree,
    seedsOf (rankedTrees trees) = MenuSeed.rankedTrees (seedsOf trees)
  | [] => by rw [rankedTrees, seedsOf, MenuSeed.rankedTrees]
  | node m below :: rest => by
    rw [rankedTrees, rankedTree, seedsOf, seed, seedsOf_ranked, seedsOf_rankedTrees below,
      seedsOf_rankedTrees rest, seedsOf, seed, MenuSeed.rankedTrees, MenuSeed.rankedTree]

theorem seedsOf_rankedForest (trees : List MenuTree) :
    seedsOf (rankedForest trees) = MenuSeed.rankedForest (seedsOf trees) := by
  rw [rankedForest, seedsOf_ranked, seedsOf_rankedTrees, MenuSeed.rankedForest]

end MenuTree

/-! ## Reading a planted forest -/

/-- Of what some menus own, the rows of one of them are what it owns. -/
theorem filter_owned {α : Type} {owner : α → String} {rowsOf : Menu → List α} {ms : List Menu}
    (hids : (ms.map Menu.id).Nodup) (hown : ∀ m ∈ ms, ∀ x ∈ rowsOf m, owner x = m.id) {m : Menu}
    (hm : m ∈ ms) : (ms.flatMap rowsOf).filter (owner · == m.id) = rowsOf m := by
  induction ms with
  | nil => cases hm
  | cons y rest ih =>
    obtain ⟨hy, hrest⟩ := List.nodup_cons.mp hids
    obtain ⟨hfirst, hothers⟩ := List.forall_mem_cons.mp hown
    rw [List.flatMap_cons, List.filter_append]
    rcases List.mem_cons.mp hm with rfl | hm
    · have hall : (rowsOf m).filter (owner · == m.id) = rowsOf m :=
        List.filter_eq_self.mpr fun x hx => beq_iff_eq.mpr (hfirst x hx)
      have hnone : (rest.flatMap rowsOf).filter (owner · == m.id) = [] := by
        refine List.filter_eq_nil_iff.mpr fun x hx hsame => hy ?_
        obtain ⟨z, hz, hx⟩ := List.mem_flatMap.mp hx
        rw [← beq_iff_eq.mp hsame, hothers z hz x hx]
        exact List.mem_map_of_mem hz
      rw [hall, hnone, List.append_nil]
    · have hnone : (rowsOf y).filter (owner · == m.id) = [] := by
        refine List.filter_eq_nil_iff.mpr fun x hx hsame => hy ?_
        rw [← hfirst x hx, beq_iff_eq.mp hsame]
        exact List.mem_map_of_mem hm
      rw [hnone, List.nil_append, ih hrest hothers hm]

namespace Menus

open Store.Tables (Sown)

variable {env : Surroundings} {t t' : Store.Tables} {ms : List Menu} {options : ListingOptions}

/-- Menus that came in are read back with what they brought. -/
theorem attached_sown (h : Sown env t ms t') (hf : env.FreshFor t.menuIds t)
    (hactions : options.actions = true) (hresources : options.resources = true) :
    (ms.map Menu.bare).map (attached t' options) = ms := by
  obtain ⟨hids, hnew⟩ := h.distinct hf
  rw [List.map_map]
  refine (List.map_congr_left fun m hm => ?_).trans (List.map_id ms)
  obtain ⟨-, hnoActions, hnoResources⟩ := Store.Tables.not_mem_menuIds.mp (hnew m hm).2
  have hacts : t'.menuActions.filter (·.menuId == m.id) = m.actions := by
    rw [h.actions, List.filter_append,
      List.filter_eq_nil_iff.mpr fun a ha => by simp [hnoActions a ha], List.nil_append]
    exact filter_owned hids (fun m hm => (h.owned m hm).1) hm
  have hress : t'.menuResources.filter (·.menuId == m.id) = m.resources := by
    rw [h.resources, List.filter_append,
      List.filter_eq_nil_iff.mpr fun x hx => by simp [hnoResources x hx], List.nil_append]
    exact filter_owned hids (fun m hm => (h.owned m hm).2) hm
  show attached t' options m.bare = m
  simp only [attached, Menu.bare, hactions, hresources, ↓reduceIte, hacts, hress]

theorem mem_matchingMenus_all (t : Store.Tables) : (t.matchingMenus {}).Perm t.menus := by
  have hall : t.menus.filter (MenuFilter.admits {}) = t.menus :=
    List.filter_eq_self.mpr fun _ _ => rfl
  rw [Store.Tables.matchingMenus, hall]
  exact List.mergeSort_perm _ _

/-- The forest of what has sprung from seeds in an empty table. -/
theorem Sprung.forest_eq {forest : List MenuSeed} {trees : List MenuTree}
    (h : Sprung env t "" forest trees t') (hf : env.FreshFor t.menuIds t) (hempty : t.menus = [])
    (hactions : options.actions = true) (hresources : options.resources = true) :
    MenuTree.seedsOf (MenuTree.forest ((t'.matchingMenus {}).map (attached t' options))) =
      MenuSeed.rankedForest forest := by
  obtain ⟨hids, hnew⟩ := h.sown.distinct hf
  have hstanding : MenuTree.Standing (MenuTree.rankedForest trees) :=
    .of_ranked hids h.sown.rows.1 (fun m hm => (hnew m hm).1) h.tops h.parents
  have hmenus : ((t'.matchingMenus {}).map (attached t' options)).Perm (MenuTree.menusOf trees) := by
    rw [← attached_sown h.sown hf hactions hresources]
    refine ((mem_matchingMenus_all t').map _).trans (.of_eq ?_)
    rw [h.sown.menus, hempty, List.nil_append]
  rw [hstanding.forest_eq (hmenus.trans (MenuTree.menusOf_rankedForest trees).symm),
    MenuTree.seedsOf_rankedForest, h.seeds]

/-! ## Seeding -/

variable (env) in
/-- A seeding finds menus and plants none, is refused for a seed that is not valid, or plants the
whole forest. -/
theorem comes_seed (ctx : Context) (forest : List MenuSeed) :
    Comes env (seed ctx forest) fun d r d' => env.FreshFor d.tables.menuIds d.tables →
      (d.tables.menus ≠ [] ∧ r = .ok 0 ∧ d' = d) ∨
      d.tables.menus = [] ∧
        (((∃ f ∈ MenuSeed.formsOf forest, ¬f.Valid) ∧ (∃ text, r = .error (.validation text)) ∧
          d' = d) ∨
        (∀ f ∈ MenuSeed.formsOf forest, f.Valid) ∧ r = .ok (MenuSeed.formsOf forest).length ∧
          ∃ trees, Sprung env d.tables "" forest trees d'.tables) := by
  refine Comes.session fun s => ?_
  refine (comes_transaction ctx (works_seeding (s := s) ctx.actor forest)).mono ?_
  have hseeding {d d' : Desk} {r : Except ServiceError Nat}
      (h : (seeding s ctx.actor forest).run.Ends env s.id d r d') :
      (d.tables.menus ≠ [] ∧ r = .ok 0 ∧ d' = d) ∨
        d.tables.menus = [] ∧ (plant s ctx.actor "" forest).run.Ends env s.id d r d' := by
    have hcount : ((d.tables.ask (.queryMenus {} (some ⟨1, 1⟩))).page.map PageInfo.total).getD 0 =
        d.tables.menus.length := (mem_matchingMenus_all d.tables).length_eq
    replace h := Session.ends_ask_then.mp h
    simp only [hcount] at h
    split at h
    · rename_i hpos
      exact .inl ⟨List.ne_nil_of_length_pos hpos, ends_pure.mp h⟩
    · rename_i hnone
      exact .inr ⟨List.length_eq_zero_iff.mp (by omega), h⟩
  rintro d r d' (⟨e, d₁, hends, rfl, rfl⟩ | ⟨n, hends, hengine, rfl⟩) hf
  · obtain ⟨-, hr, -⟩ | ⟨hempty, hplant⟩ := hseeding hends
    · cases hr
    · obtain ⟨hinvalid, text, rfl⟩ := (plants forest hf ⟨_, rfl⟩ hplant).of_error
      exact .inr ⟨hempty, .inl ⟨hinvalid, ⟨text, rfl⟩, rfl⟩⟩
  · obtain h | ⟨hempty, hplant⟩ := hseeding hends
    · exact .inl h
    · obtain ⟨hvalid, rfl, hsprung⟩ := (plants forest hf ⟨_, rfl⟩ hplant).of_ok
      exact .inr ⟨hempty, .inr ⟨hvalid, rfl, hsprung⟩⟩

end Menus

/-- A seeding leaves a table with menus as it is; it is refused for a seed that is not valid, and
then changes nothing; otherwise it answers how many seeds there are, and the tree that is read
afterwards shows the forest of seeds itself, with siblings by descending sequence and the later ones
first on a tie. -/
theorem seed_reproduced {env : Surroundings} {w : World MemoryStore} (hi : w.Idle)
    (hf : env.FreshFor w.tables.menuIds w.tables) (ctx : Context) (forest : List MenuSeed) :
    ∃ r w', World.run env (Menus.seed ctx forest).run { w with faults := [] } = (some r, w') ∧
      (w.tables.menus ≠ [] → r = .ok 0 ∧ w'.desk = w.desk) ∧
      (w.tables.menus = [] → (∃ f ∈ MenuSeed.formsOf forest, ¬f.Valid) →
        (∃ text, r = .error (.validation text)) ∧ w'.desk = w.desk) ∧
      (w.tables.menus = [] → (∀ f ∈ MenuSeed.formsOf forest, f.Valid) →
        r = .ok (MenuSeed.formsOf forest).length ∧
        ∀ (env' : Surroundings) (ctx' : Context) (options : ListingOptions),
          options.actions = true → options.resources = true → ∃ trees w'',
            World.run env' (Menus.tree ctx' {} options).run w' = (some (.ok trees), w'') ∧
            MenuTree.seedsOf trees = MenuSeed.rankedForest forest) := by
  obtain ⟨r, w', hrun, hclean, hidle, hcame⟩ :=
    Menus.comes_seed env ctx forest { w with faults := [] } rfl hi
  refine ⟨r, w', hrun, ?_⟩
  obtain ⟨hstored, hr, hdesk⟩ | ⟨hempty, ⟨hinvalid, hr, hdesk⟩ | ⟨hvalid, hr, trees, hsprung⟩⟩ :=
    hcame hf
  · exact ⟨fun _ => ⟨hr, hdesk⟩, fun h => absurd h hstored, fun h => absurd h hstored⟩
  · refine ⟨fun h => absurd hempty h, fun _ _ => ⟨hr, hdesk⟩, fun _ hvalid => ?_⟩
    obtain ⟨f, hmem, hnot⟩ := hinvalid
    exact absurd (hvalid f hmem) hnot
  · refine ⟨fun h => absurd hempty h, fun _ ⟨f, hmem, hnot⟩ => absurd (hvalid f hmem) hnot,
      fun _ _ => ⟨hr, fun env' ctx' options hactions hresources => ?_⟩⟩
    obtain ⟨r', w'', hrun', -, -, htree⟩ := Menus.comes_tree env' ctx' {} options w' hclean hidle
    have hids : (w'.desk.tables.menus.map Menu.id).Nodup := by
      have hmenus := hsprung.sown.menus
      rw [show World.desk { w with faults := [] } = w.desk from rfl] at hmenus
      rw [hmenus, show w.desk.tables.menus = [] from hempty, List.nil_append, List.map_map]
      exact (hsprung.sown.distinct hf).1
    obtain ⟨-, rfl⟩ := htree hids
    exact ⟨_, w'', hrun', hsprung.forest_eq hf hempty hactions hresources⟩

namespace Sample

/-- Orders with two menus below, the second one ranked before the first, and stock beside them. -/
def garden : List MenuSeed :=
  [ .node { name := "Orders", resources := [⟨"read", "Read", "GET", "/orders"⟩] }
      [.node { name := "Archive", actions := [⟨"sort", "Sort"⟩] } [],
        .node { name := "Open", sequence := 5 } []],
    .node { name := "Stock" } [] ]

end Sample

/-- Seeding the sample into an empty store plants its four menus, and the tree shows them. -/
theorem sample_seeded : ∃ w', World.run Sample.env (Menus.seed {} Sample.garden).run
      { store := ({} : MemoryStore), faults := [] } = (some (.ok 4), w') ∧
    ∃ trees w'', World.run Sample.env (Menus.tree {} {} .everything).run w' =
      (some (.ok trees), w'') ∧ MenuTree.seedsOf trees = MenuSeed.rankedForest Sample.garden := by
  let blank : World MemoryStore := { store := {} }
  have hfresh : Sample.env.FreshFor blank.tables.menuIds blank.tables :=
    have hnamed : Sample.naming.Covers blank.tables.menuIds blank.tables := fun _ h => nomatch h
    .of_named rfl hnamed
  have hfaultless : ∀ f ∈ MenuSeed.formsOf Sample.garden, Menus.fault? f = none := by
    decide +kernel
  obtain ⟨r, w', hrun, -, -, hplanted⟩ := seed_reproduced (w := blank) rfl hfresh {} Sample.garden
  obtain ⟨rfl, htree⟩ :=
    hplanted rfl fun f hf => Menus.fault?_eq_none_iff.mp (hfaultless f hf)
  exact ⟨w', hrun, htree Sample.env {} .everything rfl rfl⟩

end AccessAdmin
