import Mathlib.Data.List.Nodup
import Mathlib.Data.Fintype.Card
import Mathlib.Data.Set.Finite.List
import Mathlib.Logic.Relation
import Mathlib.Order.WellFounded
import AccessAdmin.Menu.Forest

/-!
# What the forest of a listing holds

A listing is any list of menus: parents may be missing from it, and the parent links may go round in
circles. Assembly takes each menu that names a parent out of a pool when that parent is visited, so
what it comes to rests on what is left of the pool.

* `listing_pairwise`, `listing_eq_of_perm`: rows with different numbers are listed in one way only.
* `MenuTree.Visited`: a visit without the count of its steps.
* `Menu.rooted_of_not_caught`, `Menu.Rooted.not_caught`: going up from parent to parent ends at a
  top menu, or else runs into a circle.
* `MenuTree.forest_assembled`: the forest holds the menus from which the way up ends, each once and
  below its parent, with all siblings in listing order.
-/

namespace AccessAdmin

open Relation

/-! ## Sorting rows -/

/-- Comparing two pairs of numbers. -/
theorem compare_then_ne_gt_iff {a b c d : Int} :
    ((compare a b).then (compare c d) != .gt) = true ↔ a < b ∨ a = b ∧ c ≤ d := by
  simp only [compare, compareOfLessAndEq]
  split <;> split <;> try split
  all_goals simp [Ordering.then]
  all_goals omega

section Sorting

variable {α : Type} {rank rowId : α → Int} {before : α → α → Bool} {xs ys : List α}

/-- In a listing by rank and then by number, rows with different numbers are strictly ordered. -/
theorem listing_pairwise
    (hbefore : ∀ a b, before a b = true ↔
      rank b < rank a ∨ rank b = rank a ∧ rowId b ≤ rowId a) (hrows : (xs.map rowId).Nodup) :
    (xs.mergeSort before).Pairwise fun a b =>
      rank b < rank a ∨ rank b = rank a ∧ rowId b < rowId a := by
  have hsorted : (xs.mergeSort before).Pairwise fun a b => before a b = true := by
    refine List.pairwise_mergeSort (fun a b c => ?_) (fun a b => ?_) xs
    · simp only [hbefore]
      omega
    · simp only [Bool.or_eq_true, hbefore]
      omega
  have hdistinct : (xs.mergeSort before).Pairwise fun a b => rowId a ≠ rowId b :=
    List.pairwise_map.mp (((List.mergeSort_perm xs before).map rowId).nodup_iff.mpr hrows)
  refine (hsorted.and hdistinct).imp fun {a b} h => ?_
  have hab := (hbefore a b).mp h.1
  have hne := h.2
  omega

/-- The listing does not depend on the order in which the rows are found. -/
theorem listing_eq_of_perm
    (hbefore : ∀ a b, before a b = true ↔
      rank b < rank a ∨ rank b = rank a ∧ rowId b ≤ rowId a) (hrows : (xs.map rowId).Nodup)
    (h : xs.Perm ys) : xs.mergeSort before = ys.mergeSort before := by
  refine List.Perm.eq_of_pairwise (fun a b _ _ hab hba => ?_) (listing_pairwise hbefore hrows)
    (listing_pairwise hbefore ((h.map rowId).nodup_iff.mp hrows)) ?_
  · omega
  · exact (List.mergeSort_perm _ _).trans (h.trans (List.mergeSort_perm _ _).symm)

end Sorting

/-! ## The order of a listing -/

namespace Menu

variable {a b : Menu} {menus menus' : List Menu}

/-- The higher sequence first, on a tie the newer row. -/
def Precedes (a b : Menu) : Prop :=
  b.sequence < a.sequence ∨ (b.sequence = a.sequence ∧ b.rowId < a.rowId)

theorem listedBefore_iff : listedBefore a b = true ↔
    b.sequence < a.sequence ∨ (b.sequence = a.sequence ∧ b.rowId ≤ a.rowId) := by
  unfold listedBefore siblingOrder
  exact compare_then_ne_gt_iff

/-- The listing order puts any two menus with different rows in one way. -/
theorem inOrder_pairwise (hrows : (menus.map rowId).Nodup) : (inOrder menus).Pairwise Precedes :=
  listing_pairwise (fun _ _ => listedBefore_iff) hrows

/-- Lists with the same menus have the same listing. -/
theorem inOrder_eq_of_perm (hrows : (menus.map rowId).Nodup) (h : menus.Perm menus') :
    inOrder menus = inOrder menus' :=
  listing_eq_of_perm (fun _ _ => listedBefore_iff) hrows h

/-! ## The way up -/

/-- In a list of menus, a menu names another one of them as its parent. -/
def HangsFrom (menus : List Menu) (m p : Menu) : Prop :=
  p ∈ menus ∧ m.parentId ≠ "" ∧ m.parentId = p.id

/-- A menu names no parent, or one that is not in the list. -/
def IsTop (menus : List Menu) (m : Menu) : Prop :=
  m.parentId = "" ∨ m.parentId ∉ menus.map Menu.id

/-- The way up from a menu ends at a top menu. -/
def Rooted (menus : List Menu) (m : Menu) : Prop :=
  ∃ top, ReflTransGen (HangsFrom menus) m top ∧ IsTop menus top

/-- The way up from a menu comes to one that is above itself. -/
def Caught (menus : List Menu) (m : Menu) : Prop :=
  ∃ c, ReflTransGen (HangsFrom menus) m c ∧ TransGen (HangsFrom menus) c c

theorem isTop_iff {m : Menu} : IsTop menus m ↔ ∀ p, ¬HangsFrom menus m p := by
  constructor
  · rintro (hempty | hgone) p ⟨hp, hne, hid⟩
    · exact hne hempty
    · exact hgone (hid ▸ List.mem_map_of_mem hp)
  · intro h
    by_cases hempty : m.parentId = ""
    · exact .inl hempty
    · refine .inr fun hmem => ?_
      obtain ⟨p, hp, hid⟩ := List.mem_map.mp hmem
      exact h p ⟨hp, hempty, hid.symm⟩

/-- With distinct ids a menu hangs from one other menu only. -/
theorem hangsFrom_unique (hids : (menus.map Menu.id).Nodup) :
    Relator.RightUnique (HangsFrom menus) := by
  rintro m p q ⟨hp, -, hpid⟩ ⟨hq, -, hqid⟩
  exact List.inj_on_of_nodup_map hids hp hq (hpid.symm.trans hqid)

/-- There is nothing above a top menu. -/
theorem IsTop.not_above {top c : Menu} (h : IsTop menus top) :
    ¬TransGen (HangsFrom menus) top c := by
  intro habove
  obtain ⟨p, hp, -⟩ := TransGen.head'_iff.mp habove
  exact isTop_iff.mp h p hp

/-- What is above a menu of a circle is on the circle too. -/
theorem above_circle (hids : (menus.map Menu.id).Nodup) {c x : Menu}
    (hc : TransGen (HangsFrom menus) c c) (hx : ReflTransGen (HangsFrom menus) c x) :
    TransGen (HangsFrom menus) x x := by
  induction hx with
  | refl => exact hc
  | @tail x y _ hxy ih =>
    -- The circle leaves `x` by its only step up, which is the one to `y`.
    obtain ⟨z, hxz, hzx⟩ := TransGen.head'_iff.mp ih
    obtain rfl := hangsFrom_unique hids hxy hxz
    exact TransGen.tail' hzx hxy

/-- A way up that ends runs into no circle. -/
theorem Rooted.not_caught (hids : (menus.map Menu.id).Nodup) {m : Menu} (h : Rooted menus m) :
    ¬Caught menus m := by
  rintro ⟨c, hmc, hcircle⟩
  obtain ⟨top, hup, htop⟩ := h
  rcases ReflTransGen.total_of_right_unique (hangsFrom_unique hids) hup hmc with h | h
  · exact htop.not_above (hcircle.trans_right h)
  · exact htop.not_above (above_circle hids hcircle h)

/-- A way up without a circle ends: what is above the menu is finite and has an order, so there is
something with nothing above it. -/
theorem rooted_of_not_caught {m : Menu} (hm : m ∈ menus) (h : ¬Caught menus m) :
    Rooted menus m := by
  let Above := {x // x ∈ menus ∧ ReflTransGen (HangsFrom menus) m x}
  let higher (a b : Above) : Prop := TransGen (HangsFrom menus) b.1 a.1
  have : Finite Above := (menus.finite_toSet.subset fun _ hx => hx.1).to_subtype
  have : IsTrans Above higher := ⟨fun _ _ _ hab hbc => hbc.trans hab⟩
  have : Std.Irrefl higher := ⟨fun x hx => h ⟨x.1, x.2.2, hx⟩⟩
  have hwf : WellFounded higher := Finite.wellFounded_of_trans_of_irrefl higher
  obtain ⟨top, -, hhighest⟩ := hwf.has_min Set.univ ⟨⟨m, hm, .refl⟩, trivial⟩
  refine ⟨top.1, top.2.2, isTop_iff.mpr fun p hp => ?_⟩
  exact hhighest ⟨p, hp.1, top.2.2.tail hp⟩ trivial (.single hp)

end Menu

namespace MenuTree

/-! ## The trees of a forest -/

mutual

/-- A tree and every tree below it, from the top down. -/
def nodes : MenuTree → List MenuTree
  | node m below => node m below :: nodesOf below

/-- Every tree of a forest, from the top down and from left to right. -/
def nodesOf : List MenuTree → List MenuTree
  | [] => []
  | t :: rest => nodes t ++ nodesOf rest

end

/-- The menus of a forest, from the top down and from left to right. -/
def menusOf (trees : List MenuTree) : List Menu := (nodesOf trees).map menu

variable {m : Menu} {below trees : List MenuTree}

@[simp] theorem nodesOf_cons : nodesOf (node m below :: trees) =
    node m below :: (nodesOf below ++ nodesOf trees) := by
  rw [nodesOf, nodes, List.cons_append]

@[simp] theorem menusOf_nil : menusOf [] = [] := by
  rw [menusOf, nodesOf, List.map_nil]

@[simp] theorem menusOf_cons :
    menusOf (node m below :: trees) = m :: (menusOf below ++ menusOf trees) := by
  simp [menusOf, menu]

/-- The tops of a forest are among its menus. -/
theorem menu_mem_menusOf {t : MenuTree} (h : t ∈ trees) : t.menu ∈ menusOf trees := by
  induction trees with
  | nil => cases h
  | cons t' trees ih =>
    obtain ⟨m', below'⟩ := t'
    rw [menusOf_cons]
    rcases List.mem_cons.mp h with rfl | h
    · exact .head _
    · exact .tail _ (List.mem_append_right _ (ih h))

/-! ## Visits -/

/-- What a visit of some menus with a pool comes to: their trees, and what is left of the pool. -/
inductive Visited : List Menu → List Menu → List MenuTree → List Menu → Prop
  | nil {pool : List Menu} : Visited [] pool [] pool
  | cons {m : Menu} {rest pool left left' : List Menu} {below trees : List MenuTree} :
      Visited (pool.filter (·.parentId == m.id)) (pool.filter (·.parentId != m.id)) below left →
      Visited rest left trees left' → Visited (m :: rest) pool (node m below :: trees) left'

namespace Visited

variable {ms pool left : List Menu} {trees : List MenuTree}

theorem sublist (h : Visited ms pool trees left) : left.Sublist pool := by
  induction h with
  | nil => exact List.Sublist.refl _
  | cons _ _ ihbelow ihrest => exact (ihrest.trans ihbelow).trans List.filter_sublist

/-- As many steps as there are menus suffice for a visit. -/
theorem of_steps {steps : Nat} (h : ms.length + pool.length ≤ steps) :
    Visited ms pool (visit steps ms pool).1 (visit steps ms pool).2 := by
  induction steps generalizing ms pool with
  | zero =>
    cases ms with
    | nil => exact .nil
    | cons m rest => simp at h
  | succ steps ih =>
    cases ms with
    | nil => exact .nil
    | cons m rest =>
      have hsplit : (pool.filter (·.parentId == m.id)).length +
          (pool.filter (·.parentId != m.id)).length = pool.length := by
        rw [← List.length_append]
        exact (List.filter_append_perm (·.parentId == m.id) pool).length_eq
      have henough : (pool.filter (·.parentId == m.id)).length +
          (pool.filter (·.parentId != m.id)).length ≤ steps := by
        simp at h
        omega
      have hbelow := ih henough
      have hleft := hbelow.sublist.length_le
      exact .cons hbelow (ih (by simp at h; omega))

/-- The trees of a visit stand for the visited menus in their order. -/
theorem map_menu (h : Visited ms pool trees left) : trees.map menu = ms := by
  induction h with
  | nil => rfl
  | cons _ _ _ ihrest => rw [List.map_cons, ihrest, menu]

/-- Nothing is lost and nothing doubled between the trees and the pool. -/
theorem perm (h : Visited ms pool trees left) : (menusOf trees ++ left).Perm (ms ++ pool) := by
  induction h with
  | nil => simp
  | @cons m rest pool left left' below trees _ _ ihbelow ihrest =>
    rw [menusOf_cons, List.cons_append, List.cons_append, List.append_assoc]
    refine List.Perm.cons m ?_
    have hbelow : (menusOf below ++ left).Perm pool :=
      ihbelow.trans (List.filter_append_perm (·.parentId == m.id) pool)
    calc (menusOf below ++ (menusOf trees ++ left')).Perm (menusOf below ++ (rest ++ left)) :=
          ihrest.append_left _
      List.Perm _ (rest ++ (menusOf below ++ left)) := List.perm_append_comm_assoc _ _ _
      List.Perm _ (rest ++ pool) := hbelow.append_left _

/-- The children in a tree are those that some part of the pool has for its menu. -/
theorem children (h : Visited ms pool trees left) : ∀ t ∈ nodesOf trees,
    ∃ part : List Menu, part.Sublist pool ∧
      t.children.map menu = part.filter (·.parentId == t.menu.id) := by
  induction h with
  | nil => simp [nodesOf]
  | @cons m rest pool left left' below trees hbelow _ ihbelow ihrest =>
    intro t ht
    rw [nodesOf_cons, List.mem_cons, List.mem_append] at ht
    obtain rfl | ht | ht := ht
    · exact ⟨pool, List.Sublist.refl _, hbelow.map_menu⟩
    · obtain ⟨part, hpart, hchildren⟩ := ihbelow t ht
      exact ⟨part, hpart.trans List.filter_sublist, hchildren⟩
    · obtain ⟨part, hpart, hchildren⟩ := ihrest t ht
      exact ⟨part, (hpart.trans hbelow.sublist).trans List.filter_sublist, hchildren⟩

/-- What is left of the pool hangs from none of the visited menus. -/
theorem left_apart (h : Visited ms pool trees left) :
    ∀ x ∈ left, ∀ m ∈ menusOf trees, x.parentId ≠ m.id := by
  induction h with
  | nil => simp
  | @cons m rest pool left left' below trees hbelow hrest ihbelow ihrest =>
    intro x hx m' hm'
    have hxleft : x ∈ left := hrest.sublist.subset hx
    rw [menusOf_cons, List.mem_cons, List.mem_append] at hm'
    obtain rfl | hm' | hm' := hm'
    · have hxpool := List.mem_filter.mp (hbelow.sublist.subset hxleft)
      exact bne_iff_ne.mp hxpool.2
    · exact ihbelow x hxleft m' hm'
    · exact ihrest x hx m' hm'

/-- A visit of menus from which the way up ends comes to such menus only. -/
theorem rooted {menus : List Menu} (h : Visited ms pool trees left)
    (hms : ∀ m ∈ ms, m ∈ menus ∧ m.Rooted menus)
    (hpool : ∀ x ∈ pool, x ∈ menus ∧ x.parentId ≠ "") :
    ∀ m ∈ menusOf trees, m ∈ menus ∧ m.Rooted menus := by
  induction h with
  | nil => simp
  | @cons m rest pool left left' below trees hbelow _ ihbelow ihrest =>
    obtain ⟨⟨hm, top, hup, htop⟩, hrest⟩ := List.forall_mem_cons.mp hms
    have hown : ∀ x ∈ pool.filter (·.parentId == m.id), x ∈ menus ∧ x.Rooted menus := by
      intro x hx
      obtain ⟨hx, hparent⟩ := List.mem_filter.mp hx
      obtain ⟨hxmem, hne⟩ := hpool x hx
      exact ⟨hxmem, top, .head ⟨hm, hne, beq_iff_eq.mp hparent⟩ hup, htop⟩
    have hothers : ∀ x ∈ pool.filter (·.parentId != m.id), x ∈ menus ∧ x.parentId ≠ "" :=
      fun x hx => hpool x (List.mem_filter.mp hx).1
    intro m' hm'
    rw [menusOf_cons, List.mem_cons, List.mem_append] at hm'
    obtain rfl | hm' | hm' := hm'
    · exact ⟨hm, top, hup, htop⟩
    · exact ihbelow hown hothers m' hm'
    · exact ihrest hrest (fun x hx => hothers x (hbelow.sublist.subset hx)) m' hm'

end Visited

/-! ## The forest -/

section Forest

variable (menus : List Menu)

/-- Whether a menu hangs from one of the list. -/
def hangs (m : Menu) : Bool := !m.isRoot && (Menu.inOrder menus).any (·.id == m.parentId)

/-- The top menus of a list in listing order. -/
def topMenus : List Menu := (Menu.inOrder menus).filter (!hangs menus ·)

/-- The other menus of a list in listing order. -/
def hanging : List Menu := (Menu.inOrder menus).filter (hangs menus)

variable {menus}

theorem hangs_iff {m : Menu} : hangs menus m = true ↔ ¬m.IsTop menus := by
  simp only [hangs, Menu.isRoot, Menu.IsTop, Menu.inOrder, Bool.and_eq_true, Bool.not_eq_true',
    List.any_eq_true, List.mem_mergeSort, List.mem_map, beq_iff_eq, not_or, not_not]
  exact and_congr_left fun _ => by simp

theorem mem_topMenus {m : Menu} : m ∈ topMenus menus ↔ m ∈ menus ∧ m.IsTop menus := by
  rw [topMenus, List.mem_filter, Menu.inOrder, List.mem_mergeSort, Bool.not_eq_true',
    ← Bool.not_eq_true, hangs_iff, not_not]

theorem mem_hanging {m : Menu} : m ∈ hanging menus ↔ m ∈ menus ∧ ¬m.IsTop menus := by
  rw [hanging, List.mem_filter, Menu.inOrder, List.mem_mergeSort, hangs_iff]

theorem topMenus_append_hanging : (topMenus menus ++ hanging menus).Perm menus :=
  (List.perm_append_comm.trans (List.filter_append_perm (hangs menus) _)).trans
    (List.mergeSort_perm _ _)

/-- The forest is a visit of the top menus with all others in the pool. -/
theorem visited_forest (menus : List Menu) :
    ∃ left, Visited (topMenus menus) (hanging menus) (forest menus) left := by
  have henough : (topMenus menus).length + (hanging menus).length ≤ menus.length + 1 := by
    rw [← List.length_append, topMenus_append_hanging.length_eq]
    omega
  exact ⟨_, Visited.of_steps henough⟩

/-- The forest holds exactly the menus from which the way up ends. -/
theorem mem_menusOf_forest {m : Menu} :
    m ∈ menusOf (forest menus) ↔ m ∈ menus ∧ m.Rooted menus := by
  obtain ⟨left, h⟩ := visited_forest menus
  constructor
  · refine h.rooted (fun x hx => ?_) (fun x hx => ?_) m
    · obtain ⟨hx, htop⟩ := mem_topMenus.mp hx
      exact ⟨hx, x, .refl, htop⟩
    · obtain ⟨hx, hnot⟩ := mem_hanging.mp hx
      exact ⟨hx, fun hempty => hnot (.inl hempty)⟩
  · rintro ⟨hm, top, hup, htop⟩
    -- By induction from the top menu down: a menu in the forest has taken out what hangs from it.
    induction hup using ReflTransGen.head_induction_on with
    | refl =>
      have hmem : top ∈ (forest menus).map menu := h.map_menu ▸ mem_topMenus.mpr ⟨hm, htop⟩
      obtain ⟨t, ht, rfl⟩ := List.mem_map.mp hmem
      exact menu_mem_menusOf ht
    | @head m p hmp _ ih =>
      have hmem : m ∈ menusOf (forest menus) ++ left :=
        (h.perm.trans topMenus_append_hanging).mem_iff.mpr hm
      rcases List.mem_append.mp hmem with hthere | hleft
      · exact hthere
      · exact absurd hmp.2.2 (h.left_apart m hleft p (ih hmp.1))

/-- What assembly is to make of a list of menus. -/
structure Assembled (menus : List Menu) (trees : List MenuTree) : Prop where
  /-- On top are the menus that name no parent, or one that is not in the list. -/
  tops : ∀ m, m ∈ trees.map menu ↔ m ∈ menus ∧ m.IsTop menus
  /-- Everywhere in the forest the children of a menu name it as their parent. -/
  parents : ∀ t ∈ nodesOf trees, ∀ c ∈ t.children, c.menu.parentId = t.menu.id
  /-- No menu is there twice. -/
  once : (menusOf trees).Nodup
  /-- The menus from which the way up ends are there, and no others. -/
  holds : ∀ m, m ∈ menusOf trees ↔ m ∈ menus ∧ m.Rooted menus
  /-- Missing are the menus in or below a circle of parents. -/
  misses : ∀ m ∈ menus, m ∉ menusOf trees ↔ m.Caught menus
  /-- The tops are in listing order. -/
  sorted : (trees.map menu).Pairwise Menu.Precedes
  /-- The children of every menu are in listing order. -/
  sortedBelow : ∀ t ∈ nodesOf trees, (t.children.map menu).Pairwise Menu.Precedes

/-- Assembly loses no menu whose way up ends, doubles none, leaves out those in or below a circle,
keeps all siblings in listing order, and does not depend on the order of the list. -/
theorem forest_assembled (hids : (menus.map Menu.id).Nodup)
    (hrows : (menus.map Menu.rowId).Nodup) : Assembled menus (forest menus) ∧
      ∀ menus' : List Menu, menus'.Perm menus → forest menus' = forest menus := by
  obtain ⟨left, h⟩ := visited_forest menus
  have hsorted := Menu.inOrder_pairwise hrows
  have hall : (menusOf (forest menus) ++ left).Perm menus := h.perm.trans topMenus_append_hanging
  constructor
  · exact
      { tops := fun m => by rw [h.map_menu, mem_topMenus]
        parents := by
          intro t ht c hc
          obtain ⟨part, -, hchildren⟩ := h.children t ht
          have hmem : c.menu ∈ part.filter (·.parentId == t.menu.id) :=
            hchildren ▸ List.mem_map_of_mem hc
          exact beq_iff_eq.mp (List.mem_filter.mp hmem).2
        once := (List.nodup_append.mp (hall.nodup_iff.mpr (List.Nodup.of_map _ hids))).1
        holds := fun m => mem_menusOf_forest
        misses := by
          intro m hm
          rw [mem_menusOf_forest, and_iff_right hm]
          constructor
          · intro hnot
            by_contra hfree
            exact hnot (Menu.rooted_of_not_caught hm hfree)
          · intro hcaught hrooted
            exact hrooted.not_caught hids hcaught
        sorted := by
          rw [h.map_menu]
          exact hsorted.sublist List.filter_sublist
        sortedBelow := by
          intro t ht
          obtain ⟨part, hpart, hchildren⟩ := h.children t ht
          rw [hchildren]
          exact hsorted.sublist
            (List.filter_sublist.trans (hpart.trans List.filter_sublist)) }
  · intro menus' hsame
    have hrows' : (menus'.map Menu.rowId).Nodup := (hsame.map Menu.rowId).nodup_iff.mpr hrows
    simp only [forest, Menu.inOrder_eq_of_perm hrows' hsame, hsame.length_eq]

end Forest

end MenuTree

/-! ## A sample -/

namespace Sample

/-- A menu of a listing. -/
def entry (id parentId : String) (sequence rowId : Int) : Menu :=
  ⟨id, id, sequence, "", "", false, parentId, .root, "", ⟨0, 0⟩, ⟨0, 0⟩, rowId, [], []⟩

/-- A root with two children and a grandchild, an orphan, two menus that are above each other, and
one below these. -/
def entries : List Menu :=
  [entry "a" "" 0 1, entry "a1" "a" 0 2, entry "a2" "a" 5 3, entry "a11" "a1" 0 4,
    entry "x" "gone" 9 5, entry "c" "d" 0 6, entry "d" "c" 0 7, entry "e" "d" 0 8]

end Sample

/-- The sample has no id and no row id twice, so it is assembled, in whatever order it comes. -/
theorem sample_assembled : (Sample.entries.map Menu.id).Nodup ∧
    (Sample.entries.map Menu.rowId).Nodup ∧
    MenuTree.Assembled Sample.entries (MenuTree.forest Sample.entries) ∧
    ∀ menus' : List Menu, menus'.Perm Sample.entries →
      MenuTree.forest menus' = MenuTree.forest Sample.entries := by
  have hids : (Sample.entries.map Menu.id).Nodup := by decide
  have hrows : (Sample.entries.map Menu.rowId).Nodup := by decide
  exact ⟨hids, hrows, MenuTree.forest_assembled hids hrows⟩

end AccessAdmin
