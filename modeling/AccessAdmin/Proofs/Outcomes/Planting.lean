import Mathlib.Algebra.GroupWithZero.Nat
import AccessAdmin.Proofs.Changes.Sound
import AccessAdmin.Proofs.ForestShapes
import AccessAdmin.Proofs.MenuRefusals
import AccessAdmin.Proofs.Outcomes.Insertions

/-!
# What becomes of a planted forest

A forest of seeds is planted menu by menu, from the top down and from left to right. It is refused
for the first seed that is not valid, and for nothing else. Otherwise the new rows make up trees of
the same shape, every child naming the menu above it.

* `MenuSeed.formsOf`: the descriptions in a forest of seeds, one for each node.
* `MenuTree.seedsOf`: the seeds that a forest would be planted from.
* `Store.Tables.Sown`: menus come in one after the other, each with what it owns.
* `Menus.plants`: the planting in its transaction.
* `Menus.plant_eq_plantStack`: the recursion on the forest is a loop over a stack of seeds.
-/

namespace AccessAdmin

open Service

/-! ## Seeds -/

namespace MenuSeed

mutual

/-- What a tree of seeds says of its menus, from the top down and from left to right. -/
def forms : MenuSeed → List MenuForm
  | node f children => f :: formsOf children

/-- What a forest of seeds says of its menus. -/
def formsOf : List MenuSeed → List MenuForm
  | [] => []
  | seed :: rest => forms seed ++ formsOf rest

end

@[simp] theorem formsOf_cons {f : MenuForm} {children rest : List MenuSeed} :
    formsOf (node f children :: rest) = f :: (formsOf children ++ formsOf rest) := by
  rw [formsOf, forms, List.cons_append]

end MenuSeed

/-- What a caller would say of a stored menu, apart from where it hangs. -/
def Menu.form (m : Menu) : MenuForm :=
  { name := m.name
    sequence := m.sequence
    icon := m.icon
    router := m.router
    hidden := m.hidden
    actions := m.actions.map fun a => ⟨a.code, a.name⟩
    resources := m.resources.map fun x => ⟨x.code, x.name, x.method, x.path⟩ }

namespace MenuTree

mutual

/-- The seed that a tree would be planted from. -/
def seed : MenuTree → MenuSeed
  | node m below => .node m.form (seedsOf below)

/-- The seeds that a forest would be planted from. -/
def seedsOf : List MenuTree → List MenuSeed
  | [] => []
  | t :: rest => seed t :: seedsOf rest

end

theorem seedsOf_eq_map (trees : List MenuTree) : seedsOf trees = trees.map seed := by
  induction trees with
  | nil => rw [seedsOf, List.map_nil]
  | cons t rest ih => rw [seedsOf, List.map_cons, ih]

end MenuTree

/-! ## Sowing menus -/

namespace Store.Tables

variable {env : Surroundings} {t t' t'' : Store.Tables} {ms ms' : List Menu}

/-- Menus come in one after the other, with the next id and the next row each, and with actions and
resources of their own. -/
inductive Sown (env : Surroundings) : Tables → List Menu → Tables → Prop
  | nil {t : Tables} : Sown env t [] t
  | cons {t t' : Tables} {m : Menu} {ms : List Menu} :
      m.id = env.idName .menu (t.created.menus + 1) → m.rowId = t.lastRowId + 1 →
      (∀ a ∈ m.actions, a.menuId = m.id) → (∀ x ∈ m.resources, x.menuId = m.id) →
      Sown env (t.withMenu m) ms t' → Sown env t (m :: ms) t'

namespace Sown

theorem append (h : Sown env t ms t') (h' : Sown env t' ms' t'') : Sown env t (ms ++ ms') t'' := by
  induction h with
  | nil => exact h'
  | cons hid hrow hactions hresources _ ih => exact .cons hid hrow hactions hresources (ih h')

theorem menus (h : Sown env t ms t') : t'.menus = t.menus ++ ms.map Menu.bare := by
  induction h with
  | nil => simp
  | cons _ _ _ _ _ ih => simp [ih, withMenu]

theorem actions (h : Sown env t ms t') :
    t'.menuActions = t.menuActions ++ ms.flatMap Menu.actions := by
  induction h with
  | nil => simp
  | cons _ _ _ _ _ ih => simp [ih, withMenu]

theorem resources (h : Sown env t ms t') :
    t'.menuResources = t.menuResources ++ ms.flatMap Menu.resources := by
  induction h with
  | nil => simp
  | cons _ _ _ _ _ ih => simp [ih, withMenu]

/-- What a menu that came in owns is its own. -/
theorem owned (h : Sown env t ms t') : ∀ m ∈ ms,
    (∀ a ∈ m.actions, a.menuId = m.id) ∧ ∀ x ∈ m.resources, x.menuId = m.id := by
  induction h with
  | nil => exact fun _ hm => nomatch hm
  | cons _ _ hactions hresources _ ih => exact List.forall_mem_cons.mpr ⟨⟨hactions, hresources⟩, ih⟩

/-- The rows are numbered in the order in which they came in. -/
theorem rows (h : Sown env t ms t') :
    ms.Pairwise (·.rowId < ·.rowId) ∧ ∀ m ∈ ms, t.lastRowId < m.rowId := by
  induction h with
  | nil => exact ⟨.nil, fun _ hm => nomatch hm⟩
  | @cons t t' m ms _ hrow _ _ _ ih =>
    obtain ⟨hrows, hlater⟩ := ih
    simp only [withMenu] at hlater
    refine ⟨List.pairwise_cons.mpr ⟨fun x hx => ?_, hrows⟩, List.forall_mem_cons.mpr ⟨?_, ?_⟩⟩
    · have := hlater x hx
      omega
    · omega
    · intro x hx
      have := hlater x hx
      omega

/-- Every id is one of those that were to come. -/
theorem named (h : Sown env t ms t') :
    ∀ m ∈ ms, ∃ n, t.created.menus < n ∧ m.id = env.idName .menu n := by
  induction h with
  | nil => exact fun _ hm => nomatch hm
  | cons hid _ _ _ _ ih =>
    refine List.forall_mem_cons.mpr ⟨⟨_, Nat.lt_succ_self _, hid⟩, fun x hx => ?_⟩
    obtain ⟨n, hn, hx⟩ := ih x hx
    exact ⟨n, Nat.lt_of_succ_lt hn, hx⟩

end Sown

theorem menuIds_withMenu {m : Menu} {id : String} (hactions : ∀ a ∈ m.actions, a.menuId = m.id)
    (hresources : ∀ x ∈ m.resources, x.menuId = m.id) (h : id ∈ (t.withMenu m).menuIds) :
    id ∈ t.menuIds ∨ id = m.id := by
  by_contra hnot
  obtain ⟨hold, hne⟩ := not_or.mp hnot
  obtain ⟨hmenus, hacts, hress⟩ := not_mem_menuIds.mp hold
  refine not_mem_menuIds.mpr ⟨?_, ?_, ?_⟩ h
  all_goals
    simp only [withMenu, List.mem_append, List.mem_singleton]
    rintro x (hx | hx)
  · exact hmenus x hx
  · rw [hx]
    exact fun he => hne he.symm
  · exact hacts x hx
  · rw [hactions x hx]
    exact fun he => hne he.symm
  · exact hress x hx
  · rw [hresources x hx]
    exact fun he => hne he.symm

/-- The ids to come stay fresh while menus come in. -/
theorem Sown.freshFor (h : Sown env t ms t') (hf : env.FreshFor t.menuIds t) :
    env.FreshFor t'.menuIds t' := by
  induction h with
  | nil => exact hf
  | @cons t t' m ms hid _ hactions hresources _ ih =>
    refine ih (hf.grow (fun kind => ?_) fun id hmem => ?_)
    · cases kind with
      | menu => exact Nat.le_succ _
      | role | user => exact Nat.le_refl _
    · refine (menuIds_withMenu hactions hresources hmem).imp_right ?_
      rintro rfl
      exact ⟨.menu, _, Nat.lt_succ_self _, Nat.le_refl _, hid.symm⟩

/-- The menus that came in have different ids, none of which was in use. -/
theorem Sown.distinct (h : Sown env t ms t') (hf : env.FreshFor t.menuIds t) :
    (ms.map Menu.id).Nodup ∧ ∀ m ∈ ms, m.id ≠ "" ∧ m.id ∉ t.menuIds := by
  constructor
  · induction h with
    | nil => exact .nil
    | @cons t t' m ms hid hrow hactions hresources hrest ih =>
      have hstep : Sown env t [m] (t.withMenu m) := .cons hid hrow hactions hresources .nil
      refine List.nodup_cons.mpr ⟨fun hmem => ?_, ih (hstep.freshFor hf)⟩
      obtain ⟨x, hx, hsame⟩ := List.mem_map.mp hmem
      obtain ⟨n, hn, hname⟩ := hrest.named x hx
      have hlow : t.created.menus < n := Nat.lt_of_succ_lt hn
      rw [hname, hid] at hsame
      obtain ⟨-, rfl⟩ := hf.distinct .menu n .menu _ hlow (Nat.lt_succ_self _) hsame
      exact Nat.lt_irrefl _ hn
  · intro m hm
    obtain ⟨n, hn, hname⟩ := h.named m hm
    rw [hname]
    exact ⟨hf.nonempty .menu n hn, hf.unused .menu n hn⟩

end Store.Tables

/-! ## Planting -/

namespace Menus

open Store.Tables (Sown)

variable {env : Surroundings} {s : Session} {d d' : Desk} {t t' : Store.Tables}

theorem validate_outcome {f : MenuForm} {r : Except ServiceError Unit}
    (h : (validate f).run.Ends env s.id d r d') :
    (f.Valid ∧ r = .ok () ∧ d' = d) ∨ ¬f.Valid ∧ ∃ text, r = .error (.validation text) := by
  unfold validate at h
  cases hf : fault? f with
  | none =>
    rw [hf] at h
    exact .inl ⟨fault?_eq_none_iff.mp hf, ends_pure.mp h⟩
  | some text =>
    rw [hf] at h
    refine .inr ⟨fun hvalid => ?_, text, h.1⟩
    rw [fault?_eq_none_iff.mpr hvalid] at hf
    cases hf

/-- There is a place below a menu that came in, and below one that was there before. -/
theorem pathFor_sown {ms : List Menu} (h : Sown env t ms t') {parentId : String}
    (hplace : (∃ path, pathFor t parentId = .ok path) ∨ parentId ∈ ms.map Menu.id) :
    ∃ path, pathFor t' parentId = .ok path := by
  by_cases hroot : parentId.isEmpty = true
  · exact ⟨_, if_pos hroot⟩
  · have hthere : ∃ p ∈ t'.menus, p.id = parentId := by
      rw [h.menus]
      simp only [List.mem_append, List.mem_map]
      rcases hplace with ⟨path, hpath⟩ | hnew
      · obtain ⟨hempty, -⟩ | ⟨-, p, hp, hid, -⟩ := pathFor_eq_ok hpath
        · exact absurd (String.isEmpty_iff.mpr hempty) hroot
        · exact ⟨p, .inl hp, hid⟩
      · obtain ⟨m, hm, hid⟩ := List.mem_map.mp hnew
        exact ⟨m.bare, .inr ⟨m, hm, rfl⟩, hid⟩
    unfold pathFor
    rw [if_neg hroot]
    cases hfound : t'.menus.find? (·.id == parentId) with
    | some p => exact ⟨_, rfl⟩
    | none =>
      obtain ⟨p, hp, hid⟩ := hthere
      exact absurd hid (Store.Tables.find_row_eq_none.mp hfound p hp)

/-- A valid seed comes in below a parent that is there. -/
theorem insert_seed {actor parentId : String} {f : MenuForm} {r : Except ServiceError Menu}
    (hvalid : f.Valid) (hfresh : env.FreshFor d.tables.menuIds d.tables)
    (hplace : ∃ path, pathFor d.tables parentId = .ok path)
    (h : (insert s actor (f.under parentId)).run.Ends env s.id d r d') :
    ∃ m, r = .ok m ∧ Sown env d.tables [m] d'.tables ∧ m.form = f ∧ m.parentId = parentId := by
  have hnew := hfresh.unused .menu _ (Nat.lt_succ_self _)
  obtain ⟨e, hnone, -⟩ | ⟨path, now, -, hr, rfl⟩ :=
    (surely_insert (fault?_eq_none_iff.mpr hvalid) hnew).ends h
  · obtain ⟨path, hpath⟩ := hplace
    cases hpath.symm.trans hnone
  · refine ⟨_, hr, .cons rfl rfl (fun a ha => ?_) (fun x hx => ?_) .nil, ?_, rfl⟩
    · exact owner_actionsFor ha
    · exact owner_resourcesFor hx
    · simp [inserted, Menu.form, MenuForm.under, MenuForm.actionsFor, MenuForm.resourcesFor,
        Function.comp_def]

/-- Trees that have come in from seeds below a parent. -/
structure Sprung (env : Surroundings) (t : Store.Tables) (parentId : String)
    (forest : List MenuSeed) (trees : List MenuTree) (t' : Store.Tables) : Prop where
  seeds : MenuTree.seedsOf trees = forest
  sown : Sown env t (MenuTree.menusOf trees) t'
  tops : ∀ tree ∈ trees, tree.menu.parentId = parentId
  parents : ∀ tree ∈ MenuTree.nodesOf trees, ∀ c ∈ tree.children, c.menu.parentId = tree.menu.id

theorem Sprung.nil {parentId : String} : Sprung env t parentId [] [] t where
  seeds := by rw [MenuTree.seedsOf]
  sown := by
    rw [MenuTree.menusOf_nil]
    exact .nil
  tops _ h := nomatch h
  parents _ h := by simp [MenuTree.nodesOf] at h

theorem Sprung.cons {m : Menu} {parentId : String} {children rest : List MenuSeed}
    {below beside : List MenuTree} {t₁ t₂ t₃ : Store.Tables} (hm : Sown env t [m] t₁)
    (hparent : m.parentId = parentId) (hbelow : Sprung env t₁ m.id children below t₂)
    (hbeside : Sprung env t₂ parentId rest beside t₃) :
    Sprung env t parentId (.node m.form children :: rest) (.node m below :: beside) t₃ where
  seeds := by rw [MenuTree.seedsOf, MenuTree.seed, hbelow.seeds, hbeside.seeds]
  sown := by
    rw [MenuTree.menusOf_cons]
    exact hm.append (hbelow.sown.append hbeside.sown)
  tops := List.forall_mem_cons.mpr ⟨hparent, hbeside.tops⟩
  parents := by
    simp only [MenuTree.nodesOf_cons, List.mem_cons, List.mem_append]
    rintro tree (rfl | htree | htree)
    · exact hbelow.tops
    · exact hbelow.parents tree htree
    · exact hbeside.parents tree htree

/-- How the planting of a forest ends: refused for a seed that is not valid, or with all of it
planted. -/
def Fared (env : Surroundings) (forest : List MenuSeed) (parentId : String) (t : Store.Tables)
    (r : Except ServiceError Nat) (t' : Store.Tables) : Prop :=
  ((∃ f ∈ MenuSeed.formsOf forest, ¬f.Valid) ∧ ∃ text, r = .error (.validation text)) ∨
    (∀ f ∈ MenuSeed.formsOf forest, f.Valid) ∧ r = .ok (MenuSeed.formsOf forest).length ∧
      ∃ trees, Sprung env t parentId forest trees t'

theorem Fared.of_error {forest : List MenuSeed} {parentId : String} {e : ServiceError}
    (h : Fared env forest parentId t (.error e) t') :
    (∃ f ∈ MenuSeed.formsOf forest, ¬f.Valid) ∧ ∃ text, e = .validation text := by
  obtain ⟨hinvalid, text, he⟩ | ⟨-, he, -⟩ := h
  · exact ⟨hinvalid, text, Except.error.inj he⟩
  · cases he

theorem Fared.of_ok {forest : List MenuSeed} {parentId : String} {n : Nat}
    (h : Fared env forest parentId t (.ok n) t') :
    (∀ f ∈ MenuSeed.formsOf forest, f.Valid) ∧ n = (MenuSeed.formsOf forest).length ∧
      ∃ trees, Sprung env t parentId forest trees t' := by
  obtain ⟨-, _, hn⟩ | ⟨hvalid, hn, hsprung⟩ := h
  · cases hn
  · exact ⟨hvalid, Except.ok.inj hn, hsprung⟩

/-- Wherever there is a place for a forest, its planting ends with it planted or refused. -/
def Plants (env : Surroundings) (s : Session) (actor : String) (forest : List MenuSeed) : Prop :=
  ∀ {parentId : String} {d d' : Desk} {r : Except ServiceError Nat},
    env.FreshFor d.tables.menuIds d.tables → (∃ path, pathFor d.tables parentId = .ok path) →
    (plant s actor parentId forest).run.Ends env s.id d r d' →
    Fared env forest parentId d.tables r d'.tables

theorem plants_nil {actor : String} : Plants env s actor [] := by
  intro parentId d d' r _ _ h
  rw [plant] at h
  obtain ⟨rfl, rfl⟩ := ends_pure.mp h
  rw [Fared, MenuSeed.formsOf]
  exact .inr ⟨List.forall_mem_nil _, rfl, [], .nil⟩

/-- A seed is planted before its children, and these before the seeds beside it. -/
theorem plants_cons {actor : String} {form : MenuForm} {children rest : List MenuSeed}
    (hchildren : Plants env s actor children) (hrest : Plants env s actor rest) :
    Plants env s actor (.node form children :: rest) := by
  intro parentId d d' r hfresh hplace h
  rw [plant] at h
  simp only [Fared, MenuSeed.formsOf_cons, List.mem_cons, List.mem_append, List.length_cons,
    List.length_append]
  -- At each step the refusal comes first; the seed that it is for is in this part of the forest.
  obtain ⟨e, hcheck, rfl⟩ | ⟨_, d₁, hcheck, h₁⟩ := (ends_seq.mp h).symm
  · obtain ⟨-, hr, -⟩ | ⟨hinvalid, text, hr⟩ := validate_outcome hcheck
    · cases hr
    · obtain rfl := Except.error.inj hr
      exact .inl ⟨⟨form, .inl rfl, hinvalid⟩, text, rfl⟩
  obtain ⟨-, _, hr⟩ | ⟨hvalid, -, rfl⟩ := (validate_outcome hcheck).symm
  · cases hr
  obtain ⟨e, hinsert, -⟩ | ⟨m, d₂, hinsert, h₂⟩ := (ends_seq.mp h₁).symm
  · obtain ⟨_, hr, -⟩ := insert_seed hvalid hfresh hplace hinsert
    cases hr
  obtain ⟨_, hr, hm, rfl, hparent⟩ := insert_seed hvalid hfresh hplace hinsert
  obtain rfl := Except.ok.inj hr
  have hfresh₂ := hm.freshFor hfresh
  have hplace₂ : ∃ path, pathFor d₂.tables m.id = .ok path := pathFor_sown hm (.inr (.head _))
  obtain ⟨e, hbelow, rfl⟩ | ⟨_, d₃, hbelow, h₃⟩ := (ends_seq.mp h₂).symm
  · obtain ⟨⟨f, hf, hinvalid⟩, text, rfl⟩ := (hchildren hfresh₂ hplace₂ hbelow).of_error
    exact .inl ⟨⟨f, .inr (.inl hf), hinvalid⟩, text, rfl⟩
  obtain ⟨hvalid₂, rfl, below, hsprung⟩ := (hchildren hfresh₂ hplace₂ hbelow).of_ok
  have hfresh₃ := hsprung.sown.freshFor hfresh₂
  have hplace₃ := pathFor_sown (hm.append hsprung.sown) (.inl hplace)
  obtain ⟨e, hbeside, rfl⟩ | ⟨_, d₄, hbeside, h₄⟩ := (ends_seq.mp h₃).symm
  · obtain ⟨⟨f, hf, hinvalid⟩, text, rfl⟩ := (hrest hfresh₃ hplace₃ hbeside).of_error
    exact .inl ⟨⟨f, .inr (.inr hf), hinvalid⟩, text, rfl⟩
  obtain ⟨hvalid₃, rfl, beside, hsprung'⟩ := (hrest hfresh₃ hplace₃ hbeside).of_ok
  obtain ⟨rfl, rfl⟩ := ends_pure.mp h₄
  refine .inr ⟨?_, ?_, _, .cons hm hparent hsprung hsprung'⟩
  · rintro f (rfl | hf | hf)
    · exact hvalid
    · exact hvalid₂ f hf
    · exact hvalid₃ f hf
  · congr 1
    omega

/-- A forest is planted in its transaction as a whole, or refused for a seed that is not valid. By
recursion on the forest: the children of the first seed, then the seeds beside it. -/
theorem plants {actor : String} : ∀ forest : List MenuSeed, Plants env s actor forest
  | [] => plants_nil
  | .node _ children :: rest => plants_cons (plants children) (plants rest)

/-! ## Planting from a stack -/

/-- How many seeds there are in the trees of a stack. -/
def stacked (stack : List (String × MenuSeed)) : Nat :=
  (stack.map fun p => p.2.forms.length).sum

theorem stacked_children (id : String) (children : List MenuSeed) :
    stacked (children.map (id, ·)) = (MenuSeed.formsOf children).length := by
  induction children with
  | nil => rw [MenuSeed.formsOf]; rfl
  | cons seed rest ih =>
    rw [MenuSeed.formsOf, List.length_append, ← ih]
    rfl

/-- Plants the seeds of a stack, each below the parent that stands beside it: the children of the
one on top take its place. -/
def plantStack (s : Session) (actor : String) (created : Nat) :
    List (String × MenuSeed) → Service Nat
  | [] => pure created
  | (parentId, .node form children) :: rest => do
    validate form
    let menu ← insert s actor (form.under parentId)
    plantStack s actor (created + 1) (children.map (menu.id, ·) ++ rest)
termination_by stack => stacked stack
decreasing_by
  have hchildren : children.attach.map (fun x => (menu.id, x.1)) = children.map (menu.id, ·) := by
    simp
  have hsum (stack : List (String × MenuSeed)) :
      stacked (stack ++ rest) = stacked stack + stacked rest := by
    simp [stacked]
  rw [hsum, hchildren, stacked_children]
  simp [stacked, MenuSeed.forms]

/-- Planting by recursion on the forest does what a loop over a stack of seeds does, with the same
steps in the same order. -/
theorem plantStack_eq (s : Session) (actor : String) : ∀ (forest : List MenuSeed) (parentId : String)
    (created : Nat) (rest : List (String × MenuSeed)),
    plantStack s actor created (forest.map (parentId, ·) ++ rest) =
      plant s actor parentId forest >>= fun n => plantStack s actor (created + n) rest
  | [], parentId, created, rest => by
    rw [plant, pure_bind]
    rfl
  | .node form children :: beside, parentId, created, rest => by
    rw [plant, List.map_cons, List.cons_append, plantStack]
    simp only [bind_assoc, pure_bind]
    refine bind_congr fun _ => bind_congr fun menu => ?_
    rw [plantStack_eq]
    refine bind_congr fun below => ?_
    rw [plantStack_eq]
    refine bind_congr fun n => ?_
    rw [show created + 1 + below + n = created + (1 + below + n) by omega]

/-- Planting a forest is the loop over the stack of its trees. -/
theorem plant_eq_plantStack (actor parentId : String) (forest : List MenuSeed) :
    plant s actor parentId forest = plantStack s actor 0 (forest.map (parentId, ·)) := by
  have h := plantStack_eq s actor forest parentId 0 []
  simp only [List.append_nil, Nat.zero_add, plantStack, bind_pure] at h
  exact h.symm

end Menus

end AccessAdmin
