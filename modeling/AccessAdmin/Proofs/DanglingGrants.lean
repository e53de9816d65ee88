import AccessAdmin.Proofs.Changes.Keys
import AccessAdmin.Proofs.Outcomes.Readings
import AccessAdmin.Proofs.Projecting.Agreement

/-!
# Grants of deleted menus

Every menu that a role is granted is stored when the grant is made. A deletion of a menu keeps the
grants that name it, and such a grant stands in the way later: the role cannot be saved any more as
it was read. While no menu is deleted that some role grants, every role can.

* `Store.Tables.Grounded`: every grant names a stored menu.
* `Mutation.Changes.grounded`: which mutations keep it so.
* `Reached.resaved`: what becomes of a role that is saved as it was read.
* `Tended.saved_as_read`: it is saved, unless a menu was deleted while some role granted it.
* `grant_outlives_menu`: a grant that is left over, and what follows.
-/

namespace AccessAdmin

/-! ## Grants of stored menus -/

/-- Every grant names a stored menu. -/
def Store.Tables.Grounded (t : Store.Tables) : Prop :=
  ∀ g ∈ t.roleMenus, g.menuId ∈ t.menus.map Menu.id

section Grounded

variable {env : Surroundings} {t t' : Store.Tables}

/-- More menus and fewer grants. -/
theorem Store.Tables.Grounded.mono (h : t.Grounded)
    (hmenus : t.menus.map Menu.id ⊆ t'.menus.map Menu.id) (hgrants : t'.roleMenus ⊆ t.roleMenus) :
    t'.Grounded := fun g hg => hmenus (h g (hgrants hg))

/-- Changes that have to do with neither menus nor grants. -/
theorem Store.Tables.Grounded.frame (h : t.Grounded) (hmenus : t'.menus = t.menus)
    (hgrants : t'.roleMenus = t.roleMenus) : t'.Grounded :=
  h.mono (by rw [hmenus]; exact List.Subset.refl _) (by rw [hgrants]; exact List.Subset.refl _)

theorem Menus.Added.grounded {input : MenuInput} {row : Menu} (h : t.Grounded)
    (ha : Added env input t row t') : t'.Grounded := by
  rw [ha.tables]
  refine h.mono ?_ (List.Subset.refl _)
  rw [List.map_append]
  exact List.subset_append_left _ _

theorem Menus.Grown.grounded (h : t.Grounded) (hg : Grown env t t') : t'.Grounded := by
  induction hg with
  | refl => exact h
  | tail _ hstep ih =>
    obtain ⟨_, _, -, hadded⟩ := hstep
    exact hadded.grounded ih

/-- A removed menu leaves the grants that name it. -/
theorem Menus.Removed.grounded_iff {id : String} (h : t.Grounded) (hr : Removed id t t') :
    t'.Grounded ↔ t.granting id = [] := by
  rw [Store.Tables.granting, List.map_eq_nil_iff, List.filter_eq_nil_iff, hr.tables]
  constructor
  · intro hgrounded g hg hid
    obtain ⟨m, hm, hmid⟩ := List.mem_map.mp (hgrounded g hg)
    exact bne_iff_ne.mp (List.mem_filter.mp hm).2 (hmid.trans (beq_iff_eq.mp hid))
  · intro hnone g hg
    exact mem_map_filter_ne (h g hg) fun hid => hnone g hg (beq_iff_eq.mpr hid)

theorem mem_grantsFor {id : String} {input : RoleInput} {g : Grant}
    (hgranted : ∀ x ∈ input.grants, ∃ m ∈ t.menus, m.id = x.menuId) (hg : g ∈ input.grantsFor id) :
    g.menuId ∈ t.menus.map Menu.id := by
  obtain ⟨x, hx, rfl⟩ := List.mem_map.mp hg
  obtain ⟨m, hm, hid⟩ := hgranted x hx
  exact List.mem_map.mpr ⟨m, hm, hid⟩

theorem Roles.Added.grounded {input : RoleInput} {row : Role} (h : t.Grounded)
    (ha : Added env input t row t') : t'.Grounded := by
  rw [ha.tables]
  intro g hg
  rcases List.mem_append.mp hg with hg | hg
  · exact h g hg
  · exact mem_grantsFor ha.granted hg

theorem Roles.Updated.grounded {id : String} {input : RoleInput} (h : t.Grounded)
    (hu : Updated id input t t') : t'.Grounded := by
  intro g hg
  rw [hu.frame]
  rcases hu.grants.mem_or g hg with hg | hg
  · exact h g hg
  · exact mem_grantsFor hu.granted hg

/-- Whether a mutation spares the menus that some role grants. -/
def Mutation.spares (t : Store.Tables) : Mutation → Bool
  | deleteMenu id => (t.granting id).isEmpty
  | _ => true

/-- Only the deletion of a granted menu leaves a grant behind. -/
theorem Mutation.Changes.grounded {m : Mutation} {a : m.Result} (h : t.Grounded)
    (hspares : m.spares t = true) (hc : m.Changes env t a t') : t'.Grounded := by
  cases m with
  | createMenu _ =>
    obtain ⟨_, ha⟩ := hc
    exact ha.grounded h
  | updateMenu _ _ =>
    obtain ⟨_, _, hu⟩ := hc
    refine h.mono (hu.menu_ids ▸ List.Subset.refl _) ?_
    rw [hu.frame]
    exact List.Subset.refl _
  | deleteMenu _ => exact (Menus.Removed.grounded_iff h hc).mpr (List.isEmpty_iff.mp hspares)
  | seedMenus _ => exact Menus.Grown.grounded h hc
  | createRole _ =>
    obtain ⟨_, ha, -⟩ := hc
    exact ha.grounded h
  | updateRole _ _ => exact Roles.Updated.grounded h hc
  | deleteRole _ =>
    rw [hc.tables]
    exact h.mono (List.Subset.refl _) (List.filter_subset_self _)
  | createUser _ =>
    obtain ⟨_, ha, -⟩ := hc
    rw [ha.tables]
    exact h.frame rfl rfl
  | updateUser _ _ =>
    rw [hc.frame]
    exact h.frame rfl rfl
  | deleteUser _ =>
    rw [hc.tables]
    exact h.frame rfl rfl
  | updateStatus _ _ =>
    obtain ⟨-, rfl⟩ := hc
    exact h.frame rfl rfl
  | updatePassword _ _ | changeOwnPassword _ _ _ =>
    obtain ⟨_, -, rfl⟩ := hc
    exact h.frame rfl rfl

end Grounded

/-! ## Saving a role as it was read -/

/-- A role as a caller describes it who sends back what was read. -/
def Role.described (role : Role) : RoleInput where
  name := role.name
  sequence := role.sequence
  memo := role.memo
  grants := role.grants.map fun g => ⟨g.menuId, g.actions, g.resources⟩

/-- The first grant of a role that names no stored menu. -/
def Store.Tables.dangling? (t : Store.Tables) (roleId : String) : Option Grant :=
  (t.roleMenus.filter (·.roleId == roleId)).find? fun g => !t.menus.any (·.id == g.menuId)

theorem Store.Tables.Grounded.dangling_eq_none {t : Store.Tables} (h : t.Grounded)
    (roleId : String) : t.dangling? roleId = none := by
  refine List.find?_eq_none.mpr fun g hg hnone => ?_
  obtain ⟨m, hm, hid⟩ := List.mem_map.mp (h g (List.mem_filter.mp hg).1)
  rw [Bool.not_eq_true', List.any_eq_false] at hnone
  exact hnone m hm (beq_iff_eq.mpr hid)

namespace Roles

variable {root : String} {t : Store.Tables} {role : Role}

theorem find_stored (ht : t.Keyed root) (hr : role ∈ t.roles) :
    t.roles.find? (·.id == role.id) = some role :=
  Store.Tables.find_row_of_mem ht.roleIds hr

/-- What is stored was checked, so sent back it has no fault. -/
theorem fault?_described (ht : t.Keyed root) (hr : role ∈ t.roles) :
    fault? (withGrants t role).described = none := by
  have hname : Text.isAllBlank role.name = false := ht.roles.valid role hr
  have hkeys : ((t.roleMenus.filter (·.roleId == role.id)).map Grant.menuId).Nodup := by
    refine List.Nodup.of_map (fun id => (role.id, id)) ?_
    rw [List.map_map]
    refine (List.map_congr_left fun g hg => ?_) ▸
      ht.grants.distinct.sublist (List.filter_sublist.map fun g => (g.roleId, g.menuId))
    rw [Function.comp_apply, ← beq_iff_eq.mp (List.mem_filter.mp hg).2]
  have hdistinct : firstDuplicate ((withGrants t role).described.grants.map GrantInput.menuId) =
      none := by
    rw [firstDuplicate_eq_none, Role.described, List.map_map]
    exact hkeys
  have hcodes : ((withGrants t role).described.grants.findSome? fun g =>
      (Menus.firstUnstorable (g.actions ++ g.resources)).map fun code =>
        "invalid code " ++ Text.quoted code ++ " in grant on menu " ++ g.menuId) = none := by
    refine List.findSome?_eq_none_iff.mpr fun x hx => ?_
    obtain ⟨g, hg, rfl⟩ := List.mem_map.mp hx
    rw [Option.map_eq_none_iff]
    refine List.find?_eq_none.mpr fun c hc hbad => ?_
    rw [ht.grants.valid g (List.mem_filter.mp hg).1 c hc] at hbad
    cases hbad
  unfold fault?
  rw [hdistinct]
  show (if Text.isAllBlank role.name = true then _ else _) = none
  rw [hname]
  exact hcodes

/-- Saving a role as it was read is refused for a grant that names no stored menu, and for nothing
else. -/
theorem updateRefusal?_described (ht : t.Keyed root) (hr : role ∈ t.roles) :
    updateRefusal? t role.id (withGrants t role).described =
      (t.dangling? role.id).map fun g => .notFound s!"menu {g.menuId} not found" := by
  have hthere : t.roles.any (·.id == role.id) = true :=
    List.any_eq_true.mpr ⟨role, hr, BEq.refl role.id⟩
  have hfree : ¬(t.roles.any fun r =>
      r.name == (withGrants t role).described.name && some r.id != some role.id) = true := by
    rw [List.any_eq_true]
    rintro ⟨r, hmem, hsame⟩
    rw [Bool.and_eq_true, beq_iff_eq, bne_iff_ne] at hsame
    obtain rfl := List.inj_on_of_nodup_map ht.roles.distinct hmem hr hsame.1
    exact hsame.2 rfl
  simp only [updateRefusal?, fault?_described ht hr]
  rw [if_pos hthere, refusal?, if_neg hfree, Store.Tables.dangling?, Role.described, List.map_map,
    List.find?_map, Option.map_map]
  rfl

end Roles

theorem Roles.grantsFor_described (t : Store.Tables) (role : Role) :
    (withGrants t role).described.grantsFor role.id = t.roleMenus.filter (·.roleId == role.id) := by
  rw [RoleInput.grantsFor, Role.described, List.map_map]
  have hsame (g : Grant) (hg : g ∈ t.roleMenus.filter (·.roleId == role.id)) :
      (⟨role.id, g.menuId, g.actions, g.resources⟩ : Grant) = g := by
    rw [← beq_iff_eq.mp (List.mem_filter.mp hg).2]
  exact (List.map_congr_left hsame).trans (List.map_id _)

/-- In a world that undisturbed commands led to, a stored role is read with its grants, and saving
it as it was read is refused for the first of its grants that names no stored menu. If there is
none, it is saved, and the grants stay. -/
theorem Reached.resaved {root : String} {used : List String} {w : World MemoryStore}
    (h : Reached (fun q => q.faults = [] ∧ q.users.rootUsername = root) used w) {role : Role}
    (hr : role ∈ w.tables.roles) (env : Surroundings) (ctx ctx' : Context) :
    ∃ v answer v',
      World.run env (Roles.get ctx role.id .everything).run { w with faults := [] } =
        (some (.ok (Roles.withGrants w.tables role)), v) ∧
      World.run env (Roles.update ctx' role.id (Roles.withGrants w.tables role).described).run v =
        (some answer, v') ∧
      match w.tables.dangling? role.id with
      | none => (∃ saved, answer = .ok saved) ∧
          ∀ g, g ∈ v'.tables.roleMenus ↔ g ∈ w.tables.roleMenus
      | some g => answer = .error (.notFound s!"menu {g.menuId} not found") ∧ v'.desk = w.desk := by
  have hkeyed : w.tables.Keyed root := h.keyed fun q hq => hq.2
  have hcoherent : w.engine.Coherent := (h.mono fun q hq => hq.1).agrees.1
  obtain ⟨found, v, hget, hv, hi, hdesk, hfound⟩ :=
    Roles.comes_get env ctx role.id .everything rfl { w with faults := [] } rfl h.idle
  replace hdesk : v.desk = w.desk := hdesk
  have hfind : (World.desk { w with faults := [] }).tables.roles.find? (·.id == role.id) =
      some role := Roles.find_stored hkeyed hr
  rw [hfind] at hfound
  obtain rfl : found = .ok (Roles.withGrants w.tables role) := hfound
  obtain ⟨answer, v', hupdate, -, -, hout⟩ := Roles.comes_update env ctx' role.id
    (Roles.withGrants w.tables role).described v hv hi
  refine ⟨v, answer, v', hget, hupdate, ?_⟩
  rw [hdesk] at hout
  rw [show w.desk.tables = w.tables from rfl, Roles.updateRefusal?_described hkeyed hr] at hout
  obtain ⟨e, hrefused, rfl, hkept⟩ | ⟨haccepted, hfault, s, saved, hbody, hafter⟩ := hout
  · obtain ⟨g, hg, rfl⟩ := Option.map_eq_some_iff.mp hrefused
    rw [hg]
    exact ⟨rfl, hkept⟩
  · rw [Option.map_eq_none_iff.mp haccepted]
    obtain ⟨hid, hupdated⟩ : saved.id = role.id ∧ Roles.Updated role.id
        (Roles.withGrants w.tables role).described w.tables v'.tables :=
      Roles.ends_applyUpdate hfault hbody
    have hleads := (leads_return (fun _ => leads_project) hafter).1
    rw [hid] at hleads
    have hsound := Roles.Updated.sound h.sound hupdated
    refine ⟨(hleads.ok hsound (Roles.Updated.apt h.sound hupdated) hcoherent).1, fun g => ?_⟩
    rw [hupdated.grants.mem h.distinct.grants, Roles.grantsFor_described, List.mem_filter, beq_iff_eq, ← and_or_left]
    exact and_iff_left (em' _)

/-! ## Sequences that delete no granted menu -/

/-- A command leaves the tables as they are, or spares the menus that some role grants. -/
def Command.Spares (q : Command) (w : World MemoryStore) : Prop :=
  (q.run w).2.tables = w.tables ∨ q.mutation.spares w.tables = true

/-- The worlds that sequences of undisturbed commands lead to when none of them deletes a menu that
some role grants. -/
inductive Tended (root : String) : List String → World MemoryStore → Prop where
  | start {w : World MemoryStore} : w.store.shared = {} → w.engine = {} → Tended root [] w
  | step {used : List String} {w : World MemoryStore} (q : Command) : Tended root used w →
      q.faults = [] → q.users.rootUsername = root → q.env.FreshFor used w.tables → q.Spares w →
      Tended root ((q.run w).2.tables.ids ++ used) (q.run w).2

section Tended

variable {root : String} {used : List String} {w : World MemoryStore}

theorem Tended.reached (h : Tended root used w) :
    Reached (fun q => q.faults = [] ∧ q.users.rootUsername = root) used w := by
  induction h with
  | start hst he => exact .start hst he
  | step q _ hfaults hroot hf _ ih => exact .step q ih ⟨hfaults, hroot⟩ hf

/-- No grant is left behind. -/
theorem Tended.grounded (h : Tended root used w) : w.tables.Grounded := by
  induction h with
  | start hst _ =>
    rw [World.tables, hst]
    exact fun g hg => absurd hg List.not_mem_nil
  | step q htended _ _ _ hspares ih =>
    have hreached := htended.reached
    obtain htables | ⟨a, hchanges⟩ := q.tables_run hreached.idle hreached.sound
    · rwa [htables]
    · obtain htables | hspares := hspares
      · rwa [htables]
      · exact hchanges.grounded ih hspares

/-- While no menu is deleted that some role grants, every grant names a stored menu, and every
stored role can be saved as it was read. -/
theorem Tended.saved_as_read (h : Tended root used w) :
    w.tables.Grounded ∧
    ∀ role ∈ w.tables.roles, ∀ (env : Surroundings) (ctx ctx' : Context), ∃ v saved v',
      World.run env (Roles.get ctx role.id .everything).run { w with faults := [] } =
        (some (.ok (Roles.withGrants w.tables role)), v) ∧
      World.run env (Roles.update ctx' role.id (Roles.withGrants w.tables role).described).run v =
        (some (.ok saved), v') ∧
      ∀ g, g ∈ v'.tables.roleMenus ↔ g ∈ w.tables.roleMenus := by
  refine ⟨h.grounded, fun role hr env ctx ctx' => ?_⟩
  obtain ⟨v, _, v', hget, hupdate, hout⟩ := h.reached.resaved hr env ctx ctx'
  rw [h.grounded.dangling_eq_none role.id] at hout
  obtain ⟨⟨saved, rfl⟩, hgrants⟩ := hout
  exact ⟨v, saved, v', hget, hupdate, hgrants⟩

end Tended

/-- Whether commands that are served one after the other spare the menus that some role grants. -/
def sparing : List Command → World MemoryStore → Bool
  | [], _ => true
  | q :: qs, w => q.mutation.spares w.tables && sparing qs (q.run w).2

/-- Commands that take their ids from one naming and spare the granted menus. -/
theorem tended_serveAll {root : String} {names : Naming} {qs : List Command} {used : List String}
    {w : World MemoryStore} (h : Tended root used w) (hn : names.Covers used w.tables)
    (hqs : ∀ q ∈ qs, q.faults = [] ∧ q.users.rootUsername = root ∧ q.env.idName = names.name)
    (hspares : sparing qs w = true) : ∃ used', Tended root used' (serveAll qs w) := by
  induction qs generalizing used w with
  | nil => exact ⟨used, h⟩
  | cons q qs ih =>
    obtain ⟨hfaults, hroot, henv⟩ := hqs q (.head _)
    obtain ⟨hq, hrest⟩ := Bool.and_eq_true_iff.mp hspares
    have hreached := h.reached
    exact ih (h.step q hfaults hroot (.of_named henv hn) (.inr hq))
      (hn.run hreached.idle hreached.sound henv) (fun q' hq' => hqs q' (.tail _ hq')) hrest

namespace Sample

/-- The sample, and then the deletion of a menu. -/
def pruning (id : String) : List Command := commands ++ [command (.deleteMenu id)]

/-- The world after the deletion of a menu. -/
def pruned (id : String) : World MemoryStore := serveAll (pruning id) { store := {} }

theorem pruning_plain {id : String} {q : Command} (h : q ∈ pruning id) :
    q.faults = [] ∧ q.users.rootUsername = "root" ∧ q.env.idName = naming.name := by
  rcases List.mem_append.mp h with h | h
  · obtain ⟨m, _, rfl⟩ := List.mem_map.mp h
    exact ⟨rfl, rfl, rfl⟩
  · obtain rfl := List.mem_singleton.mp h
    exact ⟨rfl, rfl, rfl⟩

end Sample

/-- No role grants the deleted menu, and the role that is there is saved as it was read. -/
theorem sample_saved_as_read : (∃ used, Tended "root" used (Sample.pruned "mxxx")) ∧
    (Sample.pruned "mxxx").tables.menus.map Menu.id = ["mx", "mxx"] ∧
    (Sample.pruned "mxxx").tables.Grounded ∧
    ∃ role ∈ (Sample.pruned "mxxx").tables.roles, role.id = "rx" ∧ ∃ v saved v',
      World.run Sample.env (Roles.get {} role.id .everything).run
          { Sample.pruned "mxxx" with faults := [] } =
        (some (.ok (Roles.withGrants (Sample.pruned "mxxx").tables role)), v) ∧
      World.run Sample.env (Roles.update {} role.id
          (Roles.withGrants (Sample.pruned "mxxx").tables role).described).run v =
        (some (.ok saved), v') ∧
      ∀ g, g ∈ v'.tables.roleMenus ↔ g ∈ (Sample.pruned "mxxx").tables.roleMenus := by
  have hstart : Tended "root" [] { store := {} } := .start rfl rfl
  have hspares : sparing (Sample.pruning "mxxx") { store := {} } = true := by decide +kernel
  obtain ⟨used, htended⟩ := tended_serveAll hstart (fun _ h => nomatch h)
    (fun _ hq => Sample.pruning_plain hq) hspares
  obtain ⟨hgrounded, hsaved⟩ := htended.saved_as_read
  have hroles : (Sample.pruned "mxxx").tables.roles.map Role.id = ["rx"] := by decide +kernel
  obtain ⟨role, hrole, hid⟩ := List.mem_map.mp (hroles ▸ List.mem_singleton.mpr rfl)
  exact ⟨⟨used, htended⟩, by decide +kernel, hgrounded, role, hrole, hid,
    hsaved role hrole Sample.env {} {}⟩

/-- The menu that the role grants is deleted: the grant stays, and the role, sent back as it was
read, is refused. -/
theorem grant_outlives_menu :
    (∃ used, Reached (fun q => q.faults = [] ∧ q.users.rootUsername = "root") used
      (Sample.pruned "mx")) ∧
    ¬(Sample.pruned "mx").tables.Grounded ∧
    ∃ role ∈ (Sample.pruned "mx").tables.roles, ∃ v v',
      World.run Sample.env (Roles.get {} role.id .everything).run
          { Sample.pruned "mx" with faults := [] } =
        (some (.ok { role with grants := [⟨"rx", "mx", [], ["read"]⟩] }), v) ∧
      World.run Sample.env (Roles.update {} role.id
          (Role.described { role with grants := [⟨"rx", "mx", [], ["read"]⟩] })).run v =
        (some (.error (.notFound "menu mx not found")), v') := by
  have hstart : Reached (fun q => q.faults = [] ∧ q.users.rootUsername = "root") []
    { store := {} } := .start rfl rfl
  have hcommands : ∀ q ∈ Sample.pruning "mx",
      (q.faults = [] ∧ q.users.rootUsername = "root") ∧ q.env.idName = Sample.naming.name :=
    fun _ hq => and_assoc.mpr (Sample.pruning_plain hq)
  obtain ⟨used, hreached, -⟩ := reached_serveAll hstart (fun _ h => nomatch h) hcommands
  replace hreached : Reached _ used (Sample.pruned "mx") := hreached
  have hmenus : (Sample.pruned "mx").tables.menus.map Menu.id = ["mxx", "mxxx"] := by
    decide +kernel
  have hgrants : (Sample.pruned "mx").tables.roleMenus = [⟨"rx", "mx", [], ["read"]⟩] := by
    decide +kernel
  have hroles : (Sample.pruned "mx").tables.roles.map Role.id = ["rx"] := by decide +kernel
  obtain ⟨role, hrole, hid⟩ := List.mem_map.mp (hroles ▸ List.mem_singleton.mpr rfl)
  refine ⟨⟨used, hreached⟩, fun hgrounded => ?_, role, hrole, ?_⟩
  · have hmx : "mx" ∈ ["mxx", "mxxx"] := hmenus ▸
      hgrounded ⟨"rx", "mx", [], ["read"]⟩ (hgrants ▸ List.mem_singleton.mpr rfl)
    exact absurd hmx (by decide)
  · obtain ⟨v, answer, v', hget, hupdate, hout⟩ := hreached.resaved hrole Sample.env {} {}
    have hread : Roles.withGrants (Sample.pruned "mx").tables role =
        { role with grants := [⟨"rx", "mx", [], ["read"]⟩] } := by
      rw [Roles.withGrants, hgrants, hid]
      rfl
    have hdangling : (Sample.pruned "mx").tables.dangling? role.id =
        some ⟨"rx", "mx", [], ["read"]⟩ := by
      rw [hid]
      decide +kernel
    rw [hdangling] at hout
    obtain ⟨rfl, -⟩ := hout
    exact ⟨v, v', hread ▸ hget, hread ▸ hupdate⟩

end AccessAdmin
