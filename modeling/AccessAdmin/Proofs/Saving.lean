import AccessAdmin.Proofs.Integrity
import AccessAdmin.Proofs.Outcomes.Insertions
import AccessAdmin.Proofs.Outcomes.Readings

/-!
# Saving what menus, roles and users own

A menu is saved with its actions and resources, a role with its grants, a user with its assignments.
What is saved replaces what was there before, and only that; a reading shows it as it was answered,
although the answer was made from the input. On the way the store refuses nothing: whatever it would
refuse, the service has refused before.

* `Saving`: the creates and updates of the services.
* `Saving.Saves`: the tables before and after a saving, and its answer.
* `Saving.Alike`: records that differ at most in the order of what they own and in the row number.
* `Saving.surely_work`: the transaction of a saving.
* `Reached.saving`: after every sequence of commands, a saving is stored and read back.
-/

namespace AccessAdmin

open Service

/-! ## Records that are read back -/

/-- The same menu, but for the order of what it owns and the number of its row. -/
structure Menu.Alike (a b : Menu) : Prop where
  actions : a.actions.Perm b.actions
  resources : a.resources.Perm b.resources
  rest : { a with actions := b.actions, resources := b.resources, rowId := b.rowId } = b

/-- The same role, but for the order of its grants and the number of its row. -/
structure Role.Alike (a b : Role) : Prop where
  grants : a.grants.Perm b.grants
  rest : { a with grants := b.grants, rowId := b.rowId } = b

/-- The same user, but for the order of its assignments and the number of its row. -/
structure User.Alike (a b : User) : Prop where
  roles : a.roles.Perm b.roles
  rest : { a with roles := b.roles, rowId := b.rowId } = b

section Alike

variable {t t' : Store.Tables}

/-- A menu that is saved is read as it was answered. -/
theorem Menus.Saved.alike {form : MenuForm} {menu row : Menu} (h : Saved form t menu t')
    (hf : fault? form = none) (hbefore : t.Distinct) (hdistinct : t'.Distinct)
    (hrow : t'.menus.find? (·.id == menu.id) = some row) :
    (attached t' .everything row).Alike menu := by
  obtain ⟨row', hrow', hmenu⟩ := h.row
  obtain rfl := Option.some.inj (hrow.symm.trans hrow')
  have hid : row.id = menu.id := (Store.Tables.find_row hrow).2
  obtain ⟨hactions, hresources⟩ := nodup_codes hf menu.id
  constructor
  · show (t'.menuActions.filter (·.menuId == row.id)).Perm menu.actions
    rw [hid, congrArg Menu.actions hmenu]
    exact h.actions.own (fun _ => owner_actionsFor) hactions hbefore.actions hdistinct.actions
  · show (t'.menuResources.filter (·.menuId == row.id)).Perm menu.resources
    rw [hid, congrArg Menu.resources hmenu]
    exact h.resources.own (fun _ => owner_resourcesFor) hresources hbefore.resources
      hdistinct.resources
  · rw [hmenu]
    rfl

/-- A role that is saved is read as it was answered. -/
theorem Roles.Saved.alike {input : RoleInput} {role row : Role} (h : Saved input t role t')
    (hf : fault? input = none) (hbefore : t.Distinct) (hdistinct : t'.Distinct)
    (hrow : t'.roles.find? (·.id == role.id) = some row) : (withGrants t' row).Alike role := by
  obtain ⟨row', hrow', hrole⟩ := h.row
  obtain rfl := Option.some.inj (hrow.symm.trans hrow')
  have hid : row.id = role.id := (Store.Tables.find_row hrow).2
  constructor
  · show (t'.roleMenus.filter (·.roleId == row.id)).Perm role.grants
    rw [hid, congrArg Role.grants hrole]
    exact h.grants.own (fun _ => owner_grantsFor) (nodup_grantsFor hf role.id) hbefore.grants
      hdistinct.grants
  · rw [hrole]
    rfl

/-- A user that is saved is read as it was answered. -/
theorem Users.Saved.alike {p : UserPolicy} {input : UserInput} {user row : User}
    (h : Saved input t user t') (hf : fault? p input = none) (hbefore : t.Distinct)
    (hdistinct : t'.Distinct) (hrow : t'.users.find? (·.id == user.id) = some row) :
    (withRoles t' row).Alike user := by
  obtain ⟨row', hrow', huser⟩ := h.row
  obtain rfl := Option.some.inj (hrow.symm.trans hrow')
  have hid : row.id = user.id := (Store.Tables.find_row hrow).2
  constructor
  · show (t'.userRoles.filter (·.userId == row.id)).Perm user.roles
    rw [hid, congrArg User.roles huser]
    exact h.assignments.own (fun _ => owner_assignmentsFor) (nodup_assignmentsFor hf user.id)
      hbefore.assignments hdistinct.assignments
  · rw [huser]
    rfl

end Alike

/-! ## Savings -/

/-- A create or an update: of a new menu, role or user, or of the one with an id. -/
inductive Saving where
  | menu (id : Option String) (input : MenuInput)
  | role (id : Option String) (input : RoleInput)
  | user (id : Option String) (input : UserInput)

namespace Saving

/-- What a saving answers. -/
abbrev Record : Saving → Type
  | menu _ _ => Menu
  | role _ _ => Role
  | user _ _ => User

/-- What a saving does. -/
def program (users : UserPolicy) (ctx : Context) : (m : Saving) → Service m.Record
  | menu none input => Menus.create ctx input
  | menu (some id) input => Menus.update ctx id input
  | role none input => Roles.create ctx input
  | role (some id) input => Roles.update ctx id input
  | user none input => Users.create users ctx input
  | user (some id) input => Users.update users ctx id input

/-- Why the description is refused, if it is. -/
def fault? (users : UserPolicy) : Saving → Option String
  | menu _ input => Menus.fault? input.toMenuForm
  | role _ input => Roles.fault? input
  | user _ input => Users.fault? users input

/-- The work of the transaction; with the hash of a password, if there is one. -/
def work (s : Session) (actor : String) (hash : Option String) : (m : Saving) → Service m.Record
  | menu none input => Menus.insert s actor input
  | menu (some id) input => Menus.applyUpdate s id input
  | role none input => Roles.insert s actor input
  | role (some id) input => Roles.applyUpdate s id input
  | user none input => Users.insert s actor (hash.getD "") input
  | user (some id) input => Users.applyUpdate s id hash input

/-- The id of a record. -/
def idOf : (m : Saving) → m.Record → String
  | menu _ _ => Menu.id
  | role _ _ => Role.id
  | user _ _ => User.id

/-- The reading of a record with what it owns. -/
def get (ctx : Context) (id : String) : (m : Saving) → Service m.Record
  | menu _ _ => Menus.get ctx id .everything
  | role _ _ => Roles.get ctx id .everything
  | user _ _ => Users.get ctx id .everything

/-- Records that differ at most in the order of what they own and in the number of their row. -/
def Alike : (m : Saving) → m.Record → m.Record → Prop
  | menu _ _ => Menu.Alike
  | role _ _ => Role.Alike
  | user _ _ => User.Alike

/-- The id that a record is saved under: the given one, or one that no record has. -/
def Under (ids : List String) (id? : Option String) (id : String) : Prop :=
  match id? with
  | none => id ∉ ids
  | some id' => id = id'

/-- How a saving changes the tables: the record is stored with what it owns in place of what it
owned before, and nobody else's rows change. -/
def Saves : (m : Saving) → Store.Tables → m.Record → Store.Tables → Prop
  | menu id input => fun t menu t' =>
    Under (t.menus.map Menu.id) id menu.id ∧ Menus.Saved input.toMenuForm t menu t'
  | role id input => fun t role t' =>
    Under (t.roles.map Role.id) id role.id ∧ Roles.Saved input t role t'
  | user id input => fun t user t' =>
    Under (t.users.map User.id) id user.id ∧ Users.Saved input t user t'

end Saving

/-! ## New ids -/

section Fresh

variable {used : List String} {t : Store.Tables} {id : String}

theorem Store.Tables.Sound.fresh_menu (h : t.Sound used) (howned : t.Owned) (hid : id ∉ used) :
    id ∉ t.menuIds := by
  have hmenus : id ∉ t.menus.map Menu.id := fun hmem =>
    hid (h.menu_used (List.mem_map.mp hmem))
  refine not_mem_menuIds.mpr ⟨fun m hm he => hmenus ?_, fun a ha he => hmenus ?_,
    fun x hx he => hmenus ?_⟩
  · exact he ▸ List.mem_map_of_mem hm
  · exact he ▸ howned.actions a ha
  · exact he ▸ howned.resources x hx

theorem Store.Tables.Sound.fresh_role (h : t.Sound used) (hid : id ∉ used) :
    (∀ r ∈ t.roles, r.id ≠ id) ∧ ∀ g ∈ t.roleMenus, g.roleId ≠ id := by
  have hroles : ∀ r ∈ t.roles, r.id ≠ id := fun r hr he =>
    hid (h.ids.used (mem_ids.mpr (.inr (.inl ⟨r, hr, he⟩))))
  refine ⟨hroles, fun g hg he => ?_⟩
  obtain ⟨r, hr, hrole⟩ := List.mem_map.mp (h.granted g hg).1
  exact hroles r hr (hrole.trans he)

theorem Store.Tables.Sound.fresh_user (h : t.Sound used) (hid : id ∉ used) :
    (∀ u ∈ t.users, u.id ≠ id) ∧ ∀ a ∈ t.userRoles, a.userId ≠ id := by
  have husers : ∀ u ∈ t.users, u.id ≠ id := fun u hu he =>
    hid (h.ids.used (mem_ids.mpr (.inr (.inr ⟨u, hu, he⟩))))
  refine ⟨husers, fun a ha he => ?_⟩
  obtain ⟨u, hu, huser⟩ := List.mem_map.mp (h.assigned a ha).1
  exact husers u hu (huser.trans he)

end Fresh

/-! ## Transactions and readings -/

namespace Saving

variable {env : Surroundings} {users : UserPolicy} {used : List String} {d : Desk}

/-- A new record is saved under an id that no row has. -/
theorem under_none {α : Type} {idOf : α → String} {rows : List α} {id id' : String}
    (hrows : ∀ r ∈ rows, idOf r ≠ id) (hid : id' = id) : Under (rows.map idOf) none id' := by
  show id' ∉ rows.map idOf
  rw [hid, List.mem_map]
  exact fun ⟨r, hr, he⟩ => hrows r hr he

/-- In sound tables the work of a saving makes only calls that go through, and saves the record if
it succeeds. One case for each create and each update. -/
theorem surely_work (m : Saving) (hs : d.tables.Sound used) (howned : d.tables.Owned)
    (hfresh : env.FreshFor used d.tables) (hf : m.fault? users = none) (s : Session)
    (actor : String) (hash : Option String) :
    (m.work s actor hash).run.Surely env s.id
      (fun r d' => ∀ a, r = .ok a → m.Saves d.tables a d'.tables) d := by
  cases m with
  | menu id input =>
    cases id with
    | none =>
      have hnew := hs.fresh_menu howned (hfresh.next .menu rfl).2
      refine (Menus.surely_insert hf hnew).mono ?_
      rintro r d' (⟨e, -, rfl⟩ | ⟨path, now, -, rfl, rfl⟩) a ⟨⟩
      exact ⟨fun hmem => hnew (List.mem_append_left _ hmem), Menus.saved_withMenu hnew rfl rfl⟩
    | some id =>
      refine (Menus.surely_applyUpdate hf).mono ?_
      rintro r d' (⟨e, -, rfl⟩ | ⟨-, menu, rfl, hid, hsaved⟩) a ⟨⟩
      exact ⟨hid, hsaved⟩
  | role id input =>
    cases id with
    | none =>
      obtain ⟨hroles, hgrants⟩ := hs.fresh_role (hfresh.next .role rfl).2
      refine (Roles.surely_insert hf rfl hroles hgrants).mono ?_
      rintro r d' (⟨e, -, rfl⟩ | ⟨-, role, rfl, hid, hsaved⟩) a ⟨⟩
      exact ⟨under_none hroles hid, hsaved⟩
    | some id =>
      refine (Roles.surely_applyUpdate hf).mono ?_
      rintro r d' (⟨e, -, rfl⟩ | ⟨-, role, rfl, hid, hsaved⟩) a ⟨⟩
      exact ⟨hid, hsaved⟩
  | user id input =>
    cases id with
    | none =>
      obtain ⟨hrows, hassignments⟩ := hs.fresh_user (hfresh.next .user rfl).2
      refine (Users.surely_insert hf rfl hrows hassignments).mono ?_
      rintro r d' (⟨e, -, rfl⟩ | ⟨-, user, rfl, hid, hsaved⟩) a ⟨⟩
      exact ⟨under_none hrows hid, hsaved⟩
    | some id =>
      refine (Users.surely_applyUpdate hf).mono ?_
      rintro r d' (⟨e, -, rfl⟩ | ⟨-, user, rfl, hid, hsaved⟩) a ⟨⟩
      exact ⟨hid, hsaved⟩

variable (env users) in
/-- A saving that succeeds had nothing to find fault with, and answers what its work came to. -/
theorem comes_program (m : Saving) (ctx : Context) :
    Comes env (m.program users ctx) fun d r d' => ∀ a, r = .ok a → m.fault? users = none ∧
      ∃ (s : Session) (hash : Option String),
        (m.work s ctx.actor hash).run.Ends env s.id d (.ok a) ⟨d'.tables, d.engine⟩ := by
  cases m with
  | menu id input =>
    cases id with
    | none =>
      refine (Mutation.contract env ctx users (.createMenu input)).comes.mono
        fun d _ d' h a ha => ?_
      obtain ⟨hf, s, b, hwork, hafter⟩ := h a ha
      obtain rfl := Except.ok.inj (ends_pure.mp hafter).1
      exact ⟨hf, s, none, hwork⟩
    | some id =>
      refine (Mutation.contract env ctx users (.updateMenu id input)).comes.mono
        fun d _ d' h a ha => ?_
      obtain ⟨hf, -, hcommitted⟩ := h a ha
      obtain ⟨s, hwork⟩ := hcommitted.answered
      exact ⟨hf, s, none, hwork⟩
  | role id input =>
    cases id with
    | none =>
      refine (Mutation.contract env ctx users (.createRole input)).comes.mono
        fun d _ d' h a ha => ?_
      obtain ⟨hf, hcommitted⟩ := h a ha
      obtain ⟨s, hwork⟩ := hcommitted.answered
      exact ⟨hf, s, none, hwork⟩
    | some id =>
      refine (Mutation.contract env ctx users (.updateRole id input)).comes.mono
        fun d _ d' h a ha => ?_
      obtain ⟨hf, hcommitted⟩ := h a ha
      obtain ⟨s, hwork⟩ := hcommitted.answered
      exact ⟨hf, s, none, hwork⟩
  | user id input =>
    cases id with
    | none =>
      refine (Mutation.contract env ctx users (.createUser input)).comes.mono
        fun d _ d' h a ha => ?_
      obtain ⟨hf, hash, hcommitted⟩ := h a ha
      obtain ⟨s, hwork⟩ := hcommitted.answered
      exact ⟨hf, s, some hash, hwork⟩
    | some id =>
      refine (Mutation.contract env ctx users (.updateUser id input)).comes.mono
        fun d _ d' h a ha => ?_
      obtain ⟨hf, hash, hcommitted⟩ := h a ha
      obtain ⟨s, hwork⟩ := hcommitted.answered
      exact ⟨hf, s, hash, hwork⟩

variable (env) in
/-- What is saved is read as it was answered. -/
theorem comes_get (m : Saving) (ctx : Context) (a : m.Record) :
    Comes env (m.get ctx (m.idOf a)) fun d r d' => d.tables.Distinct → m.fault? users = none →
      ∀ t, t.Distinct → m.Saves t a d.tables → d' = d ∧ ∃ b, r = .ok b ∧ m.Alike b a := by
  cases m with
  | menu id input =>
    refine (Menus.comes_get env ctx a.id .everything).mono ?_
    rintro d r d' ⟨hd, hr⟩ hdistinct hf t hbefore ⟨-, hsaved⟩
    obtain ⟨row, hrow, -⟩ := hsaved.row
    rw [hrow] at hr
    exact ⟨hd, _, hr, hsaved.alike hf hbefore hdistinct hrow⟩
  | role id input =>
    refine (Roles.comes_get env ctx a.id .everything rfl).mono ?_
    rintro d r d' ⟨hd, hr⟩ hdistinct hf t hbefore ⟨-, hsaved⟩
    obtain ⟨row, hrow, -⟩ := hsaved.row
    rw [hrow] at hr
    exact ⟨hd, _, hr, hsaved.alike hf hbefore hdistinct hrow⟩
  | user id input =>
    refine (Users.comes_get env ctx a.id .everything rfl).mono ?_
    rintro d r d' ⟨hd, hr⟩ hdistinct hf t hbefore ⟨-, hsaved⟩
    obtain ⟨row, hrow, -⟩ := hsaved.row
    rw [hrow] at hr
    exact ⟨hd, _, hr, hsaved.alike hf hbefore hdistinct hrow⟩

end Saving

/-! ## Savings in reached worlds -/

/-- After every sequence of commands, served or refused, disturbed or not, a saving without faults
is answered. The store refuses none of its calls. If it succeeds, the record is stored with what the
input describes in place of what it owned before, neither before nor after has an owner two rows
with one key, and a reading shows the record as it was answered. -/
theorem Reached.saving {admits : Command → Prop} {used : List String} {w : World MemoryStore}
    (h : Reached admits used w) {env : Surroundings} (hfresh : env.FreshFor used w.tables)
    (users : UserPolicy) (ctx : Context) (m : Saving) :
    ∃ r w', World.run env (m.program users ctx).run { w with faults := [] } = (some r, w') ∧
      (m.fault? users = none → ∀ (s : Session) (hash : Option String),
        (m.work s ctx.actor hash).run.Unfailing env s.id w.desk) ∧
      ∀ a, r = .ok a → m.fault? users = none ∧
        (∃ (s : Session) (hash : Option String), (m.work s ctx.actor hash).run.Ends env s.id w.desk
          (.ok a) ⟨w'.tables, w.engine⟩) ∧
        m.Saves w.tables a w'.tables ∧ w.tables.Distinct ∧ w'.tables.Distinct ∧
        ∀ (env' : Surroundings) (ctx' : Context), ∃ b v,
          World.run env' (m.get ctx' (m.idOf a)).run w' = (some (.ok b), v) ∧ m.Alike b a := by
  have hsure (hf : m.fault? users = none) (s : Session) (hash : Option String) :=
    m.surely_work (d := w.desk) h.sound h.owned hfresh hf s ctx.actor hash
  obtain ⟨r, w', hrun, hclean, hidle, hcame⟩ :=
    m.comes_program env users ctx { w with faults := [] } rfl h.idle
  refine ⟨r, w', hrun, fun hf s hash => (hsure hf s hash).unfailing, fun a ha => ?_⟩
  obtain ⟨hf, s, hash, hends⟩ := hcame a ha
  have hsaves : m.Saves w.tables a w'.tables := (hsure hf s hash).ends hends a rfl
  have hdistinct : w'.tables.Distinct := hends.lasting Store.Tables.lasting_distinct h.distinct
  refine ⟨hf, ⟨s, hash, hends⟩, hsaves, h.distinct, hdistinct, fun env' ctx' => ?_⟩
  obtain ⟨rb, v, hread, -, -, hgot⟩ := m.comes_get env' ctx' a w' hclean hidle
  obtain ⟨-, b, rfl, hb⟩ := hgot hdistinct hf _ h.distinct hsaves
  exact ⟨b, v, hread, hb⟩

/-- Another name for the clerk, and a grant of another menu in place of the one it had. -/
def Sample.archivist : RoleInput := { name := "Archivist", grants := [⟨"mxx", [], []⟩] }

/-- In the sample the clerk becomes the archivist, and is read as one. -/
theorem sample_saving :
    (∃ used, Reached (fun q => q.faults = []) used Sample.world ∧
      Sample.env.FreshFor used Sample.world.tables) ∧
    ∃ role w', World.run Sample.env (Roles.update {} "rx" Sample.archivist).run
        { Sample.world with faults := [] } = (some (.ok role), w') ∧
      role.name = "Archivist" ∧ w'.tables.roleMenus = [⟨"rx", "mxx", [], []⟩] ∧
      ∃ b v, World.run Sample.env (Roles.get {} role.id .everything).run w' = (some (.ok b), v) ∧
        b.Alike role := by
  obtain ⟨used, hreached, hnamed⟩ := Sample.reached
  have hfresh : Sample.env.FreshFor used Sample.world.tables := .of_named rfl hnamed
  obtain ⟨r, w', hrun, -, hsaved⟩ :=
    hreached.saving hfresh Sample.users {} (.role (some "rx") Sample.archivist)
  dsimp only [Saving.program] at hrun
  have hname : ((World.run Sample.env (Roles.update {} "rx" Sample.archivist).run
      { Sample.world with faults := [] }).1.map fun r => r.toOption.map Role.name) =
        some (some "Archivist") := by
    decide +kernel
  have hgrants : (World.run Sample.env (Roles.update {} "rx" Sample.archivist).run
      { Sample.world with faults := [] }).2.tables.roleMenus = [⟨"rx", "mxx", [], []⟩] := by
    decide +kernel
  rw [hrun] at hname hgrants
  cases r with
  | error e => cases hname
  | ok role =>
    obtain ⟨-, -, -, -, -, hread⟩ := hsaved role rfl
    exact ⟨⟨used, hreached, hfresh⟩, role, w', hrun, Option.some.inj (Option.some.inj hname),
      hgrants, hread Sample.env {}⟩

end AccessAdmin
