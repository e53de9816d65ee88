import AccessAdmin.Proofs.Outcomes.Menus
import AccessAdmin.Proofs.Outcomes.Roles
import AccessAdmin.Proofs.Outcomes.Users

/-!
# What readings answer

Menus, roles and users are read together with what they own: the rows that come for all of them are
handed out to their owners. Nothing changes, and nothing is refused but a single row that is not
stored.

* `distribute_eq`, `ends_attach`: owners with different ids each get their own rows.
* `Menus.attached`: a menu with what it owns, as far as it is asked for.
* `Menus.comes_query`, `Menus.comes_tree`: an unpaged listing of menus, and its forest.
* `Menus.comes_get`, `Roles.comes_get`, `Users.comes_get`: a single menu, role or user.
-/

namespace AccessAdmin

open Service

/-- Owners with different ids each get the rows that name them. -/
theorem distribute_eq {α β : Type} {idOf : α → String} {ownerOf : β → String}
    {give : α → List β → α} {owners : List α} (hids : (owners.map idOf).Nodup) (rows : List β) :
    distribute idOf ownerOf give rows owners =
      owners.map fun x => give x (rows.filter (ownerOf · == idOf x)) := by
  induction owners generalizing rows with
  | nil => rfl
  | cons x rest ih =>
    obtain ⟨hx, hrest⟩ := List.nodup_cons.mp hids
    rw [distribute, List.map_cons, ih hrest]
    congr 1
    refine List.map_congr_left fun y hy => ?_
    -- The rows that `x` has taken are none of those of `y`.
    rw [List.filter_filter]
    congr 1
    refine List.filter_congr fun c _ => ?_
    have hne : idOf y ≠ idOf x := fun he => hx (he ▸ List.mem_map_of_mem hy)
    by_cases hown : ownerOf c = idOf y
    · simp [hown, hne]
    · simp [hown]

section Attach

variable {α β : Type} {env : Surroundings} {s : Session} {d d' : Desk} {idOf : α → String}
  {ownerOf : β → String} {give : α → List β → α} {owners : List α} {r : Except ServiceError (List α)}

/-- What some owners own is read for all of them and handed out to each. -/
theorem ends_attach {read : Service (List β)} (rows : List β)
    (h : (do return distribute idOf ownerOf give (← read) owners).run.Ends env s.id d r d')
    (hread : ∀ r d', read.run.Ends env s.id d r d' →
      r = .ok (rows.filter fun c => (owners.map idOf).contains (ownerOf c)) ∧ d' = d)
    (hids : (owners.map idOf).Nodup) :
    r = .ok (owners.map fun x => give x (rows.filter (ownerOf · == idOf x))) ∧ d' = d := by
  obtain ⟨found, d₁, hfound, h⟩ | ⟨e, hfound, -⟩ := ends_seq.mp h
  · obtain ⟨hrows, rfl⟩ := hread _ _ hfound
    obtain rfl := Except.ok.inj hrows
    rw [distribute_eq hids] at h
    refine ⟨h.1.trans (congrArg _ (List.map_congr_left fun x hx => congrArg _ ?_)), h.2⟩
    rw [List.filter_filter]
    refine List.filter_congr fun c _ => ?_
    by_cases hown : ownerOf c = idOf x
    · simp [hown, List.mem_map_of_mem hx]
    · simp [hown]
  · cases (hread _ _ hfound).1

/-- What some owners own is read if it is asked for. -/
theorem ends_wanted {wanted : Bool} {x : Service (List α)} {f : α → α}
    (hx : ∀ r d', x.run.Ends env s.id d r d' → r = .ok (owners.map f) ∧ d' = d)
    (h : (if wanted then x else pure owners).run.Ends env s.id d r d') :
    r = .ok (owners.map fun a => if wanted then f a else a) ∧ d' = d := by
  cases wanted with
  | false => exact ⟨h.1.trans (congrArg _ (List.map_id' owners).symm), h.2⟩
  | true => exact hx _ _ h

end Attach

namespace Menus

variable {env : Surroundings} {s : Session} {d d' : Desk} {t : Store.Tables}

/-- A menu with what it owns, as far as it is asked for. -/
def attached (t : Store.Tables) (options : ListingOptions) (m : Menu) : Menu :=
  { m with
    actions := if options.actions then t.menuActions.filter (·.menuId == m.id) else m.actions
    resources := if options.resources then t.menuResources.filter (·.menuId == m.id)
      else m.resources }

theorem map_attached_id (t : Store.Tables) (options : ListingOptions) (menus : List Menu) :
    (menus.map (attached t options)).map Menu.id = menus.map Menu.id := by
  rw [List.map_map]
  rfl

theorem attached_actions (t : Store.Tables) (wanted : Bool) :
    attached t { actions := wanted } = fun m =>
      if wanted then { m with actions := t.menuActions.filter (·.menuId == m.id) } else m := by
  cases wanted <;> rfl

theorem attached_resources (t : Store.Tables) (wanted : Bool) :
    attached t { resources := wanted } = fun m =>
      if wanted then { m with resources := t.menuResources.filter (·.menuId == m.id) } else m := by
  cases wanted <;> rfl

/-- The actions are attached first, then the resources. -/
theorem hydrate_eq (s : Session) (menus : List Menu) (options : ListingOptions) :
    hydrate s menus options = if menus.isEmpty then pure menus else
      (if options.actions then attachActions s menus else pure menus) >>= fun menus =>
        if options.resources then attachResources s menus else pure menus := by
  unfold hydrate
  dsimp only
  cases options.actions <;> rfl

/-- Menus with different ids are read with what each of them owns. -/
theorem ends_hydrate {menus : List Menu} {options : ListingOptions}
    {r : Except ServiceError (List Menu)} (hids : (menus.map Menu.id).Nodup)
    (h : (hydrate s menus options).run.Ends env s.id d r d') :
    r = .ok (menus.map (attached d.tables options)) ∧ d' = d := by
  rw [hydrate_eq] at h
  split at h
  · rename_i hempty
    obtain rfl := List.isEmpty_iff.mp hempty
    exact h
  · have hactions {r : Except ServiceError (List Menu)} {d' : Desk}
        (h : (if options.actions then attachActions s menus else pure menus).run.Ends env s.id d
          r d') : r = .ok (menus.map (attached d.tables { actions := options.actions })) ∧ d' = d := by
      rw [attached_actions]
      exact ends_wanted (fun _ _ h => ends_attach _ h (fun _ _ => Session.ends_ask.mp) hids) h
    obtain ⟨found, d₁, hfound, h⟩ | ⟨e, hfound, -⟩ := ends_seq.mp h
    · obtain ⟨hmenus, rfl⟩ := hactions hfound
      obtain rfl := Except.ok.inj hmenus
      obtain ⟨hr, rfl⟩ := ends_wanted (fun _ _ h => ends_attach d₁.tables.menuResources h
        (fun _ _ => Session.ends_ask.mp) (by rwa [map_attached_id])) h
      refine ⟨hr.trans ?_, rfl⟩
      rw [← attached_resources, List.map_map]
      rfl
    · cases (hactions hfound).1

theorem steady_hydrate (s : Session) (menus : List Menu) (options : ListingOptions) :
    (hydrate s menus options).run.Steady (Effect.OfProjection s.id) fun _ => True := by
  have hactions : (attachActions s menus).run.Steady (Effect.OfProjection s.id) fun _ => True :=
    steady_seq (fun _ => trivial) (steady_ask s _) fun _ => steady_pure _
  have hresources (menus : List Menu) :
      (attachResources s menus).run.Steady (Effect.OfProjection s.id) fun _ => True :=
    steady_seq (fun _ => trivial) (steady_ask s _) fun _ => steady_pure _
  rw [hydrate_eq]
  split
  · exact steady_pure _
  · refine steady_seq (fun _ => trivial) ?_ fun menus => ?_
    · split
      · exact hactions
      · exact steady_pure _
    · split
      · exact hresources menus
      · exact steady_pure _

variable (env) in
/-- A menu is read as it is stored, with what it owns. -/
theorem comes_get (ctx : Context) (id : String) (options : ListingOptions) :
    Comes env (get ctx id options) fun d r d' => d' = d ∧
      r = (d.tables.menus.find? (·.id == id)).elim
        (.error (.notFound s!"menu {id} not found"))
          fun menu => .ok (attached d.tables options menu) := by
  refine Comes.session fun s => comes_ask_then (q := .getMenu id) (D := fun found d r d' => d' = d ∧
    r = found.elim (.error (.notFound s!"menu {id} not found"))
      fun menu => .ok (attached d.tables options menu)) ctx fun found => ?_
  cases found with
  | none => exact (comes_refuse _).mono fun d r d' h => ⟨h.2, h.1⟩
  | some menu =>
    exact (comes_look_then ctx (steady_hydrate s [menu] options)
      (fun _ _ _ => ends_hydrate (List.nodup_singleton _))
      fun menus => comes_pure (menus.headD menu)).mono fun d r d' h => ⟨h.2, h.1⟩

variable (env) in
/-- An unpaged listing shows the menus that the filter admits, with what they own. -/
theorem comes_query (ctx : Context) (filter : MenuFilter) {options : ListingOptions}
    (hunpaged : options.pagination = none) : Comes env (query ctx filter options) fun d r d' =>
      (d.tables.menus.map Menu.id).Nodup → d' = d ∧
        r = .ok ⟨(d.tables.matchingMenus filter).map (attached d.tables options), none⟩ := by
  have hfits : (Store.Read.queryMenus filter options.pagination).Fits := by
    rw [hunpaged]
    infer_instance
  refine Comes.session fun s => ?_
  refine ((comes_bounded ctx
    (steady_ask s (.queryMenus filter options.pagination))).bind fun found =>
    (comes_bounded ctx (steady_hydrate s found.data options)).bind
      fun data => comes_pure (⟨data, found.page⟩ : Listing Menu)).mono ?_
  rintro d r d' (⟨e, ⟨-, hends⟩, -⟩ | ⟨found, d₁, ⟨-, hends⟩, h⟩) hids
  · cases (Session.ends_ask.mp hends).1
  · obtain ⟨hfound, rfl⟩ := Session.ends_ask.mp hends
    have hlisted : found = .unpaged (d₁.tables.matchingMenus filter) := by
      rw [hunpaged] at hfound
      exact Except.ok.inj hfound
    subst hlisted
    have hids' : ((d₁.tables.matchingMenus filter).map Menu.id).Nodup :=
      ((List.mergeSort_perm _ _).map _).nodup_iff.mpr (hids.sublist (List.filter_sublist.map _))
    rcases h with ⟨e, ⟨-, hends⟩, -⟩ | ⟨data, d₂, ⟨-, hends⟩, rfl, rfl⟩
    · cases (ends_hydrate hids' hends).1
    · obtain ⟨hdata, rfl⟩ := ends_hydrate hids' hends
      obtain rfl := Except.ok.inj hdata
      exact ⟨rfl, rfl⟩

variable (env) in
/-- The forest of the menus that a filter admits, with what they own. -/
theorem comes_tree (ctx : Context) (filter : MenuFilter) (options : ListingOptions) :
    Comes env (tree ctx filter options) fun d r d' =>
      (d.tables.menus.map Menu.id).Nodup → d' = d ∧ r = .ok
        (MenuTree.forest ((d.tables.matchingMenus filter).map
          (attached d.tables { options with pagination := none }))) := by
  refine ((comes_query env ctx filter rfl).bind fun found =>
    comes_pure (MenuTree.forest found.data)).mono ?_
  rintro d r d' (⟨e, hquery, -⟩ | ⟨found, d₁, hquery, rfl, rfl⟩) hids
  · cases (hquery hids).2
  · obtain ⟨rfl, hfound⟩ := hquery hids
    obtain rfl := Except.ok.inj hfound
    exact ⟨rfl, rfl⟩

end Menus

namespace Roles

variable {env : Surroundings} {s : Session} {d d' : Desk}

theorem steady_attachGrants (s : Session) (roles : List Role) :
    (attachGrants s roles).run.Steady (Effect.OfProjection s.id) fun _ => True := by
  unfold attachGrants
  split
  · exact steady_pure _
  · exact steady_seq (fun _ => trivial) (steady_ask s _) fun _ => steady_pure _

/-- A role with its grants. -/
def withGrants (t : Store.Tables) (role : Role) : Role :=
  { role with grants := t.roleMenus.filter (·.roleId == role.id) }

theorem ends_attachGrants {role : Role} {r : Except ServiceError (List Role)}
    (h : (attachGrants s [role]).run.Ends env s.id d r d') :
    r = .ok [withGrants d.tables role] ∧ d' = d :=
  ends_attach _ h (fun _ _ => Session.ends_ask.mp) (List.nodup_singleton _)

variable (env) in
/-- A role is read as it is stored, with its grants. -/
theorem comes_get (ctx : Context) (id : String) (options : ListingOptions)
    (hgrants : options.grants = true) : Comes env (get ctx id options) fun d r d' => d' = d ∧
      r = (d.tables.roles.find? (·.id == id)).elim
        (.error (.notFound s!"role {id} not found")) fun role => .ok (withGrants d.tables role) := by
  refine Comes.session fun s => comes_ask_then (q := .getRole id) (D := fun found d r d' => d' = d ∧
    r = found.elim (.error (.notFound s!"role {id} not found"))
      fun role => .ok (withGrants d.tables role)) ctx fun found => ?_
  cases found with
  | none => exact (comes_refuse _).mono fun d r d' h => ⟨h.2, h.1⟩
  | some role =>
    simp only [hgrants, ↓reduceIte]
    exact (comes_look_then ctx (steady_attachGrants s [role]) (fun _ _ _ => ends_attachGrants)
      fun roles => comes_pure (roles.headD role)).mono fun d r d' h => ⟨h.2, h.1⟩

end Roles

namespace Users

variable {env : Surroundings} {s : Session} {d d' : Desk}

/-- A user with its assignments. -/
def withRoles (t : Store.Tables) (user : User) : User :=
  { user with roles := t.userRoles.filter (·.userId == user.id) }

theorem steady_attachRoles (s : Session) (users : List User) :
    (attachRoles s users).run.Steady (Effect.OfProjection s.id) fun _ => True := by
  unfold attachRoles
  split
  · exact steady_pure _
  · exact steady_seq (fun _ => trivial) (steady_ask s _) fun _ => steady_pure _

theorem ends_attachRoles {user : User} {r : Except ServiceError (List User)}
    (h : (attachRoles s [user]).run.Ends env s.id d r d') :
    r = .ok [withRoles d.tables user] ∧ d' = d :=
  ends_attach _ h (fun _ _ => Session.ends_ask.mp) (List.nodup_singleton _)

variable (env) in
/-- A user is read as it is stored, with its assignments. -/
theorem comes_get (ctx : Context) (id : String) (options : ListingOptions)
    (hroles : options.roles = true) : Comes env (get ctx id options) fun d r d' => d' = d ∧
      r = (d.tables.users.find? (·.id == id)).elim
        (.error (.notFound s!"user {id} not found")) fun user => .ok (withRoles d.tables user) := by
  refine Comes.session fun s => comes_ask_then (q := .getUser id) (D := fun found d r d' => d' = d ∧
    r = found.elim (.error (.notFound s!"user {id} not found"))
      fun user => .ok (withRoles d.tables user)) ctx fun found => ?_
  cases found with
  | none => exact (comes_refuse _).mono fun d r d' h => ⟨h.2, h.1⟩
  | some user =>
    simp only [hroles, ↓reduceIte]
    exact (comes_look_then ctx (steady_attachRoles s [user]) (fun _ _ _ => ends_attachRoles)
      fun users => comes_pure (users.headD user)).mono fun d r d' h => ⟨h.2, h.1⟩

end Users

end AccessAdmin
