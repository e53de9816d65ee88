import AccessAdmin.Proofs.Changes.Users
import AccessAdmin.Proofs.Commands

/-!
# What a mutation changes and what it projects

Every commit is a change of the tables followed by the projection of some subjects. This module
names both for each mutation, so that an invariant needs one case for each.

* `Mutation.Changes`: the tables before and after a commit.
* `FollowUp`: the subjects that are projected after it.
* `Mutation.Commits.changes`: a commit is a change with its follow-up.
-/

namespace AccessAdmin

/-- What is projected after a commit. -/
inductive FollowUp where
  | nothing
  | roles (ids : List String)
  /-- A deleted role: its permissions and the memberships in it go. -/
  | dropRole (id : String)
  | user (id : String)
  /-- A deleted or disabled user: its memberships go. -/
  | dropUser (id : String)

namespace FollowUp

/-- The projections of a follow-up. -/
def program (s : Session) : FollowUp → Projecting Unit
  | nothing => pure ()
  | roles ids => Projecting.forAll ids fun id => discard (Projection.role s id)
  | dropRole id => Projection.removeRole id
  | user id => discard (Projection.user s id)
  | dropUser id => Projection.removeUser id

/-- A service ends as the projections of a follow-up do. -/
def Leads {β : Type} (f : FollowUp) (env : Surroundings) (d : Desk) (r : Except ServiceError β)
    (d' : Desk) : Prop :=
  ∃ (s : Session) (o : Except ProjectionError Unit), (f.program s).run.Ends env s.id d o d' ∧
    (o = .ok () ↔ ∃ b, r = .ok b)

/-- What becomes of a user that is enabled or disabled. -/
def ofStatus (id : String) : UserStatus → FollowUp
  | .enabled => user id
  | .disabled => dropUser id

end FollowUp

/-- The roles that grant a menu. -/
def Store.Tables.granting (t : Store.Tables) (menuId : String) : List String :=
  (t.roleMenus.filter (·.menuId == menuId)).map Grant.roleId

namespace Mutation

/-- What a mutation projects after it has changed `t` to `t'`. -/
def followUp (t t' : Store.Tables) : (m : Mutation) → m.Result → FollowUp
  | updateMenu id _, _ => .roles (t'.granting id)
  | deleteMenu id, _ => .roles (t.granting id)
  | createRole _, role => .roles [role.id]
  | updateRole id _, _ => .roles [id]
  | deleteRole id, _ => .dropRole id
  | createUser input, user => .ofStatus user.id input.status
  | updateUser id input, _ => .ofStatus id input.status
  | deleteUser id, _ => .dropUser id
  | updateStatus id status, _ => .ofStatus id status
  | createMenu _, _ | seedMenus _, _ | updatePassword _ _, _ | changeOwnPassword _ _ _, _ =>
    .nothing

/-- How a mutation changes the tables. -/
def Changes (env : Surroundings) :
    (m : Mutation) → Store.Tables → m.Result → Store.Tables → Prop
  | createMenu input => fun t _ t' => ∃ row, Menus.Added env input t row t'
  | updateMenu id input => fun t _ t' => ∃ old row, Menus.Updated id input old row t t'
  | deleteMenu id => fun t _ t' => Menus.Removed id t t'
  | seedMenus _ => fun t _ t' => Menus.Grown env t t'
  | createRole input => fun t role t' => ∃ row, Roles.Added env input t row t' ∧ role.id = row.id
  | updateRole id input => fun t _ t' => Roles.Updated id input t t'
  | deleteRole id => fun t _ t' => Roles.Removed id t t'
  | createUser input => fun t user t' => ∃ row, Users.Added env input t row t' ∧ user.id = row.id
  | updateUser id input => fun t _ t' => Users.Updated id input t t'
  | deleteUser id => fun t _ t' => Users.Removed id t t'
  | updateStatus id status => fun t _ t' => (∃ u ∈ t.users, u.id = id) ∧
    t' = { t with users := t.users.map (Users.withStatus id status) }
  | updatePassword _ _ | changeOwnPassword _ _ _ => fun t _ t' =>
    ∃ f, Users.Calm f ∧ t' = { t with users := t.users.map f }

end Mutation

/-! ## Follow-ups of the services -/

section Leads

variable {α β : Type} {env : Surroundings} {s : Session} {d d' : Desk} {f : FollowUp}

open Service

theorem leads_pure {b : β} {r : Except ServiceError β}
    (h : (pure b : Service β).run.Ends env s.id d r d') :
    FollowUp.nothing.Leads env d r d' ∧ ∀ a, r = .ok a → a = b := by
  obtain ⟨rfl, rfl⟩ := ends_pure.1 h
  exact ⟨⟨s, .ok (), ⟨rfl, rfl⟩, fun _ => ⟨b, rfl⟩, fun _ => rfl⟩,
    fun _ h => (Except.ok.inj h).symm⟩

/-- Projections after a commit, compared with those of a follow-up. -/
theorem leads_afterCommit {work : Projecting Unit} {r : Except ServiceError Unit}
    (hwork : ∀ o, work.run.Ends env s.id d o d' → (f.program s).run.Ends env s.id d o d')
    (h : (Projecting.afterCommit work).run.Ends env s.id d r d') : f.Leads env d r d' := by
  obtain ⟨_, ha, rfl⟩ | ⟨e, he, rfl⟩ := Projecting.ends_afterCommit.1 h
  · exact ⟨s, .ok (), hwork _ ha, fun _ => ⟨(), rfl⟩, fun _ => rfl⟩
  · exact ⟨s, .error e, hwork _ he, fun h => (nomatch h), fun ⟨_, h⟩ => (nomatch h)⟩

/-- An answer after the projections. -/
theorem leads_return {x : Service Unit} {b : β} {r : Except ServiceError β}
    (hx : ∀ r, x.run.Ends env s.id d r d' → f.Leads env d r d')
    (h : (do x; return b : Service β).run.Ends env s.id d r d') :
    f.Leads env d r d' ∧ ∀ a, r = .ok a → a = b := by
  obtain ⟨_, d₁, h₁, h₂⟩ | ⟨e, he, rfl⟩ := ends_seq.1 h
  · obtain ⟨rfl, rfl⟩ := ends_pure.1 h₂
    obtain ⟨s, o, ho, hiff⟩ := hx _ h₁
    exact ⟨⟨s, o, ho, hiff.trans ⟨fun _ => ⟨b, rfl⟩, fun _ => ⟨(), rfl⟩⟩⟩,
      fun _ h => (Except.ok.inj h).symm⟩
  · obtain ⟨s, o, ho, hiff⟩ := hx _ he
    exact ⟨⟨s, o, ho, hiff.trans ⟨fun ⟨_, h⟩ => (nomatch h), fun ⟨_, h⟩ => (nomatch h)⟩⟩,
      fun _ h => (nomatch h)⟩

/-- What a discarded answer comes to. -/
theorem ends_discard {ε : Type} {x : ExceptT ε Program α} {o : Except ε Unit} :
    (discard x).run.Ends env s.id d o d' ↔
      (∃ a, x.run.Ends env s.id d (.ok a) d' ∧ o = .ok ()) ∨
        ∃ e, x.run.Ends env s.id d (.error e) d' ∧ o = .error e := by
  show ((fun _ => ()) <$> x).run.Ends env s.id d o d' ↔ _
  rw [map_eq_pure_bind, ends_seq]
  simp only [ends_pure]
  constructor
  · rintro (⟨a, _, hx, rfl, rfl⟩ | ⟨e, he, rfl⟩)
    · exact .inl ⟨a, hx, rfl⟩
    · exact .inr ⟨e, he, rfl⟩
  · rintro (⟨a, hx, rfl⟩ | ⟨e, he, rfl⟩)
    · exact .inl ⟨a, d', hx, rfl, rfl⟩
    · exact .inr ⟨e, he, rfl⟩

/-- Projecting every role that grants a menu. -/
theorem ends_menuGrantees {menuId : String} {o : Except ProjectionError Unit}
    (h : (discard (Projection.menuGrantees s menuId)).run.Ends env s.id d o d') :
    ((FollowUp.roles (d.tables.granting menuId)).program s).run.Ends env s.id d o d' := by
  obtain ⟨n, hn, rfl⟩ | ⟨e, he, rfl⟩ := ends_discard.1 h
  · obtain ⟨_, _, hids, hn⟩ := ends_seq_ok.1 hn
    obtain ⟨hids, rfl⟩ := Projecting.ends_ask.1 hids
    obtain rfl := Except.ok.inj hids
    obtain ⟨_, _, hall, hn⟩ := ends_seq_ok.1 hn
    obtain ⟨-, rfl⟩ := ends_pure.1 hn
    exact hall
  · obtain ⟨_, _, hids, he⟩ | ⟨_, he, -⟩ := ends_seq.1 he
    · obtain ⟨hids, rfl⟩ := Projecting.ends_ask.1 hids
      obtain rfl := Except.ok.inj hids
      obtain ⟨_, _, -, he⟩ | ⟨_, hall, he⟩ := ends_seq.1 he
      · exact nomatch (ends_pure.1 he).1
      · obtain rfl := Except.error.inj he
        exact hall
    · exact nomatch (Projecting.ends_ask.1 he).1

/-- Projecting one role. -/
theorem ends_role {id : String} {o : Except ProjectionError Unit}
    (h : (discard (Projection.role s id)).run.Ends env s.id d o d') :
    ((FollowUp.roles [id]).program s).run.Ends env s.id d o d' := by
  refine ends_seq.2 ?_
  cases o with
  | ok _ => exact .inl ⟨(), d', h, rfl, rfl⟩
  | error e => exact .inr ⟨e, h, rfl⟩

theorem leads_project {id : String} {r : Except ServiceError Unit}
    (h : (Roles.project s id).run.Ends env s.id d r d') :
    (FollowUp.roles [id]).Leads env d r d' :=
  leads_afterCommit (fun _ => ends_role) h

theorem leads_syncPolicy {id : String} {status : UserStatus} {r : Except ServiceError Unit}
    (h : (Users.syncPolicy s id status).run.Ends env s.id d r d') :
    (FollowUp.ofStatus id status).Leads env d r d' := by
  cases status with
  | enabled => exact leads_afterCommit (fun _ h => h) h
  | disabled => exact leads_afterCommit (fun _ h => h) h

end Leads

/-- A commit changes the tables and is followed up. -/
theorem Mutation.Commits.changes {env : Surroundings} {users : UserPolicy} {actor : String}
    {m : Mutation} {d d' : Desk} {r : Except ServiceError m.Result}
    (hmenus : (d.tables.menus.map Menu.id).Nodup) (husers : (d.tables.users.map User.id).Nodup)
    (h : m.Commits env users actor d r d') :
    ∃ a, m.Changes env d.tables a d'.tables ∧
      (m.followUp d.tables d'.tables a).Leads env ⟨d'.tables, d.engine⟩ r d' ∧
        ∀ b, r = .ok b → b = a := by
  cases m with
  | createMenu input =>
    obtain ⟨-, s, menu, hbody, hafter⟩ := h
    obtain ⟨row, hadded, -⟩ := Menus.ends_insert hbody
    exact ⟨menu, ⟨row, hadded⟩, leads_pure hafter⟩
  | updateMenu id input =>
    obtain ⟨hf, -, s, menu, hbody, hafter⟩ := h
    obtain ⟨rfl, old, row, hupdated⟩ := Menus.ends_applyUpdate hmenus hf hbody
    exact ⟨menu, ⟨old, row, hupdated⟩,
      leads_return (fun _ => leads_afterCommit fun _ => ends_menuGrantees) hafter⟩
  | deleteMenu id =>
    obtain ⟨s, granting, hbody, hafter⟩ := h
    obtain ⟨hremoved, rfl⟩ := Menus.ends_remove hbody
    exact ⟨(), hremoved, leads_afterCommit (fun _ h => h) hafter, fun _ _ => rfl⟩
  | seedMenus forest =>
    obtain ⟨s, n, hbody, hafter⟩ := h
    have hgrown := Menus.ends_seeding hbody
    exact ⟨n, hgrown, leads_pure hafter⟩
  | createRole input =>
    obtain ⟨-, s, role, hbody, hafter⟩ := h
    have hadded := Roles.ends_insert hbody
    exact ⟨role, hadded, leads_return (fun _ => leads_project) hafter⟩
  | updateRole id input =>
    obtain ⟨hf, s, role, hbody, hafter⟩ := h
    obtain ⟨rfl, hupdated⟩ := Roles.ends_applyUpdate hf hbody
    exact ⟨role, hupdated, leads_return (fun _ => leads_project) hafter⟩
  | deleteRole id =>
    obtain ⟨s, _, hbody, hafter⟩ := h
    have hremoved := Roles.ends_remove hbody
    exact ⟨(), hremoved, leads_afterCommit (fun _ h => h) hafter, fun _ _ => rfl⟩
  | createUser input =>
    obtain ⟨-, hash, s, user, hbody, hafter⟩ := h
    obtain ⟨row, hadded, hid, hstatus⟩ := Users.ends_insert hbody
    dsimp only at hafter
    rw [hstatus] at hafter
    exact ⟨user, ⟨row, hadded, hid⟩, leads_return (fun _ => leads_syncPolicy) hafter⟩
  | updateUser id input =>
    obtain ⟨-, hash, s, user, hbody, hafter⟩ := h
    obtain ⟨rfl, hstatus, hupdated⟩ := Users.ends_applyUpdate husers hbody
    dsimp only at hafter
    rw [hstatus] at hafter
    exact ⟨user, hupdated, leads_return (fun _ => leads_syncPolicy) hafter⟩
  | deleteUser id =>
    obtain ⟨s, _, hbody, hafter⟩ := h
    have hremoved := Users.ends_remove hbody
    exact ⟨(), hremoved, leads_afterCommit (fun _ h => h) hafter, fun _ _ => rfl⟩
  | updateStatus id status =>
    obtain ⟨s, _, hbody, hafter⟩ := h
    have hset := Users.ends_setStatus hbody
    exact ⟨(), hset, leads_syncPolicy hafter, fun _ _ => rfl⟩
  | updatePassword id password =>
    obtain ⟨hash, s, a, hbody, hafter⟩ := h
    exact ⟨a, (Users.ends_setPassword hbody).2, leads_pure hafter⟩
  | changeOwnPassword userId old new =>
    obtain ⟨hash, s, a, hbody, hafter⟩ := h
    exact ⟨a, (Users.ends_setPassword hbody).2, leads_pure hafter⟩

end AccessAdmin
