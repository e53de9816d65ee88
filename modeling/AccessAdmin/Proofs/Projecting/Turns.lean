import AccessAdmin.Proofs.Projecting.Entitlements

/-!
# What projections do to the engine

A projection reads the tables and calls the engine. What every successful run of it does, and that
on a coherent engine every run is successful, is proved of its calls one by one and put together
along the way it is written.

* `Projecting.Turns`: what a projection makes of the engine.
* `Overwrites`: some rules are set anew, the others are left.
* `turns_followUp`: a follow-up sets the rules of its subjects to what the tables come to.
-/

namespace AccessAdmin

open Policy

/-- A successful run of a projection leaves the tables as they are and turns the engine as the
relation says. On a coherent engine every run is successful and leaves the engine coherent. -/
structure Projecting.Turns {α : Type} (env : Surroundings) (sid : Store.SessionId)
    (t : Store.Tables) (p : Projecting α) (R : Engine → Engine → Prop) : Prop where
  ok : ∀ {e a d'}, p.run.Ends env sid ⟨t, e⟩ (.ok a) d' → d'.tables = t ∧ R e d'.engine
  safe : ∀ {e o d'}, e.Coherent → p.run.Ends env sid ⟨t, e⟩ o d' →
    (∃ a, o = .ok a) ∧ d'.engine.Coherent

namespace Projecting

variable {α β : Type} {env : Surroundings} {sid : Store.SessionId} {s : Session}
  {t : Store.Tables} {R S : Engine → Engine → Prop}

theorem turns_pure (a : α) : Turns env sid t (pure a) fun e e' => e' = e where
  ok h := by
    obtain ⟨-, rfl⟩ := ends_pure.1 h
    exact ⟨rfl, rfl⟩
  safe he h := by
    obtain ⟨rfl, rfl⟩ := ends_pure.1 h
    exact ⟨⟨_, rfl⟩, he⟩

theorem Turns.mono {p : Projecting α} (h : Turns env sid t p R) (hsub : ∀ e e', R e e' → S e e') :
    Turns env sid t p S where
  ok hp := ⟨(h.ok hp).1, hsub _ _ (h.ok hp).2⟩
  safe := h.safe

theorem Turns.seq {x : Projecting α} {f : α → Projecting β} (hx : Turns env sid t x R)
    (hf : ∀ a, Turns env sid t (f a) S) :
    Turns env sid t (x >>= f) fun e e' => ∃ e₁, R e e₁ ∧ S e₁ e' where
  ok h := by
    obtain ⟨a, ⟨_, e₁⟩, ha, hb⟩ := ends_seq_ok.1 h
    obtain ⟨rfl, hR⟩ := hx.ok ha
    obtain ⟨ht, hS⟩ := (hf a).ok hb
    exact ⟨ht, e₁, hR, hS⟩
  safe he h := by
    obtain ⟨a, ⟨_, e₁⟩, ha, hb⟩ | ⟨_, herr, -⟩ := ends_seq.1 h
    · obtain ⟨rfl, -⟩ := hx.ok ha
      exact (hf a).safe (hx.safe he ha).2 hb
    · obtain ⟨_, hok⟩ := (hx.safe he herr).1
      cases hok

/-- What follows a question depends on the answer that the tables give. -/
theorem turns_ask_then {q : Store.Read} [q.Fits] {f : q.Reply → Projecting β}
    (hf : Turns env s.id t (f (t.ask q)) R) : Turns env s.id t (ask s q >>= f) R where
  ok h := by
    obtain ⟨_, _, ha, hb⟩ := ends_seq_ok.1 h
    obtain ⟨hanswer, rfl⟩ := ends_ask.1 ha
    obtain rfl := Except.ok.inj hanswer
    exact hf.ok hb
  safe he h := by
    obtain ⟨_, _, ha, hb⟩ | ⟨_, herr, -⟩ := ends_seq.1 h
    · obtain ⟨hanswer, rfl⟩ := ends_ask.1 ha
      obtain rfl := Except.ok.inj hanswer
      exact hf.safe he hb
    · exact nomatch (ends_ask.1 herr).1

theorem Turns.counted {p : Projecting α} (h : Turns env sid t p R) (subject : Subject) :
    Turns env sid t (counted subject p) R where
  ok hp := h.ok (ends_counted.1 hp)
  safe he hp := h.safe he (ends_counted.1 hp)

theorem Turns.discard {p : Projecting α} (h : Turns env s.id t p R) :
    Turns env s.id t (discard p) R where
  ok hp := by
    obtain ⟨a, ha, -⟩ | ⟨_, -, hok⟩ := ends_discard.1 hp
    · exact h.ok ha
    · cases hok
  safe he hp := by
    obtain ⟨a, ha, rfl⟩ | ⟨_, herr, rfl⟩ := ends_discard.1 hp
    · exact ⟨⟨_, rfl⟩, (h.safe he ha).2⟩
    · obtain ⟨_, hok⟩ := (h.safe he herr).1
      cases hok

/-- The engine is turned for the items of a list, one after the other. -/
def Each (R : α → Engine → Engine → Prop) : List α → Engine → Engine → Prop
  | [], e, e' => e' = e
  | x :: xs, e, e' => ∃ e₁, R x e e₁ ∧ Each R xs e₁ e'

theorem turns_forAll {act : α → Projecting Unit} {R : α → Engine → Engine → Prop} {items : List α}
    (h : ∀ x ∈ items, Turns env sid t (act x) (R x)) :
    Turns env sid t (forAll items act) (Each R items) := by
  induction items with
  | nil => exact turns_pure ()
  | cons x rest ih => exact (h x (.head _)).seq fun _ => ih fun y hy => h y (.tail _ hy)

/-- A call on the engine that coherent engines do not refuse. -/
theorem turns_engine {p : Program (Except EngineError Bool)}
    {f : Engine → Except EngineError Bool × Engine}
    (hp : ∀ {e o d'}, p.Ends env sid ⟨t, e⟩ o d' → o = (f e).1 ∧ d' = ⟨t, (f e).2⟩)
    (hf : ∀ e : Engine, e.Coherent → (∃ b, (f e).1 = .ok b) ∧ (f e).2.Coherent) :
    Turns env sid t (engine p) fun e e' => ∃ b, f e = (.ok b, e') where
  ok {e _ _} h := by
    obtain ⟨o, ho, htold⟩ := ends_engine.1 h
    obtain ⟨rfl, rfl⟩ := hp ho
    cases hfe : (f e).1 with
    | ok b => exact ⟨rfl, b, Prod.ext hfe rfl⟩
    | error err =>
      rw [hfe] at htold
      cases htold
  safe {e _ _} he h := by
    obtain ⟨o, ho, rfl⟩ := ends_engine.1 h
    obtain ⟨rfl, rfl⟩ := hp ho
    obtain ⟨⟨b, hb⟩, hcoherent⟩ := hf e he
    exact ⟨⟨(), by rw [hb]; rfl⟩, hcoherent⟩

theorem turns_removePermissions (id : String) :
    Turns env sid t (engine (Program.perform (.policy (.removePermissions id))))
      fun e e' => ∃ b, e.removePermissions id = (.ok b, e') :=
  turns_engine (Program.ends_perform.1 ·) fun _ he => ⟨⟨_, rfl⟩, he.removePermissions id⟩

theorem turns_addPermission {id path method : String} (hid : id ≠ "") (hpath : path ≠ "")
    (hmethod : method ≠ "") :
    Turns env sid t (engine (Program.perform (.policy (.addPermission id path method))))
      fun e e' => ∃ b, e.addPermission id path method = (.ok b, e') :=
  turns_engine (Program.ends_perform.1 ·) fun _ he => he.addPermission hid hpath hmethod

theorem turns_removeMemberships (id : String) :
    Turns env sid t (engine (Program.perform (.policy (.removeMemberships id))))
      fun e e' => ∃ b, e.removeMemberships id = (.ok b, e') :=
  turns_engine (Program.ends_perform.1 ·) fun _ he => he.removeMembershipsWhere _

theorem turns_removeRoleMemberships (id : String) :
    Turns env sid t (engine (Program.perform (.policy (.removeRoleMemberships id))))
      fun e e' => ∃ b, e.removeRoleMemberships id = (.ok b, e') :=
  turns_engine (Program.ends_perform.1 ·) fun _ he => he.removeMembershipsWhere _

theorem turns_addMembership {user role : String} (huser : user ≠ "") (hrole : role ≠ "")
    (hne : user ≠ role) :
    Turns env sid t (engine (Program.perform (.policy (.addMembership user role))))
      fun e e' => ∃ b, e.addMembership user role = (.ok b, e') :=
  turns_engine (Program.ends_perform.1 ·) fun _ he => he.addMembership huser hrole hne

end Projecting

/-! ## Rules that are set anew -/

/-- The touched items are in the second list as wanted, the others as they were in the first. -/
def Overwrites {α : Type} (touched wanted : α → Prop) (before after : List α) : Prop :=
  ∀ x, x ∈ after ↔ (touched x ∧ wanted x) ∨ (¬touched x ∧ x ∈ before)

namespace Overwrites

variable {α : Type} {touched touched' wanted : α → Prop} {xs ys zs : List α}

theorem none (h : ∀ x, ¬touched x) : Overwrites touched wanted xs xs := fun x => by
  simp only [h x, false_and, not_false_eq_true, true_and, false_or]

/-- The touched items are replaced by items that are wanted where they touch. -/
theorem of_replaced {P : α → Prop}
    (hafter : ∀ x, x ∈ ys ↔ (x ∈ xs ∧ ¬touched x) ∨ (touched x ∧ P x))
    (hP : ∀ x, touched x → (P x ↔ wanted x)) : Overwrites touched wanted xs ys := fun x => by
  rw [hafter x, and_congr_right (hP x), or_comm, and_comm (a := x ∈ xs)]

/-- The touched items are removed and none of them is wanted. -/
theorem of_removed (hafter : ∀ x, x ∈ ys ↔ x ∈ xs ∧ ¬touched x)
    (hgone : ∀ x, touched x → ¬wanted x) : Overwrites touched wanted xs ys :=
  of_replaced (P := fun _ => False) (fun x => by rw [hafter x, and_false, or_false]) fun x hx =>
    (iff_false_intro (hgone x hx)).symm

theorem trans (h : Overwrites touched wanted xs ys) (h' : Overwrites touched' wanted ys zs) :
    Overwrites (fun x => touched x ∨ touched' x) wanted xs zs := fun x => by
  rw [h' x, h x]
  tauto

end Overwrites

namespace FollowUp

/-- The permissions that a follow-up sets anew: those of the roles it projects or drops. -/
def TouchesRule : FollowUp → Permission → Prop
  | roles ids, p => p.subject ∈ ids
  | dropRole id, p => p.subject = id
  | nothing, _ | user _, _ | dropUser _, _ => False

/-- The memberships that a follow-up sets anew: those of the user it projects or drops, and those in
a role it drops. -/
def TouchesMembership : FollowUp → Membership → Prop
  | dropRole id, m => m.role = id
  | user id, m | dropUser id, m => m.user = id
  | nothing, _ | roles _, _ => False

/-- The rules of the subjects of a follow-up are what the tables come to, and all other rules are as
they were. -/
structure Done (f : FollowUp) (t : Store.Tables) (e e' : Engine) : Prop where
  permissions : Overwrites f.TouchesRule t.Entitles e.permissions e'.permissions
  memberships : Overwrites f.TouchesMembership t.Enrolls e.memberships e'.memberships

/-- A follow-up that fits the tables it is made on: it projects what is stored and enabled, and
drops what is not. -/
def Apt (t : Store.Tables) : FollowUp → Prop
  | nothing => True
  | roles ids => ∀ id ∈ ids, id ≠ ""
  | dropRole id => id ≠ "" ∧ ∀ r ∈ t.roles, r.id ≠ id
  | user id => ∃ u ∈ t.users, u.id = id ∧ u.status = .enabled
  | dropUser id => id ≠ "" ∧ ∀ u ∈ t.users, u.id = id → u.status ≠ .enabled

end FollowUp

section Projections

open Projecting

variable {env : Surroundings} {sid : Store.SessionId} {s : Session} {t : Store.Tables}
  {used : List String} {e e' : Engine} {id : String}

theorem mem_roleRules {grants : List Grant} {resources : List MenuResource} {r : String × String} :
    r ∈ roleRules grants resources ↔
      ∃ g ∈ grants, ∃ x ∈ resources, g.Yields x ⟨g.roleId, r.1, r.2⟩ := by
  simp only [roleRules, sortedDistinct, List.mem_mergeSort, List.mem_eraseDups, List.mem_flatMap,
    List.mem_map, List.mem_filter, Bool.and_eq_true, beq_iff_eq, MenuResource.isEnforceable_iff]
  constructor
  · rintro ⟨g, hg, code, hcode, x, ⟨hx, ⟨hmenu, rfl⟩, henf⟩, rfl⟩
    exact ⟨g, hg, x, hx, rfl, hmenu, hcode, rfl, rfl, henf⟩
  · rintro ⟨g, hg, x, hx, hy⟩
    exact ⟨g, hg, x.code, hy.code, x, ⟨hx, ⟨hy.menu, rfl⟩, hy.enforceable⟩,
      Prod.ext hy.path hy.method⟩

/-- The rules of a role are what its stored grants and the stored resources come to, though only the
resources of the granted menus are looked at. -/
theorem mem_rulesOf {grants : List Grant} (hgrants : grants = t.roleMenus.filter (·.roleId == id))
    {r : String × String} :
    r ∈ roleRules grants (t.menuResources.filter ((grants.map Grant.menuId).contains ·.menuId)) ↔
      ∃ g ∈ t.roleMenus, ∃ x ∈ t.menuResources, g.Yields x ⟨id, r.1, r.2⟩ := by
  simp only [hgrants, mem_roleRules, List.mem_filter, List.contains_iff_mem, List.mem_map,
    beq_iff_eq]
  constructor
  · rintro ⟨g, ⟨hg, rfl⟩, x, ⟨hx, -⟩, hy⟩
    exact ⟨g, hg, x, hx, hy⟩
  · rintro ⟨g, hg, x, hx, hy⟩
    obtain rfl := hy.subject
    exact ⟨g, ⟨hg, rfl⟩, x, ⟨hx, g, ⟨hg, rfl⟩, hy.menu.symm⟩, hy⟩

theorem each_addPermission {rules : List (String × String)}
    (h : Each (fun r e e' => ∃ b, e.addPermission id r.1 r.2 = (.ok b, e')) rules e e') :
    e'.memberships = e.memberships ∧
      ∀ p, p ∈ e'.permissions ↔
        p ∈ e.permissions ∨ (p.subject = id ∧ (p.path, p.method) ∈ rules) := by
  induction rules generalizing e with
  | nil =>
    obtain rfl := h
    simp only [List.not_mem_nil, and_false, or_false, implies_true, and_true]
  | cons r rest ih =>
    obtain ⟨e₁, ⟨b, hadd⟩, hrest⟩ := h
    obtain ⟨hms, hps⟩ := ih hrest
    have hframe := (Engine.addPermission_frame e id r.1 r.2).1
    rw [hadd] at hframe
    refine ⟨hms.trans hframe, fun p => ?_⟩
    rw [hps, Engine.mem_addPermission hadd, List.mem_cons, Permission.mk.injEq, Prod.ext_iff]
    tauto

theorem each_addMembership {edges : List Assignment}
    (h : Each (fun a e e' => ∃ b, e.addMembership id a.roleId = (.ok b, e')) edges e e') :
    e'.permissions = e.permissions ∧ ∀ m, m ∈ e'.memberships ↔
      m ∈ e.memberships ∨ (m.user = id ∧ ∃ a ∈ edges, a.roleId = m.role) := by
  induction edges generalizing e with
  | nil =>
    obtain rfl := h
    simp only [List.not_mem_nil, false_and, exists_false, and_false, or_false, implies_true,
      and_true]
  | cons a rest ih =>
    obtain ⟨e₁, ⟨b, hadd⟩, hrest⟩ := h
    obtain ⟨hps, hms⟩ := ih hrest
    have hframe := Engine.permissions_addMembership e id a.roleId
    rw [hadd] at hframe
    refine ⟨hps.trans hframe, fun m => ?_⟩
    rw [hms, Engine.mem_addMembership hadd, List.exists_mem_cons_iff, Membership.mk.injEq,
      eq_comm (a := a.roleId)]
    tauto

/-- The permissions of a role are taken away and set anew. -/
theorem setRules_done (h : t.Sound used) (hid : id ≠ "") {rules : List (String × String)}
    (hrules : ∀ r : String × String, r ∈ rules ↔
      ∃ g ∈ t.roleMenus, ∃ x ∈ t.menuResources, g.Yields x ⟨id, r.1, r.2⟩) {e₁ : Engine} {b : Bool}
    (hremove : e.removePermissions id = (.ok b, e₁))
    (hadd : Each (fun r e e' => ∃ b, e.addPermission id r.1 r.2 = (.ok b, e')) rules e₁ e') :
    (FollowUp.roles [id]).Done t e e' := by
  obtain rfl : (e.removePermissions id).2 = e₁ := congrArg Prod.snd hremove
  obtain ⟨hms, hps⟩ := each_addPermission hadd
  constructor
  · refine .of_replaced (P := fun p => (p.path, p.method) ∈ rules) (fun p => ?_) fun p hp => ?_
    · rw [hps, Engine.mem_removePermissions hid, FollowUp.TouchesRule, List.mem_singleton]
    · obtain rfl := List.mem_singleton.1 hp
      rw [hrules, h.entitles_iff]
  · rw [hms]
    exact .none fun _ => not_false

theorem turns_setRules (h : t.Sound used) (hid : id ≠ "") {rules : List (String × String)}
    (hrules : ∀ r : String × String, r ∈ rules ↔
      ∃ g ∈ t.roleMenus, ∃ x ∈ t.menuResources, g.Yields x ⟨id, r.1, r.2⟩) {n : Nat} :
    Turns env sid t (do
      Projecting.engine (Program.perform (.policy (.removePermissions id)))
      Projecting.forAll rules fun r =>
        Projecting.engine (Program.perform (.policy (.addPermission id r.1 r.2)))
      return n) ((FollowUp.roles [id]).Done t) := by
  have hadds : Turns env sid t
      (Projecting.forAll rules fun r =>
        Projecting.engine (Program.perform (.policy (.addPermission id r.1 r.2))))
      (Each (fun r e e' => ∃ b, e.addPermission id r.1 r.2 = (.ok b, e')) rules) := by
    refine turns_forAll fun r hr => ?_
    obtain ⟨g, _, x, _, hy⟩ := (hrules r).1 hr
    obtain ⟨hmethod, hpath⟩ := hy.enforceable
    rw [hy.method] at hmethod
    rw [hy.path] at hpath
    exact turns_addPermission hid hpath hmethod
  refine ((turns_removePermissions id).seq fun _ => hadds.seq fun _ => turns_pure n).mono ?_
  rintro e _ ⟨e₁, ⟨b, hremove⟩, e', hadd, rfl⟩
  exact setRules_done h hid hrules hremove hadd

theorem turns_role (h : t.Sound used) (hid : id ≠ "") :
    Turns env s.id t (Projection.role s id) ((FollowUp.roles [id]).Done t) := by
  refine (turns_ask_then ?_).counted .role
  have hgrants : t.ask (.listRoleMenus [id]) = t.roleMenus.filter (·.roleId == id) :=
    Store.ask_ofOwner t.roleMenus Grant.roleId id
  generalize t.ask (.listRoleMenus [id]) = grants at hgrants
  dsimp only
  -- Without grants the resources are not asked for.
  split
  · rename_i hempty
    rw [List.isEmpty_iff, List.map_eq_nil_iff] at hempty
    rw [pure_bind]
    refine turns_setRules h hid fun r => ?_
    rw [← mem_rulesOf hgrants, hempty]
    rfl
  · exact turns_ask_then (turns_setRules h hid fun r => mem_rulesOf hgrants)

/-- Roles are set anew one after the other. -/
theorem each_role {ids : List String}
    (h : Each (fun id => (FollowUp.roles [id]).Done t) ids e e') :
    (FollowUp.roles ids).Done t e e' := by
  induction ids generalizing e with
  | nil =>
    obtain rfl := h
    exact ⟨.none fun _ => List.not_mem_nil, .none fun _ => not_false⟩
  | cons id rest ih =>
    obtain ⟨e₁, hfirst, hrest⟩ := h
    have hrest := ih hrest
    constructor
    · intro p
      rw [hfirst.permissions.trans hrest.permissions p]
      simp only [FollowUp.TouchesRule, List.mem_cons, List.not_mem_nil, or_false]
    · intro m
      rw [hfirst.memberships.trans hrest.memberships m]
      simp only [FollowUp.TouchesMembership, or_self]

/-- Roles are projected one after the other; one that is named twice is set anew twice. -/
theorem turns_roles (h : t.Sound used) {ids : List String} (hids : ∀ id ∈ ids, id ≠ "") :
    Turns env s.id t ((FollowUp.roles ids).program s) ((FollowUp.roles ids).Done t) :=
  (turns_forAll fun id hid => (turns_role h (hids id hid)).discard).mono fun _ _ => each_role

theorem turns_removeRole (h : t.Sound used) (hid : id ≠ "") (hgone : ∀ r ∈ t.roles, r.id ≠ id) :
    Turns env sid t (Projection.removeRole id) ((FollowUp.dropRole id).Done t) := by
  refine ((turns_removePermissions id).seq fun _ => turns_removeRoleMemberships id).mono ?_
  rintro e e' ⟨e₁, ⟨_, hps⟩, _, hms⟩
  obtain rfl : (e.removePermissions id).2 = e₁ := congrArg Prod.snd hps
  obtain rfl : ((e.removePermissions id).2.removeRoleMemberships id).2 = e' := congrArg Prod.snd hms
  constructor
  · rw [Engine.removeRoleMemberships, Engine.permissions_remove]
    refine .of_removed (fun p => Engine.mem_removePermissions hid) ?_
    rintro p rfl ⟨⟨r, hr, he⟩, -⟩
    exact hgone r hr he
  · refine .of_removed (fun m => Engine.mem_removeRoleMemberships hid) ?_
    rintro m rfl ⟨-, ha⟩
    obtain ⟨r, hr, he⟩ := List.mem_map.1 (h.assigned _ ha).2
    exact hgone r hr he

theorem turns_removeUser (hid : id ≠ "")
    (hgone : ∀ u ∈ t.users, u.id = id → u.status ≠ .enabled) :
    Turns env sid t (Projection.removeUser id) ((FollowUp.dropUser id).Done t) := by
  refine (turns_removeMemberships id).mono ?_
  rintro e e' ⟨_, hms⟩
  obtain rfl : (e.removeMemberships id).2 = e' := congrArg Prod.snd hms
  constructor
  · rw [Engine.removeMemberships, Engine.permissions_remove]
    exact .none fun _ => not_false
  · refine .of_removed (fun m => Engine.mem_removeMemberships hid) ?_
    rintro m rfl ⟨⟨u, hu, he, hstatus⟩, -⟩
    exact hgone u hu he hstatus

theorem turns_user (h : t.Sound used) (hstored : ∃ u ∈ t.users, u.id = id ∧ u.status = .enabled) :
    Turns env s.id t (Projection.user s id) ((FollowUp.user id).Done t) := by
  obtain ⟨u, hu, rfl, hstatus⟩ := hstored
  have hid : u.id ≠ "" := h.user_ne_empty hu
  refine (turns_ask_then ?_).counted .user
  have hedges : t.ask (.listUserRoles [u.id]) = t.userRoles.filter (·.userId == u.id) :=
    Store.ask_ofOwner t.userRoles Assignment.userId u.id
  generalize t.ask (.listUserRoles [u.id]) = edges at hedges
  have hmem (a : Assignment) : a ∈ edges ↔ a ∈ t.userRoles ∧ a.userId = u.id := by
    rw [hedges, List.mem_filter, beq_iff_eq]
  have hadds : Turns env s.id t
      (Projecting.forAll edges fun a =>
        Projecting.engine (Program.perform (.policy (.addMembership u.id a.roleId))))
      (Each (fun a e e' => ∃ b, e.addMembership u.id a.roleId = (.ok b, e')) edges) := by
    refine turns_forAll fun a ha => ?_
    obtain ⟨r, hr, hrole⟩ := List.mem_map.1 (h.assigned a ((hmem a).1 ha).1).2
    rw [← hrole]
    exact turns_addMembership hid (h.role_ne_empty hr) (h.user_ne_role hu hr)
  refine ((turns_removeMemberships u.id).seq fun _ => hadds.seq fun _ => turns_pure _).mono ?_
  rintro e _ ⟨e₁, ⟨_, hremove⟩, e', hadd, rfl⟩
  obtain rfl : (e.removeMemberships u.id).2 = e₁ := congrArg Prod.snd hremove
  obtain ⟨hps, hms⟩ := each_addMembership hadd
  constructor
  · rw [hps, Engine.removeMemberships, Engine.permissions_remove]
    exact .none fun _ => not_false
  · refine .of_replaced (P := fun m => ∃ a ∈ edges, a.roleId = m.role) (fun m => ?_)
      fun m huser => ?_
    · rw [hms, Engine.mem_removeMemberships hid, FollowUp.TouchesMembership]
    · constructor
      · rintro ⟨a, ha, hrole⟩
        obtain ⟨ha, hauser⟩ := (hmem a).1 ha
        refine ⟨⟨u, hu, huser.symm, hstatus⟩, ?_⟩
        rw [show m.user = a.userId from huser.trans hauser.symm, ← hrole]
        exact ha
      · exact fun hm => ⟨_, (hmem _).2 ⟨hm.2, huser⟩, rfl⟩

/-- A follow-up that fits the tables sets the rules of its subjects to what the tables come to. -/
theorem turns_followUp {f : FollowUp} (h : t.Sound used) (hf : f.Apt t) :
    Turns env s.id t (f.program s) (f.Done t) := by
  cases f with
  | nothing =>
    refine (turns_pure ()).mono ?_
    rintro e _ rfl
    exact ⟨.none fun _ => not_false, .none fun _ => not_false⟩
  | roles ids => exact turns_roles h hf
  | dropRole id => exact turns_removeRole h hf.1 hf.2
  | user id => exact (turns_user h hf).discard
  | dropUser id => exact turns_removeUser hf.1 hf.2

end Projections

end AccessAdmin
