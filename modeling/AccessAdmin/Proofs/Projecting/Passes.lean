import AccessAdmin.Proofs.Engine.Obtained
import AccessAdmin.Proofs.Projecting.Turns
import Mathlib.Algebra.GroupWithZero.Nat

/-!
# Passes over everything

A pass projects every role and every enabled user and then removes the rules of everybody else. It
starts from any engine whose rules all have a subject, and ends with what the tables come to.

* `Projecting.Gives`: what a projection answers and makes of the engine.
* `Projection.Pass`: a pass in its four stages; `gives_all` says that every run is one.
* `Projection.Pass.agrees`: after a pass the engine agrees with the tables.
* `Projection.Pass.pruned_eq_zero`: when it did before, nothing is pruned.
-/

namespace AccessAdmin

open Policy

/-- A successful run of a projection leaves the tables as they are, and its answer and the engine
after it are as the relation says. On a coherent engine every run is successful and leaves the
engine coherent. -/
structure Projecting.Gives {α : Type} (env : Surroundings) (sid : Store.SessionId)
    (t : Store.Tables) (p : Projecting α) (R : Engine → α → Engine → Prop) : Prop where
  ok : ∀ {e a d'}, p.run.Ends env sid ⟨t, e⟩ (.ok a) d' → d'.tables = t ∧ R e a d'.engine
  safe : ∀ {e o d'}, e.Coherent → p.run.Ends env sid ⟨t, e⟩ o d' →
    (∃ a, o = .ok a) ∧ d'.engine.Coherent

namespace Projecting

variable {α β : Type} {env : Surroundings} {sid : Store.SessionId} {s : Session}
  {t : Store.Tables}

theorem Turns.gives {p : Projecting α} {R : Engine → Engine → Prop} {P : α → Prop}
    (h : Turns env sid t p R)
    (ha : ∀ {e a d'}, p.run.Ends env sid ⟨t, e⟩ (.ok a) d' → P a) :
    Gives env sid t p fun e a e' => R e e' ∧ P a where
  ok hp := ⟨(h.ok hp).1, (h.ok hp).2, ha hp⟩
  safe := h.safe

theorem Gives.mono {p : Projecting α} {R S : Engine → α → Engine → Prop}
    (h : Gives env sid t p R) (hsub : ∀ e a e', R e a e' → S e a e') : Gives env sid t p S where
  ok hp := ⟨(h.ok hp).1, hsub _ _ _ (h.ok hp).2⟩
  safe := h.safe

theorem Gives.seq {x : Projecting α} {f : α → Projecting β} {R : Engine → α → Engine → Prop}
    {S : α → Engine → β → Engine → Prop} (hx : Gives env sid t x R)
    (hf : ∀ a, Gives env sid t (f a) (S a)) :
    Gives env sid t (x >>= f) fun e b e' => ∃ a e₁, R e a e₁ ∧ S a e₁ b e' where
  ok h := by
    obtain ⟨a, ⟨_, e₁⟩, ha, hb⟩ := ends_seq_ok.1 h
    obtain ⟨rfl, hR⟩ := hx.ok ha
    obtain ⟨ht, hS⟩ := (hf a).ok hb
    exact ⟨ht, a, e₁, hR, hS⟩
  safe he h := by
    obtain ⟨a, ⟨_, e₁⟩, ha, hb⟩ | ⟨_, herr, -⟩ := ends_seq.1 h
    · obtain ⟨rfl, -⟩ := hx.ok ha
      exact (hf a).safe (hx.safe he ha).2 hb
    · obtain ⟨_, hok⟩ := (hx.safe he herr).1
      cases hok

theorem gives_ask_then {q : Store.Read} [q.Fits] {f : q.Reply → Projecting β}
    {R : Engine → β → Engine → Prop} (hf : Gives env s.id t (f (t.ask q)) R) :
    Gives env s.id t (ask s q >>= f) R where
  ok h := by
    obtain ⟨_, _, ha, hb⟩ := ends_seq_ok.1 h
    obtain ⟨hanswer, rfl⟩ := ends_ask.1 ha
    obtain rfl := Except.ok.inj hanswer
    exact hf.ok hb
  safe he h := by
    obtain ⟨_, _, ha, hb⟩ | ⟨_, herr, -⟩ := ends_seq.1 h
    · obtain ⟨hanswer, rfl⟩ := ends_ask.1 ha
      obtain rfl := Except.ok.inj hanswer
      exact hf.safe he hb
    · exact nomatch (ends_ask.1 herr).1

/-- What follows a look at everything the engine holds. -/
theorem gives_snapshot_then {f : Snapshot → Projecting β}
    {R : Snapshot → Engine → β → Engine → Prop} (hf : ∀ held, Gives env sid t (f held) (R held)) :
    Gives env sid t ((liftM (Program.perform (.policy .snapshot)) : Projecting Snapshot) >>= f)
      fun e b e' => R e.snapshot e b e' where
  ok h := by
    obtain ⟨_, _, ha, hb⟩ := ends_seq_ok.1 h
    obtain ⟨_, hlook, hanswer⟩ := ends_lift.1 ha
    obtain ⟨rfl, rfl⟩ := Program.ends_perform.1 hlook
    obtain rfl := Except.ok.inj hanswer
    exact (hf _).ok hb
  safe he h := by
    obtain ⟨_, _, ha, hb⟩ | ⟨_, herr, -⟩ := ends_seq.1 h
    · obtain ⟨_, hlook, hanswer⟩ := ends_lift.1 ha
      obtain ⟨rfl, rfl⟩ := Program.ends_perform.1 hlook
      obtain rfl := Except.ok.inj hanswer
      exact (hf _).safe he hb
    · obtain ⟨_, -, hanswer⟩ := ends_lift.1 herr
      cases hanswer

/-- The engine is turned for the items of a list, and their sizes are added up. -/
theorem gives_total {act : α → Projecting Nat} {R : α → Engine → Engine → Prop} {size : α → Nat}
    {items : List α}
    (h : ∀ x ∈ items, Gives env sid t (act x) fun e n e' => R x e e' ∧ n = size x) :
    Gives env sid t (total items act) fun e n e' =>
      Each R items e e' ∧ n = (items.map size).sum := by
  induction items with
  | nil => exact (turns_pure 0).gives fun hp => Except.ok.inj (ends_pure.1 hp).1
  | cons x rest ih =>
    have hrest := ih fun y hy => h y (.tail _ hy)
    refine ((h x (.head _)).seq fun n => hrest.seq fun m =>
      (turns_pure (n + m)).gives fun hp => Except.ok.inj (ends_pure.1 hp).1).mono ?_
    rintro e _ e' ⟨n, e₁, ⟨hx, rfl⟩, m, e₂, ⟨hrest, rfl⟩, rfl, rfl⟩
    exact ⟨⟨e₁, hx, hrest⟩, rfl⟩

end Projecting

/-! ## What the projections of one subject answer -/

open Projecting

/-- The paths and methods that the stored grants of a role come to. -/
def Store.Tables.rulesOf (t : Tables) (id : String) : List (String × String) :=
  let grants := t.roleMenus.filter (·.roleId == id)
  roleRules grants (t.menuResources.filter ((grants.map Grant.menuId).contains ·.menuId))

section Answers

variable {env : Surroundings} {s : Session} {t : Store.Tables} {used : List String}
  {e e' : Engine} {id : String} {n : Nat} {d' : Desk}

theorem answer_role (h : (Projection.role s id).run.Ends env s.id ⟨t, e⟩ (.ok n) d') :
    n = (t.rulesOf id).length := by
  have hgrants : t.ask (.listRoleMenus [id]) = t.roleMenus.filter (·.roleId == id) :=
    Store.ask_ofOwner t.roleMenus Grant.roleId id
  obtain ⟨_, _, ha, h⟩ := ends_seq_ok.1 (ends_counted.1 h)
  obtain ⟨hanswer, rfl⟩ := ends_ask.1 ha
  obtain rfl := Except.ok.inj hanswer
  rw [hgrants] at h
  dsimp only at h
  have hset {resources : List MenuResource} {d : Desk}
      (h : (do
        Projecting.engine (Program.perform (.policy (.removePermissions id)))
        Projecting.forAll (roleRules (t.roleMenus.filter (·.roleId == id)) resources) fun r =>
          Projecting.engine (Program.perform (.policy (.addPermission id r.1 r.2)))
        return (roleRules (t.roleMenus.filter (·.roleId == id)) resources).length :
          Projecting Nat).run.Ends env s.id d (.ok n) d') :
      n = (roleRules (t.roleMenus.filter (·.roleId == id)) resources).length := by
    obtain ⟨_, _, -, h⟩ := ends_seq_ok.1 h
    obtain ⟨_, _, -, h⟩ := ends_seq_ok.1 h
    exact Except.ok.inj (ends_pure.1 h).1
  split at h
  · rename_i hempty
    rw [List.isEmpty_iff, List.map_eq_nil_iff] at hempty
    rw [pure_bind] at h
    rw [hset h, Store.Tables.rulesOf, hempty]
    rfl
  · obtain ⟨_, _, ha, h⟩ := ends_seq_ok.1 h
    obtain ⟨hanswer, rfl⟩ := ends_ask.1 ha
    obtain rfl := Except.ok.inj hanswer
    exact hset h

theorem answer_user (h : (Projection.user s id).run.Ends env s.id ⟨t, e⟩ (.ok n) d') :
    n = (t.userRoles.filter (·.userId == id)).length := by
  have hedges : t.ask (.listUserRoles [id]) = t.userRoles.filter (·.userId == id) :=
    Store.ask_ofOwner t.userRoles Assignment.userId id
  obtain ⟨_, _, ha, h⟩ := ends_seq_ok.1 (ends_counted.1 h)
  obtain ⟨hanswer, rfl⟩ := ends_ask.1 ha
  obtain rfl := Except.ok.inj hanswer
  obtain ⟨_, _, -, h⟩ := ends_seq_ok.1 h
  obtain ⟨_, _, -, h⟩ := ends_seq_ok.1 h
  rw [← hedges]
  exact Except.ok.inj (ends_pure.1 h).1

theorem each_user {ids : List String} (h : Each (fun id => (FollowUp.user id).Done t) ids e e') :
    (∀ p, p ∈ e'.permissions ↔ p ∈ e.permissions) ∧
      Overwrites (fun m => m.user ∈ ids) t.Enrolls e.memberships e'.memberships := by
  induction ids generalizing e with
  | nil =>
    obtain rfl := h
    exact ⟨fun _ => Iff.rfl, .none fun _ => List.not_mem_nil⟩
  | cons id rest ih =>
    obtain ⟨e₁, hfirst, hrest⟩ := h
    obtain ⟨hps, hms⟩ := ih hrest
    constructor
    · intro p
      rw [hps, hfirst.permissions p]
      simp only [FollowUp.TouchesRule, false_and, not_false_eq_true, true_and, false_or]
    · intro m
      rw [hfirst.memberships.trans hms m]
      simp only [FollowUp.TouchesMembership, List.mem_cons]

theorem each_map {α β : Type} {f : α → β} {R : β → Engine → Engine → Prop} {xs : List α} :
    Each R (xs.map f) e e' ↔ Each (fun x => R (f x)) xs e e' := by
  induction xs generalizing e with
  | nil => exact Iff.rfl
  | cons x rest ih =>
    show (∃ e₁, _ ∧ Each R (rest.map f) e₁ e') ↔ ∃ e₁, _ ∧ Each _ rest e₁ e'
    simp only [ih]

theorem each_removePermissions {ids : List String} (hids : ∀ id ∈ ids, id ≠ "")
    (h : Each (fun id e e' => ∃ b, e.removePermissions id = (.ok b, e')) ids e e') :
    e'.memberships = e.memberships ∧
      ∀ p, p ∈ e'.permissions ↔ p ∈ e.permissions ∧ p.subject ∉ ids := by
  induction ids generalizing e with
  | nil =>
    obtain rfl := h
    simp only [List.not_mem_nil, not_false_eq_true, and_true, implies_true]
  | cons id rest ih =>
    obtain ⟨e₁, ⟨b, hremove⟩, hrest⟩ := h
    obtain rfl : (e.removePermissions id).2 = e₁ := congrArg Prod.snd hremove
    obtain ⟨hms, hps⟩ := ih (fun x hx => hids x (.tail _ hx)) hrest
    refine ⟨hms, fun p => ?_⟩
    rw [hps, Engine.mem_removePermissions (hids id (.head _)), List.mem_cons, not_or, and_assoc]

theorem each_removeMemberships {ids : List String} (hids : ∀ id ∈ ids, id ≠ "")
    (h : Each (fun id e e' => ∃ b, e.removeMemberships id = (.ok b, e')) ids e e') :
    e'.permissions = e.permissions ∧
      ∀ m, m ∈ e'.memberships ↔ m ∈ e.memberships ∧ m.user ∉ ids := by
  induction ids generalizing e with
  | nil =>
    obtain rfl := h
    simp only [List.not_mem_nil, not_false_eq_true, and_true, implies_true]
  | cons id rest ih =>
    obtain ⟨e₁, ⟨b, hremove⟩, hrest⟩ := h
    obtain rfl : (e.removeMemberships id).2 = e₁ := congrArg Prod.snd hremove
    obtain ⟨hps, hms⟩ := ih (fun x hx => hids x (.tail _ hx)) hrest
    refine ⟨hps.trans (Engine.permissions_remove e _), fun m => ?_⟩
    rw [hms, Engine.mem_removeMemberships (hids id (.head _)), List.mem_cons, not_or, and_assoc]

end Answers

/-! ## Names that are stale -/

section Stale

variable {α : Type} {name : α → String} {ids stale : List String} {wanted : α → Prop}
  {xs ys : List α}

/-- When the items of some names are set anew and those of all other names are pruned, the wanted
ones are left. -/
theorem Overwrites.pruned (h : Overwrites (name · ∈ ids) wanted xs ys)
    (hwanted : ∀ x, wanted x → name x ∈ ids)
    (hstale : ∀ id, id ∈ stale ↔ (∃ y ∈ ys, name y = id) ∧ id ∉ ids) (x : α) :
    x ∈ ys ∧ name x ∉ stale ↔ wanted x := by
  rw [hstale, h x]
  constructor
  · rintro ⟨⟨-, hx⟩ | ⟨hother, hx⟩, hfresh⟩
    · exact hx
    · exact (hfresh ⟨⟨x, (h x).2 (.inr ⟨hother, hx⟩), rfl⟩, hother⟩).elim
  · intro hx
    exact ⟨.inl ⟨hwanted x hx, hx⟩, fun hother => hother.2 (hwanted x hx)⟩

/-- When all items were wanted before, no name is stale. -/
theorem Overwrites.stale_eq_nil (h : Overwrites (name · ∈ ids) wanted xs ys)
    (hwanted : ∀ x, wanted x → name x ∈ ids)
    (hstale : ∀ id, id ∈ stale ↔ (∃ y ∈ ys, name y = id) ∧ id ∉ ids)
    (hxs : ∀ x ∈ xs, wanted x) : stale = [] := by
  refine List.eq_nil_iff_forall_not_mem.2 fun id hid => ?_
  obtain ⟨⟨y, hy, rfl⟩, hother⟩ := (hstale id).1 hid
  obtain ⟨hid, -⟩ | ⟨-, hy⟩ := (h y).1 hy
  · exact hother hid
  · exact hother (hwanted y (hxs y hy))

end Stale

/-! ## A pass -/

namespace Projection

/-- The subjects with permissions that are none of some roles. -/
def staleRoles (roles : List Role) (held : Snapshot) : List String :=
  sortedDistinct nameBefore <|
    (held.permissions.map (·.subject)).filter fun id => !roles.any (·.id == id)

/-- The subjects with memberships that are none of some users. -/
def staleUsers (users : List User) (held : Snapshot) : List String :=
  sortedDistinct nameBefore <|
    (held.memberships.map (·.user)).filter fun id => !users.any (·.id == id)

/-- The engine before a pass, its answer and the engine after it. The pass has four stages: the
roles, the enabled users, the removal of other permissions, the removal of other memberships. -/
def Pass (t : Store.Tables) (e : Engine) (summary : Summary) (e' : Engine) : Prop :=
  let roles := t.matchingRoles {}
  let users := t.matchingUsers .enabled
  ∃ e₁ e₂ e₃,
    (FollowUp.roles (roles.map Role.id)).Done t e e₁ ∧
    Each (fun id => (FollowUp.user id).Done t) (users.map User.id) e₁ e₂ ∧
    Each (fun id e e' => ∃ b, e.removePermissions id = (.ok b, e')) (staleRoles roles e₂.snapshot)
      e₂ e₃ ∧
    Each (fun id e e' => ∃ b, e.removeMemberships id = (.ok b, e')) (staleUsers users e₂.snapshot)
      e₃ e' ∧
    summary =
      { roles := roles.length
        users := users.length
        permissions := (roles.map fun r => (t.rulesOf r.id).length).sum
        memberships := (users.map fun u => (t.userRoles.filter (·.userId == u.id)).length).sum
        pruned := (staleRoles roles e₂.snapshot).length + (staleUsers users e₂.snapshot).length }

section Passes

variable {env : Surroundings} {s : Session} {t : Store.Tables} {used : List String}
  {e e' : Engine} {summary : Summary}

theorem matchingRoles_perm (t : Store.Tables) : (t.matchingRoles {}).Perm t.roles := by
  have hall : (t.roles.filter fun _ => true) = t.roles := List.filter_true _
  exact (List.mergeSort_perm _ _).trans (.of_eq hall)

theorem matchingUsers_perm (t : Store.Tables) :
    (t.matchingUsers .enabled).Perm (t.users.filter (·.status == .enabled)) := by
  refine (List.mergeSort_perm _ _).trans (.of_eq (List.filter_congr fun u _ => ?_))
  simp only [UserFilter.admits, UserFilter.enabled, Option.all_none, Option.all_some, Bool.true_and,
    Bool.and_true]

theorem mem_staleRoles {roles : List Role} {id : String} :
    id ∈ staleRoles roles e.snapshot ↔
      (∃ p ∈ e.permissions, p.subject = id) ∧ id ∉ roles.map Role.id := by
  simp only [staleRoles, sortedDistinct, Engine.snapshot, List.mem_mergeSort, List.mem_eraseDups,
    List.mem_filter, List.mem_map, Bool.not_eq_true', List.any_eq_false, beq_iff_eq, not_exists,
    not_and]

theorem mem_staleUsers {users : List User} {id : String} :
    id ∈ staleUsers users e.snapshot ↔
      (∃ m ∈ e.memberships, m.user = id) ∧ id ∉ users.map User.id := by
  simp only [staleUsers, sortedDistinct, Engine.snapshot, List.mem_mergeSort, List.mem_eraseDups,
    List.mem_filter, List.mem_map, Bool.not_eq_true', List.any_eq_false, beq_iff_eq, not_exists,
    not_and]

/-- The last two stages of a pass. -/
theorem gives_removals {staleRoles staleUsers : List String} :
    Gives env s.id t (do
      Projecting.forAll staleRoles fun id =>
        Projecting.engine (Program.perform (.policy (.removePermissions id)))
      Projecting.forAll staleUsers fun id =>
        Projecting.engine (Program.perform (.policy (.removeMemberships id)))
      return summary) fun e answer e' => ∃ e₁,
        Each (fun id e e' => ∃ b, e.removePermissions id = (.ok b, e')) staleRoles e e₁ ∧
        Each (fun id e e' => ∃ b, e.removeMemberships id = (.ok b, e')) staleUsers e₁ e' ∧
        answer = summary := by
  have hroles : Turns env s.id t (Projecting.forAll staleRoles fun id =>
      Projecting.engine (Program.perform (.policy (.removePermissions id))))
      (Each (fun id e e' => ∃ b, e.removePermissions id = (.ok b, e')) staleRoles) :=
    turns_forAll fun id _ => turns_removePermissions id
  have husers : Turns env s.id t (Projecting.forAll staleUsers fun id =>
      Projecting.engine (Program.perform (.policy (.removeMemberships id))))
      (Each (fun id e e' => ∃ b, e.removeMemberships id = (.ok b, e')) staleUsers) :=
    turns_forAll fun id _ => turns_removeMemberships id
  have hturns := hroles.seq fun _ => husers.seq fun _ => turns_pure summary
  refine (hturns.gives (P := (· = summary)) fun hp => ?_).mono ?_
  · obtain ⟨_, _, -, h⟩ := ends_seq_ok.1 hp
    obtain ⟨_, _, -, h⟩ := ends_seq_ok.1 h
    exact Except.ok.inj (ends_pure.1 h).1
  · rintro e _ e' ⟨⟨e₁, hroles, e₂, husers, rfl⟩, rfl⟩
    exact ⟨e₁, hroles, husers, rfl⟩

/-- Every run of a pass goes through its stages. -/
theorem gives_all (h : t.Sound used) : Gives env s.id t (all s) (Pass t) := by
  have hroles : Gives env s.id t (total (t.matchingRoles {}) fun r => role s r.id)
      fun e n e' => Each (fun r : Role => (FollowUp.roles [r.id]).Done t) (t.matchingRoles {}) e e' ∧
        n = ((t.matchingRoles {}).map fun r => (t.rulesOf r.id).length).sum :=
    gives_total fun r hr =>
      (turns_role h (h.role_ne_empty ((matchingRoles_perm t).mem_iff.1 hr))).gives answer_role
  have husers : Gives env s.id t (total (t.matchingUsers .enabled) fun u => user s u.id)
      fun e n e' => Each (fun u : User => (FollowUp.user u.id).Done t) (t.matchingUsers .enabled)
          e e' ∧
        n = ((t.matchingUsers .enabled).map fun u =>
          (t.userRoles.filter (·.userId == u.id)).length).sum := by
    refine gives_total fun u hu => (turns_user h ?_).gives answer_user
    obtain ⟨hstored, henabled⟩ := List.mem_filter.1 ((matchingUsers_perm t).mem_iff.1 hu)
    exact ⟨u, hstored, rfl, beq_iff_eq.1 henabled⟩
  refine (gives_ask_then (hroles.seq fun permissions => gives_ask_then (husers.seq fun memberships =>
    gives_snapshot_then fun held => gives_removals))).mono ?_
  rintro e _ e' ⟨_, e₁, ⟨hroles, rfl⟩, _, e₂, ⟨husers, rfl⟩, e₃, hps, hms, rfl⟩
  exact ⟨e₁, e₂, e₃, each_role (each_map.2 hroles), each_map.2 husers, hps, hms, rfl⟩

/-- The first two stages set the rules of the roles and of the enabled users anew, and leave the
others. -/
theorem stages_done {e₁ e₂ : Engine} {roleIds userIds : List String}
    (hroles : (FollowUp.roles roleIds).Done t e e₁)
    (husers : Each (fun id => (FollowUp.user id).Done t) userIds e₁ e₂) :
    Overwrites (fun p => p.subject ∈ roleIds) t.Entitles e.permissions e₂.permissions ∧
      Overwrites (fun m => m.user ∈ userIds) t.Enrolls e.memberships e₂.memberships := by
  obtain ⟨hps, hms⟩ := each_user husers
  refine ⟨fun p => (hps p).trans (hroles.permissions p), fun m => ?_⟩
  have hkept : m ∈ e₁.memberships ↔ m ∈ e.memberships := by
    rw [hroles.memberships m]
    simp only [FollowUp.TouchesMembership, false_and, not_false_eq_true, true_and, false_or]
  rw [hms m, hkept]

theorem mem_roleIds (t : Store.Tables) {id : String} :
    id ∈ (t.matchingRoles {}).map Role.id ↔ ∃ r ∈ t.roles, r.id = id := by
  rw [((matchingRoles_perm t).map Role.id).mem_iff, List.mem_map]

theorem mem_userIds (t : Store.Tables) {id : String} :
    id ∈ (t.matchingUsers .enabled).map User.id ↔
      ∃ u ∈ t.users, u.id = id ∧ u.status = .enabled := by
  rw [((matchingUsers_perm t).map User.id).mem_iff]
  simp only [List.mem_map, List.mem_filter, beq_iff_eq]
  exact ⟨fun ⟨u, ⟨hu, hs⟩, he⟩ => ⟨u, hu, he, hs⟩, fun ⟨u, hu, he, hs⟩ => ⟨u, ⟨hu, hs⟩, he⟩⟩

/-- Whatever the engine held before, after a pass it agrees with the tables. -/
theorem Pass.agrees (hp : Pass t e summary e') (h : t.Sound used) (hn : e.Named) :
    Agrees t e' := by
  obtain ⟨e₁, e₂, e₃, hroles, husers, hps, hms, -⟩ := hp
  obtain ⟨hrules, hedges⟩ := stages_done hroles husers
  -- Pruning a name means pruning that name alone: nobody has the empty name, which stands for all.
  have hstaleRoles (id : String) (hid : id ∈ staleRoles (t.matchingRoles {}) e₂.snapshot) :
      id ≠ "" := by
    obtain ⟨⟨p, hp, rfl⟩, -⟩ := mem_staleRoles.1 hid
    obtain ⟨-, ⟨r, hr, he⟩, -⟩ | ⟨-, hp⟩ := (hrules p).1 hp
    · exact he ▸ h.role_ne_empty hr
    · exact hn.subjects p hp
  have hstaleUsers (id : String) (hid : id ∈ staleUsers (t.matchingUsers .enabled) e₂.snapshot) :
      id ≠ "" := by
    obtain ⟨⟨m, hm, rfl⟩, -⟩ := mem_staleUsers.1 hid
    obtain ⟨-, ⟨u, hu, he, -⟩, -⟩ | ⟨-, hm⟩ := (hedges m).1 hm
    · exact he ▸ h.user_ne_empty hu
    · exact hn.users m hm
  obtain ⟨hms₃, hps₃⟩ := each_removePermissions hstaleRoles hps
  obtain ⟨hps', hms'⟩ := each_removeMemberships hstaleUsers hms
  constructor
  · intro p
    rw [hps', hps₃]
    exact hrules.pruned (fun p hp => (mem_roleIds t).2 hp.1) (fun _ => mem_staleRoles) p
  · intro m
    rw [hms', hms₃]
    exact hedges.pruned (fun m hm => (mem_userIds t).2 hm.1) (fun _ => mem_staleUsers) m

/-- A pass on an engine that agrees with the tables prunes nothing. -/
theorem Pass.pruned_eq_zero (hp : Pass t e summary e') (ha : Agrees t e) : summary.pruned = 0 := by
  obtain ⟨e₁, e₂, e₃, hroles, husers, -, -, rfl⟩ := hp
  obtain ⟨hrules, hedges⟩ := stages_done hroles husers
  have hnoRole : staleRoles (t.matchingRoles {}) e₂.snapshot = [] :=
    hrules.stale_eq_nil (fun p hp => (mem_roleIds t).2 hp.1) (fun _ => mem_staleRoles) fun p =>
      (ha.permissions p).1
  have hnoUser : staleUsers (t.matchingUsers .enabled) e₂.snapshot = [] :=
    hedges.stale_eq_nil (fun m hm => (mem_userIds t).2 hm.1) (fun _ => mem_staleUsers) fun m =>
      (ha.memberships m).1
  simp only [hnoRole, hnoUser, List.length_nil]

end Passes

end Projection

end AccessAdmin
