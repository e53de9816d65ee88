import AccessAdmin.Proofs.Engine.Obliging
import AccessAdmin.Proofs.Projecting.Frame
import AccessAdmin.Proofs.Projecting.Passes
import AccessAdmin.Proofs.Running.Weathers

/-!
# Projections whose questions fail

A projection of one subject asks the store for all that it needs before it touches the engine, and
an obliging engine refuses nothing that sound tables come to. So a failure strikes before the first
rule is removed, and what a projection of several subjects leaves behind is old for some subjects
and new for the others.

* `Projecting.Withstands`: what a projection makes of an obliging engine, whatever fails.
* `withstands_role`, `withstands_user`: one subject. After an error the engine is as it was.
* `Unmixed`: the rules of every subject are all old or all new.
* `withstands_menuGrantees`, `withstands_all`: several subjects.
-/

namespace AccessAdmin

open Policy

namespace Projecting

/-- How a projection on sound tables `t` and an engine `e` comes out: the tables are as they were
and the engine is obliging. After a success `R` says what became of the engine, after an error `B`
does, and then something has failed. -/
structure CameOut {α : Type} (fails : Prop) (t : Store.Tables) (e : Engine)
    (R B : Engine → Engine → Prop) (r : Except ProjectionError α) (d : Desk) : Prop where
  tables : d.tables = t
  obliging : d.engine.Obliging
  ok : ∀ a, r = .ok a → R e d.engine
  error : ∀ err, r = .error err → fails ∧ B e d.engine

/-- Whatever of its questions fail, a projection on an obliging engine comes out as it should. -/
def Withstands {α : Type} (env : Surroundings) (sid : Store.SessionId) (fails : Prop)
    (t : Store.Tables) (p : Projecting α) (R B : Engine → Engine → Prop) : Prop :=
  ∀ e : Engine, e.Obliging → p.run.Weathers env sid fails (CameOut fails t e R B) ⟨t, e⟩

/-- What is left of an engine may be left of it after a success as well. -/
structure Steps (R B : Engine → Engine → Prop) : Prop where
  refl : ∀ e, R e e
  trans : ∀ {e e₁ e'}, R e e₁ → R e₁ e' → R e e'
  after : ∀ {e e₁ e'}, R e e₁ → B e₁ e' → B e e'

variable {α β : Type} {env : Surroundings} {sid : Store.SessionId} {s : Session} {fails : Prop}
  {t : Store.Tables} {R S B B' : Engine → Engine → Prop}

theorem steps_sure : Steps (fun _ _ => True) (fun _ _ => False) where
  refl _ := trivial
  trans _ _ := trivial
  after _ h := h

theorem CameOut.of_ok {e e' : Engine} {a : α} (he : e'.Obliging) (h : R e e') :
    CameOut fails t e R B (.ok a) ⟨t, e'⟩ :=
  ⟨rfl, he, fun _ _ => h, fun _ herr => nomatch herr⟩

theorem CameOut.of_error {e e' : Engine} {err : ProjectionError} (he : e'.Obliging)
    (hfails : fails) (h : B e e') :
    CameOut fails t e R B (.error err : Except ProjectionError α) ⟨t, e'⟩ :=
  ⟨rfl, he, fun _ hok => (nomatch hok), fun _ _ => ⟨hfails, h⟩⟩

theorem withstands_pure (a : α) :
    Withstands env sid fails t (pure a) (fun e e' => e' = e) (fun _ _ => False) :=
  fun _ he => CameOut.of_ok he rfl

theorem Withstands.mono {p : Projecting α} (h : Withstands env sid fails t p R B)
    (hR : ∀ e e', R e e' → S e e') (hB : ∀ e e', B e e' → B' e e') :
    Withstands env sid fails t p S B' := fun e he =>
  (h e he).mono fun _ _ h => ⟨h.tables, h.obliging, fun a ha => hR _ _ (h.ok a ha),
    fun err herr => (h.error err herr).imp_right (hB _ _)⟩

theorem Withstands.seq {x : Projecting α} {f : α → Projecting β}
    (hx : Withstands env sid fails t x R B) (hf : ∀ a, Withstands env sid fails t (f a) S B')
    (hB : ∀ {e e₁ e'}, R e e₁ → B' e₁ e' → B e e') :
    Withstands env sid fails t (x >>= f) (fun e e' => ∃ e₁, R e e₁ ∧ S e₁ e') B := by
  intro e he
  rw [ExceptT.run_bind, Program.bind_eq, Program.Weathers.bind_iff]
  refine (hx e he).mono fun r d h => ?_
  obtain ⟨t₁, e₁⟩ := d
  obtain rfl : t₁ = t := h.tables
  cases r with
  | error err =>
    obtain ⟨hfails, hB'⟩ := h.error err rfl
    exact .of_error h.obliging hfails hB'
  | ok a =>
    have hR : R e e₁ := h.ok a rfl
    exact (hf a e₁ h.obliging).mono fun _ _ h' => ⟨h'.tables, h'.obliging,
      fun b hb => ⟨e₁, hR, h'.ok b hb⟩, fun err herr => (h'.error err herr).imp_right (hB hR)⟩

/-- A question that fails is the end, and the engine is as it was. -/
theorem withstands_ask_then {q : Store.Read} [q.Fits] {f : q.Reply → Projecting β}
    (hf : Withstands env s.id fails t (f (t.ask q)) R B) (hB : ∀ e, B e e) :
    Withstands env s.id fails t (ask s q >>= f) R B := by
  intro e he
  rw [ExceptT.run_bind, Program.bind_eq, Program.Weathers.bind_iff]
  constructor
  · rintro r _ ⟨-, hreply, rfl⟩
    rw [Store.Tables.answer_fits] at hreply
    obtain rfl := hreply
    exact hf e he
  · rintro hfails (err | _) hr
    · exact CameOut.of_error he hfails (hB e)
    · exact hr.elim

theorem Withstands.counted {p : Projecting α} (h : Withstands env sid fails t p R B)
    (subject : Subject) : Withstands env sid fails t (counted subject p) R B := by
  intro e he
  rw [Projecting.counted, ExceptT.run_mk, Program.bind_eq, Program.Weathers.bind_iff]
  refine (h e he).mono fun r d h => ⟨?_, fun _ _ hr => hr.elim⟩
  rintro _ _ rfl
  exact h

theorem Withstands.discard {p : Projecting α} (h : Withstands env sid fails t p R B) :
    Withstands env sid fails t (discard p) R B := by
  show Withstands env sid fails t ((fun _ => ()) <$> p) R B
  rw [map_eq_pure_bind]
  refine (h.seq (fun _ => withstands_pure ()) fun _ h => h.elim).mono ?_ fun _ _ h => h
  rintro _ _ ⟨_, hR, rfl⟩
  exact hR

theorem withstands_forAll (hs : Steps R B) {act : α → Projecting Unit} {items : List α}
    (h : ∀ x ∈ items, Withstands env sid fails t (act x) R B) :
    Withstands env sid fails t (forAll items act) R B := by
  induction items with
  | nil =>
    refine (withstands_pure ()).mono ?_ fun _ _ h => h.elim
    rintro _ e rfl
    exact hs.refl e
  | cons x rest ih =>
    refine ((h x (.head _)).seq (fun _ => ih fun y hy => h y (.tail _ hy)) hs.after).mono ?_
      fun _ _ h => h
    rintro e e' ⟨_, hx, hrest⟩
    exact hs.trans hx hrest

theorem withstands_total (hs : Steps R B) {act : α → Projecting Nat} {items : List α}
    (h : ∀ x ∈ items, Withstands env sid fails t (act x) R B) :
    Withstands env sid fails t (total items act) R B := by
  induction items with
  | nil =>
    refine (withstands_pure 0).mono ?_ fun _ _ h => h.elim
    rintro _ e rfl
    exact hs.refl e
  | cons x rest ih =>
    refine ((h x (.head _)).seq (fun n => (ih fun y hy => h y (.tail _ hy)).seq
      (fun m => withstands_pure (n + m)) fun _ h => h.elim) hs.after).mono ?_ fun _ _ h => h
    rintro e _ ⟨_, hx, _, hrest, rfl⟩
    exact hs.trans hx hrest

/-- A successful end is the one of an undisturbed run, so what such a run makes of the engine is
what this one makes of it. -/
theorem Withstands.with_turns {p : Projecting α} (h : Withstands env s.id fails t p R B)
    (hp : s.Projects p) (ht : Turns env s.id t p S) : Withstands env s.id fails t p S B :=
  fun e he => ((h e he).with_ends hp).mono fun _ _ ⟨h, hends⟩ => ⟨h.tables, h.obliging,
    fun a ha => (ht.ok (ha ▸ hends a ha)).2, h.error⟩

/-! ## Calls on the engine -/

/-- A call on the engine is no call on the store. -/
theorem weathers_policy {c : Call} {C : c.Reply → Desk → Prop} {d : Desk}
    (h : C (d.engine.perform env.patterns c).1 { d with engine := (d.engine.perform env.patterns c).2 }) :
    (Program.perform (.policy c)).Weathers env sid fails C d := by
  refine ⟨?_, fun _ _ hr => hr.elim⟩
  rintro _ _ ⟨rfl, rfl⟩
  exact h

/-- A call that obliging engines do not refuse. -/
theorem withstands_engine {p : Program (Except EngineError Bool)}
    {f : Engine → Except EngineError Bool × Engine}
    (hp : ∀ {e : Engine} {C : Except EngineError Bool → Desk → Prop},
      C (f e).1 ⟨t, (f e).2⟩ → p.Weathers env sid fails C ⟨t, e⟩)
    (hf : ∀ e : Engine, e.Obliging → (∃ b, (f e).1 = .ok b) ∧ (f e).2.Obliging) :
    Withstands env sid fails t (engine p) (fun _ _ => True) (fun _ _ => False) := by
  intro e he
  obtain ⟨⟨b, hb⟩, hafter⟩ := hf e he
  rw [engine, ExceptT.run_mk, Program.bind_eq, Program.Weathers.bind_iff]
  refine hp ?_
  rw [hb]
  exact CameOut.of_ok hafter trivial

theorem withstands_removePermissions (id : String) :
    Withstands env sid fails t (engine (Program.perform (.policy (.removePermissions id))))
      (fun _ _ => True) (fun _ _ => False) :=
  withstands_engine (fun h => weathers_policy h) fun _ he => he.removePermissions id

theorem withstands_addPermission {id path method : String} (hid : id ≠ "") (hpath : path ≠ "")
    (hmethod : method ≠ "") :
    Withstands env sid fails t (engine (Program.perform (.policy (.addPermission id path method))))
      (fun _ _ => True) (fun _ _ => False) :=
  withstands_engine (fun h => weathers_policy h) fun _ he => he.addPermission hid hpath hmethod

theorem withstands_removeMemberships (id : String) :
    Withstands env sid fails t (engine (Program.perform (.policy (.removeMemberships id))))
      (fun _ _ => True) (fun _ _ => False) :=
  withstands_engine (fun h => weathers_policy h) fun _ he => he.removeMemberships id

theorem withstands_addMembership {user role : String} (huser : user ≠ "") (hrole : role ≠ "")
    (hne : user ≠ role) :
    Withstands env sid fails t (engine (Program.perform (.policy (.addMembership user role))))
      (fun _ _ => True) (fun _ _ => False) :=
  withstands_engine (fun h => weathers_policy h) fun _ he => he.addMembership huser hrole hne

/-- What follows a look at everything the engine holds. -/
theorem withstands_snapshot_then {f : Snapshot → Projecting β}
    (hf : ∀ held, Withstands env sid fails t (f held) R B) :
    Withstands env sid fails t
      ((liftM (Program.perform (.policy .snapshot)) : Projecting Snapshot) >>= f) R B := by
  intro e he
  rw [ExceptT.run_bind, Program.bind_eq, Program.Weathers.bind_iff]
  refine ⟨?_, fun _ _ hr => hr.elim⟩
  rintro _ _ ⟨rfl, rfl⟩
  exact hf e.snapshot e he

end Projecting

/-! ## One subject -/

section Projections

open Projecting

variable {env : Surroundings} {s : Session} {fails : Prop} {t : Store.Tables} {used : List String}
  {e e₁ e' : Engine} {id : String}

/-- Once the rules of a role are known, nothing can fail. -/
theorem withstands_setRules (h : t.Sound used) {rules : List (String × String)}
    (hrules : ∀ r ∈ rules, ∃ g ∈ t.roleMenus, ∃ x ∈ t.menuResources, g.Yields x ⟨id, r.1, r.2⟩)
    {n : Nat} :
    Withstands env s.id fails t (do
      Projecting.engine (Program.perform (.policy (.removePermissions id)))
      Projecting.forAll rules fun r =>
        Projecting.engine (Program.perform (.policy (.addPermission id r.1 r.2)))
      return n) (fun _ _ => True) (fun e e' => e' = e) := by
  have hadds : Withstands env s.id fails t
      (Projecting.forAll rules fun r =>
        Projecting.engine (Program.perform (.policy (.addPermission id r.1 r.2))))
      (fun _ _ => True) (fun _ _ => False) := by
    refine withstands_forAll steps_sure fun r hr => ?_
    obtain ⟨g, hg, x, -, hy⟩ := hrules r hr
    obtain ⟨hmethod, hpath⟩ := hy.enforceable
    rw [hy.method] at hmethod
    rw [hy.path] at hpath
    obtain ⟨role, hrole, hid⟩ := List.mem_map.1 (h.granted g hg).1
    obtain rfl : role.id = id := hid.trans hy.subject
    exact withstands_addPermission (h.role_ne_empty hrole) hpath hmethod
  exact ((withstands_removePermissions id).seq (fun _ => hadds.seq (fun _ => withstands_pure n)
    fun _ h => h) fun _ h => h).mono (fun _ _ _ => trivial) fun _ _ h => h.elim

theorem withstands_role (h : t.Sound used) (id : String) :
    Withstands env s.id fails t (Projection.role s id) (fun _ _ => True) (fun e e' => e' = e) := by
  refine Withstands.counted ?_ .role
  refine withstands_ask_then ?_ fun _ => rfl
  have hgrants : t.ask (.listRoleMenus [id]) = t.roleMenus.filter (·.roleId == id) :=
    Store.ask_ofOwner t.roleMenus Grant.roleId id
  generalize t.ask (.listRoleMenus [id]) = grants at hgrants
  dsimp only
  split
  · rename_i hempty
    rw [List.isEmpty_iff, List.map_eq_nil_iff] at hempty
    subst hempty
    refine withstands_setRules h fun r hr => ?_
    obtain ⟨_, hgrant, -⟩ := mem_roleRules.1 hr
    cases hgrant
  · exact withstands_ask_then (withstands_setRules h fun r hr => (mem_rulesOf hgrants).1 hr)
      fun _ => rfl

theorem withstands_user (h : t.Sound used) (id : String) :
    Withstands env s.id fails t (Projection.user s id) (fun _ _ => True) (fun e e' => e' = e) := by
  refine Withstands.counted ?_ .user
  refine withstands_ask_then ?_ fun _ => rfl
  have hedges : t.ask (.listUserRoles [id]) = t.userRoles.filter (·.userId == id) :=
    Store.ask_ofOwner t.userRoles Assignment.userId id
  generalize t.ask (.listUserRoles [id]) = edges at hedges
  have hadds : Withstands env s.id fails t
      (Projecting.forAll edges fun a =>
        Projecting.engine (Program.perform (.policy (.addMembership id a.roleId))))
      (fun _ _ => True) (fun _ _ => False) := by
    refine withstands_forAll steps_sure fun a ha => ?_
    rw [hedges, List.mem_filter, beq_iff_eq] at ha
    obtain ⟨ha, rfl⟩ := ha
    obtain ⟨⟨u, hu, huser⟩, ⟨r, hr, hrole⟩⟩ :=
      (h.assigned a ha).imp List.mem_map.1 List.mem_map.1
    rw [← huser, ← hrole]
    exact withstands_addMembership (h.user_ne_empty hu) (h.role_ne_empty hr) (h.user_ne_role hu hr)
  exact ((withstands_removeMemberships id).seq (fun _ => hadds.seq (fun _ => withstands_pure _)
    fun _ h => h) fun _ h => h).mono (fun _ _ _ => trivial) fun _ _ h => h.elim

/-! ## Several subjects -/

/-- Nothing old and new is mixed: the permissions of every subject, and the memberships of every
user, are either as they were or what the tables come to. -/
structure Unmixed (t : Store.Tables) (e e' : Engine) : Prop where
  permissions : ∀ name,
    (∀ p, p.subject = name → (p ∈ e'.permissions ↔ p ∈ e.permissions)) ∨
      ∀ p, p.subject = name → (p ∈ e'.permissions ↔ t.Entitles p)
  memberships : ∀ name,
    (∀ m, m.user = name → (m ∈ e'.memberships ↔ m ∈ e.memberships)) ∨
      ∀ m, m.user = name → (m ∈ e'.memberships ↔ t.Enrolls m)

theorem unmixed_refl (t : Store.Tables) (e : Engine) : Unmixed t e e :=
  ⟨fun _ => .inl fun _ _ => Iff.rfl, fun _ => .inl fun _ _ => Iff.rfl⟩

theorem Unmixed.trans (h : Unmixed t e e₁) (h' : Unmixed t e₁ e') : Unmixed t e e' where
  permissions name := by
    rcases h'.permissions name with hsame | hnew
    · exact (h.permissions name).imp (fun hold p hp => (hsame p hp).trans (hold p hp))
        fun hnew p hp => (hsame p hp).trans (hnew p hp)
    · exact .inr hnew
  memberships name := by
    rcases h'.memberships name with hsame | hnew
    · exact (h.memberships name).imp (fun hold m hm => (hsame m hm).trans (hold m hm))
        fun hnew m hm => (hsame m hm).trans (hnew m hm)
    · exact .inr hnew

theorem steps_unmixed (t : Store.Tables) : Steps (Unmixed t) (Unmixed t) :=
  ⟨unmixed_refl t, Unmixed.trans, Unmixed.trans⟩

/-- Items that are set anew for whole names are not mixed. -/
theorem Overwrites.old_or_new {α : Type} {name : α → String} {ids : List String} {wanted : α → Prop}
    {xs ys : List α} (h : Overwrites (name · ∈ ids) wanted xs ys) (n : String) :
    (∀ x, name x = n → (x ∈ ys ↔ x ∈ xs)) ∨ ∀ x, name x = n → (x ∈ ys ↔ wanted x) := by
  by_cases hn : n ∈ ids
  · refine .inr ?_
    rintro x rfl
    rw [h x, and_iff_right hn, or_iff_left fun hx => hx.1 hn]
  · refine .inl ?_
    rintro x rfl
    rw [h x, and_iff_right hn, or_iff_right fun hx => hn hx.1]

theorem Overwrites.of_untouched {α : Type} {wanted : α → Prop} {xs ys : List α}
    (h : Overwrites (fun _ => False) wanted xs ys) (x : α) : x ∈ ys ↔ x ∈ xs := by
  rw [h x, false_and, false_or, and_iff_right not_false]

theorem FollowUp.Done.unmixed_roles {ids : List String} (h : (FollowUp.roles ids).Done t e e') :
    Unmixed t e e' where
  permissions := h.permissions.old_or_new
  memberships _ := .inl fun m _ => h.memberships.of_untouched m

theorem FollowUp.Done.unmixed_user (h : (FollowUp.user id).Done t e e') : Unmixed t e e' where
  permissions _ := .inl fun p _ => h.permissions.of_untouched p
  memberships := by
    have hone : Overwrites (·.user ∈ [id]) t.Enrolls e.memberships e'.memberships := fun m => by
      simp only [List.mem_singleton]
      exact h.memberships m
    exact hone.old_or_new

/-- A role that is stored, among several. -/
theorem withstands_role_unmixed (h : t.Sound used) (hid : id ≠ "") :
    Withstands env s.id fails t (Projection.role s id) (Unmixed t) (Unmixed t) := by
  have hrole : Withstands env s.id fails t (Projection.role s id) _ _ := withstands_role h id
  refine (hrole.with_turns (Session.projects_role id) (turns_role h hid)).mono
    (fun _ _ => FollowUp.Done.unmixed_roles) ?_
  rintro _ e rfl
  exact unmixed_refl t e

/-- A user who is stored and enabled, among several. -/
theorem withstands_user_unmixed (h : t.Sound used)
    (hstored : ∃ u ∈ t.users, u.id = id ∧ u.status = .enabled) :
    Withstands env s.id fails t (Projection.user s id) (Unmixed t) (Unmixed t) := by
  have huser : Withstands env s.id fails t (Projection.user s id) _ _ := withstands_user h id
  refine (huser.with_turns (Session.projects_user id) (turns_user h hstored)).mono
    (fun _ _ => FollowUp.Done.unmixed_user) ?_
  rintro _ e rfl
  exact unmixed_refl t e

theorem withstands_menuGrantees (h : t.Sound used) (menuId : String) :
    Withstands env s.id fails t (Projection.menuGrantees s menuId) (Unmixed t) (Unmixed t) := by
  refine withstands_ask_then ?_ (unmixed_refl t)
  have hroles : Withstands env s.id fails t
      (Projecting.forAll (t.granting menuId) fun id => discard (Projection.role s id))
      (Unmixed t) (Unmixed t) := by
    refine withstands_forAll (steps_unmixed t) fun id hid => ?_
    have hapt : (FollowUp.roles (t.granting menuId)).Apt t := apt_granting h
    exact (withstands_role_unmixed h (hapt id hid)).discard
  refine (hroles.seq (fun _ => withstands_pure _) fun _ h => h.elim).mono ?_ fun _ _ h => h
  rintro _ _ ⟨_, hU, rfl⟩
  exact hU

/-- The last two stages of a pass ask nothing. -/
theorem withstands_removals {staleRoles staleUsers : List String}
    {summary : Projection.Summary} :
    Withstands env s.id fails t (do
      Projecting.forAll staleRoles fun id =>
        Projecting.engine (Program.perform (.policy (.removePermissions id)))
      Projecting.forAll staleUsers fun id =>
        Projecting.engine (Program.perform (.policy (.removeMemberships id)))
      return summary) (fun _ _ => True) (fun _ _ => False) := by
  have hroles : Withstands env s.id fails t (Projecting.forAll staleRoles fun id =>
      Projecting.engine (Program.perform (.policy (.removePermissions id))))
      (fun _ _ => True) (fun _ _ => False) :=
    withstands_forAll steps_sure fun id _ => withstands_removePermissions id
  have husers : Withstands env s.id fails t (Projecting.forAll staleUsers fun id =>
      Projecting.engine (Program.perform (.policy (.removeMemberships id))))
      (fun _ _ => True) (fun _ _ => False) :=
    withstands_forAll steps_sure fun id _ => withstands_removeMemberships id
  exact (hroles.seq (fun _ => husers.seq (fun _ => withstands_pure summary) fun _ h => h)
    fun _ h => h).mono (fun _ _ _ => trivial) fun _ _ h => h

theorem withstands_all (h : t.Sound used) :
    Withstands env s.id fails t (Projection.all s) (fun _ _ => True) (Unmixed t) := by
  have hroles : Withstands env s.id fails t
      (total (t.matchingRoles {}) fun r => Projection.role s r.id) (Unmixed t) (Unmixed t) :=
    withstands_total (steps_unmixed t) fun r hr => withstands_role_unmixed h
      (h.role_ne_empty ((Projection.matchingRoles_perm t).mem_iff.1 hr))
  have husers : Withstands env s.id fails t
      (total (t.matchingUsers .enabled) fun u => Projection.user s u.id) (Unmixed t)
      (Unmixed t) := by
    refine withstands_total (steps_unmixed t) fun u hu => withstands_user_unmixed h ?_
    obtain ⟨hstored, henabled⟩ :=
      List.mem_filter.1 ((Projection.matchingUsers_perm t).mem_iff.1 hu)
    exact ⟨u, hstored, rfl, beq_iff_eq.1 henabled⟩
  refine (withstands_ask_then (hroles.seq (fun permissions => withstands_ask_then
    (husers.seq (fun memberships => withstands_snapshot_then fun held => withstands_removals)
      fun _ h => h.elim) (unmixed_refl t)) Unmixed.trans) (unmixed_refl t)).mono
    (fun _ _ _ => trivial) fun _ _ h => h

end Projections

end AccessAdmin
