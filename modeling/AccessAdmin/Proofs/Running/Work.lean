import AccessAdmin.Proofs.Running.Contract
import AccessAdmin.Service.Users

/-!
# The work of the services is steady

What each mutation does inside its transaction and after its commit is put together from questions,
changes, fresh ids and engine calls, so it stops at the first failure.

* `Session.Works`: work in a transaction.
* `Session.Projects`: projections.
* `Session.Follows`: projections after a commit, whose failures are stale errors.
-/

namespace AccessAdmin

variable {α β ε : Type}

section Sequences

variable {may : Effect → Prop} {bad : ε → Prop}

theorem steady_pure (a : α) : (pure a : ExceptT ε Program α).run.Steady may bad := by
  rintro _ ⟨⟩

theorem steady_seq (hcount : ∀ e, may (.count e)) {x : ExceptT ε Program α}
    {f : α → ExceptT ε Program β} (hx : x.run.Steady may bad)
    (hf : ∀ a, (f a).run.Steady may bad) : (x >>= f).run.Steady may bad := by
  rw [ExceptT.run_bind, Program.bind_eq]
  refine hx.bind hcount (fun a => ?_) (fun e he => ?_)
  · exact hf a
  · exact .error he

end Sequences

namespace Session

variable {s : Session}

/-- Work in a transaction on a session. -/
def Works (s : Session) (p : Service α) : Prop :=
  p.run.Steady (Effect.OfWork s.id) ServiceError.Plain

/-- Projections on a session. -/
def Projects (s : Session) (p : Projecting α) : Prop :=
  p.run.Steady (Effect.OfProjection s.id) fun _ => True

/-- Projections on a session after a commit. -/
def Follows (s : Session) (p : Service α) : Prop :=
  p.run.Steady (Effect.OfProjection s.id) ServiceError.Stale

/-! ## Work in a transaction -/

theorem works_pure (a : α) : s.Works (pure a) := steady_pure a

theorem Works.bind {p : Service α} {f : α → Service β} (hp : s.Works p) (hf : ∀ a, s.Works (f a)) :
    s.Works (p >>= f) := steady_seq (fun _ => trivial) hp hf

theorem works_refuse {e : ServiceError} (he : e.Plain) :
    s.Works (Service.refuse e : Service α) := by
  rintro _ ⟨⟩
  exact he

theorem works_ite {c : Prop} [Decidable c] {p q : Service α} (hp : s.Works p) (hq : s.Works q) :
    s.Works (if c then p else q) := by
  split
  · exact hp
  · exact hq

theorem works_ofStore {c : Store.Call} (hc : (Effect.call s.id c).OfWork s.id) :
    s.Works (Service.ofStore (s.call c)) := by
  rw [Works, run_ofStore]
  refine ⟨hc, fun r hr => ?_, fun r e he => ?_⟩
  · rcases r with e | _
    · exact .error (ServiceError.plain_ofStore e)
    · exact hr.elim
  · rcases r with e' | _
    · cases he
      exact ServiceError.plain_ofStore e'
    · cases he

theorem works_ask (q : Store.Read) : s.Works (s.ask q) := works_ofStore rfl

theorem works_change (w : Store.Write) : s.Works (s.change w) := works_ofStore rfl

theorem works_changeAll (ws : List Store.Write) : s.Works (s.changeAll ws) := by
  induction ws with
  | nil => exact works_pure ()
  | cons w ws ih => exact (works_change w).bind fun _ => ih

theorem works_perform {e : Effect} (he : e.OfWork s.id) (hn : ∀ r, ¬e.Failed r) :
    s.Works (Service.perform e) :=
  ⟨he, fun r hr => (hn r hr).elim, fun _ _ h => nomatch h⟩

theorem works_freshId (kind : Kind) : s.Works (Service.perform (.freshId s.id kind)) :=
  works_perform rfl fun _ h => h

theorem works_readClock : s.Works (Service.perform .readClock) :=
  works_perform trivial fun _ h => h

theorem works_count (e : Event) : s.Works (Service.perform (.count e)) :=
  works_perform trivial fun _ h => h

/-! ## Projections -/

theorem projects_pure (a : α) : s.Projects (pure a) := steady_pure a

theorem Projects.bind {p : Projecting α} {f : α → Projecting β} (hp : s.Projects p)
    (hf : ∀ a, s.Projects (f a)) : s.Projects (p >>= f) := steady_seq (fun _ => trivial) hp hf

theorem projects_ask (q : Store.Read) [hq : q.Fits] : s.Projects (Projecting.ask s q) := by
  refine ⟨⟨rfl, hq⟩, fun r hr => ?_, fun r => ?_⟩
  · rcases r with e | _
    · exact .error trivial
    · exact hr.elim
  · rcases r with e | _ <;> exact fun _ _ => trivial

/-- One step on the engine that may be refused. -/
theorem projects_engine {p : Program (Except Policy.EngineError Bool)}
    (hp : p.Steady (Effect.OfProjection s.id) fun _ => True) :
    s.Projects (Projecting.engine p) := by
  refine hp.bind (fun _ => trivial) (fun _ => ?_) fun _ _ => ?_
  · exact fun _ _ => trivial
  · exact .error trivial

theorem projects_forAll {items : List α} {act : α → Projecting Unit}
    (h : ∀ x, s.Projects (act x)) : s.Projects (Projecting.forAll items act) := by
  induction items with
  | nil => exact projects_pure ()
  | cons x rest ih => exact (h x).bind fun _ => ih

theorem Projects.counted {subject : Subject} {work : Projecting α} (h : s.Projects work) :
    s.Projects (Projecting.counted subject work) := by
  refine Program.Steady.bind (fun _ => trivial) (fun _ => ?_) (fun _ _ => ?_) h
  · exact ⟨trivial, fun _ hf => hf.elim, fun _ _ _ => trivial⟩
  · exact .count (.error trivial)

theorem Projects.discard {work : Projecting α} (h : s.Projects work) :
    s.Projects (discard work) := by
  show s.Projects ((fun _ => ()) <$> work)
  rw [map_eq_pure_bind]
  exact h.bind fun _ => projects_pure ()

theorem Projects.afterCommit {work : Projecting α} (h : s.Projects work) :
    s.Follows (Projecting.afterCommit work) := by
  refine Program.Steady.bind (fun _ => trivial) (fun _ => ?_) (fun _ _ => ?_) h
  · exact fun _ h => nomatch h
  · exact .error ⟨_, rfl⟩

theorem steady_removePermissions (id : String) :
    (Program.perform (.policy (.removePermissions id))).Steady (Effect.OfProjection s.id)
      fun _ : Policy.EngineError => True :=
  ⟨trivial, fun _ hf => hf.elim, fun _ _ _ => trivial⟩

theorem steady_removeMemberships (id : String) :
    (Program.perform (.policy (.removeMemberships id))).Steady (Effect.OfProjection s.id)
      fun _ : Policy.EngineError => True :=
  ⟨trivial, fun _ hf => hf.elim, fun _ _ _ => trivial⟩

theorem projects_role (id : String) : s.Projects (Projection.role s id) := by
  refine Projects.counted ((projects_ask _).bind fun grants => ?_)
  have hrules (resources : List MenuResource) : s.Projects (do
      let rules := roleRules grants resources
      Projecting.engine (Program.perform (.policy (.removePermissions id)))
      Projecting.forAll rules fun r =>
        Projecting.engine (Program.perform (.policy (.addPermission id r.1 r.2)))
      return rules.length) := by
    refine (projects_engine (steady_removePermissions id)).bind fun _ => ?_
    refine (projects_forAll fun r => projects_engine ?_).bind fun _ => projects_pure _
    exact ⟨trivial, fun _ hf => hf.elim, fun _ _ _ => trivial⟩
  dsimp only
  split
  · exact (projects_pure _).bind hrules
  · exact (projects_ask _).bind hrules

theorem projects_user (id : String) : s.Projects (Projection.user s id) := by
  refine Projects.counted ((projects_ask _).bind fun edges => ?_)
  refine (projects_engine (steady_removeMemberships id)).bind fun _ => ?_
  refine (projects_forAll fun r => projects_engine ?_).bind fun _ => projects_pure _
  exact ⟨trivial, fun _ hf => hf.elim, fun _ _ _ => trivial⟩

theorem projects_menuGrantees (menuId : String) :
    s.Projects (Projection.menuGrantees s menuId) :=
  (projects_ask _).bind fun _ =>
    (projects_forAll fun id => (projects_role id).discard).bind fun _ => projects_pure _

theorem projects_removeUser (id : String) : s.Projects (Projection.removeUser id) :=
  projects_engine (steady_removeMemberships id)

theorem projects_removeRole (id : String) : s.Projects (Projection.removeRole id) :=
  (projects_engine (steady_removePermissions id)).bind fun _ =>
    projects_engine ⟨trivial, fun _ hf => hf.elim, fun _ _ _ => trivial⟩

/-! ## After a commit -/

theorem follows_pure (a : α) : s.Follows (pure a) := steady_pure a

theorem Follows.bind {p : Service α} {f : α → Service β} (hp : s.Follows p)
    (hf : ∀ a, s.Follows (f a)) : s.Follows (p >>= f) := steady_seq (fun _ => trivial) hp hf

end Session

/-! ## The transactions of the services -/

section Bodies

variable {s : Session}

theorem plain_validation (text : String) : (ServiceError.validation text).Plain := by
  rintro _ ⟨⟩

theorem plain_notFound (text : String) : (ServiceError.notFound text).Plain := by
  rintro _ ⟨⟩

theorem plain_forbidden (text : String) : (ServiceError.forbidden text).Plain := by
  rintro _ ⟨⟩

open Session

namespace Menus

theorem works_validate (f : MenuForm) : s.Works (validate f) := by
  unfold validate
  split
  · exact works_pure _
  · exact works_refuse (plain_validation _)

theorem works_withIds (ids : List String) : s.Works (withIds s ids) :=
  works_ite (works_pure _) ((works_ask _).bind fun _ => works_pure _)

theorem works_pathUnder (parentId : String) : s.Works (pathUnder s parentId) := by
  refine works_ite (works_pure _) ((works_ask _).bind fun found => ?_)
  cases found with
  | some parent => exact works_pure _
  | none => exact works_refuse (plain_notFound _)

theorem works_insert (actor : String) (input : MenuInput) : s.Works (insert s actor input) := by
  refine (works_pathUnder _).bind fun path => (works_freshId _).bind fun id =>
    works_readClock.bind fun now => (works_change _).bind fun _ =>
      (works_changeAll _).bind fun _ => (works_changeAll _).bind fun _ =>
        (works_ask _).bind fun found => ?_
  cases found <;> exact works_pure _

theorem works_rebaseSubtree (old new : AncestorPath) : s.Works (rebaseSubtree s old new) :=
  (works_ask _).bind fun _ => (works_changeAll _).bind fun _ => works_pure _

theorem works_syncChildren (id : String) (f : MenuForm) : s.Works (syncChildren s id f) :=
  (works_ask _).bind fun _ => (works_changeAll _).bind fun _ => (works_changeAll _).bind fun _ =>
    (works_changeAll _).bind fun _ => (works_ask _).bind fun _ => (works_changeAll _).bind fun _ =>
      (works_changeAll _).bind fun _ => works_changeAll _

theorem works_move (id : String) (old : Menu) (parentId : String) :
    s.Works (move s id old parentId) :=
  works_ite (works_pure _) <| (works_pathUnder _).bind fun _ =>
    works_ite (works_refuse (plain_validation _)) <| (works_rebaseSubtree _ _).bind fun _ =>
      (works_count _).bind fun _ => works_pure _

theorem works_applyUpdate (id : String) (input : MenuInput) :
    s.Works (applyUpdate s id input) := by
  refine (works_ask _).bind fun found => ?_
  cases found with
  | none => exact works_refuse (plain_notFound _)
  | some old =>
    exact works_readClock.bind fun _ => (works_move _ _ _).bind fun _ =>
      (works_syncChildren _ _).bind fun _ => (works_change _).bind fun _ => works_pure _

theorem works_remove (id : String) : s.Works (remove s id) := by
  refine (works_ask _).bind fun found => ?_
  cases found with
  | none => exact works_refuse (plain_notFound _)
  | some _ =>
    exact (works_ask _).bind fun _ => works_ite (works_refuse (plain_validation _)) <|
      (works_ask _).bind fun _ => (works_change _).bind fun _ => (works_change _).bind fun _ =>
        (works_change _).bind fun _ => works_pure _

/-- Planting is steady, by recursion on the forest: a seed's children, then the seeds beside it. -/
theorem works_plant (actor : String) :
    ∀ (forest : List MenuSeed) (parentId : String), s.Works (plant s actor parentId forest)
  | [], _ => by
    rw [plant]
    exact works_pure 0
  | .node form children :: rest, parentId => by
    rw [plant]
    exact (works_validate _).bind fun _ => (works_insert _ _).bind fun menu =>
      (works_plant actor children menu.id).bind fun _ =>
        (works_plant actor rest parentId).bind fun _ => works_pure _

/-- What seeding does in its transaction. -/
def seeding (s : Session) (actor : String) (forest : List MenuSeed) : Service Nat := do
  let existing ← s.ask (.queryMenus {} (some ⟨1, 1⟩))
  if 0 < (existing.page.map PageInfo.total).getD 0 then
    return 0
  else
    plant s actor "" forest

theorem works_seeding (actor : String) (forest : List MenuSeed) :
    s.Works (seeding s actor forest) :=
  (works_ask _).bind fun _ => works_ite (works_pure _) (works_plant actor forest "")

end Menus

namespace Roles

theorem works_ensureNameFree (name : String) (own : Option String) :
    s.Works (ensureNameFree s name own) :=
  (works_ask _).bind fun _ => works_ite (works_refuse (plain_validation _)) (works_pure _)

theorem works_ensureMenusExist (input : RoleInput) : s.Works (ensureMenusExist s input) := by
  refine (Menus.works_withIds _).bind fun found => ?_
  split
  · exact works_refuse (plain_notFound _)
  · exact works_pure _

theorem works_withIds (ids : List String) : s.Works (withIds s ids) :=
  works_ite (works_pure _) ((works_ask _).bind fun _ => works_pure _)

theorem works_insert (actor : String) (input : RoleInput) : s.Works (insert s actor input) :=
  (works_ensureNameFree _ _).bind fun _ => (works_ensureMenusExist _).bind fun _ =>
    (works_freshId _).bind fun _ => works_readClock.bind fun _ => (works_change _).bind fun _ =>
      (works_changeAll _).bind fun _ => works_pure _

theorem works_applyUpdate (id : String) (input : RoleInput) :
    s.Works (applyUpdate s id input) := by
  refine (works_ask _).bind fun found => ?_
  cases found with
  | none => exact works_refuse (plain_notFound _)
  | some old =>
    have hsync : s.Works (syncGrants s id input) :=
      (works_ask _).bind fun _ => (works_changeAll _).bind fun _ =>
        (works_changeAll _).bind fun _ => works_changeAll _
    exact (works_ensureNameFree _ _).bind fun _ => (works_ensureMenusExist _).bind fun _ =>
      hsync.bind fun _ => works_readClock.bind fun _ => (works_change _).bind fun _ => works_pure _

theorem works_remove (id : String) : s.Works (remove s id) := by
  refine (works_ask _).bind fun found => ?_
  cases found with
  | none => exact works_refuse (plain_notFound _)
  | some _ => exact (works_change _).bind fun _ => (works_change _).bind fun _ => works_change _

theorem follows_project (id : String) : s.Follows (project s id) :=
  (projects_role id).discard.afterCommit

end Roles

namespace Users

theorem works_ensureUsernameFree (username : String) (own : Option String) :
    s.Works (ensureUsernameFree s username own) :=
  (works_ask _).bind fun _ => works_ite (works_refuse (plain_validation _)) (works_pure _)

theorem works_ensureRolesExist (roleIds : List String) : s.Works (ensureRolesExist s roleIds) := by
  refine (Roles.works_withIds _).bind fun found => ?_
  split
  · exact works_refuse (plain_notFound _)
  · exact works_pure _

theorem works_insert (actor hash : String) (input : UserInput) :
    s.Works (insert s actor hash input) :=
  (works_ensureUsernameFree _ _).bind fun _ => (works_ensureRolesExist _).bind fun _ =>
    (works_freshId _).bind fun _ => works_readClock.bind fun _ => (works_change _).bind fun _ =>
      (works_changeAll _).bind fun _ => works_pure _

theorem works_applyUpdate (id : String) (hash : Option String) (input : UserInput) :
    s.Works (applyUpdate s id hash input) := by
  refine (works_ask _).bind fun found => ?_
  cases found with
  | none => exact works_refuse (plain_notFound _)
  | some old =>
    have hsync : s.Works (syncRoles s id input) :=
      (works_ask _).bind fun _ => (works_changeAll _).bind fun _ => works_changeAll _
    refine (works_ensureUsernameFree _ _).bind fun _ => (works_ensureRolesExist _).bind fun _ =>
      hsync.bind fun _ => works_readClock.bind fun _ => (works_change _).bind fun _ => ?_
    dsimp only
    split
    · refine (works_change _).bind fun _ => ?_
      cases hash with
      | some hash => exact (works_change _).bind fun _ => works_pure _
      | none => exact works_pure _
    · cases hash with
      | some hash => exact (works_change _).bind fun _ => works_pure _
      | none => exact works_pure _

theorem works_remove (id : String) : s.Works (remove s id) := by
  refine (works_ask _).bind fun found => ?_
  cases found with
  | none => exact works_refuse (plain_notFound _)
  | some _ => exact (works_change _).bind fun _ => works_change _

theorem works_setStatus (id : String) (status : UserStatus) : s.Works (setStatus s id status) := by
  refine (works_ask _).bind fun found => ?_
  cases found with
  | none => exact works_refuse (plain_notFound _)
  | some _ => exact works_change _

theorem follows_syncPolicy (id : String) (status : UserStatus) :
    s.Follows (syncPolicy s id status) := by
  cases status with
  | enabled => exact (projects_user id).discard.afterCommit
  | disabled => exact (projects_removeUser id).afterCommit

end Users

end Bodies

end AccessAdmin
