import AccessAdmin.Proofs.Origins.Programs
import AccessAdmin.Service.Users

/-!
# Services as compositions

A service is put together from a few parts: questions and changes, fresh ids, times and salts, and
projections after a commit, on sessions of its own, in transactions and under a deadline. What holds
of the parts and is kept by putting them together therefore holds of every service, by one induction
on how it is put together. The changes of a composition write only resources from a source; every
service is a composition for the source of the resources that it is told of.

* `Projecting.Composed`: what is put together from projections of single subjects.
* `Service.Composed`: what is put together from the parts of services.
* `Projection.composed_menuGrantees`, `Projection.composed_all`: projections of several subjects.
-/

namespace AccessAdmin

/-- A projection that is put together from those of single roles and users, questions to the store,
and the removal of rules from the engine. -/
inductive Projecting.Composed : {α : Type} → Projecting α → Prop where
  | pure {α : Type} (a : α) : Composed (Pure.pure a : Projecting α)
  | bind {α β : Type} {p : Projecting α} {f : α → Projecting β} (hp : Composed p)
    (hf : ∀ a, Composed (f a)) : Composed (p >>= f)
  | look (s : Session) (q : Store.Read) : Composed (Projecting.ask s q)
  | held : Composed (ExceptT.lift (Program.perform (.policy .snapshot)))
  | role (s : Session) (id : String) : Composed (Projection.role s id)
  | user (s : Session) (id : String) : Composed (Projection.user s id)
  | removePermissions (id : String) :
    Composed (Projecting.engine (Program.perform (.policy (.removePermissions id))))
  | removeMemberships (id : String) :
    Composed (Projecting.engine (Program.perform (.policy (.removeMemberships id))))
  | removeRoleMemberships (id : String) :
    Composed (Projecting.engine (Program.perform (.policy (.removeRoleMemberships id))))

/-- A service that is put together from questions, changes, fresh ids, times, salts and projections
after a commit. The resources that it writes are from the source. -/
inductive Service.Composed (src : String → String → Prop) : {α : Type} → Service α → Prop where
  | pure {α : Type} (a : α) : Composed src (Pure.pure a : Service α)
  | refuse {α : Type} (e : ServiceError) : Composed src (Service.refuse e : Service α)
  | bind {α β : Type} {p : Service α} {f : α → Service β} (hp : Composed src p)
    (hf : ∀ a, Composed src (f a)) : Composed src (p >>= f)
  | ask {s : Session} (q : Store.Read) : Composed src (s.ask q)
  | change {s : Session} {w : Store.Write} (hw : w.DrawnFrom src) : Composed src (s.change w)
  | freshId {s : Session} (kind : Kind) : Composed src (Service.perform (.freshId s.id kind))
  | readClock : Composed src (Service.perform .readClock)
  | freshSalt : Composed src (Service.perform .freshSalt)
  | count (e : Event) : Composed src (Service.perform (.count e))
  | afterCommit {α : Type} {work : Projecting α} (h : work.Composed) :
    Composed src (Projecting.afterCommit work)
  | bounded {α : Type} {ctx : Context} {p : Service α} (hp : Composed src p) :
    Composed src (ctx.bounded p)
  | transaction {α : Type} {ctx : Context} {s : Session} {p : Service α} (hp : Composed src p) :
    Composed src (ctx.transaction s p)
  | session {α : Type} {work : Session → Service α} (h : ∀ s, Composed src (work s)) :
    Composed src (Service.session work)

variable {α β : Type} {src : String → String → Prop} {s : Session} {ctx : Context}

/-! ## Projections -/

namespace Projecting.Composed

theorem map {p : Projecting α} (hp : p.Composed) (f : α → β) : Composed (f <$> p) := by
  rw [map_eq_pure_bind]
  exact hp.bind fun _ => .pure _

theorem forAll {items : List α} {act : α → Projecting Unit} (h : ∀ x, (act x).Composed) :
    (Projecting.forAll items act).Composed := by
  induction items with
  | nil => exact .pure ()
  | cons x rest ih => exact (h x).bind fun _ => ih

theorem total {items : List α} {act : α → Projecting Nat} (h : ∀ x, (act x).Composed) :
    (Projecting.total items act).Composed := by
  induction items with
  | nil => exact .pure 0
  | cons x rest ih => exact (h x).bind fun _ => ih.bind fun _ => .pure _

end Projecting.Composed

namespace Projection

open Projecting

/-- Roles are set anew one after the other. -/
theorem composed_roles (ids : List String) :
    Composed (forAll ids fun id => discard (role s id)) :=
  .forAll fun id => (Composed.role s id).map _

theorem composed_menuGrantees (menuId : String) : Composed (menuGrantees s menuId) :=
  (Composed.look s _).bind fun ids => (composed_roles ids).bind fun _ => .pure _

theorem composed_removeRole (id : String) : Composed (removeRole id) :=
  (Composed.removePermissions id).bind fun _ => .removeRoleMemberships id

theorem composed_removeUser (id : String) : Composed (removeUser id) := .removeMemberships id

theorem composed_all : Composed (all s) := by
  refine (Composed.look s _).bind fun roles => ?_
  refine (Composed.total fun r : Role => Composed.role s r.id).bind fun _ => ?_
  refine (Composed.look s _).bind fun users => ?_
  refine (Composed.total fun u : User => Composed.user s u.id).bind fun _ => ?_
  refine Composed.held.bind fun held => ?_
  refine (Composed.forAll fun id => .removePermissions id).bind fun _ => ?_
  exact (Composed.forAll fun id => .removeMemberships id).bind fun _ => .pure _

end Projection

/-! ## Services -/

namespace Service.Composed

theorem map {p : Service α} (hp : Composed src p) (f : α → β) : Composed src (f <$> p) := by
  rw [map_eq_pure_bind]
  exact hp.bind fun _ => .pure _

theorem ite {c : Prop} [Decidable c] {p q : Service α} (hp : Composed src p)
    (hq : Composed src q) : Composed src (if c then p else q) := by
  split
  · exact hp
  · exact hq

/-- The changes of a list, one for each item. -/
theorem changeEach {xs : List β} {f : β → Store.Write} (h : ∀ x ∈ xs, (f x).DrawnFrom src) :
    Composed src (s.changeAll (xs.map f)) := by
  induction xs with
  | nil => exact .pure ()
  | cons x xs ih =>
    exact (change (h x (.head _))).bind fun _ => ih fun y hy => h y (.tail _ hy)

/-- Work in a transaction on its own session, with projections after it. -/
theorem commit {body : Session → Service α} {after : Session → α → Service β}
    (hbody : ∀ s, Composed src (body s)) (hafter : ∀ s a, Composed src (after s a)) :
    Composed src (Service.session fun s => ctx.transaction s (body s) >>= after s) :=
  session fun s => (hbody s).transaction.bind (hafter s)

end Service.Composed

end AccessAdmin
