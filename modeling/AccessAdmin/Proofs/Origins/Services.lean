import AccessAdmin.Proofs.Origins.Mutations
import AccessAdmin.Proofs.Projecting.Turns

/-!
# What the services draw on

Each part of a service writes what its own parts write. A projection asks the engine only for
permissions of resources that the store has told, so it draws on whatever the store draws on. By
induction on how a service is composed, all of it draws on the source of the resources that it is
told of.

* `Draws`: programs that may fail and write only what is from a source.
* `Draws.transaction`, `draws_session`: what the work draws on, the whole draws on.
* `Projection.draws_role`: the projection of a role draws on any source.
* `Service.Composed.draws`, `Mutation.draws`, `Inquiry.draws`: what the services draw on.
-/

namespace AccessAdmin

variable {α β ε : Type} {src : String → String → Prop} {s : Session} {ctx : Context}

/-! ## Programs -/

namespace Program

theorem DrawnFrom.bind {p : Program α} {f : α → Program β} (hp : p.DrawnFrom src)
    (hf : ∀ a, (f a).DrawnFrom src) : (p.bind f).DrawnFrom src := by
  induction p with
  | done a => exact hf a
  | ask e k ih => exact ⟨hp.1, fun r hr => ih r (hp.2 r hr)⟩
  | askBy l e k ih => exact ⟨hp.1, ih none hp.2.1, fun r hr => ih (some r) (hp.2.2 r hr)⟩

theorem drawnFrom_perform {e : Effect} (he : e.DrawnFrom src) : (perform e).DrawnFrom src :=
  ⟨he, fun _ _ => trivial⟩

theorem DrawnFrom.within {p : Program α} (hp : p.DrawnFrom src) (l : Nat) :
    (p.within l).DrawnFrom src := by
  induction p with
  | done a => trivial
  | ask e k ih =>
    rw [Program.within]
    exact ⟨hp.1, trivial, fun r hr => ih r (hp.2 r hr)⟩
  | askBy l' e k ih =>
    rw [Program.within]
    have hsome (r : e.Reply) (hr : e.Tells src r) : ((k (some r)).within l).DrawnFrom src :=
      ih (some r) (hp.2.2 r hr)
    split
    · exact ⟨hp.1, ih none hp.2.1, hsome⟩
    · exact ⟨hp.1, trivial, hsome⟩

theorem DrawnFrom.map {p : Program α} (hp : p.DrawnFrom src) (f : α → β) :
    (f <$> p).DrawnFrom src := by
  rw [map_eq_pure_bind, bind_eq]
  exact hp.bind fun _ => trivial

theorem DrawnFrom.limited {p : Program α} (hp : p.DrawnFrom src) :
    (ctx.limited p).DrawnFrom src := by
  unfold Context.limited
  cases ctx.deadline with
  | none => exact hp.map some
  | some d => exact hp.within d

end Program

/-! ## Programs that may fail -/

/-- A program that may fail and writes what is from the source. -/
def Draws (src : String → String → Prop) (p : ExceptT ε Program α) : Prop := p.run.DrawnFrom src

theorem draws_pure (a : α) : Draws src (pure a : ExceptT ε Program α) := trivial

theorem draws_refuse (e : ServiceError) : Draws src (Service.refuse e : Service α) := trivial

theorem Draws.bind {p : ExceptT ε Program α} {f : α → ExceptT ε Program β} (hp : Draws src p)
    (hf : ∀ a, Draws src (f a)) : Draws src (p >>= f) := by
  rw [Draws, ExceptT.run_bind, Program.bind_eq]
  refine Program.DrawnFrom.bind hp fun r => ?_
  cases r with
  | ok a => exact hf a
  | error e => trivial

theorem draws_ite {c : Prop} [Decidable c] {p q : ExceptT ε Program α} (hp : Draws src p)
    (hq : Draws src q) : Draws src (if c then p else q) := by
  split
  · exact hp
  · exact hq

theorem draws_lift {p : Program α} (hp : p.DrawnFrom src) :
    Draws src (ExceptT.lift p : ExceptT ε Program α) := hp.map _

theorem draws_perform {e : Effect} (he : e.DrawnFrom src) : Draws src (Service.perform e) :=
  draws_lift (Program.drawnFrom_perform he)

theorem draws_ofStore {c : Store.Call} (hc : (Effect.call s.id c).DrawnFrom src) :
    Draws src (Service.ofStore (s.call c)) := by
  rw [Draws, run_ofStore]
  exact ⟨hc, fun _ _ => trivial⟩

theorem draws_ask (q : Store.Read) : Draws src (s.ask q) := draws_ofStore trivial

theorem draws_change {w : Store.Write} (hw : w.DrawnFrom src) : Draws src (s.change w) :=
  draws_ofStore hw

theorem Draws.bounded {p : Service α} (hp : Draws src p) : Draws src (ctx.bounded p) := by
  refine Program.DrawnFrom.bind (Program.DrawnFrom.limited hp) fun o => ?_
  cases o <;> trivial

theorem draws_withSession {onError : StoreError → ε} {work : Session → ExceptT ε Program α}
    (h : ∀ s, Draws src (work s)) : Draws src (withSession onError work) := by
  refine Program.DrawnFrom.bind (Program.drawnFrom_perform trivial) fun opened => ?_
  cases opened with
  | error e => trivial
  | ok id =>
    refine Program.DrawnFrom.bind (h ⟨id⟩) fun result => ?_
    exact Program.DrawnFrom.bind (Program.drawnFrom_perform trivial) fun _ => trivial

theorem draws_session {work : Session → Service α} (h : ∀ s, Draws src (work s)) :
    Draws src (Service.session work) := draws_withSession h

/-- A transaction writes what its work writes. -/
theorem Draws.transaction {work : Service α} (h : Draws src work) :
    Draws src (ctx.transaction s work) := by
  have hsettle (o : Option (Except ServiceError α)) : Draws src (Context.settle s o) := by
    obtain _ | _ | a := o
    · exact ⟨trivial, fun _ _ => trivial⟩
    · exact ⟨trivial, fun _ _ => trivial⟩
    · exact (draws_ofStore (by trivial)).bind fun _ => draws_pure a
  rw [transaction_eq]
  refine (draws_perform (by trivial)).bind fun joined => draws_ite h ?_
  refine (draws_ofStore (by trivial)).bounded.bind fun _ => ?_
  exact (draws_lift (Program.DrawnFrom.limited h)).bind hsettle

/-! ## Projections -/

theorem draws_look (q : Store.Read) : Draws src (Projecting.ask s q) := by
  refine Program.DrawnFrom.bind (Program.drawnFrom_perform trivial) fun r => ?_
  cases r <;> trivial

/-- What follows a look at the resources may rely on them. -/
theorem draws_listing_then {menuIds : List String} {f : List MenuResource → Projecting β}
    (hf : ∀ rows, (∀ x ∈ rows, src x.path x.method) → Draws src (f rows)) :
    Draws src (Projecting.ask s (.listMenuResources menuIds) >>= f) := by
  refine ⟨trivial, fun r hr => ?_⟩
  cases r with
  | error e => trivial
  | ok rows => exact hf rows hr

theorem draws_engine {p : Program (Except Policy.EngineError Bool)} (hp : p.DrawnFrom src) :
    Draws src (Projecting.engine p) := by
  refine Program.DrawnFrom.bind hp fun r => ?_
  cases r <;> trivial

theorem draws_forAll {items : List α} {act : α → Projecting Unit}
    (h : ∀ x ∈ items, Draws src (act x)) : Draws src (Projecting.forAll items act) := by
  induction items with
  | nil => exact draws_pure ()
  | cons x rest ih => exact (h x (.head _)).bind fun _ => ih fun y hy => h y (.tail _ hy)

theorem Draws.counted {subject : Subject} {work : Projecting α} (h : Draws src work) :
    Draws src (Projecting.counted subject work) :=
  Program.DrawnFrom.bind h fun _ =>
    Program.DrawnFrom.bind (Program.drawnFrom_perform trivial) fun _ => trivial

theorem Draws.afterCommit {work : Projecting α} (h : Draws src work) :
    Draws src (Projecting.afterCommit work) := by
  refine Program.DrawnFrom.bind h fun r => ?_
  cases r <;> trivial

namespace Projection

/-- The permissions of a role are those of resources that were read right before. -/
theorem draws_role (id : String) : Draws src (role s id) := by
  refine Draws.counted ((draws_look _).bind fun grants => ?_)
  have hset (resources : List MenuResource) (hrows : ∀ x ∈ resources, src x.path x.method) :
      Draws src (do
        let rules := roleRules grants resources
        Projecting.engine (Program.perform (.policy (.removePermissions id)))
        Projecting.forAll rules fun r =>
          Projecting.engine (Program.perform (.policy (.addPermission id r.1 r.2)))
        return rules.length) := by
    refine (draws_engine (Program.drawnFrom_perform (by trivial))).bind fun _ => ?_
    refine (draws_forAll fun r hr => draws_engine (Program.drawnFrom_perform ?_)).bind fun _ =>
      draws_pure _
    obtain ⟨_, _, x, hx, hy⟩ := mem_roleRules.mp hr
    have hsrc := hrows x hx
    rwa [hy.path, hy.method] at hsrc
  dsimp only
  split
  · exact hset [] fun x hx => absurd hx List.not_mem_nil
  · exact draws_listing_then hset

theorem draws_user (id : String) : Draws src (user s id) := by
  refine Draws.counted ((draws_look _).bind fun edges => ?_)
  refine (draws_engine (Program.drawnFrom_perform (by trivial))).bind fun _ => ?_
  have hadds : Draws src (Projecting.forAll edges fun a =>
      Projecting.engine (Program.perform (.policy (.addMembership id a.roleId)))) :=
    draws_forAll fun _ _ => draws_engine (Program.drawnFrom_perform (by trivial))
  exact hadds.bind fun _ => draws_pure _

end Projection

/-! ## Compositions -/

/-- By induction on the composition: what is removed from the engine was there before. -/
theorem Projecting.Composed.draws {p : Projecting α} (h : p.Composed) : Draws src p := by
  induction h with
  | pure a => exact draws_pure a
  | bind _ _ ihp ihf => exact ihp.bind ihf
  | look s q => exact draws_look q
  | held => exact draws_lift (Program.drawnFrom_perform (by trivial))
  | role s id => exact Projection.draws_role id
  | user s id => exact Projection.draws_user id
  | removePermissions id | removeMemberships id | removeRoleMemberships id =>
    exact draws_engine (Program.drawnFrom_perform (by trivial))

/-- By induction on the composition: its changes are the only parts that bring resources in. -/
theorem Service.Composed.draws {p : Service α} (h : Composed src p) : Draws src p := by
  induction h with
  | pure a => exact draws_pure a
  | refuse e => exact draws_refuse e
  | bind _ _ ihp ihf => exact ihp.bind ihf
  | ask q => exact draws_ask q
  | change hw => exact draws_change hw
  | freshId _ | readClock | freshSalt | count _ => exact draws_perform (by trivial)
  | afterCommit hwork => exact hwork.draws.afterCommit
  | bounded _ ih => exact ih.bounded
  | transaction _ ih => exact ih.transaction
  | session _ ih => exact draws_session ih

variable {users : UserPolicy}

/-- A mutation draws on the resources that it describes, and on nothing else. -/
theorem Mutation.draws (m : Mutation) (h : ∀ r ∈ m.described, src r.path r.method) :
    Draws src (m.program users ctx) := (m.composed h).draws

/-- An inquiry writes nothing, so it draws on any source. -/
theorem Inquiry.draws (q : Inquiry) : Draws src (q.program users ctx) := q.composed.draws

end AccessAdmin
