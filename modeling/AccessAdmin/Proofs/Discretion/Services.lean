import AccessAdmin.Proofs.Discretion.Programs
import AccessAdmin.Proofs.Origins.Composed
import AccessAdmin.Proofs.Running.Commit

/-!
# Services do not act on the texts of failures

On its way out of a service the error of the store is wrapped up: as a failure of the storage, or as
the reason why a projection failed. Its text stays inside the wrapping. Calls, transactions,
sessions and projections hand an error on and do not look into it, so work that is put together from
them does the same steps whatever the texts are.

* `ServiceError.Alike`: errors of a service but for the texts of what they wrap up.
* `Discreet`: programs that come to the same value, or to errors that are alike.
* `Discreet.transaction`, `discreet_session`, `Discreet.afterCommit`: what is discreet in its parts
  is discreet as a whole.
* `Service.Composed.discreet`: every service is discreet.
-/

namespace AccessAdmin

variable {α β ε : Type} {S : ε → ε → Prop} {s : Session} {ctx : Context}

/-! ## Wrapped errors -/

inductive ProjectionError.Alike : ProjectionError → ProjectionError → Prop where
  | store {e e' : StoreError} (h : e.Alike e') : Alike (.store e) (.store e')
  | engine (e : Policy.EngineError) : Alike (.engine e) (.engine e)

/-- Errors of a service but for the texts of the failures that they wrap up. -/
inductive ServiceError.Alike : ServiceError → ServiceError → Prop where
  | refl (e : ServiceError) : Alike e e
  | storage {e e' : StoreError} (h : e.Alike e') : Alike (.storage e) (.storage e')
  | policy {e e' : ProjectionError} (h : e.Alike e') : Alike (.policy e) (.policy e')

/-- What a caller is told of a store error by its own text names a row; any other is wrapped up. -/
theorem ServiceError.Alike.ofStore {e e' : StoreError} (h : e.Alike e') :
    (ServiceError.ofStore e).Alike (ServiceError.ofStore e') := by
  cases h with
  | notFound what => exact .refl _
  | conflict what => exact .refl _
  | transaction state state' => exact .storage (.transaction state state')
  | unexpected text text' => exact .storage (.unexpected text text')
  | overflow => exact .storage .overflow

/-! ## Programs that may fail -/

/-- A program that, answered alike, comes to the same value, or to errors of the relation. -/
def Discreet (S : ε → ε → Prop) (p : ExceptT ε Program α) : Prop :=
  p.run.Alike (SameUpTo S) p.run

theorem discreet_pure (a : α) : Discreet S (pure a : ExceptT ε Program α) := .done (.ok a)

theorem discreet_refuse (e : ServiceError) :
    Discreet ServiceError.Alike (Service.refuse e : Service α) := .done (.error (.refl e))

theorem Discreet.bind {p : ExceptT ε Program α} {f : α → ExceptT ε Program β}
    (hp : Discreet S p) (hf : ∀ a, Discreet S (f a)) : Discreet S (p >>= f) := by
  rw [Discreet, ExceptT.run_bind, Program.bind_eq]
  refine Program.Alike.bind hp fun r r' hr => ?_
  cases hr with
  | ok a => exact hf a
  | error h => exact .done (.error h)

theorem discreet_ite {c : Prop} [Decidable c] {p q : ExceptT ε Program α} (hp : Discreet S p)
    (hq : Discreet S q) : Discreet S (if c then p else q) := by
  split
  · exact hp
  · exact hq

theorem discreet_lift {p : Program α} (hp : p.Storeless) :
    Discreet S (ExceptT.lift p : ExceptT ε Program α) :=
  hp.alike.map fun a _ h => h ▸ .ok a

theorem discreet_perform {e : Effect} (he : ∀ r, ¬e.Failed r) :
    Discreet ServiceError.Alike (Service.perform e) :=
  discreet_lift (Program.storeless_perform he)

/-! ## Calls and sessions -/

theorem discreet_ofStore (c : Store.Call) :
    Discreet ServiceError.Alike (Service.ofStore (s.call c)) := by
  refine Program.Alike.bind (Program.alike_perform (.call s.id c)) fun r r' hr => ?_
  cases hr with
  | ok a => exact .done (.ok a)
  | error h => exact .done (.error (.ofStore h))

theorem discreet_ask (q : Store.Read) : Discreet ServiceError.Alike (s.ask q) := discreet_ofStore _

theorem discreet_change (w : Store.Write) : Discreet ServiceError.Alike (s.change w) :=
  discreet_ofStore _

/-- The deadline passes in both runs or in neither. -/
theorem Discreet.bounded {p : Service α} (hp : Discreet ServiceError.Alike p) :
    Discreet ServiceError.Alike (ctx.bounded p) := by
  refine Program.Alike.bind (Program.Alike.limited hp ctx) fun o o' ho => ?_
  cases ho with
  | none => exact .done (.error (.refl _))
  | some hr => exact .done hr

theorem discreet_withSession {onError : StoreError → ε} {work : Session → ExceptT ε Program α}
    (hopen : ∀ e e' : StoreError, e.Alike e' → S (onError e) (onError e'))
    (h : ∀ s, Discreet S (work s)) : Discreet S (withSession onError work) := by
  refine Program.Alike.bind (Program.alike_perform .openSession) fun r r' hr => ?_
  cases hr with
  | error he => exact .done (.error (hopen _ _ he))
  | ok id =>
    refine Program.Alike.bind (h ⟨id⟩) fun result result' hresult => ?_
    exact Program.Alike.bind (Program.alike_perform (.closeSession id)) fun _ _ _ => .done hresult

theorem discreet_session {work : Session → Service α}
    (h : ∀ s, Discreet ServiceError.Alike (work s)) :
    Discreet ServiceError.Alike (Service.session work) :=
  discreet_withSession (fun _ _ => .ofStore) h

/-- A transaction is given up for errors that are alike, and committed for the same value. -/
theorem alike_settle {o o' : Option (Except ServiceError α)}
    (h : Option.Rel (SameUpTo ServiceError.Alike) o o') :
    (Context.settle s o).run.Alike (SameUpTo ServiceError.Alike) (Context.settle s o').run := by
  cases h with
  | none => exact .ask fun _ _ _ => .done (.error (.refl _))
  | some hr =>
    cases hr with
    | error he => exact .ask fun _ _ _ => .done (.error he)
    | ok a => exact (discreet_ofStore .commit).bind fun _ => discreet_pure a

theorem Discreet.transaction {work : Service α} (h : Discreet ServiceError.Alike work) :
    Discreet ServiceError.Alike (ctx.transaction s work) := by
  have hworked : Discreet ServiceError.Alike (ctx.worked s work) := by
    rw [Context.worked, Discreet, ExceptT.run_bind_lift, Program.bind_eq]
    exact (Program.Alike.limited h ctx).bind fun _ _ => alike_settle
  rw [transaction_eq]
  refine (discreet_perform fun _ (h : False) => h).bind fun joined => discreet_ite h ?_
  exact (discreet_ofStore .begin).bounded.bind fun _ => hworked

/-! ## Projections -/

theorem discreet_look (q : Store.Read) : Discreet ProjectionError.Alike (Projecting.ask s q) := by
  refine Program.Alike.bind (Program.alike_perform (.call s.id (.read q))) fun r r' hr => ?_
  cases hr with
  | ok a => exact .done (.ok a)
  | error h => exact .done (.error (.store h))

theorem discreet_engine {p : Program (Except Policy.EngineError Bool)} (hp : p.Storeless) :
    Discreet ProjectionError.Alike (Projecting.engine p) := by
  refine hp.alike.bind fun r r' hr => ?_
  obtain rfl := hr
  cases r with
  | ok _ => exact .done (.ok ())
  | error e => exact .done (.error (.engine e))

theorem discreet_forAll {items : List α} {act : α → Projecting Unit}
    (h : ∀ x, Discreet ProjectionError.Alike (act x)) :
    Discreet ProjectionError.Alike (Projecting.forAll items act) := by
  induction items with
  | nil => exact discreet_pure ()
  | cons x rest ih => exact (h x).bind fun _ => ih

/-- What is counted is whether the projection came out, not how it failed. -/
theorem Discreet.counted {subject : Subject} {work : Projecting α}
    (h : Discreet ProjectionError.Alike work) :
    Discreet ProjectionError.Alike (Projecting.counted subject work) := by
  refine Program.Alike.bind h fun r r' hr => ?_
  have hcount : r.toBool = r'.toBool := by
    cases hr <;> rfl
  rw [hcount]
  exact .ask fun _ _ _ => .done hr

/-- After the commit the error of a projection is wrapped up. -/
theorem Discreet.afterCommit {work : Projecting α} (h : Discreet ProjectionError.Alike work) :
    Discreet ServiceError.Alike (Projecting.afterCommit work) := by
  refine Program.Alike.bind h fun r r' hr => ?_
  cases hr with
  | ok _ => exact .done (.ok ())
  | error he => exact .done (.error (.policy he))

namespace Projection

theorem discreet_role (id : String) : Discreet ProjectionError.Alike (role s id) := by
  refine Discreet.counted ((discreet_look _).bind fun grants => ?_)
  have hset (resources : List MenuResource) : Discreet ProjectionError.Alike (do
      let rules := roleRules grants resources
      Projecting.engine (Program.perform (.policy (.removePermissions id)))
      Projecting.forAll rules fun r =>
        Projecting.engine (Program.perform (.policy (.addPermission id r.1 r.2)))
      return rules.length) := by
    refine (discreet_engine (Program.storeless_policy _)).bind fun _ => ?_
    exact (discreet_forAll fun r => discreet_engine (Program.storeless_policy _)).bind fun _ =>
      discreet_pure _
  dsimp only
  split
  · exact hset []
  · exact (discreet_look _).bind hset

theorem discreet_user (id : String) : Discreet ProjectionError.Alike (user s id) := by
  refine Discreet.counted ((discreet_look _).bind fun edges => ?_)
  refine (discreet_engine (Program.storeless_policy _)).bind fun _ => ?_
  exact (discreet_forAll fun a => discreet_engine (Program.storeless_policy _)).bind fun _ =>
    discreet_pure _

end Projection

/-! ## Compositions -/

/-- By induction on the composition. -/
theorem Projecting.Composed.discreet {p : Projecting α} (h : p.Composed) :
    Discreet ProjectionError.Alike p := by
  induction h with
  | pure a => exact discreet_pure a
  | bind _ _ ihp ihf => exact ihp.bind ihf
  | look s q => exact discreet_look q
  | held => exact discreet_lift (Program.storeless_policy _)
  | role s id => exact Projection.discreet_role id
  | user s id => exact Projection.discreet_user id
  | removePermissions id | removeMemberships id | removeRoleMemberships id =>
    exact discreet_engine (Program.storeless_policy _)

/-- By induction on the composition: no part looks at the text of a failure. It does not matter
where the resources come from. -/
theorem Service.Composed.discreet {p : Service α} (h : Composed (fun _ _ => True) p) :
    Discreet ServiceError.Alike p := by
  induction h with
  | pure a => exact discreet_pure a
  | refuse e => exact discreet_refuse e
  | bind _ _ ihp ihf => exact ihp.bind ihf
  | ask q => exact discreet_ask q
  | change hw => exact discreet_change _
  | freshId _ | readClock | freshSalt | count _ => exact discreet_perform fun _ h => h
  | afterCommit hwork => exact hwork.discreet.afterCommit
  | bounded _ ih => exact ih.bounded
  | transaction _ ih => exact ih.transaction
  | session _ ih => exact discreet_session ih

end AccessAdmin
