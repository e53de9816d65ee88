import AccessAdmin.Service.Context
import AccessAdmin.World

/-!
# Runs of composed programs

How a world runs a program that is put together from others: one after the other (`run_bind`),
services that may end with an error (`run_bind_service`), and programs under a deadline
(`run_limited_ask`).

* `Store.Read.Fits`: the questions that are always answered.
-/

namespace AccessAdmin

namespace Store

/-- A question that can be asked, so that every table has an answer to it. -/
class Read.Fits (q : Read) : Prop where
  fits : q.fits = true

theorem Tables.answer_fits (t : Tables) (q : Read) [h : q.Fits] : t.answer q = .ok (t.ask q) :=
  t.answer_of_fits h.fits

namespace Read

instance (id : String) : (getMenu id).Fits := ⟨rfl⟩
instance (ids : List String) : (listMenuActions ids).Fits := ⟨rfl⟩
instance (ids : List String) : (listMenuResources ids).Fits := ⟨rfl⟩
instance (id : String) : (getRole id).Fits := ⟨rfl⟩
instance (ids : List String) : (listRoleMenus ids).Fits := ⟨rfl⟩
instance (id : String) : (rolesGrantingMenu id).Fits := ⟨rfl⟩
instance (id : String) : (getUser id).Fits := ⟨rfl⟩
instance (ids : List String) : (listUserRoles ids).Fits := ⟨rfl⟩
instance (f : MenuFilter) : (queryMenus f none).Fits := ⟨rfl⟩
instance (f : RoleFilter) : (queryRoles f none).Fits := ⟨rfl⟩
instance (f : UserFilter) : (queryUsers f none).Fits := ⟨rfl⟩

/-- A first page starts at the position 0. -/
instance (f : MenuFilter) (size : Int64) : (queryMenus f (some ⟨1, size⟩)).Fits where
  fits := by
    have hfirst : Pagination.first ⟨1, size⟩ = 0 := Nat.zero_mul _
    simp [Read.fits, Pagination.fits, hfirst]

instance (f : MenuFilter) : (queryMenus f (some .all)).Fits :=
  inferInstanceAs (queryMenus f (some ⟨1, Pagination.everyRow⟩)).Fits

end Read

end Store

namespace World

variable {σ : Type} [Backend σ] {α β ε : Type} {env : Surroundings}

theorem run_bind (p : Program α) (f : α → Program β) (w : World σ) :
    run env (p.bind f) w =
      match run env p w with
      | (some a, w') => run env (f a) w'
      | (none, w') => (none, w') := by
  induction p generalizing w with
  | done a => rfl
  | ask e k ih =>
    simp only [Program.bind, run]
    rcases w.step env none e with ⟨_ | r, w'⟩
    · rfl
    · exact ih r w'
  | askBy l e k ih =>
    simp only [Program.bind, run]
    exact ih _ _

/-- A service that is followed by another: an error ends both. -/
theorem run_bind_service (x : ExceptT ε Program α) (f : α → ExceptT ε Program β) (w : World σ) :
    run env (x >>= f).run w =
      match run env x.run w with
      | (some (.ok a), w') => run env (f a).run w'
      | (some (.error e), w') => (some (.error e), w')
      | (none, w') => (none, w') := by
  rw [ExceptT.run_bind, Program.bind_eq, run_bind]
  rcases run env x.run w with ⟨_ | (e | a), w'⟩ <;> rfl

theorem run_limited_done (ctx : Context) (a : α) (w : World σ) :
    run env (ctx.limited (.done a)) w = (some (some a), w) := by
  unfold Context.limited
  cases ctx.deadline <;> rfl

/-- A step under the deadline, and what is left of the program after it. Without an answer the
deadline has passed; where there is none, the step waits for ever. -/
theorem run_limited_ask (ctx : Context) (e : Effect) (k : e.Reply → Program α) (w : World σ) :
    run env (ctx.limited (.ask e k)) w =
      match w.step env ctx.deadline e with
      | (some r, w') => run env (ctx.limited (k r)) w'
      | (none, w') => (if ctx.deadline.isSome then some none else none, w') := by
  unfold Context.limited
  cases ctx.deadline with
  | none =>
    show run env (.ask e fun r => some <$> k r) w = _
    simp only [run]
    rcases w.step env none e with ⟨_ | r, w'⟩ <;> rfl
  | some d =>
    simp only [Program.within, run]
    rcases w.step env (some d) e with ⟨_ | r, w'⟩ <;> rfl

/-- Without a deadline a program runs as it is. -/
theorem run_limited_none (p : Program α) (w : World σ) :
    run env (({} : Context).limited p) w = ((run env p w).1.map some, (run env p w).2) := by
  show run env (some <$> p) w = _
  rw [map_eq_pure_bind, Program.bind_eq, run_bind]
  rcases run env p w with ⟨_ | a, w'⟩ <;> rfl

end World

end AccessAdmin
