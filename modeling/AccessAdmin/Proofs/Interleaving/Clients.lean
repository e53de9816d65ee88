import AccessAdmin.Proofs.Changes.Mutations
import AccessAdmin.Proofs.Interleaving.Stages
import AccessAdmin.Proofs.Rebuild

/-!
# What clients come to

A client that serves a mutation looks around and then comes to its one transaction: it is refused
there, or the tables change as the mutation says and the projections of its follow-up are left. A
client that makes a pass comes to the pass itself.

* `Mutation.Begins`: a program that is about to make the transaction of a mutation.
* `Job.Comes`: what the client of a job comes to.
* `Job.ahead`: every client comes to it.
-/

namespace AccessAdmin

open Policy Program

/-- What the transaction of a mutation makes of the tables, and what it leaves to do. Refused, the
client does not end well any more. -/
inductive Mutation.Transacts (env : Surroundings) (m : Mutation) (t t' : Store.Tables)
    (p : Program Bool) : Prop where
  | refused : t' = t → (∀ P ds, ¬p.Traces P ds true) → Transacts env m t t' p
  | committed {a : m.Result} : m.Changes env t a t' →
      (∀ P ds, p.Traces P ds true → m.Deals P t t' a ds) → Transacts env m t t' p

/-- A client that has not ended well, and whose next move is the transaction of a mutation. -/
structure Mutation.Begins (env : Surroundings) (m : Mutation) (p : Program Bool) : Prop where
  open_ : p ≠ .done true
  move : ∀ {w e p' w'}, w.AtRest → (∃ used, w.tables.Sound used) →
    World.move env p w = some (e, p', w') →
      e.sign = .store ∧ w'.AtRest ∧ w'.engine = w.engine ∧ p'.Tail ∧
        m.Transacts env w.tables w'.tables p'

/-- The end of a session. -/
def Program.closing {ε α : Type} (n : Store.SessionId) (r : Except ε α) : Program Bool :=
  .ask (.closeSession n) fun _ => .done r.isOk

/-- What the client of a job comes to: the transaction of its mutation, or its pass. -/
def Job.Comes (env : Surroundings) : Job → Program Bool → Prop
  | serve m _ _, p => m.Begins env p
  | reload, p => p = .done false ∨ ∃ s, p = (Projection.all s).run.bind (closing s.id)

/-! ## Sessions -/

section Sessions

variable {α β ε : Type} {env : Surroundings} {m : Mutation} {P : Store.Tables → Prop}
  {ds : List Dealing} {n : Store.SessionId}

theorem tail_closing (r : Except ε α) : (closing n r).Tail := ⟨trivial, fun _ => trivial⟩

theorem traces_closing {r : Except ε α} {b : Bool} :
    (closing n r).Traces P ds b ↔ ds = [] ∧ b = r.isOk := by
  constructor
  · rintro ⟨_, _, _, rfl, ⟨rfl, rfl⟩, rfl⟩
    exact ⟨rfl, rfl⟩
  · rintro ⟨rfl, rfl⟩
    exact ⟨(), [], [], rfl, ⟨rfl, rfl⟩, rfl⟩

/-- The work of a session that ends well has an answer. -/
theorem traces_closing_bind {p : Program (Except ε α)}
    (h : (p.bind (closing n)).Traces P ds true) : ∃ a, p.Traces P ds (.ok a) := by
  obtain ⟨r, ds₁, _, hp, hc, rfl⟩ := traces_bind.1 h
  obtain ⟨rfl, hr⟩ := traces_closing.1 hc
  rw [List.append_nil]
  cases r with
  | ok a => exact ⟨a, hp⟩
  | error e => cases hr

theorem isOk_withSession {onError : StoreError → ε} {work : Session → ExceptT ε Program α} :
    Except.isOk <$> (withSession onError work).run =
      .ask .openSession fun
        | .error _ => .done false
        | .ok n => (work ⟨n⟩).run.bind (closing n) := by
  rw [map_eq_pure_bind, withSession, ExceptT.run_mk, Program.bind_eq, Program.bind_eq, bind_assoc]
  show Program.ask _ _ = _
  congr 1
  funext r
  rcases r with _ | n
  · rfl
  · exact bind_assoc _ _ _

end Sessions

/-! ## Before the transaction -/

namespace Service

variable {α β : Type} {env : Surroundings} {m : Mutation}

/-- A service that only looks. -/
def Looking (x : Service α) : Prop := x.run.Ahead fun q => ∃ r, q = .done r

/-- A service whose client comes to the transaction of a mutation. -/
def Serving (env : Surroundings) (m : Mutation) (x : Service α) : Prop :=
  (Except.isOk <$> x.run).Ahead (m.Begins env)

theorem begins_refused : m.Begins env (.done false) := ⟨nofun, fun _ _ h => nomatch h⟩

theorem looking_pure (a : α) : Looking (pure a) := .here ⟨_, rfl⟩

theorem looking_refuse (e : ServiceError) : Looking (refuse e : Service α) := .here ⟨_, rfl⟩

theorem Looking.bind {x : Service α} {f : α → Service β} (hx : Looking x)
    (hf : ∀ a, Looking (f a)) : Looking (x >>= f) := by
  rw [Looking, ExceptT.run_bind, Program.bind_eq]
  refine Ahead.bind hx ?_
  rintro _ ⟨e | a, rfl⟩
  · exact .here ⟨_, rfl⟩
  · exact hf a

theorem looking_ite {c : Prop} [Decidable c] {x y : Service α} (hx : Looking x)
    (hy : Looking y) : Looking (if c then x else y) := by
  split
  · exact hx
  · exact hy

/-- A question outside a transaction. -/
theorem looking_ask (ctx : Context) (s : Session) (q : Store.Read) :
    Looking (ctx.bounded (s.ask q)) := by
  have he : (Effect.call s.id (.read q)).Looks := trivial
  rw [Looking, Context.bounded, ExceptT.run_mk, Program.bind_eq, Session.ask, run_ofStore,
    Context.limited]
  cases ctx.deadline with
  | none => exact .look he fun r _ => .here ⟨_, rfl⟩
  | some d =>
    simp only [Program.within, Program.bind]
    exact .lookBy he fun r _ => .here ⟨_, rfl⟩

theorem looking_freshSalt : Looking (Service.perform .freshSalt) :=
  .look trivial fun _ _ => .here ⟨_, rfl⟩

theorem Looking.session {work : Session → Service α} (h : ∀ s, Looking (work s)) :
    Looking (Service.session work) := by
  refine .look trivial fun r _ => ?_
  rcases r with e | n
  · exact .here ⟨_, rfl⟩
  · show Ahead _ ((work ⟨n⟩).run.bind fun r => .ask (.closeSession n) fun _ => .done r)
    refine Ahead.bind (h ⟨n⟩) ?_
    rintro _ ⟨r, rfl⟩
    exact .look trivial fun _ _ => .here ⟨_, rfl⟩

theorem serving_refuse (e : ServiceError) : Serving env m (refuse e : Service α) :=
  .here begins_refused

theorem serving_ite {c : Prop} [Decidable c] {x y : Service α} (hx : Serving env m x)
    (hy : Serving env m y) : Serving env m (if c then x else y) := by
  split
  · exact hx
  · exact hy

/-- What follows a look. -/
theorem Looking.serving {x : Service α} {f : α → Service β} (hx : Looking x)
    (hf : ∀ a, Serving env m (f a)) : Serving env m (x >>= f) := by
  rw [Serving, ExceptT.run_bind, map_eq_pure_bind, Program.bind_eq, Program.bind_eq,
    Program.bind_assoc]
  refine Ahead.bind hx ?_
  rintro _ ⟨e | a, rfl⟩
  · exact .here begins_refused
  · have h := hf a
    rw [Serving, map_eq_pure_bind] at h
    exact h

theorem serving_checked {check : Service Unit} {fault : Option String} {x : Service β}
    (hcheck : (fault = none ∧ check = pure ()) ∨ ∃ e, e.Plain ∧ check = refuse e)
    (h : fault = none → Serving env m x) : Serving env m (check >>= fun _ => x) := by
  rcases hcheck with ⟨hf, rfl⟩ | ⟨e, -, rfl⟩
  · rw [pure_bind]
    exact h hf
  · exact .here begins_refused

/-- A transaction and what follows it, from the question whether one is open. -/
theorem run_transaction_then (ctx : Context) (s : Session) (body : Service α)
    (after : α → Service β) (f : Except ServiceError β → Program Bool) :
    (ctx.transaction s body >>= after).run.bind f =
      .ask (.inTransaction s.id) fun inside => (if inside then body else do
        ctx.bounded (Service.ofStore (s.call .begin))
        ctx.worked s body : Service α).run.bind fun r =>
          (ExceptT.bindCont after r : Program (Except ServiceError β)).bind f := by
  rw [ExceptT.run_bind, Program.bind_eq, Program.bind_assoc, transaction_eq, Service.perform,
    ExceptT.run_bind_lift, Program.bind_eq, Program.bind_assoc]
  rfl

/-- A transaction and the projections after its commit. -/
theorem serving_commit {ctx : Context} {body : Session → Service α}
    {after : Session → α → Service β} (hbody : ∀ s : Session, s.Works (body s))
    (hafter : ∀ (s : Session) a, s.Follows (after s a))
    (hcommit : ∀ (s : Session) a d d', (∃ used, d.tables.Sound used) →
      (body s).run.Ends env s.id d (.ok a) d' → ∃ a', m.Changes env d.tables a' d'.tables ∧
        ∀ P ds b, (after s a).run.Traces P ds (.ok b) → m.Deals P d.tables d'.tables a' ds) :
    Serving env m (Service.session fun s => ctx.transaction s (body s) >>= after s) := by
  rw [Serving, Service.session, isOk_withSession]
  refine .look trivial fun r _ => ?_
  rcases r with _ | n
  · exact .here begins_refused
  show Ahead _ ((ctx.transaction ⟨n⟩ (body ⟨n⟩) >>= after ⟨n⟩).run.bind (closing n))
  rw [run_transaction_then]
  refine .look trivial fun inside hinside => ?_
  rw [show inside = false from hinside, if_neg Bool.false_ne_true]
  refine .here ⟨fun h => ?_, fun {w e p' w'} hw hsound h => ?_⟩
  · obtain ⟨e, r, w', hmove, -⟩ :=
      move_transaction env ctx (w := { store := {} }) ⟨rfl, rfl⟩ (hbody ⟨n⟩) _
    rw [h] at hmove
    cases hmove
  · obtain ⟨e, r, w', hmove, hsign, hrest, hengine, hends⟩ :=
      move_transaction env ctx hw (hbody ⟨n⟩) _
    rw [hmove, Option.some.injEq, Prod.mk.injEq, Prod.mk.injEq] at h
    obtain ⟨rfl, rfl, rfl⟩ := h
    refine ⟨hsign, hrest, hengine, ?_, ?_⟩
    · rcases r with e | a
      · exact tail_closing _
      · exact (Steady.tail (hafter ⟨n⟩ a)).bind tail_closing
    · obtain ⟨e, rfl, htables⟩ | ⟨a, rfl, hends⟩ := hends
      · exact .refused htables fun P ds ht => Bool.false_ne_true (traces_closing.1 ht).2.symm
      · obtain ⟨a', hchanges, hdeals⟩ := hcommit ⟨n⟩ a _ _ hsound hends
        refine .committed hchanges fun P ds ht => ?_
        obtain ⟨b, hb⟩ := traces_closing_bind ht
        exact hdeals P ds b hb

/-- A transaction that nothing follows. -/
theorem serving_transaction {ctx : Context} {body : Session → Service α}
    (hbody : ∀ s : Session, s.Works (body s)) (hnothing : ∀ P t t' a, m.Deals P t t' a [])
    (hcommit : ∀ (s : Session) a d d', (body s).run.Ends env s.id d (.ok a) d' →
      ∃ a', m.Changes env d.tables a' d'.tables) :
    Serving env m (Service.session fun s => ctx.transaction s (body s)) := by
  have h : Serving env m (Service.session fun s => ctx.transaction s (body s) >>= pure) := by
    refine serving_commit hbody (fun s a => Session.follows_pure a) fun s a d d' _ hends => ?_
    obtain ⟨a', hchanges⟩ := hcommit s a d d' hends
    refine ⟨a', hchanges, fun P ds b ht => ?_⟩
    obtain ⟨rfl, -⟩ := traces_pure ht
    exact hnothing P _ _ a'
  simpa only [bind_pure] using h

end Service

/-! ## Every mutation -/

section Mutations

variable {env : Surroundings} {users : UserPolicy} {ctx : Context} {s : Session} {id : String}
  {P : Store.Tables → Prop} {ds : List Dealing}

open Service Session

theorem traces_return {β : Type} {x : Service Unit} {b c : β}
    (h : (do x; return b : Service β).run.Traces P ds (.ok c)) : x.run.Traces P ds (.ok ()) := by
  obtain ⟨_, _, _, hx, hp, rfl⟩ := traces_seq_ok.1 h
  obtain ⟨rfl, -⟩ := traces_pure hp
  rwa [List.append_nil]

theorem traces_project (h : (Roles.project s id).run.Traces P ds (.ok ())) :
    ((FollowUp.roles [id]).program s).run.Traces P ds (.ok ()) := by
  obtain ⟨_, h⟩ := Projecting.traces_afterCommit h
  exact traces_seq_ok.2 ⟨(), ds, [], h, ⟨rfl, rfl⟩, (List.append_nil ds).symm⟩

theorem traces_syncPolicy {status : UserStatus}
    (h : (Users.syncPolicy s id status).run.Traces P ds (.ok ())) :
    ((FollowUp.ofStatus id status).program s).run.Traces P ds (.ok ()) := by
  cases status with
  | enabled | disabled =>
    obtain ⟨_, h⟩ := Projecting.traces_afterCommit h
    exact h

theorem looking_hashed (password : String) : Looking (users.hashed password) :=
  looking_freshSalt.bind fun _ => looking_pure _

theorem looking_activeUser (s : Session) (userId : String) :
    Looking (Menus.activeUser ctx s userId) := by
  refine (looking_ask ctx s _).bind fun found => ?_
  cases found with
  | none => exact looking_refuse _
  | some user => exact looking_ite (looking_pure _) (looking_refuse _)

theorem looking_verifyPassword (username password : String) :
    Looking (Users.verifyPassword users ctx username password) :=
  Looking.session fun s => (looking_ask ctx s _).bind fun _ => looking_pure _

theorem serving_updateMenu (input : MenuInput) :
    Serving env (.updateMenu id input) (Menus.update ctx id input) := by
  unfold Menus.update
  refine serving_ite (serving_refuse _) (serving_checked (Menus.validate_cases _) fun hf => ?_)
  refine serving_commit (fun _ => Menus.works_applyUpdate id input)
    (fun _ menu => (projects_menuGrantees menu.id).discard.afterCommit.bind fun _ =>
      follows_pure menu) fun s menu _ _ ⟨_, hsound⟩ hends => ?_
  obtain ⟨rfl, old, row, hupdated⟩ := Menus.ends_applyUpdate hsound.menus hf hends
  refine ⟨menu, ⟨old, row, hupdated⟩, fun P ds b ht => ?_⟩
  obtain ⟨_, ht⟩ := Projecting.traces_afterCommit (traces_return ht)
  exact ⟨s, ht⟩

theorem serving_deleteMenu : Serving env (.deleteMenu id) (Menus.delete ctx id) := by
  refine serving_commit (fun _ => Menus.works_remove id)
    (fun _ _ => (projects_forAll fun role => (projects_role role).discard).afterCommit)
    fun s granting _ _ _ hends => ?_
  obtain ⟨hremoved, rfl⟩ := Menus.ends_remove hends
  refine ⟨(), hremoved, fun P ds b ht => ?_⟩
  obtain ⟨_, ht⟩ := Projecting.traces_afterCommit ht
  exact ⟨s, ht⟩

theorem serving_createRole (input : RoleInput) :
    Serving env (.createRole input) (Roles.create ctx input) := by
  refine serving_checked (Roles.validate_cases _) fun _ => ?_
  refine serving_commit (fun _ => Roles.works_insert ctx.actor input)
    (fun _ role => (Roles.follows_project role.id).bind fun _ => follows_pure role)
    fun s role _ _ _ hends => ?_
  exact ⟨role, Roles.ends_insert hends, fun P ds b ht => ⟨s, traces_project (traces_return ht)⟩⟩

theorem serving_updateRole (input : RoleInput) :
    Serving env (.updateRole id input) (Roles.update ctx id input) := by
  refine serving_checked (Roles.validate_cases _) fun hf => ?_
  refine serving_commit (fun _ => Roles.works_applyUpdate id input)
    (fun _ role => (Roles.follows_project role.id).bind fun _ => follows_pure role)
    fun s role _ _ _ hends => ?_
  obtain ⟨rfl, hupdated⟩ := Roles.ends_applyUpdate hf hends
  exact ⟨role, hupdated, fun P ds b ht => ⟨s, traces_project (traces_return ht)⟩⟩

theorem serving_deleteRole : Serving env (.deleteRole id) (Roles.delete ctx id) := by
  refine serving_commit (fun _ => Roles.works_remove id)
    (fun _ _ => (projects_removeRole id).afterCommit) fun s _ _ _ _ hends => ?_
  refine ⟨(), Roles.ends_remove hends, fun P ds b ht => ?_⟩
  obtain ⟨_, ht⟩ := Projecting.traces_afterCommit ht
  exact ⟨s, ht⟩

theorem serving_createUser (input : UserInput) :
    Serving env (.createUser input) (Users.create users ctx input) := by
  refine serving_checked (Users.validate_cases _) fun _ => ?_
  refine serving_ite (serving_refuse _) ((looking_hashed _).serving fun hash => ?_)
  refine serving_commit (fun _ => Users.works_insert ctx.actor hash input)
    (fun _ user => (Users.follows_syncPolicy user.id user.status).bind fun _ => follows_pure user)
    fun s user _ _ _ hends => ?_
  obtain ⟨row, hadded, hid, hstatus⟩ := Users.ends_insert hends
  refine ⟨user, ⟨row, hadded, hid⟩, fun P ds b ht => ?_⟩
  rw [hstatus] at ht
  exact ⟨s, traces_syncPolicy (traces_return ht)⟩

theorem serving_updateUser (input : UserInput) :
    Serving env (.updateUser id input) (Users.update users ctx id input) := by
  refine serving_checked (Users.validate_cases _) fun _ => ?_
  have hafter (hash : Option String) : Serving env (.updateUser id input)
      (Service.session fun s => do
        let user ← ctx.transaction s (Users.applyUpdate s id hash input)
        Users.syncPolicy s user.id user.status
        return user) := by
    refine serving_commit (fun _ => Users.works_applyUpdate id hash input)
      (fun _ user => (Users.follows_syncPolicy user.id user.status).bind fun _ =>
        follows_pure user) fun s user _ _ ⟨_, hsound⟩ hends => ?_
    obtain ⟨rfl, hstatus, hupdated⟩ := Users.ends_applyUpdate hsound.users hends
    refine ⟨user, hupdated, fun P ds b ht => ?_⟩
    rw [hstatus] at ht
    exact ⟨s, traces_syncPolicy (traces_return ht)⟩
  dsimp only
  -- With or without a new password, the same transaction follows.
  split
  · exact (looking_pure none).serving hafter
  · rw [map_eq_pure_bind]
    exact ((looking_hashed _).bind fun _ => looking_pure _).serving hafter

theorem serving_deleteUser : Serving env (.deleteUser id) (Users.delete ctx id) := by
  refine serving_commit (fun _ => Users.works_remove id)
    (fun _ _ => (projects_removeUser id).afterCommit) fun s _ _ _ _ hends => ?_
  refine ⟨(), Users.ends_remove hends, fun P ds b ht => ?_⟩
  obtain ⟨_, ht⟩ := Projecting.traces_afterCommit ht
  exact ⟨s, ht⟩

theorem serving_updateStatus (status : UserStatus) :
    Serving env (.updateStatus id status) (Users.updateStatus ctx id status) := by
  refine serving_commit (fun _ => Users.works_setStatus id status)
    (fun _ _ => Users.follows_syncPolicy id status) fun s _ _ _ _ hends => ?_
  exact ⟨(), Users.ends_setStatus hends, fun P ds b ht => ⟨s, traces_syncPolicy ht⟩⟩

theorem serving_seedMenus (forest : List MenuSeed) :
    Serving env (.seedMenus forest) (Menus.seed ctx forest) := by
  show Serving env _ (Service.session fun s =>
    ctx.transaction s (Menus.seeding s ctx.actor forest))
  exact serving_transaction (fun _ => Menus.works_seeding ctx.actor forest)
    (fun _ _ _ _ => ⟨⟨0⟩, rfl, rfl⟩) fun _ n _ _ hends => ⟨n, Menus.ends_seeding hends⟩

theorem serving_setPassword {m : Mutation} (password : String)
    (hnothing : ∀ P t t' a, m.Deals P t t' a [])
    (hcommit : ∀ {s : Session} {a d d' hash},
      (s.change (.updateUserPassword id hash)).run.Ends env s.id d (.ok a) d' →
        ∃ a', m.Changes env d.tables a' d'.tables) :
    Serving env m (Users.updatePassword users ctx id password) :=
  serving_ite (serving_refuse _) <| (looking_hashed password).serving fun _ =>
    serving_transaction (fun _ => works_change _) hnothing fun _ _ _ _ hends => hcommit hends

variable (env users ctx) in
/-- The client of a mutation comes to its transaction. -/
theorem Mutation.serving (m : Mutation) : Serving env m (m.program users ctx) := by
  cases m with
  | createMenu input =>
    refine serving_checked (Menus.validate_cases _) fun _ => ?_
    refine serving_transaction (fun _ => Menus.works_insert ctx.actor input)
      (fun _ _ _ _ => ⟨⟨0⟩, rfl, rfl⟩) fun _ menu _ _ hends => ?_
    obtain ⟨row, hadded, -⟩ := Menus.ends_insert hends
    exact ⟨menu, row, hadded⟩
  | updateMenu id input => exact serving_updateMenu input
  | deleteMenu id => exact serving_deleteMenu
  | seedMenus forest => exact serving_seedMenus forest
  | createRole input => exact serving_createRole input
  | updateRole id input => exact serving_updateRole input
  | deleteRole id => exact serving_deleteRole
  | createUser input => exact serving_createUser input
  | updateUser id input => exact serving_updateUser input
  | deleteUser id => exact serving_deleteUser
  | updateStatus id status => exact serving_updateStatus status
  | updatePassword id password =>
    exact serving_setPassword password (fun _ _ _ _ => ⟨⟨0⟩, rfl, rfl⟩) fun hends =>
      ⟨(), (Users.ends_setPassword hends).2⟩
  | changeOwnPassword userId old new =>
    refine serving_ite (serving_refuse _) (serving_ite (serving_refuse _) ?_)
    refine (Looking.session fun s => looking_activeUser s userId).serving fun user => ?_
    refine (looking_verifyPassword _ _).serving fun right => ?_
    refine serving_ite ?_ (serving_refuse _)
    exact serving_setPassword new (fun _ _ _ _ => ⟨⟨0⟩, rfl, rfl⟩) fun hends =>
      ⟨(), (Users.ends_setPassword hends).2⟩

variable (env) in
/-- Every client comes to what its job is. -/
theorem Job.ahead (j : Job) : j.program.Ahead (j.Comes env) := by
  cases j with
  | serve m users ctx => exact m.serving env users ctx
  | reload =>
    show Ahead _ (Except.isOk <$> (withSession ProjectionError.store Projection.all).run)
    rw [isOk_withSession]
    refine .look trivial fun r _ => ?_
    rcases r with _ | n
    · exact .here (.inl rfl)
    · exact .here (.inr ⟨⟨n⟩, rfl⟩)

end Mutations

end AccessAdmin
