import AccessAdmin.Proofs.Running.Surely
import AccessAdmin.Proofs.Running.Work

/-!
# Runs in which nothing fails

In an unfailing run every call on the store is answered, and none with a failure: no fault strikes
one, and the store refuses none. The predicate looks at the whole run, so it also tells of failures
that a program passes over. Work that is sure of its calls on a desk has an unfailing run in a world
without planned faults, also in a transaction with projections after it.

* `World.Unfailing`: the predicate, which is kept by sequencing (`World.unfailing_bind`).
* `Program.Surely.unfailing_run`: sure work in a world.
* `Service.unfailing_transaction`, `Service.unfailing_commit`: sure work in a transaction.
-/

namespace AccessAdmin

variable {σ : Type} [Backend σ] {α β ε : Type} {env : Surroundings}

/-- In the run of a program every step is answered, and none with a failure of the store. -/
def World.Unfailing (env : Surroundings) : Program α → World σ → Prop
  | .done _, _ => True
  | .ask e k, w =>
    match w.step env none e with
    | (some r, w) => ¬e.Failed r ∧ Unfailing env (k r) w
    | (none, _) => False
  | .askBy l e k, w =>
    match w.step env (some l) e with
    | (some r, w) => ¬e.Failed r ∧ Unfailing env (k (some r)) w
    | (none, _) => False

namespace World

variable {w w' : World σ} {e : Effect} {r : e.Reply}

theorem unfailing_ask {k : e.Reply → Program α} (h : w.step env none e = (some r, w')) :
    Unfailing env (.ask e k) w ↔ ¬e.Failed r ∧ Unfailing env (k r) w' := by
  simp only [Unfailing, h]

/-- A step under a deadline in which it is answered. -/
theorem unfailing_limited_ask (ctx : Context) {k : e.Reply → Program α}
    (h : w.step env ctx.deadline e = (some r, w')) (hr : ¬e.Failed r)
    (hk : Unfailing env (ctx.limited (k r)) w') : Unfailing env (ctx.limited (.ask e k)) w := by
  unfold Context.limited at hk ⊢
  cases hd : ctx.deadline with
  | none =>
    simp only [hd] at h hk ⊢
    exact (unfailing_ask (k := fun r => some <$> k r) h).mpr ⟨hr, hk⟩
  | some limit =>
    simp only [hd] at h hk ⊢
    simp only [Program.within, Unfailing, h]
    exact ⟨hr, hk⟩

/-- One after the other. -/
theorem unfailing_bind {p : Program α} {f : α → Program β} :
    Unfailing env (p.bind f) w ↔
      Unfailing env p w ∧ ∀ a w', run env p w = (some a, w') → Unfailing env (f a) w' := by
  induction p generalizing w with
  | done a =>
    constructor
    · rintro h
      refine ⟨trivial, ?_⟩
      rintro _ _ ⟨⟩
      exact h
    · exact fun h => h.2 a w rfl
  | ask e k ih =>
    simp only [Program.bind, Unfailing, run]
    rcases w.step env none e with ⟨_ | r, w₁⟩
    · exact ⟨False.elim, fun h => h.1⟩
    · simp only [ih r, and_assoc]
  | askBy l e k ih =>
    simp only [Program.bind, Unfailing, run]
    rcases w.step env (some l) e with ⟨_ | r, w₁⟩
    · exact ⟨False.elim, fun h => h.1⟩
    · simp only [ih (some r), and_assoc]

/-- An error of the first part is the end of both. -/
theorem unfailing_bind_service {x : ExceptT ε Program α} {f : α → ExceptT ε Program β} :
    Unfailing env (x >>= f).run w ↔
      Unfailing env x.run w ∧
        ∀ a w', run env x.run w = (some (.ok a), w') → Unfailing env (f a).run w' := by
  rw [ExceptT.run_bind, Program.bind_eq, unfailing_bind]
  refine and_congr_right fun _ => ⟨fun h a w' ha => h (.ok a) w' ha, fun h r w' hr => ?_⟩
  cases r with
  | ok a => exact h a w' hr
  | error e => trivial

end World

/-! ## Work that is sure of its calls -/

section Work

variable {v : World MemoryStore} {s : Store.SessionId} {d : Desk} {may : Effect → Prop}
  {bad : ε → Prop} {I : World MemoryStore → Prop}

namespace Program

variable {p : Program (Except ε α)} {C : Except ε α → Desk → Prop}

/-- In a world without planned faults the run of sure work is unfailing, under a deadline as without
one. -/
theorem Surely.unfailing_run (h : p.Surely env s C d) (hp : p.Steady may bad)
    (hmay : ∀ e, may e → e.OnDesk s) (hk : Keeps env may I) (hv : v.At s d) (hI : I v) :
    World.Unfailing env p v ∧ ∀ ctx : Context, World.Unfailing env (ctx.limited p) v := by
  induction p generalizing v d with
  | done r =>
    refine ⟨trivial, fun ctx => ?_⟩
    unfold Context.limited
    cases ctx.deadline <;> trivial
  | ask e k ih =>
    obtain ⟨r, v₁, hs, -, hI₁⟩ := hk v e hv.faults hI hp.1
    obtain ⟨d₁, hd, hv₁⟩ := hv.step (hmay e hp.1) hs
    obtain ⟨hr, hrest⟩ := h r d₁ hd
    obtain ⟨hk₁, hlimited⟩ := ih r hrest (hp.2.2 r) hv₁ hI₁
    refine ⟨(World.unfailing_ask hs).mpr ⟨hr, hk₁⟩, fun ctx => ?_⟩
    have hs' := World.step_limit hv.faults (hmay e hp.1).timeless hs ctx.deadline
    exact World.unfailing_limited_ask ctx hs' hr (hlimited ctx)
  | askBy l e k _ => exact hp.elim

/-- The questions of a projection are never refused. -/
theorem Steady.surely_projection (hp : p.Steady (Effect.OfProjection s) bad) :
    p.Surely env s (fun _ _ => True) d := by
  induction p generalizing d with
  | done r => trivial
  | ask e k ih =>
    intro r d₁ hs
    refine ⟨?_, ih r (hp.2.2 r)⟩
    cases e with
    | call s' c =>
      cases c with
      | read q =>
        have hfits : q.Fits := hp.1.2
        obtain ⟨-, rfl, -⟩ := hs
        rw [Store.Tables.answer_fits]
        exact fun h => h
      | write _ | begin | commit | rollback => exact hp.1.elim
    | policy _ | count _ => exact fun h => h
    | openSession | closeSession _ | inTransaction _ | checkHealth | wait _ | elapsed | readClock
    | freshId _ _ | freshSalt | note _ => exact hp.1.elim
  | askBy l e k _ => exact hp.elim

/-- In an idle world without planned faults the run of a projection is unfailing. -/
theorem Steady.unfailing_projection (hp : p.Steady (Effect.OfProjection s) bad)
    (hv : v.faults = []) (hi : v.Idle) : World.Unfailing env p v :=
  ((hp.surely_projection (d := v.desk)).unfailing_run hp (fun _ h => h.onDesk)
    (keeps_projection env v.store hi s) (hi.at hv s) rfl).1

end Program

end Work

/-! ## Transactions -/

namespace Service

variable {v : World MemoryStore} {s : Session} {work : Service α}
  {C : Except ServiceError α → Desk → Prop}

/-- The end of a transaction goes through. -/
theorem unfailing_settle {t : Store.Tables} (hv : v.faults = [])
    (hw : v.store.shared.writer = some ⟨s.id, t⟩) (o : Option (Except ServiceError α)) :
    World.Unfailing env (Context.settle s o).run v := by
  have hgive (e : ServiceError) : World.Unfailing env (Context.giveUp (α := α) s e).run v :=
    (World.unfailing_ask (World.step_rollback env hv hw)).mpr ⟨fun h => h, trivial⟩
  rcases o with _ | e | a
  · exact hgive _
  · exact hgive e
  · rw [Context.settle, World.unfailing_bind_service, run_ofStore]
    exact ⟨(World.unfailing_ask (World.step_commit env hv hw)).mpr ⟨fun h => h, trivial⟩,
      fun _ _ _ => trivial⟩

/-- A call on the store that goes through does so under a deadline. -/
theorem unfailing_bounded_ofStore {v' : World MemoryStore} {c : Store.Call} {a : c.Reply}
    (ctx : Context) (hv : v.faults = [])
    (h : v.step env none (.call s.id c) = (some (.ok a), v')) :
    World.Unfailing env (ctx.bounded (Service.ofStore (s.call c))).run v := by
  have hbounded := World.step_limit hv (show (Effect.call s.id c).Timeless from trivial) h
    ctx.deadline
  rw [Context.bounded, ExceptT.run_mk, Program.bind_eq, World.unfailing_bind, run_ofStore]
  refine ⟨World.unfailing_limited_ask ctx hbounded (fun h => h) ?_, fun o _ _ => ?_⟩
  · unfold Context.limited
    cases ctx.deadline <;> trivial
  · cases o <;> trivial

/-- Sure work in an open transaction, and the end of the transaction. -/
theorem unfailing_worked (ctx : Context) (hwork : s.Works work) (hv : v.faults = [])
    (hw : v.store.shared.writer = some ⟨s.id, v.tables⟩)
    (h : work.run.Surely env s.id C v.desk) : World.Unfailing env (ctx.worked s work).run v := by
  have hk := keeps_work env v.tables v.engine s.id
  have hview : v.At s.id v.desk :=
    ⟨hv, by simp only [Store.Shared.view, hw, ↓reduceIte]; rfl, rfl⟩
  have hworking : World.Working v.tables v.engine s.id v := ⟨v.tables, hw, rfl, rfl⟩
  rw [Context.worked, ExceptT.run_bind_lift, Program.bind_eq, World.unfailing_bind]
  refine ⟨(h.unfailing_run hwork (fun _ he => he.onDesk) hk hview hworking).2 ctx,
    fun o w' ho => ?_⟩
  obtain ⟨r, v', -, hlimited, hv', ⟨t, hw', -⟩, -⟩ :=
    hwork.run hk (fun _ he => he.onDesk.timeless) hv hworking
  obtain ⟨-, rfl⟩ := Prod.mk.inj ((hlimited ctx).symm.trans ho)
  exact unfailing_settle hv' hw' o

/-- Sure work in a transaction of its own, whatever it comes to. -/
theorem unfailing_transaction (ctx : Context) (hwork : s.Works work) (hv : v.faults = [])
    (hi : v.Idle) (h : work.run.Surely env s.id C v.desk) :
    World.Unfailing env (ctx.transaction s work).run v := by
  have hin := hi.step_inTransaction env s.id
  have hbegin := hi.step_begin env hv s.id
  have hask : World.run env (Service.perform (.inTransaction s.id)).run v =
      (some (.ok false), v) :=
    (runs_perform env (e := .inTransaction s.id) trivial (fun _ h => h) hv hv hin).clean
  have hfaults : (v.begun s.id).faults = [] := hv
  have hbegun : World.run env (ctx.bounded (Service.ofStore (s.call .begin))).run v =
      (some (.ok ()), v.begun s.id) := (runs_bounded_ofStore ctx hv hfaults hbegin).clean
  rw [transaction_eq, World.unfailing_bind_service]
  refine ⟨(World.unfailing_ask hin).mpr ⟨fun h => h, trivial⟩, fun a w' ha => ?_⟩
  obtain ⟨hanswer, rfl⟩ := Prod.mk.inj (hask.symm.trans ha)
  obtain rfl := Except.ok.inj (Option.some.inj hanswer)
  rw [if_neg Bool.false_ne_true, World.unfailing_bind_service]
  refine ⟨unfailing_bounded_ofStore ctx hv hbegin, fun _ w' hw' => ?_⟩
  obtain ⟨-, rfl⟩ := Prod.mk.inj (hbegun.symm.trans hw')
  exact unfailing_worked ctx hwork hfaults rfl h

/-- A session for work whose run is unfailing. -/
theorem unfailing_session {work : Session → Service α} (hv : v.faults = [])
    (h : World.Unfailing env (work ⟨v.store.opened⟩).run v.opening) :
    World.Unfailing env (Service.session work).run v := by
  rw [Service.session, withSession, ExceptT.run_mk, Program.bind_eq, World.unfailing_bind]
  refine ⟨(World.unfailing_ask (step_openSession env hv)).mpr ⟨fun h => h, trivial⟩,
    fun r w' hr => ?_⟩
  have hopen : World.run env (Program.perform .openSession) v =
      (some (.ok v.store.opened), v.opening) := by
    rw [Program.perform, World.run, step_openSession env hv]
    rfl
  obtain ⟨hanswer, rfl⟩ := Prod.mk.inj (hopen.symm.trans hr)
  obtain rfl := Option.some.inj hanswer
  dsimp only
  rw [Program.bind_eq, World.unfailing_bind]
  exact ⟨h, fun _ _ _ => ⟨fun h => h, trivial⟩⟩

/-- A transaction of sure work with projections of its result. -/
theorem unfailing_commit {ctx : Context} {body : Session → Service α}
    {after : Session → α → Service β} (hbody : ∀ s : Session, s.Works (body s))
    (hafter : ∀ s a, Session.Follows s (after s a)) (hv : v.faults = []) (hi : v.Idle)
    (h : ∀ s : Session, (body s).run.Surely env s.id C v.desk) :
    World.Unfailing env
      (Service.session fun s => ctx.transaction s (body s) >>= after s).run v := by
  refine unfailing_session hv (World.unfailing_bind_service.mpr ⟨?_, fun a w' ha => ?_⟩)
  · exact unfailing_transaction ctx (hbody _) (v := v.opening) hv hi (h _)
  · obtain ⟨_, vc, ⟨hic, -⟩, hruns⟩ :=
      runs_transaction env ctx (v := v.opening) (hbody ⟨v.store.opened⟩) hv hi
    obtain ⟨-, rfl⟩ := Prod.mk.inj (hruns.clean.symm.trans ha)
    exact (hafter _ a).unfailing_projection hruns.faults hic

end Service

end AccessAdmin
