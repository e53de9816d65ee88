import AccessAdmin.Proofs.Running.Commit

/-!
# The contract of a mutation

A mutation checks its input, writes in one transaction, and projects after the commit. Its error
tells what became of the change: after a stale error it is stored, after every other error it is
not. The contract holds for every plan of faults and every deadline.

* `Service.Quiet`: services that change neither the tables nor the engine.
* `Service.Contract`: services that commit or refuse, and whose error tells which.
* `contract_commit`: a transaction followed by projections keeps the contract.
-/

namespace AccessAdmin

variable {α β : Type} {env : Surroundings} {v v' vc : World MemoryStore}

/-- A refusal leaves the tables and the engine as they were. -/
structure World.Refused (v : World MemoryStore) (e : ServiceError) (v' : World MemoryStore) :
    Prop where
  plain : e.Plain
  idle : v'.Idle
  desk : v'.desk = v.desk

/-- A stale error stands for the tables of a commit. -/
structure World.Lagging (vc : World MemoryStore) (e : ServiceError) (v' : World MemoryStore) :
    Prop where
  stale : e.Stale
  idle : v'.Idle
  tables : v'.tables = vc.tables

/-- In an idle world every session works on the same desk. -/
theorem World.Idle.at (hi : v.Idle) (hv : v.faults = []) (s : Store.SessionId) : v.At s v.desk :=
  ⟨hv, by simp only [Store.Shared.view, show v.store.shared.writer = none from hi]; rfl, rfl⟩

theorem World.Idle.desk_eq {s : Store.SessionId} {d : Desk} (hi : v.Idle) (h : v.At s d) :
    d = v.desk := by
  have hview := h.view
  simp only [Store.Shared.view, show v.store.shared.writer = none from hi,
    Store.Attempt.answered.injEq] at hview
  rw [World.desk, World.tables, hview, h.engine]

namespace Service

/-- A service that changes neither the tables nor the engine, disturbed or not. -/
def Quiet (env : Surroundings) (p : Service α) : Prop :=
  ∀ v : World MemoryStore, v.faults = [] → v.Idle → ∃ rc vc, vc.Idle ∧ vc.desk = v.desk ∧
    (∀ e, rc = .error e → e.Plain) ∧ p.run.Runs env v rc vc v.Refused

/-- A service that refuses, or commits what `C` says. Disturbed, it ends as undisturbed, refuses, or
lags behind its commit. -/
def Contract (env : Surroundings) (p : Service β) (C : Desk → Except ServiceError β → Desk → Prop) :
    Prop :=
  ∀ v : World MemoryStore, v.faults = [] → v.Idle → ∃ rc vc,
    (∃ e, rc = .error e ∧ v.Refused e vc ∧ p.run.Runs env v rc vc v.Refused) ∨
      (vc.Idle ∧ C v.desk rc vc.desk ∧ (∀ e, rc = .error e → e.Stale) ∧
        p.run.Runs env v rc vc fun e v' => v.Refused e v' ∨ vc.Lagging e v')

/-! ## Quiet services -/

theorem quiet_pure (a : α) : Quiet env (pure a) := fun v hv hi =>
  ⟨.ok a, v, hi, rfl, (fun _ h => nomatch h), rfl, hv,
    fun F T => ⟨.ok a, v, F, T, rfl, hv, .inl ⟨rfl, rfl⟩⟩⟩

theorem quiet_refuse {e : ServiceError} (he : e.Plain) : Quiet env (refuse e : Service α) :=
  fun v hv hi => ⟨.error e, v, hi, rfl, (fun _ h => by cases h; exact he), rfl, hv,
    fun F T => ⟨.error e, v, F, T, rfl, hv, .inl ⟨rfl, rfl⟩⟩⟩

theorem quiet_ite {c : Prop} [Decidable c] {p q : Service α} (hp : Quiet env p)
    (hq : Quiet env q) : Quiet env (if c then p else q) := by
  split
  · exact hp
  · exact hq

/-- What follows a quiet service keeps its contract. -/
theorem Quiet.contract {p : Service α} {f : α → Service β}
    {C : Desk → Except ServiceError β → Desk → Prop} (hp : Quiet env p)
    (hf : ∀ a, Contract env (f a) C) : Contract env (p >>= f) C := by
  intro v hv hi
  obtain ⟨rb, vb, hib, hdb, hplain, hruns⟩ := hp v hv hi
  cases rb with
  | error e =>
    exact ⟨_, vb, .inl ⟨e, rfl, ⟨hplain e rfl, hib, hdb⟩, hruns.bind_error⟩⟩
  | ok a =>
    have hback (e : ServiceError) (v' : World MemoryStore) (h : vb.Refused e v') : v.Refused e v' :=
      ⟨h.plain, h.idle, h.desk.trans hdb⟩
    obtain ⟨rc, vc, ⟨e, he, hr, hc⟩ | ⟨hic, hC, hstale, hc⟩⟩ := hf a vb hruns.faults hib
    · exact ⟨rc, vc, .inl ⟨e, he, hback e vc hr, hruns.bind_ok (hc.mono hback)⟩⟩
    · refine ⟨rc, vc, .inr ⟨hic, hdb ▸ hC, hstale, ?_⟩⟩
      exact (hruns.mono fun _ _ => .inl).bind_ok (hc.mono fun e v' => .imp_left (hback e v'))

theorem Quiet.bind {p : Service α} {f : α → Service β} (hp : Quiet env p)
    (hf : ∀ a, Quiet env (f a)) : Quiet env (p >>= f) := by
  intro v hv hi
  obtain ⟨rb, vb, hib, hdb, hplain, hruns⟩ := hp v hv hi
  cases rb with
  | error e => exact ⟨_, vb, hib, hdb, fun e' h => hplain e' (by cases h; rfl), hruns.bind_error⟩
  | ok a =>
    obtain ⟨rc, vc, hic, hdc, hplain', hc⟩ := hf a vb hruns.faults hib
    exact ⟨rc, vc, hic, hdc.trans hdb, hplain',
      hruns.bind_ok (hc.mono fun e v' h => ⟨h.plain, h.idle, h.desk.trans hdb⟩)⟩

/-- A question that fits outside a transaction. -/
theorem quiet_ask (ctx : Context) (s : Session) (q : Store.Read) [q.Fits] :
    Quiet env (ctx.bounded (s.ask q)) := by
  intro v hv hi
  have hs : v.step env none (.call s.id (.read q)) = (some (.ok (v.tables.ask q)), v) := by
    simp only [World.step, World.guarded_of_faults_nil hv, Backend.call, Store.Shared.call,
      Store.Shared.view, show v.store.shared.writer = none from hi,
      Store.Tables.answer_fits]
    rfl
  have hruns := runs_bounded_ofStore ctx hv hv hs
  refine ⟨.ok _, v, hi, rfl, (fun _ h => by cases h), hruns.mono ?_⟩
  rintro e v' ⟨he, rfl⟩
  exact ⟨he, hi, rfl⟩

theorem quiet_freshSalt : Quiet env (Service.perform .freshSalt) := by
  intro v hv hi
  have hv' : ({ v with salts := v.salts + 1 } : World MemoryStore).faults = [] := hv
  have hruns := runs_perform env (e := .freshSalt) trivial (fun _ h => h) hv hv' rfl
  exact ⟨.ok _, { v with salts := v.salts + 1 }, hi, rfl, (fun _ h => nomatch h),
    hruns.mono fun _ _ h => h.elim⟩

/-- A session whose work is quiet. -/
theorem Quiet.session {work : Session → Service α} (h : ∀ s, Quiet env (work s)) :
    Quiet env (Service.session work) := by
  intro v hv hi
  obtain ⟨rc, vc, hic, hdc, hplain, hruns⟩ := h ⟨v.store.opened⟩ v.opening hv hi
  refine ⟨rc, vc, hic, hdc, hplain, (runs_session hv hic hruns).mono ?_⟩
  rintro e v' (⟨he, rfl⟩ | ⟨v₁, hr, rfl⟩)
  · exact ⟨he, hi, rfl⟩
  · rw [hr.idle.closing]
    exact ⟨hr.plain, hr.idle, hr.desk⟩

/-! ## Committing services -/

theorem Contract.mono {p : Service β} {C C' : Desk → Except ServiceError β → Desk → Prop}
    (h : Contract env p C) (hC : ∀ d r d', C d r d' → C' d r d') : Contract env p C' := by
  intro v hv hi
  obtain ⟨rc, vc, hr | ⟨hic, hc, hrest⟩⟩ := h v hv hi
  · exact ⟨rc, vc, .inl hr⟩
  · exact ⟨rc, vc, .inr ⟨hic, hC _ _ _ hc, hrest⟩⟩

theorem contract_refuse {e : ServiceError} {C : Desk → Except ServiceError β → Desk → Prop}
    (he : e.Plain) : Contract env (refuse e : Service β) C := fun v hv hi =>
  ⟨.error e, v, .inl ⟨e, rfl, ⟨he, hi, rfl⟩, rfl, hv,
    fun F T => ⟨.error e, v, F, T, rfl, hv, .inl ⟨rfl, rfl⟩⟩⟩⟩

theorem contract_ite {c : Prop} [Decidable c] {p q : Service β}
    {C : Desk → Except ServiceError β → Desk → Prop} (hp : Contract env p C)
    (hq : Contract env q C) : Contract env (if c then p else q) C := by
  split
  · exact hp
  · exact hq

/-- A service that answers with success has committed, whatever faults are planned. -/
theorem Contract.committed {p : Service β} {C : Desk → Except ServiceError β → Desk → Prop}
    (h : Contract env p C) (hi : v.Idle) {b : β}
    (hrun : World.run env p.run v = (some (.ok b), v')) : C v.desk (.ok b) v'.desk := by
  obtain ⟨rc, vc, ⟨e, he, -, hruns⟩ | ⟨-, hC, -, hruns⟩⟩ := h { v with faults := [] } rfl hi
  all_goals
    obtain ⟨r, v₁, F, T, hr, -, hend⟩ := hruns.disturbed v.faults v.time
    obtain ⟨hok, rfl⟩ := Prod.mk.inj (hrun.symm.trans hr)
    obtain rfl := Option.some.inj hok
  · obtain ⟨rfl, -⟩ | ⟨e', he', -⟩ := hend
    · cases he
    · cases he'
  · obtain ⟨rfl, rfl⟩ | ⟨e', he', -⟩ := hend
    · exact hC
    · cases he'

/-- What was committed: work on the tables, and then projections of its result. -/
def Committed (env : Surroundings) (body : Session → Service α) (after : Session → α → Service β)
    (d : Desk) (r : Except ServiceError β) (d' : Desk) : Prop :=
  ∃ s a, (body s).run.Ends env s.id d (.ok a) ⟨d'.tables, d.engine⟩ ∧
    (after s a).run.Ends env s.id ⟨d'.tables, d.engine⟩ r d'

variable (env) in
/-- Projections after a commit leave the store as it is, disturbed or not. -/
theorem runs_projections {sid : Store.SessionId} {p : Service β}
    (hp : p.run.Steady (Effect.OfProjection sid) ServiceError.Stale) (hv : v.faults = [])
    (hi : v.Idle) :
    ∃ rc vc, vc.Idle ∧ vc.tables = v.tables ∧ p.run.Ends env sid v.desk rc vc.desk ∧
      (∀ e, rc = .error e → e.Stale) ∧
      p.run.Runs env v rc vc fun e v' => e.Stale ∧ v'.Idle ∧ v'.tables = v.tables := by
  have hk := keeps_projection env v.store hi sid
  have ht (e : Effect) (he : e.OfProjection sid) : e.Timeless := he.onDesk.timeless
  have hstays (v' : World MemoryStore) (h : v'.store = v.store) :
      v'.Idle ∧ v'.tables = v.tables := by
    rw [World.Idle, World.tables, h]
    exact ⟨hi, rfl⟩
  obtain ⟨rc, vc, hruns, hst, hbad⟩ := hp.runs hk ht (fun _ => trivial) hv rfl
  obtain ⟨hic, htab⟩ := hstays vc hst
  obtain ⟨d', hends, hat⟩ := hp.ends (fun _ he => he.onDesk) (hi.at hv sid) hruns.clean
  rw [hic.desk_eq hat] at hends
  exact ⟨rc, vc, hic, htab, hends, hbad, hruns.mono fun e v' h => ⟨h.1, hstays v' h.2⟩⟩

/-- A transaction and projections after its commit. -/
theorem contract_commit {ctx : Context} {body : Session → Service α}
    {after : Session → α → Service β}
    (hbody : ∀ s, (body s).run.Steady (Effect.OfWork s.id) ServiceError.Plain)
    (hafter : ∀ s a, (after s a).run.Steady (Effect.OfProjection s.id) ServiceError.Stale) :
    Contract env (Service.session fun s => ctx.transaction s (body s) >>= after s)
      (Committed env body after) := by
  intro v hv hi
  have hv₁ : v.opening.faults = [] := hv
  let s : Session := ⟨v.store.opened⟩
  obtain ⟨rb, vb, ⟨hib, hb⟩, hruns⟩ :=
    runs_transaction env ctx (v := v.opening) (hbody s) hv₁ hi
  have hclose (e : ServiceError) (v₁ : World MemoryStore) (he : e.Plain)
      (hl : v.opening.Left s.id v₁) : v.Refused e (v₁.closing v.store.opened) :=
    ⟨he, hl.closing.1, hl.closing.2⟩
  rcases hb with ⟨e, -, rfl, he, hdb, -⟩ | ⟨a, rfl, heng, hends⟩
  · refine ⟨.error e, vb, .inl ⟨e, rfl, ⟨he, hib, hdb⟩, ?_⟩⟩
    refine (runs_session hv hib hruns.bind_error).mono ?_
    rintro e' v' (⟨he', rfl⟩ | ⟨v₁, ⟨he', hl⟩, rfl⟩)
    · exact ⟨he', hi, rfl⟩
    · exact hclose e' v₁ he' hl
  · obtain ⟨rc, vc, hic, htab, hafter, hbad, hra⟩ :=
      runs_projections env (hafter s a) hruns.faults hib
    -- The engine is the old one until the projections begin.
    have hmid : (⟨vc.tables, v.engine⟩ : Desk) = vb.desk := by
      rw [htab, ← show vb.engine = v.engine from heng]
      rfl
    refine ⟨rc, vc, .inr ⟨hic, ⟨s, a, hmid ▸ hends, hmid ▸ hafter⟩, hbad, ?_⟩⟩
    let Q (e : ServiceError) (v' : World MemoryStore) : Prop :=
      (e.Plain ∧ v.opening.Left s.id v') ∨ (e.Stale ∧ v'.Idle ∧ v'.tables = vb.tables)
    have hplain (e : ServiceError) (v' : World MemoryStore)
        (h : e.Plain ∧ v.opening.Left s.id v') : Q e v' := .inl h
    have hstale (e : ServiceError) (v' : World MemoryStore)
        (h : e.Stale ∧ v'.Idle ∧ v'.tables = vb.tables) : Q e v' := .inr h
    have hall := (hruns.mono hplain).bind_ok (hra.mono hstale)
    refine (runs_session hv hic hall).mono ?_
    rintro e v' (⟨he, rfl⟩ | ⟨v₁, ⟨he, hl⟩ | ⟨he, hi₁, htab₁⟩, rfl⟩)
    · exact .inl ⟨he, hi, rfl⟩
    · exact .inl (hclose e v₁ he hl)
    · rw [hi₁.closing]
      exact .inr ⟨he, hi₁, htab₁.trans htab.symm⟩

end Service

end AccessAdmin
