import AccessAdmin.Proofs.Running.Work

/-!
# What undisturbed services come to

Without faults a service is always answered. Its answer and the desk after it are told by what its
parts do on desks, and a refusal tells which part refused.

* `Service.bounded_bind`: a deadline inside the same deadline makes no difference.
* `Service.Comes`: a service is answered, as a relation of desks says.
* `Contract.comes`: a service with a contract is answered.
* `comes_transaction`: a transaction is refused by its work and changes nothing, or is committed.
* `comes_commit`: a transaction with projections after its commit.
-/

namespace AccessAdmin

/-! ## Deadlines -/

/-- A part of a program under the limit of the whole is cut short only when the whole is: what
follows a part that is late comes to the same as what follows a whole that is late. -/
theorem Program.within_bind_within {α β γ : Type} (limit : Nat) (p : Program α)
    {f : Option α → Program β} {g : Option β → Program γ} {late : β}
    (hf : f none = done late) (hg : g (some late) = g none) :
    (within limit ((within limit p).bind f)).bind g =
      (within limit (p.bind fun a => f (some a))).bind g := by
  induction p with
  | done a => rfl
  | ask e k ih =>
    simp only [within, Program.bind, Nat.le_refl, ↓reduceIte]
    congr 1
    funext r
    cases r with
    | none => simp only [Program.bind, hf, within, hg]
    | some r => exact ih r
  | askBy l e k ih =>
    by_cases hle : l ≤ limit
    · simp only [within, Program.bind, hle, ↓reduceIte]
      congr 1
      funext r
      exact ih r
    · simp only [within, Program.bind, hle, Nat.le_refl, ↓reduceIte]
      congr 1
      funext r
      cases r with
      | none => simp only [Program.bind, hf, within, hg]
      | some r => exact ih (some r)

namespace Service

variable {α β : Type} {env : Surroundings} {s : Session}

/-- Without a deadline work is as it is. -/
theorem bounded_of_timeless (p : Service α) : ({} : Context).bounded p = p := by
  show (p.run.bind fun r => Program.done (some r)).bind _ = p.run
  rw [Program.bind_assoc]
  exact p.run.bind_done

/-- With a deadline work that is late answers that it was cancelled. -/
theorem run_bounded_some (actor : String) (limit : Nat) (p : Service α) :
    (Context.bounded ⟨actor, some limit⟩ p).run =
      (Program.within limit p.run).bind fun r => r.elim (.done (.error .cancelled)) .done := by
  show (Program.within limit p.run).bind _ = _
  congr 1
  funext r
  cases r <;> rfl

/-- A deadline inside the same deadline makes no difference. -/
theorem bounded_bind (ctx : Context) (p : Service α) (f : α → Service β) :
    ctx.bounded (ctx.bounded p >>= f) = ctx.bounded (p >>= f) := by
  obtain ⟨actor, _ | limit⟩ := ctx
  · exact congrArg (fun q => Context.bounded _ (q >>= f)) (bounded_of_timeless p)
  let next (r : Except ServiceError α) : Program (Except ServiceError β) :=
    (ExceptT.mk (pure r) >>= f).run
  have hinner : (Context.bounded ⟨actor, some limit⟩ p >>= f).run =
      (Program.within limit p.run).bind fun r => r.elim (.done (.error .cancelled)) next := by
    show (Context.bounded ⟨actor, some limit⟩ p).run.bind next = _
    rw [run_bounded_some, Program.bind_assoc]
    congr 1
    funext r
    cases r <;> rfl
  have hwithin := Program.within_bind_within limit p.run
    (f := fun r => r.elim (.done (.error .cancelled)) next)
    (g := fun r => r.elim (.done (.error .cancelled)) .done) rfl rfl
  refine ExceptT.ext ?_
  rw [run_bounded_some, run_bounded_some, hinner]
  exact hwithin

/-! ## Outcomes -/

/-- Undisturbed, a service is answered, and its answer and the desk after it are as `C` says. -/
def Comes (env : Surroundings) (p : Service α) (C : Desk → Except ServiceError α → Desk → Prop) :
    Prop :=
  ∀ v : World MemoryStore, v.faults = [] → v.Idle → ∃ r vc, World.run env p.run v = (some r, vc) ∧
    vc.faults = [] ∧ vc.Idle ∧ C v.desk r vc.desk

variable {p : Service α} {C C' : Desk → Except ServiceError α → Desk → Prop}

theorem Comes.mono (h : Comes env p C) (hC : ∀ d r d', C d r d' → C' d r d') :
    Comes env p C' := by
  intro v hv hi
  obtain ⟨r, vc, hrun, hvc, hic, hc⟩ := h v hv hi
  exact ⟨r, vc, hrun, hvc, hic, hC _ _ _ hc⟩

theorem comes_pure (a : α) : Comes env (pure a) fun d r d' => r = .ok a ∧ d' = d :=
  fun v hv hi => ⟨.ok a, v, rfl, hv, hi, rfl, rfl⟩

theorem comes_refuse (e : ServiceError) :
    Comes env (refuse e : Service α) fun d r d' => r = .error e ∧ d' = d :=
  fun v hv hi => ⟨.error e, v, rfl, hv, hi, rfl, rfl⟩

/-- A service with a contract; its success tells that it has committed. -/
theorem Contract.comes (h : Contract env p C) :
    Comes env p fun d r d' => ∀ a, r = .ok a → C d (.ok a) d' := by
  intro v hv hi
  obtain ⟨r, vc, ⟨e, rfl, href, hruns⟩ | ⟨hic, hC, -, hruns⟩⟩ := h v hv hi
  · exact ⟨.error e, vc, hruns.clean, hruns.faults, href.idle, fun _ ha => nomatch ha⟩
  · exact ⟨r, vc, hruns.clean, hruns.faults, hic, fun _ ha => ha ▸ hC⟩

/-- One after the other; an error of the first part is the answer. -/
theorem Comes.bind {f : α → Service β} {D : α → Desk → Except ServiceError β → Desk → Prop}
    (hp : Comes env p C) (hf : ∀ a, Comes env (f a) (D a)) :
    Comes env (p >>= f) fun d r d' =>
      (∃ e, C d (.error e) d' ∧ r = .error e) ∨ ∃ a d₁, C d (.ok a) d₁ ∧ D a d₁ r d' := by
  intro v hv hi
  obtain ⟨r, v₁, hrun, hv₁, hi₁, hC⟩ := hp v hv hi
  cases r with
  | error e =>
    refine ⟨.error e, v₁, ?_, hv₁, hi₁, .inl ⟨e, hC, rfl⟩⟩
    rw [World.run_bind_service, hrun]
  | ok a =>
    obtain ⟨r, vc, hrun', hvc, hic, hD⟩ := hf a v₁ hv₁ hi₁
    refine ⟨r, vc, ?_, hvc, hic, .inr ⟨a, v₁.desk, hC, hD⟩⟩
    rw [World.run_bind_service, hrun]
    exact hrun'

/-- A session is opened for the work and closed after it. -/
theorem Comes.session {work : Session → Service α} (h : ∀ s, Comes env (work s) C) :
    Comes env (Service.session work) C := by
  intro v hv hi
  obtain ⟨r, vc, hrun, hvc, hic, hC⟩ := h ⟨v.store.opened⟩ v.opening hv hi
  refine ⟨r, vc, ?_, hvc, hic, hC⟩
  rw [run_session, step_openSession env hv]
  simp only [World.attended, hrun, hic.closing]

/-- Looking at the store and the engine outside a transaction, perhaps under the deadline. -/
theorem comes_bounded {bad : ServiceError → Prop} (ctx : Context)
    (hp : p.run.Steady (Effect.OfProjection s.id) bad) :
    Comes env (ctx.bounded p) fun d r d' =>
      d'.tables = d.tables ∧ p.run.Ends env s.id d r d' := by
  intro v hv hi
  have hk := keeps_projection env v.store hi s.id
  have ht (e : Effect) (he : e.OfProjection s.id) : e.Timeless := he.onDesk.timeless
  obtain ⟨r, vc, hrun, hlimited, hvc, hstore, -⟩ := hp.run hk ht hv rfl
  obtain ⟨d', hends, hat⟩ := hp.ends (fun _ he => he.onDesk) (hi.at hv s.id) hrun
  have hic : vc.Idle := by
    rw [World.Idle, hstore]
    exact hi
  rw [hic.desk_eq hat] at hends
  refine ⟨r, vc, ?_, hvc, hic, congrArg (fun st => st.shared.tables) hstore, hends⟩
  rw [Context.bounded, ExceptT.run_mk, Program.bind_eq, World.run_bind, hlimited]
  rfl

theorem steady_ask (s : Session) (q : Store.Read) [hq : q.Fits] :
    (s.ask q).run.Steady (Effect.OfProjection s.id) fun _ => True := by
  rw [Session.ask, run_ofStore]
  refine ⟨⟨rfl, hq⟩, fun r hr => ?_, fun _ _ _ => trivial⟩
  rcases r with e | _
  · exact .error trivial
  · exact hr.elim

/-- What follows a look outside a transaction that is never refused. -/
theorem comes_look_then {f : α → Service β} {D : α → Desk → Except ServiceError β → Desk → Prop}
    {bad : ServiceError → Prop} {look : Desk → α} (ctx : Context)
    (hp : p.run.Steady (Effect.OfProjection s.id) bad)
    (hlook : ∀ d r d', p.run.Ends env s.id d r d' → r = .ok (look d) ∧ d' = d)
    (hf : ∀ a, Comes env (f a) (D a)) :
    Comes env (ctx.bounded p >>= f) fun d r d' => D (look d) d r d' := by
  refine ((comes_bounded ctx hp).bind hf).mono ?_
  rintro d r d' (⟨e, ⟨-, hends⟩, -⟩ | ⟨a, d₁, ⟨-, hends⟩, hD⟩)
  · cases (hlook d _ d' hends).1
  · obtain ⟨ha, rfl⟩ := hlook d _ d₁ hends
    obtain rfl := Except.ok.inj ha
    exact hD

/-- What follows a question that fits outside a transaction. -/
theorem comes_ask_then {q : Store.Read} [q.Fits] {f : q.Reply → Service β}
    {D : q.Reply → Desk → Except ServiceError β → Desk → Prop} (ctx : Context)
    (hf : ∀ a, Comes env (f a) (D a)) :
    Comes env (ctx.bounded (s.ask q) >>= f) fun d r d' => D (d.tables.ask q) d r d' :=
  comes_look_then ctx (steady_ask s q) (fun _ _ _ => Session.ends_ask.mp) hf

/-- Projections after a commit leave the tables alone. -/
theorem comes_follows (hp : s.Follows p) :
    Comes env p fun d r d' => d'.tables = d.tables ∧ p.run.Ends env s.id d r d' := by
  intro v hv hi
  obtain ⟨r, vc, hic, htables, hends, -, hruns⟩ := runs_projections env hp hv hi
  exact ⟨r, vc, hruns.clean, hruns.faults, hic, htables, hends⟩

/-- A transaction comes to what its work comes to; a refusal leaves no trace. -/
theorem comes_transaction (ctx : Context) (hp : s.Works p) :
    Comes env (ctx.transaction s p) fun d r d' =>
      (∃ e d₁, p.run.Ends env s.id d (.error e) d₁ ∧ r = .error e ∧ d' = d) ∨
      ∃ a, p.run.Ends env s.id d (.ok a) d' ∧ d'.engine = d.engine ∧ r = .ok a := by
  intro v hv hi
  obtain ⟨r, vc, ⟨hic, hcame⟩, hruns⟩ := runs_transaction env ctx hp hv hi
  refine ⟨r, vc, hruns.clean, hruns.faults, hic, ?_⟩
  obtain ⟨e, d₁, rfl, -, hdesk, hends⟩ | ⟨a, rfl, hengine, hends⟩ := hcame
  · exact .inl ⟨e, d₁, hends, rfl, hdesk⟩
  · exact .inr ⟨a, hends, hengine, rfl⟩

/-- A transaction with projections of its result is refused by the work, or is a commit. -/
theorem comes_commit {ctx : Context} {body : Session → Service α} {after : Session → α → Service β}
    (hbody : ∀ s : Session, s.Works (body s)) (hafter : ∀ s a, Session.Follows s (after s a)) :
    Comes env (Service.session fun s => ctx.transaction s (body s) >>= after s) fun d r d' =>
      (∃ s e d₁, (body s).run.Ends env s.id d (.error e) d₁ ∧ r = .error e ∧ d' = d) ∨
      Committed env body after d r d' := by
  refine Comes.session fun s => ?_
  refine ((comes_transaction ctx (hbody s)).bind fun a => comes_follows (hafter s a)).mono ?_
  rintro d r d' (⟨e, hcame, rfl⟩ | ⟨a, d₁, hcame, htables, hends⟩)
  · obtain ⟨_, d₁, hends, herr, rfl⟩ | ⟨_, -, -, hok⟩ := hcame
    · obtain rfl := Except.error.inj herr
      exact .inl ⟨s, e, d₁, hends, rfl, rfl⟩
    · cases hok
  · obtain ⟨_, _, -, herr, -⟩ | ⟨_, hwork, hengine, hok⟩ := hcame
    · cases herr
    · obtain rfl := Except.ok.inj hok
      have hd₁ : d₁ = ⟨d'.tables, d.engine⟩ := by
        rw [htables, ← hengine]
      rw [hd₁] at hwork hends
      exact .inr ⟨s, a, hwork, hends⟩

/-- An answer after the projections is what the work came to. -/
theorem Committed.answered {body : Session → Service α} {after : Session → α → Service Unit}
    {d d' : Desk} {a : α}
    (h : Committed env body (fun s a => do after s a; return a) d (.ok a) d') :
    ∃ s, (body s).run.Ends env s.id d (.ok a) ⟨d'.tables, d.engine⟩ := by
  obtain ⟨s, b, hbody, hafter⟩ := h
  obtain ⟨_, _, -, hafter⟩ := ends_seq_ok.mp hafter
  obtain rfl := Except.ok.inj (ends_pure.mp hafter).1
  exact ⟨s, hbody⟩

end Service

end AccessAdmin
