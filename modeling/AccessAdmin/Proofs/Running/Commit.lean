import AccessAdmin.Proofs.Running.Desk

/-!
# Transactions under disturbance

What a program comes to with planned faults and a deadline is compared with what it comes to
without: `Program.Runs` says that it comes to the same or to an error, and in which worlds the
errors leave it. Then the parts of a transaction are gone through.

* `runs_transaction`: work in a transaction.
* `runs_session`: a session that is opened for some work and closed after it.
-/

namespace AccessAdmin

/-- The tables that are in force. -/
def World.tables (w : World MemoryStore) : Store.Tables := w.store.shared.tables

/-- The tables in force and the engine. -/
def World.desk (w : World MemoryStore) : Desk := ⟨w.tables, w.engine⟩

/-- No session has a transaction open. -/
def World.Idle (w : World MemoryStore) : Prop := w.store.shared.writer = none

/-- The errors after which nothing is stored. -/
def ServiceError.Plain (e : ServiceError) : Prop := ∀ p, e ≠ .policy p

/-- The errors after which the change is stored, but the engine may lag behind it. -/
def ServiceError.Stale (e : ServiceError) : Prop := ∃ p, e = .policy p

theorem ServiceError.plain_ofStore (e : StoreError) : (ofStore e).Plain := by
  intro p h
  cases e <;> simp only [ofStore, reduceCtorEq] at h

theorem ServiceError.plain_cancelled : cancelled.Plain := by
  intro p h
  cases h

/-- The steps of work in a transaction. -/
def Effect.OfWork (s : Store.SessionId) : Effect → Prop
  | .call s' (.read _) | .call s' (.write _) | .freshId s' _ => s' = s
  | .readClock | .count _ => True
  | _ => False

/-- The steps of a projection. -/
def Effect.OfProjection (s : Store.SessionId) : Effect → Prop
  | .call s' (.read q) => s' = s ∧ q.Fits
  | .policy _ | .count _ => True
  | _ => False

section Steps

variable {s : Store.SessionId} {e : Effect}

theorem Effect.OfWork.onDesk (h : e.OfWork s) : e.OnDesk s := by
  unfold OfWork at h
  split at h <;> first | exact h | exact h.elim

theorem Effect.OfProjection.onDesk (h : e.OfProjection s) : e.OnDesk s := by
  unfold OfProjection at h
  split at h <;> first | exact h.1 | exact h | exact h.elim

theorem Effect.OnDesk.timeless (h : e.OnDesk s) : e.Timeless := by
  unfold OnDesk at h
  split at h <;> first | exact trivial | exact h.elim

end Steps

variable {α β ε : Type} {env : Surroundings} {v v' v₁ vc : World MemoryStore}

/-! ## What the parts of a mutation keep -/

/-- Session `s` works in a transaction on tables `t₀`, beside an engine. -/
def World.Working (t₀ : Store.Tables) (e₀ : Policy.Engine) (s : Store.SessionId)
    (v : World MemoryStore) : Prop :=
  ∃ t, v.store.shared.writer = some ⟨s, t⟩ ∧ v.tables = t₀ ∧ v.engine = e₀

variable (env) in
theorem keeps_work (t₀ : Store.Tables) (e₀ : Policy.Engine) (s : Store.SessionId) :
    Program.Keeps env (Effect.OfWork s) (World.Working t₀ e₀ s) := by
  rintro v e hv ⟨t, hw, htab, heng⟩ he
  cases e with
  | call s' c =>
    simp only [World.step, World.guarded_of_faults_nil hv, Backend.call]
    cases c with
    | read q =>
      obtain rfl : s' = s := he
      simp only [Store.Shared.call, Store.Shared.view, hw, ↓reduceIte]
      exact ⟨_, _, rfl, hv, t, hw, htab, heng⟩
    | write w =>
      obtain rfl : s' = s := he
      simp only [Store.Shared.call, Store.Shared.view, Store.Shared.put, hw, ↓reduceIte]
      cases t.apply w with
      | ok t' => exact ⟨_, _, rfl, hv, t', rfl, htab, heng⟩
      | error e => exact ⟨_, _, rfl, hv, t, hw, htab, heng⟩
    | begin | commit | rollback => exact he.elim
  | freshId s' kind => exact ⟨_, _, rfl, hv, t, hw, htab, heng⟩
  | readClock | count _ => exact ⟨_, _, rfl, hv, t, hw, htab, heng⟩
  | openSession | closeSession _ | inTransaction _ | checkHealth | policy _ | wait _ | elapsed
  | freshSalt | note _ => exact he.elim

variable (env) in
theorem keeps_projection (st : MemoryStore) (hst : st.shared.writer = none)
    (s : Store.SessionId) : Program.Keeps env (Effect.OfProjection s) (·.store = st) := by
  rintro v e hv rfl he
  cases e with
  | call s' c =>
    simp only [World.step, World.guarded_of_faults_nil hv, Backend.call]
    cases c with
    | read q =>
      simp only [Store.Shared.call, Store.Shared.view, hst]
      exact ⟨_, _, rfl, hv, rfl⟩
    | write _ | begin | commit | rollback => exact he.elim
  | policy c => exact ⟨_, _, rfl, hv, rfl⟩
  | count _ => exact ⟨_, _, rfl, hv, rfl⟩
  | openSession | closeSession _ | inTransaction _ | checkHealth | wait _ | elapsed | readClock
  | freshId _ _ | freshSalt | note _ => exact he.elim

/-! ## Disturbed and undisturbed runs -/

/-- Undisturbed, a program ends with `rc` in `vc`; disturbed it ends so too, or with an error in a
world that the error allows. -/
structure Program.Runs (env : Surroundings) (p : Program (Except ε α)) (v : World MemoryStore)
    (rc : Except ε α) (vc : World MemoryStore) (Q : ε → World MemoryStore → Prop) : Prop where
  clean : World.run env p v = (some rc, vc)
  faults : vc.faults = []
  disturbed : ∀ F T, ∃ r v' F' T',
    World.run env p (v.disturbed F T) = (some r, v'.disturbed F' T') ∧
    v'.faults = [] ∧ ((r = rc ∧ v' = vc) ∨ ∃ e, r = .error e ∧ Q e v')

namespace Program.Runs

variable {Q Q' : ε → World MemoryStore → Prop} {rc : Except ε β}

theorem mono {p : Program (Except ε β)} (h : Runs env p v rc vc Q) (hQ : ∀ e v', Q e v' → Q' e v') :
    Runs env p v rc vc Q' := by
  refine ⟨h.clean, h.faults, fun F T => ?_⟩
  obtain ⟨r, v', F', T', hr, hv', hs | ⟨e, he, hq⟩⟩ := h.disturbed F T
  · exact ⟨r, v', F', T', hr, hv', .inl hs⟩
  · exact ⟨r, v', F', T', hr, hv', .inr ⟨e, he, hQ e v' hq⟩⟩

variable {x : ExceptT ε Program α} {f : α → ExceptT ε Program β}

theorem bind_ok {a : α} (hx : Runs env x.run v (.ok a) v₁ Q) (hf : Runs env (f a).run v₁ rc vc Q) :
    Runs env (x >>= f).run v rc vc Q := by
  refine ⟨?_, hf.faults, fun F T => ?_⟩
  · rw [World.run_bind_service, hx.clean]
    exact hf.clean
  · obtain ⟨r, v', F₁, T₁, hr, hv', ⟨rfl, rfl⟩ | ⟨e, rfl, hq⟩⟩ := hx.disturbed F T
    · rw [World.run_bind_service, hr]
      exact hf.disturbed F₁ T₁
    · refine ⟨.error e, v', F₁, T₁, ?_, hv', .inr ⟨e, rfl, hq⟩⟩
      rw [World.run_bind_service, hr]

theorem bind_error {e : ε} (hx : Runs env x.run v (.error e) vc Q) :
    Runs env (x >>= f).run v (.error e) vc Q := by
  refine ⟨?_, hx.faults, fun F T => ?_⟩
  · rw [World.run_bind_service, hx.clean]
  · obtain ⟨r, v', F₁, T₁, hr, hv', ⟨rfl, rfl⟩ | ⟨e', rfl, hq⟩⟩ := hx.disturbed F T
    · refine ⟨.error e, v', F₁, T₁, ?_, hv', .inl ⟨rfl, rfl⟩⟩
      rw [World.run_bind_service, hr]
    · refine ⟨.error e', v', F₁, T₁, ?_, hv', .inr ⟨e', rfl, hq⟩⟩
      rw [World.run_bind_service, hr]

end Program.Runs

/-- A steady program ends as undisturbed, or with an error in a world that its steps keep. -/
theorem Program.Steady.runs {may : Effect → Prop} {bad : ε → Prop} {I : World MemoryStore → Prop}
    {p : Program (Except ε α)} (hp : p.Steady may bad) (hk : Keeps env may I)
    (ht : ∀ e, may e → e.Timeless) (hcount : ∀ e, may (.count e)) (hv : v.faults = []) (hI : I v) :
    ∃ rc vc, p.Runs env v rc vc (fun e v' => bad e ∧ I v') ∧ I vc ∧ ∀ e, rc = .error e → bad e := by
  obtain ⟨rc, vc, hrun, -, hvc, hIc, hbad⟩ := hp.run hk ht hv hI
  refine ⟨rc, vc, ⟨hrun, hvc, fun F T => ?_⟩, hIc, hbad⟩
  obtain ⟨r, v', F', T', hr, hv', hI', hend⟩ := hp.run_disturbed hk ht hcount hv hI {} F T
  rw [World.run_limited_none] at hr
  rcases hp' : World.run env p (v.disturbed F T) with ⟨_ | r₁, v₁⟩
  · simp only [hp', Option.map_none, Prod.mk.injEq, reduceCtorEq, false_and] at hr
  · simp only [hp', Option.map_some, Prod.mk.injEq, Option.some.injEq] at hr
    obtain ⟨rfl, rfl⟩ := hr
    refine ⟨r₁, v', F', T', rfl, hv', ?_⟩
    rcases hend with h | ⟨e, he, hb⟩ | ⟨a, ha, hrun'⟩
    · cases h
    · exact .inr ⟨e, Option.some.inj he, hb, hI'⟩
    · rw [hrun] at hrun'
      obtain ⟨hrc, rfl⟩ := Prod.mk.inj hrun'
      exact .inl ⟨(Option.some.inj ha).trans (Option.some.inj hrc).symm, rfl⟩

/-! ## The parts of a transaction -/

theorem run_ofStore (s : Session) (c : Store.Call) :
    (Service.ofStore (s.call c)).run =
      .ask (.call s.id c) fun r => .done (Except.mapError .ofStore r) := by
  show Program.ask _ _ = _
  congr 1
  funext r
  rcases r with _ | _ <;> rfl

/-- One call under the deadline. -/
theorem run_bounded_ofStore (ctx : Context) (s : Session) (c : Store.Call) (w : World MemoryStore) :
    World.run env (ctx.bounded (Service.ofStore (s.call c))).run w =
      match w.step env ctx.deadline (.call s.id c) with
      | (some (.ok a), w') => (some (.ok a), w')
      | (some (.error e), w') => (some (.error (.ofStore e)), w')
      | (none, w') => (if ctx.deadline.isSome then some (.error .cancelled) else none, w') := by
  rw [Context.bounded, ExceptT.run_mk, Program.bind_eq, World.run_bind, run_ofStore,
    World.run_limited_ask]
  rcases w.step env ctx.deadline (.call s.id c) with ⟨_ | (e | a), w'⟩
  · cases ctx.deadline <;> rfl
  · simp only [World.run_limited_done]
    rfl
  · simp only [World.run_limited_done]
    rfl

theorem runs_bounded_ofStore {s : Session} {c : Store.Call} {a : c.Reply} (ctx : Context)
    (hv : v.faults = []) (hv' : v'.faults = [])
    (h : v.step env none (.call s.id c) = (some (.ok a), v')) :
    (ctx.bounded (Service.ofStore (s.call c))).run.Runs env v (.ok a) v'
      fun e v'' => e.Plain ∧ v'' = v := by
  have ht : (Effect.call s.id c).Timeless := trivial
  refine ⟨?_, hv', fun F T => ?_⟩
  · rw [run_bounded_ofStore, World.step_limit hv ht h]
  · rw [run_bounded_ofStore]
    obtain ⟨F', T', ⟨r, hf, hs⟩ | ⟨hl, hs⟩ | hs⟩ := World.step_disturbed hv ht h F T ctx.deadline
    · rcases r with e | _
      · rw [hs]
        exact ⟨_, v, F', T', rfl, hv, .inr ⟨_, rfl, ServiceError.plain_ofStore e, rfl⟩⟩
      · exact hf.elim
    · rw [hs, if_pos hl]
      exact ⟨_, v, F', T', rfl, hv, .inr ⟨_, rfl, ServiceError.plain_cancelled, rfl⟩⟩
    · rw [hs]
      exact ⟨_, v', F', T', rfl, hv', .inl ⟨rfl, rfl⟩⟩

variable (env) in
theorem runs_perform {e : Effect} {r : e.Reply} (ht : e.Timeless) (hn : ∀ r, ¬e.Failed r)
    (hv : v.faults = []) (hv' : v'.faults = []) (h : v.step env none e = (some r, v')) :
    (Service.perform e).run.Runs env v (.ok r) v' fun _ _ => False := by
  have hrun (w : World MemoryStore) : World.run env (Service.perform e).run w =
      ((w.step env none e).1.map .ok, (w.step env none e).2) := by
    show World.run env (.ask e fun r => .done (Except.ok r)) w = _
    rw [World.run]
    rcases w.step env none e with ⟨_ | r, w'⟩ <;> rfl
  refine ⟨by rw [hrun, h]; rfl, hv', fun F T => ?_⟩
  obtain ⟨F', T', ⟨r, hf, -⟩ | ⟨hl, -⟩ | hs⟩ := World.step_disturbed hv ht h F T none
  · exact (hn r hf).elim
  · cases hl
  · exact ⟨.ok r, v', F', T', by rw [hrun, hs]; rfl, hv', .inl ⟨rfl, rfl⟩⟩

/-- What work that came to nothing leaves: the tables and the engine as they were, and at most its
own transaction, until the session is closed. -/
structure World.Left (v : World MemoryStore) (s : Store.SessionId) (v' : World MemoryStore) :
    Prop where
  desk : v'.desk = v.desk
  mine : ∀ w ∈ v'.store.shared.writer, w.session = s

theorem World.Idle.left {s : Store.SessionId} (hi : v'.Idle) (hd : v'.desk = v.desk) :
    v.Left s v' := by
  refine ⟨hd, fun w hw => ?_⟩
  rw [show v'.store.shared.writer = none from hi] at hw
  cases hw

/-- The same world after a session has begun a transaction. -/
def World.begun (v : World MemoryStore) (s : Store.SessionId) : World MemoryStore :=
  { v with store :=
    { v.store with shared := { v.store.shared with writer := some ⟨s, v.tables⟩ } } }

/-- The same world after an open transaction has come to nothing. -/
def World.settled (v : World MemoryStore) : World MemoryStore :=
  { v with store := { v.store with shared := { v.store.shared with writer := none } } }

/-- The same world after an open transaction has committed some tables. -/
def World.committed (v : World MemoryStore) (t : Store.Tables) : World MemoryStore :=
  { v with store := { v.store with shared := ⟨t, none⟩ } }

section Ends

variable {s : Store.SessionId} {t : Store.Tables}

variable (env) in
theorem World.Idle.step_inTransaction (hi : v.Idle) (s : Store.SessionId) :
    v.step env none (.inTransaction s) = (some false, v) := by
  simp only [World.step, Backend.inTransaction, Store.Shared.inTransaction,
    show v.store.shared.writer = none from hi, Option.any_none]

variable (env) in
theorem World.Idle.step_begin (hi : v.Idle) (hv : v.faults = []) (s : Store.SessionId) :
    v.step env none (.call s .begin) = (some (.ok ()), v.begun s) := by
  simp only [World.step, World.guarded_of_faults_nil hv, Backend.call, Store.Shared.call,
    show v.store.shared.writer = none from hi, World.begun]
  rfl

variable (env) in
theorem World.step_commit (hv : v.faults = []) (hw : v.store.shared.writer = some ⟨s, t⟩) :
    v.step env none (.call s .commit) = (some (.ok ()), v.committed t) := by
  simp only [World.step, World.guarded_of_faults_nil hv, Backend.call, Store.Shared.call, hw,
    ↓reduceIte, World.committed]

variable (env) in
theorem World.step_rollback (hv : v.faults = []) (hw : v.store.shared.writer = some ⟨s, t⟩) :
    v.step env none (.call s .rollback) = (some (.ok ()), v.settled) := by
  simp only [World.step, World.guarded_of_faults_nil hv, Backend.call, Store.Shared.call,
    Store.Shared.inTransaction, hw, Option.any_some, beq_self_eq_true, ↓reduceIte, World.settled]

end Ends

variable (env) in
/-- Giving up tells the error it is given, whether the rollback succeeds or not. -/
theorem run_giveUp {s : Session} {e : ServiceError} {t : Store.Tables}
    (hv : v.faults = []) (hw : v.store.shared.writer = some ⟨s.id, t⟩) :
    ∃ vc, World.run env (Context.giveUp (α := α) s e).run v = (some (.error e), vc) ∧
      vc.faults = [] ∧ vc.Idle ∧ vc.desk = v.desk ∧
      ∀ F T, ∃ v' F' T', World.run env (Context.giveUp (α := α) s e).run (v.disturbed F T) =
        (some (.error e), v'.disturbed F' T') ∧ v'.faults = [] ∧ v.Left s.id v' := by
  have hrun (w : World MemoryStore) : World.run env (Context.giveUp (α := α) s e).run w =
      ((w.step env none (.call s.id .rollback)).1.map fun _ => .error e,
        (w.step env none (.call s.id .rollback)).2) := by
    show World.run env (.ask (.call s.id .rollback) fun _ => .done (Except.error e)) w = _
    rw [World.run]
    rcases w.step env none (.call s.id .rollback) with ⟨_ | r, w'⟩ <;> rfl
  have hs := World.step_rollback env hv hw
  have ht : (Effect.call s.id .rollback).Timeless := trivial
  refine ⟨v.settled, by rw [hrun, hs]; rfl, hv, rfl, rfl, fun F T => ?_⟩
  obtain ⟨F', T', ⟨r, -, hs'⟩ | ⟨hl, -⟩ | hs'⟩ := World.step_disturbed hv ht hs F T none
  · refine ⟨v, F', T', by rw [hrun, hs']; rfl, hv, rfl, fun w hw' => ?_⟩
    rw [hw] at hw'
    rw [← Option.some.inj hw']
  · cases hl
  · exact ⟨v.settled, F', T', by rw [hrun, hs']; rfl, hv, World.Idle.left rfl rfl⟩

section Transaction

variable {ctx : Context} {s : Session} {work : Service α}

/-- What a transaction comes to: its work is refused and changes nothing, or is committed. -/
def World.Transacted (env : Surroundings) (s : Session) (work : Service α)
    (v : World MemoryStore) (rc : Except ServiceError α) (vc : World MemoryStore) : Prop :=
  vc.Idle ∧
    ((∃ e d, rc = .error e ∧ e.Plain ∧ vc.desk = v.desk ∧
        work.run.Ends env s.id v.desk (.error e) d) ∨
      ∃ a, rc = .ok a ∧ vc.engine = v.engine ∧ work.run.Ends env s.id v.desk (.ok a) vc.desk)

/-- The end of a transaction, by what its work came to. -/
def Context.settle (s : Session) : Option (Except ServiceError α) → Service α
  | none => giveUp s .cancelled
  | some (.error e) => giveUp s e
  | some (.ok a) => do
    Service.ofStore (s.call .commit)
    return a

/-- Work under the deadline in an open transaction, and the end of the transaction. -/
def Context.worked (ctx : Context) (s : Session) (work : Service α) : Service α :=
  ExceptT.lift (ctx.limited work.run) >>= settle s

theorem transaction_eq :
    ctx.transaction s work = (do
      if ← Service.perform (.inTransaction s.id) then work
      else
        ctx.bounded (Service.ofStore (s.call .begin))
        ctx.worked s work) := by
  rw [Context.transaction]
  congr

theorem run_worked (w : World MemoryStore) :
    World.run env (ctx.worked s work).run w =
      match World.run env (ctx.limited work.run) w with
      | (some o, w') => World.run env (Context.settle s o).run w'
      | (none, w') => (none, w') := by
  rw [Context.worked, ExceptT.run_bind_lift, Program.bind_eq, World.run_bind]
  rcases World.run env (ctx.limited work.run) w with ⟨_ | o, w'⟩ <;> rfl

variable (env) in
/-- A commit ends the transaction; undisturbed, the tables of the work are in force afterwards. -/
theorem runs_commit {t : Store.Tables} (a : α) (hv : v.faults = [])
    (hw : v.store.shared.writer = some ⟨s.id, t⟩) :
    ∃ vc, vc.Idle ∧ vc.desk = ⟨t, v.engine⟩ ∧
      (Context.settle s (some (.ok a))).run.Runs env v (.ok a) vc fun e v' => e.Plain ∧ v' = v := by
  have hs := World.step_commit env hv hw
  have ht : (Effect.call s.id .commit).Timeless := trivial
  have hrun (w : World MemoryStore) : World.run env (Context.settle s (some (.ok a))).run w =
      ((w.step env none (.call s.id .commit)).1.map fun r => (r.map fun _ => a).mapError .ofStore,
        (w.step env none (.call s.id .commit)).2) := by
    rw [Context.settle, World.run_bind_service, run_ofStore, World.run]
    rcases w.step env none (.call s.id .commit) with ⟨_ | (e | _), w'⟩ <;> rfl
  refine ⟨v.committed t, rfl, rfl, by rw [hrun, hs]; rfl, hv, fun F T => ?_⟩
  obtain ⟨F', T', ⟨r, hf, hs'⟩ | ⟨hl, -⟩ | hs'⟩ := World.step_disturbed hv ht hs F T none
  · rcases r with e | _
    · exact ⟨.error (.ofStore e), v, F', T', by rw [hrun, hs']; rfl, hv,
        .inr ⟨_, rfl, ServiceError.plain_ofStore e, rfl⟩⟩
    · exact hf.elim
  · cases hl
  · exact ⟨.ok a, v.committed t, F', T', by rw [hrun, hs']; rfl, hv, .inl ⟨rfl, rfl⟩⟩

variable (env ctx) in
/-- Disturbed work in a transaction comes to nothing and leaves at most the open transaction, or is
done as undisturbed. -/
theorem worked_disturbed (hwork : work.run.Steady (Effect.OfWork s.id) ServiceError.Plain)
    (hv : v.faults = []) (hw : v.store.shared.writer = some ⟨s.id, v.tables⟩) (F : List Fault)
    (T : Nat) :
    (∃ e v' F' T', World.run env (ctx.worked s work).run (v.disturbed F T) =
        (some (.error e), v'.disturbed F' T') ∧ v'.faults = [] ∧ e.Plain ∧ v.Left s.id v') ∨
      ∃ a v' F' T', World.run env work.run v = (some (.ok a), v') ∧
        World.run env (ctx.worked s work).run (v.disturbed F T) =
          World.run env (Context.settle s (some (.ok a))).run (v'.disturbed F' T') := by
  have hk := keeps_work env v.tables v.engine s.id
  have ht (e : Effect) (he : e.OfWork s.id) : e.Timeless := he.onDesk.timeless
  obtain ⟨r, v₁, F₁, T₁, hr, hv₁, ⟨t, hw₁, htab, heng⟩, hend⟩ :=
    hwork.run_disturbed hk ht (fun _ => trivial) hv ⟨v.tables, hw, rfl, rfl⟩ ctx F T
  have hdesk : v₁.desk = v.desk := by rw [World.desk, htab, heng]; rfl
  have hgive (e : ServiceError) : ∃ v' F' T', World.run env (Context.giveUp (α := α) s e).run
      (v₁.disturbed F₁ T₁) = (some (.error e), v'.disturbed F' T') ∧ v'.faults = [] ∧
        v.Left s.id v' := by
    obtain ⟨-, -, -, -, -, hgd⟩ := run_giveUp env (α := α) (e := e) hv₁ hw₁
    obtain ⟨v', F', T', hg, hv', hl⟩ := hgd F₁ T₁
    exact ⟨v', F', T', hg, hv', hl.desk.trans hdesk, hl.mine⟩
  rw [run_worked, hr]
  rcases hend with rfl | ⟨e, rfl, hbad⟩ | ⟨a, rfl, hclean⟩
  · obtain ⟨v', F', T', hg, hv', hl⟩ := hgive .cancelled
    exact .inl ⟨_, v', F', T', hg, hv', ServiceError.plain_cancelled, hl⟩
  · obtain ⟨v', F', T', hg, hv', hl⟩ := hgive e
    exact .inl ⟨_, v', F', T', hg, hv', hbad, hl⟩
  · exact .inr ⟨a, v₁, F₁, T₁, hclean, rfl⟩

variable (env ctx) in
/-- The work of a transaction and its end: refused, nothing but the open transaction is left; else
the work is committed. -/
theorem runs_worked (hwork : work.run.Steady (Effect.OfWork s.id) ServiceError.Plain)
    (hv : v.faults = []) (hw : v.store.shared.writer = some ⟨s.id, v.tables⟩) :
    ∃ rc vc, v.Transacted env s work rc vc ∧
      (ctx.worked s work).run.Runs env v rc vc fun e v' => e.Plain ∧ v.Left s.id v' := by
  have hk := keeps_work env v.tables v.engine s.id
  have ht (e : Effect) (he : e.OfWork s.id) : e.Timeless := he.onDesk.timeless
  have hAt : v.At s.id v.desk := ⟨hv, by simp only [Store.Shared.view, hw, ↓reduceIte]; rfl, rfl⟩
  obtain ⟨rb, vb, hrun, hlim, hvb, ⟨t, hwb, htab, heng⟩, hbad⟩ :=
    hwork.run hk ht hv ⟨v.tables, hw, rfl, rfl⟩
  have hdesk : vb.desk = v.desk := by rw [World.desk, htab, heng]; rfl
  cases rb with
  | error e =>
    obtain ⟨d', hends, -⟩ := hwork.ends (fun _ he => he.onDesk) hAt hrun
    obtain ⟨vc, hgc, hvc, hic, hdc, -⟩ := run_giveUp env (α := α) (e := e) hvb hwb
    refine ⟨.error e, vc, ⟨hic, .inl ⟨e, d', rfl, hbad e rfl, hdc.trans hdesk, hends⟩⟩, ?_, hvc,
      fun F T => ?_⟩
    · rw [run_worked, hlim]
      exact hgc
    · obtain ⟨e', v', F', T', hr, hv', hp, hl⟩ | ⟨a, v', -, -, hclean, -⟩ :=
        worked_disturbed env ctx hwork hv hw F T
      · exact ⟨_, v', F', T', hr, hv', .inr ⟨e', rfl, hp, hl⟩⟩
      · simp only [hrun, Prod.mk.injEq, Option.some.injEq, reduceCtorEq, false_and] at hclean
  | ok a =>
    obtain ⟨d', hends, hat⟩ := hwork.ends (fun _ he => he.onDesk) hAt hrun
    obtain ⟨vc, hic, hdc, hcommit⟩ := runs_commit env a hvb hwb
    have hd' : d' = vc.desk := by
      have hview := hat.view
      simp only [Store.Shared.view, hwb, ↓reduceIte, Store.Attempt.answered.injEq] at hview
      rw [hdc, hview, hat.engine]
    refine ⟨.ok a, vc, ⟨hic, .inr ⟨a, rfl, ?_, hd' ▸ hends⟩⟩, ?_, hcommit.faults, fun F T => ?_⟩
    · rw [← heng]
      exact congrArg Desk.engine hdc
    · rw [run_worked, hlim]
      exact hcommit.clean
    · obtain ⟨e', v', F', T', hr, hv', hp, hl⟩ | ⟨a', v', F', T', hclean, hr⟩ :=
        worked_disturbed env ctx hwork hv hw F T
      · exact ⟨_, v', F', T', hr, hv', .inr ⟨e', rfl, hp, hl⟩⟩
      · rw [hrun] at hclean
        obtain ⟨ha, rfl⟩ := Prod.mk.inj hclean
        obtain rfl := Except.ok.inj (Option.some.inj ha)
        rw [hr]
        -- Only the commit is left for a fault to strike.
        obtain ⟨r, v', F', T', hr', hv', hsame | ⟨e, he, hp, rfl⟩⟩ := hcommit.disturbed F' T'
        · exact ⟨r, v', F', T', hr', hv', .inl hsame⟩
        · refine ⟨r, v', F', T', hr', hv', .inr ⟨e, he, hp, hdesk, fun w hw' => ?_⟩⟩
          rw [hwb] at hw'
          rw [← Option.some.inj hw']

variable (env ctx) in
/-- A whole transaction of a session that has none open. -/
theorem runs_transaction (hwork : work.run.Steady (Effect.OfWork s.id) ServiceError.Plain)
    (hv : v.faults = []) (hi : v.Idle) :
    ∃ rc vc, v.Transacted env s work rc vc ∧
      (ctx.transaction s work).run.Runs env v rc vc fun e v' => e.Plain ∧ v.Left s.id v' := by
  have hin := hi.step_inTransaction env s.id
  have hbegin := hi.step_begin env hv s.id
  have hv₁ : (v.begun s.id).faults = [] := hv
  have hask := runs_perform env (e := .inTransaction s.id) trivial (fun _ h => h) hv hv hin
  have hstart := runs_bounded_ofStore (s := s) ctx hv hv₁ hbegin
  obtain ⟨rc, vc, htrans, hruns⟩ := runs_worked env ctx hwork hv₁ rfl
  refine ⟨rc, vc, htrans, ?_⟩
  rw [transaction_eq]
  refine (hask.mono fun _ _ h => h.elim).bind_ok ?_
  simp only [Bool.false_eq_true, ↓reduceIte]
  exact (hstart.mono fun e v' h => ⟨h.1, h.2 ▸ hi.left rfl⟩).bind_ok
    (hruns.mono fun e v' h => ⟨h.1, h.2.desk, h.2.mine⟩)

end Transaction

/-! ## Sessions -/

section Sessions

variable {work : Session → Service α} {rc : Except ServiceError α}
  {Q : ServiceError → World MemoryStore → Prop}

/-- The same world after a session is closed. -/
def World.closing (v : World MemoryStore) (s : Store.SessionId) : World MemoryStore :=
  { v with store := Backend.closeSession v.store s }

theorem World.Idle.closing {s : Store.SessionId} (hi : v.Idle) : v.closing s = v := by
  have : v.store.shared.close s = v.store.shared := by
    simp only [Store.Shared.close, Store.Shared.inTransaction,
      show v.store.shared.writer = none from hi, Option.any_none, Bool.false_eq_true, ↓reduceIte]
  show { v with store := { v.store with shared := v.store.shared.close s } } = v
  rw [this]

/-- Closing a session takes away what its work has left. -/
theorem World.Left.closing {s : Store.SessionId} (h : v.Left s v') :
    (v'.closing s).Idle ∧ (v'.closing s).desk = v.desk := by
  have hc : v'.store.shared.close s = { v'.store.shared with writer := none } := by
    cases hw : v'.store.shared.writer with
    | none =>
      simp only [Store.Shared.close, Store.Shared.inTransaction, hw, Option.any_none,
        Bool.false_eq_true, ↓reduceIte]
      rw [← hw]
    | some w =>
      have hm : w.session = s := h.mine w hw
      simp only [Store.Shared.close, Store.Shared.inTransaction, hw, Option.any_some, hm,
        beq_self_eq_true, ↓reduceIte]
  constructor
  · show (v'.store.shared.close s).writer = none
    rw [hc]
  · rw [← h.desk]
    show Desk.mk (v'.store.shared.close s).tables v'.engine = v'.desk
    rw [hc]
    rfl

/-- The same world after a session is opened. -/
def World.opening (v : World MemoryStore) : World MemoryStore :=
  { v with store := { v.store with opened := v.store.opened + 1 } }

/-- The work of a session after the attempt to open it, and the closing of that session. -/
def World.attended (env : Surroundings) (work : Session → Service α) :
    Option (Except StoreError Store.SessionId) × World MemoryStore →
      Option (Except ServiceError α) × World MemoryStore
  | (some (.ok n), w) =>
    match World.run env (work ⟨n⟩).run w with
    | (some r, w') => (some r, w'.closing n)
    | (none, w') => (none, w')
  | (some (.error e), w) => (some (.error (.ofStore e)), w)
  | (none, w) => (none, w)

theorem run_session (w : World MemoryStore) : World.run env (Service.session work).run w =
    World.attended env work (w.step env none .openSession) := by
  rw [Service.session, withSession, ExceptT.run_mk, Program.bind_eq, World.run_bind,
    Program.perform, World.run]
  rcases w.step env none .openSession with ⟨_ | (e | n), w'⟩
  · rfl
  · rfl
  · show World.run env ((work ⟨n⟩).run.bind _) w' = _
    rw [World.run_bind, World.attended]
    rcases World.run env (work ⟨n⟩).run w' with ⟨_ | r, w''⟩ <;> rfl

variable (env) in
theorem step_openSession (hv : v.faults = []) :
    v.step env none .openSession = (some (.ok v.store.opened), v.opening) := by
  simp only [World.step, World.guarded_of_faults_nil hv]
  rfl

/-- The work of a session that is opened for it: it is not begun if the session cannot be opened,
and when it is over the session is closed. -/
theorem runs_session (hv : v.faults = []) (hi : vc.Idle)
    (h : (work ⟨v.store.opened⟩).run.Runs env v.opening rc vc Q) :
    (Service.session work).run.Runs env v rc vc fun e v' =>
      (e.Plain ∧ v' = v) ∨ ∃ v₁, Q e v₁ ∧ v' = v₁.closing v.store.opened := by
  have hopen := step_openSession env hv
  refine ⟨?_, h.faults, fun F T => ?_⟩
  · rw [run_session, hopen]
    simp only [World.attended, h.clean, hi.closing]
  · rw [run_session]
    have ht : Effect.openSession.Timeless := trivial
    obtain ⟨F₁, T₁, ⟨r, hf, hs⟩ | ⟨hl, -⟩ | hs⟩ := World.step_disturbed hv ht hopen F T none
    · rcases r with e | _
      · rw [hs]
        exact ⟨_, v, F₁, T₁, rfl, hv, .inr ⟨_, rfl, .inl ⟨ServiceError.plain_ofStore e, rfl⟩⟩⟩
      · exact hf.elim
    · cases hl
    · rw [hs]
      obtain ⟨r, v', F', T', hr, hv', ⟨rfl, rfl⟩ | ⟨e, rfl, hq⟩⟩ := h.disturbed F₁ T₁
      · refine ⟨r, v', F', T', ?_, hv', .inl ⟨rfl, rfl⟩⟩
        simp only [World.attended, hr]
        rw [World.Idle.closing (v := v'.disturbed F' T') hi]
      · refine ⟨.error e, v'.closing v.store.opened, F', T', ?_, hv',
          .inr ⟨e, rfl, .inr ⟨v', hq, rfl⟩⟩⟩
        simp only [World.attended, hr]
        rfl

end Sessions

end AccessAdmin
