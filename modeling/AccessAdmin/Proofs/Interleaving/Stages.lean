import AccessAdmin.Proofs.Interleaving.Crowd
import AccessAdmin.Proofs.Interleaving.Traces

/-!
# The stages of a client

Before its transaction a client only looks; the transaction is one move; after it the client asks
the store and calls the engine. What one move does is told stage by stage, for a world in which no
fault is planned and no transaction is open between moves.

* `Program.Tail.move`: a move after the transaction.
* `Program.Ahead.move`: a move before it.
* `move_transaction`: the transaction.
-/

namespace AccessAdmin

open Policy

/-- No fault is planned and no transaction is open. -/
structure World.AtRest (w : World MemoryStore) : Prop where
  faults : w.faults = []
  idle : w.Idle

/-- The steps after a transaction. -/
def Effect.OfTail : Effect → Prop
  | .closeSession _ | .call _ (.read _) | .policy _ | .count _ => True
  | _ => False

/-- The steps before a transaction. -/
def Effect.Looks : Effect → Prop
  | .openSession | .closeSession _ | .inTransaction _ | .call _ (.read _) | .freshSalt => True
  | _ => False

/-- Answers of a world in which no transaction is open. -/
def Effect.Idly : (e : Effect) → e.Reply → Prop
  | .inTransaction _, r => r = false
  | _, _ => True

/-- An engine that dealings lead to, where patterns may be read in any way. -/
def Policy.Engine.Through (e : Engine) : List Dealing → Engine → Prop
  | [], e' => e' = e
  | d :: ds, e' => ∃ reads,
    d.reply = (e.perform reads d.call).1 ∧ (e.perform reads d.call).2.Through ds e'

section Through

variable {e e' : Engine} {x : Rule} {ds : List Dealing}

theorem Policy.Engine.Through.orderly (h : e.Through ds e') (he : e.Orderly) : e'.Orderly := by
  induction ds generalizing e with
  | nil =>
    obtain rfl := h
    exact he
  | cons d ds ih =>
    obtain ⟨reads, -, hrest⟩ := h
    exact ih hrest (he.perform reads d.call)

/-- Dealings that do not touch a rule leave it, accepted or not. -/
theorem Policy.Engine.Through.holds_iff (h : e.Through ds e')
    (hds : ∀ d ∈ ds, d.call.touches x = false) : e'.Holds x ↔ e.Holds x := by
  induction ds generalizing e with
  | nil => rw [show e' = e from h]
  | cons d ds ih =>
    obtain ⟨reads, -, hrest⟩ := h
    rw [ih hrest fun d' hd' => hds d' (.tail _ hd'), Engine.holds_untouched (hds d (.head _))]

/-- Accepted dealings of an engine are told, and lead to the engine that they should. -/
theorem Policy.Engine.Through.told (h : e.Through ds e') (he : e.Orderly)
    (hds : ∀ d ∈ ds, d.call.Accepted d.reply) :
    Dealing.Told x (e.Holds x) ds ∧ (Dealing.leavesAll x (e.Holds x) ds ↔ e'.Holds x) := by
  induction ds generalizing e with
  | nil => exact ⟨trivial, by rw [show e' = e from h]; exact Iff.rfl⟩
  | cons d ds ih =>
    obtain ⟨reads, hreply, hrest⟩ := h
    obtain ⟨htold, hleaves⟩ :=
      ih hrest (he.perform reads d.call) fun d' hd' => hds d' (.tail _ hd')
    have hfirst : (e.perform reads d.call).2.Holds x ↔ d.call.leaves x (e.Holds x) :=
      Engine.holds_perform (hreply ▸ hds d (.head _))
    rw [propext hfirst] at htold hleaves
    exact ⟨⟨⟨reads, e, he, Iff.rfl, hreply⟩, htold⟩, hleaves⟩

end Through

/-! ## After the transaction -/

section Steps

variable (env : Surroundings) {w : World MemoryStore} {e : Effect}

theorem Sign.neither_ne_engine (c : Call) : Sign.neither ≠ .engine c := nofun

theorem Sign.store_ne_engine (c : Call) : Sign.store ≠ .engine c := nofun

/-- No dealing belongs to a step that does not call the engine. -/
theorem exists_dealing_nil {s : Sign} (hs : ∀ c, s ≠ .engine c) (c : Call) :
    (∃ d ∈ ([] : List Dealing), d.call = c) ↔ s = .engine c := by
  constructor
  · rintro ⟨_, hd, -⟩
    cases hd
  · exact fun h => (hs c h).elim

/-- A step after the transaction leaves the tables, and the engine is the one that its dealing leads
to. -/
theorem Effect.OfTail.step (he : e.OfTail) (hw : w.AtRest) :
    ∃ r w', w.step env none e = (some r, w') ∧ w'.AtRest ∧ w'.tables = w.tables ∧
      ∃ ds, w.engine.Through ds w'.engine ∧ (∀ c, (∃ d ∈ ds, d.call = c) ↔ e.sign = .engine c) ∧
        ∀ P : Store.Tables → Prop, P w.tables → e.Shows P r ds := by
  cases e with
  | closeSession s =>
    have hs : w.step env none (.closeSession s) = (some (), w) :=
      Prod.ext rfl (World.Idle.closing hw.idle)
    exact ⟨(), w, hs, hw, rfl, [], rfl, exists_dealing_nil Sign.neither_ne_engine, fun _ _ => rfl⟩
  | call s c =>
    cases c with
    | read q =>
      have hs : w.step env none (.call s (.read q)) = (some (w.tables.answer q), w) := by
        simp only [World.step, World.guarded_of_faults_nil hw.faults, Backend.call,
          Store.Shared.call, Store.Shared.view, show w.store.shared.writer = none from hw.idle]
        rfl
      exact ⟨_, w, hs, hw, rfl, [], rfl, exists_dealing_nil Sign.store_ne_engine,
        fun P hP => ⟨⟨_, hP, rfl⟩, rfl⟩⟩
    | write _ | begin | commit | rollback => exact he.elim
  | policy c =>
    refine ⟨_, { w with engine := (w.engine.perform env.patterns c).2 }, rfl, ⟨hw.faults, hw.idle⟩, rfl,
      [⟨c, _⟩], ⟨_, rfl, rfl⟩, fun c' => ?_, fun _ _ => rfl⟩
    simp only [List.mem_singleton, exists_eq_left, Effect.sign, Sign.engine.injEq]
  | count _ =>
    exact ⟨(), _, rfl, ⟨hw.faults, hw.idle⟩, rfl, [], rfl,
      exists_dealing_nil Sign.neither_ne_engine, fun _ _ => rfl⟩
  | openSession | inTransaction _ | checkHealth | wait _ | elapsed | readClock | freshId _ _
  | freshSalt | note _ => exact he.elim

/-- A step before the transaction changes nothing, under a limit as without one. -/
theorem Effect.Looks.step (he : e.Looks) (hw : w.AtRest) (limit : Option Nat) :
    ∃ r w', w.step env limit e = (some r, w') ∧ w'.AtRest ∧ w'.desk = w.desk ∧ e.Idly r ∧
      ∀ c, e.sign ≠ .engine c := by
  cases e with
  | openSession =>
    have hs : w.step env limit .openSession = (some (.ok w.store.opened), w.opening) := by
      simp only [World.step, World.guarded_of_faults_nil hw.faults]
      rfl
    exact ⟨_, _, hs, ⟨hw.faults, hw.idle⟩, rfl, trivial, Sign.neither_ne_engine⟩
  | closeSession s =>
    exact ⟨(), w, Prod.ext rfl (World.Idle.closing hw.idle), hw, rfl, trivial,
      Sign.neither_ne_engine⟩
  | inTransaction s =>
    refine ⟨_, w, rfl, hw, rfl, ?_, Sign.neither_ne_engine⟩
    simp only [Effect.Idly, Backend.inTransaction, Store.Shared.inTransaction,
      show w.store.shared.writer = none from hw.idle, Option.any_none]
  | call s c =>
    cases c with
    | read q =>
      refine ⟨w.tables.answer q, w, ?_, hw, rfl, trivial, Sign.store_ne_engine⟩
      simp only [World.step, World.guarded_of_faults_nil hw.faults, Backend.call,
        Store.Shared.call, Store.Shared.view, show w.store.shared.writer = none from hw.idle]
      rfl
    | write _ | begin | commit | rollback => exact he.elim
  | freshSalt =>
    exact ⟨_, _, rfl, ⟨hw.faults, hw.idle⟩, rfl, trivial, Sign.neither_ne_engine⟩
  | checkHealth | policy _ | wait _ | elapsed | readClock | freshId _ _ | count _ | note _ =>
    exact he.elim

end Steps

namespace Program

variable {α β ε : Type} {env : Surroundings} {w w' : World MemoryStore} {e : Effect}
  {p p' : Program α} {R : Program α → Prop}

/-- A program that only asks, calls the engine, counts and closes sessions. -/
def Tail : Program α → Prop
  | done _ => True
  | ask e k => e.OfTail ∧ ∀ r, Tail (k r)
  | askBy _ _ _ => False

theorem Tail.bind {f : α → Program β} (hp : p.Tail) (hf : ∀ a, (f a).Tail) :
    (p.bind f).Tail := by
  induction p with
  | done a => exact hf a
  | ask e k ih => exact ⟨hp.1, fun r => ih r (hp.2 r)⟩
  | askBy l e k _ => exact hp.elim

theorem Steady.tail {s : Store.SessionId} {bad : ε → Prop} {p : Program (Except ε α)}
    (hp : p.Steady (Effect.OfProjection s) bad) : p.Tail := by
  induction p with
  | done _ => trivial
  | ask e k ih =>
    refine ⟨?_, fun r => ih r (hp.2.2 r)⟩
    have he := hp.1
    unfold Effect.OfProjection at he
    split at he <;> first | exact trivial | exact he.elim
  | askBy l e k _ => exact hp.elim

/-- One move after the transaction, and what it adds to the traces of the program. -/
theorem Tail.move (hp : p.Tail) (hw : w.AtRest) (h : World.move env p w = some (e, p', w')) :
    p'.Tail ∧ w'.AtRest ∧ w'.tables = w.tables ∧
      ∃ ds, w.engine.Through ds w'.engine ∧ (∀ c, (∃ d ∈ ds, d.call = c) ↔ e.sign = .engine c) ∧
        ∀ P ds' b, P w.tables → p'.Traces P ds' b → p.Traces P (ds ++ ds') b := by
  cases p with
  | done _ => cases h
  | ask e k =>
    obtain ⟨r, w₁, hs, hrest, htables, ds, hthrough, hsign, hshows⟩ := hp.1.step env hw
    rw [World.move_ask hs hrest.idle, Option.some.injEq, Prod.mk.injEq, Prod.mk.injEq] at h
    obtain ⟨rfl, rfl, rfl⟩ := h
    exact ⟨hp.2 r, hrest, htables, ds, hthrough, hsign,
      fun P ds' b hP ht => ⟨r, ds, ds', hshows P hP, ht, rfl⟩⟩
  | askBy l e k => exact hp.elim

/-! ## Before the transaction -/

/-- A program that only looks before it comes to what `R` says. -/
inductive Ahead (R : Program α → Prop) : Program α → Prop where
  | here {p : Program α} : R p → Ahead R p
  | look {e : Effect} {k : e.Reply → Program α} :
      e.Looks → (∀ r, e.Idly r → Ahead R (k r)) → Ahead R (ask e k)
  | lookBy {l : Nat} {e : Effect} {k : Option e.Reply → Program α} :
      e.Looks → (∀ r, e.Idly r → Ahead R (k (some r))) → Ahead R (askBy l e k)

theorem Ahead.bind {R' : Program β → Prop} {f : α → Program β} (hp : Ahead R p)
    (hf : ∀ q, R q → Ahead R' (q.bind f)) : Ahead R' (p.bind f) := by
  induction hp with
  | here h => exact hf _ h
  | look he _ ih => exact .look he ih
  | lookBy he _ ih => exact .lookBy he ih

/-- One move before the transaction. -/
theorem Ahead.move (hp : Ahead R p) (hw : w.AtRest) (h : World.move env p w = some (e, p', w')) :
    R p ∨ (Ahead R p' ∧ w'.AtRest ∧ w'.desk = w.desk ∧ ∀ c, e.sign ≠ .engine c) := by
  cases hp with
  | here hR => exact .inl hR
  | look he hk =>
    obtain ⟨r, w₁, hs, hrest, hdesk, hidly, hsign⟩ := he.step env hw none
    rw [World.move_ask hs hrest.idle, Option.some.injEq, Prod.mk.injEq, Prod.mk.injEq] at h
    obtain ⟨rfl, rfl, rfl⟩ := h
    exact .inr ⟨hk r hidly, hrest, hdesk, hsign⟩
  | @lookBy l _ _ he hk =>
    obtain ⟨r, w₁, hs, hrest, hdesk, hidly, hsign⟩ := he.step env hw (some l)
    rw [World.move_askBy hs hrest.idle, Option.some.injEq, Prod.mk.injEq, Prod.mk.injEq] at h
    obtain ⟨rfl, rfl, rfl⟩ := h
    exact .inr ⟨hk r hidly, hrest, hdesk, hsign⟩

end Program

/-! ## The transaction -/

section Transactions

variable {α β ε : Type} {env : Surroundings} {v w : World MemoryStore}

theorem World.finish_ask {e : Effect} {r : e.Reply} {k : e.Reply → Program α}
    (hw : v.store.shared.writer ≠ none) (hs : v.step env none e = (some r, w)) :
    World.finish env (.ask e k) v = World.finish env (k r) w := by
  rw [finish, if_neg (by rwa [Option.isNone_iff_eq_none]), hs]

/-- A step under the deadline in an open transaction. -/
theorem World.finish_limited {ctx : Context} {e : Effect} {r : e.Reply}
    {k : e.Reply → Program α} {f : Option α → Program β} (hv : v.faults = []) (ht : e.Timeless)
    (hw : v.store.shared.writer ≠ none) (hs : v.step env none e = (some r, w)) :
    World.finish env ((ctx.limited (.ask e k)).bind f) v =
      World.finish env ((ctx.limited (k r)).bind f) w := by
  unfold Context.limited
  cases ctx.deadline with
  | none => exact finish_ask hw hs
  | some d =>
    simp only [Program.within, Program.bind]
    rw [finish, if_neg (by rwa [Option.isNone_iff_eq_none]), step_limit hv ht hs]

/-- A move that begins with a step under the deadline. -/
theorem World.move_limited {ctx : Context} {e : Effect} {r : e.Reply}
    {k : e.Reply → Program α} {f : Option α → Program β} (hv : v.faults = []) (ht : e.Timeless)
    (hs : v.step env none e = (some r, w)) :
    World.move env ((ctx.limited (.ask e k)).bind f) v =
      (World.finish env ((ctx.limited (k r)).bind f) w).map (e, ·) := by
  unfold Context.limited
  cases ctx.deadline with
  | none =>
    show move env (.ask e _) v = _
    rw [move, hs]
    rfl
  | some d =>
    simp only [Program.within, Program.bind]
    rw [move, step_limit hv ht hs]

theorem World.finish_limited_done {ctx : Context} {a : α} {f : Option α → Program β} :
    World.finish env ((ctx.limited (.done a)).bind f) v = World.finish env (f (some a)) v := by
  unfold Context.limited
  cases ctx.deadline <;> rfl

/-- Steady work in an open transaction is run through, under a deadline as without one. -/
theorem Program.Steady.finish {may : Effect → Prop} {bad : ε → Prop}
    {I : World MemoryStore → Prop} {p : Program (Except ε α)} (hp : p.Steady may bad)
    (hk : Keeps env may I) (ht : ∀ e, may e → e.Timeless)
    (hopen : ∀ v, I v → v.store.shared.writer ≠ none) (hv : v.faults = []) (hI : I v) :
    ∃ r v', World.run env p v = (some r, v') ∧ v'.faults = [] ∧ I v' ∧
      ∀ (ctx : Context) (f : Option (Except ε α) → Program β),
        World.finish env ((ctx.limited p).bind f) v = World.finish env (f (some r)) v' := by
  induction p generalizing v with
  | done r =>
    exact ⟨r, v, rfl, hv, hI, fun ctx f => World.finish_limited_done⟩
  | ask e k ih =>
    obtain ⟨r, v₁, hs, hv₁, hI₁⟩ := hk v e hv hI hp.1
    obtain ⟨r', v', hr, hv', hI', hfinish⟩ := ih r (hp.2.2 r) hv₁ hI₁
    refine ⟨r', v', ?_, hv', hI', fun ctx f => ?_⟩
    · simp only [World.run, hs, hr]
    · exact (World.finish_limited hv (ht e hp.1) (hopen v hI) hs).trans (hfinish ctx f)
  | askBy l e k _ => exact hp.elim

variable {s : Session} {work : Service α}

/-- The end of a transaction as a program. -/
theorem run_settle (ctx : Context) (g : Except ServiceError α → Program β) :
    (ctx.worked s work).run.bind g =
      (ctx.limited work.run).bind fun o => (Context.settle s o).run.bind g := by
  rw [Context.worked, ExceptT.run_bind_lift, Program.bind_eq, Program.bind_assoc]

theorem World.finish_settle_error {t : Store.Tables} {e : ServiceError}
    {g : Except ServiceError α → Program β} (hv : v.faults = [])
    (hw : v.store.shared.writer = some ⟨s.id, t⟩) :
    World.finish env ((Context.settle s (some (.error e))).run.bind g) v =
      some (g (.error e), v.settled) := by
  have hs := World.step_rollback env hv hw
  exact (World.finish_ask (by rw [hw]; exact Option.some_ne_none _) hs).trans
    (World.finish_idle _ rfl)

theorem World.finish_settle_ok {t : Store.Tables} {a : α}
    {g : Except ServiceError α → Program β} (hv : v.faults = [])
    (hw : v.store.shared.writer = some ⟨s.id, t⟩) :
    World.finish env ((Context.settle s (some (.ok a))).run.bind g) v =
      some (g (.ok a), v.committed t) := by
  have hs := World.step_commit env hv hw
  exact (World.finish_ask (by rw [hw]; exact Option.some_ne_none _) hs).trans
    (World.finish_idle _ rfl)

/-- What follows the beginning of a transaction. -/
def Context.afterBegin (ctx : Context) (s : Session) (work : Service α)
    (g : Except ServiceError α → Program β) : Option (Except ServiceError Unit) → Program β
  | none => g (.error .cancelled)
  | some (.error e) => g (.error e)
  | some (.ok _) => (ctx.worked s work).run.bind g

/-- A transaction as a program. -/
theorem run_begin (ctx : Context) (g : Except ServiceError α → Program β) :
    (do
      ctx.bounded (Service.ofStore (s.call .begin))
      ctx.worked s work : Service α).run.bind g =
      (ctx.limited (Service.ofStore (s.call .begin)).run).bind (ctx.afterBegin s work g) := by
  rw [ExceptT.run_bind, Program.bind_eq, Program.bind_assoc, Context.bounded, ExceptT.run_mk,
    Program.bind_eq, Program.bind_assoc]
  congr 1
  funext o
  rcases o with _ | (_ | _) <;> rfl

variable (env) in
/-- The work of an open transaction is run through to its end: it is refused and changes nothing, or
it is in force. -/
theorem finish_worked (ctx : Context) (hw : w.AtRest) (hwork : s.Works work)
    (g : Except ServiceError α → Program β) :
    ∃ r w', World.finish env ((ctx.worked s work).run.bind g) (w.begun s.id) = some (g r, w') ∧
      w'.AtRest ∧ w'.engine = w.engine ∧
      ((∃ e, r = .error e ∧ w'.tables = w.tables) ∨
        ∃ a, r = .ok a ∧ work.run.Ends env s.id w.desk (.ok a) w'.desk) := by
  obtain ⟨r, v, hrun, hv, ⟨t, hopen, htables, hengine⟩, hfinish⟩ :=
    Program.Steady.finish (β := β) hwork (keeps_work env w.tables w.engine s.id)
      (fun _ he => he.onDesk.timeless)
      (fun v ⟨t, hv, _⟩ => by rw [hv]; exact Option.some_ne_none _) (v := w.begun s.id) hw.faults
      ⟨w.tables, rfl, rfl, rfl⟩
  rw [run_settle, hfinish]
  cases r with
  | error e =>
    rw [World.finish_settle_error hv hopen]
    exact ⟨_, _, rfl, ⟨hv, rfl⟩, hengine, .inl ⟨e, rfl, htables⟩⟩
  | ok a =>
    have hAt : (w.begun s.id).At s.id w.desk :=
      ⟨hw.faults, by simp only [Store.Shared.view, World.begun, ↓reduceIte]; rfl, rfl⟩
    obtain ⟨d', hends, hat⟩ := hwork.ends (fun _ he => he.onDesk) hAt hrun
    have hview := hat.view
    simp only [Store.Shared.view, hopen, ↓reduceIte, Store.Attempt.answered.injEq] at hview
    have hd' : d' = (v.committed t).desk := by
      rw [hview]
      exact congrArg (Desk.mk d'.tables) hat.engine.symm
    rw [World.finish_settle_ok hv hopen]
    exact ⟨_, _, rfl, ⟨hv, rfl⟩, hengine, .inr ⟨a, rfl, hd' ▸ hends⟩⟩

variable (env) in
/-- A transaction is one move: it is refused and changes nothing, or its work is in force. -/
theorem move_transaction (ctx : Context) (hw : w.AtRest) (hwork : s.Works work)
    (g : Except ServiceError α → Program β) :
    ∃ e r w', World.move env ((do
        ctx.bounded (Service.ofStore (s.call .begin))
        ctx.worked s work : Service α).run.bind g) w = some (e, g r, w') ∧
      e.sign = .store ∧ w'.AtRest ∧ w'.engine = w.engine ∧
      ((∃ e, r = .error e ∧ w'.tables = w.tables) ∨
        ∃ a, r = .ok a ∧ work.run.Ends env s.id w.desk (.ok a) w'.desk) := by
  have hbegin := hw.idle.step_begin env hw.faults s.id
  have ht : (Effect.call s.id .begin).Timeless := trivial
  obtain ⟨r, w', hfinish, hends⟩ := finish_worked env ctx hw hwork g
  refine ⟨.call s.id .begin, r, w', ?_, rfl, hends⟩
  rw [run_begin, run_ofStore, World.move_limited hw.faults ht hbegin, World.finish_limited_done]
  exact congrArg (Option.map _) hfinish

end Transactions

end AccessAdmin
