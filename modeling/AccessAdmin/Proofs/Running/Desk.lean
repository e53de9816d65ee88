import AccessAdmin.Proofs.Running.Steady
import AccessAdmin.Service.Projection

/-!
# What undisturbed work does

Work on one session sees the tables that the session works on and the engine: its desk. The
relation `Program.Ends` says what work comes to on a desk when nothing disturbs it. It leaves out
who else there is, so it opens by rewriting: `ends_bind`, and one lemma for each kind of step.

* `Desk.Steps`: one step on a desk.
* `Program.Ends`: a whole program on a desk.
* `Program.Steady.ends`: an undisturbed run in a world does what `Ends` says of its desk.
-/

namespace AccessAdmin

/-- The tables that a session works on, and the engine. -/
structure Desk where
  tables : Store.Tables
  engine : Policy.Engine

namespace Desk

/-- One step on the desk of a session: its answer, and the desk after it. Readings of the clock and
salts may be any. -/
def Steps (env : Surroundings) (s : Store.SessionId) (d : Desk) :
    (e : Effect) → e.Reply → Desk → Prop
  | .call s' (.read r), reply, d' => s' = s ∧ reply = d.tables.answer r ∧ d' = d
  | .call s' (.write w), reply, d' =>
    s' = s ∧
      ((∃ t, d.tables.apply w = .ok t ∧ reply = .ok () ∧ d' = { d with tables := t }) ∨
        ∃ e, d.tables.apply w = .error e ∧ reply = .error e ∧ d' = d)
  | .policy c, reply, d' =>
    reply = (d.engine.perform env.patterns c).1 ∧ d' = { d with engine := (d.engine.perform env.patterns c).2 }
  | .freshId s' kind, id, d' =>
    s' = s ∧ id = env.idName kind (MemoryStore.createdOf d.tables kind + 1) ∧ d' = d
  | .readClock, _, d' | .freshSalt, _, d' | .count _, _, d' => d' = d
  | _, _, _ => False

end Desk

/-- The steps of work on a session. -/
def Effect.OnDesk (s : Store.SessionId) : Effect → Prop
  | .call s' (.read _) | .call s' (.write _) | .freshId s' _ => s' = s
  | .policy _ | .readClock | .freshSalt | .count _ => True
  | _ => False

/-- A world without planned faults in which a session works on a desk. -/
structure World.At (v : World MemoryStore) (s : Store.SessionId) (d : Desk) : Prop where
  faults : v.faults = []
  view : v.store.shared.view s = .answered d.tables
  engine : v.engine = d.engine

variable {α β ε : Type} {env : Surroundings} {s : Store.SessionId} {d d' : Desk}

theorem view_put {st : Store.Shared} {t t' : Store.Tables} (h : st.view s = .answered t) :
    (st.put t').view s = .answered t' := by
  unfold Store.Shared.view Store.Shared.put at *
  cases hw : st.writer with
  | none => rfl
  | some w =>
    simp only [hw] at h ⊢
    split at h
    · rename_i hs
      simp only [hs, ↓reduceIte]
    · cases h

theorem World.At.step {v v' : World MemoryStore} (hv : v.At s d) {e : Effect} {r : e.Reply}
    (he : e.OnDesk s) (h : v.step env none e = (some r, v')) :
    ∃ d', d.Steps env s e r d' ∧ v'.At s d' := by
  obtain ⟨hf, hview, heng⟩ := hv
  cases e with
  | call s' c =>
    simp only [World.step, World.guarded_of_faults_nil hf, Backend.call] at h
    cases c with
    | read q =>
      obtain rfl : s' = s := he
      simp only [Store.Shared.call, hview, Prod.mk.injEq, Option.some.injEq] at h
      obtain ⟨rfl, rfl⟩ := h
      exact ⟨d, ⟨rfl, rfl, rfl⟩, hf, hview, heng⟩
    | write w =>
      obtain rfl : s' = s := he
      simp only [Store.Shared.call, hview] at h
      cases hw : d.tables.apply w with
      | ok t =>
        simp only [hw, Prod.mk.injEq, Option.some.injEq] at h
        obtain ⟨rfl, rfl⟩ := h
        exact ⟨{ d with tables := t }, ⟨rfl, .inl ⟨t, hw, rfl, rfl⟩⟩, hf, view_put hview, heng⟩
      | error e =>
        simp only [hw, Prod.mk.injEq, Option.some.injEq] at h
        obtain ⟨rfl, rfl⟩ := h
        exact ⟨d, ⟨rfl, .inr ⟨e, hw, rfl, rfl⟩⟩, hf, hview, heng⟩
    | begin | commit | rollback => exact he.elim
  | policy c =>
    obtain ⟨hr, rfl⟩ := Prod.mk.inj h
    refine ⟨_, ⟨?_, rfl⟩, hf, hview, ?_⟩
    · rw [← heng]
      exact (Option.some.inj hr).symm
    · show (v.engine.perform env.patterns c).2 = _
      rw [heng]
  | freshId s' kind =>
    obtain rfl : s' = s := he
    obtain ⟨hr, rfl⟩ := Prod.mk.inj h
    obtain rfl := Option.some.inj hr
    refine ⟨d, ⟨rfl, ?_, rfl⟩, hf, hview, heng⟩
    simp only [MemoryStore.tablesFor, hview]
  | readClock | freshSalt | count _ =>
    obtain ⟨-, rfl⟩ := Prod.mk.inj h
    exact ⟨d, rfl, hf, hview, heng⟩
  | openSession | closeSession _ | inTransaction _ | checkHealth | wait _ | elapsed | note _ =>
    exact he.elim

namespace Program

/-- What a program comes to on the desk of a session: its answer, and the desk after it. -/
def Ends (env : Surroundings) (s : Store.SessionId) : Program α → Desk → α → Desk → Prop
  | done a, d, b, d' => b = a ∧ d' = d
  | ask e k, d, b, d' => ∃ r d₁, d.Steps env s e r d₁ ∧ Ends env s (k r) d₁ b d'
  | askBy _ _ _, _, _, _ => False

theorem ends_bind {p : Program α} {f : α → Program β} {b : β} :
    (p.bind f).Ends env s d b d' ↔ ∃ a d₁, p.Ends env s d a d₁ ∧ (f a).Ends env s d₁ b d' := by
  induction p generalizing d with
  | done a => simp only [bind, Ends, exists_and_left, and_assoc, exists_eq_left]
  | ask e k ih =>
    simp only [bind, Ends, ih]
    constructor
    · rintro ⟨r, d₁, hs, a, d₂, hk, hf⟩
      exact ⟨a, d₂, ⟨r, d₁, hs, hk⟩, hf⟩
    · rintro ⟨a, d₂, ⟨r, d₁, hs, hk⟩, hf⟩
      exact ⟨r, d₁, hs, a, d₂, hk, hf⟩
  | askBy l e k _ => simp only [bind, Ends, false_and, exists_false]

theorem ends_perform {e : Effect} {r : e.Reply} :
    (perform e).Ends env s d r d' ↔ d.Steps env s e r d' := by
  simp only [perform, Ends]
  constructor
  · rintro ⟨r', d₁, hs, rfl, rfl⟩
    exact hs
  · intro hs
    exact ⟨r, d', hs, rfl, rfl⟩

/-- An undisturbed run does what `Ends` says of its desk. -/
theorem Steady.ends {may : Effect → Prop} {bad : ε → Prop} {p : Program (Except ε α)}
    {v v' : World MemoryStore} {r : Except ε α} (hp : p.Steady may bad)
    (hmay : ∀ e, may e → e.OnDesk s) (hv : v.At s d) (h : World.run env p v = (some r, v')) :
    ∃ d', p.Ends env s d r d' ∧ v'.At s d' := by
  induction p generalizing v d with
  | done a =>
    obtain ⟨hr, rfl⟩ := Prod.mk.inj h
    exact ⟨d, ⟨(Option.some.inj hr).symm, rfl⟩, hv⟩
  | ask e k ih =>
    simp only [World.run] at h
    rcases hs : v.step env none e with ⟨_ | a, v₁⟩
    · simp only [hs, Prod.mk.injEq, reduceCtorEq, false_and] at h
    · simp only [hs] at h
      obtain ⟨d₁, hd, hv₁⟩ := hv.step (hmay e hp.1) hs
      obtain ⟨d', he, hv'⟩ := ih a (hp.2.2 a) hv₁ h
      exact ⟨d', ⟨a, d₁, hd, he⟩, hv'⟩
  | askBy l e k _ => exact hp.elim

end Program

/-! ## Programs that may end with an error -/

section Services

variable {x : ExceptT ε Program α} {f : α → ExceptT ε Program β} {r : Except ε β}

theorem ends_pure {a : α} {r : Except ε α} :
    (pure a : ExceptT ε Program α).run.Ends env s d r d' ↔ r = .ok a ∧ d' = d := Iff.rfl

theorem ends_seq : (x >>= f).run.Ends env s d r d' ↔
    (∃ a d₁, x.run.Ends env s d (.ok a) d₁ ∧ (f a).run.Ends env s d₁ r d') ∨
      ∃ e, x.run.Ends env s d (.error e) d' ∧ r = .error e := by
  rw [ExceptT.run_bind, Program.bind_eq, Program.ends_bind]
  constructor
  · rintro ⟨e | a, d₁, hx, hf⟩
    · obtain ⟨rfl, rfl⟩ := hf
      exact .inr ⟨e, hx, rfl⟩
    · exact .inl ⟨a, d₁, hx, hf⟩
  · rintro (⟨a, d₁, hx, hf⟩ | ⟨e, hx, rfl⟩)
    · exact ⟨.ok a, d₁, hx, hf⟩
    · exact ⟨.error e, d', hx, rfl, rfl⟩

/-- A sequence succeeds if both parts do. -/
theorem ends_seq_ok {b : β} : (x >>= f).run.Ends env s d (.ok b) d' ↔
    ∃ a d₁, x.run.Ends env s d (.ok a) d₁ ∧ (f a).run.Ends env s d₁ (.ok b) d' := by
  simp only [ends_seq, reduceCtorEq, and_false, exists_false, or_false]

/-- What follows a part that always succeeds. -/
theorem ends_seq_sure {P : α → Prop} {d₁ : Desk}
    (hx : ∀ r d₂, x.run.Ends env s d r d₂ ↔ ∃ a, P a ∧ r = .ok a ∧ d₂ = d₁) {r : Except ε β} :
    (x >>= f).run.Ends env s d r d' ↔ ∃ a, P a ∧ (f a).run.Ends env s d₁ r d' := by
  rw [ends_seq]
  constructor
  · rintro (⟨a, d₂, ha, hf⟩ | ⟨e, he, rfl⟩)
    · obtain ⟨a', hP, ha', rfl⟩ := (hx _ _).1 ha
      obtain rfl := Except.ok.inj ha'
      exact ⟨a, hP, hf⟩
    · obtain ⟨_, -, he, -⟩ := (hx _ _).1 he
      cases he
  · rintro ⟨a, hP, hf⟩
    exact .inl ⟨a, d₁, (hx _ _).2 ⟨a, hP, rfl, rfl⟩, hf⟩

/-- What follows a look at the desk. -/
theorem ends_look {P : α → Prop} {b : β}
    (hx : ∀ a d₁, x.run.Ends env s d (.ok a) d₁ → d₁ = d ∧ P a)
    (h : (x >>= f).run.Ends env s d (.ok b) d') : ∃ a, P a ∧ (f a).run.Ends env s d (.ok b) d' := by
  obtain ⟨a, d₁, ha, hf⟩ := ends_seq_ok.1 h
  obtain ⟨rfl, hP⟩ := hx a d₁ ha
  exact ⟨a, hP, hf⟩

/-- A lifted program cannot fail. -/
theorem ends_lift {p : Program α} {r : Except ε α} :
    (ExceptT.lift p : ExceptT ε Program α).run.Ends env s d r d' ↔
      ∃ a, p.Ends env s d a d' ∧ r = .ok a := by
  rw [ExceptT.run_lift, map_eq_pure_bind, Program.bind_eq, Program.ends_bind]
  constructor
  · rintro ⟨a, _, hp, rfl, rfl⟩
    exact ⟨a, hp, rfl⟩
  · rintro ⟨a, hp, rfl⟩
    exact ⟨a, d', hp, rfl, rfl⟩

end Services

namespace Service

theorem ends_perform {e : Effect} {r : Except ServiceError e.Reply} :
    (Service.perform e).run.Ends env s d r d' ↔ ∃ a, d.Steps env s e a d' ∧ r = .ok a := by
  simp only [Service.perform, ends_lift, Program.ends_perform]

theorem not_ends_refuse {e : ServiceError} {a : α} :
    ¬(Service.refuse e : Service α).run.Ends env s d (.ok a) d' := fun h => nomatch h.1

section Then

variable {r : Except ServiceError β}

theorem ends_freshId_then {kind : Kind} {f : String → Service β} :
    (Service.perform (.freshId s kind) >>= f).run.Ends env s d r d' ↔
      (f (env.idName kind (MemoryStore.createdOf d.tables kind + 1))).run.Ends env s d r d' := by
  have hx (r : Except ServiceError String) (d₂ : Desk) :
      (Service.perform (.freshId s kind)).run.Ends env s d r d₂ ↔
        ∃ a, a = env.idName kind (MemoryStore.createdOf d.tables kind + 1) ∧ r = .ok a ∧ d₂ = d := by
    rw [ends_perform]
    simp only [Desk.Steps, true_and, and_assoc]
    exact exists_congr fun _ => and_congr_right fun _ => and_comm
  rw [ends_seq_sure hx, exists_eq_left]

theorem ends_readClock_then {f : Timestamp → Service β} :
    (Service.perform .readClock >>= f).run.Ends env s d r d' ↔
      ∃ now, (f now).run.Ends env s d r d' := by
  have hx (r : Except ServiceError Timestamp) (d₂ : Desk) :
      (Service.perform .readClock).run.Ends env s d r d₂ ↔
        ∃ now, True ∧ r = .ok now ∧ d₂ = d := by
    rw [ends_perform]
    simp only [Desk.Steps, true_and, and_comm]
  simp only [ends_seq_sure hx, true_and]

theorem ends_count_then {e : Event} {f : Unit → Service β} :
    (Service.perform (.count e) >>= f).run.Ends env s d r d' ↔
      (f ()).run.Ends env s d r d' := by
  have hx (r : Except ServiceError Unit) (d₂ : Desk) :
      (Service.perform (.count e)).run.Ends env s d r d₂ ↔ ∃ a, a = () ∧ r = .ok a ∧ d₂ = d := by
    rw [ends_perform]
    simp only [Desk.Steps, true_and, and_comm]
  rw [ends_seq_sure hx, exists_eq_left]

end Then

end Service

namespace Session

variable {s : Session}

/-- A question that fits is always answered. -/
theorem ends_ask {q : Store.Read} [q.Fits] {r : Except ServiceError q.Reply} :
    (s.ask q).run.Ends env s.id d r d' ↔ r = .ok (d.tables.ask q) ∧ d' = d := by
  constructor
  · rintro ⟨_, _, ⟨-, hreply, rfl⟩, h⟩
    rw [Store.Tables.answer_fits] at hreply
    obtain rfl := hreply
    obtain ⟨rfl, rfl⟩ := h
    exact ⟨rfl, rfl⟩
  · rintro ⟨rfl, rfl⟩
    exact ⟨.ok _, _, ⟨rfl, (Store.Tables.answer_fits ..).symm, rfl⟩, rfl, rfl⟩

/-- A change is made, or refused without an effect. -/
theorem ends_change {w : Store.Write} {r : Except ServiceError Unit} :
    (s.change w).run.Ends env s.id d r d' ↔
      (∃ t, d.tables.apply w = .ok t ∧ r = .ok () ∧ d' = { d with tables := t }) ∨
        ∃ e, d.tables.apply w = .error e ∧ r = .error (.ofStore e) ∧ d' = d := by
  constructor
  · rintro ⟨_, _, ⟨-, ⟨t, h, rfl, rfl⟩ | ⟨e, h, rfl, rfl⟩⟩, rfl, rfl⟩
    · exact .inl ⟨t, h, rfl, rfl⟩
    · exact .inr ⟨e, h, rfl, rfl⟩
  · rintro (⟨t, h, rfl, rfl⟩ | ⟨e, h, rfl, rfl⟩)
    · exact ⟨.ok (), _, ⟨rfl, .inl ⟨t, h, rfl, rfl⟩⟩, rfl, rfl⟩
    · exact ⟨.error e, _, ⟨rfl, .inr ⟨e, h, rfl, rfl⟩⟩, rfl, rfl⟩

theorem ends_change_ok {w : Store.Write} {u : Unit} :
    (s.change w).run.Ends env s.id d (.ok u) d' ↔
      ∃ t, d.tables.apply w = .ok t ∧ d' = { d with tables := t } := by
  simp only [ends_change, reduceCtorEq, false_and, and_false, exists_false, or_false, true_and]

section Then

variable {b : β} {r : Except ServiceError β}

theorem ends_ask_then {q : Store.Read} [q.Fits] {f : q.Reply → Service β} :
    (s.ask q >>= f).run.Ends env s.id d r d' ↔
      (f (d.tables.ask q)).run.Ends env s.id d r d' := by
  have hx (r : Except ServiceError q.Reply) (d₂ : Desk) :
      (s.ask q).run.Ends env s.id d r d₂ ↔ ∃ a, a = d.tables.ask q ∧ r = .ok a ∧ d₂ = d := by
    rw [ends_ask, exists_eq_left]
  rw [ends_seq_sure hx, exists_eq_left]

theorem ends_change_then {w : Store.Write} {f : Unit → Service β} :
    (s.change w >>= f).run.Ends env s.id d (.ok b) d' ↔
      ∃ t, d.tables.apply w = .ok t ∧
        (f ()).run.Ends env s.id { d with tables := t } (.ok b) d' := by
  rw [ends_seq_ok]
  constructor
  · rintro ⟨_, _, hw, h⟩
    obtain ⟨t, ht, rfl⟩ := ends_change_ok.1 hw
    exact ⟨t, ht, h⟩
  · rintro ⟨t, ht, h⟩
    exact ⟨(), _, ends_change_ok.2 ⟨t, ht, rfl⟩, h⟩

/-- A change that is not refused. -/
theorem ends_change_sure {w : Store.Write} {t : Store.Tables} {f : Unit → Service β}
    (h : d.tables.apply w = .ok t) : (s.change w >>= f).run.Ends env s.id d r d' ↔
      (f ()).run.Ends env s.id { d with tables := t } r d' := by
  have hx (r : Except ServiceError Unit) (d₂ : Desk) : (s.change w).run.Ends env s.id d r d₂ ↔
      ∃ a, a = () ∧ r = .ok a ∧ d₂ = { d with tables := t } := by
    rw [ends_change, exists_eq_left]
    simp only [h, Except.ok.injEq, exists_eq_left', reduceCtorEq, false_and, exists_false, or_false]
  rw [ends_seq_sure hx, exists_eq_left]

end Then

end Session

/-- Performs changes one after the other, up to the first that is refused. -/
def Store.Tables.applyAll (t : Store.Tables) : List Store.Write → Except StoreError Store.Tables
  | [] => .ok t
  | w :: ws =>
    match t.apply w with
    | .ok t => t.applyAll ws
    | .error e => .error e

namespace Session

variable {s : Session}

theorem ends_changeAll_ok {ws : List Store.Write} {u : Unit} :
    (s.changeAll ws).run.Ends env s.id d (.ok u) d' ↔
      ∃ t, d.tables.applyAll ws = .ok t ∧ d' = { d with tables := t } := by
  induction ws generalizing d with
  | nil =>
    simp only [changeAll, ends_pure, Store.Tables.applyAll, Except.ok.injEq, true_and]
    constructor
    · rintro rfl
      exact ⟨d'.tables, rfl, rfl⟩
    · rintro ⟨_, rfl, rfl⟩
      rfl
  | cons w ws ih =>
    simp only [changeAll, ends_seq_ok, ends_change_ok, ih, Store.Tables.applyAll]
    constructor
    · rintro ⟨_, _, ⟨t₁, h₁, rfl⟩, t, h, rfl⟩
      exact ⟨t, by simp only [h₁]; exact h, rfl⟩
    · rintro ⟨t, h, rfl⟩
      cases h₁ : d.tables.apply w with
      | ok t₁ =>
        simp only [h₁] at h
        exact ⟨(), _, ⟨t₁, rfl, rfl⟩, t, h, rfl⟩
      | error e => simp only [h₁, reduceCtorEq] at h

theorem ends_changeAll_then {b : β} {ws : List Store.Write} {f : Unit → Service β} :
    (s.changeAll ws >>= f).run.Ends env s.id d (.ok b) d' ↔
      ∃ t, d.tables.applyAll ws = .ok t ∧
        (f ()).run.Ends env s.id { d with tables := t } (.ok b) d' := by
  rw [ends_seq_ok]
  constructor
  · rintro ⟨_, _, hw, h⟩
    obtain ⟨t, ht, rfl⟩ := ends_changeAll_ok.1 hw
    exact ⟨t, ht, h⟩
  · rintro ⟨t, ht, h⟩
    exact ⟨(), _, ends_changeAll_ok.2 ⟨t, ht, rfl⟩, h⟩

/-- Changes of which none is refused. -/
theorem ends_changeAll_sure {ws : List Store.Write} {t : Store.Tables} {f : Unit → Service β}
    {r : Except ServiceError β} (h : d.tables.applyAll ws = .ok t) :
    (s.changeAll ws >>= f).run.Ends env s.id d r d' ↔
      (f ()).run.Ends env s.id { d with tables := t } r d' := by
  induction ws generalizing d with
  | nil =>
    obtain rfl := Except.ok.inj h
    rw [changeAll, pure_bind]
  | cons w ws ih =>
    rw [Store.Tables.applyAll] at h
    cases hw : d.tables.apply w with
    | ok t₁ =>
      simp only [hw] at h
      rw [changeAll, bind_assoc, ends_change_sure hw]
      exact ih h
    | error e => simp only [hw, reduceCtorEq] at h

end Session

namespace Projecting

variable {s : Session} {sid : Store.SessionId}

theorem ends_ask {q : Store.Read} [q.Fits] {r : Except ProjectionError q.Reply} :
    (ask s q).run.Ends env s.id d r d' ↔ r = .ok (d.tables.ask q) ∧ d' = d := by
  constructor
  · rintro ⟨_, _, ⟨-, hreply, rfl⟩, h⟩
    rw [Store.Tables.answer_fits] at hreply
    obtain rfl := hreply
    obtain ⟨rfl, rfl⟩ := h
    exact ⟨rfl, rfl⟩
  · rintro ⟨rfl, rfl⟩
    exact ⟨.ok _, _, ⟨rfl, (Store.Tables.answer_fits ..).symm, rfl⟩, rfl, rfl⟩

/-- Counting a projection leaves it as it is. -/
theorem ends_counted {subject : Subject} {work : Projecting α} {r : Except ProjectionError α} :
    (counted subject work).run.Ends env sid d r d' ↔ work.run.Ends env sid d r d' := by
  rw [counted, ExceptT.run_mk, Program.bind_eq, Program.ends_bind]
  constructor
  · rintro ⟨_, _, hw, _, _, rfl, rfl, rfl⟩
    exact hw
  · intro hw
    exact ⟨r, d', hw, (), d', rfl, rfl, rfl⟩

theorem ends_afterCommit {work : Projecting α} {r : Except ServiceError Unit} :
    (afterCommit work).run.Ends env sid d r d' ↔
      (∃ a, work.run.Ends env sid d (.ok a) d' ∧ r = .ok ()) ∨
        ∃ e, work.run.Ends env sid d (.error e) d' ∧ r = .error (.policy e) := by
  rw [afterCommit, ExceptT.run_mk, Program.bind_eq, Program.ends_bind]
  constructor
  · rintro ⟨e | a, _, hw, rfl, rfl⟩
    · exact .inr ⟨e, hw, rfl⟩
    · exact .inl ⟨a, hw, rfl⟩
  · rintro (⟨a, hw, rfl⟩ | ⟨e, hw, rfl⟩)
    · exact ⟨.ok a, d', hw, rfl, rfl⟩
    · exact ⟨.error e, d', hw, rfl, rfl⟩

/-- What a projection makes of the answer of the engine. -/
def told : Except Policy.EngineError Bool → Except ProjectionError Unit
  | .ok _ => .ok ()
  | .error e => .error (.engine e)

/-- A call on the engine that may be refused. -/
theorem ends_engine {p : Program (Except Policy.EngineError Bool)}
    {r : Except ProjectionError Unit} :
    (engine p).run.Ends env sid d r d' ↔ ∃ o, p.Ends env sid d o d' ∧ r = told o := by
  rw [engine, ExceptT.run_mk, Program.bind_eq, Program.ends_bind]
  constructor
  · rintro ⟨e | b, _, hp, rfl, rfl⟩
    · exact ⟨.error e, hp, rfl⟩
    · exact ⟨.ok b, hp, rfl⟩
  · rintro ⟨e | b, hp, rfl⟩
    · exact ⟨.error e, d', hp, rfl, rfl⟩
    · exact ⟨.ok b, d', hp, rfl, rfl⟩

end Projecting

end AccessAdmin
