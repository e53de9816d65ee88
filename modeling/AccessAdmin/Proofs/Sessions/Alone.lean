import AccessAdmin.Proofs.Sessions.Atomicity

/-!
# A session that a world serves

A world runs the program of a session alone: calls may hang as planned, and the deadline then cuts
the program short. Such a run is one among other sessions, of which none acts.

* `Program.OfSession`: programs that do nothing but call the store on a session.
* `Program.among_of_run`: what a world makes of them.
* `Work.transaction_run`: a transaction that a world runs is atomic.
-/

namespace AccessAdmin

open Store

/-! ## Programs of a session -/

/-- A step of session `s` on the store. -/
def Effect.OfSession (s : SessionId) : Effect → Prop
  | .call s' _ | .inTransaction s' => s' = s
  | _ => False

/-- A program of steps of session `s` on the store. -/
def Program.OfSession {α : Type} (s : SessionId) : Program α → Prop
  | done _ => True
  | ask e k => e.OfSession s ∧ ∀ r, (k r).OfSession s
  | askBy _ e k => e.OfSession s ∧ ∀ r, (k r).OfSession s

variable {α β : Type} {ctx : Context}

namespace Program

variable {s : SessionId}

theorem OfSession.bind {p : Program α} {f : α → Program β} (hp : p.OfSession s)
    (hf : ∀ a, (f a).OfSession s) : (p.bind f).OfSession s := by
  induction p with
  | done a => exact hf a
  | ask e k ih | askBy l e k ih => exact ⟨hp.1, fun r => ih r (hp.2 r)⟩

theorem OfSession.within {p : Program α} (hp : p.OfSession s) (l : Nat) :
    (p.within l).OfSession s := by
  induction p with
  | done a => trivial
  | ask e k ih =>
    rw [Program.within]
    refine ⟨hp.1, fun r => ?_⟩
    cases r with
    | none => trivial
    | some r => exact ih r (hp.2 r)
  | askBy l' e k ih =>
    rw [Program.within]
    split
    · exact ⟨hp.1, fun r => ih r (hp.2 r)⟩
    · refine ⟨hp.1, fun r => ?_⟩
      cases r with
      | none => trivial
      | some r => exact ih (some r) (hp.2 (some r))

theorem OfSession.limited {p : Program α} (hp : p.OfSession s) : (ctx.limited p).OfSession s := by
  unfold Context.limited
  cases ctx.deadline with
  | none =>
    rw [map_eq_pure_bind, Program.bind_eq]
    exact hp.bind fun _ => trivial
  | some d => exact hp.within d

end Program

theorem Context.ofSession_transaction {s : Session} {work : Service α}
    (h : work.run.OfSession s.id) : (ctx.transaction s work).run.OfSession s.id := by
  have hbegin : (ctx.bounded (Service.ofStore (s.call .begin))).run.OfSession s.id := by
    rw [Context.bounded, ExceptT.run_mk, Program.bind_eq, run_ofStore]
    refine Program.OfSession.bind (Program.OfSession.limited ⟨rfl, fun _ => trivial⟩) fun o => ?_
    cases o <;> trivial
  have hsettle (o : Option (Except ServiceError α)) : (settle s o).run.OfSession s.id := by
    obtain _ | _ | a := o
    · exact ⟨rfl, fun _ => trivial⟩
    · exact ⟨rfl, fun _ => trivial⟩
    · rw [settle, run_commit]
      exact ⟨rfl, fun _ => trivial⟩
  rw [transaction_eq]
  refine ⟨rfl, fun b => ?_⟩
  cases b with
  | true => exact h
  | false =>
    show (ctx.bounded (Service.ofStore (s.call .begin)) >>= fun _ =>
      ctx.worked s work).run.OfSession s.id
    rw [ExceptT.run_bind, Program.bind_eq]
    refine hbegin.bind fun o => ?_
    cases o with
    | error _ => trivial
    | ok _ =>
      show (ctx.worked s work).run.OfSession s.id
      rw [Context.worked, ExceptT.run_bind_lift, Program.bind_eq]
      exact h.limited.bind hsettle

theorem Work.ofSession (s : Session) (work : Work α) : (work.program s).OfSession s.id := by
  induction work with
  | done r => trivial
  | read q k ih | write w k ih => exact ⟨rfl, ih⟩
  | nested ctx inner k ihinner ihk =>
    exact (Context.ofSession_transaction ihinner).bind ihk

/-- The step of a session is recorded as its own act. -/
theorem session_taken {s : SessionId} {st st' : Shared} {e : Effect} {r : e.Reply}
    {own : List Entry} (h : st.Taken s e r own st') : ∀ x ∈ own, x.act.session = s := by
  cases e with
  | call s' c =>
    obtain ⟨rfl, -, rfl⟩ := h
    exact fun x hx => List.mem_singleton.mp hx ▸ rfl
  | inTransaction s' =>
    obtain ⟨-, -, rfl, -⟩ := h
    exact fun x hx => (nomatch hx)
  | openSession | closeSession _ | checkHealth | policy _ | wait _ | elapsed | readClock
  | freshId _ _ | freshSalt | count _ | note _ => exact h.elim

/-! ## Runs of a world -/

/-- A plan under which calls may hang, but none fails. -/
def Fault.OnlyHangs (faults : List Fault) : Prop := ∀ f ∈ faults, f.damage = .hang

theorem Fault.OnlyHangs.strike {faults : List Fault} (h : OnlyHangs faults) (name : String) :
    ((Fault.strike name faults).1 = none ∨ (Fault.strike name faults).1 = some .hang) ∧
      OnlyHangs (Fault.strike name faults).2 := by
  induction faults with
  | nil => exact ⟨.inl rfl, h⟩
  | cons f rest ih =>
    obtain ⟨hf, hrest⟩ := List.forall_mem_cons.mp h
    obtain ⟨hdamage, hleft⟩ := ih hrest
    rw [Fault.strike]
    split
    · split
      · exact ⟨.inr (congrArg some hf), List.forall_mem_cons.mpr ⟨hf, hrest⟩⟩
      · exact ⟨hdamage, List.forall_mem_cons.mpr ⟨hf, hleft⟩⟩
    · exact ⟨hdamage, List.forall_mem_cons.mpr ⟨hf, hleft⟩⟩

theorem Store.Shared.call_blocked {st : Shared} {s : SessionId} {c : Call}
    (h : (st.call s c).1 = .blocked) : (st.call s c).2 = st := by
  cases c with
  | begin | commit =>
    simp only [Shared.call] at h ⊢
    cases hw : st.writer with
    | none => simp only [hw, reduceCtorEq] at h
    | some w =>
      simp only [hw] at h ⊢
      split at h
      · cases h
      · rename_i hne
        simp only [hne, ↓reduceIte]
  | rollback =>
    simp only [Shared.call] at h
    split at h <;> cases h
  | read q =>
    simp only [Shared.call] at h ⊢
    split at h
    · simp only
    · cases h
  | write w =>
    simp only [Shared.call] at h ⊢
    split at h
    · simp only
    · split at h <;> cases h

variable {env : Surroundings} {s : SessionId} {v v' : World MemoryStore}

theorem World.pause_eq {limit : Option Nat} {ms : Nat} {o : Option Unit}
    (h : v.pause limit ms = (o, v')) : ∃ time, v' = { v with time := time } := by
  cases limit with
  | none =>
    obtain ⟨-, rfl⟩ := Prod.mk.inj h
    exact ⟨_, rfl⟩
  | some l =>
    rw [World.pause] at h
    split at h <;>
    · obtain ⟨-, rfl⟩ := Prod.mk.inj h
      exact ⟨_, rfl⟩

/-- A call that may hang is cut short by the time limit, or gets to the store later. -/
theorem World.guarded_cases (hf : Fault.OnlyHangs v.faults) {limit : Option Nat} {name : String}
    {ρ : Type} {act : World MemoryStore → Option (Except StoreError ρ) × World MemoryStore}
    {o : Option (Except StoreError ρ)} (h : v.guarded limit name act = (o, v')) :
    ∃ faults time, Fault.OnlyHangs faults ∧
      (act { v with faults := faults, time := time } = (o, v') ∨
        o = none ∧ v' = { v with faults := faults, time := time }) := by
  obtain ⟨hdamage, hleft⟩ := hf.strike name
  rw [World.guarded] at h
  generalize Fault.strike name v.faults = struck at h hdamage hleft
  obtain ⟨damage, faults⟩ := struck
  obtain rfl | rfl : damage = none ∨ damage = some .hang := hdamage
  · exact ⟨faults, v.time, hleft, .inl h⟩
  · cases hpause : World.pause { v with faults := faults } limit Fault.hangTime with
    | mk passed v₁ =>
      obtain ⟨time, rfl⟩ := World.pause_eq hpause
      simp only [hpause] at h
      cases passed with
      | some _ => exact ⟨faults, time, hleft, .inl h⟩
      | none =>
        obtain ⟨rfl, rfl⟩ := Prod.mk.inj h
        exact ⟨faults, time, hleft, .inr ⟨rfl, rfl⟩⟩

/-- A call that may hang: it is cut short without an effect, or answered by the store. -/
theorem World.step_call (hf : Fault.OnlyHangs v.faults) {limit : Option Nat} {c : Call}
    {o : Option (Except StoreError c.Reply)} (h : v.step env limit (.call s c) = (o, v')) :
    Fault.OnlyHangs v'.faults ∧ ((o = none ∧ v'.store.shared = v.store.shared) ∨
      ∃ r, o = some r ∧ v.store.shared.call s c = (.answered r, v'.store.shared)) := by
  rw [World.step] at h
  obtain ⟨faults, time, hleft, h | ⟨rfl, rfl⟩⟩ := World.guarded_cases hf h
  · simp only [Backend.call] at h
    cases hc : v.store.shared.call s c with
    | mk a shared =>
      rw [hc] at h
      cases a with
      | answered r =>
        obtain ⟨rfl, rfl⟩ := Prod.mk.inj h
        exact ⟨hleft, .inr ⟨r, rfl, rfl⟩⟩
      | blocked =>
        obtain ⟨rfl, rfl⟩ := Prod.mk.inj h
        have hsame := Shared.call_blocked (congrArg Prod.fst hc)
        rw [hc] at hsame
        exact ⟨hleft, .inl ⟨rfl, hsame⟩⟩
  · exact ⟨hleft, .inl ⟨rfl, rfl⟩⟩

/-- A step of a session in a world. -/
theorem World.step_ofSession (hf : Fault.OnlyHangs v.faults) {limit : Option Nat} {e : Effect}
    (he : e.OfSession s) {o : Option e.Reply} (h : v.step env limit e = (o, v')) :
    Fault.OnlyHangs v'.faults ∧ ((o = none ∧ v'.store.shared = v.store.shared) ∨
      ∃ r own, o = some r ∧ v.store.shared.Taken s e r own v'.store.shared) := by
  cases e with
  | call s' c =>
    obtain rfl : s' = s := he
    obtain ⟨hleft, hcut | ⟨r, rfl, hcall⟩⟩ := World.step_call hf h
    · exact ⟨hleft, .inl hcut⟩
    · exact ⟨hleft, .inr ⟨r, _, rfl, rfl, hcall, rfl⟩⟩
  | inTransaction s' =>
    obtain rfl : s' = s := he
    obtain ⟨rfl, rfl⟩ := Prod.mk.inj h
    exact ⟨hf, .inr ⟨_, [], rfl, rfl, rfl, rfl, rfl⟩⟩
  | openSession | closeSession _ | checkHealth | policy _ | wait _ | elapsed | readClock
  | freshId _ _ | freshSalt | count _ | note _ => exact he.elim

/-- What a world makes of a program of one session is what the program comes to among other
sessions, of which none acts. -/
theorem Program.among_of_run {p : Program α} {a : α} (hp : p.OfSession s)
    (hf : Fault.OnlyHangs v.faults) (h : World.run env p v = (some a, v')) :
    ∃ log, p.Among s v.store.shared log a v'.store.shared ∧ ∀ e ∈ log, e.act.session = s := by
  induction p generalizing v with
  | done b =>
    obtain ⟨hb, rfl⟩ := Prod.mk.inj h
    exact ⟨[], ⟨(Option.some.inj hb).symm, others_nil⟩, fun _ he => (nomatch he)⟩
  | ask e k ih =>
    rw [World.run] at h
    cases hstep : v.step env none e with
    | mk o v₁ =>
      rw [hstep] at h
      obtain ⟨hleft, ⟨rfl, -⟩ | ⟨r, own, rfl, htaken⟩⟩ := World.step_ofSession hf hp.1 hstep
      · cases h
      · obtain ⟨rest, hrest, hall⟩ := ih r (hp.2 r) hleft h
        refine ⟨own ++ rest, ⟨[], _, r, own, _, rest, others_nil, htaken, hrest, rfl⟩, ?_⟩
        exact List.forall_mem_append.mpr ⟨session_taken htaken, hall⟩
  | askBy l e k ih =>
    rw [World.run] at h
    cases hstep : v.step env (some l) e with
    | mk o v₁ =>
      rw [hstep] at h
      obtain ⟨hleft, hcut⟩ := World.step_ofSession hf hp.1 hstep
      obtain ⟨rest, hrest, hall⟩ := ih o (hp.2 o) hleft h
      obtain ⟨rfl, hsame⟩ | ⟨r, own, rfl, htaken⟩ := hcut
      · rw [hsame] at hrest
        exact ⟨rest, ⟨[], _, none, [], _, rest, others_nil, .inl ⟨rfl, rfl, rfl⟩, hrest, rfl⟩, hall⟩
      · refine ⟨own ++ rest, ⟨[], _, some r, own, _, rest, others_nil, .inr ⟨r, rfl, htaken⟩, hrest,
          rfl⟩, ?_⟩
        exact List.forall_mem_append.mpr ⟨session_taken htaken, hall⟩

/-! ## Transactions that a world runs -/

theorem others_alone {st st' : Shared} {log : List Entry} (h : Others s st log st')
    (hall : ∀ e ∈ log, e.act.session = s) : log = [] ∧ st' = st := by
  cases log with
  | nil => exact ⟨rfl, ((Replays.nil st).unique h.2).symm⟩
  | cons e rest => exact absurd (hall e (.head _)) (h.1 e (.head _))

theorem Enclosed.alone {st st₁ st' : Shared} {before during after : List Entry} {found : Tables}
    {e : Entry} (h : Enclosed s st before found during) (hafter : Others s st₁ after st')
    (hall : ∀ x ∈ before ++ .began s :: (during ++ e :: after), x.act.session = s) :
    st = ⟨found, none⟩ ∧ st' = st₁ := by
  obtain ⟨hbefore, hrest⟩ := List.forall_mem_append.mp hall
  obtain ⟨-, hlast⟩ := List.forall_mem_append.mp (List.forall_mem_cons.mp hrest).2
  exact ⟨(others_alone h.before hbefore).2.symm,
    (others_alone hafter (List.forall_mem_cons.mp hlast).2).2⟩

/-- When nobody else acts, what a transaction finds is what was in force, and what is in force
afterwards is what it left. -/
theorem Atomic.alone {deadline : Prop} {outcome : Tables → Except ServiceError α × Tables}
    {found : Tables} {log : List Entry} {r : Except ServiceError α} {st' : Shared}
    (h : Atomic s deadline outcome ⟨found, none⟩ log r st')
    (hall : ∀ e ∈ log, e.act.session = s) :
    (r = .error .cancelled ∧ deadline ∧ st' = ⟨found, none⟩) ∨
    (∃ a t, outcome found = (.ok a, t) ∧ r = .ok a ∧ st' = ⟨t, none⟩) ∨
    ∃ e t, outcome found = (.error e, t) ∧ r = .error e ∧ st' = ⟨found, none⟩ := by
  cases h with
  | gaveUp hd hothers => exact .inl ⟨rfl, hd, (others_alone hothers hall).2⟩
  | committed henclosed hcame hafter =>
    obtain ⟨hfound, rfl⟩ := henclosed.alone hafter hall
    obtain rfl := congrArg Shared.tables hfound
    exact .inr (.inl ⟨_, _, hcame, rfl, rfl⟩)
  | failed henclosed hcame hafter =>
    obtain ⟨hfound, rfl⟩ := henclosed.alone hafter hall
    obtain rfl := congrArg Shared.tables hfound
    exact .inr (.inr ⟨_, _, hcame, rfl, rfl⟩)
  | cancelled henclosed hd hafter =>
    obtain ⟨hfound, rfl⟩ := henclosed.alone hafter hall
    obtain rfl := congrArg Shared.tables hfound
    exact .inl ⟨rfl, hd, rfl⟩

/-- A transaction that a world runs while nobody has one open puts in force all of its work or
nothing, wherever a call that hangs makes it miss its deadline. -/
theorem Work.transaction_run {session : Session} {work : Work α} {found : Tables}
    {r : Except ServiceError α} (hstore : v.store.shared = ⟨found, none⟩)
    (hf : Fault.OnlyHangs v.faults)
    (h : World.run env (ctx.transaction session (work.service session)).run v = (some r, v')) :
    (r = .error .cancelled ∧ ctx.deadline.isSome ∧ v'.store.shared = ⟨found, none⟩) ∨
    (∃ a t, work.eval found = (.ok a, t) ∧ r = .ok a ∧ v'.store.shared = ⟨t, none⟩) ∨
    ∃ e t, work.eval found = (.error e, t) ∧ r = .error e ∧ v'.store.shared = ⟨found, none⟩ := by
  obtain ⟨log, hamong, hall⟩ :=
    Program.among_of_run (Context.ofSession_transaction (work.ofSession session)) hf h
  rw [hstore] at hamong
  exact (transaction_comes_out rfl hamong).alone hall

end AccessAdmin
