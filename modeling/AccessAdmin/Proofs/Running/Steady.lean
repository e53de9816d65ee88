import AccessAdmin.Proofs.Running.Disturbance

/-!
# Steady programs

A steady program stops as soon as the store fails: it ends with an error and does nothing more but
count. It also takes only steps of given kinds, and ends only with errors of a given sort. All the
work that services do inside and after their transactions is steady, so a fault that strikes it
shows in its answer, and an answer without an error is the one of the undisturbed run.

* `Program.Steady`: the predicate, which is kept by sequencing (`Program.Steady.bind`).
* `Program.Steady.run`: an undisturbed run ends, and keeps what each single step keeps.
* `Program.Steady.run_disturbed`: a disturbed run under a deadline is late, ends with an error, or
  does what the undisturbed run does.
-/

namespace AccessAdmin

namespace Program

variable {ε ε' α β : Type}

/-- What is left of a program after a failure: counting, and an end with an error of a sort. -/
inductive Fails (bad : ε → Prop) : Program (Except ε α) → Prop where
  | error {e : ε} : bad e → Fails bad (done (.error e))
  | count {e : Event} {k : Unit → Program (Except ε α)} :
      Fails bad (k ()) → Fails bad (ask (.count e) k)

/-- A program that takes only the steps `may`, ends with errors of the sort `bad` only, and fails
as soon as one of its steps reports a failure. -/
def Steady (may : Effect → Prop) (bad : ε → Prop) : Program (Except ε α) → Prop
  | done r => ∀ e, r = .error e → bad e
  | ask e k => may e ∧ (∀ r, e.Failed r → Fails bad (k r)) ∧ ∀ r, Steady may bad (k r)
  | askBy _ _ _ => False

variable {may : Effect → Prop} {bad : ε → Prop} {bad' : ε' → Prop}

theorem Fails.steady (hcount : ∀ e, may (.count e)) {p : Program (Except ε α)}
    (h : p.Fails bad) : p.Steady may bad := by
  induction h with
  | error he => rintro _ ⟨⟩; exact he
  | @count e k _ ih => exact ⟨hcount e, fun _ hf => hf.elim, fun _ => ih⟩

theorem Fails.bind {f : Except ε α → Program (Except ε' β)}
    (hf : ∀ e, bad e → Fails bad' (f (.error e))) {p : Program (Except ε α)} (h : p.Fails bad) :
    (p.bind f).Fails bad' := by
  induction h with
  | error he => exact hf _ he
  | count _ ih => exact .count ih

/-- Sequencing keeps steadiness if what follows an error fails. -/
theorem Steady.bind (hcount : ∀ e, may (.count e)) {f : Except ε α → Program (Except ε' β)}
    (hok : ∀ a, Steady may bad' (f (.ok a))) (herr : ∀ e, bad e → Fails bad' (f (.error e)))
    {p : Program (Except ε α)} (hp : p.Steady may bad) : (p.bind f).Steady may bad' := by
  induction p with
  | done r =>
    cases r with
    | ok a => exact hok a
    | error e => exact (herr e (hp e rfl)).steady hcount
  | ask e k ih => exact ⟨hp.1, fun r hr => (hp.2.1 r hr).bind herr, fun r => ih r (hp.2.2 r)⟩
  | askBy l e k _ => exact hp.elim

/-! ## Runs -/

/-- The steps `may` are answered in a world that meets `I`, and leave it so. -/
def Keeps (env : Surroundings) (may : Effect → Prop) (I : World MemoryStore → Prop) : Prop :=
  ∀ v e, v.faults = [] → I v → may e →
    ∃ r v', v.step env none e = (some r, v') ∧ v'.faults = [] ∧ I v'

variable {env : Surroundings} {I : World MemoryStore → Prop} {v : World MemoryStore}

/-- An undisturbed run ends, under a deadline as without one. -/
theorem Steady.run {p : Program (Except ε α)} (hp : p.Steady may bad) (hk : Keeps env may I)
    (ht : ∀ e, may e → e.Timeless) (hv : v.faults = []) (hI : I v) :
    ∃ r v', World.run env p v = (some r, v') ∧
      (∀ ctx : Context, World.run env (ctx.limited p) v = (some (some r), v')) ∧
      v'.faults = [] ∧ I v' ∧ ∀ e, r = .error e → bad e := by
  induction p generalizing v with
  | done r => exact ⟨r, v, rfl, fun ctx => World.run_limited_done ctx r v, hv, hI, hp⟩
  | ask e k ih =>
    obtain ⟨r, v₁, hs, hv₁, hI₁⟩ := hk v e hv hI hp.1
    obtain ⟨r', v', hr, hl, h⟩ := ih r (hp.2.2 r) hv₁ hI₁
    refine ⟨r', v', ?_, fun ctx => ?_, h⟩
    · simp only [World.run, hs, hr]
    · rw [World.run_limited_ask, World.step_limit hv (ht e hp.1) hs]
      exact hl ctx
  | askBy l e k _ => exact hp.elim

/-- A program that has failed ends with an error of its sort, also under a deadline and with
planned faults. -/
theorem Fails.run_limited {p : Program (Except ε α)} (h : p.Fails bad) (hk : Keeps env may I)
    (hcount : ∀ e, may (.count e)) (hv : v.faults = []) (hI : I v) (ctx : Context)
    (F : List Fault) (T : Nat) :
    ∃ e v', World.run env (ctx.limited p) (v.disturbed F T) =
        (some (some (.error e)), v'.disturbed F T) ∧ v'.faults = [] ∧ I v' ∧ bad e := by
  induction h generalizing v with
  | @error e he => exact ⟨e, v, World.run_limited_done ctx _ _, hv, hI, he⟩
  | @count c k _ ih =>
    obtain ⟨_, v₁, hs, hv₁, hI₁⟩ := hk v (.count c) hv hI (hcount c)
    obtain ⟨-, rfl⟩ := Prod.mk.inj hs
    obtain ⟨e, v', hr, h⟩ := ih hv₁ hI₁
    exact ⟨e, v', (World.run_limited_ask ctx (.count c) k (v.disturbed F T)).trans hr, h⟩

/-- A disturbed run under a deadline: the deadline passes, the program ends with an error of its
sort, or it ends as the undisturbed run does. -/
theorem Steady.run_disturbed {p : Program (Except ε α)} (hp : p.Steady may bad)
    (hk : Keeps env may I) (ht : ∀ e, may e → e.Timeless) (hcount : ∀ e, may (.count e))
    (hv : v.faults = []) (hI : I v) (ctx : Context) (F : List Fault) (T : Nat) :
    ∃ r v' F' T', World.run env (ctx.limited p) (v.disturbed F T) = (some r, v'.disturbed F' T') ∧
      v'.faults = [] ∧ I v' ∧
      (r = none ∨ (∃ e, r = some (.error e) ∧ bad e) ∨
        ∃ a, r = some (.ok a) ∧ World.run env p v = (some (.ok a), v')) := by
  induction p generalizing v F T with
  | done r =>
    refine ⟨some r, v, F, T, World.run_limited_done ctx r _, hv, hI, .inr ?_⟩
    cases r with
    | error e => exact .inl ⟨e, rfl, hp e rfl⟩
    | ok a => exact .inr ⟨a, rfl, rfl⟩
  | ask e k ih =>
    obtain ⟨r, v₁, hs, hv₁, hI₁⟩ := hk v e hv hI hp.1
    -- The step fails, or the deadline passes in it, or it does what it does undisturbed.
    obtain ⟨F₁, T₁, ⟨r', hf, hs'⟩ | ⟨hl, hs'⟩ | hs'⟩ :=
      World.step_disturbed hv (ht e hp.1) hs F T ctx.deadline
    · obtain ⟨e', v', hr, hv', hI', hbad⟩ :=
        (hp.2.1 r' hf).run_limited hk hcount hv hI ctx F₁ T₁
      refine ⟨some (.error e'), v', F₁, T₁, ?_, hv', hI', .inr (.inl ⟨e', rfl, hbad⟩)⟩
      rw [World.run_limited_ask, hs']
      exact hr
    · refine ⟨none, v, F₁, T₁, ?_, hv, hI, .inl rfl⟩
      rw [World.run_limited_ask, hs']
      simp only [hl, ↓reduceIte]
    · obtain ⟨r', v', F', T', hr, hv', hI', hend⟩ := ih r (hp.2.2 r) hv₁ hI₁ F₁ T₁
      refine ⟨r', v', F', T', ?_, hv', hI', ?_⟩
      · rw [World.run_limited_ask, hs']
        exact hr
      · simpa only [World.run, hs] using hend
  | askBy l e k _ => exact hp.elim

end Program

end AccessAdmin
