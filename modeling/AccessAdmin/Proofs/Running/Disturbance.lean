import AccessAdmin.Proofs.Running.Basic

/-!
# Runs that faults disturb

A disturbed world is one in which other faults are planned and another time is reached. What a
fault does to a step shows in the answer alone: the step fails or comes too late, and the world is
the one before it (`step_disturbed`); or the step does what it would have done.

* `Effect.Failed`: the answers that report a failure of the store.
* `Effect.Timeless`: the steps that neither read the time nor let it pass.
-/

namespace AccessAdmin

/-- Whether an answer reports that the store failed or refused. -/
def Effect.Failed : (e : Effect) → e.Reply → Prop
  | .openSession, .error _ => True
  | .call _ _, .error _ => True
  | .checkHealth, .error _ => True
  | _, _ => False

/-- The steps that neither read the time nor let it pass. -/
def Effect.Timeless : Effect → Prop
  | .wait _ | .elapsed => False
  | _ => True

namespace World

/-- The same world with other planned faults and another time. -/
def disturbed {σ : Type} (w : World σ) (faults : List Fault) (time : Nat) : World σ :=
  { w with faults := faults, time := time }

@[simp] theorem disturbed_store {σ : Type} (w : World σ) (F : List Fault) (T : Nat) :
    (w.disturbed F T).store = w.store := rfl

section Guarded

variable {σ : Type}

/-- A pause of a disturbed world only moves its time; without a limit it comes to its end. -/
theorem pause_disturbed (v : World σ) (F : List Fault) (T : Nat) (limit : Option Nat) (ms : Nat) :
    ∃ T', (v.disturbed F T).pause limit ms = (some (), v.disturbed F T') ∨
      (limit.isSome ∧ (v.disturbed F T).pause limit ms = (none, v.disturbed F T')) := by
  unfold pause
  cases limit with
  | none => exact ⟨T + ms, .inl rfl⟩
  | some l =>
    by_cases h : T + ms ≤ l
    · exact ⟨T + ms, .inl (if_pos h)⟩
    · exact ⟨max T l, .inr ⟨rfl, if_neg h⟩⟩

/-- A guarded call of a disturbed world: a fault makes it fail or come too late without an effect,
or it is performed in a disturbed world. -/
theorem guarded_disturbed {ρ : Type} (v : World σ) (F : List Fault) (T : Nat) (limit : Option Nat)
    {name : String} {act : World σ → Option (Except StoreError ρ) × World σ}
    {x : Option (Except StoreError ρ) × World σ}
    (hx : x = (v.disturbed F T).guarded limit name act) :
    ∃ F' T', (∃ e, x = (some (.error e), v.disturbed F' T')) ∨
      (limit.isSome ∧ x = (none, v.disturbed F' T')) ∨ x = act (v.disturbed F' T') := by
  subst hx
  rcases hs : Fault.strike name F with ⟨_ | (e | _), F'⟩
  · exact ⟨F', T, .inr (.inr (by simp only [guarded, disturbed, hs]))⟩
  · exact ⟨F', T, .inl ⟨e, by simp only [guarded, disturbed, hs]⟩⟩
  · obtain ⟨T', hp | ⟨hl, hp⟩⟩ := pause_disturbed v F' T limit Fault.hangTime
    · refine ⟨F', T', .inr (.inr ?_)⟩
      simp only [disturbed] at hp
      simp only [guarded, disturbed, hs, hp]
    · refine ⟨F', T', .inr (.inl ⟨hl, ?_⟩)⟩
      simp only [disturbed] at hp
      simp only [guarded, disturbed, hs, hp]

/-- Without planned faults a guarded call is performed. -/
theorem guarded_of_faults_nil {ρ : Type} {v : World σ} (hv : v.faults = []) (limit : Option Nat)
    (name : String) (act : World σ → Option (Except StoreError ρ) × World σ) :
    v.guarded limit name act = act v := by
  unfold guarded
  rw [hv]
  show act { v with faults := [] } = act v
  rw [← hv]

end Guarded

variable {σ : Type} [Backend σ] {env : Surroundings}

/-- A step of a disturbed world, compared with the same step without planned faults and without a
limit: it fails or comes too late and changes nothing else, or it does the same. -/
theorem step_disturbed {v v' : World σ} {e : Effect} {r : e.Reply} (hv : v.faults = [])
    (he : e.Timeless) (h : v.step env none e = (some r, v')) (F : List Fault) (T : Nat)
    (limit : Option Nat) :
    ∃ F' T',
      (∃ r', e.Failed r' ∧ (v.disturbed F T).step env limit e = (some r', v.disturbed F' T')) ∨
      (limit.isSome ∧ (v.disturbed F T).step env limit e = (none, v.disturbed F' T')) ∨
      (v.disturbed F T).step env limit e = (some r, v'.disturbed F' T') := by
  cases e with
  | openSession =>
    simp only [step, guarded_of_faults_nil hv, Prod.mk.injEq, Option.some.injEq] at h
    obtain ⟨F', T', ⟨e, he⟩ | ⟨hl, hn⟩ | ha⟩ :=
      guarded_disturbed v F T limit (x := (v.disturbed F T).step env limit .openSession)
        (by rw [step])
    · exact ⟨F', T', .inl ⟨.error e, trivial, he⟩⟩
    · exact ⟨F', T', .inr (.inl ⟨hl, hn⟩)⟩
    · refine ⟨F', T', .inr (.inr (ha.trans ?_))⟩
      rw [← h.1, ← h.2]
      rfl
  | call s c =>
    simp only [step, guarded_of_faults_nil hv] at h
    obtain ⟨F', T', ⟨e, he⟩ | ⟨hl, hn⟩ | ha⟩ :=
      guarded_disturbed v F T limit (x := (v.disturbed F T).step env limit (.call s c))
        (by rw [step])
    · exact ⟨F', T', .inl ⟨.error e, trivial, he⟩⟩
    · exact ⟨F', T', .inr (.inl ⟨hl, hn⟩)⟩
    · refine ⟨F', T', .inr (.inr (ha.trans ?_))⟩
      simp only [disturbed_store]
      rcases hc : Backend.call v.store s c with ⟨_ | _, store⟩
      · simp only [hc, Prod.mk.injEq, Option.some.injEq] at h
        rw [← h.1, ← h.2]
        rfl
      · simp only [hc, Prod.mk.injEq, reduceCtorEq, false_and] at h
  | checkHealth =>
    simp only [step, guarded_of_faults_nil hv, Prod.mk.injEq, Option.some.injEq] at h
    obtain ⟨F', T', ⟨e, he⟩ | ⟨hl, hn⟩ | ha⟩ :=
      guarded_disturbed v F T limit (x := (v.disturbed F T).step env limit .checkHealth)
        (by rw [step])
    · exact ⟨F', T', .inl ⟨.error e, trivial, he⟩⟩
    · exact ⟨F', T', .inr (.inl ⟨hl, hn⟩)⟩
    · refine ⟨F', T', .inr (.inr (ha.trans ?_))⟩
      rw [← h.1, ← h.2]
      rfl
  | wait _ | elapsed => exact he.elim
  | closeSession _ | inTransaction _ | policy _ | readClock | freshId _ _ | freshSalt | count _
  | note _ =>
    obtain ⟨hr, rfl⟩ := Prod.mk.inj h
    exact ⟨F, T, .inr (.inr (Prod.ext hr rfl))⟩

/-- Without planned faults a limit does not matter to a step that is answered. -/
theorem step_limit {v v' : World σ} {e : Effect} {r : e.Reply} (hv : v.faults = [])
    (he : e.Timeless) (h : v.step env none e = (some r, v')) (limit : Option Nat) :
    v.step env limit e = (some r, v') := by
  cases e with
  | call s c =>
    simp only [step, guarded_of_faults_nil hv] at h ⊢
    rcases hc : Backend.call v.store s c with ⟨_ | _, store⟩
    · simpa only [hc] using h
    · simp only [hc, Prod.mk.injEq, reduceCtorEq, false_and] at h
  | openSession | checkHealth =>
    simp only [step, guarded_of_faults_nil hv] at h ⊢
    exact h
  | wait _ | elapsed => exact he.elim
  | closeSession _ | inTransaction _ | policy _ | readClock | freshId _ _ | freshSalt | count _
  | note _ =>
    exact h

end World

end AccessAdmin
