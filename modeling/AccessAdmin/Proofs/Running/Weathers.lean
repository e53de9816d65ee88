import AccessAdmin.Proofs.Running.Unfailing

/-!
# Work whose calls may fail

A fault can strike any call on the store. Work weathers such failures for a postcondition if it
meets it whichever of its calls are answered with a failure instead of being performed. Nothing is
said of which these are; that there are any is a proposition that the postcondition may speak of.

* `Program.Weathers`: the end is as wanted, whatever fails.
* `Program.Weathers.with_ends`: work that stops at a failure and ends well has met none.
* `Program.Weathers.run`: what weathered work does in a world with planned faults.
-/

namespace AccessAdmin

variable {α β ε : Type} {env : Surroundings} {s : Store.SessionId} {fails : Prop} {d : Desk}

namespace Program

/-- On the desk of a session a program ends as `C` says. If `fails` holds, any of its calls on the
store may be answered with a failure, and then does nothing. -/
def Weathers (env : Surroundings) (s : Store.SessionId) (fails : Prop) :
    Program α → (α → Desk → Prop) → Desk → Prop
  | done a, C, d => C a d
  | ask e k, C, d =>
    (∀ r d₁, d.Steps env s e r d₁ → Weathers env s fails (k r) C d₁) ∧
      (fails → ∀ r, e.Failed r → Weathers env s fails (k r) C d)
  | askBy _ _ _, _, _ => False

namespace Weathers

theorem mono {p : Program α} {C C' : α → Desk → Prop} (h : p.Weathers env s fails C d)
    (hC : ∀ a d', C a d' → C' a d') : p.Weathers env s fails C' d := by
  induction p generalizing d with
  | done a => exact hC a d h
  | ask e k ih =>
    exact ⟨fun r d₁ hs => ih r (h.1 r d₁ hs), fun hfails r hr => ih r (h.2 hfails r hr)⟩
  | askBy l e k _ => exact h.elim

theorem bind_iff {p : Program α} {f : α → Program β} {D : β → Desk → Prop} :
    (p.bind f).Weathers env s fails D d ↔
      p.Weathers env s fails (fun a d₁ => (f a).Weathers env s fails D d₁) d := by
  induction p generalizing d with
  | done a => rfl
  | ask e k ih =>
    exact and_congr (forall₃_congr fun r _ _ => ih r)
      (forall₃_congr fun _ r _ => ih r)
  | askBy l e k _ => rfl

/-! ## Steady work -/

variable {may : Effect → Prop} {bad : ε → Prop} {p : Program (Except ε α)}
  {C : Except ε α → Desk → Prop}

/-- After a failure the end is an error. -/
theorem of_fails (h : p.Weathers env s fails C d) (hp : p.Fails bad) :
    p.Weathers env s fails (fun r d' => C r d' ∧ ∃ e, r = .error e) d := by
  induction hp generalizing d with
  | error _ => exact ⟨h, _, rfl⟩
  | count _ ih => exact ⟨fun r d₁ hs => ih (h.1 r d₁ hs), fun _ _ hr => hr.elim⟩

/-- Steady work that ends without an error has met no failure, so it ends as it does when nothing
disturbs it. -/
theorem with_ends (h : p.Weathers env s fails C d) (hp : p.Steady may bad) :
    p.Weathers env s fails (fun r d' => C r d' ∧ ∀ a, r = .ok a → p.Ends env s d r d') d := by
  induction p generalizing d with
  | done r => exact ⟨h, fun _ _ => ⟨rfl, rfl⟩⟩
  | ask e k ih =>
    constructor
    · intro r d₁ hs
      refine (ih r (h.1 r d₁ hs) (hp.2.2 r)).mono fun o d' hC => ⟨hC.1, fun a ha => ?_⟩
      exact ⟨r, d₁, hs, hC.2 a ha⟩
    · intro hfails r hr
      refine (of_fails (h.2 hfails r hr) (hp.2.1 r hr)).mono fun o d' hC => ⟨hC.1, fun a ha => ?_⟩
      obtain ⟨_, he⟩ := hC.2
      cases he.symm.trans ha
  | askBy l e k _ => exact hp.elim

/-- In a world with planned faults the work is answered and ends as wanted. Something fails only if
a call on the store does. -/
theorem run {I : World MemoryStore → Prop} {v : World MemoryStore}
    (h : p.Weathers env s fails C d) (hp : p.Steady may bad) (hmay : ∀ e, may e → e.OnDesk s)
    (hk : Keeps env may I) (hv : v.At s d) (hI : I v) (F : List Fault) (T : Nat)
    (hfails : ¬World.Unfailing env p (v.disturbed F T) → fails) :
    ∃ r v' d' F' T', World.run env p (v.disturbed F T) = (some r, v'.disturbed F' T') ∧
      v'.At s d' ∧ I v' ∧ C r d' := by
  induction p generalizing v d F T with
  | done r => exact ⟨r, v, d, F, T, rfl, hv, hI, h⟩
  | ask e k ih =>
    obtain ⟨r, v₁, hs, -, hI₁⟩ := hk v e hv.faults hI hp.1
    obtain ⟨d₁, hd, hv₁⟩ := hv.step (hmay e hp.1) hs
    -- The step fails, or it does what it does undisturbed. Without a limit it cannot be late.
    obtain ⟨F₁, T₁, ⟨r', hr', hs'⟩ | ⟨hl, -⟩ | hs'⟩ :=
      World.step_disturbed hv.faults (hmay e hp.1).timeless hs F T none
    · have hyes : fails := hfails fun hall => ((World.unfailing_ask hs').mp hall).1 hr'
      obtain ⟨o, v', d', F', T', hrun, hend⟩ :=
        ih r' (h.2 hyes r' hr') (hp.2.2 r') hv hI F₁ T₁ fun _ => hyes
      refine ⟨o, v', d', F', T', ?_, hend⟩
      simp only [World.run, hs', hrun]
    · cases hl
    · obtain ⟨o, v', d', F', T', hrun, hend⟩ :=
        ih r (h.1 r d₁ hd) (hp.2.2 r) hv₁ hI₁ F₁ T₁ fun hrest =>
          hfails fun hall => hrest ((World.unfailing_ask hs').mp hall).2
      refine ⟨o, v', d', F', T', ?_, hend⟩
      simp only [World.run, hs', hrun]
  | askBy l e k _ => exact hp.elim

end Weathers

end Program

end AccessAdmin
