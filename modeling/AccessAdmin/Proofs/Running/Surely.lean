import AccessAdmin.Proofs.Running.Desk
import AccessAdmin.Proofs.Running.Disturbance

/-!
# Work whose calls go through

Work on a desk is sure of a postcondition if it meets it whatever the clock shows, and if on the way
to it the store refuses nothing. The store may have to refuse a change for another row with its key;
work that looks first, and asks for changes only that its tables admit, is sure of all of them. A
service may still end with an error of its own.

* `Program.Surely`: every call on the store goes through, and the end is as wanted.
* `Program.Unfailing`: every call on the store goes through.
* `Surely.ends`: what `Program.Ends` says of such work.
* `surely_*_then`: one rule for each kind of step.
-/

namespace AccessAdmin

variable {α β : Type} {env : Surroundings} {s : Store.SessionId} {d d' : Desk}

namespace Program

/-- On the desk of a session a program makes only calls on the store that go through, and ends as
`C` says. -/
def Surely (env : Surroundings) (s : Store.SessionId) :
    Program α → (α → Desk → Prop) → Desk → Prop
  | done a, C, d => C a d
  | ask e k, C, d => ∀ r d₁, d.Steps env s e r d₁ → ¬e.Failed r ∧ Surely env s (k r) C d₁
  | askBy _ _ _, _, _ => False

/-- On the desk of a session a program makes only calls on the store that go through. -/
def Unfailing (env : Surroundings) (s : Store.SessionId) (p : Program α) (d : Desk) : Prop :=
  p.Surely env s (fun _ _ => True) d

namespace Surely

variable {p : Program α} {f : α → Program β} {C C' : α → Desk → Prop} {D : β → Desk → Prop}

theorem mono (h : p.Surely env s C d) (hC : ∀ a d', C a d' → C' a d') : p.Surely env s C' d := by
  induction p generalizing d with
  | done a => exact hC a d h
  | ask e k ih =>
    intro r d₁ hs
    obtain ⟨hr, hk⟩ := h r d₁ hs
    exact ⟨hr, ih r hk⟩
  | askBy l e k _ => exact h.elim

theorem unfailing (h : p.Surely env s C d) : p.Unfailing env s d :=
  h.mono fun _ _ _ => trivial

/-- What it comes to is as wanted. -/
theorem ends {a : α} (h : p.Surely env s C d) (he : p.Ends env s d a d') : C a d' := by
  induction p generalizing d with
  | done b =>
    obtain ⟨rfl, rfl⟩ := he
    exact h
  | ask e k ih =>
    obtain ⟨r, d₁, hs, hk⟩ := he
    exact ih r (h r d₁ hs).2 hk
  | askBy l e k _ => exact h.elim

theorem bind_iff :
    (p.bind f).Surely env s D d ↔ p.Surely env s (fun a d₁ => (f a).Surely env s D d₁) d := by
  induction p generalizing d with
  | done a => rfl
  | ask e k ih =>
    simp only [Program.bind, Surely]
    exact forall₃_congr fun r d₁ _ => and_congr_right fun _ => ih r
  | askBy l e k _ => rfl

end Surely

end Program

/-! ## Programs that may end with an error -/

namespace Service

variable {x : Service α} {f : α → Service β} {C : Except ServiceError β → Desk → Prop}

/-- One after the other; an error of the first part is the end. -/
theorem surely_seq : (x >>= f).run.Surely env s C d ↔
    x.run.Surely env s (fun r d₁ =>
      match r with
      | .ok a => (f a).run.Surely env s C d₁
      | .error e => C (.error e) d₁) d := by
  rw [ExceptT.run_bind, Program.bind_eq, Program.Surely.bind_iff]
  constructor <;> intro h <;> refine h.mono fun r d₁ h => ?_ <;> cases r <;> exact h

/-- What follows a step of one answer that leaves the desk alone. -/
theorem surely_step_then {e : Effect} {f : e.Reply → Service β} (hfail : ∀ r, ¬e.Failed r)
    (hsteps : ∀ r d₁, d.Steps env s e r d₁ → d₁ = d)
    (h : ∀ r, d.Steps env s e r d → (f r).run.Surely env s C d) :
    (Service.perform e >>= f).run.Surely env s C d := by
  rw [surely_seq]
  intro r d₁ hs
  obtain rfl := hsteps r d₁ hs
  exact ⟨hfail r, h r hs⟩

theorem surely_freshId_then {kind : Kind} {f : String → Service β}
    (h : (f (env.idName kind (MemoryStore.createdOf d.tables kind + 1))).run.Surely env s C d) :
    (Service.perform (.freshId s kind) >>= f).run.Surely env s C d :=
  surely_step_then (fun _ h => h) (fun _ _ hs => hs.2.2) fun r hs => by
    obtain ⟨-, rfl, -⟩ := hs
    exact h

theorem surely_readClock_then {f : Timestamp → Service β}
    (h : ∀ now, (f now).run.Surely env s C d) :
    (Service.perform .readClock >>= f).run.Surely env s C d :=
  surely_step_then (fun _ h => h) (fun _ _ hs => hs) fun now _ => h now

theorem surely_count_then {e : Event} {f : Unit → Service β} (h : (f ()).run.Surely env s C d) :
    (Service.perform (.count e) >>= f).run.Surely env s C d :=
  surely_step_then (fun _ h => h) (fun _ _ hs => hs) fun _ _ => h

end Service

namespace Session

variable {s : Session} {f : Unit → Service β} {C : Except ServiceError β → Desk → Prop}

theorem surely_ask_then {q : Store.Read} [q.Fits] {f : q.Reply → Service β} :
    (s.ask q >>= f).run.Surely env s.id C d ↔ (f (d.tables.ask q)).run.Surely env s.id C d := by
  rw [Service.surely_seq]
  constructor
  · intro h
    exact (h (.ok (d.tables.ask q)) d ⟨rfl, (Store.Tables.answer_fits ..).symm, rfl⟩).2
  · rintro h r d₁ ⟨-, hr, rfl⟩
    rw [Store.Tables.answer_fits] at hr
    obtain rfl := hr
    exact ⟨fun hf => hf, h⟩

/-- A change that the tables admit. -/
theorem surely_change_then {w : Store.Write} {t : Store.Tables} (hw : d.tables.apply w = .ok t)
    (h : (f ()).run.Surely env s.id C { d with tables := t }) :
    (s.change w >>= f).run.Surely env s.id C d := by
  rw [Service.surely_seq]
  rintro r d₁ ⟨-, ⟨t', ht', rfl, rfl⟩ | ⟨e, he, -⟩⟩
  · obtain rfl := Except.ok.inj (hw.symm.trans ht')
    exact ⟨fun hf => hf, h⟩
  · rw [hw] at he
    cases he

/-- Changes that the tables admit one after the other. -/
theorem surely_changeAll_then {ws : List Store.Write} {t : Store.Tables}
    (hws : d.tables.applyAll ws = .ok t)
    (h : (f ()).run.Surely env s.id C { d with tables := t }) :
    (s.changeAll ws >>= f).run.Surely env s.id C d := by
  induction ws generalizing d with
  | nil =>
    obtain rfl := Except.ok.inj hws
    rw [changeAll, pure_bind]
    exact h
  | cons w ws ih =>
    rw [Store.Tables.applyAll] at hws
    cases hw : d.tables.apply w with
    | ok t₁ =>
      simp only [hw] at hws
      rw [changeAll, bind_assoc]
      exact surely_change_then hw (ih hws h)
    | error e => simp only [hw, reduceCtorEq] at hws

end Session

end AccessAdmin
