import AccessAdmin.Proofs.Running.Disturbance
import Mathlib.Data.List.Forall2

/-!
# Runs that differ in the texts of failures

A failure of the store has a kind and, where the store itself failed, a text of its own. Two plans
of faults are alike if they strike the same calls with the same kinds of failures, whatever the
texts. Run under such plans, a program is answered alike, so what it comes to can only differ in
what it takes over from the texts.

* `StoreError.Alike`, `Fault.Alike`, `World.Alike`: errors, plans and worlds but for the texts.
* `Program.Alike`: two programs that, answered alike, ask for the same steps and end in related
  values.
* `World.Alike.step`, `World.Alike.run`: what one step and a whole run preserve.
* `Program.Storeless.alike`: a program that asks nothing of the store is like itself.
-/

namespace AccessAdmin

variable {α β γ δ ε ρ σ : Type}

/-! ## Errors but for their texts -/

/-- Failures of the store of one kind. What names a row is the same; the text of a failure of the
store itself may be another. -/
inductive StoreError.Alike : StoreError → StoreError → Prop where
  | notFound (what : String) : Alike (.notFound what) (.notFound what)
  | conflict (what : String) : Alike (.conflict what) (.conflict what)
  | transaction (state state' : String) : Alike (.transaction state) (.transaction state')
  | unexpected (text text' : String) : Alike (.unexpected text) (.unexpected text')
  | overflow : Alike .overflow .overflow

theorem StoreError.Alike.refl (e : StoreError) : e.Alike e := by
  cases e with
  | notFound what => exact .notFound what
  | conflict what => exact .conflict what
  | transaction state => exact .transaction state state
  | unexpected text => exact .unexpected text text
  | overflow => exact .overflow

/-- The same value, or related errors. -/
inductive SameUpTo (S : ε → ε → Prop) : Except ε α → Except ε α → Prop where
  | ok (a : α) : SameUpTo S (.ok a) (.ok a)
  | error {e e' : ε} (h : S e e') : SameUpTo S (.error e) (.error e')

namespace SameUpTo

variable {S : ε → ε → Prop}

theorem refl (hS : ∀ e, S e e) : ∀ r : Except ε α, SameUpTo S r r
  | .ok a => .ok a
  | .error e => .error (hS e)

theorem eq {r r' : Except ε α} (h : SameUpTo Eq r r') : r = r' := by
  cases h with
  | ok a => rfl
  | error h => exact congrArg _ h

end SameUpTo

/-! ## Answers and programs -/

/-- Answers to a step but for the texts of failures. -/
def Effect.Alike : (e : Effect) → e.Reply → e.Reply → Prop
  | .openSession => SameUpTo StoreError.Alike
  | .call _ _ => SameUpTo StoreError.Alike
  | .checkHealth => SameUpTo StoreError.Alike
  | _ => Eq

theorem Effect.Alike.refl : (e : Effect) → (r : e.Reply) → e.Alike r r
  | .openSession, r => SameUpTo.refl .refl r
  | .call _ _, r => SameUpTo.refl .refl r
  | .checkHealth, r => SameUpTo.refl .refl r
  | .closeSession _, _ | .inTransaction _, _ | .policy _, _ | .wait _, _ | .elapsed, _
  | .readClock, _ | .freshId _ _, _ | .freshSalt, _ | .count _, _ | .note _, _ => rfl

/-- A step that never fails has no texts of failures in its answers. -/
theorem Effect.Alike.eq {e : Effect} {r r' : e.Reply} (h : e.Alike r r')
    (he : ∀ r, ¬e.Failed r) : r = r' := by
  cases e with
  | openSession | call _ _ | checkHealth => exact absurd trivial (he (.error (.unexpected "")))
  | _ => exact h

/-- Two programs that ask for the same step as long as they are answered alike, and end in related
values. -/
inductive Program.Alike (R : α → β → Prop) : Program α → Program β → Prop where
  | done {a : α} {b : β} (h : R a b) : Alike R (.done a) (.done b)
  | ask {e : Effect} {k : e.Reply → Program α} {k' : e.Reply → Program β}
      (h : ∀ r r', e.Alike r r' → Alike R (k r) (k' r')) : Alike R (.ask e k) (.ask e k')
  | askBy {l : Nat} {e : Effect} {k : Option e.Reply → Program α} {k' : Option e.Reply → Program β}
      (hlate : Alike R (k none) (k' none))
      (h : ∀ r r', e.Alike r r' → Alike R (k (some r)) (k' (some r'))) :
      Alike R (.askBy l e k) (.askBy l e k')

namespace Program

variable {R : α → β → Prop} {T : γ → δ → Prop} {p : Program α} {q : Program β}

theorem alike_perform (e : Effect) : (perform e).Alike e.Alike (perform e) :=
  .ask fun _ _ h => .done h

theorem Alike.bind {f : α → Program γ} {g : β → Program δ} (h : p.Alike R q)
    (hf : ∀ a b, R a b → (f a).Alike T (g b)) : (p.bind f).Alike T (q.bind g) := by
  induction h with
  | done hab => exact hf _ _ hab
  | ask _ ih => exact .ask fun r r' hr => ih r r' hr
  | askBy _ _ ihlate ih => exact .askBy ihlate fun r r' hr => ih r r' hr

theorem Alike.map {f : α → γ} {g : β → δ} (h : p.Alike R q) (hf : ∀ a b, R a b → T (f a) (g b)) :
    (f <$> p).Alike T (g <$> q) := by
  rw [map_eq_pure_bind, map_eq_pure_bind]
  exact h.bind fun a b hab => .done (hf a b hab)

/-- A time limit drops the rest of both programs at the same step. -/
theorem Alike.within (h : p.Alike R q) (l : Nat) :
    (p.within l).Alike (Option.Rel R) (q.within l) := by
  induction h with
  | done hab => exact .done (.some hab)
  | ask _ ih =>
    rw [Program.within, Program.within]
    exact .askBy (.done .none) ih
  | askBy _ _ ihlate ih =>
    rw [Program.within, Program.within]
    split
    · exact .askBy ihlate ih
    · exact .askBy (.done .none) ih

theorem Alike.limited (h : p.Alike R q) (ctx : Context) :
    (ctx.limited p).Alike (Option.Rel R) (ctx.limited q) := by
  unfold Context.limited
  cases ctx.deadline with
  | none => exact h.map fun _ _ hab => .some hab
  | some d => exact h.within d

/-- No step of the program can fail: it asks nothing of the store. -/
def Storeless : Program α → Prop
  | done _ => True
  | ask e k => (∀ r, ¬e.Failed r) ∧ ∀ r, (k r).Storeless
  | askBy _ e k => (∀ r, ¬e.Failed r) ∧ ∀ r, (k r).Storeless

theorem Storeless.bind {f : α → Program γ} (hp : p.Storeless) (hf : ∀ a, (f a).Storeless) :
    (p.bind f).Storeless := by
  induction p with
  | done a => exact hf a
  | ask e k ih => exact ⟨hp.1, fun r => ih r (hp.2 r)⟩
  | askBy l e k ih => exact ⟨hp.1, fun r => ih r (hp.2 r)⟩

theorem storeless_perform {e : Effect} (he : ∀ r, ¬e.Failed r) : (perform e).Storeless :=
  ⟨he, fun _ => trivial⟩

theorem storeless_policy (c : Policy.Call) : (perform (.policy c)).Storeless :=
  storeless_perform fun _ h => h

theorem Storeless.alike (h : p.Storeless) : p.Alike Eq p := by
  induction p with
  | done a => exact .done rfl
  | ask e k ih =>
    refine .ask fun r r' hr => ?_
    obtain rfl := hr.eq h.1
    exact ih r (h.2 r)
  | askBy l e k ih =>
    refine .askBy (ih none (h.2 none)) fun r r' hr => ?_
    obtain rfl := hr.eq h.1
    exact ih (some r) (h.2 (some r))

end Program

/-! ## Worlds -/

/-- What faults do but for the texts of failures. -/
inductive Damage.Alike : Damage → Damage → Prop where
  | fail {e e' : StoreError} (h : e.Alike e') : Alike (.fail e) (.fail e')
  | hang : Alike .hang .hang

/-- Planned faults that strike the same calls, and alike. -/
def Fault.Alike (f f' : Fault) : Prop := ∃ d, f.damage.Alike d ∧ f' = { f with damage := d }

/-- The same world but for the texts in the plan of faults. -/
def World.Alike (w w' : World σ) : Prop :=
  ∃ plan, List.Forall₂ Fault.Alike w.faults plan ∧ w' = { w with faults := plan }

/-- Plans that are alike strike the same calls alike, and what is left of them is alike. -/
theorem Fault.strike_alike {plan plan' : List Fault} (h : List.Forall₂ Fault.Alike plan plan')
    (name : String) : Option.Rel Damage.Alike (strike name plan).1 (strike name plan').1 ∧
      List.Forall₂ Fault.Alike (strike name plan).2 (strike name plan').2 := by
  induction h with
  | nil => exact ⟨.none, .nil⟩
  | @cons f f' rest rest' hf hrest ih =>
    obtain ⟨d, hd, rfl⟩ := hf
    by_cases hdue : f.call = name ∧ 0 < f.times
    · by_cases hskip : f.skip = 0
      · simp only [strike, if_pos hdue, if_pos hskip]
        exact ⟨.some hd, .cons ⟨d, hd, rfl⟩ hrest⟩
      · simp only [strike, if_pos hdue, if_neg hskip]
        exact ⟨ih.1, .cons ⟨d, hd, rfl⟩ ih.2⟩
    · simp only [strike, if_neg hdue]
      exact ⟨ih.1, .cons ⟨d, hd, rfl⟩ ih.2⟩

namespace World

/-- What two worlds come to: both answer and the answers are related, or neither does, and the
worlds afterwards are alike. -/
inductive Agree (R : α → β → Prop) : Option α × World σ → Option β × World σ → Prop where
  | none {v v' : World σ} (h : v.Alike v') : Agree R (none, v) (none, v')
  | some {v v' : World σ} {a : α} {b : β} (h : v.Alike v') (hab : R a b) :
    Agree R (some a, v) (some b, v')

variable {w w' : World σ}

theorem Agree.eq {x x' : Option α × World σ} (h : Agree Eq x x') :
    x.1 = x'.1 ∧ x.2.Alike x'.2 := by
  cases h with
  | none h => exact ⟨rfl, h⟩
  | some h hab => exact ⟨congrArg Option.some hab, h⟩

theorem Alike.pause (h : w.Alike w') (limit : Option Nat) (ms : Nat) :
    Agree Eq (w.pause limit ms) (w'.pause limit ms) := by
  obtain ⟨plan, hplan, rfl⟩ := h
  unfold World.pause
  cases limit with
  | none => exact .some ⟨plan, hplan, rfl⟩ rfl
  | some l =>
    dsimp only
    split
    · exact .some ⟨plan, hplan, rfl⟩ rfl
    · exact .none ⟨plan, hplan, rfl⟩

/-- A call that may fail or hang: it is struck alike, or it is performed on both worlds. -/
theorem Alike.guarded (h : w.Alike w') (limit : Option Nat) (name : String)
    {act : World σ → Option (Except StoreError ρ) × World σ}
    (hact : ∀ v v' : World σ, v.Alike v' →
      Agree (SameUpTo StoreError.Alike) (act v) (act v')) :
    Agree (SameUpTo StoreError.Alike) (w.guarded limit name act) (w'.guarded limit name act) := by
  obtain ⟨plan, hplan, rfl⟩ := h
  obtain ⟨hdamage, hrest⟩ := Fault.strike_alike hplan name
  unfold World.guarded
  generalize Fault.strike name w.faults = struck at hdamage hrest ⊢
  generalize Fault.strike name plan = struck' at hdamage hrest ⊢
  obtain ⟨damage, rest⟩ := struck
  obtain ⟨damage', rest'⟩ := struck'
  have hleft : World.Alike { w with faults := rest } { w with faults := rest' } :=
    ⟨rest', hrest, rfl⟩
  cases hdamage with
  | none => exact hact _ _ hleft
  | some hd =>
    cases hd with
    | fail he => exact .some hleft (.error he)
    | hang =>
      have hpause := hleft.pause limit Fault.hangTime
      dsimp only at hpause ⊢
      generalize World.pause { w with faults := rest } limit Fault.hangTime = x at hpause ⊢
      generalize World.pause { w with faults := rest' } limit Fault.hangTime = x' at hpause ⊢
      cases hpause with
      | none h => exact .none h
      | some h _ => exact hact _ _ h

variable [Backend σ] (env : Surroundings)

/-- One step is answered alike and leaves worlds that are alike. -/
theorem Alike.step (h : w.Alike w') (limit : Option Nat) (e : Effect) :
    Agree e.Alike (w.step env limit e) (w'.step env limit e) := by
  cases e with
  | openSession =>
    rw [World.step, World.step]
    refine h.guarded limit "session" ?_
    rintro v _ ⟨plan, hplan, rfl⟩
    exact .some ⟨plan, hplan, rfl⟩ (Effect.Alike.refl .openSession _)
  | checkHealth =>
    rw [World.step, World.step]
    refine h.guarded limit "health_check" ?_
    rintro v _ ⟨plan, hplan, rfl⟩
    exact .some ⟨plan, hplan, rfl⟩ (Effect.Alike.refl .checkHealth _)
  | call s c =>
    rw [World.step, World.step]
    refine h.guarded limit c.name ?_
    rintro v _ ⟨plan, hplan, rfl⟩
    dsimp only
    rcases Backend.call v.store s c with ⟨r | _, store⟩
    · exact .some ⟨plan, hplan, rfl⟩ (Effect.Alike.refl (.call s c) r)
    · exact .none ⟨plan, hplan, rfl⟩
  | wait ms => exact h.pause limit ms
  | closeSession _ | inTransaction _ | policy _ | elapsed | readClock | freshId _ _ | freshSalt
  | count _ | note _ =>
    obtain ⟨plan, hplan, rfl⟩ := h
    exact .some ⟨plan, hplan, rfl⟩ rfl

/-- A whole run: programs that are alike come to related values and leave worlds that are alike. By
induction on the likeness: each step is answered alike, and the rest goes on from there. -/
theorem Alike.run {R : α → β → Prop} {p : Program α} {q : Program β} (h : w.Alike w')
    (hp : p.Alike R q) : Agree R (World.run env p w) (World.run env q w') := by
  induction hp generalizing w w' with
  | done hab => exact .some h hab
  | @ask e k k' _ ih =>
    have hstep := h.step env none e
    rw [World.run, World.run]
    generalize w.step env none e = x at hstep ⊢
    generalize w'.step env none e = x' at hstep ⊢
    cases hstep with
    | none h => exact .none h
    | some h hr => exact ih _ _ hr h
  | @askBy l e k k' _ _ ihlate ih =>
    have hstep := h.step env (some l) e
    rw [World.run, World.run]
    generalize w.step env (some l) e = x at hstep ⊢
    generalize w'.step env (some l) e = x' at hstep ⊢
    cases hstep with
    | none h => exact ihlate h
    | some h hr => exact ih _ _ hr h

end World

end AccessAdmin
