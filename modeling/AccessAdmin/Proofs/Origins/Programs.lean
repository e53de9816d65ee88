import AccessAdmin.Proofs.Changes.Keys
import AccessAdmin.Proofs.Engine.Coherence
import AccessAdmin.Proofs.Sessions.Alone

/-!
# Where permissions come from

The path and the method of a permission were once those of a resource in somebody's description of
a menu. From there they went to the stored resources, were read from them, and were handed to the
engine. A source is what paths and methods may come from; on their way nothing adds another one, if
every step that writes takes them from the source, or from what the store has told.

* `Effect.DrawnFrom`, `Effect.Tells`: what a step may ask for, and what it may rely on.
* `Program.DrawnFrom`: a program that asks for nothing else, if it can rely on the answers.
* `World.DrawnFrom.step`, `World.DrawnFrom.run`: what such a program leaves behind.
-/

namespace AccessAdmin

variable {α β ε : Type} {src : String → String → Prop}

/-! ## Sources -/

section Sources

variable (src : String → String → Prop)

/-- The stored resources have their paths and methods from the source. -/
def Store.Tables.DrawnFrom (t : Store.Tables) : Prop :=
  ∀ x ∈ t.menuResources, src x.path x.method

/-- Also those in the copy of an open transaction. -/
structure Store.Shared.DrawnFrom (st : Store.Shared) : Prop where
  tables : st.tables.DrawnFrom src
  working : ∀ w, st.writer = some w → w.working.DrawnFrom src

/-- The permissions have their paths and methods from the source, and lack neither. -/
def Policy.Engine.DrawnFrom (e : Policy.Engine) : Prop :=
  ∀ p ∈ e.permissions, src p.path p.method ∧ p.path ≠ "" ∧ p.method ≠ ""

/-- Neither the store nor the engine holds a path and a method from elsewhere. -/
structure World.DrawnFrom (w : World MemoryStore) : Prop where
  store : w.store.shared.DrawnFrom src
  engine : w.engine.DrawnFrom src

/-- The resource that a change writes, if it writes one, is from the source. -/
def Store.Write.DrawnFrom : Store.Write → Prop
  | .createMenuResource r | .updateMenuResource r => src r.path r.method
  | _ => True

/-- What a step writes to the store or to the engine is from the source. -/
def Effect.DrawnFrom : Effect → Prop
  | .call _ (.write w) => w.DrawnFrom src
  | .policy (.addPermission _ path method) => src path method
  | _ => True

/-- The resources in an answer are from the source. -/
def Effect.Tells : (e : Effect) → e.Reply → Prop
  | .call _ (.read (.listMenuResources _)), .ok rows => ∀ x ∈ rows, src x.path x.method
  | _, _ => True

/-- A program that writes what is from the source, whatever it is answered, as long as the answers
are from the source. -/
def Program.DrawnFrom : Program α → Prop
  | done _ => True
  | ask e k => e.DrawnFrom src ∧ ∀ r, e.Tells src r → DrawnFrom (k r)
  | askBy _ e k =>
    e.DrawnFrom src ∧ DrawnFrom (k none) ∧ ∀ r, e.Tells src r → DrawnFrom (k (some r))

end Sources

/-! ## What a step leaves behind -/

namespace Store

open Tables

theorem Tables.DrawnFrom.apply {t t' : Tables} {w : Write} (ht : t.DrawnFrom src)
    (h : t.apply w = .ok t') (hw : w.DrawnFrom src) : t'.DrawnFrom src := by
  intro x hx
  cases w with
  | createMenuResource r =>
    obtain ⟨rows, hrows, rfl⟩ := bind_pure_eq_ok.mp h
    obtain ⟨-, rfl⟩ := insertNew_eq_ok.mp hrows
    rcases List.mem_append.mp hx with hx | hx
    · exact ht x hx
    · obtain rfl := List.mem_singleton.mp hx
      exact hw
  | updateMenuResource r =>
    obtain ⟨rows, hrows, rfl⟩ := bind_pure_eq_ok.mp h
    obtain ⟨-, rfl⟩ := amendFirst_eq_ok.mp hrows
    rcases mem_modify_first hx with hx | ⟨y, -, -, rfl⟩
    · exact ht x hx
    · exact hw
  | deleteMenuResource _ _ | deleteMenuResources _ =>
    obtain rfl := Except.ok.inj h
    exact ht x (List.mem_filter.mp hx).1
  | _ =>
    rw [(apply_frame h).resources (by rintro ⟨⟩)] at hx
    exact ht x hx

namespace Shared

variable {st : Shared} {s : SessionId} {t : Tables}

theorem DrawnFrom.view (h : st.DrawnFrom src) (hv : st.view s = .answered t) :
    t.DrawnFrom src := by
  unfold Shared.view at hv
  split at hv
  · obtain rfl := Attempt.answered.inj hv
    exact h.tables
  · rename_i w hw
    split at hv
    · obtain rfl := Attempt.answered.inj hv
      exact h.working w hw
    · cases hv

theorem DrawnFrom.put (h : st.DrawnFrom src) (ht : t.DrawnFrom src) : (st.put t).DrawnFrom src := by
  unfold Shared.put
  split
  · rename_i hw
    exact ⟨ht, fun w hw' => by rw [hw] at hw'; cases hw'⟩
  · exact ⟨h.tables, fun w hw' => by obtain rfl := Option.some.inj hw'; exact ht⟩

theorem drawnFrom_idle (h : t.DrawnFrom src) : (⟨t, none⟩ : Shared).DrawnFrom src :=
  ⟨h, by rintro _ ⟨⟩⟩

/-- A call leaves drawn tables behind and answers what is drawn. -/
theorem DrawnFrom.call (h : st.DrawnFrom src) {c : Call} (hc : (Effect.call s c).DrawnFrom src) :
    (st.call s c).2.DrawnFrom src ∧
      ∀ r, (st.call s c).1 = .answered r → (Effect.call s c).Tells src r := by
  cases c with
  | begin =>
    refine ⟨?_, fun _ _ => trivial⟩
    rw [Shared.call]
    split
    · exact ⟨h.tables, fun w hw => by obtain rfl := Option.some.inj hw; exact h.tables⟩
    · split <;> exact h
  | commit =>
    refine ⟨?_, fun _ _ => trivial⟩
    rw [Shared.call]
    split
    · exact h
    · rename_i w hw
      split
      · exact drawnFrom_idle (h.working w hw)
      · exact h
  | rollback =>
    refine ⟨?_, fun _ _ => trivial⟩
    rw [Shared.call]
    split
    · exact drawnFrom_idle h.tables
    · exact h
  | read q =>
    rw [Shared.call]
    split
    · exact ⟨h, by rintro _ ⟨⟩⟩
    · rename_i t hv
      refine ⟨h, fun r hr => ?_⟩
      obtain rfl := Attempt.answered.inj hr
      cases q with
      | listMenuResources ids => exact fun x hx => h.view hv x (List.mem_filter.mp hx).1
      | _ => trivial
  | write w =>
    refine ⟨?_, fun _ _ => trivial⟩
    rw [Shared.call]
    split
    · exact h
    · rename_i t hv
      split
      · exact h
      · rename_i t' ht'
        exact h.put ((h.view hv).apply ht' hc)

theorem DrawnFrom.close (h : st.DrawnFrom src) : (st.close s).DrawnFrom src := by
  unfold Shared.close
  split
  · exact drawnFrom_idle h.tables
  · exact h

end Shared

end Store

/-- The engine takes a permission only if it lacks no part. -/
theorem Policy.Engine.DrawnFrom.perform {reads : Policy.PathPattern.Reader} {e : Policy.Engine}
    (h : e.DrawnFrom src) {c : Policy.Call} (hc : (Effect.policy c).DrawnFrom src) : (e.perform reads c).2.DrawnFrom src := by
  intro p hp
  cases c with
  | addPermission s path method =>
    rw [Engine.perform, addPermission] at hp
    split at hp
    · exact h p hp
    · rename_i hparts
      split at hp
      · exact h p hp
      · rcases List.mem_append.mp hp with hp | hp
        · exact h p hp
        · obtain rfl := List.mem_singleton.mp hp
          simp only [Bool.or_eq_true, String.isEmpty_iff, not_or] at hparts
          exact ⟨hc, hparts.1.2, hparts.2⟩
  | removePermissions s => exact h p (List.mem_filter.mp hp).1
  | addMembership user role =>
    rw [Engine.perform, permissions_addMembership] at hp
    exact h p hp
  | removeMemberships _ =>
    rw [Engine.perform, removeMemberships, permissions_remove] at hp
    exact h p hp
  | removeRoleMemberships _ =>
    rw [Engine.perform, removeRoleMemberships, permissions_remove] at hp
    exact h p hp
  | evaluate _ _ _ | permissionsFor _ | membershipsFor _ | snapshot => exact h p hp

namespace World

variable {env : Surroundings} {w : World MemoryStore} {limit : Option Nat}

/-- A call that may fail or hang: what it would leave behind and answer has to be drawn. -/
theorem DrawnFrom.guarded {ρ : Type} {Q : Except StoreError ρ → Prop} {name : String}
    {act : World MemoryStore → Option (Except StoreError ρ) × World MemoryStore}
    (h : w.DrawnFrom src) (herror : ∀ e, Q (.error e))
    (hact : ∀ v : World MemoryStore, v.DrawnFrom src →
      (act v).2.DrawnFrom src ∧ ∀ r, (act v).1 = some r → Q r) :
    (w.guarded limit name act).2.DrawnFrom src ∧
      ∀ r, (w.guarded limit name act).1 = some r → Q r := by
  rcases hs : Fault.strike name w.faults with ⟨_ | (e | _), faults⟩
  · simp only [World.guarded, hs]
    exact hact { w with faults := faults } ⟨h.store, h.engine⟩
  · simp only [World.guarded, hs]
    refine ⟨⟨h.store, h.engine⟩, fun r hr => ?_⟩
    obtain rfl := Option.some.inj hr
    exact herror e
  · rcases hp : World.pause { w with faults := faults } limit Fault.hangTime with ⟨_ | _, v⟩
    all_goals
      obtain ⟨time, rfl⟩ := pause_eq hp
      simp only [World.guarded, hs, hp]
    · exact ⟨⟨h.store, h.engine⟩, by rintro _ ⟨⟩⟩
    · exact hact { w with faults := faults, time := time } ⟨h.store, h.engine⟩

/-- A step that writes what is from the source leaves nothing else behind, and its answer can be
relied on. -/
theorem DrawnFrom.step (h : w.DrawnFrom src) (limit : Option Nat) {e : Effect}
    (he : e.DrawnFrom src) : (w.step env limit e).2.DrawnFrom src ∧
      ∀ r, (w.step env limit e).1 = some r → e.Tells src r := by
  cases e with
  | openSession =>
    exact h.guarded (Q := fun _ => True) (fun _ => trivial) fun v hv =>
      ⟨⟨hv.store, hv.engine⟩, fun _ _ => trivial⟩
  | checkHealth =>
    exact h.guarded (Q := fun _ => True) (fun _ => trivial) fun v hv =>
      ⟨⟨hv.store, hv.engine⟩, fun _ _ => trivial⟩
  | call s c =>
    refine h.guarded (fun _ => ?_) fun v hv => ?_
    · cases c with
      | read q => cases q <;> trivial
      | _ => trivial
    · obtain ⟨hcall, htold⟩ := hv.store.call he
      simp only [Backend.call]
      rcases hc : v.store.shared.call s c with ⟨r | _, shared⟩
      · rw [hc] at hcall htold
        refine ⟨⟨hcall, hv.engine⟩, fun r' hr => ?_⟩
        obtain rfl := Option.some.inj hr
        exact htold r rfl
      · rw [hc] at hcall
        exact ⟨⟨hcall, hv.engine⟩, by rintro _ ⟨⟩⟩
  | closeSession s => exact ⟨⟨h.store.close, h.engine⟩, fun _ _ => trivial⟩
  | policy c => exact ⟨⟨h.store, h.engine.perform he⟩, fun _ _ => trivial⟩
  | wait ms =>
    rcases hp : w.pause limit ms with ⟨o, v⟩
    obtain ⟨time, rfl⟩ := pause_eq hp
    simp only [World.step, hp]
    exact ⟨⟨h.store, h.engine⟩, fun _ _ => trivial⟩
  | inTransaction _ | elapsed | readClock | freshId _ _ | freshSalt | count _ | note _ =>
    exact ⟨⟨h.store, h.engine⟩, fun _ _ => trivial⟩

/-- What a drawn program leaves behind, whether it ends or has to wait for ever. By induction on the
program: every step is answered as the rest of it relies on. -/
theorem DrawnFrom.run {p : Program α} (h : w.DrawnFrom src) (hp : p.DrawnFrom src) :
    (World.run env p w).2.DrawnFrom src := by
  induction p generalizing w with
  | done a => exact h
  | ask e k ih =>
    obtain ⟨hw, htold⟩ := h.step none hp.1
    rw [World.run]
    rcases hs : w.step env none e with ⟨_ | r, v⟩
    · rw [hs] at hw
      exact hw
    · rw [hs] at hw htold
      exact ih r hw (hp.2 r (htold r rfl))
  | askBy l e k ih =>
    obtain ⟨hw, htold⟩ := h.step (some l) hp.1
    rw [World.run]
    rcases hs : w.step env (some l) e with ⟨_ | r, v⟩
    · rw [hs] at hw
      exact ih none hw hp.2.1
    · rw [hs] at hw htold
      exact ih (some r) hw (hp.2.2 r (htold r rfl))

end World

end AccessAdmin
