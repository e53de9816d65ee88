import AccessAdmin.Proofs.Projecting.Frame
import AccessAdmin.Proofs.Sequences

/-!
# The engine agrees with the store

While no call on the store fails, the engine holds after every command exactly what the tables come
to. The invariant says so of the rules, and that the engine is coherent, so that none of the calls
on it is refused.

* `FollowUp.Done.agrees`: one commit with its follow-up.
* `Reached.agrees`: sequences of undisturbed commands.
* `Reached.snapshot_eq_projection`: the same, told by the snapshot of the engine.
-/

namespace AccessAdmin

open Policy

variable {env : Surroundings} {used : List String} {t t' : Store.Tables} {e e' : Engine}

theorem agrees_empty : Agrees {} {} where
  permissions _ := ⟨fun h => (nomatch h), fun ⟨⟨_, hr, _⟩, _⟩ => (nomatch hr)⟩
  memberships _ := ⟨fun h => (nomatch h), fun ⟨_, ha⟩ => (nomatch ha)⟩

/-- If the engine agreed with the tables before a change, it agrees with the changed tables after
the follow-up. -/
theorem FollowUp.Done.agrees {f : FollowUp} (hd : f.Done t' e e') (hc : f.Covers t t')
    (h : Agrees t e) : Agrees t' e' where
  permissions p := by
    rw [hd.permissions p, h.permissions p]
    by_cases hp : f.TouchesRule p
    · simp only [hp, true_and, not_true_eq_false, false_and, or_false]
    · simp only [hp, false_and, not_false_eq_true, true_and, false_or]
      exact hc.permissions p hp
  memberships m := by
    rw [hd.memberships m, h.memberships m]
    by_cases hm : f.TouchesMembership m
    · simp only [hm, true_and, not_true_eq_false, false_and, or_false]
    · simp only [hm, false_and, not_false_eq_true, true_and, false_or]
      exact hc.memberships m hm

/-- What a follow-up leads to when it succeeds. -/
theorem FollowUp.Leads.done {β : Type} {f : FollowUp} {r : Except ServiceError β} {d d' : Desk}
    (h : d.tables.Sound used) (hf : f.Apt d.tables) (hl : f.Leads env d r d')
    (hr : ∃ b, r = .ok b) : d'.tables = d.tables ∧ f.Done d.tables d.engine d'.engine := by
  obtain ⟨s, o, hends, hiff⟩ := hl
  obtain rfl := hiff.2 hr
  exact (turns_followUp h hf).ok hends

/-- On a coherent engine a follow-up succeeds. -/
theorem FollowUp.Leads.ok {β : Type} {f : FollowUp} {r : Except ServiceError β} {d d' : Desk}
    (h : d.tables.Sound used) (hf : f.Apt d.tables) (he : d.engine.Coherent)
    (hl : f.Leads env d r d') : (∃ b, r = .ok b) ∧ d'.engine.Coherent := by
  obtain ⟨s, o, hends, hiff⟩ := hl
  obtain ⟨⟨_, rfl⟩, hcoherent⟩ := (turns_followUp h hf).safe he hends
  exact ⟨hiff.1 rfl, hcoherent⟩

/-- A commit with everything that is known of it: how the tables change, and that the subjects of
the follow-up are the ones the change shows at. -/
theorem Mutation.Commits.followed {m : Mutation} {users : UserPolicy} {actor : String} {d d' : Desk}
    {r : Except ServiceError m.Result} (h : d.tables.Sound used)
    (hf : env.FreshFor used d.tables) (hc : m.Commits env users actor d r d') :
    ∃ a, m.Changes env d.tables a d'.tables ∧
      (m.followUp d.tables d'.tables a).Covers d.tables d'.tables ∧
      ((∃ b, r = .ok b) → r = .ok a ∧
        (m.followUp d.tables d'.tables a).Done d'.tables d.engine d'.engine) ∧
      (d.engine.Coherent → (∃ b, r = .ok b) ∧ d'.engine.Coherent) := by
  obtain ⟨a, hchanges, hleads, hanswer⟩ := hc.changes h.menus h.users
  have h' := hchanges.sound h hf
  have hapt := hchanges.apt h h'
  refine ⟨a, hchanges, hchanges.covers h hf, fun hr => ?_, fun he =>
    hleads.ok (d := ⟨d'.tables, d.engine⟩) h' hapt he⟩
  obtain ⟨b, hb⟩ := hr
  obtain rfl := hanswer b hb
  exact ⟨hb, (hleads.done (d := ⟨d'.tables, d.engine⟩) h' hapt ⟨b, hb⟩).2⟩

theorem Command.run_undisturbed {q : Command} {w : World MemoryStore} (h : q.faults = []) :
    q.undisturbed.run w = q.run w := by
  unfold Command.run
  rw [h]
  rfl

/-- An undisturbed command keeps the engine coherent and in agreement with the tables. -/
theorem Command.agrees_run {q : Command} {w : World MemoryStore} (hq : q.faults = [])
    (hi : w.Idle) (h : w.tables.Sound used) (hf : q.env.FreshFor used w.tables)
    (he : w.engine.Coherent) (ha : Agrees w.tables w.engine) :
    (q.run w).2.engine.Coherent ∧ Agrees (q.run w).2.tables (q.run w).2.engine := by
  obtain ⟨rc, vc, r, w', hclean, hrun, -, -, hout⟩ := q.run_outcome hi
  obtain ⟨-, rfl⟩ := Prod.mk.inj ((hclean.symm.trans (q.run_undisturbed hq)).trans hrun)
  rw [hrun]
  cases hout with
  | refused _ _ hdesk _ _ _ =>
    obtain ⟨htables, hengine⟩ := Desk.mk.inj hdesk
    rw [htables, hengine]
    exact ⟨he, ha⟩
  | committed hcommits _ _ =>
    obtain ⟨a, hchanges, hcovers, hdone, hok⟩ := hcommits.followed h hf
    obtain ⟨hr, hcoherent⟩ := hok he
    exact ⟨hcoherent, (hdone hr).2.agrees hcovers ha⟩

/-- Sequences of undisturbed commands lead to coherent engines that agree with the tables. -/
theorem Reached.agrees {w : World MemoryStore} (h : Reached (fun q => q.faults = []) used w) :
    w.engine.Coherent ∧ Agrees w.tables w.engine := by
  induction h with
  | start hst he =>
    rw [World.tables, hst, he]
    exact ⟨Engine.coherent_empty, agrees_empty⟩
  | step q hreached hq hf ih =>
    exact q.agrees_run hq hreached.idle hreached.sound hf ih.1 ih.2

/-- After every command of an undisturbed sequence, whatever the commands and whether they are
served or refused, the snapshot of the engine is the projection of the tables. -/
theorem Reached.snapshot_eq_projection {w : World MemoryStore}
    (h : Reached (fun q => q.faults = []) used w) : w.engine.snapshot = w.tables.projection :=
  h.agrees.1.snapshot_eq h.agrees.2

/-- The sample leaves one permission and one membership. -/
theorem sample_snapshot : Sample.world.engine.snapshot = Sample.world.tables.projection ∧
    Sample.world.tables.projection = ⟨[⟨"rx", "/orders/:id", "GET"⟩], [⟨"ux", "rx"⟩]⟩ := by
  obtain ⟨used, h, -⟩ := Sample.reached
  exact ⟨h.snapshot_eq_projection, by decide +kernel⟩

end AccessAdmin
