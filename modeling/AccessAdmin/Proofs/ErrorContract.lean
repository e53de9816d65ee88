import AccessAdmin.Proofs.Changes.Keys
import AccessAdmin.Proofs.Projecting.Agreement

/-!
# What an answer says

The caller of a mutation sees its answer only. Whatever fails and wherever a deadline strikes, the
answer tells what became of the change: after an error other than a policy error nothing has
changed, after a policy error the change is stored, and after success it is stored and projected.

* `Command.Accounts`: an answer that tells the truth.
* `Reached.answer_accounts`: every answer does, in every world that commands lead to.
-/

namespace AccessAdmin

/-- An answer `r`, with the world `w'` after it, tells the truth about a command in the world `w`.
Undisturbed, the command ends with `rc` and `vc`. -/
structure Command.Accounts (q : Command) (w : World MemoryStore)
    (rc : Except ServiceError q.mutation.Result) (vc : World MemoryStore)
    (r : Except ServiceError q.mutation.Result) (w' : World MemoryStore) : Prop where
  /-- After an error that is not a policy error everything is as it was. -/
  refused : ∀ e, r = .error e → (∀ p, e ≠ .policy p) →
    w'.tables = w.tables ∧ w'.engine.snapshot = w.engine.snapshot
  /-- After a policy error the tables are those that the undisturbed command commits. -/
  stale : ∀ p, r = .error (.policy p) →
    (∀ e, rc = .error e → ∃ p, e = .policy p) ∧ w'.tables = vc.tables ∧
      ∃ a, q.mutation.Changes q.env w.tables a w'.tables
  /-- After success they are too, and the subjects that the change shows at are projected. -/
  served : ∀ a, r = .ok a →
    rc = .ok a ∧ w'.tables = vc.tables ∧ q.mutation.Changes q.env w.tables a w'.tables ∧
      (q.mutation.followUp w.tables w'.tables a).Covers w.tables w'.tables ∧
      (q.mutation.followUp w.tables w'.tables a).Done w'.tables w.engine w'.engine

theorem ServiceError.Stale.policy {e : ServiceError} (h : e.Stale) : ∃ p, e = .policy p := h

/-- A refusal accounts for the command. -/
theorem Command.accounts_refused {q : Command} {w vc w' : World MemoryStore} {e : ServiceError}
    {rc : Except ServiceError q.mutation.Result} (he : e.Plain) (hdesk : w'.desk = w.desk) :
    q.Accounts w rc vc (.error e) w' where
  refused e' _ _ := by
    obtain ⟨htables, hengine⟩ := Desk.mk.inj hdesk
    exact ⟨htables, congrArg Policy.Engine.snapshot hengine⟩
  stale p hp := (he p (Except.error.inj hp)).elim
  served _ ha := nomatch ha

/-- Whatever its outcome, the answer to a command accounts for it. -/
theorem Command.Outcome.accounts {q : Command} {used : List String} {w vc w' : World MemoryStore}
    {rc r : Except ServiceError q.mutation.Result} (h : w.tables.Sound used)
    (hf : q.env.FreshFor used w.tables) (hout : q.Outcome w vc w' rc r) :
    q.Accounts w rc vc r w' := by
  cases hout with
  | refused _ _ _ hr he hdesk =>
    rw [hr]
    exact accounts_refused he hdesk
  | committed hcommits hstale hends =>
    obtain ⟨a, hchanges, hcovers, hdone, -⟩ := hcommits.followed h hf
    obtain ⟨e, hr, he, hdesk⟩ | ⟨e, hr, he, htables⟩ | ⟨rfl, hdesk⟩ := hends
    · rw [hr]
      exact accounts_refused he hdesk
    · obtain ⟨p, rfl⟩ := he.policy
      refine ⟨fun e' he' hplain => ?_, fun _ _ => ⟨hstale, htables, a, ?_⟩, fun b hb => ?_⟩
      · exact (hplain p (Except.error.inj (he'.symm.trans hr))).elim
      · rw [htables]
        exact hchanges
      · cases hb.symm.trans hr
    · have htables : w'.tables = vc.tables := congrArg Desk.tables hdesk
      rw [← hdesk] at hchanges hcovers hdone
      refine ⟨fun e he hplain => ?_, fun _ _ => ⟨hstale, htables, a, hchanges⟩, fun b hb => ?_⟩
      · obtain ⟨p, rfl⟩ := hstale e he
        exact (hplain p rfl).elim
      · obtain ⟨hr, hdone⟩ := hdone ⟨b, hb⟩
        obtain rfl := Except.ok.inj (hb.symm.trans hr)
        exact ⟨hb, htables, hchanges, hcovers, hdone⟩

/-- In every world that commands lead to, disturbed or not, every command is answered, and its
answer accounts for it, whatever calls fail and wherever its deadline strikes. No owner has two rows
with one key in such a world, so what an update leaves its owner is told exactly. -/
theorem Reached.answer_accounts {admits : Command → Prop} {used : List String}
    {w : World MemoryStore} (h : Reached admits used w) (q : Command) (hf : q.env.FreshFor used w.tables) :
    w.tables.Distinct ∧ ∃ rc vc r w', q.undisturbed.run w = (some rc, vc) ∧
      q.run w = (some r, w') ∧ q.Accounts w rc vc r w' := by
  obtain ⟨rc, vc, r, w', hclean, hrun, -, -, hout⟩ := q.run_outcome h.idle
  exact ⟨h.distinct, rc, vc, r, w', hclean, hrun, hout.accounts h.sound hf⟩

/-- Takes the role from the user of the sample; the store fails when the user is projected. -/
def Sample.failing : Command :=
  Sample.command (.updateUser "ux" { username := "clerk" })
    [⟨"list_user_roles", .fail (.unexpected "gone"), 1, 1⟩]

/-- The failing command leaves the user without the role in the tables, but not in the engine. -/
theorem sample_accounts : (∃ rc vc r w',
      Sample.failing.undisturbed.run Sample.world = (some rc, vc) ∧
      Sample.failing.run Sample.world = (some r, w') ∧
      Sample.failing.Accounts Sample.world rc vc r w') ∧
    (Sample.failing.run Sample.world).2.tables.userRoles = [] ∧
    (Sample.failing.run Sample.world).2.engine.memberships = [⟨"ux", "rx"⟩] := by
  obtain ⟨used, h, hn⟩ := Sample.reached
  exact ⟨(h.answer_accounts Sample.failing (.of_named rfl hn)).2, by decide +kernel, by decide +kernel⟩

end AccessAdmin
