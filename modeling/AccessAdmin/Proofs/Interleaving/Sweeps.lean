import AccessAdmin.Proofs.Interleaving.Traces
import AccessAdmin.Proofs.Projecting.Passes

/-!
# Passes beside others

A pass over everything asks for the roles and for the enabled users at different times, projects
them one by one, and then removes what the engine holds of everybody else. It leaves a rule as the
tables in the end want it, if all tables that it sees have the rows of the rule that the last ones
have and nobody else touches the rule meanwhile.

* `Projection.traces_all`: the dealings of a pass, stage by stage.
* `Projection.all_accepted`: none of them is refused.
* `Projection.all_leaves_iff`: what a pass does to a rule.
-/

namespace AccessAdmin.Projection

open Policy Program Dealing Projecting

variable {t : Store.Tables} {x : Rule} {s : Session} {ds : List Dealing} {summary : Summary}

/-- The dealings of a pass: it sets the roles of some tables and the enabled users of others, looks
at the engine, and removes the names that it finds there and did not set. -/
theorem traces_all (h : (all s).run.Traces (t.Like x) ds (.ok summary)) :
    ∃ u v held ds₁ ds₂ ds₃ ds₄, t.Like x u ∧ t.Like x v ∧
      ds = ds₁ ++ (ds₂ ++ (⟨.snapshot, held⟩ :: (ds₃ ++ ds₄))) ∧
      Handles x (t.Warrants x) (∃ r ∈ u.matchingRoles {}, (FollowUp.roles [r.id]).Concerns x) ds₁ ∧
      Handles x (t.Warrants x) (∃ w ∈ v.matchingUsers .enabled, (FollowUp.user w.id).Concerns x)
        ds₂ ∧
      (forAll (staleRoles (u.matchingRoles {}) held) fun id =>
        engine (perform (.policy (.removePermissions id)))).run.Traces (t.Like x) ds₃ (.ok ()) ∧
      (forAll (staleUsers (v.matchingUsers .enabled) held) removeUser).run.Traces (t.Like x) ds₄
        (.ok ()) := by
  obtain ⟨u, hu, h⟩ := traces_ask_then h
  obtain ⟨_, ds₁, _, hroles, h₁, rfl⟩ := traces_seq_ok.1 h
  obtain ⟨v, hv, h₁⟩ := traces_ask_then h₁
  obtain ⟨_, ds₂, _, husers, h₂, rfl⟩ := traces_seq_ok.1 h₁
  obtain ⟨held, _, _, hlook, h₃, rfl⟩ := traces_seq_ok.1 h₂
  obtain ⟨_, ds₃, _, hps, h₄, rfl⟩ := traces_seq_ok.1 h₃
  obtain ⟨_, ds₄, _, hms, hend, rfl⟩ := traces_seq_ok.1 h₄
  obtain ⟨rfl, -⟩ := traces_pure hend
  obtain ⟨_, _, _, hshow, ⟨rfl, hheld⟩, rfl⟩ := hlook
  obtain rfl := Except.ok.inj hheld
  obtain rfl := hshow
  refine ⟨u, v, held, ds₁, ds₂, ds₃, ds₄, hu, hv, ?_, ?_, ?_, hps, hms⟩
  · simp only [List.append_nil, List.singleton_append]
  · obtain ⟨⟨_, hsound⟩, -⟩ := hu
    refine handles_total (fun r hr ds n h => handles_role ?_ h) hroles
    exact hsound.role_ne_empty ((matchingRoles_perm u).mem_iff.1 hr)
  · obtain ⟨⟨_, hsound⟩, hsame⟩ := hv
    refine handles_total (fun w hw ds n h => ?_) husers
    obtain ⟨hw, henabled⟩ := List.mem_filter.1 ((matchingUsers_perm v).mem_iff.1 hw)
    refine handles_user (hsound.user_ne_empty hw) (fun hc => ?_) h
    cases x with
    | permission p => exact hc.elim
    | membership m =>
      obtain ⟨w', hw', he, hon⟩ := hsame.1.1 ⟨w, hw, Eq.symm hc, beq_iff_eq.1 henabled⟩
      exact ⟨w', hw', he.trans hc, hon⟩

/-- A pass that comes to an end was not refused anything. -/
theorem all_accepted (h : (all s).run.Traces (t.Like x) ds (.ok summary)) :
    ∀ d ∈ ds, d.call.Accepted d.reply := by
  obtain ⟨u, v, held, ds₁, ds₂, ds₃, ds₄, -, -, rfl, hroles, husers, hps, hms⟩ := traces_all h
  obtain ⟨-, hdropRoles⟩ := traces_calls (fun id _ => makes_removePermissions id) hps
  obtain ⟨-, hdropUsers⟩ := traces_calls (fun id _ => makes_removeMemberships id) hms
  simp only [List.forall_mem_append, List.forall_mem_cons]
  exact ⟨hroles.accepted, husers.accepted, trivial, hdropRoles, hdropUsers⟩

/-- The removal of the names that a pass has found and not set. Nobody has the empty name, which
stands for all. -/
theorem handles_prune {u v : Store.Tables} {e : Engine} {ds₃ ds₄ : List Dealing}
    (hu : t.Like x u) (hv : t.Like x v) (hn : e.Named)
    (hps : (forAll (staleRoles (u.matchingRoles {}) e.snapshot) fun id =>
      engine (perform (.policy (.removePermissions id)))).run.Traces (t.Like x) ds₃ (.ok ()))
    (hms : (forAll (staleUsers (v.matchingUsers .enabled) e.snapshot) removeUser).run.Traces
      (t.Like x) ds₄ (.ok ())) :
    Handles x (t.Warrants x)
      ((∃ id ∈ staleRoles (u.matchingRoles {}) e.snapshot, ∃ p, x = .permission p ∧
          p.subject = id) ∨
        ∃ id ∈ staleUsers (v.matchingUsers .enabled) e.snapshot,
          (FollowUp.dropUser id).Concerns x) (ds₃ ++ ds₄) := by
  refine (handles_forAll (fun id hid ds h => ?_) hps).append
    (handles_forAll (fun id hid ds h => ?_) hms)
  · obtain ⟨⟨p, hp, rfl⟩, hother⟩ := mem_staleRoles.1 hid
    refine handles_removePermissions (hn.subjects p hp) (fun q hx hq hw => hother ?_) h
    subst hx
    obtain ⟨⟨r, hr, he⟩, -⟩ := hu.2.warrants_iff.2 hw
    exact (mem_roleIds u).2 ⟨r, hr, he.trans hq⟩
  · obtain ⟨⟨m, hm, rfl⟩, hother⟩ := mem_staleUsers.1 hid
    refine handles_removeUser (hn.users m hm) (fun hc hw => hother ?_) h
    cases x with
    | permission q => exact hc.elim
    | membership n =>
      obtain ⟨⟨w, hw, he, henabled⟩, -⟩ := hv.2.warrants_iff.2 hw
      exact (mem_userIds v).2 ⟨w, hw, he.trans hc, henabled⟩

/-- After a pass a rule is held if the tables want it. -/
theorem all_leaves_iff (h : (all s).run.Traces (t.Like x) ds (.ok summary)) {before : Prop}
    (htold : Told x before ds) : leavesAll x before ds ↔ t.Warrants x := by
  obtain ⟨u, v, held, ds₁, ds₂, ds₃, ds₄, hu, hv, rfl, hroles, husers, hps, hms⟩ := traces_all h
  obtain ⟨-, hlater⟩ := told_append.1 htold
  obtain ⟨-, ⟨_, e, horderly, hholds, hheld⟩, -⟩ := told_append.1 hlater
  obtain rfl : held = e.snapshot := hheld
  -- What the pass finds is what its first two stages have left.
  have hlook : Handles x (t.Warrants x) False [⟨.snapshot, e.snapshot⟩] :=
    ⟨False.elim, fun _ d hd => by obtain rfl := List.mem_singleton.1 hd; cases x <;> rfl,
      fun d hd => by obtain rfl := List.mem_singleton.1 hd; trivial⟩
  have hprune := handles_prune hu hv horderly.named hps hms
  have hall := hroles.append (husers.append (hlook.append hprune))
  by_contra hne
  have hc := mt (fun hc => (hall.hit hc).2 before htold) hne
  obtain ⟨hnoRole, hrest⟩ := not_or.1 hc
  obtain ⟨hnoUser, hrest⟩ := not_or.1 hrest
  obtain ⟨-, hrest⟩ := not_or.1 hrest
  obtain ⟨hnoStaleRole, hnoStaleUser⟩ := not_or.1 hrest
  rw [leavesAll_untouched (husers.miss hnoUser), leavesAll_untouched (hroles.miss hnoRole)]
    at hholds
  refine hne ((leavesAll_untouched (hall.miss hc)).trans (hholds.symm.trans ?_))
  -- Nobody has set the rule or found it: it is not held, and its owner is not in the tables.
  cases x with
  | permission p =>
    have hother : p.subject ∉ (u.matchingRoles {}).map Role.id := fun hmem => by
      obtain ⟨r, hr, he⟩ := List.mem_map.1 hmem
      exact hnoRole ⟨r, hr, List.mem_singleton.2 he.symm⟩
    refine iff_of_false (fun hp => ?_) fun hw => ?_
    · exact hnoStaleRole ⟨p.subject, mem_staleRoles.2 ⟨⟨p, hp, rfl⟩, hother⟩, p, rfl, rfl⟩
    · exact hother ((mem_roleIds u).2 (hu.2.warrants_iff.2 hw).1)
  | membership m =>
    have hother : m.user ∉ (v.matchingUsers .enabled).map User.id := fun hmem => by
      obtain ⟨w, hw, he⟩ := List.mem_map.1 hmem
      exact hnoUser ⟨w, hw, he.symm⟩
    refine iff_of_false (fun hm => ?_) fun hw => ?_
    · exact hnoStaleUser ⟨m.user, mem_staleUsers.2 ⟨⟨m, hm, rfl⟩, hother⟩, rfl⟩
    · exact hother ((mem_userIds v).2 (hv.2.warrants_iff.2 hw).1)

end AccessAdmin.Projection
