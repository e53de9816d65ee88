import AccessAdmin.Proofs.Projecting.Withstands
import AccessAdmin.Proofs.Rebuild

/-!
# Failed projections mix nothing

A projection removes and adds rules one by one, and there is no transaction around it. Still, when
one of its questions to the store fails, what the engine shows of any subject is either what it
showed before or what the tables come to for that subject.

* `Projection.Request`: the projections that can be asked for.
* `Snapshot.OldOrNew`: the listing of every subject is one of two.
* `Reached.unmixed`: every projection, with any faults, on any engine that calls lead to.
-/

namespace AccessAdmin

open Policy

/-! ## Listings by subject -/

/-- Rows that are listed once, and sorted, are the same for a subject if the same rows of the
subject are listed. -/
theorem filter_mergeSort_congr {α : Type} {cmp : α → α → Ordering} [Std.TransCmp cmp]
    [Std.LawfulEqCmp cmp] {xs ys : List α} (hxs : xs.Nodup) (hys : ys.Nodup) {keep : α → Bool}
    (h : ∀ x, keep x = true → (x ∈ xs ↔ x ∈ ys)) :
    (xs.mergeSort fun a b => (cmp a b).isLE).filter keep =
      (ys.mergeSort fun a b => (cmp a b).isLE).filter keep := by
  rw [filter_mergeSort, filter_mergeSort]
  refine eq_of_sorted_perm (pairwise_mergeSort_isLE _) (pairwise_mergeSort_isLE _) ?_
  refine (List.mergeSort_perm _ _).trans (.trans ?_ (List.mergeSort_perm _ _).symm)
  refine (List.perm_ext_iff_of_nodup (hxs.filter _) (hys.filter _)).2 fun x => ?_
  rw [List.mem_filter, List.mem_filter, and_congr_left (h x)]

namespace Policy.Snapshot

/-- The permissions that are listed for a subject. -/
def permissionsOf (s : Snapshot) (subject : String) : List Permission :=
  s.permissions.filter (·.subject = subject)

/-- The memberships that are listed for a user. -/
def membershipsOf (s : Snapshot) (user : String) : List Membership :=
  s.memberships.filter (·.user = user)

/-- What is listed for every subject, and for every user, is as it was or as it should be. -/
structure OldOrNew (old new s : Snapshot) : Prop where
  permissions : ∀ subject, s.permissionsOf subject = old.permissionsOf subject ∨
    s.permissionsOf subject = new.permissionsOf subject
  memberships : ∀ user, s.membershipsOf user = old.membershipsOf user ∨
    s.membershipsOf user = new.membershipsOf user

end Policy.Snapshot

/-- Engines between which nothing is mixed show it. -/
theorem Unmixed.oldOrNew {t : Store.Tables} {e e' : Engine} (h : Unmixed t e e') (he : e.Orderly)
    (he' : e'.Orderly) : e.snapshot.OldOrNew t.projection e'.snapshot where
  permissions subject := by
    unfold Snapshot.permissionsOf Engine.snapshot Store.Tables.projection sortedDistinct
    rw [Permission.listedBefore_eq]
    refine (h.permissions subject).imp (fun hold => ?_) fun hnew => ?_
    · refine filter_mergeSort_congr he'.permissions he.permissions fun p hp => ?_
      exact hold p (of_decide_eq_true hp)
    · refine filter_mergeSort_congr he'.permissions (nodup_eraseDups _) fun p hp => ?_
      rw [List.mem_eraseDups, Store.Tables.mem_permissions]
      exact hnew p (of_decide_eq_true hp)
  memberships user := by
    unfold Snapshot.membershipsOf Engine.snapshot Store.Tables.projection sortedDistinct
    rw [Membership.listedBefore_eq]
    refine (h.memberships user).imp (fun hold => ?_) fun hnew => ?_
    · refine filter_mergeSort_congr he'.memberships he.memberships fun m hm => ?_
      exact hold m (of_decide_eq_true hm)
    · refine filter_mergeSort_congr he'.memberships (nodup_eraseDups _) fun m hm => ?_
      rw [List.mem_eraseDups, Store.Tables.mem_memberships]
      exact hnew m (of_decide_eq_true hm)

/-! ## Projections that are asked for -/

namespace Projection

/-- A projection that can be asked for: of a role, of a user, of the roles that grant a menu, or of
everything. -/
inductive Request where
  | role (id : String)
  | user (id : String)
  | menuGrantees (menuId : String)
  | all
deriving DecidableEq, Repr

namespace Request

/-- What a projection answers. -/
abbrev Answer : Request → Type
  | all => Summary
  | _ => Nat

/-- The projection on a session. -/
def program (s : Session) : (q : Request) → Projecting q.Answer
  | role id => Projection.role s id
  | user id => Projection.user s id
  | menuGrantees menuId => Projection.menuGrantees s menuId
  | all => Projection.all s

/-- Whether a projection is about one subject. -/
def Single : Request → Prop
  | role _ | user _ => True
  | menuGrantees _ | all => False

variable {env : Surroundings} {s : Session} {fails : Prop} {t : Store.Tables} {used : List String}

theorem projects (s : Session) (q : Request) : s.Projects (q.program s) := by
  cases q with
  | role id => exact Session.projects_role id
  | user id => exact Session.projects_user id
  | menuGrantees menuId => exact Session.projects_menuGrantees menuId
  | all => exact Session.projects_all s

/-- After an error nothing is mixed, and the engine is as it was if there is one subject only. -/
theorem withstands (h : t.Sound used) (q : Request) :
    Projecting.Withstands env s.id fails t (q.program s) (fun _ _ => True)
      fun e e' => Unmixed t e e' ∧ (q.Single → e' = e) := by
  have hsame (e e' : Engine) (h : e' = e) : Unmixed t e e' ∧ (q.Single → e' = e) :=
    ⟨h ▸ unmixed_refl t e', fun _ => h⟩
  cases q with
  | role id => exact (withstands_role h id).mono (fun _ _ h => h) hsame
  | user id => exact (withstands_user h id).mono (fun _ _ h => h) hsame
  | menuGrantees menuId =>
    exact (withstands_menuGrantees h menuId).mono (fun _ _ _ => trivial) fun _ _ h =>
      ⟨h, fun hsingle => hsingle.elim⟩
  | all =>
    exact (withstands_all h).mono (fun _ _ h => h) fun _ _ h => ⟨h, fun hsingle => hsingle.elim⟩

end Request

end Projection

/-- In every world that commands lead to, on every engine that calls lead to and that lists nobody
as a member of itself, whatever faults are planned: a projection is answered and leaves the store
alone. If the answer is an error, what the engine shows of every subject is what it showed before or
what the tables come to; a projection of one subject has changed nothing at all. The answer is no
error unless a question to the store has failed. -/
theorem Reached.unmixed {admits : Command → Prop} {used : List String} {w : World MemoryStore}
    {stranded : List Membership} {e : Engine} (h : Reached admits used w) (he : e.Called stranded)
    (hself : ∀ m ∈ e.memberships, m.user ≠ m.role) (env : Surroundings) (s : Session)
    (faults : List Fault) (q : Projection.Request) :
    ∃ r v, World.run env (q.program s).run { w with engine := e, faults := faults } = (some r, v) ∧
      v.store = w.store ∧
      (∀ err, r = .error err →
        e.snapshot.OldOrNew w.tables.projection v.engine.snapshot ∧
          (q.Single → v.engine.snapshot = e.snapshot)) ∧
      (World.Unfailing env (q.program s).run { w with engine := e, faults := faults } →
        ∃ a, r = .ok a) := by
  have hobliging : e.Obliging := ⟨⟨stranded, he⟩, hself⟩
  let v₀ : World MemoryStore := { w with engine := e, faults := [] }
  have hi : v₀.Idle := h.idle
  have hwithstands : Projecting.Withstands env s.id
      (¬World.Unfailing env (q.program s).run (v₀.disturbed faults w.time)) v₀.tables (q.program s)
      _ _ := q.withstands h.sound
  obtain ⟨r, v, d, F, T, hrun, hat, hstore, hout⟩ := (hwithstands e hobliging).run (q.projects s)
    (fun _ he => he.onDesk) (keeps_projection env v₀.store hi s.id) (hi.at rfl s.id) rfl faults
    w.time id
  have hengine : v.engine = d.engine := hat.engine
  refine ⟨r, _, hrun, hstore, fun err herr => ?_, fun hall => ?_⟩
  · obtain ⟨-, hunmixed, hsingle⟩ := hout.error err herr
    show e.snapshot.OldOrNew w.tables.projection v.engine.snapshot ∧ _
    rw [hengine]
    exact ⟨hunmixed.oldOrNew hobliging.orderly hout.obliging.orderly,
      fun hq => congrArg Engine.snapshot (hengine.trans (hsingle hq))⟩
  · cases r with
    | ok a => exact ⟨a, rfl⟩
    | error err => exact absurd hall (hout.error err rfl).1

namespace Sample

/-- An engine that knows the role by an old permission, and the user by an old membership. -/
def outdated : Engine :=
  ((({} : Engine).addPermission "rx" "/old" "GET").2.addMembership "ux" "ry").2

/-- The next question for the roles of a user fails. -/
def unread : Fault := { call := "list_user_roles", damage := .fail (.unexpected "gone") }

end Sample

/-- A pass over the sample that cannot read the roles of the user has set the permissions of the
role anew and left the memberships of the user. One that can read everything succeeds. -/
theorem sample_unmixed :
    (∃ err v, World.run Sample.env (Projection.all ⟨0⟩).run
        { Sample.world with engine := Sample.outdated, faults := [Sample.unread] } =
          (some (.error err), v) ∧
      Sample.outdated.snapshot.OldOrNew Sample.world.tables.projection v.engine.snapshot ∧
      v.engine.snapshot = ⟨[⟨"rx", "/orders/:id", "GET"⟩], [⟨"ux", "ry"⟩]⟩) ∧
    ∃ summary v, World.run Sample.env (Projection.all ⟨0⟩).run
      { Sample.world with engine := Sample.outdated, faults := [] } = (some (.ok summary), v) := by
  obtain ⟨used, h, -⟩ := Sample.reached
  have hcalled : Sample.outdated.Called [] :=
    .call PathPattern.reader (.addMembership "ux" "ry")
      (.call PathPattern.reader (.addPermission "rx" "/old" "GET") .new)
  have hproper : ∀ m ∈ Sample.outdated.memberships, m.user ≠ m.role := by decide +kernel
  constructor
  · obtain ⟨r, v, hrun, -, herror, -⟩ :=
      h.unmixed hcalled hproper Sample.env ⟨0⟩ [Sample.unread] .all
    have hshown : (World.run Sample.env (Projection.all ⟨0⟩).run
        { Sample.world with engine := Sample.outdated, faults := [Sample.unread] }).map
          (Option.map Except.toBool) (·.engine.snapshot) =
        (some false, ⟨[⟨"rx", "/orders/:id", "GET"⟩], [⟨"ux", "ry"⟩]⟩) := by
      decide +kernel
    replace hrun : World.run Sample.env (Projection.all ⟨0⟩).run
        { Sample.world with engine := Sample.outdated, faults := [Sample.unread] } = (some r, v) :=
      hrun
    rw [hrun] at hshown
    obtain ⟨hanswer, hsnapshot⟩ := Prod.mk.inj hshown
    cases r with
    | ok _ => cases hanswer
    | error err => exact ⟨err, v, hrun, (herror err rfl).1, hsnapshot⟩
  · obtain ⟨r, v, hrun, -, -, hok⟩ := h.unmixed hcalled hproper Sample.env ⟨0⟩ [] .all
    obtain ⟨summary, rfl⟩ :=
      hok ((Projection.Request.projects ⟨0⟩ .all).unfailing_projection rfl h.idle)
    exact ⟨summary, v, hrun⟩

end AccessAdmin
