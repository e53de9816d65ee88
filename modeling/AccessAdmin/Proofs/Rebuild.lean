import AccessAdmin.Proofs.Changes.Lasting
import AccessAdmin.Proofs.Decisions
import AccessAdmin.Proofs.Projecting.Passes

/-!
# Rebuilding the engine

The engine is derived state: a pass over everything makes an engine that has gone astray, or a fresh
one, hold what the tables come to, and then it decides as the engine that was kept up all along.

* `Policy.Agrees.length_permissions`, `Policy.Agrees.length_memberships`: what a pass counts is what
  the engine holds.
* `Projecting.Gives.runs`: a projection in an idle world.
* `Maintained`: the worlds whose engines were kept up by commands.
* `Reached.rebuilt`: a pass in any reached world, on any engine that accepted calls lead to.
-/

namespace AccessAdmin

open Policy

/-! ## Counts -/

section Counts

variable {t : Store.Tables} {used : List String} {e : Engine}

theorem Store.Tables.Sound.roles (h : t.Sound used) : (t.roles.map Role.id).Nodup :=
  (List.nodup_append.1 (List.nodup_append.1 h.ids.distinct).1).2.1

theorem Store.Tables.nodup_rulesOf (t : Tables) (id : String) : (t.rulesOf id).Nodup :=
  (List.mergeSort_perm _ _).nodup_iff.2 (nodup_eraseDups _)

/-- The rules of all stored roles together are the permissions that the engine holds. -/
theorem Policy.Agrees.length_permissions (ha : Agrees t e) (he : e.Coherent) (h : t.Sound used)
    {roles : List Role} (hroles : roles.Perm t.roles) :
    (roles.map fun r => (t.rulesOf r.id).length).sum = e.permissions.length := by
  let rows (r : Role) : List Permission := (t.rulesOf r.id).map fun x => ⟨r.id, x.1, x.2⟩
  have hrows (r : Role) : (rows r).length = (t.rulesOf r.id).length := List.length_map _
  have hnodup : (t.roles.flatMap rows).Nodup := by
    refine List.nodup_flatMap.2 ⟨fun r _ => ?_, ?_⟩
    · refine (t.nodup_rulesOf r.id).map fun x y hxy => ?_
      obtain ⟨-, hpath, hmethod⟩ := Permission.mk.inj hxy
      exact Prod.ext hpath hmethod
    · refine (List.pairwise_map.1 h.roles).imp fun {r r'} hne => ?_
      intro p hp hp'
      obtain ⟨x, -, rfl⟩ := List.mem_map.1 hp
      obtain ⟨y, -, hy⟩ := List.mem_map.1 hp'
      exact hne (Permission.mk.inj hy).1.symm
  have hmem (p : Permission) : p ∈ t.roles.flatMap rows ↔ p ∈ e.permissions := by
    rw [ha.permissions]
    simp only [rows, List.mem_flatMap, List.mem_map, Store.Tables.rulesOf, mem_rulesOf rfl]
    constructor
    · rintro ⟨r, hr, x, hyields, rfl⟩
      exact ⟨⟨r, hr, rfl⟩, hyields⟩
    · rintro ⟨⟨r, hr, hid⟩, hyields⟩
      exact ⟨r, hr, (p.path, p.method), hid ▸ hyields, by rw [hid]⟩
  calc (roles.map fun r => (t.rulesOf r.id).length).sum
      = (t.roles.map fun r => (rows r).length).sum := by
        simp only [hrows, (hroles.map _).sum_nat]
    _ = (t.roles.flatMap rows).length := List.length_flatMap.symm
    _ = e.permissions.length := ((List.perm_ext_iff_of_nodup hnodup he.permissions).2 hmem).length_eq

/-- The assignments of all enabled users together are the memberships that the engine holds. -/
theorem Policy.Agrees.length_memberships (ha : Agrees t e) (he : e.Coherent) (h : t.Sound used)
    (hassigned : t.userRoles.Nodup) {users : List User}
    (husers : users.Perm (t.users.filter (·.status == .enabled))) :
    (users.map fun u => (t.userRoles.filter (·.userId == u.id)).length).sum =
      e.memberships.length := by
  have hlength : t.memberships.length =
      ((t.users.filter (·.status == .enabled)).map fun u =>
        (t.userRoles.filter (·.userId == u.id)).length).sum := by
    simp only [Store.Tables.memberships, List.length_flatMap, List.length_map]
  have hnodup : t.memberships.Nodup := by
    refine List.nodup_flatMap.2 ⟨fun u _ => ?_, ?_⟩
    · refine (List.nodup_map_iff_inj_on (hassigned.filter _)).2 fun a ha b hb hab => ?_
      obtain ⟨userId, roleId⟩ := a
      obtain ⟨userId', roleId'⟩ := b
      obtain rfl := beq_iff_eq.1 (List.mem_filter.1 ha).2
      obtain rfl := beq_iff_eq.1 (List.mem_filter.1 hb).2
      obtain rfl : roleId = roleId' := (Membership.mk.inj hab).2
      rfl
    · refine ((List.pairwise_map.1 h.users).filter _).imp fun {u u'} hne => ?_
      intro m hm hm'
      obtain ⟨a, -, rfl⟩ := List.mem_map.1 hm
      obtain ⟨b, -, hb⟩ := List.mem_map.1 hm'
      exact hne (Membership.mk.inj hb).1.symm
  have hmem (m : Membership) : m ∈ t.memberships ↔ m ∈ e.memberships :=
    Store.Tables.mem_memberships.trans (ha.memberships m).symm
  rw [(husers.map _).sum_nat, ← hlength]
  exact ((List.perm_ext_iff_of_nodup hnodup he.memberships).2 hmem).length_eq

end Counts

/-! ## Running a pass -/

namespace Session

variable {s : Session}

theorem projects_total {α : Type} {items : List α} {act : α → Projecting Nat}
    (h : ∀ x, s.Projects (act x)) : s.Projects (Projecting.total items act) := by
  induction items with
  | nil => exact projects_pure 0
  | cons x rest ih => exact (h x).bind fun _ => ih.bind fun _ => projects_pure _

theorem projects_all (s : Session) : s.Projects (Projection.all s) := by
  refine (projects_ask _).bind fun roles => ?_
  refine (projects_total fun r : Role => projects_role r.id).bind fun _ => ?_
  refine (projects_ask _).bind fun users => ?_
  refine (projects_total fun u : User => projects_user u.id).bind fun _ => ?_
  have hlook : s.Projects (liftM (Program.perform (.policy .snapshot)) : Projecting Snapshot) :=
    ⟨trivial, fun _ hf => hf.elim, fun _ _ _ => trivial⟩
  refine hlook.bind fun held => ?_
  refine (projects_forAll fun id => projects_engine (steady_removePermissions id)).bind fun _ => ?_
  refine (projects_forAll fun id => projects_engine (steady_removeMemberships id)).bind fun _ => ?_
  exact projects_pure _

end Session

/-- In an idle world with a coherent engine a projection is answered. -/
theorem Projecting.Gives.runs {α : Type} {env : Surroundings} {s : Session} {p : Projecting α}
    {R : Engine → α → Engine → Prop} {v : World MemoryStore}
    (h : Gives env s.id v.tables p R) (hp : s.Projects p) (hv : v.faults = []) (hi : v.Idle)
    (he : v.engine.Coherent) :
    ∃ a v', World.run env p.run v = (some (.ok a), v') ∧ v'.faults = [] ∧ v'.store = v.store ∧
      v'.engine.Coherent ∧ R v.engine a v'.engine := by
  have ht (e : Effect) (he : e.OfProjection s.id) : e.Timeless := he.onDesk.timeless
  obtain ⟨r, v', hrun, -, hv', hst, -⟩ := hp.run (keeps_projection env v.store hi s.id) ht hv rfl
  obtain ⟨d', hends, hat⟩ := hp.ends (fun _ he => he.onDesk) (hi.at hv s.id) hrun
  have hi' : v'.Idle := by
    rw [World.Idle, hst]
    exact hi
  rw [hi'.desk_eq hat] at hends
  obtain ⟨⟨a, rfl⟩, hcoherent⟩ := h.safe he hends
  exact ⟨a, v', hrun, hv', hst, hcoherent, (h.ok hends).2⟩

/-! ## Engines that are kept up -/

/-- The worlds that sequences of commands lead to of which none was answered with a policy error. -/
inductive Maintained : List String → World MemoryStore → Prop where
  | start {w : World MemoryStore} : w.store.shared = {} → w.engine = {} → Maintained [] w
  | step {used : List String} {w : World MemoryStore} (q : Command) : Maintained used w →
      q.env.FreshFor used w.tables → (∀ e, (q.run w).1 = some (.error e) → ¬e.Stale) →
      Maintained ((q.run w).2.tables.ids ++ used) (q.run w).2

section Maintained

variable {used : List String} {w : World MemoryStore}

theorem Maintained.reached (h : Maintained used w) : Reached (fun _ => True) used w := by
  induction h with
  | start hst he => exact .start hst he
  | step q _ hf _ ih => exact ih.step q trivial hf

/-- Whatever fails on the way, without a policy error the engine agrees with the tables. -/
theorem Maintained.agrees (h : Maintained used w) : w.engine.Coherent ∧ Agrees w.tables w.engine := by
  induction h with
  | start hst he =>
    rw [World.tables, hst, he]
    exact ⟨Engine.coherent_empty, agrees_empty⟩
  | @step used w q hm hf hplain ih =>
    obtain ⟨rc, vc, r, w', -, hrun, -, -, hout⟩ := q.run_outcome hm.reached.idle
    rw [hrun] at hplain ⊢
    have hsame (hdesk : w'.desk = w.desk) : w'.engine.Coherent ∧ Agrees w'.tables w'.engine := by
      obtain ⟨htables, hengine⟩ := Desk.mk.inj hdesk
      rw [htables, hengine]
      exact ih
    cases hout with
    | refused _ _ _ _ _ hdesk => exact hsame hdesk
    | committed hcommits _ hends =>
      obtain ⟨a, -, hcovers, hdone, hok⟩ := hcommits.followed hm.reached.sound hf
      obtain ⟨hr, hcoherent⟩ := hok ih.1
      obtain ⟨_, -, -, hdesk⟩ | ⟨e, rfl, he, -⟩ | ⟨-, hdesk⟩ := hends
      · exact hsame hdesk
      · exact (hplain e rfl he).elim
      · obtain ⟨htables, hengine⟩ := Desk.mk.inj hdesk
        rw [htables, hengine]
        exact ⟨hcoherent, (hdone hr).2.agrees hcovers ih.2⟩

/-- Commands that nothing disturbs are never answered with a policy error. -/
theorem Reached.maintained (h : Reached (fun q => q.faults = []) used w) : Maintained used w := by
  induction h with
  | start hst he => exact .start hst he
  | step q hreached hq hf ih =>
    refine ih.step q hf fun e he hstale => ?_
    obtain ⟨rc, vc, r, w', hclean, hrun, -, -, hout⟩ := q.run_outcome hreached.idle
    obtain ⟨hr, -⟩ := Prod.mk.inj ((hclean.symm.trans (q.run_undisturbed hq)).trans hrun)
    obtain rfl := Option.some.inj hr
    rw [hrun] at he
    obtain rfl := Option.some.inj he
    obtain ⟨p, rfl⟩ := hstale
    cases hout with
    | refused hec hplain _ _ _ _ => exact hplain p (Except.error.inj hec).symm
    | committed hcommits _ _ =>
      obtain ⟨_, -, -, -, hok⟩ := hcommits.followed hreached.sound hf
      obtain ⟨⟨b, hb⟩, -⟩ := hok ih.agrees.1
      cases hb

end Maintained

/-! ## A pass in a world -/

/-- In an engine that agrees with sound tables everything belongs to somebody. -/
theorem Policy.Agrees.named {t : Store.Tables} {used : List String} {e : Engine} (ha : Agrees t e)
    (h : t.Sound used) : e.Named where
  subjects p hp := by
    obtain ⟨⟨r, hr, hid⟩, -⟩ := (ha.permissions p).1 hp
    exact hid ▸ h.role_ne_empty hr
  users m hm := by
    obtain ⟨⟨u, hu, hid, -⟩, -⟩ := (ha.memberships m).1 hm
    exact hid ▸ h.user_ne_empty hu

/-- Engines that agree with the same tables decide alike, if the stored patterns can be compiled,
whatever they are read to cover. -/
theorem Policy.Agrees.evaluate_eq {t : Store.Tables} {used : List String} {e e' : Engine}
    {reads : PathPattern.Reader} {s : String} (h : t.Sound used) (he : e.Coherent)
    (ha : Agrees t e) (he' : e'.Coherent) (ha' : Agrees t e')
    (hpatterns : ∀ x ∈ t.menuResources, (reads x.path).isSome) (hs : s ≠ "")
    (path method : String) : e.evaluate reads s path method = e'.evaluate reads s path method := by
  have hdecides {e : Engine} (he : e.Coherent) (ha : Agrees t e) :
      ∃ b, e.evaluate reads s path method = some b ∧
        (b = true ↔ t.Permits reads s path method) := by
    have hcompile (p : Permission) (hp : p ∈ e.permissions) :
        (reads p.path).isSome = true := by
      obtain ⟨-, g, -, x, hx, hy⟩ := (ha.permissions p).1 hp
      exact hy.path ▸ hpatterns x hx
    obtain ⟨b, hb, hiff⟩ := Engine.evaluate_iff path method hcompile
      (ha.not_reaches_empty h he hs)
    exact ⟨b, hb, hiff.trans (ha.allows_iff h he)⟩
  obtain ⟨b, hb, hiff⟩ := hdecides he ha
  obtain ⟨b', hb', hiff'⟩ := hdecides he' ha'
  rw [hb, hb', Bool.eq_iff_iff.2 (hiff.trans hiff'.symm)]

/-- The world `v` is what a pass makes of the world `w`, and the summary counts what is there. -/
structure Rebuilt (w : World MemoryStore) (summary : Projection.Summary) (v : World MemoryStore) :
    Prop where
  store : v.store = w.store
  snapshot : v.engine.snapshot = w.tables.projection
  roles : summary.roles = w.tables.roles.length
  users : summary.users = (w.tables.users.filter (·.status == .enabled)).length
  permissions : summary.permissions = v.engine.permissions.length
  memberships : summary.memberships = v.engine.memberships.length

section Pass

variable {env : Surroundings} {s : Session} {used : List String} {w v : World MemoryStore}

variable (env s) in
/-- A pass on an engine that is coherent and whose rules all have a subject. -/
theorem run_all (h : v.tables.Sound used) (hassigned : v.tables.userRoles.Nodup)
    (hv : v.faults = []) (hi : v.Idle) (he : v.engine.Coherent) (hn : v.engine.Named) :
    ∃ summary v', World.run env (Projection.all s).run v = (some (.ok summary), v') ∧
      Rebuilt v summary v' ∧ v'.faults = [] ∧ v'.engine.Coherent ∧ Agrees v.tables v'.engine ∧
      (Agrees v.tables v.engine → summary.pruned = 0) := by
  have hall : Projecting.Gives env s.id v.tables (Projection.all s) (Projection.Pass v.tables) :=
    Projection.gives_all h
  obtain ⟨summary, v', hrun, hv', hst, he', hpass⟩ := hall.runs (Session.projects_all s) hv hi he
  have ha' := hpass.agrees h hn
  refine ⟨summary, v', hrun, ?_, hv', he', ha', hpass.pruned_eq_zero⟩
  have hroles := Projection.matchingRoles_perm v.tables
  have husers := Projection.matchingUsers_perm v.tables
  obtain ⟨_, _, _, -, -, -, -, rfl⟩ := hpass
  exact
    { store := hst
      snapshot := he'.snapshot_eq ha'
      roles := hroles.length_eq
      users := husers.length_eq
      permissions := ha'.length_permissions he' h hroles
      memberships := ha'.length_memberships he' h hassigned husers }

/-- In every world that commands lead to, whatever accepted calls made of the engine, a pass makes
it hold what the tables come to, and its summary counts what is there; a second pass changes and
prunes nothing; and with any reader that can compile the stored patterns the engine decides as the
one that commands kept up. -/
theorem Reached.rebuilt {admits : Command → Prop} {e : Engine} (h : Reached admits used w)
    (he : e.Obtained) (hself : ∀ m ∈ e.memberships, m.user ≠ m.role) (env : Surroundings)
    (s : Session) :
    ∃ summary v,
      World.run env (Projection.all s).run { w with engine := e, faults := [] } =
        (some (.ok summary), v) ∧
      Rebuilt w summary v ∧
      (∀ env' s', ∃ summary' v',
        World.run env' (Projection.all s').run v = (some (.ok summary'), v') ∧
          v'.engine.snapshot = v.engine.snapshot ∧ summary'.pruned = 0) ∧
      (Maintained used w → ∀ reads : PathPattern.Reader,
        (∀ x ∈ w.tables.menuResources, (reads x.path).isSome) →
          ∀ subject path method, subject ≠ "" →
            v.engine.evaluate reads subject path method =
              w.engine.evaluate reads subject path method) := by
  have hsound := h.sound
  obtain ⟨summary, v, hrun, hrebuilt, hv, hcoherent, hagrees, -⟩ :=
    run_all env s (v := { w with engine := e, faults := [] }) hsound h.assignments_nodup rfl h.idle
      (he.coherent hself) he.orderly.named
  replace hagrees : Agrees w.tables v.engine := hagrees
  refine ⟨summary, v, hrun, ⟨hrebuilt.store, hrebuilt.snapshot, hrebuilt.roles, hrebuilt.users,
    hrebuilt.permissions, hrebuilt.memberships⟩, fun env' s' => ?_, fun hm reads hpatterns subject
    path method hsubject => ?_⟩
  · have htables : v.tables = w.tables := congrArg (·.shared.tables) hrebuilt.store
    have hidle : v.Idle := by
      rw [World.Idle, hrebuilt.store]
      exact h.idle
    obtain ⟨summary', v', hrun', hrebuilt', -, -, -, hpruned⟩ :=
      run_all env' s' (htables ▸ hsound) (htables ▸ h.assignments_nodup) hv hidle hcoherent
        (hagrees.named hsound)
    refine ⟨summary', v', hrun', ?_, hpruned (htables ▸ hagrees)⟩
    rw [hrebuilt'.snapshot, htables]
    exact hrebuilt.snapshot.symm
  · obtain ⟨hcoherent', hagrees'⟩ := hm.agrees
    exact hagrees.evaluate_eq hsound hcoherent hcoherent' hagrees' hpatterns hsubject path method

end Pass

/-- An engine that holds rules of a subject no table knows. -/
def Sample.stray : Engine :=
  ((({} : Engine).addPermission "ghost" "/x" "GET").2.addMembership "ghost" "rx").2

/-- In the sample a pass on the stray engine makes it hold the one permission and the one membership
of the tables, and decide as the engine of the sample. -/
theorem sample_rebuilt : ∃ summary v,
    World.run Sample.env (Projection.all ⟨0⟩).run
      { Sample.world with engine := Sample.stray, faults := [] } = (some (.ok summary), v) ∧
    v.engine.snapshot = ⟨[⟨"rx", "/orders/:id", "GET"⟩], [⟨"ux", "rx"⟩]⟩ ∧
    v.engine.evaluate PathPattern.reader "ux" "/orders/7" "GET" =
      Sample.world.engine.evaluate PathPattern.reader "ux" "/orders/7" "GET" := by
  obtain ⟨used, h, -⟩ := Sample.reached
  have hobtained : Sample.stray.Obtained :=
    .call PathPattern.reader (.addMembership "ghost" "rx")
      (.call PathPattern.reader (.addPermission "ghost" "/x" "GET") .empty ⟨true, rfl⟩) ⟨true, rfl⟩
  obtain ⟨summary, v, hrun, hrebuilt, -, hdecides⟩ :=
    h.rebuilt hobtained (by decide +kernel) Sample.env ⟨0⟩
  have hprojection : Sample.world.tables.projection =
      ⟨[⟨"rx", "/orders/:id", "GET"⟩], [⟨"ux", "rx"⟩]⟩ := by decide +kernel
  exact ⟨summary, v, hrun, hrebuilt.snapshot.trans hprojection,
    hdecides h.maintained PathPattern.reader (by decide +kernel) "ux" "/orders/7" "GET" (by decide)⟩

end AccessAdmin
