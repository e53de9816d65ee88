import AccessAdmin.Proofs.Interleaving.Outcomes

/-!
# Reloading beside others

A pass reads the stored roles first and removes the rules of all others last. A role that is created
and projected in between is one of the others: its creator is served, the pass comes to its end, and
the role has no permissions. What a pass leaves right, whatever the engine held before, are the rules
that one client had to itself at last, be it the pass or another client.

* `reload_drops_created_role`: a pass that takes the permissions of a new role away.
* `undisputed_reload_restores`: what holds of all clients beside a pass, in all orders.
-/

namespace AccessAdmin

open Policy

namespace Sample

/-- One client makes a pass, another creates a role that grants the sample's first menu. -/
def audit : List Job :=
  [.reload, .serve (.createRole { name := "Auditor", grants := [⟨"mx", [], ["read"]⟩] }) users {}]

/-- The world of the sample's first menu. -/
def menuWorld : World MemoryStore := serveAll (commands.take 1) { store := {} }

/-- The pass has asked for the roles; then the role is created and projected; then the pass goes
on. -/
def lateOrder : List Nat := List.replicate 2 0 ++ List.replicate 9 1 ++ List.replicate 4 0

/-- The sample's tables with a fresh engine. -/
def restarted : World MemoryStore := { world with engine := {} }

/-- The pass has looked at the engine; then the role is created and projected; then the pass ends. -/
def calmOrder : List Nat := List.replicate 13 0 ++ List.replicate 9 1 ++ [0]

/-- The moves of the pass and, before its end, of the other client. -/
def calmLog : List Turn :=
  [⟨0, .neither⟩, ⟨0, .store⟩, ⟨0, .store⟩, ⟨0, .store⟩, ⟨0, .engine (.removePermissions "rx")⟩,
    ⟨0, .engine (.addPermission "rx" "/orders/:id" "GET")⟩, ⟨0, .neither⟩, ⟨0, .store⟩,
    ⟨0, .store⟩, ⟨0, .engine (.removeMemberships "ux")⟩, ⟨0, .engine (.addMembership "ux" "rx")⟩,
    ⟨0, .neither⟩, ⟨0, .engine .snapshot⟩, ⟨1, .neither⟩, ⟨1, .neither⟩, ⟨1, .store⟩,
    ⟨1, .store⟩, ⟨1, .store⟩, ⟨1, .engine (.removePermissions "rxx")⟩,
    ⟨1, .engine (.addPermission "rxx" "/orders/:id" "GET")⟩, ⟨1, .neither⟩, ⟨1, .neither⟩,
    ⟨0, .neither⟩]

/-- The client that a rule belongs to: the pass, or the one that creates the role. -/
def calmOwner : Rule → Nat
  | .permission p => if p.subject = "rxx" then 1 else 0
  | .membership _ => 0

theorem undisputed_calmLog (x : Rule) : Undisputed calmLog x := by
  have howner : ∀ a ∈ calmLog, a.Touches x → a.client = calmOwner x := by
    rintro a ha ⟨k, hk, ht⟩
    simp only [calmLog, List.mem_cons, List.not_mem_nil, or_false] at ha
    rcases ha with rfl | rfl | rfl | rfl | rfl | rfl | rfl | rfl | rfl | rfl | rfl | rfl | rfl | rfl |
      rfl | rfl | rfl | rfl | rfl | rfl | rfl | rfl | rfl <;> cases hk <;> cases x <;>
      simp_all [calmOwner, Call.touches, Engine.fieldMatches]
  exact undisputed_of_one fun a ha b hb ht ht' =>
    (howner b hb ht').trans (howner a ha ht).symm

end Sample

/-- The pass and the creation of the role both come out well, but the engine does not hold the
permission of the role that the tables come to. -/
theorem reload_drops_created_role :
    ((Sample.menuWorld.hosting Sample.audit).play Sample.env Sample.lateOrder).map
        (fun (_, c) => (c.clients.map Crowd.answer, c.world.tables.roles.map Role.id,
          c.world.tables.projection.permissions, c.world.engine.snapshot.permissions)) =
      some ([some true, some true], ["rx"], [⟨"rx", "/orders/:id", "GET"⟩], []) := by
  decide +kernel

section Runs

variable {env : Surroundings} {names : Naming} {w : World MemoryStore} {jobs : List Job}
  {order : List Nat} {log : List Turn} {c : Crowd}

/-- Whatever clients serve mutations beside a pass, in whatever order the commits, the questions
after them, the steps of the pass and the calls on the engine come, and whatever the engine held
before: if all come out well, then a stored role whose permissions are undisputed has exactly those
that its grants come to, an enabled user whose memberships are undisputed has exactly those that are
stored, and if no rule is disputed, the snapshot of the engine is the projection of the tables. -/
theorem undisputed_reload_restores (henv : env.idName = names.name) (hi : w.Idle)
    (hs : ∃ used, w.tables.Sound used ∧ names.Covers used w.tables) (he : w.engine.Orderly)
    (hreload : .reload ∈ jobs) (h : (w.hosting jobs).play env order = some (log, c))
    (hserved : c.Served) :
    (∀ r ∈ c.world.tables.roles, (∀ p, p.subject = r.id → Undisputed log (.permission p)) →
        ∀ path method, ⟨r.id, path, method⟩ ∈ c.world.engine.permissions ↔
          (path, method) ∈ c.world.tables.rulesOf r.id) ∧
      (∀ u ∈ c.world.tables.users, u.status = .enabled →
        (∀ m, m.user = u.id → Undisputed log (.membership m)) →
          ∀ role, ⟨u.id, role⟩ ∈ c.world.engine.memberships ↔
            ⟨u.id, role⟩ ∈ c.world.tables.userRoles) ∧
      ((∀ x, Undisputed log x) → c.world.engine.snapshot = c.world.tables.projection) := by
  have hall (x : Rule) (hx : Undisputed log x) :
      c.world.engine.Holds x ↔ c.world.tables.Warrants x :=
    Crowd.holds_iff henv hi hs he h hserved hx (.inl hreload)
  have horderly := Crowd.orderly_engine henv hi hs he h
  refine ⟨fun r hr hx path method => ?_, fun u hu henabled hx role => ?_, fun hno => ?_⟩
  · refine (hall (.permission ⟨r.id, path, method⟩) (hx _ rfl)).trans ?_
    rw [Store.Tables.rulesOf, mem_rulesOf rfl]
    exact and_iff_right ⟨r, hr, rfl⟩
  · refine (hall (.membership ⟨u.id, role⟩) (hx _ rfl)).trans ?_
    exact and_iff_right ⟨u, hu, rfl, henabled⟩
  · exact (agrees_iff.2 fun x => hall x (hno x)).snapshot_eq horderly.permissions
      horderly.memberships

end Runs

/-- In the sample a role is created after a pass on a fresh engine has looked at it: the role has
its permission when the pass has come to its end, and the engine agrees with the tables. -/
theorem sample_reload_restores : ∃ log c,
    (Sample.restarted.hosting Sample.audit).play Sample.env Sample.calmOrder = some (log, c) ∧
      c.Served ∧ ⟨"rxx", "/orders/:id", "GET"⟩ ∈ c.world.engine.permissions ∧
      c.world.engine.snapshot = c.world.tables.projection := by
  obtain ⟨used, h, hn⟩ := Sample.reached
  have hrun : ((Sample.restarted.hosting Sample.audit).play Sample.env Sample.calmOrder).map
      (fun (log, c) => (log, c.clients.map Crowd.answer, c.world.tables.roles.map Role.id,
        c.world.tables.rulesOf "rxx")) =
      some (Sample.calmLog, [some true, some true], ["rx", "rxx"], [("/orders/:id", "GET")]) := by
    decide +kernel
  obtain ⟨⟨log, c⟩, hplay, hx⟩ := Option.map_eq_some_iff.1 hrun
  obtain ⟨rfl, hrest⟩ := Prod.mk.inj hx
  obtain ⟨hanswers, hrest⟩ := Prod.mk.inj hrest
  obtain ⟨hroles, hrules⟩ := Prod.mk.inj hrest
  have hserved : c.Served := Crowd.served_of_answers hanswers (by decide)
  have hreload : .reload ∈ Sample.audit := .head _
  obtain ⟨hpermissions, -, hsnapshot⟩ := undisputed_reload_restores (w := Sample.restarted) rfl
    h.idle ⟨used, h.sound, hn⟩ Engine.orderly_empty hreload hplay hserved
  obtain ⟨r, hr, hid⟩ : ∃ r ∈ c.world.tables.roles, r.id = "rxx" :=
    List.mem_map.1 (hroles ▸ by decide)
  refine ⟨_, c, hplay, hserved, ?_, hsnapshot Sample.undisputed_calmLog⟩
  have hrule := hpermissions r hr (fun p _ => Sample.undisputed_calmLog _) "/orders/:id" "GET"
  rw [hid, hrules] at hrule
  exact hrule.2 (.head _)

end AccessAdmin
