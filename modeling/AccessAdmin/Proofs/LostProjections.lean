import AccessAdmin.Proofs.Interleaving.Outcomes

/-!
# Lost projections

Nothing orders the projections of clients that work side by side. A client may read the assignments
of a user, another may disable the user and remove its memberships, and then the first one writes
back what it has read: both are served, and the membership stays. A rule can be lost in this way only
if the last client to touch it was not alone with it from its transaction on, so two clients had it
in hand at once; without such rules the engine agrees with the tables when all clients are served.

* `membership_outlives_disabling`: two clients that leave a disabled user its membership.
* `undisputed_runs_agree`: what holds of all clients in all orders.
-/

namespace AccessAdmin

open Policy

namespace Sample

/-- One client updates the sample's user and leaves it enabled, another disables it. -/
def rivals : List Job :=
  [.serve (.updateUser "ux" { username := "clerk", roleIds := ["rx"] }) users {},
    .serve (.updateStatus "ux" .disabled) users {}]

/-- The update is committed, then the other client disables the user and projects it, and only then
the update is projected. -/
def rivalOrder : List Nat := [0, 0, 0, 1, 1, 1, 1, 1, 0, 0, 0, 0, 0]

/-- One client updates the sample's role, another disables its user. -/
def mates : List Job :=
  [.serve (.updateRole "rx" { name := "Clerk", grants := [⟨"mx", [], ["read"]⟩] }) users {},
    .serve (.updateStatus "ux" .disabled) users {}]

/-- The clients take turns. -/
def mateOrder : List Nat := [0, 1, 0, 1, 0, 1, 0, 1, 0, 1, 0, 0, 0, 0]

/-- The moves of the two. -/
def mateLog : List Turn :=
  [⟨0, .neither⟩, ⟨1, .neither⟩, ⟨0, .neither⟩, ⟨1, .neither⟩, ⟨0, .store⟩, ⟨1, .store⟩,
    ⟨0, .store⟩, ⟨1, .engine (.removeMemberships "ux")⟩, ⟨0, .store⟩, ⟨1, .neither⟩,
    ⟨0, .engine (.removePermissions "rx")⟩,
    ⟨0, .engine (.addPermission "rx" "/orders/:id" "GET")⟩, ⟨0, .neither⟩, ⟨0, .neither⟩]

/-- The client that a rule belongs to. -/
def mateOf : Rule → Nat
  | .permission _ => 0
  | .membership _ => 1

theorem undisputed_mateLog (x : Rule) : Undisputed mateLog x := by
  have howner : ∀ a ∈ mateLog, a.Touches x → a.client = mateOf x := by
    rintro a ha ⟨k, hk, ht⟩
    simp only [mateLog, List.mem_cons, List.not_mem_nil, or_false] at ha
    rcases ha with rfl | rfl | rfl | rfl | rfl | rfl | rfl | rfl | rfl | rfl | rfl | rfl | rfl | rfl
      <;> cases hk <;> cases x <;> first | rfl | cases ht
  exact undisputed_of_one fun a ha b hb ht ht' =>
    (howner b hb ht').trans (howner a ha ht).symm

end Sample

/-- Both clients are served and the user is disabled, but the engine keeps its membership for
good. -/
theorem membership_outlives_disabling :
    Sample.world.engine.snapshot = Sample.world.tables.projection ∧
      ((Sample.world.hosting Sample.rivals).play Sample.env Sample.rivalOrder).map
        (fun (_, c) => (c.clients.map Crowd.answer, c.world.tables.users.map User.status,
          c.world.tables.projection.memberships, c.world.engine.snapshot.memberships)) =
      some ([some true, some true], [.disabled], [], [⟨"ux", "rx"⟩]) := by
  decide +kernel

section Runs

variable {env : Surroundings} {names : Naming} {w : World MemoryStore} {jobs : List Job}
  {order : List Nat} {log : List Turn} {c : Crowd}

/-- Whatever clients serve mutations side by side, in whatever order their commits, the questions
after them and the calls on the engine come: if the engine agreed with the tables before and all are
served, then an undisputed rule is held just if the tables come to it, an undisputed membership
belongs to an enabled user, and if no rule is disputed, the snapshot of the engine is the projection
of the tables. -/
theorem undisputed_runs_agree (henv : env.idName = names.name) (hi : w.Idle)
    (hs : ∃ used, w.tables.Sound used ∧ names.Covers used w.tables) (he : w.engine.Orderly)
    (hagrees : w.engine.snapshot = w.tables.projection)
    (h : (w.hosting jobs).play env order = some (log, c)) (hserved : c.Served) :
    (∀ x, Undisputed log x → (c.world.engine.Holds x ↔ c.world.tables.Warrants x)) ∧
      (∀ m ∈ c.world.engine.memberships, Undisputed log (.membership m) →
        ∃ u ∈ c.world.tables.users, u.id = m.user ∧ u.status = .enabled) ∧
      ((∀ x, Undisputed log x) → c.world.engine.snapshot = c.world.tables.projection) := by
  have hstart := agrees_iff.1 (agrees_of_snapshot hagrees)
  have hall (x : Rule) (hx : Undisputed log x) :
      c.world.engine.Holds x ↔ c.world.tables.Warrants x :=
    Crowd.holds_iff henv hi hs he h hserved hx (.inr (hstart x))
  have horderly := Crowd.orderly_engine henv hi hs he h
  refine ⟨hall, fun m hm hx => ((hall (.membership m) hx).1 hm).1, fun hno => ?_⟩
  exact (agrees_iff.2 fun x => hall x (hno x)).snapshot_eq horderly.permissions
    horderly.memberships

end Runs

/-- In the sample one client updates the role while another disables its user: both are served, and
the engine agrees with the tables. -/
theorem sample_mates_agree : ∃ log c,
    (Sample.world.hosting Sample.mates).play Sample.env Sample.mateOrder = some (log, c) ∧
      c.Served ∧ c.world.engine.snapshot = c.world.tables.projection ∧
      c.world.tables.projection = ⟨[⟨"rx", "/orders/:id", "GET"⟩], []⟩ := by
  obtain ⟨used, h, hn⟩ := Sample.reached
  obtain ⟨hcoherent, hagrees⟩ := h.agrees
  have hrun : ((Sample.world.hosting Sample.mates).play Sample.env Sample.mateOrder).map
      (fun (log, c) => (log, c.clients.map Crowd.answer, c.world.tables.projection)) =
      some (Sample.mateLog, [some true, some true], ⟨[⟨"rx", "/orders/:id", "GET"⟩], []⟩) := by
    decide +kernel
  obtain ⟨⟨log, c⟩, hplay, hx⟩ := Option.map_eq_some_iff.1 hrun
  obtain ⟨rfl, hrest⟩ := Prod.mk.inj hx
  obtain ⟨hanswers, hprojection⟩ := Prod.mk.inj hrest
  have hserved : c.Served := Crowd.served_of_answers hanswers (by decide)
  obtain ⟨-, -, hsnapshot⟩ := undisputed_runs_agree rfl h.idle ⟨used, h.sound, hn⟩
    ⟨hcoherent.permissions, hcoherent.memberships, hagrees.named h.sound⟩
    (hcoherent.snapshot_eq hagrees) hplay hserved
  exact ⟨_, c, hplay, hserved, hsnapshot Sample.undisputed_mateLog, hprojection⟩

end AccessAdmin
