import AccessAdmin.Proofs.Engine.Decision
import AccessAdmin.Proofs.Projecting.Agreement

/-!
# Decisions follow the stored assignments

While no call on the store fails, the engine decides what the tables say: a request is allowed if a
role that the subject is, or that an enabled subject has assigned, has a grant that covers it. Which
paths a pattern covers is told by a reader of patterns, and this holds for every reader.

* `Store.Tables.Permits`: what the tables say of a request.
* `Reached.evaluate_iff_permits`: the engine decides the same.
-/

namespace AccessAdmin

open Policy

/-- A stored role has a stored grant, by its code, of a stored resource with the method and with a
pattern that covers the path; and the subject is the role, or is a stored and enabled user with the
role assigned. -/
def Store.Tables.Permits (t : Tables) (reads : PathPattern.Reader) (s path method : String) : Prop :=
  ∃ r ∈ t.roles, ∃ g ∈ t.roleMenus, ∃ x ∈ t.menuResources,
    g.roleId = r.id ∧ x.menuId = g.menuId ∧ x.code ∈ g.resources ∧
    x.method ≠ "" ∧ x.path ≠ "" ∧
    x.method = method ∧ PathPattern.covers? reads x.path path = some true ∧
    (s = r.id ∨ ((∃ u ∈ t.users, u.id = s ∧ u.status = .enabled) ∧ ⟨s, r.id⟩ ∈ t.userRoles))

variable {used : List String} {t : Store.Tables} {e : Engine} {reads : PathPattern.Reader}
  {s path method : String}

/-- In sound tables no role is a user, so in an engine that agrees no role is a member of
anything. -/
theorem Policy.Agrees.flat (ha : Agrees t e) (h : t.Sound used) :
    ∀ m ∈ e.memberships, ∀ m' ∈ e.memberships, m.role ≠ m'.user := by
  intro m hm m' hm'
  obtain ⟨-, hassigned⟩ := (ha.memberships m).1 hm
  obtain ⟨r, hr, hrole⟩ := List.mem_map.1 (h.assigned _ hassigned).2
  obtain ⟨⟨u, hu, huser, -⟩, -⟩ := (ha.memberships m').1 hm'
  rw [← huser, ← show r.id = m.role from hrole]
  exact (h.user_ne_role hu hr).symm

/-- Nobody is a member of the empty name. -/
theorem Policy.Agrees.not_reaches_empty (ha : Agrees t e) (h : t.Sound used) (he : e.Coherent)
    (hs : s ≠ "") : e.graph.reaches s "" = false := by
  rw [Bool.eq_false_iff, ne_eq, he.graph.reaches_iff (ha.flat h)]
  rintro (hempty | hm)
  · exact hs hempty
  · obtain ⟨r, hr, hrole⟩ := List.mem_map.1 (h.assigned _ ((ha.memberships _).1 hm).2).2
    exact h.role_ne_empty hr hrole

/-- The permissions of an engine that agrees with the tables allow what the tables say. -/
theorem Policy.Agrees.allows_iff (ha : Agrees t e) (h : t.Sound used) (he : e.Coherent) :
    (∃ p ∈ e.permissions, e.Allows reads s path method p) ↔ t.Permits reads s path method := by
  simp only [Engine.Allows, he.graph.reaches_iff (ha.flat h), ha.permissions, ha.memberships]
  constructor
  · rintro ⟨p, ⟨⟨r, hr, hsubject⟩, g, hg, x, hx, hy⟩, hreach, hcovers, hmethod⟩
    rw [← hsubject] at hreach
    exact ⟨r, hr, g, hg, x, hx, hy.subject.trans hsubject.symm, hy.menu, hy.code,
      hy.enforceable.1, hy.enforceable.2, hy.method.trans hmethod, hy.path ▸ hcovers, hreach⟩
  · rintro ⟨r, hr, g, hg, x, hx, hrole, hmenu, hcode, hm, hp, hmethod, hcovers, hreach⟩
    exact ⟨⟨r.id, x.path, x.method⟩, ⟨⟨r, hr, rfl⟩, g, hg, x, hx, hrole, hmenu, hcode, rfl, rfl,
      hm, hp⟩, hreach, hcovers, hmethod⟩

/-- Whoever is neither a stored role nor a stored and enabled user is permitted nothing. -/
theorem Store.Tables.not_permits (hrole : ∀ r ∈ t.roles, r.id ≠ s)
    (huser : ∀ u ∈ t.users, u.id = s → u.status ≠ .enabled) : ¬t.Permits reads s path method := by
  rintro ⟨r, hr, -, -, -, -, -, -, -, -, -, -, -, rfl | ⟨⟨u, hu, he, hstatus⟩, -⟩⟩
  · exact hrole r hr rfl
  · exact huser u hu he hstatus

/-- After an undisturbed sequence of commands, if a reader can compile all stored patterns, the
engine answers every request of every subject with a name as the tables say. Whoever is disabled,
deleted or unknown, and not a role, is denied everything. -/
theorem Reached.evaluate_iff_permits {w : World MemoryStore}
    (h : Reached (fun q => q.faults = []) used w)
    (hpatterns : ∀ x ∈ w.tables.menuResources, (reads x.path).isSome = true)
    (hs : s ≠ "") (path method : String) :
    (w.engine.evaluate reads s path method = some true ↔ w.tables.Permits reads s path method) ∧
      (w.engine.evaluate reads s path method = some false ↔ ¬w.tables.Permits reads s path method) ∧
      ((∀ r ∈ w.tables.roles, r.id ≠ s) →
        (∀ u ∈ w.tables.users, u.id = s → u.status ≠ .enabled) →
          w.engine.evaluate reads s path method = some false) := by
  obtain ⟨he, ha⟩ := h.agrees
  have hsound := h.sound
  have hcompile (p : Permission) (hp : p ∈ w.engine.permissions) :
      (reads p.path).isSome = true := by
    obtain ⟨-, g, -, x, hx, hy⟩ := (ha.permissions p).1 hp
    rw [← hy.path]
    exact hpatterns x hx
  obtain ⟨b, hb, hiff⟩ := Engine.evaluate_iff path method hcompile
    (ha.not_reaches_empty hsound he hs)
  rw [ha.allows_iff hsound he] at hiff
  simp only [hb, Option.some.injEq, ← hiff, Bool.not_eq_true, true_and]
  intro hrole huser
  rw [Bool.eq_false_iff, ne_eq, hiff]
  exact Store.Tables.not_permits hrole huser

/-- In the sample the user may read what the role may, and a name that is neither may not. -/
theorem sample_decisions :
    Sample.world.engine.evaluate PathPattern.reader "ux" "/orders/7" "GET" = some true ∧
    Sample.world.tables.Permits PathPattern.reader "ux" "/orders/7" "GET" ∧
    Sample.world.engine.evaluate PathPattern.reader "mx" "/orders/7" "GET" = some false := by
  obtain ⟨used, h, -⟩ := Sample.reached
  have hpatterns : ∀ x ∈ Sample.world.tables.menuResources,
      (PathPattern.reader x.path).isSome = true := by decide +kernel
  have huser := h.evaluate_iff_permits hpatterns (by decide : "ux" ≠ "") "/orders/7" "GET"
  have hother := h.evaluate_iff_permits hpatterns (by decide : "mx" ≠ "") "/orders/7" "GET"
  have hallowed : Sample.world.engine.evaluate PathPattern.reader "ux" "/orders/7" "GET" =
      some true := by decide +kernel
  exact ⟨hallowed, huser.1.1 hallowed, hother.2.2 (by decide +kernel) (by decide +kernel)⟩

end AccessAdmin
