import AccessAdmin.Proofs.Engine.Decision
import AccessAdmin.Proofs.Origins.Services
import AccessAdmin.Proofs.Sequences

/-!
# Requests without a decision

A path pattern is compiled when a request comes to it, and a pattern that cannot be compiled ends
the request without a decision. Nothing looks at a pattern before: a menu may be described with any
path. So there may be requests without a decision, and these are the ones that come to a permission
with such a pattern before any permission allows them. The patterns are those of described
resources, so if all of these can be compiled, every request is decided. Which patterns can be
compiled is told by a reader of patterns. Of the reader it matters only that it can compile the
empty pattern, the one that an engine without permissions looks at.

* `Policy.Engine.evaluate_eq_none`: when the engine does not decide.
* `Errand`, `afterAll`: any calls of the services, one after the other.
* `decided_if_compiling`: which requests are decided after them.
* `open_bracket_undecided`: a described path that leaves a request without a decision.
-/

namespace AccessAdmin

/-! ## The engine -/

namespace Policy.Engine

variable {reads : PathPattern.Reader} {e : Engine} {s path method : String} {ps : List Permission}

/-- A request comes to a permission that cannot be looked at: the permission is of a subject that
the caller reaches, and its pattern cannot be compiled. -/
structure Trips (e : Engine) (reads : PathPattern.Reader) (s : String) (p : Permission) : Prop where
  reached : e.graph.reaches s p.subject = true
  broken : reads p.path = none

theorem permits_eq_none {p : Permission} : e.permits reads s path method p = none ↔ e.Trips reads s p := by
  unfold permits PathPattern.covers?
  constructor
  · intro h
    split at h
    · rename_i hreached
      rw [Option.map_eq_none_iff, Option.map_eq_none_iff] at h
      exact ⟨hreached, h⟩
    · cases h
  · rintro ⟨hreached, hbroken⟩
    rw [if_pos hreached, hbroken]
    rfl

/-- The look-up has no answer if it trips over a permission and all those before it say no. By
induction on the permissions: the first one trips, allows, or leaves the decision to the rest. -/
theorem firstMatch_eq_none : e.firstMatch reads s path method ps = none ↔
    ∃ before p after, ps = before ++ p :: after ∧ e.Trips reads s p ∧
      ∀ q ∈ before, e.permits reads s path method q = some false := by
  induction ps with
  | nil =>
    constructor
    · rintro ⟨⟩
    · rintro ⟨before, p, after, hps, -⟩
      exact (List.append_ne_nil_of_right_ne_nil before (List.cons_ne_nil p after) hps.symm).elim
  | cons p rest ih =>
    rw [firstMatch]
    cases hp : e.permits reads s path method p with
    | none =>
      refine iff_of_true rfl ⟨[], p, rest, rfl, permits_eq_none.mp hp, fun q hq => ?_⟩
      exact absurd hq List.not_mem_nil
    | some allowed =>
      -- A permission that gives an answer is not the one that trips.
      have hsplit (before : List Permission) (q : Permission) (after : List Permission)
          (hps : p :: rest = before ++ q :: after) (hq : e.Trips reads s q) :
          ∃ before', before = p :: before' ∧ rest = before' ++ q :: after := by
        cases before with
        | nil =>
          obtain ⟨rfl, -⟩ := List.cons.inj hps
          rw [permits_eq_none.mpr hq] at hp
          cases hp
        | cons p' before' =>
          obtain ⟨rfl, hrest⟩ := List.cons.inj hps
          exact ⟨before', rfl, hrest⟩
      cases allowed with
      | true =>
        constructor
        · rintro ⟨⟩
        · rintro ⟨before, q, after, hps, hq, hbefore⟩
          obtain ⟨before', rfl, -⟩ := hsplit before q after hps hq
          rw [hbefore p (.head _)] at hp
          cases hp
      | false =>
        refine ih.trans ⟨?_, ?_⟩
        · rintro ⟨before, q, after, rfl, hq, hbefore⟩
          refine ⟨p :: before, q, after, rfl, hq, fun x hx => ?_⟩
          rcases List.mem_cons.mp hx with rfl | hx
          · exact hp
          · exact hbefore x hx
        · rintro ⟨before, q, after, hps, hq, hbefore⟩
          obtain ⟨before', rfl, hrest⟩ := hsplit before q after hps hq
          exact ⟨before', q, after, hrest, hq, fun x hx => hbefore x (.tail _ hx)⟩

/-- A request has no decision if it trips over a permission before one allows it. Without any
permissions the empty pattern is looked at, which can be compiled. -/
theorem evaluate_eq_none (hblank : (reads "").isSome = true) :
    e.evaluate reads s path method = none ↔
      ∃ before p after, e.permissions = before ++ p :: after ∧ e.Trips reads s p ∧
        ∀ q ∈ before, e.permits reads s path method q = some false := by
  unfold evaluate
  split
  · rename_i hempty
    rw [List.isEmpty_iff] at hempty
    have hdecided : e.permits reads s path method ⟨"", "", ""⟩ ≠ none := by
      intro h
      obtain ⟨-, hbroken⟩ := permits_eq_none.mp h
      rw [hbroken] at hblank
      cases hblank
    rw [hempty, firstMatch_eq_none]
    refine iff_of_false ?_ ?_
    · rintro ⟨before, p, after, hps, htrips, -⟩
      have hp : p ∈ [(⟨"", "", ""⟩ : Permission)] := hps ▸ List.mem_append_right _ (.head _)
      obtain rfl := List.mem_singleton.mp hp
      exact hdecided (permits_eq_none.mpr htrips)
    · rintro ⟨before, p, after, hps, -⟩
      exact List.append_ne_nil_of_right_ne_nil before (List.cons_ne_nil p after) hps.symm
  · exact firstMatch_eq_none

end Policy.Engine

/-! ## Calls of the services -/

/-- A call of the services with everything it depends on: a command, an inquiry, or a pass over
everything. -/
inductive Errand where
  | command (q : Command)
  | inquiry (q : Inquiry) (env : Surroundings) (users : UserPolicy) (ctx : Context)
    (faults : List Fault)
  | reload (env : Surroundings) (faults : List Fault)

namespace Errand

/-- The world after a call with its planned faults. -/
def run : Errand → World MemoryStore → World MemoryStore
  | command q, w => (q.run w).2
  | inquiry q env users ctx faults, w =>
    (World.run env (q.program users ctx).run { w with faults := faults }).2
  | reload env faults, w =>
    (World.run env (withSession ProjectionError.store Projection.all).run
      { w with faults := faults }).2

/-- The resources that a call describes. -/
def described : Errand → List ResourceInput
  | command q => q.mutation.described
  | _ => []

end Errand

/-- The world after calls of the services, which find an empty store and an empty engine. -/
def afterAll (qs : List Errand) : World MemoryStore :=
  qs.foldl (fun w q => q.run w) { store := {} }

/-- One of the calls describes a resource with a path and a method. -/
def Described (qs : List Errand) (path method : String) : Prop :=
  ∃ q ∈ qs, ∃ r ∈ q.described, r.path = path ∧ r.method = method

section Runs

variable {src : String → String → Prop} {w : World MemoryStore}

/-- Faults that are planned add nothing to a world. -/
theorem World.DrawnFrom.planned (h : w.DrawnFrom src) (faults : List Fault) :
    ({ w with faults := faults } : World MemoryStore).DrawnFrom src :=
  ⟨h.store, h.engine⟩

/-- A call adds nothing to a world but what it describes. -/
theorem World.DrawnFrom.errand {q : Errand} (h : w.DrawnFrom src)
    (hq : ∀ r ∈ q.described, src r.path r.method) : (q.run w).DrawnFrom src := by
  cases q with
  | command q => exact (h.planned q.faults).run (q.mutation.draws hq)
  | inquiry q env users ctx faults => exact (h.planned faults).run q.draws
  | reload env faults =>
    exact (h.planned faults).run (draws_withSession fun s => Projection.composed_all.draws)

/-- By induction on the calls: what one of them adds, the next ones find and may pass on. -/
theorem World.DrawnFrom.errands {qs : List Errand} (h : w.DrawnFrom src)
    (hqs : ∀ q ∈ qs, ∀ r ∈ q.described, src r.path r.method) :
    (qs.foldl (fun w q => q.run w) w).DrawnFrom src := by
  induction qs generalizing w with
  | nil => exact h
  | cons q qs ih => exact ih (h.errand (hqs q (.head _))) fun q' hq' => hqs q' (.tail _ hq')

theorem drawnFrom_afterAll (qs : List Errand) : (afterAll qs).DrawnFrom (Described qs) := by
  have htables : Store.Tables.DrawnFrom (Described qs) {} := fun _ hx => absurd hx List.not_mem_nil
  have hempty : ({ store := {} } : World MemoryStore).DrawnFrom (Described qs) :=
    ⟨Store.Shared.drawnFrom_idle htables, fun _ hp => absurd hp List.not_mem_nil⟩
  exact hempty.errands fun q hq r hr => ⟨q, hq, r, hr, rfl, rfl⟩

end Runs

/-- After any calls of the services, with any inputs, faults and deadlines, and with any reader that
can compile the empty pattern: every permission is one of a described resource that names a path and
a method; a request is left without a decision just if it comes to a permission whose pattern cannot
be compiled before one allows it; and if the patterns of all described resources that name a path
and a method can be compiled, every request is decided. -/
theorem decided_if_compiling {reads : Policy.PathPattern.Reader}
    (hblank : (reads "").isSome = true) (qs : List Errand) :
    (∀ p ∈ (afterAll qs).engine.permissions,
      Described qs p.path p.method ∧ p.path ≠ "" ∧ p.method ≠ "") ∧
    (∀ s path method, (afterAll qs).engine.evaluate reads s path method = none ↔
      ∃ before p after, (afterAll qs).engine.permissions = before ++ p :: after ∧
        (afterAll qs).engine.Trips reads s p ∧
        ∀ q ∈ before, (afterAll qs).engine.permits reads s path method q = some false) ∧
    ((∀ q ∈ qs, ∀ r ∈ q.described, r.path ≠ "" → r.method ≠ "" → (reads r.path).isSome = true) →
      ∀ s path method, ∃ b, (afterAll qs).engine.evaluate reads s path method = some b) := by
  have hdrawn := (drawnFrom_afterAll qs).engine
  refine ⟨hdrawn, fun _ _ _ => Policy.Engine.evaluate_eq_none hblank,
    fun hcompile s path method => ?_⟩
  refine Option.ne_none_iff_exists'.mp fun hnone => ?_
  obtain ⟨before, p, after, hps, htrips, -⟩ := (Policy.Engine.evaluate_eq_none hblank).mp hnone
  have hp : p ∈ (afterAll qs).engine.permissions := hps ▸ List.mem_append_right _ (.head _)
  obtain ⟨⟨q, hq, r, hr, hpath, hmethod⟩, hnepath, hnemethod⟩ := hdrawn p hp
  have hsome := hcompile q hq r hr (hpath ▸ hnepath) (hmethod ▸ hnemethod)
  rw [hpath, htrips.broken] at hsome
  cases hsome

namespace Sample

/-- The commands of the sample with an inquiry among them and a pass after them. -/
def errands : List Errand :=
  commands.map .command ++ [.inquiry (.menu "mx" {}) env users {} [], .reload env []]

/-- A menu with a resource whose path opens a bracket, a role with a grant of it, and a user who has
the role. -/
def openBracket : List Errand :=
  [ .createMenu { name := "Orders", resources := [⟨"read", "Read", "GET", "/orders/("⟩] },
    .createRole { name := "Clerk", grants := [⟨"mx", [], ["read"]⟩] },
    .createUser { username := "clerk", password := "secret", roleIds := ["rx"] } ].map
      fun m => .command (command m)

end Sample

/-- The paths of the sample can be compiled, so all requests are decided after it. -/
theorem sample_decided : (Policy.PathPattern.reader "").isSome = true ∧
    (∀ q ∈ Sample.errands, ∀ r ∈ q.described, r.path ≠ "" → r.method ≠ "" →
      (Policy.PathPattern.reader r.path).isSome = true) ∧
    ∀ s path method, ∃ b,
      (afterAll Sample.errands).engine.evaluate Policy.PathPattern.reader s path method = some b := by
  have hblank : (Policy.PathPattern.reader "").isSome = true := by decide +kernel
  have hcompile : ∀ q ∈ Sample.errands, ∀ r ∈ q.described, r.path ≠ "" → r.method ≠ "" →
      (Policy.PathPattern.reader r.path).isSome = true := by
    decide +kernel
  exact ⟨hblank, hcompile, (decided_if_compiling hblank Sample.errands).2.2 hcompile⟩

/-- The three commands are served, though the path cannot be compiled, and a request of the user then
has no decision. The same request of another caller, who does not reach the role, has one. -/
theorem open_bracket_undecided :
    (afterAll Sample.openBracket).engine.permissions = [⟨"rx", "/orders/(", "GET"⟩] ∧
    (afterAll Sample.openBracket).engine.memberships = [⟨"ux", "rx"⟩] ∧
    Policy.PathPattern.reader "/orders/(" = none ∧
    (afterAll Sample.openBracket).engine.evaluate Policy.PathPattern.reader
      "ux" "/orders/7" "GET" = none ∧
    (afterAll Sample.openBracket).engine.evaluate Policy.PathPattern.reader
      "uxx" "/orders/7" "GET" = some false := by
  decide +kernel

end AccessAdmin
