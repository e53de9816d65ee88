import AccessAdmin.Http.Api
import AccessAdmin.Proofs.Running.Basic
import AccessAdmin.Proofs.Sequences

/-!
# Mediation of the interface

The gate looks at the beginning of a path as a text, the endpoints are found by its segments. No id
in the path of a guarded endpoint lets the gate take it for an open path or for one about the
caller. So a request for a guarded endpoint reaches it exactly if it names the root user or one that
the evaluation allows.

* `Endpoint.IsGuarded`: the endpoints for menus, roles, users and the policy.
* `Endpoint.IsGuarded.isPublic_eq_false`: their paths are not open, whatever ids they hold.
* `Headers.identity_eq_some`: what it takes for a request to name a user.
* `Api.mediation`: the complete mediation.
-/

namespace AccessAdmin

/-! ## Paths by their segments -/

namespace Text

/-- A text that begins with a second one is the second one and a rest. -/
theorem exists_of_startsWith {s start : String} (h : startsWith s start = true) :
    ∃ rest, s.toList = start.toList ++ rest := by
  obtain ⟨rest, hrest⟩ := List.isPrefixOf_iff_prefix.1 h
  exact ⟨rest, hrest.symm⟩

/-- The first piece of a text that begins before any separator. -/
theorem split_cons {s : String} {sep : Char} {piece rest : List Char} (hpiece : sep ∉ piece)
    (h : s.toList = piece ++ sep :: rest) :
    split sep s = String.ofList piece :: split sep (String.ofList rest) := by
  rw [split, h, splitOn_append_sep hpiece, List.map_cons, split, String.toList_ofList]

/-- The pieces of a text put together are the text. -/
theorem join_split (sep : Char) (s : String) : join sep (split sep s) = s := by
  rw [join, split, List.map_map]
  simp

end Text

namespace Http

namespace Endpoint

/-- The first segments of the endpoints that a caller has to be admitted to. -/
def guardedAreas : List String :=
  ["menus", "menus.tree", "roles", "roles.select", "users", "policy"]

/-- Whether a caller has to be admitted to an endpoint. -/
def IsGuarded (e : Endpoint) : Prop :=
  ∃ area ∈ guardedAreas, e.segments.head? = some (.fixed area)

variable {e : Endpoint} {ids : List String} {path method : String}

/-- An endpoint that is found has the path. -/
theorem idsAt?_of_route (h : route path method = .found e ids) : e.idsAt? path = some ids := by
  unfold route at h
  split at h
  · cases h
  · split at h
    · next known _ e' ids' hfind =>
      obtain ⟨rfl, rfl⟩ := Route.found.inj h
      have hmem : (e', ids') ∈ atPath path := List.mem_of_find?_eq_some hfind
      obtain ⟨e'', -, hat⟩ := List.mem_filterMap.1 hmem
      obtain ⟨ids'', hids, heq⟩ := Option.map_eq_some_iff.1 hat
      cases heq
      exact hids
    · cases h

/-- The pieces of an endpoint's path. -/
theorem split_of_idsAt? (h : e.idsAt? path = some ids) :
    ∃ pieces, Text.split '/' path = "" :: version :: pieces ∧ idsIn e.segments pieces = some ids := by
  unfold idsAt? at h
  split at h
  · next v pieces hsplit =>
    split at h
    · next hv => exact ⟨pieces, hsplit.trans (hv ▸ rfl), h⟩
    · cases h
  · cases h

/-- The pieces that fit a fixed segment and others begin with that segment. -/
theorem head?_of_idsIn {text : String} {segments : List Segment} {pieces : List String}
    (hhead : segments.head? = some (.fixed text)) (h : idsIn segments pieces = some ids) :
    pieces.head? = some text := by
  cases segments with
  | nil => cases hhead
  | cons segment segments =>
    cases hhead
    cases pieces with
    | nil => cases h
    | cons piece pieces =>
      rw [idsIn] at h
      split at h
      · next hpiece => exact congrArg some hpiece.symm
      · cases h

namespace IsGuarded

/-- The path of a guarded endpoint goes on, after the version, with one of the guarded areas. -/
theorem split (hguarded : e.IsGuarded) (h : e.idsAt? path = some ids) :
    ∃ area ∈ guardedAreas, ∃ pieces, Text.split '/' path = "" :: version :: area :: pieces := by
  obtain ⟨area, harea, hhead⟩ := hguarded
  obtain ⟨pieces, hsplit, hids⟩ := split_of_idsAt? h
  have hpieces : pieces.head? = some area := head?_of_idsIn hhead hids
  obtain ⟨rest, rfl⟩ := List.head?_eq_some_iff.1 hpieces
  exact ⟨area, harea, rest, hsplit⟩

/-- The path of a guarded endpoint does not begin with an area that is not guarded. -/
theorem not_startsWith (hguarded : e.IsGuarded) (h : e.idsAt? path = some ids) (area : String)
    (hsep : '/' ∉ area.toList) (hother : area ∉ guardedAreas) :
    Text.startsWith path ("/v1/" ++ area ++ "/") = false := by
  rw [Bool.eq_false_iff]
  intro hstart
  obtain ⟨rest, hrest⟩ := Text.exists_of_startsWith hstart
  have hcut : path.toList = [] ++ '/' :: ("v1".toList ++ '/' :: (area.toList ++ '/' :: rest)) := by
    rw [hrest, String.toList_append, String.toList_append]
    simp
  obtain ⟨area', harea', pieces, hsplit⟩ := hguarded.split h
  rw [Text.split_cons (by simp) hcut, Text.split_cons (by decide) String.toList_ofList,
    Text.split_cons hsep String.toList_ofList] at hsplit
  simp only [String.ofList_toList, List.cons.injEq] at hsplit
  obtain ⟨-, -, rfl, -⟩ := hsplit
  exact hother harea'

/-- Whatever ids the path of a guarded endpoint holds, it is not open to everyone. -/
theorem isPublic_eq_false (hguarded : e.IsGuarded) (h : e.idsAt? path = some ids) :
    Gate.isPublic path = false := by
  have hsystem : Text.startsWith path "/v1/system/" = false :=
    hguarded.not_startsWith h "system" (by decide) (by decide)
  obtain ⟨area, harea, pieces, hsplit⟩ := hguarded.split h
  have hdescription : path ≠ "/v1/openapi.json" := by
    rintro rfl
    have hpieces : Text.split '/' "/v1/openapi.json" = ["", "v1", "openapi.json"] := by decide
    rw [hpieces] at hsplit
    cases hsplit
    exact absurd harea (by decide)
  have hdocs : Text.startsWith path "/docs" = false := by
    rw [Bool.eq_false_iff]
    intro hstart
    obtain ⟨rest, hrest⟩ := Text.exists_of_startsWith hstart
    have hjoin := Text.join_split '/' path
    rw [hsplit, Text.join, ← String.toList_inj, String.toList_ofList, hrest] at hjoin
    simp [Text.joinWith, version] at hjoin
  simp [Gate.isPublic, hsystem, hdescription, hdocs]

/-- Nor is it about the caller. -/
theorem isSelfService_eq_false (hguarded : e.IsGuarded) (h : e.idsAt? path = some ids) :
    Gate.isSelfService path = false :=
  hguarded.not_startsWith h "current" (by decide) (by decide)

end IsGuarded

end Endpoint

/-! ## Callers -/

/-- The first value under the name of the identity header is printed ASCII, and trimmed it is this
user and not empty. -/
def Headers.Names (h : Headers) (user : String) : Prop :=
  ∃ octets, h.get? identityName = some octets ∧
    (∀ b ∈ octets, (32 ≤ b.toNat ∧ b.toNat < 127) ∨ b.toNat = 9) ∧
    user = Text.trim (String.ofList (octets.map fun b => Char.ofNat b.toNat)) ∧ user ≠ ""

theorem Headers.isReadable_iff {b : UInt8} :
    isReadable b = true ↔ (32 ≤ b.toNat ∧ b.toNat < 127) ∨ b.toNat = 9 := by
  simp [isReadable]

theorem Headers.identity_eq_some {h : Headers} {user : String} :
    h.identity = some user ↔ h.Names user := by
  unfold identity text? Names
  cases h.get? identityName with
  | none => simp
  | some octets =>
    by_cases hread : octets.all isReadable = true
    · have hall : ∀ b ∈ octets, (32 ≤ b.toNat ∧ b.toNat < 127) ∨ b.toNat = 9 :=
        fun b hb => isReadable_iff.1 (List.all_eq_true.1 hread b hb)
      simp only [Option.bind_some, if_pos hread, Option.map_some, Option.filter_eq_some_iff,
        Option.some.injEq]
      constructor
      · rintro ⟨rfl, hne⟩
        exact ⟨octets, rfl, hall, rfl, by simpa using hne⟩
      · rintro ⟨_, rfl, -, rfl, hne⟩
        exact ⟨rfl, by simpa using hne⟩
    · simp only [Option.bind_some, if_neg hread]
      constructor
      · intro hnone
        cases hnone
      · rintro ⟨_, hoctets, hall, -⟩
        cases hoctets
        exact absurd (List.all_eq_true.2 fun b hb => isReadable_iff.2 (hall b hb)) hread

theorem Headers.identity_eq_none {h : Headers} :
    h.identity = none ↔ ¬ ∃ user, h.Names user := by
  simp only [← identity_eq_some, Option.eq_none_iff_forall_ne_some, not_exists, ne_eq]

/-- A request names one user at most. -/
theorem Headers.Names.unique {h : Headers} {user user' : String} (hu : h.Names user)
    (hu' : h.Names user') : user = user' :=
  Option.some.inj ((identity_eq_some.2 hu).symm.trans (identity_eq_some.2 hu'))

/-! ## The gate -/

variable {σ : Type} [Backend σ] {env : Surroundings} {w : World σ}

/-- The engine answers from what it holds and is left as it is. -/
theorem Asking.run_engine (env : Surroundings) (w : World σ) (user path method : String) :
    World.run env (Asking.engine user path method) w =
      (some ((w.engine.evaluate env.patterns user path method).map Except.ok), w) :=
  rfl

namespace Gate

/-- A verdict that is counted leaves everything but the counters as it was. -/
theorem run_counted (d : Decision) (v : Verdict) :
    World.run env (counted d v) w =
      (some v, { w with counters := w.counters.add (.decided d) }) :=
  rfl

/-- The verdict on an evaluation. -/
def ruling : Evaluation → Verdict
  | none => .stuck
  | some (.error _) => .refused (.internal "authorization check failed")
  | some (.ok true) => .admitted
  | some (.ok false) => .refused (.forbidden "permission denied")

theorem ruling_admitted {v : Evaluation} : ruling v = .admitted ↔ v = some (.ok true) := by
  rcases v with _ | _ | _ | _ <;> simp [ruling]

variable {g : Gate} {ask : Asking} {method path : String} {headers : Headers} {user : String}
  {v : Evaluation}

/-- An evaluation that changes nothing gives the verdict on what it comes to. -/
theorem run_consult (hask : World.run env (ask user path method) w = (some v, w)) :
    ∃ counters, World.run env (consult ask user path method) w =
      (some (ruling v), { w with counters := counters }) := by
  unfold consult
  rw [Program.bind_eq, World.run_bind, hask]
  rcases v with _ | err | _ | _
  · exact ⟨w.counters, rfl⟩
  · exact ⟨w.counters, rfl⟩
  · exact ⟨_, run_counted _ _⟩
  · exact ⟨_, run_counted _ _⟩

section

variable (henforce : g.enforce = true) (hopen : isPublic path = false)
include henforce hopen

/-- Who is not named is refused. -/
theorem run_judge_unnamed (h : ¬ ∃ user, headers.Names user) :
    ∃ counters, World.run env (g.judge ask method path headers) w =
      (some (.refused .noIdentity), { w with counters := counters }) := by
  have hjudge : g.judge ask method path headers =
      counted .unauthenticated (.refused .noIdentity) := by
    simp [judge, henforce, hopen, Headers.identity_eq_none.2 h]
  rw [hjudge]
  exact ⟨_, run_counted _ _⟩

/-- The root user is admitted before anything is evaluated. -/
theorem run_judge_root (h : headers.Names g.rootUsername) :
    ∃ counters, World.run env (g.judge ask method path headers) w =
      (some .admitted, { w with counters := counters }) := by
  have hjudge : g.judge ask method path headers = counted .root .admitted := by
    simp [judge, henforce, hopen, Headers.identity_eq_some.2 h]
  rw [hjudge]
  exact ⟨_, run_counted _ _⟩

/-- On every other user the evaluation decides. -/
theorem run_judge_other (hself : isSelfService path = false) (h : headers.Names user)
    (hne : user ≠ g.rootUsername) (hask : World.run env (ask user path method) w = (some v, w)) :
    ∃ counters, World.run env (g.judge ask method path headers) w =
      (some (ruling v), { w with counters := counters }) := by
  have hjudge : g.judge ask method path headers = consult ask user path method := by
    simp [judge, henforce, hopen, hself, Headers.identity_eq_some.2 h, hne]
  rw [hjudge]
  exact run_consult hask

end

end Gate

/-! ## The interface -/

namespace Api

variable {api : Api} {r : Request} {e : Endpoint} {ids : List String} {w' : World σ}

/-- The interface answers a request with a status, and leaves this world. -/
def Answers (env : Surroundings) (api : Api) (r : Request) (w : World σ) (status : Nat)
    (w' : World σ) : Prop :=
  ∃ response : Response, response.status = status ∧
    World.run env (api.handle r) w = (some (some response), w')

theorem status_forMethod {method : String} {response : Response} :
    (forMethod method response).status = response.status := by
  unfold forMethod
  split <;> rfl

/-- A request for an endpoint that is admitted is passed on to it. -/
theorem run_handle_admitted (hroute : Endpoint.route r.target.path r.method = .found e ids)
    (h : World.run env (api.gate.judge api.ask r.method r.target.path r.headers) w =
      (some .admitted, w')) :
    World.run env (api.handle r) w =
      World.run env (Option.map (forMethod r.method) <$> api.respond r e ids) w' := by
  unfold handle guarded
  rw [hroute]
  simp only [map_eq_pure_bind, Program.bind_eq, World.run_bind, h]

/-- A request for an endpoint that is refused gets the status of the refusal. -/
theorem answers_of_refused {refusal : Refusal}
    (hroute : Endpoint.route r.target.path r.method = .found e ids)
    (h : World.run env (api.gate.judge api.ask r.method r.target.path r.headers) w =
      (some (.refused refusal), w')) :
    api.Answers env r w refusal.status w' := by
  refine ⟨forMethod r.method refusal.response, status_forMethod, ?_⟩
  unfold handle guarded
  rw [hroute]
  simp only [map_eq_pure_bind, Program.bind_eq, World.run_bind, h]
  rfl

/-- With the gate in force a request for a guarded endpoint is passed on to it exactly if it names
the root user or one for whom the evaluation of its path and method comes out true. Otherwise it is
answered with 401 if it names nobody, with 403 if the evaluation comes out false and with 500 if it
ends in an error. Nothing but the counters is changed on the way, and no id in the path makes it an
open one. The evaluation may be any that leaves the world as it is, as the engine's does. -/
theorem mediation {evaluate : String → String → String → Evaluation} (henforce : api.enforce = true)
    (hask : ∀ user path method, World.run env (api.ask user path method) w =
      (some (evaluate user path method), w))
    (hroute : Endpoint.route r.target.path r.method = .found e ids) (hguarded : e.IsGuarded) :
    Gate.isPublic r.target.path = false ∧ Gate.isSelfService r.target.path = false ∧
    ∃ (verdict : Verdict) (counters : Counters),
      World.run env (api.gate.judge api.ask r.method r.target.path r.headers) w =
        (some verdict, { w with counters := counters }) ∧
      (verdict = .admitted ↔ ∃ user, r.headers.Names user ∧ (user = api.users.rootUsername ∨
        evaluate user r.target.path r.method = some (.ok true))) ∧
      (verdict = .admitted → World.run env (api.handle r) w =
        World.run env (Option.map (forMethod r.method) <$> api.respond r e ids)
          { w with counters := counters }) ∧
      ((¬ ∃ user, r.headers.Names user) →
        api.Answers env r w 401 { w with counters := counters }) ∧
      ∀ user, r.headers.Names user → user ≠ api.users.rootUsername →
        (evaluate user r.target.path r.method = some (.ok false) →
          api.Answers env r w 403 { w with counters := counters }) ∧
        ∀ err, evaluate user r.target.path r.method = some (.error err) →
          api.Answers env r w 500 { w with counters := counters } := by
  have hids : e.idsAt? r.target.path = some ids := Endpoint.idsAt?_of_route hroute
  have hopen : Gate.isPublic r.target.path = false := hguarded.isPublic_eq_false hids
  have hself : Gate.isSelfService r.target.path = false := hguarded.isSelfService_eq_false hids
  have hgate : api.gate.enforce = true := henforce
  refine ⟨hopen, hself, ?_⟩
  by_cases hnamed : ∃ user, r.headers.Names user
  · obtain ⟨user, huser⟩ := hnamed
    have hsome (hnone : ¬ ∃ user, r.headers.Names user) : False := hnone ⟨user, huser⟩
    by_cases hroot : user = api.users.rootUsername
    · subst hroot
      obtain ⟨counters, hjudge⟩ : ∃ counters : Counters,
          World.run env (api.gate.judge api.ask r.method r.target.path r.headers) w =
            (some .admitted, { w with counters := counters }) :=
        Gate.run_judge_root hgate hopen huser
      refine ⟨.admitted, counters, hjudge, ⟨fun _ => ⟨_, huser, .inl rfl⟩, fun _ => rfl⟩,
        fun _ => run_handle_admitted hroute hjudge, fun hnone => (hsome hnone).elim, ?_⟩
      intro user' huser' hother
      exact absurd (huser'.unique huser) hother
    · obtain ⟨counters, hjudge⟩ := Gate.run_judge_other hgate hopen hself huser hroot
        (hask user r.target.path r.method)
      refine ⟨_, counters, hjudge, ?_, fun hadmitted => ?_, fun hnone => (hsome hnone).elim, ?_⟩
      · rw [Gate.ruling_admitted]
        constructor
        · intro hallowed
          exact ⟨user, huser, .inr hallowed⟩
        · rintro ⟨user', huser', hallowed⟩
          obtain rfl := huser'.unique huser
          exact hallowed.resolve_left hroot
      · exact run_handle_admitted hroute (hadmitted ▸ hjudge)
      · intro user' huser' _
        obtain rfl := huser'.unique huser
        refine ⟨fun hdenied => ?_, fun err hfailed => ?_⟩
        · rw [hdenied] at hjudge
          exact answers_of_refused hroute hjudge
        · rw [hfailed] at hjudge
          exact answers_of_refused hroute hjudge
  · obtain ⟨counters, hjudge⟩ : ∃ counters : Counters,
        World.run env (api.gate.judge api.ask r.method r.target.path r.headers) w =
          (some (.refused .noIdentity), { w with counters := counters }) :=
      Gate.run_judge_unnamed hgate hopen hnamed
    refine ⟨.refused .noIdentity, counters, hjudge, ?_, ?_, fun _ => answers_of_refused hroute hjudge,
      ?_⟩
    · constructor
      · intro hadmitted
        cases hadmitted
      · rintro ⟨user, huser, -⟩
        exact absurd ⟨user, huser⟩ hnamed
    · intro hadmitted
      cases hadmitted
    · intro user huser
      exact absurd ⟨user, huser⟩ hnamed

end Api

end Http

/-! ## A sample -/

namespace Sample

open Http

/-- A menu that lets its grantees read roles, a role with the grant, and a user who has the role. -/
def receptionCommands : List Command :=
  [ .createMenu { name := "Roles", resources := [⟨"read", "Read", "GET", "/v1/roles/:id"⟩] },
    .createRole { name := "Clerk", grants := [⟨"mx", [], ["read"]⟩] },
    .createUser { username := "clerk", password := "secret", roleIds := ["rx"] } ].map command

/-- The world after the sample, served from an empty store. -/
def reception : World MemoryStore := serveAll receptionCommands { store := {} }

/-- An interface with the gate in force. -/
def api : Api := { users := users }

/-- The headers of a request by the user of the sample, with blanks around the name. -/
def headers : Headers := ⟨[("X-Portcullis-User", [32, 117, 120, 32])]⟩

theorem headers_names : headers.Names "ux" :=
  Headers.identity_eq_some.1 (by decide +kernel)

/-- A request about a role whose id is the name of an open area. -/
def visit (method : String) : Request where
  method := method
  target := { path := "/v1/roles/system" }
  headers := headers

end Sample

open Http in
/-- The sample's user is passed on to read the role and is refused to delete it. -/
theorem sample_mediation : (∃ counters : Counters,
    World.run Sample.env (Sample.api.handle (Sample.visit "GET")) Sample.reception =
      World.run Sample.env (Option.map (Api.forMethod "GET") <$>
        Sample.api.respond (Sample.visit "GET") .getRole ["system"])
        { Sample.reception with counters := counters }) ∧
    ∃ counters : Counters, Sample.api.Answers Sample.env (Sample.visit "DELETE") Sample.reception 403
      { Sample.reception with counters := counters } := by
  have hallowed : Sample.reception.engine.evaluate Sample.env.patterns "ux" "/v1/roles/system"
      "GET" = some true := by decide +kernel
  have hdenied : Sample.reception.engine.evaluate Sample.env.patterns "ux" "/v1/roles/system"
      "DELETE" = some false := by decide +kernel
  have hguarded : Endpoint.getRole.IsGuarded ∧ Endpoint.deleteRole.IsGuarded := by
    simp [Endpoint.IsGuarded, Endpoint.guardedAreas, Endpoint.segments]
  have hask := Asking.run_engine Sample.env Sample.reception
  have hread : Endpoint.route (Sample.visit "GET").target.path (Sample.visit "GET").method =
      .found .getRole ["system"] := by decide
  have hdelete : Endpoint.route (Sample.visit "DELETE").target.path (Sample.visit "DELETE").method =
      .found .deleteRole ["system"] := by decide
  obtain ⟨-, -, _, counters, -, hadmitted, hpassed, -⟩ :=
    Api.mediation (by rfl : Sample.api.enforce = true) hask hread hguarded.1
  obtain ⟨-, -, _, counters', -, -, -, -, hrefused⟩ :=
    Api.mediation (by rfl : Sample.api.enforce = true) hask hdelete hguarded.2
  refine ⟨⟨counters, hpassed (hadmitted.2 ⟨"ux", Sample.headers_names, .inr ?_⟩)⟩,
    counters', (hrefused "ux" Sample.headers_names (by decide)).1 ?_⟩
  · exact congrArg (Option.map Except.ok) hallowed
  · exact congrArg (Option.map Except.ok) hdenied

end AccessAdmin
