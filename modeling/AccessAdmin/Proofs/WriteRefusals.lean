import AccessAdmin.Proofs.MenuRefusals
import AccessAdmin.Proofs.Running.Unfailing
import AccessAdmin.Proofs.Saving

/-!
# Which role and user writes are refused

A role or a user is created or updated unless the caller asks for something that cannot be: then the
write is refused as invalid, or else because it misses a row. The checks before the transaction and
the look-ups in it come before the tests for uniqueness that the store makes itself, and leave them
nothing to refuse.

* `RoleInput.Valid`, `UserInput.Valid`: descriptions that may be.
* `Roles.Invalid`, `Roles.Misses`, `Users.Invalid`, `Users.Misses`: what stands in the way of a write.
* `Roles.verdict_save`, `Users.verdict_save`: the refusals tell the one from the other.
* `Service.Settled`: a service is refused without a trace, or else succeeds, and the store refuses
  nothing on the way.
* `Reached.writes`: how every write of a role or a user is answered.
-/

namespace AccessAdmin

open Service
open Menus (Verdict)

/-- A description of a role as it may be: it has a name, no menu is granted twice, and the granted
codes can be stored. -/
structure RoleInput.Valid (input : RoleInput) : Prop where
  named : Text.isAllBlank input.name = false
  distinct : (input.grants.map GrantInput.menuId).Nodup
  storable : ∀ g ∈ input.grants, ∀ c ∈ g.actions ++ g.resources, Code.isStorable c = true

/-- A description of a user as it may be: it has a name, which is not the root user's, and no role is
assigned twice. -/
structure UserInput.Valid (p : UserPolicy) (input : UserInput) : Prop where
  named : Text.isAllBlank input.username = false
  free : input.username ≠ p.rootUsername
  distinct : input.roleIds.Nodup

/-! ## Verdicts -/

/-- A new row is not asked to be there. -/
theorem there_of_new {there : String → Prop} : ∀ id ∈ (none : Option String), there id :=
  fun _ h => nomatch h

/-- A row that is there is not missed. -/
theorem not_missing_own {α : Type} {idOf : α → String} {rows : List α} {own : Option String}
    (hthere : ∀ id ∈ own, ∃ r ∈ rows, idOf r = id) : ¬∃ id ∈ own, ∀ r ∈ rows, idOf r ≠ id := by
  rintro ⟨id, hid, hnone⟩
  obtain ⟨r, hr, he⟩ := hthere id hid
  exact hnone r hr he

/-- Some wanted id is found missing exactly if no row has it. -/
theorem exists_missing_iff {α : Type} {idOf : α → String} {rows : List α} {wanted : List String} :
    (∃ id, (wanted.find? fun id => !rows.any (idOf · == id)) = some id) ↔
      ∃ id ∈ wanted, ∀ r ∈ rows, idOf r ≠ id := by
  rw [← Option.isSome_iff_exists, List.find?_isSome]
  simp only [Bool.not_eq_true', List.any_eq_false, beq_iff_eq]

/-- A name that is taken makes a write invalid, and then a missing row is not looked for. -/
theorem Menus.Verdict.of_lookups {invalid misses : Prop} {taken : Bool} {missing : Option String}
    {refused : String} {absent : String → String} (hinvalid : invalid ↔ taken = true)
    (hmisses : misses ↔ ∃ id, missing = some id) :
    Verdict invalid misses (if taken then some (.validation refused)
      else missing.map fun id => .notFound (absent id)) := by
  by_cases htaken : taken = true
  · rw [if_pos htaken]
    exact .invalid (hinvalid.mpr htaken)
  · rw [if_neg htaken]
    cases missing with
    | none => exact .accepted (mt hinvalid.mp htaken) (by simpa using hmisses)
    | some id => exact .misses (mt hinvalid.mp htaken) (hmisses.mpr ⟨id, rfl⟩)

/-! ## Roles -/

namespace Roles

variable {t : Store.Tables} {own : Option String} {input : RoleInput}

/-- The checks find a fault in a description exactly if it is not valid. -/
theorem fault?_eq_none_iff : fault? input = none ↔ input.Valid := by
  unfold fault?
  constructor
  · intro h
    split at h
    · cases h
    · rename_i hnamed
      split at h
      · cases h
      · rename_i hdistinct
        simp only [List.findSome?_eq_none_iff, Option.map_eq_none_iff,
          Menus.firstUnstorable_eq_none] at h
        exact ⟨Bool.eq_false_iff.mpr hnamed, firstDuplicate_eq_none.mp hdistinct, h⟩
  · intro h
    simp only [h.named, firstDuplicate_eq_none.mpr h.distinct, Bool.false_eq_true, ↓reduceIte,
      List.findSome?_eq_none_iff, Option.map_eq_none_iff, Menus.firstUnstorable_eq_none]
    exact h.storable

/-- What makes a write of a role invalid, a new one or the one with the id `own`: its description is
not valid, or another role has the name, which only matters to a role that is there. -/
def Invalid (t : Store.Tables) (own : Option String) (input : RoleInput) : Prop :=
  ¬input.Valid ∨
    (∀ id ∈ own, ∃ r ∈ t.roles, r.id = id) ∧ ∃ r ∈ t.roles, r.name = input.name ∧ some r.id ≠ own

/-- What a write of a role may miss: the role, or a granted menu. -/
def Misses (t : Store.Tables) (own : Option String) (input : RoleInput) : Prop :=
  (∃ id ∈ own, ∀ r ∈ t.roles, r.id ≠ id) ∨ ∃ g ∈ input.grants, ∀ m ∈ t.menus, m.id ≠ g.menuId

/-- Why a write of a role is refused, if it is. -/
def saveRefusal? (t : Store.Tables) : Option String → RoleInput → Option ServiceError
  | none, input =>
    match fault? input with
    | some text => some (.validation text)
    | none => refusal? t none input
  | some id, input => updateRefusal? t id input

/-- The look-ups for a role that is new or stored, with a valid description. -/
theorem verdict_lookups (hthere : ∀ id ∈ own, ∃ r ∈ t.roles, r.id = id) (hvalid : input.Valid) :
    Verdict (Invalid t own input) (Misses t own input) (refusal? t own input) := by
  refine .of_lookups ?_ ?_
  · rw [Invalid, or_iff_right (not_not.mpr hvalid), and_iff_right hthere]
    simp only [List.any_eq_true, Bool.and_eq_true, beq_iff_eq, bne_iff_ne]
  · rw [exists_missing_iff, Misses, or_iff_right (not_missing_own hthere)]
    simp only [List.mem_map, exists_exists_and_eq_and]

/-- The refusals of writes of roles tell an invalid one from one that misses a row. -/
theorem verdict_save (t : Store.Tables) (own : Option String) (input : RoleInput) :
    Verdict (Invalid t own input) (Misses t own input) (saveRefusal? t own input) := by
  cases hf : fault? input with
  | some text =>
    have hinvalid : Invalid t own input := by
      refine .inl fun hvalid => ?_
      rw [fault?_eq_none_iff.mpr hvalid] at hf
      cases hf
    cases own <;> simp only [saveRefusal?, updateRefusal?, hf] <;> exact .invalid hinvalid
  | none =>
    have hvalid := fault?_eq_none_iff.mp hf
    cases own with
    | none =>
      simp only [saveRefusal?, hf]
      exact verdict_lookups there_of_new hvalid
    | some id =>
      simp only [saveRefusal?, updateRefusal?, hf]
      by_cases hstored : t.roles.any (·.id == id) = true
      · rw [if_pos hstored]
        refine verdict_lookups (fun id' hid => ?_) hvalid
        obtain rfl := Option.some.inj hid
        exact Store.Tables.any_row.mp hstored
      · have hnone (r : Role) (hr : r ∈ t.roles) : r.id ≠ id := fun he =>
          hstored (Store.Tables.any_row.mpr ⟨r, hr, he⟩)
        rw [if_neg hstored]
        refine .misses ?_ (.inl ⟨id, rfl, hnone⟩)
        rintro (h | ⟨hthere, -⟩)
        · exact h hvalid
        · exact not_missing_own hthere ⟨id, rfl, hnone⟩

end Roles

/-! ## Users -/

namespace Users

variable {p : UserPolicy} {t : Store.Tables} {own : Option String} {input : UserInput}

/-- The checks find a fault in a description exactly if it is not valid. -/
theorem fault?_eq_none_iff : fault? p input = none ↔ input.Valid p := by
  unfold fault?
  constructor
  · intro h
    split at h
    · cases h
    · rename_i hnamed
      split at h
      · cases h
      · rename_i hfree
        exact ⟨Bool.eq_false_iff.mpr hnamed, hfree,
          firstDuplicate_eq_none.mp (Option.map_eq_none_iff.mp h)⟩
  · intro h
    rw [h.named, if_neg Bool.false_ne_true, if_neg h.free,
      firstDuplicate_eq_none.mpr h.distinct, Option.map_none]

/-- What makes a write of a user invalid, a new one or the one with the id `own`: its description is
not valid, it is new and has no password, or another user has the username, which only matters to a
user that is there. -/
def Invalid (p : UserPolicy) (t : Store.Tables) (own : Option String) (input : UserInput) : Prop :=
  ¬input.Valid p ∨ (own = none ∧ input.password = "") ∨
    (∀ id ∈ own, ∃ u ∈ t.users, u.id = id) ∧
      ∃ u ∈ t.users, u.username = input.username ∧ some u.id ≠ own

/-- What a write of a user may miss: the user, or an assigned role. -/
def Misses (t : Store.Tables) (own : Option String) (input : UserInput) : Prop :=
  (∃ id ∈ own, ∀ u ∈ t.users, u.id ≠ id) ∨ ∃ id ∈ input.roleIds, ∀ r ∈ t.roles, r.id ≠ id

/-- Why a write of a user is refused, if it is. -/
def saveRefusal? (p : UserPolicy) (t : Store.Tables) (own : Option String) (input : UserInput) :
    Option ServiceError :=
  match fault? p input, own with
  | some text, _ => some (.validation text)
  | none, none =>
    if input.password.isEmpty then some (.validation "password is required")
    else refusal? t none input
  | none, some id => storedRefusal? t id input

/-- The look-ups for a user that is new or stored, with a valid description. -/
theorem verdict_lookups (hthere : ∀ id ∈ own, ∃ u ∈ t.users, u.id = id) (hvalid : input.Valid p)
    (hpassword : ¬(own = none ∧ input.password = "")) :
    Verdict (Invalid p t own input) (Misses t own input) (refusal? t own input) := by
  refine .of_lookups ?_ ?_
  · rw [Invalid, or_iff_right (not_not.mpr hvalid), or_iff_right hpassword, and_iff_right hthere]
    simp only [List.any_eq_true, Bool.and_eq_true, beq_iff_eq, bne_iff_ne]
  · rw [exists_missing_iff, Misses, or_iff_right (not_missing_own hthere)]

/-- The refusals of writes of users tell an invalid one from one that misses a row. -/
theorem verdict_save (p : UserPolicy) (t : Store.Tables) (own : Option String) (input : UserInput) :
    Verdict (Invalid p t own input) (Misses t own input) (saveRefusal? p t own input) := by
  unfold saveRefusal?
  cases hf : fault? p input with
  | some text =>
    refine .invalid (.inl fun hvalid => ?_)
    rw [fault?_eq_none_iff.mpr hvalid] at hf
    cases hf
  | none =>
    have hvalid := fault?_eq_none_iff.mp hf
    cases own with
    | none =>
      dsimp only
      by_cases hempty : input.password.isEmpty = true
      · rw [if_pos hempty]
        exact .invalid (.inr (.inl ⟨rfl, String.isEmpty_iff.mp hempty⟩))
      · rw [if_neg hempty]
        exact verdict_lookups there_of_new hvalid fun h =>
          hempty (String.isEmpty_iff.mpr h.2)
    | some id =>
      dsimp only
      unfold storedRefusal?
      by_cases hstored : t.users.any (·.id == id) = true
      · rw [if_pos hstored]
        have hold : ¬(some id = none ∧ input.password = "") := fun h => absurd h.1 (by simp)
        refine verdict_lookups (fun id' hid => ?_) hvalid hold
        obtain rfl := Option.some.inj hid
        exact Store.Tables.any_row.mp hstored
      · have hnone (u : User) (hu : u ∈ t.users) : u.id ≠ id := fun he =>
          hstored (Store.Tables.any_row.mpr ⟨u, hu, he⟩)
        rw [if_neg hstored]
        refine .misses ?_ (.inl ⟨id, rfl, hnone⟩)
        rintro (h | ⟨h, -⟩ | ⟨hthere, -⟩)
        · exact h hvalid
        · cases h
        · exact not_missing_own hthere ⟨id, rfl, hnone⟩

end Users

/-! ## Services that are settled -/

/-- In a world a service is answered by a refusal and changes nothing, or there is none and it
succeeds. On the way nothing fails. -/
def Service.Settled {β : Type} (env : Surroundings) (p : Service β) (v : World MemoryStore)
    (refusal : Option ServiceError) : Prop :=
  ∃ r v', World.run env p.run v = (some r, v') ∧ World.Unfailing env p.run v ∧
    ((∃ e, refusal = some e ∧ r = .error e ∧ v'.desk = v.desk) ∨
      refusal = none ∧ ∃ b, r = .ok b)

section Settled

variable {α β : Type} {env : Surroundings} {v v₁ : World MemoryStore}
  {refusal : Option ServiceError}

theorem settled_refuse (e : ServiceError) (v : World MemoryStore) :
    Settled env (refuse e : Service β) v (some e) :=
  ⟨.error e, v, rfl, trivial, .inl ⟨e, rfl, rfl, rfl⟩⟩

/-- What follows a part that succeeds and changes nothing. -/
theorem Service.Settled.after {x : Service α} {f : α → Service β} {a : α}
    (hx : World.run env x.run v = (some (.ok a), v₁)) (hunfailing : World.Unfailing env x.run v)
    (hdesk : v₁.desk = v.desk) (hf : Settled env (f a) v₁ refusal) :
    Settled env (x >>= f) v refusal := by
  obtain ⟨r, v', hrun, hrest, hout⟩ := hf
  refine ⟨r, v', ?_, World.unfailing_bind_service.mpr ⟨hunfailing, fun a' v₂ ha => ?_⟩,
    hdesk ▸ hout⟩
  · rw [World.run_bind_service, hx]
    exact hrun
  · obtain ⟨hanswer, rfl⟩ := Prod.mk.inj (hx.symm.trans ha)
    obtain rfl := Except.ok.inj (Option.some.inj hanswer)
    exact hrest

/-- A transaction whose work is sure to be refused or else to go through, with projections of its
result that then succeed. -/
theorem settled_commit {ctx : Context} {body : Session → Service α}
    {after : Session → α → Service β} {saved : α → Desk → Prop}
    (hbody : ∀ s : Session, s.Works (body s)) (hafter : ∀ s a, Session.Follows s (after s a))
    (hv : v.faults = []) (hi : v.Idle)
    (hsure : ∀ s : Session, (body s).run.Surely env s.id (fun r d =>
      (∃ e, refusal = some e ∧ r = .error e) ∨ refusal = none ∧ ∃ a, r = .ok a ∧ saved a d) v.desk)
    (hserved : ∀ r d', Committed env body after v.desk r d' → ∃ b, r = .ok b) :
    Settled env (Service.session fun s => ctx.transaction s (body s) >>= after s) v refusal := by
  have hcomes : Comes env (Service.session fun s => ctx.transaction s (body s) >>= after s) _ :=
    comes_commit hbody hafter
  obtain ⟨r, v', hrun, -, -, hout⟩ := hcomes v hv hi
  refine ⟨r, v', hrun, unfailing_commit hbody hafter hv hi hsure, ?_⟩
  obtain ⟨s, e, d₁, hends, rfl, hdesk⟩ | hcommitted := hout
  · obtain ⟨e', hrefusal, he⟩ | ⟨-, a, hok, -⟩ := (hsure s).ends hends
    · exact .inl ⟨e', hrefusal, congrArg _ (Except.error.inj he), hdesk⟩
    · cases hok
  · refine .inr ⟨?_, hserved r _ hcommitted⟩
    obtain ⟨s, a, hends, -⟩ := hcommitted
    obtain ⟨e, -, he⟩ | ⟨hnone, -⟩ := (hsure s).ends hends
    · cases he
    · exact hnone

/-- The hash of a password takes a salt and nothing else. -/
theorem Service.Settled.after_hashed {p : UserPolicy} {password : String} {f : String → Service β}
    (h : ∀ hash v₁, v₁.faults = v.faults → v₁.store = v.store → v₁.engine = v.engine →
      Settled env (f hash) v₁ refusal) : Settled env (p.hashed password >>= f) v refusal := by
  have hrun : World.run env (p.hashed password).run v =
      (some (.ok (p.passwords.hash (env.salt v.salts) password)),
        { v with salts := v.salts + 1 }) := rfl
  exact .after hrun ⟨fun h => h, trivial⟩ rfl (h _ _ rfl rfl rfl)

end Settled

/-! ## Writes in sound worlds -/

section Writes

variable {env : Surroundings} {used : List String} {v : World MemoryStore}

/-- A sound world without planned faults: no session has a transaction open, the engine is coherent,
and the ids to come are fresh. -/
structure World.Ready (env : Surroundings) (used : List String) (v : World MemoryStore) : Prop where
  faults : v.faults = []
  idle : v.Idle
  sound : v.tables.Sound used
  coherent : v.engine.Coherent
  fresh : env.FreshFor used v.tables

/-- What a mutation commits in such a world is answered with success. -/
theorem World.Ready.served (h : v.Ready env used) (m : Mutation) (users : UserPolicy)
    (actor : String) {r : Except ServiceError m.Result} {d' : Desk}
    (hc : m.Commits env users actor v.desk r d') : ∃ b, r = .ok b := by
  obtain ⟨_, -, -, -, hok⟩ := hc.followed h.sound h.fresh
  exact (hok h.coherent).1

theorem World.Ready.hashed {v₁ : World MemoryStore} (h : v.Ready env used)
    (hfaults : v₁.faults = v.faults) (hstore : v₁.store = v.store) (hengine : v₁.engine = v.engine) :
    v₁.desk = v.desk ∧ v₁.Ready env used := by
  have htables : v₁.tables = v.tables := congrArg (fun st => st.shared.tables) hstore
  refine ⟨?_, hfaults.trans h.faults, ?_, htables ▸ h.sound, hengine ▸ h.coherent,
    htables ▸ h.fresh⟩
  · rw [World.desk, World.desk, htables, hengine]
  · rw [World.Idle, hstore]
    exact h.idle

namespace Roles

/-- Every write of a role is settled. -/
theorem settled_save (h : v.Ready env used) (users : UserPolicy) (ctx : Context)
    (own : Option String) (input : RoleInput) :
    Settled env (Saving.program users ctx (.role own input)) v (saveRefusal? v.tables own input) := by
  have hafter (s : Session) (role : Role) : s.Follows (do
      project s role.id
      return role) := (follows_project role.id).bind fun _ => Session.follows_pure role
  cases hf : fault? input with
  | some text =>
    have hrefused : validate input = refuse (.validation text) := by
      simp only [validate, hf]
    cases own <;>
      simp only [Saving.program, create, update, saveRefusal?, updateRefusal?, hf, hrefused] <;>
      exact settled_refuse _ v
  | none =>
    have hchecked : validate input = pure () := by
      simp only [validate, hf]
    cases own with
    | none =>
      obtain ⟨hroles, hgrants⟩ := h.sound.fresh_role (h.fresh.next .role rfl).2
      simp only [Saving.program, create, saveRefusal?, hf, hchecked, pure_bind]
      refine settled_commit (fun _ => works_insert ctx.actor input) hafter h.faults h.idle
        (fun s => surely_insert hf rfl hroles hgrants) fun r d' hc => ?_
      exact h.served (.createRole input) users ctx.actor ⟨hf, hc⟩
    | some id =>
      simp only [Saving.program, update, saveRefusal?, hchecked, pure_bind]
      refine settled_commit (fun _ => works_applyUpdate id input) hafter h.faults h.idle
        (fun s => surely_applyUpdate hf) fun r d' hc => ?_
      exact h.served (.updateRole id input) users ctx.actor ⟨hf, hc⟩

end Roles

namespace Users

variable {p : UserPolicy}

theorem follows_save (s : Session) (user : User) : s.Follows (do
    syncPolicy s user.id user.status
    return user) :=
  (follows_syncPolicy user.id user.status).bind fun _ => Session.follows_pure user

/-- The transaction of a creation, once the password is hashed. -/
theorem settled_insert (h : v.Ready env used) (ctx : Context) {input : UserInput}
    (hf : fault? p input = none) (hash : String) :
    Settled env (Service.session fun s => do
      let user ← ctx.transaction s (insert s ctx.actor hash input)
      syncPolicy s user.id user.status
      return user) v (refusal? v.tables none input) := by
  obtain ⟨husers, hassignments⟩ := h.sound.fresh_user (h.fresh.next .user rfl).2
  refine settled_commit (fun _ => works_insert ctx.actor hash input) follows_save h.faults h.idle
    (fun s => surely_insert hf rfl husers hassignments) fun r d' hc => ?_
  exact h.served (.createUser input) p ctx.actor ⟨hf, hash, hc⟩

/-- The transaction of an update, with the hash of a new password if there is one. -/
theorem settled_applyUpdate (h : v.Ready env used) (ctx : Context) {input : UserInput}
    (hf : fault? p input = none) (id : String) (hash : Option String) :
    Settled env (Service.session fun s => do
      let user ← ctx.transaction s (applyUpdate s id hash input)
      syncPolicy s user.id user.status
      return user) v (storedRefusal? v.tables id input) := by
  refine settled_commit (fun _ => works_applyUpdate id hash input) follows_save h.faults h.idle
    (fun s => surely_applyUpdate hf) fun r d' hc => ?_
  exact h.served (.updateUser id input) p ctx.actor ⟨hf, hash, hc⟩

/-- Every write of a user is settled. -/
theorem settled_save (h : v.Ready env used) (ctx : Context) (own : Option String)
    (input : UserInput) :
    Settled env (Saving.program p ctx (.user own input)) v
      (saveRefusal? p v.tables own input) := by
  cases hf : fault? p input with
  | some text =>
    have hrefused : validate p input = refuse (.validation text) := by
      simp only [validate, hf]
    cases own <;> simp only [Saving.program, create, update, saveRefusal?, hf, hrefused] <;>
      exact settled_refuse _ v
  | none =>
    have hchecked : validate p input = pure () := by
      simp only [validate, hf]
    cases own with
    | none =>
      simp only [Saving.program, create, saveRefusal?, hf, hchecked, pure_bind]
      by_cases hempty : input.password.isEmpty = true
      · rw [if_pos hempty, if_pos hempty]
        exact settled_refuse _ v
      · rw [if_neg hempty, if_neg hempty]
        refine .after_hashed fun hash v₁ hfaults hstore hengine => ?_
        obtain ⟨hdesk, hready⟩ := h.hashed hfaults hstore hengine
        rw [← show v₁.tables = v.tables from congrArg Desk.tables hdesk]
        exact settled_insert hready ctx hf hash
    | some id =>
      simp only [Saving.program, update, saveRefusal?, hf, hchecked, pure_bind]
      split
      · exact settled_applyUpdate h ctx hf id none
      · rw [map_eq_pure_bind, bind_assoc]
        refine .after_hashed fun hash v₁ hfaults hstore hengine => ?_
        obtain ⟨hdesk, hready⟩ := h.hashed hfaults hstore hengine
        rw [← show v₁.tables = v.tables from congrArg Desk.tables hdesk, pure_bind]
        exact settled_applyUpdate hready ctx hf id (some hash)

end Users

end Writes

/-! ## Reached worlds -/

/-- A service is answered. It is refused as invalid, or else because it misses a row, and nothing has
changed then; otherwise it succeeds. The store refuses none of its calls. -/
def Service.Tells {β : Type} (env : Surroundings) (p : Service β) (v : World MemoryStore)
    (invalid misses : Prop) : Prop :=
  ∃ r v', World.run env p.run v = (some r, v') ∧
    ((∃ text, r = .error (.validation text)) ↔ invalid) ∧
    ((∃ text, r = .error (.notFound text)) ↔ ¬invalid ∧ misses) ∧
    ((∃ b, r = .ok b) ↔ ¬invalid ∧ ¬misses) ∧
    (∀ e, r = .error e → v'.tables = v.tables ∧ v'.engine = v.engine) ∧
    (∀ e, r ≠ .error (.storage e)) ∧ World.Unfailing env p.run v

/-- What is settled by a refusal that tells what stands in the way. -/
theorem Service.Settled.tells {β : Type} {env : Surroundings} {p : Service β}
    {v : World MemoryStore} {refusal : Option ServiceError} {invalid misses : Prop}
    (h : Settled env p v refusal) (hverdict : Verdict invalid misses refusal) :
    Tells env p v invalid misses := by
  obtain ⟨r, v', hrun, hunfailing, hout⟩ := h
  have hrefused (e : ServiceError) (he : refusal = some e) :
      r = .error e ∧ v'.tables = v.tables ∧ v'.engine = v.engine := by
    obtain ⟨e', he', rfl, hdesk⟩ | ⟨hnone, -⟩ := hout
    · obtain rfl := Option.some.inj (he.symm.trans he')
      exact ⟨rfl, Desk.mk.inj hdesk⟩
    · cases he.symm.trans hnone
  have haccepted (hnone : refusal = none) : ∃ b, r = .ok b := by
    obtain ⟨e', he', -⟩ | ⟨-, hok⟩ := hout
    · cases hnone.symm.trans he'
    · exact hok
  obtain ⟨hinvalid, hmisses, hok, hstorage, hkept⟩ := hverdict.answer hrefused haccepted
  exact ⟨r, v', hrun, hinvalid, hmisses, hok, hkept, hstorage, hunfailing⟩

/-- In a world that undisturbed commands led to, every write of a role or a user, a creation or an
update, is told apart: it is refused as invalid, or else because it misses a row, or else it
succeeds. A refusal leaves the tables and the engine as they were, and the store itself never has
anything to refuse. -/
theorem Reached.writes {used : List String} {w : World MemoryStore}
    (h : Reached (fun q => q.faults = []) used w) {env : Surroundings}
    (hfresh : env.FreshFor used w.tables) (users : UserPolicy) (ctx : Context)
    (own : Option String) :
    (∀ input : RoleInput, Tells env (Saving.program users ctx (.role own input))
      { w with faults := [] } (Roles.Invalid w.tables own input)
      (Roles.Misses w.tables own input)) ∧
    ∀ input : UserInput, Tells env (Saving.program users ctx (.user own input))
      { w with faults := [] } (Users.Invalid users w.tables own input)
      (Users.Misses w.tables own input) := by
  have hready : World.Ready env used { w with faults := [] } :=
    ⟨rfl, h.idle, h.sound, h.agrees.1, hfresh⟩
  exact ⟨fun input =>
      (Roles.settled_save hready users ctx own input).tells (Roles.verdict_save w.tables own input),
    fun input =>
      (Users.settled_save hready ctx own input).tells (Users.verdict_save users w.tables own input)⟩

/-- In the sample a second clerk is refused for the name, an unknown role is missed, and the clerk
may keep its name in an update. -/
theorem sample_writes :
    (∃ r w', World.run Sample.env (Roles.create {} { name := "Clerk" }).run
        { Sample.world with faults := [] } = (some r, w') ∧
      (∃ text, r = .error (.validation text)) ∧ w'.tables = Sample.world.tables) ∧
    (∃ r w', World.run Sample.env (Users.create Sample.users {}
        { username := "ann", password := "secret", roleIds := ["rxx"] }).run
        { Sample.world with faults := [] } = (some r, w') ∧
      (∃ text, r = .error (.notFound text)) ∧ w'.tables = Sample.world.tables) ∧
    ∃ role w', World.run Sample.env (Roles.update {} "rx" { name := "Clerk" }).run
        { Sample.world with faults := [] } = (some (.ok role), w') := by
  obtain ⟨used, hreached, hnamed⟩ := Sample.reached
  have hfresh : Sample.env.FreshFor used Sample.world.tables := .of_named rfl hnamed
  have hclerk : ∃ r ∈ Sample.world.tables.roles, r.name = "Clerk" ∧ r.id = "rx" := by
    decide +kernel
  have hall : ∀ r ∈ Sample.world.tables.roles, r.id = "rx" := by decide +kernel
  have hann : ∀ u ∈ Sample.world.tables.users, u.username ≠ "ann" := by decide +kernel
  obtain ⟨hroles, husers⟩ := hreached.writes hfresh Sample.users {} none
  obtain ⟨hupdates, -⟩ := hreached.writes hfresh Sample.users {} (some "rx")
  refine ⟨?_, ?_, ?_⟩
  · obtain ⟨r, w', hrun, hinvalid, -, -, hkept, -⟩ := hroles { name := "Clerk" }
    obtain ⟨x, hx, hname, -⟩ := hclerk
    obtain ⟨text, hr⟩ := hinvalid.mpr
      (.inr ⟨there_of_new, x, hx, hname, by simp⟩)
    exact ⟨r, w', hrun, ⟨text, hr⟩, (hkept _ hr).1⟩
  · obtain ⟨r, w', hrun, -, hmisses, -, hkept, -⟩ :=
      husers { username := "ann", password := "secret", roleIds := ["rxx"] }
    have hvalid : UserInput.Valid Sample.users
        { username := "ann", password := "secret", roleIds := ["rxx"] } :=
      Users.fault?_eq_none_iff.mp (by decide +kernel)
    have hfree : ¬Users.Invalid Sample.users Sample.world.tables none
        { username := "ann", password := "secret", roleIds := ["rxx"] } := by
      rintro (h | ⟨-, h⟩ | ⟨-, u, hu, hname, -⟩)
      · exact h hvalid
      · exact absurd h (by decide)
      · exact hann u hu hname
    have hmissing : ∀ x ∈ Sample.world.tables.roles, x.id ≠ "rxx" := fun x hx =>
      hall x hx ▸ by decide
    obtain ⟨text, hr⟩ := hmisses.mpr ⟨hfree, .inr ⟨"rxx", .head _, hmissing⟩⟩
    exact ⟨r, w', hrun, ⟨text, hr⟩, (hkept _ hr).1⟩
  · obtain ⟨r, w', hrun, -, -, hserved, -⟩ := hupdates { name := "Clerk" }
    have hvalid : RoleInput.Valid { name := "Clerk" } :=
      Roles.fault?_eq_none_iff.mp (by decide +kernel)
    have hfree : ¬Roles.Invalid Sample.world.tables (some "rx") { name := "Clerk" } := by
      rintro (h | ⟨-, x, hx, -, hother⟩)
      · exact h hvalid
      · exact hother (congrArg some (hall x hx))
    have hnothing : ¬Roles.Misses Sample.world.tables (some "rx") { name := "Clerk" } := by
      rintro (⟨_, hid, hnone⟩ | ⟨g, hg, -⟩)
      · obtain ⟨x, hx, -, hrole⟩ := hclerk
        exact hnone x hx (hrole.trans (Option.some.inj hid))
      · cases hg
    obtain ⟨role, rfl⟩ := hserved.mpr ⟨hfree, hnothing⟩
    exact ⟨role, w', hrun⟩

end AccessAdmin
