import AccessAdmin.Proofs.Changes.Keys

/-!
# Stored passwords

The users are stored with hashes of passwords and with nothing else in their place. Four mutations
hash a password with a fresh salt and store the hash; the others pass on the hashes that they find.

* `User.HasPassword`: the stored hash is one of a password.
* `Store.Tables.Hashed`: every user has a password.
* `Reached.hashed`: sequences of commands with one way of hashing lead to such tables only.
-/

namespace AccessAdmin

variable {β : Type} {s : PasswordScheme} {env : Surroundings}

/-- A user has a password: what is stored is a hash of it. -/
def User.HasPassword (s : PasswordScheme) (password : String) (u : User) : Prop :=
  ∃ salt, u.passwordHash = s.hash salt password

/-- Every user has a password. -/
def Store.Tables.Hashed (s : PasswordScheme) (t : Store.Tables) : Prop :=
  ∀ u ∈ t.users, ∃ password, u.HasPassword s password

/-- A hash that a change stores, if it stores one, is one of a password. -/
def Store.Write.Hashes (s : PasswordScheme) : Store.Write → Prop
  | .createUser u => ∃ password, u.HasPassword s password
  | .updateUserPassword _ hash => ∃ salt password, hash = s.hash salt password
  | _ => True

/-! ## Changes of the tables -/

namespace Store.Tables

variable {t t' : Tables}

theorem Hashed.of_users (h : t.Hashed s)
    (husers : ∀ u ∈ t'.users, ∃ u₀ ∈ t.users, u.passwordHash = u₀.passwordHash) : t'.Hashed s := by
  intro u hu
  obtain ⟨u₀, hu₀, hhash⟩ := husers u hu
  obtain ⟨password, salt, he⟩ := h u₀ hu₀
  exact ⟨password, salt, hhash.trans he⟩

theorem Hashed.map (h : t.Hashed s) {f : User → User}
    (hf : ∀ u, (f u).passwordHash = u.passwordHash) (ht : t' = { t with users := t.users.map f }) :
    t'.Hashed s := by
  refine h.of_users fun u hu => ?_
  rw [ht] at hu
  obtain ⟨u₀, hu₀, rfl⟩ := List.mem_map.mp hu
  exact ⟨u₀, hu₀, hf u₀⟩

theorem Hashed.apply {w : Write} (ht : t.Hashed s) (h : t.apply w = .ok t') (hw : w.Hashes s) :
    t'.Hashed s := by
  cases w with
  | createUser u =>
    obtain ⟨-, -, rfl⟩ := createUser_eq_ok.mp h
    intro x hx
    rcases List.mem_append.mp hx with hx | hx
    · exact ht x hx
    · obtain rfl := List.mem_singleton.mp hx
      exact hw
  | updateUser u =>
    obtain ⟨-, _, husers, rfl⟩ := updateUser_eq_ok.mp h
    obtain ⟨-, rfl⟩ := amend_eq_ok.mp husers
    refine ht.map (fun x => ?_) rfl
    split <;> rfl
  | updateUserStatus id status =>
    refine ht.map (fun x => ?_) (Users.amendUser_eq h).2
    split <;> rfl
  | updateUserPassword id hash =>
    obtain ⟨-, rfl⟩ := Users.amendUser_eq h
    obtain ⟨salt, password, hhash⟩ := hw
    intro x hx
    obtain ⟨y, hy, rfl⟩ := List.mem_map.mp hx
    split
    · exact ⟨password, salt, hhash⟩
    · exact ht y hy
  | deleteUser id =>
    obtain rfl := Except.ok.inj h
    exact fun u hu => ht u (List.mem_filter.mp hu).1
  | _ =>
    intro u hu
    rw [(apply_frame h).users (by rintro ⟨⟩)] at hu
    exact ht u hu

end Store.Tables

/-! ## Mutations that hash -/

theorem Menus.Grown.users_eq {t t' : Store.Tables} (h : Grown env t t') : t'.users = t.users := by
  induction h with
  | refl => rfl
  | tail _ hadded ih =>
    obtain ⟨_, _, -, hadded⟩ := hadded
    rw [hadded.tables]
    exact ih

namespace Mutation

/-- Whether a mutation may store a new hash. -/
def Rehashes : Mutation → Prop
  | createUser _ | updateUser _ _ | updatePassword _ _ | changeOwnPassword _ _ _ => True
  | _ => False

/-- The other mutations pass on the hashes that they find. -/
theorem Changes.hashed {t t' : Store.Tables} {m : Mutation} {a : m.Result}
    (hc : m.Changes env t a t') (hm : ¬m.Rehashes) (h : t.Hashed s) : t'.Hashed s := by
  cases m with
  | createMenu _ =>
    obtain ⟨_, hadded⟩ := hc
    rw [hadded.tables]
    exact h
  | updateMenu _ _ =>
    obtain ⟨_, _, hupdated⟩ := hc
    rw [hupdated.frame]
    exact h
  | deleteMenu _ =>
    rw [Menus.Removed.tables hc]
    exact h
  | seedMenus _ =>
    rw [Store.Tables.Hashed, Menus.Grown.users_eq hc]
    exact h
  | createRole _ =>
    obtain ⟨_, hadded, -⟩ := hc
    rw [hadded.tables]
    exact h
  | updateRole _ _ =>
    rw [Roles.Updated.frame hc]
    exact h
  | deleteRole _ =>
    rw [Roles.Removed.tables hc]
    exact h
  | deleteUser _ =>
    rw [Users.Removed.tables hc]
    exact fun u hu => h u (List.mem_filter.mp hu).1
  | updateStatus _ _ =>
    refine h.map (fun u => ?_) hc.2
    unfold Users.withStatus
    split <;> rfl
  | createUser _ | updateUser _ _ | updatePassword _ _ | changeOwnPassword _ _ _ =>
    exact absurd trivial hm

end Mutation

/-! ## Services that hash -/

section Services

open Service Session

variable {α : Type} {p : UserPolicy} {ctx : Context} {password : String}
  {C : Desk → Except ServiceError β → Desk → Prop}

/-- What is done with the hash of a password is done with a fresh salt. -/
theorem UserPolicy.hashed_bind (f : String → Service β) : p.hashed password >>= f =
    Service.perform .freshSalt >>= fun salt => f (p.passwords.hash salt password) := by
  rw [UserPolicy.hashed, bind_assoc]
  exact bind_congr fun salt => pure_bind _ _

theorem contract_hashed {f : String → Service β}
    (hf : ∀ salt, Contract env (f (p.passwords.hash salt password)) C) :
    Contract env (p.hashed password >>= f) C := by
  rw [UserPolicy.hashed_bind]
  exact quiet_freshSalt.contract hf

/-- A commit on tables whose users have passwords leaves such tables. -/
def Service.KeepsHashed (s : PasswordScheme) (d : Desk) (_ : Except ServiceError β) (d' : Desk) :
    Prop :=
  d.tables.Hashed s → d'.tables.Hashed s

theorem Service.Committed.keeping {body : Session → Service α} {after : Session → α → Service β}
    (hbody : ∀ s', Writes (Store.Write.Hashes s) (body s')) {d d' : Desk}
    {r : Except ServiceError β} (h : Committed env body after d r d') : KeepsHashed s d r d' :=
  h.kept (fun _ _ _ happly hw ht => ht.apply happly hw) hbody

theorem keeping_create (input : UserInput) :
    Contract env (Users.create p ctx input) (KeepsHashed p.passwords) := by
  refine (contract_checked (Users.validate_cases input) ?_).mono fun _ _ _ h => h.2
  refine contract_ite (contract_refuse (plain_validation _)) (contract_hashed fun salt => ?_)
  refine (contract_commit (fun _ => Users.works_insert _ _ input) fun _ user => ?_).mono
    fun _ _ _ h => h.keeping fun _ => Users.writes_insert _ _ ?_ fun _ => trivial
  · exact (Users.follows_syncPolicy user.id user.status).bind fun _ => follows_pure user
  · exact fun _ _ hhash => ⟨input.password, salt, hhash⟩

theorem keeping_update (id : String) (input : UserInput) :
    Contract env (Users.update p ctx id input) (KeepsHashed p.passwords) := by
  refine (contract_checked (Users.validate_cases input) ?_).mono fun _ _ _ h => h.2
  have hafter (hash : Option String)
      (hhash : ∀ h ∈ hash, ∃ salt password, h = p.passwords.hash salt password) :
      Contract env (Service.session fun s => do
        let user ← ctx.transaction s (Users.applyUpdate s id hash input)
        Users.syncPolicy s user.id user.status
        return user) (KeepsHashed p.passwords) := by
    refine (contract_commit (fun _ => Users.works_applyUpdate id hash input) fun _ user => ?_).mono
      fun _ _ _ h => h.keeping fun _ => Users.writes_applyUpdate id hash (fun _ _ => trivial)
        trivial hhash (fun _ => trivial) fun _ => trivial
    exact (Users.follows_syncPolicy user.id user.status).bind fun _ => follows_pure user
  dsimp only
  split
  · rw [pure_bind]
    exact hafter none fun _ h => nomatch h
  · rw [map_eq_pure_bind, bind_assoc]
    refine contract_hashed fun salt => ?_
    rw [pure_bind]
    exact hafter _ fun _ h => ⟨salt, input.password, (Option.some.inj h).symm⟩

theorem keeping_updatePassword (id password : String) :
    Contract env (Users.updatePassword p ctx id password) (KeepsHashed p.passwords) := by
  refine contract_ite (contract_refuse (plain_validation _)) (contract_hashed fun salt => ?_)
  have hwrite (s' : Session) : Writes (Store.Write.Hashes p.passwords)
      (s'.change (.updateUserPassword id (p.passwords.hash salt password))) :=
    writes_change ⟨salt, password, rfl⟩
  exact (contract_transaction fun _ => works_change _).mono fun _ _ _ h => h.keeping hwrite

variable (env p ctx) in
/-- What a mutation stores in the place of a hash is a hash. -/
theorem Mutation.keeping {m : Mutation} (hm : m.Rehashes) :
    Contract env (m.program p ctx) (KeepsHashed p.passwords) := by
  cases m with
  | createUser input => exact keeping_create input
  | updateUser id input => exact keeping_update id input
  | updatePassword id password => exact keeping_updatePassword id password
  | changeOwnPassword userId old new =>
    refine contract_ite (contract_refuse (plain_validation _)) ?_
    refine contract_ite (contract_refuse (plain_validation _)) ?_
    refine (Quiet.session fun s => quiet_activeUser s userId).contract fun user => ?_
    refine (quiet_verifyPassword _ _).contract fun right => ?_
    exact contract_ite (keeping_updatePassword userId new) (contract_refuse (plain_validation _))
  | _ => exact hm.elim

end Services

/-! ## Sequences of commands -/

/-- Whatever faults are planned, what a contract says of the tables of its commits holds of the
tables that are left behind. -/
theorem Service.Contract.kept {P : Store.Tables → Prop} {p : Service β} {v v' : World MemoryStore}
    (h : Contract env p fun d _ d' => P d.tables → P d'.tables) (hi : v.Idle)
    {r : Except ServiceError β} (hrun : World.run env p.run v = (some r, v'))
    (hv : P v.tables) : P v'.tables := by
  obtain ⟨rc, vc, ⟨e, -, hrefused, hruns⟩ | ⟨-, hP, -, hruns⟩⟩ := h { v with faults := [] } rfl hi
  all_goals
    obtain ⟨r', v₁, F, T, hr, -, hend⟩ := hruns.disturbed v.faults v.time
    obtain ⟨-, rfl⟩ := Prod.mk.inj (hrun.symm.trans hr)
    have hrefusal (hdesk : v₁.desk = v.desk) : P (v₁.disturbed F T).tables := by
      rw [show (v₁.disturbed F T).tables = v.tables from congrArg Desk.tables hdesk]
      exact hv
  · obtain ⟨-, rfl⟩ | ⟨e', -, hrefused'⟩ := hend
    · exact hrefusal hrefused.desk
    · exact hrefusal hrefused'.desk
  · obtain ⟨-, rfl⟩ | ⟨e', -, hrefused | hlagging⟩ := hend
    · exact hP hv
    · exact hrefusal hrefused.desk
    · rw [show (v₁.disturbed F T).tables = vc.tables from hlagging.tables]
      exact hP hv

/-- Sequences of commands with one way of hashing lead to users with passwords only. -/
theorem Reached.hashed {admits : Command → Prop} (hadmits : ∀ q, admits q → q.users.passwords = s)
    {used : List String} {w : World MemoryStore} (h : Reached admits used w) :
    w.tables.Hashed s := by
  induction h with
  | start hst _ =>
    rw [World.tables, hst]
    exact fun _ hu => absurd hu List.not_mem_nil
  | @step _ w q hreached hq _ ih =>
    by_cases hm : q.mutation.Rehashes
    · obtain ⟨-, -, r, w', -, hr, -⟩ := q.run_outcome hreached.idle
      have hkeeping := Mutation.keeping q.env q.users q.ctx hm
      rw [hr]
      rw [hadmits q hq] at hkeeping
      exact hkeeping.kept (v := { w with faults := q.faults }) hreached.idle hr ih
    · obtain htables | ⟨a, hchanges⟩ := q.tables_run hreached.idle hreached.sound
      · rw [htables]
        exact ih
      · exact hchanges.hashed hm ih

end AccessAdmin
