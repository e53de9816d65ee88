import AccessAdmin.Proofs.Changes.Passwords
import AccessAdmin.Proofs.Running.Outcome
import AccessAdmin.Proofs.Sequences

/-!
# A caller's own password

A caller changes its password by naming the old one. The old one is checked for the name of the
caller's account, the new one is stored under its id, each in a session of its own: both are the
same account because no two users have one name. Whoever is refused changes nothing.

* `PasswordScheme.Exact`: a hash verifies its password and no other.
* `Users.comes_verifyPassword`, `Users.comes_activeUser`, `Users.comes_updatePassword`: the three
  sessions.
* `Users.comes_changeOwnPassword`: one after the other.
* `Reached.own_password`: who may change which password, and what changes with it.
-/

namespace AccessAdmin

/-- A hash verifies the password that it was made of and no other. -/
def PasswordScheme.Exact (s : PasswordScheme) : Prop :=
  ∀ salt password other, s.verify (s.hash salt password) other = true ↔ password = other

theorem PasswordScheme.Exact.verify_iff {s : PasswordScheme} (h : s.Exact) {u : User}
    {password : String} (hu : u.HasPassword s password) {other : String} :
    s.verify u.passwordHash other = true ↔ password = other := by
  obtain ⟨salt, hhash⟩ := hu
  rw [hhash]
  exact h salt password other

open Service Session

namespace Users

/-- The hash that is stored for a user. -/
def withHash (id hash : String) (u : User) : User :=
  if u.id = id then { u with passwordHash := hash } else u

/-- Whether a password is right for a name, by what is stored. -/
def verified (p : UserPolicy) (t : Store.Tables) (username password : String) : Bool :=
  (t.matchingUsers (.named username)).head?.any fun u =>
    u.isEnabled && p.passwords.verify u.passwordHash password

section Names

variable {t : Store.Tables} {u : User}

/-- With the names distinct, a name leads to one user. -/
theorem matchingUsers_named (hnames : (t.users.map User.username).Nodup) (hu : u ∈ t.users) :
    t.matchingUsers (.named u.username) = [u] := by
  have hmem (x : User) : x ∈ t.matchingUsers (.named u.username) ↔ x ∈ [u] := by
    simp only [Store.Tables.matchingUsers, List.mem_mergeSort, List.mem_filter, UserFilter.admits,
      UserFilter.named, Option.all_none, Option.all_some, Bool.and_true, Bool.true_and, beq_iff_eq,
      List.mem_singleton]
    constructor
    · rintro ⟨hx, hname⟩
      exact List.inj_on_of_nodup_map hnames hx hu hname
    · rintro rfl
      exact ⟨hu, rfl⟩
  have hnodup : (t.matchingUsers (.named u.username)).Nodup :=
    (List.mergeSort_perm _ _).nodup_iff.mpr (hnames.of_map.sublist List.filter_sublist)
  exact List.perm_singleton.mp
    ((List.perm_ext_iff_of_nodup hnodup (List.nodup_singleton u)).mpr hmem)

theorem verified_username {p : UserPolicy} (hnames : (t.users.map User.username).Nodup)
    (hu : u ∈ t.users) (password : String) :
    verified p t u.username password =
      (u.isEnabled && p.passwords.verify u.passwordHash password) := by
  rw [verified, matchingUsers_named hnames hu]
  rfl

end Names

/-! ## The three sessions -/

section Sessions

variable {env : Surroundings} {p : UserPolicy} {ctx : Context} {userId : String}

theorem comes_verifyPassword (username password : String) :
    Comes env (verifyPassword p ctx username password) fun d r d' =>
      r = .ok (verified p d.tables username password) ∧ d' = d :=
  Comes.session fun _ => comes_ask_then ctx fun _ => comes_pure _

/-- How a caller is answered whose id leads to an account or to none: by the account if it is
enabled. -/
def Admitted (found : Option User) (r : Except ServiceError User) : Prop :=
  (∃ u, found = some u ∧ u.isEnabled = true ∧ r = .ok u) ∨
    (∀ u, found = some u → u.isEnabled = false) ∧ ∃ e, r = .error e

theorem comes_activeUser :
    Comes env (Service.session fun s => Menus.activeUser ctx s userId) fun d r d' =>
      Admitted (d.tables.users.find? (·.id == userId)) r ∧ d' = d := by
  refine Comes.session fun s => comes_ask_then (q := .getUser userId)
    (D := fun found d r d' => Admitted found r ∧ d' = d) ctx fun found => ?_
  cases found with
  | none =>
    refine (comes_refuse _).mono ?_
    rintro _ _ _ ⟨rfl, rfl⟩
    exact ⟨.inr ⟨(fun _ h => nomatch h), _, rfl⟩, rfl⟩
  | some u =>
    dsimp only
    split
    · rename_i henabled
      refine (comes_pure _).mono ?_
      rintro _ _ _ ⟨rfl, rfl⟩
      exact ⟨.inl ⟨u, rfl, henabled, rfl⟩, rfl⟩
    · rename_i hdisabled
      refine (comes_refuse _).mono ?_
      rintro _ _ _ ⟨rfl, rfl⟩
      refine ⟨.inr ⟨fun u' hu => ?_, _, rfl⟩, rfl⟩
      rw [← Option.some.inj hu]
      exact Bool.eq_false_iff.mpr hdisabled

theorem comes_freshSalt :
    Comes env (Service.perform .freshSalt) fun d r d' => (∃ salt, r = .ok salt) ∧ d' = d :=
  fun v hv hi => ⟨.ok _, { v with salts := v.salts + 1 }, rfl, hv, hi, ⟨_, rfl⟩, rfl⟩

/-- The hash of a new password is stored for a stored user. -/
theorem comes_setPassword (id hash : String) :
    Comes env (Service.session fun s => ctx.transaction s (s.change (.updateUserPassword id hash)))
      fun d r d' =>
        ((∀ u ∈ d.tables.users, u.id ≠ id) ∧ (∃ e, r = .error e) ∧ d' = d) ∨
          r = .ok () ∧ d' = ⟨{ d.tables with users := d.tables.users.map (withHash id hash) },
            d.engine⟩ := by
  refine Comes.session fun s => (comes_transaction ctx (works_change _)).mono ?_
  rintro d r ⟨t', engine⟩ (⟨e, d₁, hends, rfl, hdesk⟩ | ⟨_, hends, hengine, rfl⟩)
  · obtain ⟨_, -, hok, -⟩ | ⟨e', happly, -⟩ := ends_change.mp hends
    · cases hok
    · refine .inl ⟨fun u hu he => ?_, ⟨e, rfl⟩, hdesk⟩
      have hthere : d.tables.users.any (·.id == id) = true :=
        Store.Tables.any_row.mpr ⟨u, hu, he⟩
      simp [Store.Tables.apply, Store.Tables.amendUser, Store.Tables.amend, hthere] at happly
  · obtain ⟨t, happly, hdesk⟩ := ends_change_ok.mp hends
    obtain ⟨-, rfl⟩ := amendUser_eq happly
    refine .inr ⟨rfl, ?_⟩
    rw [hdesk]
    simp only [beq_iff_eq]
    rfl

theorem comes_updatePassword {password : String} (id : String) (hne : password.isEmpty = false) :
    Comes env (updatePassword p ctx id password) fun d r d' =>
      ((∀ u ∈ d.tables.users, u.id ≠ id) ∧ (∃ e, r = .error e) ∧ d' = d) ∨
        r = .ok () ∧ ∃ salt, d' = ⟨{ d.tables with
          users := d.tables.users.map (withHash id (p.passwords.hash salt password)) },
            d.engine⟩ := by
  rw [updatePassword, hne, if_neg Bool.false_ne_true, UserPolicy.hashed_bind]
  refine (comes_freshSalt.bind fun salt => comes_setPassword _ _).mono ?_
  rintro d r d' (⟨_, ⟨⟨_, hok⟩, -⟩, -⟩ | ⟨salt, d₁, ⟨-, rfl⟩, hset⟩)
  · cases hok
  · exact hset.imp_right fun ⟨hr, hd⟩ => ⟨hr, salt, hd⟩

/-- What lets a caller change its own password, by what is stored: it is not the root user, the new
password is not empty, and the old one is right for the name of the enabled user with the id. -/
def MayChange (p : UserPolicy) (t : Store.Tables) (userId old new : String) : Prop :=
  userId ≠ p.rootUsername ∧ new ≠ "" ∧ ∃ u, t.users.find? (·.id == userId) = some u ∧
    u.isEnabled = true ∧ verified p t u.username old = true

/-- A caller that may changes its hash, every other one changes nothing. -/
theorem comes_changeOwnPassword (old new : String) :
    Comes env (changeOwnPassword p ctx userId old new) fun d r d' =>
      (¬MayChange p d.tables userId old new ∧ (∃ e, r = .error e) ∧ d' = d) ∨
        MayChange p d.tables userId old new ∧ r = .ok () ∧ ∃ salt, d' = ⟨{ d.tables with
          users := d.tables.users.map (withHash userId (p.passwords.hash salt new)) },
            d.engine⟩ := by
  rw [changeOwnPassword]
  split
  · rename_i hroot
    exact (comes_refuse _).mono fun d r d' h => .inl
      ⟨fun hmay => hmay.1 (beq_iff_eq.mp hroot), ⟨_, h.1⟩, h.2⟩
  rename_i hroot
  split
  · rename_i hempty
    exact (comes_refuse _).mono fun d r d' h => .inl
      ⟨fun hmay => hmay.2.1 (String.isEmpty_iff.mp hempty), ⟨_, h.1⟩, h.2⟩
  rename_i hempty
  have hlast (right : Bool) : Comes env (if right then updatePassword p ctx userId new
      else refuse (.validation "old password is incorrect")) fun d r d' =>
        (right = false ∧ (∃ e, r = .error e) ∧ d' = d) ∨ right = true ∧
          (((∀ u ∈ d.tables.users, u.id ≠ userId) ∧ (∃ e, r = .error e) ∧ d' = d) ∨
            r = .ok () ∧ ∃ salt, d' = ⟨{ d.tables with
              users := d.tables.users.map (withHash userId (p.passwords.hash salt new)) },
                d.engine⟩) := by
    cases right with
    | false => exact (comes_refuse _).mono fun _ _ _ h => .inl ⟨rfl, ⟨_, h.1⟩, h.2⟩
    | true =>
      exact (comes_updatePassword userId (Bool.eq_false_iff.mpr hempty)).mono
        fun _ _ _ h => .inr ⟨rfl, h⟩
  refine (comes_activeUser.bind fun user =>
    (comes_verifyPassword user.username old).bind hlast).mono ?_
  rintro d r d' (⟨e, ⟨hcaller, rfl⟩, rfl⟩ | ⟨user, _, ⟨hcaller, rfl⟩, hrest⟩)
  · obtain ⟨_, -, -, hok⟩ | ⟨hdisabled, -⟩ := hcaller
    · cases hok
    · refine .inl ⟨?_, ⟨e, rfl⟩, rfl⟩
      rintro ⟨-, -, u, hu, henabled, -⟩
      rw [hdisabled u hu] at henabled
      cases henabled
  obtain ⟨u, hfound, henabled, hok⟩ | ⟨-, e, hok⟩ := hcaller
  swap
  · cases hok
  obtain rfl := Except.ok.inj hok
  obtain ⟨e, ⟨hverified, -⟩, -⟩ | ⟨right, d₁, ⟨hverified, rfl⟩, hend⟩ := hrest
  · cases hverified
  obtain rfl := Except.ok.inj hverified
  have hmay : MayChange p d₁.tables userId old new ↔
      verified p d₁.tables user.username old = true := by
    refine ⟨fun ⟨_, _, u, hu, _, hright⟩ => ?_, fun hright =>
      ⟨fun he => hroot (beq_iff_eq.mpr he), fun he => hempty (String.isEmpty_iff.mpr he), user,
        hfound, henabled, hright⟩⟩
    rw [hfound] at hu
    rwa [Option.some.inj hu]
  obtain ⟨hwrong, hrefused⟩ | ⟨hright, ⟨hnone, -⟩ | hset⟩ := hend
  · refine .inl ⟨fun h => ?_, hrefused⟩
    rw [hmay.mp h] at hwrong
    cases hwrong
  · obtain ⟨hmem, hid⟩ := Store.Tables.find_row hfound
    exact absurd hid (hnone user hmem)
  · exact .inr ⟨hmay.mpr hright, hset⟩

end Sessions

end Users

/-! ## In reached worlds -/

section Reached

variable {p : UserPolicy} {used : List String} {w : World MemoryStore} {userId old new : String}

/-- With the names distinct, the old password is the caller's own. -/
theorem Users.mayChange_iff {t : Store.Tables} (hexact : p.passwords.Exact)
    (hids : (t.users.map User.id).Nodup) (hnames : (t.users.map User.username).Nodup)
    (hhashed : t.Hashed p.passwords) :
    MayChange p t userId old new ↔ userId ≠ p.rootUsername ∧ new ≠ "" ∧
      ∃ u ∈ t.users, u.id = userId ∧ u.isEnabled = true ∧ u.HasPassword p.passwords old := by
  have hright {u : User} (hu : u ∈ t.users) (henabled : u.isEnabled = true) :
      verified p t u.username old = true ↔ u.HasPassword p.passwords old := by
    obtain ⟨password, hpassword⟩ := hhashed u hu
    rw [verified_username hnames hu, henabled, Bool.true_and, hexact.verify_iff hpassword]
    constructor
    · rintro rfl
      exact hpassword
    · intro hold
      rw [← hexact.verify_iff hpassword, hexact.verify_iff hold]
  refine and_congr_right fun _ => and_congr_right fun _ => ⟨?_, ?_⟩
  · rintro ⟨u, hfound, henabled, hold⟩
    obtain ⟨hu, hid⟩ := Store.Tables.find_row hfound
    exact ⟨u, hu, hid, henabled, (hright hu henabled).mp hold⟩
  · rintro ⟨u, hu, rfl, henabled, hold⟩
    exact ⟨u, Store.Tables.find_row_of_mem hids hu, henabled, (hright hu henabled).mpr hold⟩

/-- After a change the new password is right for the name of the account, and no other one is. -/
theorem Users.verified_withHash {t : Store.Tables} {u : User} {salt : ByteArray}
    (hexact : p.passwords.Exact) (hnames : (t.users.map User.username).Nodup) (hu : u ∈ t.users)
    (henabled : u.isEnabled = true) (password : String) :
    verified p { t with users := t.users.map (withHash u.id (p.passwords.hash salt new)) }
      u.username password = decide (password = new) := by
  let f := withHash u.id (p.passwords.hash salt new)
  have hname (x : User) : (f x).username = x.username := by
    unfold f withHash
    split <;> rfl
  have hself : f u = { u with passwordHash := p.passwords.hash salt new } := if_pos rfl
  have hnames' : ((t.users.map f).map User.username).Nodup := by
    rw [List.map_map, show User.username ∘ f = User.username from funext hname]
    exact hnames
  have hpassword : (f u).HasPassword p.passwords new := ⟨salt, by rw [hself]⟩
  have hverified := verified_username (p := p) (t := { t with users := t.users.map f }) hnames'
    (List.mem_map_of_mem hu) password
  rw [hname] at hverified
  rw [hverified, Bool.eq_iff_iff, Bool.and_eq_true, hexact.verify_iff hpassword, decide_eq_true_iff,
    eq_comm (a := password)]
  have henabled' : (f u).isEnabled = true := by
    rw [hself]
    exact henabled
  exact and_iff_right henabled'

/-- A caller changes its password exactly if it is not the root user, names a new password, and is
stored and enabled with the old one as its own. Then its hash is one of the new password, which
alone is right for it from now on, and nothing else is changed in the tables or in the engine.
Otherwise nothing is. -/
theorem Reached.own_password (hexact : p.passwords.Exact)
    (h : Reached (fun q => q.users = p) used w) (env : Surroundings) (ctx : Context)
    (userId old new : String) :
    ∃ r w', World.run env (Users.changeOwnPassword p ctx userId old new).run
        { w with faults := [] } = (some r, w') ∧
      (r = .ok () ↔ userId ≠ p.rootUsername ∧ new ≠ "" ∧ ∃ u ∈ w.tables.users,
        u.id = userId ∧ u.isEnabled = true ∧ u.HasPassword p.passwords old) ∧
      w'.engine = w.engine ∧
      (r ≠ .ok () → w'.tables = w.tables) ∧
      (r = .ok () → ∃ salt, ∃ u ∈ w.tables.users, u.id = userId ∧
        w'.tables = { w.tables with
          users := w.tables.users.map (Users.withHash userId (p.passwords.hash salt new)) } ∧
        ∀ env' ctx' password, ∃ v, World.run env'
          (Users.verifyPassword p ctx' u.username password).run w' =
            (some (.ok (decide (password = new))), v) ∧ v.desk = w'.desk) := by
  have hkeyed : w.tables.Keyed p.rootUsername := h.keyed fun q hq => congrArg _ hq
  have hhashed : w.tables.Hashed p.passwords := h.hashed fun q hq => congrArg _ hq
  have hmay : Users.MayChange p w.tables userId old new ↔ _ :=
    Users.mayChange_iff hexact hkeyed.userIds hkeyed.users.distinct hhashed
  have hcomes : Comes env (Users.changeOwnPassword p ctx userId old new) _ :=
    Users.comes_changeOwnPassword old new
  obtain ⟨r, w', hrun, hw', hi', hend⟩ := hcomes { w with faults := [] } rfl h.idle
  rw [show ({ w with faults := [] } : World MemoryStore).desk = w.desk from rfl] at hend
  rw [← hmay]
  refine ⟨r, w', hrun, ?_⟩
  obtain ⟨hnot, ⟨e, rfl⟩, hdesk⟩ | ⟨hyes, rfl, salt, hdesk⟩ := hend
  · refine ⟨⟨(fun h => nomatch h), fun h => absurd h hnot⟩, congrArg Desk.engine hdesk,
      fun _ => congrArg Desk.tables hdesk, (fun h => nomatch h)⟩
  · refine ⟨⟨fun _ => hyes, fun _ => rfl⟩, congrArg Desk.engine hdesk, fun h => absurd rfl h,
      fun _ => ?_⟩
    obtain ⟨-, -, u, hu, rfl, henabled, -⟩ := hmay.mp hyes
    refine ⟨salt, u, hu, rfl, congrArg Desk.tables hdesk, fun env' ctx' password => ?_⟩
    have hverify : Comes env' (Users.verifyPassword p ctx' u.username password) _ :=
      Users.comes_verifyPassword u.username password
    obtain ⟨_, v, hrun', -, -, rfl, hv⟩ := hverify w' hw' hi'
    have hverified :
        Users.verified p w'.desk.tables u.username password = decide (password = new) := by
      rw [hdesk]
      exact Users.verified_withHash hexact hkeyed.users.distinct hu henabled password
    exact ⟨v, hverified ▸ hrun', hv⟩

/-- The clerk of the sample names its password and gets the one that it asks for. -/
theorem sample_own_password : Sample.users.passwords.Exact ∧
    (∃ used, Reached (fun q => q.users = Sample.users) used Sample.world) ∧
    ∃ w', World.run Sample.env
        (Users.changeOwnPassword Sample.users {} "ux" "secret" "changed").run
          { Sample.world with faults := [] } = (some (.ok ()), w') ∧
      ∃ u ∈ Sample.world.tables.users, u.id = "ux" ∧ ∀ password, ∃ v, World.run Sample.env
        (Users.verifyPassword Sample.users {} u.username password).run w' =
          (some (.ok (decide (password = "changed"))), v) := by
  have hexact : Sample.users.passwords.Exact := fun _ _ _ => beq_iff_eq
  obtain ⟨used, hreached, -⟩ : ∃ used, Reached (fun q => q.users = Sample.users) used Sample.world ∧
      Sample.naming.Covers used Sample.world.tables :=
    reached_serveAll (.start rfl rfl) (fun _ h => nomatch h) fun q hq => by
      obtain ⟨m, -, rfl⟩ := List.mem_map.mp hq
      exact ⟨rfl, rfl⟩
  have hclerk : ∃ u ∈ Sample.world.tables.users,
      u.id = "ux" ∧ u.isEnabled = true ∧ u.passwordHash = "secret" := by decide +kernel
  obtain ⟨clerk, hclerk, hid, henabled, hhash⟩ := hclerk
  obtain ⟨r, w', hrun, hiff, -, -, hchanged⟩ :=
    Reached.own_password hexact hreached Sample.env {} "ux" "secret" "changed"
  obtain rfl := hiff.mpr
    ⟨by decide, by decide, clerk, hclerk, hid, henabled, ByteArray.empty, hhash⟩
  obtain ⟨_, u, hu, hid, -, hverify⟩ := hchanged rfl
  refine ⟨hexact, ⟨used, hreached⟩, w', hrun, u, hu, hid, fun password => ?_⟩
  obtain ⟨v, hrun', -⟩ := hverify Sample.env {} password
  exact ⟨v, hrun'⟩

end Reached

end AccessAdmin
