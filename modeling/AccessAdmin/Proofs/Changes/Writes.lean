import AccessAdmin.Proofs.Changes.Lasting

/-!
# What services write

Before a service writes anything it has checked the input, so every single change that it asks of
the store is of a kind that can be told from the change alone: names are not blank, usernames are
not the reserved one, and codes can be stored. This holds of the programs themselves, whatever the
store answers them. A property of tables that changes of such a kind keep then lasts.

* `Store.Write.Proper`: the changes that services ask for.
* `Program.Writes`: programs that ask for changes of a kind only.
* `Mutation.Commits.kept`, `Reached.kept`: what such changes keep lasts.
-/

namespace AccessAdmin

/-- What can be said of a change that a service asks for: a role has a name, a user has a name that
is not the reserved one, and the codes can be stored. -/
def Store.Write.Proper (rootUsername : String) : Store.Write → Prop
  | .createRole r | .updateRole r => Text.isAllBlank r.name = false
  | .createUser u | .updateUser u =>
    Text.isAllBlank u.username = false ∧ u.username ≠ rootUsername
  | .createMenuAction a => Code.isStorable a.code = true
  | .createMenuResource r => Code.isStorable r.code = true
  | .createRoleMenu g | .updateRoleMenu g => ∀ c ∈ g.actions ++ g.resources, Code.isStorable c = true
  | _ => True

/-- A step that is no change, or one of a kind. -/
def Effect.Writes (ok : Store.Write → Prop) : Effect → Prop
  | .call _ (.write w) => ok w
  | _ => True

/-- A program all of whose changes are of a kind, whatever it is answered. -/
def Program.Writes {α : Type} (ok : Store.Write → Prop) : Program α → Prop
  | done _ => True
  | ask e k => e.Writes ok ∧ ∀ r, Writes ok (k r)
  | askBy _ e k => e.Writes ok ∧ ∀ r, Writes ok (k r)

/-- A service all of whose changes are of a kind. -/
def Service.Writes {α : Type} (ok : Store.Write → Prop) (p : Service α) : Prop :=
  p.run.Writes ok

variable {α β : Type} {ok : Store.Write → Prop} {env : Surroundings}

/-! ## Programs -/

theorem Program.Writes.bind {p : Program α} {f : α → Program β} (hp : p.Writes ok)
    (hf : ∀ a, (f a).Writes ok) : (p.bind f).Writes ok := by
  induction p with
  | done a => exact hf a
  | ask e k ih => exact ⟨hp.1, fun r => ih r (hp.2 r)⟩
  | askBy l e k ih => exact ⟨hp.1, fun r => ih r (hp.2 r)⟩

theorem Program.Writes.mono {ok' : Store.Write → Prop} (h : ∀ w, ok w → ok' w) {p : Program α}
    (hp : p.Writes ok) : p.Writes ok' := by
  have hstep {e : Effect} (he : e.Writes ok) : e.Writes ok' := by
    cases e with
    | call s c =>
      cases c with
      | write w => exact h w he
      | _ => trivial
    | _ => trivial
  induction p with
  | done a => trivial
  | ask e k ih => exact ⟨hstep hp.1, fun r => ih r (hp.2 r)⟩
  | askBy l e k ih => exact ⟨hstep hp.1, fun r => ih r (hp.2 r)⟩

theorem Program.Writes.within {p : Program α} (hp : p.Writes ok) (limit : Nat) :
    (p.within limit).Writes ok := by
  induction p with
  | done a => trivial
  | ask e k ih =>
    rw [Program.within]
    refine ⟨hp.1, fun r => ?_⟩
    cases r with
    | none => trivial
    | some r => exact ih r (hp.2 r)
  | askBy l e k ih =>
    rw [Program.within]
    split
    · exact ⟨hp.1, fun r => ih r (hp.2 r)⟩
    · refine ⟨hp.1, fun r => ?_⟩
      cases r with
      | none => trivial
      | some r => exact ih (some r) (hp.2 (some r))

theorem Program.Writes.limited {p : Program α} (hp : p.Writes ok) (ctx : Context) :
    (ctx.limited p).Writes ok := by
  unfold Context.limited
  cases ctx.deadline with
  | some limit => exact hp.within limit
  | none => exact Program.Writes.bind hp fun _ => trivial

/-- What changes of a kind keep, work that asks for no others keeps. -/
theorem Program.Ends.kept {s : Store.SessionId} {P : Store.Tables → Prop} {d d' : Desk}
    (hP : ∀ t w t', t.apply w = .ok t' → ok w → P t → P t') {p : Program α} {a : α}
    (hp : p.Writes ok) (h : p.Ends env s d a d') (hd : P d.tables) : P d'.tables := by
  induction p generalizing d with
  | done b =>
    obtain ⟨-, rfl⟩ := h
    exact hd
  | ask e k ih =>
    obtain ⟨r, d₁, hs, hk⟩ := h
    refine ih r (hp.2 r) hk ?_
    cases e with
    | call s' c =>
      cases c with
      | read q =>
        obtain ⟨-, -, rfl⟩ := hs
        exact hd
      | write w =>
        obtain ⟨-, ⟨t, ht, -, rfl⟩ | ⟨_, -, -, rfl⟩⟩ := hs
        · exact hP _ w t ht hp.1 hd
        · exact hd
      | begin | commit | rollback => exact hs.elim
    | policy c =>
      obtain ⟨-, rfl⟩ := hs
      exact hd
    | freshId s' kind =>
      obtain ⟨-, -, rfl⟩ := hs
      exact hd
    | readClock | freshSalt | count _ =>
      obtain rfl := hs
      exact hd
    | openSession | closeSession _ | inTransaction _ | checkHealth | wait _ | elapsed | note _ =>
      exact hs.elim
  | askBy l e k _ => exact h.elim

namespace Service

variable {s : Session}

theorem writes_pure (a : α) : Writes ok (pure a : Service α) := trivial

theorem writes_refuse (e : ServiceError) : Writes ok (refuse e : Service α) := trivial

theorem Writes.bind {p : Service α} {f : α → Service β} (hp : Writes ok p)
    (hf : ∀ a, Writes ok (f a)) : Writes ok (p >>= f) := by
  rw [Writes, ExceptT.run_bind, Program.bind_eq]
  refine Program.Writes.bind hp fun r => ?_
  cases r with
  | ok a => exact hf a
  | error e => exact trivial

theorem Writes.mono {ok' : Store.Write → Prop} {p : Service α} (hp : Writes ok p)
    (h : ∀ w, ok w → ok' w) : Writes ok' p := Program.Writes.mono h hp

theorem writes_ite {c : Prop} [Decidable c] {p q : Service α} (hp : c → Writes ok p)
    (hq : ¬c → Writes ok q) : Writes ok (if c then p else q) := by
  split
  · exact hp ‹_›
  · exact hq ‹_›

theorem writes_ofStore {c : Store.Call} (hc : (Effect.call s.id c).Writes ok) :
    Writes ok (ofStore (s.call c)) := by
  rw [Writes, run_ofStore]
  exact ⟨hc, fun _ => trivial⟩

theorem writes_ask (q : Store.Read) : Writes ok (s.ask q) := writes_ofStore trivial

theorem writes_change {w : Store.Write} (hw : ok w) : Writes ok (s.change w) := writes_ofStore hw

theorem writes_changeAll {ws : List Store.Write} (hws : ∀ w ∈ ws, ok w) :
    Writes ok (s.changeAll ws) := by
  induction ws with
  | nil => exact writes_pure ()
  | cons w ws ih =>
    exact (writes_change (hws w (.head _))).bind fun _ => ih fun w hw => hws w (.tail _ hw)

/-- The changes of a list, one for each item. -/
theorem writes_changeEach {xs : List β} {f : β → Store.Write} (h : ∀ x ∈ xs, ok (f x)) :
    Writes ok (s.changeAll (xs.map f)) :=
  writes_changeAll fun _ hw => by
    obtain ⟨x, hx, rfl⟩ := List.mem_map.mp hw
    exact h x hx

theorem writes_freshId (kind : Kind) : Writes ok (perform (.freshId s.id kind)) :=
  ⟨trivial, fun _ => trivial⟩

theorem writes_readClock : Writes ok (perform .readClock) := ⟨trivial, fun _ => trivial⟩

theorem writes_count (e : Event) : Writes ok (perform (.count e)) := ⟨trivial, fun _ => trivial⟩

/-! ### Whole services -/

/-- The work of a transaction writes what there is to write: its beginning and its end do not. -/
theorem Writes.transaction {ctx : Context} {work : Service α} (h : Writes ok work) :
    Writes ok (ctx.transaction s work) := by
  have hbegin : Writes ok (ctx.bounded (ofStore (s.call .begin))) := by
    refine Program.Writes.bind (Program.Writes.limited (writes_ofStore (by trivial)) ctx) fun r => ?_
    cases r <;> trivial
  have hsettle (o : Option (Except ServiceError α)) : Writes ok (Context.settle s o) := by
    obtain _ | _ | a := o
    · exact ⟨trivial, fun _ => trivial⟩
    · exact ⟨trivial, fun _ => trivial⟩
    · exact (writes_ofStore (by trivial)).bind fun _ => writes_pure a
  have hworked : Writes ok (ctx.worked s work) := by
    rw [Writes, Context.worked, ExceptT.run_bind_lift]
    exact Program.Writes.bind (Program.Writes.limited h ctx) hsettle
  have hask : Writes ok (perform (.inTransaction s.id)) := ⟨trivial, fun _ => trivial⟩
  rw [transaction_eq]
  exact hask.bind fun joined => writes_ite (fun _ => h) fun _ => hbegin.bind fun _ => hworked

theorem writes_session {work : Session → Service α} (h : ∀ s, Writes ok (work s)) :
    Writes ok (session work) := by
  have hopen : (Program.perform .openSession).Writes ok := ⟨trivial, fun _ => trivial⟩
  refine Program.Writes.bind hopen fun opened => ?_
  cases opened with
  | error e => trivial
  | ok id => exact Program.Writes.bind (h ⟨id⟩) fun _ => ⟨trivial, fun _ => trivial⟩

end Service

/-- Projections write nothing to the store. -/
theorem Service.writes_follows {s : Session} {p : Service α} (h : s.Follows p) :
    Service.Writes ok p := by
  unfold Service.Writes
  unfold Session.Follows at h
  generalize p.run = q at h
  induction q with
  | done a => trivial
  | ask e k ih =>
    refine ⟨?_, fun r => ih r (h.2.2 r)⟩
    cases e with
    | call s' c =>
      cases c with
      | write w => exact h.1.elim
      | _ => trivial
    | _ => trivial
  | askBy l e k _ => exact h.elim

/-- The created and updated rows of a plan are new ones. -/
theorem Changeset.between_sub {κ : Type} [DecidableEq κ] {key : α → κ} {old new : List α} {x : α} :
    (x ∈ (Changeset.between key old new).update → x ∈ new) ∧
      (x ∈ (Changeset.between key old new).create → x ∈ new) :=
  ⟨fun h => (List.mem_filter.mp h).1, fun h => (List.mem_filter.mp h).1⟩

/-! ## The transactions of the services -/

section Bodies

open Service

variable {s : Session} {root : String}

namespace Menus

/-- The codes of a description without a fault can be stored. -/
theorem storable_of_fault {f : MenuForm} (h : fault? f = none) :
    (∀ a ∈ f.actions, Code.isStorable a.code = true) ∧
      ∀ r ∈ f.resources, Code.isStorable r.code = true := by
  have hall {codes : List String} (hnone : firstUnstorable codes = none) (c : String)
      (hc : c ∈ codes) : Code.isStorable c = true := by
    simpa using List.find?_eq_none.mp hnone c hc
  unfold fault? at h
  dsimp only at h
  split at h
  · cases h
  · split at h <;> cases h
    rename_i hactions hresources _ _
    exact ⟨fun a ha => hall hactions _ (List.mem_map_of_mem ha),
      fun r hr => hall hresources _ (List.mem_map_of_mem hr)⟩

theorem proper_actionsFor {f : MenuForm} (hf : fault? f = none) {id : String} :
    ∀ a ∈ f.actionsFor id, (Store.Write.createMenuAction a).Proper root := by
  intro a ha
  obtain ⟨x, hx, rfl⟩ := List.mem_map.mp ha
  exact (storable_of_fault hf).1 x hx

theorem proper_resourcesFor {f : MenuForm} (hf : fault? f = none) {id : String} :
    ∀ r ∈ f.resourcesFor id, (Store.Write.createMenuResource r).Proper root := by
  intro r hr
  obtain ⟨x, hx, rfl⟩ := List.mem_map.mp hr
  exact (storable_of_fault hf).2 x hx

theorem writes_pathUnder (parentId : String) : Writes ok (pathUnder s parentId) :=
  writes_ite (fun _ => writes_pure _) fun _ => (writes_ask _).bind fun found => by
    cases found with
    | some _ => exact writes_pure _
    | none => exact writes_refuse _

theorem writes_insert (actor : String) {input : MenuInput} (hf : fault? input.toMenuForm = none) :
    Writes (Store.Write.Proper root) (insert s actor input) := by
  refine (writes_pathUnder _).bind fun path => (writes_freshId _).bind fun id =>
    writes_readClock.bind fun now => (writes_change trivial).bind fun _ =>
      (writes_changeEach (proper_actionsFor hf)).bind fun _ =>
        (writes_changeEach (proper_resourcesFor hf)).bind fun _ =>
          (writes_ask _).bind fun found => ?_
  cases found <;> exact writes_pure _

theorem writes_rebaseSubtree (hpaths : ∀ id path, ok (.updateMenuParentPath id path))
    (old new : AncestorPath) : Writes ok (rebaseSubtree s old new) :=
  (writes_ask _).bind fun below => (writes_changeAll fun w hw => by
    rw [rebases_eq] at hw
    obtain ⟨_, _, rfl⟩ := List.mem_map.mp hw
    exact hpaths _ _).bind fun _ => writes_pure _

theorem writes_move (hpaths : ∀ id path, ok (.updateMenuParentPath id path)) (id : String)
    (old : Menu) (parentId : String) : Writes ok (move s id old parentId) :=
  writes_ite (fun _ => writes_pure _) fun _ => (writes_pathUnder _).bind fun _ =>
    writes_ite (fun _ => writes_refuse _) fun _ => (writes_rebaseSubtree hpaths _ _).bind fun _ =>
      (writes_count _).bind fun _ => writes_pure _

/-- The actions and resources of a menu are deleted, updated and created. -/
theorem writes_syncChildren {id : String} {f : MenuForm}
    (hdelete : ∀ code, ok (.deleteMenuAction id code) ∧ ok (.deleteMenuResource id code))
    (hactions : ∀ a ∈ f.actionsFor id, ok (.createMenuAction a) ∧ ok (.updateMenuAction a))
    (hresources : ∀ r ∈ f.resourcesFor id,
      ok (.createMenuResource r) ∧ ok (.updateMenuResource r)) : Writes ok (syncChildren s id f) :=
  (writes_ask _).bind fun _ => (writes_changeEach fun _ _ => (hdelete _).1).bind fun _ =>
    (writes_changeEach fun a ha => (hactions a (Changeset.between_sub.1 ha)).2).bind fun _ =>
      (writes_changeEach fun a ha => (hactions a (Changeset.between_sub.2 ha)).1).bind fun _ =>
        (writes_ask _).bind fun _ => (writes_changeEach fun _ _ => (hdelete _).2).bind fun _ =>
          (writes_changeEach fun r hr => (hresources r (Changeset.between_sub.1 hr)).2).bind
            fun _ => writes_changeEach fun r hr => (hresources r (Changeset.between_sub.2 hr)).1

/-- An update writes paths, the actions and resources of the menu, and the menu. -/
theorem writes_applyUpdate {id : String} {input : MenuInput}
    (hpaths : ∀ id path, ok (.updateMenuParentPath id path)) (hmenu : ∀ m, ok (.updateMenu m))
    (hsync : Writes ok (syncChildren s id input.toMenuForm)) :
    Writes ok (applyUpdate s id input) := by
  refine (writes_ask _).bind fun found => ?_
  cases found with
  | none => exact writes_refuse _
  | some old =>
    exact writes_readClock.bind fun _ => (writes_move hpaths _ _ _).bind fun _ =>
      hsync.bind fun _ => (writes_change (hmenu _)).bind fun _ => writes_pure _

theorem proper_applyUpdate (id : String) {input : MenuInput}
    (hf : fault? input.toMenuForm = none) :
    Writes (Store.Write.Proper root) (applyUpdate s id input) :=
  writes_applyUpdate (fun _ _ => trivial) (fun _ => trivial) <|
    writes_syncChildren (fun _ => ⟨trivial, trivial⟩)
      (fun a ha => ⟨proper_actionsFor hf a ha, trivial⟩)
      fun r hr => ⟨proper_resourcesFor hf r hr, trivial⟩

theorem writes_remove (id : String) : Writes (Store.Write.Proper root) (remove s id) := by
  refine (writes_ask _).bind fun found => ?_
  cases found with
  | none => exact writes_refuse _
  | some _ =>
    exact (writes_ask _).bind fun _ => writes_ite (fun _ => writes_refuse _) fun _ =>
      (writes_ask _).bind fun _ => (writes_change trivial).bind fun _ =>
        (writes_change trivial).bind fun _ => (writes_change trivial).bind fun _ => writes_pure _

/-- By recursion on the forest: every form is checked right before its menu is inserted. -/
theorem writes_plant (actor : String) : ∀ (forest : List MenuSeed) (parentId : String),
    Writes (Store.Write.Proper root) (plant s actor parentId forest)
  | [], _ => by
    rw [plant]
    exact writes_pure 0
  | .node form children :: rest, parentId => by
    rw [plant]
    obtain ⟨hf, hv⟩ | ⟨e, -, hv⟩ := validate_cases form
    · rw [hv, pure_bind]
      exact (writes_insert actor hf).bind fun menu => (writes_plant actor children menu.id).bind
        fun _ => (writes_plant actor rest parentId).bind fun _ => writes_pure _
    · rw [hv]
      exact writes_refuse e

theorem writes_seeding (actor : String) (forest : List MenuSeed) :
    Writes (Store.Write.Proper root) (seeding s actor forest) :=
  (writes_ask _).bind fun _ => writes_ite (fun _ => writes_pure _) fun _ =>
    writes_plant actor forest ""

end Menus

namespace Roles

/-- A description without a fault names the role and grants codes that can be stored. -/
theorem proper_of_fault {input : RoleInput} (h : fault? input = none) :
    Text.isAllBlank input.name = false ∧
      ∀ g ∈ input.grants, ∀ c ∈ g.actions ++ g.resources, Code.isStorable c = true := by
  unfold fault? at h
  split at h
  · cases h
  · rename_i hname
    split at h
    · cases h
    · refine ⟨Bool.eq_false_iff.mpr hname, fun g hg c hc => ?_⟩
      have hnone := Option.map_eq_none_iff.mp (List.findSome?_eq_none_iff.mp h g hg)
      simpa using List.find?_eq_none.mp hnone c hc

theorem proper_grantsFor {input : RoleInput} (hf : fault? input = none) {id : String} :
    ∀ g ∈ input.grantsFor id, ∀ c ∈ g.actions ++ g.resources, Code.isStorable c = true := by
  intro g hg
  obtain ⟨x, hx, rfl⟩ := List.mem_map.mp hg
  exact (proper_of_fault hf).2 x hx

theorem writes_ensureNameFree (name : String) (own : Option String) :
    Writes ok (ensureNameFree s name own) :=
  (writes_ask _).bind fun _ => writes_ite (fun _ => writes_refuse _) fun _ => writes_pure _

theorem writes_ensureMenusExist (input : RoleInput) : Writes ok (ensureMenusExist s input) := by
  have hfound : Writes ok (Menus.withIds s (input.grants.map GrantInput.menuId)) :=
    writes_ite (fun _ => writes_pure _) fun _ => (writes_ask _).bind fun _ => writes_pure _
  refine hfound.bind fun found => ?_
  split
  · exact writes_refuse _
  · exact writes_pure _

theorem writes_insert (actor : String) {input : RoleInput} (hf : fault? input = none) :
    Writes (Store.Write.Proper root) (insert s actor input) :=
  (writes_ensureNameFree _ _).bind fun _ => (writes_ensureMenusExist _).bind fun _ =>
    (writes_freshId _).bind fun _ => writes_readClock.bind fun _ =>
      (writes_change (proper_of_fault hf).1).bind fun _ =>
        (writes_changeEach (proper_grantsFor hf)).bind fun _ => writes_pure _

theorem writes_syncGrants (id : String) {input : RoleInput} (hf : fault? input = none) :
    Writes (Store.Write.Proper root) (syncGrants s id input) :=
  (writes_ask _).bind fun _ => (writes_changeEach fun _ _ => trivial).bind fun _ =>
    (writes_changeEach fun g hg => proper_grantsFor hf g (Changeset.between_sub.1 hg)).bind fun _ =>
      writes_changeEach fun g hg => proper_grantsFor hf g (Changeset.between_sub.2 hg)

theorem writes_applyUpdate (id : String) {input : RoleInput} (hf : fault? input = none) :
    Writes (Store.Write.Proper root) (applyUpdate s id input) := by
  refine (writes_ask _).bind fun found => ?_
  cases found with
  | none => exact writes_refuse _
  | some old =>
    exact (writes_ensureNameFree _ _).bind fun _ => (writes_ensureMenusExist _).bind fun _ =>
      (writes_syncGrants _ hf).bind fun _ => writes_readClock.bind fun _ =>
        (writes_change (proper_of_fault hf).1).bind fun _ => writes_pure _

theorem writes_remove (id : String) : Writes (Store.Write.Proper root) (remove s id) := by
  refine (writes_ask _).bind fun found => ?_
  cases found with
  | none => exact writes_refuse _
  | some _ =>
    exact (writes_change trivial).bind fun _ => (writes_change trivial).bind fun _ =>
      writes_change trivial

/-- A description with a fault is refused before anything is written. -/
theorem writes_validated {input : RoleInput} {p : Service α}
    (hp : fault? input = none → Writes ok p) : Writes ok (validate input >>= fun _ => p) := by
  unfold validate
  cases hf : fault? input with
  | none => exact (writes_pure ()).bind fun _ => hp hf
  | some text => exact writes_refuse (.validation text)

theorem writes_create (ctx : Context) (input : RoleInput) :
    Writes (Store.Write.Proper root) (create ctx input) :=
  writes_validated fun hf => writes_session fun _ => (writes_insert ctx.actor hf).transaction.bind
    fun role => (writes_follows (follows_project role.id)).bind fun _ => writes_pure role

theorem writes_update (ctx : Context) (id : String) (input : RoleInput) :
    Writes (Store.Write.Proper root) (update ctx id input) :=
  writes_validated fun hf => writes_session fun _ => (writes_applyUpdate id hf).transaction.bind
    fun role => (writes_follows (follows_project role.id)).bind fun _ => writes_pure role

end Roles

namespace Users

/-- A description without a fault names the user, and not by the reserved name. -/
theorem proper_of_fault {p : UserPolicy} {input : UserInput} (h : fault? p input = none) :
    Text.isAllBlank input.username = false ∧ input.username ≠ p.rootUsername := by
  unfold fault? at h
  split at h
  · cases h
  · rename_i hname
    split at h
    · cases h
    · rename_i hroot
      exact ⟨Bool.eq_false_iff.mpr hname, hroot⟩

theorem writes_ensureUsernameFree (username : String) (own : Option String) :
    Writes ok (ensureUsernameFree s username own) :=
  (writes_ask _).bind fun _ => writes_ite (fun _ => writes_refuse _) fun _ => writes_pure _

theorem writes_ensureRolesExist (roleIds : List String) :
    Writes ok (ensureRolesExist s roleIds) := by
  have hfound : Writes ok (Roles.withIds s roleIds) :=
    writes_ite (fun _ => writes_pure _) fun _ => (writes_ask _).bind fun _ => writes_pure _
  refine hfound.bind fun found => ?_
  split
  · exact writes_refuse _
  · exact writes_pure _

variable {p : UserPolicy} {input : UserInput}

/-- An insertion writes the user with the described name and the hash, and its assignments. -/
theorem writes_insert (actor hash : String)
    (hcreate : ∀ u : User, u.username = input.username → u.passwordHash = hash →
      ok (.createUser u)) (hassign : ∀ a, ok (.createUserRole a)) :
    Writes ok (insert s actor hash input) :=
  (writes_ensureUsernameFree _ _).bind fun _ => (writes_ensureRolesExist _).bind fun _ =>
    (writes_freshId _).bind fun _ => writes_readClock.bind fun _ =>
      (writes_change (hcreate _ rfl rfl)).bind fun _ =>
        (writes_changeEach fun _ _ => hassign _).bind fun _ => writes_pure _

/-- An update writes the user with the described name, perhaps its status and the hash, and
replaces assignments. -/
theorem writes_applyUpdate (id : String) (hash : Option String)
    (hupdate : ∀ u : User, u.username = input.username → ok (.updateUser u))
    (hstatus : ok (.updateUserStatus id input.status))
    (hpassword : ∀ h ∈ hash, ok (.updateUserPassword id h))
    (hassign : ∀ a, ok (.createUserRole a)) (hrevoke : ∀ role, ok (.deleteUserRole id role)) :
    Writes ok (applyUpdate s id hash input) := by
  refine (writes_ask _).bind fun found => ?_
  cases found with
  | none => exact writes_refuse _
  | some old =>
    have hsync : Writes ok (syncRoles s id input) :=
      (writes_ask _).bind fun _ => (writes_changeEach fun _ _ => hrevoke _).bind fun _ =>
        writes_changeEach fun _ _ => hassign _
    refine (writes_ensureUsernameFree _ _).bind fun _ => (writes_ensureRolesExist _).bind fun _ =>
      hsync.bind fun _ => writes_readClock.bind fun _ =>
        (writes_change (hupdate _ rfl)).bind fun _ => ?_
    -- A new password is one more change, after that of the status.
    cases hash with
    | none =>
      dsimp only
      split
      · exact (writes_change hstatus).bind fun _ => writes_pure _
      · exact writes_pure _
    | some hash =>
      have hanswer (user : User) :
          Writes ok (do s.change (.updateUserPassword id hash); return user) :=
        (writes_change (hpassword hash rfl)).bind fun _ => writes_pure _
      dsimp only
      split
      · exact (writes_change hstatus).bind fun _ => hanswer _
      · exact hanswer _

theorem proper_of_username (hf : fault? p input = none) {u : User}
    (hname : u.username = input.username) :
    Text.isAllBlank u.username = false ∧ u.username ≠ p.rootUsername := by
  rw [hname]
  exact proper_of_fault hf

theorem proper_insert (actor hash : String) (hf : fault? p input = none) :
    Writes (Store.Write.Proper p.rootUsername) (insert s actor hash input) :=
  writes_insert actor hash (fun _ hname _ => proper_of_username hf hname) fun _ => trivial

theorem proper_applyUpdate (id : String) (hash : Option String) (hf : fault? p input = none) :
    Writes (Store.Write.Proper p.rootUsername) (applyUpdate s id hash input) :=
  writes_applyUpdate id hash (fun _ hname => proper_of_username hf hname) trivial
    (fun _ _ => trivial) (fun _ => trivial) fun _ => trivial

theorem writes_remove (id : String) : Writes (Store.Write.Proper p.rootUsername) (remove s id) := by
  refine (writes_ask _).bind fun found => ?_
  cases found with
  | none => exact writes_refuse _
  | some _ => exact (writes_change trivial).bind fun _ => writes_change trivial

theorem writes_setStatus (id : String) (status : UserStatus) :
    Writes (Store.Write.Proper p.rootUsername) (setStatus s id status) := by
  refine (writes_ask _).bind fun found => ?_
  cases found with
  | none => exact writes_refuse _
  | some _ => exact writes_change trivial

theorem writes_setPassword (id hash : String) :
    Writes (Store.Write.Proper p.rootUsername) (s.change (.updateUserPassword id hash)) :=
  writes_change trivial

end Users

end Bodies

/-! ## Sequences of commands -/

section Kept

variable {root : String} {P : Store.Tables → Prop} {d d' : Desk}

theorem Service.Committed.kept {body : Session → Service α} {after : Session → α → Service β}
    (hP : ∀ t w t', t.apply w = .ok t' → ok w → P t → P t') (hbody : ∀ s, Writes ok (body s))
    {r : Except ServiceError β} (h : Committed env body after d r d') (hd : P d.tables) :
    P d'.tables := by
  obtain ⟨s, a, hends, -⟩ := h
  have hmid : P (⟨d'.tables, d.engine⟩ : Desk).tables := hends.kept hP (hbody s) hd
  exact hmid

/-- What proper changes keep, every commit keeps. -/
theorem Mutation.Commits.kept {m : Mutation} {users : UserPolicy} {actor : String}
    (hP : ∀ t w t', t.apply w = .ok t' → w.Proper users.rootUsername → P t → P t')
    {r : Except ServiceError m.Result} (h : m.Commits env users actor d r d') (hd : P d.tables) :
    P d'.tables := by
  cases m with
  | createMenu _ => exact h.2.kept hP (fun _ => Menus.writes_insert _ h.1) hd
  | updateMenu _ _ => exact h.2.2.kept hP (fun _ => Menus.proper_applyUpdate _ h.1) hd
  | deleteMenu _ => exact Service.Committed.kept hP (fun _ => Menus.writes_remove _) h hd
  | seedMenus _ => exact Service.Committed.kept hP (fun _ => Menus.writes_seeding _ _) h hd
  | createRole _ => exact h.2.kept hP (fun _ => Roles.writes_insert _ h.1) hd
  | updateRole _ _ => exact h.2.kept hP (fun _ => Roles.writes_applyUpdate _ h.1) hd
  | deleteRole _ => exact Service.Committed.kept hP (fun _ => Roles.writes_remove _) h hd
  | createUser _ =>
    obtain ⟨hf, _, h⟩ := h
    exact h.kept hP (fun _ => Users.proper_insert _ _ hf) hd
  | updateUser _ _ =>
    obtain ⟨hf, _, h⟩ := h
    exact h.kept hP (fun _ => Users.proper_applyUpdate _ _ hf) hd
  | deleteUser _ => exact Service.Committed.kept hP (fun _ => Users.writes_remove _) h hd
  | updateStatus _ _ => exact Service.Committed.kept hP (fun _ => Users.writes_setStatus _ _) h hd
  | updatePassword _ _ | changeOwnPassword _ _ _ =>
    obtain ⟨_, h⟩ := h
    exact Service.Committed.kept hP (fun _ => Users.writes_setPassword _ _) h hd

/-- What the empty tables meet and proper changes keep holds after every sequence of commands. -/
theorem Reached.kept (hP : ∀ t w t', t.apply w = .ok t' → w.Proper root → P t → P t') (h₀ : P {})
    {admits : Command → Prop} (hroot : ∀ q, admits q → q.users.rootUsername = root)
    {used : List String} {w : World MemoryStore} (h : Reached admits used w) : P w.tables := by
  induction h with
  | start hst _ =>
    rw [World.tables, hst]
    exact h₀
  | step q hreached hq _ ih =>
    obtain ⟨rc, vc, r, w', -, hr, -, -, hout⟩ := q.run_outcome hreached.idle
    rw [hr]
    obtain htables | ⟨hcommits, htables⟩ := hout.tables
    · rw [htables]
      exact ih
    · rw [htables]
      exact hcommits.kept (hroot q hq ▸ hP) ih

end Kept

end AccessAdmin
