import AccessAdmin.Proofs.Changes.Keys
import AccessAdmin.Proofs.Sessions.Creations

/-!
# Changes keep to their rows

Outside a transaction a change is in force at once, so nothing takes back what a failed one has
left behind. Nothing has to: every test comes before the first row is written. A change that is
refused leaves no trace, and one that is made keeps to a single table, and there to the rows that
it names, by their key or by their owner. Only a new menu, role or user takes a number from the
counter, and no update alters where a row comes from.

* `Write.names`, `Write.rivals`: the rows that a change is about, and those that stand in its way.
* `Manner.Turns`: inserting, updating and deleting some rows of a list.
* `Tables.Confined`: what a change that is made does, and what it leaves as it was.
* `Tables.Refused`: why a change is refused.
* `Shared.call_error`: a call that fails changes nothing.
* `Shared.changes_confined`: how every change outside a transaction comes out.
-/

namespace AccessAdmin

/-! ## Where rows come from -/

/-- What is settled for good when a menu, a role or a user is created. -/
structure Provenance where
  id : String
  creator : String
  createdAt : Timestamp
  rowId : Int
deriving DecidableEq, Repr

/-- Where a menu comes from. -/
def Menu.provenance (m : Menu) : Provenance := ⟨m.id, m.creator, m.createdAt, m.rowId⟩

/-- Where a role comes from. -/
def Role.provenance (r : Role) : Provenance := ⟨r.id, r.creator, r.createdAt, r.rowId⟩

/-- Where a user comes from. -/
def User.provenance (u : User) : Provenance := ⟨u.id, u.creator, u.createdAt, u.rowId⟩

namespace Store

/-! ## Which rows a change is about -/

/-- The rows of a table are of this type. -/
abbrev Table.Row : Table → Type
  | menus => Menu
  | actions => MenuAction
  | resources => MenuResource
  | roles => Role
  | grants => Grant
  | users => User
  | assignments => Assignment

/-- The key of a row: its id, or its owner and what tells it from the others of that owner. -/
def Table.key : (table : Table) → table.Row → String × String
  | menus, x => (Menu.id x, "")
  | actions, x => (MenuAction.menuId x, MenuAction.code x)
  | resources, x => (MenuResource.menuId x, MenuResource.code x)
  | roles, x => (Role.id x, "")
  | grants, x => (Grant.roleId x, Grant.menuId x)
  | users, x => (User.id x, "")
  | assignments, x => (Assignment.userId x, Assignment.roleId x)

/-- The rows of a table. -/
def Tables.rows (t : Tables) : (table : Table) → List table.Row
  | .menus => t.menus
  | .actions => t.menuActions
  | .resources => t.menuResources
  | .roles => t.roles
  | .grants => t.roleMenus
  | .users => t.users
  | .assignments => t.userRoles

/-- What a change does with the rows that it names. -/
inductive Manner where
  | insert
  | update
  | delete
deriving DecidableEq, Repr

namespace Write

/-- Whether a change inserts, updates or deletes. -/
def manner : Write → Manner
  | createMenu _ | createMenuAction _ | createMenuResource _ | createRole _ | createRoleMenu _
  | createUser _ | createUserRole _ => .insert
  | updateMenu _ | updateMenuParentPath _ _ | updateMenuAction _ | updateMenuResource _
  | updateRole _ | updateRoleMenu _ | updateUser _ | updateUserStatus _ _
  | updateUserPassword _ _ => .update
  | deleteMenu _ | deleteMenuAction _ _ | deleteMenuActions _ | deleteMenuResource _ _
  | deleteMenuResources _ | deleteRole _ | deleteRoleMenu _ _ | deleteRoleMenus _ | deleteUser _
  | deleteUserRole _ _ | deleteUserRoles _ | deleteRoleUsers _ => .delete

/-- Whether a change names a row: the row has the given key, or, where all that an owner has is
deleted, the given owner. -/
def names : (w : Write) → w.table.Row → Bool
  | createMenu m | updateMenu m => fun x : Menu => x.id == m.id
  | updateMenuParentPath id _ | deleteMenu id => fun x : Menu => x.id == id
  | createMenuAction a | updateMenuAction a => Tables.isAction a.menuId a.code
  | deleteMenuAction menuId code => Tables.isAction menuId code
  | deleteMenuActions menuId => fun x : MenuAction => x.menuId == menuId
  | createMenuResource r | updateMenuResource r => Tables.isResource r.menuId r.code
  | deleteMenuResource menuId code => Tables.isResource menuId code
  | deleteMenuResources menuId => fun x : MenuResource => x.menuId == menuId
  | createRole r | updateRole r => fun x : Role => x.id == r.id
  | deleteRole id => fun x : Role => x.id == id
  | createRoleMenu g | updateRoleMenu g => Tables.isGrant g.roleId g.menuId
  | deleteRoleMenu roleId menuId => Tables.isGrant roleId menuId
  | deleteRoleMenus roleId => fun x : Grant => x.roleId == roleId
  | createUser u | updateUser u => fun x : User => x.id == u.id
  | updateUserStatus id _ | updateUserPassword id _ | deleteUser id => fun x : User => x.id == id
  | createUserRole a => fun x : Assignment => x == a
  | deleteUserRole userId roleId => fun x : Assignment => x == ⟨userId, roleId⟩
  | deleteUserRoles userId => fun x : Assignment => x.userId == userId
  | deleteRoleUsers roleId => fun x : Assignment => x.roleId == roleId

/-- Whether a row stands in the way of a change: it has the key of a new row, or the name that a
role or a user is to have. -/
def rivals : (w : Write) → w.table.Row → Bool
  | createMenu m => fun x : Menu => x.id == m.id
  | createMenuAction a => Tables.isAction a.menuId a.code
  | createMenuResource r => Tables.isResource r.menuId r.code
  | createRole r => fun x : Role => x.id == r.id || x.name == r.name
  | updateRole r => fun x : Role => x.name == r.name && x.id != r.id
  | createRoleMenu g => Tables.isGrant g.roleId g.menuId
  | createUser u => fun x : User => x.id == u.id || x.username == u.username
  | updateUser u => fun x : User => x.username == u.username && x.id != u.id
  | createUserRole a => fun x : Assignment => x == a
  | _ => fun _ => false

/-- The rows that an update names have one key. -/
theorem key_of_names {w : Write} (hw : w.manner = .update) {x y : w.table.Row}
    (hx : w.names x = true) (hy : w.names y = true) : w.table.key x = w.table.key y := by
  cases w with
  | updateMenu _ | updateMenuParentPath _ _ | updateRole _ | updateUser _ | updateUserStatus _ _
  | updateUserPassword _ _ =>
    exact Prod.ext ((beq_iff_eq.mp hx).trans (beq_iff_eq.mp hy).symm) rfl
  | updateMenuAction _ | updateMenuResource _ | updateRoleMenu _ =>
    simp only [names, Tables.isAction, Tables.isResource, Tables.isGrant, Bool.and_eq_true,
      beq_iff_eq] at hx hy
    exact Prod.ext (hx.1.trans hy.1.symm) (hx.2.trans hy.2.symm)
  | _ => cases hw

end Write

/-! ## Rows before and after a change -/

/-- Rows before and after something is done with those that are named. The others stay in their
order. Of the named ones there is none before an insertion, which puts one behind the others; there
are some before an update, which leaves every row in its place and with its key; there are none
after a deletion. -/
structure Manner.Turns {α κ : Type} (manner : Manner) (key : α → κ) (named : α → Bool)
    (rows rows' : List α) : Prop where
  others : rows'.filter (!named ·) = rows.filter (!named ·)
  inserted : manner = .insert →
    (∀ x ∈ rows, named x = false) ∧ ∃ x, named x = true ∧ rows' = rows ++ [x]
  updated : manner = .update →
    (∃ x ∈ rows, named x = true) ∧ rows'.map key = rows.map key
  deleted : manner = .delete → ∀ x ∈ rows', named x = false

section Turns

variable {α κ : Type} {rows rows' : List α} {key : α → κ} {named : α → Bool} {x : α}
  {what : String}

theorem not_any_iff : rows.any named = false ↔ ∀ x ∈ rows, named x = false := by
  simp only [List.any_eq_false, Bool.not_eq_true]

theorem turns_insert (hnew : ∀ x ∈ rows, named x = false) (hx : named x = true) :
    Manner.Turns .insert key named rows (rows ++ [x]) where
  others := by
    rw [List.filter_append, List.filter_cons, hx]
    exact List.append_nil _
  inserted _ := ⟨hnew, x, hx, rfl⟩
  updated := nofun
  deleted := nofun

theorem turns_insertNew (h : Tables.insertNew rows named x what = .ok rows')
    (hx : named x = true) : Manner.Turns .insert key named rows rows' := by
  obtain ⟨hnew, rfl⟩ := Tables.insertNew_eq_ok.mp h
  exact turns_insert (not_any_iff.mp hnew) hx

/-- Rows that are updated in parts that are neither in the key nor decide which rows are named. -/
theorem turns_amend {f : α → α} (h : Tables.amend rows named f what = .ok rows')
    (hkey : ∀ x, key (f x) = key x) (hnamed : ∀ x, named (f x) = named x) :
    Manner.Turns .update key named rows rows' where
  others := Tables.filter_amend h fun x hx => by
    rw [hnamed, hx]
    exact ⟨rfl, rfl⟩
  inserted := nofun
  updated _ := ⟨List.any_eq_true.mp (Tables.amend_eq_ok.mp h).1, Tables.map_amend h hkey⟩
  deleted := nofun

/-- The same of the first row that is named. -/
theorem turns_amendFirst {f : α → α} (h : Tables.amendFirst rows named f what = .ok rows')
    (hkey : ∀ x, key (f x) = key x) (hnamed : ∀ x, named (f x) = named x) :
    Manner.Turns .update key named rows rows' := by
  obtain ⟨hthere, rfl⟩ := Tables.amendFirst_eq_ok.mp h
  refine ⟨Tables.filter_modify_first fun x hx => ?_, nofun, fun _ => ⟨?_, ?_⟩, nofun⟩
  · rw [hnamed, hx]
    exact ⟨rfl, rfl⟩
  · exact List.any_eq_true.mp hthere
  · exact Tables.map_modify_first fun x _ => hkey x

theorem turns_drop : Manner.Turns .delete key named rows (rows.filter (!named ·)) where
  others := Tables.filter_dropped fun x hx => by
    rw [hx]
    rfl
  inserted := nofun
  updated := nofun
  deleted _ x hx := by simpa using (List.mem_filter.mp hx).2

/-- Where keys are distinct, rows of which any two have one key are one row. -/
theorem filter_eq_singleton (hkeys : (rows.map key).Nodup)
    (hsame : ∀ x y, named x = true → named y = true → key x = key y)
    (hsome : ∃ x ∈ rows, named x = true) : ∃ x, rows.filter named = [x] := by
  obtain ⟨x, hx, hnamed⟩ := hsome
  have hnodup : (rows.filter named).Nodup := (hkeys.of_map key).filter named
  refine ⟨x, List.perm_singleton.mp ?_⟩
  refine (List.perm_ext_iff_of_nodup hnodup (List.nodup_singleton x)).mpr fun y => ?_
  rw [List.mem_filter, List.mem_singleton]
  constructor
  · rintro ⟨hy, hnamed'⟩
    exact List.inj_on_of_nodup_map hkeys hy hx (hsame y x hnamed' hnamed)
  · rintro rfl
    exact ⟨hx, hnamed⟩

end Turns

namespace Tables

variable {t t' : Tables} {w : Write} {e : StoreError}

/-! ## What a change leaves alone -/

/-- No update alters where a menu, a role or a user comes from, and only an update of just that
alters the status of a user, or the hash of its password. -/
structure Retained (w : Write) (t t' : Tables) : Prop where
  menus : t'.menus.map Menu.provenance = t.menus.map Menu.provenance
  roles : t'.roles.map Role.provenance = t.roles.map Role.provenance
  users : t'.users.map User.provenance = t.users.map User.provenance
  statuses : (∀ id status, w ≠ .updateUserStatus id status) →
    t'.users.map User.status = t.users.map User.status
  hashes : (∀ id hash, w ≠ .updateUserPassword id hash) →
    t'.users.map User.passwordHash = t.users.map User.passwordHash

/-- What a change that is made does, and what it leaves as it was. -/
structure Confined (t : Tables) (w : Write) (t' : Tables) : Prop where
  clear : ∀ x ∈ t.rows w.table, w.rivals x = false
  elsewhere : ∀ table, table ≠ w.table → t'.rows table = t.rows table
  own : w.manner.Turns w.table.key w.names (t.rows w.table) (t'.rows w.table)
  /-- Where the keys are distinct, an update is of one row. -/
  single : w.manner = .update → ((t.rows w.table).map w.table.key).Nodup →
    ∃ x, (t.rows w.table).filter w.names = [x]
  retained : w.manner = .update → Retained w t t'
  counter : t'.lastRowId = if w.creates.isSome then t.lastRowId + 1 else t.lastRowId

/-- Why a change is refused: a row stands in its way, or the row to be updated is not there. -/
inductive Refused (t : Tables) (w : Write) : StoreError → Prop where
  | conflict {what : String} : (∃ x ∈ t.rows w.table, w.rivals x = true) →
      Refused t w (.conflict what)
  | missing {what : String} : w.manner = .update → (∀ x ∈ t.rows w.table, w.names x = false) →
      Refused t w (.notFound what)

theorem Framed.rows {table other : Table} (h : t.Framed table t') (hne : other ≠ table) :
    t'.rows other = t.rows other := by
  cases other with
  | menus => exact h.menus hne.symm
  | actions => exact h.actions hne.symm
  | resources => exact h.resources hne.symm
  | roles => exact h.roles hne.symm
  | grants => exact h.grants hne.symm
  | users => exact h.users hne.symm
  | assignments => exact h.assignments hne.symm

theorem apply_clear (h : t.apply w = .ok t') : ∀ x ∈ t.rows w.table, w.rivals x = false := by
  cases w with
  | createMenu m =>
    obtain ⟨hid, -⟩ := createMenu_eq_ok.mp h
    exact fun x hx => beq_false_of_ne (hid x hx)
  | createRole r =>
    obtain ⟨hid, hname, -⟩ := createRole_eq_ok.mp h
    exact fun x hx => Bool.or_eq_false_iff.mpr
      ⟨beq_false_of_ne (hid x hx), beq_false_of_ne (hname x hx)⟩
  | createUser u =>
    obtain ⟨hid, hname, -⟩ := createUser_eq_ok.mp h
    exact fun x hx => Bool.or_eq_false_iff.mpr
      ⟨beq_false_of_ne (hid x hx), beq_false_of_ne (hname x hx)⟩
  | updateRole r =>
    obtain ⟨hfree, -⟩ := updateRole_eq_ok.mp h
    exact not_any_iff.mp (Bool.eq_false_iff.mpr (not_any_other.mpr hfree))
  | updateUser u =>
    obtain ⟨hfree, -⟩ := updateUser_eq_ok.mp h
    exact not_any_iff.mp (Bool.eq_false_iff.mpr (not_any_other.mpr hfree))
  | createMenuAction _ | createMenuResource _ | createRoleMenu _ | createUserRole _ =>
    obtain ⟨rows, hrows, -⟩ := bind_pure_eq_ok.mp h
    exact not_any_iff.mp (insertNew_eq_ok.mp hrows).1
  | _ => exact fun _ _ => rfl

theorem apply_turns (h : t.apply w = .ok t') :
    w.manner.Turns w.table.key w.names (t.rows w.table) (t'.rows w.table) := by
  -- One lemma for each manner; the checks that come first do not matter to a change that is made.
  cases w with
  | createMenu m =>
    obtain ⟨hid, rfl⟩ := createMenu_eq_ok.mp h
    exact turns_insert (fun x hx => beq_false_of_ne (hid x hx)) BEq.rfl
  | createRole r =>
    obtain ⟨hid, -, rfl⟩ := createRole_eq_ok.mp h
    exact turns_insert (fun x hx => beq_false_of_ne (hid x hx)) BEq.rfl
  | createUser u =>
    obtain ⟨hid, -, rfl⟩ := createUser_eq_ok.mp h
    exact turns_insert (fun x hx => beq_false_of_ne (hid x hx)) BEq.rfl
  | createMenuAction _ | createMenuResource _ | createRoleMenu _ | createUserRole _ =>
    obtain ⟨rows, hrows, rfl⟩ := bind_pure_eq_ok.mp h
    refine turns_insertNew hrows ?_
    simp only [Write.names, isAction, isResource, isGrant, BEq.rfl, Bool.and_self]
  | updateRole r =>
    obtain ⟨-, rows, hrows, rfl⟩ := updateRole_eq_ok.mp h
    exact turns_amend hrows (fun _ => rfl) fun _ => rfl
  | updateUser u =>
    obtain ⟨-, rows, hrows, rfl⟩ := updateUser_eq_ok.mp h
    exact turns_amend hrows (fun _ => rfl) fun _ => rfl
  | updateMenu _ | updateMenuParentPath _ _ | updateUserStatus _ _ | updateUserPassword _ _ =>
    obtain ⟨rows, hrows, rfl⟩ := bind_pure_eq_ok.mp h
    exact turns_amend hrows (fun _ => rfl) fun _ => rfl
  | updateMenuAction _ | updateMenuResource _ | updateRoleMenu _ =>
    obtain ⟨rows, hrows, rfl⟩ := bind_pure_eq_ok.mp h
    exact turns_amendFirst hrows (fun _ => rfl) fun _ => rfl
  | deleteMenu _ | deleteMenuAction _ _ | deleteMenuActions _ | deleteMenuResource _ _
  | deleteMenuResources _ | deleteRole _ | deleteRoleMenu _ _ | deleteRoleMenus _ | deleteUser _
  | deleteUserRole _ _ | deleteUserRoles _ | deleteRoleUsers _ =>
    obtain rfl := Except.ok.inj h
    exact turns_drop

theorem apply_retained (hw : w.manner = .update) (h : t.apply w = .ok t') : Retained w t t' := by
  cases w with
  | updateMenu _ | updateMenuParentPath _ _ =>
    obtain ⟨rows, hrows, rfl⟩ := bind_pure_eq_ok.mp h
    exact ⟨map_amend hrows fun _ => rfl, rfl, rfl, fun _ => rfl, fun _ => rfl⟩
  | updateRole r =>
    obtain ⟨-, rows, hrows, rfl⟩ := updateRole_eq_ok.mp h
    exact ⟨rfl, map_amend hrows fun _ => rfl, rfl, fun _ => rfl, fun _ => rfl⟩
  | updateUser u =>
    obtain ⟨-, rows, hrows, rfl⟩ := updateUser_eq_ok.mp h
    exact ⟨rfl, rfl, map_amend hrows fun _ => rfl, fun _ => map_amend hrows fun _ => rfl,
      fun _ => map_amend hrows fun _ => rfl⟩
  | updateUserStatus id status =>
    obtain ⟨rows, hrows, rfl⟩ := bind_pure_eq_ok.mp h
    exact ⟨rfl, rfl, map_amend hrows fun _ => rfl, fun hne => absurd rfl (hne id status),
      fun _ => map_amend hrows fun _ => rfl⟩
  | updateUserPassword id hash =>
    obtain ⟨rows, hrows, rfl⟩ := bind_pure_eq_ok.mp h
    exact ⟨rfl, rfl, map_amend hrows fun _ => rfl, fun _ => map_amend hrows fun _ => rfl,
      fun hne => absurd rfl (hne id hash)⟩
  | updateMenuAction _ | updateMenuResource _ | updateRoleMenu _ =>
    obtain ⟨rows, -, rfl⟩ := bind_pure_eq_ok.mp h
    exact ⟨rfl, rfl, rfl, fun _ => rfl, fun _ => rfl⟩
  | _ => cases hw

theorem apply_counter (h : t.apply w = .ok t') :
    t'.lastRowId = if w.creates.isSome then t.lastRowId + 1 else t.lastRowId := by
  obtain ⟨key, hcreates, hins⟩ | ⟨hcreates, hleft⟩ := apply_tags h
  · rw [hcreates]
    exact hins.counter
  · rw [hcreates]
    exact hleft.counter

theorem apply_confined (h : t.apply w = .ok t') : t.Confined w t' where
  clear := apply_clear h
  elsewhere _ hne := (apply_frame h).rows hne
  own := apply_turns h
  single hw hkeys := filter_eq_singleton hkeys (fun _ _ => Write.key_of_names hw)
    ((apply_turns h).updated hw).1
  retained hw := apply_retained hw h
  counter := apply_counter h

/-- A check of the ids and then of the names, when it fails. -/
theorem conflict_of_either {α : Type} {rows : List α} {p q : α → Bool} {id name : String}
    (h : (if rows.any p then .error (.conflict id)
      else if rows.any q then .error (.conflict name) else .ok t') = Except.error e) :
    ∃ what, e = .conflict what ∧ ∃ x ∈ rows, (p x || q x) = true := by
  obtain ⟨hany, rfl⟩ | ⟨-, h⟩ := refuse_eq_error.mp h
  · obtain ⟨x, hx, he⟩ := List.any_eq_true.mp hany
    exact ⟨id, rfl, x, hx, Bool.or_eq_true_iff.mpr (.inl he)⟩
  · obtain ⟨hany, rfl⟩ | ⟨-, h⟩ := refuse_eq_error.mp h
    · obtain ⟨x, hx, he⟩ := List.any_eq_true.mp hany
      exact ⟨name, rfl, x, hx, Bool.or_eq_true_iff.mpr (.inr he)⟩
    · cases h

theorem apply_refused (h : t.apply w = .error e) : t.Refused w e := by
  cases w with
  | createMenu m =>
    obtain ⟨hid, rfl⟩ | ⟨-, h⟩ := refuse_eq_error.mp h
    · exact .conflict (List.any_eq_true.mp hid)
    · cases h
  | createRole _ | createUser _ =>
    obtain ⟨what, rfl, hrival⟩ := conflict_of_either h
    exact .conflict hrival
  | createMenuAction _ | createMenuResource _ | createRoleMenu _ | createUserRole _ =>
    obtain ⟨hany, rfl⟩ := insertNew_eq_error.mp (bind_pure_eq_error.mp h)
    exact .conflict (List.any_eq_true.mp hany)
  | updateRole _ | updateUser _ =>
    obtain ⟨hname, rfl⟩ | ⟨-, h⟩ := refuse_eq_error.mp h
    · exact .conflict (List.any_eq_true.mp hname)
    · obtain ⟨hnone, rfl⟩ := amend_eq_error.mp (bind_pure_eq_error.mp h)
      exact .missing rfl (not_any_iff.mp hnone)
  | updateMenu _ | updateMenuParentPath _ _ | updateUserStatus _ _ | updateUserPassword _ _ =>
    obtain ⟨hnone, rfl⟩ := amend_eq_error.mp (bind_pure_eq_error.mp h)
    exact .missing rfl (not_any_iff.mp hnone)
  | updateMenuAction _ | updateMenuResource _ | updateRoleMenu _ =>
    obtain ⟨hnone, rfl⟩ := amendFirst_eq_error.mp (bind_pure_eq_error.mp h)
    exact .missing rfl (not_any_iff.mp hnone)
  | _ => cases h

end Tables

/-! ## Changes outside a transaction -/

namespace Shared

variable {st st' : Shared} {s : SessionId}

/-- A call that fails changes nothing, neither the tables nor the transaction that is open. -/
theorem call_error {c : Call} {e : StoreError} (h : st.call s c = (.answered (.error e), st')) :
    st' = st := by
  cases c with
  | begin =>
    simp only [call] at h
    split at h
    · cases h
    · split at h
      · cases h
        rfl
      · cases h
  | commit =>
    simp only [call] at h
    split at h
    · cases h
      rfl
    · split at h
      · cases h
      · cases h
        rfl
  | rollback =>
    simp only [call] at h
    split at h
    · cases h
    · cases h
      rfl
  | read r =>
    simp only [call] at h
    split at h
    · cases h
    · exact (Prod.mk.inj h).2.symm
  | write w =>
    simp only [call] at h
    split at h
    · cases h
    · split at h
      · cases h
        rfl
      · cases h

/-- What becomes of a change that session `s` asks for outside a transaction, and the store after
it. -/
inductive Outcome (st : Shared) (s : SessionId) (w : Write) :
    Attempt (Except StoreError Unit) → Shared → Prop where
  /-- Another session has a transaction open. -/
  | waits {other : Writer} : st.writer = some other → other.session ≠ s → Outcome st s w .blocked st
  | refused {e : StoreError} : st.writer = none → st.tables.Refused w e →
      Outcome st s w (.answered (.error e)) st
  | made {t : Tables} : st.writer = none → st.tables.Confined w t →
      Outcome st s w (.answered (.ok ())) ⟨t, none⟩

/-- Whatever the tables are: a call that fails changes nothing, and a change outside a transaction
has to wait, is refused, or keeps to the rows that it names. -/
theorem changes_confined (hs : st.inTransaction s = false) :
    (∀ c e st', st.call s c = (.answered (.error e), st') → st' = st) ∧
      ∀ w, st.Outcome s w (st.call s (.write w)).1 (st.call s (.write w)).2 := by
  refine ⟨fun _ _ _ => call_error, fun w => ?_⟩
  cases hw : st.writer with
  | some other =>
    have hne : other.session ≠ s := by
      simpa only [inTransaction, hw, Option.any_some, beq_eq_false_iff_ne] using hs
    simp only [call, view, hw, hne, ↓reduceIte]
    exact .waits hw hne
  | none =>
    cases ha : st.tables.apply w with
    | error e =>
      simp only [call, view, hw, ha]
      exact .refused hw (Tables.apply_refused ha)
    | ok t =>
      simp only [call, view, put, hw, ha]
      exact .made hw (Tables.apply_confined ha)

end Shared

end Store

namespace Sample

/-- A user as it is stored. -/
def stored (id username : String) (rowId : Int) : User where
  id := id
  username := username
  realName := ""
  passwordHash := "secret"
  email := ""
  phone := ""
  status := .enabled
  creator := "root"
  createdAt := ⟨1704067200, 0⟩
  updatedAt := ⟨1704067200, 0⟩
  rowId := rowId
  roles := []

/-- A store with two users, who hold three roles between them. -/
def staff : Store.Shared where
  tables :=
    { lastRowId := 2
      created := { users := 2 }
      users := [stored "ux" "ann" 1, stored "uxx" "bob" 2]
      userRoles := [⟨"ux", "rx"⟩, ⟨"uxx", "rx"⟩, ⟨"ux", "rxx"⟩] }

/-- The first user with another name, status and hash, and with a number that is not its own. -/
def renamed : User :=
  { stored "ux" "anna" 7 with status := .disabled, passwordHash := "changed" }

end Sample

open Sample in
/-- The update sets the name and nothing else, the deletion takes the two roles of one user, and a
third user cannot have the name of the second. -/
theorem sample_confined : staff.inTransaction 0 = false ∧
    staff.Outcome 0 (.updateUser renamed) (.answered (.ok ()))
      ⟨{ staff.tables with users := [stored "ux" "anna" 1, stored "uxx" "bob" 2] }, none⟩ ∧
    staff.Outcome 0 (.deleteUserRoles "ux") (.answered (.ok ()))
      ⟨{ staff.tables with userRoles := [⟨"uxx", "rx"⟩] }, none⟩ ∧
    staff.Outcome 0 (.createUser (stored "uxxx" "bob" 0))
      (.answered (.error (.conflict "username bob exists"))) staff := by
  have hidle : staff.inTransaction 0 = false := rfl
  obtain ⟨-, houtcome⟩ := Store.Shared.changes_confined hidle
  exact ⟨hidle, houtcome (.updateUser renamed), houtcome (.deleteUserRoles "ux"),
    houtcome (.createUser (stored "uxxx" "bob" 0))⟩

end AccessAdmin
