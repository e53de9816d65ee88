import AccessAdmin.Proofs.Database.Filters
import AccessAdmin.Proofs.ForestAssembly
import AccessAdmin.Proofs.Sessions.Creations

/-!
# Listings in one strict order

Rows are kept without an order of their own, and a listing sorts what it finds. That it always comes
out in the same order rests on the numbers of the rows, which no two rows share after any history,
whatever was rolled back, dropped or refused on the way.

* `Tables.Aged`: the numbers of the rows tell which row was created later.
* `Tables.Listed`: every listing is strictly ordered, whatever order the rows are kept in.
* `Shared.listings_strict`: both hold after any acts of any sessions.
-/

namespace AccessAdmin

/-! ## The orders of roles and users -/

theorem Role.listedBefore_iff (a b : Role) : listedBefore a b = true ↔
    b.sequence < a.sequence ∨ b.sequence = a.sequence ∧ b.rowId ≤ a.rowId := by
  unfold listedBefore
  exact compare_then_ne_gt_iff

/-- Users have no rank. -/
theorem User.listedBefore_iff (a b : User) : listedBefore a b = true ↔
    (0 : Int) < 0 ∨ (0 : Int) = 0 ∧ b.rowId ≤ a.rowId := by
  unfold listedBefore
  rw [decide_eq_true_eq]
  omega

namespace Store.Tables

/-! ## What is said of tables -/

/-- The numbers of the rows after a history of creations: no two menus, roles or users share one,
all are positive and none is above the counter. A row has got its number at the last creation of its
key, and a row that was created later has a larger one. A change that neither creates nor deletes
leaves all numbers as they are. -/
structure Aged (history : List Entry) (t : Tables) : Prop where
  distinct : (t.tags.map Tag.rowId).Nodup
  bounded : ∀ x ∈ t.tags, 0 < x.rowId ∧ x.rowId ≤ t.lastRowId
  counter : t.lastRowId = (creations history).length
  created : ∀ x ∈ t.tags, ∃ before, LastCreated history x.key before
  later : ∀ x ∈ t.tags, ∀ y ∈ t.tags, ∀ before before',
    LastCreated history x.key before → LastCreated history y.key before' →
      (x.rowId < y.rowId ↔ before.length < before'.length)
  updates : ∀ w t', t.apply w = .ok t' → w.creates = none → w.deletes = none → t'.tags = t.tags

/-- Tables with the same rows, the menus, the roles and the users in any order. -/
structure Shuffled (t t' : Tables) : Prop where
  menus : t'.menus.Perm t.menus
  roles : t'.roles.Perm t.roles
  users : t'.users.Perm t.users
  assignments : t'.userRoles = t.userRoles

/-- For every filter a listing has just the rows that match it. Menus and roles are in strictly
decreasing order of sequence and number, users in strictly decreasing order of number, so none is
listed twice. No listing, and no page of one, depends on the order in which the rows are kept. -/
structure Listed (t : Tables) : Prop where
  menus : ∀ f, (∀ m, m ∈ (t.ask (.queryMenus f none)).data ↔ m ∈ t.menus ∧ f.admits m = true) ∧
    (t.ask (.queryMenus f none)).data.Pairwise Menu.Precedes
  roles : ∀ f, (∀ r, r ∈ (t.ask (.queryRoles f none)).data ↔ r ∈ t.roles ∧ f.admits r = true ∧
      ∀ user, f.userId = some user → ⟨user, r.id⟩ ∈ t.userRoles) ∧
    (t.ask (.queryRoles f none)).data.Pairwise fun a b =>
      b.sequence < a.sequence ∨ b.sequence = a.sequence ∧ b.rowId < a.rowId
  users : ∀ f, (∀ u, u ∈ (t.ask (.queryUsers f none)).data ↔ u ∈ t.users ∧ f.admits u = true ∧
      ∀ roles, f.roleIds = some roles → ∃ role ∈ roles, ⟨u.id, role⟩ ∈ t.userRoles) ∧
    (t.ask (.queryUsers f none)).data.Pairwise fun a b => b.rowId < a.rowId
  shuffled : ∀ t', t.Shuffled t' →
    (∀ f p, t'.ask (.queryMenus f p) = t.ask (.queryMenus f p)) ∧
    (∀ f p, t'.ask (.queryRoles f p) = t.ask (.queryRoles f p)) ∧
    ∀ f p, t'.ask (.queryUsers f p) = t.ask (.queryUsers f p)

variable {t t' : Tables} {history : List Entry}

theorem Numbered.aged (hn : t.Numbered (creations history)) : t.Aged history where
  distinct := hn.rowIds
  bounded _ := hn.bounded
  counter := hn.counter
  created _ := hn.lastCreated
  later _ hx _ hy _ _ h h' := h.rowId_lt_iff hx hy h' hn
  updates w t' h hcreates hdeletes := by
    obtain ⟨key, hkey, -⟩ | ⟨-, hleft⟩ := apply_tags h
    · exact nomatch hcreates.symm.trans hkey
    · rw [hleft.tags, hdeletes]
      exact List.filter_eq_self.mpr fun _ _ => rfl

/-! ## Listings of rows with different numbers -/

/-- The rows of a table with tags of different numbers have different numbers. -/
theorem nodup_of_tagsOf {α : Type} {kind : Kind} {idOf : α → String} {rowId : α → Int}
    {rows : List α} (h : (tagsOf kind idOf rowId rows).map Tag.rowId |>.Nodup) :
    (rows.map rowId).Nodup := by
  rw [tagsOf, List.map_map] at h
  exact h

theorem nodup_filter {α : Type} {rowId : α → Int} {rows : List α} (h : (rows.map rowId).Nodup)
    (keep : α → Bool) : ((rows.filter keep).map rowId).Nodup :=
  h.sublist (List.filter_sublist.map rowId)

section Listings

variable (hrows : (t.tags.map Tag.rowId).Nodup)

include hrows

theorem nodup_menus : (t.menus.map Menu.rowId).Nodup := by
  rw [tags, List.map_append] at hrows
  exact nodup_of_tagsOf (List.nodup_append.mp hrows).1

theorem nodup_roles : (t.roles.map Role.rowId).Nodup := by
  rw [tags, List.map_append, List.map_append] at hrows
  exact nodup_of_tagsOf (List.nodup_append.mp (List.nodup_append.mp hrows).2.1).1

theorem nodup_users : (t.users.map User.rowId).Nodup := by
  rw [tags, List.map_append, List.map_append] at hrows
  exact nodup_of_tagsOf (List.nodup_append.mp (List.nodup_append.mp hrows).2.1).2.1

theorem matchingMenus_shuffled (h : t.Shuffled t') (f : MenuFilter) :
    t'.matchingMenus f = t.matchingMenus f :=
  (Menu.inOrder_eq_of_perm (nodup_filter (nodup_menus hrows) _) (h.menus.symm.filter _)).symm

theorem matchingRoles_shuffled (h : t.Shuffled t') (f : RoleFilter) :
    t'.matchingRoles f = t.matchingRoles f := by
  rw [matchingRoles, h.assignments]
  exact (listing_eq_of_perm Role.listedBefore_iff (nodup_filter (nodup_roles hrows) _)
    (h.roles.symm.filter _)).symm

theorem matchingUsers_shuffled (h : t.Shuffled t') (f : UserFilter) :
    t'.matchingUsers f = t.matchingUsers f := by
  rw [matchingUsers, h.assignments]
  exact (listing_eq_of_perm User.listedBefore_iff (nodup_filter (nodup_users hrows) _)
    (h.users.symm.filter _)).symm

omit hrows

theorem any_assigned {rows : List Assignment} {user role : String} :
    rows.any (fun a => a.userId == user && a.roleId == role) = true ↔ ⟨user, role⟩ ∈ rows := by
  simp only [List.any_eq_true, Bool.and_eq_true, beq_iff_eq]
  constructor
  · rintro ⟨a, ha, rfl, rfl⟩
    exact ha
  · exact fun h => ⟨_, h, rfl, rfl⟩

theorem any_holding {rows : List Assignment} {user : String} {roles : List String} :
    rows.any (fun a => roles.contains a.roleId && a.userId == user) = true ↔
      ∃ role ∈ roles, ⟨user, role⟩ ∈ rows := by
  simp only [List.any_eq_true, Bool.and_eq_true, beq_iff_eq, List.contains_iff_mem]
  constructor
  · rintro ⟨a, ha, hrole, rfl⟩
    exact ⟨a.roleId, hrole, ha⟩
  · rintro ⟨role, hrole, h⟩
    exact ⟨_, h, hrole, rfl⟩

include hrows

/-- Tables whose rows have different numbers are listed in one strict order. -/
theorem listed : t.Listed where
  menus f := ⟨fun _ => Menus.mem_matchingMenus,
    Menu.inOrder_pairwise (nodup_filter (nodup_menus hrows) _)⟩
  roles f := by
    refine ⟨fun r => ?_, listing_pairwise Role.listedBefore_iff (nodup_filter (nodup_roles hrows) _)⟩
    refine mem_matchingRoles.trans (and_congr_right fun _ => and_congr_right fun _ => ?_)
    cases f.userId with
    | none => simp
    | some user => simp only [Option.all_some, any_assigned, Option.some.injEq, forall_eq']
  users f := by
    have hsorted : (t.matchingUsers f).Pairwise fun a b =>
        (0 : Int) < 0 ∨ (0 : Int) = 0 ∧ b.rowId < a.rowId :=
      listing_pairwise User.listedBefore_iff (nodup_filter (nodup_users hrows) _)
    refine ⟨fun u => ?_, hsorted.imp fun h => by omega⟩
    refine mem_matchingUsers.trans (and_congr_right fun _ => and_congr_right fun _ => ?_)
    cases f.roleIds with
    | none => simp
    | some roles => simp only [Option.all_some, any_holding, Option.some.injEq, forall_eq']
  shuffled t' h := by
    refine ⟨fun f p => ?_, fun f p => ?_, fun f p => ?_⟩
    · exact congrArg (Listing.ofRows · p) (matchingMenus_shuffled hrows h f)
    · exact congrArg (Listing.ofRows · p) (matchingRoles_shuffled hrows h f)
    · exact congrArg (Listing.ofRows · p) (matchingUsers_shuffled hrows h f)

end Listings

end Store.Tables

/-! ## After any history -/

/-- Whatever any number of sessions do on empty tables, and in whatever order: the rows of the
committed tables, and those that the open transaction works on, have numbers that tell their age in
the history that is left when all that came to nothing is taken out, which keeps the order of what
was done; and all listings of these tables are strictly ordered. The counter does not exceed the
number of acts. -/
theorem Store.Shared.listings_strict (acts : List Store.Act) :
    let log := (({} : Store.Shared).serve acts).1
    let st := (({} : Store.Shared).serve acts).2
    let ledger := Store.Ledger.of log
    (∀ s, (ledger.serial ++ ledger.pending s).Sublist log) ∧
    (st.tables.Aged ledger.serial ∧ st.tables.Listed ∧ st.tables.lastRowId ≤ acts.length) ∧
    ∀ w, st.writer = some w →
      w.working.Aged (ledger.serial ++ ledger.pending w.session) ∧ w.working.Listed ∧
        w.working.lastRowId ≤ acts.length := by
  intro log st ledger
  obtain ⟨block, haccounts⟩ := Store.Ledger.accounts (Store.Replays.serve {} acts)
  have hnumbers : Store.Numbers ledger st := Store.Shared.numbered acts
  have hordered : ∀ s, (ledger.serial ++ ledger.pending s).Sublist log :=
    haccounts.ordered_pending
  have hstrict {t : Store.Tables} {history : List Store.Entry} (hsub : history.Sublist log)
      (hn : t.Numbered (Store.creations history)) :
      t.Aged history ∧ t.Listed ∧ t.lastRowId ≤ acts.length := by
    refine ⟨hn.aged, Store.Tables.listed hn.rowIds, ?_⟩
    have hcreations : (Store.creations history).length ≤ history.length :=
      List.length_filterMap_le ..
    have hacts : log.length = acts.length := by
      rw [← Store.Shared.map_act_serve {} acts, List.length_map]
    have hlog := hsub.length_le
    rw [hn.counter]
    omega
  refine ⟨hordered, hstrict ?_ hnumbers.committed, fun w hw => ?_⟩
  · exact (List.sublist_append_left _ _).trans (hordered 0)
  · exact hstrict (hordered w.session) (hnumbers.working w hw)

end AccessAdmin
