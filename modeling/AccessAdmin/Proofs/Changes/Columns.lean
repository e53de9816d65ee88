import AccessAdmin.Changeset
import AccessAdmin.Proofs.Changes.Rows

/-!
# Columns of the tables

A column is one list of rows in the tables: what menus, roles or users own, told apart by keys.
Changes of one column leave the others alone. A service replaces the rows of one owner by deletions,
updates and insertions that it plans from the old rows and the new ones; here is what such a series
does. An update meets the first row with its key, so what the owner has in the end is told exactly
only where no owner has two rows with one key.

* `Column`: how a list of rows is read and put back, and the changes of single rows.
* `Amendable`: a column whose rows are updated as well.
* `renewAll`: rows that take the place of the first ones with their keys.
* `Column.deletes`, `Amendable.updates`, `Column.inserts`: a series of one kind.
* `Replaced`: the rows before and after a replacement.
* `Amendable.sync`: the changes of a plan replace the rows of an owner.
-/

namespace AccessAdmin

namespace Store

open Tables

/-- A list of rows in the tables, with the changes that delete and insert single ones. -/
structure Column (α : Type) where
  rows : Tables → List α
  put : Tables → List α → Tables
  owner : α → String
  key : α → String
  delete : String → String → Write
  insert : α → Write
  rows_put : ∀ t xs, rows (put t xs) = xs
  put_put : ∀ t xs ys, put (put t xs) ys = put t ys
  put_rows : ∀ t, put t (rows t) = t
  apply_delete : ∀ (t : Tables) id k, t.apply (delete id k) =
    .ok (put t ((rows t).filter fun r => !(owner r == id && key r == k)))
  apply_insert : ∀ {t t' : Tables} x, t.apply (insert x) = .ok t' ↔
    (owner x, key x) ∉ (rows t).map (fun r => (owner r, key r)) ∧ t' = put t (rows t ++ [x])

/-- The rows with a new one in the place of the first that has its key. -/
def renew {α κ : Type} [DecidableEq κ] (place : α → κ) (rows : List α) (x : α) : List α :=
  rows.modify (rows.findIdx fun r => decide (place r = place x)) fun _ => x

/-- A column whose rows are updated as well, each from a row with its owner and key. -/
structure Amendable (α : Type) extends Column α where
  update : α → Write
  apply_update : ∀ {t t' : Tables} x, t.apply (update x) = .ok t' ↔
    (owner x, key x) ∈ (rows t).map (fun r => (owner r, key r)) ∧
      t' = put t (renew (fun r => (owner r, key r)) (rows t) x)

/-! ## Single changes -/

section Single

variable {α κ : Type} {place : α → κ} {rows : List α} {x : α} {put : List α → Tables} {t' : Tables}
  {what : String}

/-- The insertion of a row is made where no row has its key. -/
theorem insertNew_iff {same : α → Bool} (hsame : ∀ r, same r = true ↔ place r = place x) :
    (do return put (← insertNew rows same x what)) = Except.ok t' ↔
      place x ∉ rows.map place ∧ t' = put (rows ++ [x]) := by
  rw [bind_pure_eq_ok]
  constructor
  · rintro ⟨_, hrows, rfl⟩
    obtain ⟨hnone, rfl⟩ := insertNew_eq_ok.mp hrows
    refine ⟨fun hmem => ?_, rfl⟩
    obtain ⟨r, hr, hkey⟩ := List.mem_map.mp hmem
    exact List.any_eq_false.mp hnone r hr ((hsame r).mpr hkey)
  · rintro ⟨hnone, rfl⟩
    refine ⟨_, insertNew_eq_ok.mpr ⟨List.any_eq_false.mpr fun r hr hit => hnone ?_, rfl⟩, rfl⟩
    exact (hsame r).mp hit ▸ List.mem_map_of_mem hr

/-- The update of a row is made where a row has its key. -/
theorem amendFirst_iff [DecidableEq κ] {hit : α → Bool} {f : α → α}
    (hhit : ∀ r, hit r = true ↔ place r = place x) (hf : ∀ r, place r = place x → f r = x) :
    (do return put (← amendFirst rows hit f what)) = Except.ok t' ↔
      place x ∈ rows.map place ∧ t' = put (renew place rows x) := by
  have hrenew : rows.modify (rows.findIdx hit) f = renew place rows x := by
    have hsame : hit = fun r => decide (place r = place x) := by
      funext r
      rw [Bool.eq_iff_iff, hhit, decide_eq_true_iff]
    rw [renew, hsame]
    exact modify_first_congr fun r hr => hf r (of_decide_eq_true hr)
  rw [bind_pure_eq_ok]
  constructor
  · rintro ⟨_, hrows, rfl⟩
    obtain ⟨hany, rfl⟩ := amendFirst_eq_ok.mp hrows
    obtain ⟨r, hr, hit⟩ := List.any_eq_true.mp hany
    exact ⟨(hhit r).mp hit ▸ List.mem_map_of_mem hr, by rw [hrenew]⟩
  · rintro ⟨hmem, rfl⟩
    obtain ⟨r, hr, hkey⟩ := List.mem_map.mp hmem
    have hany : rows.any hit = true := List.any_eq_true.mpr ⟨r, hr, (hhit r).mpr hkey⟩
    exact ⟨_, amendFirst_eq_ok.mpr ⟨hany, rfl⟩, by rw [hrenew]⟩

end Single

theorem isAction_iff {a x : MenuAction} : isAction x.menuId x.code a = true ↔
    (a.menuId, a.code) = (x.menuId, x.code) := by
  rw [isAction, Bool.and_eq_true, beq_iff_eq, beq_iff_eq, Prod.mk.injEq]

theorem isResource_iff {a x : MenuResource} : isResource x.menuId x.code a = true ↔
    (a.menuId, a.code) = (x.menuId, x.code) := by
  rw [isResource, Bool.and_eq_true, beq_iff_eq, beq_iff_eq, Prod.mk.injEq]

theorem isGrant_iff {g x : Grant} : isGrant x.roleId x.menuId g = true ↔
    (g.roleId, g.menuId) = (x.roleId, x.menuId) := by
  rw [isGrant, Bool.and_eq_true, beq_iff_eq, beq_iff_eq, Prod.mk.injEq]

theorem beq_assignment (a : Assignment) (user role : String) :
    (a == ⟨user, role⟩) = (a.userId == user && a.roleId == role) := by
  rw [Bool.eq_iff_iff, Bool.and_eq_true, beq_iff_eq, beq_iff_eq, beq_iff_eq]
  constructor
  · rintro rfl
    exact ⟨rfl, rfl⟩
  · rintro ⟨rfl, rfl⟩
    rfl

namespace Amendable

/-- The actions of the menus. -/
def actions : Amendable MenuAction where
  rows := Tables.menuActions
  put t xs := { t with menuActions := xs }
  owner := MenuAction.menuId
  key := MenuAction.code
  delete := .deleteMenuAction
  insert := .createMenuAction
  update := .updateMenuAction
  rows_put _ _ := rfl
  put_put _ _ _ := rfl
  put_rows _ := rfl
  apply_delete _ _ _ := rfl
  apply_insert _ := insertNew_iff fun _ => isAction_iff
  apply_update x := amendFirst_iff (fun _ => isAction_iff) fun r hr => by
    obtain ⟨howner, hkey⟩ := Prod.mk.inj hr
    rw [howner, hkey]

/-- The resources of the menus. -/
def resources : Amendable MenuResource where
  rows := Tables.menuResources
  put t xs := { t with menuResources := xs }
  owner := MenuResource.menuId
  key := MenuResource.code
  delete := .deleteMenuResource
  insert := .createMenuResource
  update := .updateMenuResource
  rows_put _ _ := rfl
  put_put _ _ _ := rfl
  put_rows _ := rfl
  apply_delete _ _ _ := rfl
  apply_insert _ := insertNew_iff fun _ => isResource_iff
  apply_update x := amendFirst_iff (fun _ => isResource_iff) fun r hr => by
    obtain ⟨howner, hkey⟩ := Prod.mk.inj hr
    rw [howner, hkey]

/-- The grants of the roles. -/
def grants : Amendable Grant where
  rows := Tables.roleMenus
  put t xs := { t with roleMenus := xs }
  owner := Grant.roleId
  key := Grant.menuId
  delete := .deleteRoleMenu
  insert := .createRoleMenu
  update := .updateRoleMenu
  rows_put _ _ := rfl
  put_put _ _ _ := rfl
  put_rows _ := rfl
  apply_delete _ _ _ := rfl
  apply_insert _ := insertNew_iff fun _ => isGrant_iff
  apply_update x := amendFirst_iff (fun _ => isGrant_iff) fun r hr => by
    obtain ⟨howner, hkey⟩ := Prod.mk.inj hr
    rw [howner, hkey]

end Amendable

/-- The assignments of the users. An assignment is its own key, so there is nothing to update. -/
def Column.assignments : Column Assignment where
  rows := Tables.userRoles
  put t xs := { t with userRoles := xs }
  owner := Assignment.userId
  key := Assignment.roleId
  delete := .deleteUserRole
  insert := .createUserRole
  rows_put _ _ := rfl
  put_put _ _ _ := rfl
  put_rows _ := rfl
  apply_delete _ _ _ := by
    simp only [Tables.apply, bne, beq_assignment]
  apply_insert _ := insertNew_iff fun _ => by
    rw [beq_assignment, Bool.and_eq_true, beq_iff_eq, beq_iff_eq, Prod.mk.injEq]

/-! ## Rows that take the place of others -/

section Renew

variable {α κ : Type} [DecidableEq κ] {place : α → κ} {rows us : List α} {x y : α} {p : α → Bool}

/-- The rows with each of some new ones in the place of the first that has its key. -/
def renewAll (place : α → κ) (rows us : List α) : List α := us.foldl (renew place) rows

theorem map_renew : (renew place rows x).map place = rows.map place :=
  map_modify_first fun _ hr => (of_decide_eq_true hr).symm

theorem mem_renew (h : y ∈ renew place rows x) : y ∈ rows ∨ y = x :=
  (mem_modify_first h).imp_right fun ⟨_, _, _, he⟩ => he.symm

theorem filter_renew (hx : p x = false) (hp : ∀ r, place r = place x → p r = false) :
    (renew place rows x).filter p = rows.filter p :=
  filter_modify_first fun r hr => ⟨hp r (of_decide_eq_true hr), hx⟩

/-- A row that has the key of a row is there once that one is renewed. -/
theorem self_mem_renew (h : place x ∈ rows.map place) : x ∈ renew place rows x := by
  induction rows with
  | nil => cases h
  | cons r rows ih =>
    rw [renew, modify_first_cons]
    split
    · exact .head _
    · rename_i hr
      refine .tail _ (ih ?_)
      rcases List.mem_cons.mp h with he | h
      · exact absurd (decide_eq_true he.symm) hr
      · exact h

theorem map_renewAll : (renewAll place rows us).map place = rows.map place := by
  induction us generalizing rows with
  | nil => rfl
  | cons u us ih => exact ih.trans map_renew

theorem mem_renewAll (h : y ∈ renewAll place rows us) : y ∈ rows ∨ y ∈ us := by
  induction us generalizing rows with
  | nil => exact .inl h
  | cons u us ih =>
    replace h : y ∈ renewAll place (renew place rows u) us := h
    rcases ih h with hy | hy
    · rcases mem_renew hy with hy | rfl
      · exact .inl hy
      · exact .inr (.head _)
    · exact .inr (.tail _ hy)

theorem filter_renewAll (hus : ∀ u ∈ us, p u = false)
    (hp : ∀ u ∈ us, ∀ r, place r = place u → p r = false) :
    (renewAll place rows us).filter p = rows.filter p := by
  induction us generalizing rows with
  | nil => rfl
  | cons u us ih =>
    exact (ih (fun v hv => hus v (.tail _ hv)) fun v hv => hp v (.tail _ hv)).trans
      (filter_renew (hus u (.head _)) (hp u (.head _)))

/-- Where keys are distinct, a row with the key of a new one is new. -/
theorem mem_of_renewAll {u : α} (hdistinct : (rows.map place).Nodup)
    (hy : y ∈ renewAll place rows us) (hu : u ∈ us) (hsame : place u = place y) : y ∈ us := by
  induction us generalizing rows with
  | nil => cases hu
  | cons v us ih =>
    have hdistinct' : ((renew place rows v).map place).Nodup := by rwa [map_renew]
    rcases List.mem_cons.mp hu with rfl | hu
    -- The new row came first; what stands in its place now came later, or it is this row.
    · replace hy : y ∈ renewAll place (renew place rows u) us := hy
      rcases mem_renewAll hy with hmem | hmem
      · have hkey : place u ∈ rows.map place := by
          rw [← map_renew (x := u), hsame]
          exact List.mem_map_of_mem hmem
        exact List.inj_on_of_nodup_map hdistinct' (self_mem_renew hkey) hmem hsame ▸ .head _
      · exact .tail _ hmem
    · exact .tail _ (ih hdistinct' hy hu)

end Renew

/-! ## Series of one kind -/

section Series

variable {α : Type} {t t' : Tables}

/-- The owner of a row and its key. -/
def Column.place (c : Column α) (x : α) : String × String := (c.owner x, c.key x)

theorem Column.deletes (c : Column α) (t : Tables) (id : String) (xs : List α) :
    t.applyAll (xs.map fun x => c.delete id (c.key x)) =
      .ok (c.put t ((c.rows t).filter fun r =>
        !xs.any fun x => c.owner r == id && c.key r == c.key x)) := by
  induction xs generalizing t with
  | nil =>
    have hall : (c.rows t).filter (fun r =>
        !([] : List α).any fun x => c.owner r == id && c.key r == c.key x) = c.rows t :=
      List.filter_eq_self.2 fun _ _ => rfl
    rw [hall, c.put_rows]
    rfl
  | cons x xs ih =>
    refine applyAll_cons.2 ⟨_, c.apply_delete t id (c.key x), (ih _).trans ?_⟩
    rw [c.put_put, c.rows_put, List.filter_filter]
    congr 3
    funext r
    simp only [List.any_cons, Bool.not_or, Bool.and_comm]

theorem Column.inserts (c : Column α) {xs : List α} (h : t.applyAll (xs.map c.insert) = .ok t') :
    t' = c.put t (c.rows t ++ xs) := by
  induction xs generalizing t with
  | nil =>
    obtain rfl := Except.ok.inj h
    rw [List.append_nil, c.put_rows]
  | cons x xs ih =>
    obtain ⟨t₁, h₁, h₂⟩ := applyAll_cons.1 h
    rw [ih h₂, ((c.apply_insert x).1 h₁).2, c.put_put, c.rows_put, List.append_assoc,
      List.singleton_append]

theorem Amendable.updates (c : Amendable α) {us : List α}
    (h : t.applyAll (us.map c.update) = .ok t') :
    t' = c.put t (renewAll c.place (c.rows t) us) := by
  induction us generalizing t with
  | nil =>
    obtain rfl := Except.ok.inj h
    exact (c.put_rows t).symm
  | cons u us ih =>
    obtain ⟨t₁, h₁, h₂⟩ := applyAll_cons.1 h
    rw [ih h₂, ((c.apply_update u).1 h₁).2, c.put_put, c.rows_put]
    rfl

end Series

end Store

/-! ## Replacing the rows of an owner -/

theorem firstDuplicate_eq_none {κ : Type} [DecidableEq κ] {keys : List κ} :
    firstDuplicate keys = none ↔ keys.Nodup := by
  have hgo : ∀ (keys seen : List κ), firstDuplicate.go seen keys = none ↔
      keys.Nodup ∧ ∀ k ∈ keys, k ∉ seen := by
    intro keys
    induction keys with
    | nil => simp [firstDuplicate.go]
    | cons k keys ih =>
      intro seen
      rw [firstDuplicate.go]
      split
      · rename_i h
        simp only [reduceCtorEq, List.nodup_cons, List.mem_cons, forall_eq_or_imp, false_iff,
          not_and]
        exact fun _ hk => (hk (List.contains_iff_mem.1 h)).elim
      · rename_i h
        rw [ih]
        have hk : k ∉ seen := fun hk => h (List.contains_iff_mem.2 hk)
        simp only [List.mem_cons, not_or, List.nodup_cons, forall_eq_or_imp]
        constructor
        · rintro ⟨hn, hall⟩
          exact ⟨⟨fun hm => (hall k hm).1 rfl, hn⟩, hk, fun a ha => (hall a ha).2⟩
        · rintro ⟨⟨hkn, hn⟩, -, hall⟩
          exact ⟨hn, fun a ha => ⟨fun he => hkn (he ▸ ha), hall a ha⟩⟩
  rw [firstDuplicate, hgo]
  exact and_iff_left fun _ _ => List.not_mem_nil

/-- The rows of an owner are replaced: the owner has the new rows, and nobody else's change. Rows that
stay, by their keys, keep their places; the others come behind in the order of the new rows. If the
owner had two rows with one key, the later one may be left over. -/
structure Store.Replaced {α κ : Type} [DecidableEq κ] (owner : α → String) (key : α → κ)
    (id : String) (new rows rows' : List α) : Prop where
  mem : (rows.map fun r => (owner r, key r)).Nodup →
    ∀ x, x ∈ rows' ↔ (x ∈ rows ∧ owner x ≠ id) ∨ x ∈ new
  mem_or : ∀ x ∈ rows', x ∈ rows ∨ x ∈ new
  others : rows'.filter (owner · != id) = rows.filter (owner · != id)
  places : rows'.map (fun r => (owner r, key r)) =
    (rows.map fun r => (owner r, key r)).filter
        (fun k => k.1 != id || (new.map key).contains k.2) ++
      (new.map fun r => (owner r, key r)).filter
        fun k => !(rows.map fun r => (owner r, key r)).contains k

namespace Store

section Replaced

variable {α κ : Type} [DecidableEq κ] {owner : α → String} {key : α → κ} {id : String}
  {new rows rows' kept fresh updated : List α}

/-- Rows of other owners are there just if they were there before. -/
theorem Replaced.mem_other (h : Replaced owner key id new rows rows') {x : α} (hx : owner x ≠ id) :
    x ∈ rows' ↔ x ∈ rows := by
  have hiff (rows : List α) : x ∈ rows ↔ x ∈ rows.filter (owner · != id) := by
    rw [List.mem_filter, bne_iff_ne, and_iff_left hx]
  rw [hiff rows', h.others, ← hiff]

/-- Where no owner has two rows with one key, the owner has each of the new rows once. -/
theorem Replaced.own (h : Replaced owner key id new rows rows')
    (hnew : ∀ x ∈ new, owner x = id) (hnodup : (new.map key).Nodup)
    (hbefore : (rows.map fun r => (owner r, key r)).Nodup)
    (hdistinct : (rows'.map fun r => (owner r, key r)).Nodup) :
    (rows'.filter (owner · == id)).Perm new := by
  refine (List.perm_ext_iff_of_nodup ((hdistinct.of_map _).filter _) (hnodup.of_map _)).2 fun x => ?_
  rw [List.mem_filter, h.mem hbefore, beq_iff_eq]
  constructor
  · rintro ⟨⟨-, hne⟩ | hx, ho⟩
    · exact (hne ho).elim
    · exact hx
  · exact fun hx => ⟨.inr hx, hnew x hx⟩

/-- The rows of an owner that had none come behind all others. -/
theorem replaced_append {owner : α → String} {key : α → κ} {id : String} {new rows : List α}
    (hnew : ∀ x ∈ new, owner x = id) (hfresh : ∀ r ∈ rows, owner r ≠ id) :
    Replaced owner key id new rows (rows ++ new) where
  mem _ x := by
    rw [List.mem_append]
    exact or_congr_left (iff_self_and.2 fun hx => hfresh x hx)
  mem_or _ := List.mem_append.1
  others := by
    have hnone : new.filter (owner · != id) = [] := by
      refine List.filter_eq_nil_iff.2 fun x hx => ?_
      rw [hnew x hx, bne_self_eq_false]
      exact Bool.false_ne_true
    rw [List.filter_append, hnone, List.append_nil]
  places := by
    rw [List.map_append, List.filter_eq_self.2 fun k hk => ?_, List.filter_eq_self.2 fun k hk => ?_]
    · obtain ⟨u, hu, rfl⟩ := List.mem_map.1 hk
      rw [Bool.not_eq_true', List.contains_eq_mem, decide_eq_false_iff_not]
      rintro hmem
      obtain ⟨r, hr, hsame⟩ := List.mem_map.1 hmem
      exact hfresh r hr ((Prod.mk.inj hsame).1.trans (hnew u hu))
    · obtain ⟨r, hr, rfl⟩ := List.mem_map.1 hk
      rw [bne_iff_ne.2 (hfresh r hr), Bool.true_or]

/-- The rows of an owner after a plan: of the others and of the owner what is kept, renewed without
changing owners or keys, and behind it what is new. -/
theorem mem_replaced (hnew : ∀ x ∈ new, owner x = id)
    (hinj : ∀ x ∈ new, ∀ y ∈ new, key x = key y → x = y)
    (hkept : kept = rows.filter fun r => !(owner r == id && !(new.map key).contains (key r)))
    (hfresh : fresh = new.filter fun u => !((rows.filter (owner · == id)).map key).contains (key u))
    (hplaces : updated.map (fun r => (owner r, key r)) = kept.map fun r => (owner r, key r))
    (hothers : updated.filter (owner · != id) = kept.filter (owner · != id))
    (hown : ∀ x ∈ updated, owner x = id → x ∈ new) (x : α) :
    x ∈ updated ++ fresh ↔ (x ∈ rows ∧ owner x ≠ id) ∨ x ∈ new := by
  have hother : owner x ≠ id → (x ∈ updated ↔ x ∈ rows) := fun hne => by
    have hiff (rows : List α) : x ∈ rows ↔ x ∈ rows.filter (owner · != id) := by
      rw [List.mem_filter, bne_iff_ne, and_iff_left hne]
    rw [hiff updated, hothers, ← hiff, hkept, List.mem_filter, beq_false_of_ne hne, Bool.false_and,
      Bool.not_false, and_iff_left rfl]
  rw [List.mem_append]
  constructor
  · rintro (hx | hx)
    · by_cases hid : owner x = id
      · exact .inr (hown x hx hid)
      · exact .inl ⟨(hother hid).1 hx, hid⟩
    · rw [hfresh] at hx
      exact .inr (List.mem_filter.1 hx).1
  · rintro (⟨hx, hne⟩ | hx)
    · exact .inl ((hother hne).2 hx)
    -- A new row whose key was there before came in by an update, any other by an insertion.
    · by_cases hk : ∃ r ∈ rows, owner r = id ∧ key r = key x
      · obtain ⟨r, hr, ho, hkr⟩ := hk
        have hmem : (owner x, key x) ∈ updated.map fun r => (owner r, key r) := by
          rw [hplaces, hnew x hx, ← ho, ← hkr, hkept]
          refine List.mem_map_of_mem (f := fun r => (owner r, key r)) (List.mem_filter.2 ⟨hr, ?_⟩)
          rw [ho, BEq.rfl, Bool.true_and, Bool.not_not, List.contains_iff_mem, hkr]
          exact List.mem_map_of_mem hx
        obtain ⟨y, hy, hsame⟩ := List.mem_map.1 hmem
        obtain ⟨howner, hkey⟩ := Prod.mk.inj hsame
        have hynew : y ∈ new := hown y hy (howner.trans (hnew x hx))
        exact .inl (hinj y hynew x hx hkey ▸ hy)
      · refine .inr (hfresh ▸ List.mem_filter.2 ⟨hx, ?_⟩)
        rw [Bool.not_eq_true', List.contains_eq_mem, decide_eq_false_iff_not]
        intro hmem
        obtain ⟨r, hr, hkr⟩ := List.mem_map.1 hmem
        obtain ⟨hr, ho⟩ := List.mem_filter.1 hr
        exact hk ⟨r, hr, beq_iff_eq.1 ho, hkr⟩

/-- The rows after a plan are those of a replacement. -/
theorem replaced_of_plan (hnew : ∀ x ∈ new, owner x = id)
    (hinj : ∀ x ∈ new, ∀ y ∈ new, key x = key y → x = y)
    (hkept : kept = rows.filter fun r => !(owner r == id && !(new.map key).contains (key r)))
    (hfresh : fresh = new.filter fun u => !((rows.filter (owner · == id)).map key).contains (key u))
    (hplaces : updated.map (fun r => (owner r, key r)) = kept.map fun r => (owner r, key r))
    (hothers : updated.filter (owner · != id) = kept.filter (owner · != id))
    (hmem : ∀ x ∈ updated, x ∈ kept ∨ x ∈ new)
    (hown : (rows.map fun r => (owner r, key r)).Nodup → ∀ x ∈ updated, owner x = id → x ∈ new) :
    Replaced owner key id new rows (updated ++ fresh) where
  mem hdistinct := mem_replaced hnew hinj hkept hfresh hplaces hothers (hown hdistinct)
  mem_or x hx := by
    rcases List.mem_append.1 hx with hx | hx
    · exact (hmem x hx).imp_left fun hx => (List.mem_filter.1 (hkept ▸ hx)).1
    · exact .inr (List.mem_filter.1 (hfresh ▸ hx)).1
  others := by
    have hnone : fresh.filter (owner · != id) = [] := by
      refine List.filter_eq_nil_iff.2 fun x hx => ?_
      rw [hnew x (List.mem_filter.1 (hfresh ▸ hx)).1, bne_self_eq_false]
      exact Bool.false_ne_true
    rw [List.filter_append, hnone, List.append_nil, hothers, hkept, List.filter_filter]
    refine List.filter_congr fun r _ => ?_
    rw [bne]
    cases owner r == id <;> rfl
  places := by
    rw [List.map_append, hplaces, hkept, hfresh, List.filter_map, List.filter_map]
    congr 1
    · refine congrArg _ (List.filter_congr fun r _ => ?_)
      rw [Bool.not_and, Bool.not_not]
      rfl
    · refine congrArg _ (List.filter_congr fun u hu => congrArg _ ?_)
      rw [Bool.eq_iff_iff, List.contains_iff_mem, List.contains_iff_mem, List.mem_map, List.mem_map]
      constructor
      · rintro ⟨r, hr, hk⟩
        obtain ⟨hr, ho⟩ := List.mem_filter.1 hr
        exact ⟨r, hr, Prod.ext ((beq_iff_eq.1 ho).trans (hnew u hu).symm) hk⟩
      · rintro ⟨r, hr, hk⟩
        obtain ⟨ho, hk⟩ := Prod.mk.inj hk
        exact ⟨r, List.mem_filter.2 ⟨hr, beq_iff_eq.2 (ho.trans (hnew u hu))⟩, hk⟩

end Replaced

/-! ## Plans -/

section Plans

variable {α : Type} {id : String} {new : List α} {t t₁ t₂ t' : Tables}

/-- The changeset from the rows that an owner has to new ones. -/
def Column.plan (c : Column α) (t : Tables) (id : String) (new : List α) : Changeset α :=
  Changeset.between c.key ((c.rows t).filter fun r => [id].contains (c.owner r)) new

/-- The rows that a plan leaves: those of other owners, and those whose keys come again. -/
def Column.kept (c : Column α) (t : Tables) (id : String) (new : List α) : List α :=
  (c.rows t).filter fun r => !(c.owner r == id && !(new.map c.key).contains (c.key r))

theorem ask_ofOwner {α : Type} (rows : List α) (owner : α → String) (id : String) :
    rows.filter (fun x => [id].contains (owner x)) = rows.filter (owner · == id) := by
  congr 1
  funext x
  simp only [List.contains_cons, List.contains_nil, Bool.or_false]

/-- The deletions of a plan. -/
theorem Column.deletes_plan (c : Column α) (t : Tables) (id : String) (new : List α) :
    t.applyAll ((c.plan t id new).delete.map fun x => c.delete id (c.key x)) =
      .ok (c.put t (c.kept t id new)) := by
  refine (c.deletes t id _).trans (congrArg (fun rows => Except.ok (c.put t rows)) ?_)
  refine List.filter_congr fun r hr => congrArg _ ?_
  rw [Bool.eq_iff_iff]
  simp only [plan, ask_ofOwner, Changeset.between, List.any_eq_true, List.mem_filter,
    Bool.and_eq_true, Bool.not_eq_true', beq_iff_eq]
  constructor
  · rintro ⟨k, ⟨-, hk⟩, ho, hkr⟩
    exact ⟨ho, hkr.symm ▸ hk⟩
  · rintro ⟨ho, hk⟩
    exact ⟨r, ⟨⟨hr, ho⟩, hk⟩, ho, rfl⟩

theorem Column.create_eq (c : Column α) (t : Tables) (id : String) (new : List α) :
    (c.plan t id new).create =
      new.filter fun u => !(((c.rows t).filter (c.owner · == id)).map c.key).contains (c.key u) := by
  rw [plan, ask_ofOwner]
  rfl

/-- The updates of a plan renew no row of another owner. -/
theorem Amendable.others_renewAll (c : Amendable α) (hnew : ∀ x ∈ new, c.owner x = id) {us : List α}
    (hus : us ⊆ new) (rows : List α) :
    (renewAll c.place rows us).filter (c.owner · != id) = rows.filter (c.owner · != id) := by
  refine filter_renewAll (fun u hu => ?_) fun u hu r hr => ?_
  · rw [hnew u (hus hu), bne_self_eq_false]
  · rw [(Prod.mk.inj hr).1, hnew u (hus hu), bne_self_eq_false]

/-- The updates of a plan leave an owner none of its old rows, as long as keys are distinct. -/
theorem Amendable.own_renewAll (c : Amendable α) (hnew : ∀ x ∈ new, c.owner x = id)
    (hdistinct : ((c.rows t).map c.place).Nodup) {x : α}
    (hx : x ∈ renewAll c.place (c.kept t id new) (c.plan t id new).update)
    (howner : c.owner x = id) : x ∈ new := by
  have hkept : c.place x ∈ (c.kept t id new).map c.place := by
    have hplaces : (renewAll c.place (c.kept t id new) (c.plan t id new).update).map c.place =
        (c.kept t id new).map c.place := map_renewAll
    exact hplaces ▸ List.mem_map_of_mem hx
  obtain ⟨r, hr, hplace⟩ := List.mem_map.1 hkept
  obtain ⟨hrowner, hrkey⟩ := Prod.mk.inj hplace
  obtain ⟨hr, hstays⟩ := List.mem_filter.1 hr
  rw [hrowner.trans howner, BEq.rfl, Bool.true_and, Bool.not_not, List.contains_iff_mem] at hstays
  obtain ⟨u, hu, hkey⟩ := List.mem_map.1 hstays
  have hupdate : u ∈ (c.plan t id new).update := by
    rw [Column.plan, ask_ofOwner]
    refine List.mem_filter.2 ⟨hu, List.contains_iff_mem.2 ?_⟩
    rw [hkey]
    exact List.mem_map_of_mem (List.mem_filter.2 ⟨hr, beq_iff_eq.2 (hrowner.trans howner)⟩)
  have hsame : c.place u = c.place x :=
    Prod.ext ((hnew u hu).trans howner.symm) (hkey.trans hrkey)
  exact (List.mem_filter.1 (mem_of_renewAll
    (hdistinct.sublist (List.filter_sublist.map c.place)) hx hupdate hsame)).1

/-- A service replaces the rows of an owner by the changes of a plan. -/
theorem Amendable.sync (c : Amendable α) (hnew : ∀ x ∈ new, c.owner x = id)
    (hnodup : (new.map c.key).Nodup)
    (h₁ : t.applyAll ((c.plan t id new).delete.map fun x => c.delete id (c.key x)) = .ok t₁)
    (h₂ : t₁.applyAll ((c.plan t id new).update.map c.update) = .ok t₂)
    (h₃ : t₂.applyAll ((c.plan t id new).create.map c.insert) = .ok t') :
    ∃ rows, t' = c.put t rows ∧ Replaced c.owner c.key id new (c.rows t) rows := by
  obtain rfl := Except.ok.inj ((c.deletes_plan t id new).symm.trans h₁)
  obtain rfl := c.updates h₂
  have hrows := c.inserts h₃
  rw [c.rows_put, c.put_put, c.rows_put, c.put_put] at hrows
  refine ⟨_, hrows, replaced_of_plan hnew
    (fun x hx y hy => List.inj_on_of_nodup_map hnodup hx hy) rfl (c.create_eq t id new) map_renewAll
    (c.others_renewAll hnew (List.filter_subset_self _) _) (fun x hx => ?_)
    fun hdistinct x hx => c.own_renewAll hnew hdistinct hx⟩
  exact (mem_renewAll hx).imp_right fun hx => (List.mem_filter.1 hx).1

end Plans

end Store

end AccessAdmin
