import AccessAdmin.Program
import AccessAdmin.Proofs.Changes.Columns
import AccessAdmin.Proofs.Sessions.Serializability

/-!
# Row numbers count creations

A transaction copies the counter with the rows, and a rollback throws both away, so a number can be
given out again. But in what is left of a history, after all transactions that came to nothing have
been taken out, the number of a row is that of its creation, counting the creations of all menus,
roles and users from one.

* `Tag`: a row with its number, whatever kind it is of.
* `Tables.apply_tags`: what a change does to the numbers.
* `Tables.Numbered`: the numbers of the rows of tables are those of some creations.
* `Shared.numbered`: they are those of the creations in the ledger of a history.
-/

namespace AccessAdmin.Store

/-! ## Rows and their numbers -/

/-- A menu, a role or a user, and the number that it got when it was created. -/
structure Tag where
  kind : Kind
  id : String
  rowId : Int
deriving DecidableEq, Repr

/-- What a row is found by. -/
def Tag.key (x : Tag) : Kind × String := (x.kind, x.id)

/-- What a change creates, if it creates a menu, a role or a user. -/
def Write.creates : Write → Option (Kind × String)
  | createMenu m => some (.menu, m.id)
  | createRole r => some (.role, r.id)
  | createUser u => some (.user, u.id)
  | _ => none

/-- What a change deletes, if it deletes a menu, a role or a user. -/
def Write.deletes : Write → Option (Kind × String)
  | deleteMenu id => some (.menu, id)
  | deleteRole id => some (.role, id)
  | deleteUser id => some (.user, id)
  | _ => none

/-- The tags of the rows of one kind. -/
def tagsOf {α : Type} (kind : Kind) (idOf : α → String) (rowId : α → Int) (rows : List α) :
    List Tag :=
  rows.map fun x => ⟨kind, idOf x, rowId x⟩

section TagsOf

variable {α : Type} {kind kind' : Kind} {idOf : α → String} {rowId : α → Int} {rows : List α}
  {id : String}

theorem tagsOf_insert (x : α) : tagsOf kind idOf rowId (rows ++ [x]) =
    tagsOf kind idOf rowId rows ++ [⟨kind, idOf x, rowId x⟩] := List.map_append

theorem tagsOf_amend {rows' : List α} {hit : α → Bool} {f : α → α} {what : String}
    (h : Tables.amend rows hit f what = .ok rows') (hid : ∀ x, idOf (f x) = idOf x)
    (hrowId : ∀ x, rowId (f x) = rowId x) :
    tagsOf kind idOf rowId rows' = tagsOf kind idOf rowId rows :=
  Tables.map_amend h fun x => by rw [hid, hrowId]

theorem tagsOf_filter : tagsOf kind idOf rowId (rows.filter (idOf · != id)) =
    (tagsOf kind idOf rowId rows).filter (some ·.key != some (kind, id)) := by
  rw [tagsOf, tagsOf, List.filter_map]
  refine congrArg _ (List.filter_congr fun x _ => ?_)
  rw [Bool.eq_iff_iff, Function.comp_apply, bne_iff_ne, bne_iff_ne]
  simp [Tag.key]

theorem tagsOf_filter_other (hne : kind ≠ kind') :
    (tagsOf kind idOf rowId rows).filter (some ·.key != some (kind', id)) =
      tagsOf kind idOf rowId rows := by
  refine List.filter_eq_self.mpr fun x hx => ?_
  obtain ⟨y, -, rfl⟩ := List.mem_map.mp hx
  simp [Tag.key, hne]

theorem key_notMem_tagsOf (hnew : ∀ x ∈ rows, idOf x ≠ id) :
    (kind, id) ∉ (tagsOf kind idOf rowId rows).map Tag.key := by
  rw [tagsOf, List.map_map, List.mem_map]
  rintro ⟨x, hx, he⟩
  exact hnew x hx (Prod.mk.inj he).2

theorem key_notMem_tagsOf_other (hne : kind ≠ kind') :
    (kind', id) ∉ (tagsOf kind idOf rowId rows).map Tag.key := by
  rw [tagsOf, List.map_map, List.mem_map]
  rintro ⟨x, -, he⟩
  exact hne (Prod.mk.inj he).1

end TagsOf

namespace Tables

variable {t t' : Tables} {w : Write} {key : Kind × String} {cs : List (Kind × String)}

/-- All menus, roles and users with their numbers. -/
def tags (t : Tables) : List Tag :=
  tagsOf .menu Menu.id Menu.rowId t.menus ++
    (tagsOf .role Role.id Role.rowId t.roles ++ tagsOf .user User.id User.rowId t.users)

/-- The next number goes to a row that is new. -/
structure Inserts (t : Tables) (key : Kind × String) (t' : Tables) : Prop where
  counter : t'.lastRowId = t.lastRowId + 1
  fresh : key ∉ t.tags.map Tag.key
  tags : t'.tags.Perm (⟨key.1, key.2, t.lastRowId + 1⟩ :: t.tags)

/-- No number is given out, and the rows that are left keep theirs. -/
structure Leaves (t : Tables) (gone : Option (Kind × String)) (t' : Tables) : Prop where
  counter : t'.lastRowId = t.lastRowId
  tags : t'.tags = t.tags.filter (some ·.key != gone)

theorem leaves_of_eq (hcounter : t'.lastRowId = t.lastRowId)
    (hmenus : tagsOf .menu Menu.id Menu.rowId t'.menus = tagsOf .menu Menu.id Menu.rowId t.menus)
    (hroles : tagsOf .role Role.id Role.rowId t'.roles = tagsOf .role Role.id Role.rowId t.roles)
    (husers : tagsOf .user User.id User.rowId t'.users = tagsOf .user User.id User.rowId t.users) :
    t.Leaves none t' where
  counter := hcounter
  tags := by
    have hall : t.tags.filter (some ·.key != none) = t.tags :=
      List.filter_eq_self.mpr fun _ _ => rfl
    rw [hall, tags, hmenus, hroles, husers]
    rfl

theorem createMenu_inserts {m : Menu} (h : t.createMenu m = .ok t') :
    t.Inserts (.menu, m.id) t' := by
  obtain ⟨hid, rfl⟩ := createMenu_eq_ok.mp h
  refine ⟨rfl, ?_, ?_⟩
  · simp only [tags, List.map_append, List.mem_append, not_or]
    exact ⟨key_notMem_tagsOf hid, key_notMem_tagsOf_other (by decide),
      key_notMem_tagsOf_other (by decide)⟩
  · rw [tags, tagsOf_insert, List.append_assoc, List.singleton_append]
    exact List.perm_middle

theorem createRole_inserts {r : Role} (h : t.createRole r = .ok t') :
    t.Inserts (.role, r.id) t' := by
  obtain ⟨hid, -, rfl⟩ := createRole_eq_ok.mp h
  refine ⟨rfl, ?_, ?_⟩
  · simp only [tags, List.map_append, List.mem_append, not_or]
    exact ⟨key_notMem_tagsOf_other (by decide), key_notMem_tagsOf hid,
      key_notMem_tagsOf_other (by decide)⟩
  · simp only [tags, tagsOf_insert, List.append_assoc, List.singleton_append]
    rw [← List.append_assoc, ← List.append_assoc]
    exact List.perm_middle

theorem createUser_inserts {u : User} (h : t.createUser u = .ok t') :
    t.Inserts (.user, u.id) t' := by
  obtain ⟨hid, -, rfl⟩ := createUser_eq_ok.mp h
  refine ⟨rfl, ?_, ?_⟩
  · simp only [tags, List.map_append, List.mem_append, not_or]
    exact ⟨key_notMem_tagsOf_other (by decide), key_notMem_tagsOf_other (by decide),
      key_notMem_tagsOf hid⟩
  · simp only [tags, tagsOf_insert, ← List.append_assoc]
    exact List.perm_append_singleton _ _

/-- A change that creates a row gives it the next number; any other change gives out no number, and
unless it deletes a row all rows are left. -/
theorem apply_tags (h : t.apply w = .ok t') :
    (∃ key, w.creates = some key ∧ t.Inserts key t') ∨
      w.creates = none ∧ t.Leaves w.deletes t' := by
  cases w with
  | createMenu m => exact .inl ⟨_, rfl, createMenu_inserts h⟩
  | createRole r => exact .inl ⟨_, rfl, createRole_inserts h⟩
  | createUser u => exact .inl ⟨_, rfl, createUser_inserts h⟩
  | updateMenu _ | updateMenuParentPath _ _ =>
    obtain ⟨menus, hmenus, rfl⟩ := bind_pure_eq_ok.mp h
    exact .inr ⟨rfl, leaves_of_eq rfl (tagsOf_amend hmenus (fun _ => rfl) fun _ => rfl) rfl rfl⟩
  | updateRole r =>
    obtain ⟨-, roles, hroles, rfl⟩ := updateRole_eq_ok.mp h
    exact .inr ⟨rfl, leaves_of_eq rfl rfl (tagsOf_amend hroles (fun _ => rfl) fun _ => rfl) rfl⟩
  | updateUser u =>
    obtain ⟨-, users, husers, rfl⟩ := updateUser_eq_ok.mp h
    exact .inr ⟨rfl, leaves_of_eq rfl rfl rfl (tagsOf_amend husers (fun _ => rfl) fun _ => rfl)⟩
  | updateUserStatus _ _ | updateUserPassword _ _ =>
    obtain ⟨users, husers, rfl⟩ := bind_pure_eq_ok.mp h
    exact .inr ⟨rfl, leaves_of_eq rfl rfl rfl (tagsOf_amend husers (fun _ => rfl) fun _ => rfl)⟩
  | deleteMenu id =>
    obtain rfl := Except.ok.inj h
    refine .inr ⟨rfl, rfl, ?_⟩
    simp only [tags, Write.deletes, List.filter_append]
    exact congrArg₂ (· ++ ·) tagsOf_filter (congrArg₂ (· ++ ·)
      (tagsOf_filter_other (by decide)).symm (tagsOf_filter_other (by decide)).symm)
  | deleteRole id =>
    obtain rfl := Except.ok.inj h
    refine .inr ⟨rfl, rfl, ?_⟩
    simp only [tags, Write.deletes, List.filter_append]
    exact congrArg₂ (· ++ ·) (tagsOf_filter_other (by decide)).symm
      (congrArg₂ (· ++ ·) tagsOf_filter (tagsOf_filter_other (by decide)).symm)
  | deleteUser id =>
    obtain rfl := Except.ok.inj h
    refine .inr ⟨rfl, rfl, ?_⟩
    simp only [tags, Write.deletes, List.filter_append]
    exact congrArg₂ (· ++ ·) (tagsOf_filter_other (by decide)).symm
      (congrArg₂ (· ++ ·) (tagsOf_filter_other (by decide)).symm tagsOf_filter)
  | createMenuAction _ | updateMenuAction _ | createMenuResource _ | updateMenuResource _
  | createRoleMenu _ | updateRoleMenu _ | createUserRole _ =>
    obtain ⟨_, -, rfl⟩ := bind_pure_eq_ok.mp h
    exact .inr ⟨rfl, leaves_of_eq rfl rfl rfl rfl⟩
  | deleteMenuAction _ _ | deleteMenuActions _ | deleteMenuResource _ _ | deleteMenuResources _
  | deleteRoleMenu _ _ | deleteRoleMenus _ | deleteUserRole _ _ | deleteUserRoles _
  | deleteRoleUsers _ =>
    obtain rfl := Except.ok.inj h
    exact .inr ⟨rfl, leaves_of_eq rfl rfl rfl rfl⟩

/-! ## Numbers that count creations -/

/-- The rows have different keys, and the number of each row is that of the last creation of its
key, the creations counted from one. The counter stands at the number of all creations. -/
structure Numbered (cs : List (Kind × String)) (t : Tables) : Prop where
  counter : t.lastRowId = cs.length
  keys : (t.tags.map Tag.key).Nodup
  last : ∀ x ∈ t.tags, ∃ before after, cs = before ++ x.key :: after ∧ x.key ∉ after ∧
    x.rowId = before.length + 1

theorem numbered_empty : Numbered [] {} where
  counter := rfl
  keys := List.nodup_nil
  last _ h := nomatch h

namespace Numbered

/-- Every change of numbered tables leads to numbered tables. -/
theorem apply (hn : t.Numbered cs) (h : t.apply w = .ok t') :
    t'.Numbered (cs ++ w.creates.toList) := by
  obtain ⟨key, hcreates, hins⟩ | ⟨hcreates, hleft⟩ := apply_tags h
  · rw [hcreates, Option.toList_some]
    refine ⟨?_, ?_, fun x hx => ?_⟩
    · rw [hins.counter, hn.counter, List.length_append, List.length_singleton]
      rfl
    · rw [(hins.tags.map Tag.key).nodup_iff]
      exact List.nodup_cons.mpr ⟨hins.fresh, hn.keys⟩
    · rcases List.mem_cons.mp (hins.tags.mem_iff.mp hx) with rfl | hx
      · exact ⟨cs, [], rfl, List.not_mem_nil, by rw [hn.counter]⟩
      · obtain ⟨before, after, rfl, hlast, hrowId⟩ := hn.last x hx
        refine ⟨before, after ++ [key], by simp, ?_, hrowId⟩
        rw [List.mem_append, List.mem_singleton, not_or]
        exact ⟨hlast, fun he => hins.fresh (he ▸ List.mem_map_of_mem hx)⟩
  · rw [hcreates, Option.toList_none, List.append_nil]
    refine ⟨hleft.counter.trans hn.counter, ?_, fun x hx => ?_⟩
    · rw [hleft.tags]
      exact hn.keys.sublist (List.filter_sublist.map _)
    · rw [hleft.tags] at hx
      exact hn.last x (List.mem_filter.mp hx).1

theorem bounded (hn : t.Numbered cs) {x : Tag} (hx : x ∈ t.tags) :
    0 < x.rowId ∧ x.rowId ≤ t.lastRowId := by
  obtain ⟨before, after, rfl, -, hrowId⟩ := hn.last x hx
  rw [hn.counter, hrowId, List.length_append, List.length_cons]
  omega

/-- Rows with one number are one row: it is the number of one creation. -/
theorem rowIds (hn : t.Numbered cs) : (t.tags.map Tag.rowId).Nodup := by
  refine (List.nodup_map_iff_inj_on hn.keys.of_map).mpr fun x hx y hy he => ?_
  obtain ⟨before, after, hcs, -, hrowId⟩ := hn.last x hx
  obtain ⟨before', after', hcs', -, hrowId'⟩ := hn.last y hy
  have hlength : before.length = before'.length := by omega
  obtain ⟨-, hrest⟩ := List.append_inj (hcs.symm.trans hcs') hlength
  exact List.inj_on_of_nodup_map hn.keys hx hy (List.cons.inj hrest).1

end Numbered

end Tables

/-! ## Creations in a history -/

/-- What an entry creates: a change that is refused or has to wait creates nothing. -/
def Entry.creates : Entry → Option (Kind × String)
  | called _ (.write w) (.answered (.ok _)) => w.creates
  | _ => none

/-- What the entries of a history create, in their order. -/
def creations (history : List Entry) : List (Kind × String) := history.filterMap Entry.creates

theorem creations_append (xs ys : List Entry) :
    creations (xs ++ ys) = creations xs ++ creations ys := List.filterMap_append

/-- An entry that creates nothing. -/
theorem creations_concat_none {e : Entry} (he : e.creates = none) (history : List Entry) :
    creations (history ++ [e]) = creations history := by
  rw [creations_append, creations, creations, List.filterMap_cons_none he, List.filterMap_nil,
    List.append_nil]

/-- A change that is made. -/
theorem creations_concat_write (s : SessionId) (w : Write) (history : List Entry) :
    creations (history ++ [.called s (.write w) (.answered (.ok ()))]) =
      creations history ++ w.creates.toList := by
  rw [creations_append]
  cases hw : w.creates with
  | none => simp [creations, Entry.creates, hw]
  | some key => simp [creations, Entry.creates, hw]

/-- After the entries `before`, a history creates a key for the last time. -/
def LastCreated (history : List Entry) (key : Kind × String) (before : List Entry) : Prop :=
  ∃ e after, history = before ++ e :: after ∧ e.creates = some key ∧ key ∉ creations after

section LastCreated

variable {history before before' : List Entry} {t : Tables} {x y : Tag} {key : Kind × String}

/-- An item occurs for the last time in one place only. -/
theorem length_eq_of_last {α : Type} [DecidableEq α] {a : α} {xs ys xs' ys' : List α}
    (h : xs ++ a :: ys = xs' ++ a :: ys') (hys : a ∉ ys) (hys' : a ∉ ys') :
    xs.length = xs'.length := by
  have hafter (xs ys : List α) (hys : a ∉ ys) :
      (xs ++ a :: ys).reverse.idxOf a = ys.length := by
    rw [List.reverse_append, List.reverse_cons, List.append_assoc,
      List.idxOf_append_of_notMem (mt List.mem_reverse.mp hys), List.length_reverse,
      List.singleton_append, List.idxOf_cons_self, Nat.add_zero]
  have hlength := congrArg List.length h
  rw [List.length_append, List.length_append, List.length_cons, List.length_cons,
    ← hafter xs ys hys, ← hafter xs' ys' hys', h] at hlength
  exact Nat.add_right_cancel hlength

/-- The number of a row is one more than there were creations before the last one of its key. -/
theorem LastCreated.rowId (h : LastCreated history x.key before)
    (hn : t.Numbered (creations history)) (hx : x ∈ t.tags) :
    x.rowId = (creations before).length + 1 := by
  obtain ⟨e, after, rfl, he, hlast⟩ := h
  obtain ⟨before', after', hcs, hlast', hrowId⟩ := hn.last x hx
  have hcreated : creations (before ++ e :: after) = creations before ++ x.key :: creations after := by
    rw [creations_append, creations, creations, creations, List.filterMap_cons_some he]
  rw [hrowId, length_eq_of_last (hcreated.symm.trans hcs) hlast hlast']

/-- The key of every row is created at some point for the last time. -/
theorem Tables.Numbered.lastCreated (hn : t.Numbered (creations history)) (hx : x ∈ t.tags) :
    ∃ before, LastCreated history x.key before := by
  obtain ⟨created, after, hcs, hlast, -⟩ := hn.last x hx
  obtain ⟨before, rest, rfl, -, hrest⟩ := List.filterMap_eq_append_iff.mp hcs
  obtain ⟨skipped, e, after', rfl, hskipped, he, rfl⟩ := List.filterMap_eq_cons_iff.mp hrest
  exact ⟨before ++ skipped, e, after', (List.append_assoc ..).symm, he, hlast⟩

/-- Between two places of a history there is what is created at the first of them. -/
theorem LastCreated.length_lt (h : LastCreated history key before)
    (hbefore' : before' <+: history) (hlt : before.length < before'.length) :
    (creations before).length < (creations before').length := by
  obtain ⟨e, after, rfl, he, -⟩ := h
  have hinitial : before ++ [e] <+: before' := by
    refine List.prefix_of_prefix_length_le ⟨after, by simp⟩ hbefore' ?_
    rw [List.length_append, List.length_singleton]
    exact hlt
  have hle := (hinitial.filterMap Entry.creates).length_le
  rw [List.filterMap_append, List.length_append, List.filterMap_cons_some he] at hle
  exact hle

/-- Of two rows the one that was created later has the larger number. -/
theorem LastCreated.rowId_lt_iff (hx : x ∈ t.tags) (hy : y ∈ t.tags)
    (h : LastCreated history x.key before) (h' : LastCreated history y.key before')
    (hn : t.Numbered (creations history)) :
    x.rowId < y.rowId ↔ before.length < before'.length := by
  have hinitial {key : Kind × String} {before : List Entry} (h : LastCreated history key before) :
      before <+: history := by
    obtain ⟨e, after, rfl, -⟩ := h
    exact List.prefix_append _ _
  rw [h.rowId hn hx, h'.rowId hn hy]
  obtain hlt | heq | hgt := Nat.lt_trichotomy before.length before'.length
  · have := h.length_lt (hinitial h') hlt
    omega
  · obtain rfl := (List.prefix_of_prefix_length_le (hinitial h) (hinitial h') heq.le).eq_of_length heq
    omega
  · have := h'.length_lt (hinitial h) hgt
    omega

end LastCreated

/-! ## Histories of sessions -/

/-- The rows of the committed tables have the numbers of the creations in the serial history; those
of the open transaction count on with its own. -/
structure Numbers (l : Ledger) (st : Shared) : Prop where
  committed : st.tables.Numbered (creations l.serial)
  working : ∀ w, st.writer = some w →
    w.working.Numbered (creations (l.serial ++ l.pending w.session))

namespace Numbers

variable {t : Tables} {log block : List Entry} {l : Ledger} {st : Shared} {w : Writer}

/-- Without an open transaction only the committed tables count. -/
theorem of_idle (hw : st.writer = none) (h : st.tables.Numbered (creations l.serial)) :
    Numbers l st where
  committed := h
  working _ hw' := nomatch hw.symm.trans hw'

/-- The open transaction is gone. -/
theorem abandon (hn : Numbers l st) (s : SessionId) : Numbers (l.set s none) ⟨st.tables, none⟩ :=
  of_idle rfl hn.committed

/-- A call on a store that no transaction is open in. -/
theorem call_idle (hn : Numbers l st) (h : Ledger.Accounts t log l block st)
    (hw : st.writer = none) (s : SessionId) (c : Call) :
    Numbers (l.enter (.called s c (st.call s c).1)) (st.call s c).2 := by
  have hopened := h.opened_none hw s
  have hrefused {r : Except StoreError c.Reply} (hr : r.toBool = false)
      (hcall : st.call s c = (.answered r, st)) :
      Numbers (l.enter (.called s c (st.call s c).1)) (st.call s c).2 := by
    rw [hcall, Ledger.enter_refused hopened hr]
    exact hn
  cases c with
  | begin =>
    have hcall : st.call s .begin = (.answered (.ok ()), ⟨st.tables, some ⟨s, st.tables⟩⟩) := by
      simp only [Shared.call, hw]
    rw [hcall]
    refine ⟨hn.committed, ?_⟩
    rintro _ ⟨⟩
    have hpending : (l.enter (.called s .begin (.answered (.ok ())))).pending s =
        [.called s .begin (.answered (.ok ()))] := by
      simp only [Ledger.enter, Except.toBool, Ledger.set, Ledger.pending, hopened,
        Function.update_self, Option.getD_none, Option.getD_some, List.nil_append]
    rw [hpending, creations_concat_none rfl]
    exact hn.committed
  | commit =>
    exact hrefused (r := .error (.transaction "no open transaction")) rfl
      (by simp only [Shared.call, hw])
  | rollback =>
    exact hrefused (r := .error (.transaction "no open transaction")) rfl
      (by simp [Shared.call, Shared.inTransaction, hw])
  | read r =>
    have hcall : st.call s (.read r) = (.answered (st.tables.answer r), st) := by
      simp only [Shared.call, Shared.view, hw]
    cases hanswer : st.tables.answer r with
    | error e => exact hrefused (r := .error e) rfl (by rw [hcall, hanswer])
    | ok reply =>
      rw [hcall, hanswer, Ledger.enter_data hopened rfl]
      refine of_idle hw ?_
      rw [creations_concat_none rfl]
      exact hn.committed
  | write x =>
    cases hx : st.tables.apply x with
    | error e =>
      exact hrefused (r := .error e) rfl (by simp only [Shared.call, Shared.view, hw, hx])
    | ok t' =>
      have hcall : st.call s (.write x) = (.answered (.ok ()), ⟨t', none⟩) := by
        simp only [Shared.call, Shared.view, Shared.put, hw, hx]
      rw [hcall, Ledger.enter_data hopened rfl]
      refine of_idle rfl ?_
      rw [creations_concat_write]
      exact hn.committed.apply hx

/-- A call of the session that has the transaction open, other than its end. -/
theorem call_own (hn : Numbers l st) (h : Ledger.Accounts t log l block st)
    (hw : st.writer = some w) {c : Call} (hc : c ≠ .commit) (hr : c ≠ .rollback) :
    Numbers (l.enter (.called w.session c (st.call w.session c).1)) (st.call w.session c).2 := by
  have hopened := h.opened_own hw
  have hworking : w.working.Numbered (creations (l.serial ++ block)) := by
    have := hn.working w hw
    rwa [Ledger.pending, hopened, Option.getD_some] at this
  have hcalled (r : Except StoreError c.Reply) (working : Tables)
      (hcall : st.call w.session c = (.answered r, ⟨st.tables, some ⟨w.session, working⟩⟩))
      (hnumbered : working.Numbered
        (creations (l.serial ++ block ++ [.called w.session c (.answered r)]))) :
      Numbers (l.enter (.called w.session c (st.call w.session c).1)) (st.call w.session c).2 := by
    rw [hcall, Ledger.enter_opened hopened hc hr]
    refine ⟨hn.committed, ?_⟩
    rintro _ ⟨⟩
    rw [Ledger.pending_set, Option.getD_some, ← List.append_assoc]
    exact hnumbered
  cases c with
  | commit => exact absurd rfl hc
  | rollback => exact absurd rfl hr
  | begin =>
    refine hcalled (.error (.transaction "transaction already open")) w.working ?_ ?_
    · simp only [Shared.call, hw, ↓reduceIte]
      rw [← hw]
    · rw [creations_concat_none rfl]
      exact hworking
  | read r =>
    refine hcalled (w.working.answer r) w.working ?_ ?_
    · simp only [Shared.call, Shared.view, hw, ↓reduceIte]
      rw [← hw]
    · rw [creations_concat_none rfl]
      exact hworking
  | write x =>
    cases hx : w.working.apply x with
    | error e =>
      refine hcalled (.error e) w.working ?_ ?_
      · simp only [Shared.call, Shared.view, hw, ↓reduceIte, hx]
        rw [← hw]
      · rw [creations_concat_none rfl]
        exact hworking
    | ok t' =>
      refine hcalled (.ok ()) t' ?_ ?_
      · simp only [Shared.call, Shared.view, Shared.put, hw, ↓reduceIte, hx]
      · rw [creations_concat_write]
        exact hworking.apply hx

/-- Whatever a session does next, the numbers go on to count the creations in the ledger. -/
theorem act (hn : Numbers l st) (h : Ledger.Accounts t log l block st) (a : Act) :
    Numbers (l.enter (st.act a).1) (st.act a).2 := by
  cases hw : st.writer with
  | none =>
    cases a with
    | call s c => exact hn.call_idle h hw s c
    | close s =>
      have hst : st.close s = st := by simp [Shared.close, Shared.inTransaction, hw]
      show Numbers (l.set s none) (st.close s)
      rw [hst]
      exact of_idle hw hn.committed
  | some w =>
    by_cases ha : a.session = w.session
    · cases a with
      | call s c =>
        obtain rfl := ha
        by_cases hc : c = .commit
        · subst hc
          rw [Shared.act_commit hw, Ledger.enter_commit (h.opened_own hw)]
          refine of_idle rfl ?_
          have hworking := hn.working w hw
          rw [Ledger.pending, h.opened_own hw, Option.getD_some] at hworking
          rw [creations_concat_none rfl]
          exact hworking
        by_cases hr : c = .rollback
        · subst hr
          rw [Shared.act_rollback hw]
          exact hn.abandon _
        exact hn.call_own h hw hc hr
      | close s =>
        obtain rfl := ha
        rw [Shared.act_close hw]
        exact hn.abandon _
    · obtain ⟨hst, hl⟩ := h.other hw ha
      rw [hst, hl]
      exact hn

end Numbers

/-- After any acts of any sessions on empty tables, the numbers of the rows count the creations in
the ledger. -/
theorem Shared.numbered (acts : List Act) :
    Numbers (Ledger.of (({} : Shared).serve acts).1) (({} : Shared).serve acts).2 := by
  induction acts using List.reverseRecOn with
  | nil => exact .of_idle rfl Tables.numbered_empty
  | append_singleton acts a ih =>
    obtain ⟨block, haccounts⟩ := Ledger.accounts (Replays.serve {} acts)
    rw [Shared.serve_append, Ledger.of_append]
    exact ih.act haccounts a

end AccessAdmin.Store
