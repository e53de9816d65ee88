import AccessAdmin.Database.Filters
import AccessAdmin.Database.Tables
import AccessAdmin.Proofs.Changes.Menus
import AccessAdmin.Proofs.Database.Patterns
import AccessAdmin.Proofs.Sequences
import AccessAdmin.Store.Tables

/-!
# Filters on a database and in memory

A filter is sent to a database as a condition with numbered places, and the values for the places
beside it. The rows that such a condition lets through are those that the in-memory store lists for
the same filter.

* `Clause`: a condition as it is written, with numbers of places and without the values.
* `Condition.holds_clause`: with the values in their places it holds where the condition holds.
* `Store.Tables.filters_agree`: both stores select the same rows.
-/

namespace AccessAdmin

namespace Database

/-! ## Conditions with numbered places -/

/-- A condition as it stands in a statement: each value is left to a place with a number. -/
inductive Clause where
  | always
  | equal (column : String) (n : Nat)
  | oneOf (column : String) (n : Nat)
  | like (column : String) (n : Nat)
  | both (a b : Clause)
  | either (a b : Clause)
  | among (column other table : String) (c : Clause)
deriving DecidableEq, Repr

namespace Clause

/-- How a condition is written. -/
def text : Clause → String
  | always => "TRUE"
  | equal column n => column ++ " = " ++ place n
  | oneOf column n => column ++ " = ANY(" ++ place n ++ ")"
  | like column n => column ++ " LIKE " ++ place n
  | both a b => a.text ++ " AND " ++ b.text
  | either a b => "(" ++ a.text ++ " OR " ++ b.text ++ ")"
  | among column other table c =>
    column ++ " IN (SELECT " ++ other ++ " FROM " ++ table ++ " WHERE " ++ c.text ++ ")"

/-- The value that is sent for a place. Places count from 1. -/
def sent (values : List Value) (n : Nat) : Option Value := values[n - 1]?

/-- Whether a condition holds for a row, with these values in its places. -/
def holds (values : List Value) (db : Condition.Contents) : Clause → Condition.Named → Bool
  | always, _ => true
  | equal column n, row => (sent values n).any fun v => row column == some v
  | oneOf column n, row =>
    match sent values n, row column with
    | some (.texts texts), some (.text s) => texts.contains s
    | _, _ => false
  | like column n, row =>
    match sent values n, row column with
    | some (.text pattern), some (.text s) => Pattern.accepts pattern s
    | _, _ => false
  | both a b, row => a.holds values db row && b.holds values db row
  | either a b, row => a.holds values db row || b.holds values db row
  | among column other table c, row =>
    (db table).any fun found =>
      (row column).isSome && found other == row column && c.holds values db found

end Clause

namespace Condition

/-- A condition with its values left to the places from number `n` on. -/
def clause (n : Nat) : Condition → Clause
  | always => .always
  | equal column _ => .equal column n
  | oneOf column _ => .oneOf column n
  | like column _ => .like column n
  | both a b => .both (a.clause n) (b.clause (n + a.values.length))
  | either a b => .either (a.clause n) (b.clause (n + a.values.length))
  | among column other table c => .among column other table (c.clause n)

theorem text_clause (c : Condition) (n : Nat) : (c.clause n).text = c.text n := by
  induction c generalizing n with
  | always | equal | oneOf | like => rfl
  | both a b iha ihb | either a b iha ihb => simp [clause, Clause.text, text, iha, ihb]
  | among column other table c ih => simp [clause, Clause.text, text, ih]

/-- The value for the next place, among those before and after it. -/
theorem sent_next (before after : List Value) (v : Value) :
    Clause.sent (before ++ [v] ++ after) (before.length + 1) = some v := by
  simp [Clause.sent]

/-- With its values in its places a condition says what it said with them in it, whatever values
stand in the places before and after. By induction on the condition. -/
theorem holds_clause (c : Condition) (before after : List Value) (db : Contents) (row : Named) :
    (c.clause (before.length + 1)).holds (before ++ c.values ++ after) db row = c.holds db row := by
  induction c generalizing before after row with
  | always => rfl
  | equal column v =>
    simp only [clause, Clause.holds, values, sent_next, holds, Option.any_some]
  | oneOf column texts =>
    simp only [clause, Clause.holds, values, sent_next, holds]
    rcases row column with _ | _ | _ | _ | _ | _ <;> rfl
  | like column pattern =>
    simp only [clause, Clause.holds, values, sent_next, holds]
    rcases row column with _ | _ | _ | _ | _ | _ <;> rfl
  | both a b iha ihb | either a b iha ihb =>
    -- What the second part finds before it are also the values of the first one.
    have hb := ihb (before ++ a.values) after row
    have ha := iha before (b.values ++ after) row
    rw [List.length_append, Nat.add_right_comm] at hb
    simp only [List.append_assoc] at ha hb
    simp only [clause, Clause.holds, values, holds, List.append_assoc, ha, hb]
  | among column other table c ih =>
    simp only [clause, Clause.holds, values, holds, ih]

/-- All of some conditions hold where each of them does. -/
theorem holds_all {cs : List Condition} {db : Contents} {row : Named} :
    (all cs).holds db row = true ↔ ∀ c ∈ cs, c.holds db row = true := by
  have hfold (c : Condition) : (cs.foldl both c).holds db row = true ↔
      c.holds db row = true ∧ ∀ c ∈ cs, c.holds db row = true := by
    induction cs generalizing c with
    | nil => simp
    | cons d cs ih => simp [ih, holds, and_assoc]
  rw [all, hfold]
  simp [holds]

end Condition

/-! ## Rows by the names of their columns -/

@[simp] theorem Value.text_beq {a b : String} : (Value.text a == Value.text b) = (a == b) := by
  rw [Bool.eq_iff_iff, beq_iff_eq, beq_iff_eq, Value.text.injEq]

/-- A row by the names of its columns. -/
def byColumn (row : List (String × Value)) : Condition.Named := fun column => row.lookup column

end Database

open Database

/-- The contents of the tables that conditions look at, as the database keeps them. -/
def Store.Tables.contents (t : Tables) : Condition.Contents
  | "menus" => t.menus.map fun m => byColumn m.row
  | "roles" => t.roles.map fun r => byColumn r.row
  | "users" => t.users.map fun u => byColumn u.row
  | "user_roles" => t.userRoles.map fun a => byColumn a.row
  | _ => []

variable {t : Store.Tables} {db : Condition.Contents} {row : Condition.Named}

/-! ## The parts of a filter -/

namespace Database.Condition

theorem holds_equal_text {column s s' : String} (h : row column = some (.text s)) :
    (equal column (.text s')).holds db row = (s == s') := by
  simp [holds, h]

theorem holds_oneOf {column s : String} {texts : List String} (h : row column = some (.text s)) :
    (oneOf column texts).holds db row = texts.contains s := by
  simp [holds, h]

/-- A search of a column finds what a search of the text finds. -/
theorem holds_containing {column s raw : String} (h : row column = some (.text s)) :
    (like column (Pattern.containing raw)).holds db row = Text.contains s raw := by
  rw [Bool.eq_iff_iff, ← Pattern.accepts_containing]
  simp [holds, h]

/-- A part of a filter becomes a condition if it is there. -/
theorem holds_part {α : Type} {o : Option α} {g : α → Condition} {h : α → Bool}
    (hg : ∀ a, o = some a → (g a).holds db row = h a) :
    (∀ c ∈ (o.map g).toList, c.holds db row = true) ↔ o.all h = true := by
  cases o with
  | none => simp
  | some a => simp [hg a rfl]

end Database.Condition

/-- The condition on the beginning of a path says what the comparison of the ids says. -/
theorem AncestorPath.holds_startCondition {p start : AncestorPath} (hp : p.IsStored)
    (hstart : start.IsStored) (hroot : start.isRoot = false)
    (h : row "parent_path" = some (.text p.toStorage)) :
    start.startCondition.holds db row = p.startsWith start := by
  rw [Bool.eq_iff_iff, ← toStorage_iff_startsWith hp hstart hroot]
  simp [startCondition, Condition.holds, h, Pattern.accepts_below]

/-- A root's path is a beginning of every path. -/
theorem AncestorPath.startsWith_root {p start : AncestorPath} (hroot : start.isRoot = true) :
    p.startsWith start = true := by
  rw [startsWith, List.isEmpty_iff.1 hroot]
  rfl

/-- A beginning becomes a condition unless it is a root's. -/
theorem AncestorPath.holds_start {p : AncestorPath} {start : Option AncestorPath}
    (hp : p.IsStored) (hstart : ∀ q, start = some q → q.IsStored)
    (h : row "parent_path" = some (.text p.toStorage)) :
    (∀ c ∈ ((start.filter fun q => !q.isRoot).map startCondition).toList, c.holds db row = true) ↔
      start.all p.startsWith = true := by
  cases start with
  | none => simp
  | some q =>
    by_cases hroot : q.isRoot = true
    · simp [hroot, startsWith_root hroot]
    · have hholds : q.startCondition.holds db row = p.startsWith q :=
        holds_startCondition hp (hstart q rfl) (Bool.eq_false_iff.2 hroot) h
      simp [hroot, hholds]

/-! ## The filters -/

/-- The conditions on a menu's row say together what the filter says. -/
theorem MenuFilter.holds_conditions {f : MenuFilter} {m : Menu}
    (hstart : ∀ p, f.pathStart = some p → p.IsStored) (hm : m.parentPath.IsStored) :
    (Condition.all f.conditions).holds db (byColumn m.row) = true ↔ f.admits m = true := by
  have hid : byColumn m.row "id" = some (.text m.id) := rfl
  have hname : byColumn m.row "name" = some (.text m.name) := rfl
  have hparent : byColumn m.row "parent_id" = some (.text m.parentId) := rfl
  have hpath : byColumn m.row "parent_path" = some (.text m.parentPath.toStorage) := rfl
  have hhidden (b : Bool) : (Condition.equal "hidden" (.bool b)).holds db (byColumn m.row) =
      (m.hidden == b) := by
    simp [Condition.holds, show byColumn m.row "hidden" = some (.bool m.hidden) from rfl]
  simp only [Condition.holds_all, conditions, List.forall_mem_append, admits, Bool.and_eq_true]
  rw [Condition.holds_part fun _ _ => Condition.holds_oneOf hid,
    Condition.holds_part fun _ _ => Condition.holds_containing hname,
    Condition.holds_part fun _ _ => Condition.holds_equal_text hparent,
    AncestorPath.holds_start hm hstart hpath, Condition.holds_part fun b _ => hhidden b]

/-- A role is among those that are assigned to a user. -/
theorem Store.Tables.holds_assigned {r : Role} {user : String} :
    (Condition.among "id" "role_id" "user_roles" (.equal "user_id" (.text user))).holds t.contents
        (byColumn r.row) =
      t.userRoles.any fun a => a.userId == user && a.roleId == r.id := by
  have hid : byColumn r.row "id" = some (.text r.id) := rfl
  have huser (a : Assignment) : byColumn a.row "user_id" = some (.text a.userId) := rfl
  have hrole (a : Assignment) : byColumn a.row "role_id" = some (.text a.roleId) := rfl
  simp [Condition.holds, contents, hid, huser, hrole, Function.comp_def, Bool.and_comm]

/-- The conditions on a role's row say together what the filter says, on the row and on the
assignments. -/
theorem RoleFilter.holds_conditions {f : RoleFilter} {r : Role} :
    (Condition.all f.conditions).holds t.contents (byColumn r.row) = true ↔
      f.admits r = true ∧
        f.userId.all (fun user => t.userRoles.any fun a => a.userId == user && a.roleId == r.id) =
          true := by
  have hid : byColumn r.row "id" = some (.text r.id) := rfl
  have hname : byColumn r.row "name" = some (.text r.name) := rfl
  simp only [Condition.holds_all, conditions, List.forall_mem_append, admits, Bool.and_eq_true]
  rw [Condition.holds_part fun _ _ => Condition.holds_oneOf hid,
    Condition.holds_part fun _ _ => Condition.holds_equal_text hname,
    Condition.holds_part fun _ _ => Condition.holds_containing hname,
    Condition.holds_part fun _ _ => Store.Tables.holds_assigned]

/-- A user is among those that hold one of some roles. -/
theorem Store.Tables.holds_holding {u : User} {roles : List String} :
    (Condition.among "id" "user_id" "user_roles" (.oneOf "role_id" roles)).holds t.contents
        (byColumn u.row) =
      t.userRoles.any fun a => roles.contains a.roleId && a.userId == u.id := by
  have hid : byColumn u.row "id" = some (.text u.id) := rfl
  have huser (a : Assignment) : byColumn a.row "user_id" = some (.text a.userId) := rfl
  have hrole (a : Assignment) : byColumn a.row "role_id" = some (.text a.roleId) := rfl
  simp [Condition.holds, contents, hid, huser, hrole, Function.comp_def, Bool.and_comm]

theorem UserStatus.code_beq (s s' : UserStatus) :
    ((some (Value.number s.code) : Option Value) == some (.number s'.code)) = (s == s') := by
  cases s <;> cases s' <;> rfl

/-- The conditions on a user's row say together what the filter says, on the row and on the
assignments. -/
theorem UserFilter.holds_conditions {f : UserFilter} {u : User} :
    (Condition.all f.conditions).holds t.contents (byColumn u.row) = true ↔
      f.admits u = true ∧
        f.roleIds.all (fun roles =>
          t.userRoles.any fun a => roles.contains a.roleId && a.userId == u.id) = true := by
  have hid : byColumn u.row "id" = some (.text u.id) := rfl
  have hname : byColumn u.row "username" = some (.text u.username) := rfl
  have hreal : byColumn u.row "real_name" = some (.text u.realName) := rfl
  have hstatus (s : UserStatus) :
      (Condition.equal "status" (.number s.code)).holds t.contents (byColumn u.row) = (u.status == s) :=
    UserStatus.code_beq u.status s
  simp only [Condition.holds_all, conditions, List.forall_mem_append, admits, Bool.and_eq_true]
  rw [Condition.holds_part fun _ _ => Condition.holds_oneOf hid,
    Condition.holds_part fun _ _ => Condition.holds_equal_text hname,
    Condition.holds_part fun _ _ => Condition.holds_containing hname,
    Condition.holds_part fun _ _ => Condition.holds_containing hreal,
    Condition.holds_part fun s _ => hstatus s,
    Condition.holds_part fun _ _ => Store.Tables.holds_holding]

/-! ## Both stores -/

namespace Store.Tables

/-- A database with these tables shows a row to a statement with a condition. The values of the
condition are sent for its places, and others for the places after them, which cut the rows to a
window. -/
def Shows (t : Tables) (c : Condition) (others : List Value) (row : List (String × Value)) : Prop :=
  (c.clause 1).holds (c.values ++ others) t.contents (byColumn row) = true

theorem shows_iff {c : Condition} {others : List Value} {row : List (String × Value)} :
    t.Shows c others row ↔ c.holds t.contents (byColumn row) = true := by
  rw [Shows, ← c.holds_clause [] others]
  rfl

theorem mem_matchingRoles {f : RoleFilter} {r : Role} :
    r ∈ t.matchingRoles f ↔ r ∈ t.roles ∧ f.admits r = true ∧
      f.userId.all (fun user => t.userRoles.any fun a => a.userId == user && a.roleId == r.id) =
        true := by
  rw [matchingRoles, List.mem_mergeSort, List.mem_filter, Bool.and_eq_true]

theorem mem_matchingUsers {f : UserFilter} {u : User} :
    u ∈ t.matchingUsers f ↔ u ∈ t.users ∧ f.admits u = true ∧
      f.roleIds.all (fun roles =>
        t.userRoles.any fun a => roles.contains a.roleId && a.userId == u.id) = true := by
  rw [matchingUsers, List.mem_mergeSort, List.mem_filter, Bool.and_eq_true]

/-- Whatever the tables hold, if the paths of their menus are read back as they are, a database
shows exactly the rows that the in-memory store lists: of the menus, the roles and the users, for
every filter. In particular the search in a column finds the texts that contain the searched one,
and the condition on a path its beginnings, id by id. -/
theorem filters_agree (hpaths : ∀ m ∈ t.menus, m.parentPath.IsStored) (others : List Value) :
    (∀ (c : Condition) (n : Nat), (c.clause n).text = c.text n) ∧
    (∀ f : MenuFilter, (∀ p, f.pathStart = some p → ∃ raw, p = .ofStorage raw) → ∀ m ∈ t.menus,
      (t.Shows (.all f.conditions) others m.row ↔ m ∈ (t.ask (.queryMenus f none)).data)) ∧
    (∀ f : RoleFilter, ∀ r ∈ t.roles,
      (t.Shows (.all f.conditions) others r.row ↔ r ∈ (t.ask (.queryRoles f none)).data)) ∧
    (∀ f : UserFilter, ∀ u ∈ t.users,
      (t.Shows (.all f.conditions) others u.row ↔ u ∈ (t.ask (.queryUsers f none)).data)) ∧
    (∀ raw text, Pattern.accepts (Pattern.containing raw) text = true ↔
      ∃ before after, text = before ++ raw ++ after) ∧
    ∀ raw, (AncestorPath.ofStorage raw).isRoot = false → ∀ m ∈ t.menus,
      (t.Shows (AncestorPath.ofStorage raw).startCondition others m.row ↔
        m.parentPath.startsWith (.ofStorage raw) = true) := by
  refine ⟨Condition.text_clause, fun f hstart m hm => ?_, fun f r hr => ?_, fun f u hu => ?_,
    fun raw text => ?_, fun raw hroot m hm => ?_⟩
  · have hstored (p : AncestorPath) (hp : f.pathStart = some p) : p.IsStored := by
      obtain ⟨raw, rfl⟩ := hstart p hp
      exact AncestorPath.isStored_ofStorage raw
    rw [shows_iff, MenuFilter.holds_conditions hstored (hpaths m hm)]
    exact (Menus.mem_matchingMenus.trans (and_iff_right hm)).symm
  · rw [shows_iff, RoleFilter.holds_conditions]
    exact (mem_matchingRoles.trans (and_iff_right hr)).symm
  · rw [shows_iff, UserFilter.holds_conditions]
    exact (mem_matchingUsers.trans (and_iff_right hu)).symm
  · rw [Pattern.accepts_containing, Text.contains_iff]
  · rw [shows_iff, AncestorPath.holds_startCondition (hpaths m hm)
      (AncestorPath.isStored_ofStorage raw) hroot rfl]

end Store.Tables

/-! ## A sample -/

/-- In the sample the menus below the second one with an `r` in their names are found alike. -/
theorem sample_filters : ∃ m ∈ Sample.world.tables.menus, m.id = "mxxx" ∧
    let f : MenuFilter := { likeName := some "r", pathStart := some (.ofStorage "mxx") }
    Sample.world.tables.Shows (.all f.conditions) [.number 10, .number 0] m.row ∧
      m ∈ (Sample.world.tables.ask (.queryMenus f none)).data := by
  have hpaths : ∀ m ∈ Sample.world.tables.menus, m.parentPath.IsStored := by decide +kernel
  let f : MenuFilter := { likeName := some "r", pathStart := some (.ofStorage "mxx") }
  have hfound : ∃ m ∈ Sample.world.tables.menus, m.id = "mxxx" ∧
      (((Condition.all f.conditions).clause 1).holds
        ((Condition.all f.conditions).values ++ [.number 10, .number 0])
        Sample.world.tables.contents (byColumn m.row)) = true := by
    decide +kernel
  obtain ⟨m, hm, hid, hshown⟩ := hfound
  obtain ⟨-, hmenus, -⟩ := Store.Tables.filters_agree hpaths [.number 10, .number 0]
  have hstart : ∀ p, f.pathStart = some p → ∃ raw, p = .ofStorage raw := by
    rintro _ ⟨⟩
    exact ⟨"mxx", rfl⟩
  exact ⟨m, hm, hid, hshown, (hmenus f hstart m hm).1 hshown⟩

end AccessAdmin
