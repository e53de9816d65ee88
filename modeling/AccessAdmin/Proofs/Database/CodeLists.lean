import AccessAdmin.Database.Calls
import AccessAdmin.Proofs.Changes.Writes
import AccessAdmin.Proofs.Database.Filters
import Mathlib.Data.List.DropRight

/-!
# Lists of codes as one text

The codes of a grant are joined by commas where a database keeps them, and reading the text drops
blank ends and empty codes. Whatever is read can be kept, so a list of codes is read back if and
only if each of its codes can be kept, which is what the checks of a description ask for.

* `Text.trim_trim`: a text is trimmed once.
* `Code.splitList_joinList_iff`: which lists of codes are read back.
* `Store.Write.ReadBack`: a grant is read from the row that a change leaves.
* `Code.lists_kept_as_text`: all of it, and that roles write no other grants.
-/

namespace AccessAdmin

/-! ## Trimming -/

namespace Text

variable {s : String} {c : Char}

theorem trimChars_eq (cs : List Char) :
    trimChars cs = (cs.dropWhile isBlank).rdropWhile isBlank := rfl

/-- A text that begins without a blank still does when its end is cut off. -/
theorem dropWhile_rdropWhile {p : Char → Bool} {cs : List Char} (h : cs.dropWhile p = cs) :
    (cs.rdropWhile p).dropWhile p = cs.rdropWhile p := by
  obtain ⟨cut, hcs⟩ := List.rdropWhile_prefix p (l := cs)
  cases hrest : cs.rdropWhile p with
  | nil => rfl
  | cons c rest =>
    rw [hrest, List.cons_append] at hcs
    have hc : ¬p c = true := by
      intro hc
      rw [← hcs, List.dropWhile_cons_of_pos hc] at h
      have hlength := congrArg List.length h
      have hdrop := (List.dropWhile_sublist p (l := rest ++ cut)).length_le
      rw [List.length_cons] at hlength
      omega
    exact List.dropWhile_cons_of_neg hc

theorem trim_trim (s : String) : trim (trim s) = trim s := by
  have h : trimChars (trimChars s.toList) = trimChars s.toList := by
    rw [trimChars_eq (trimChars s.toList), trimChars_eq s.toList,
      dropWhile_rdropWhile (List.dropWhile_idempotent _ _), List.rdropWhile_idempotent]
  rw [trim, trim, String.toList_ofList, h]

/-- Trimming adds no character. -/
theorem mem_of_mem_trim (h : c ∈ (trim s).toList) : c ∈ s.toList := by
  rw [trim, String.toList_ofList, trimChars_eq] at h
  exact (List.dropWhile_sublist _).subset ((List.rdropWhile_prefix _ _).subset h)

end Text

/-! ## Lists of codes -/

namespace Code

variable {code raw : String} {codes : List String}

theorem isStorable_iff :
    isStorable code = true ↔ code ≠ "" ∧ ',' ∉ code.toList ∧ Text.trim code = code := by
  simp [isStorable, and_assoc]

/-- Every code that is read can be kept. -/
theorem isStorable_of_mem_splitList (h : code ∈ splitList raw) : isStorable code = true := by
  obtain ⟨hpieces, hne⟩ := List.mem_filter.mp h
  obtain ⟨piece, hpiece, rfl⟩ := List.mem_map.mp hpieces
  obtain ⟨chars, hchars, rfl⟩ := List.mem_map.mp hpiece
  refine isStorable_iff.mpr ⟨by simpa using hne, fun hcomma => ?_, Text.trim_trim _⟩
  have hmem := Text.mem_of_mem_trim hcomma
  rw [String.toList_ofList] at hmem
  exact Text.not_mem_of_mem_splitOn hchars hmem

/-- Codes that can be kept are found between the commas, and nothing of them is dropped. -/
theorem splitList_joinList (h : ∀ c ∈ codes, isStorable c = true) :
    splitList (joinList codes) = codes := by
  by_cases hnil : codes = []
  · rw [hnil]
    decide
  have hpieces : Text.split ',' (joinList codes) = codes := by
    rw [Text.split, joinList, Text.join, String.toList_ofList, Text.splitOn_joinWith, List.map_map]
    · simp
    · simpa using hnil
    · intro piece hpiece
      obtain ⟨c, hc, rfl⟩ := List.mem_map.mp hpiece
      exact (isStorable_iff.mp (h c hc)).2.1
  have htrim : codes.map Text.trim = codes := by
    conv_rhs => rw [← List.map_id codes]
    exact List.map_congr_left fun c hc => (isStorable_iff.mp (h c hc)).2.2
  rw [splitList, hpieces, htrim, List.filter_eq_self]
  intro c hc
  simpa using (isStorable_iff.mp (h c hc)).1

/-- A list of codes is read back exactly if each code can be kept. No two codes make up for each
other: what is read can be kept, so what is read back can. -/
theorem splitList_joinList_iff :
    splitList (joinList codes) = codes ↔ ∀ c ∈ codes, isStorable c = true := by
  refine ⟨fun h c hc => ?_, splitList_joinList⟩
  rw [← h] at hc
  exact isStorable_of_mem_splitList hc

end Code

/-! ## Rows of grants -/

namespace Database

/-- The cells of the columns in which a value is kept. -/
def Record.cells {α : Type} (r : Record α) (row : List (String × Value)) : Row :=
  r.columns.map fun c => byColumn row c.name

/-- What a setting puts into a column at some time. -/
def Setting.put (now : Value) : Setting → Value
  | .value v => v
  | .now => now

/-- A row after an update at some time. -/
def amended (now : Value) (set : List (String × Setting)) (row : List (String × Value)) :
    List (String × Value) :=
  row.map fun c => (c.1, ((set.lookup c.1).map (Setting.put now)).getD c.2)

end Database

open Database

/-- The grant that a change writes, if it writes one, is read from the row that it leaves: from a
new row, and from any row of the grant's key after an update. -/
def Store.Write.ReadBack : Store.Write → Prop
  | .createRoleMenu g => Grant.record.ofRow? (Grant.record.cells g.row) = some g
  | .updateRoleMenu g => ∀ (old : Grant) (now : Value), old.roleId = g.roleId →
      old.menuId = g.menuId →
      Grant.record.ofRow? (Grant.record.cells (amended now g.settings old.row)) = some g
  | _ => True

namespace Grant

variable {g old : Grant}

/-- Reading a row of a grant splits the texts of both columns. -/
theorem ofRow?_cells (g : Grant) : record.ofRow? (record.cells g.row) =
    some { g with
      actions := Code.splitList (Code.joinList g.actions)
      resources := Code.splitList (Code.joinList g.resources) } := rfl

/-- An update of a row with the same key leaves the row of the grant. -/
theorem amended_row (now : Value) (hrole : old.roleId = g.roleId) (hmenu : old.menuId = g.menuId) :
    amended now g.settings old.row = g.row := by
  simp [amended, settings, row, key, Setting.put, List.lookup_cons, hrole, hmenu]

/-- A grant is read back exactly if its codes can be kept. -/
theorem read_back_iff : record.ofRow? (record.cells g.row) = some g ↔
    ∀ c ∈ g.actions ++ g.resources, Code.isStorable c = true := by
  rw [ofRow?_cells, Option.some.injEq, List.forall_mem_append, ← Code.splitList_joinList_iff,
    ← Code.splitList_joinList_iff]
  obtain ⟨roleId, menuId, actions, resources⟩ := g
  simp only [Grant.mk.injEq, true_and]

end Grant

/-- What services ask for in writing grants is read back. -/
theorem Store.Write.Proper.readBack {root : String} {w : Store.Write} (h : w.Proper root) :
    w.ReadBack := by
  cases w with
  | createRoleMenu g => exact Grant.read_back_iff.mpr h
  | updateRoleMenu g =>
    intro old now hrole hmenu
    rw [Grant.amended_row now hrole hmenu]
    exact Grant.read_back_iff.mpr h
  | _ => trivial

/-- A listing of rows that are read one by one. -/
theorem Store.valuesOf_cells {α : Type} {work : String} {record : Record α} {rowOf : α → Row}
    {values : List α} (h : ∀ a ∈ values, record.ofRow? (rowOf a) = some a) :
    valuesOf work record (values.map rowOf) = .ok values := by
  have hall : (values.map rowOf).mapM record.ofRow? = some values := by
    induction values with
    | nil => rfl
    | cons a values ih =>
      rw [List.map_cons, List.mapM_cons, h a (.head _), ih fun a ha => h a (.tail _ ha)]
      rfl
  rw [valuesOf, hall]

/-- Lists of codes are kept as texts. A list is read back exactly if each of its codes can be kept,
and all codes that are read from a text can. So the grants of a description without a fault are read
back from their rows, each with its codes in their order, and roles are created and updated by
writing no other grants, whatever the store answers. -/
theorem Code.lists_kept_as_text :
    (∀ codes, splitList (joinList codes) = codes ↔ ∀ c ∈ codes, isStorable c = true) ∧
      (∀ raw, (∀ c ∈ splitList raw, isStorable c = true) ∧
        splitList (joinList (splitList raw)) = splitList raw) ∧
      (∀ input : RoleInput, Roles.fault? input = none → ∀ id work,
        Store.valuesOf work Grant.record
            ((input.grantsFor id).map fun g => Grant.record.cells g.row) =
          .ok (input.grantsFor id)) ∧
      ∀ (ctx : Context) (id : String) (input : RoleInput),
        Service.Writes Store.Write.ReadBack (Roles.create ctx input) ∧
          Service.Writes Store.Write.ReadBack (Roles.update ctx id input) := by
  have hstorable (raw : String) : ∀ c ∈ splitList raw, isStorable c = true :=
    fun _ hc => isStorable_of_mem_splitList hc
  refine ⟨fun _ => splitList_joinList_iff,
    fun raw => ⟨hstorable raw, splitList_joinList (hstorable raw)⟩, ?_, fun ctx id input => ?_⟩
  · intro input hfault id work
    exact Store.valuesOf_cells fun g hg =>
      Grant.read_back_iff.mpr (Roles.proper_grantsFor hfault g hg)
  · have hproper (w : Store.Write) (hw : w.Proper "") : w.ReadBack := hw.readBack
    exact ⟨(Roles.writes_create ctx input).mono hproper,
      (Roles.writes_update ctx id input).mono hproper⟩

/-- An empty code and one with a comma are lost, and blank ends are. -/
example : Code.splitList (Code.joinList ["read", "", "a,b", " write "]) =
    ["read", "a", "b", "write"] := by decide

end AccessAdmin
