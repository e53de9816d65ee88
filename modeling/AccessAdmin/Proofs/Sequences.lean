import AccessAdmin.Policy.PatternReader
import AccessAdmin.Proofs.Changes.Sound

/-!
# Sequences that share one naming

The ids that commands give are fresh if all of them are taken from one naming without repetitions:
every stored id is then the name of a row created before, and the next one is not.

* `Surroundings.FreshFor.of_named`: names of created rows leave the names to come fresh.
* `reached_serveAll`: every sequence of commands that share a naming leads to a reached world.
-/

namespace AccessAdmin

/-- A naming of rows by their kind and number, without the empty name and without repetitions. -/
structure Naming where
  name : Kind → Nat → String
  nonempty : ∀ kind n, name kind n ≠ ""
  distinct : ∀ kind n kind' n', name kind n = name kind' n' → kind = kind' ∧ n = n'

/-- The used ids are names of rows that some tables have created. -/
def Naming.Covers (names : Naming) (used : List String) (t : Store.Tables) : Prop :=
  ∀ id ∈ used, ∃ kind n, n ≤ MemoryStore.createdOf t kind ∧ names.name kind n = id

theorem Surroundings.FreshFor.of_named {env : Surroundings} {names : Naming} {used : List String}
    {t : Store.Tables} (henv : env.idName = names.name) (h : names.Covers used t) :
    env.FreshFor used t where
  nonempty kind n _ := henv ▸ names.nonempty kind n
  unused kind n hn hmem := by
    obtain ⟨kind', n', hn', he⟩ := h _ hmem
    rw [henv] at he
    obtain ⟨rfl, rfl⟩ := names.distinct _ _ _ _ he
    exact Nat.lt_irrefl _ (Nat.lt_of_lt_of_le hn hn')
  distinct kind n kind' n' _ _ he := by
    rw [henv] at he
    exact names.distinct _ _ _ _ he

/-! ## New ids -/

/-- Rows are only counted up, and every id that comes in is the name of a counted row. -/
structure Store.Tables.Extends (env : Surroundings) (t t' : Tables) : Prop where
  created : ∀ kind, MemoryStore.createdOf t kind ≤ MemoryStore.createdOf t' kind
  ids : ∀ id ∈ t'.ids, id ∈ t.ids ∨ ∃ kind n, n ≤ MemoryStore.createdOf t' kind ∧
    env.idName kind n = id

namespace Store.Tables.Extends

variable {env : Surroundings} {t t' t'' : Store.Tables}

theorem trans (h : Extends env t t') (h' : Extends env t' t'') : Extends env t t'' where
  created kind := Nat.le_trans (h.created kind) (h'.created kind)
  ids id hid := by
    rcases h'.ids id hid with hid | hnew
    · rcases h.ids id hid with hid | ⟨kind, n, hn, he⟩
      · exact .inl hid
      · exact .inr ⟨kind, n, Nat.le_trans hn (h'.created kind), he⟩
    · exact .inr hnew

/-- Changes without insertions. -/
theorem of_created_eq (hcreated : t'.created = t.created) (hids : t'.ids ⊆ t.ids) :
    Extends env t t' where
  created kind := by
    cases kind <;> simp only [MemoryStore.createdOf, hcreated, Nat.le_refl]
  ids _ hid := .inl (hids hid)

theorem of_ids_eq (hcreated : t'.created = t.created) (hids : t'.ids = t.ids) : Extends env t t' :=
  of_created_eq hcreated (hids ▸ List.Subset.refl _)

/-- One insertion. -/
theorem of_insertion (kind : Kind) {id : String} (hperm : t'.ids.Perm (id :: t.ids))
    (hid : id = env.idName kind (MemoryStore.createdOf t kind + 1))
    (hcreated : ∀ k, MemoryStore.createdOf t' k =
      if k = kind then MemoryStore.createdOf t k + 1 else MemoryStore.createdOf t k) :
    Extends env t t' where
  created k := by
    rw [hcreated]
    split
    · exact Nat.le_succ _
    · exact Nat.le_refl _
  ids x hx := by
    rcases List.mem_cons.1 (hperm.mem_iff.1 hx) with rfl | hx
    · exact .inr ⟨kind, _, Nat.le_of_eq ((hcreated kind).trans (if_pos rfl)).symm, hid.symm⟩
    · exact .inl hx

end Store.Tables.Extends

section Changes

open Store.Tables

variable {env : Surroundings} {t t' : Store.Tables}

theorem Menus.Added.extends {input : MenuInput} {row : Menu} (ha : Added env input t row t') :
    Extends env t t' :=
  .of_insertion .menu ha.perm_ids ha.id fun k => by
    rw [ha.tables]
    cases k <;> rfl

theorem Roles.Added.extends {input : RoleInput} {row : Role} (ha : Added env input t row t') :
    Extends env t t' :=
  .of_insertion .role ha.perm_ids ha.id fun k => by
    rw [ha.tables]
    cases k <;> rfl

theorem Users.Added.extends {input : UserInput} {row : User} (ha : Added env input t row t') :
    Extends env t t' :=
  .of_insertion .user ha.perm_ids ha.id fun k => by
    rw [ha.tables]
    cases k <;> rfl

theorem Menus.Grown.extends (hg : Grown env t t') : Extends env t t' := by
  induction hg with
  | refl => exact .of_ids_eq rfl rfl
  | tail _ hstep ih =>
    obtain ⟨_, _, -, ha⟩ := hstep
    exact ih.trans ha.extends

/-- Whatever a mutation changes, the ids that come in are names of the rows that it creates. -/
theorem Mutation.Changes.extends {m : Mutation} {a : m.Result} (hc : m.Changes env t a t') :
    Extends env t t' := by
  cases m with
  | createMenu _ =>
    obtain ⟨_, ha⟩ := hc
    exact ha.extends
  | updateMenu _ _ =>
    obtain ⟨_, _, hu⟩ := hc
    exact .of_ids_eq (by rw [hu.frame]) hu.ids_eq
  | deleteMenu _ =>
    exact .of_created_eq (by rw [hc.tables]) (Menus.Removed.ids_sublist hc).subset
  | seedMenus _ => exact Menus.Grown.extends hc
  | createRole _ =>
    obtain ⟨_, ha, -⟩ := hc
    exact ha.extends
  | updateRole _ _ =>
    exact .of_ids_eq (by rw [hc.frame]) (Roles.Updated.ids_eq hc)
  | deleteRole _ =>
    exact .of_created_eq (by rw [hc.tables]) (Roles.Removed.ids_sublist hc).subset
  | createUser _ =>
    obtain ⟨_, ha, -⟩ := hc
    exact ha.extends
  | updateUser _ _ =>
    exact .of_ids_eq (by rw [hc.frame]) (Users.Updated.ids_eq hc)
  | deleteUser _ =>
    exact .of_created_eq (by rw [hc.tables]) (Users.Removed.ids_sublist hc).subset
  | updateStatus _ _ =>
    obtain ⟨-, rfl⟩ := hc
    exact .of_ids_eq rfl (ids_mapUsers fun _ => Users.withStatus_id)
  | updatePassword _ _ | changeOwnPassword _ _ _ =>
    obtain ⟨_, hcalm, rfl⟩ := hc
    exact .of_ids_eq rfl (ids_mapUsers fun u => (hcalm u).1)

end Changes

/-! ## Serving sequences -/

/-- Serves commands one after the other. -/
def serveAll : List Command → World MemoryStore → World MemoryStore
  | [], w => w
  | q :: qs, w => serveAll qs (q.run w).2

/-- Rows whose ids are taken from a naming are covered by it. -/
theorem Naming.Covers.extend {names : Naming} {used : List String} {env : Surroundings}
    {t t' : Store.Tables} (h : names.Covers used t) (hs : t.Sound used) (hext : t.Extends env t')
    (henv : env.idName = names.name) : names.Covers (t'.ids ++ used) t' := by
  have hused (id : String) (hid : id ∈ used) :
      ∃ kind n, n ≤ MemoryStore.createdOf t' kind ∧ names.name kind n = id := by
    obtain ⟨kind, n, hn, he⟩ := h id hid
    exact ⟨kind, n, Nat.le_trans hn (hext.created kind), he⟩
  intro id hid
  rcases List.mem_append.1 hid with hid | hid
  · rcases hext.ids id hid with hid | ⟨kind, n, hn, he⟩
    · exact hused id (hs.ids.used hid)
    · exact ⟨kind, n, hn, by rw [← henv]; exact he⟩
  · exact hused id hid

/-- One more command that takes its ids from a naming. -/
theorem Naming.Covers.run {names : Naming} {used : List String} {w : World MemoryStore}
    {q : Command} (h : names.Covers used w.tables) (hi : w.Idle) (hs : w.tables.Sound used)
    (henv : q.env.idName = names.name) :
    names.Covers ((q.run w).2.tables.ids ++ used) (q.run w).2.tables := by
  refine h.extend hs ?_ henv
  obtain htables | ⟨a, hchanges⟩ := q.tables_run hi hs
  · rw [htables]
    exact .of_ids_eq rfl rfl
  · exact hchanges.extends

/-- A sequence of commands that take their ids from one naming leads to reached worlds only: the ids
are fresh all along. -/
theorem reached_serveAll {admits : Command → Prop} {names : Naming} {qs : List Command}
    {used : List String} {w : World MemoryStore} (h : Reached admits used w)
    (hn : names.Covers used w.tables)
    (hqs : ∀ q ∈ qs, admits q ∧ q.env.idName = names.name) :
    ∃ used', Reached admits used' (serveAll qs w) ∧ names.Covers used' (serveAll qs w).tables := by
  induction qs generalizing used w with
  | nil => exact ⟨used, h, hn⟩
  | cons q qs ih =>
    obtain ⟨hq, henv⟩ := hqs q (.head _)
    exact ih (h.step q hq (.of_named henv hn)) (hn.run h.idle h.sound henv)
      fun q' hq' => hqs q' (.tail _ hq')

/-! ## A sample -/

namespace Sample

/-- A letter for each kind of rows. -/
def letter : Kind → Char
  | .menu => 'm'
  | .role => 'r'
  | .user => 'u'

/-- The names `mx`, `mxx`, and so on for menus, likewise for roles and users. -/
def naming : Naming where
  name kind n := String.ofList (letter kind :: List.replicate n 'x')
  nonempty kind n h := by
    have := congrArg String.toList h
    rw [String.toList_ofList] at this
    cases this
  distinct kind n kind' n' h := by
    obtain ⟨hletter, hcount⟩ := List.cons.inj (String.ofList_injective h)
    refine ⟨?_, List.replicate_left_injective 'x' hcount⟩
    cases kind <;> cases kind' <;> first | rfl | cases hletter

def env : Surroundings :=
  ⟨naming.name, fun _ => ⟨0, 0⟩, fun _ => .empty, Policy.PathPattern.reader⟩

/-- Passwords are kept as they are. -/
def users : UserPolicy := { passwords := ⟨fun _ password => password, fun a b => a == b⟩ }

/-- A command for a mutation, perhaps with planned faults and a deadline. -/
def command (m : Mutation) (faults : List Fault := []) (deadline : Option Nat := none) : Command :=
  { mutation := m, env := env, users := users, ctx := { deadline := deadline }, faults := faults }

/-- A chain of three menus; the top one is refused a place below itself, the middle one moves to the
top with what is below it; then a role with a grant, and a user who has the role. -/
def commands : List Command :=
  [ .createMenu { name := "Orders", resources := [⟨"read", "Read", "GET", "/orders/:id"⟩] },
    .createMenu { name := "Archive", parentId := "mx" },
    .createMenu { name := "Year", parentId := "mxx" },
    .updateMenu "mx" { name := "Orders", parentId := "mxxx" },
    .updateMenu "mxx" { name := "Archive" },
    .createRole { name := "Clerk", grants := [⟨"mx", [], ["read"]⟩] },
    .createUser { username := "clerk", password := "secret", roleIds := ["rx"] } ].map command

/-- The world after the sample, served from an empty store. -/
def world : World MemoryStore := serveAll commands { store := {} }

theorem reached : ∃ used, Reached (fun q => q.faults = []) used world ∧
    naming.Covers used world.tables :=
  reached_serveAll (.start rfl rfl) (fun _ h => nomatch h) fun q hq => by
    obtain ⟨m, _, rfl⟩ := List.mem_map.1 hq
    exact ⟨rfl, rfl⟩

end Sample

end AccessAdmin
