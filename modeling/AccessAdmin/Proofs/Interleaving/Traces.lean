import AccessAdmin.Proofs.Interleaving.Dealings
import AccessAdmin.Proofs.Interleaving.Untouched

/-!
# Projections beside others

While a projection runs, others may commit and may call the engine. All that is known of the tables
at each of its questions is that they are sound and have the same rows for one rule as the tables
that are there in the end. This is enough for the rule: the projection leaves it as those tables
want it.

* `Program.Traces`: the dealings and the answer of a program, when each of its questions is
  answered from tables of some sort.
* `Store.Tables.Like`: sound tables with the same rows for a rule.
* `Mutation.Deals.handles`: what the projections after a commit do to a rule.
-/

namespace AccessAdmin

open Policy

/-- What a step may be answered, and the dealing with the engine that it is. Questions are answered
from tables of the sort `P`. -/
def Effect.Shows (P : Store.Tables → Prop) : (e : Effect) → e.Reply → List Dealing → Prop
  | .call _ (.read q), r, ds => (∃ t, P t ∧ r = t.answer q) ∧ ds = []
  | .policy c, r, ds => ds = [⟨c, r⟩]
  | .closeSession _, _, ds | .count _, _, ds => ds = []
  | _, _, _ => False

namespace Program

variable {α β ε : Type} {P : Store.Tables → Prop} {ds : List Dealing}

/-- A program can come to an answer with some dealings, when its questions are answered from tables
of the sort `P`. -/
def Traces (P : Store.Tables → Prop) : Program α → List Dealing → α → Prop
  | done a, ds, b => ds = [] ∧ b = a
  | ask e k, ds, b => ∃ r ds₁ ds₂, e.Shows P r ds₁ ∧ Traces P (k r) ds₂ b ∧ ds = ds₁ ++ ds₂
  | askBy _ _ _, _, _ => False

theorem traces_bind {p : Program α} {f : α → Program β} {b : β} :
    (p.bind f).Traces P ds b ↔
      ∃ a ds₁ ds₂, p.Traces P ds₁ a ∧ (f a).Traces P ds₂ b ∧ ds = ds₁ ++ ds₂ := by
  induction p generalizing ds with
  | done a =>
    constructor
    · exact fun h => ⟨a, [], ds, ⟨rfl, rfl⟩, h, rfl⟩
    · rintro ⟨_, _, _, ⟨rfl, rfl⟩, h, rfl⟩
      exact h
  | ask e k ih =>
    simp only [bind, Traces, ih]
    constructor
    · rintro ⟨r, ds₁, _, hr, ⟨a, ds₂, ds₃, hk, hf, rfl⟩, rfl⟩
      exact ⟨a, ds₁ ++ ds₂, ds₃, ⟨r, ds₁, ds₂, hr, hk, rfl⟩, hf, (List.append_assoc _ _ _).symm⟩
    · rintro ⟨a, _, ds₃, ⟨r, ds₁, ds₂, hr, hk, rfl⟩, hf, rfl⟩
      exact ⟨r, ds₁, ds₂ ++ ds₃, hr, ⟨a, ds₂, ds₃, hk, hf, rfl⟩, List.append_assoc _ _ _⟩
  | askBy l e k _ => simp only [bind, Traces, false_and, exists_false]

theorem traces_perform {e : Effect} {r : e.Reply} :
    (perform e).Traces P ds r ↔ e.Shows P r ds := by
  constructor
  · rintro ⟨_, ds₁, _, hr, ⟨rfl, rfl⟩, rfl⟩
    rwa [List.append_nil]
  · exact fun hr => ⟨r, ds, [], hr, ⟨rfl, rfl⟩, (List.append_nil ds).symm⟩

theorem traces_pure {a b : α} (h : (pure a : ExceptT ε Program α).run.Traces P ds (.ok b)) :
    ds = [] ∧ b = a :=
  ⟨h.1, Except.ok.inj h.2⟩

theorem traces_seq_ok {x : ExceptT ε Program α} {f : α → ExceptT ε Program β} {b : β} :
    (x >>= f).run.Traces P ds (.ok b) ↔
      ∃ a ds₁ ds₂, x.run.Traces P ds₁ (.ok a) ∧ (f a).run.Traces P ds₂ (.ok b) ∧
        ds = ds₁ ++ ds₂ := by
  rw [ExceptT.run_bind, Program.bind_eq, traces_bind]
  constructor
  · rintro ⟨e | a, ds₁, ds₂, hx, hf, rfl⟩
    · cases hf.2
    · exact ⟨a, ds₁, ds₂, hx, hf, rfl⟩
  · rintro ⟨a, ds₁, ds₂, hx, hf, rfl⟩
    exact ⟨.ok a, ds₁, ds₂, hx, hf, rfl⟩

end Program

open Program Dealing

namespace Projecting

variable {α β : Type} {P : Store.Tables → Prop} {ds : List Dealing} {s : Session}

theorem traces_ask {q : Store.Read} [q.Fits] {a : q.Reply}
    (h : (ask s q).run.Traces P ds (.ok a)) : ds = [] ∧ ∃ t, P t ∧ a = t.ask q := by
  obtain ⟨_, _, _, ⟨⟨t, ht, hr⟩, rfl⟩, hdone, rfl⟩ := h
  rw [Store.Tables.answer_fits] at hr
  obtain rfl := hr
  obtain ⟨rfl, ha⟩ := hdone
  exact ⟨rfl, t, ht, Except.ok.inj ha⟩

/-- What follows a question. -/
theorem traces_ask_then {q : Store.Read} [q.Fits] {f : q.Reply → Projecting β} {b : β}
    (h : (ask s q >>= f).run.Traces P ds (.ok b)) :
    ∃ t, P t ∧ (f (t.ask q)).run.Traces P ds (.ok b) := by
  obtain ⟨_, _, _, hask, hf, rfl⟩ := traces_seq_ok.1 h
  obtain ⟨rfl, t, ht, rfl⟩ := traces_ask hask
  exact ⟨t, ht, hf⟩

/-- A call on the engine in a projection that comes to an end was accepted. -/
theorem traces_engine {p : Program (Except EngineError Bool)}
    (h : (engine p).run.Traces P ds (.ok ())) : ∃ b, p.Traces P ds (.ok b) := by
  rw [engine, ExceptT.run_mk, Program.bind_eq, traces_bind] at h
  obtain ⟨e | b, ds₁, _, hp, ⟨rfl, hr⟩, rfl⟩ := h
  · cases hr
  · rw [List.append_nil]
    exact ⟨b, hp⟩

theorem traces_counted {subject : Subject} {work : Projecting α} {a : α}
    (h : (counted subject work).run.Traces P ds (.ok a)) : work.run.Traces P ds (.ok a) := by
  rw [counted, ExceptT.run_mk, Program.bind_eq, traces_bind] at h
  obtain ⟨_, ds₁, _, hw, ⟨_, _, _, rfl, ⟨rfl, rfl⟩, rfl⟩, rfl⟩ := h
  rw [List.append_nil, List.append_nil]
  exact hw

theorem traces_discard {work : Projecting α} (h : (discard work).run.Traces P ds (.ok ())) :
    ∃ a, work.run.Traces P ds (.ok a) := by
  replace h : ((fun _ => ()) <$> work).run.Traces P ds (.ok ()) := h
  rw [map_eq_pure_bind] at h
  obtain ⟨a, _, _, hw, hp, rfl⟩ := traces_seq_ok.1 h
  obtain ⟨rfl, -⟩ := traces_pure hp
  exact ⟨a, by rwa [List.append_nil]⟩

theorem traces_afterCommit {work : Projecting α}
    (h : (afterCommit work).run.Traces P ds (.ok ())) : ∃ a, work.run.Traces P ds (.ok a) := by
  rw [afterCommit, ExceptT.run_mk, Program.bind_eq, traces_bind] at h
  obtain ⟨e | a, ds₁, _, hw, ⟨rfl, hr⟩, rfl⟩ := h
  · cases hr
  · exact ⟨a, by rwa [List.append_nil]⟩

/-- Work that comes to an end was one accepted call on the engine. -/
def Makes (P : Store.Tables → Prop) (work : Projecting Unit) (c : Policy.Call) : Prop :=
  ∀ ds, work.run.Traces P ds (.ok ()) → ∃ d, ds = [d] ∧ d.call = c ∧ d.call.Accepted d.reply

theorem makes_engine {p : Program (Except EngineError Bool)} {c : Policy.Call}
    (hp : ∀ ds b, p.Traces P ds (.ok b) → ∃ d, ds = [d] ∧ d.call = c ∧ d.call.Accepted d.reply) :
    Makes P (engine p) c := fun ds h =>
  let ⟨b, hb⟩ := traces_engine h
  hp ds b hb

theorem makes_addPermission (subject path method : String) :
    Makes P (engine (perform (.policy (.addPermission subject path method))))
      (.addPermission subject path method) :=
  makes_engine fun _ b h => ⟨_, traces_perform.1 h, rfl, b, rfl⟩

theorem makes_removePermissions (subject : String) :
    Makes P (engine (perform (.policy (.removePermissions subject)))) (.removePermissions subject) :=
  makes_engine fun _ b h => ⟨_, traces_perform.1 h, rfl, b, rfl⟩

theorem makes_addMembership (user role : String) :
    Makes P (engine (perform (.policy (.addMembership user role)))) (.addMembership user role) :=
  makes_engine fun _ b h => ⟨_, traces_perform.1 h, rfl, b, rfl⟩

theorem makes_removeMemberships (user : String) :
    Makes P (engine (perform (.policy (.removeMemberships user)))) (.removeMemberships user) :=
  makes_engine fun _ b h => ⟨_, traces_perform.1 h, rfl, b, rfl⟩

theorem makes_removeRoleMemberships (role : String) :
    Makes P (engine (perform (.policy (.removeRoleMemberships role))))
      (.removeRoleMemberships role) :=
  makes_engine fun _ b h => ⟨_, traces_perform.1 h, rfl, b, rfl⟩

/-- One call for each item of a list. -/
theorem traces_calls {items : List α} {act : α → Projecting Unit} {c : α → Policy.Call}
    (hact : ∀ y ∈ items, Makes P (act y) (c y))
    (h : (forAll items act).run.Traces P ds (.ok ())) :
    ds.map Dealing.call = items.map c ∧ ∀ d ∈ ds, d.call.Accepted d.reply := by
  induction items generalizing ds with
  | nil =>
    obtain ⟨rfl, -⟩ := traces_pure h
    exact ⟨rfl, fun _ hd => nomatch hd⟩
  | cons y rest ih =>
    obtain ⟨_, ds₁, ds₂, hy, hrest, rfl⟩ := traces_seq_ok.1 h
    obtain ⟨d, rfl, hcall, haccepted⟩ := hact y (.head _) ds₁ hy
    obtain ⟨hcalls, hall⟩ := ih (fun z hz => hact z (.tail _ hz)) hrest
    refine ⟨?_, List.forall_mem_cons.2 ⟨haccepted, hall⟩⟩
    simp only [List.cons_append, List.nil_append, List.map_cons, hcall, hcalls]

variable {x : Rule} {wanted : Prop} {C : α → Prop}

/-- Something is done for the items of a list. -/
theorem handles_forAll {items : List α} {act : α → Projecting Unit}
    (hact : ∀ y ∈ items, ∀ ds, (act y).run.Traces P ds (.ok ()) → Handles x wanted (C y) ds)
    (h : (forAll items act).run.Traces P ds (.ok ())) :
    Handles x wanted (∃ y ∈ items, C y) ds := by
  induction items generalizing ds with
  | nil =>
    obtain ⟨rfl, -⟩ := traces_pure h
    exact Handles.nil.congr ⟨False.elim, fun ⟨_, hy, _⟩ => nomatch hy⟩
  | cons y rest ih =>
    obtain ⟨_, ds₁, ds₂, hy, hrest, rfl⟩ := traces_seq_ok.1 h
    have hfirst := hact y (.head _) ds₁ hy
    refine (hfirst.append (ih (fun z hz => hact z (.tail _ hz)) hrest)).congr ?_
    simp only [List.exists_mem_cons_iff]

theorem handles_total {items : List α} {act : α → Projecting Nat} {n : Nat}
    (hact : ∀ y ∈ items, ∀ ds n, (act y).run.Traces P ds (.ok n) → Handles x wanted (C y) ds)
    (h : (total items act).run.Traces P ds (.ok n)) :
    Handles x wanted (∃ y ∈ items, C y) ds := by
  induction items generalizing ds n with
  | nil =>
    obtain ⟨rfl, -⟩ := traces_pure h
    exact Handles.nil.congr ⟨False.elim, fun ⟨_, hy, _⟩ => nomatch hy⟩
  | cons y rest ih =>
    obtain ⟨_, ds₁, _, hy, hothers, rfl⟩ := traces_seq_ok.1 h
    obtain ⟨_, ds₂, _, hrest, hend, rfl⟩ := traces_seq_ok.1 hothers
    obtain ⟨rfl, -⟩ := traces_pure hend
    rw [List.append_nil]
    have hfirst := hact y (.head _) ds₁ _ hy
    refine (hfirst.append (ih (fun z hz => hact z (.tail _ hz)) hrest)).congr ?_
    simp only [List.exists_mem_cons_iff]

/-- One call that removes what is not wanted. -/
theorem handles_removal {work : Projecting Unit} {c : Policy.Call} {C : Prop}
    (hwork : Makes P work c) (hc : c.adds = false) (ht : c.touches x = true ↔ C)
    (hwanted : C → ¬wanted) (h : work.run.Traces P ds (.ok ())) : Handles x wanted C ds := by
  obtain ⟨d, rfl, rfl, haccepted⟩ := hwork ds h
  exact .removal hc haccepted ht hwanted

/-- One call that removes, and then one for each item of a list that adds what is wanted. -/
theorem handles_replacement {items : List α} {remove : Projecting Unit}
    {act : α → Projecting Unit} {c₀ : Policy.Call} {c : α → Policy.Call} {C : Prop} {n m : Nat}
    (hremove : Makes P remove c₀) (hact : ∀ y ∈ items, Makes P (act y) (c y))
    (hc₀ : c₀.adds = false) (ht₀ : c₀.touches x = true ↔ C)
    (hc : ∀ y ∈ items, (c y).adds = true ∧ ((c y).touches x = true → C))
    (hwanted : C → ((∃ y ∈ items, (c y).touches x = true) ↔ wanted))
    (h : (do remove; forAll items act; return n : Projecting Nat).run.Traces P ds (.ok m)) :
    Handles x wanted C ds := by
  obtain ⟨_, ds₁, _, hfirst, hrest, rfl⟩ := traces_seq_ok.1 h
  obtain ⟨_, ds₂, _, hadds, hend, rfl⟩ := traces_seq_ok.1 hrest
  obtain ⟨rfl, -⟩ := traces_pure hend
  obtain ⟨d, rfl, rfl, haccepted⟩ := hremove ds₁ hfirst
  obtain ⟨hcalls, hall⟩ := traces_calls hact hadds
  have hcall (k : Policy.Call) : (∃ d ∈ ds₂, d.call = k) ↔ ∃ y ∈ items, c y = k := by
    rw [← List.mem_map, hcalls, List.mem_map]
  rw [List.append_nil, List.singleton_append]
  refine .anew hc₀ haccepted ht₀ (fun d hd => ?_) fun hC => Iff.trans ⟨?_, ?_⟩ (hwanted hC)
  · obtain ⟨y, hy, he⟩ := (hcall d.call).1 ⟨d, hd, rfl⟩
    exact ⟨he ▸ (hc y hy).1, hall d hd, he ▸ (hc y hy).2⟩
  · rintro ⟨d, hd, ht⟩
    obtain ⟨y, hy, he⟩ := (hcall d.call).1 ⟨d, hd, rfl⟩
    exact ⟨y, hy, he ▸ ht⟩
  · rintro ⟨y, hy, ht⟩
    obtain ⟨d, hd, he⟩ := (hcall (c y)).2 ⟨y, hy, rfl⟩
    exact ⟨d, hd, he ▸ ht⟩

end Projecting

/-! ## Projections -/

/-- Sound tables with the same rows for a rule. -/
def Store.Tables.Like (t : Tables) (x : Rule) (u : Tables) : Prop :=
  (∃ used, u.Sound used) ∧ u.SameFor t x

section Projections

open Projecting

variable {t : Store.Tables} {x : Rule} {s : Session} {id : String} {ds : List Dealing}

/-- Tables like sound ones come to a permission by their grants and resources. -/
theorem Store.Tables.Like.entitles_iff {u v : Store.Tables} {p : Permission}
    (hu : t.Like (.permission p) u) (hv : t.Like (.permission p) v) :
    (∃ g ∈ u.grantsOf p.subject, ∃ y ∈ v.resourcesOf p.subject, g.Yields y p) ↔
      t.Entitles p := by
  obtain ⟨⟨_, hsound⟩, hsame⟩ := hu
  rw [show t.Entitles p ↔ u.Entitles p from hsame.symm.warrants_iff, hsound.entitles_iff,
    Store.Tables.yields_iff, hv.2.2.2, ← hsame.2.2]

/-- The rules that a role's grants in some tables and resources in others come to. -/
theorem mem_rules_of_like {u v : Store.Tables} {path method : String}
    (hu : t.Like (.permission ⟨id, path, method⟩) u)
    (hv : t.Like (.permission ⟨id, path, method⟩) v) :
    (path, method) ∈ roleRules (u.roleMenus.filter (·.roleId == id))
        (v.menuResources.filter
          (((u.roleMenus.filter (·.roleId == id)).map Grant.menuId).contains ·.menuId)) ↔
      t.Entitles ⟨id, path, method⟩ := by
  rw [← hu.entitles_iff hv, mem_roleRules]
  have hgrants : u.grantsOf id = v.grantsOf id := hu.2.2.1.trans hv.2.2.1.symm
  have hmem (g : Grant) : g ∈ u.roleMenus.filter (·.roleId == id) ↔ g ∈ u.grantsOf id := by
    rw [List.mem_filter, beq_iff_eq]
    rfl
  have hresource (y : MenuResource) :
      y ∈ v.menuResources.filter
          (((u.roleMenus.filter (·.roleId == id)).map Grant.menuId).contains ·.menuId) ↔
        y ∈ v.resourcesOf id := by
    simp only [List.mem_filter, List.contains_iff_mem, List.mem_map, hmem, hgrants]
    rfl
  simp only [hmem, hresource]
  refine exists_congr fun g => and_congr_right fun hg => ?_
  rw [show g.roleId = id from hg.2]

/-- The calls that set the permissions of a role. -/
theorem handles_setRules {rules : List (String × String)} {n m : Nat} (hid : id ≠ "")
    (hrules : ∀ path method, x = .permission ⟨id, path, method⟩ →
      ((path, method) ∈ rules ↔ t.Entitles ⟨id, path, method⟩))
    (h : (do
      Projecting.engine (Program.perform (.policy (.removePermissions id)))
      Projecting.forAll rules fun r =>
        Projecting.engine (Program.perform (.policy (.addPermission id r.1 r.2)))
      return n : Projecting Nat).run.Traces (t.Like x) ds (.ok m)) :
    Handles x (t.Warrants x) ((FollowUp.roles [id]).Concerns x) ds := by
  refine handles_replacement (makes_removePermissions id)
    (fun r _ => makes_addPermission id r.1 r.2) rfl ?_ (fun r _ => ⟨rfl, fun ht => ?_⟩)
    (fun hc => ?_) h
  · cases x with
    | permission p =>
      show Engine.fieldMatches id p.subject = true ↔ p.subject ∈ [id]
      rw [Engine.fieldMatches_iff hid, List.mem_singleton]
    | membership m => exact iff_of_false Bool.false_ne_true not_false
  · cases x with
    | permission p =>
      obtain rfl := beq_iff_eq.1 ht
      exact List.mem_singleton.2 rfl
    | membership m => cases ht
  · cases x with
    | permission p =>
      obtain ⟨subject, path, method⟩ := p
      obtain rfl : subject = id := List.mem_singleton.1 hc
      refine Iff.trans ⟨?_, fun hr => ⟨_, hr, beq_self_eq_true _⟩⟩ (hrules path method rfl)
      rintro ⟨r, hr, ht⟩
      obtain ⟨-, rfl, rfl⟩ := Permission.mk.inj (beq_iff_eq.1 ht)
      exact hr
    | membership m => exact hc.elim

theorem handles_role (hid : id ≠ "") {n : Nat}
    (h : (Projection.role s id).run.Traces (t.Like x) ds (.ok n)) :
    Handles x (t.Warrants x) ((FollowUp.roles [id]).Concerns x) ds := by
  obtain ⟨u, hu, h⟩ := traces_ask_then (traces_counted h)
  have hgrants : u.ask (.listRoleMenus [id]) = u.roleMenus.filter (·.roleId == id) :=
    Store.ask_ofOwner u.roleMenus Grant.roleId id
  simp only [hgrants] at h
  split at h
  · rename_i hempty
    rw [List.isEmpty_iff] at hempty
    rw [pure_bind] at h
    refine handles_setRules hid (fun path method hx => ?_) h
    subst hx
    -- Without grants nothing is asked, and no resource could come to a rule.
    rw [← mem_rules_of_like hu hu, List.map_eq_nil_iff.1 hempty]
    rfl
  · obtain ⟨v, hv, h⟩ := traces_ask_then h
    refine handles_setRules hid (fun path method hx => ?_) h
    subst hx
    rw [hgrants]
    exact mem_rules_of_like hu hv

/-- The assignments of a user are set as memberships. -/
theorem handles_user (hid : id ≠ "")
    (henabled : (FollowUp.user id).Concerns x → ∃ u ∈ t.users, u.id = id ∧ u.status = .enabled)
    {n : Nat} (h : (Projection.user s id).run.Traces (t.Like x) ds (.ok n)) :
    Handles x (t.Warrants x) ((FollowUp.user id).Concerns x) ds := by
  obtain ⟨u, hu, h⟩ := traces_ask_then (traces_counted h)
  have hedges : u.ask (.listUserRoles [id]) = u.userRoles.filter (·.userId == id) :=
    Store.ask_ofOwner u.userRoles Assignment.userId id
  rw [hedges] at h
  refine handles_replacement (makes_removeMemberships id)
    (fun a _ => makes_addMembership id a.roleId) rfl ?_ (fun a _ => ⟨rfl, fun ht => ?_⟩)
    (fun hc => ?_) h
  · cases x with
    | permission p => exact iff_of_false Bool.false_ne_true not_false
    | membership m => exact Engine.fieldMatches_iff hid
  · cases x with
    | permission p => cases ht
    | membership m =>
      obtain rfl := beq_iff_eq.1 ht
      rfl
  · cases x with
    | permission p => exact hc.elim
    | membership m =>
      obtain ⟨user, role⟩ := m
      obtain rfl : user = id := hc
      show _ ↔ t.Enrolls ⟨user, role⟩
      rw [Store.Tables.Enrolls, and_iff_right (henabled rfl), ← hu.2.2]
      constructor
      · rintro ⟨⟨userId, roleId⟩, hmem, ht⟩
        obtain ⟨-, rfl⟩ := Membership.mk.inj (beq_iff_eq.1 ht)
        obtain ⟨hmem, huser⟩ := List.mem_filter.1 hmem
        rwa [← show userId = user from beq_iff_eq.1 huser]
      · exact fun ha => ⟨⟨user, role⟩, List.mem_filter.2 ⟨ha, beq_self_eq_true user⟩,
          beq_self_eq_true _⟩

theorem handles_removeUser (hid : id ≠ "")
    (hgone : (FollowUp.dropUser id).Concerns x → ¬t.Warrants x)
    (h : (Projection.removeUser id).run.Traces (t.Like x) ds (.ok ())) :
    Handles x (t.Warrants x) ((FollowUp.dropUser id).Concerns x) ds := by
  refine handles_removal (makes_removeMemberships id) rfl ?_ hgone h
  cases x with
  | permission p => exact iff_of_false Bool.false_ne_true not_false
  | membership m => exact Engine.fieldMatches_iff hid

theorem handles_removePermissions (hid : id ≠ "")
    (hgone : ∀ p, x = .permission p → p.subject = id → ¬t.Warrants x)
    (h : (Projecting.engine (Program.perform (.policy (.removePermissions id)))).run.Traces
      (t.Like x) ds (.ok ())) :
    Handles x (t.Warrants x) (∃ p, x = .permission p ∧ p.subject = id) ds := by
  refine handles_removal (makes_removePermissions id) rfl ?_ (fun ⟨p, hx, hp⟩ => hgone p hx hp) h
  cases x with
  | permission p =>
    exact (Engine.fieldMatches_iff hid).trans
      ⟨fun hp => ⟨p, rfl, hp⟩, fun ⟨_, hx, hp⟩ => Rule.permission.inj hx ▸ hp⟩
  | membership m => exact iff_of_false Bool.false_ne_true fun ⟨_, hx, _⟩ => nomatch hx

theorem handles_removeRoleMemberships (hid : id ≠ "")
    (hgone : ∀ m, x = .membership m → m.role = id → ¬t.Warrants x)
    (h : (Projecting.engine (Program.perform (.policy (.removeRoleMemberships id)))).run.Traces
      (t.Like x) ds (.ok ())) :
    Handles x (t.Warrants x) (∃ m, x = .membership m ∧ m.role = id) ds := by
  refine handles_removal (makes_removeRoleMemberships id) rfl ?_
    (fun ⟨m, hx, hm⟩ => hgone m hx hm) h
  cases x with
  | permission p => exact iff_of_false Bool.false_ne_true fun ⟨_, hx, _⟩ => nomatch hx
  | membership m =>
    exact (Engine.fieldMatches_iff hid).trans
      ⟨fun hm => ⟨m, rfl, hm⟩, fun ⟨_, hx, hm⟩ => Rule.membership.inj hx ▸ hm⟩

theorem handles_removeRole (hid : id ≠ "")
    (hgone : (FollowUp.dropRole id).Concerns x → ¬t.Warrants x)
    (h : (Projection.removeRole id).run.Traces (t.Like x) ds (.ok ())) :
    Handles x (t.Warrants x) ((FollowUp.dropRole id).Concerns x) ds := by
  obtain ⟨_, _, _, hps, hms, rfl⟩ := traces_seq_ok.1 h
  have hfirst := handles_removePermissions hid (fun p hx hp => hgone (hx ▸ hp)) hps
  have hsecond := handles_removeRoleMemberships hid (fun m hx hm => hgone (hx ▸ hm)) hms
  refine (hfirst.append hsecond).congr ?_
  cases x with
  | permission p =>
    exact ⟨fun h => h.elim (fun ⟨_, hx, hp⟩ => Rule.permission.inj hx ▸ hp)
      fun ⟨_, hx, _⟩ => (nomatch hx), fun h => .inl ⟨p, rfl, h⟩⟩
  | membership m =>
    exact ⟨fun h => h.elim (fun ⟨_, hx, _⟩ => (nomatch hx))
      fun ⟨_, hx, hm⟩ => Rule.membership.inj hx ▸ hm, fun h => .inr ⟨m, rfl, h⟩⟩

/-! ## Follow-ups -/

theorem FollowUp.concerns_roles {ids : List String} :
    (FollowUp.roles ids).Concerns x ↔ ∃ id ∈ ids, (FollowUp.roles [id]).Concerns x := by
  cases x with
  | permission p =>
    simp only [FollowUp.Concerns, FollowUp.TouchesRule, List.mem_singleton, exists_eq_right']
  | membership m =>
    simp only [FollowUp.Concerns, FollowUp.TouchesMembership, and_false, exists_false]

theorem handles_roles {ids : List String} (hids : ∀ id ∈ ids, id ≠ "")
    (h : ((FollowUp.roles ids).program s).run.Traces (t.Like x) ds (.ok ())) :
    Handles x (t.Warrants x) ((FollowUp.roles ids).Concerns x) ds :=
  (handles_forAll (fun id hid ds h => by
    obtain ⟨n, h⟩ := traces_discard h
    exact handles_role (hids id hid) h) h).congr FollowUp.concerns_roles.symm

/-- The projections of a follow-up leave its rules as the tables in the end want them. -/
theorem handles_followUp {f : FollowUp} {t' : Store.Tables} (ht : t.Like x t') (hf : f.Apt t')
    (h : (f.program s).run.Traces (t.Like x) ds (.ok ())) :
    Handles x (t.Warrants x) (f.Concerns x) ds := by
  obtain ⟨⟨used, hsound⟩, hsame⟩ := ht
  cases f with
  | nothing =>
    obtain ⟨rfl, -⟩ := traces_pure h
    refine Handles.nil.congr ⟨False.elim, fun hc => ?_⟩
    cases x <;> exact hc
  | roles ids => exact handles_roles hf h
  | dropRole id =>
    refine handles_removeRole hf.1 (fun hc hw => ?_) h
    have hw' := hsame.warrants_iff.2 hw
    cases x with
    | permission p =>
      obtain ⟨⟨r, hr, he⟩, -⟩ := hw'
      exact hf.2 r hr (he.trans hc)
    | membership m =>
      obtain ⟨r, hr, he⟩ := List.mem_map.1 (hsound.assigned _ hw'.2).2
      exact hf.2 r hr (he.trans hc)
  | user id =>
    obtain ⟨u, hu, rfl, hstatus⟩ := hf
    obtain ⟨n, h⟩ := traces_discard h
    refine handles_user (hsound.user_ne_empty hu) (fun hc => ?_) h
    cases x with
    | permission p => exact hc.elim
    | membership m =>
      have hm : m.user = u.id := hc
      obtain ⟨v, hv, he, hon⟩ := hsame.1.1 ⟨u, hu, hm.symm, hstatus⟩
      exact ⟨v, hv, he.trans hm, hon⟩
  | dropUser id =>
    refine handles_removeUser hf.1 (fun hc hw => ?_) h
    have hw' := hsame.warrants_iff.2 hw
    cases x with
    | permission p => exact hc
    | membership m =>
      obtain ⟨⟨u, hu, he, hstatus⟩, -⟩ := hw'
      exact hf.2 u hu (he.trans hc) hstatus

end Projections

/-- The dealings of the projections that follow a commit. Which roles grant an updated menu is asked
only then. -/
def Mutation.Deals (P : Store.Tables → Prop) (t t' : Store.Tables) :
    (m : Mutation) → m.Result → List Dealing → Prop
  | updateMenu id _, _, ds =>
    ∃ s : Session, (discard (Projection.menuGrantees s id)).run.Traces P ds (.ok ())
  | m, a, ds => ∃ s : Session, ((m.followUp t t' a).program s).run.Traces P ds (.ok ())

/-- What the projections after a commit do to a rule, if from the commit on all tables are like
those in the end. -/
theorem Mutation.Deals.handles {t t₀ t' : Store.Tables} {x : Rule} {m : Mutation} {a : m.Result}
    {ds : List Dealing} (hd : m.Deals (t.Like x) t₀ t' a ds) (ht : t.Like x t')
    (hf : (m.followUp t₀ t' a).Apt t') :
    Handles x (t.Warrants x) ((m.followUp t₀ t' a).Concerns x) ds := by
  cases m with
  | updateMenu id _ =>
    obtain ⟨s, h⟩ := hd
    obtain ⟨n, h⟩ := Projecting.traces_discard h
    obtain ⟨u, hu, h⟩ := Projecting.traces_ask_then h
    obtain ⟨_, _, _, hall, hend, rfl⟩ := traces_seq_ok.1 h
    obtain ⟨rfl, -⟩ := traces_pure hend
    rw [List.append_nil]
    obtain ⟨⟨used, hsound⟩, hsame⟩ := hu
    have hapt : (FollowUp.roles (u.granting id)).Apt u := apt_granting hsound
    refine (handles_roles hapt hall).congr ?_
    cases x with
    | permission p =>
      -- The grants of the subject are the same as right after the commit.
      have hgrants : u.grantsOf p.subject = t'.grantsOf p.subject :=
        hsame.2.1.trans ht.2.2.1.symm
      have hiff (v : Store.Tables) :
          p.subject ∈ v.granting id ↔ ∃ g ∈ v.grantsOf p.subject, g.menuId = id := by
        simp only [Store.Tables.granting, List.mem_map, List.mem_filter, beq_iff_eq]
        exact exists_congr fun g => and_right_comm
      show p.subject ∈ u.granting id ↔ p.subject ∈ t'.granting id
      rw [hiff, hiff, hgrants]
    | membership m => exact Iff.rfl
  | createMenu _ | deleteMenu _ | seedMenus _ | createRole _ | updateRole _ _ | deleteRole _
  | createUser _ | updateUser _ _ | deleteUser _ | updateStatus _ _ | updatePassword _ _
  | changeOwnPassword _ _ _ =>
    obtain ⟨s, h⟩ := hd
    exact handles_followUp ht hf h

end AccessAdmin
