import AccessAdmin.Proofs.Interleaving.Clients
import AccessAdmin.Proofs.Interleaving.Sweeps
import AccessAdmin.Proofs.Interleaving.Untouched

/-!
# How a rule fares in a crowd

Clients that serve mutations or make passes move in any order. Between moves no transaction is open,
the tables are sound and nothing in the engine is repeated. One rule is followed to the end: while
only one client touches it, its rows stay as they are, and the dealings of that client decide
whether it is held.

* `Crowd.Running`: the invariant; `Crowd.Running.moved` says what one move does.
* `Crowd.Running.settles`: the rest of a run in which one client alone touches a rule.
* `Crowd.Running.comes`: every client that ends well comes to what its job is.
-/

namespace AccessAdmin

open Policy Program Dealing

/-- A move that touches a rule. -/
def Turn.Touches (a : Turn) (x : Rule) : Prop :=
  ∃ k, a.sign = .engine k ∧ k.touches x = true

namespace Crowd

/-- Clients of some jobs, each before what its job comes to or after its transaction, in a world at
rest with sound tables. -/
structure Running (env : Surroundings) (names : Naming) (jobs : List Job) (c : Crowd) : Prop where
  rest : c.world.AtRest
  sound : ∃ used, c.world.tables.Sound used ∧ names.Covers used c.world.tables
  engine : c.world.engine.Orderly
  clients : ∀ {i : Nat} {p : Program Bool}, c.clients[i]? = some p →
    ∃ j, jobs[i]? = some j ∧ (p.Tail ∨ p.Ahead (j.Comes env))

/-- What one move of a client does, by the stage that the client is in. -/
inductive Moved (env : Surroundings) (jobs : List Job) (i : Nat) (turn : Turn) (c c' : Crowd)
    (p p' : Program Bool) : Prop where
  | after {ds : List Dealing} : p.Tail → p'.Tail → c'.world.tables = c.world.tables →
      c.world.engine.Through ds c'.world.engine →
      (∀ k, (∃ d ∈ ds, d.call = k) ↔ turn.sign = .engine k) →
      (∀ P ds' b, P c.world.tables → p'.Traces P ds' b → p.Traces P (ds ++ ds') b) →
      Moved env jobs i turn c c' p p'
  | before {j : Job} : ¬p.Tail → jobs[i]? = some j → p'.Ahead (j.Comes env) →
      c'.world.desk = c.world.desk → (∀ k, turn.sign ≠ .engine k) → Moved env jobs i turn c c' p p'
  | transacts {m : Mutation} : ¬p.Tail → p'.Tail → turn.sign = .store →
      c'.world.engine = c.world.engine → m.Transacts env c.world.tables c'.world.tables p' →
      Moved env jobs i turn c c' p p'

section Moves

variable {env : Surroundings} {names : Naming} {jobs : List Job} {c c' : Crowd} {i : Nat}
  {turn : Turn}

theorem tail_pass {s : Session} : ((Projection.all s).run.bind (closing s.id)).Tail :=
  (Steady.tail (Session.projects_all s)).bind tail_closing

theorem Running.moved (hc : c.Running env names jobs) (h : c.move env i = some (turn, c')) :
    ∃ p p', c.clients[i]? = some p ∧ c'.clients[i]? = some p' ∧ turn.client = i ∧
      c'.world.AtRest ∧ Moved env jobs i turn c c' p p' := by
  obtain ⟨p, e, p', hp, hm, rfl, hp'⟩ := client_move h
  obtain ⟨used, hsound, -⟩ := hc.sound
  refine ⟨p, p', hp, hp', rfl, ?_⟩
  by_cases htail : p.Tail
  · obtain ⟨htail', hrest, htables, ds, hthrough, hsign, htraces⟩ := htail.move hc.rest hm
    exact ⟨hrest, .after htail htail' htables hthrough hsign htraces⟩
  · obtain ⟨j, hj, hstage⟩ := hc.clients hp
    obtain hcomes | ⟨hahead, hrest, hdesk, hsign⟩ :=
      (hstage.resolve_left htail).move hc.rest hm
    · cases j with
      | serve m users ctx =>
        obtain ⟨hsign, hrest, hengine, htail', htransacts⟩ :=
          hcomes.move hc.rest ⟨used, hsound⟩ hm
        exact ⟨hrest, .transacts htail htail' hsign hengine htransacts⟩
      | reload =>
        -- A pass is a tail from its first question on.
        obtain rfl | ⟨s, rfl⟩ := hcomes
        · exact (htail trivial).elim
        · exact (htail tail_pass).elim
    · exact ⟨hrest, .before htail hj hahead hdesk hsign⟩

end Moves

/-! ## The invariant -/

/-- The tables after a transaction are sound, and their ids are taken from the naming. -/
theorem sound_transacts {env : Surroundings} {names : Naming} (henv : env.idName = names.name)
    {m : Mutation} {t t' : Store.Tables} {p : Program Bool} (ht : m.Transacts env t t' p)
    (h : ∃ used, t.Sound used ∧ names.Covers used t) :
    ∃ used, t'.Sound used ∧ names.Covers used t' := by
  obtain ⟨used, hsound, hcovers⟩ := h
  cases ht with
  | refused htables => exact ⟨used, htables ▸ hsound, htables ▸ hcovers⟩
  | committed hchanges =>
    exact ⟨t'.ids ++ used, hchanges.sound hsound (.of_named henv hcovers),
      hcovers.extend hsound hchanges.extends henv⟩

section Runs

variable {env : Surroundings} {names : Naming} {jobs : List Job} {c c' : Crowd} {i l : Nat}
  {turn : Turn} {order : List Nat} {log : List Turn} {x : Rule}

/-- Every move keeps the invariant. -/
theorem Running.move (henv : env.idName = names.name) (hc : c.Running env names jobs)
    (h : c.move env i = some (turn, c')) : c'.Running env names jobs := by
  obtain ⟨p, p', hp, hp', -, hrest, hmoved⟩ := hc.moved h
  have hothers {j : Job} (hj : jobs[i]? = some j)
      (hstage : p'.Tail ∨ p'.Ahead (j.Comes env)) {k : Nat} {q : Program Bool}
      (hq : c'.clients[k]? = some q) : ∃ j, jobs[k]? = some j ∧ (q.Tail ∨ q.Ahead (j.Comes env)) := by
    by_cases hk : k = i
    · subst hk
      obtain rfl : p' = q := Option.some.inj (hp'.symm.trans hq)
      exact ⟨j, hj, hstage⟩
    · exact hc.clients ((clients_move h hk).symm.trans hq)
  obtain ⟨j, hj, -⟩ := hc.clients hp
  cases hmoved with
  | after _ htail htables hthrough _ _ =>
    exact ⟨hrest, htables ▸ hc.sound, hthrough.orderly hc.engine, hothers hj (.inl htail)⟩
  | before _ hj hahead hdesk _ =>
    obtain ⟨htables, hengine⟩ := Desk.mk.inj hdesk
    exact ⟨hrest, htables ▸ hc.sound, hengine ▸ hc.engine, hothers hj (.inr hahead)⟩
  | transacts _ htail _ hengine htransacts =>
    exact ⟨hrest, sound_transacts henv htransacts hc.sound, hengine ▸ hc.engine,
      hothers hj (.inl htail)⟩

theorem Running.run (henv : env.idName = names.name) (hc : c.Running env names jobs)
    (h : play env order c = some (log, c')) : c'.Running env names jobs := by
  induction order generalizing c log with
  | nil =>
    obtain ⟨-, rfl⟩ := Prod.mk.inj (Option.some.inj h)
    exact hc
  | cons i order ih =>
    obtain ⟨turn, c₁, log₁, hm, hp, -⟩ := play_cons.1 h
    exact ih (hc.move henv hm) hp

/-- Clients of jobs that are about to move. -/
theorem running_hosting {w : World MemoryStore} (hi : w.Idle)
    (hs : ∃ used, w.tables.Sound used ∧ names.Covers used w.tables) (he : w.engine.Orderly) :
    (w.hosting jobs).Running env names jobs where
  rest := ⟨rfl, hi⟩
  sound := hs
  engine := he
  clients {i p} hp := by
    obtain ⟨j, hj, rfl⟩ := Option.map_eq_some_iff.1 ((List.getElem?_map ..).symm.trans hp)
    exact ⟨j, hj, .inr (j.ahead env)⟩

/-! ## The rest of a run -/

/-- After its transaction a client stays there. -/
theorem Moved.tail {p p' : Program Bool} (hm : Moved env jobs i turn c c' p p') (hp : p.Tail) :
    p'.Tail := by
  cases hm with
  | after _ htail _ _ _ _ => exact htail
  | before hno _ _ _ _ => exact (hno hp).elim
  | transacts hno _ _ _ _ => exact (hno hp).elim

/-- A move leaves a rule that it does not touch. -/
theorem Moved.holds_iff {p p' : Program Bool} (hm : Moved env jobs i turn c c' p p')
    (hno : ¬turn.Touches x) : c'.world.engine.Holds x ↔ c.world.engine.Holds x := by
  cases hm with
  | after _ _ _ hthrough hsign _ =>
    exact hthrough.holds_iff fun d hd => Bool.eq_false_iff.2 fun ht =>
      hno ⟨d.call, (hsign _).1 ⟨d, hd, rfl⟩, ht⟩
  | before _ _ _ hdesk _ => rw [(Desk.mk.inj hdesk).2]
  | transacts _ _ _ hengine _ => rw [hengine]

/-- A rule that nobody touches is held as before. -/
theorem Running.holds_untouched (henv : env.idName = names.name) (hc : c.Running env names jobs)
    (h : play env order c = some (log, c')) (hno : ∀ a ∈ log, ¬a.Touches x) :
    c'.world.engine.Holds x ↔ c.world.engine.Holds x := by
  induction order generalizing c log with
  | nil =>
    obtain ⟨-, rfl⟩ := Prod.mk.inj (Option.some.inj h)
    exact Iff.rfl
  | cons i order ih =>
    obtain ⟨turn, c₁, log₁, hm, hp, rfl⟩ := play_cons.1 h
    obtain ⟨_, _, -, -, -, -, hmoved⟩ := hc.moved hm
    exact (ih (hc.move henv hm) hp fun a ha => hno a (.tail _ ha)).trans
      (hmoved.holds_iff (hno turn (.head _)))

/-- What is left of a client after its transaction, told from the end: it asks tables like the last
ones, its calls are those in the log, and if it alone touches the rule, its dealings decide. -/
structure Ends (t : Store.Tables) (x : Rule) (e e' : Engine) (i l : Nat) (log : List Turn)
    (p : Program Bool) (ds : List Dealing) : Prop where
  traces : p.Traces (t.Like x) ds true
  calls : ∀ k, (∃ d ∈ ds, d.call = k) ↔ ⟨i, .engine k⟩ ∈ log
  told : i = l → (∀ d ∈ ds, d.call.Accepted d.reply) →
    Told x (e.Holds x) ds ∧ (leavesAll x (e.Holds x) ds ↔ e'.Holds x)

theorem Ends.touches {t : Store.Tables} {e e' : Engine} {p : Program Bool} {ds : List Dealing}
    (h : Ends t x e e' i l log p ds) :
    (∃ d ∈ ds, d.call.touches x = true) ↔ ∃ a ∈ log, a.client = i ∧ a.Touches x := by
  constructor
  · rintro ⟨d, hd, ht⟩
    exact ⟨_, (h.calls _).1 ⟨d, hd, rfl⟩, rfl, d.call, rfl, ht⟩
  · rintro ⟨⟨_, _⟩, ha, rfl, k, rfl, ht⟩
    obtain ⟨d, hd, rfl⟩ := (h.calls k).2 ha
    exact ⟨d, hd, ht⟩

/-- The move of another client changes nothing in what is left of a client. -/
theorem Ends.later {t : Store.Tables} {e e₁ e' : Engine} {p : Program Bool} {ds : List Dealing}
    (h : Ends t x e₁ e' i l log p ds) (hi : i ≠ turn.client)
    (hholds : i = l → (e₁.Holds x ↔ e.Holds x)) : Ends t x e e' i l (turn :: log) p ds where
  traces := h.traces
  calls k := by
    rw [h.calls k, List.mem_cons, or_iff_right]
    rintro rfl
    exact hi rfl
  told hl haccepted := propext (hholds hl) ▸ h.told hl haccepted

/-- The dealings of a client's own move come before those of what is left. -/
theorem Ends.own {t : Store.Tables} {e e₁ e' : Engine} {p p' : Program Bool}
    {ds ds' : List Dealing} (h : Ends t x e₁ e' turn.client l log p' ds')
    (htraces : p.Traces (t.Like x) (ds ++ ds') true) (he : e.Orderly) (hthrough : e.Through ds e₁)
    (hsign : ∀ k, (∃ d ∈ ds, d.call = k) ↔ turn.sign = .engine k) :
    Ends t x e e' turn.client l (turn :: log) p (ds ++ ds') where
  traces := htraces
  calls k := by
    simp only [List.mem_append, or_and_right, exists_or, hsign, h.calls, List.mem_cons]
    exact or_congr_left ⟨fun hs => by rw [← hs], fun ht => by rw [← ht]⟩
  told hl haccepted := by
    obtain ⟨hfirst, hrest⟩ := List.forall_mem_append.1 haccepted
    obtain ⟨htold, hleaves⟩ := hthrough.told (x := x) he hfirst
    obtain ⟨htold', hleaves'⟩ := h.told hl hrest
    rw [told_append, leavesAll_append, propext hleaves]
    exact ⟨⟨htold, htold'⟩, hleaves'⟩

/-- The transaction of a client that does not touch a rule any more leaves the rows of the rule. -/
theorem sameFor_transacts {m : Mutation} {t t' t'' : Store.Tables} {e e' : Engine}
    {p : Program Bool} {ds : List Dealing} (henv : env.idName = names.name)
    (hs : ∃ used, t.Sound used ∧ names.Covers used t) (ht : m.Transacts env t t' p)
    (hends : Ends t'' x e e' i l log p ds) (hsame : t'.SameFor t'' x)
    (hno : ∀ a ∈ log, a.client = i → ¬a.Touches x) : t.SameFor t'' x := by
  refine .trans ?_ hsame
  cases ht with
  | refused htables _ => exact htables ▸ .refl _ _
  | committed hchanges hdeals =>
    obtain ⟨used, hsound, hcovers⟩ := hs
    have hfresh : env.FreshFor used t := .of_named henv hcovers
    have hsound' := hchanges.sound hsound hfresh
    refine hchanges.sameFor hsound hfresh fun hconcerns => ?_
    -- The follow-up would touch the rule later on.
    have hhandles := (hdeals _ ds hends.traces).handles ⟨⟨_, hsound'⟩, hsame⟩
      (hchanges.apt hsound hsound')
    obtain ⟨a, ha, hclient, htouches⟩ := hends.touches.1 (hhandles.hit hconcerns).1
    exact hno a ha hclient htouches

/-- From when a client is the only one to touch a rule and after its transaction, the rows of the
rule stay as they are, and what is left of every client after its transaction is told from the
end. -/
theorem Running.settles (henv : env.idName = names.name) (hc : c.Running env names jobs)
    (h : play env order c = some (log, c')) (hserved : c'.Served)
    (hl : ∀ p, c.clients[l]? = some p → p.Tail) (honly : ∀ a ∈ log, a.Touches x → a.client = l) :
    c.world.tables.SameFor c'.world.tables x ∧
      ∀ i p, c.clients[i]? = some p → p.Tail → ∃ ds,
        Ends c'.world.tables x c.world.engine c'.world.engine i l log p ds := by
  induction order generalizing c log with
  | nil =>
    obtain ⟨rfl, rfl⟩ := Prod.mk.inj (Option.some.inj h)
    refine ⟨.refl _ _, fun i p hp _ => ⟨[], ?_⟩⟩
    obtain rfl := hserved.done hp
    exact ⟨⟨rfl, rfl⟩, fun k => ⟨fun ⟨_, hd, _⟩ => (nomatch hd), nofun⟩,
      fun _ _ => ⟨trivial, Iff.rfl⟩⟩
  | cons i order ih =>
    obtain ⟨turn, c₁, log₁, hm, hrun, rfl⟩ := play_cons.1 h
    obtain ⟨p, p', hp, hp', rfl, -, hmoved⟩ := hc.moved hm
    have hl₁ (q : Program Bool) (hq : c₁.clients[l]? = some q) : q.Tail := by
      by_cases hi : l = turn.client
      · subst hi
        exact Option.some.inj (hp'.symm.trans hq) ▸ hmoved.tail (hl p hp)
      · exact hl q ((clients_move hm hi).symm.trans hq)
    obtain ⟨hsame₁, hends₁⟩ := ih (hc.move henv hm) hrun hl₁ fun a ha => honly a (.tail _ ha)
    -- The other clients have the same left to do, and their calls come later.
    have hothers {j : Nat} {q : Program Bool} (hj : j ≠ turn.client)
        (hq : c.clients[j]? = some q) (htail : q.Tail) : ∃ ds,
        Ends c'.world.tables x c.world.engine c'.world.engine j l (turn :: log₁) q ds := by
      obtain ⟨ds, hends⟩ := hends₁ j q ((clients_move hm hj).trans hq) htail
      refine ⟨ds, hends.later hj fun hjl => hmoved.holds_iff fun ht => ?_⟩
      exact hj (hjl.trans (honly turn (.head _) ht).symm)
    -- A client that is not after its transaction is not asked for.
    have hmover {j : Nat} {q : Program Bool} (hno : ¬p.Tail) (hq : c.clients[j]? = some q)
        (htail : q.Tail) : j ≠ turn.client := by
      rintro rfl
      exact hno (Option.some.inj (hq.symm.trans hp) ▸ htail)
    cases hmoved with
    | @after ds _ htail' htables hthrough hsign htraces =>
      have hsame : c.world.tables.SameFor c'.world.tables x := htables ▸ hsame₁
      have hlike : c'.world.tables.Like x c.world.tables :=
        ⟨hc.sound.imp fun _ h => h.1, hsame⟩
      refine ⟨hsame, fun j q hq htail => ?_⟩
      by_cases hj : j = turn.client
      · subst hj
        obtain rfl : p = q := Option.some.inj (hp.symm.trans hq)
        obtain ⟨ds', hends⟩ := hends₁ _ p' hp' htail'
        exact ⟨ds ++ ds', hends.own (htraces _ _ _ hlike hends.traces) hc.engine hthrough hsign⟩
      · exact hothers hj hq htail
    | before hno _ _ hdesk _ =>
      obtain ⟨htables, -⟩ := Desk.mk.inj hdesk
      exact ⟨htables ▸ hsame₁, fun j q hq htail => hothers (hmover hno hq htail) hq htail⟩
    | transacts hno htail' _ _ htransacts =>
      obtain ⟨ds, hends⟩ := hends₁ _ p' hp' htail'
      refine ⟨sameFor_transacts henv hc.sound htransacts hends hsame₁ fun a ha hclient ht => ?_,
        fun j q hq htail => hothers (hmover hno hq htail) hq htail⟩
      -- It would be the client that alone touches the rule, and that one is after its transaction.
      exact hno (hl p ((hclient.symm.trans (honly a (.tail _ ha) ht)) ▸ hp))

/-! ## The way to the transaction -/

/-- A client that ends well comes to what its job is, and has not called the engine before. -/
theorem Running.comes (henv : env.idName = names.name) (hc : c.Running env names jobs)
    (h : play env order c = some (log, c')) (hserved : c'.Served) {p : Program Bool} {j : Job}
    (hp : c.clients[i]? = some p) (hahead : p.Ahead (j.Comes env)) :
    ∃ (log₁ : List Turn) (c₁ : Crowd) (p₁ : Program Bool) (turn : Turn) (c₂ : Crowd)
        (order₂ : List Nat) (log₂ : List Turn), log = log₁ ++ turn :: log₂ ∧
      (∀ a ∈ log₁, a.client = i → ∀ k, a.sign ≠ .engine k) ∧ c₁.Running env names jobs ∧
      c₁.clients[i]? = some p₁ ∧ j.Comes env p₁ ∧ c₁.move env i = some (turn, c₂) ∧
      play env order₂ c₂ = some (log₂, c') := by
  induction order generalizing c log p with
  | nil =>
    obtain ⟨-, rfl⟩ := Prod.mk.inj (Option.some.inj h)
    obtain rfl := hserved.done hp
    cases hahead with
    | here hcomes =>
      cases j with
      | serve m users ctx => exact (hcomes.open_ rfl).elim
      | reload => obtain hdone | ⟨s, hpass⟩ := hcomes <;> cases ‹_›
  | cons k order ih =>
    obtain ⟨turn, c₁, log₁, hm, hrun, rfl⟩ := play_cons.1 h
    by_cases hk : k = i
    · subst hk
      obtain ⟨q, e, p', hq, hmove, rfl, hp'⟩ := client_move hm
      obtain rfl : p = q := Option.some.inj (hp.symm.trans hq)
      obtain hcomes | ⟨hahead', -, -, hsign⟩ := hahead.move hc.rest hmove
      · exact ⟨[], c, p, _, c₁, order, log₁, rfl, nofun, hc, hp, hcomes, hm, hrun⟩
      · obtain ⟨log₂, c₂, p₂, turn, c₃, order₃, log₃, rfl, hno, hrest⟩ :=
          ih (hc.move henv hm) hrun hp' hahead'
        refine ⟨_ :: log₂, c₂, p₂, turn, c₃, order₃, log₃, rfl, ?_, hrest⟩
        exact List.forall_mem_cons.2 ⟨fun _ => hsign, hno⟩
    · obtain ⟨q, e, p', hq, hmove, rfl, hp'⟩ := client_move hm
      obtain ⟨log₂, c₂, p₂, turn, c₃, order₃, log₃, rfl, hno, hrest⟩ :=
        ih (hc.move henv hm) hrun ((clients_move hm (Ne.symm hk)).trans hp) hahead
      refine ⟨_ :: log₂, c₂, p₂, turn, c₃, order₃, log₃, rfl, ?_, hrest⟩
      exact List.forall_mem_cons.2 ⟨fun hi => (hk hi).elim, hno⟩

end Runs

end Crowd

end AccessAdmin
