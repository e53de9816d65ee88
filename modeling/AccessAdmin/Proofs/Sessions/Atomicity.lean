import AccessAdmin.Proofs.Sessions.Company

/-!
# Transactions are atomic

Work in a transaction reads and writes, may do next whatever it likes about the answers, may run
transactions inside the transaction to any depth, and ends well or with an error. Among other
sessions, and wherever the deadline cuts it short, a transaction either puts all that the work did
in force or nothing of it, and nobody sees anything in between.

* `Work`: the work of a transaction, as a tree.
* `Work.eval`: what it comes to on some tables.
* `Atomic`: the ways in which a transaction may come out.
* `Work.transaction_ends`: when nobody has a transaction open, it comes to its end.
* `Work.transaction_atomic`: it comes out in one of these ways, and joins a transaction that is open
  already.
-/

namespace AccessAdmin

open Store

/-- The work of a transaction: reads, writes, and transactions inside it, each followed by more work
that depends on what it was answered, up to an end or an error. -/
inductive Work : Type → Type 1 where
  | done {α : Type} (r : Except ServiceError α) : Work α
  | read {α : Type} (q : Read) (k : Except StoreError q.Reply → Work α) : Work α
  | write {α : Type} (w : Write) (k : Except StoreError Unit → Work α) : Work α
  /-- A transaction inside the transaction, with a deadline of its own. What it came to is an answer
  like any other. -/
  | nested {α β : Type} (ctx : Context) (inner : Work β) (k : Except ServiceError β → Work α) : Work α

namespace Work

/-- The program that does the work on a session. -/
def program (s : Session) {α : Type} : Work α → Program (Except ServiceError α)
  | done r => .done r
  | read q k => .ask (.call s.id (.read q)) fun r => (k r).program s
  | write w k => .ask (.call s.id (.write w)) fun r => (k r).program s
  | nested ctx inner k =>
    (ctx.transaction s (ExceptT.mk (inner.program s))).run.bind fun r => (k r).program s

/-- The work as that of a service. -/
def service (s : Session) {α : Type} (work : Work α) : Service α := ExceptT.mk (work.program s)

/-- What the work comes to on some tables, and the tables after it. Writes of a transaction inside
it stay, whatever that one came to. -/
def eval {α : Type} : Work α → Tables → Except ServiceError α × Tables
  | done r, t => (r, t)
  | read q k, t => (k (t.answer q)).eval t
  | write w k, t =>
    match t.apply w with
    | .ok t' => (k (.ok ())).eval t'
    | .error e => (k (.error e)).eval t
  | nested _ inner k, t => (k (inner.eval t).1).eval (inner.eval t).2

end Work

/-! ## The ways in which a transaction comes out -/

/-- The begin of a transaction of session `s`. -/
def Store.Entry.began (s : SessionId) : Entry := .called s .begin (.answered (.ok ()))

/-- The commit of session `s`. -/
def Store.Entry.committed (s : SessionId) : Entry := .called s .commit (.answered (.ok ()))

/-- The rollback of session `s`. -/
def Store.Entry.rolledBack (s : SessionId) : Entry := .called s .rollback (.answered (.ok ()))

/-- A transaction of session `s` and what came before it: it begins on the tables that the acts of
others led to, and until its end no call of another session on rows is answered. -/
structure Enclosed (s : SessionId) (st : Shared) (before : List Entry) (found : Tables)
    (during : List Entry) : Prop where
  before : Others s st before ⟨found, none⟩
  unended : fate s during = none
  secluded : ∀ s' c r, s' ≠ s → c.isData → .called s' c r ∈ during → r = .blocked

/-- What became of a transaction of session `s`, by the history of all acts, its answer, and the
store after it: the deadline passed before it began; or it began, and then put in force the tables
that its work led to, or left those that it found. -/
inductive Atomic {α : Type} (s : SessionId) (deadline : Prop)
    (outcome : Tables → Except ServiceError α × Tables) (st : Shared) :
    List Entry → Except ServiceError α → Shared → Prop where
  | gaveUp {log : List Entry} {st' : Shared} : deadline → Others s st log st' →
      Atomic s deadline outcome st log (.error .cancelled) st'
  | committed {before during after : List Entry} {found t : Tables} {a : α} {st' : Shared} :
      Enclosed s st before found during → outcome found = (.ok a, t) →
      Others s ⟨t, none⟩ after st' →
      Atomic s deadline outcome st
        (before ++ .began s :: (during ++ .committed s :: after)) (.ok a) st'
  | failed {before during after : List Entry} {found t : Tables} {e : ServiceError}
      {st' : Shared} : Enclosed s st before found during → outcome found = (.error e, t) →
      Others s ⟨found, none⟩ after st' →
      Atomic s deadline outcome st
        (before ++ .began s :: (during ++ .rolledBack s :: after)) (.error e) st'
  | cancelled {before during after : List Entry} {found : Tables} {st' : Shared} :
      Enclosed s st before found during → deadline → Others s ⟨found, none⟩ after st' →
      Atomic s deadline outcome st
        (before ++ .began s :: (during ++ .rolledBack s :: after)) (.error .cancelled) st'

variable {α β : Type} {s : Session} {ctx : Context} {st st' : Shared} {log : List Entry}
  {t t' : Tables}

/-- However a transaction came out, its session has none open afterwards. -/
theorem Atomic.idle {deadline : Prop} {outcome : Tables → Except ServiceError α × Tables}
    {r : Except ServiceError α} (h : Atomic s.id deadline outcome st log r st')
    (hs : st.inTransaction s.id = false) : st'.inTransaction s.id = false := by
  cases h with
  | gaveUp _ hothers => exact hothers.idle hs
  | committed _ _ hothers | failed _ _ hothers | cancelled _ _ hothers => exact hothers.idle rfl

/-! ## Inside a transaction -/

theorem Context.transaction_yields {x : Service α} {r : Except ServiceError α}
    (h : x.run.Yields s.id t r t') : (ctx.transaction s x).run.Yields s.id t r t' := by
  rw [transaction_eq]
  exact ⟨true, t, ⟨rfl, rfl, rfl⟩, h⟩

/-- Inside a transaction, work comes to what it does on the working copy. -/
theorem Work.yields (work : Work α) (t : Tables) :
    (work.program s).Yields s.id t (work.eval t).1 (work.eval t).2 := by
  induction work generalizing t with
  | done r => exact ⟨rfl, rfl⟩
  | read q k ih => exact ⟨t.answer q, t, ⟨rfl, rfl, rfl⟩, ih _ t⟩
  | write w k ih =>
    rw [eval]
    cases hw : t.apply w with
    | ok t₁ => exact ⟨.ok (), t₁, ⟨rfl, .inl ⟨hw, rfl⟩⟩, ih _ t₁⟩
    | error e => exact ⟨.error e, t, ⟨rfl, .inr ⟨e, hw, rfl, rfl⟩⟩, ih _ t⟩
  | nested ctx inner k ihinner ihk =>
    exact (Context.transaction_yields (ihinner t)).bind (ihk _ _)

/-! ## Single calls -/

/-- A call and nothing after it. -/
theorem among_lastCall {c : Call} {g : Except StoreError c.Reply → β} {b : β}
    (h : (Program.ask (.call s.id c) fun r => .done (g r)).Among s.id st log b st') :
    ∃ before st₁ r st₂ after, Others s.id st before st₁ ∧ st₁.call s.id c = (.answered r, st₂) ∧
      Others s.id st₂ after st' ∧ b = g r ∧
      log = before ++ .called s.id c (.answered r) :: after := by
  obtain ⟨before, st₁, r, own, st₂, after, hbefore, ⟨-, hcall, rfl⟩, ⟨rfl, hafter⟩, rfl⟩ := h
  exact ⟨before, st₁, r, st₂, after, hbefore, hcall, hafter, rfl, rfl⟩

/-- Such a call under a deadline. -/
theorem among_limitedCall {c : Call} {g : Except StoreError c.Reply → β} {b : Option β}
    (h : (ctx.limited (Program.ask (.call s.id c) fun r => .done (g r))).Among s.id st log b st') :
    (b = none ∧ ctx.deadline.isSome ∧ Others s.id st log st') ∨
    ∃ before st₁ r st₂ after, Others s.id st before st₁ ∧ st₁.call s.id c = (.answered r, st₂) ∧
      Others s.id st₂ after st' ∧ b = some (g r) ∧
      log = before ++ .called s.id c (.answered r) :: after := by
  unfold Context.limited at h
  cases hd : ctx.deadline with
  | none =>
    simp only [hd] at h
    exact .inr (among_lastCall (g := fun r => some (g r)) h)
  | some d =>
    simp only [hd, Program.within] at h
    obtain ⟨before, st₁, r, own, st₂, after, hbefore, hcut, h, rfl⟩ := h
    obtain ⟨rfl, rfl, rfl⟩ | ⟨r, rfl, -, hcall, rfl⟩ := hcut
    · obtain ⟨rfl, hafter⟩ := h
      exact .inl ⟨rfl, rfl, hbefore.append hafter⟩
    · obtain ⟨rfl, hafter⟩ := h
      exact .inr ⟨before, st₁, r, st₂, after, hbefore, hcall, hafter, rfl, rfl⟩

/-- A transaction is begun by an idle session when nobody has one open, on the tables then in
force. -/
theorem call_begin {r : Except StoreError Unit} (hs : st.inTransaction s.id = false)
    (h : st.call s.id .begin = (.answered r, st')) :
    st = ⟨st.tables, none⟩ ∧ r = .ok () ∧ st' = ⟨st.tables, some ⟨s.id, st.tables⟩⟩ := by
  obtain ⟨tables, _ | w⟩ := st
  · obtain ⟨hr, rfl⟩ := Prod.mk.inj h
    exact ⟨rfl, (Attempt.answered.inj hr).symm, rfl⟩
  · have hne : w.session ≠ s.id := by
      simpa only [Shared.inTransaction, Option.any_some, beq_eq_false_iff_ne] using hs
    simp only [Shared.call, hne, ↓reduceIte, Prod.mk.injEq, reduceCtorEq, false_and] at h

theorem call_commit (hw : st.writer = some ⟨s.id, t⟩) :
    st.call s.id .commit = (.answered (.ok ()), ⟨t, none⟩) := by
  simp only [Shared.call, hw, ↓reduceIte]

theorem call_rollback (hw : st.writer = some ⟨s.id, t⟩) :
    st.call s.id .rollback = (.answered (.ok ()), ⟨st.tables, none⟩) := by
  simp [Shared.call, Shared.inTransaction, hw]

/-! ## The parts of a transaction -/

/-- Waiting for the begin under the deadline. -/
theorem among_begin {b : Except ServiceError Unit} (hs : st.inTransaction s.id = false)
    (h : (ctx.bounded (Service.ofStore (s.call .begin))).run.Among s.id st log b st') :
    (b = .error .cancelled ∧ ctx.deadline.isSome ∧ Others s.id st log st') ∨
    ∃ before found after, Others s.id st before ⟨found, none⟩ ∧
      Others s.id ⟨found, some ⟨s.id, found⟩⟩ after st' ∧ b = .ok () ∧
      log = before ++ .began s.id :: after := by
  rw [Context.bounded, ExceptT.run_mk, Program.bind_eq, run_ofStore] at h
  obtain ⟨o, log₁, st₁, log₂, hlimited, hend, rfl⟩ := Program.among_bind h
  obtain ⟨rfl, hd, hothers⟩ | ⟨before, st₂, r, st₃, after, hbefore, hcall, hafter, rfl, rfl⟩ :=
    among_limitedCall hlimited
  · obtain ⟨rfl, hlast⟩ := hend
    exact .inl ⟨rfl, hd, hothers.append hlast⟩
  · obtain ⟨hst₂, rfl, rfl⟩ := call_begin (hbefore.idle hs) hcall
    obtain ⟨rfl, hlast⟩ := hend
    rw [hst₂] at hbefore
    exact .inr ⟨before, st₂.tables, after ++ log₂, hbefore, hafter.append hlast, rfl,
      by simp only [List.append_assoc, List.cons_append, Entry.began]⟩

/-- Work that is under the deadline in an open transaction. -/
theorem Program.Yields.under {p : Program α} {a : α} {o : Option α} (hp : p.Yields s.id t a t')
    (hw : st.writer = some ⟨s.id, t⟩) (h : (ctx.limited p).Among s.id st log o st') :
    fate s.id log = none ∧ ∃ t₁, st' = ⟨st.tables, some ⟨s.id, t₁⟩⟩ ∧
      ((o = none ∧ ctx.deadline.isSome) ∨ o = some a ∧ t₁ = t') := by
  unfold Context.limited at h
  cases hd : ctx.deadline with
  | none =>
    simp only [hd, map_eq_pure_bind, Program.bind_eq] at h
    obtain ⟨b, log₁, st₁, log₂, hwork, ⟨rfl, hlast⟩, rfl⟩ := Program.among_bind h
    obtain ⟨rfl, rfl, hfate⟩ := hp.among hw hwork
    obtain ⟨rfl, hfate'⟩ := hlast.holding rfl rfl
    exact ⟨by rw [fate_append, hfate, hfate']; rfl, t', rfl, .inr ⟨rfl, rfl⟩⟩
  | some d =>
    simp only [hd] at h
    obtain ⟨hfate, t₁, rfl, hend⟩ := hp.limited hw h
    refine ⟨hfate, t₁, rfl, hend.imp_left fun ho => ⟨ho, rfl⟩⟩

/-- Giving up leaves the tables as they are. -/
theorem among_giveUp {e : ServiceError} {b : Except ServiceError α}
    (hw : st.writer = some ⟨s.id, t⟩)
    (h : (Context.giveUp s e : Service α).run.Among s.id st log b st') :
    b = .error e ∧ ∃ during after, fate s.id during = none ∧ Others s.id st during st ∧
      Others s.id ⟨st.tables, none⟩ after st' ∧ log = during ++ .rolledBack s.id :: after := by
  have hlast : (Program.ask (.call s.id .rollback)
      fun _ => .done (.error e : Except ServiceError α)).Among s.id st log b st' := h
  obtain ⟨during, st₁, r, st₂, after, hduring, hcall, hafter, rfl, rfl⟩ := among_lastCall hlast
  obtain ⟨rfl, hfate⟩ := hduring.holding hw rfl
  obtain ⟨hr, rfl⟩ := Prod.mk.inj ((call_rollback hw).symm.trans hcall)
  obtain rfl := Attempt.answered.inj hr
  exact ⟨rfl, during, after, hfate, hduring, hafter, rfl⟩

theorem run_commit (s : Session) (a : α) :
    (do
      Service.ofStore (s.call .commit)
      return a : Service α).run =
      .ask (.call s.id .commit) fun r =>
        .done ((Except.mapError ServiceError.ofStore r).map fun _ => a) := by
  show Program.ask _ _ = _
  congr 1
  funext r
  rcases r with _ | _ <;> rfl

/-- The commit puts the working copy in force. -/
theorem among_commit {a : α} {b : Except ServiceError α} (hw : st.writer = some ⟨s.id, t⟩)
    (h : (do
      Service.ofStore (s.call .commit)
      return a : Service α).run.Among s.id st log b st') :
    b = .ok a ∧ ∃ during after, fate s.id during = none ∧ Others s.id st during st ∧
      Others s.id ⟨t, none⟩ after st' ∧ log = during ++ .committed s.id :: after := by
  rw [run_commit] at h
  obtain ⟨during, st₁, r, st₂, after, hduring, hcall, hafter, rfl, rfl⟩ :=
    among_lastCall (g := fun r => (Except.mapError ServiceError.ofStore r).map fun _ => a) h
  obtain ⟨rfl, hfate⟩ := hduring.holding hw rfl
  obtain ⟨hr, rfl⟩ := Prod.mk.inj ((call_commit hw).symm.trans hcall)
  obtain rfl := Attempt.answered.inj hr
  exact ⟨rfl, during, after, hfate, hduring, hafter, rfl⟩

/-! ## Whole transactions -/

/-- A transaction by its parts: what others did before it, its begin, and what happened until it
ended, all of it while it was open. -/
theorem enclosed {before waited worked last : List Entry} {found : Tables} {st₁ : Shared}
    (hbefore : Others s.id st before ⟨found, none⟩)
    (hwaited : Others s.id ⟨found, some ⟨s.id, found⟩⟩ waited ⟨found, some ⟨s.id, found⟩⟩)
    (hworked : Replays ⟨found, some ⟨s.id, found⟩⟩ worked st₁) (hfate : fate s.id worked = none)
    (hlast : Others s.id st₁ last st₁) (hfate' : fate s.id last = none) :
    Enclosed s.id st before found (waited ++ worked ++ last) := by
  have hunended : fate s.id (waited ++ worked ++ last) = none := by
    rw [fate_append, fate_append, (hwaited.holding rfl rfl).2, hfate, hfate']
    rfl
  refine ⟨hbefore, hunended, ?_⟩
  exact (((hwaited.2.append hworked).append hlast.2).exclusive
    (Shared.inTransaction_iff.mpr ⟨_, rfl, rfl⟩) hunended).2.2

/-- From its begin on, a transaction comes out in one of the ways. -/
theorem atomic_worked {work : Work α} {r : Except ServiceError α} {before waited : List Entry}
    {found : Tables} (hbefore : Others s.id st before ⟨found, none⟩)
    (hwaited : Others s.id ⟨found, some ⟨s.id, found⟩⟩ waited ⟨found, some ⟨s.id, found⟩⟩)
    (h : (ctx.worked s (work.service s)).run.Among s.id ⟨found, some ⟨s.id, found⟩⟩ log r st') :
    Atomic s.id ctx.deadline.isSome work.eval st (before ++ .began s.id :: (waited ++ log)) r
      st' := by
  rw [Context.worked, ExceptT.run_bind_lift, Program.bind_eq] at h
  obtain ⟨o, worked, st₁, rest, hworked, hend, rfl⟩ := Program.among_bind h
  obtain ⟨hfate, t, rfl, hcame⟩ := (work.yields found).under rfl hworked
  have hlog (last after : List Entry) (e : Entry) : waited ++ (worked ++ (last ++ e :: after)) =
      waited ++ worked ++ last ++ e :: after := by simp only [List.append_assoc]
  obtain ⟨rfl, hd⟩ | ⟨rfl, rfl⟩ := hcame
  · obtain ⟨rfl, last, after, hfate', hlast, hafter, rfl⟩ := among_giveUp rfl hend
    rw [hlog]
    exact .cancelled (enclosed hbefore hwaited hworked.replays hfate hlast hfate') hd hafter
  · cases hr : (work.eval found).1 with
    | ok a =>
      rw [hr] at hend
      obtain ⟨rfl, last, after, hfate', hlast, hafter, rfl⟩ := among_commit rfl hend
      rw [hlog]
      exact .committed (enclosed hbefore hwaited hworked.replays hfate hlast hfate')
        (Prod.ext hr rfl) hafter
    | error e =>
      rw [hr] at hend
      obtain ⟨rfl, last, after, hfate', hlast, hafter, rfl⟩ := among_giveUp rfl hend
      rw [hlog]
      exact .failed (enclosed hbefore hwaited hworked.replays hfate hlast hfate')
        (Prod.ext hr rfl) hafter

/-- A transaction of an idle session comes out in one of the ways. -/
theorem transaction_comes_out {work : Work α} {r : Except ServiceError α}
    (hs : st.inTransaction s.id = false)
    (h : (ctx.transaction s (work.service s)).run.Among s.id st log r st') :
    Atomic s.id ctx.deadline.isSome work.eval st log r st' := by
  rw [transaction_eq] at h
  obtain ⟨asked, st₁, b, own, st₂, rest, hasked, ⟨-, rfl, rfl, rfl⟩, h, rfl⟩ := h
  simp only [hasked.idle hs] at h
  replace h : (ctx.bounded (Service.ofStore (s.call .begin)) >>= fun _ =>
    ctx.worked s (work.service s)).run.Among s.id st₂ rest r st' := h
  rw [ExceptT.run_bind, Program.bind_eq] at h
  obtain ⟨o, log₁, st₃, log₂, hbegin, h, rfl⟩ := Program.among_bind h
  obtain ⟨rfl, hd, hothers⟩ | ⟨before, found, waited, hbefore, hwaited, rfl, rfl⟩ :=
    among_begin (hasked.idle hs) hbegin
  · obtain ⟨rfl, hlast⟩ := h
    exact .gaveUp hd (hasked.append (hothers.append hlast))
  · obtain ⟨rfl, -⟩ := hwaited.holding rfl rfl
    have := atomic_worked (hasked.append hbefore) hwaited h
    simpa only [List.append_assoc, List.nil_append, List.cons_append] using this

/-! ## Transactions come to an end -/

/-- A call that is answered, under the deadline as without one. -/
theorem among_call (ctx : Context) {c : Call} (g : Except StoreError c.Reply → β)
    {r : Except StoreError c.Reply}
    (h : st.call s.id c = (.answered r, st')) :
    (Program.ask (.call s.id c) fun r => .done (g r)).Among s.id st
        [.called s.id c (.answered r)] (g r) st' ∧
      (ctx.limited (Program.ask (.call s.id c) fun r => .done (g r))).Among s.id st
        [.called s.id c (.answered r)] (some (g r)) st' := by
  refine ⟨⟨[], st, r, _, st', [], others_nil, ⟨rfl, h, rfl⟩, ⟨rfl, others_nil⟩, rfl⟩, ?_⟩
  unfold Context.limited
  cases ctx.deadline with
  | none => exact ⟨[], st, r, _, st', [], others_nil, ⟨rfl, h, rfl⟩, ⟨rfl, others_nil⟩, rfl⟩
  | some d =>
    simp only [Program.within]
    exact ⟨[], st, some r, _, st', [], others_nil, .inr ⟨r, rfl, rfl, h, rfl⟩, ⟨rfl, others_nil⟩,
      rfl⟩

theorem Program.Yields.exists_limited {p : Program α} {a : α} (hp : p.Yields s.id t a t')
    (ctx : Context) (hw : st.writer = some ⟨s.id, t⟩) :
    ∃ log, (ctx.limited p).Among s.id st log (some a) ⟨st.tables, some ⟨s.id, t'⟩⟩ := by
  obtain ⟨log, hfree, hlimited⟩ := hp.exists_among hw
  unfold Context.limited
  cases ctx.deadline with
  | none =>
    rw [map_eq_pure_bind, Program.bind_eq]
    exact ⟨_, hfree.bind ⟨rfl, others_nil⟩⟩
  | some d => exact ⟨log, hlimited d⟩

/-- From its begin on, a transaction can come to its end. -/
theorem exists_worked (ctx : Context) (s : Session) (work : Work α) (found : Tables) :
    ∃ log st', (ctx.worked s (work.service s)).run.Among s.id ⟨found, some ⟨s.id, found⟩⟩ log
      (work.eval found).1 st' := by
  have hw : Shared.writer ⟨found, some ⟨s.id, found⟩⟩ = some ⟨s.id, found⟩ := rfl
  obtain ⟨log, hwork⟩ := (work.yields found).exists_limited ctx hw
  have hend : ∃ last st', (Context.settle s (some (work.eval found).1)).run.Among s.id
      ⟨found, some ⟨s.id, (work.eval found).2⟩⟩ last (work.eval found).1 st' := by
    cases (work.eval found).1 with
    | ok a =>
      rw [Context.settle, run_commit]
      exact ⟨_, _, (among_call ctx (fun r =>
        (Except.mapError ServiceError.ofStore r).map fun _ => a) (call_commit rfl)).1⟩
    | error e =>
      exact ⟨_, _, (among_call ctx (fun _ => (.error e : Except ServiceError α))
        (call_rollback rfl)).1⟩
  obtain ⟨last, st', hend⟩ := hend
  refine ⟨log ++ last, st', ?_⟩
  rw [Context.worked, ExceptT.run_bind_lift, Program.bind_eq]
  exact hwork.bind hend

/-- A transaction that is never cut short comes to its end when nobody has one open at its begin and
nobody acts besides, and answers what its work comes to. -/
theorem Work.transaction_ends (ctx : Context) (s : Session) (work : Work α)
    (hw : st.writer = none) :
    ∃ log st', (ctx.transaction s (work.service s)).run.Among s.id st log
      (work.eval st.tables).1 st' := by
  obtain ⟨tables, _⟩ := st
  obtain rfl := hw
  obtain ⟨log, st', hworked⟩ := exists_worked ctx s work tables
  have hbegin : (ctx.bounded (Service.ofStore (s.call .begin))).run.Among s.id ⟨tables, none⟩
      ([.began s.id] ++ []) (.ok ()) ⟨tables, some ⟨s.id, tables⟩⟩ := by
    rw [Context.bounded, ExceptT.run_mk, Program.bind_eq, run_ofStore]
    exact (among_call ctx _ rfl).2.bind ⟨rfl, others_nil⟩
  have hboth : (ctx.bounded (Service.ofStore (s.call .begin)) >>= fun _ =>
      ctx.worked s (work.service s)).run.Among s.id ⟨tables, none⟩ ([.began s.id] ++ [] ++ log)
      (work.eval tables).1 st' := by
    rw [ExceptT.run_bind, Program.bind_eq]
    exact hbegin.bind hworked
  refine ⟨[] ++ ([] ++ ([.began s.id] ++ [] ++ log)), st', ?_⟩
  rw [transaction_eq]
  exact ⟨[], ⟨tables, none⟩, false, [], ⟨tables, none⟩, _, others_nil, ⟨rfl, rfl, rfl, rfl⟩, hboth,
    rfl⟩

/-! ## Atomicity -/

/-- A transaction of an idle session comes out in one of the ways that show nothing in between, and
its session is idle again. One of a session that has a transaction open joins it: it answers what
its work comes to on the working copy, and neither begins, commits nor rolls back. -/
theorem Work.transaction_atomic {work : Work α} {r : Except ServiceError α}
    (h : (ctx.transaction s (work.service s)).run.Among s.id st log r st') :
    (st.inTransaction s.id = false → st'.inTransaction s.id = false ∧
      Atomic s.id ctx.deadline.isSome work.eval st log r st') ∧
    ∀ t, st.writer = some ⟨s.id, t⟩ →
      r = (work.eval t).1 ∧ st' = ⟨st.tables, some ⟨s.id, (work.eval t).2⟩⟩ ∧
        fate s.id log = none := by
  constructor
  · intro hs
    have hatomic := transaction_comes_out hs h
    exact ⟨hatomic.idle hs, hatomic⟩
  · intro t hw
    exact (Context.transaction_yields (work.yields t)).among hw h

/-- Work whose inner transaction fails after a write. The outer one goes on, and counts the rows. -/
def Sample.countingWork : Work Nat :=
  .write (.createUserRole ⟨"ux", "rx"⟩) fun _ =>
    .nested {} (.write (.createUserRole ⟨"ux", "rxx"⟩) fun _ => .done (.error .cancelled)) fun
      (_ : Except ServiceError Unit) =>
        .read (.listUserRoles ["ux"]) fun r => .done (.ok (r.toOption.getD []).length)

/-- The transaction puts in force both rows, also that of the inner one, which failed. -/
theorem sample_atomic : ∃ log st',
    (Context.transaction {} ⟨0⟩ (Sample.countingWork.service ⟨0⟩)).run.Among 0 {} log (.ok 2) st' ∧
    st'.inTransaction 0 = false ∧
    Atomic 0 False Sample.countingWork.eval {} log (.ok 2) st' ∧
    (Sample.countingWork.eval {}).2.userRoles = [⟨"ux", "rx"⟩, ⟨"ux", "rxx"⟩] := by
  have hidle : Shared.writer {} = none := rfl
  obtain ⟨log, st', h⟩ := Work.transaction_ends {} ⟨0⟩ Sample.countingWork hidle
  replace h : (Context.transaction {} ⟨0⟩ (Sample.countingWork.service ⟨0⟩)).run.Among 0 {} log
    (.ok 2) st' := h
  obtain ⟨hidle, hatomic⟩ := (Work.transaction_atomic h).1 rfl
  simp only [Option.isSome_none, Bool.false_eq_true] at hatomic
  exact ⟨log, st', h, hidle, hatomic, rfl⟩

end AccessAdmin
