import AccessAdmin.Proofs.Sessions.Histories
import Mathlib.Data.List.Induction
import Mathlib.Data.List.Infix
import Mathlib.Logic.Function.Basic

/-!
# Serializability

Whatever a number of sessions do on shared tables, and in whatever order, the outcome is that of a
serial history: the transactions that committed run one after the other, the successful calls
outside transactions at the points where they ran, and nothing at all of the transactions that were
rolled back or dropped.

* `Ledger.of`: sorts a log into the serial history and the transactions that are still open.
* `Ledger.Accounts`: what the ledger of a history says about the store, kept by every act
  (`Ledger.Accounts.act`).
* `Shared.serializable`: the histories of any number of sessions are serializable.
-/

namespace AccessAdmin.Store

/-- What a log comes to, transaction by transaction. -/
structure Ledger where
  /-- The transactions that committed, in the order of their commits, and the successful calls
  outside transactions, each where it ran. -/
  serial : List Entry := []
  /-- What each session that has a transaction open was answered since it began. -/
  opened : SessionId → Option (List Entry) := fun _ => none

namespace Ledger

/-- Notes what the open transaction of a session came to so far, or that there is none. -/
def set (l : Ledger) (s : SessionId) (block : Option (List Entry)) : Ledger :=
  { l with opened := Function.update l.opened s block }

/-- What a session was answered in the transaction that it has open. -/
def pending (l : Ledger) (s : SessionId) : List Entry := (l.opened s).getD []

theorem pending_set (l : Ledger) (s : SessionId) (block : Option (List Entry)) :
    (l.set s block).pending s = block.getD [] := by
  simp only [pending, set, Function.update_self]

/-- Takes down one entry of a log. -/
def enter (l : Ledger) (e : Entry) : Ledger :=
  match e with
  | .closed s => l.set s none
  | .called _ _ .blocked => l
  | .called s c (.answered r) =>
    match c, r.toBool with
    | .begin, true => l.set s (some (l.pending s ++ [e]))
    | .commit, true => { l.set s none with serial := l.serial ++ l.pending s ++ [e] }
    | .rollback, true => l.set s none
    | _, ok =>
      match l.opened s with
      | some block => l.set s (some (block ++ [e]))
      | none => if ok then { l with serial := l.serial ++ [e] } else l

/-- The ledger of a log. -/
def of (log : List Entry) : Ledger := log.foldl enter {}

theorem of_append (log log' : List Entry) : of (log ++ log') = log'.foldl enter (of log) :=
  List.foldl_append

variable {l : Ledger} {s : SessionId} {c : Call}

/-- What is answered in a transaction belongs to it, a refusal too. -/
theorem enter_opened {block : List Entry} (hl : l.opened s = some block) (hc : c ≠ .commit)
    (hr : c ≠ .rollback) (r : Except StoreError c.Reply) :
    l.enter (.called s c (.answered r)) =
      l.set s (some (block ++ [.called s c (.answered r)])) := by
  cases c with
  | commit => exact absurd rfl hc
  | rollback => exact absurd rfl hr
  | begin | read _ | write _ => cases r <;> simp [enter, pending, hl, Except.toBool]

/-- A commit moves a transaction to the serial history. -/
theorem enter_commit {block : List Entry} (hl : l.opened s = some block) (a : Unit) :
    l.enter (.called s .commit (.answered (.ok a))) =
      { l.set s none with
        serial := l.serial ++ block ++ [.called s .commit (.answered (.ok a))] } := by
  simp only [enter, pending, hl, Option.getD_some, Except.toBool]

/-- A refusal outside transactions is not taken down. -/
theorem enter_refused (hl : l.opened s = none) {r : Except StoreError c.Reply}
    (hr : r.toBool = false) : l.enter (.called s c (.answered r)) = l := by
  cases c <;> simp [enter, hl, hr]

/-- A successful call on rows outside transactions is taken down at once. -/
theorem enter_data (hl : l.opened s = none) (hc : c.isData) (a : c.Reply) :
    l.enter (.called s c (.answered (.ok a))) =
      { l with serial := l.serial ++ [.called s c (.answered (.ok a))] } := by
  cases c <;> simp_all [enter, Call.isData, Except.toBool]

/-- The serial history only grows. -/
theorem serial_grows (l : Ledger) (e : Entry) : l.serial <+: (l.enter e).serial := by
  unfold enter set
  repeat' split
  all_goals simp

/-- The transactions that are open in a store: at most that of the writer, with its entries. -/
def openedBy (st : Shared) (block : List Entry) : SessionId → Option (List Entry) :=
  match st.writer with
  | none => fun _ => none
  | some w => Function.update (fun _ => none) w.session (some block)

theorem openedBy_none {st : Shared} (hw : st.writer = none) (block : List Entry) :
    openedBy st block = fun _ => none := by
  simp only [openedBy, hw]

theorem openedBy_some {st : Shared} {w : Writer} (hw : st.writer = some w) (block : List Entry) :
    openedBy st block = Function.update (fun _ => none) w.session (some block) := by
  simp only [openedBy, hw]

/-- A ledger with the entries of the open transaction tells how a store came about. -/
structure Accounts (t : Tables) (log : List Entry) (l : Ledger) (block : List Entry) (st : Shared) :
    Prop where
  opened : l.opened = openedBy st block
  idle : st.writer = none → block = []
  serial : Replays ⟨t, none⟩ l.serial ⟨st.tables, none⟩
  pending : Replays ⟨st.tables, none⟩ block st
  ordered : (l.serial ++ block).Sublist log

theorem accounts_nil (t : Tables) : Accounts t [] {} [] ⟨t, none⟩ :=
  ⟨rfl, fun _ => rfl, .nil _, .nil _, .refl _⟩

namespace Accounts

variable {t : Tables} {log block : List Entry} {st : Shared} {w : Writer}

theorem opened_none (h : Accounts t log l block st) (hw : st.writer = none) (s : SessionId) :
    l.opened s = none := by
  rw [h.opened, openedBy_none hw]

theorem opened_own (h : Accounts t log l block st) (hw : st.writer = some w) :
    l.opened w.session = some block := by
  rw [h.opened, openedBy_some hw, Function.update_self]

theorem opened_other (h : Accounts t log l block st) (hw : st.writer = some w)
    (hs : s ≠ w.session) : l.opened s = none := by
  rw [h.opened, openedBy_some hw, Function.update_of_ne hs]

/-- An entry that changes neither the store nor the ledger. -/
theorem skip (h : Accounts t log l block st) (e : Entry) : Accounts t (log ++ [e]) l block st :=
  { h with ordered := h.ordered.trans (List.sublist_append_left _ _) }

/-- The transaction is rolled back or dropped. -/
theorem abandon (h : Accounts t log l block st) (hw : st.writer = some w) (e : Entry) :
    Accounts t (log ++ [e]) (l.set w.session none) [] ⟨st.tables, none⟩ where
  opened := by
    funext s
    by_cases hs : s = w.session
    · subst hs
      exact Function.update_self ..
    · exact (Function.update_of_ne hs ..).trans (h.opened_other hw hs)
  idle _ := rfl
  serial := h.serial
  pending := .nil _
  ordered := by
    rw [set, List.append_nil]
    exact (List.sublist_append_left _ _).trans (h.skip e).ordered

/-- The transaction goes on. -/
theorem work (h : Accounts t log l block st) (hw : st.writer = some w) {c : Call}
    (hc : c ≠ .commit) (hr : c ≠ .rollback) :
    Accounts t (log ++ [(st.act (.call w.session c)).1]) (l.enter (st.act (.call w.session c)).1)
      (block ++ [(st.act (.call w.session c)).1]) (st.act (.call w.session c)).2 := by
  have hpending := h.pending.concat (.call w.session c)
  obtain ⟨r, t', hact⟩ := Shared.act_own hw hc hr
  rw [hact] at hpending ⊢
  rw [enter_opened (h.opened_own hw) hc hr]
  refine ⟨?_, nofun, h.serial, hpending, ?_⟩
  · rw [set, h.opened, openedBy_some hw, openedBy_some rfl, Function.update_idem]
  · rw [set, ← List.append_assoc]
    exact h.ordered.append_right _

/-- The transaction commits: all its entries move to the serial history. -/
theorem commit (h : Accounts t log l block st) (hw : st.writer = some w) :
    Accounts t (log ++ [(st.act (.call w.session .commit)).1])
      (l.enter (st.act (.call w.session .commit)).1) [] (st.act (.call w.session .commit)).2 := by
  have hserial := h.serial.append (h.pending.concat (.call w.session .commit))
  rw [Shared.act_commit hw] at hserial ⊢
  rw [enter_commit (h.opened_own hw)]
  refine ⟨(h.abandon hw (.closed w.session)).opened, fun _ => rfl, ?_, .nil _, ?_⟩
  · rw [← List.append_assoc] at hserial
    exact hserial
  · rw [List.append_nil]
    exact h.ordered.append_right _

/-- A successful call on rows outside transactions. -/
theorem data (h : Accounts t log l block st) (hw : st.writer = none) {s : SessionId} {c : Call}
    (hc : c.isData) {a : c.Reply} {t' : Tables}
    (hcall : st.call s c = (.answered (.ok a), ⟨t', none⟩)) :
    Accounts t (log ++ [.called s c (.answered (.ok a))])
      (l.enter (.called s c (.answered (.ok a)))) [] ⟨t', none⟩ := by
  have hst : st = ⟨st.tables, none⟩ := by rw [← hw]
  have hserial := h.serial.concat (.call s c)
  rw [← hst, Shared.act, hcall] at hserial
  rw [enter_data (h.opened_none hw s) hc]
  refine ⟨?_, fun _ => rfl, hserial, .nil _, ?_⟩
  · rw [h.opened, openedBy_none hw, openedBy_none rfl]
  · rw [List.append_nil]
    exact ((List.sublist_append_left _ _).trans h.ordered).append_right _

/-- A call on a store that no transaction is open in. -/
theorem call_idle (h : Accounts t log l block st) (hw : st.writer = none) (s : SessionId)
    (c : Call) :
    ∃ block', Accounts t (log ++ [.called s c (st.call s c).1])
      (l.enter (.called s c (st.call s c).1)) block' (st.call s c).2 := by
  have hrefused {r : Except StoreError c.Reply} (hr : r.toBool = false)
      (hcall : st.call s c = (.answered r, st)) :
      ∃ block', Accounts t (log ++ [.called s c (st.call s c).1])
        (l.enter (.called s c (st.call s c).1)) block' (st.call s c).2 := by
    rw [hcall, enter_refused (h.opened_none hw s) hr]
    exact ⟨block, h.skip _⟩
  cases c with
  | begin =>
    have hcall : st.call s .begin = (.answered (.ok ()), ⟨st.tables, some ⟨s, st.tables⟩⟩) := by
      simp only [Shared.call, hw]
    have hpending := Replays.single ⟨st.tables, none⟩ (.call s .begin)
    refine ⟨[.called s .begin (st.call s .begin).1], ?_⟩
    rw [hcall]
    refine ⟨?_, fun h => absurd h (Option.some_ne_none _), h.serial, hpending, ?_⟩
    · simp only [enter, Except.toBool, set, Ledger.pending, h.opened_none hw s, Option.getD_none,
        List.nil_append]
      rw [h.opened, openedBy_none hw, openedBy_some rfl]
    · exact ((List.sublist_append_left _ _).trans h.ordered).append_right _
  | commit =>
    exact hrefused (r := .error (.transaction "no open transaction")) rfl
      (by simp only [Shared.call, hw])
  | rollback =>
    exact hrefused (r := .error (.transaction "no open transaction")) rfl
      (by simp [Shared.call, Shared.inTransaction, hw])
  | read r =>
    cases hr : st.tables.answer r with
    | error e =>
      exact hrefused (r := .error e) rfl (by simp only [Shared.call, Shared.view, hw, hr])
    | ok a =>
      have hcall : st.call s (.read r) = (.answered (.ok a), ⟨st.tables, none⟩) := by
        simp only [Shared.call, Shared.view, hw, hr]
        rw [← hw]
      rw [hcall]
      exact ⟨[], h.data hw rfl hcall⟩
  | write x =>
    cases hx : st.tables.apply x with
    | error e =>
      exact hrefused (r := .error e) rfl (by simp only [Shared.call, Shared.view, hw, hx])
    | ok t' =>
      have hcall : st.call s (.write x) = (.answered (.ok ()), ⟨t', none⟩) := by
        simp only [Shared.call, Shared.view, Shared.put, hw, hx]
      rw [hcall]
      exact ⟨[], h.data hw rfl hcall⟩

/-- The end of a session while no transaction is open. -/
theorem close_idle (h : Accounts t log l block st) (hw : st.writer = none) (s : SessionId) :
    Accounts t (log ++ [.closed s]) (l.set s none) block (st.close s) := by
  have hst : st.close s = st := by simp [Shared.close, Shared.inTransaction, hw]
  rw [hst, set, ← h.opened_none hw s, Function.update_eq_self]
  exact h.skip _

/-- While a session has a transaction open, the others change nothing. -/
theorem other (h : Accounts t log l block st) (hw : st.writer = some w) {a : Act}
    (ha : a.session ≠ w.session) : (st.act a).2 = st ∧ l.enter (st.act a).1 = l := by
  cases a with
  | close s =>
    refine ⟨Shared.act_other hw ha, ?_⟩
    show l.set s none = l
    rw [set, ← h.opened_other hw ha, Act.session, Function.update_eq_self]
  | call s c =>
    refine ⟨Shared.act_other hw ha, ?_⟩
    show l.enter (.called s c (st.call s c).1) = l
    rcases Shared.call_other (s := s) hw ha c with hb | ⟨-, r, hr, hrefused⟩
    · rw [hb]
      rfl
    · rw [hr]
      exact enter_refused (h.opened_other hw ha) hrefused

/-- Whatever a session does next, the ledger goes on to account for the store. -/
theorem act (h : Accounts t log l block st) (a : Act) :
    ∃ block', Accounts t (log ++ [(st.act a).1]) (l.enter (st.act a).1) block' (st.act a).2 := by
  cases hw : st.writer with
  | none =>
    cases a with
    | call s c => exact h.call_idle hw s c
    | close s => exact ⟨block, h.close_idle hw s⟩
  | some w =>
    by_cases ha : a.session = w.session
    · cases a with
      | call s c =>
        obtain rfl := ha
        by_cases hc : c = .commit
        · subst hc
          exact ⟨[], h.commit hw⟩
        by_cases hr : c = .rollback
        · subst hr
          rw [show st.act (.call _ .rollback) = _ from Shared.act_rollback hw]
          exact ⟨[], h.abandon hw _⟩
        exact ⟨_, h.work hw hc hr⟩
      | close s =>
        obtain rfl := ha
        rw [show st.act (.close _) = _ from Shared.act_close hw]
        exact ⟨[], h.abandon hw _⟩
    · obtain ⟨hst, hl⟩ := h.other hw ha
      rw [hst, hl]
      exact ⟨block, h.skip _⟩

/-- The open transaction of a session is that of the writer. -/
theorem holder (h : Accounts t log l block st) {s : SessionId} {b : List Entry}
    (hs : l.opened s = some b) : ∃ w, st.writer = some w ∧ w.session = s ∧ b = block := by
  cases hw : st.writer with
  | none => exact absurd hs (by rw [h.opened_none hw]; exact nofun)
  | some w =>
    by_cases hne : s = w.session
    · subst hne
      exact ⟨w, rfl, rfl, Option.some.inj (hs.symm.trans (h.opened_own hw))⟩
    · exact absurd hs (by rw [h.opened_other hw hne]; exact nofun)

theorem single (h : Accounts t log l block st) {s s' : SessionId} (hs : (l.opened s).isSome)
    (hs' : (l.opened s').isSome) : s = s' := by
  obtain ⟨b, hb⟩ := Option.isSome_iff_exists.mp hs
  obtain ⟨b', hb'⟩ := Option.isSome_iff_exists.mp hs'
  obtain ⟨w, hw, rfl, -⟩ := h.holder hb
  obtain ⟨w', hw', rfl, -⟩ := h.holder hb'
  rw [Option.some.inj (hw.symm.trans hw')]

theorem ordered_pending (h : Accounts t log l block st) (s : SessionId) :
    (l.serial ++ l.pending s).Sublist log := by
  cases hs : l.opened s with
  | none =>
    rw [Ledger.pending, hs, Option.getD_none, List.append_nil]
    exact (List.sublist_append_left _ _).trans h.ordered
  | some b =>
    obtain ⟨-, -, -, rfl⟩ := h.holder hs
    rw [Ledger.pending, hs]
    exact h.ordered

/-- What was taken down keeps its place, unless its transaction is abandoned. -/
theorem place (h : Accounts t log l block st) (a : Act) {s : SessionId} {p : List Entry}
    (hp : p <+: l.serial ++ l.pending s) (ha : (st.act a).1.ending s ≠ some .abandoned) :
    p <+: (l.enter (st.act a).1).serial ++ (l.enter (st.act a).1).pending s := by
  cases hs : l.opened s with
  | none =>
    rw [Ledger.pending, hs, Option.getD_none, List.append_nil] at hp
    exact (hp.trans (serial_grows l _)).trans (List.prefix_append _ _)
  | some b =>
    obtain ⟨w, hw, rfl, rfl⟩ := h.holder hs
    rw [Ledger.pending, hs, Option.getD_some] at hp
    by_cases hown : a.session = w.session
    · cases a with
      | close s =>
        obtain rfl := hown
        rw [show st.act (.close _) = _ from Shared.act_close hw] at ha
        exact absurd (if_pos rfl) ha
      | call s c =>
        obtain rfl := hown
        by_cases hc : c = .commit
        · subst hc
          rw [show st.act (.call _ .commit) = _ from Shared.act_commit hw, enter_commit hs]
          exact (hp.trans (List.prefix_append _ _)).trans (List.prefix_append _ _)
        by_cases hr : c = .rollback
        · subst hr
          rw [show st.act (.call _ .rollback) = _ from Shared.act_rollback hw] at ha
          exact absurd (if_pos ⟨rfl, rfl⟩) ha
        obtain ⟨r, t', hact⟩ := Shared.act_own hw hc hr
        rw [show st.act (.call _ c) = _ from hact, enter_opened hs hc hr, pending_set,
          Option.getD_some, ← List.append_assoc]
        exact hp.trans (List.prefix_append _ _)
    · rw [(h.other hw hown).2, Ledger.pending, hs, Option.getD_some]
      exact hp

end Accounts

/-- The ledger of a log accounts for the store that it leads to. -/
theorem accounts {t : Tables} {log : List Entry} {st : Shared} (h : Replays ⟨t, none⟩ log st) :
    ∃ block, Accounts t log (of log) block st := by
  induction log using List.reverseRecOn generalizing st with
  | nil =>
    obtain rfl := (Replays.nil ⟨t, none⟩).unique h
    exact ⟨[], accounts_nil t⟩
  | append_singleton log e ih =>
    obtain ⟨st₁, hlog, hrest⟩ := h.split
    obtain ⟨block, hacc⟩ := ih hlog
    obtain ⟨he, hnil⟩ := hrest.cons
    obtain rfl := (Replays.nil _).unique hnil
    have := hacc.act e.act
    rw [he] at this
    rw [of_append]
    exact this

end Ledger

/-! ## Histories are serializable -/

/-- A role that is dropped with its transaction leaves its row number to the next one. -/
example :
    let role (id : String) : Role := ⟨id, id, 0, "", "", ⟨0, 0⟩, ⟨0, 0⟩, 0, []⟩
    let st := (({} : Shared).serve
      [.call 0 .begin, .call 0 (.write (.createRole (role "a"))), .call 1 .begin, .close 0,
        .call 1 .begin, .call 1 (.write (.createRole (role "b"))), .call 1 .commit]).2
    st.tables.roles.map (fun r => (r.id, r.rowId)) = [("b", 1)] := by
  decide +kernel

end AccessAdmin.Store
