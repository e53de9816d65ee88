import AccessAdmin.Proofs.Commands

/-!
# Programs side by side

Clients of one world move in any order. A move is one step of a client's program. A transaction,
from its beginning to its end, is one move: while it is open no other session is served, and what it
has written shows only when it is committed.

* `World.move`: one move of a program.
* `Crowd.play`: the moves of clients in a given order, with a log of them.
* `Job`: what the clients do here: mutations, and passes over everything.
-/

namespace AccessAdmin

open Policy

namespace World

variable {α : Type}

/-- Runs on to the end of an open transaction. -/
def finish (env : Surroundings) : Program α → World MemoryStore →
    Option (Program α × World MemoryStore)
  | .done a, w => if w.store.shared.writer.isNone then some (.done a, w) else none
  | .ask e k, w =>
    if w.store.shared.writer.isNone then some (.ask e k, w)
    else
      match w.step env none e with
      | (some r, w) => finish env (k r) w
      | (none, _) => none
  | .askBy l e k, w =>
    if w.store.shared.writer.isNone then some (.askBy l e k, w)
    else
      let (r, w) := w.step env (some l) e
      finish env (k r) w

/-- One move of a program: its next step and, if that begins a transaction, the steps to the end of
it. A step that is not answered is not made. -/
def move (env : Surroundings) : Program α → World MemoryStore →
    Option (Effect × Program α × World MemoryStore)
  | .done _, _ => none
  | .ask e k, w =>
    match w.step env none e with
    | (some r, w) => (finish env (k r) w).map (e, ·)
    | (none, _) => none
  | .askBy l e k, w =>
    let (r, w) := w.step env (some l) e
    (finish env (k r) w).map (e, ·)

end World

/-- What a move does to the things that clients share. -/
inductive Sign where
  /-- A call on the store, or a whole transaction. -/
  | store
  | engine (c : Policy.Call)
  | neither
deriving DecidableEq

/-- The sign of the step that a move begins with. -/
def Effect.sign : Effect → Sign
  | call _ _ => .store
  | policy c => .engine c
  | _ => .neither

/-- A move in a log. -/
structure Turn where
  client : Nat
  sign : Sign
deriving DecidableEq

/-- Clients of one world, with what is left of their programs. A program answers whether what it did
came out well. -/
structure Crowd where
  world : World MemoryStore
  clients : List (Program Bool)

namespace Crowd

/-- One move of a client. -/
def move (env : Surroundings) (c : Crowd) (i : Nat) : Option (Turn × Crowd) :=
  c.clients[i]?.bind fun p =>
    (World.move env p c.world).map fun (e, p, w) => (⟨i, e.sign⟩, ⟨w, c.clients.set i p⟩)

/-- The moves of clients in the given order, and the log of them. -/
def play (env : Surroundings) : List Nat → Crowd → Option (List Turn × Crowd)
  | [], c => some ([], c)
  | i :: order, c =>
    (c.move env i).bind fun (turn, c) => (play env order c).map fun (log, c) => (turn :: log, c)

/-- What a client has answered, if it has ended. -/
def answer : Program Bool → Option Bool
  | .done b => some b
  | _ => none

/-- Every client has ended, and well. -/
def Served (c : Crowd) : Prop := ∀ p ∈ c.clients, answer p = some true

end Crowd

/-- What a client does: it serves a mutation, or it makes a pass over everything. -/
inductive Job where
  | serve (m : Mutation) (users : UserPolicy) (ctx : Context)
  | reload

/-- The program of a client. -/
def Job.program : Job → Program Bool
  | serve m users ctx => Except.isOk <$> (m.program users ctx).run
  | reload => Except.isOk <$> (withSession ProjectionError.store Projection.all).run

/-- A world without planned faults, and the clients that are about to move in it. -/
def World.hosting (w : World MemoryStore) (jobs : List Job) : Crowd :=
  ⟨{ w with faults := [] }, jobs.map Job.program⟩

/-! ## Moves -/

section Moves

variable {α : Type} {env : Surroundings} {w w' : World MemoryStore} {e : Effect}

theorem World.finish_idle (p : Program α) (hi : w.Idle) : World.finish env p w = some (p, w) := by
  cases p <;> simp only [finish, show w.store.shared.writer = none from hi, Option.isNone_none,
    ↓reduceIte]

/-- A step that leaves no transaction open is a move. -/
theorem World.move_ask {r : e.Reply} {k : e.Reply → Program α}
    (hs : w.step env none e = (some r, w')) (hi : w'.Idle) :
    World.move env (.ask e k) w = some (e, k r, w') := by
  simp only [move, hs, finish_idle _ hi, Option.map_some]

theorem World.move_askBy {l : Nat} {r : e.Reply} {k : Option e.Reply → Program α}
    (hs : w.step env (some l) e = (some r, w')) (hi : w'.Idle) :
    World.move env (.askBy l e k) w = some (e, k (some r), w') := by
  simp only [move, hs, finish_idle _ hi, Option.map_some]

end Moves

namespace Crowd

variable {env : Surroundings} {c c' : Crowd} {i j : Nat} {order : List Nat} {turn : Turn}
  {log : List Turn}

theorem move_eq_some : c.move env i = some (turn, c') ↔
    ∃ p e p', c.clients[i]? = some p ∧ World.move env p c.world = some (e, p', c'.world) ∧
      turn = ⟨i, e.sign⟩ ∧ c'.clients = c.clients.set i p' := by
  obtain ⟨w', clients'⟩ := c'
  simp only [move, Option.bind_eq_some_iff, Option.map_eq_some_iff, Prod.mk.injEq, mk.injEq]
  constructor
  · rintro ⟨p, hp, ⟨e, p', w⟩, hm, rfl, rfl, rfl⟩
    exact ⟨p, e, p', hp, hm, rfl, rfl⟩
  · rintro ⟨p, e, p', hp, hm, rfl, rfl⟩
    exact ⟨p, hp, (e, p', w'), hm, rfl, rfl, rfl⟩

theorem play_cons : play env (i :: order) c = some (log, c') ↔
    ∃ turn c₁ log₁, c.move env i = some (turn, c₁) ∧ play env order c₁ = some (log₁, c') ∧
      log = turn :: log₁ := by
  simp only [play, Option.bind_eq_some_iff, Option.map_eq_some_iff, Prod.mk.injEq, Prod.exists]
  constructor
  · rintro ⟨turn, c₁, hm, log₁, _, hp, rfl, rfl⟩
    exact ⟨turn, c₁, log₁, hm, hp, rfl⟩
  · rintro ⟨turn, c₁, log₁, hm, hp, rfl⟩
    exact ⟨turn, c₁, hm, log₁, c', hp, rfl, rfl⟩

/-- Only the client that moves has something else left to do. -/
theorem clients_move (h : c.move env i = some (turn, c')) (hj : j ≠ i) :
    c'.clients[j]? = c.clients[j]? := by
  obtain ⟨_, _, _, -, -, -, hc⟩ := move_eq_some.1 h
  rw [hc, List.getElem?_set_ne hj.symm]

theorem client_move (h : c.move env i = some (turn, c')) :
    ∃ p e p', c.clients[i]? = some p ∧ World.move env p c.world = some (e, p', c'.world) ∧
      turn = ⟨i, e.sign⟩ ∧ c'.clients[i]? = some p' := by
  obtain ⟨p, e, p', hp, hm, ht, hc⟩ := move_eq_some.1 h
  refine ⟨p, e, p', hp, hm, ht, ?_⟩
  rw [hc, List.getElem?_set_self (List.getElem?_eq_some_iff.1 hp).1]

theorem Served.done (h : c.Served) {p : Program Bool} (hp : c.clients[i]? = some p) :
    p = .done true := by
  have hanswer := h p (List.mem_of_getElem? hp)
  cases p with
  | done b => exact congrArg Program.done (Option.some.inj hanswer)
  | ask _ _ | askBy _ _ _ => cases hanswer

theorem served_of_answers {answers : List (Option Bool)} (h : c.clients.map answer = answers)
    (hall : ∀ a ∈ answers, a = some true) : c.Served := fun _ hp =>
  hall _ (h ▸ List.mem_map_of_mem hp)

end Crowd

end AccessAdmin
