import Zakuro.Replay

/-!
# Requests and answers on one connection

The life of a connection that serves one request at a time, stated without the
server: the next request is waited for, comes in, is answered and its answer is
written, and only then the next one is waited for. The requests are numbered as
they come. In an accepted trace every request but the last is answered once and
its answer written, in the order of the requests.
-/

namespace RequestProtocol

open Replay (replay)

inductive Act where
  | wait : Act
  | request : Act
  | answer : Nat → Act
  | written : Nat → Act
  | close : Act
  deriving DecidableEq, Repr

inductive Phase where
  | idle : Phase
  | waiting : Phase
  | asked : Phase
  | answered : Phase
  | ended : Phase
  deriving DecidableEq, Repr

/-- The number of requests so far and where the last one stands. -/
structure State where
  requests : Nat
  phase : Phase
  deriving DecidableEq, Repr

def start : State := ⟨0, .idle⟩

def step (s : State) : Act → Option State
  | .wait => if s.phase = .idle then some ⟨s.requests, .waiting⟩ else none
  | .request => if s.phase = .waiting then some ⟨s.requests + 1, .asked⟩ else none
  | .answer n =>
    if s.phase = .asked ∧ n + 1 = s.requests then some ⟨s.requests, .answered⟩ else none
  | .written n =>
    if s.phase = .answered ∧ n + 1 = s.requests then some ⟨s.requests, .idle⟩ else none
  | .close =>
    if s.phase = .idle ∨ s.phase = .waiting then some ⟨s.requests, .ended⟩ else none

def answers : List Act → List Nat :=
  List.filterMap fun
    | .answer n => some n
    | _ => none

def writes : List Act → List Nat :=
  List.filterMap fun
    | .written n => some n
    | _ => none

/-- The requests that the last one leaves answered, and written. -/
def Phase.behind : Phase → Nat × Nat
  | .idle => (0, 0)
  | .waiting => (0, 0)
  | .asked => (1, 1)
  | .answered => (0, 1)
  | .ended => (0, 0)

/-- The number of requests that have been answered. -/
def State.answered (s : State) : Nat := s.requests - s.phase.behind.1

theorem Phase.behind_le_one (p : Phase) : p.behind.1 ≤ 1 := by
  cases p <;> decide

theorem State.requests_le (s : State) : s.requests ≤ s.answered + 1 := by
  have h := s.phase.behind_le_one
  rw [State.answered]
  omega

structure Tracks (acts : List Act) (s : State) : Prop where
  requests : acts.count .request = s.requests
  behind : s.phase.behind.2 ≤ s.requests
  answers : answers acts = List.range s.answered
  writes : writes acts = List.range (s.requests - s.phase.behind.2)
  /-- Whenever a request is waited for, all before it have been written. -/
  waits : ∀ before after, acts = before ++ .wait :: after →
    RequestProtocol.writes before = List.range (before.count .request)

theorem tracks_start : Tracks [] start := by
  constructor <;> simp [start, State.answered, Phase.behind, RequestProtocol.answers, RequestProtocol.writes]

theorem answers_snoc (acts : List Act) (a : Act) :
    answers (acts ++ [a]) = answers acts ++ answers [a] :=
  List.filterMap_append

theorem writes_snoc (acts : List Act) (a : Act) :
    writes (acts ++ [a]) = writes acts ++ writes [a] :=
  List.filterMap_append

/-- What a new act adds to the places where a request is waited for. -/
theorem Tracks.waits_snoc {acts : List Act} {s : State} {a : Act} (h : Tracks acts s)
    (ha : a = .wait → s.phase.behind.2 = 0) : ∀ before after,
    acts ++ [a] = before ++ .wait :: after →
      RequestProtocol.writes before = List.range (before.count .request) := by
  intro before after he
  rcases List.eq_nil_or_concat after with rfl | ⟨after, b, rfl⟩
  · obtain ⟨rfl, ha'⟩ := List.append_inj' he rfl
    rw [h.writes, ha (by simpa using ha'), h.requests, Nat.sub_zero]
  · have he : acts ++ [a] = (before ++ .wait :: after) ++ [b] := by simpa using he
    exact h.waits before after (List.append_inj' he rfl).1

/-- A step keeps the account if the numbers of the new state count the new act. -/
theorem Tracks.snoc {acts : List Act} {s t : State} {a : Act} (h : Tracks acts s)
    (hrequests : t.requests = s.requests + [a].count .request) (hbehind : t.phase.behind.2 ≤ t.requests)
    (hanswers : List.range t.answered = List.range s.answered ++ RequestProtocol.answers [a])
    (hwrites : List.range (t.requests - t.phase.behind.2) =
      List.range (s.requests - s.phase.behind.2) ++ RequestProtocol.writes [a])
    (hwait : a = .wait → s.phase.behind.2 = 0) : Tracks (acts ++ [a]) t where
  requests := by rw [List.count_append, h.requests, hrequests]
  behind := hbehind
  answers := by rw [answers_snoc, h.answers, hanswers]
  writes := by rw [writes_snoc, h.writes, hwrites]
  waits := h.waits_snoc hwait

theorem Tracks.step {acts : List Act} {s t : State} {a : Act} (h : Tracks acts s)
    (hs : step s a = some t) : Tracks (acts ++ [a]) t := by
  obtain ⟨n, p⟩ := s
  have hbehind := h.behind
  cases a with
  | wait =>
    simp only [RequestProtocol.step, Option.ite_none_right_eq_some, Option.some.injEq] at hs
    obtain ⟨rfl, rfl⟩ := hs
    exact h.snoc rfl hbehind (List.append_nil _).symm (List.append_nil _).symm fun _ => rfl
  | request =>
    simp only [RequestProtocol.step, Option.ite_none_right_eq_some, Option.some.injEq] at hs
    obtain ⟨rfl, rfl⟩ := hs
    exact h.snoc rfl (Nat.le_add_left 1 n) (List.append_nil _).symm (List.append_nil _).symm nofun
  | answer m =>
    simp only [RequestProtocol.step, Option.ite_none_right_eq_some, Option.some.injEq] at hs
    obtain ⟨⟨rfl, rfl⟩, rfl⟩ := hs
    refine h.snoc rfl hbehind ?_ (List.append_nil _).symm nofun
    simp [RequestProtocol.answers, State.answered, Phase.behind, List.range_succ]
  | written m =>
    simp only [RequestProtocol.step, Option.ite_none_right_eq_some, Option.some.injEq] at hs
    obtain ⟨⟨rfl, rfl⟩, rfl⟩ := hs
    refine h.snoc rfl (Nat.zero_le _) (List.append_nil _).symm ?_ nofun
    simp [RequestProtocol.writes, Phase.behind, List.range_succ]
  | close =>
    simp only [RequestProtocol.step, Option.ite_none_right_eq_some, Option.some.injEq] at hs
    obtain ⟨hp, rfl⟩ := hs
    obtain hp : p.behind = (0, 0) := by rcases hp with rfl | rfl <;> rfl
    refine h.snoc rfl (Nat.zero_le _) ?_ ?_ nofun
    · rw [State.answered, State.answered, hp]
      exact (List.append_nil _).symm
    · rw [hp]
      exact (List.append_nil _).symm

/-- Every accepted trace is tracked by the state it ends in. -/
theorem tracks_of_replay {acts : List Act} {s : State}
    (h : replay step start acts = some s) : Tracks acts s :=
  Replay.replay_induction (motive := Tracks) tracks_start
    (fun _ _ _ _ _ hacts hs => hacts.step hs) h

end RequestProtocol
