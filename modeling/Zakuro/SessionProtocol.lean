import Mathlib.Data.List.Sublists
import Zakuro.Replay

/-!
# One session at a time

The life of the sessions of one client, stated without the client: a session is
created, is used, may be asked once to disconnect, and reports its end; only
then is the next one created. A trace is accepted when every act is allowed
where it happens, and an accepted trace has the properties one expects of
sessions.
-/

namespace SessionProtocol

inductive Act where
  | create : Nat → Act
  | send : Nat → Act
  | disconnect : Nat → Act
  | report : Nat → Act
  deriving DecidableEq, Repr

inductive Phase where
  | idle : Phase
  | up : Nat → Phase
  | leaving : Nat → Phase
  deriving DecidableEq, Repr

structure State where
  next : Nat
  phase : Phase
  deriving DecidableEq, Repr

def start : State := ⟨0, .idle⟩

def step (s : State) : Act → Option State
  | .create n => if s.phase = .idle ∧ n = s.next then some ⟨n + 1, .up n⟩ else none
  | .send n => if s.phase = .up n then some s else none
  | .disconnect n => if s.phase = .up n then some ⟨s.next, .leaving n⟩ else none
  | .report n =>
    if s.phase = .up n ∨ s.phase = .leaving n then some ⟨s.next, .idle⟩ else none

def replay (acts : List Act) : Option State := acts.foldlM step start

theorem replay_snoc (acts : List Act) (a : Act) :
    replay (acts ++ [a]) = (replay acts).bind fun s => step s a :=
  Replay.replay_snoc acts a

/-- The session that is created and has not reported its end. -/
def Phase.session : Phase → Option Nat
  | .idle => none
  | .up n => some n
  | .leaving n => some n

/-- What the state after an accepted trace knows of the trace. -/
structure Tracks (acts : List Act) (s : State) : Prop where
  created : ∀ n, .create n ∈ acts ↔ n < s.next
  reported : ∀ n, .report n ∈ acts ↔ n < s.next ∧ s.phase.session ≠ some n
  session : ∀ n, s.phase.session = some n → n < s.next
  asked : ∀ n, .disconnect n ∈ acts → n < s.next ∧ s.phase ≠ .up n
  leaving : ∀ n, s.phase = .leaving n → .disconnect n ∈ acts
  askedOnce : ∀ n, acts.count (.disconnect n) ≤ 1
  noLateSend : ∀ n, ¬ [Act.disconnect n, .send n].Sublist acts

theorem sublist_pair_snoc {α : Type} {a b c : α} {l : List α} :
    [a, b].Sublist (l ++ [c]) ↔ [a, b].Sublist l ∨ (b = c ∧ a ∈ l) := by
  constructor
  · intro h
    obtain ⟨l₁, l₂, he, h₁, h₂⟩ := List.sublist_append_iff.mp h
    rcases l₂ with _ | ⟨x, _ | ⟨y, l₂⟩⟩
    · left; simpa [he] using h₁
    · right
      obtain ⟨rfl, rfl⟩ : l₁ = [a] ∧ x = b := by
        rcases l₁ with _ | ⟨z, _ | ⟨w, l₁⟩⟩ <;> simp_all
      exact ⟨by simpa using h₂, by simpa using h₁⟩
    · have := h₂.length_le; simp at this
  · rintro (h | ⟨rfl, h⟩)
    · exact h.trans (List.sublist_append_left _ _)
    · exact List.Sublist.append (List.singleton_sublist.mpr h) (List.Sublist.refl [b])

theorem tracks_start : Tracks [] start := by
  constructor <;> simp [start, Phase.session]

theorem Tracks.create {acts : List Act} {n : Nat} (h : Tracks acts ⟨n, .idle⟩) :
    Tracks (acts ++ [.create n]) ⟨n + 1, .up n⟩ := by
  have hasked : Act.disconnect n ∉ acts := fun hd => by simpa using (h.asked n hd).1
  have hreported := h.reported
  constructor
  · intro m
    simp only [List.mem_append, h.created, List.mem_singleton, Act.create.injEq]
    omega
  · intro m
    simp only [List.mem_append, hreported, List.mem_singleton, reduceCtorEq, Phase.session,
      Option.some.injEq, ne_eq, not_false_eq_true, and_true, or_false]
    omega
  · intro m hm
    obtain rfl : n = m := by simpa [Phase.session] using hm
    simp
  · intro m hm
    have hm : Act.disconnect m ∈ acts := by simpa using hm
    have := (h.asked m hm).1
    refine ⟨Nat.lt_succ_of_lt this, ?_⟩
    rintro he
    obtain rfl : n = m := by simpa using he
    exact hasked hm
  · simp
  · intro m
    simpa [List.count_append] using h.askedOnce m
  · intro m
    simpa [sublist_pair_snoc] using h.noLateSend m

theorem Tracks.send {acts : List Act} {s : State} {n : Nat} (h : Tracks acts s)
    (hn : s.phase = .up n) : Tracks (acts ++ [.send n]) s := by
  constructor
  · simpa using h.created
  · simpa using h.reported
  · exact h.session
  · simpa using h.asked
  · simpa using h.leaving
  · intro m
    simpa [List.count_append] using h.askedOnce m
  · intro m
    rw [sublist_pair_snoc]
    rintro (hm | ⟨he, hm⟩)
    · exact h.noLateSend m hm
    · obtain rfl : m = n := by simpa using he
      exact (h.asked m hm).2 hn

theorem Tracks.disconnect {acts : List Act} {k n : Nat} (h : Tracks acts ⟨k, .up n⟩) :
    Tracks (acts ++ [.disconnect n]) ⟨k, .leaving n⟩ := by
  have hfresh : Act.disconnect n ∉ acts := fun hd => (h.asked n hd).2 rfl
  have hlt : n < k := h.session n rfl
  constructor
  · simpa using h.created
  · simpa [Phase.session] using h.reported
  · simpa [Phase.session] using h.session
  · intro m hm
    rcases List.mem_append.mp hm with hm | hm
    · exact ⟨(h.asked m hm).1, by simp⟩
    · obtain rfl : m = n := by simpa using hm
      exact ⟨hlt, by simp⟩
  · intro m hm
    obtain rfl : n = m := by simpa using hm
    simp
  · intro m
    rw [List.count_append]
    by_cases hm : m = n
    · subst hm
      simp [List.count_eq_zero.mpr hfresh]
    · have := h.askedOnce m
      simpa [List.count_singleton, Ne.symm hm] using this
  · intro m
    simpa [sublist_pair_snoc] using h.noLateSend m

theorem Tracks.report {acts : List Act} {s : State} {n : Nat} (h : Tracks acts s)
    (hn : s.phase.session = some n) : Tracks (acts ++ [.report n]) ⟨s.next, .idle⟩ := by
  have hlt : n < s.next := h.session n hn
  constructor
  · simpa using h.created
  · intro m
    have hidle : Phase.idle.session = none := rfl
    simp only [List.mem_append, h.reported, hn, hidle, List.mem_singleton, Act.report.injEq,
      Option.some.injEq, ne_eq, reduceCtorEq, not_false_eq_true, and_true]
    constructor
    · rintro (⟨hm, _⟩ | rfl)
      · exact hm
      · exact hlt
    · intro hm
      by_cases he : n = m
      · exact .inr he.symm
      · exact .inl ⟨hm, he⟩
  · simp [Phase.session]
  · intro m hm
    have hm : Act.disconnect m ∈ acts := by simpa using hm
    exact ⟨(h.asked m hm).1, by simp⟩
  · simp
  · intro m
    simpa [List.count_append] using h.askedOnce m
  · intro m
    simpa [sublist_pair_snoc] using h.noLateSend m

theorem Tracks.step {acts : List Act} {s t : State} {a : Act} (h : Tracks acts s)
    (hs : step s a = some t) : Tracks (acts ++ [a]) t := by
  obtain ⟨k, p⟩ := s
  cases a with
  | create n =>
    simp only [SessionProtocol.step, Option.ite_none_right_eq_some, Option.some.injEq] at hs
    obtain ⟨⟨rfl, rfl⟩, rfl⟩ := hs
    exact h.create
  | send n =>
    simp only [SessionProtocol.step, Option.ite_none_right_eq_some, Option.some.injEq] at hs
    obtain ⟨hp, rfl⟩ := hs
    exact h.send hp
  | disconnect n =>
    simp only [SessionProtocol.step, Option.ite_none_right_eq_some, Option.some.injEq] at hs
    obtain ⟨rfl, rfl⟩ := hs
    exact h.disconnect
  | report n =>
    simp only [SessionProtocol.step, Option.ite_none_right_eq_some, Option.some.injEq] at hs
    obtain ⟨hp, rfl⟩ := hs
    exact h.report (by rcases hp with rfl | rfl <;> rfl)

/-- Every accepted trace is tracked by the state it ends in. -/
theorem tracks_of_replay {acts : List Act} {s : State} (h : replay acts = some s) :
    Tracks acts s :=
  Replay.replay_induction (motive := Tracks) tracks_start
    (fun _ _ _ _ _ hacts hs => hacts.step hs) h

/-- A session has been created and has not reported. -/
def LiveIn (acts : List Act) (n : Nat) : Prop := .create n ∈ acts ∧ .report n ∉ acts

theorem Tracks.live_iff {acts : List Act} {s : State} (h : Tracks acts s) (n : Nat) :
    LiveIn acts n ↔ s.phase.session = some n := by
  rw [LiveIn, h.created, h.reported]
  constructor
  · rintro ⟨hlt, hn⟩
    by_contra he
    exact hn ⟨hlt, he⟩
  · intro he
    exact ⟨h.session n he, fun hn => hn.2 he⟩

/-- At no point of an accepted trace are two sessions live. -/
theorem live_unique {acts : List Act} {s : State} (h : replay acts = some s) {m n : Nat}
    (hm : LiveIn acts m) (hn : LiveIn acts n) : m = n := by
  have ht := tracks_of_replay h
  have he := ((ht.live_iff m).mp hm).symm.trans ((ht.live_iff n).mp hn)
  simpa using he

end SessionProtocol
