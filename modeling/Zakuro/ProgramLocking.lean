import Zakuro.ProgramThreads

/-!
# The mutex of the program

No thread touches what the mutex guards without holding it, the count is that of
the instances that have not returned, and the stats thread ends after all of them
and before `main`.
-/

variable {m : Nat} {size : Fin m → Nat}

namespace InstanceThread

/-- It holds the mutex. -/
def holds : InstanceThread → Bool
  | .holding | .counted => true
  | .hatching | .running | .returned | .done => false

/-- `stats_countdown` no longer counts it. -/
def isCounted : InstanceThread → Bool
  | .counted | .done => true
  | .hatching | .running | .returned | .holding => false

/-- `Run` has not returned. -/
def isBusy : InstanceThread → Bool
  | .hatching | .running => true
  | .returned | .holding | .counted | .done => false

end InstanceThread

namespace StatsThread

def holds : StatsThread → Bool
  | .test _ | .snapshot | .writing _ | .unlocking _ => true
  | .absent | .top | .asleep | .woken _ | .exited => false

/-- It has found that some instances are left. -/
def foundSome : StatsThread → Bool
  | .asleep | .snapshot | .writing _ => true
  | .absent | .top | .test _ | .woken _ | .unlocking _ | .exited => false

/-- It has found that none is left. -/
def foundNone : StatsThread → Bool
  | .unlocking exits => exits
  | .exited => true
  | .absent | .top | .test _ | .asleep | .woken _ | .snapshot | .writing _ => false

@[simp] theorem holds_notified (t : StatsThread) : t.notified.holds = t.holds := by
  cases t <;> rfl

@[simp] theorem foundNone_notified (t : StatsThread) : t.notified.foundNone = t.foundNone := by
  cases t <;> rfl

theorem foundSome_notified {t : StatsThread} (h : t.holds = false) : t.notified.foundSome = false := by
  cases t with
  | snapshot => cases h
  | writing report => cases h
  | _ => rfl

end StatsThread

namespace Program

variable {cfg : Fin m → InstanceConfig}

/-! ## The invariant -/

/-- The number of instances that are still counted. -/
def remaining (s : Program size) : Nat := (Finset.univ.filter fun i => (s.instances i).isCounted = false).card

structure Inv (s : Program size) : Prop where
  instanceOwner : ∀ i, (s.instances i).holds = true ↔ s.owner = some (.zakuro i)
  statsOwner : s.statsThread.holds = true ↔ s.owner = some .stats
  countdown : s.countdown = s.remaining
  returned : ∀ i, s.fleet.returned i = (s.instances i).isCounted
  foundSome : s.statsThread.foundSome = true → s.countdown ≠ 0
  foundNone : s.statsThread.foundNone = true → s.countdown = 0
  joined : s.joined ≤ m ∧ ∀ i : Fin m, i.val < s.joined → s.instances i = .done
  main : s.mainReturned = true → s.joined = m ∧ (s.statsThread = .exited ∨ s.statsThread = .absent)

theorem start_inv (fleet : Fleet size) (h : ∀ i, fleet.returned i = false) (statsFile : Bool) :
    Inv (start fleet statsFile) := by
  have hstats : ∀ b : Bool, (if b then StatsThread.top else .absent).holds = false ∧
      (if b then StatsThread.top else .absent).foundSome = false ∧
      (if b then StatsThread.top else .absent).foundNone = false := by
    intro b
    cases b <;> exact ⟨rfl, rfl, rfl⟩
  obtain ⟨hholds, hsome, hnone⟩ := hstats statsFile
  constructor
  · intro i
    simp [start, InstanceThread.holds]
  · rw [start, hholds]
    simp
  · simp [start, remaining, InstanceThread.isCounted]
  · exact h
  · rw [start, hsome]
    simp
  · rw [start, hnone]
    simp
  · exact ⟨Nat.zero_le m, fun i hi => absurd hi (Nat.not_lt_zero _)⟩
  · intro hmain
    cases hmain

theorem moveTo_self (s : Program size) (i : Fin m) (t : InstanceThread) : (s.moveTo i t).instances i = t :=
  Function.update_self ..

theorem moveTo_of_ne (s : Program size) {i j : Fin m} (h : j ≠ i) (t : InstanceThread) :
    (s.moveTo i t).instances j = s.instances j := Function.update_of_ne h ..

/-- What does not differ for the thread that takes a step does not differ at all. -/
theorem moveTo_same {β : Type} (f : InstanceThread → β) {s : Program size} {i : Fin m} {t : InstanceThread}
    (h : f t = f (s.instances i)) (j : Fin m) : f ((s.moveTo i t).instances j) = f (s.instances j) := by
  by_cases hj : j = i
  · subst hj
    rw [moveTo_self, h]
  · rw [moveTo_of_ne s hj]

/-- A step of one instance thread that does not concern the count. -/
theorem remaining_moveTo (s : Program size) (i : Fin m) {t : InstanceThread}
    (h : t.isCounted = (s.instances i).isCounted) : (s.moveTo i t).remaining = s.remaining := by
  rw [remaining, remaining]
  simp only [moveTo_same InstanceThread.isCounted h]

/-- Counting an instance takes it out of the count. -/
theorem remaining_counted (s : Program size) (i : Fin m) (h : (s.instances i).isCounted = false) :
    s.remaining = (s.moveTo i .counted).remaining + 1 := by
  have hsplit : (Finset.univ.filter fun j => (s.instances j).isCounted = false) =
      insert i (Finset.univ.filter fun j => ((s.moveTo i .counted).instances j).isCounted = false) := by
    ext j
    simp only [Finset.mem_insert, Finset.mem_filter, Finset.mem_univ, true_and]
    by_cases hj : j = i
    · subst hj
      exact iff_of_true h (.inl rfl)
    · rw [moveTo_of_ne s hj]
      simp [hj]
  have hnew : i ∉ Finset.univ.filter fun j => ((s.moveTo i .counted).instances j).isCounted = false := by
    simp only [Finset.mem_filter, moveTo_self]
    simp [InstanceThread.isCounted]
  rw [remaining, hsplit, Finset.card_insert_of_notMem hnew]
  rfl

/-- The instance of a step is not one that has been joined. -/
theorem Inv.joined_moveTo {s : Program size} (h : Inv s) {i : Fin m} (t : InstanceThread)
    (hdone : s.instances i ≠ .done) :
    s.joined ≤ m ∧ ∀ j : Fin m, j.val < s.joined → (s.moveTo i t).instances j = .done := by
  refine ⟨h.joined.1, fun j hj => ?_⟩
  have hjdone := h.joined.2 j hj
  have hne : j ≠ i := fun heq => hdone (heq ▸ hjdone)
  rw [moveTo_of_ne s hne, hjdone]

/-- A step of one instance thread that concerns neither the mutex nor the count. -/
theorem Inv.moveTo {s : Program size} (h : Inv s) {i : Fin m} {t : InstanceThread}
    (hholds : t.holds = (s.instances i).holds) (hcounted : t.isCounted = (s.instances i).isCounted)
    (hdone : s.instances i ≠ .done) : Inv (s.moveTo i t) := by
  constructor
  · intro j
    rw [moveTo_same InstanceThread.holds hholds]
    exact h.instanceOwner j
  · exact h.statsOwner
  · rw [remaining_moveTo s i hcounted]
    exact h.countdown
  · intro j
    rw [moveTo_same InstanceThread.isCounted hcounted]
    exact h.returned j
  · exact h.foundSome
  · exact h.foundNone
  · exact h.joined_moveTo t hdone
  · exact h.main

/-! ## Steps of an instance thread -/

theorem Inv.noStats {s : Program size} (h : Inv s) (howner : s.owner ≠ some .stats) :
    s.statsThread.holds = false := by
  cases hholds : s.statsThread.holds with
  | false => rfl
  | true => exact absurd (h.statsOwner.mp hholds) howner

theorem Inv.lock {s : Program size} (h : Inv s) {i : Fin m} (hi : s.instances i = .returned)
    (hfree : s.owner = none) : Inv { s.moveTo i .holding with owner := some (.zakuro i) } := by
  have hnoStats := h.noStats (by rw [hfree]; simp)
  constructor
  · intro j
    dsimp only
    by_cases hj : j = i
    · subst hj
      rw [moveTo_self]
      simp [InstanceThread.holds]
    · have hother := h.instanceOwner j
      rw [hfree] at hother
      rw [moveTo_of_ne s hj]
      simp only [Option.some.injEq, ThreadId.zakuro.injEq]
      exact iff_of_false (fun hholds => nomatch hother.mp hholds) fun heq => hj heq.symm
  · show s.statsThread.holds = true ↔ some (ThreadId.zakuro i) = some .stats
    simp [hnoStats]
  · exact h.countdown.trans (congrArg _ (remaining_moveTo s i (by rw [hi]; rfl)).symm)
  · intro j
    exact (h.returned j).trans (moveTo_same InstanceThread.isCounted (by rw [hi]; rfl) j).symm
  · exact h.foundSome
  · exact h.foundNone
  · exact h.joined_moveTo .holding (by simp [hi])
  · exact h.main

theorem Inv.count {s : Program size} (h : Inv s) {i : Fin m} (hi : s.instances i = .holding) :
    Inv (s.count i) := by
  have howner : s.owner = some (.zakuro i) := (h.instanceOwner i).mp (by rw [hi]; rfl)
  have hnoStats := h.noStats (by rw [howner]; simp)
  have hremaining := remaining_counted s i (by rw [hi]; rfl)
  have hcountdown := h.countdown
  constructor
  · intro j
    exact (iff_of_eq (congrArg (· = true) (moveTo_same InstanceThread.holds (by rw [hi]; rfl) j))).trans
      (h.instanceOwner j)
  · have hstats : (s.count i).statsThread.holds = s.statsThread.holds := by
      rw [Program.count]
      dsimp only
      split <;> simp
    rw [hstats]
    exact h.statsOwner
  · show s.countdown - 1 = ((s.moveTo i .counted).remaining : Int)
    omega
  · intro j
    show Function.update s.fleet.returned i true j = ((s.moveTo i .counted).instances j).isCounted
    by_cases hj : j = i
    · subst hj
      rw [Function.update_self, moveTo_self]
      rfl
    · rw [Function.update_of_ne hj, moveTo_of_ne s hj, h.returned j]
  · rw [Program.count]
    dsimp only
    split
    · intro hsome
      rw [StatsThread.foundSome_notified hnoStats] at hsome
      cases hsome
    · intro _
      assumption
  · rw [Program.count]
    dsimp only
    split
    · intro _
      assumption
    · intro hnone
      have hzero := h.foundNone hnone
      omega
  · exact h.joined_moveTo .counted (by simp [hi])
  · intro hmain
    have hjoined := (h.main hmain).1
    have hdone := h.joined.2 i (by omega)
    rw [hi] at hdone
    cases hdone

theorem Inv.unlock {s : Program size} (h : Inv s) {i : Fin m} (hi : s.instances i = .counted) :
    Inv { s.moveTo i .done with owner := none } := by
  have howner : s.owner = some (.zakuro i) := (h.instanceOwner i).mp (by rw [hi]; rfl)
  constructor
  · intro j
    dsimp only
    by_cases hj : j = i
    · subst hj
      rw [moveTo_self]
      simp [InstanceThread.holds]
    · have hother := h.instanceOwner j
      rw [howner] at hother
      rw [moveTo_of_ne s hj, hother]
      simp only [Option.some.injEq, ThreadId.zakuro.injEq, reduceCtorEq, iff_false]
      exact fun heq => hj heq.symm
  · have hstats := h.statsOwner
    rw [howner] at hstats
    show s.statsThread.holds = true ↔ none = some ThreadId.stats
    rw [hstats]
    simp
  · exact h.countdown.trans (congrArg _ (remaining_moveTo s i (by rw [hi]; rfl)).symm)
  · intro j
    exact (h.returned j).trans (moveTo_same InstanceThread.isCounted (by rw [hi]; rfl) j).symm
  · exact h.foundSome
  · exact h.foundNone
  · exact h.joined_moveTo .done (by simp [hi])
  · exact h.main

/-! ## Steps of the stats thread -/

/-- `main` has not returned while the stats thread can step. -/
theorem Inv.live {s : Program size} (h : Inv s) (hexited : s.statsThread ≠ .exited)
    (habsent : s.statsThread ≠ .absent) : s.mainReturned = false := by
  cases hmain : s.mainReturned with
  | false => rfl
  | true => exact ((h.main hmain).2.elim hexited habsent).elim

/-- A step that changes only what the stats thread is at, and gives and takes the
mutex accordingly. -/
theorem Inv.stats {s t : Program size} (h : Inv s)
    (hsame : t = { s with
      owner := t.owner
      statsThread := t.statsThread
      fleet := { s.fleet with file := t.fleet.file } })
    (hlive : s.mainReturned = false)
    (howner : ∀ i, t.owner = some (.zakuro i) ↔ s.owner = some (.zakuro i))
    (hholds : t.statsThread.holds = true ↔ t.owner = some .stats)
    (hsome : t.statsThread.foundSome = true → s.countdown ≠ 0)
    (hnone : t.statsThread.foundNone = true → s.countdown = 0) : Inv t := by
  have hinstances : t.instances = s.instances := by rw [hsame]
  have hcountdown : t.countdown = s.countdown := by rw [hsame]
  have hreturned : t.fleet.returned = s.fleet.returned := by rw [hsame]
  have hjoined : t.joined = s.joined := by rw [hsame]
  have hmain : t.mainReturned = s.mainReturned := by rw [hsame]
  constructor
  · intro i
    rw [hinstances, howner]
    exact h.instanceOwner i
  · exact hholds
  · rw [hcountdown, remaining, hinstances]
    exact h.countdown
  · rw [hinstances, hreturned]
    exact h.returned
  · rwa [hcountdown]
  · rwa [hcountdown]
  · rw [hinstances, hjoined]
    exact h.joined
  · rw [hmain, hlive]
    exact fun hno => nomatch hno

/-- The thread holds the mutex, so no instance does. -/
theorem Inv.owner_stats {s : Program size} (h : Inv s) (hholds : s.statsThread.holds = true) (i : Fin m) :
    s.owner ≠ some (.zakuro i) := by
  rw [h.statsOwner.mp hholds]
  simp

theorem Inv.statsLock {s : Program size} (h : Inv s)
    (ht : s.statsThread = .top ∨ ∃ b, s.statsThread = .woken b) (hfree : s.owner = none) : Inv s.statsLock := by
  have hlive : s.mainReturned = false := by
    apply h.live <;> rcases ht with ht | ⟨b, ht⟩ <;> simp [ht]
  have htest : ∃ b, s.statsLock.statsThread = .test b := by
    rcases ht with ht | ⟨b, ht⟩
    · exact ⟨false, by rw [Program.statsLock, ht]⟩
    · exact ⟨b, by rw [Program.statsLock, ht]⟩
  obtain ⟨b, htest⟩ := htest
  refine h.stats (t := s.statsLock) rfl hlive ?_ ?_ ?_ ?_
  · intro i
    rw [hfree]
    simp [Program.statsLock]
  · rw [htest]
    exact iff_of_true rfl rfl
  · rw [htest]
    exact fun hno => nomatch hno
  · rw [htest]
    exact fun hno => nomatch hno

theorem Inv.statsTest {s : Program size} (h : Inv s) {b : Bool} (ht : s.statsThread = .test b) :
    Inv s.statsTest := by
  have hlive : s.mainReturned = false := h.live (by simp [ht]) (by simp [ht])
  have howner := h.owner_stats (by rw [ht]; rfl)
  have hmine : s.owner = some .stats := h.statsOwner.mp (by rw [ht]; rfl)
  rw [Program.statsTest, ht]
  dsimp only
  split
  next hzero =>
    exact h.stats (t := { s with statsThread := .unlocking true }) rfl hlive (fun i => Iff.rfl)
      (iff_of_true rfl hmine) (fun hno => nomatch hno) fun _ => hzero
  next hzero =>
    cases b with
    | true =>
      exact h.stats (t := { s with statsThread := .snapshot }) rfl hlive (fun i => Iff.rfl)
        (iff_of_true rfl hmine) (fun _ => hzero) fun hno => nomatch hno
    | false =>
      exact h.stats (t := { s with statsThread := .asleep, owner := none }) rfl hlive
        (fun i => iff_of_false (fun hno => nomatch hno) (howner i))
        (iff_of_false (fun hno => nomatch hno) fun hno => nomatch hno) (fun _ => hzero) fun hno => nomatch hno

theorem Inv.statsWrite {s : Program size} (h : Inv s) {r : Json} (ht : s.statsThread = .writing r) :
    Inv s.statsWrite := by
  have hlive : s.mainReturned = false := h.live (by simp [ht]) (by simp [ht])
  have hmine : s.owner = some .stats := h.statsOwner.mp (by rw [ht]; rfl)
  rw [Program.statsWrite, ht]
  exact h.stats (t := { s with fleet := { s.fleet with file := some r }, statsThread := .unlocking false }) rfl
    hlive (fun i => Iff.rfl) (iff_of_true rfl hmine) (fun hno => nomatch hno) fun hno => nomatch hno

theorem Inv.statsUnlock {s : Program size} (h : Inv s) {b : Bool} (ht : s.statsThread = .unlocking b) :
    Inv s.statsUnlock := by
  have hlive : s.mainReturned = false := h.live (by simp [ht]) (by simp [ht])
  have howner := h.owner_stats (by rw [ht]; rfl)
  have hnone := h.foundNone
  rw [ht] at hnone
  rw [Program.statsUnlock, ht]
  cases b with
  | true =>
    exact h.stats (t := { s with owner := none, statsThread := .exited }) rfl hlive
      (fun i => iff_of_false (fun hno => nomatch hno) (howner i))
      (iff_of_false (fun hno => nomatch hno) fun hno => nomatch hno) (fun hno => nomatch hno) hnone
  | false =>
    exact h.stats (t := { s with owner := none, statsThread := .top }) rfl hlive
      (fun i => iff_of_false (fun hno => nomatch hno) (howner i))
      (iff_of_false (fun hno => nomatch hno) fun hno => nomatch hno) (fun hno => nomatch hno)
      fun hno => nomatch hno

/-! ## All steps -/

/-- An event of an instance leaves the threads alone. -/
theorem Inv.fleetStep {s t : Program size} (h : Inv s) {e : Fleet.Event size}
    (he : ∀ i, e ≠ .returned i) (hs : s.fleetStep cfg e = .ok t) : Inv t := by
  obtain ⟨fleet, hfleet, rfl⟩ := Machine.map_eq_ok hs
  have hreturned : fleet.returned = s.fleet.returned := by
    cases e with
    | run i e =>
      obtain ⟨w, -, rfl⟩ := Machine.map_eq_ok hfleet
      rfl
    | returned i => exact absurd rfl (he i)
    | _ =>
      obtain rfl := Except.ok.inj hfleet
      rfl
  exact { h with
    countdown := h.countdown
    returned := fun i => (congrFun hreturned i).trans (h.returned i) }

theorem step_inv {s t : Program size} {e : Event size} (h : Inv s) (he : Enabled cfg s e)
    (hs : step cfg s e = .ok t) : Inv t := by
  cases e with
  | run i e => exact h.fleetStep (by simp) hs
  | statsTimer i sdk now => exact h.fleetStep (by simp) hs
  | hatch i =>
    obtain rfl := Except.ok.inj hs
    have hi : s.instances i = .hatching := he
    exact h.moveTo (by rw [hi]; rfl) (by rw [hi]; rfl) (by simp [hi])
  | leave i =>
    obtain rfl := Except.ok.inj hs
    have hi : s.instances i = .running := he
    exact h.moveTo (by rw [hi]; rfl) (by rw [hi]; rfl) (by simp [hi])
  | lock i =>
    obtain rfl := Except.ok.inj hs
    exact h.lock he.1 he.2
  | count i =>
    obtain rfl := Except.ok.inj hs
    exact h.count he
  | unlock i =>
    obtain rfl := Except.ok.inj hs
    exact h.unlock he
  | statsLock =>
    obtain rfl := Except.ok.inj hs
    exact h.statsLock he.1 he.2
  | statsTest =>
    obtain rfl := Except.ok.inj hs
    obtain ⟨b, ht⟩ := he
    exact h.statsTest ht
  | wake timedOut =>
    obtain rfl := Except.ok.inj hs
    have ht : s.statsThread = .asleep := he
    have hstats := h.statsOwner
    rw [ht] at hstats
    exact h.stats rfl (h.live (by simp [ht]) (by simp [ht])) (fun i => Iff.rfl) hstats
      (fun hno => nomatch hno) fun hno => nomatch hno
  | statsGet =>
    obtain rfl := Except.ok.inj hs
    have ht : s.statsThread = .snapshot := he
    have hstats := h.statsOwner
    have hsome := h.foundSome
    rw [ht] at hstats hsome
    exact h.stats rfl (h.live (by simp [ht]) (by simp [ht])) (fun i => Iff.rfl) hstats hsome
      fun hno => nomatch hno
  | statsWrite =>
    obtain rfl := Except.ok.inj hs
    obtain ⟨r, ht⟩ := he
    exact h.statsWrite ht
  | statsUnlock =>
    obtain rfl := Except.ok.inj hs
    obtain ⟨b, ht⟩ := he
    exact h.statsUnlock ht
  | joinInstance =>
    obtain rfl := Except.ok.inj hs
    obtain ⟨hlt, hdone⟩ := he
    have hnotMain : s.mainReturned ≠ true := fun hmain => by
      have hjoined := (h.main hmain).1
      omega
    refine { h with
      countdown := h.countdown
      joined := ⟨hlt, fun i hi => ?_⟩
      main := fun hmain => absurd hmain hnotMain }
    rcases Nat.lt_or_ge i.val s.joined with hold | hnew
    · exact h.joined.2 i hold
    · obtain rfl : i = ⟨s.joined, hlt⟩ := Fin.ext (Nat.le_antisymm (Nat.lt_succ_iff.mp hi) hnew)
      exact hdone
  | joinStats =>
    obtain rfl := Except.ok.inj hs
    exact { h with
      countdown := h.countdown
      main := fun _ => ⟨he.1, he.2.1⟩ }

theorem run_inv {s t : Program size} {es : List (Event size)} (h : Machine.Run (machine cfg) s es t)
    (hs : Inv s) : Inv t :=
  h.invariant (I := Inv) (fun _ _ _ hI he hst => step_inv hI he hst) hs

/-! ## What no thread does -/

/-- What the threads keep to. -/
structure Ordered (s : Program size) : Prop where
  /-- One thread at a time holds the mutex. -/
  exclusive : (∀ i j, (s.instances i).holds = true → (s.instances j).holds = true → i = j) ∧
    ∀ i, (s.instances i).holds = true → s.statsThread.holds = false
  countdown : s.countdown = s.remaining
  /-- The stats thread exits when all instances are counted, and writes when some are not. -/
  exits : s.statsThread = .exited → ∀ i, (s.instances i).isCounted = true
  writes : ∀ r, s.statsThread = .writing r → ∃ i, (s.instances i).isCounted = false
  /-- `main` outlives all threads. -/
  outlives : s.mainReturned = true → (∀ i, s.instances i = .done) ∧
    (s.statsThread = .exited ∨ s.statsThread = .absent)

theorem remaining_eq_zero {s : Program size} : s.remaining = 0 ↔ ∀ i, (s.instances i).isCounted = true := by
  rw [remaining, Finset.card_eq_zero, Finset.filter_eq_empty_iff]
  simp

theorem Inv.ordered {s : Program size} (h : Inv s) : Ordered s := by
  have hcountdown := h.countdown
  constructor
  · constructor
    · intro i j hi hj
      have hsame := ((h.instanceOwner i).mp hi).symm.trans ((h.instanceOwner j).mp hj)
      simpa using hsame
    · intro i hi
      exact h.noStats (by rw [(h.instanceOwner i).mp hi]; simp)
  · exact hcountdown
  · intro ht
    have hzero := h.foundNone (by rw [ht]; rfl)
    exact remaining_eq_zero.mp (by omega)
  · intro r ht
    have hsome := h.foundSome (by rw [ht]; rfl)
    by_contra hnone
    refine hsome ?_
    rw [hcountdown, remaining_eq_zero.mpr fun i => ?_]
    · rfl
    · cases hi : (s.instances i).isCounted with
      | true => rfl
      | false => exact absurd ⟨i, hi⟩ hnone
  · intro hmain
    obtain ⟨hjoined, hstats⟩ := h.main hmain
    exact ⟨fun i => h.joined.2 i (by omega), hstats⟩

/-- In every run of the program the threads exclude each other, count the
instances that have not returned, and end in their order. -/
theorem threads_ordered {fleet : Fleet size} (hfleet : ∀ i, fleet.returned i = false) (statsFile : Bool)
    {es : List (Event size)} {s : Program size} (h : Machine.Run (machine cfg) (start fleet statsFile) es s) :
    Ordered s :=
  (run_inv h (start_inv fleet hfleet statsFile)).ordered

/-- The instance returns while a report is being taken, and waits for the mutex. -/
def returningEvents (i : Fin m) : List (Event size) :=
  [.hatch i, .statsLock, .statsTest, .wake true, .statsLock, .statsTest, .statsGet, .leave i, .statsWrite,
    .statsUnlock, .lock i, .count i]

theorem returning_run : ∃ s : Program (fun _ : Fin 1 => 1),
    Machine.Run (machine Fleet.soraConfig) (start { instances := fun _ => {} } true) (returningEvents 0) s ∧
      (∀ i, (s.instances i).isBusy = false) ∧ s.countdown = 0 := by
  refine ⟨_, .cons rfl rfl <| .cons ⟨.inl rfl, rfl⟩ rfl <| .cons ⟨false, rfl⟩ rfl <| .cons rfl rfl <|
    .cons ⟨.inr ⟨true, rfl⟩, rfl⟩ rfl <| .cons ⟨true, rfl⟩ rfl <| .cons rfl rfl <| .cons rfl rfl <|
    .cons ⟨_, rfl⟩ rfl <| .cons ⟨false, rfl⟩ rfl <| .cons ⟨rfl, rfl⟩ rfl <| .single rfl rfl, ?_, rfl⟩
  intro i
  obtain rfl : i = 0 := Subsingleton.elim _ _
  rfl

theorem threads_ordered_returning : ∃ s : Program (fun _ : Fin 1 => 1),
    Machine.Run (machine Fleet.soraConfig) (start { instances := fun _ => {} } true) (returningEvents 0) s ∧
      Ordered s := by
  obtain ⟨s, hs, -⟩ := returning_run
  exact ⟨s, hs, threads_ordered (fun _ => rfl) true hs⟩

end Program
