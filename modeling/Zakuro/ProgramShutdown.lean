import Mathlib.Algebra.Order.BigOperators.Group.Finset
import Zakuro.ProgramLocking

/-!
# The end of the program

Seen without its threads, the program is the one whose reports are known. The
wake-up of the stats thread is not lost: once the instances have returned, the
threads come to their ends without any timer.
-/

variable {m : Nat} {size : Fin m → Nat}

/-- How far it is from its end. Counting itself may wake the stats thread. -/
def InstanceThread.rank : InstanceThread → Nat
  | .hatching => 13
  | .running => 12
  | .returned => 11
  | .holding => 10
  | .counted => 1
  | .done => 0

/-- How far it is from its end or from the next wait. -/
def StatsThread.rank : StatsThread → Nat
  | .woken _ => 9
  | .test true => 8
  | .snapshot => 7
  | .writing _ => 6
  | .unlocking false => 5
  | .top => 4
  | .test false => 3
  | .asleep => 2
  | .unlocking true => 1
  | .exited | .absent => 0

namespace Program

variable {cfg : Fin m → InstanceConfig}

/-! ## The program without its threads -/

/-- The file as it is when the report that is being written counts as written. -/
def view (s : Program size) : Fleet size :=
  match s.statsThread with
  | .writing report => { s.fleet with file := some report }
  | _ => s.fleet

/-- The event that a step of a thread is to the program as a whole. -/
def fleetEvents : Event size → List (Fleet.Event size)
  | .run i e => [.run i e]
  | .statsTimer i sdk now => [.statsTimer i sdk now]
  | .count i => [.returned i]
  | .statsGet => [.statsThread]
  | .hatch _ | .leave _ | .lock _ | .unlock _ | .statsLock | .statsTest | .wake _ | .statsWrite
  | .statsUnlock | .joinInstance | .joinStats => []

theorem view_instances (s : Program size) : s.view.instances = s.fleet.instances ∧
    s.view.returned = s.fleet.returned ∧ s.view.stats = s.fleet.stats := by
  rw [view]
  split <;> exact ⟨rfl, rfl, rfl⟩

/-- An event of an instance is the same one while a report is being written. -/
theorem step_view {s t : Program size} {e : Fleet.Event size} (he : ∀ i, e ≠ .returned i)
    (he' : e ≠ .statsThread) (hs : s.fleetStep cfg e = .ok t) : Fleet.step cfg s.view e = .ok t.view := by
  obtain ⟨fleet, hfleet, rfl⟩ := Machine.map_eq_ok hs
  obtain ⟨hinstances, -, hstats⟩ := s.view_instances
  cases e with
  | run i e =>
    obtain ⟨w, hw, rfl⟩ := Machine.map_eq_ok hfleet
    rw [Fleet.step, hinstances, hw, view, view]
    cases s.statsThread <;> rfl
  | statsTimer i sdk now =>
    obtain rfl := Except.ok.inj hfleet
    rw [Fleet.step, Fleet.onStatsTimer, hinstances, hstats, view, view]
    cases s.statsThread <;> rfl
  | returned i => exact absurd rfl (he i)
  | statsThread => exact absurd rfl he'

theorem view_of_quiet {s : Program size} (h : ∀ r, s.statsThread ≠ .writing r) : s.view = s.fleet := by
  rw [view]
  split
  next r hr => exact absurd hr (h r)
  next => rfl

theorem notWriting_of_free {t : StatsThread} (h : t.holds = false) (r : Json) : t ≠ .writing r := by
  rintro rfl
  cases h

/-- Each step of a thread is, to the program as a whole, an event or nothing. -/
theorem projects (cfg : Fin m → InstanceConfig) :
    ((machine cfg).restrict fun (s : Program size) _ => Inv s).ProjectsTo (Fleet.machine cfg) view
      (fun _ => fleetEvents) := by
  rintro s e t ⟨he, hI⟩ hs
  obtain ⟨hinstances, hreturned, hstats⟩ := s.view_instances
  cases e with
  | run i e =>
    refine .single ⟨?_, ?_⟩ (step_view (e := .run i e) (by simp) (by simp) hs)
    · rw [hreturned, hI.returned, he.1]
      rfl
    · rw [hinstances]
      exact he.2
  | statsTimer i sdk now =>
    refine .single ⟨?_, ?_⟩ (step_view (e := .statsTimer i sdk now) (by simp) (by simp) hs)
    · rw [hreturned, hI.returned, he.1]
      rfl
    · rw [hinstances]
      exact he.2
  | count i =>
    obtain rfl := Except.ok.inj hs
    have hi : s.instances i = .holding := he
    have hfree := hI.noStats (by rw [(hI.instanceOwner i).mp (by rw [hi]; rfl)]; simp)
    have hview := view_of_quiet (notWriting_of_free hfree)
    have hquiet : ∀ r, (s.count i).statsThread ≠ .writing r := by
      apply notWriting_of_free
      rw [count]
      dsimp only
      split <;> simp [hfree]
    rw [view_of_quiet hquiet, hview]
    refine .single ?_ rfl
    show s.fleet.returned i = false
    rw [hI.returned, hi]
    rfl
  | statsGet =>
    obtain rfl := Except.ok.inj hs
    have ht : s.statsThread = .snapshot := he
    have hview : s.view = s.fleet := view_of_quiet (by simp [ht])
    rw [hview]
    refine .single ?_ rfl
    have hsome := hI.foundSome (by rw [ht]; rfl)
    by_contra hnone
    refine hsome ?_
    rw [hI.countdown, remaining_eq_zero.mpr fun i => ?_]
    · rfl
    · cases hi : (s.instances i).isCounted with
      | true => rfl
      | false => exact absurd ⟨i, (hI.returned i).trans hi⟩ hnone
  | statsWrite =>
    obtain rfl := Except.ok.inj hs
    obtain ⟨r, ht⟩ := he
    refine Machine.Run.same ?_
    rw [view, view, statsWrite, ht]
  | statsLock =>
    obtain rfl := Except.ok.inj hs
    have hbefore : ∀ r, s.statsThread ≠ .writing r := by
      rcases he.1 with ht | ⟨b, ht⟩ <;> simp [ht]
    have hafter : ∀ r, s.statsLock.statsThread ≠ .writing r := by
      rcases he.1 with ht | ⟨b, ht⟩ <;> simp [statsLock, ht]
    exact Machine.Run.same ((view_of_quiet hafter).trans (view_of_quiet hbefore).symm)
  | statsTest =>
    obtain rfl := Except.ok.inj hs
    obtain ⟨b, ht⟩ := he
    refine Machine.Run.same ?_
    rw [view_of_quiet (s := s) (by simp [ht]), statsTest, ht]
    dsimp only
    split
    · rfl
    · split <;> rfl
  | wake timedOut =>
    obtain rfl := Except.ok.inj hs
    have ht : s.statsThread = .asleep := he
    refine Machine.Run.same ?_
    rw [view_of_quiet (s := s) (by simp [ht])]
    rfl
  | statsUnlock =>
    obtain rfl := Except.ok.inj hs
    obtain ⟨b, ht⟩ := he
    refine Machine.Run.same ?_
    rw [view_of_quiet (s := s) (by simp [ht]), statsUnlock, ht]
    cases b <;> rfl
  | _ =>
    obtain rfl := Except.ok.inj hs
    exact .nil _

/-- Every run of the threads is a run of the program in which an instance returns
at once and a report is taken and written at once: the threads add nothing to
what is known of the reports and of the clients. -/
theorem threads_refine {fleet : Fleet size} (hfleet : ∀ i, fleet.returned i = false) (statsFile : Bool)
    {es : List (Event size)} {s : Program size} (h : Machine.Run (machine cfg) (start fleet statsFile) es s) :
    Machine.Run (Fleet.machine cfg) fleet (es.flatMap fleetEvents) s.view := by
  have hstart := start_inv fleet hfleet statsFile
  have hrun := (h.restrict_invariant (I := Inv) (fun _ _ _ hI he hs => step_inv hI he hs) hstart).project
    (projects cfg)
  rw [Machine.outputs_restrict, h.outputs_eq_flatMap] at hrun
  have hview : (start fleet statsFile).view = fleet := by
    cases statsFile <;> rfl
  rwa [hview] at hrun

theorem threads_refine_returning : ∃ s : Program (fun _ : Fin 1 => 1),
    Machine.Run (machine Fleet.soraConfig) (start { instances := fun _ => {} } true) (returningEvents 0) s ∧
      Machine.Run (Fleet.machine Fleet.soraConfig) { instances := fun _ => {} } [.statsThread, .returned 0]
        s.view := by
  obtain ⟨s, hs, -⟩ := returning_run
  exact ⟨s, hs, threads_refine (fun _ => rfl) true hs⟩

/-! ## The end -/

/-- The threads without the timeout and the spurious wake-ups of the wait. -/
def quiet (cfg : Fin m → InstanceConfig) : Machine (Program size) (Event size) ScenarioPlayer.Fault :=
  (machine cfg).restrict fun _ e => e.isWake = false

/-- All instances have returned. -/
def Idle (s : Program size) : Prop := ∀ i, (s.instances i).isBusy = false

def instancesRank (f : Fin m → InstanceThread) : Nat := ∑ i, (f i).rank

def rank (s : Program size) : Nat :=
  instancesRank s.instances + s.statsThread.rank + (m - s.joined) + if s.mainReturned then 0 else 1

theorem rank_moveTo (s : Program size) (i : Fin m) (t : InstanceThread) {a b : Nat}
    (ha : (s.instances i).rank = a) (hb : t.rank = b) :
    instancesRank (s.moveTo i t).instances + a = instancesRank s.instances + b := by
  have hafter := Finset.add_sum_erase Finset.univ (fun j => ((s.moveTo i t).instances j).rank)
    (Finset.mem_univ i)
  have hbefore := Finset.add_sum_erase Finset.univ (fun j => (s.instances j).rank) (Finset.mem_univ i)
  have hrest : ∑ j ∈ Finset.univ.erase i, ((s.moveTo i t).instances j).rank =
      ∑ j ∈ Finset.univ.erase i, (s.instances j).rank :=
    Finset.sum_congr rfl fun j hj => by rw [moveTo_of_ne s (Finset.ne_of_mem_erase hj)]
  rw [moveTo_self] at hafter
  rw [instancesRank, instancesRank]
  omega

theorem Idle.moveTo {s : Program size} (h : Idle s) {i : Fin m} {t : InstanceThread}
    (ht : t.isBusy = false) : Idle (s.moveTo i t) := by
  intro j
  by_cases hj : j = i
  · subst hj
    rwa [moveTo_self]
  · rw [moveTo_of_ne s hj]
    exact h j

theorem rank_notified (t : StatsThread) : t.notified.rank ≤ t.rank + 7 := by
  cases t <;> simp [StatsThread.notified, StatsThread.rank]

/-- Every step of an idle program brings it nearer to its end. -/
theorem quiet_drops {s t : Program size} {e : Event size} (hidle : Idle s)
    (he : (quiet cfg).enabled s e) (hs : (quiet cfg).step s e = .ok t) : Idle t ∧ t.rank < s.rank := by
  obtain ⟨he, hwake⟩ := he
  cases e with
  | run i e =>
    have hbusy := hidle i
    rw [he.1] at hbusy
    cases hbusy
  | statsTimer i sdk now =>
    have hbusy := hidle i
    rw [he.1] at hbusy
    cases hbusy
  | hatch i =>
    have hi : s.instances i = .hatching := he
    have hbusy := hidle i
    rw [hi] at hbusy
    cases hbusy
  | leave i =>
    have hi : s.instances i = .running := he
    have hbusy := hidle i
    rw [hi] at hbusy
    cases hbusy
  | lock i =>
    obtain rfl := Except.ok.inj hs
    have hrank := rank_moveTo s i .holding (a := 11) (b := 10) (by rw [he.1]; rfl) rfl
    refine ⟨hidle.moveTo rfl, ?_⟩
    show instancesRank (s.moveTo i .holding).instances + s.statsThread.rank + (m - s.joined) +
      (if s.mainReturned then 0 else 1) < s.rank
    rw [rank]
    omega
  | count i =>
    obtain rfl := Except.ok.inj hs
    have hi : s.instances i = .holding := he
    have hrank := rank_moveTo s i .counted (a := 10) (b := 1) (by rw [hi]; rfl) rfl
    have hstats : (s.count i).statsThread.rank ≤ s.statsThread.rank + 7 := by
      rw [count]
      dsimp only
      split
      · exact rank_notified s.statsThread
      · exact Nat.le_add_right _ _
    refine ⟨hidle.moveTo rfl, ?_⟩
    show instancesRank (s.moveTo i .counted).instances + (s.count i).statsThread.rank + (m - s.joined) +
      (if s.mainReturned then 0 else 1) < s.rank
    rw [rank]
    omega
  | unlock i =>
    obtain rfl := Except.ok.inj hs
    have hi : s.instances i = .counted := he
    have hrank := rank_moveTo s i .done (a := 1) (b := 0) (by rw [hi]; rfl) rfl
    refine ⟨hidle.moveTo rfl, ?_⟩
    show instancesRank (s.moveTo i .done).instances + s.statsThread.rank + (m - s.joined) +
      (if s.mainReturned then 0 else 1) < s.rank
    rw [rank]
    omega
  | statsLock =>
    obtain rfl := Except.ok.inj hs
    refine ⟨hidle, ?_⟩
    rcases he.1 with ht | ⟨b, ht⟩
    · simp [rank, statsLock, ht, StatsThread.rank]
    · cases b <;> simp [rank, statsLock, ht, StatsThread.rank]
  | statsTest =>
    obtain rfl := Except.ok.inj hs
    obtain ⟨b, ht⟩ := he
    rw [statsTest, ht]
    dsimp only
    by_cases hzero : s.countdown = 0
    · rw [if_pos hzero]
      refine ⟨hidle, ?_⟩
      cases b <;> simp [rank, ht, StatsThread.rank]
    · rw [if_neg hzero]
      cases b with
      | false => exact ⟨hidle, by simp [rank, ht, StatsThread.rank]⟩
      | true => exact ⟨hidle, by simp [rank, ht, StatsThread.rank]⟩
  | wake timedOut => cases hwake
  | statsGet =>
    obtain rfl := Except.ok.inj hs
    have ht : s.statsThread = .snapshot := he
    exact ⟨hidle, by simp [rank, ht, StatsThread.rank]⟩
  | statsWrite =>
    obtain rfl := Except.ok.inj hs
    obtain ⟨r, ht⟩ := he
    rw [statsWrite, ht]
    exact ⟨hidle, by simp [rank, ht, StatsThread.rank]⟩
  | statsUnlock =>
    obtain rfl := Except.ok.inj hs
    obtain ⟨b, ht⟩ := he
    rw [statsUnlock, ht]
    refine ⟨hidle, ?_⟩
    cases b <;> simp [rank, ht, StatsThread.rank]
  | joinInstance =>
    obtain rfl := Except.ok.inj hs
    obtain ⟨hlt, -⟩ := he
    refine ⟨hidle, ?_⟩
    simp only [rank]
    omega
  | joinStats =>
    obtain rfl := Except.ok.inj hs
    obtain ⟨-, -, hmain⟩ := he
    refine ⟨hidle, ?_⟩
    simp only [rank, hmain, if_true, Bool.false_eq_true, if_false]
    omega

/-- Until `main` returns, some thread of an idle program can go on, and need not
wait for a timer. -/
theorem quiet_goes {s : Program size} (hidle : Idle s) (hI : Inv s) :
    s.mainReturned = true ∨ (quiet cfg).CanStep s := by
  have hgo : ∀ e : Event size, Enabled cfg s e → e.isWake = false → (∃ t, step cfg s e = .ok t) →
      (quiet cfg).CanStep s := fun e he hwake ⟨t, ht⟩ => ⟨e, t, ⟨he, hwake⟩, ht⟩
  cases howner : s.owner with
  | some x =>
    right
    cases x with
    | zakuro i =>
      have hholds := (hI.instanceOwner i).mpr howner
      cases hi : s.instances i with
      | holding => exact hgo (.count i) hi rfl ⟨_, rfl⟩
      | counted => exact hgo (.unlock i) hi rfl ⟨_, rfl⟩
      | _ =>
        rw [hi] at hholds
        cases hholds
    | stats =>
      have hholds := hI.statsOwner.mpr howner
      cases ht : s.statsThread with
      | test b => exact hgo .statsTest ⟨b, ht⟩ rfl ⟨_, rfl⟩
      | snapshot => exact hgo .statsGet ht rfl ⟨_, rfl⟩
      | writing r => exact hgo .statsWrite ⟨r, ht⟩ rfl ⟨_, rfl⟩
      | unlocking b => exact hgo .statsUnlock ⟨b, ht⟩ rfl ⟨_, rfl⟩
      | _ =>
        rw [ht] at hholds
        cases hholds
  | none =>
    by_cases hreturned : ∃ i, s.instances i = .returned
    · obtain ⟨i, hi⟩ := hreturned
      exact .inr (hgo (.lock i) ⟨hi, howner⟩ rfl ⟨_, rfl⟩)
    · have hdone : ∀ i, s.instances i = .done := by
        intro i
        have hbusy := hidle i
        have hholds := hI.instanceOwner i
        rw [howner] at hholds
        cases hi : s.instances i with
        | done => rfl
        | returned => exact absurd ⟨i, hi⟩ hreturned
        | _ => simp [hi, InstanceThread.isBusy, InstanceThread.holds] at hbusy hholds
      rcases Nat.lt_or_ge s.joined m with hlt | hge
      · exact .inr (hgo .joinInstance ⟨hlt, hdone _⟩ rfl ⟨_, rfl⟩)
      · have hjoined : s.joined = m := Nat.le_antisymm hI.joined.1 hge
        have hstats := hI.statsOwner
        rw [howner] at hstats
        have hzero : s.countdown = 0 := by
          rw [hI.countdown, remaining_eq_zero.mpr fun i => by rw [hdone i]; rfl]
          rfl
        have hsome := mt hI.foundSome (not_not.mpr hzero)
        cases hmain : s.mainReturned with
        | true => exact .inl rfl
        | false =>
          right
          cases ht : s.statsThread with
          | absent => exact hgo .joinStats ⟨hjoined, .inr ht, hmain⟩ rfl ⟨_, rfl⟩
          | exited => exact hgo .joinStats ⟨hjoined, .inl ht, hmain⟩ rfl ⟨_, rfl⟩
          | top => exact hgo .statsLock ⟨.inl ht, howner⟩ rfl ⟨_, rfl⟩
          | woken b => exact hgo .statsLock ⟨.inr ⟨b, ht⟩, howner⟩ rfl ⟨_, rfl⟩
          | asleep =>
            rw [ht] at hsome
            exact absurd rfl hsome
          | _ => simp [ht, StatsThread.holds] at hstats

theorem quiet_ranked : Machine.Ranked (quiet cfg) (fun s : Program size => Idle s ∧ Inv s) rank where
  keeps _ _ _ hI he hs := ⟨(quiet_drops hI.1 he hs).1, step_inv hI.2 he.1 hs⟩
  drops _ _ _ hI he hs := (quiet_drops hI.1 he hs).2

theorem rank_le {s : Program size} (h : Idle s) : s.rank ≤ 12 * m + 10 := by
  have hinstance : ∀ i, (s.instances i).rank ≤ 11 := by
    intro i
    have hbusy := h i
    cases hi : s.instances i <;> simp [hi, InstanceThread.isBusy, InstanceThread.rank] at hbusy ⊢
  have hstats : s.statsThread.rank ≤ 9 := by
    cases s.statsThread with
    | test b => cases b <;> simp [StatsThread.rank]
    | unlocking b => cases b <;> simp [StatsThread.rank]
    | _ => simp [StatsThread.rank]
  have hsum : instancesRank s.instances ≤ m * 11 := by
    rw [instancesRank]
    simpa using Finset.sum_le_card_nsmul Finset.univ (fun i => (s.instances i).rank) 11 fun i _ => hinstance i
  rw [rank]
  split <;> omega

/-- No wake-up is lost: when the instances have returned, the threads can go on
until `main` returns, without the timeout of the wait or a spurious wake-up, and
whichever of them goes on, they cannot take more steps than so many. -/
theorem threads_end {fleet : Fleet size} (hfleet : ∀ i, fleet.returned i = false) (statsFile : Bool)
    {es : List (Event size)} {s : Program size} (h : Machine.Run (machine cfg) (start fleet statsFile) es s)
    (hidle : Idle s) :
    (∀ fs t, Machine.Run (quiet cfg) s fs t →
      fs.length ≤ 12 * m + 10 ∧ (t.mainReturned = true ∨ (quiet cfg).CanStep t)) ∧
    ∃ fs t, Machine.Run (quiet cfg) s fs t ∧ t.mainReturned = true := by
  have hI := run_inv h (start_inv fleet hfleet statsFile)
  constructor
  · intro fs t hrun
    have hlength := quiet_ranked.length_le hrun ⟨hidle, hI⟩
    have hrank := rank_le hidle
    obtain ⟨hidle', hI'⟩ := hrun.invariant (I := fun s => Idle s ∧ Inv s) quiet_ranked.keeps ⟨hidle, hI⟩
    exact ⟨by omega, quiet_goes hidle' hI'⟩
  · obtain ⟨fs, t, hrun, -, hdone⟩ := quiet_ranked.completes (M := quiet cfg)
      (fun s hI => quiet_goes hI.1 hI.2) ⟨hidle, hI⟩
    exact ⟨fs, t, hrun, hdone⟩

theorem threads_end_returning : ∃ s : Program (fun _ : Fin 1 => 1),
    Machine.Run (machine Fleet.soraConfig) (start { instances := fun _ => {} } true) (returningEvents 0) s ∧
      ∃ fs t, Machine.Run (quiet Fleet.soraConfig) s fs t ∧ t.mainReturned = true := by
  obtain ⟨s, hs, hidle, -⟩ := returning_run
  exact ⟨s, hs, (threads_end (fun _ => rfl) true hs hidle).2⟩

end Program
