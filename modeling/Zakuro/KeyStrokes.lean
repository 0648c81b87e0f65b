import Zakuro.FakeAudioKeyTrigger

/-!
# Key strokes

What the keys of an instance mean, said of the history of its passes instead of
the variables of its thread: which letters still count when a digit is struck.
-/

open History (Each snoc_cases)

variable {n : Nat}

namespace KeyPass

def Strikes (p : KeyPass n) (kind : KeyKind) : Prop := ∃ c, p.key = some c ∧ KeyKind.of c = kind

/-- A pass that takes neither a letter nor a digit. -/
def IsQuiet (p : KeyPass n) : Prop := ¬ p.Strikes .letter ∧ ∀ m, ¬ p.Strikes (.digit m)

theorem quiet_of_none {now : Int} {actions : List (KeyAction n)} : IsQuiet ⟨now, none, actions⟩ :=
  ⟨by simp [Strikes], by simp [Strikes]⟩

theorem strikes_iff {now : Int} {c : UInt8} {actions : List (KeyAction n)} {kind : KeyKind} :
    Strikes ⟨now, some c, actions⟩ kind ↔ KeyKind.of c = kind := by
  simp [Strikes]

end KeyPass

namespace KeyStrokes

open FakeAudioKeyTrigger (second)

/-! ## Letters that count -/

/-- A letter that nothing has taken, with a pass in every second behind it. -/
def Pends (history earlier : List (KeyPass n)) (p : KeyPass n) : Prop :=
  p.Strikes .letter ∧ ∃ later, history = earlier ++ p :: later ∧
    ∀ q ∈ later, q.IsQuiet ∧ q.now ≤ p.now + second

/-- The letter has not been forgotten either. -/
def Counts (history : List (KeyPass n)) (now : Int) (earlier : List (KeyPass n)) (p : KeyPass n) : Prop :=
  Pends history earlier p ∧ now ≤ p.now + second

/-- No letter counts. -/
def Fresh (history : List (KeyPass n)) (now : Int) : Prop := ∀ earlier p, ¬ Counts history now earlier p

/-- The letter counts, and no other one counted when it was struck. -/
def Alone (history : List (KeyPass n)) (now : Int) (c : UInt8) : Prop :=
  ∃ earlier p, Counts history now earlier p ∧ p.key = some c ∧ Fresh earlier p.now

theorem pends_snoc {history earlier : List (KeyPass n)} {p q : KeyPass n} :
    Pends (history ++ [q]) earlier p ↔ (earlier = history ∧ p = q ∧ q.Strikes .letter) ∨
      (Pends history earlier p ∧ q.IsQuiet ∧ q.now ≤ p.now + second) := by
  constructor
  · rintro ⟨hletter, later, heq, hlater⟩
    rcases snoc_cases heq with ⟨rfl, rfl, -⟩ | ⟨later', rfl, hhistory⟩
    · exact .inl ⟨rfl, rfl, hletter⟩
    · obtain ⟨hquiet, hnow⟩ := hlater q (by simp)
      exact .inr ⟨⟨hletter, later', hhistory, fun r hr => hlater r (by simp [hr])⟩, hquiet, hnow⟩
  · rintro (⟨rfl, rfl, hletter⟩ | ⟨⟨hletter, later, rfl, hlater⟩, hquiet, hnow⟩)
    · exact ⟨hletter, [], rfl, by simp⟩
    · refine ⟨hletter, later ++ [q], by simp, fun r hr => ?_⟩
      rcases List.mem_append.mp hr with hr | hr
      · exact hlater r hr
      · rw [List.mem_singleton.mp hr]
        exact ⟨hquiet, hnow⟩

/-- There is only one, the last. -/
theorem Pends.unique {history earlier earlier' : List (KeyPass n)} {p p' : KeyPass n}
    (h : Pends history earlier p) (h' : Pends history earlier' p') : earlier = earlier' ∧ p = p' := by
  induction history using List.reverseRecOn generalizing earlier earlier' p p' with
  | nil =>
    obtain ⟨-, later, heq, -⟩ := h
    simp at heq
  | append_singleton history q ih =>
    rcases pends_snoc.mp h with ⟨rfl, rfl, hletter⟩ | ⟨hpends, hquiet, -⟩
    · rcases pends_snoc.mp h' with ⟨rfl, rfl, -⟩ | ⟨-, hquiet, -⟩
      · exact ⟨rfl, rfl⟩
      · exact absurd hletter hquiet.1
    · rcases pends_snoc.mp h' with ⟨-, -, hletter⟩ | ⟨hpends', -, -⟩
      · exact absurd hletter hquiet.1
      · exact ih hpends hpends'

/-! ## Chords -/

/-- The letters that count at a time, each with those that counted at its own. -/
inductive Chord : List (KeyPass n) → Int → List UInt8 → Prop
  | empty {history : List (KeyPass n)} {now : Int} : Fresh history now → Chord history now []
  | snoc {history earlier : List (KeyPass n)} {now : Int} {p : KeyPass n} {c : UInt8} {seq : List UInt8} :
    Counts history now earlier p → p.key = some c → Chord earlier p.now seq → Chord history now (seq ++ [c])

theorem Chord.nil_iff {history : List (KeyPass n)} {now : Int} {seq : List UInt8}
    (h : Chord history now seq) : seq = [] ↔ Fresh history now := by
  cases h with
  | empty hfresh => simp [hfresh]
  | snoc hcounts hkey hchord => simpa using fun hfresh => hfresh _ _ hcounts

theorem Chord.singleton_iff {history : List (KeyPass n)} {now : Int} {seq : List UInt8} {c : UInt8}
    (h : Chord history now seq) : seq = [c] ↔ Alone history now c := by
  constructor
  · intro hseq
    cases h with
    | empty hfresh => cases hseq
    | snoc hcounts hkey hchord =>
      obtain ⟨rfl, hlast⟩ := List.append_inj' (hseq.trans (List.nil_append [c]).symm) rfl
      obtain rfl := List.singleton_inj.mp hlast
      exact ⟨_, _, hcounts, hkey, hchord.nil_iff.mp rfl⟩
  · rintro ⟨earlier, p, hcounts, hkey, hfresh⟩
    cases h with
    | empty hnone => exact absurd hcounts (hnone earlier p)
    | snoc hcounts' hkey' hchord =>
      obtain ⟨rfl, rfl⟩ := hcounts.1.unique hcounts'.1
      obtain rfl := Option.some.inj (hkey.symm.trans hkey')
      rw [hchord.nil_iff.mpr hfresh]
      rfl

/-- A pass without a letter or a digit leaves the letters as they are. -/
theorem Chord.quiet {history : List (KeyPass n)} {now : Int} {seq : List UInt8} {p : KeyPass n}
    (h : Chord history now seq) (hquiet : p.IsQuiet)
    (hbefore : seq ≠ [] → ¬ Fresh history p.now) : Chord (history ++ [p]) now seq := by
  cases h with
  | empty hfresh =>
    refine .empty fun earlier q hcounts => ?_
    rcases pends_snoc.mp hcounts.1 with ⟨-, rfl, hletter⟩ | ⟨hpends, -, -⟩
    · exact hquiet.1 hletter
    · exact hfresh earlier q ⟨hpends, hcounts.2⟩
  | snoc hcounts hkey hchord =>
    obtain ⟨earlier, q, hcounts'⟩ : ∃ earlier q, Counts history p.now earlier q := by
      simpa only [Fresh, not_forall, not_not] using hbefore (by simp)
    obtain ⟨rfl, rfl⟩ := hcounts'.1.unique hcounts.1
    exact .snoc ⟨pends_snoc.mpr (.inr ⟨hcounts.1, hquiet, hcounts'.2⟩), hcounts.2⟩ hkey hchord

/-- The thread has collected the letters that count. -/
def Follows (s : FakeAudioKeyTrigger n) : Prop := ∀ now, Chord s.passes now (s.expire now).seq

open FakeAudioKeyTrigger (expire)

theorem expire_of_gt {s : FakeAudioKeyTrigger n} {now : Int} (h : now > s.seqTime + second) :
    s.expire now = { s with seq := [], seqTime := now } := if_pos h

theorem expire_of_le {s : FakeAudioKeyTrigger n} {now : Int} (h : ¬ now > s.seqTime + second) :
    s.expire now = s := if_neg h

theorem expire_same (s : FakeAudioKeyTrigger n) (now : Int) :
    (s.expire now).passes = s.passes ∧ (s.expire now).key = s.key := by
  rw [expire]
  split <;> exact ⟨rfl, rfl⟩

theorem expire_seq (s : FakeAudioKeyTrigger n) (now : Int) :
    (s.expire now).seq = if now > s.seqTime + second then [] else s.seq :=
  apply_ite FakeAudioKeyTrigger.seq _ _ _

theorem expire_nil {s : FakeAudioKeyTrigger n} (h : s.seq = []) (now : Int) : (s.expire now).seq = [] := by
  rw [expire_seq, h, ite_self]

theorem Follows.congr {s t : FakeAudioKeyTrigger n} (h : Follows s) (hpasses : t.passes = s.passes)
    (hseq : t.seq = s.seq) (htime : t.seqTime = s.seqTime) : Follows t := by
  intro now
  have hchord := h now
  rw [expire_seq] at hchord ⊢
  rwa [hpasses, hseq, htime]

theorem follows_start : Follows ({} : FakeAudioKeyTrigger n) := by
  intro now
  rw [expire_nil rfl]
  refine .empty fun earlier p hcounts => ?_
  obtain ⟨-, later, heq, -⟩ := hcounts.1
  simp at heq

theorem Follows.quiet {s t : FakeAudioKeyTrigger n} {p : KeyPass n} (h : Follows s) (hquiet : p.IsQuiet)
    (hpasses : t.passes = s.passes ++ [p]) (hseq : t.seq = (s.expire p.now).seq)
    (htime : t.seqTime = (s.expire p.now).seqTime) : Follows t := by
  intro now
  rw [hpasses]
  have hchord := h p.now
  by_cases hexpired : p.now > s.seqTime + second
  · rw [expire_of_gt hexpired] at hseq hchord
    rw [expire_nil hseq]
    refine .empty fun earlier q hcounts => ?_
    rcases pends_snoc.mp hcounts.1 with ⟨-, rfl, hletter⟩ | ⟨hpends, -, hnow⟩
    · exact hquiet.1 hletter
    · exact hchord.nil_iff.mp rfl earlier q ⟨hpends, hnow⟩
  · rw [expire_of_le hexpired] at hseq htime hchord
    have hsame : (t.expire now).seq = (s.expire now).seq := by
      rw [expire_seq, expire_seq, hseq, htime]
    rw [hsame]
    refine (h now).quiet hquiet fun hne hfresh => hne ?_
    exact expire_nil (hchord.nil_iff.mpr hfresh) now

theorem Follows.letter {s t : FakeAudioKeyTrigger n} {p : KeyPass n} {c : UInt8} (h : Follows s)
    (hletter : p.Strikes .letter) (hkey : p.key = some c) (hpasses : t.passes = s.passes ++ [p])
    (hseq : t.seq = (s.expire p.now).seq ++ [c]) (htime : t.seqTime = p.now) : Follows t := by
  intro now
  rw [hpasses, expire_seq, htime, hseq]
  have hpends : Pends (s.passes ++ [p]) s.passes p := pends_snoc.mpr (.inl ⟨rfl, rfl, hletter⟩)
  split
  next hgt =>
    refine .empty fun earlier q hcounts => ?_
    obtain ⟨-, rfl⟩ := hcounts.1.unique hpends
    exact absurd hcounts.2 (Int.not_le.mpr hgt)
  next hle =>
    exact .snoc ⟨hpends, Int.not_lt.mp hle⟩ hkey (h p.now)

theorem follows_digit {s t : FakeAudioKeyTrigger n} {p : KeyPass n} {m : Nat} (hdigit : p.Strikes (.digit m))
    (hpasses : t.passes = s.passes ++ [p]) (hseq : t.seq = []) : Follows t := by
  intro now
  rw [hpasses, expire_nil hseq]
  refine .empty fun earlier q hcounts => ?_
  rcases pends_snoc.mp hcounts.1 with ⟨-, rfl, c, hc, hletter⟩ | ⟨-, hquiet, -⟩
  · obtain ⟨c', hc', hdigit⟩ := hdigit
    obtain rfl := Option.some.inj (hc.symm.trans hc')
    rw [hletter] at hdigit
    cases hdigit
  · exact hquiet.2 m hdigit

/-! ## What a key does -/

/-- What a pass does behind the passes before it: one thing at most, which is
what its key and the letters that count then say. -/
structure KeyLaw (before : List (KeyPass n)) (p : KeyPass n) : Prop where
  pause : .post .pauseAll ∈ p.actions ↔ p.Strikes .pause
  resume : .post .resumeAll ∈ p.actions ↔ p.Strikes .resume
  play (m : Nat) : .play m ∈ p.actions ↔ p.Strikes (.digit m) ∧ Fresh before p.now
  close (i : Fin n) : .post (.close i) ∈ p.actions ↔ p.Strikes (.digit i) ∧ Alone before p.now (ascii 'q')
  connect (i : Fin n) : .post (.connect i) ∈ p.actions ↔ p.Strikes (.digit i) ∧ Alone before p.now (ascii 'Q')
  single : p.actions.length ≤ 1

theorem mem_ifClient {command : Fin n → KeyCommand n} {m : Nat} {a : KeyAction n} :
    a ∈ FakeAudioKeyTrigger.ifClient command m ↔ ∃ i : Fin n, m = i ∧ a = .post (command i) := by
  rw [FakeAudioKeyTrigger.ifClient]
  split
  next hlt =>
    rw [List.mem_singleton]
    constructor
    · rintro rfl
      exact ⟨⟨m, hlt⟩, rfl, rfl⟩
    · rintro ⟨i, rfl, rfl⟩
      rfl
  next hge =>
    simp only [List.not_mem_nil, false_iff]
    rintro ⟨i, rfl, -⟩
    exact hge i.isLt

theorem ifClient_length (command : Fin n → KeyCommand n) (m : Nat) :
    (FakeAudioKeyTrigger.ifClient command m).length ≤ 1 := by
  rw [FakeAudioKeyTrigger.ifClient]
  split <;> simp

theorem mem_strike {seq : List UInt8} {m : Nat} {a : KeyAction n} :
    a ∈ FakeAudioKeyTrigger.strike seq m ↔ (seq = [] ∧ a = .play m) ∨
      (seq = [ascii 'q'] ∧ ∃ i : Fin n, m = i ∧ a = .post (.close i)) ∨
      (seq = [ascii 'Q'] ∧ ∃ i : Fin n, m = i ∧ a = .post (.connect i)) := by
  simp only [FakeAudioKeyTrigger.strike, List.mem_append, List.mem_ite_nil_right, List.mem_singleton,
    mem_ifClient]

theorem strike_length (seq : List UInt8) (m : Nat) :
    (FakeAudioKeyTrigger.strike (n := n) seq m).length ≤ 1 := by
  rw [FakeAudioKeyTrigger.strike]
  by_cases hempty : seq = []
  · simp [hempty]
  · rw [if_neg hempty, List.nil_append]
    by_cases hclose : seq = [ascii 'q']
    · have hne : seq ≠ [ascii 'Q'] := by
        rw [hclose]
        decide
      rw [if_pos hclose, if_neg hne, List.append_nil]
      exact ifClient_length _ m
    · rw [if_neg hclose, List.nil_append]
      split
      · exact ifClient_length _ m
      · simp

/-- A pass without a digit does what its kind says, whatever counts. -/
theorem keyLaw_quiet {before : List (KeyPass n)} {p : KeyPass n} (hdigit : ∀ m, ¬ p.Strikes (.digit m))
    (hpause : .post .pauseAll ∈ p.actions ↔ p.Strikes .pause)
    (hresume : .post .resumeAll ∈ p.actions ↔ p.Strikes .resume)
    (hnone : ∀ a ∈ p.actions, a = .post .pauseAll ∨ a = .post .resumeAll) (hsingle : p.actions.length ≤ 1) :
    KeyLaw before p where
  pause := hpause
  resume := hresume
  play m := by simpa [hdigit m] using fun h => by simpa using hnone _ h
  close i := by simpa [hdigit i] using fun h => by simpa using hnone _ h
  connect i := by simpa [hdigit i] using fun h => by simpa using hnone _ h
  single := hsingle

theorem keyLaw_digit {before : List (KeyPass n)} {now : Int} {c : UInt8} {m : Nat} {seq : List UInt8}
    (hc : KeyKind.of c = .digit m) (h : Chord before now seq) :
    KeyLaw before ⟨now, some c, FakeAudioKeyTrigger.strike seq m⟩ where
  pause := by simp [mem_strike, KeyPass.strikes_iff, hc]
  resume := by simp [mem_strike, KeyPass.strikes_iff, hc]
  play k := by simp [mem_strike, KeyPass.strikes_iff, hc, ← h.nil_iff, and_comm, eq_comm]
  close i := by
    simp only [mem_strike, KeyPass.strikes_iff, hc, ← h.singleton_iff]
    constructor
    · rintro (⟨-, heq⟩ | ⟨hseq, j, rfl, heq⟩ | ⟨-, j, -, heq⟩)
      · cases heq
      · cases heq
        exact ⟨rfl, hseq⟩
      · cases heq
    · rintro ⟨hm, hseq⟩
      exact .inr (.inl ⟨hseq, i, KeyKind.digit.inj hm, rfl⟩)
  connect i := by
    simp only [mem_strike, KeyPass.strikes_iff, hc, ← h.singleton_iff]
    constructor
    · rintro (⟨-, heq⟩ | ⟨-, j, -, heq⟩ | ⟨hseq, j, rfl, heq⟩)
      · cases heq
      · cases heq
      · cases heq
        exact ⟨rfl, hseq⟩
    · rintro ⟨hm, hseq⟩
      exact .inr (.inr ⟨hseq, i, KeyKind.digit.inj hm, rfl⟩)
  single := strike_length seq m

/-! ## Runs of the thread -/

/-- What a pass can be. -/
inductive PassCase (now : Int) (s : FakeAudioKeyTrigger n) : List (KeyAction n) → FakeAudioKeyTrigger n → Prop
  | leaves (hstopped : s.stopped = true) : PassCase now s [] { s with running := false }
  | idles (hstopped : s.stopped = false) (hkey : s.key = []) :
    PassCase now s [] { s.expire now with passes := s.passes ++ [⟨now, none, []⟩] }
  | takes (c : UInt8) (queue : GameKey) (actions : List (KeyAction n)) (pressed t : FakeAudioKeyTrigger n)
    (hstopped : s.stopped = false) (hkey : s.key = c :: queue)
    (hpress : { s.expire now with key := queue }.press now c = (actions, pressed))
    (ht : t = { pressed with passes := (s.expire now).passes ++ [⟨now, some c, actions⟩] }) :
    PassCase now s actions t

theorem pass_cases {now : Int} {s t : FakeAudioKeyTrigger n} {actions : List (KeyAction n)}
    (h : s.pass now = (actions, t)) : PassCase now s actions t := by
  obtain ⟨hpasses, hkey⟩ := expire_same s now
  rw [FakeAudioKeyTrigger.pass] at h
  split at h
  next hstopped =>
    cases h
    exact .leaves hstopped
  next hstopped =>
    have hstopped : s.stopped = false := by simpa using hstopped
    dsimp only at h
    split at h
    next queue hpop =>
      rw [hpasses] at h
      cases h
      rw [hkey] at hpop
      cases hqueue : s.key with
      | nil => exact .idles hstopped hqueue
      | cons c queue =>
        rw [hqueue] at hpop
        cases hpop
    next c queue hpop =>
      cases h
      rw [hkey] at hpop
      cases hqueue : s.key with
      | nil =>
        rw [hqueue] at hpop
        cases hpop
      | cons c queue =>
        rw [hqueue] at hpop
        cases hpop
        exact .takes c queue _ _ _ hstopped hqueue rfl rfl

/-- A key changes the letters and their time, and nothing else. -/
theorem press_same {now : Int} {c : UInt8} {s t : FakeAudioKeyTrigger n} {actions : List (KeyAction n)}
    (h : s.press now c = (actions, t)) : t = { s with seq := t.seq, seqTime := t.seqTime } := by
  rw [FakeAudioKeyTrigger.press] at h
  cases hc : KeyKind.of c <;> rw [hc] at h <;> cases h <;> rfl

/-- The letters are those that count, and each pass has kept to the law. -/
structure Inv (s : FakeAudioKeyTrigger n) : Prop where
  follows : Follows s
  lawful : Each KeyLaw s.passes

theorem inv_start : Inv ({} : FakeAudioKeyTrigger n) := ⟨follows_start, Each.nil _⟩

theorem Inv.takes {now : Int} {c : UInt8} {queue : GameKey} {s t : FakeAudioKeyTrigger n}
    {actions : List (KeyAction n)} (h : Inv s)
    (hpress : { s.expire now with key := queue }.press now c = (actions, t)) :
    Inv { t with passes := s.passes ++ [⟨now, some c, actions⟩] } := by
  have hchord := h.follows now
  rw [FakeAudioKeyTrigger.press] at hpress
  cases hc : KeyKind.of c with
  | digit m =>
    rw [hc] at hpress
    cases hpress
    have hstrikes : KeyPass.Strikes ⟨now, some c, FakeAudioKeyTrigger.strike (n := n) (s.expire now).seq m⟩
        (.digit m) := KeyPass.strikes_iff.mpr hc
    exact ⟨follows_digit hstrikes rfl rfl, h.lawful.snoc (keyLaw_digit hc hchord)⟩
  | letter =>
    rw [hc] at hpress
    cases hpress
    refine ⟨h.follows.letter (KeyPass.strikes_iff.mpr hc) rfl rfl rfl rfl, h.lawful.snoc ?_⟩
    apply keyLaw_quiet <;> simp [KeyPass.strikes_iff, hc]
  | _ =>
    rw [hc] at hpress
    cases hpress
    refine ⟨h.follows.quiet ?_ rfl rfl rfl, h.lawful.snoc ?_⟩
    · simp [KeyPass.IsQuiet, KeyPass.strikes_iff, hc]
    · apply keyLaw_quiet <;> simp [KeyPass.strikes_iff, hc]

theorem Inv.pass {now : Int} {s t : FakeAudioKeyTrigger n} {actions : List (KeyAction n)} (h : Inv s)
    (hpass : s.pass now = (actions, t)) : Inv t := by
  cases pass_cases hpass with
  | leaves hstopped => exact ⟨h.follows.congr rfl rfl rfl, h.lawful⟩
  | idles hstopped hkey =>
    refine ⟨h.follows.quiet KeyPass.quiet_of_none rfl rfl rfl, h.lawful.snoc ?_⟩
    apply keyLaw_quiet <;> simp [KeyPass.Strikes]
  | takes c queue _ _ _ hstopped hkey hpress ht =>
    rw [ht, (expire_same s now).1]
    exact h.takes hpress

theorem Inv.step {s t : FakeAudioKeyTrigger n} {e : FakeAudioKeyTrigger.Event} (h : Inv s)
    (hs : (FakeAudioKeyTrigger.machine n).step s e = .ok t) : Inv t := by
  cases e with
  | pass now =>
    obtain rfl := Except.ok.inj hs
    exact h.pass rfl
  | _ =>
    obtain rfl := Except.ok.inj hs
    exact ⟨h.follows.congr rfl rfl rfl, h.lawful⟩

/-- Every key that a thread has taken, it has done what the law says with. -/
theorem runs_inv {es : List FakeAudioKeyTrigger.Event} {s : FakeAudioKeyTrigger n}
    (h : (FakeAudioKeyTrigger.machine n).Run {} es s) : Inv s :=
  h.invariant (fun _ _ _ hI _ hs => hI.step hs) inv_start

/-- A pass takes what is at the front of the queue, or nothing. -/
theorem received_pass {now : Int} {s t : FakeAudioKeyTrigger n} {actions : List (KeyAction n)}
    (h : s.pass now = (actions, t)) : t.received = s.received := by
  cases pass_cases h with
  | leaves hstopped => rfl
  | idles hstopped hkey =>
    simp [FakeAudioKeyTrigger.received, (expire_same s now).2]
  | takes c queue _ _ _ hstopped hkey hpress ht =>
    rw [ht, (expire_same s now).1, press_same hpress]
    simp [FakeAudioKeyTrigger.received, hkey]

theorem issued_pass {now : Int} {s t : FakeAudioKeyTrigger n} {actions : List (KeyAction n)}
    (h : s.pass now = (actions, t)) : t.issued = s.issued ++ actions.filterMap KeyAction.command := by
  cases pass_cases h with
  | leaves hstopped => simp [FakeAudioKeyTrigger.issued]
  | idles hstopped hkey => simp [FakeAudioKeyTrigger.issued]
  | takes c queue _ _ _ hstopped hkey hpress ht =>
    rw [ht, (expire_same s now).1]
    simp [FakeAudioKeyTrigger.issued]

end KeyStrokes
