import BooleanQuery.Calculator
import BooleanQuery.Proofs.Dnf.Algebra

/-!
# Runs of the calculator

Every step needs some normal forms on top of the stack, and leaves what lies deeper as it is. It is
refused for want of them exactly if there are fewer (`step_answered`). A step that is refused, for
this reason or another one, changes nothing, and so it makes no difference to the steps behind it.
It can be left out, and the others answer as they did (`run_effective`).

The normal forms on the stack can be counted without running anything but the steps that are not
refused (`length_stack_after`).
-/

set_option autoImplicit false

namespace BooleanQuery.Calculator

variable {s : State} {t : Step} {ts us : List Step} {r : Answer × State}

/-! ## What a step needs and gives -/

/-- How many normal forms a step looks at or takes off the stack. -/
def Step.needs : Step → Nat
  | .setLimit _ => 0
  | .compile _ => 0
  | .recompile => 1
  | .push _ => 0
  | .dup => 1
  | .swap => 2
  | .pop => 1
  | .cross => 2
  | .all n => n
  | .any n => n
  | .merge .. => 1
  | .clauses => 1
  | .equal => 2

/-- How many there are in their place afterwards. -/
def Step.gives : Step → Nat
  | .setLimit _ => 0
  | .compile _ => 1
  | .recompile => 2
  | .push _ => 1
  | .dup => 2
  | .swap => 2
  | .pop => 0
  | .cross => 1
  | .all _ => 1
  | .any _ => 1
  | .merge .. => 2
  | .clauses => 1
  | .equal => 2

/-- The limit after a step. -/
def Step.limitFrom (l : Nat) : Step → Nat
  | .setLimit l' => l'
  | _ => l

/-- Whether an answer says that the step was not run. -/
def Answer.refuses : Answer → Bool
  | .rejected _ => true
  | .fault _ => true
  | _ => false

/-- The size of the stack that an answer tells. -/
def Answer.size? : Answer → Option Nat
  | .top _ n => some n
  | .size n => some n
  | _ => none

/-! ## One step -/

/-- The answer and the state after a step are in order. -/
structure Answered (s : State) (t : Step) (r : Answer × State) : Prop where
  underflow_iff : r.1 = .fault .underflow ↔ s.stack.length < t.needs
  /-- A step that is refused changes nothing. -/
  unchanged : r.1.refuses → r.2 = s
  /-- Any other step puts new normal forms in the place of those it needs. -/
  stack : ¬ r.1.refuses → ∃ new, r.2.stack = new ++ s.stack.drop t.needs ∧ new.length = t.gives
  limit : r.2.limit = t.limitFrom s.limit
  size : ∀ n ∈ r.1.size?, r.2.stack.length = n
  top : ∀ d n, r.1 = .top d n → r.2.stack.head? = some d

theorem Answered.needs_le (h : Answered s t r) (hrun : ¬ r.1.refuses) :
    t.needs ≤ s.stack.length := by
  apply Nat.not_lt.1
  rw [← h.underflow_iff]
  intro hfault
  rw [hfault] at hrun
  exact hrun rfl

theorem answered_refused {a : Answer} (ha : a.refuses)
    (h : a = .fault .underflow ↔ s.stack.length < t.needs)
    (hlimit : t.limitFrom s.limit = s.limit) : Answered s t (a, s) where
  underflow_iff := h
  unchanged _ := rfl
  stack hrun := absurd ha hrun
  limit := hlimit.symm
  size n hn := by
    cases a with
    | top => nomatch ha
    | size => nomatch ha
    | _ => nomatch hn
  top d n htop := by
    subst htop
    nomatch ha

theorem answered_underflow (h : s.stack.length < t.needs)
    (hlimit : t.limitFrom s.limit = s.limit) : Answered s t (.fault .underflow, s) :=
  answered_refused rfl (iff_of_true rfl h) hlimit

/-- A step that only looks leaves the state as it is. -/
theorem answered_looking {a : Answer} (h : t.needs ≤ s.stack.length)
    (hlimit : t.limitFrom s.limit = s.limit) (hgives : t.gives = t.needs) (ha : ¬ a.refuses)
    (hsize : a.size? = none) : Answered s t (a, s) where
  underflow_iff := by
    refine iff_of_false ?_ (Nat.not_lt.2 h)
    rintro rfl
    exact ha rfl
  unchanged hrun := absurd hrun ha
  stack _ := ⟨s.stack.take t.needs, (List.take_append_drop ..).symm,
    by rw [List.length_take_of_le h, hgives]⟩
  limit := hlimit.symm
  size n hn := by
    rw [hsize] at hn
    nomatch hn
  top d n htop := by
    subst htop
    nomatch hsize

theorem answered_pushOn {rest : List Dnf} {d : Dnf} (new : List Dnf) (h : t.needs ≤ s.stack.length)
    (hlimit : t.limitFrom s.limit = s.limit) (hstack : d :: rest = new ++ s.stack.drop t.needs)
    (hnew : new.length = t.gives) : Answered s t (s.pushOn rest d) where
  underflow_iff := iff_of_false (fun hrun => nomatch hrun) (Nat.not_lt.2 h)
  unchanged hrun := nomatch hrun
  stack _ := ⟨new, hstack, hnew⟩
  limit := hlimit.symm
  size n hn := Option.some.inj hn
  top _ _ htop := by
    cases htop
    rfl

theorem answered_compile {expression : String} (h : t.needs ≤ s.stack.length)
    (hlimit : t.limitFrom s.limit = s.limit) (hgives : t.gives = t.needs + 1) :
    Answered s t (s.compile expression) := by
  unfold State.compile
  cases compileWithin s.limit expression with
  | error e =>
    exact answered_refused rfl (iff_of_false (fun hrun => nomatch hrun) (Nat.not_lt.2 h)) hlimit
  | ok d =>
    apply answered_pushOn (d :: s.stack.take t.needs) h hlimit
    · rw [List.cons_append, List.take_append_drop]
    · rw [List.length_cons, List.length_take_of_le h, hgives]

theorem answered_combine {f : List Dnf → Dnf} (hlimit : t.limitFrom s.limit = s.limit)
    (hgives : t.gives = 1) : Answered s t (s.combine t.needs f) := by
  unfold State.combine
  split
  · next h => exact answered_pushOn [_] h hlimit rfl hgives.symm
  · next h => exact answered_underflow (Nat.lt_of_not_le h) hlimit

theorem step_answered (s : State) (t : Step) : Answered s t (s.step t) := by
  obtain ⟨stack, limit⟩ := s
  cases t with
  | setLimit l =>
    constructor
    · exact iff_of_false (fun hrun => nomatch hrun) (Nat.not_lt_zero _)
    · exact fun hrun => nomatch hrun
    · exact fun _ => ⟨[], rfl, rfl⟩
    · rfl
    · exact fun _ hn => nomatch hn
    · exact fun _ _ htop => nomatch htop
  | compile expression => exact answered_compile (Nat.zero_le _) rfl rfl
  | recompile =>
    cases stack with
    | nil => exact answered_underflow Nat.zero_lt_one rfl
    | cons d rest => exact answered_compile (Nat.succ_pos _) rfl rfl
  | push d => exact answered_pushOn [d] (Nat.zero_le _) rfl rfl rfl
  | dup =>
    cases stack with
    | nil => exact answered_underflow Nat.zero_lt_one rfl
    | cons d rest => exact answered_pushOn [d, d] (Nat.succ_pos _) rfl rfl rfl
  | swap =>
    match stack with
    | [] => exact answered_underflow (Nat.succ_pos _) rfl
    | [_] => exact answered_underflow (Nat.lt_succ_self _) rfl
    | d :: e :: rest =>
      exact answered_pushOn [e, d] (Nat.le_add_left ..) rfl rfl rfl
  | pop =>
    cases stack with
    | nil => exact answered_underflow Nat.zero_lt_one rfl
    | cons d rest =>
      constructor
      · exact iff_of_false (fun hrun => nomatch hrun) (Nat.not_lt.2 (Nat.succ_pos _))
      · exact fun hrun => nomatch hrun
      · exact fun _ => ⟨[], rfl, rfl⟩
      · rfl
      · exact fun _ hn => Option.some.inj hn
      · exact fun _ _ htop => nomatch htop
  | cross =>
    match stack with
    | [] => exact answered_underflow (Nat.succ_pos _) rfl
    | [_] => exact answered_underflow (Nat.lt_succ_self _) rfl
    | e :: d :: rest =>
      exact answered_pushOn [d.cross e] (Nat.le_add_left ..) rfl rfl rfl
  | all n => exact answered_combine rfl rfl
  | any n => exact answered_combine rfl rfl
  | merge i j =>
    cases stack with
    | nil => exact answered_underflow Nat.zero_lt_one rfl
    | cons d rest =>
      simp only [State.step]
      split
      · exact answered_pushOn [_, d] (Nat.succ_pos _) rfl rfl rfl
      · exact answered_refused rfl
          (iff_of_false (fun hrun => nomatch hrun) (Nat.not_lt.2 (Nat.succ_pos _))) rfl
  | clauses =>
    cases stack with
    | nil => exact answered_underflow Nat.zero_lt_one rfl
    | cons d rest =>
      exact answered_looking (Nat.succ_pos _) rfl rfl (fun hrun => nomatch hrun) rfl
  | equal =>
    match stack with
    | [] => exact answered_underflow (Nat.succ_pos _) rfl
    | [_] => exact answered_underflow (Nat.lt_succ_self _) rfl
    | d :: e :: rest =>
      exact answered_looking (Nat.le_add_left ..) rfl rfl (fun hrun => nomatch hrun) rfl

/-! ## Runs -/

namespace State

/-- The state after some steps. -/
def after (s : State) (ts : List Step) : State := ts.foldl (fun s t => (s.step t).2) s

/-- The steps that are not refused. -/
def effective (s : State) : List Step → List Step
  | [] => []
  | t :: ts =>
    if (s.step t).1.refuses then (s.step t).2.effective ts
    else t :: (s.step t).2.effective ts

end State

open State

theorem run_cons : s.run (t :: ts) = (s.step t).1 :: (s.step t).2.run ts := rfl

theorem after_cons : s.after (t :: ts) = (s.step t).2.after ts := rfl

theorem length_run (s : State) (ts : List Step) : (s.run ts).length = ts.length := by
  induction ts generalizing s with
  | nil => rfl
  | cons t ts ih => rw [run_cons, List.length_cons, ih, List.length_cons]

theorem run_append (s : State) (ts us : List Step) :
    s.run (ts ++ us) = s.run ts ++ (s.after ts).run us := by
  induction ts generalizing s with
  | nil => rfl
  | cons t ts ih => rw [List.cons_append, run_cons, run_cons, after_cons, ih, List.cons_append]

/-- The other steps answer as they do in the whole run. -/
theorem run_effective (s : State) (ts : List Step) :
    s.run (s.effective ts) = (s.run ts).filter fun a => !a.refuses := by
  induction ts generalizing s with
  | nil => rfl
  | cons t ts ih =>
    rw [effective, run_cons]
    split
    · next h =>
      have hs := (step_answered s t).unchanged h
      rw [List.filter_cons_of_neg (by simp [h]), ← ih, hs]
    · next h => rw [run_cons, List.filter_cons_of_pos (by simp [h]), ih]

theorem after_effective (s : State) (ts : List Step) : s.after (s.effective ts) = s.after ts := by
  induction ts generalizing s with
  | nil => rfl
  | cons t ts ih =>
    rw [effective, after_cons]
    split
    · next h =>
      have hs := (step_answered s t).unchanged h
      rw [← ih, hs]
    · next h => rw [after_cons, ih]

/-- The size of the stack after a run. -/
theorem length_stack_after (s : State) (ts : List Step) :
    (s.after ts).stack.length + (s.effective ts).foldr (fun t n => t.needs + n) 0 =
      s.stack.length + (s.effective ts).foldr (fun t n => t.gives + n) 0 := by
  induction ts generalizing s with
  | nil => rfl
  | cons t ts ih =>
    have hstep := step_answered s t
    have hrest := ih (s.step t).2
    rw [effective, after_cons]
    split
    · next h => rwa [hstep.unchanged h] at hrest ⊢
    · next h =>
      obtain ⟨new, hstack, hnew⟩ := hstep.stack h
      have hneeds := hstep.needs_le h
      have hlength := congrArg List.length hstack
      rw [List.length_append, List.length_drop, hnew] at hlength
      rw [List.foldr_cons, List.foldr_cons]
      omega

/-- The limit is the one that was set last. -/
theorem limit_after (s : State) (ts : List Step) :
    (s.after ts).limit = ts.foldl Step.limitFrom s.limit := by
  induction ts generalizing s with
  | nil => rfl
  | cons t ts ih => rw [after_cons, ih, (step_answered s t).limit, List.foldl_cons]

/-! ## Combining -/

theorem after_all {n : Nat} (h : n ≤ s.stack.length) :
    s.after [.all n] = ⟨Dnf.all (s.stack.take n).reverse :: s.stack.drop n, s.limit⟩ := by
  show (s.combine n Dnf.all).2 = _
  rw [combine, if_pos h]
  rfl

/-- Any number of normal forms is combined by combining two at a time, from the top. -/
theorem after_replicate_cross {n : Nat} (h : n < s.stack.length) :
    s.after (List.replicate n .cross) = s.after [.all (n + 1)] := by
  obtain ⟨stack, limit⟩ := s
  induction n generalizing stack with
  | zero =>
    obtain ⟨d, rest, rfl⟩ := List.exists_cons_of_length_pos h
    rw [after_all h, List.take_succ_cons, List.take_zero, List.reverse_singleton, Dnf.all_singleton]
    rfl
  | succ n ih =>
    match stack, h with
    | e :: d :: rest, h =>
      have hrest : n < (d.cross e :: rest).length := Nat.lt_of_succ_lt_succ h
      calc
        after ⟨e :: d :: rest, limit⟩ (List.replicate (n + 1) .cross)
          = after ⟨d.cross e :: rest, limit⟩ (List.replicate n .cross) := rfl
        _ = after ⟨d.cross e :: rest, limit⟩ [.all (n + 1)] := ih _ hrest
        _ = after ⟨e :: d :: rest, limit⟩ [.all (n + 2)] := by
          rw [after_all hrest, after_all h]
          simp [Dnf.all_append, Dnf.all_cons, Dnf.cross_assoc]

end BooleanQuery.Calculator
