import Mathlib.Data.List.Forall2
import BooleanQuery.Log

/-!
# Running over a list

Reading runs over the operands of a text in order, and the first rejection ends the run. So a run
that ends well has a value for every item (`mapM_eq_ok_iff`), a run that is rejected was rejected
at an item after values for all items before it (`mapM_eq_error_iff`), and two runs that agree
wherever the first does not give up agree as a whole (`mapM_eq_or_error`).

What a run records can be planned item by item (`Follows`): it makes the records of the plan in
their order, as far as it gets.
-/

set_option autoImplicit false

namespace BooleanQuery.Traced

variable {α β ε : Type}

/-! ## Results -/

theorem result_mapM (f : α → Traced β) (xs : List α) :
    (xs.mapM f).result = xs.mapM fun x => (f x).result := by
  induction xs with
  | nil => rfl
  | cons x xs ih =>
    rw [List.mapM_cons, List.mapM_cons, result_bind]
    cases (f x).result with
    | error e => rfl
    | ok y =>
      show ((xs.mapM f >>= fun ys => pure (y :: ys)) : Traced (List β)).result = _
      rw [result_bind, ih]
      rfl

theorem mapM_eq_ok_iff {f : α → Except ε β} {xs : List α} {ys : List β} :
    xs.mapM f = .ok ys ↔ List.Forall₂ (fun x y => f x = .ok y) xs ys := by
  induction xs generalizing ys with
  | nil =>
    rw [List.mapM_nil, List.forall₂_nil_left_iff]
    exact ⟨fun h => (Except.ok.inj h).symm, fun h => by rw [h]; rfl⟩
  | cons x xs ih =>
    rw [List.mapM_cons, List.forall₂_cons_left_iff]
    cases f x with
    | error e => simp [bind, Except.bind]
    | ok y =>
      cases hxs : xs.mapM f with
      | error e => simp [bind, Except.bind, ← ih, hxs]
      | ok zs => simp [bind, Except.bind, pure, Except.pure, ← ih, hxs, eq_comm (a := ys)]

theorem mapM_eq_error_iff {f : α → Except ε β} {xs : List α} {e : ε} :
    xs.mapM f = .error e ↔
      ∃ pre x post, xs = pre ++ x :: post ∧ (∀ y ∈ pre, ∃ z, f y = .ok z) ∧ f x = .error e := by
  induction xs with
  | nil =>
    refine ⟨fun h => absurd h (by simp [pure, Except.pure]), ?_⟩
    intro ⟨pre, x, post, h, _, _⟩
    exact absurd h (by simp)
  | cons x xs ih =>
    rw [List.mapM_cons]
    cases hx : f x with
    | error e' =>
      constructor
      · intro h
        obtain rfl : e' = e := Except.error.inj h
        exact ⟨[], x, xs, rfl, by simp, hx⟩
      · intro ⟨pre, y, post, hxs, hpre, hy⟩
        cases pre with
        | nil =>
          obtain ⟨rfl, rfl⟩ := List.cons.inj hxs
          rw [← hx, hy]
          rfl
        | cons z pre =>
          obtain ⟨rfl, -⟩ := List.cons.inj hxs
          obtain ⟨w, hw⟩ := hpre x (by simp)
          exact absurd (hx.symm.trans hw) (by simp)
    | ok y =>
      have hrest : ((.ok y : Except ε β) >>= fun y => xs.mapM f >>= fun ys => pure (y :: ys))
          = .error e ↔ xs.mapM f = .error e := by
        cases xs.mapM f with
        | error e' => exact Iff.rfl
        | ok zs => simp [bind, Except.bind, pure, Except.pure]
      rw [hrest, ih]
      constructor
      · intro ⟨pre, z, post, hxs, hpre, hz⟩
        refine ⟨x :: pre, z, post, by rw [hxs]; rfl, ?_, hz⟩
        intro w hw
        rcases List.mem_cons.1 hw with rfl | hw
        · exact ⟨y, hx⟩
        · exact hpre w hw
      · intro ⟨pre, z, post, hxs, hpre, hz⟩
        cases pre with
        | nil =>
          obtain ⟨rfl, -⟩ := List.cons.inj hxs
          exact absurd (hx.symm.trans hz) (by simp)
        | cons w pre =>
          obtain ⟨rfl, rfl⟩ := List.cons.inj hxs
          exact ⟨pre, z, post, rfl, fun v hv => hpre v (by simp [hv]), hz⟩

/-- A run ends well if every item does, with values that satisfy what each of them does. -/
theorem exists_mapM_eq_ok {γ : Type} {f : α → Except ε β} {r : γ → β → Prop} {zs : List γ}
    {xs : List α} (h : List.Forall₂ (fun z x => ∃ y, f x = .ok y ∧ r z y) zs xs) :
    ∃ ys, xs.mapM f = .ok ys ∧ List.Forall₂ r zs ys := by
  induction h with
  | nil => exact ⟨[], rfl, .nil⟩
  | cons hzx _ ih =>
    obtain ⟨y, hy, hr⟩ := hzx
    obtain ⟨ys, hys, hrs⟩ := ih
    refine ⟨y :: ys, ?_, .cons hr hrs⟩
    rw [List.mapM_cons, hy, hys]
    rfl

/-- An item of a run that ended well has its value among the values of the run. -/
theorem exists_of_forall₂ {γ : Type} {r : α → γ → Prop} {xs : List α} {ys : List γ}
    (h : List.Forall₂ r xs ys) {x : α} (hx : x ∈ xs) : ∃ y ∈ ys, r x y := by
  induction h with
  | nil => exact absurd hx (by simp)
  | cons hxy _ ih =>
    rcases List.mem_cons.1 hx with rfl | hx
    · exact ⟨_, by simp, hxy⟩
    · obtain ⟨y, hy, hr⟩ := ih hx
      exact ⟨y, by simp [hy], hr⟩

theorem exists_of_map_mapM_eq_error {γ : Type} {f : α → Except ε β} {g : List β → γ}
    {xs : List α} {e : ε} (h : (xs.mapM f).map g = .error e) : ∃ x ∈ xs, f x = .error e := by
  cases hm : xs.mapM f with
  | ok ys => exact absurd h (by rw [hm]; simp [Except.map])
  | error e' =>
    obtain rfl : e' = e := by
      rw [hm] at h
      exact Except.error.inj h
    obtain ⟨pre, x, post, hxs, -, hx⟩ := mapM_eq_error_iff.1 hm
    exact ⟨x, by simp [hxs], hx⟩

/-! ## Comparing two runs -/

theorem mapM_congr {γ : Type} {f : α → Except ε β} {g : γ → Except ε β} {xs : List α}
    {ys : List γ} (h : List.Forall₂ (fun x y => f x = g y) xs ys) : xs.mapM f = ys.mapM g := by
  induction h with
  | nil => rfl
  | cons hxy _ ih => rw [List.mapM_cons, List.mapM_cons, hxy, ih]

/-- A run ends as another one did if its items do, one by one. -/
theorem mapM_eq_ok_of_forall₂ {γ : Type} {f : α → Except ε β} {g : γ → Except ε β} {xs : List α}
    {ys : List γ} {zs : List β}
    (h : List.Forall₂ (fun x y => ∀ z, g y = .ok z → f x = .ok z) xs ys)
    (hys : ys.mapM g = .ok zs) : xs.mapM f = .ok zs := by
  rw [mapM_eq_ok_iff] at hys ⊢
  induction h generalizing zs with
  | nil =>
    obtain rfl := List.forall₂_nil_left_iff.1 hys
    exact .nil
  | cons hxy _ ih =>
    obtain ⟨z, zs, hz, hzs, rfl⟩ := List.forall₂_cons_left_iff.1 hys
    exact .cons (hxy z hz) (ih hzs)

theorem bind_eq_or_error {x x' : Traced α} {k k' : α → Traced β} {e : Rejection}
    (hx : x.result = .error e ∨ x' = x) (hk : ∀ a, (k a).result = .error e ∨ k' a = k a) :
    (x >>= k).result = .error e ∨ (x' >>= k') = (x >>= k) := by
  rcases hx with hx | rfl
  · exact Or.inl (by rw [result_bind, hx]; rfl)
  · obtain ⟨log, _ | a⟩ := x'
    · exact Or.inr rfl
    · rcases hk a with ha | ha
      · exact Or.inl (by rw [result_bind]; exact ha)
      · refine Or.inr (Traced.ext ?_ ?_)
        · rw [log_bind_of_ok k' rfl, log_bind_of_ok k rfl, ha]
        · rw [result_bind, result_bind]
          exact congrArg result ha

theorem mapM_eq_or_error {f g : α → Traced β} {e : Rejection} {xs : List α}
    (h : ∀ x ∈ xs, (f x).result = .error e ∨ g x = f x) :
    (xs.mapM f).result = .error e ∨ xs.mapM g = xs.mapM f := by
  induction xs with
  | nil => exact Or.inr rfl
  | cons x xs ih =>
    rw [List.mapM_cons, List.mapM_cons]
    apply bind_eq_or_error (h x (by simp))
    intro y
    exact bind_eq_or_error (ih fun z hz => h z (by simp [hz])) fun ys => Or.inr rfl

/-! ## Records -/

/-- The records are the first ones of a plan: all of it if the run ends well, and not all of it if
the run has no level left for what comes next. -/
structure Follows (x : Traced α) (plan : List LogRecord) : Prop where
  part : x.log <+: plan
  whole : ∀ a, x.result = .ok a → x.log = plan
  short : ∀ l, x.result = .error (.tooDeep l) → x.log.length < plan.length

theorem follows_pure (a : α) : (pure a : Traced α).Follows [] :=
  ⟨List.nil_prefix, fun _ _ => rfl, fun _ h => absurd h (by simp)⟩

theorem follows_record (r : LogRecord) : (record r).Follows [r] :=
  ⟨List.prefix_rfl, fun _ _ => rfl, fun _ h => absurd h (by simp)⟩

theorem follows_reject {e : Rejection} (he : ∀ l, e ≠ .tooDeep l) (plan : List LogRecord) :
    (reject e : Traced α).Follows plan :=
  ⟨List.nil_prefix, fun _ h => absurd h (by simp),
    fun l h => absurd (Except.error.inj h) (he l)⟩

theorem Follows.bind {x : Traced α} {k : α → Traced β} {plan plan' : List LogRecord}
    (hx : x.Follows plan) (hk : ∀ a, (k a).Follows plan') : (x >>= k).Follows (plan ++ plan') := by
  cases h : x.result with
  | error e =>
    have hlog : (x >>= k).log = x.log := log_bind_of_error k h
    have hresult : (x >>= k).result = .error e := by
      rw [result_bind, h]
      rfl
    refine ⟨hlog ▸ hx.part.trans (List.prefix_append plan plan'), ?_, ?_⟩
    · intro b hb
      exact absurd (hresult.symm.trans hb) (by simp)
    · intro l hl
      obtain rfl : e = .tooDeep l := Except.error.inj (hresult.symm.trans hl)
      have hshort := hx.short l h
      rw [hlog, List.length_append]
      omega
  | ok a =>
    have hlog : (x >>= k).log = plan ++ (k a).log := by rw [log_bind_of_ok k h, hx.whole a h]
    have hresult : (x >>= k).result = (k a).result := by
      rw [result_bind, h]
      rfl
    refine ⟨?_, ?_, ?_⟩
    · rw [hlog]
      exact (List.prefix_append_right_inj plan).2 (hk a).part
    · intro b hb
      rw [hlog, (hk a).whole b (hresult ▸ hb)]
    · intro l hl
      have hshort := (hk a).short l (hresult ▸ hl)
      rw [hlog, List.length_append, List.length_append]
      omega

theorem follows_mapM {f : α → Traced β} {plan : α → List LogRecord} {xs : List α}
    (h : ∀ x ∈ xs, (f x).Follows (plan x)) : (xs.mapM f).Follows (xs.flatMap plan) := by
  induction xs with
  | nil => exact follows_pure []
  | cons x xs ih =>
    rw [List.mapM_cons, List.flatMap_cons]
    apply (h x (by simp)).bind
    intro y
    have hrest := (ih fun z hz => h z (by simp [hz])).bind fun ys => follows_pure (y :: ys)
    rwa [List.append_nil] at hrest

end BooleanQuery.Traced
