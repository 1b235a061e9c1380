import CowArrays.Failure

/-!
Attempts that follow one another: when a sequence or a loop of them succeeds, and with what.
-/

namespace CowArrays.Attempt

variable {α β : Type}

theorem bind_eq_ok {x : Attempt α} {f : α → Attempt β} {b : β} :
    (x >>= f) = .ok b ↔ ∃ a, x = .ok a ∧ f a = .ok b := by
  cases x with
  | error failure => exact ⟨nofun, fun ⟨_, h, _⟩ => nomatch h⟩
  | ok a => exact ⟨fun h => ⟨a, rfl, h⟩, fun ⟨_, rfl, h⟩ => h⟩

theorem seq_eq_ok {x : Attempt Unit} {f : Unit → Attempt β} {b : β} :
    (x >>= f) = .ok b ↔ x = .ok () ∧ f () = .ok b := by
  rw [bind_eq_ok]
  exact ⟨fun ⟨_, hx, hf⟩ => ⟨hx, hf⟩, fun ⟨hx, hf⟩ => ⟨(), hx, hf⟩⟩

/-- Where what follows cannot fail, the first attempt decides about failure. -/
theorem bind_eq_error_of_ok {x : Attempt α} {f : α → Attempt β} (hf : ∀ a, ∃ b, f a = .ok b)
    {failure : Failure} : (x >>= f) = .error failure ↔ x = .error failure := by
  cases x with
  | error failure' =>
    exact ⟨fun h => congrArg Except.error (Except.error.inj h),
      fun h => congrArg Except.error (Except.error.inj h)⟩
  | ok a =>
    obtain ⟨b, hb⟩ := hf a
    refine ⟨fun h => ?_, nofun⟩
    cases hb.symm.trans h

theorem map_eq_ok {x : Attempt α} {f : α → β} {b : β} :
    x.map f = .ok b ↔ ∃ a, x = .ok a ∧ f a = b := by
  cases x with
  | error failure => exact ⟨nofun, fun ⟨_, h, _⟩ => nomatch h⟩
  | ok a => exact ⟨fun h => ⟨a, rfl, Except.ok.inj h⟩, fun ⟨_, rfl, h⟩ => congrArg Except.ok h⟩

@[simp] theorem ok_bind (a : α) (f : α → Attempt β) : ((.ok a : Attempt α) >>= f) = f a := rfl

@[simp] theorem error_bind (failure : Failure) (f : α → Attempt β) :
    ((.error failure : Attempt α) >>= f) = .error failure := rfl

@[simp] theorem pure_eq_ok (a : α) : (pure a : Attempt α) = .ok a := rfl

@[simp] theorem throw_eq_error (failure : Failure) :
    (throw failure : Attempt α) = .error failure := rfl

/-- Whatever an attempt succeeds with has a property. -/
def Yields (P : α → Prop) (x : Attempt α) : Prop := ∀ a, x = .ok a → P a

theorem Yields.ok {P : α → Prop} {a : α} (h : P a) : Yields P (.ok a) :=
  fun _ hb => Except.ok.inj hb ▸ h

theorem Yields.error {P : α → Prop} {failure : Failure} : Yields P (.error failure) :=
  fun _ h => nomatch h

theorem Yields.bind {P : β → Prop} {x : Attempt α} {f : α → Attempt β}
    (h : ∀ a, x = .ok a → Yields P (f a)) : Yields P (x >>= f) := by
  intro b hb
  obtain ⟨a, ha, hf⟩ := bind_eq_ok.1 hb
  exact h a ha b hf

/-- A loop whose steps succeed while an invariant holds, and keep it, succeeds with the invariant. -/
theorem foldlM_ok {f : β → α → Attempt β} (I : β → Prop) {l : List α} {b : β} (hb : I b)
    (hf : ∀ b, ∀ a ∈ l, I b → ∃ b', f b a = .ok b' ∧ I b') :
    ∃ b', l.foldlM f b = .ok b' ∧ I b' := by
  induction l generalizing b with
  | nil => exact ⟨b, rfl, hb⟩
  | cons x l ih =>
    obtain ⟨c, hc, hI⟩ := hf b x List.mem_cons_self hb
    obtain ⟨b', hb', hI'⟩ := ih hI fun b a ha => hf b a (List.mem_cons_of_mem x ha)
    refine ⟨b', ?_, hI'⟩
    rw [List.foldlM_cons, hc]
    exact hb'

theorem foldlM_congr {f g : β → α → Attempt β} {l : List α} (h : ∀ b, ∀ a ∈ l, f b a = g b a)
    (b : β) : l.foldlM f b = l.foldlM g b := by
  induction l generalizing b with
  | nil => rfl
  | cons x l ih =>
    rw [List.foldlM_cons, List.foldlM_cons, h b x List.mem_cons_self]
    exact bind_congr fun c => ih (fun b a ha => h b a (List.mem_cons_of_mem x ha)) c

theorem forM_eq_ok {f : α → Attempt Unit} {xs : List α} :
    xs.forM f = .ok () ↔ ∀ x ∈ xs, f x = .ok () := by
  induction xs with
  | nil => simp
  | cons x xs ih =>
    show (f x >>= fun _ => xs.forM f) = .ok () ↔ _
    rw [seq_eq_ok, List.forall_mem_cons, ih]

theorem forM_eq_error {f : α → Attempt Unit} {xs : List α} {failure : Failure} :
    xs.forM f = .error failure ↔ ∃ before a after, xs = before ++ a :: after ∧
      (∀ x ∈ before, f x = .ok ()) ∧ f a = .error failure := by
  induction xs with
  | nil => exact ⟨nofun, fun ⟨_, _, _, h, _⟩ => by simp at h⟩
  | cons x xs ih =>
    have hcons : (x :: xs).forM f = f x >>= fun _ => xs.forM f := rfl
    cases hx : f x with
    | error failure' =>
      rw [hcons, hx, error_bind]
      constructor
      · intro heq
        exact ⟨[], x, xs, rfl, nofun, hx.trans heq⟩
      · rintro ⟨before, a, after, heq, hbefore, ha⟩
        cases before with
        | nil =>
          obtain ⟨rfl, -⟩ := List.cons.inj heq
          exact hx.symm.trans ha
        | cons y before =>
          obtain ⟨rfl, -⟩ := List.cons.inj heq
          cases hx.symm.trans (hbefore x List.mem_cons_self)
    | ok =>
      rw [hcons, hx, ok_bind, ih]
      constructor
      · rintro ⟨before, a, after, rfl, hbefore, ha⟩
        exact ⟨x :: before, a, after, rfl, List.forall_mem_cons.2 ⟨hx, hbefore⟩, ha⟩
      · rintro ⟨before, a, after, heq, hbefore, ha⟩
        cases before with
        | nil =>
          obtain ⟨rfl, -⟩ := List.cons.inj heq
          cases hx.symm.trans ha
        | cons y before =>
          obtain ⟨-, rfl⟩ := List.cons.inj heq
          exact ⟨before, a, after, rfl, (List.forall_mem_cons.1 hbefore).2, ha⟩

theorem anyM_eq_any {f : α → Attempt Bool} {test : α → Bool} {xs : List α}
    (h : ∀ x ∈ xs, f x = .ok (test x)) : xs.anyM f = .ok (xs.any test) := by
  induction xs with
  | nil => rfl
  | cons x xs ih =>
    obtain ⟨hx, hrest⟩ := List.forall_mem_cons.1 h
    rw [List.anyM, hx, List.any_cons]
    cases test x with
    | true => rfl
    | false => exact ih hrest

/-- Tests that each succeed and decide something decide it for all items, also where the first one
that is not passed ends them. -/
theorem exists_allM {f : α → Attempt Bool} {P : α → Prop} {l : List α}
    (h : ∀ x ∈ l, ∃ b, f x = .ok b ∧ (b = true ↔ P x)) :
    ∃ b, l.allM f = .ok b ∧ (b = true ↔ ∀ x ∈ l, P x) := by
  induction l with
  | nil => exact ⟨true, rfl, by simp⟩
  | cons x l ih =>
    obtain ⟨⟨b, hb, hiff⟩, hrest⟩ := List.forall_mem_cons.1 h
    rw [List.allM, hb]
    cases b with
    | true =>
      obtain ⟨c, hc, hall⟩ := ih hrest
      exact ⟨c, hc, hall.trans (by simp [hiff.1 rfl])⟩
    | false => exact ⟨false, rfl, by simp [← hiff]⟩

/-- Whatever an attempt fails with has a property. -/
def FailsOnly (P : Failure → Prop) (x : Attempt α) : Prop :=
  ∀ failure, x = .error failure → P failure

namespace FailsOnly

variable {P Q : Failure → Prop} {x : Attempt α}

theorem ok {a : α} : FailsOnly P (.ok a) := nofun

theorem of_ok (h : ∃ a, x = .ok a) : FailsOnly P x := by
  obtain ⟨a, rfl⟩ := h
  exact ok

theorem error {failure : Failure} (h : P failure) : FailsOnly P (.error failure : Attempt α) :=
  fun _ heq => Except.error.inj heq ▸ h

theorem bind {f : α → Attempt β} (hx : FailsOnly P x)
    (hf : ∀ a, x = .ok a → FailsOnly P (f a)) : FailsOnly P (x >>= f) := by
  cases x with
  | error failure => exact error (hx failure rfl)
  | ok a => exact hf a rfl

theorem map {f : α → β} (hx : FailsOnly P x) : FailsOnly P (x.map f) := by
  cases x with
  | error failure => exact error (hx failure rfl)
  | ok a => exact ok

theorem ite {c : Prop} [Decidable c] {y : Attempt α} (hx : FailsOnly P x) (hy : FailsOnly P y) :
    FailsOnly P (if c then x else y) := by
  split
  · exact hx
  · exact hy

theorem mono (h : ∀ failure, P failure → Q failure) (hx : FailsOnly P x) : FailsOnly Q x :=
  fun failure heq => h failure (hx failure heq)

/-! Loops fail with what their steps fail with. -/

theorem mapM {f : α → Attempt β} {xs : List α} (h : ∀ a ∈ xs, FailsOnly P (f a)) :
    FailsOnly P (xs.mapM f) := by
  induction xs with
  | nil => exact ok
  | cons a xs ih =>
    obtain ⟨ha, hrest⟩ := List.forall_mem_cons.1 h
    rw [List.mapM_cons]
    exact ha.bind fun _ _ => (ih hrest).bind fun _ _ => ok

theorem foldlM {f : β → α → Attempt β} {xs : List α} {b : β}
    (h : ∀ b, ∀ a ∈ xs, FailsOnly P (f b a)) : FailsOnly P (xs.foldlM f b) := by
  induction xs generalizing b with
  | nil => exact ok
  | cons a xs ih =>
    rw [List.foldlM_cons]
    exact (h b a List.mem_cons_self).bind fun c _ => ih fun b a ha => h b a (.tail _ ha)

theorem forM {f : α → Attempt Unit} {xs : List α} (h : ∀ a ∈ xs, FailsOnly P (f a)) :
    FailsOnly P (xs.forM f) := by
  induction xs with
  | nil => exact ok
  | cons a xs ih =>
    obtain ⟨ha, hrest⟩ := List.forall_mem_cons.1 h
    exact ha.bind fun _ _ => ih hrest

theorem anyM {f : α → Attempt Bool} {xs : List α} (h : ∀ a ∈ xs, FailsOnly P (f a)) :
    FailsOnly P (xs.anyM f) := by
  induction xs with
  | nil => exact ok
  | cons a xs ih =>
    obtain ⟨ha, hrest⟩ := List.forall_mem_cons.1 h
    refine ha.bind fun b _ => ?_
    cases b with
    | true => exact ok
    | false => exact ih hrest

theorem allM {f : α → Attempt Bool} {xs : List α} (h : ∀ a ∈ xs, FailsOnly P (f a)) :
    FailsOnly P (xs.allM f) := by
  induction xs with
  | nil => exact ok
  | cons a xs ih =>
    obtain ⟨ha, hrest⟩ := List.forall_mem_cons.1 h
    refine ha.bind fun b _ => ?_
    cases b with
    | true => exact ih hrest
    | false => exact ok

end FailsOnly

/-! ### Attempts at every item of a list -/

theorem mapM_eq_ok {f : α → Attempt β} {xs : List α} {ys : List β} :
    xs.mapM f = .ok ys ↔ ys.length = xs.length ∧
      ∀ (i : Nat) (x : α), xs[i]? = some x → ∃ y, ys[i]? = some y ∧ f x = .ok y := by
  induction xs generalizing ys with
  | nil =>
    constructor
    · intro h
      obtain rfl : [] = ys := Except.ok.inj h
      exact ⟨rfl, nofun⟩
    · rintro ⟨hlength, -⟩
      rw [List.length_eq_zero_iff.1 hlength]
      rfl
  | cons x xs ih =>
    rw [List.mapM_cons, bind_eq_ok]
    constructor
    · rintro ⟨y, hy, hrest⟩
      obtain ⟨ys', hys, heq⟩ := bind_eq_ok.1 hrest
      obtain rfl : y :: ys' = ys := Except.ok.inj heq
      have ⟨hlength, hall⟩ := ih.1 hys
      refine ⟨congrArg (· + 1) hlength, fun i z hz => ?_⟩
      cases i with
      | zero =>
        obtain rfl := Option.some.inj hz
        exact ⟨y, rfl, hy⟩
      | succ i => exact hall i z hz
    · rintro ⟨hlength, hall⟩
      obtain ⟨y, hy, hfy⟩ := hall 0 x rfl
      cases ys with
      | nil => cases hy
      | cons y' ys =>
        obtain rfl := Option.some.inj hy
        have hys : xs.mapM f = .ok ys :=
          ih.2 ⟨Nat.succ.inj hlength, fun i z hz => hall (i + 1) z hz⟩
        exact ⟨y', hfy, by rw [hys]; rfl⟩

theorem mapM_eq_map {f : α → Attempt β} {g : α → β} {xs : List α}
    (h : ∀ x ∈ xs, f x = .ok (g x)) : xs.mapM f = .ok (xs.map g) := by
  refine mapM_eq_ok.2 ⟨List.length_map g, fun i x hx => ⟨g x, ?_, h x (List.mem_of_getElem? hx)⟩⟩
  rw [List.getElem?_map, hx]
  rfl

theorem mapM_eq_error {f : α → Attempt β} {xs : List α} {failure : Failure} :
    xs.mapM f = .error failure ↔ ∃ (i : Nat) (x : α), xs[i]? = some x ∧
      f x = .error failure ∧ ∀ k < i, ∀ y, xs[k]? = some y → ∃ z, f y = .ok z := by
  induction xs with
  | nil => exact ⟨nofun, fun ⟨_, _, h, _⟩ => nomatch h⟩
  | cons x xs ih =>
    rw [List.mapM_cons]
    cases hx : f x with
    | error failure' =>
      constructor
      · intro h
        obtain rfl : failure' = failure := Except.error.inj h
        exact ⟨0, x, rfl, hx, fun k hk => absurd hk (Nat.not_lt_zero k)⟩
      · rintro ⟨i, y, hy, hfail, hbefore⟩
        cases i with
        | zero =>
          obtain rfl := Option.some.inj hy
          rw [hx] at hfail
          exact congrArg Except.error (Except.error.inj hfail)
        | succ i =>
          obtain ⟨z, hz⟩ := hbefore 0 (Nat.succ_pos i) x rfl
          rw [hx] at hz
          cases hz
    | ok z =>
      refine (bind_eq_error_of_ok fun ys => ⟨z :: ys, rfl⟩).trans (ih.trans ?_)
      constructor
      · rintro ⟨i, y, hy, hfail, hbefore⟩
        refine ⟨i + 1, y, hy, hfail, fun k hk w hw => ?_⟩
        cases k with
        | zero =>
          obtain rfl := Option.some.inj hw
          exact ⟨z, hx⟩
        | succ k => exact hbefore k (Nat.lt_of_succ_lt_succ hk) w hw
      · rintro ⟨i, y, hy, hfail, hbefore⟩
        cases i with
        | zero =>
          obtain rfl := Option.some.inj hy
          rw [hx] at hfail
          cases hfail
        | succ i =>
          exact ⟨i, y, hy, hfail, fun k hk w hw => hbefore (k + 1) (Nat.succ_lt_succ hk) w hw⟩

end CowArrays.Attempt
