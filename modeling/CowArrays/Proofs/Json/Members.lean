import CowArrays.Proofs.Json.Kinds
import CowArrays.Proofs.Json.Skipping

/-!
Objects, read member by member: a reader that follows a step on every member of an object follows the
run of these steps over all of them, in the order of the text.
-/

namespace CowArrays.Json

/-! ### Keys -/

theorem isTrail_of_isLead {unit : Nat} (h : isLead unit = true) : isTrail unit = false := by
  simp only [isLead, isTrail, Bool.and_eq_true, decide_eq_true_eq, Bool.and_eq_false_iff,
    decide_eq_false_iff_not] at h ⊢
  omega

theorem string_append {s text : Octets} (h : SpellsString s text) (rest : Octets) :
    string (s ++ rest) = .ok (text, rest) := by
  have hne : backslash ≠ quote := by decide
  induction h with
  | done =>
    rw [string.eq_def]
    rfl
  | @plain b s text hb _ ih =>
    rw [List.cons_append, string.eq_def]
    dsimp only
    rw [if_neg hb.1, if_neg hb.2.1, if_neg hb.2.2, ih]
    rfl
  | @short e c s text he _ ih =>
    have hunit : e ≠ 0x75 := by
      rintro rfl
      cases he
    rw [List.cons_append, List.cons_append, string.eq_def]
    dsimp only
    rw [if_neg hne, if_pos rfl]
    -- the letter of a short escape is not that of a code unit
    split
    · rename_i heq
      cases heq
    · rename_i heq
      exact absurd (List.cons.inj heq).1 hunit
    · rename_i heq
      exact absurd (List.cons.inj heq).1 hunit
    · rename_i heq
      obtain ⟨rfl, rfl⟩ := List.cons.inj heq
      rw [he]
      dsimp only
      rw [ih]
      rfl
  | @unit a b c d unit s text hunit htrail hlead _ ih =>
    rw [List.cons_append, string.eq_def]
    dsimp only
    rw [if_neg hne, if_pos rfl]
    simp only [List.cons_append, hunit, htrail, hlead, Bool.false_eq_true, if_false, ih]
    rfl
  | @pair a b c d a' b' c' d' lead trail s text hunit hlead hunit' htrail _ ih =>
    rw [List.cons_append, string.eq_def]
    dsimp only
    rw [if_neg hne, if_pos rfl]
    simp only [List.cons_append, hunit, isTrail_of_isLead hlead, hlead, Bool.false_eq_true,
      if_false, if_true]
    rw [backslash]
    simp only [hunit', htrail, if_true, ih]
    rfl

theorem nextKey_first {blanks s : Octets} (hblanks : Blanks blanks) {k rest : Octets}
    (h : string s = .ok (k, rest)) : nextKey true (blanks ++ quote :: s) = .ok (some k, rest) := by
  have hquote : quote ≠ closeObject := by decide
  rw [nextKey, skipBlanks_append_cons hblanks rfl]
  dsimp only
  rw [if_neg hquote, if_pos rfl, if_pos rfl, h]
  rfl

theorem nextKey_comma {before behind s : Octets} (hbefore : Blanks before) (hbehind : Blanks behind)
    {k rest : Octets} (h : string s = .ok (k, rest)) :
    nextKey false (before ++ comma :: (behind ++ quote :: s)) = .ok (some k, rest) := by
  have hcomma : comma ≠ closeObject := by decide
  rw [nextKey, skipBlanks_append_cons hbefore rfl]
  dsimp only
  rw [if_neg hcomma, if_neg Bool.false_ne_true, if_pos rfl, skipBlanks_append_cons hbehind rfl]
  dsimp only
  rw [if_pos rfl, h]
  rfl

theorem nextKey_close {blanks : Octets} (hblanks : Blanks blanks) (first : Bool) (s : Octets) :
    nextKey first (blanks ++ closeObject :: s) = .ok (none, s) := by
  rw [nextKey, skipBlanks_append_cons hblanks rfl]
  rfl

theorem expectColon_append {blanks : Octets} (hblanks : Blanks blanks) (s : Octets) :
    expectColon (blanks ++ colon :: s) = .ok s := by
  rw [expectColon, skipBlanks_append_cons hblanks rfl]
  rfl

/-! ### Members -/

theorem toOption_bind {ε α β : Type} (x : Except ε α) (f : α → Except ε β) :
    (x >>= f).toOption = x.toOption.bind fun a => (f a).toOption := by
  cases x <;> rfl

theorem toOption_eq_some_iff {ε α : Type} {x : Except ε α} {a : α} :
    x.toOption = some a ↔ x = .ok a := by
  cases x <;> simp [Except.toOption]

variable {σ : Type} {member : σ → Octets → Octets → Reads σ} {step : σ → Octets × Octets → Option σ}

/-- What a member does to a state, whatever stands around its value. -/
def Follows (member : σ → Octets → Octets → Reads σ) (step : σ → Octets × Octets → Option σ)
    (x : Octets × Octets) : Prop :=
  ∀ {before behind rest : Octets} (state : σ), Blanks before → Blanks behind → Ends rest →
    (member state x.1 (before ++ colon :: (behind ++ (x.2 ++ rest)))).toOption =
      (step state x).map fun state => (state, rest)

/-- A member that is passed over leaves the state. -/
theorem skipMember_append {w before behind rest : Octets} (hw : IsValue w) (hbefore : Blanks before)
    (hbehind : Blanks behind) (hends : Ends rest) :
    skipMember (before ++ colon :: (behind ++ (w ++ rest))) = .ok rest := by
  have hfuel : 2 * w.length ≤ 2 * (behind ++ (w ++ rest)).length + 2 := by
    simp only [List.length_append]
    omega
  rw [skipMember, expectColon_append hbefore]
  exact hw.skips.passes hfuel hbehind hends

theorem memberValue_append {α : Type} (value : Octets → Reads α) {before : Octets}
    (hbefore : Blanks before) (s : Octets) :
    memberValue value (before ++ colon :: s) = value s := by
  rw [memberValue, expectColon_append hbefore]
  rfl

theorem members_close {blanks : Octets} (hblanks : Blanks blanks) (fuel : Nat) (first : Bool)
    (state : σ) (s : Octets) :
    members member (fuel + 1) first state (blanks ++ closeObject :: s) = .ok (state, s) := by
  rw [members, nextKey_close hblanks]
  rfl

/-- The first fault of a member is that of the object. -/
theorem members_refused {fuel : Nat} {first : Bool} {state : σ} {s s' k : Octets} {fault : Fault}
    (hnext : nextKey first s = .ok (some k, s')) (hmember : member state k s' = .error fault) :
    members member (fuel + 1) first state s = .error fault := by
  rw [members, hnext]
  show Except.bind (member state k s') _ = _
  rw [hmember]
  rfl

/-- A member that comes next does its step, and then the others. -/
theorem members_next {fuel : Nat} {first : Bool} {state : σ} {s before behind w rest : Octets}
    {k : Octets} (hx : Follows member step (k, w)) (hbefore : Blanks before)
    (hbehind : Blanks behind) (hends : Ends rest)
    (hnext : nextKey first s = .ok (some k, before ++ colon :: (behind ++ (w ++ rest)))) :
    (members member (fuel + 1) first state s).toOption =
      (step state (k, w)).bind fun state => (members member fuel false state rest).toOption := by
  rw [members, hnext]
  show Except.toOption (member state k (before ++ colon :: (behind ++ (w ++ rest))) >>= _) = _
  rw [toOption_bind, hx state hbefore hbehind hends, Option.bind_map]
  rfl

theorem members_tail {w : Octets} {xs : List (Octets × Octets)}
    (h : Tail (Member SpellsString IsValue) closeObject w xs)
    (hxs : ∀ x ∈ xs, Follows member step x) (rest : Octets) {fuel : Nat} (hfuel : w.length ≤ fuel)
    (state : σ) : (members member fuel false state (w ++ rest)).toOption =
      (xs.foldlM step state).map fun state => (state, rest) := by
  induction h generalizing fuel state with
  | @done blanks hblanks =>
    rw [List.length_append, List.length_singleton] at hfuel
    obtain ⟨fuel, rfl⟩ := Nat.exists_eq_add_one_of_ne_zero (n := fuel) (by omega)
    rw [List.append_assoc, List.singleton_append, members_close hblanks]
    rfl
  | @more before behind w tail x xs hbefore hbehind hw htail ih =>
    simp only [List.length_append, List.length_cons] at hfuel
    obtain ⟨fuel, rfl⟩ := Nat.exists_eq_add_one_of_ne_zero (n := fuel) (by omega)
    obtain ⟨hx, hrest⟩ := List.forall_mem_cons.1 hxs
    cases hw with
    | @mk s before' behind' w k hkey hbefore' hbehind' hw =>
      have hnext := nextKey_comma hbefore hbehind
        (string_append hkey (before' ++ colon :: (behind' ++ (w ++ (tail ++ rest)))))
      have htext : before ++ comma :: (behind ++ (quote :: (s ++ (before' ++ colon ::
          (behind' ++ w))) ++ tail)) ++ rest = before ++ comma :: (behind ++ quote ::
            (s ++ (before' ++ colon :: (behind' ++ (w ++ (tail ++ rest)))))) := by simp
      rw [htext, members_next hx hbefore' hbehind' (htail.ends (.inr rfl) rest) hnext,
        List.foldlM_cons]
      cases step state (k, w) with
      | none => rfl
      | some next => exact ih hrest (by omega) next

/-- From behind the opening brace, an object is read as the run of the steps of its members. -/
theorem members_object {w : Octets} {xs : List (Octets × Octets)}
    (h : Enclosed (Member SpellsString IsValue) openObject closeObject w xs)
    (hxs : ∀ x ∈ xs, Follows member step x) (rest : Octets) (state : σ) :
    ∃ s, w = openObject :: s ∧
      (members member ((s ++ rest).length + 1) true state (s ++ rest)).toOption =
        (xs.foldlM step state).map fun state => (state, rest) := by
  cases h with
  | @empty blanks hblanks =>
    refine ⟨_, rfl, ?_⟩
    rw [List.append_assoc, List.singleton_append, members_close hblanks]
    rfl
  | @items blanks w tail x xs hblanks hw htail =>
    refine ⟨_, rfl, ?_⟩
    obtain ⟨hx, hrest⟩ := List.forall_mem_cons.1 hxs
    cases hw with
    | @mk s before behind w k hkey hbefore hbehind hw =>
      have hnext := nextKey_first hblanks
        (string_append hkey (before ++ colon :: (behind ++ (w ++ (tail ++ rest)))))
      have htext : blanks ++ (quote :: (s ++ (before ++ colon :: (behind ++ w))) ++ tail) ++ rest =
          blanks ++ quote :: (s ++ (before ++ colon :: (behind ++ (w ++ (tail ++ rest))))) := by
        simp
      rw [htext, members_next hx hbefore hbehind (htail.ends (.inr rfl) rest) hnext,
        List.foldlM_cons]
      cases step state (k, w) with
      | none => rfl
      | some next =>
        refine members_tail htail hrest rest ?_ next
        simp only [List.length_append, List.length_cons]
        omega

/-! ### Fields -/

section Fields

variable {α : Type} {value : Octets → Reads α} {meaning : Octets → α → Prop}

/-- What a reader makes of a text alone. -/
def said (value : Octets → Reads α) (w : Octets) : Option α := (value w).toOption.map Prod.fst

theorem said_of_spells {w : Octets} {x : α} (h : Spells value w x) : said value w = some x := by
  have hread := h.reads blanks_nil ends_nil
  rw [List.nil_append, List.append_nil] at hread
  rw [said, hread]
  rfl

theorem Understands.said_cases (h : Understands value meaning) {w : Octets} (hw : IsValue w) :
    (∃ x, meaning w x ∧ said value w = some x) ∨ (∀ x, ¬meaning w x) ∧ said value w = none := by
  by_cases hmeaning : ∃ x, meaning w x
  · obtain ⟨x, hx⟩ := hmeaning
    exact .inl ⟨x, hx, said_of_spells (h.accepts hx)⟩
  · have hnone := not_exists.1 hmeaning
    obtain ⟨fault, hfault⟩ := h.refuses hw hnone blanks_nil ends_nil
    rw [List.nil_append, List.append_nil] at hfault
    exact .inr ⟨hnone, by rw [said, hfault]; rfl⟩

theorem Understands.said_iff (h : Understands value meaning) {w : Octets} (hw : IsValue w) (x : α) :
    said value w = some x ↔ meaning w x := by
  constructor
  · intro hx
    rcases h.said_cases hw with ⟨y, hy, heq⟩ | ⟨-, heq⟩
    · rw [hx] at heq
      exact Option.some.inj heq ▸ hy
    · rw [hx] at heq
      cases heq
  · exact fun hx => said_of_spells (h.accepts hx)

/-- Whether a reader makes the same of a text wherever it stands. -/
def ReadsAlike (value : Octets → Reads α) (w : Octets) : Prop :=
  ∀ {blanks rest : Octets}, Blanks blanks → Ends rest →
    (∃ x, said value w = some x ∧ value (blanks ++ (w ++ rest)) = .ok (x, rest)) ∨
      said value w = none ∧ ∃ fault, value (blanks ++ (w ++ rest)) = .error fault

theorem Spells.readsAlike {w : Octets} {x : α} (h : Spells value w x) : ReadsAlike value w :=
  fun hblanks hends => .inl ⟨x, said_of_spells h, h.reads hblanks hends⟩

theorem Understands.readsAlike (h : Understands value meaning) {w : Octets} (hw : IsValue w) :
    ReadsAlike value w := by
  intro blanks rest hblanks hends
  rcases h.said_cases hw with ⟨x, hx, hsaid⟩ | ⟨hnone, hsaid⟩
  · exact .inl ⟨x, hsaid, (h.accepts hx).reads hblanks hends⟩
  · exact .inr ⟨hsaid, h.refuses hw hnone hblanks hends⟩

def takeField (value : Octets → Reads α) (field : Option α) (w : Octets) : Option (Option α) :=
  if field.isSome then none else (said value w).map some

/-- A field that may take a value is read with it. -/
theorem toOption_field {σ : Type} {w before behind rest : Octets} (h : ReadsAlike value w)
    (hbefore : Blanks before) (hbehind : Blanks behind) (hends : Ends rest) (field : Option α)
    (set : Option α → σ) :
    Except.toOption (if field.isSome then .error .unsuitable
      else do
        let (x, rest) ← memberValue value (before ++ colon :: (behind ++ (w ++ rest)))
        return (set (some x), rest) : Except Fault (σ × Octets)) =
      ((takeField value field w).map set).map fun state => (state, rest) := by
  rw [memberValue_append value hbefore, takeField]
  cases field with
  | some y => rfl
  | none =>
    rw [Option.isSome_none, if_neg Bool.false_ne_true, if_neg Bool.false_ne_true]
    rcases h hbehind hends with ⟨x, hsaid, hread⟩ | ⟨hsaid, fault, hread⟩ <;>
      rw [hsaid, hread] <;> rfl

/-- What becomes of a field: it stays without a value for it, and takes one value if it held
none. -/
inductive Taken (meaning : Octets → α → Prop) : Option α → List Octets → Option α → Prop
  | kept {field : Option α} : Taken meaning field [] field
  | given {w : Octets} {x : α} (h : meaning w x) : Taken meaning none [w] (some x)

theorem taken_cons_iff {w : Octets} (hw : ∀ x, said value w = some x ↔ meaning w x)
    {field field' : Option α} {ws : List Octets} : Taken meaning field (w :: ws) field' ↔
      ∃ next, takeField value field w = some next ∧ Taken meaning next ws field' := by
  constructor
  · rintro ⟨⟩
    rename_i x hx
    exact ⟨some x, by rw [takeField, (hw x).2 hx]; rfl, .kept⟩
  · rintro ⟨next, hnext, htaken⟩
    cases field with
    | some y => cases hnext
    | none =>
      obtain ⟨x, hx, rfl⟩ := Option.map_eq_some_iff.1 hnext
      cases htaken
      exact .given ((hw x).1 hx)

/-- A step that sets one field, and a law of the next state that is one of this field and a rest. -/
theorem takeField_bind {σ : Type} {w : Octets} (hw : ∀ x, said value w = some x ↔ meaning w x)
    {field field' : Option α} {ws : List Octets} {set : Option α → σ} {P : σ → Prop} {Q : Prop}
    (hP : ∀ next, P (set next) ↔ Taken meaning next ws field' ∧ Q) :
    (∃ state, (takeField value field w).map set = some state ∧ P state) ↔
      Taken meaning field (w :: ws) field' ∧ Q := by
  rw [taken_cons_iff hw]
  constructor
  · rintro ⟨state, hstate, hlaw⟩
    obtain ⟨next, hnext, rfl⟩ := Option.map_eq_some_iff.1 hstate
    obtain ⟨htaken, hrest⟩ := (hP next).1 hlaw
    exact ⟨⟨next, hnext, htaken⟩, hrest⟩
  · rintro ⟨⟨next, hnext, htaken⟩, hrest⟩
    exact ⟨set next, by rw [hnext]; rfl, (hP next).2 ⟨htaken, hrest⟩⟩

def valuesOf (k : Octets) (xs : List (Octets × Octets)) : List Octets :=
  (xs.filter fun x => x.1 = k).map Prod.snd

theorem valuesOf_cons_of_eq (k w : Octets) (xs : List (Octets × Octets)) :
    valuesOf k ((k, w) :: xs) = w :: valuesOf k xs := by
  simp [valuesOf]

theorem valuesOf_cons_of_ne {k k' w : Octets} (h : k' ≠ k) (xs : List (Octets × Octets)) :
    valuesOf k ((k', w) :: xs) = valuesOf k xs := by
  simp [valuesOf, h]

end Fields

/-! ### Documents -/

/-- Behind the value of a document there may be white space. -/
theorem toOption_document {α : Type} {value : Octets → Reads α} {s behind : Octets} {x : Option α}
    (hbehind : Blanks behind) (h : (value s).toOption = x.map fun x => (x, behind)) :
    (document value s).toOption = x := by
  have hskip : skipBlanks behind = [] := List.dropWhile_eq_nil_iff.2 hbehind
  rw [document, toOption_bind, h, Option.bind_map]
  cases x with
  | none => rfl
  | some x =>
    show (if (skipBlanks behind).isEmpty = true then _ else _ : Except Fault α).toOption = _
    rw [hskip]
    rfl

end CowArrays.Json
