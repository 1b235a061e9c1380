import CowArrays.Proofs.Sharing.Accounting
import CowArrays.Proofs.Triplet.Grammar

/-!
Loading a triplet text into a matrix. What is there afterwards is decided by the values that the
text gives for each position, in their order; what the matrix held before, and how positions follow
each other in the text, leave no trace. A text that is not loaded leaves the matrix as it was, and a
line that offends is reported before every position outside.
-/

namespace CowArrays

variable {p : Precision}

namespace Triplet

variable {ts us : List Triplet}

/-! ### Sums by position -/

/-- The values at a position, in the order of the text. -/
def valuesAt (ts : List Triplet) (i j : Nat) : List (Scalar .double) :=
  (ts.filter fun t => t.At i j).map value

/-- Values added to zero one after the other, in the format of the sum. -/
def total (vs : List (Scalar .double)) : Scalar p :=
  vs.foldl (fun x v => x + .ofDouble v) .zero

theorem sumAt_eq_foldl (ts : List Triplet) (i j : Nat) (x : Scalar p) :
    sumAt ts i j x = (valuesAt ts i j).foldl (fun x v => x + .ofDouble v) x := by
  induction ts generalizing x with
  | nil => rfl
  | cons t ts ih =>
    rw [sumAt_cons, ih]
    by_cases ht : t.At i j
    · simp [valuesAt, ht]
    · simp [valuesAt, ht]

theorem exists_at_iff {i j : Nat} : (∃ t ∈ ts, t.At i j) ↔ valuesAt ts i j ≠ [] := by
  rw [valuesAt, ne_eq, List.map_eq_nil_iff, List.filter_eq_nil_iff]
  simp

/-- Whether a grid of so many rows and columns and a pattern hold what triplets say, and nothing
else. -/
structure Holds (ts : List Triplet) (rows cols : Nat) (g : Grid p) (y : Pattern) : Prop where
  shape : g.shape = (rows, cols)
  /-- Each entry is the sum of the values at its position, so it is zero if there are none. -/
  entry : ∀ i j, i < rows → j < cols → g.read? i j = some (total (valuesAt ts i j))
  size : y.size = rows
  /-- The positions are those that are mentioned, also where the sum is zero. -/
  contains : ∀ i j, y.contains i j = true ↔ ∃ t ∈ ts, t.At i j

theorem fill_holds {g : Grid p} (hts : ∀ t ∈ ts, t.row < g.rows ∧ t.col < g.cols) :
    ∃ g' y, fill g ts = .ok (g', y) ∧ Holds ts g.rows g.cols g' y := by
  obtain ⟨g', y, hfill, hshape, hsize, hcontains, hentry⟩ := fill_of_lt hts
  refine ⟨g', y, hfill, hshape, fun i j hi hj => ?_, hsize, hcontains⟩
  rw [hentry i j hi hj, sumAt_eq_foldl]
  rfl

/-- Triplets with the same values at each position leave the same. -/
theorem Holds.unique {rows cols : Nat} {g g' : Grid p} {y y' : Pattern}
    (h : Holds ts rows cols g y) (h' : Holds us rows cols g' y')
    (hvalues : ∀ i j, valuesAt ts i j = valuesAt us i j) : g = g' ∧ y = y' := by
  constructor
  · obtain ⟨rfl, rfl⟩ := Prod.mk.inj h.shape
    refine Grid.eq_of_read? h'.shape.symm fun i j hij => ?_
    rw [h.entry i j hij.1 hij.2, h'.entry i j hij.1 hij.2, hvalues]
  · refine Pattern.eq_of_contains (h.size.trans h'.size.symm) fun i j => ?_
    rw [h.contains, h'.contains, exists_at_iff, exists_at_iff, hvalues]

/-- Neighbours at different positions may trade places. -/
theorem valuesAt_swap {t u : Triplet} (hne : ¬u.At t.row t.col) (before rest : List Triplet)
    (i j : Nat) :
    valuesAt (before ++ t :: u :: rest) i j = valuesAt (before ++ u :: t :: rest) i j := by
  by_cases ht : t.At i j
  · have hu : ¬u.At i j := by rwa [← ht.1, ← ht.2]
    simp [valuesAt, ht, hu]
  · simp [valuesAt, List.filter_cons, ht]

/-- Positions are inside for two lists of triplets alike if they have the same values at each. -/
theorem inside_congr {rows cols : Nat} (hvalues : ∀ i j, valuesAt ts i j = valuesAt us i j)
    (h : ∀ t ∈ ts, t.row < rows ∧ t.col < cols) : ∀ u ∈ us, u.row < rows ∧ u.col < cols := by
  intro u hu
  have hmentioned : valuesAt ts u.row u.col ≠ [] := by
    rw [hvalues]
    exact exists_at_iff.1 ⟨u, hu, rfl, rfl⟩
  obtain ⟨t, ht, hrow, hcol⟩ := exists_at_iff.2 hmentioned
  rw [← hrow, ← hcol]
  exact h t ht

/-! ### Texts that are not read -/

variable {text : Octets} {failure : Failure}

/-- A feed that is not read is reported by one of its lines or by its fault, not by a position. -/
theorem not_refused_of_readFeed {feed : Feed} (h : readFeed feed = .error failure)
    (reason : Refusal) : failure ≠ .refused reason := by
  rintro rfl
  cases hread : readAll feed.text with
  | error first =>
    obtain rfl := Except.error.inj ((readFeed_of_unread hread).symm.trans h)
    obtain ⟨before, line, rest, ms, -, -, hoffends⟩ := readAll_eq_error_iff.1 hread
    cases hoffends
  | ok ts =>
    cases hfault : feed.fault with
    | none =>
      rw [Feed.text, hfault] at hread
      cases hread.symm.trans (readFeed_of_whole hfault ▸ h)
    | some fault => cases (readFeed_of_fault hread hfault).symm.trans h

/-- A line that offends, wherever it is, keeps a text from being read. -/
theorem exists_readAll_eq_error {ls : List Octets} {line : Octets} {number : Nat}
    (hlines : Lines text ls) (hline : line ∈ ls) (hoffends : Offends number line failure) :
    ∃ first, readAll text = .error first := by
  cases hread : readAll text with
  | error first => exact ⟨first, rfl⟩
  | ok ts =>
    obtain ⟨ls', ms, hlines', hms, -⟩ := readAll_eq_ok_iff.1 hread
    obtain rfl := hlines.unique hlines'
    obtain ⟨k, hk, rfl⟩ := List.mem_iff_getElem.1 hline
    have haccepted := hms.get hk (hms.length_eq ▸ hk)
    cases hoffends.readLine_eq.symm.trans haccepted.readLine_eq

end Triplet

/-! ### Sessions -/

abbrev Step.load (target : Name) (feed : Feed) (out : Name) : Step p :=
  .act (.matrix (.load target feed out))

namespace Store

variable {s u : Store p} {target out : Name} {w : Grid p} {feed : Feed} {ts : List Triplet}

/-- Loading is one edit of the matrix behind the check of all positions. -/
theorem plan_load (hw : s.reading.matrix target = .ok w) (feed : Feed) (out : Name) :
    s.plan (.load target feed out) = (Triplet.readInside w.rows w.cols feed).map fun ts =>
      .change [.edit target fun r => do
        let (g, y) ← Triplet.fill (← r.matrix target) ts
        return ⟨.matrix g, some (out, y)⟩] := by
  show (MatrixStep.load target feed out).plan s.reading = _
  simp only [MatrixStep.plan, hw, Attempt.ok_bind]
  rfl

theorem Sound.step_load (hu : u.Sound) {g : Grid p} {y : Pattern}
    (hw : u.reading.matrix target = .ok w)
    (hread : Triplet.readInside w.rows w.cols feed = .ok ts)
    (hfill : Triplet.fill w ts = .ok (g, y)) (hout : out ≠ target) :
    ∃ t, u.step (.load target feed out) = (.ok .done, t) ∧
      t.reading.matrix target = .ok g ∧ t.reading.pattern out = .ok y := by
  obtain ⟨run, hplan, hrun⟩ : ∃ run, u.plan (.load target feed out) =
      .ok ⟨.done, [.edit target run]⟩ ∧
        run (u.reading.own target) = .ok ⟨.matrix g, some (out, y)⟩ := by
    refine ⟨?run, ?plan, ?fill⟩
    case plan =>
      rw [plan_load hw, hread]
      rfl
    case fill => simp [Reading.matrix_own hw, hfill]
  obtain ⟨t, hstep, hmatrix, hpattern⟩ := hu.step_edit hplan (Reading.matrix_eq_ok.1 hw) hrun
    fun _ heq => Option.some.inj heq ▸ hout.symm
  exact ⟨t, hstep, Reading.matrix_eq_ok.2 hmatrix, hpattern (out, y) rfl⟩

/-- A feed that is read, with all positions inside, is loaded, and what it says is there
afterwards. -/
theorem Sound.step_load_holds (hs : s.Sound) (hw : s.reading.matrix target = .ok w)
    (hout : out ≠ target) (hread : Triplet.readFeed feed = .ok ts)
    (inside : ∀ t ∈ ts, t.row < w.rows ∧ t.col < w.cols) :
    ∃ t g y, s.step (.load target feed out) = (.ok .done, t) ∧ t.reading.matrix target = .ok g ∧
      t.reading.pattern out = .ok y ∧ Triplet.Holds ts w.rows w.cols g y := by
  obtain ⟨g, y, hfill, hholds⟩ := Triplet.fill_holds inside
  obtain ⟨t, hstep, hmatrix, hpattern⟩ :=
    hs.step_load hw (Triplet.readInside_eq_ok.2 ⟨Triplet.readFeed_eq_ok.1 hread, inside⟩) hfill hout
  exact ⟨t, g, y, hstep, hmatrix, hpattern, hholds⟩

/-- What keeps a feed from being read into a grid of the shape keeps it from being loaded. -/
theorem step_load_of_error (hw : s.reading.matrix target = .ok w) {failure : Failure}
    (h : Triplet.readInside w.rows w.cols feed = .error failure) (out : Name) :
    s.step (.load target feed out) = (.error failure, s) :=
  step_of_error (by rw [plan_load hw, h]; rfl)

/-- A feed is loaded exactly where it is read and all positions are inside. -/
theorem Sound.step_load_ok_iff (hs : s.Sound) (hw : s.reading.matrix target = .ok w)
    (hout : out ≠ target) : (∃ answer, (s.step (.load target feed out)).1 = .ok answer) ↔
      ∃ ts, Triplet.readFeed feed = .ok ts ∧ ∀ t ∈ ts, t.row < w.rows ∧ t.col < w.cols := by
  constructor
  · rintro ⟨answer, hok⟩
    cases hread : Triplet.readInside w.rows w.cols feed with
    | ok ts =>
      obtain ⟨hfeed, inside⟩ := Triplet.readInside_eq_ok.1 hread
      exact ⟨ts, Triplet.readFeed_eq_ok.2 hfeed, inside⟩
    | error failure =>
      rw [step_load_of_error hw hread] at hok
      cases hok
  · rintro ⟨ts, hread, inside⟩
    obtain ⟨t, -, -, hstep, -⟩ := hs.step_load_holds hw hout hread inside
    exact ⟨.done, by rw [hstep]⟩

/-- What loading a feed into a matrix has to come to, for a matrix that holds a grid. -/
structure LoadLaws (s : Store p) (target : Name) (w : Grid p) (feed : Feed) (out : Name) :
    Prop where
  /-- It succeeds exactly where the feed is read and all of its triplets are inside. -/
  succeeds : (∃ answer, (s.step (.load target feed out)).1 = .ok answer) ↔
    ∃ ts, Triplet.readFeed feed = .ok ts ∧ ∀ t ∈ ts, t.row < w.rows ∧ t.col < w.cols
  /-- Then the matrix and the pattern hold what the triplets say; of the grid that was there before,
  the shape is all that counts. -/
  loaded : ∀ ts, Triplet.readFeed feed = .ok ts → (∀ t ∈ ts, t.row < w.rows ∧ t.col < w.cols) →
    ∃ t g y, s.step (.load target feed out) = (.ok .done, t) ∧ t.reading.matrix target = .ok g ∧
      t.reading.pattern out = .ok y ∧ Triplet.Holds ts w.rows w.cols g y
  /-- Otherwise nothing changes. The first triplet outside is reported, by its row if that is
  outside and by its column if not, -/
  outside : ∀ before t rest failure, Triplet.readFeed feed = .ok (before ++ t :: rest) →
    (∀ u ∈ before, u.row < w.rows ∧ u.col < w.cols) →
    Outside w.rows w.cols t.row t.col failure →
    s.step (.load target feed out) = (.error failure, s)
  /-- but only if the feed is read. -/
  unread : ∀ failure, Triplet.readFeed feed = .error failure →
    s.step (.load target feed out) = (.error failure, s)
  /-- So a line that offends, wherever it is, comes before every position outside, -/
  precedence : ∀ ls line number failure, Triplet.Lines feed.text ls → line ∈ ls →
    Triplet.Offends number line failure → ∃ first, Triplet.readFeed feed = .error first ∧
      s.step (.load target feed out) = (.error first, s) ∧ ∀ reason, first ≠ .refused reason
  /-- and so does the fault of a stream that breaks off, behind the lines that are whole by then. -/
  broken : ∀ fault, feed.fault = some fault → ∃ first, Triplet.readFeed feed = .error first ∧
    s.step (.load target feed out) = (.error first, s) ∧ (∀ reason, first ≠ .refused reason) ∧
      ((∃ ts, Triplet.readAll feed.text = .ok ts) → first = .stream (.rejected fault))

/-- A text determines the matrix that it is loaded into, whatever that holds and whatever shares
it. -/
theorem Reachable.loadLaws (h : s.Reachable) (hw : s.reading.matrix target = .ok w)
    (hout : out ≠ target) (feed : Feed) : s.LoadLaws target w feed out := by
  have hunread (failure : Failure) (hread : Triplet.readFeed feed = .error failure) :
      s.step (.load target feed out) = (.error failure, s) := by
    refine step_load_of_error hw ?_ out
    rw [Triplet.readInside, hread, Attempt.error_bind]
  constructor
  case succeeds => exact h.sound.step_load_ok_iff hw hout
  case loaded => exact fun ts hread inside => h.sound.step_load_holds hw hout hread inside
  case outside =>
    intro before t rest failure hread good bad
    exact step_load_of_error hw (Triplet.Unfit.readInside (.position hread good bad)) out
  case unread => exact hunread
  case precedence =>
    intro ls line number failure hlines hline hoffends
    obtain ⟨first, hlines'⟩ := Triplet.exists_readAll_eq_error hlines hline hoffends
    have hread := Triplet.readFeed_of_unread hlines'
    exact ⟨first, hread, hunread first hread, Triplet.not_refused_of_readFeed hread⟩
  case broken =>
    intro fault hfault
    cases hlines : Triplet.readAll feed.text with
    | error first =>
      have hread := Triplet.readFeed_of_unread hlines
      refine ⟨first, hread, hunread first hread, Triplet.not_refused_of_readFeed hread, fun hok => ?_⟩
      obtain ⟨ts, hts⟩ := hok
      cases hts
    | ok ts =>
      have hread := Triplet.readFeed_of_fault hlines hfault
      exact ⟨_, hread, hunread _ hread, Triplet.not_refused_of_readFeed hread, fun _ => rfl⟩

def specials : Grid .double := ⟨1, 2, #[.nan true, .infinite false], rfl⟩

def sharedSpecials : Store .double :=
  ((({} : Store .double).step (.act (.matrix (.create specials "m")))).2.step
    (.act (.sharing (.clone .matrix "m" "n")))).2

theorem loadLaws_sharedSpecials :
    sharedSpecials.Reachable ∧ sharedSpecials.reading.matrix "n" = .ok specials ∧
      ∀ feed : Feed, sharedSpecials.LoadLaws "n" specials feed "x" :=
  have hreachable : sharedSpecials.Reachable := .step _ (.step _ .start)
  ⟨hreachable, rfl, fun feed => hreachable.loadLaws rfl (by decide) feed⟩

/-- Texts that say the same values at each position, in the same order, are loaded alike, however
their lines follow each other otherwise. -/
theorem load_eq_of_valuesAt {s' : Store p} (hs : s.Reachable) (hs' : s'.Reachable)
    {target' out' : Name} {w' : Grid p} (hw : s.reading.matrix target = .ok w)
    (hw' : s'.reading.matrix target' = .ok w') (hshape : w'.shape = w.shape) (hout : out ≠ target)
    (hout' : out' ≠ target') {text text' : Octets} {us : List Triplet}
    (hread : Triplet.readAll text = .ok ts) (hread' : Triplet.readAll text' = .ok us)
    (hvalues : ∀ i j, Triplet.valuesAt ts i j = Triplet.valuesAt us i j) :
    ((∃ answer, (s.step (.load target text out)).1 = .ok answer) ↔
      ∃ answer, (s'.step (.load target' text' out')).1 = .ok answer) ∧
    ∀ answer, (s.step (.load target text out)).1 = .ok answer →
      ∃ t t' g y, s.step (.load target text out) = (.ok answer, t) ∧
        s'.step (.load target' text' out') = (.ok answer, t') ∧
        (t.reading.matrix target = .ok g ∧ t.reading.pattern out = .ok y) ∧
        t'.reading.matrix target' = .ok g ∧ t'.reading.pattern out' = .ok y := by
  have ⟨hrows, hcols⟩ := Grid.shape_eq_iff.1 hshape
  have hfeed : Triplet.readFeed text = .ok ts := Triplet.readFeed_of_readAll hread
  have hfeed' : Triplet.readFeed text' = .ok us := Triplet.readFeed_of_readAll hread'
  have hiff : (∃ answer, (s.step (.load target text out)).1 = .ok answer) ↔
      ∀ t ∈ ts, t.row < w.rows ∧ t.col < w.cols := by
    rw [hs.sound.step_load_ok_iff hw hout, hfeed]
    simp
  have hiff' : (∃ answer, (s'.step (.load target' text' out')).1 = .ok answer) ↔
      ∀ u ∈ us, u.row < w.rows ∧ u.col < w.cols := by
    rw [hs'.sound.step_load_ok_iff hw' hout', hfeed', hrows, hcols]
    simp
  refine ⟨hiff.trans ((Iff.intro ?_ ?_).trans hiff'.symm), fun answer hok => ?_⟩
  · exact Triplet.inside_congr hvalues
  · exact Triplet.inside_congr fun i j => (hvalues i j).symm
  · have inside := hiff.1 ⟨answer, hok⟩
    have inside' : ∀ u ∈ us, u.row < w'.rows ∧ u.col < w'.cols := by
      rw [hrows, hcols]
      exact Triplet.inside_congr hvalues inside
    obtain ⟨t, g, y, hstep, hmatrix, hpattern, hholds⟩ :=
      hs.sound.step_load_holds hw hout hfeed inside
    obtain ⟨t', g', y', hstep', hmatrix', hpattern', hholds'⟩ :=
      hs'.sound.step_load_holds hw' hout' hfeed' inside'
    rw [hrows, hcols] at hholds'
    obtain ⟨rfl, rfl⟩ := hholds.unique hholds' hvalues
    obtain rfl : Answer.done = answer := by
      rw [hstep] at hok
      exact Except.ok.inj hok
    exact ⟨t, t', g, y, hstep, hstep', ⟨hmatrix, hpattern⟩, hmatrix', hpattern'⟩

/-- One and two numbers that cancel, whose sum depends on their order. -/
def absorbed : List Triplet :=
  [⟨0, 0, .ofBits 0x4341C37937E08000⟩, ⟨0, 0, .unit⟩, ⟨0, 1, .unit⟩,
    ⟨0, 0, .ofBits 0xC341C37937E08000⟩]

theorem load_eq_of_valuesAt_absorbed :
    let moved := absorbed.set 2 absorbed[3] |>.set 3 absorbed[2]
    let text := "0,0,1e16\n0,0,1\n0,1,1\n0,0,-1e16\n".toUTF8.toList
    let text' := "0,0,1e16\n\n0,0,1\n0,0,-1e16\n0,1,1\n".toUTF8.toList
    sharedSpecials.Reachable ∧ Triplet.readAll text = .ok absorbed ∧
      Triplet.readAll text' = .ok moved ∧
      (∀ i j, Triplet.valuesAt absorbed i j = Triplet.valuesAt moved i j) ∧
      ∃ t t' g y, sharedSpecials.step (.load "n" text "x") = (.ok .done, t) ∧
        sharedSpecials.step (.load "n" text' "x") = (.ok .done, t') ∧
        (t.reading.matrix "n" = .ok g ∧ t.reading.pattern "x" = .ok y) ∧
        t'.reading.matrix "n" = .ok g ∧ t'.reading.pattern "x" = .ok y := by
  intro moved text text'
  have hreachable : sharedSpecials.Reachable := .step _ (.step _ .start)
  have hw : sharedSpecials.reading.matrix "n" = .ok specials := rfl
  have hout : "x" ≠ "n" := by decide
  have hread : Triplet.readAll text = .ok absorbed := by decide +kernel
  have hread' : Triplet.readAll text' = .ok moved := by decide +kernel
  have hvalues : ∀ i j, Triplet.valuesAt absorbed i j = Triplet.valuesAt moved i j :=
    Triplet.valuesAt_swap (t := ⟨0, 1, .unit⟩) (by decide) (absorbed.take 2) []
  obtain ⟨t, -, -, hstep, -⟩ :=
    hreachable.sound.step_load_holds hw hout (Triplet.readFeed_of_readAll hread) (by decide)
  obtain ⟨-, hsame⟩ :=
    load_eq_of_valuesAt hreachable hreachable hw hw rfl hout hout hread hread' hvalues
  exact ⟨hreachable, hread, hread', hvalues, hsame .done (by rw [hstep])⟩

end Store
end CowArrays
