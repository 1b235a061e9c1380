import CowArrays.Proofs.Command.Sizes
import CowArrays.Proofs.Compression.Thresholds
import CowArrays.Proofs.Json.Patterns
import CowArrays.Proofs.Triplet.RoundTrip

/-!
The command is the pipeline of the library: what it prints is what loading the file into a matrix
and compressing the pattern that this leaves comes to, and it fails with the first stage that fails,
whatever the order in which rows are finished.
-/

namespace CowArrays

namespace Command

/-! ### Stages -/

section Stages

variable {threshold : Scalar .double} {text : Octets} {rows cols : Nat} {ts : List Triplet}

/-- What a run can come to: the failure of the first stage that fails, or the pattern before and
after compression. -/
inductive Ends (threshold : Scalar .double) (text : Octets) (rows cols : Nat) :
    Except Stopped Result → Prop
  | unread {failure : Failure} (h : Triplet.readAll text = .error failure) :
      Ends threshold text rows cols (.error (.failed failure))
  | outside {ts : List Triplet} {t : Triplet} (h : Triplet.readAll text = .ok ts)
      (first : FirstOutside rows cols ts t) :
      Ends threshold text rows cols (.error (.outside t.row t.col rows cols))
  | threshold {ts : List Triplet} (h : Triplet.readAll text = .ok ts)
      (inside : AllInside rows cols ts) (refused : ¬Scalar.zero.le threshold = true) :
      Ends threshold text rows cols (.error (.failed (.refused .invalidThreshold)))
  | done {ts : List Triplet} {A : Grid .double} {P Q : Pattern}
      (h : Triplet.readAll text = .ok ts) (inside : AllInside rows cols ts)
      (accepted : Scalar.zero.le threshold = true)
      (filled : ∀ w : Grid .double, w.shape = (rows, cols) → Triplet.fill w ts = .ok (A, P))
      (compressed : compress P A threshold = .ok Q) :
      Ends threshold text rows cols (.ok ⟨rows, cols, P, Q⟩)

/-- A filled grid and its pattern have what compression wants, and all positions are those of
triplets. -/
structure Filled (rows cols : Nat) (ts : List Triplet) (A : Grid .double) (P : Pattern) : Prop where
  rows_eq : A.rows = rows
  cols_eq : A.cols = cols
  size : P.size = rows
  contains : ∀ i j, P.contains i j = true ↔ ∃ t ∈ ts, t.At i j
  entry : ∀ i j, i < rows → j < cols → A.read? i j = some (Triplet.sumAt ts i j .zero)

theorem filled_of_fill {A : Grid .double} {P : Pattern} (inside : AllInside rows cols ts)
    (h : ∀ w : Grid .double, w.shape = (rows, cols) → Triplet.fill w ts = .ok (A, P)) :
    Filled rows cols ts A P := by
  obtain ⟨g, x, hfill, hshape, hsize, hcontains, hentry⟩ :=
    Triplet.fill_of_lt (g := .filled rows cols .zero) inside
  obtain ⟨rfl, rfl⟩ := Prod.mk.inj (Except.ok.inj (hfill.symm.trans (h _ rfl)))
  have ⟨hrows, hcols⟩ := Grid.shape_eq_iff.1 hshape
  exact ⟨hrows, hcols, hsize, hcontains, hentry⟩

theorem Filled.within {A : Grid .double} {P : Pattern} (h : Filled rows cols ts A P)
    (inside : AllInside rows cols ts) : P.Within A.cols := by
  intro i j hmem
  obtain ⟨t, ht, -, rfl⟩ := (h.contains i j).1 hmem
  rw [h.cols_eq]
  exact (inside t ht).2

theorem process_ends {o : Options} {schedule : Schedule}
    (hschedule : ∀ n, (schedule n).Perm (List.range n))
    (hsizes : ∀ ts, Triplet.readAll text = .ok ts → o.HasSizes ts rows cols) :
    Ends (o.threshold.getD .zero) text rows cols (process schedule o text) := by
  cases hread : Triplet.readAll text with
  | error failure =>
    rw [process_of_unread schedule hread]
    exact .unread hread
  | ok ts =>
    rcases inside_or_firstOutside rows cols ts with inside | ⟨t, first⟩
    · obtain ⟨⟨A, P⟩, hfill, hprocess⟩ :=
        process_of_inside schedule hread (hsizes ts hread) inside
      have hfilled := filled_of_fill inside hfill
      have hagrees := agrees_settings (g := A) o.settings (hschedule P.size)
      rw [hprocess]
      by_cases ht : Scalar.zero.le (o.threshold.getD .zero) = true
      · have hsize : P.size = A.rows := hfilled.size.trans hfilled.rows_eq.symm
        obtain ⟨kept, hkept⟩ := compressRows_of_within (t := o.threshold.getD .zero) hsize
          (hfilled.within inside)
        have hQ : compress P A (o.threshold.getD .zero) = .ok ⟨kept⟩ :=
          compress_eq_ok.2 ⟨checkCompression_eq_ok.2 ⟨ht, hsize⟩, hkept⟩
        rw [(hagrees.ok ⟨kept⟩).2 hQ]
        exact .done hread inside ht hfill hQ
      · have hcheck : checkCompression P A (o.threshold.getD .zero) =
            .error (.refused .invalidThreshold) := checkCompression_eq_error.2 (.inl ⟨ht, rfl⟩)
        rw [(hagrees.checks _ hcheck).1]
        exact .threshold hread inside ht
    · rw [process_of_firstOutside schedule hread (hsizes ts hread) first]
      exact .outside hread first

/-- Where the text was read, the run ends in one of three ways. -/
theorem Ends.cases_of_read (hread : Triplet.readAll text = .ok ts) {result : Except Stopped Result}
    (h : Ends threshold text rows cols result) :
    (∃ t, FirstOutside rows cols ts t ∧ result = .error (.outside t.row t.col rows cols)) ∨
      (AllInside rows cols ts ∧ ¬Scalar.zero.le threshold = true ∧
        result = .error (.failed (.refused .invalidThreshold))) ∨
      (AllInside rows cols ts ∧ Scalar.zero.le threshold = true ∧ ∃ A P Q,
        (∀ w : Grid .double, w.shape = (rows, cols) → Triplet.fill w ts = .ok (A, P)) ∧
          compress P A threshold = .ok Q ∧ result = .ok ⟨rows, cols, P, Q⟩) := by
  cases h with
  | unread h => cases h.symm.trans hread
  | outside h first =>
    obtain rfl := Except.ok.inj (h.symm.trans hread)
    exact .inl ⟨_, first, rfl⟩
  | threshold h inside refused =>
    obtain rfl := Except.ok.inj (h.symm.trans hread)
    exact .inr (.inl ⟨inside, refused, rfl⟩)
  | done h inside accepted filled compressed =>
    obtain rfl := Except.ok.inj (h.symm.trans hread)
    exact .inr (.inr ⟨inside, accepted, _, _, _, filled, compressed, rfl⟩)

theorem Ends.eq_unread {failure : Failure} (hread : Triplet.readAll text = .error failure)
    {result : Except Stopped Result} (h : Ends threshold text rows cols result) :
    result = .error (.failed failure) := by
  cases h with
  | unread h => rw [Except.error.inj (h.symm.trans hread)]
  | outside h _ => cases h.symm.trans hread
  | threshold h _ _ => cases h.symm.trans hread
  | done h _ _ _ _ => cases h.symm.trans hread

theorem Ends.eq_outside {t : Triplet} (hread : Triplet.readAll text = .ok ts)
    (first : FirstOutside rows cols ts t) {result : Except Stopped Result}
    (h : Ends threshold text rows cols result) :
    result = .error (.outside t.row t.col rows cols) := by
  rcases h.cases_of_read hread with ⟨u, hu, rfl⟩ | ⟨inside, -, -⟩ | ⟨inside, -, -⟩
  · exact congrArg Except.error (Except.error.inj
      ((collect_of_firstOutside hu).symm.trans (collect_of_firstOutside first)))
  · exact absurd inside first.not_allInside
  · exact absurd inside first.not_allInside

theorem Ends.eq_threshold (hread : Triplet.readAll text = .ok ts) (inside : AllInside rows cols ts)
    (refused : ¬Scalar.zero.le threshold = true) {result : Except Stopped Result}
    (h : Ends threshold text rows cols result) :
    result = .error (.failed (.refused .invalidThreshold)) := by
  rcases h.cases_of_read hread with ⟨u, hu, -⟩ | ⟨-, -, rfl⟩ | ⟨-, accepted, -⟩
  · exact absurd inside hu.not_allInside
  · rfl
  · exact absurd accepted refused

theorem Ends.eq_done (hread : Triplet.readAll text = .ok ts) (inside : AllInside rows cols ts)
    (accepted : Scalar.zero.le threshold = true) {result : Except Stopped Result}
    (h : Ends threshold text rows cols result) : ∃ A P Q,
      (∀ w : Grid .double, w.shape = (rows, cols) → Triplet.fill w ts = .ok (A, P)) ∧
        compress P A threshold = .ok Q ∧ result = .ok ⟨rows, cols, P, Q⟩ := by
  rcases h.cases_of_read hread with ⟨u, hu, -⟩ | ⟨-, refused, -⟩ | ⟨-, -, hdone⟩
  · exact absurd inside hu.not_allInside
  · exact absurd accepted refused
  · exact hdone

theorem Ends.unique {result result' : Except Stopped Result}
    (h : Ends threshold text rows cols result) (h' : Ends threshold text rows cols result') :
    result = result' := by
  cases h with
  | unread hread => exact (h'.eq_unread hread).symm
  | outside hread first => exact (h'.eq_outside hread first).symm
  | threshold hread inside refused => exact (h'.eq_threshold hread inside refused).symm
  | done hread inside accepted filled compressed =>
    obtain ⟨A, P, Q, filled', compressed', rfl⟩ := h'.eq_done hread inside accepted
    have hfill := (filled (.filled rows cols .zero) rfl).symm.trans (filled' _ rfl)
    obtain ⟨rfl, rfl⟩ := Prod.mk.inj (Except.ok.inj hfill)
    obtain rfl := Except.ok.inj (compressed.symm.trans compressed')
    rfl

end Stages

/-! ### Reports -/

section Reports

variable {threshold : Scalar .double} {text : Octets} {rows cols : Nat} {ts : List Triplet}
  {A : Grid .double} {P Q : Pattern}

def positionsOf (ts : List Triplet) : Finset (Nat × Nat) :=
  (ts.map fun t => (t.row, t.col)).toFinset

theorem mem_positionsOf {i j : Nat} : (i, j) ∈ positionsOf ts ↔ ∃ t ∈ ts, t.At i j := by
  simp [positionsOf, Triplet.At]

/-- The positions whose values add up to more than a threshold in magnitude. -/
def positionsAbove (threshold : Scalar .double) (ts : List Triplet) : Finset (Nat × Nat) :=
  (positionsOf ts).filter fun (i, j) => threshold.lt (Triplet.sumAt ts i j .zero).magnitude = true

theorem Filled.count_before (h : Filled rows cols ts A P) : P.count = (positionsOf ts).card :=
  Pattern.count_eq_card fun (i, j) => mem_positionsOf.trans (h.contains i j).symm

theorem Filled.count_after (h : Filled rows cols ts A P) (inside : AllInside rows cols ts)
    (hQ : compress P A threshold = .ok Q) : Q.count = (positionsAbove threshold ts).card := by
  refine Pattern.count_eq_card fun (i, j) => ?_
  have hkept := (compress_eq_ok_iff.1 hQ).2.2 i j
  rw [hkept, h.contains, positionsAbove, Finset.mem_filter, mem_positionsOf]
  refine and_congr_right fun ⟨t, ht, hrow, hcol⟩ => ?_
  obtain ⟨hi, hj⟩ := inside t ht
  rw [hrow] at hi
  rw [hcol] at hj
  rw [Grid.Exceeds, h.entry i j hi hj]
  simp

/-- The columns of a compressed pattern are those of triplets that were read. -/
theorem Filled.writable (h : Filled rows cols ts A P) (hread : Triplet.readAll text = .ok ts)
    (hQ : compress P A threshold = .ok Q) : Q.Writable := by
  intro columns hcolumns c hc
  obtain ⟨i, hi⟩ := List.mem_iff_getElem?.1 hcolumns
  have hmem := (Pattern.mem_row_iff hi).1 hc
  obtain ⟨t, ht, -, rfl⟩ := (h.contains i c).1 (((compress_eq_ok_iff.1 hQ).2.2 i c).1 hmem).1
  exact (Triplet.lt_of_readAll hread t ht).2

end Reports

/-! ### Whole runs -/

/-- The size of an axis: the one that is given, or the least one with room for all indices where
they leave room for it. -/
inductive AxisSize (is : List Nat) : Option Nat → Nat → Prop
  | given (n : Nat) : AxisSize is (some n) n
  | least {n : Nat} (room : ∀ i ∈ is, i + 1 < indexLimit) (h : LeastSize is n) : AxisSize is none n

theorem AxisSize.sizeFor_eq {is : List Nat} {size : Option Nat} {n : Nat} (h : AxisSize is size n) :
    sizeFor size is = .ok n := by
  cases h with
  | given => rfl
  | least room h =>
    obtain ⟨m, hm, hleast⟩ := coveringSize_of_room room
    rw [sizeFor, hm, hleast.unique h]

/-- What a text that is read into a matrix of a shape leaves, whatever the matrix held. -/
structure Loads (text : Octets) (rows cols : Nat) (A : Grid .double) (P : Pattern) : Prop where
  fills : ∀ w : Grid .double, w.shape = (rows, cols) →
    ∃ ts, Triplet.readInside w.rows w.cols text = .ok ts ∧ Triplet.fill w ts = .ok (A, P)
  /-- So it is in every session, whatever shares the matrix. -/
  steps : ∀ u : Store .double, u.Reachable → ∀ target w, u.reading.matrix target = .ok w →
    w.shape = (rows, cols) → ∀ out, out ≠ target →
      ∃ v, u.step (.act (.matrix (.load target text out))) = (.ok .done, v) ∧
        v.reading.matrix target = .ok A ∧ v.reading.pattern out = .ok P

theorem loads_of_fill {text : Octets} {rows cols : Nat} {ts : List Triplet} {A : Grid .double}
    {P : Pattern} (hread : Triplet.readAll text = .ok ts) (inside : AllInside rows cols ts)
    (hfill : ∀ w : Grid .double, w.shape = (rows, cols) → Triplet.fill w ts = .ok (A, P)) :
    Loads text rows cols A P := by
  have hinside (w : Grid .double) (hshape : w.shape = (rows, cols)) :
      Triplet.readInside w.rows w.cols text = .ok ts := by
    obtain ⟨hrows, hcols⟩ : w.rows = rows ∧ w.cols = cols := Prod.mk.inj hshape
    rw [hrows, hcols]
    exact Triplet.readInside_eq_ok.2 ⟨⟨rfl, hread⟩, inside⟩
  refine ⟨fun w hshape => ⟨ts, hinside w hshape, hfill w hshape⟩, ?_⟩
  intro u hu target w hw hshape out hout
  exact hu.sound.step_load hw (hinside w hshape) (hfill w hshape) hout

/-- How a run on a text has to end, with a threshold and a matrix of so many rows and columns. -/
structure Pipeline (o : Options) (text : Octets) (rows cols : Nat) (ending : Ending) : Prop where
  /-- It succeeds where the text is read, all entries are inside and the threshold is accepted. -/
  succeeds : ending.exitCode = 0 ↔ ∃ ts, Triplet.readAll text = .ok ts ∧ AllInside rows cols ts ∧
    Scalar.zero.le (o.threshold.getD .zero) = true
  /-- Then it prints what compression makes of what loading the text leaves: the counts are those of
  the positions in the text and of the sums above the threshold, and the JSON form reads back. -/
  printed : ∀ ts, Triplet.readAll text = .ok ts → AllInside rows cols ts →
    Scalar.zero.le (o.threshold.getD .zero) = true →
    ∃ A P Q, Loads text rows cols A P ∧ compress P A (o.threshold.getD .zero) = .ok Q ∧
      (o.json = false → ending.stdout = s!"Pattern: {rows} x {cols}\n" ++
        s!"  Entries before: {(positionsOf ts).card}\n" ++
        s!"  Entries after: {(positionsAbove (o.threshold.getD .zero) ts).card}\n" ++ Q.display) ∧
      (o.json = true → ending.stdout = Q.toJson.pretty 0 ++ "\n" ∧
        Pattern.ofJson ending.stdout.toUTF8.toList = .ok Q)
  /-- Otherwise it prints nothing and reports the first stage that fails: the reading, -/
  unread : ∀ failure, Triplet.readAll text = .error failure →
    ending = ⟨1, "", (Stopped.failed failure).text ++ "\n"⟩
  /-- the first entry outside, -/
  outside : ∀ ts t, Triplet.readAll text = .ok ts → FirstOutside rows cols ts t →
    ending = ⟨1, "", (Stopped.outside t.row t.col rows cols).text ++ "\n"⟩
  /-- the threshold. -/
  refused : ∀ ts, Triplet.readAll text = .ok ts → AllInside rows cols ts →
    ¬Scalar.zero.le (o.threshold.getD .zero) = true →
    ending = ⟨1, "", (Stopped.failed (.refused .invalidThreshold)).text ++ "\n"⟩
  /-- It ends the same way whether rows are done in parallel or not, and whichever is done first. -/
  parallel : ∀ (parallel : Bool) (schedule : Schedule),
    (∀ n, (schedule n).Perm (List.range n)) →
    execute schedule { o with parallel } (some text) = ending

/-- A run on a file is the pipeline of the library. -/
theorem run_pipeline {schedule : Schedule} {files : String → Option Octets} {args : List String}
    {input : String} {o : Options} {text : Octets} {rows cols : Nat}
    (hschedule : ∀ n, (schedule n).Perm (List.range n))
    (hargs : parseArguments args = .ok (input, o)) (hfile : files input = some text)
    (hsizes : ∀ ts, Triplet.readAll text = .ok ts →
      AxisSize (ts.map Triplet.row) o.rows rows ∧ AxisSize (ts.map Triplet.col) o.cols cols) :
    Pipeline o text rows cols (run schedule files args) := by
  have hrun : run schedule files args = execute schedule o (some text) := by
    rw [run, hargs]
    exact congrArg (execute schedule o) hfile
  -- the options that the stages look at are those without the flag
  have hends (parallel : Bool) (schedule' : Schedule)
      (h : ∀ n, (schedule' n).Perm (List.range n)) :
      Ends (o.threshold.getD .zero) text rows cols (process schedule' { o with parallel } text) :=
    process_ends (o := { o with parallel }) h fun ts hread =>
      ⟨(hsizes ts hread).1.sizeFor_eq, (hsizes ts hread).2.sizeFor_eq⟩
  have hown := hends o.parallel schedule hschedule
  rw [hrun]
  constructor
  case succeeds =>
    constructor
    · intro hexit
      cases hread : Triplet.readAll text with
      | error failure =>
        rw [execute, hown.eq_unread hread] at hexit
        cases hexit
      | ok ts =>
        rcases hown.cases_of_read hread with ⟨t, -, hstop⟩ | ⟨-, -, hstop⟩ | ⟨inside, accepted, -⟩
        · rw [execute, hstop] at hexit
          cases hexit
        · rw [execute, hstop] at hexit
          cases hexit
        · exact ⟨ts, rfl, inside, accepted⟩
    · rintro ⟨ts, hread, inside, accepted⟩
      obtain ⟨A, P, Q, -, -, hprocess⟩ := hown.eq_done hread inside accepted
      rw [execute, hprocess]
  case printed =>
    intro ts hread inside accepted
    obtain ⟨A, P, Q, hfill, hQ, hprocess⟩ := hown.eq_done hread inside accepted
    have hfilled := filled_of_fill inside hfill
    have hexecute : (execute schedule o (some text)).stdout =
        (⟨rows, cols, P, Q⟩ : Result).report o.json := by
      rw [execute, hprocess]
    refine ⟨A, P, Q, loads_of_fill hread inside hfill, hQ, fun hjson => ?_, fun hjson => ?_⟩
    · rw [hexecute, hjson, ← hfilled.count_before, ← hfilled.count_after inside hQ]
      rfl
    · rw [hexecute, hjson]
      exact ⟨rfl, Pattern.ofJson_pretty (hfilled.writable hread hQ)⟩
  case unread =>
    intro failure hread
    rw [execute, hown.eq_unread hread]
    rfl
  case outside =>
    intro ts t hread first
    rw [execute, hown.eq_outside hread first]
    rfl
  case refused =>
    intro ts hread inside refused
    rw [execute, hown.eq_threshold hread inside refused]
    rfl
  case parallel =>
    intro parallel schedule' hschedule'
    rw [execute, execute, (hends parallel schedule' hschedule').unique hown]

/-- Entries with a blank line between them, two of which cancel. -/
def cancelling : Octets := "0,1,1.5\n\n1,0,-0.25\n0,1,-1.5\n1,1,2\n".toUTF8.toList

def cancellingArgs : List String := ["entries.txt", "--threshold=0.5", "--parallel"]

def cancellingOptions : Options :=
  { input := some "entries.txt", threshold := some (.ofBits 0x3FE0000000000000), parallel := true }

def onlyFile (name : String) (contents : Octets) (wanted : String) : Option Octets :=
  if wanted = name then some contents else none

theorem run_pipeline_cancelling :
    let backwards : Schedule := fun n => (List.range n).reverse
    (∀ n, (backwards n).Perm (List.range n)) ∧
      parseArguments cancellingArgs = .ok ("entries.txt", cancellingOptions) ∧
        onlyFile "entries.txt" cancelling "entries.txt" = some cancelling ∧
          (∀ ts, Triplet.readAll cancelling = .ok ts →
            AxisSize (ts.map Triplet.row) none 2 ∧ AxisSize (ts.map Triplet.col) none 2) ∧
            Pipeline cancellingOptions cancelling 2 2
              (run backwards (onlyFile "entries.txt" cancelling) cancellingArgs) := by
  have hschedule (n : Nat) : (List.range n).reverse.Perm (List.range n) := List.reverse_perm _
  have hargs : parseArguments cancellingArgs = .ok ("entries.txt", cancellingOptions) := by
    decide +kernel
  have hread : (Triplet.readAll cancelling).toOption.map (·.map fun t => (t.row, t.col)) =
      some [(0, 1), (1, 0), (0, 1), (1, 1)] := by
    decide +kernel
  have hsizes (ts : List Triplet) (hts : Triplet.readAll cancelling = .ok ts) :
      AxisSize (ts.map Triplet.row) none 2 ∧ AxisSize (ts.map Triplet.col) none 2 := by
    rw [hts] at hread
    have hpositions := Option.some.inj hread
    have hrows : ts.map Triplet.row = [0, 1, 0, 1] := by
      have hfirst := congrArg (List.map Prod.fst) hpositions
      rwa [List.map_map] at hfirst
    have hcols : ts.map Triplet.col = [1, 0, 1, 1] := by
      have hsecond := congrArg (List.map Prod.snd) hpositions
      rwa [List.map_map] at hsecond
    rw [hrows, hcols]
    exact ⟨.least (by decide) (leastSize_foldl_max _), .least (by decide) (leastSize_foldl_max _)⟩
  exact ⟨hschedule, hargs, rfl, hsizes, run_pipeline hschedule hargs rfl hsizes⟩

end Command
end CowArrays
