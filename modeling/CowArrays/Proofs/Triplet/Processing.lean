import CowArrays.Proofs.Compression.Filter
import CowArrays.Proofs.Session.Shapes
import CowArrays.Proofs.Triplet.Loading
import CowArrays.Proofs.Triplet.RoundTrip

/-!
What was loaded can be processed. The pattern that a feed leaves has a row for each row of its
matrix and only columns that are there. Compression keeps to that, and so do all changes of the
entries, so neither compressing nor writing is ever refused.
-/

namespace CowArrays

variable {p : Precision}

/-- Whether a pattern has a row for each row of a grid, and its columns are all there. -/
structure Pattern.Suits (x : Pattern) (g : Grid p) : Prop where
  size : x.size = g.rows
  within : x.Within g.cols

/-- Whether the entries at a pattern can be handed to any sink. Only the sink itself may fail. -/
def Triplet.Writable (g : Grid p) (x : Pattern) : Prop :=
  ∀ (σ : Type) (sink : Sink σ), ∃ d, Triplet.write sink g x = .ok d ∧
    ∀ failure, d.outcome = .error failure → ∃ fault, failure = .stream fault

/-- Whether compressing and writing are not refused, nor are they for what compression leaves. -/
structure Processable (g : Grid p) (x : Pattern) : Prop where
  suits : x.Suits g
  writable : Triplet.Writable g x
  /-- Thresholds are at least zero; an infinite one is. -/
  compressed : ∀ t, Scalar.zero.le t = true → ∃ y, compress x g t = .ok y ∧ y.size = x.size ∧
    y.Suits g ∧ Triplet.Writable g y ∧
      ∀ t', Scalar.zero.le t' = true → ∃ z, compress y g t' = .ok z

namespace Pattern.Suits

variable {x y : Pattern} {g g' : Grid p} {t : Scalar p}

theorem of_shape (h : x.Suits g) (hshape : g'.shape = g.shape) : x.Suits g' := by
  have ⟨hrows, hcols⟩ := Grid.shape_eq_iff.1 hshape
  exact ⟨h.size.trans hrows.symm, hcols ▸ h.within⟩

theorem lt (h : x.Suits g) {i j : Nat} (hij : x.contains i j = true) : i < g.rows ∧ j < g.cols := by
  obtain ⟨columns, hrow, -⟩ := Pattern.contains_iff.1 hij
  exact ⟨lt_rows h.size hrow, h.within i j hij⟩

theorem of_compress (h : x.Suits g) (hy : compress x g t = .ok y) : y.Suits g := by
  obtain ⟨-, hsize, hkept⟩ := compress_eq_ok_iff.1 hy
  exact ⟨hsize.trans h.size, fun i j hij => h.within i j ((hkept i j).1 hij).1⟩

theorem exists_compress (h : x.Suits g) (ht : Scalar.zero.le t = true) :
    ∃ y, compress x g t = .ok y := compress_ok ht h.size h.within

/-- All positions are there, so nothing is refused before the sink gets the lines. -/
theorem writable (h : x.Suits g) : Triplet.Writable g x := by
  intro σ sink
  have hlines := Triplet.linesOf_eq fun i j => h.lt (i := i) (j := j)
  refine ⟨_, by rw [Triplet.write, hlines]; rfl, fun failure hfail => ?_⟩
  unfold Sink.Delivery.outcome at hfail
  split at hfail
  · cases hfail
  · rename_i fault _
    exact ⟨fault, (Except.error.inj hfail).symm⟩

theorem processable (h : x.Suits g) : Processable g x := by
  refine ⟨h, h.writable, fun t ht => ?_⟩
  obtain ⟨y, hy⟩ := h.exists_compress ht
  have hsuits := h.of_compress hy
  exact ⟨y, hy, hsuits.size.trans h.size.symm, hsuits, hsuits.writable,
    fun t' => hsuits.exists_compress⟩

end Pattern.Suits

theorem Triplet.Holds.suits {ts : List Triplet} {rows cols : Nat} {g : Grid p} {x : Pattern}
    (h : Triplet.Holds ts rows cols g x) (inside : ∀ t ∈ ts, t.row < rows ∧ t.col < cols) :
    x.Suits g := by
  obtain ⟨hrows, hcols⟩ : g.rows = rows ∧ g.cols = cols := Prod.mk.inj h.shape
  refine ⟨h.size.trans hrows.symm, fun i j hij => ?_⟩
  obtain ⟨t, ht, -, rfl⟩ := (h.contains i j).1 hij
  exact hcols ▸ (inside t ht).2

namespace Store

variable {s t : Store p} {target out : Name} {feed : Feed} {answer : Answer p}

/-- A feed that was loaded left a pattern that suits the matrix. -/
theorem Sound.suits_of_step_load (hs : s.Sound) {w : Grid p}
    (hw : s.reading.matrix target = .ok w) (hout : out ≠ target)
    (hload : s.step (.load target feed out) = (.ok answer, t)) :
    ∃ g x, t.reading.matrix target = .ok g ∧ t.reading.pattern out = .ok x ∧ g.shape = w.shape ∧
      x.Suits g := by
  obtain ⟨ts, hread, inside⟩ := (hs.step_load_ok_iff hw hout).1 ⟨answer, by rw [hload]⟩
  obtain ⟨t', g, x, hstep, hg, hx, hholds⟩ := hs.step_load_holds hw hout hread inside
  obtain rfl : t = t' := (Prod.mk.inj (hload.symm.trans hstep)).2
  exact ⟨g, x, hg, hx, hholds.shape, hholds.suits inside⟩

/-- What was loaded can be processed from then on. However often the entries of the matrix were
changed, the pattern of the feed can be compressed and written, and what compression made of it at
any time can be compressed and written at any later time. -/
theorem Reachable.load_processable (h : s.Reachable) {w : Grid p}
    (hw : s.reading.matrix target = .ok w) (hout : out ≠ target)
    (hload : s.step (.load target feed out) = (.ok answer, t)) :
    ∃ x, t.reading.pattern out = .ok x ∧
      ∀ before : List (Step p), (∀ u ∈ before, u.Revises target out) →
        ∃ g, (t.after before).reading.matrix target = .ok g ∧
          (t.after before).reading.pattern out = .ok x ∧ g.shape = w.shape ∧ Processable g x ∧
          ∀ threshold y, compress x g threshold = .ok y →
            ∀ since : List (Step p), (∀ u ∈ since, u.Revises target out) →
              ∃ g', ((t.after before).after since).reading.matrix target = .ok g' ∧
                g'.shape = w.shape ∧ Processable g' y := by
  obtain ⟨g₀, x, hg₀, hx, hshape₀, hsuits₀⟩ := h.sound.suits_of_step_load hw hout hload
  have ht : t.Reachable := by
    have hstep := Reachable.step (.load target feed out) h
    rwa [hload] at hstep
  refine ⟨x, hx, fun before hbefore => ?_⟩
  obtain ⟨g, hg, hshape, hx'⟩ := ht.sound.after_revising hg₀ hx hbefore
  have hsuits := hsuits₀.of_shape hshape
  refine ⟨g, hg, hx', hshape.trans hshape₀, hsuits.processable, ?_⟩
  intro threshold y hy since hsince
  obtain ⟨g', hg', hshape', -⟩ := (ht.after before).sound.after_revising hg hx' hsince
  exact ⟨g', hg', hshape'.trans (hshape.trans hshape₀),
    ((hsuits.of_compress hy).of_shape hshape').processable⟩

/-- Changes of the second of two variables that share a matrix: a scaling, a row that is not there,
an addition of what the other variable has, and a NaN. -/
def disturbances : List (Step .double) :=
  [.act (.matrix (.edit "n" (.scale (.infinite true)))), .act (.matrix (.edit "n" (.clearRow 7))),
    .act (.matrix (.edit "n" (.axpy .unit "m"))), .act (.matrix (.edit "n" (.set 0 1 (.nan true))))]

theorem load_processable_disturbed :
    let text := "0,1,1.5\n0,0,-0.25\n0,1,-1.5\n".toUTF8.toList
    sharedSpecials.Reachable ∧ sharedSpecials.reading.matrix "n" = .ok specials ∧
      (∀ u ∈ disturbances, u.Revises "n" "x") ∧
      ∃ t x g, sharedSpecials.step (.load "n" text "x") = (.ok .done, t) ∧
        (t.after disturbances).reading.matrix "n" = .ok g ∧
        (t.after disturbances).reading.pattern "x" = .ok x ∧ Processable g x ∧
        ∀ threshold y, compress x g threshold = .ok y →
          ∃ g', ((t.after disturbances).after disturbances).reading.matrix "n" = .ok g' ∧
            Processable g' y := by
  intro text
  have hreachable : sharedSpecials.Reachable := .step _ (.step _ .start)
  have hw : sharedSpecials.reading.matrix "n" = .ok specials := rfl
  have hout : "x" ≠ "n" := by decide
  have hread : Triplet.readAll text = .ok [⟨0, 1, .ofBits 0x3FF8000000000000⟩,
      ⟨0, 0, .ofBits 0xBFD0000000000000⟩, ⟨0, 1, .ofBits 0xBFF8000000000000⟩] := by
    decide +kernel
  have hrevises : ∀ u ∈ disturbances, u.Revises "n" "x" := by
    intro u hu
    simp only [disturbances, List.mem_cons, List.not_mem_nil, or_false] at hu
    rcases hu with rfl | rfl | rfl | rfl <;> exact .edit _ trivial
  obtain ⟨t, -, -, hload, -⟩ :=
    hreachable.sound.step_load_holds hw hout (Triplet.readFeed_of_readAll hread) (by decide)
  obtain ⟨x, -, hall⟩ := hreachable.load_processable hw hout hload
  obtain ⟨g, hg, hx, -, hprocessable, hlater⟩ := hall disturbances hrevises
  refine ⟨hreachable, hw, hrevises, t, x, g, hload, hg, hx, hprocessable, fun threshold y hy => ?_⟩
  obtain ⟨g', hg', -, hprocessable'⟩ := hlater threshold y hy disturbances hrevises
  exact ⟨g', hg', hprocessable'⟩

end Store
end CowArrays
