import CowArrays.Proofs.Triplet.Faults
import CowArrays.Proofs.Triplet.RoundTrip

/-!
What writing a matrix comes to. A position outside the matrix is found before any sink is asked for
anything. Otherwise the text is one line for each position, and a sink gets it from the first octet
on, as far as it takes it.
-/

namespace CowArrays.Triplet

variable {p : Precision} {g : Grid p} {x : Pattern}

def Inside (g : Grid p) (x : Pattern) : Prop :=
  ∀ i j, x.contains i j = true → i < g.rows ∧ j < g.cols

/-- The first position of a pattern that is outside a grid, row by row, and what is wrong with it. -/
structure FirstOutside (g : Grid p) (x : Pattern) (i j : Nat) (failure : Failure) : Prop where
  contained : x.contains i j = true
  outside : Outside g.rows g.cols i j failure
  first : ∀ a b, x.contains a b = true → Pattern.Precedes (a, b) (i, j) → a < g.rows ∧ b < g.cols

/-- Whether a text has a line for each position of a pattern, row by row, with the entry there. -/
structure Lists (g : Grid p) (x : Pattern) (es : List (Nat × Nat × Scalar p)) (text : Octets) :
    Prop where
  entries : ∀ i j v, (i, j, v) ∈ es ↔ x.contains i j = true ∧ g.read? i j = some v
  count : es.length = x.count
  ordered : es.Pairwise fun e f => Pattern.Precedes (e.1, e.2.1) (f.1, f.2.1)
  bodies : lines text = es.map fun e => (body e.1 e.2.1 e.2.2).toUTF8.toList
  joined : text = (es.map fun e => (line e.1 e.2.1 e.2.2).toUTF8.toList).flatten

/-- What writing the entries of a grid at a pattern comes to. -/
structure Writes (g : Grid p) (x : Pattern) : Prop where
  /-- A position outside is refused, the first one, before any sink is asked for anything. -/
  refused : ¬Inside g x → ∃ i j failure, FirstOutside g x i j failure ∧
    ∀ (σ : Type) (sink : Sink σ), write sink g x = .error failure
  /-- Otherwise every sink is handed the same text, and the laws of its delivery hold in whatever
  chunks it comes. -/
  written : Inside g x → ∃ es text, Lists g x es text ∧ ∀ (σ : Type) (sink : Sink σ),
    (∃ chunks, chunks.flatten = text ∧ write sink g x = .ok (sink.deliverFrom [] chunks)) ∧
      ∀ chunks, chunks.flatten = text → ∃ log, sink.Conveys chunks log

theorem lists_entriesAt (h : Inside g x) :
    Lists g x (entriesAt g x) (textOf g x).toUTF8.toList := by
  have htext : (textOf g x).toUTF8.toList =
      ((entriesAt g x).map fun e => (line e.1 e.2.1 e.2.2).toUTF8.toList).flatten := by
    rw [textOf, Text.toUTF8_join, List.map_map]
    rfl
  constructor
  case entries =>
    intro i j v
    rw [mem_entriesAt]
    refine and_congr_right fun hij => ?_
    obtain ⟨w, hw⟩ := Grid.exists_read? (h i j hij)
    simp [hw]
  case count => rw [entriesAt, List.length_map, x.length_positions]
  case ordered =>
    rw [entriesAt, List.pairwise_map]
    exact x.pairwise_positions
  case bodies => rw [htext, lines_lines]
  case joined => exact htext

/-- Where a position is outside, one of them is the first, and the checks stop there. -/
theorem exists_firstOutside (h : ¬Inside g x) : ∃ i j failure, FirstOutside g x i j failure ∧
    checkPositions g x.positions = .error failure := by
  cases hcheck : checkPositions g x.positions with
  | ok =>
    refine absurd (fun i j hij => ?_) h
    exact checkPositions_eq_ok.1 hcheck (i, j) (Pattern.mem_positions.2 hij)
  | error failure =>
    obtain ⟨before, ⟨i, j⟩, after, hpositions, hbefore, hfails⟩ := Attempt.forM_eq_error.1 hcheck
    have hordered := x.pairwise_positions
    rw [hpositions, List.pairwise_append, List.pairwise_cons] at hordered
    refine ⟨i, j, failure, ⟨?_, check_eq_error.1 hfails, fun a b hab hprecedes => ?_⟩, rfl⟩
    · refine Pattern.mem_positions.1 ?_
      rw [hpositions]
      exact List.mem_append_right _ List.mem_cons_self
    · -- positions are listed in their order, so one that comes before was checked before
      have hmem := Pattern.mem_positions.2 hab
      rw [hpositions, List.mem_append, List.mem_cons] at hmem
      rcases hmem with hmem | heq | hmem
      · exact check_eq_ok.1 (hbefore (a, b) hmem)
      · exact absurd heq hprecedes.ne
      · exact absurd hprecedes (hordered.2.1.1 (a, b) hmem).asymm

theorem write_laws (g : Grid p) (x : Pattern) : Writes g x := by
  constructor
  case refused =>
    intro h
    obtain ⟨i, j, failure, hfirst, hcheck⟩ := exists_firstOutside h
    refine ⟨i, j, failure, hfirst, fun σ sink => ?_⟩
    rw [write, linesOf, hcheck, Attempt.error_bind, Attempt.error_bind]
  case written =>
    intro h
    have hjoined := (lists_entriesAt h).joined
    refine ⟨entriesAt g x, (textOf g x).toUTF8.toList, lists_entriesAt h, fun σ sink => ⟨?_, ?_⟩⟩
    · refine ⟨(entriesAt g x).map fun e => (line e.1 e.2.1 e.2.2).toUTF8.toList, ?_, ?_⟩
      · rw [hjoined]
      · rw [write, linesOf_eq h, Attempt.ok_bind, Sink.deliver, List.map_map]
        rfl
    · exact fun chunks _ => sink.exists_conveys chunks

end CowArrays.Triplet
