/-
**Half-open spans and separated span lists.**

A `Span` is a half-open interval `[lo, hi)` of a linear order. A list of spans is `Separated` when
its spans are non-empty, sorted, and no two of them touch: between two consecutive spans there is a
gap. A separated list is a normal form of the set it covers.

* `separated_cons`: a separated list is a span followed by a separated list strictly behind it,
  said with the covered points only, so a sweep that knows which points it still has to emit knows
  that its output stays separated;
* `separated_append`: taking a separated list apart and putting it together again;
* `Separated.front`, `Separated.back`, `Separated.replace`: the surroundings of a span in the
  middle, and its replacement;
* `separated_concat`, `Separated.widenLast`: growing a separated list at its end;
* `covers_of_lo`: the first point of each span is covered.
-/

import Mathlib

namespace FreeWindows.Lib

open List

/-- The half-open interval `[lo, hi)`. -/
structure Span (α : Type) where
  lo : α
  hi : α
deriving DecidableEq, Repr

section Spans

variable {α : Type} [LinearOrder α]

/-- The point lies in the span. -/
def Span.Has (span : Span α) (x : α) : Prop := span.lo ≤ x ∧ x < span.hi

/-- The point lies in some span of the list. -/
def Covers (spans : List (Span α)) (x : α) : Prop := ∃ span ∈ spans, span.Has x

@[simp] theorem covers_nil (x : α) : ¬ Covers ([] : List (Span α)) x := by
  rintro ⟨span, member, _⟩
  cases member

@[simp] theorem covers_cons (span : Span α) (spans : List (Span α)) (x : α) :
    Covers (span :: spans) x ↔ span.Has x ∨ Covers spans x := by
  simp [Covers]

@[simp] theorem covers_append (first second : List (Span α)) (x : α) :
    Covers (first ++ second) x ↔ Covers first x ∨ Covers second x := by
  simp [Covers, or_and_right, exists_or]

/-- **A normal form for span lists**: non-empty spans, each ending strictly before the next one
starts. -/
structure Separated (spans : List (Span α)) : Prop where
  apart : spans.Pairwise fun first second => first.hi < second.lo
  nonempty : ∀ span ∈ spans, span.lo < span.hi

theorem separated_nil : Separated ([] : List (Span α)) :=
  ⟨List.Pairwise.nil, nofun⟩

variable {span : Span α} {spans : List (Span α)} {x : α}

section Cons

variable (separated : Separated (span :: spans))
include separated

theorem Separated.tail : Separated spans :=
  ⟨(pairwise_cons.mp separated.apart).2,
    fun other member => separated.nonempty other (mem_cons_of_mem _ member)⟩

theorem Separated.head : span.lo < span.hi :=
  separated.nonempty span mem_cons_self

/-- Every point behind the head lies strictly behind the end of the head. -/
theorem Separated.behind (covered : Covers spans x) : span.hi < x := by
  obtain ⟨other, member, inside⟩ := covered
  exact lt_of_lt_of_le ((pairwise_cons.mp separated.apart).1 other member) inside.1

end Cons

theorem covers_of_lo (member : span ∈ spans) (nonempty : span.lo < span.hi) : Covers spans span.lo :=
  ⟨span, member, le_rfl, nonempty⟩

/-- **Separation, said with covered points**: a non-empty span before a separated list all of whose
points lie strictly behind its end. -/
theorem separated_cons (span : Span α) (spans : List (Span α)) :
    Separated (span :: spans) ↔
      span.lo < span.hi ∧ (∀ x, Covers spans x → span.hi < x) ∧ Separated spans := by
  constructor
  · intro separated
    exact ⟨separated.head, fun _ covered => separated.behind covered, separated.tail⟩
  · rintro ⟨nonempty, behind, rest⟩
    refine ⟨pairwise_cons.mpr ⟨fun other member => ?_, rest.apart⟩, fun other member => ?_⟩
    · exact behind _ (covers_of_lo member (rest.nonempty other member))
    · rcases mem_cons.mp member with rfl | member
      · exact nonempty
      · exact rest.nonempty other member

theorem separated_append (first second : List (Span α)) :
    Separated (first ++ second) ↔
      Separated first ∧ Separated second ∧
        ∀ span ∈ first, ∀ other ∈ second, span.hi < other.lo := by
  constructor
  · rintro ⟨apart, nonempty⟩
    obtain ⟨apart₁, apart₂, cross⟩ := pairwise_append.mp apart
    exact ⟨⟨apart₁, fun span member => nonempty span (mem_append_left _ member)⟩,
      ⟨apart₂, fun span member => nonempty span (mem_append_right _ member)⟩, cross⟩
  · rintro ⟨first', second', cross⟩
    refine ⟨pairwise_append.mpr ⟨first'.apart, second'.apart, cross⟩, fun span member => ?_⟩
    exact (mem_append.mp member).elim (first'.nonempty span) (second'.nonempty span)

theorem separated_singleton (nonempty : span.lo < span.hi) : Separated [span] :=
  ⟨pairwise_singleton _ _, fun _ member => by rwa [mem_singleton.mp member]⟩

section Middle

variable {before after : List (Span α)} (separated : Separated (before ++ span :: after))
include separated

/-- What lies in front of a span in a separated list lies before it. -/
theorem Separated.front (covered : Covers before x) : x < span.lo := by
  obtain ⟨other, member, inside⟩ := covered
  exact lt_trans inside.2 (((separated_append _ _).mp separated).2.2 other member span mem_cons_self)

/-- What lies behind a span in a separated list lies strictly after its end. -/
theorem Separated.back (covered : Covers after x) : span.hi < x :=
  ((separated_append _ _).mp separated).2.1.behind covered

/-- A span in the middle of a separated list is replaced by pieces that keep apart from the rest. -/
theorem Separated.replace {pieces : List (Span α)} (inner : Separated pieces)
    (lower : ∀ piece ∈ pieces, span.lo ≤ piece.lo ∨ ∀ other ∈ before, other.hi < piece.lo)
    (upper : ∀ piece ∈ pieces, piece.hi ≤ span.hi ∨ ∀ other ∈ after, piece.hi < other.lo) :
    Separated (before ++ (pieces ++ after)) := by
  obtain ⟨first, second, cross⟩ := (separated_append _ _).mp separated
  have behind := (pairwise_cons.mp second.apart).1
  refine (separated_append _ _).mpr ⟨first, (separated_append _ _).mpr
    ⟨inner, second.tail, fun piece member other inAfter => ?_⟩, fun other inBefore piece member => ?_⟩
  · rcases upper piece member with le | keeps
    · exact lt_of_le_of_lt le (behind other inAfter)
    · exact keeps other inAfter
  · rcases mem_append.mp member with inPieces | inAfter
    · rcases lower piece inPieces with le | keeps
      · exact lt_of_lt_of_le (cross other inBefore span mem_cons_self) le
      · exact keeps other inBefore
    · exact cross other inBefore piece (mem_cons_of_mem _ inAfter)

end Middle

/-- A separated list grows at its end by a span behind all its spans. -/
theorem separated_concat (separated : Separated spans) (nonempty : span.lo < span.hi)
    (behind : ∀ other ∈ spans, other.hi < span.lo) : Separated (spans ++ [span]) := by
  refine ⟨pairwise_append.mpr ⟨separated.apart, pairwise_singleton _ _, ?_⟩, ?_⟩
  · intro first member second last
    rw [mem_singleton.mp last]
    exact behind first member
  · intro other member
    rcases mem_append.mp member with member | member
    · exact separated.nonempty other member
    · rw [mem_singleton.mp member]
      exact nonempty

/-- The last span of a separated list may be widened to the right. -/
theorem Separated.widenLast {lo hi hi' : α} (separated : Separated (spans ++ [⟨lo, hi⟩]))
    (wider : hi ≤ hi') : Separated (spans ++ [⟨lo, hi'⟩]) := by
  obtain ⟨first, _, cross⟩ := pairwise_append.mp separated.apart
  have last := separated.nonempty ⟨lo, hi⟩ (by simp)
  refine separated_concat ⟨first, fun span member => ?_⟩ (lt_of_lt_of_le last wider) fun span member => ?_
  · exact separated.nonempty span (mem_append_left _ member)
  · exact cross span member ⟨lo, hi⟩ (by simp)

end Spans

end FreeWindows.Lib
