import Stencil.Proofs.Placeholder

/-!
# Where the placeholders of a line stand

Which bytes of a line are placeholders is told from where the markers stand in it.  An opening
marker begins a placeholder when a closing marker follows it near enough, with no other opening
marker on the way.  Placeholders are taken from left to right, so that no placeholder begins inside
of one that is taken already.
-/

namespace Stencil.Placeholder

/-- A marker stands at an offset of a line with its meaning: the escape is not directly before it. -/
def Stands (line marker : List UInt8) (offset : Nat) : Prop :=
  ∃ before after, line = before ++ (marker ++ after) ∧ before.length = offset ∧
    before.getLast? ≠ some escape

section Stands

variable {line marker : List UInt8} {offset : Nat}

/-- The byte before an offset is the last one of those before it. -/
theorem escapedAt_length (before after : List UInt8) :
    escapedAt (before ++ after).toArray before.length = true ↔ before.getLast? = some escape := by
  rcases List.eq_nil_or_concat before with rfl | ⟨front, last, rfl⟩
  · simp [escapedAt]
  · simp [escapedAt]

theorem markerAt_iff (nonempty : marker ≠ []) :
    markerAt line.toArray offset marker = true ↔ Stands line marker offset := by
  rw [markerAt, Bool.and_eq_true, Text.standsAt_iff, Bool.not_eq_true']
  constructor
  · rintro ⟨⟨after, begins⟩, plain⟩
    have inside : offset ≤ line.length := by
      refine Nat.le_of_not_lt fun beyond => nonempty ?_
      rw [List.drop_eq_nil_of_le (Nat.le_of_lt beyond)] at begins
      exact (List.append_eq_nil_iff.mp begins).1
    have length : (line.take offset).length = offset := List.length_take_of_le inside
    refine ⟨line.take offset, after, by rw [begins, List.take_append_drop], length, ?_⟩
    rw [Ne, ← escapedAt_length _ (line.drop offset), List.take_append_drop, length, plain]
    exact Bool.false_ne_true
  · rintro ⟨before, after, rfl, rfl, plain⟩
    rw [Ne, ← escapedAt_length before (marker ++ after), Bool.not_eq_true] at plain
    exact ⟨⟨after, by simp⟩, plain⟩

/-- Behind an offset at which a marker stands there is room for the marker. -/
theorem Stands.add_length_le (stands : Stands line marker offset) :
    offset + marker.length ≤ line.length := by
  obtain ⟨before, after, rfl, rfl, -⟩ := stands
  simp only [List.length_append]
  omega

end Stands

namespace Markers

section Definitions

variable (markers : Markers) (line : List UInt8)

/-- A closing marker belongs to the opening marker at an offset: it is the first one behind that
marker, within its reach, and no other opening marker stands on the way. -/
structure Closes (opening closing : Nat) : Prop where
  behind : opening + markers.opening.length ≤ closing
  near : closing ≤ opening + markers.reach
  stands : Stands line markers.closing closing
  least : ∀ offset, opening + markers.opening.length ≤ offset → offset < closing →
    ¬Stands line markers.closing offset
  alone : ∀ offset, opening < offset → offset < closing → ¬Stands line markers.opening offset

/-- The markers of a placeholder stand where a span says. -/
structure Encloses (span : Span) : Prop where
  stands : Stands line markers.opening span.opening
  closes : markers.Closes line span.opening span.closing

/-- An offset lies inside of a placeholder, behind its beginning. -/
def Covers (span : Span) (offset : Nat) : Prop :=
  span.opening < offset ∧ offset < span.closing + markers.closing.length

/-- Spans are the placeholders of a line.  They follow each other, and outside of them no
placeholder is left. -/
structure Reading (spans : List Span) : Prop where
  apart : spans.Pairwise fun first second =>
    first.closing + markers.closing.length ≤ second.opening
  mem_iff : ∀ span, span ∈ spans ↔
    markers.Encloses line span ∧ ∀ other ∈ spans, ¬markers.Covers other span.opening

end Definitions

variable {markers : Markers} {line : List UInt8}

/-- One closing marker belongs to an opening marker. -/
theorem Closes.unique {opening first second : Nat} (closes : markers.Closes line opening first)
    (also : markers.Closes line opening second) : first = second := by
  rcases Nat.lt_trichotomy first second with before | same | behind
  · exact absurd closes.stands (also.least first closes.behind before)
  · exact same
  · exact absurd also.stands (closes.least second also.behind behind)

/-- Spans are the placeholders of a line that begin at an offset or later, when those that begin
before it are left out of sight. -/
structure ReadingFrom (markers : Markers) (line : List UInt8) (offset : Nat) (spans : List Span) :
    Prop where
  later : ∀ span ∈ spans, offset ≤ span.opening
  apart : spans.Pairwise fun first second =>
    first.closing + markers.closing.length ≤ second.opening
  mem_iff : ∀ span : Span, offset ≤ span.opening → (span ∈ spans ↔
    markers.Encloses line span ∧ ∀ other ∈ spans, ¬markers.Covers other span.opening)

/-- Where no placeholder begins, those that begin later are all that are left. -/
theorem ReadingFrom.pass {offset : Nat} {spans : List Span}
    (reading : markers.ReadingFrom line (offset + 1) spans)
    (missing : ∀ closing, ¬markers.Encloses line ⟨offset, closing⟩) :
    markers.ReadingFrom line offset spans := by
  refine ⟨fun span member => Nat.le_of_succ_le (reading.later span member), reading.apart, ?_⟩
  intro span reached
  rcases Nat.eq_or_lt_of_le reached with rfl | beyond
  · refine ⟨fun member => ?_, fun encloses => absurd encloses.1 (missing span.closing)⟩
    exact absurd (reading.later span member) (Nat.not_succ_le_self _)
  · exact reading.mem_iff span beyond

/-- A placeholder comes before those that begin behind it, and none begins inside of it. -/
theorem ReadingFrom.cons {span : Span} {spans : List Span}
    (reading : markers.ReadingFrom line (span.closing + markers.closing.length) spans)
    (encloses : markers.Encloses line span) :
    markers.ReadingFrom line span.opening (span :: spans) := by
  have behind := encloses.closes.behind
  refine ⟨?_, List.pairwise_cons.mpr ⟨reading.later, reading.apart⟩, fun other reached => ?_⟩
  · intro other member
    rcases List.mem_cons.mp member with rfl | member
    · exact Nat.le_refl _
    · have := reading.later other member
      omega
  · rw [List.mem_cons, List.forall_mem_cons]
    by_cases beyond : span.closing + markers.closing.length ≤ other.opening
    · have uncovered : ¬markers.Covers span other.opening :=
        fun covers => Nat.not_lt.mpr beyond covers.2
      rw [reading.mem_iff other beyond]
      constructor
      · rintro (rfl | ⟨inner, clear⟩)
        · refine ⟨encloses, uncovered, fun third member covers => ?_⟩
          have := reading.later third member
          exact absurd covers.1 (by omega)
        · exact ⟨inner, uncovered, clear⟩
      · rintro ⟨inner, -, clear⟩
        exact .inr ⟨inner, clear⟩
    · have absent : other ∉ spans := fun member => beyond (reading.later other member)
      rw [or_iff_left absent]
      constructor
      · rintro rfl
        refine ⟨encloses, fun covers => Nat.lt_irrefl _ covers.1, fun third member covers => ?_⟩
        have := reading.later third member
        exact absurd covers.1 (by omega)
      · rintro ⟨inner, uncovered, -⟩
        have start : other.opening = span.opening := by
          refine Nat.le_antisymm (Nat.le_of_not_lt fun inside => uncovered ⟨inside, ?_⟩) reached
          exact Nat.lt_of_not_le beyond
        have closes := inner.closes
        rw [start] at closes
        exact congr (congrArg Span.mk start) (closes.unique encloses.closes)

section Search

variable (opens : markers.opening ≠ []) (ends : markers.closing ≠ [])
  (fits : line.length ≤ lastOffset)

include opens ends fits

/-- What the search from an offset finds. -/
theorem closingFrom?_eq_some_iff {opening offset closing : Nat} :
    markers.closingFrom? line.toArray opening offset = some closing ↔
      offset ≤ closing ∧ opening + markers.opening.length ≤ closing ∧
        closing ≤ opening + markers.reach ∧ Stands line markers.closing closing ∧
          ∀ other, offset ≤ other → other < closing →
            (opening + markers.opening.length ≤ other → ¬Stands line markers.closing other) ∧
              ¬Stands line markers.opening other := by
  have standing : ∀ {offset}, markerAt line.toArray offset markers.closing = true ↔
    Stands line markers.closing offset := markerAt_iff ends
  have beginning : ∀ {offset}, markerAt line.toArray offset markers.opening = true ↔
    Stands line markers.opening offset := markerAt_iff opens
  fun_induction markers.closingFrom? line.toArray opening offset with
  | case1 offset within found =>
      rw [standing] at found
      constructor
      · rintro ⟨⟩
        have near := Nat.le_trans within.2 (Nat.min_le_left _ _)
        exact ⟨Nat.le_refl _, found.1, near, found.2, fun other later before => by omega⟩
      · rintro ⟨later, -, -, -, clear⟩
        rcases Nat.eq_or_lt_of_le later with rfl | before
        · rfl
        · exact absurd found.2 ((clear offset (Nat.le_refl _) before).1 found.1)
  | case2 offset within missing newer =>
      rw [standing] at missing
      rw [beginning] at newer
      refine ⟨fun found => absurd found (Option.some_ne_none closing).symm, ?_⟩
      rintro ⟨later, behind, -, stands, clear⟩
      rcases Nat.eq_or_lt_of_le later with rfl | before
      · exact absurd ⟨behind, stands⟩ missing
      · exact absurd newer (clear offset (Nat.le_refl _) before).2
  | case3 offset within missing plain ih =>
      rw [standing] at missing
      rw [beginning] at plain
      refine Iff.trans ih ?_
      constructor
      · rintro ⟨later, behind, near, stands, clear⟩
        refine ⟨Nat.le_of_succ_le later, behind, near, stands, fun other from_ before => ?_⟩
        rcases Nat.eq_or_lt_of_le from_ with rfl | beyond
        · exact ⟨fun reached there => missing ⟨reached, there⟩, plain⟩
        · exact clear other beyond before
      · rintro ⟨later, behind, near, stands, clear⟩
        refine ⟨?_, behind, near, stands, fun other beyond => clear other (Nat.le_of_succ_le beyond)⟩
        rcases Nat.eq_or_lt_of_le later with rfl | before
        · exact absurd ⟨behind, stands⟩ missing
        · exact before
  | case4 offset outside =>
      refine ⟨fun found => absurd found (Option.some_ne_none closing).symm, ?_⟩
      rintro ⟨later, -, near, stands, -⟩
      refine absurd ?_ outside
      have room := stands.add_length_le
      have positive := List.length_pos_iff.mpr ends
      -- the greatest offset does not bound the search inside of the line
      have bound : offset ≤ markers.limit opening := by
        rw [limit, Nat.le_min]
        omega
      exact ⟨by rw [List.size_toArray]; omega, bound⟩

/-- The search finds the closing marker that belongs to an opening marker. -/
theorem closing?_eq_some_iff {opening closing : Nat} :
    markers.closing? line.toArray opening = some closing ↔ markers.Closes line opening closing := by
  rw [closing?, closingFrom?_eq_some_iff opens ends fits]
  have positive := List.length_pos_iff.mpr opens
  constructor
  · rintro ⟨-, behind, near, stands, clear⟩
    exact ⟨behind, near, stands,
      fun offset reached before => (clear offset (by omega) before).1 reached,
      fun offset later before => (clear offset later before).2⟩
  · rintro ⟨behind, near, stands, least, alone⟩
    exact ⟨by omega, behind, near, stands,
      fun other later before => ⟨fun reached => least other reached before, alone other later before⟩⟩

/-- The spans from an offset on are the placeholders that begin there or later. -/
theorem readingFrom_spansFrom (offset : Nat) :
    markers.ReadingFrom line offset (markers.spansFrom line.toArray offset) := by
  have beginning : ∀ {offset}, markerAt line.toArray offset markers.opening = true ↔
    Stands line markers.opening offset := markerAt_iff opens
  have found_iff : ∀ {opening closing}, markers.closing? line.toArray opening = some closing ↔
    markers.Closes line opening closing := closing?_eq_some_iff opens ends fits
  fun_induction markers.spansFrom line.toArray offset with
  | case1 offset inside stands missing ih =>
      refine ih.pass fun closing encloses => ?_
      have found := found_iff.mpr encloses.closes
      rw [missing] at found
      cases found
  | case2 offset inside stands closing found ih =>
      exact @ReadingFrom.cons _ _ ⟨offset, closing⟩ _ ih ⟨beginning.mp stands, found_iff.mp found⟩
  | case3 offset inside plain ih =>
      rw [beginning] at plain
      exact ih.pass fun closing encloses => plain encloses.stands
  | case4 offset outside =>
      refine ⟨fun _ member => absurd member List.not_mem_nil, List.Pairwise.nil, fun span reached =>
        ⟨fun member => absurd member List.not_mem_nil, fun encloses => ?_⟩⟩
      have room := encloses.1.stands.add_length_le
      have positive := List.length_pos_iff.mpr opens
      exact absurd (by rw [List.size_toArray]; omega) outside

/-- The spans of a line are its placeholders. -/
theorem reading_spans : markers.Reading line (markers.spans line.toArray) := by
  obtain ⟨-, apart, exact⟩ := readingFrom_spansFrom opens ends fits 0
  exact ⟨apart, fun span => exact span (Nat.zero_le _)⟩

end Search

end Markers

end Stencil.Placeholder
