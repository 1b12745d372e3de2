import SignalPatch.Proofs.Language.Evaluation

/-!
# Places of filter calls

The filter calls of a text are found at different places, and there are as many
of them as the text uses up sites.
-/

namespace SignalPatch

/-- Of a list from some point on, the second part stands behind the first. -/
theorem prefix_drop_of_append {Item : Type} {first second items : List Item} {count : Nat}
    (within : first ++ second <+: items.drop count) :
    first <+: items.drop count ∧ second <+: items.drop (count + first.length) := by
  obtain ⟨rest, restEq⟩ := within
  refine ⟨⟨second ++ rest, by rw [← restEq, List.append_assoc]⟩, rest, ?_⟩
  rw [← List.drop_drop, ← restEq, List.append_assoc, List.drop_left]

/-- Different steps lead to different places. -/
theorem Place.step_eq_of_suffix {first second : Nat} {place inner : Place}
    (firstWithin : first :: place <:+ inner) (secondWithin : second :: place <:+ inner) :
    first = second := by
  have lengthEq : (first :: place).length ≤ (second :: place).length := Nat.le_refl _
  have within := List.suffix_of_suffix_length_le firstWithin secondWithin lengthEq
  exact (List.cons.inj (within.eq_of_length rfl)).1

theorem Builtin.sitesOfName_le_one (name : String) : sitesOfName name ≤ 1 := by
  unfold sitesOfName
  cases ofName? name with
  | none => exact Nat.zero_le 1
  | some function => cases function <;> decide

namespace Expression

mutual

/-- The places of the filter calls in the expression at a place, in the order of their sites. -/
def filterPlaces (place : Place) : Expression → List Place
  | literal .. | reference .. => []
  | negate operand _ => operand.filterPlaces (0 :: place)
  | binary _ left right _ => left.filterPlaces (0 :: place) ++ right.filterPlaces (1 :: place)
  | call name arguments _ =>
      filterPlacesOfAll place 0 arguments ++ List.replicate (Builtin.sitesOfName name) place

def filterPlacesOfAll (place : Place) (index : Nat) : List Expression → List Place
  | [] => []
  | argument :: others =>
      argument.filterPlaces (index :: place) ++ filterPlacesOfAll place (index + 1) others

end

mutual

theorem length_filterPlaces (source : Expression) (place : Place) :
    (source.filterPlaces place).length = source.sites := by
  cases source with
  | literal | reference => rfl
  | negate operand position => exact length_filterPlaces operand _
  | binary operator left right position =>
      simp only [filterPlaces, sites, List.length_append, length_filterPlaces]
  | call name arguments position =>
      simp only [filterPlaces, sites, List.length_append, List.length_replicate,
        length_filterPlacesOfAll]

theorem length_filterPlacesOfAll (sources : List Expression) (place : Place) (index : Nat) :
    (filterPlacesOfAll place index sources).length = sitesOfAll sources := by
  cases sources with
  | nil => rfl
  | cons source others =>
      simp only [filterPlacesOfAll, sitesOfAll, List.length_append, length_filterPlaces,
        length_filterPlacesOfAll]

end

mutual

/-- The filter calls in an expression lie within it. -/
theorem suffix_of_mem_filterPlaces (source : Expression) (place inner : Place)
    (member : inner ∈ source.filterPlaces place) : place <:+ inner := by
  cases source with
  | literal | reference => cases member
  | negate operand position =>
      exact (List.suffix_cons 0 place).trans (suffix_of_mem_filterPlaces operand _ _ member)
  | binary operator left right position =>
      rcases List.mem_append.mp member with inLeft | inRight
      · exact (List.suffix_cons 0 place).trans (suffix_of_mem_filterPlaces left _ _ inLeft)
      · exact (List.suffix_cons 1 place).trans (suffix_of_mem_filterPlaces right _ _ inRight)
  | call name arguments position =>
      rcases List.mem_append.mp member with inArguments | here
      · obtain ⟨index, _, within⟩ := suffix_of_mem_filterPlacesOfAll arguments _ 0 _ inArguments
        exact (List.suffix_cons index place).trans within
      · obtain ⟨_, rfl⟩ := List.mem_replicate.mp here
        exact List.suffix_refl _

theorem suffix_of_mem_filterPlacesOfAll (sources : List Expression) (place : Place)
    (index : Nat) (inner : Place) (member : inner ∈ filterPlacesOfAll place index sources) :
    ∃ step, index ≤ step ∧ step :: place <:+ inner := by
  cases sources with
  | nil => cases member
  | cons source others =>
      rcases List.mem_append.mp member with inSource | inOthers
      · exact ⟨index, Nat.le_refl index, suffix_of_mem_filterPlaces source _ _ inSource⟩
      · obtain ⟨step, later, within⟩ :=
          suffix_of_mem_filterPlacesOfAll others place (index + 1) inner inOthers
        exact ⟨step, by omega, within⟩

end

mutual

/-- No two filter calls have the same place. -/
theorem nodup_filterPlaces (source : Expression) (place : Place) :
    (source.filterPlaces place).Nodup := by
  cases source with
  | literal | reference => exact List.nodup_nil
  | negate operand position => exact nodup_filterPlaces operand _
  | binary operator left right position =>
      refine List.nodup_append.mpr ⟨nodup_filterPlaces left _, nodup_filterPlaces right _, ?_⟩
      rintro first inLeft second inRight rfl
      have stepEq := Place.step_eq_of_suffix (suffix_of_mem_filterPlaces left _ _ inLeft)
        (suffix_of_mem_filterPlaces right _ _ inRight)
      exact absurd stepEq (by decide)
  | call name arguments position =>
      refine List.nodup_append.mpr ⟨nodup_filterPlacesOfAll arguments place 0, ?_, ?_⟩
      · exact List.nodup_replicate.mpr (Builtin.sitesOfName_le_one name)
      · rintro first inArguments second here rfl
        obtain ⟨step, _, within⟩ :=
          suffix_of_mem_filterPlacesOfAll arguments place 0 first inArguments
        rw [(List.mem_replicate.mp here).2] at within
        have tooLong := within.length_le
        simp only [List.length_cons] at tooLong
        omega

theorem nodup_filterPlacesOfAll (sources : List Expression) (place : Place) (index : Nat) :
    (filterPlacesOfAll place index sources).Nodup := by
  cases sources with
  | nil => exact List.nodup_nil
  | cons source others =>
      refine List.nodup_append.mpr
        ⟨nodup_filterPlaces source _, nodup_filterPlacesOfAll others place (index + 1), ?_⟩
      rintro first inSource second inOthers rfl
      obtain ⟨step, later, within⟩ :=
        suffix_of_mem_filterPlacesOfAll others place (index + 1) first inOthers
      have stepEq := Place.step_eq_of_suffix (suffix_of_mem_filterPlaces source _ _ inSource)
        within
      omega

end

end Expression

namespace Statement

def filterPlacesOfAll (index : Nat) : List Statement → List Place
  | [] => []
  | statement :: others =>
      statement.value.filterPlaces [index] ++ filterPlacesOfAll (index + 1) others

theorem length_filterPlacesOfAll (statements : List Statement) (index : Nat) :
    (filterPlacesOfAll index statements).length = sitesOfAll statements := by
  induction statements generalizing index with
  | nil => rfl
  | cons statement others ih =>
      simp only [filterPlacesOfAll, List.length_append, Expression.length_filterPlaces, ih,
        sitesOfAll]

theorem suffix_of_mem_filterPlacesOfAll (statements : List Statement) (index : Nat)
    (inner : Place) (member : inner ∈ filterPlacesOfAll index statements) :
    ∃ step, index ≤ step ∧ [step] <:+ inner := by
  induction statements generalizing index with
  | nil => cases member
  | cons statement others ih =>
      rcases List.mem_append.mp member with inStatement | inOthers
      · exact ⟨index, Nat.le_refl index,
          Expression.suffix_of_mem_filterPlaces statement.value _ _ inStatement⟩
      · obtain ⟨step, later, within⟩ := ih (index + 1) inOthers
        exact ⟨step, by omega, within⟩

theorem nodup_filterPlacesOfAll (statements : List Statement) (index : Nat) :
    (filterPlacesOfAll index statements).Nodup := by
  induction statements generalizing index with
  | nil => exact List.nodup_nil
  | cons statement others ih =>
      refine List.nodup_append.mpr
        ⟨Expression.nodup_filterPlaces statement.value _, ih (index + 1), ?_⟩
      rintro first inStatement second inOthers rfl
      obtain ⟨step, later, within⟩ :=
        suffix_of_mem_filterPlacesOfAll others (index + 1) first inOthers
      have stepEq := Place.step_eq_of_suffix
        (Expression.suffix_of_mem_filterPlaces statement.value _ _ inStatement) within
      omega

end Statement

end SignalPatch
