import FirebaseSwift.Firestore.FieldMasks
import FirebaseSwift.Firestore.UserDataParser

/-! What a part of the parser does, whatever was collected before: the condition on which it succeeds, the
paths that it adds to the field mask, the transforms that it adds, and its result. The paths still have to be
comparable with each other and with the mask. Parts in sequence add one after the other. -/

namespace FirebaseSwift.Firestore

open ComparedSets ExceptLoops ParseContext

variable {D α β : Type}

/-- What a part of the parser does. It never writes outside of an array. -/
structure Parses (parse : ParseM D α) (accepted : Prop) (paths : List FieldPath)
    (transforms : List (FieldTransform D)) (result : α) : Prop where
  ok_iff : ∀ accumulator output, parse accumulator = .ok output ↔ accepted ∧
    ∃ mask, insertAll FieldPath.compareTo accumulator.fieldMask paths = some mask ∧
      output = (result, ⟨mask, accumulator.fieldTransforms ++ transforms⟩)
  inBounds : ∀ accumulator, parse accumulator ≠ .error .outOfBounds

namespace Parses

variable {accepted accepted' : Prop} {paths paths' : List FieldPath} {transforms transforms' : List (FieldTransform D)}
  {result : α} {parse : ParseM D α}

theorem congr (h : Parses parse accepted paths transforms result) (haccepted : accepted ↔ accepted')
    (hpaths : paths = paths') (htransforms : transforms = transforms') :
    Parses parse accepted' paths' transforms' result := by
  rw [← hpaths, ← htransforms, ← propext haccepted]
  exact h

/-- Where nothing is accepted, nothing is said about the rest. -/
theorem of_not (h : Parses parse accepted paths transforms result) (hnot : ¬accepted)
    (paths' : List FieldPath) (transforms' : List (FieldTransform D)) (result' : α) :
    Parses parse False paths' transforms' result' where
  ok_iff accumulator output := iff_of_false (fun hok => hnot ((h.ok_iff accumulator output).mp hok).1) And.left
  inBounds := h.inBounds

theorem pure (result : α) : Parses (Pure.pure result : ParseM D α) True [] [] result where
  ok_iff accumulator output := by
    have hrun : (Pure.pure result : ParseM D α) accumulator = .ok (result, accumulator) := rfl
    rw [hrun, List.append_nil, true_and]
    constructor
    · intro h
      cases h
      exact ⟨accumulator.fieldMask, rfl, rfl⟩
    · rintro ⟨mask, hmask, rfl⟩
      cases hmask
      rfl
  inBounds _ := nofun

theorem throw (failure : ParseFailure) (h : failure ≠ .outOfBounds) (result : α) :
    Parses (MonadExcept.throw failure : ParseM D α) False paths transforms result where
  ok_iff _ _ := iff_of_false nofun And.left
  inBounds _ heq := h (Except.error.inj heq)

theorem bind {next : α → ParseM D β} {result' : β} (h : Parses parse accepted paths transforms result)
    (h' : Parses (next result) accepted' paths' transforms' result') :
    Parses (parse >>= next) (accepted ∧ accepted') (paths ++ paths') (transforms ++ transforms') result' where
  ok_iff accumulator output := by
    have hrun : (parse >>= next) accumulator = (parse accumulator >>= fun middle => next middle.1 middle.2) := rfl
    rw [hrun, bind_eq_ok, insertAll, List.foldlM_append]
    constructor
    · rintro ⟨middle, hmiddle, hnext⟩
      obtain ⟨haccepted, mask, hmask, rfl⟩ := (h.ok_iff _ _).mp hmiddle
      obtain ⟨haccepted', mask', hmask', rfl⟩ := (h'.ok_iff _ _).mp hnext
      refine ⟨⟨haccepted, haccepted'⟩, mask', Option.bind_eq_some_iff.mpr ⟨mask, hmask, hmask'⟩, ?_⟩
      rw [List.append_assoc]
    · rintro ⟨⟨haccepted, haccepted'⟩, mask', hmasks, rfl⟩
      obtain ⟨mask, hmask, hmask'⟩ := Option.bind_eq_some_iff.mp hmasks
      refine ⟨_, (h.ok_iff _ _).mpr ⟨haccepted, mask, hmask, rfl⟩, (h'.ok_iff _ _).mpr ⟨haccepted', mask', hmask', ?_⟩⟩
      rw [List.append_assoc]
  inBounds accumulator heq := by
    have hrun : (parse >>= next) accumulator = (parse accumulator >>= fun middle => next middle.1 middle.2) := rfl
    rw [hrun] at heq
    cases hparse : parse accumulator with
    | error failure =>
        rw [hparse] at heq
        cases heq
        exact h.inBounds accumulator hparse
    | ok middle =>
        obtain ⟨-, mask, -, rfl⟩ := (h.ok_iff _ _).mp hparse
        rw [hparse] at heq
        exact h'.inBounds _ heq

variable (message : Bytes) (path : FieldPath)

theorem throwInvalidArgument (result : α) :
    Parses (ParseContext.throwInvalidArgument message : ParseM D α) False paths transforms result :=
  throw (.invalidArgument message) nofun result

/-- A check in front of the rest -/
theorem check {c : Prop} [Decidable c] (h : ¬c → Parses parse accepted paths transforms result) :
    Parses (if c then ParseContext.throwInvalidArgument message else parse) (¬c ∧ accepted) paths transforms result := by
  split_ifs with hc
  · exact (throwInvalidArgument message result).congr (iff_of_false id fun hnot => hnot.1 hc) rfl rfl
  · exact (h hc).congr (and_iff_right hc).symm rfl rfl

theorem addToFieldMask : Parses (ParseContext.addToFieldMask path : ParseM D Unit) True [path] [] () where
  ok_iff accumulator output := by
    rw [ParseContext.addToFieldMask, insertAll, List.foldlM_cons, true_and, List.append_nil]
    cases insert FieldPath.compareTo path accumulator.fieldMask with
    | none =>
        refine iff_of_false (fun h => by cases h) ?_
        rintro ⟨_, hnone, _⟩
        cases hnone
    | some mask =>
        constructor
        · intro h
          cases h
          exact ⟨mask, rfl, rfl⟩
        · rintro ⟨mask', hmask, rfl⟩
          cases hmask
          rfl
  inBounds accumulator heq := by
    rw [ParseContext.addToFieldMask] at heq
    split at heq <;> cases heq

theorem addToFieldTransforms (transformation : TransformOperation D) :
    Parses (ParseContext.addToFieldTransforms path transformation : ParseM D Unit) True [] [⟨path, transformation⟩] () where
  ok_iff accumulator output := by
    have hrun : (ParseContext.addToFieldTransforms path transformation : ParseM D Unit) accumulator =
        .ok ((), ⟨accumulator.fieldMask, accumulator.fieldTransforms ++ [⟨path, transformation⟩]⟩) := rfl
    rw [hrun, true_and]
    constructor
    · intro h
      cases h
      exact ⟨accumulator.fieldMask, rfl, rfl⟩
    · rintro ⟨mask, hmask, rfl⟩
      cases hmask
      rfl
  inBounds _ := nofun

/-- Writing at an index that is in the array -/
theorem writeAt {array : List α} {index : Nat} (h : index < array.length) (entry : α) :
    Parses (Firestore.writeAt array index entry : ParseM D (List α)) True [] [] (array.set index entry) := by
  rw [Firestore.writeAt, if_pos h]
  exact pure _

/-- What is parsed with an accumulator of its own adds nothing. -/
theorem withAccumulator {parse : ParseM D α} (hok : ∀ output, parse {} = .ok output ↔ accepted ∧ output = (result, {}))
    (hinBounds : parse {} ≠ .error .outOfBounds) :
    Parses (UserDataParser.withAccumulator parse) accepted [] [] result where
  ok_iff accumulator output := by
    rw [UserDataParser.withAccumulator, List.append_nil]
    cases hparse : parse {} with
    | error failure =>
        refine iff_of_false nofun fun ⟨haccepted, _⟩ => ?_
        have hrun := (hok _).mpr ⟨haccepted, rfl⟩
        rw [hparse] at hrun
        cases hrun
    | ok inner =>
        obtain ⟨haccepted, rfl⟩ := (hok inner).mp hparse
        constructor
        · intro h
          cases h
          exact ⟨haccepted, accumulator.fieldMask, rfl, rfl⟩
        · rintro ⟨-, mask, hmask, rfl⟩
          cases hmask
          rfl
  inBounds accumulator heq := by
    rw [UserDataParser.withAccumulator] at heq
    split at heq
    · cases heq
    · cases heq
      exact hinBounds ‹_›

end Parses

end FirebaseSwift.Firestore
