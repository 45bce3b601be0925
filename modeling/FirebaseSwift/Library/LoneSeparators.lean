import Mathlib.Algebra.BigOperators.Group.List.Basic
import Mathlib.Algebra.GroupWithZero.Nat
import Mathlib.Data.List.Basic

/-! Splitting a sequence at a separator, where some elements join with the one before them or after them, as the
scalars of one character do. Only a separator that stands alone splits. The parts are those that were put together
exactly if no part has a separator that stands alone, and those between the parts do. -/

/-- What joins with the element before it, and with the element after it -/
structure Joining (α : Type) where
  extending : α → Bool
  prepending : α → Bool

namespace Joining

variable {α : Type} (joining : Joining α)

/-- Nothing at the start joins with an element before it. -/
def startsApart (text : List α) : Bool := !text.head?.any joining.extending

/-- Whether the end joins with an element after it, if what was before does as `joined` says -/
def joinsAfter (joined : Bool) (text : List α) : Bool := (text.getLast?.map joining.prepending).getD joined

/-- Puts a start before the first part. -/
def glue (start : List α) : List (List α) → List (List α)
  | [] => [start]
  | part :: parts => (start ++ part) :: parts

theorem joinsAfter_cons (joined : Bool) (c : α) (rest : List α) :
    joining.joinsAfter joined (c :: rest) = joining.joinsAfter (joining.prepending c) rest := by
  cases rest with
  | nil => rfl
  | cons c' rest => rfl

theorem joinsAfter_append (joined : Bool) (left right : List α) :
    joining.joinsAfter joined (left ++ right) = joining.joinsAfter (joining.joinsAfter joined left) right := by
  induction left generalizing joined with
  | nil => rfl
  | cons c left ih => rw [List.cons_append, joinsAfter_cons, joinsAfter_cons, ih]

theorem glue_glue (start middle : List α) {texts : List (List α)} :
    glue start (glue middle texts) = glue (start ++ middle) texts := by
  cases texts with
  | nil => rfl
  | cons part texts => rw [glue, glue, glue, List.append_assoc]

variable {joining} in
theorem startsApart_append {separator : α} (hextending : joining.extending separator = false) {start rest : List α} :
    joining.startsApart (start ++ separator :: rest) = joining.startsApart start := by
  cases start with
  | nil => exact congrArg not hextending
  | cons c start => rfl

/-- Some separator stands alone. -/
def Separates (separator : α) (joined : Bool) (text : List α) : Prop :=
  ∃ before after, text = before ++ separator :: after ∧ joining.joinsAfter joined before = false ∧
    joining.startsApart after = true

variable {joining} in
theorem not_separates_nil {separator : α} {joined : Bool} : ¬joining.Separates separator joined [] := by
  rintro ⟨before, after, htext, -⟩
  exact absurd htext.symm (List.append_ne_nil_of_right_ne_nil _ (List.cons_ne_nil _ _))

/-- An element that is a separator between parts: it joins with nothing before it or after it. -/
def IsLone [DecidableEq α] (separator : α) (joined : Bool) (c : α) (rest : List α) : Prop :=
  c = separator ∧ joined = false ∧ joining.startsApart rest = true

instance decidableIsLone [DecidableEq α] (separator : α) (joined : Bool) (c : α) (rest : List α) :
    Decidable (joining.IsLone separator joined c rest) := inferInstanceAs (Decidable (_ ∧ _ ∧ _))

variable [DecidableEq α]

/-- The parts of a text. Whether the element before the text joins with its first one is `joined`. -/
def parts (separator : α) : Bool → List α → List (List α)
  | _, [] => [[]]
  | joined, c :: rest =>
      if joining.IsLone separator joined c rest then [] :: parts separator (joining.prepending c) rest
      else glue [c] (parts separator (joining.prepending c) rest)

/-- What is before and after the first separator -/
def splitFirst (separator : α) : Bool → List α → Option (List α × List α)
  | _, [] => none
  | joined, c :: rest =>
      if joining.IsLone separator joined c rest then some ([], rest)
      else (splitFirst separator (joining.prepending c) rest).map fun split => (c :: split.1, split.2)

section Parts

variable {joining} {separator : α} {joined : Bool} {text : List α}

theorem parts_ne_nil : joining.parts separator joined text ≠ [] := by
  cases text with
  | nil => exact List.cons_ne_nil _ _
  | cons c rest =>
      rw [parts]
      split
      · exact List.cons_ne_nil _ _
      · cases joining.parts separator (joining.prepending c) rest with
        | nil => exact List.cons_ne_nil _ _
        | cons part parts => exact List.cons_ne_nil _ _

/-- The parts and the separators between them weigh what the text weighs. -/
theorem sum_parts (weight : α → Nat) (hweight : weight separator = 1) :
    ((joining.parts separator joined text).map fun part => (part.map weight).sum + 1).sum =
      (text.map weight).sum + 1 := by
  induction text generalizing joined with
  | nil => rfl
  | cons c rest ih =>
      have hrest := @ih (joining.prepending c)
      rw [parts, List.map_cons, List.sum_cons]
      split
      · rename_i hlone
        rw [List.map_cons, List.sum_cons, hrest, hlone.1, hweight]
        simp only [List.map_nil, List.sum_nil]
        omega
      · rcases hparts : joining.parts separator (joining.prepending c) rest with _ | ⟨part, parts⟩
        · exact absurd hparts parts_ne_nil
        · rw [hparts, List.map_cons, List.sum_cons] at hrest
          rw [glue, List.map_cons, List.sum_cons, List.singleton_append, List.map_cons, List.sum_cons]
          omega

theorem separates_cons {c : α} {rest : List α} : joining.Separates separator joined (c :: rest) ↔
    joining.IsLone separator joined c rest ∨ joining.Separates separator (joining.prepending c) rest := by
  constructor
  · rintro ⟨before, after, htext, hbefore, hafter⟩
    cases before with
    | nil =>
        obtain ⟨hc, hrest⟩ := List.cons.inj htext
        exact .inl ⟨hc, hbefore, hrest ▸ hafter⟩
    | cons c' before =>
        obtain ⟨rfl, hrest⟩ := List.cons.inj htext
        exact .inr ⟨before, after, hrest, by rw [← joinsAfter_cons joining joined, hbefore], hafter⟩
  · rintro (⟨rfl, hjoined, hrest⟩ | ⟨before, after, rfl, hbefore, hafter⟩)
    · exact ⟨[], rest, rfl, hjoined, hrest⟩
    · exact ⟨c :: before, after, rfl, by rw [joinsAfter_cons, hbefore], hafter⟩

/-- An element between two texts that joins with neither and is no separator -/
theorem separates_append {middle : α} (hne : middle ≠ separator) (hextending : joining.extending middle = false)
    (hprepending : joining.prepending middle = false) {left right : List α} :
    joining.Separates separator joined (left ++ middle :: right) ↔
      joining.Separates separator joined left ∨ joining.Separates separator false right := by
  induction left generalizing joined with
  | nil =>
      rw [List.nil_append, separates_cons, hprepending]
      constructor
      · rintro (hlone | hright)
        · exact absurd hlone.1 hne
        · exact .inr hright
      · rintro (hnil | hright)
        · exact absurd hnil not_separates_nil
        · exact .inr hright
  | cons c left ih =>
      rw [List.cons_append, separates_cons, separates_cons, ih, IsLone, IsLone, startsApart_append hextending, or_assoc]

/-- A text is its only part if no separator stands alone in it. -/
theorem parts_eq_singleton_iff :
    joining.parts separator joined text = [text] ↔ ¬joining.Separates separator joined text := by
  induction text generalizing joined with
  | nil => exact iff_of_true rfl not_separates_nil
  | cons c rest ih =>
      rw [parts, separates_cons, not_or, ← ih]
      by_cases hlone : joining.IsLone separator joined c rest
      · rw [if_pos hlone]
        refine iff_of_false (fun heq => ?_) (fun hnone => hnone.1 hlone)
        exact absurd (List.cons.inj heq).1 (List.cons_ne_nil _ _).symm
      · rw [if_neg hlone, and_iff_right hlone]
        rcases hparts : joining.parts separator (joining.prepending c) rest with _ | ⟨part, parts⟩
        · exact absurd hparts parts_ne_nil
        · rw [glue, List.singleton_append, List.cons.injEq, List.cons.injEq, List.cons.injEq]
          simp only [true_and]

/-- The parts with the separators between them are the text. -/
theorem intercalate_parts : [separator].intercalate (joining.parts separator joined text) = text := by
  induction text generalizing joined with
  | nil => rfl
  | cons c rest ih =>
      have hrest := @ih (joining.prepending c)
      rw [parts]
      rcases hparts : joining.parts separator (joining.prepending c) rest with _ | ⟨part, parts⟩
      · exact absurd hparts parts_ne_nil
      · rw [hparts] at hrest
        split
        · rename_i hlone
          rw [List.intercalate_cons_cons, hrest, hlone.1]
          rfl
        · rw [glue, List.singleton_append, List.intercalate_cons_cons_left, hrest]

/-! ### A separator that does not join with others -/

variable (hextending : joining.extending separator = false) (hprepending : joining.prepending separator = false)

include hextending

variable {part : List α} {texts : List (List α)}

theorem startsApart_part (h : joining.parts separator joined text = part :: texts) :
    joining.startsApart part = joining.startsApart text := by
  cases text with
  | nil =>
      cases h
      rfl
  | cons c rest =>
      rw [parts] at h
      split at h
      · rename_i hlone
        cases h
        rw [hlone.1]
        exact (congrArg not hextending).symm
      · rcases hparts : joining.parts separator (joining.prepending c) rest with _ | ⟨first, texts'⟩
        · exact absurd hparts parts_ne_nil
        · rw [hparts] at h
          cases h
          rfl

/-- What is before the first separator that stands alone has none. -/
theorem splitFirst_eq_some_iff {before after : List α} :
    joining.splitFirst separator joined text = some (before, after) ↔
      text = before ++ separator :: after ∧ ¬joining.Separates separator joined before ∧
        joining.joinsAfter joined before = false ∧ joining.startsApart after = true := by
  induction text generalizing joined before with
  | nil =>
      refine iff_of_false nofun ?_
      rintro ⟨htext, -⟩
      exact absurd htext.symm (List.append_ne_nil_of_right_ne_nil _ (List.cons_ne_nil _ _))
  | cons c rest ih =>
      rw [splitFirst]
      by_cases hlone : joining.IsLone separator joined c rest
      · rw [if_pos hlone, Option.some_inj, Prod.mk.injEq]
        constructor
        · rintro ⟨rfl, rfl⟩
          exact ⟨by rw [hlone.1]; rfl, not_separates_nil, hlone.2.1, hlone.2.2⟩
        · rintro ⟨htext, hnone, -⟩
          cases before with
          | nil => exact ⟨rfl, (List.cons.inj htext).2⟩
          | cons c' before =>
              obtain ⟨rfl, rfl⟩ := List.cons.inj htext
              refine absurd (separates_cons.mpr (.inl ⟨hlone.1, hlone.2.1, ?_⟩)) hnone
              rw [← startsApart_append hextending]
              exact hlone.2.2
      · rw [if_neg hlone]
        cases before with
        | nil =>
            refine iff_of_false (fun heq => ?_) ?_
            · obtain ⟨split, -, hsplit⟩ := Option.map_eq_some_iff.mp heq
              exact absurd (Prod.mk.inj hsplit).1 (List.cons_ne_nil _ _)
            · rintro ⟨htext, -, hjoined, hafter⟩
              obtain ⟨rfl, rfl⟩ := List.cons.inj htext
              exact hlone ⟨rfl, hjoined, hafter⟩
        | cons c' before =>
            have hmap : (joining.splitFirst separator (joining.prepending c) rest).map
                  (fun split => (c :: split.1, split.2)) = some (c' :: before, after) ↔
                c = c' ∧ joining.splitFirst separator (joining.prepending c) rest = some (before, after) := by
              rw [Option.map_eq_some_iff]
              constructor
              · rintro ⟨split, hsplit, heq⟩
                obtain ⟨hcons, hafter⟩ := Prod.mk.inj heq
                obtain ⟨hc, hbefore⟩ := List.cons.inj hcons
                rw [← hbefore, ← hafter]
                exact ⟨hc, hsplit⟩
              · rintro ⟨rfl, hsplit⟩
                exact ⟨_, hsplit, rfl⟩
            rw [hmap, ih, List.cons_append, List.cons.injEq, joinsAfter_cons, separates_cons, not_or]
            constructor
            · rintro ⟨rfl, rfl, hnone, hbefore, hafter⟩
              refine ⟨⟨rfl, rfl⟩, ⟨?_, hnone⟩, hbefore, hafter⟩
              rw [IsLone, ← startsApart_append hextending]
              exact hlone
            · rintro ⟨⟨rfl, hrest⟩, ⟨-, hnone⟩, hbefore, hafter⟩
              exact ⟨rfl, hrest, hnone, hbefore, hafter⟩

include hprepending

/-- No separator stands alone in a part. -/
theorem parts_part (h : joining.parts separator joined text = part :: texts) :
    joining.parts separator joined part = [part] ∧
      ∀ other ∈ texts, joining.parts separator false other = [other] := by
  induction text generalizing joined part texts with
  | nil =>
      cases h
      exact ⟨rfl, nofun⟩
  | cons c rest ih =>
      rw [parts] at h
      rcases hparts : joining.parts separator (joining.prepending c) rest with _ | ⟨first, texts'⟩
      · exact absurd hparts parts_ne_nil
      · obtain ⟨hfirst, hothers⟩ := ih hparts
        rw [hparts] at h
        split at h
        · rename_i hlone
          cases h
          rw [hlone.1, hprepending] at hfirst
          exact ⟨rfl, List.forall_mem_cons.mpr ⟨hfirst, hothers⟩⟩
        · rename_i hlone
          cases h
          refine ⟨?_, hothers⟩
          rw [List.singleton_append, parts, if_neg, hfirst]
          · rfl
          · rw [IsLone, startsApart_part hextending hparts]
            exact hlone

theorem parts_of_mem (h : part ∈ joining.parts separator false text) :
    joining.parts separator false part = [part] := by
  rcases hparts : joining.parts separator false text with _ | ⟨first, others⟩
  · exact absurd hparts parts_ne_nil
  · obtain ⟨hfirst, hothers⟩ := parts_part hextending hprepending hparts
    rw [hparts] at h
    rcases List.mem_cons.mp h with rfl | hmem
    · exact hfirst
    · exact hothers part hmem

/-- Where a text goes on after a separator, this is a part of its own or the separator joins. -/
theorem parts_append (h : joining.parts separator joined text = [text]) (rest : List α) :
    joining.parts separator joined (text ++ separator :: rest) =
      if joining.joinsAfter joined text = false ∧ joining.startsApart rest = true then
        text :: joining.parts separator false rest
      else glue (text ++ [separator]) (joining.parts separator false rest) := by
  induction text generalizing joined with
  | nil =>
      rw [List.nil_append, parts, hprepending, List.nil_append]
      by_cases hlone : joining.IsLone separator joined separator rest
      · rw [if_pos hlone, if_pos ⟨hlone.2.1, hlone.2.2⟩]
      · rw [if_neg hlone, if_neg fun hapart => hlone ⟨rfl, hapart.1, hapart.2⟩]
  | cons c text ih =>
      rw [parts] at h
      have hlone : ¬joining.IsLone separator joined c text := by
        intro hlone
        rw [if_pos hlone] at h
        exact absurd (List.cons.inj h).1 (List.cons_ne_nil _ _).symm
      rw [if_neg hlone] at h
      have hwhole : joining.parts separator (joining.prepending c) text = [text] := by
        rcases hparts : joining.parts separator (joining.prepending c) text with _ | ⟨part, parts⟩
        · exact absurd hparts parts_ne_nil
        · rw [hparts, glue, List.singleton_append, List.cons.injEq, List.cons.injEq] at h
          rw [h.1.2, h.2]
      rw [List.cons_append, parts, if_neg, ih hwhole, joinsAfter_cons]
      · split
        · rfl
        · exact glue_glue _ _
      · rw [IsLone, startsApart_append hextending]
        exact hlone

/-- Putting parts together and splitting again gives the parts exactly if none is split itself and the separators
between them stand alone. -/
theorem parts_intercalate (texts : List (List α)) (hne : texts ≠ []) (hwhole : ∀ text ∈ texts,
      joining.parts separator false text = [text]) :
    (joining.parts separator false ([separator].intercalate texts)).length ≤ texts.length ∧
      ((joining.parts separator false ([separator].intercalate texts)).length = texts.length ↔
        texts.IsChain fun left right =>
          joining.joinsAfter false left = false ∧ joining.startsApart right = true) ∧
      (texts.IsChain (fun left right =>
          joining.joinsAfter false left = false ∧ joining.startsApart right = true) →
        joining.parts separator false ([separator].intercalate texts) = texts) := by
  induction texts with
  | nil => exact absurd rfl hne
  | cons text texts ih =>
      obtain ⟨htext, hrest⟩ := List.forall_mem_cons.mp hwhole
      cases texts with
      | nil =>
          rw [List.intercalate_singleton, htext]
          exact ⟨Nat.le_refl _, iff_of_true rfl (List.IsChain.singleton _), fun _ => rfl⟩
      | cons next texts =>
          obtain ⟨hle, hiff, heq⟩ := ih (List.cons_ne_nil _ _) hrest
          have hstart : joining.startsApart ([separator].intercalate (next :: texts)) = joining.startsApart next := by
            cases texts with
            | nil => rw [List.intercalate_singleton]
            | cons more texts =>
                rw [List.intercalate_cons_cons, List.append_assoc, List.singleton_append,
                  startsApart_append hextending]
          rw [List.intercalate_cons_cons, List.append_assoc, List.singleton_append,
            parts_append hextending hprepending htext, hstart, List.isChain_cons_cons]
          by_cases hapart : joining.joinsAfter false text = false ∧ joining.startsApart next = true
          · rw [if_pos hapart, List.length_cons, List.length_cons]
            refine ⟨by omega, ?_, fun hchain => by rw [heq hchain.2]⟩
            rw [and_iff_right hapart, ← hiff, Nat.add_right_cancel_iff]
          · rw [if_neg hapart]
            have hglue : (glue (text ++ [separator])
                (joining.parts separator false ([separator].intercalate (next :: texts)))).length =
                  (joining.parts separator false ([separator].intercalate (next :: texts))).length := by
              rcases hparts : joining.parts separator false ([separator].intercalate (next :: texts)) with
                _ | ⟨part, parts⟩
              · exact absurd hparts parts_ne_nil
              · rfl
            rw [hglue, List.length_cons]
            refine ⟨by omega, iff_of_false (by omega) fun hchain => hapart hchain.1, fun hchain => ?_⟩
            exact absurd hchain.1 hapart

end Parts

end Joining
